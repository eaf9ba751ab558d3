/-
# Numbers in digits, the most significant first

Digits of one length are determined by their value (`eq_of_value_eq`), and how many zeros there
are in front says below which power of the base the value is (`le_zeros_iff`).  Writing out each
digit in a smaller base keeps the value (`value_flatMap_expand`), so what holds of the bits of a
number can be told from its bytes.
-/
import Mathlib.Data.Nat.Digits.Defs

namespace Digits

/-- The value of a list of digits, the most significant first. -/
def value (b : ℕ) (l : List ℕ) : ℕ := Nat.ofDigits b l.reverse

/-- The number of zeros in front. -/
def zeros (l : List ℕ) : ℕ := (l.takeWhile (fun d => d == 0)).length

/-- The last `w` digits of a number. -/
def expand (b w n : ℕ) : List ℕ := (List.range w).map (fun i => n / b ^ (w - 1 - i) % b)

variable {b : ℕ}

/-! ## Values -/

@[simp] theorem value_nil : value b [] = 0 := rfl

theorem value_cons (d : ℕ) (l : List ℕ) : value b (d :: l) = d * b ^ l.length + value b l := by
  rw [value, value, Nat.ofDigits_reverse_cons, Nat.add_comm, Nat.mul_comm]

theorem value_append (l l' : List ℕ) :
    value b (l ++ l') = value b l * b ^ l'.length + value b l' := by
  rw [value, value, value, List.reverse_append, Nat.ofDigits_append, List.length_reverse,
    Nat.add_comm, Nat.mul_comm]

theorem value_lt (hb : 1 < b) {l : List ℕ} (h : ∀ d ∈ l, d < b) : value b l < b ^ l.length := by
  have hlt := Nat.ofDigits_lt_base_pow_length hb (fun d hd => h d (List.mem_reverse.mp hd))
  rwa [List.length_reverse] at hlt

/-- Horner's rule. -/
theorem value_eq_foldl (l : List ℕ) : value b l = l.foldl (fun v d => d + b * v) 0 := by
  rw [value, Nat.ofDigits_eq_foldr, List.foldr_reverse]
  rfl

/-- Digits of one length are determined by their value. -/
theorem eq_of_value_eq (hb : 1 < b) {l l' : List ℕ} (hlen : l.length = l'.length)
    (h : ∀ d ∈ l, d < b) (h' : ∀ d ∈ l', d < b) (hvalue : value b l = value b l') : l = l' := by
  have hrev : l.reverse = l'.reverse :=
    Nat.ofDigits_inj_of_len_eq hb (by rwa [List.length_reverse, List.length_reverse])
      (fun d hd => h d (List.mem_reverse.mp hd)) (fun d hd => h' d (List.mem_reverse.mp hd)) hvalue
  exact List.reverse_inj.mp hrev

/-! ## Zeros in front -/

theorem zeros_cons (d : ℕ) (l : List ℕ) : zeros (d :: l) = if d = 0 then zeros l + 1 else 0 := by
  rw [zeros, List.takeWhile_cons]
  by_cases hd : d = 0
  · rw [if_pos hd, if_pos (beq_iff_eq.mpr hd), List.length_cons]
    rfl
  · rw [if_neg hd, if_neg (fun h => hd (beq_iff_eq.mp h)), List.length_nil]

/-- **Zeros in front and the value**: there are at least `k` of them exactly when the value is
below the power of the base that the other digits reach. -/
theorem le_zeros_iff (hb : 1 < b) {l : List ℕ} (h : ∀ d ∈ l, d < b) {k : ℕ} (hk : k ≤ l.length) :
    k ≤ zeros l ↔ value b l < b ^ (l.length - k) := by
  induction l generalizing k with
  | nil =>
    obtain rfl : k = 0 := Nat.le_zero.mp hk
    simp
  | cons d l ih =>
    have hl : ∀ d' ∈ l, d' < b := fun d' hd' => h d' (List.mem_cons_of_mem d hd')
    cases k with
    | zero => exact iff_of_true (Nat.zero_le _) (value_lt hb h)
    | succ k =>
      have hk' : k ≤ l.length := Nat.le_of_succ_le_succ hk
      rw [zeros_cons, value_cons, List.length_cons, Nat.add_sub_add_right]
      by_cases hd : d = 0
      · rw [if_pos hd, Nat.succ_le_succ_iff, ih hl hk', hd, Nat.zero_mul, Nat.zero_add]
      · -- a digit in front that is not zero reaches the power of all the others
        rw [if_neg hd]
        have hpow : b ^ (l.length - k) ≤ b ^ l.length :=
          Nat.pow_le_pow_right (Nat.zero_lt_of_lt hb) (Nat.sub_le _ _)
        have hle : b ^ l.length ≤ d * b ^ l.length :=
          Nat.le_mul_of_pos_left _ (Nat.pos_of_ne_zero hd)
        exact iff_of_false (Nat.not_succ_le_zero k) (by omega)

/-! ## Digits of a number -/

@[simp] theorem length_expand (b w n : ℕ) : (expand b w n).length = w := by
  rw [expand, List.length_map, List.length_range]

/-- The last digit is the remainder. -/
theorem expand_succ (b w n : ℕ) : expand b (w + 1) n = expand b w (n / b) ++ [n % b] := by
  rw [expand, expand, List.range_succ, List.map_append, List.map_singleton]
  congr 1
  · refine List.map_congr_left (fun i hi => ?_)
    have hlt := List.mem_range.mp hi
    have hexp : w + 1 - 1 - i = w - 1 - i + 1 := by omega
    rw [hexp, Nat.pow_succ', Nat.div_div_eq_div_mul]
  · rw [Nat.add_sub_cancel, Nat.sub_self, Nat.pow_zero, Nat.div_one]

/-- The last `w` digits have the value of the number up to `b ^ w`. -/
theorem value_expand (b w n : ℕ) : value b (expand b w n) = n % b ^ w := by
  induction w generalizing n with
  | zero => rw [Nat.pow_zero, Nat.mod_one]; rfl
  | succ w ih =>
    rw [expand_succ, value_append, ih, List.length_singleton, Nat.pow_one, value_cons, value_nil,
      List.length_nil, Nat.pow_zero, Nat.mul_one, Nat.add_zero, Nat.pow_succ', Nat.mod_mul,
      Nat.mul_comm, Nat.add_comm]

/-- The bits of a number are its digits in base two. -/
theorem map_toNat_testBit (w n : ℕ) :
    ((List.range w).map (fun i => n.testBit (w - 1 - i))).map Bool.toNat = expand 2 w n := by
  rw [expand, List.map_map]
  exact List.map_congr_left (fun i _ => Nat.toNat_testBit n (w - 1 - i))

theorem lt_two_of_mem (bits : List Bool) : ∀ d ∈ bits.map Bool.toNat, d < 2 := by
  intro d hd
  obtain ⟨bit, _, rfl⟩ := List.mem_map.mp hd
  exact bit.toNat_lt

/-- **A number is its digits**, as long as they suffice. -/
theorem expand_inj {w m n : ℕ} (hm : m < b ^ w) (hn : n < b ^ w) (h : expand b w m = expand b w n) :
    m = n := by
  have hvalue := congrArg (value b) h
  rwa [value_expand, value_expand, Nat.mod_eq_of_lt hm, Nat.mod_eq_of_lt hn] at hvalue

/-- **Writing out the digits** in a smaller base keeps the value. -/
theorem value_flatMap_expand {w : ℕ} {l : List ℕ} (h : ∀ d ∈ l, d < b ^ w) :
    value b (l.flatMap (expand b w)) = value (b ^ w) l := by
  induction l with
  | nil => rfl
  | cons d l ih =>
    have hlen : (l.flatMap (expand b w)).length = w * l.length := by
      rw [List.length_flatMap, List.map_congr_left (fun d _ => length_expand b w d),
        List.map_const', List.sum_replicate_nat, Nat.mul_comm]
    rw [List.flatMap_cons, value_append, value_expand,
      Nat.mod_eq_of_lt (h d List.mem_cons_self), hlen, Nat.pow_mul, value_cons,
      ih (fun d' hd' => h d' (List.mem_cons_of_mem d hd'))]

end Digits
