/-
# Node ids and their distances (`ephemera-types/src/identity.rs`)

The distance of two nodes is the exclusive or of their ids: 32 bytes, which Rust compares
lexicographically.  `leading_zeros_distance` looks for the first byte that is not zero;
`leadingZerosDistance_eq_some_iff` says that what it returns is the number of zeros in front
of the 256 bits of the distance.
-/
import Mathlib.Data.List.Lex
import Mathlib.Data.Nat.Bitwise

namespace Kademlia

/-- `NodeId`. -/
structure NodeId where
  bytes : Vector UInt8 32
  deriving DecidableEq

/-- A distance, as the source has it: `[u8; 32]`. -/
structure Distance where
  bytes : Vector UInt8 32
  deriving DecidableEq

namespace Distance

/-- The bytes as numbers. -/
def digits (d : Distance) : List ℕ := d.bytes.toList.map UInt8.toNat

theorem digits_injective : Function.Injective digits := by
  rintro ⟨v⟩ ⟨w⟩ h
  have hinj : Function.Injective UInt8.toNat := fun _ _ hab => UInt8.toNat_inj.mp hab
  have hlist : v.toList = w.toList := List.map_injective_iff.mpr hinj h
  rw [Vector.toList_inj.mp hlist]

/-- Arrays are compared lexicographically. -/
instance : LinearOrder Distance := LinearOrder.lift' digits digits_injective

/-- The bits of a byte, the most significant first. -/
def byteBits (b : UInt8) : List Bool := (List.range 8).map (fun j => b.toNat.testBit (7 - j))

/-- The 256 bits of a distance, the most significant first. -/
def bits (d : Distance) : List Bool := d.bytes.toList.flatMap byteBits

/-- The number of zeros in front of a list of bits. -/
def zerosInFront (l : List Bool) : ℕ := (l.takeWhile (fun bit => !bit)).length

/-- The number of leading zero bits of a distance. -/
def leadingZeroBits (d : Distance) : ℕ := zerosInFront d.bits

end Distance

namespace NodeId

open Distance

/-- `u8::leading_zeros`. -/
def leadingZeros (b : UInt8) : ℕ := zerosInFront (byteBits b)

/-- `NodeId::xor_distance`. -/
def xorDistance (self other : NodeId) : Distance :=
  ⟨Vector.zipWith (fun x y => x ^^^ y) self.bytes other.bytes⟩

/-- The loop of `leading_zeros_distance`, from the byte with index `byteIdx` on. -/
def firstNonZero : ℕ → List UInt8 → Option ℕ
  | _, [] => none
  | byteIdx, b :: rest =>
    if b ≠ 0 then some (byteIdx * 8 + leadingZeros b) else firstNonZero (byteIdx + 1) rest

/-- `NodeId::leading_zeros_distance`. -/
def leadingZerosDistance (self other : NodeId) : Option ℕ :=
  firstNonZero 0 (xorDistance self other).bytes.toList

/-- A byte comes back when it is combined with another one twice. -/
theorem xor_xor_self (x y : UInt8) : x ^^^ y ^^^ y = x := by
  rw [UInt8.xor_assoc, UInt8.xor_self, UInt8.xor_zero]

/-- Seen from one node, different nodes are at different distances. -/
theorem xorDistance_injective (target : NodeId) :
    Function.Injective (fun id => xorDistance id target) := by
  rintro ⟨v⟩ ⟨w⟩ h
  congr 1
  apply Vector.ext
  intro i hi
  have hget : v[i] ^^^ target.bytes[i] = w[i] ^^^ target.bytes[i] := by
    have hvec := congrArg (fun d : Distance => d.bytes[i]) h
    simpa [xorDistance] using hvec
  rw [← xor_xor_self v[i] target.bytes[i], hget, xor_xor_self]

/-- A node is at distance zero from itself. -/
theorem bytes_xorDistance_self (id : NodeId) :
    (xorDistance id id).bytes = Vector.replicate 32 0 := by
  apply Vector.ext
  intro i hi
  simp [xorDistance]

@[simp] theorem length_byteBits (b : UInt8) : (byteBits b).length = 8 := rfl

/-- A byte without a one among its bits is zero. -/
theorem eq_zero_of_byteBits {b : UInt8} (h : ∀ bit ∈ byteBits b, bit = false) : b = 0 := by
  have hbit : ∀ j, b.toNat.testBit j = false := by
    intro j
    by_cases hj : j < 8
    · refine h _ (List.mem_map.mpr ⟨7 - j, List.mem_range.mpr (by omega), ?_⟩)
      rw [show 7 - (7 - j) = j from by omega]
    · apply Nat.testBit_lt_two_pow
      exact lt_of_lt_of_le b.toNat_lt (Nat.pow_le_pow_right (by omega) (by omega))
  have hzero : b.toNat = 0 := Nat.zero_of_testBit_eq_false hbit
  exact UInt8.toNat_inj.mp hzero

/-- Zeros in front of a concatenation: a one in the first part ends them. -/
theorem zerosInFront_append (l l' : List Bool) :
    zerosInFront (l ++ l') =
      if ∀ bit ∈ l, bit = false then l.length + zerosInFront l' else zerosInFront l := by
  induction l with
  | nil => simp [zerosInFront]
  | cons bit l ih =>
    cases bit with
    | true => simp [zerosInFront]
    | false =>
      have hstep : ∀ m, zerosInFront (false :: m) = zerosInFront m + 1 := fun m => by
        simp [zerosInFront]
      rw [List.cons_append, hstep, hstep, ih]
      by_cases hall : ∀ bit ∈ l, bit = false
      · rw [if_pos hall, if_pos (by simpa using hall), List.length_cons]
        omega
      · rw [if_neg hall, if_neg (by simpa using hall)]

/-- The zero byte is eight zeros. -/
theorem byteBits_zero : ∀ bit ∈ byteBits 0, bit = false := by decide

/-- **The loop counts the leading zeros** of the bits that are left, and finds nothing only
where all bytes are zero. -/
theorem firstNonZero_eq_some_iff {byteIdx i : ℕ} {l : List UInt8} :
    firstNonZero byteIdx l = some i ↔
      (∃ b ∈ l, b ≠ 0) ∧ i = byteIdx * 8 + zerosInFront (l.flatMap byteBits) := by
  induction l generalizing byteIdx with
  | nil => simp [firstNonZero]
  | cons b l ih =>
    rw [firstNonZero, List.flatMap_cons, zerosInFront_append]
    by_cases hb : b = 0
    · subst hb
      rw [if_neg (by simp), ih, if_pos byteBits_zero, length_byteBits]
      simp only [List.mem_cons, exists_eq_or_imp, ne_eq, not_true_eq_false, false_or]
      constructor
      · rintro ⟨hex, rfl⟩
        exact ⟨hex, by omega⟩
      · rintro ⟨hex, rfl⟩
        exact ⟨hex, by omega⟩
    · rw [if_pos hb, if_neg (fun h => hb (eq_zero_of_byteBits h)), Option.some.injEq]
      constructor
      · rintro rfl
        exact ⟨⟨b, List.mem_cons_self, hb⟩, rfl⟩
      · rintro ⟨-, rfl⟩
        rfl

/-- There are as many leading zeros as bits only if there is no one. -/
theorem zerosInFront_lt {l : List Bool} (h : true ∈ l) : zerosInFront l < l.length := by
  obtain ⟨l₁, l₂, rfl⟩ := List.append_of_mem h
  have hcons : ∀ m, zerosInFront (true :: m) = 0 := fun m => by simp [zerosInFront]
  rw [zerosInFront_append, hcons, List.length_append, List.length_cons]
  split
  · omega
  · have hle : zerosInFront l₁ ≤ l₁.length := (List.takeWhile_sublist _).length_le
    omega

/-- **`leading_zeros_distance`** returns nothing for the node itself, and else the number of
zero bits in front of the distance. -/
theorem leadingZerosDistance_eq_some_iff {self other : NodeId} {i : ℕ} :
    leadingZerosDistance self other = some i ↔
      self ≠ other ∧ (xorDistance self other).leadingZeroBits = i := by
  unfold leadingZerosDistance
  rw [firstNonZero_eq_some_iff, Nat.zero_mul, Nat.zero_add, leadingZeroBits, bits]
  have hne : (∃ b ∈ (xorDistance self other).bytes.toList, b ≠ 0) ↔ self ≠ other := by
    constructor
    · rintro ⟨b, hb, hne⟩ rfl
      rw [bytes_xorDistance_self, Vector.toList_replicate] at hb
      exact hne (List.eq_of_mem_replicate hb)
    · intro h
      by_contra hall
      push Not at hall
      refine h (xorDistance_injective other ?_)
      have hzero : (xorDistance self other).bytes = Vector.replicate 32 0 := by
        rw [← Vector.toList_inj, Vector.toList_replicate, List.eq_replicate_iff]
        exact ⟨Vector.length_toList, hall⟩
      show xorDistance self other = xorDistance other other
      rw [← bytes_xorDistance_self other] at hzero
      generalize xorDistance self other = d at hzero
      cases d
      exact congrArg Distance.mk hzero
  rw [hne]
  constructor
  · rintro ⟨h, rfl⟩
    exact ⟨h, rfl⟩
  · rintro ⟨h, rfl⟩
    exact ⟨h, rfl⟩

/-- The number of bits in front of a one is less than 256. -/
theorem leadingZerosDistance_lt {self other : NodeId} {i : ℕ}
    (h : leadingZerosDistance self other = some i) : i < 256 := by
  obtain ⟨⟨b, hb, hne⟩, rfl⟩ := firstNonZero_eq_some_iff.mp h
  have hlen : ((xorDistance self other).bytes.toList.flatMap byteBits).length = 256 := by
    rw [List.length_flatMap]
    simp
  rw [Nat.zero_mul, Nat.zero_add, ← hlen]
  apply zerosInFront_lt
  by_contra hnone
  refine hne (eq_zero_of_byteBits (fun bit hbit => ?_))
  cases bit with
  | false => rfl
  | true => exact absurd (List.mem_flatMap.mpr ⟨b, hb, hbit⟩) hnone

end NodeId

end Kademlia
