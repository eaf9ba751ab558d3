/-
# The window of recent fingerprints (`ephemera-abuse/src/fingerprint.rs`)

`compute` counts over the tokens of a text, so that neither their order nor the whitespace
between them matters (`compute_eq_of_perm`).  The counters are machine integers; with fewer than
`2 ^ 31` tokens none overflows, and the fingerprint has the bits that most of the tokens have
(`bit_compute_iff`).

The store keeps the fingerprints of the last texts: `checkAndRecord_run` relates what a call
returns to all texts that were passed before it.
-/
import Mathlib.Data.Nat.Bitwise
import Ephemera.BoundedQueue
import Ephemera.GuardedRun
import Ephemera.PostCreation
import Ephemera.Tokens

namespace ContentFingerprint

variable (blake3 : List UInt8 → List UInt8)

/-! ## Order -/

/-- What a token does to one counter. -/
def countBit (i : ℕ) (n : Int32) (hash : UInt64) : Int32 := if bit hash i then n + 1 else n - 1

theorem getElem?_countToken (v : List Int32) (hash : UInt64) (i : ℕ) :
    (countToken v hash)[i]? = v[i]?.map (fun n => countBit i n hash) := by
  rw [countToken, List.getElem?_map, List.getElem?_zipIdx, Option.map_map, Nat.zero_add]
  rfl

/-- The order of two tokens does not matter to a counter. -/
theorem countBit_comm (i : ℕ) (n : Int32) (a b : UInt64) :
    countBit i (countBit i n a) b = countBit i (countBit i n b) a := by
  unfold countBit
  split <;> split
  · rfl
  · grind
  · grind
  · rfl

theorem getElem?_foldl_countToken (hashes : List UInt64) (v : List Int32) (i : ℕ) :
    (hashes.foldl countToken v)[i]? = v[i]?.map (fun n => hashes.foldl (countBit i) n) := by
  induction hashes generalizing v with
  | nil => simp
  | cons hash hashes ih =>
    rw [List.foldl_cons, ih, getElem?_countToken, Option.map_map]
    rfl

/-- The tokens may come in any order. -/
theorem compute_eq_of_perm {a b : String} (h : (splitWhitespace a).Perm (splitWhitespace b)) :
    compute blake3 a = compute blake3 b := by
  have hcount : ((splitWhitespace a).map (hashToken blake3)).foldl countToken (List.replicate 64 0)
      = ((splitWhitespace b).map (hashToken blake3)).foldl countToken (List.replicate 64 0) := by
    refine List.ext_getElem? (fun i => ?_)
    rw [getElem?_foldl_countToken, getElem?_foldl_countToken]
    congr 1
    funext n
    exact (h.map _).foldl_eq' (fun a _ b _ n => countBit_comm i n a b) n
  rw [compute, compute, hcount]

/-! ## Counters -/

theorem toNat_shiftLeft_one {i : ℕ} (hi : i < 64) :
    (1 <<< UInt64.ofNat i : UInt64).toNat = 2 ^ i := by
  rw [UInt64.toNat_shiftLeft, UInt64.toNat_one, UInt64.toNat_ofNat',
    Nat.mod_eq_of_lt (hi.trans (by decide)), Nat.mod_eq_of_lt hi, Nat.one_shiftLeft]
  exact Nat.mod_eq_of_lt (Nat.pow_lt_pow_right (by decide) hi)

theorem bit_eq_testBit (hash : UInt64) {i : ℕ} (hi : i < 64) :
    bit hash i = hash.toNat.testBit i := by
  have hand : hash &&& 1 <<< UInt64.ofNat i ≠ 0 ↔ hash.toNat.testBit i = true := by
    rw [ne_eq, ← UInt64.toNat_inj, UInt64.toNat_and, toNat_shiftLeft_one hi, UInt64.toNat_zero,
      Nat.and_two_pow]
    cases hash.toNat.testBit i with
    | false => simp
    | true => simp
  exact Bool.eq_iff_iff.mpr (decide_eq_true_iff.trans hand)

/-- A counter that starts at zero, after fewer than `2 ^ 31` tokens: no step overflows. -/
theorem toInt_foldl_countBit (i : ℕ) (hashes : List UInt64) (hlt : hashes.length < 2 ^ 31) :
    (hashes.foldl (countBit i) 0).toInt
      = 2 * (hashes.countP (fun hash => bit hash i) : ℤ) - hashes.length := by
  induction hashes using List.reverseRecOn with
  | nil => rfl
  | append_singleton hashes hash ih =>
    rw [List.length_append, List.length_singleton] at hlt
    have hcount := List.countP_le_length (p := fun hash => bit hash i) (l := hashes)
    have ih := ih (by omega)
    rw [List.foldl_append, List.foldl_cons, List.foldl_nil, List.countP_append,
      List.countP_singleton, List.length_append, List.length_singleton, countBit]
    split
    · rw [Int32.toInt_add, ih, Int.bmod_eq_of_le (by simp; omega) (by simp; omega)]
      simp
      omega
    · rw [Int32.toInt_sub, ih, Int.bmod_eq_of_le (by simp; omega) (by simp; omega)]
      simp
      omega

/-- The last loop of `compute`. -/
theorem testBit_foldl_or (slots : List (Int32 × ℕ)) (hslots : ∀ slot ∈ slots, slot.2 < 64)
    (acc : UInt64) (i : ℕ) :
    (slots.foldl (fun (fingerprint : UInt64) (slot : Int32 × ℕ) =>
      if 0 < slot.1 then fingerprint ||| (1 <<< UInt64.ofNat slot.2) else fingerprint)
        acc).toNat.testBit i = true ↔
      acc.toNat.testBit i = true ∨ ∃ slot ∈ slots, slot.2 = i ∧ 0 < slot.1 := by
  induction slots generalizing acc with
  | nil => simp
  | cons slot slots ih =>
    have hlt : slot.2 < 64 := hslots slot List.mem_cons_self
    rw [List.foldl_cons, ih (fun slot' h => hslots slot' (List.mem_cons_of_mem _ h))]
    simp only [List.mem_cons, exists_eq_or_imp]
    split
    · rename_i hpos
      rw [UInt64.toNat_or, toNat_shiftLeft_one hlt, Nat.testBit_or, Nat.testBit_two_pow,
        Bool.or_eq_true, decide_eq_true_eq]
      simp only [hpos, and_true, or_assoc]
    · rename_i hpos
      simp only [hpos, and_false, false_or]

/-- The counters after some tokens. -/
theorem mem_counters_iff (hashes : List UInt64) {n : Int32} {i : ℕ} :
    (n, i) ∈ (hashes.foldl countToken (List.replicate 64 0)).zipIdx ↔
      i < 64 ∧ n = hashes.foldl (countBit i) 0 := by
  rw [List.mem_zipIdx_iff_getElem?, getElem?_foldl_countToken, List.getElem?_replicate]
  split
  · rename_i hi
    simp [hi, eq_comm]
  · rename_i hi
    simp [hi]

/-- **The bits of a fingerprint** are those of more than half of the tokens. -/
theorem bit_compute_iff (text : String) (hlt : (splitWhitespace text).length < 2 ^ 31) {i : ℕ}
    (hi : i < 64) :
    bit (compute blake3 text).bits i = true ↔
      (splitWhitespace text).length
        < 2 * (splitWhitespace text).countP (fun token => bit (hashToken blake3 token) i) := by
  have hcount := toInt_foldl_countBit i ((splitWhitespace text).map (hashToken blake3))
    (by rwa [List.length_map])
  rw [List.countP_map, List.length_map] at hcount
  rw [bit_eq_testBit _ hi, compute,
    testBit_foldl_or _ (fun slot hslot => ((mem_counters_iff _).mp hslot).1)]
  have hpos : (∃ slot ∈ (((splitWhitespace text).map (hashToken blake3)).foldl countToken
      (List.replicate 64 0)).zipIdx, slot.2 = i ∧ 0 < slot.1) ↔
        0 < ((splitWhitespace text).map (hashToken blake3)).foldl (countBit i) 0 := by
    constructor
    · rintro ⟨⟨n, _⟩, hmem, rfl, h⟩
      rw [← ((mem_counters_iff _).mp hmem).2]
      exact h
    · intro h
      exact ⟨(_, i), (mem_counters_iff _).mpr ⟨hi, rfl⟩, rfl, h⟩
  rw [hpos, Int32.lt_iff_toInt_lt, hcount, Int32.toInt_zero, UInt64.toNat_zero, Nat.zero_testBit,
    or_iff_right Bool.false_ne_true]
  show 0 < 2 * (((splitWhitespace text).countP
    (fun token => bit (hashToken blake3 token) i) : ℕ) : ℤ) - _ ↔ _
  omega

end ContentFingerprint

namespace FingerprintStore

open ContentFingerprint GuardedRun Tokens

variable (blake3 : List UInt8 → List UInt8)

/-- `FingerprintStore::with_capacity`. -/
def withCapacity (maxSize : ℕ) : FingerprintStore := ⟨[], maxSize⟩

/-- `FingerprintStore::len`. -/
def len (store : FingerprintStore) : ℕ := store.recent.length

/-- The store after a call of `check_and_record`. -/
def step (store : FingerprintStore) (text : String) : FingerprintStore :=
  (store.checkAndRecord blake3 text).2

/-- A run pushes the fingerprints of the texts. -/
theorem run_step (store : FingerprintStore) (texts : List String) :
    run (step blake3) store texts =
      ⟨(texts.map (compute blake3)).foldl (BoundedQueue.push store.maxSize) store.recent,
        store.maxSize⟩ := by
  induction texts generalizing store with
  | nil => rfl
  | cons text texts ih =>
    rw [run_cons, ih]
    rfl

/-- The window after some texts: the fingerprints of the last of them. -/
theorem run_withCapacity {m : ℕ} (hm : 1 ≤ m) (texts : List String) :
    run (step blake3) (withCapacity m) texts
      = ⟨(texts.drop (texts.length - m)).map (compute blake3), m⟩ := by
  rw [run_step, withCapacity, BoundedQueue.foldl_push hm, List.length_map, List.map_drop]

/-- **The window of recent texts.**  After any texts, the next call says whether the text is
within distance three of one of the `min i m` texts before it; the store never holds more than
`m` fingerprints; and a fingerprint does not depend on the order of the tokens of its text, nor
on the whitespace around them. -/
theorem checkAndRecord_run {m : ℕ} (hm : 1 ≤ m) :
    (∀ (before : List String) (text : String),
      ((run (step blake3) (withCapacity m) before).checkAndRecord blake3 text).1 = true ↔
        ∃ (j : ℕ) (earlier : String), before[j]? = some earlier ∧
          before.length - min before.length m ≤ j ∧
          hammingDistance (compute blake3 text) (compute blake3 earlier) ≤ 3) ∧
    (∀ texts : List String, (run (step blake3) (withCapacity m) texts).len ≤ m) ∧
    ∀ (a b : String) (toks toks' : List (List Char)),
      Spells Identity.isWhitespace toks a.toList → Spells Identity.isWhitespace toks' b.toList →
        toks.Perm toks' → compute blake3 a = compute blake3 b := by
  refine ⟨fun before text => ?_, fun texts => ?_, fun a b toks toks' ha hb hperm => ?_⟩
  · -- The window holds the fingerprints of the last texts, from place `length - m` on.
    rw [run_withCapacity blake3 hm]
    show (List.find? _ _).isSome = true ↔ _
    rw [List.find?_isSome]
    constructor
    · rintro ⟨_, hmem, hnear⟩
      obtain ⟨earlier, hdrop, rfl⟩ := List.mem_map.mp hmem
      obtain ⟨i, hi⟩ := List.mem_iff_getElem?.mp hdrop
      rw [List.getElem?_drop] at hi
      exact ⟨_, earlier, hi, by omega, of_decide_eq_true hnear⟩
    · rintro ⟨j, earlier, hj, hle, hnear⟩
      refine ⟨_, List.mem_map_of_mem
        (List.mem_iff_getElem?.mpr ⟨j - (before.length - m), ?_⟩), decide_eq_true hnear⟩
      rw [List.getElem?_drop, show before.length - m + (j - (before.length - m)) = j from by omega]
      exact hj
  · rw [run_withCapacity blake3 hm, len, List.length_map, List.length_drop]
    omega
  · -- `Spells` determines the tokens.
    refine compute_eq_of_perm blake3 ?_
    show (tokens Identity.isWhitespace a.toList).Perm (tokens Identity.isWhitespace b.toList)
    rwa [tokens_eq_iff.mpr ha, tokens_eq_iff.mpr hb]

/-- A window for one text, from which the first of two texts is gone, and a text with the two tokens
of the other in another order. -/
theorem checkAndRecord_run_one : 1 ≤ 1 ∧
    ((run (step (fun bytes => bytes)) (withCapacity 1) ["c d", "a b"]).checkAndRecord
      (fun bytes => bytes) " b  a").1 = true := by
  have h := checkAndRecord_run (fun bytes => bytes) (m := 1) (by decide)
  refine ⟨by decide, (h.1 ["c d", "a b"] " b  a").mpr ⟨1, "a b", rfl, by decide, ?_⟩⟩
  have hsame : compute (fun bytes => bytes) " b  a" = compute (fun bytes => bytes) "a b" :=
    h.2.2 _ _ [['b'], ['a']] [['a'], ['b']] (tokens_eq_iff.mp (by decide))
      (tokens_eq_iff.mp (by decide)) (List.Perm.swap _ _ _)
  rw [hsame]
  exact of_decide_eq_true (isNearDuplicate_self _)

end FingerprintStore
