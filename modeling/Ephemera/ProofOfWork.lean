/-
# Leading zeros of a hash (`ephemera-crypto/src/pow.rs`, `ephemera-abuse/src/pow.rs`)

Two crates test a hash for leading zero bits: the one compares whole bytes and masks the next
one, the other counts until a byte is not zero.  Both compare the hash, as a big-endian number,
with a power of two, so the crates accept the same hashes (`HandlePrimitives.pow_is_arithmetic`).
-/
import Ephemera.Digits
import Ephemera.HandleValidation
import Ephemera.NodeDistance

open Kademlia.Distance Kademlia.NodeId

/-! ## The service of `ephemera-abuse` -/

namespace Abuse

/-- `PowChallenge`. -/
structure PowChallenge where
  data : List UInt8
  difficulty : UInt32
  deriving DecidableEq, Repr

/-- `PowStamp` of this crate, which carries the hash. -/
structure PowStamp where
  nonce : Vector UInt8 32
  hash : Vector UInt8 32
  difficulty : UInt32
  deriving DecidableEq, Repr

namespace ProofOfWork

/-- The loop of `count_leading_zeros`: the first byte that is not zero ends it. -/
def countFrom (zeros : ℕ) : List UInt8 → ℕ
  | [] => zeros
  | byte :: rest => if byte = 0 then countFrom (zeros + 8) rest else zeros + leadingZeros byte

/-- `count_leading_zeros`. -/
def countLeadingZeros (hash : Vector UInt8 32) : ℕ := countFrom 0 hash.toList

/-- The nonce of an attempt: the counter, the least significant byte first, and zero bytes. -/
def nonceOf (nonceCounter : UInt64) : Vector UInt8 32 :=
  Vector.ofFn (fun i => (toBeBytes nonceCounter).reverse.getD i 0)

section Service

variable (blake3 : List UInt8 → Vector UInt8 32)

/-- `compute_hash`: BLAKE3 of the data and the nonce. -/
def computeHash (data : List UInt8) (nonce : Vector UInt8 32) : Vector UInt8 32 :=
  blake3 (data ++ nonce.toList)

/-- The loop of `generate` from a counter on, for a number of attempts. -/
def searchNonce (challenge : PowChallenge) : ℕ → UInt64 → Option PowStamp
  | 0, _ => none
  | attempts + 1, nonceCounter =>
    let nonce := nonceOf nonceCounter
    let hash := computeHash blake3 challenge.data nonce
    if challenge.difficulty.toNat ≤ countLeadingZeros hash then
      some ⟨nonce, hash, challenge.difficulty⟩
    else searchNonce challenge attempts (nonceCounter + 1)

/-- `ProofOfWork::generate`. -/
def generate (attempts : ℕ) (challenge : PowChallenge) : Option PowStamp :=
  searchNonce blake3 challenge attempts 0

/-- `ProofOfWork::verify`, with the reason of its `AbuseError::PowInvalid`. -/
def verify (challengeData : List UInt8) (stamp : PowStamp) : Except String Unit :=
  let hash := computeHash blake3 challengeData stamp.nonce
  if hash ≠ stamp.hash then .error "hash mismatch"
  else
    let zeros := countLeadingZeros hash
    if zeros < stamp.difficulty.toNat then
      .error ("insufficient difficulty: need " ++ toString stamp.difficulty
        ++ " leading zeros, got " ++ toString zeros)
    else .ok ()

end Service

end ProofOfWork

end Abuse

/-! ## The bits of a hash -/

namespace PowHash

/-- The bits of a hash, the most significant first. -/
def hashBits (hash : List UInt8) : List Bool := hash.flatMap byteBits

/-- The hash as a big-endian number. -/
def bigEndian (hash : List UInt8) : ℕ := Digits.value 256 (hash.map UInt8.toNat)

theorem hashBits_cons (b : UInt8) (hash : List UInt8) :
    hashBits (b :: hash) = byteBits b ++ hashBits hash := rfl

theorem length_hashBits (hash : List UInt8) : (hashBits hash).length = 8 * hash.length := by
  induction hash with
  | nil => rfl
  | cons b hash ih =>
    rw [hashBits_cons, List.length_append, length_byteBits, ih, List.length_cons]
    omega

/-- The bits of a byte are its digits in base two. -/
theorem map_toNat_byteBits (b : UInt8) :
    (byteBits b).map Bool.toNat = Digits.expand 2 8 b.toNat :=
  Digits.map_toNat_testBit 8 b.toNat

theorem map_toNat_hashBits (hash : List UInt8) :
    (hashBits hash).map Bool.toNat = (hash.map UInt8.toNat).flatMap (Digits.expand 2 8) := by
  rw [hashBits, List.map_flatMap, List.flatMap_map]
  exact congrArg (fun f => hash.flatMap f) (funext map_toNat_byteBits)

/-- Zeros in front, of bits and of digits. -/
theorem zerosInFront_eq (l : List Bool) : zerosInFront l = Digits.zeros (l.map Bool.toNat) := by
  induction l with
  | nil => rfl
  | cons bit l ih =>
    rw [zerosInFront] at ih
    rw [List.map_cons, Digits.zeros_cons, ← ih, zerosInFront]
    cases bit with
    | true => rfl
    | false => rfl

/-- **Zeros in front of a hash** say how small a number it is. -/
theorem le_zerosInFront_iff {hash : List UInt8} {d : ℕ} (hd : d ≤ 8 * hash.length) :
    d ≤ zerosInFront (hashBits hash) ↔ bigEndian hash < 2 ^ (8 * hash.length - d) := by
  have hbyte : ∀ x ∈ hash.map UInt8.toNat, x < 2 ^ 8 := by
    intro x hx
    obtain ⟨b, _, rfl⟩ := List.mem_map.mp hx
    exact b.toNat_lt
  have hlen : ((hashBits hash).map Bool.toNat).length = 8 * hash.length := by
    rw [List.length_map, length_hashBits]
  have hvalue : Digits.value 2 ((hashBits hash).map Bool.toNat) = bigEndian hash := by
    rw [map_toNat_hashBits]
    exact Digits.value_flatMap_expand hbyte
  rw [zerosInFront_eq, Digits.le_zeros_iff Nat.one_lt_two (Digits.lt_two_of_mem _) (hlen ▸ hd),
    hlen, hvalue]

/-! ## The running count -/

/-- A byte with a one among its bits ends the zeros in front. -/
theorem zerosInFront_hashBits_cons (b : UInt8) (hash : List UInt8) :
    zerosInFront (hashBits (b :: hash)) =
      if b = 0 then 8 + zerosInFront (hashBits hash) else leadingZeros b := by
  rw [hashBits_cons, zerosInFront_append]
  by_cases hb : b = 0
  · rw [if_pos hb, hb, if_pos byteBits_zero, length_byteBits]
  · rw [if_neg hb, if_neg (fun h => hb (eq_zero_of_byteBits h)), leadingZeros]

theorem countFrom_eq (zeros : ℕ) (hash : List UInt8) :
    Abuse.ProofOfWork.countFrom zeros hash = zeros + zerosInFront (hashBits hash) := by
  induction hash generalizing zeros with
  | nil => rfl
  | cons b hash ih =>
    rw [Abuse.ProofOfWork.countFrom, zerosInFront_hashBits_cons]
    by_cases hb : b = 0
    · rw [if_pos hb, if_pos hb, ih]
      omega
    · rw [if_neg hb, if_neg hb]

/-- **`count_leading_zeros`** counts the zeros in front. -/
theorem countLeadingZeros_eq (hash : Vector UInt8 32) :
    Abuse.ProofOfWork.countLeadingZeros hash = zerosInFront (hashBits hash.toList) := by
  rw [Abuse.ProofOfWork.countLeadingZeros, countFrom_eq, Nat.zero_add]

/-! ## The shifted mask -/

/-- The zeros in front of a byte. -/
theorem le_leadingZeros_iff (b : UInt8) {d : ℕ} (hd : d ≤ 8) :
    d ≤ leadingZeros b ↔ b.toNat < 2 ^ (8 - d) := by
  have h : d ≤ zerosInFront (hashBits [b]) ↔ bigEndian [b] < 2 ^ (8 * 1 - d) :=
    le_zerosInFront_iff hd
  have hbits : hashBits [b] = byteBits b := List.append_nil _
  have hvalue : bigEndian [b] = b.toNat := by
    rw [bigEndian, List.map_singleton, Digits.value_cons, Digits.value_nil, List.length_nil,
      Nat.pow_zero, Nat.mul_one, Nat.add_zero]
  rwa [hbits, hvalue] at h

theorem mask_table : ∀ r < 8, ∀ n < 256, r ≠ 0 →
    (UInt8.ofNat n &&& (0xFF <<< (8 - UInt32.ofNat r).toUInt8) = 0 ↔ n < 2 ^ (8 - r)) := by
  decide +kernel

/-- The mask keeps the first bits of a byte. -/
theorem mask_iff {r : UInt32} (hr : r ≠ 0) (hlt : r.toNat < 8) (b : UInt8) :
    b &&& (0xFF <<< (8 - r).toUInt8) = 0 ↔ b.toNat < 2 ^ (8 - r.toNat) := by
  have hne : r.toNat ≠ 0 := fun h => hr (UInt32.toNat_inj.mp h)
  have htable := mask_table r.toNat hlt b.toNat b.toNat_lt hne
  rwa [UInt8.ofNat_toNat, UInt32.ofNat_toNat] at htable

/-- What `has_leading_zeros` reads: the whole bytes, and the byte behind them, if there is one. -/
def BytesPass (hash : List UInt8) (d : ℕ) : Prop :=
  (∀ b ∈ hash.take (d / 8), b = 0) ∧ ∀ b, hash[d / 8]? = some b → b.toNat < 2 ^ (8 - d % 8)

theorem hasLeadingZeros_iff_bytesPass (hash : List UInt8) (difficulty : UInt32) :
    hasLeadingZeros hash difficulty = true ↔ BytesPass hash difficulty.toNat := by
  have hdiv : (difficulty / 8).toNat = difficulty.toNat / 8 := UInt32.toNat_div _ _
  have hmod : (difficulty % 8).toNat = difficulty.toNat % 8 := UInt32.toNat_mod _ _
  have hlt : (difficulty % 8).toNat < 8 := by omega
  rw [hasLeadingZeros, BytesPass, hdiv, Bool.and_eq_true, List.all_eq_true, ← hmod]
  refine and_congr (forall₂_congr (fun b _ => beq_iff_eq)) ?_
  rw [Bool.or_eq_true, beq_iff_eq]
  by_cases hr : difficulty % 8 = 0
  · -- no bits remain: every byte is below 256
    rw [hr]
    exact iff_of_true (Or.inl rfl) (fun b _ => b.toNat_lt)
  · rw [or_iff_right hr]
    cases hash[difficulty.toNat / 8]? with
    | none => exact iff_of_true rfl (fun _ h => nomatch h)
    | some byte =>
      simp only [Option.some.injEq, forall_eq', beq_iff_eq]
      exact mask_iff hr hlt byte

/-- The bytes that are tested, against the zeros in front. -/
theorem bytesPass_iff {hash : List UInt8} {d : ℕ} (hd : d ≤ 8 * hash.length) :
    BytesPass hash d ↔ d ≤ zerosInFront (hashBits hash) := by
  induction hash generalizing d with
  | nil =>
    obtain rfl : d = 0 := Nat.le_zero.mp hd
    simp [BytesPass]
  | cons b hash ih =>
    rw [zerosInFront_hashBits_cons, BytesPass]
    by_cases hlt : d < 8
    · -- the first byte decides
      have hdiv : d / 8 = 0 := Nat.div_eq_of_lt hlt
      have hmod : d % 8 = d := Nat.mod_eq_of_lt hlt
      rw [hdiv, hmod, List.take_zero, List.getElem?_cons_zero]
      simp only [List.not_mem_nil, false_implies, implies_true, true_and, Option.some.injEq,
        forall_eq']
      rw [← le_leadingZeros_iff b hlt.le]
      by_cases hb : b = 0
      · rw [if_pos hb, hb]
        exact iff_of_true hlt.le (by omega)
      · rw [if_neg hb]
    · -- the first byte has to be zero
      obtain ⟨d, rfl⟩ : ∃ d', d = d' + 8 := ⟨d - 8, by omega⟩
      have hd' : d ≤ 8 * hash.length := by
        rw [List.length_cons] at hd
        omega
      rw [Nat.add_div_right d (by omega), Nat.add_mod_right, List.take_succ_cons,
        List.getElem?_cons_succ, List.forall_mem_cons, and_assoc, ← BytesPass, ih hd']
      by_cases hb : b = 0
      · rw [if_pos hb, and_iff_right hb, Nat.add_comm d, Nat.add_le_add_iff_left]
      · rw [if_neg hb]
        have hlt : leadingZeros b < 8 := by
          by_contra hge
          have hzero := (le_leadingZeros_iff b le_rfl).mp (not_lt.mp hge)
          exact hb (UInt8.toNat_inj.mp (Nat.lt_one_iff.mp hzero))
        exact iff_of_false (fun h => hb h.1) (by omega)

/-- Behind its last byte nothing of a hash is tested. -/
theorem bytesPass_iff_of_lt {hash : List UInt8} {d : ℕ} (hd : 8 * hash.length < d) :
    BytesPass hash d ↔ 8 * hash.length ≤ zerosInFront (hashBits hash) := by
  rw [← bytesPass_iff le_rfl, BytesPass, BytesPass, Nat.mul_div_cancel_left _ (by omega : 0 < 8),
    List.take_length, List.take_of_length_le (by omega), List.getElem?_eq_none le_rfl,
    List.getElem?_eq_none (by omega : hash.length ≤ d / 8)]
  exact and_congr_right (fun _ => iff_of_true (fun _ h => nomatch h) (fun _ h => nomatch h))

/-- **`has_leading_zeros`**: so many zeros in front, or as many as there are bits. -/
theorem hasLeadingZeros_iff (hash : List UInt8) (difficulty : UInt32) :
    hasLeadingZeros hash difficulty = true ↔
      min difficulty.toNat (8 * hash.length) ≤ zerosInFront (hashBits hash) := by
  rw [hasLeadingZeros_iff_bytesPass]
  rcases le_or_gt difficulty.toNat (8 * hash.length) with hle | hgt
  · rw [min_eq_left hle, bytesPass_iff hle]
  · rw [min_eq_right hgt.le, bytesPass_iff_of_lt hgt]

/-- A hash that passes a difficulty passes every lower one. -/
theorem hasLeadingZeros_antitone {hash : List UInt8} {d d' : UInt32} (h : d ≤ d')
    (hpass : hasLeadingZeros hash d' = true) : hasLeadingZeros hash d = true := by
  have hval := UInt32.le_iff_toNat_le.mp h
  rw [hasLeadingZeros_iff] at hpass ⊢
  omega

/-- **The two tests and the number.**  Up to the length of the hash in bits both crates accept
the hashes that, as big-endian numbers, are below a power of two. -/
theorem hasLeadingZeros_iff_bigEndian (hash : Vector UInt8 32) {difficulty : UInt32}
    (hd : difficulty.toNat ≤ 256) :
    hasLeadingZeros hash.toList difficulty = true ↔
      bigEndian hash.toList < 2 ^ (256 - difficulty.toNat) := by
  have hlen : 8 * hash.toList.length = 256 := by rw [Vector.length_toList]
  rw [hasLeadingZeros_iff, hlen, min_eq_left hd, le_zerosInFront_iff (hlen ▸ hd), hlen]

theorem hasLeadingZeros_iff_countLeadingZeros {hash : Vector UInt8 32} {difficulty : UInt32}
    (hd : difficulty.toNat ≤ 256) :
    hasLeadingZeros hash.toList difficulty = true ↔
      difficulty.toNat ≤ Abuse.ProofOfWork.countLeadingZeros hash := by
  have hlen : 8 * hash.toList.length = 256 := by rw [Vector.length_toList]
  rw [hasLeadingZeros_iff, hlen, min_eq_left hd, countLeadingZeros_eq]

/-! ## The search for a nonce -/

/-- The first of so many counters that passes a test. -/
def firstCounter (good : UInt64 → Bool) : ℕ → UInt64 → Option UInt64
  | 0, _ => none
  | attempts + 1, counter =>
    if good counter then some counter else firstCounter good attempts (counter + 1)

variable {good : UInt64 → Bool}

theorem good_of_firstCounter {attempts : ℕ} {counter c : UInt64}
    (h : firstCounter good attempts counter = some c) : good c = true := by
  induction attempts generalizing counter with
  | zero => cases h
  | succ attempts ih =>
    rw [firstCounter] at h
    split at h
    · rename_i hgood
      cases h
      exact hgood
    · exact ih h

/-- Enough attempts reach a counter that passes. -/
theorem isSome_firstCounter {c : UInt64} (hc : good c = true) {n : ℕ} {counter : UInt64}
    (hn : counter + UInt64.ofNat n = c) : (firstCounter good (n + 1) counter).isSome = true := by
  induction n generalizing counter with
  | zero =>
    obtain rfl : counter = c := by rw [← hn]; exact (UInt64.add_zero counter).symm
    rw [firstCounter, if_pos hc]
    rfl
  | succ n ih =>
    rw [firstCounter]
    split
    · rfl
    · apply ih
      rw [← hn, UInt64.ofNat_add, UInt64.add_assoc, UInt64.add_comm 1]
      rfl

/-- **The search ends** exactly when some counter passes. -/
theorem exists_firstCounter_iff :
    (∃ attempts, (firstCounter good attempts 0).isSome = true) ↔ ∃ c, good c = true := by
  constructor
  · rintro ⟨attempts, h⟩
    obtain ⟨c, hc⟩ := Option.isSome_iff_exists.mp h
    exact ⟨c, good_of_firstCounter hc⟩
  · rintro ⟨c, hc⟩
    refine ⟨c.toNat + 1, isSome_firstCounter hc ?_⟩
    rw [UInt64.zero_add, UInt64.ofNat_toNat]

end PowHash

/-! ## The stamps of `ephemera-abuse` -/

namespace Abuse.ProofOfWork

open PowHash

variable {blake3 : List UInt8 → Vector UInt8 32}

theorem searchNonce_eq (challenge : PowChallenge) (attempts : ℕ) (counter : UInt64) :
    searchNonce blake3 challenge attempts counter =
      (firstCounter (fun c => decide (challenge.difficulty.toNat ≤
        countLeadingZeros (computeHash blake3 challenge.data (nonceOf c)))) attempts counter).map
        (fun c => ⟨nonceOf c, computeHash blake3 challenge.data (nonceOf c),
          challenge.difficulty⟩) := by
  induction attempts generalizing counter with
  | zero => rfl
  | succ attempts ih =>
    rw [searchNonce, firstCounter]
    simp only [decide_eq_true_eq]
    split
    · rfl
    · exact ih _

/-- What `verify` accepts. -/
theorem verify_eq_ok_iff {data : List UInt8} {stamp : PowStamp} :
    verify blake3 data stamp = .ok () ↔
      stamp.hash = computeHash blake3 data stamp.nonce ∧
        stamp.difficulty.toNat ≤ countLeadingZeros stamp.hash := by
  rw [verify]
  by_cases hhash : computeHash blake3 data stamp.nonce = stamp.hash
  · rw [if_neg (not_not.mpr hhash), hhash, and_iff_right rfl]
    dsimp only
    split
    · rename_i hlt
      exact iff_of_false (by simp) (not_le.mpr hlt)
    · rename_i hle
      exact iff_of_true rfl (not_lt.mp hle)
  · rw [if_pos hhash]
    exact iff_of_false (by simp) (fun h => hhash h.1.symm)

/-- The stamps of this crate, by the test of the other one. -/
theorem verify_eq_ok_iff_hasLeadingZeros {data : List UInt8} {stamp : PowStamp}
    (hd : stamp.difficulty ≤ 256) :
    verify blake3 data stamp = .ok () ↔
      stamp.hash = computeHash blake3 data stamp.nonce ∧
        hasLeadingZeros stamp.hash.toList stamp.difficulty = true := by
  rw [verify_eq_ok_iff, hasLeadingZeros_iff_countLeadingZeros (UInt32.le_iff_toNat_le.mp hd)]

/-- A generation ends exactly when the nonce of some counter has the zeros. -/
theorem exists_generate_iff {challenge : PowChallenge} :
    (∃ attempts, (generate blake3 attempts challenge).isSome = true) ↔
      ∃ c, challenge.difficulty.toNat ≤
        countLeadingZeros (computeHash blake3 challenge.data (nonceOf c)) := by
  simp only [generate, searchNonce_eq, Option.isSome_map, exists_firstCounter_iff,
    decide_eq_true_eq]

/-- **A stamp that was generated passes.** -/
theorem verify_generate {attempts : ℕ} {challenge : PowChallenge} {stamp : PowStamp}
    (h : generate blake3 attempts challenge = some stamp) :
    verify blake3 challenge.data stamp = .ok () := by
  rw [generate, searchNonce_eq] at h
  obtain ⟨c, hc, rfl⟩ := Option.map_eq_some_iff.mp h
  exact verify_eq_ok_iff.mpr ⟨rfl, of_decide_eq_true (good_of_firstCounter hc)⟩

end Abuse.ProofOfWork

/-! ## The stamps of `ephemera-crypto` -/

namespace HandlePrimitives

open PowHash

/-- The primitives with a hash of 32 bytes. -/
def ofHash (powHash : List UInt8 → List UInt8 → Vector UInt8 32)
    (verifySignature : IdentityKey → List UInt8 → Vector UInt8 64 → Bool) : HandlePrimitives :=
  ⟨fun challenge nonce => (powHash challenge nonce).toList, verifySignature⟩

/-- `generate_pow` with the assertion it begins with; an error is a panic. -/
def generatePowAsserted (P : HandlePrimitives) (attempts : ℕ) (challenge : List UInt8)
    (difficulty : UInt32) : Except String (Option PowStamp) :=
  if difficulty ≤ 256 then .ok (P.generatePow attempts challenge difficulty)
  else .error "difficulty cannot exceed 256 bits"

variable {P : HandlePrimitives}

theorem searchNonce_eq (challenge : List UInt8) (difficulty : UInt32) (attempts : ℕ)
    (counter : UInt64) :
    P.searchNonce challenge difficulty attempts counter =
      (firstCounter (fun c => hasLeadingZeros (P.powHash challenge (nonceOf c)) difficulty)
        attempts counter).map (fun c => ⟨challenge, nonceOf c, difficulty⟩) := by
  induction attempts generalizing counter with
  | zero => rfl
  | succ attempts ih =>
    rw [searchNonce, firstCounter]
    split
    · rfl
    · exact ih _

/-- What `verify_pow` accepts. -/
theorem verifyPow_eq_ok_iff {stamp : PowStamp} {challenge : List UInt8} {m : UInt32} :
    P.verifyPow stamp challenge m = .ok () ↔
      stamp.challenge = challenge ∧ m ≤ stamp.difficulty ∧
        hasLeadingZeros (P.powHash stamp.challenge stamp.nonce) stamp.difficulty = true := by
  rw [verifyPow]
  by_cases hch : stamp.challenge = challenge
  · rw [if_neg (not_not.mpr hch), and_iff_right hch]
    by_cases hlt : stamp.difficulty < m
    · rw [if_pos hlt]
      exact iff_of_false (by simp) (fun h => UInt32.not_le.mpr hlt h.1)
    · rw [if_neg hlt, and_iff_right (UInt32.not_lt.mp hlt)]
      split
      · rename_i hzeros
        exact iff_of_true rfl hzeros
      · rename_i hzeros
        exact iff_of_false (by simp) hzeros
  · rw [if_pos hch]
    exact iff_of_false (by simp) (fun h => hch h.1)

/-- A stamp that is accepted for a difficulty is accepted for every lower one. -/
theorem verifyPow_antitone {stamp : PowStamp} {challenge : List UInt8} {m m' : UInt32}
    (hle : m ≤ m') (h : P.verifyPow stamp challenge m' = .ok ()) :
    P.verifyPow stamp challenge m = .ok () := by
  obtain ⟨hch, hm', hzeros⟩ := verifyPow_eq_ok_iff.mp h
  exact verifyPow_eq_ok_iff.mpr ⟨hch, UInt32.le_trans hle hm', hzeros⟩

/-- A stamp that was generated passes the check of every difficulty up to its own. -/
theorem verifyPow_generatePowAsserted {attempts : ℕ} {challenge : List UInt8} {d m : UInt32}
    {stamp : PowStamp} (h : P.generatePowAsserted attempts challenge d = .ok (some stamp))
    (hm : m ≤ d) : P.verifyPow stamp challenge m = .ok () := by
  rw [generatePowAsserted] at h
  split at h
  · exact verifyPow_antitone hm (verifyPow_generatePow (Except.ok.inj h))
  · cases h

/-- **A generation ends** exactly when the nonce of some counter meets the difficulty. -/
theorem exists_generatePow_iff {challenge : List UInt8} {difficulty : UInt32} :
    (∃ attempts, (P.generatePow attempts challenge difficulty).isSome = true) ↔
      ∃ c, hasLeadingZeros (P.powHash challenge (nonceOf c)) difficulty = true := by
  rw [← exists_firstCounter_iff]
  refine exists_congr (fun attempts => ?_)
  rw [generatePow, searchNonce_eq, Option.isSome_map]

/-- The hash of a stamp that is accepted has the zeros in front, as far as there are bits. -/
theorem le_zerosInFront_of_verifyPow {stamp : PowStamp} {challenge : List UInt8} {m : UInt32}
    (h : P.verifyPow stamp challenge m = .ok ()) :
    min m.toNat (8 * (P.powHash stamp.challenge stamp.nonce).length) ≤
      zerosInFront (hashBits (P.powHash stamp.challenge stamp.nonce)) := by
  obtain ⟨_, hm, hzeros⟩ := verifyPow_eq_ok_iff.mp h
  have hval := UInt32.le_iff_toNat_le.mp hm
  rw [hasLeadingZeros_iff] at hzeros
  omega

/-- **Proof of work is arithmetic.**  A hash of 32 bytes passes the test of the one crate for a
difficulty of at most 256 exactly when it is below a power of two, and exactly when the other
crate counts so many zeros.  Whatever the hash function, a test that is passed is passed for every
lower difficulty, a stamp that was generated for the difficulty is accepted for every lower one,
and a stamp that is accepted for a difficulty has a hash with so many zeros in front (with
nothing but zeros, if the difficulty were above the 256 bits). -/
theorem pow_is_arithmetic (hash : Vector UInt8 32)
    (powHash : List UInt8 → List UInt8 → Vector UInt8 32)
    (verifySignature : IdentityKey → List UInt8 → Vector UInt8 64 → Bool) {d : UInt32}
    (hd : d ≤ 256) :
    (hasLeadingZeros hash.toList d = true ↔ bigEndian hash.toList < 2 ^ (256 - d.toNat)) ∧
      (bigEndian hash.toList < 2 ^ (256 - d.toNat) ↔
        d.toNat ≤ Abuse.ProofOfWork.countLeadingZeros hash) ∧
      (∀ m ≤ d, hasLeadingZeros hash.toList d = true → hasLeadingZeros hash.toList m = true) ∧
      (∀ attempts challenge stamp,
        (ofHash powHash verifySignature).generatePowAsserted attempts challenge d =
            .ok (some stamp) →
          ∀ m ≤ d, (ofHash powHash verifySignature).verifyPow stamp challenge m = .ok ()) ∧
      ∀ stamp challenge m,
        (ofHash powHash verifySignature).verifyPow stamp challenge m = .ok () →
          min m.toNat 256 ≤
              zerosInFront (hashBits (powHash stamp.challenge stamp.nonce).toList) ∧
            ∀ m' ≤ m, (ofHash powHash verifySignature).verifyPow stamp challenge m' = .ok () := by
  have hval : d.toNat ≤ 256 := UInt32.le_iff_toNat_le.mp hd
  have hnumber := hasLeadingZeros_iff_bigEndian hash hval
  refine ⟨hnumber, hnumber.symm.trans (hasLeadingZeros_iff_countLeadingZeros hval),
    fun m hm => hasLeadingZeros_antitone hm,
    fun attempts challenge stamp h m hm => verifyPow_generatePowAsserted h hm,
    fun stamp challenge m h => ⟨?_, fun m' hm' => verifyPow_antitone hm' h⟩⟩
  have hzeros := le_zerosInFront_of_verifyPow h
  rwa [ofHash, Vector.length_toList] at hzeros

/-- A hash for the example below: the zeros in front are eleven for the third nonce, and else
eight. -/
def thirdNonceHash (_ nonce : List UInt8) : Vector UInt8 32 :=
  Vector.ofFn (fun i => if i.val = 1 then (if nonce.headD 0 = 2 then 0x1F else 0xFF) else 0)

/-- The third attempt finds a stamp of difficulty 11, which is accepted where 5 is asked for. -/
theorem pow_is_arithmetic_at_third_nonce :
    bigEndian (thirdNonceHash [7] (nonceOf 2)).toList < 2 ^ (256 - (11 : UInt32).toNat) ∧
      (ofHash thirdNonceHash (fun _ _ _ => true)).verifyPow ⟨[7], nonceOf 2, 11⟩ [7] 5 = .ok () ∧
      min (5 : UInt32).toNat 256 ≤
        zerosInFront (hashBits (thirdNonceHash [7] (nonceOf 2)).toList) := by
  have hd : (11 : UInt32) ≤ 256 := by decide
  obtain ⟨hnumber, _, _, hgenerate, hverify⟩ :=
    pow_is_arithmetic (thirdNonceHash [7] (nonceOf 2)) thirdNonceHash (fun _ _ _ => true) hd
  have hok := hgenerate 3 [7] ⟨[7], nonceOf 2, 11⟩ (by decide +kernel) 5 (by decide)
  exact ⟨hnumber.mp (by decide +kernel), hok, (hverify _ _ 5 hok).1⟩

end HandlePrimitives
