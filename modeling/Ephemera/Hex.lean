/-
# Hexadecimal text (`hex::encode`, `hex::decode`)

Two lower-case digits for each byte; decoding also takes upper-case digits, so it is not
injective.  `decode_encode` is the round trip, and `decode_eq_ok_iff` says which texts decode.
-/
import Mathlib.Data.List.Basic
import Mathlib.Tactic.IntervalCases

namespace Hex

/-- The lower-case digit of a number below 16. -/
def digit (n : ℕ) : Char := if n < 10 then Char.ofNat (48 + n) else Char.ofNat (87 + n)

/-- The digits of the bytes, high half first. -/
def encodeChars : List UInt8 → List Char
  | [] => []
  | b :: l => digit (b.toNat / 16) :: digit (b.toNat % 16) :: encodeChars l

/-- `hex::encode`. -/
def encode (bytes : List UInt8) : String := String.ofList (encodeChars bytes)

/-- The value of a digit of either case. -/
def value? (c : Char) : Option ℕ :=
  if '0' ≤ c ∧ c ≤ '9' then some (c.toNat - 48)
  else if 'a' ≤ c ∧ c ≤ 'f' then some (c.toNat - 87)
  else if 'A' ≤ c ∧ c ≤ 'F' then some (c.toNat - 55)
  else none

/-- The value of the digit at position `i`, or the text of the decoding error. -/
def digitAt (i : ℕ) (c : Char) : Except String ℕ :=
  match value? c with
  | some n => .ok n
  | none => .error ("Invalid character '" ++ c.toString ++ "' at position " ++ toString i)

/-- Decode pairs of digits from position `i` on. -/
def decodeChars : ℕ → List Char → Except String (List UInt8)
  | _, [] => .ok []
  | _, [_] => .error "Odd number of digits"
  | i, a :: b :: l => do
    let high ← digitAt i a
    let low ← digitAt (i + 1) b
    let rest ← decodeChars (i + 2) l
    return UInt8.ofNat (16 * high + low) :: rest

/-- `hex::decode`. -/
def decode (s : String) : Except String (List UInt8) :=
  if s.length % 2 = 1 then .error "Odd number of digits" else decodeChars 0 s.toList

/-- The digit of a number has that value. -/
theorem value?_digit {n : ℕ} (h : n < 16) : value? (digit n) = some n := by
  interval_cases n <;> decide

theorem length_encodeChars (bytes : List UInt8) :
    (encodeChars bytes).length = 2 * bytes.length := by
  induction bytes with
  | nil => rfl
  | cons b l ih =>
    simp only [encodeChars, List.length_cons, ih]
    omega

theorem decodeChars_encodeChars (bytes : List UInt8) (i : ℕ) :
    decodeChars i (encodeChars bytes) = .ok bytes := by
  induction bytes generalizing i with
  | nil => rfl
  | cons b l ih =>
    have hb : b.toNat < 256 := b.toNat_lt
    have hhigh : digitAt i (digit (b.toNat / 16)) = .ok (b.toNat / 16) := by
      rw [digitAt, value?_digit (by omega)]
    have hlow : digitAt (i + 1) (digit (b.toNat % 16)) = .ok (b.toNat % 16) := by
      rw [digitAt, value?_digit (by omega)]
    have hbyte : UInt8.ofNat (16 * (b.toNat / 16) + b.toNat % 16) = b := by
      rw [Nat.div_add_mod, UInt8.ofNat_toNat]
    rw [encodeChars, decodeChars, hhigh, hlow, ih]
    show Except.ok (UInt8.ofNat (16 * (b.toNat / 16) + b.toNat % 16) :: l) = _
    rw [hbyte]

/-- **Round trip.** -/
theorem decode_encode (bytes : List UInt8) : decode (encode bytes) = .ok bytes := by
  have hlen : (encode bytes).length = 2 * bytes.length := by
    rw [encode, String.length_ofList, length_encodeChars]
  rw [decode, if_neg (by omega), encode, String.toList_ofList, decodeChars_encodeChars]

/-- A text that decodes has two digits for each byte. -/
theorem length_of_decodeChars : ∀ {i : ℕ} {l : List Char} {bytes : List UInt8},
    decodeChars i l = .ok bytes → l.length = 2 * bytes.length
  | _, [], bytes, h => by
    cases h
    rfl
  | _, [_], bytes, h => by cases h
  | i, a :: b :: l, bytes, h => by
    rw [decodeChars] at h
    cases ha : digitAt i a with
    | error e =>
      rw [ha] at h
      cases h
    | ok high =>
      cases hb : digitAt (i + 1) b with
      | error e =>
        rw [ha, hb] at h
        cases h
      | ok low =>
        cases hl : decodeChars (i + 2) l with
        | error e =>
          rw [ha, hb, hl] at h
          cases h
        | ok rest =>
          rw [ha, hb, hl] at h
          cases h
          have hlen := length_of_decodeChars hl
          simp only [List.length_cons]
          omega

theorem length_of_decode {s : String} {bytes : List UInt8} (h : decode s = .ok bytes) :
    s.length = 2 * bytes.length := by
  rw [decode] at h
  split at h
  · cases h
  · rw [← String.length_toList]
    exact length_of_decodeChars h

/-! ## What is decoded -/

theorem toNat_toLower (c : Char) :
    c.toLower.toNat = if 65 ≤ c.toNat ∧ c.toNat ≤ 90 then c.toNat + 32 else c.toNat := by
  unfold Char.toLower
  split_ifs with h1 h2 h2
  · have hle : c.toNat ≤ 90 := h2.2
    show (c.val + ('a'.val - 'A'.val)).toNat = _
    rw [UInt32.toNat_add]
    show (c.toNat + 32) % 4294967296 = _
    omega
  · exact absurd h1 h2
  · exact absurd h2 h1
  · rfl

theorem value?_eq (c : Char) : value? c =
    if 48 ≤ c.toNat ∧ c.toNat ≤ 57 then some (c.toNat - 48)
    else if 97 ≤ c.toNat ∧ c.toNat ≤ 102 then some (c.toNat - 87)
    else if 65 ≤ c.toNat ∧ c.toNat ≤ 70 then some (c.toNat - 55) else none := rfl

theorem toNat_digit {n : ℕ} (h : n < 16) : (digit n).toNat = if n < 10 then 48 + n else 87 + n := by
  interval_cases n <;> rfl

theorem value?_eq_some_iff {c : Char} {n : ℕ} :
    value? c = some n ↔ n < 16 ∧ c.toLower = digit n := by
  have hlow := toNat_toLower c
  have hchar : c.toLower = digit n ↔ c.toLower.toNat = (digit n).toNat :=
    ⟨fun h => by rw [h], fun h => Char.ext (UInt32.toNat_inj.mp h)⟩
  rw [value?_eq, hchar]
  constructor
  · intro h
    have hn : n < 16 := by
      split_ifs at h <;> cases h <;> omega
    refine ⟨hn, ?_⟩
    rw [toNat_digit hn]
    split_ifs at h hlow ⊢ <;> cases h <;> omega
  · rintro ⟨hn, h⟩
    rw [toNat_digit hn] at h
    split_ifs at h hlow ⊢ <;> first | (rw [Option.some.injEq]; omega) | omega

theorem digitAt_eq_ok_iff {i : ℕ} {c : Char} {n : ℕ} :
    digitAt i c = .ok n ↔ n < 16 ∧ c.toLower = digit n := by
  rw [← value?_eq_some_iff, digitAt]
  cases value? c with
  | none => exact ⟨fun h => (by cases h), fun h => (by cases h)⟩
  | some m =>
    constructor
    · intro h
      cases h
      rfl
    · intro h
      cases h
      rfl

/-- A text decodes to the bytes that it shows, in digits of either case. -/
theorem decodeChars_eq_ok_iff {i : ℕ} {l : List Char} {bytes : List UInt8} :
    decodeChars i l = .ok bytes ↔ l.map Char.toLower = encodeChars bytes := by
  induction bytes generalizing i l with
  | nil =>
    constructor
    · intro h
      obtain rfl : l = [] := List.eq_nil_of_length_eq_zero (length_of_decodeChars h)
      rfl
    · intro h
      rw [encodeChars, List.map_eq_nil_iff] at h
      rw [h]
      rfl
  | cons byte bytes ih =>
    match l with
    | [] => exact ⟨fun h => (by cases h), fun h => (by cases h)⟩
    | [_] =>
      refine ⟨fun h => (by cases h), fun h => ?_⟩
      have hlen := congrArg List.length h
      rw [length_encodeChars, List.length_map, List.length_singleton, List.length_cons] at hlen
      omega
    | a :: b :: l =>
      have hlt := byte.toNat_lt
      rw [List.map_cons, List.map_cons, encodeChars, List.cons.injEq, List.cons.injEq,
        ← ih (i := i + 2)]
      constructor
      · intro h
        rw [decodeChars] at h
        cases ha : digitAt i a with
        | error e =>
          rw [ha] at h
          cases h
        | ok high =>
          cases hb : digitAt (i + 1) b with
          | error e =>
            rw [ha, hb] at h
            cases h
          | ok low =>
            cases hl : decodeChars (i + 2) l with
            | error e =>
              rw [ha, hb, hl] at h
              cases h
            | ok rest =>
              rw [ha, hb, hl] at h
              cases h
              obtain ⟨hhigh, ha⟩ := digitAt_eq_ok_iff.mp ha
              obtain ⟨hlow, hb⟩ := digitAt_eq_ok_iff.mp hb
              have hval : (UInt8.ofNat (16 * high + low)).toNat = 16 * high + low := by
                rw [UInt8.toNat_ofNat_of_lt']
                show 16 * high + low < 256
                omega
              rw [hval, show (16 * high + low) / 16 = high from by omega,
                show (16 * high + low) % 16 = low from by omega]
              exact ⟨ha, hb, rfl⟩
      · rintro ⟨ha, hb, hl⟩
        have hhigh := (digitAt_eq_ok_iff (i := i)).mpr ⟨(by omega : byte.toNat / 16 < 16), ha⟩
        have hlow := (digitAt_eq_ok_iff (i := i + 1)).mpr
          ⟨(by omega : byte.toNat % 16 < 16), hb⟩
        have hbyte : UInt8.ofNat (16 * (byte.toNat / 16) + byte.toNat % 16) = byte := by
          rw [Nat.div_add_mod, UInt8.ofNat_toNat]
        rw [decodeChars, hhigh, hlow, hl]
        show Except.ok (UInt8.ofNat (16 * (byte.toNat / 16) + byte.toNat % 16) :: bytes) = _
        rw [hbyte]

theorem decode_eq_ok_iff {s : String} {bytes : List UInt8} :
    decode s = .ok bytes ↔ s.toList.map Char.toLower = encodeChars bytes := by
  rw [decode]
  split_ifs with hodd
  · constructor
    · intro h
      cases h
    · intro h
      have hlen := congrArg List.length h
      rw [List.length_map, length_encodeChars, String.length_toList] at hlen
      omega
  · exact decodeChars_eq_ok_iff

end Hex
