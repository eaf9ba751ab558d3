/-
# ASCII inside UTF-8

A program that works on the bytes of a text mostly looks for ASCII characters.  In UTF-8 an
ASCII character is one byte, itself, and all bytes of the other characters are from `0x80` on.
So a scan of the bytes for ASCII characters is a scan of the characters (`takeWhile_encode`),
and stops between two characters, where the text can be cut (`splitAt?`).
-/
import Mathlib.Data.List.TakeWhile
import Mathlib.Tactic.Cases

namespace Utf8

/-! ## Bytes of characters -/

/-- The bytes of a text. -/
def encode (l : List Char) : List UInt8 := l.flatMap String.utf8EncodeChar

@[simp] theorem encode_nil : encode [] = [] := rfl

theorem encode_cons (c : Char) (l : List Char) :
    encode (c :: l) = String.utf8EncodeChar c ++ encode l :=
  List.flatMap_cons

theorem encode_append (l l' : List Char) : encode (l ++ l') = encode l ++ encode l' :=
  List.flatMap_append

/-- The bytes determine the text. -/
theorem encode_injective : Function.Injective encode := by
  intro l l' h
  have hbytes : (String.ofList l).toByteArray = (String.ofList l').toByteArray :=
    congrArg List.toByteArray h
  exact String.ofList_injective (String.toByteArray_inj.mp hbytes)

/-- The character is ASCII. -/
def IsAscii (c : Char) : Prop := c.toNat < 128

instance : DecidablePred IsAscii := fun _ => inferInstanceAs (Decidable (_ < _))

/-- The byte of an ASCII character. -/
def byteOf (c : Char) : UInt8 := c.toNat.toUInt8

theorem toNat_byteOf {c : Char} (h : IsAscii c) : (byteOf c).toNat = c.toNat := by
  rw [IsAscii] at h
  rw [byteOf, Nat.toUInt8, UInt8.toNat_ofNat']
  omega

theorem encodeChar_of_isAscii {c : Char} (h : IsAscii c) :
    String.utf8EncodeChar c = [byteOf c] := by
  have hle : c.val.toNat ≤ 0x7f := Nat.le_of_lt_succ h
  rw [String.utf8EncodeChar, if_pos hle]
  rfl

/-- All bytes of a character that is not ASCII are from `0x80` on. -/
theorem le_of_mem_encodeChar {c : Char} (h : ¬IsAscii c) {b : UInt8}
    (hb : b ∈ String.utf8EncodeChar c) : 128 ≤ b := by
  have hgt : ¬c.val.toNat ≤ 0x7f := fun hle => h (Nat.lt_succ_of_le hle)
  rw [String.utf8EncodeChar, if_neg hgt] at hb
  rw [UInt8.le_iff_toNat_le]
  split_ifs at hb
  · simp only [List.mem_cons, List.not_mem_nil, or_false] at hb
    rcases hb with rfl | rfl <;> simp <;> omega
  · simp only [List.mem_cons, List.not_mem_nil, or_false] at hb
    rcases hb with rfl | rfl | rfl <;> simp <;> omega
  · simp only [List.mem_cons, List.not_mem_nil, or_false] at hb
    rcases hb with rfl | rfl | rfl | rfl <;> simp <;> omega

/-- A character of a text whose bytes are ASCII is ASCII, and its byte is one of them. -/
theorem isAscii_of_forall_lt {l : List Char} (h : ∀ b ∈ encode l, b < 128) {c : Char}
    (hc : c ∈ l) : IsAscii c ∧ byteOf c ∈ encode l := by
  have hsub : ∀ b ∈ String.utf8EncodeChar c, b ∈ encode l :=
    fun b hb => List.mem_flatMap.mpr ⟨c, hc, hb⟩
  have hascii : IsAscii c := by
    by_contra hnot
    obtain ⟨b, hb⟩ := List.exists_mem_of_ne_nil _ (String.utf8EncodeChar_ne_nil (c := c))
    exact absurd (h b (hsub b hb)) (UInt8.not_lt.mpr (le_of_mem_encodeChar hnot hb))
  refine ⟨hascii, hsub _ ?_⟩
  rw [encodeChar_of_isAscii hascii]
  exact List.mem_singleton_self _

theorem encode_of_isAscii {l : List Char} (h : ∀ c ∈ l, IsAscii c) : encode l = l.map byteOf := by
  induction l with
  | nil => rfl
  | cons c l ih =>
    rw [encode_cons, encodeChar_of_isAscii (h c List.mem_cons_self),
      ih (fun c' hc' => h c' (List.mem_cons_of_mem c hc'))]
    rfl

/-- Only capital letters have another lower case. -/
theorem toLower_eq_self {c : Char} (h : ¬('A' ≤ c ∧ c ≤ 'Z')) : c.toLower = c :=
  dif_neg h

/-! ## Scans -/

variable {p : UInt8 → Bool}

/-- A test of bytes, as a test of characters. -/
def onChar (p : UInt8 → Bool) (c : Char) : Bool := decide (IsAscii c) && p (byteOf c)

theorem onChar_eq_true_iff {c : Char} : onChar p c = true ↔ IsAscii c ∧ p (byteOf c) = true := by
  rw [onChar, Bool.and_eq_true, decide_eq_true_eq]

/-- **A scan of the bytes for ASCII is a scan of the characters.** -/
theorem takeWhile_encode (hp : ∀ b, p b = true → b < 128) (l : List Char) :
    (encode l).takeWhile p = encode (l.takeWhile (onChar p)) := by
  induction l with
  | nil => rfl
  | cons c l ih =>
    rw [encode_cons, List.takeWhile_cons]
    by_cases hc : onChar p c = true
    · obtain ⟨hascii, hbyte⟩ := onChar_eq_true_iff.mp hc
      rw [if_pos hc, encode_cons, encodeChar_of_isAscii hascii, List.singleton_append,
        List.takeWhile_cons_of_pos hbyte, ih]
      rfl
    · -- the first byte of the character already fails the test
      rw [if_neg hc, encode_nil]
      obtain ⟨b, bytes, hbytes⟩ :=
        List.exists_cons_of_ne_nil (String.utf8EncodeChar_ne_nil (c := c))
      have hb : ¬p b = true := by
        intro hb
        by_cases hascii : IsAscii c
        · rw [encodeChar_of_isAscii hascii, List.cons.injEq] at hbytes
          exact hc (onChar_eq_true_iff.mpr ⟨hascii, hbytes.1 ▸ hb⟩)
        · have hmem : b ∈ String.utf8EncodeChar c := by rw [hbytes]; exact List.mem_cons_self
          have hge := le_of_mem_encodeChar hascii hmem
          exact absurd (hp b hb) (UInt8.not_lt.mpr hge)
      rw [hbytes, List.cons_append, List.takeWhile_cons_of_neg hb]

/-! ## Cuts -/

/-- Cut a text at a byte offset; there is no cut inside a character or behind the end. -/
def splitAt? : ℕ → List Char → Option (List Char × List Char)
  | 0, l => some ([], l)
  | _ + 1, [] => none
  | n + 1, c :: l =>
    if (String.utf8EncodeChar c).length ≤ n + 1 then
      (splitAt? (n + 1 - (String.utf8EncodeChar c).length) l).map (fun s => (c :: s.1, s.2))
    else none

/-- The slice of a text between two byte offsets. -/
def slice? (l : List Char) (start stop : ℕ) : Option (List Char) :=
  if start ≤ stop then
    (splitAt? start l).bind (fun s => (splitAt? (stop - start) s.2).map Prod.fst)
  else none

/-- A byte offset stands between two characters. -/
def IsBoundary (l : List Char) (n : ℕ) : Prop := ∃ a b, l = a ++ b ∧ n = (encode a).length

/-- The text can be cut where a first part of it ends. -/
theorem splitAt?_append (a b : List Char) : splitAt? (encode a).length (a ++ b) = some (a, b) := by
  induction a with
  | nil => rw [encode_nil, List.length_nil, List.nil_append, splitAt?]
  | cons c a ih =>
    have hpos : 0 < (String.utf8EncodeChar c).length :=
      List.length_pos_iff.mpr String.utf8EncodeChar_ne_nil
    have hlen : (encode (c :: a)).length
        = (String.utf8EncodeChar c).length + (encode a).length := by
      rw [encode_cons, List.length_append]
    obtain ⟨n, hn⟩ := Nat.exists_eq_add_of_lt (hpos.trans_le (Nat.le_add_right _ (encode a).length))
    rw [Nat.zero_add] at hn
    rw [hlen, hn, List.cons_append, splitAt?, ← hn, if_pos (Nat.le_add_right _ _),
      Nat.add_sub_cancel_left, ih]
    rfl

/-- The slice between two parts of a text is what stands between them. -/
theorem slice?_append (a m b : List Char) :
    slice? (a ++ (m ++ b)) (encode a).length ((encode a).length + (encode m).length) = some m := by
  rw [slice?, if_pos (Nat.le_add_right _ _), splitAt?_append, Option.bind_some,
    Nat.add_sub_cancel_left, splitAt?_append]
  rfl

end Utf8
