/-
# Mentions in a post

`extract_mention_patterns` walks the bytes of a body.  At an `@` an inner loop runs over the
bytes of the handle behind it, and the handle is cut out of the body by its two byte offsets;
a cut inside a character would panic.  `mentionsFrom` reads the same mentions off the
characters, from any one on.

The two agree (`scan_append`), so the body is never cut inside a character, and what comes out
are the first twenty of all maximal mentions (`extractMentionPatterns_eq_some`).
-/
import Ephemera.Utf8

open Utf8

namespace Mention

/-! ## The scan -/

/-- A handle name without its `@`, and the byte offsets of the `@` and of the end. -/
structure MentionPattern where
  handle : String
  byteStart : ℕ
  byteEnd : ℕ
deriving DecidableEq, Repr

/-- The byte of `@`. -/
def atByte : UInt8 := 64

/-- `is_ascii_alphanumeric`, `-` or `_`. -/
def isHandleByte (b : UInt8) : Bool :=
  (48 ≤ b && b ≤ 57) || (65 ≤ b && b ≤ 90) || (97 ≤ b && b ≤ 122) || b == 45 || b == 95

/-- The inner loop: the first index from `i` on that is not of a handle. -/
def skipHandle (bytes : List UInt8) (i : ℕ) : ℕ :=
  if h : i < bytes.length then
    if isHandleByte bytes[i] then skipHandle bytes (i + 1) else i
  else i
termination_by bytes.length - i

theorem le_skipHandle (bytes : List UInt8) (i : ℕ) : i ≤ skipHandle bytes i := by
  fun_induction skipHandle bytes i with
  | case1 i h hb ih => exact (Nat.le_succ i).trans ih
  | case2 i h hb => exact le_rfl
  | case3 i h => exact le_rfl

/-- The outer loop from the index `i` on; `none` when the body is cut inside a character. -/
def scan (body : List Char) (bytes : List UInt8) (i : ℕ) (mentions : List MentionPattern) :
    Option (List MentionPattern) :=
  if h : i < bytes.length then
    if bytes[i] = atByte then
      if i + 1 < skipHandle bytes (i + 1) then
        match slice? body (i + 1) (skipHandle bytes (i + 1)) with
        | none => none
        | some handle =>
          scan body bytes (skipHandle bytes (i + 1))
            (mentions ++ [⟨String.ofList handle, i, skipHandle bytes (i + 1)⟩])
      else scan body bytes (skipHandle bytes (i + 1)) mentions
    else scan body bytes (i + 1) mentions
  else some mentions
termination_by bytes.length - i
decreasing_by
  all_goals have := le_skipHandle bytes (i + 1); omega

/-- The limit of mentions in a post. -/
def maxMentions : ℕ := 20

def extractMentionPatterns (body : String) : Option (List MentionPattern) :=
  (scan body.toList (encode body.toList) 0 []).map (fun mentions => mentions.take maxMentions)

/-! ## What a mention is -/

/-- `[A-Za-z0-9_-]` -/
def IsHandleChar (c : Char) : Prop :=
  ('A' ≤ c ∧ c ≤ 'Z') ∨ ('a' ≤ c ∧ c ≤ 'z') ∨ ('0' ≤ c ∧ c ≤ '9') ∨ c = '_' ∨ c = '-'

instance : DecidablePred IsHandleChar := fun _ => inferInstanceAs (Decidable (_ ∨ _))

/-- A maximal mention in a text whose first byte has the number `offset`: an `@` and a handle
behind it that cannot be made longer. -/
structure MentionAt (offset : ℕ) (text before after : List Char) (m : MentionPattern) : Prop where
  split : text = before ++ '@' :: (m.handle.toList ++ after)
  nonempty : m.handle.toList ≠ []
  handle : ∀ c ∈ m.handle.toList, IsHandleChar c
  maximal : ∀ c ∈ after.head?, ¬IsHandleChar c
  byteStart : m.byteStart = offset + (encode before).length
  byteEnd : m.byteEnd = m.byteStart + 1 + (encode m.handle.toList).length

def IsMention (body : String) (m : MentionPattern) : Prop :=
  ∃ before after, MentionAt 0 body.toList before after m

/-- `mentions` are the first ones of `all`, the mentions of the body in their order, and each is
cut out of the body at its byte offsets. -/
structure FirstMentions (body : String) (all mentions : List MentionPattern) : Prop where
  complete : ∀ m, m ∈ all ↔ IsMention body m
  ordered : all.Pairwise (fun m m' => m.byteEnd ≤ m'.byteStart)
  first : mentions = all.take maxMentions
  boundary : ∀ m ∈ mentions, IsBoundary body.toList m.byteStart ∧ IsBoundary body.toList m.byteEnd
  cut : ∀ m ∈ mentions,
    slice? body.toList (m.byteStart + 1) m.byteEnd = some m.handle.toList

/-! ## Characters and bytes of a handle -/

theorem isHandleByte_lt {b : UInt8} (h : isHandleByte b = true) : b < 128 := by
  simp only [isHandleByte, Bool.or_eq_true, Bool.and_eq_true, decide_eq_true_eq,
    UInt8.le_iff_toNat_le, beq_iff_eq, ← UInt8.toNat_inj] at h
  simp only [UInt8.lt_iff_toNat_lt]
  simp only [UInt8.reduceToNat] at h ⊢
  omega

theorem isHandleByte_byteOf_iff {c : Char} (hc : IsAscii c) :
    isHandleByte (byteOf c) = true ↔ IsHandleChar c := by
  have hle (a b : Char) : a ≤ b ↔ a.toNat ≤ b.toNat := Iff.rfl
  have heq (a b : Char) : a = b ↔ a.toNat = b.toNat := Char.toNat_inj.symm
  simp only [isHandleByte, Bool.or_eq_true, Bool.and_eq_true, decide_eq_true_eq,
    UInt8.le_iff_toNat_le, beq_iff_eq, ← UInt8.toNat_inj, toNat_byteOf hc, IsHandleChar, hle, heq]
  simp only [UInt8.reduceToNat, Char.reduceToNat]
  omega

/-- The test of a handle, on characters. -/
abbrev isHandleChar : Char → Bool := onChar isHandleByte

@[simp] theorem isHandleChar_eq_true_iff {c : Char} : isHandleChar c = true ↔ IsHandleChar c := by
  rw [onChar_eq_true_iff]
  constructor
  · rintro ⟨hascii, hbyte⟩
    exact (isHandleByte_byteOf_iff hascii).mp hbyte
  · intro hc
    have hascii : IsAscii c := by
      have hle (a b : Char) : a ≤ b ↔ a.toNat ≤ b.toNat := Iff.rfl
      have heq (a b : Char) : a = b ↔ a.toNat = b.toNat := Char.toNat_inj.symm
      simp only [IsHandleChar, hle, heq] at hc
      rw [IsAscii]
      have hvals : 'Z'.toNat = 90 ∧ 'z'.toNat = 122 ∧ '9'.toNat = 57 ∧ '_'.toNat = 95 ∧
        '-'.toNat = 45 := by decide
      omega
    exact ⟨hascii, (isHandleByte_byteOf_iff hascii).mpr hc⟩

theorem not_isHandleChar_at : ¬IsHandleChar '@' := by decide

/-- The inner loop passes exactly the bytes of the handle. -/
theorem skipHandle_eq (bytes : List UInt8) (i : ℕ) :
    skipHandle bytes i = i + ((bytes.drop i).takeWhile isHandleByte).length := by
  fun_induction skipHandle bytes i with
  | case1 i h hb ih =>
    rw [ih, List.drop_eq_getElem_cons h, List.takeWhile_cons_of_pos hb, List.length_cons]
    omega
  | case2 i h hb =>
    rw [List.drop_eq_getElem_cons h, List.takeWhile_cons_of_neg hb, List.length_nil, Nat.add_zero]
  | case3 i h =>
    rw [List.drop_eq_nil_of_le (Nat.le_of_not_lt h), List.takeWhile_nil, List.length_nil,
      Nat.add_zero]

/-- From a character on, the inner loop passes the characters of the handle. -/
theorem skipHandle_encode (front rest : List Char) :
    skipHandle (encode (front ++ rest)) (encode front).length
      = (encode front).length + (encode (rest.takeWhile isHandleChar)).length := by
  rw [skipHandle_eq, encode_append, List.drop_left,
    takeWhile_encode (fun _ => isHandleByte_lt)]

/-! ## The scan of the characters -/

/-- The mentions of a text whose first byte has the number `offset`. -/
def mentionsFrom (offset : ℕ) : List Char → List MentionPattern
  | [] => []
  | c :: rest =>
    let handle := rest.takeWhile isHandleChar
    if c = '@' then
      if handle = [] then mentionsFrom (offset + 1) rest
      else ⟨String.ofList handle, offset, offset + 1 + (encode handle).length⟩
        :: mentionsFrom (offset + 1) rest
    else mentionsFrom (offset + (String.utf8EncodeChar c).length) rest

theorem encode_at : String.utf8EncodeChar '@' = [atByte] := by decide

/-- No byte of another character is that of `@`. -/
theorem atByte_not_mem_encodeChar {c : Char} (hc : c ≠ '@') :
    atByte ∉ String.utf8EncodeChar c := by
  intro hmem
  by_cases hascii : IsAscii c
  · rw [encodeChar_of_isAscii hascii, List.mem_singleton] at hmem
    have hval := toNat_byteOf hascii
    rw [← hmem] at hval
    exact hc (Char.toNat_inj.mp hval.symm)
  · exact absurd (le_of_mem_encodeChar hascii hmem) (by decide)

/-- There is no mention in a text without `@`. -/
theorem mentionsFrom_append {front : List Char} (hfront : '@' ∉ front) (offset : ℕ)
    (rest : List Char) :
    mentionsFrom offset (front ++ rest) = mentionsFrom (offset + (encode front).length) rest := by
  induction front generalizing offset with
  | nil => rfl
  | cons c front ih =>
    have hc : c ≠ '@' := fun h => hfront (h ▸ List.mem_cons_self)
    have hmem : '@' ∉ front := fun h => hfront (List.mem_cons_of_mem c h)
    rw [List.cons_append, mentionsFrom, if_neg hc, ih hmem, encode_cons, List.length_append,
      Nat.add_assoc]

theorem at_not_mem_takeWhile (rest : List Char) : '@' ∉ rest.takeWhile isHandleChar := by
  intro hmem
  exact not_isHandleChar_at (isHandleChar_eq_true_iff.mp (List.mem_takeWhile_imp hmem))

/-- The mentions behind an `@` start behind its handle. -/
theorem mentionsFrom_dropWhile (offset : ℕ) (rest : List Char) :
    mentionsFrom offset rest
      = mentionsFrom (offset + (encode (rest.takeWhile isHandleChar)).length)
          (rest.dropWhile isHandleChar) := by
  rw [← mentionsFrom_append (at_not_mem_takeWhile rest), List.takeWhile_append_dropWhile]

/-! ## The scan of the bytes -/

variable {body : List Char} {bytes : List UInt8} {i : ℕ} {mentions : List MentionPattern}

theorem scan_of_ne (h : i < bytes.length) (hne : bytes[i] ≠ atByte) :
    scan body bytes i mentions = scan body bytes (i + 1) mentions := by
  rw [scan, dif_pos h, if_neg hne]

theorem scan_of_skipHandle_eq (h : i < bytes.length) (hat : bytes[i] = atByte)
    (hskip : skipHandle bytes (i + 1) = i + 1) :
    scan body bytes i mentions = scan body bytes (i + 1) mentions := by
  rw [scan, dif_pos h, if_pos hat, hskip, if_neg (Nat.lt_irrefl _)]

theorem scan_of_slice? (h : i < bytes.length) (hat : bytes[i] = atByte) {stop : ℕ}
    (hskip : skipHandle bytes (i + 1) = stop) (hstop : i + 1 < stop) {handle : List Char}
    (hslice : slice? body (i + 1) stop = some handle) :
    scan body bytes i mentions
      = scan body bytes stop (mentions ++ [⟨String.ofList handle, i, stop⟩]) := by
  rw [scan, dif_pos h, if_pos hat, hskip, if_pos hstop, hslice]

/-- The outer loop passes bytes that are not `@`. -/
theorem scan_skip {bs : List UInt8} (hbs : atByte ∉ bs) (front rest : List UInt8) :
    scan body (front ++ (bs ++ rest)) front.length mentions
      = scan body (front ++ (bs ++ rest)) (front.length + bs.length) mentions := by
  induction bs generalizing front with
  | nil => rfl
  | cons b bs ih =>
    have hlt : front.length < (front ++ (b :: bs ++ rest)).length := by
      rw [List.length_append, List.cons_append, List.length_cons]
      omega
    have hne : (front ++ (b :: bs ++ rest))[front.length] ≠ atByte := by
      intro h
      refine hbs (List.mem_cons.mpr (Or.inl ?_))
      simpa using h.symm
    have hassoc : front ++ (b :: bs ++ rest) = front ++ [b] ++ (bs ++ rest) := by
      rw [List.append_assoc]
      rfl
    have hrest := ih (fun h => hbs (List.mem_cons_of_mem b h)) (front ++ [b])
    rw [List.length_append, List.length_singleton, ← hassoc] at hrest
    rw [scan_of_ne hlt hne, hrest, List.length_cons, Nat.add_assoc, Nat.add_comm 1]

/-! An `@` with a text in front of it and one behind it. -/

theorem append_cons_assoc (front rest : List Char) (c : Char) :
    front ++ c :: rest = (front ++ [c]) ++ rest := by
  rw [List.append_assoc]
  rfl

theorem length_encode_concat (front : List Char) (c : Char) :
    (encode (front ++ [c])).length
      = (encode front).length + (String.utf8EncodeChar c).length := by
  rw [encode_append, List.length_append, encode_cons, encode_nil, List.append_nil]

theorem length_encode_concat_at (front : List Char) :
    (encode (front ++ ['@'])).length = (encode front).length + 1 := by
  rw [length_encode_concat, encode_at]
  rfl

theorem encode_append_at (front rest : List Char) :
    encode (front ++ '@' :: rest) = encode front ++ (atByte :: encode rest) := by
  rw [encode_append, encode_cons, encode_at]
  rfl

theorem length_encode_lt (front rest : List Char) :
    (encode front).length < (encode (front ++ '@' :: rest)).length := by
  rw [encode_append_at, List.length_append, List.length_cons]
  omega

theorem getElem_encode_at (front rest : List Char)
    (h : (encode front).length < (encode (front ++ '@' :: rest)).length) :
    (encode (front ++ '@' :: rest))[(encode front).length] = atByte := by
  simp [encode_append_at]

theorem skipHandle_encode_at (front rest : List Char) :
    skipHandle (encode (front ++ '@' :: rest)) ((encode front).length + 1)
      = (encode front).length + 1 + (encode (rest.takeWhile isHandleChar)).length := by
  rw [append_cons_assoc, ← length_encode_concat_at]
  exact skipHandle_encode (front ++ ['@']) rest

theorem slice?_handle (front handle rest : List Char) :
    slice? (front ++ '@' :: (handle ++ rest)) ((encode front).length + 1)
      ((encode front).length + 1 + (encode handle).length) = some handle := by
  rw [append_cons_assoc, ← length_encode_concat_at]
  exact slice?_append (front ++ ['@']) handle rest

/-- A text up to behind the handle, and what stands there. -/
theorem append_at_split (front rest : List Char) :
    front ++ '@' :: rest
      = (front ++ ['@'] ++ rest.takeWhile isHandleChar) ++ rest.dropWhile isHandleChar := by
  rw [List.append_assoc, List.takeWhile_append_dropWhile, append_cons_assoc]

theorem length_encode_behind (front handle : List Char) :
    (encode (front ++ ['@'] ++ handle)).length
      = (encode front).length + 1 + (encode handle).length := by
  rw [encode_append, List.length_append, length_encode_concat_at]

theorem length_encode_pos {l : List Char} (hl : l ≠ []) : 0 < (encode l).length := by
  cases l with
  | nil => exact absurd rfl hl
  | cons c l =>
    rw [encode_cons, List.length_append]
    exact Nat.add_pos_left (List.length_pos_iff.mpr String.utf8EncodeChar_ne_nil) _

/-- **The scan of the bytes finds what the scan of the characters finds**: from the first byte
of any character on, and without a cut inside one. -/
theorem scan_append (front rest : List Char) (mentions : List MentionPattern) :
    scan (front ++ rest) (encode (front ++ rest)) (encode front).length mentions
      = some (mentions ++ mentionsFrom (encode front).length rest) := by
  -- the loop goes on behind the handle, so the induction is on the length of the rest
  induction hlen : rest.length using Nat.strong_induction_on generalizing front rest mentions with
  | _ n ih =>
    subst hlen
    cases rest with
    | nil =>
      rw [List.append_nil, scan, dif_neg (Nat.lt_irrefl _), mentionsFrom, List.append_nil]
    | cons c rest =>
      by_cases hc : c = '@'
      · subst hc
        have hlt := length_encode_lt front rest
        have hat := getElem_encode_at front rest hlt
        have hskip := skipHandle_encode_at front rest
        by_cases hhandle : rest.takeWhile isHandleChar = []
        · have hrest := ih rest.length (Nat.lt_succ_self _) (front ++ ['@']) rest mentions rfl
          rw [length_encode_concat_at, ← append_cons_assoc] at hrest
          rw [hhandle, encode_nil, List.length_nil, Nat.add_zero] at hskip
          rw [scan_of_skipHandle_eq hlt hat hskip, mentionsFrom, if_pos rfl, if_pos hhandle]
          exact hrest
        · have hpos := length_encode_pos hhandle
          have hslice := slice?_handle front (rest.takeWhile isHandleChar)
            (rest.dropWhile isHandleChar)
          rw [List.takeWhile_append_dropWhile] at hslice
          rw [scan_of_slice? hlt hat hskip (by omega) hslice]
          -- the loop goes on behind the handle, where the characters are read on from as well
          have hshort : (rest.dropWhile isHandleChar).length < ('@' :: rest).length :=
            Nat.lt_succ_of_le (List.dropWhile_suffix _).length_le
          have hrest := ih _ hshort (front ++ ['@'] ++ rest.takeWhile isHandleChar)
            (rest.dropWhile isHandleChar)
            (mentions ++ [⟨String.ofList (rest.takeWhile isHandleChar), (encode front).length,
              (encode front).length + 1 + (encode (rest.takeWhile isHandleChar)).length⟩]) rfl
          rw [← append_at_split, length_encode_behind] at hrest
          rw [hrest, mentionsFrom, if_pos rfl, if_neg hhandle, mentionsFrom_dropWhile _ rest,
            List.append_assoc, List.singleton_append]
      · have hrest := ih rest.length (Nat.lt_succ_self _) (front ++ [c]) rest mentions rfl
        rw [length_encode_concat, ← append_cons_assoc] at hrest
        rw [mentionsFrom, if_neg hc, ← hrest, encode_append, encode_cons]
        exact scan_skip (atByte_not_mem_encodeChar hc) (encode front) (encode rest)

/-- **The scan never panics**, and returns the first mentions of the characters. -/
theorem extractMentionPatterns_eq_some (body : String) :
    extractMentionPatterns body = some ((mentionsFrom 0 body.toList).take maxMentions) := by
  rw [extractMentionPatterns]
  have h := scan_append [] body.toList []
  rw [List.nil_append, encode_nil, List.length_nil, List.nil_append] at h
  rw [h, Option.map_some]

/-! ## The mentions -/

/-- The handle of a mention is all that stands behind its `@` and belongs to a handle. -/
theorem takeWhile_eq {handle after : List Char} (hhandle : ∀ c ∈ handle, IsHandleChar c)
    (hafter : ∀ c ∈ after.head?, ¬IsHandleChar c) :
    (handle ++ after).takeWhile isHandleChar = handle := by
  rw [List.takeWhile_append_of_pos (fun c hc => isHandleChar_eq_true_iff.mpr (hhandle c hc))]
  cases after with
  | nil => rw [List.takeWhile_nil, List.append_nil]
  | cons c after =>
    have hc : ¬isHandleChar c = true := by
      rw [isHandleChar_eq_true_iff]
      exact hafter c rfl
    rw [List.takeWhile_cons_of_neg hc, List.append_nil]

/-- What stands behind the handle does not start with a character of it. -/
theorem not_isHandleChar_of_mem_head? {rest : List Char} {c : Char}
    (hc : c ∈ (rest.dropWhile isHandleChar).head?) : ¬IsHandleChar c := by
  rw [← isHandleChar_eq_true_iff]
  have h := List.head?_dropWhile_not isHandleChar rest
  rw [Option.mem_def.mp hc] at h
  exact Bool.eq_false_iff.mp h

variable {offset : ℕ} {m : MentionPattern} {c : Char} {rest : List Char}

/-- The one mention that can start with the first character. -/
theorem mentionAt_nil_iff :
    (∃ after, MentionAt offset (c :: rest) [] after m) ↔
      c = '@' ∧ rest.takeWhile isHandleChar ≠ [] ∧
        m = ⟨String.ofList (rest.takeWhile isHandleChar), offset,
          offset + 1 + (encode (rest.takeWhile isHandleChar)).length⟩ := by
  constructor
  · rintro ⟨after, hsplit, hne, hhandle, hafter, hstart, hend⟩
    rw [List.nil_append, List.cons.injEq] at hsplit
    obtain ⟨rfl, rfl⟩ := hsplit
    rw [encode_nil, List.length_nil, Nat.add_zero] at hstart
    rw [takeWhile_eq hhandle hafter]
    refine ⟨rfl, hne, ?_⟩
    rw [String.ofList_toList, ← hstart, ← hend]
  · rintro ⟨rfl, hne, rfl⟩
    refine ⟨rest.dropWhile isHandleChar, ?_, ?_, ?_, ?_, rfl, ?_⟩
    · rw [String.toList_ofList, List.takeWhile_append_dropWhile, List.nil_append]
    · rwa [String.toList_ofList]
    · rw [String.toList_ofList]
      intro c hc
      exact isHandleChar_eq_true_iff.mp (List.mem_takeWhile_imp hc)
    · intro c hc
      exact not_isHandleChar_of_mem_head? hc
    · rw [String.toList_ofList]

/-- The mentions that start behind the first character are those of the rest. -/
theorem mentionAt_cons_iff :
    (∃ before after, MentionAt offset (c :: rest) before after m) ↔
      (∃ after, MentionAt offset (c :: rest) [] after m) ∨
        ∃ before after,
          MentionAt (offset + (String.utf8EncodeChar c).length) rest before after m := by
  constructor
  · rintro ⟨before, after, h⟩
    cases before with
    | nil => exact Or.inl ⟨after, h⟩
    | cons c' before =>
      obtain ⟨hsplit, hne, hhandle, hafter, hstart, hend⟩ := h
      rw [List.cons_append, List.cons.injEq] at hsplit
      obtain ⟨rfl, hsplit⟩ := hsplit
      rw [encode_cons, List.length_append, ← Nat.add_assoc] at hstart
      exact Or.inr ⟨before, after, hsplit, hne, hhandle, hafter, hstart, hend⟩
  · rintro (⟨after, h⟩ | ⟨before, after, hsplit, hne, hhandle, hafter, hstart, hend⟩)
    · exact ⟨[], after, h⟩
    · refine ⟨c :: before, after, ?_, hne, hhandle, hafter, ?_, hend⟩
      · rw [hsplit, List.cons_append]
      · rw [hstart, encode_cons, List.length_append, Nat.add_assoc]

/-- **All mentions of a text are found, and nothing else.** -/
theorem mem_mentionsFrom_iff (offset : ℕ) (text : List Char) (m : MentionPattern) :
    m ∈ mentionsFrom offset text ↔ ∃ before after, MentionAt offset text before after m := by
  induction text generalizing offset with
  | nil =>
    rw [mentionsFrom]
    refine iff_of_false List.not_mem_nil ?_
    rintro ⟨before, after, h⟩
    have hsplit := h.split
    simp at hsplit
  | cons c rest ih =>
    rw [mentionAt_cons_iff, mentionAt_nil_iff, ← ih, mentionsFrom]
    by_cases hc : c = '@'
    · subst hc
      by_cases hhandle : rest.takeWhile isHandleChar = []
      · simp [hhandle, encode_at]
      · simp [hhandle, encode_at]
    · simp [hc]

theorem le_byteStart {text : List Char} (h : m ∈ mentionsFrom offset text) :
    offset ≤ m.byteStart := by
  obtain ⟨before, after, hm⟩ := (mem_mentionsFrom_iff offset text m).mp h
  rw [hm.byteStart]
  exact Nat.le_add_right _ _

/-- The mentions come in their order, and none runs into the next. -/
theorem pairwise_mentionsFrom (offset : ℕ) (text : List Char) :
    (mentionsFrom offset text).Pairwise (fun m m' => m.byteEnd ≤ m'.byteStart) := by
  induction text generalizing offset with
  | nil => exact List.Pairwise.nil
  | cons c rest ih =>
    rw [mentionsFrom]
    by_cases hc : c = '@'
    · rw [if_pos hc]
      by_cases hhandle : rest.takeWhile isHandleChar = []
      · rw [if_pos hhandle]
        exact ih _
      · rw [if_neg hhandle]
        refine List.Pairwise.cons (fun m' hm' => ?_) (ih _)
        rw [mentionsFrom_dropWhile] at hm'
        exact le_byteStart hm'
    · rw [if_neg hc]
      exact ih _

/-! The byte offsets of a mention. -/

theorem MentionAt.isBoundary_byteStart {text before after : List Char}
    (h : MentionAt 0 text before after m) : IsBoundary text m.byteStart :=
  ⟨before, '@' :: (m.handle.toList ++ after), h.split, by rw [h.byteStart, Nat.zero_add]⟩

theorem MentionAt.isBoundary_byteEnd {text before after : List Char}
    (h : MentionAt 0 text before after m) : IsBoundary text m.byteEnd := by
  refine ⟨before ++ ['@'] ++ m.handle.toList, after, ?_, ?_⟩
  · rw [h.split, append_cons_assoc]
    simp only [List.append_assoc]
  · rw [h.byteEnd, h.byteStart, Nat.zero_add, length_encode_behind]

theorem MentionAt.slice? {text before after : List Char} (h : MentionAt 0 text before after m) :
    slice? text (m.byteStart + 1) m.byteEnd = some m.handle.toList := by
  rw [h.byteEnd, h.byteStart, Nat.zero_add, h.split]
  exact slice?_handle before m.handle.toList after

/-- **Every body is scanned without a cut inside a character, and what comes out are its first
twenty mentions**: maximal, in their order, with the offsets at which the body holds them. -/
theorem firstMentions (body : String) :
    ∃ all mentions, extractMentionPatterns body = some mentions ∧
      FirstMentions body all mentions := by
  refine ⟨mentionsFrom 0 body.toList, _, extractMentionPatterns_eq_some body, ?_, ?_, rfl, ?_, ?_⟩
  · exact mem_mentionsFrom_iff 0 body.toList
  · exact pairwise_mentionsFrom 0 body.toList
  · intro m hm
    obtain ⟨before, after, h⟩ :=
      (mem_mentionsFrom_iff 0 body.toList m).mp (List.mem_of_mem_take hm)
    exact ⟨h.isBoundary_byteStart, h.isBoundary_byteEnd⟩
  · intro m hm
    obtain ⟨before, after, h⟩ :=
      (mem_mentionsFrom_iff 0 body.toList m).mp (List.mem_of_mem_take hm)
    exact h.slice?

end Mention
