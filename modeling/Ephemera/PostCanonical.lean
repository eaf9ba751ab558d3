/-
# The bytes that a post is named and signed by (`ephemera-post/src/canonical.rs`)

`canonical_bytes` is the JSON text of a tuple of seven fields, in this order: the content with
its kind in front, the author, the two times, the parent and the root, or `null`, and the depth.
Every part of the text ends where it says so, whatever is in the strings, because `serde_json`
escapes the quotation mark and the backslash.  So the bytes determine the fields
(`PostCanonical.canonicalText_injective`), and so do an identifier and a signature over them, up
to what the identity key signs elsewhere.
-/
import Ephemera.PostIngest
import Ephemera.ProtocolEnvelope
import Ephemera.SelfDelimiting
import Ephemera.Utf8

namespace PostCanonical

open ProtocolEnvelope SelfDelimiting

/-! ## Strings -/

/-- A hexadecimal digit in lower case. -/
def hexDigit (n : ℕ) : UInt8 := UInt8.ofNat (if n < 10 then 48 + n else 87 + n)

/-- The value of a hexadecimal digit in lower case. -/
def hexValue (c : UInt8) : ℕ := if c.toNat < 58 then c.toNat - 48 else c.toNat - 87

/-- How `serde_json` writes one byte of a string (its table `ESCAPE`). -/
def escapeByte (b : UInt8) : List UInt8 :=
  if b = 34 then [92, 34]
  else if b = 92 then [92, 92]
  else if b = 8 then [92, 98]
  else if b = 12 then [92, 102]
  else if b = 10 then [92, 110]
  else if b = 13 then [92, 114]
  else if b = 9 then [92, 116]
  else if b < 32 then [92, 117, 48, 48, hexDigit (b.toNat / 16), hexDigit (b.toNat % 16)]
  else [b]

/-- The byte that an escape stands for. -/
def unescapeByte : List UInt8 → Option (UInt8 × List UInt8)
  | 92 :: 117 :: 48 :: 48 :: h :: l :: rest =>
    some (UInt8.ofNat (16 * hexValue h + hexValue l), rest)
  | 92 :: c :: rest =>
    if c = 98 then some (8, rest)
    else if c = 102 then some (12, rest)
    else if c = 110 then some (10, rest)
    else if c = 114 then some (13, rest)
    else if c = 116 then some (9, rest)
    else some (c, rest)
  | b :: rest => some (b, rest)
  | [] => none

theorem hexValue_hexDigit : ∀ n < 32,
    UInt8.ofNat (16 * hexValue (hexDigit (n / 16)) + hexValue (hexDigit (n % 16))) =
      UInt8.ofNat n := by
  decide

theorem unescapeByte_escapeByte (b : UInt8) (more : List UInt8) :
    unescapeByte (escapeByte b ++ more) = some (b, more) := by
  rw [escapeByte]
  split_ifs with h1 h2 h3 h4 h5 h6 h7 h8
  all_goals first | subst b; rfl | skip
  · -- a control character, by its code
    have hlt : b.toNat < 32 := UInt8.lt_iff_toNat_lt.mp h8
    show some (UInt8.ofNat (16 * hexValue (hexDigit (b.toNat / 16)) +
      hexValue (hexDigit (b.toNat % 16))), more) = _
    rw [hexValue_hexDigit b.toNat hlt, UInt8.ofNat_toNat]
  · rw [List.singleton_append, unescapeByte]
    · exact fun _ _ _ h => absurd h h2
    · exact fun _ _ h => absurd h h2

theorem escapeByte_selfDelimiting : SelfDelimiting escapeByte := ofReader unescapeByte_escapeByte

/-- No escape begins with a quotation mark. -/
theorem escapeByte_first (b : UInt8) : ∃ c l, escapeByte b = c :: l ∧ c ≠ 34 := by
  rw [escapeByte]
  split_ifs with h
  all_goals first | exact ⟨_, _, rfl, by decide⟩ | exact ⟨_, _, rfl, h⟩

/-- The bytes of a `str`. -/
def strBytes (s : String) : List UInt8 := Utf8.encode s.toList

theorem strBytes_injective : Function.Injective strBytes :=
  fun _ _ h => String.toList_inj.mp (Utf8.encode_injective h)

/-- A string: its bytes escaped, between quotation marks. -/
def stringText (s : String) : List UInt8 := [34] ++ ((strBytes s).flatMap escapeByte ++ [34])

theorem stringText_selfDelimiting : SelfDelimiting stringText :=
  behind [34] (comap (upTo escapeByte_selfDelimiting escapeByte_first) strBytes_injective)

/-! ## Content -/

/-- A `u32`. -/
def u32 (close : UInt8) (hclose : ¬ IsDigit close) : PrefixCode UInt8 UInt32 :=
  (number close hclose).restrict (fun n => if n < 2 ^ 32 then some (UInt32.ofNat n) else none)
    UInt32.toNat (fun b => by rw [if_pos b.toNat_lt, UInt32.ofNat_toNat])

/-- A comma ends a number. -/
theorem not_isDigit_comma : ¬ IsDigit 44 := by decide

/-- A closing bracket ends a number. -/
theorem not_isDigit_bracket : ¬ IsDigit 93 := by decide

/-- A `ContentId`: the version, and the digest. -/
def contentIdText (id : ContentId) : List UInt8 :=
  ascii "\x7b\"version\":" ++ ((u8 44 not_isDigit_comma).write id.version ++
    (ascii "\"hash\":" ++ (array.write id.hash ++ ascii "\x7d")))

theorem contentIdText_selfDelimiting : SelfDelimiting contentIdText := by
  have hfields : SelfDelimiting (fun p : UInt8 × List UInt8 =>
      (u8 44 not_isDigit_comma).write p.1 ++
        (ascii "\"hash\":" ++ (array.write p.2 ++ ascii "\x7d"))) :=
    pair (ofPrefixCode _) (behind _ (before (ofPrefixCode array) _))
  refine comap (f := fun id : ContentId => (id.version, id.hash)) (behind _ hfields) ?_
  rintro ⟨v, h⟩ ⟨v', h'⟩ heq
  cases heq
  rfl

/-- Every text of an identifier begins with a brace. -/
theorem contentIdText_first (id : ContentId) {c : UInt8} (hc : 123 ≠ c) :
    ∃ d l, contentIdText id = d :: l ∧ d ≠ c := by
  have hbrace : ascii "\x7b\"version\":" = 123 :: ascii "\"version\":" := by decide +kernel
  exact ⟨123, _, by rw [contentIdText, hbrace, List.cons_append], hc⟩

/-- The text of `None`. -/
def nullText : List UInt8 := [110, 117, 108, 108]

/-- What stands in front of the first field of each variant. -/
def textFront : List UInt8 := ascii "\x7b\"Text\":\x7b\"body\":"

def photoFront : List UInt8 := ascii "\x7b\"Photo\":\x7b\"blob_id\":"

def combinedFront : List UInt8 := ascii "\x7b\"Combined\":\x7b\"text\":"

/-- `PostContent`, with the name of the variant in front. -/
def contentText : PostContent → List UInt8
  | .text body => textFront ++ (stringText body ++ ascii "\x7d\x7d")
  | .photo blobId caption =>
    photoFront ++ (contentIdText blobId ++ (ascii ",\"caption\":" ++
      (optionText nullText stringText caption ++ ascii "\x7d\x7d")))
  | .combined text attachments =>
    combinedFront ++ (stringText text ++ (ascii ",\"attachments\":[" ++
      (listText 44 93 contentIdText attachments ++ ascii "\x7d\x7d")))

theorem stringText_first (s : String) {c : UInt8} (hc : 34 ≠ c) :
    ∃ d l, stringText s = d :: l ∧ d ≠ c :=
  ⟨34, _, rfl, hc⟩

theorem caption_selfDelimiting : SelfDelimiting (optionText nullText stringText) :=
  optionText_selfDelimiting stringText_selfDelimiting (fun s => stringText_first s (by decide))

theorem attachments_selfDelimiting : SelfDelimiting (listText 44 93 contentIdText) :=
  listText_selfDelimiting contentIdText_selfDelimiting (by decide)
    (fun id => contentIdText_first id (by decide))

/-- None of the three begins another. -/
theorem fronts_differ :
    (¬ textFront <+: photoFront ∧ ¬ photoFront <+: textFront) ∧
      (¬ textFront <+: combinedFront ∧ ¬ combinedFront <+: textFront) ∧
      ¬ photoFront <+: combinedFront ∧ ¬ combinedFront <+: photoFront := by
  decide +kernel

theorem contentText_selfDelimiting : SelfDelimiting contentText := by
  have htext := behind textFront (before stringText_selfDelimiting (ascii "\x7d\x7d"))
  have hphoto := behind photoFront (pair contentIdText_selfDelimiting
    (behind (ascii ",\"caption\":") (before caption_selfDelimiting (ascii "\x7d\x7d"))))
  have hcombined := behind combinedFront (pair stringText_selfDelimiting
    (behind (ascii ",\"attachments\":[")
      (before attachments_selfDelimiting (ascii "\x7d\x7d"))))
  obtain ⟨⟨htp, hpt⟩, ⟨htc, hct⟩, hpc, hcp⟩ := fronts_differ
  intro c c' x y h
  cases c with
  | text body =>
    cases c' with
    | text body' =>
      obtain ⟨rfl, hxy⟩ := htext body body' x y h
      exact ⟨rfl, hxy⟩
    | photo _ _ => exact absurd h (behind_ne htp hpt _ _ x y)
    | combined _ _ => exact absurd h (behind_ne htc hct _ _ x y)
  | photo blobId caption =>
    cases c' with
    | text _ => exact absurd h (behind_ne hpt htp _ _ x y)
    | photo blobId' caption' =>
      obtain ⟨heq, hxy⟩ := hphoto (blobId, caption) (blobId', caption') x y h
      cases heq
      exact ⟨rfl, hxy⟩
    | combined _ _ => exact absurd h (behind_ne hpc hcp _ _ x y)
  | combined text attachments =>
    cases c' with
    | text _ => exact absurd h (behind_ne hct htc _ _ x y)
    | photo _ _ => exact absurd h (behind_ne hcp hpc _ _ x y)
    | combined text' attachments' =>
      obtain ⟨heq, hxy⟩ := hcombined (text, attachments) (text', attachments') x y h
      cases heq
      exact ⟨rfl, hxy⟩

/-! ## The tuple -/

/-- An identifier, or `null`. -/
def optionalIdText : Option ContentId → List UInt8 := optionText nullText contentIdText

theorem optionalIdText_selfDelimiting : SelfDelimiting optionalIdText :=
  optionText_selfDelimiting contentIdText_selfDelimiting
    (fun id => contentIdText_first id (by decide))

/-- `serde_json::to_vec` of the tuple that `canonical_bytes` makes. -/
def canonicalText (f : CanonicalFields) : List UInt8 :=
  [91] ++ (contentText f.content ++ ([44] ++ (array.write f.author ++ ([44] ++
    ((u64 44 not_isDigit_comma).write f.createdAt ++ ((u64 44 not_isDigit_comma).write f.ttlSecs ++
      (optionalIdText f.parent ++ ([44] ++ (optionalIdText f.root ++ ([44] ++
        (u32 93 not_isDigit_bracket).write f.depth))))))))))

/-- **The bytes determine all seven fields.** -/
theorem canonicalText_injective : Function.Injective canonicalText := by
  have htuple := behind [91] (pair contentText_selfDelimiting (behind [44]
    (pair (ofPrefixCode array) (behind [44]
      (pair (ofPrefixCode (u64 44 not_isDigit_comma))
        (pair (ofPrefixCode (u64 44 not_isDigit_comma))
          (pair optionalIdText_selfDelimiting (behind [44]
            (pair optionalIdText_selfDelimiting (behind [44]
              (ofPrefixCode (u32 93 not_isDigit_bracket))))))))))))
  intro f g h
  have heq := @injective _ _ _ htuple
    (f.content, f.author, f.createdAt, f.ttlSecs, f.parent, f.root, f.depth)
    (g.content, g.author, g.createdAt, g.ttlSecs, g.parent, g.root, g.depth) h
  cases f
  cases g
  cases heq
  rfl

end PostCanonical
