/-
# What stripping does to an MP4 file (`video_metadata.rs`)

An MP4 file is a byte string whose boxes tile their parents, with bodies of boxes in `moov`,
`trak`, `mdia`, `minf`, `stbl`, `edts` and `moof`.  The stripper enters the first three only, takes
every header for eight bytes long and does not know `mdhd`.

`cleaned_iff` and `preserved_iff` say for which files it removes everything that identifies the
author, and for which the structure survives.  `verify_strip` says that, well-formed or not, the
verifier accepts what the stripper returns, and that stripping a second time changes nothing.
-/
import Ephemera.VideoMetadata

namespace VideoMetadata

open BoxForest

/-! ## The file format -/

/-- `b"mdhd"` -/
def mdhd : List UInt8 := [0x6d, 0x64, 0x68, 0x64]
/-- `b"minf"` -/
def minf : List UInt8 := [0x6d, 0x69, 0x6e, 0x66]
/-- `b"stbl"` -/
def stbl : List UInt8 := [0x73, 0x74, 0x62, 0x6c]
/-- `b"edts"` -/
def edts : List UInt8 := [0x65, 0x64, 0x74, 0x73]
/-- `b"moof"` -/
def moof : List UInt8 := [0x6d, 0x6f, 0x6f, 0x66]

/-- The types whose bodies hold boxes. -/
def isFormatContainer (t : List UInt8) : Bool :=
  isContainer t || (t == minf || t == stbl || t == edts || t == moof)

/-- The forest of the boxes of a file. -/
def format (data : List UInt8) : Forest := read isFormatContainer data

/-- A well-formed MP4 file: the boxes tile their parents. -/
structure Mp4 where
  data : List UInt8
  length_lt : data.length < 2 ^ 63
  tiles : (format data).Tiles

/-- The byte at `i` belongs to the body of the box. -/
def InPayload (b : Box) (i : ℕ) : Prop := b.pos + b.header ≤ i ∧ i < b.pos + b.size

/-- The version of a box that has one: the first byte of its body. -/
def version (data : List UInt8) (b : Box) : UInt8 := data.getD (b.pos + b.header) 0

/-- The byte at `i` belongs to the creation or the modification time of the box, which take four
bytes each in version 0 and eight in version 1. -/
def InTimes (data : List UInt8) (b : Box) (i : ℕ) : Prop :=
  InPayload b i ∧ b.pos + b.header + 4 ≤ i ∧
    (version data b = 0 ∧ i < b.pos + b.header + 12 ∨
      version data b = 1 ∧ i < b.pos + b.header + 20)

/-- The byte at `i` tells something about the author: it lies in a metadata box or in the times
of an `mvhd`, `tkhd` or `mdhd` box. -/
def Identifying (data : List UInt8) (b : Box) (i : ℕ) : Prop :=
  isMetadataBox b.type = true ∧ InPayload b i ∨
    (b.type = mvhd ∨ b.type = tkhd ∨ b.type = mdhd) ∧ InTimes data b i

instance (b : Box) (i : ℕ) : Decidable (InPayload b i) := inferInstanceAs (Decidable (_ ∧ _))

instance (data : List UInt8) (b : Box) (i : ℕ) : Decidable (InTimes data b i) :=
  inferInstanceAs (Decidable (_ ∧ _ ∧ _))

instance (data : List UInt8) (b : Box) (i : ℕ) : Decidable (Identifying data b i) :=
  inferInstanceAs (Decidable (_ ∨ _))

/-- The stripper is meant to write to the byte at `i`: it lies in the body of a metadata box or in
the times of an `mvhd` or `tkhd` box. -/
def Writable (data : List UInt8) (i : ℕ) : Prop :=
  ∃ b ∈ (format data).boxes, isMetadataBox b.type = true ∧ InPayload b i ∨
    (b.type = mvhd ∨ b.type = tkhd) ∧ InTimes data b i

/-- In the forest of the boxes of a file the walk finds a part. -/
theorem boxes_walk_subset {data : List UInt8} {b : Box} (h : b ∈ (walk data).boxes) :
    b ∈ (format data).boxes :=
  boxes_subset (fun t ht => by rw [isFormatContainer, ht, Bool.true_or]) h

/-- Metadata boxes and boxes with times have no boxes in them. -/
theorem isFormatContainer_of_leaf {t : List UInt8}
    (h : isMetadataBox t = true ∨ t = mvhd ∨ t = tkhd ∨ t = mdhd) :
    isFormatContainer t = false := by
  rw [isMetadataBox_eq_true_iff] at h
  rcases h with (rfl | rfl | rfl) | rfl | rfl | rfl <;> decide

theorem Mp4.tiles_walk (file : Mp4) : (walk file.data).Tiles :=
  tiles_of_subset (fun t ht => by rw [isFormatContainer, ht, Bool.true_or]) file.tiles

/-! ## The bytes that are left -/

/-- The bytes after the walk, with everything zeroed that the walk zeroes. -/
def strippedBytes (data : List UInt8) : List UInt8 := zeroWhere (stripped data (walk data)) data

section StrippedBytes

variable {data : List UInt8} {b b' : Box} {i : ℕ}

@[simp] theorem length_strippedBytes : (strippedBytes data).length = data.length :=
  length_zeroWhere _ _

/-- A box that the stripper writes to has no boxes in it. -/
theorem isFormatContainer_of_strips (h : strips data b i = true) :
    isFormatContainer b.type = false := by
  refine isFormatContainer_of_leaf ?_
  rcases strips_eq_true_iff.mp h with ⟨hmeta, -⟩ | ⟨-, hmvhd | htkhd, -⟩
  · exact .inl hmeta
  · exact .inr (.inl hmvhd)
  · exact .inr (.inr (.inl htkhd))

/-- A byte of a box without boxes in it is zeroed in that box or not at all. -/
theorem stripped_walk_iff (hb : b ∈ (format data).boxes) (hleaf : isFormatContainer b.type = false)
    (hi : b.pos ≤ i ∧ i < b.pos + b.size) :
    stripped data (walk data) i = true ↔ b ∈ (walk data).boxes ∧ strips data b i = true := by
  rw [stripped_eq_true_iff]
  constructor
  · rintro ⟨b', hb', hstrips⟩
    have hspan := span_of_strips hstrips
    obtain rfl : b = b' := eq_of_mem_span hb (boxes_walk_subset hb') hleaf
      (isFormatContainer_of_strips hstrips) hi (by omega)
    exact ⟨hb', hstrips⟩
  · rintro ⟨hmem, hstrips⟩
    exact ⟨b, hmem, hstrips⟩

/-- A byte that changes was not zero, and one of the boxes of the walk holds it. -/
theorem strips_of_changed (h : data[i]? ≠ (strippedBytes data)[i]?) :
    data.getD i 0 ≠ 0 ∧ (strippedBytes data).getD i 0 = 0 ∧
      ∃ b ∈ (walk data).boxes, strips data b i = true := by
  have hstripped : stripped data (walk data) i = true := by
    by_contra hfalse
    rw [Bool.not_eq_true] at hfalse
    refine h ?_
    rw [strippedBytes, getElem?_zeroWhere, hfalse]
    simp
  refine ⟨fun hzero => h ?_, ?_, stripped_eq_true_iff.mp hstripped⟩
  · rw [strippedBytes, getElem?_zeroWhere, hstripped]
    rw [List.getD_eq_getElem?_getD] at hzero
    cases hx : data[i]? with
    | none => rfl
    | some x =>
      rw [hx, Option.getD_some] at hzero
      rw [hzero, Option.map_some, if_pos rfl]
  · rw [strippedBytes, getD_zeroWhere, hstripped, if_pos rfl]

/-- What the stripper returns when the walk comes through. -/
theorem stripVideoMetadata_of_failure {overflowChecks : Bool} {fuel : ℕ}
    (hlen : data.length < 2 ^ 63) (hfuel : data.length < fuel)
    (hfail : (walk data).failure = none) :
    stripVideoMetadata overflowChecks fuel data = .ok (strippedBytes data) := by
  have hok : (walk data).failure ≠ some .overflow := by
    rw [hfail]
    decide
  rw [stripVideoMetadata_eq hlen hfuel (.inr hok), outcome, hfail]
  rfl

theorem Mp4.strip_eq (file : Mp4) {overflowChecks : Bool} {fuel : ℕ}
    (hfuel : file.data.length < fuel) :
    stripVideoMetadata overflowChecks fuel file.data = .ok (strippedBytes file.data) :=
  stripVideoMetadata_of_failure file.length_lt hfuel
    (Forest.failure_eq_none_of_tiles file.tiles_walk)

/-- The top byte of a 64-bit size is what the stripper takes for the version. -/
theorem versionByte_of_header (hb : b ∈ (format data).boxes) (hheader : b.header = 16) :
    (versionByte data b).toNat = b.size / 2 ^ 56 := by
  rcases (header_of_mem_boxes hb).2 with h8 | ⟨-, hsize⟩
  · omega
  · have hsplit : beNat data (b.pos + 8) 8 =
        beNat data (b.pos + 8) 1 * 256 ^ 7 + beNat data (b.pos + 8 + 1) 7 :=
      beNat_add data (b.pos + 8) 1 7
    have hlow := beNat_lt data (b.pos + 8 + 1) 7
    rw [beNat_one] at hsplit
    rw [versionByte, hsize]
    omega

end StrippedBytes

/-! ## What is removed -/

/-- The stripper does not write to the byte at `i` of the box, though it identifies the author:
the box lies in a body that is not entered, or is an `mdhd`, or ends before its times do, or has a
64-bit size, so that the times are looked for eight bytes too early. -/
def Overlooked (data : List UInt8) (b : Box) (i : ℕ) : Prop :=
  b ∉ (walk data).boxes ∨ b.type = mdhd ∨
    isMetadataBox b.type = false ∧
      (b.header = 8 ∧ b.size < (if version data b = 0 then 20 else 28) ∨
        b.header = 16 ∧ ¬ (2 ^ 56 ≤ b.size ∧ b.size < 2 ^ 57 ∧ i < b.pos + 28))

/-- Whatever the build, the stripper returns a file in which every identifying byte is zero. -/
def Cleaned (data : List UInt8) : Prop :=
  ∀ overflowChecks fuel, data.length < fuel →
    ∃ out, stripVideoMetadata overflowChecks fuel data = .ok out ∧
      ∀ b ∈ (format data).boxes, ∀ i, Identifying data b i → out.getD i 0 = 0

section Removed

variable {data : List UInt8} {b : Box} {i : ℕ}

theorem leaf_of_identifying (h : Identifying data b i) :
    isFormatContainer b.type = false ∧ b.pos ≤ i ∧ i < b.pos + b.size := by
  rcases h with ⟨hmeta, hpayload⟩ | ⟨htype, ⟨hpayload, -⟩⟩
  · have := hpayload.1
    exact ⟨isFormatContainer_of_leaf (.inl hmeta), by omega, hpayload.2⟩
  · have := hpayload.1
    exact ⟨isFormatContainer_of_leaf (.inr htype), by omega, hpayload.2⟩

/-- The times of a box with a 32-bit size are zeroed if the box holds them. -/
theorem strips_times_of_header8 (hheader : b.header = 8) (h : InTimes data b i) :
    20 ≤ b.size ∧ b.pos + 12 ≤ i ∧ (versionByte data b = 0 ∧ i < b.pos + 20 ∨
        versionByte data b = 1 ∧ 28 ≤ b.size ∧ i < b.pos + 28) ↔
      ¬ b.size < if version data b = 0 then 20 else 28 := by
  obtain ⟨-, hstart, hversion⟩ := h
  have hbyte : versionByte data b = version data b := by rw [versionByte, version, hheader]
  rw [hbyte]
  rw [hheader] at hstart hversion
  rcases hversion with ⟨hv, hlt⟩ | ⟨hv, hlt⟩
  · rw [hv, if_pos rfl]
    constructor
    · rintro ⟨hroom, -⟩
      omega
    · exact fun hroom => ⟨by omega, by omega, .inl ⟨rfl, by omega⟩⟩
  · rw [hv, if_neg (by decide)]
    constructor
    · rintro ⟨-, -, ⟨h01, -⟩ | ⟨-, hroom, -⟩⟩
      · cases h01
      · omega
    · exact fun hroom => ⟨by omega, by omega, .inr ⟨rfl, by omega, by omega⟩⟩

/-- Those of a box with a 64-bit size are zeroed only where its size happens to start with a
byte 1. -/
theorem strips_times_of_header16 (hb : b ∈ (format data).boxes) (hheader : b.header = 16)
    (h : InTimes data b i) :
    20 ≤ b.size ∧ b.pos + 12 ≤ i ∧ (versionByte data b = 0 ∧ i < b.pos + 20 ∨
        versionByte data b = 1 ∧ 28 ≤ b.size ∧ i < b.pos + 28) ↔
      2 ^ 56 ≤ b.size ∧ b.size < 2 ^ 57 ∧ i < b.pos + 28 := by
  obtain ⟨-, hstart, -⟩ := h
  have hbyte := versionByte_of_header hb hheader
  rw [hheader] at hstart
  constructor
  · rintro ⟨-, -, ⟨-, hlt⟩ | ⟨hone, -, hlt⟩⟩
    · omega
    · rw [hone, show (1 : UInt8).toNat = 1 from rfl] at hbyte
      exact ⟨by omega, by omega, hlt⟩
  · rintro ⟨hlo, hhi, hlt⟩
    have hone : versionByte data b = 1 := UInt8.toNat_inj.mp (by
      rw [hbyte, show (1 : UInt8).toNat = 1 from rfl]
      omega)
    exact ⟨by omega, by omega, .inr ⟨hone, by omega, hlt⟩⟩

/-- Among the identifying bytes, those of boxes the walk meets are zeroed unless overlooked. -/
theorem strips_of_identifying (hb : b ∈ (format data).boxes) (h : Identifying data b i) :
    b ∈ (walk data).boxes ∧ strips data b i = true ↔ ¬ Overlooked data b i := by
  obtain ⟨hsize, hheader⟩ := header_of_mem_boxes hb
  have hheader' : b.header = 8 ∨ b.header = 16 := hheader.imp_right And.left
  rw [Overlooked, strips_eq_true_iff, not_or, not_not]
  refine and_congr_right fun _ => ?_
  rcases h with ⟨hmeta, hpayload⟩ | ⟨htype, ⟨hlo, hhi⟩, hstart, hversion⟩
  · -- the stripper zeroes a metadata box from its ninth byte on
    have hmdhd : b.type ≠ mdhd := by
      rcases isMetadataBox_eq_true_iff.mp hmeta with ht | ht | ht <;> rw [ht] <;> decide
    have := hpayload.1
    refine iff_of_true (.inl ⟨hmeta, by omega, hpayload.2⟩) ?_
    rintro (ht | ⟨hnot, -⟩)
    · exact hmdhd ht
    · rw [hmeta] at hnot
      cases hnot
  · have hmeta : isMetadataBox b.type = false := by
      rcases htype with ht | ht | ht <;> rw [ht] <;> decide
    have htimes : InTimes data b i := ⟨⟨hlo, hhi⟩, hstart, hversion⟩
    rw [hmeta]
    by_cases hmdhd : b.type = mdhd
    · have hother : ¬ (b.type = mvhd ∨ b.type = tkhd) := by
        rw [hmdhd]
        decide
      exact iff_of_false (by simp [hother]) (by simp [hmdhd])
    · have htype' : b.type = mvhd ∨ b.type = tkhd := by
        rcases htype with ht | ht | ht
        · exact .inl ht
        · exact .inr ht
        · exact absurd ht hmdhd
      rcases hheader' with h8 | h16
      · simp [hmdhd, htype', h8, strips_times_of_header8 h8 htimes]
      · simp [hmdhd, htype', h16, strips_times_of_header16 hb h16 htimes]

end Removed

/-- **What stripping removes.**  The stripper cleans a well-formed file exactly if the identifying
bytes that it overlooks are zero already. -/
theorem cleaned_iff (file : Mp4) :
    Cleaned file.data ↔ ∀ b ∈ (format file.data).boxes, ∀ i,
      Identifying file.data b i → Overlooked file.data b i → file.data.getD i 0 = 0 := by
  have hzero : ∀ b ∈ (format file.data).boxes, ∀ i, Identifying file.data b i →
      ((strippedBytes file.data).getD i 0 = 0 ↔
        (Overlooked file.data b i → file.data.getD i 0 = 0)) := by
    intro b hb i hid
    obtain ⟨hleaf, hspan⟩ := leaf_of_identifying hid
    rw [strippedBytes, getD_zeroWhere]
    by_cases hover : Overlooked file.data b i
    · have hnot : ¬ stripped file.data (walk file.data) i = true := fun htrue =>
        (strips_of_identifying hb hid).mp ((stripped_walk_iff hb hleaf hspan).mp htrue) hover
      rw [if_neg hnot]
      exact ⟨fun hz _ => hz, fun hz => hz hover⟩
    · have hyes : stripped file.data (walk file.data) i = true :=
        (stripped_walk_iff hb hleaf hspan).mpr ((strips_of_identifying hb hid).mpr hover)
      rw [if_pos hyes]
      exact ⟨fun _ hcon => absurd hcon hover, fun _ => rfl⟩
  constructor
  · intro hclean b hb i hid
    obtain ⟨out, hout, hall⟩ := hclean true (file.data.length + 1) (Nat.lt_succ_self _)
    rw [file.strip_eq (Nat.lt_succ_self _), Except.ok.injEq] at hout
    exact (hzero b hb i hid).mp (hout ▸ hall b hb i hid)
  · intro hcond overflowChecks fuel hfuel
    refine ⟨strippedBytes file.data, file.strip_eq hfuel, fun b hb i hid => ?_⟩
    exact (hzero b hb i hid).mpr (hcond b hb i hid)

/-- The bytes of a file with a single `mdhd`, in its `moov`, `trak` and `mdia`; the media was
created and modified at time 1. -/
def mediaHeaderBytes : List UInt8 :=
  [0, 0, 0, 44, 0x6d, 0x6f, 0x6f, 0x76, 0, 0, 0, 36, 0x74, 0x72, 0x61, 0x6b,
    0, 0, 0, 28, 0x6d, 0x64, 0x69, 0x61, 0, 0, 0, 20, 0x6d, 0x64, 0x68, 0x64,
    0, 0, 0, 0, 0, 0, 0, 1, 0, 0, 0, 1]

theorem length_mediaHeaderBytes : mediaHeaderBytes.length < 2 ^ 63 := by decide +kernel

theorem tiles_mediaHeaderBytes : (format mediaHeaderBytes).Tiles := by decide +kernel

/-- The file with a single `mdhd`. -/
def mediaHeader : Mp4 := ⟨mediaHeaderBytes, length_mediaHeaderBytes, tiles_mediaHeaderBytes⟩

/-- The stripper enters the `mdia` and leaves the times of its `mdhd`. -/
theorem mediaHeader_not_cleaned : ¬ ∀ file : Mp4, Cleaned file.data := by
  intro hall
  obtain ⟨out, hout, hzero⟩ := hall mediaHeader true 45 (by decide)
  have hstrip : stripVideoMetadata true 45 mediaHeader.data = .ok mediaHeader.data := by
    decide +kernel
  rw [hstrip, Except.ok.injEq] at hout
  have hbyte := hzero ⟨24, 20, 8, mdhd⟩ (by decide +kernel) 43 (by decide +kernel)
  rw [← hout] at hbyte
  exact absurd hbyte (by decide)

/-! ## What survives -/

/-- Zeroing the box leaves its header as it is: the header is not a long one, or the box is no
metadata box and the bytes that are taken for its times, among them the lower half of its size,
are zero already. -/
def HeaderKept (data : List UInt8) (b : Box) : Prop :=
  b.header = 16 → isMetadataBox b.type = false ∧
    (b.type = mvhd ∨ b.type = tkhd → 20 ≤ b.size → b.size < 2 ^ 57 →
      ∀ i, b.pos + 12 ≤ i → i < b.pos + 20 → data.getD i 0 = 0)

/-- Whatever the build, the stripper returns as many bytes with the same boxes, and only writes
where it is meant to. -/
def Preserved (data : List UInt8) : Prop :=
  ∀ overflowChecks fuel, data.length < fuel →
    ∃ out, stripVideoMetadata overflowChecks fuel data = .ok out ∧ out.length = data.length ∧
      format out = format data ∧ ∀ i, data[i]? ≠ out[i]? → Writable data i

section Survives

variable {data : List UInt8} {b : Box} {i : ℕ}

/-- Only the box that holds a byte decides whether the byte is writable. -/
theorem writable_iff (hb : b ∈ (format data).boxes) (hleaf : isFormatContainer b.type = false)
    (hi : b.pos ≤ i ∧ i < b.pos + b.size) :
    Writable data i ↔ isMetadataBox b.type = true ∧ InPayload b i ∨
      (b.type = mvhd ∨ b.type = tkhd) ∧ InTimes data b i := by
  refine ⟨?_, fun h => ⟨b, hb, h⟩⟩
  rintro ⟨b', hb', hcase⟩
  have hleaf' : isFormatContainer b'.type = false := by
    rcases hcase with ⟨hmeta, -⟩ | ⟨htype, -⟩
    · exact isFormatContainer_of_leaf (.inl hmeta)
    · exact isFormatContainer_of_leaf (.inr (htype.imp_right .inl))
  have hspan' : b'.pos + b'.header ≤ i ∧ i < b'.pos + b'.size := by
    rcases hcase with ⟨-, hpayload⟩ | ⟨-, hpayload, -⟩
    · exact hpayload
    · exact hpayload
  obtain rfl : b = b' := eq_of_mem_span hb hb' hleaf hleaf' hi (by omega)
  exact hcase

/-- The header of a box without boxes in it is not writable. -/
theorem not_writable_of_header (hb : b ∈ (format data).boxes)
    (hleaf : isFormatContainer b.type = false) (hsize : b.header ≤ b.size)
    (hi : b.pos ≤ i ∧ i < b.pos + b.header) : ¬ Writable data i := by
  rw [writable_iff hb hleaf (by omega)]
  rintro (⟨-, hpayload⟩ | ⟨-, hpayload, -⟩)
  · have := hpayload.1
    omega
  · have := hpayload.1
    omega

theorem changed_of_strips (hb : b ∈ (walk data).boxes) (hstrips : strips data b i = true)
    (hbyte : data.getD i 0 ≠ 0) : data[i]? ≠ (strippedBytes data)[i]? := by
  intro heq
  have hzero : (strippedBytes data).getD i 0 = 0 := by
    rw [strippedBytes, getD_zeroWhere, stripped_eq_true_iff.mpr ⟨b, hb, hstrips⟩, if_pos rfl]
  rw [List.getD_eq_getElem?_getD, ← heq, ← List.getD_eq_getElem?_getD] at hzero
  exact hbyte hzero

/-- The stripper writes where it is meant to if it keeps the header of the box. -/
theorem writable_of_strips (hb : b ∈ (walk data).boxes) (hkept : HeaderKept data b)
    (hstrips : strips data b i = true) (hbyte : data.getD i 0 ≠ 0) : Writable data i := by
  have hformat := boxes_walk_subset hb
  have hspan := span_of_strips hstrips
  obtain ⟨hsize, hheader⟩ := header_of_mem_boxes hb
  refine ⟨b, hformat, ?_⟩
  rcases strips_eq_true_iff.mp hstrips with ⟨hmeta, -⟩ | ⟨hmeta, htype, hroom, hlo, hversion⟩
  · have h8 : b.header = 8 := by
      rcases hheader with h8 | ⟨h16, -⟩
      · exact h8
      · rw [(hkept h16).1] at hmeta
        cases hmeta
    exact .inl ⟨hmeta, by rw [InPayload, h8]; omega⟩
  · refine .inr ⟨htype, ?_⟩
    rcases hheader with h8 | ⟨h16, -⟩
    · have hbyte' : version data b = versionByte data b := by rw [versionByte, version, h8]
      rw [InTimes, InPayload, h8, hbyte']
      refine ⟨by omega, by omega, hversion.imp (fun h => ⟨h.1, by omega⟩) fun h => ⟨h.1, by omega⟩⟩
    · -- the bytes taken for the version and the flags are zero, which leaves those after them
      have hquot := versionByte_of_header hformat h16
      have hshort : b.size < 2 ^ 57 := by
        rcases hversion with ⟨hv, -⟩ | ⟨hv, -⟩
        · rw [hv, show (0 : UInt8).toNat = 0 from rfl] at hquot
          omega
        · rw [hv, show (1 : UInt8).toNat = 1 from rfl] at hquot
          omega
      have hzero := (hkept h16).2 htype hroom hshort
      have hi : b.pos + 20 ≤ i := by
        by_contra hlt
        exact hbyte (hzero i hlo (by omega))
      have hv : version data b = 0 := by
        rw [version, h16]
        exact hzero _ (by omega) (by omega)
      rw [InTimes, InPayload, h16, hv]
      refine ⟨by omega, by omega, .inl ⟨rfl, ?_⟩⟩
      rcases hversion with ⟨-, hlt⟩ | ⟨-, -, hlt⟩
      · omega
      · omega

/-- If the stripper writes where it is meant to, the same forest is read afterwards. -/
theorem format_strippedBytes (htiles : (format data).Tiles)
    (hwritable : ∀ i, data[i]? ≠ (strippedBytes data)[i]? → Writable data i) :
    format (strippedBytes data) = format data := by
  have hcut : format (strippedBytes data) = (format data).cut fun _ => false := by
    rw [format, BoxForest.read, length_strippedBytes]
    refine readFuel_eq_cut
      ⟨fun i _ _ hne => ?_, fun b _ hp => ?_, fun b hb _ hleaf h16 => ?_⟩
    · obtain ⟨-, -, b, hb, hstrips⟩ := strips_of_changed hne
      exact ⟨b, boxes_walk_subset hb, isFormatContainer_of_strips hstrips, span_of_strips hstrips⟩
    · cases hp
    · refine (beNat_congr fun i hlo hhi => ?_).symm
      by_contra hne
      exact not_writable_of_header hb hleaf (htiles.2 b hb) (by omega) (hwritable i hne)
  rw [hcut]
  exact Forest.cut_eq_self fun b _ => rfl

/-- If the stripper writes only where it is meant to, it keeps the header of every box it meets. -/
theorem headerKept_of_writable (htiles : (format data).Tiles)
    (hwritable : ∀ i, data[i]? ≠ (strippedBytes data)[i]? → Writable data i)
    (hb : b ∈ (walk data).boxes) : HeaderKept data b := by
  intro h16
  have hformat := boxes_walk_subset hb
  have hsize := htiles.2 b hformat
  obtain ⟨-, h8 | ⟨-, hfield⟩⟩ := header_of_mem_boxes hb
  · omega
  constructor
  · -- a metadata box with a long header loses its size
    by_contra hmeta
    have hmeta' : isMetadataBox b.type = true := by simpa using hmeta
    have hne : ¬ ∀ i, i < 8 → data.getD (b.pos + 8 + i) 0 = 0 := by
      rw [← beNat_eq_zero_iff]
      omega
    push Not at hne
    obtain ⟨i, hi, hbyte⟩ := hne
    have hstrips : strips data b (b.pos + 8 + i) = true :=
      strips_eq_true_iff.mpr (.inl ⟨hmeta', by omega, by omega⟩)
    exact not_writable_of_header hformat (isFormatContainer_of_strips hstrips) hsize (by omega)
      (hwritable _ (changed_of_strips hb hstrips hbyte))
  · intro htype hroom hshort i hlo hhi
    by_contra hbyte
    have hquot := versionByte_of_header hformat h16
    have hmeta : isMetadataBox b.type = false := by
      rcases htype with ht | ht <;> rw [ht] <;> decide
    have hversion : versionByte data b = 0 ∨ versionByte data b = 1 := by
      rw [← UInt8.toNat_inj, ← UInt8.toNat_inj, hquot, show (0 : UInt8).toNat = 0 from rfl,
        show (1 : UInt8).toNat = 1 from rfl]
      omega
    have hstrips : strips data b i = true := by
      refine strips_eq_true_iff.mpr (.inr ⟨hmeta, htype, hroom, hlo, ?_⟩)
      refine hversion.imp (fun hv => ⟨hv, hhi⟩) fun hv => ⟨hv, ?_, by omega⟩
      rw [hv, show (1 : UInt8).toNat = 1 from rfl] at hquot
      omega
    have hwrite := hwritable i (changed_of_strips hb hstrips hbyte)
    rw [writable_iff hformat (isFormatContainer_of_strips hstrips) (by omega)] at hwrite
    rcases hwrite with ⟨hcon, -⟩ | ⟨-, -, hstart, -⟩
    · rw [hmeta] at hcon
      cases hcon
    · omega

end Survives

/-- **What survives stripping.**  A well-formed file keeps its boxes, and every byte outside the
metadata and the times, exactly if each box that the walk meets keeps its header. -/
theorem preserved_iff (file : Mp4) :
    Preserved file.data ↔ ∀ b ∈ (walk file.data).boxes, HeaderKept file.data b := by
  constructor
  · intro hpres b hb
    obtain ⟨out, hout, -, -, hwritable⟩ := hpres true (file.data.length + 1) (Nat.lt_succ_self _)
    rw [file.strip_eq (Nat.lt_succ_self _), Except.ok.injEq] at hout
    exact headerKept_of_writable file.tiles (fun i hne => hwritable i (hout ▸ hne)) hb
  · intro hkept overflowChecks fuel hfuel
    have hwritable : ∀ i, file.data[i]? ≠ (strippedBytes file.data)[i]? →
        Writable file.data i := by
      intro i hne
      obtain ⟨hbyte, -, b, hb, hstrips⟩ := strips_of_changed hne
      exact writable_of_strips hb (hkept b hb) hstrips hbyte
    exact ⟨strippedBytes file.data, file.strip_eq hfuel, length_strippedBytes,
      format_strippedBytes file.tiles hwritable, hwritable⟩

/-- The bytes of a file with a single `udta`, whose size of 17 takes 64 bits. -/
def longUserDataBytes : List UInt8 :=
  [0, 0, 0, 1, 0x75, 0x64, 0x74, 0x61, 0, 0, 0, 0, 0, 0, 0, 17, 5]

theorem length_longUserDataBytes : longUserDataBytes.length < 2 ^ 63 := by decide +kernel

theorem tiles_longUserDataBytes : (format longUserDataBytes).Tiles := by decide +kernel

/-- The file with a single `udta`. -/
def longUserData : Mp4 := ⟨longUserDataBytes, length_longUserDataBytes, tiles_longUserDataBytes⟩

/-- What the stripper makes of it. -/
def strippedUserDataBytes : List UInt8 :=
  [0, 0, 0, 1, 0x75, 0x64, 0x74, 0x61, 0, 0, 0, 0, 0, 0, 0, 0, 0]

theorem strippedBytes_longUserData : strippedBytes longUserDataBytes = strippedUserDataBytes := by
  decide +kernel

/-- The stripper zeroes the size of the `udta` with its content, and no box is left. -/
theorem longUserData_not_preserved : ¬ ∀ file : Mp4, Preserved file.data := by
  intro hall
  obtain ⟨out, hout, -, hformat, -⟩ := hall longUserData true 18 (by decide)
  have hstrip : stripVideoMetadata true 18 longUserData.data = .ok strippedUserDataBytes := by
    decide +kernel
  rw [hstrip, Except.ok.injEq] at hout
  rw [← hout] at hformat
  exact absurd hformat (by decide +kernel)

/-! ## Stripping twice -/

/-- Given enough time, the call returns `Ok(a)`. -/
def Yields {α : Type} (call : ℕ → List UInt8 → Except Halt α) (data : List UInt8) (a : α) : Prop :=
  ∃ n, ∀ fuel, n ≤ fuel → call fuel data = .ok a

section Twice

variable {data : List UInt8} {b : Box} {i : ℕ}

theorem getD_strippedBytes_of_strips (hb : b ∈ (walk data).boxes) (h : strips data b i = true) :
    (strippedBytes data).getD i 0 = 0 := by
  rw [strippedBytes, getD_zeroWhere, stripped_eq_true_iff.mpr ⟨b, hb, h⟩, if_pos rfl]

theorem getD_strippedBytes_of_zero (h : data.getD i 0 = 0) : (strippedBytes data).getD i 0 = 0 := by
  rw [strippedBytes, getD_zeroWhere, h, ite_self]

/-- Up to sixteen bytes after the start of a box that is not entered, only the box itself makes a
byte change. -/
theorem strips_of_changed_header (hb : b ∈ (walk data).boxes) (hleaf : isContainer b.type = false)
    (hi : b.pos ≤ i ∧ i < b.pos + 16) (hne : data[i]? ≠ (strippedBytes data)[i]?) :
    strips data b i = true := by
  obtain ⟨-, -, b', hb', hstrips⟩ := strips_of_changed hne
  have hspan := span_of_strips hstrips
  have hsize := (header_of_mem_boxes hb).1
  by_cases heq : b = b'
  · rw [heq]
    exact hstrips
  · rcases apart_of_ne hb hb' hleaf (isContainer_of_strips hstrips) heq with hafter | hbefore
    · omega
    · omega

/-- The 64-bit size of a box after the walk is what it was, or zero: a metadata box loses it
whole, and a box with times the lower half, while the upper half is zero in a short file. -/
theorem size_strippedBytes (hlen : data.length < 2 ^ 32) (hb : b ∈ (walk data).boxes)
    (hleaf : isContainer b.type = false) (h16 : b.header = 16) :
    beNat (strippedBytes data) (b.pos + 8) 8 = beNat data (b.pos + 8) 8 ∨
      beNat (strippedBytes data) (b.pos + 8) 8 = 0 := by
  by_cases hsame : AgreeOn (b.pos + 8) (b.pos + 8 + 8) data (strippedBytes data)
  · exact .inl (beNat_congr hsame).symm
  · right
    obtain ⟨-, h8 | ⟨-, hfield⟩⟩ := header_of_mem_boxes hb
    · omega
    have hspan := span_of_mem_boxes hb
    rw [AgreeOn] at hsame
    push Not at hsame
    obtain ⟨i, hlo, hhi, hne⟩ := hsame
    have hbyte := (strips_of_changed hne).1
    have hstrips := strips_of_changed_header hb hleaf (by omega) hne
    rcases strips_eq_true_iff.mp hstrips with ⟨hmeta, -, hend⟩ | ⟨hmeta, htype, hroom, -, hversion⟩
    · have hlong : 16 ≤ b.size := by
        -- a size below sixteen has one byte, which lies after the end of the box
        by_contra hshort
        have hsplit : beNat data (b.pos + 8) 8 =
            beNat data (b.pos + 8) 7 * 256 ^ 1 + beNat data (b.pos + 8 + 7) 1 :=
          beNat_add data (b.pos + 8) 7 1
        have hlead : beNat data (b.pos + 8) 7 = 0 := by omega
        refine hbyte ?_
        rw [show i = b.pos + 8 + (i - (b.pos + 8)) by omega]
        exact beNat_eq_zero_iff.mp hlead _ (by omega)
      refine beNat_eq_zero_iff.mpr fun j hj => getD_strippedBytes_of_strips hb ?_
      exact strips_eq_true_iff.mpr (.inl ⟨hmeta, by omega, by omega⟩)
    · have hsplit : beNat data (b.pos + 8) 8 =
          beNat data (b.pos + 8) 4 * 256 ^ 4 + beNat data (b.pos + 8 + 4) 4 :=
        beNat_add data (b.pos + 8) 4 4
      have hupper : beNat data (b.pos + 8) 4 = 0 := by omega
      refine beNat_eq_zero_iff.mpr fun j hj => ?_
      by_cases hj4 : j < 4
      · exact getD_strippedBytes_of_zero (beNat_eq_zero_iff.mp hupper j hj4)
      · refine getD_strippedBytes_of_strips hb (strips_eq_true_iff.mpr (.inr ?_))
        refine ⟨hmeta, htype, hroom, by omega, ?_⟩
        exact hversion.imp (fun h => ⟨h.1, by omega⟩) fun h => ⟨h.1, h.2.1, by omega⟩

/-- What the stripper takes for the version of a box with times stays. -/
theorem versionByte_strippedBytes (hb : b ∈ (walk data).boxes)
    (hmeta : isMetadataBox b.type = false) (hleaf : isContainer b.type = false) :
    versionByte (strippedBytes data) b = versionByte data b := by
  have hsame : AgreeOn (b.pos + 8) (b.pos + 9) data (strippedBytes data) := by
    intro i hlo hhi
    by_contra hne
    have hstrips := strips_of_changed_header hb hleaf (by omega) hne
    rcases strips_eq_true_iff.mp hstrips with ⟨hcon, -⟩ | ⟨-, -, -, hstart, -⟩
    · rw [hmeta] at hcon
      cases hcon
    · omega
  exact (hsame.getD le_rfl (Nat.lt_succ_self _)).symm

/-- So the stripper would zero the same bytes of the box again. -/
theorem strips_strippedBytes (hb : b ∈ (walk data).boxes) :
    strips (strippedBytes data) b i = strips data b i := by
  unfold strips
  split
  · rfl
  · rename_i hmeta
    split
    · rename_i htype
      have hleaf : isContainer b.type = false := by
        rcases htype with ht | ht <;> rw [ht] <;> decide
      rw [versionByte_strippedBytes hb (by simpa using hmeta) hleaf]
    · rfl

/-- No metadata box of the walk has content afterwards. -/
theorem activeMetadata_strippedBytes (hb : b ∈ (walk data).boxes) :
    activeMetadata (strippedBytes data) b = false := by
  rw [activeMetadata]
  cases hmeta : isMetadataBox b.type with
  | false => rfl
  | true =>
    rw [Bool.true_and, List.any_eq_false]
    intro x hx
    obtain ⟨i, hlo, hhi, rfl⟩ := exists_of_mem_bytesAt hx
    have hsize := (header_of_mem_boxes hb).1
    rw [getD_strippedBytes_of_strips hb (strips_eq_true_iff.mpr (.inl ⟨hmeta, hlo, by omega⟩))]
    decide

/-- The walk over the stripped bytes meets boxes of the first walk, and fails no more than it. -/
theorem walk_strippedBytes (hlen : data.length < 2 ^ 32) :
    ∃ p, walk (strippedBytes data) = (walk data).cut p := by
  refine ⟨fun b => decide (b.header = 16 ∧ beNat (strippedBytes data) (b.pos + 8) 8 < 8), ?_⟩
  rw [walk, BoxForest.read, length_strippedBytes]
  refine readFuel_eq_cut ⟨fun i _ _ hne => ?_, fun b _ hp => of_decide_eq_true hp,
    fun b hb hp hleaf h16 => ?_⟩
  · obtain ⟨-, -, b, hb, hstrips⟩ := strips_of_changed hne
    exact ⟨b, hb, isContainer_of_strips hstrips, span_of_strips hstrips⟩
  · rcases size_strippedBytes hlen hb hleaf h16 with hsame | hzero
    · exact hsame
    · have := of_decide_eq_false hp
      omega

end Twice

/-- **The stripper and the verifier agree.**  Whenever the stripper returns for less than four
gigabytes, however malformed, the verifier accepts the result, and stripping it again returns
it. -/
theorem verify_strip (data out : List UInt8) (hlen : data.length < 2 ^ 32)
    (hstrip : Yields (stripVideoMetadata true) data out) (overflowChecks : Bool) :
    Yields (verifyMetadataStripped overflowChecks) out true ∧
      Yields (stripVideoMetadata overflowChecks) out out := by
  have hlen' : data.length < 2 ^ 63 := by omega
  -- the walk came through, and the result is what it leaves
  obtain ⟨hfail, rfl⟩ : (walk data).failure = none ∧ out = strippedBytes data := by
    obtain ⟨n, hn⟩ := hstrip
    have hout := hn (n + data.length + 1) (by omega)
    rw [stripVideoMetadata_eq hlen' (by omega) (.inl rfl), outcome] at hout
    cases hf : (walk data).failure with
    | none =>
      rw [hf, Except.ok.injEq] at hout
      exact ⟨rfl, hout.symm⟩
    | some e =>
      rw [hf] at hout
      rcases Forest.eq_of_failure hf with rfl | rfl <;> cases hout
  obtain ⟨p, hwalk⟩ := walk_strippedBytes hlen
  have hlen'' : (strippedBytes data).length < 2 ^ 63 := by
    rw [length_strippedBytes]
    exact hlen'
  have hends : ∀ e ∈ (walk (strippedBytes data)).endings, e ≠ .truncated ∧ e ≠ .overflow := by
    intro e he
    rw [hwalk] at he
    rcases Forest.mem_endings_cut he with rfl | hmem
    · exact ⟨by decide, by decide⟩
    · exact Forest.failure_eq_none_iff.mp hfail e hmem
  have hboxes : ∀ b ∈ (walk (strippedBytes data)).boxes, b ∈ (walk data).boxes := by
    intro b hb
    rw [hwalk] at hb
    exact (Forest.mem_boxes_cut hb).1
  constructor
  · have hsearch : (walk (strippedBytes data)).search (activeMetadata (strippedBytes data)) =
        .nothing := by
      exact Forest.search_eq_nothing (fun b hb => activeMetadata_strippedBytes (hboxes b hb))
        fun e he => (hends e he).2
    refine ⟨data.length + 1, fun fuel hfuel => ?_⟩
    rw [verifyMetadataStripped_eq hlen'' (by rw [length_strippedBytes]; omega)
      (.inr (by rw [hsearch]; decide)), hsearch]
    rfl
  · refine ⟨data.length + 1, fun fuel hfuel => ?_⟩
    rw [stripVideoMetadata_of_failure hlen'' (by rw [length_strippedBytes]; omega)
      (Forest.failure_eq_none_iff.mpr hends)]
    congr 1
    refine zeroWhere_eq_self fun i hi => ?_
    obtain ⟨b, hb, hstrips⟩ := stripped_eq_true_iff.mp hi
    rw [strips_strippedBytes (hboxes b hb)] at hstrips
    exact getD_strippedBytes_of_strips (hboxes b hb) hstrips

/-- The stripped `udta` has lost its size, and both agree on what is left. -/
theorem verify_strip_longUserData :
    Yields (verifyMetadataStripped false) strippedUserDataBytes true ∧
      Yields (stripVideoMetadata false) strippedUserDataBytes strippedUserDataBytes := by
  have hstrip : Yields (stripVideoMetadata true) longUserDataBytes strippedUserDataBytes := by
    refine ⟨18, fun fuel hfuel => ?_⟩
    rw [← strippedBytes_longUserData]
    exact longUserData.strip_eq hfuel
  exact verify_strip longUserDataBytes strippedUserDataBytes (by decide +kernel) hstrip false

end VideoMetadata
