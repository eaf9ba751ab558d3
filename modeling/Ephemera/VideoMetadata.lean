/-
# Stripping video metadata (`video_metadata.rs`)

`strip_video_metadata` walks the boxes of an MP4 file, enters `moov`, `trak` and `mdia`, and
zeroes the metadata boxes and the timestamps it meets on the way; `verify_metadata_stripped`
walks the same way and looks for a metadata box with content.

Every addition of positions goes through `addUsize`, which does what the build does when the
sum is no `usize`: it panics in a build with overflow checks, and wraps in one without.  The
walks follow the forest of boxes of the input (`stripBoxes_eq`, `scanForMetadataBoxes_eq`) up to
the first box whose end is no `usize`.  `totality_iff` says that this box alone decides whether
they come to an end.
-/
import Ephemera.BoxForest

namespace VideoMetadata

open BoxForest

/-- How a call does not return a value. -/
inductive Halt where
  /-- `Err(MediaError::Processing(message))` -/
  | processing (message : String)
  /-- The panic of an addition, in a build with overflow checks. -/
  | overflow
  /-- The panic of an index or a range out of bounds. -/
  | outOfBounds
  /-- The call is still running. -/
  | outOfFuel
  deriving DecidableEq, Repr

/-- `b"udta"` -/
def udta : List UInt8 := [0x75, 0x64, 0x74, 0x61]
/-- `b"meta"` -/
def meta_ : List UInt8 := [0x6d, 0x65, 0x74, 0x61]
/-- `b"uuid"` -/
def uuid : List UInt8 := [0x75, 0x75, 0x69, 0x64]
/-- `b"moov"` -/
def moov : List UInt8 := [0x6d, 0x6f, 0x6f, 0x76]
/-- `b"trak"` -/
def trak : List UInt8 := [0x74, 0x72, 0x61, 0x6b]
/-- `b"mdia"` -/
def mdia : List UInt8 := [0x6d, 0x64, 0x69, 0x61]
/-- `b"mvhd"` -/
def mvhd : List UInt8 := [0x6d, 0x76, 0x68, 0x64]
/-- `b"tkhd"` -/
def tkhd : List UInt8 := [0x74, 0x6b, 0x68, 0x64]

/-- `METADATA_BOX_TYPES` -/
def metadataBoxTypes : List (List UInt8) := [udta, meta_, uuid]

/-- `is_metadata_box` -/
def isMetadataBox (boxType : List UInt8) : Bool := metadataBoxTypes.any (boxType == ·)

/-- The types of the boxes that both walks enter. -/
def isContainer (boxType : List UInt8) : Bool :=
  boxType == moov || boxType == trak || boxType == mdia

/-! ## Machine operations -/

/-- `a + b` on `usize`, in a build with or without overflow checks. -/
def addUsize (overflowChecks : Bool) (a b : ℕ) : Except Halt ℕ :=
  if a + b < 2 ^ 64 then .ok (a + b)
  else if overflowChecks then .error .overflow
  else .ok ((a + b) % 2 ^ 64)

/-- `data[i]` -/
def index (data : List UInt8) (i : ℕ) : Except Halt UInt8 :=
  if i < data.length then .ok (data.getD i 0) else .error .outOfBounds

/-- `&data[lo..hi]` -/
def slice (data : List UInt8) (lo hi : ℕ) : Except Halt (List UInt8) :=
  if lo ≤ hi ∧ hi ≤ data.length then .ok (bytesAt data lo (hi - lo)) else .error .outOfBounds

/-- `data[lo..hi].fill(0)` -/
def fillZero (data : List UInt8) (lo hi : ℕ) : Except Halt (List UInt8) :=
  if lo ≤ hi ∧ hi ≤ data.length then .ok (zeroWhere (fun i => lo ≤ i && i < hi) data)
  else .error .outOfBounds

/-- `read_u64` -/
def readU64 (data : List UInt8) (pos : ℕ) : Except Halt ℕ :=
  if pos + 8 ≤ data.length then .ok (beNat data pos 8) else .error .outOfBounds

/-- `read_box_size`: the outer layer is the panic, the inner one the error. -/
def readBoxSize (overflowChecks : Bool) (data : List UInt8) (pos : ℕ) :
    Except Halt (Except String ℕ) := do
  if data.length < (← addUsize overflowChecks pos 4) then
    return .error "truncated MP4 box header"
  return .ok (beNat data pos 4)

/-! ## The head of an iteration -/

/-- What an iteration of either loop finds at `pos`. -/
inductive Head where
  /-- The loop ends. -/
  | done
  /-- The box cannot be read: the stripper fails here, the verifier leaves its loop. -/
  | broken (message : String)
  /-- A box with its `actual_size` and `header_size`. -/
  | box (actualSize headerSize : ℕ) (boxType : List UInt8)
  deriving DecidableEq, Repr

/-- The part that the loops of `strip_boxes_recursive` and `scan_for_metadata_boxes` share, from
the loop condition up to the check of the size. -/
def readHead (overflowChecks : Bool) (data : List UInt8) (pos stop : ℕ) : Except Halt Head := do
  if stop < (← addUsize overflowChecks pos 8) then
    return .done
  match ← readBoxSize overflowChecks data pos with
  | .error message => return .broken message
  | .ok boxSize =>
    let boxType ← slice data (← addUsize overflowChecks pos 4) (← addUsize overflowChecks pos 8)
    if boxSize = 1 then
      if stop < (← addUsize overflowChecks pos 16) then
        return .broken "truncated MP4 box with extended size"
    let actualSize ←
      if boxSize = 0 then pure (stop - pos)
      else if boxSize = 1 then do readU64 data (← addUsize overflowChecks pos 8)
      else pure boxSize
    if actualSize < 8 then
      return .done
    if stop < (← addUsize overflowChecks pos actualSize) then
      return .done
    return .box actualSize (if boxSize = 1 then 16 else 8) boxType

/-! ## Stripping -/

/-- `zero_box_contents` -/
def zeroBoxContents (overflowChecks : Bool) (data : List UInt8) (pos size : ℕ) :
    Except Halt (List UInt8) := do
  let contentStart ← addUsize overflowChecks pos 8
  let contentEnd ← addUsize overflowChecks pos size
  if contentStart < contentEnd ∧ contentEnd ≤ data.length then
    fillZero data contentStart contentEnd
  else
    return data

/-- `strip_mvhd_timestamps` -/
def stripMvhdTimestamps (overflowChecks : Bool) (data : List UInt8) (pos size : ℕ) :
    Except Halt (List UInt8) := do
  if size < 20 then
    return data
  let header := 8
  let version ← index data (← addUsize overflowChecks pos header)
  if version = 0 ∧ header + 4 + 8 ≤ size then
    let tsStart ← addUsize overflowChecks (← addUsize overflowChecks pos header) 4
    fillZero data tsStart (← addUsize overflowChecks tsStart 8)
  else if version = 1 ∧ header + 4 + 16 ≤ size then
    let tsStart ← addUsize overflowChecks (← addUsize overflowChecks pos header) 4
    fillZero data tsStart (← addUsize overflowChecks tsStart 16)
  else
    return data

/-- `strip_tkhd_timestamps` -/
def stripTkhdTimestamps (overflowChecks : Bool) (data : List UInt8) (pos size : ℕ) :
    Except Halt (List UInt8) :=
  stripMvhdTimestamps overflowChecks data pos size

/-- `strip_boxes_recursive`: the bytes it leaves.  Each iteration and each call for the body of a
container takes one unit of fuel. -/
def stripBoxes (overflowChecks : Bool) : ℕ → List UInt8 → ℕ → ℕ → Except Halt (List UInt8)
  | 0, _, _, _ => .error .outOfFuel
  | fuel + 1, data, pos, stop => do
    match ← readHead overflowChecks data pos stop with
    | .done => return data
    | .broken message => throw (.processing message)
    | .box actualSize headerSize boxType =>
      let data ←
        if isMetadataBox boxType then zeroBoxContents overflowChecks data pos actualSize
        else if isContainer boxType then do
          stripBoxes overflowChecks fuel data (← addUsize overflowChecks pos headerSize)
            (← addUsize overflowChecks pos actualSize)
        else if boxType = mvhd then stripMvhdTimestamps overflowChecks data pos actualSize
        else if boxType = tkhd then stripTkhdTimestamps overflowChecks data pos actualSize
        else pure data
      stripBoxes overflowChecks fuel data (← addUsize overflowChecks pos actualSize) stop

/-- `strip_video_metadata` -/
def stripVideoMetadata (overflowChecks : Bool) (fuel : ℕ) (data : List UInt8) :
    Except Halt (List UInt8) :=
  stripBoxes overflowChecks fuel data 0 data.length

/-! ## Verifying -/

/-- The check of one metadata box: its content is not zero. -/
def hasContent (overflowChecks : Bool) (data : List UInt8) (pos actualSize : ℕ) :
    Except Halt Bool := do
  let contentStart ← addUsize overflowChecks pos 8
  let contentEnd ← addUsize overflowChecks pos actualSize
  if contentStart < contentEnd then
    return (← slice data contentStart contentEnd).any (· != 0)
  else
    return false

/-- `scan_for_metadata_boxes` -/
def scanForMetadataBoxes (overflowChecks : Bool) (data : List UInt8) :
    ℕ → ℕ → ℕ → Except Halt Bool
  | 0, _, _ => .error .outOfFuel
  | fuel + 1, pos, stop => do
    match ← readHead overflowChecks data pos stop with
    | .done => return false
    | .broken _ => return false
    | .box actualSize headerSize boxType =>
      let found ←
        if isMetadataBox boxType then hasContent overflowChecks data pos actualSize
        else if isContainer boxType then do
          scanForMetadataBoxes overflowChecks data fuel (← addUsize overflowChecks pos headerSize)
            (← addUsize overflowChecks pos actualSize)
        else pure false
      if found then
        return true
      scanForMetadataBoxes overflowChecks data fuel (← addUsize overflowChecks pos actualSize) stop

/-- `verify_metadata_stripped` -/
def verifyMetadataStripped (overflowChecks : Bool) (fuel : ℕ) (data : List UInt8) :
    Except Halt Bool := do
  return !(← scanForMetadataBoxes overflowChecks data fuel 0 data.length)

/-! ## The head of an iteration reads a box -/

section Head

variable {overflowChecks : Bool} {data cur : List UInt8} {pos stop a b : ℕ}

@[simp] theorem bind_ok {α β : Type} (x : α) (f : α → Except Halt β) :
    (Except.ok x >>= f) = f x := rfl

theorem addUsize_of_lt (h : a + b < 2 ^ 64) : addUsize overflowChecks a b = .ok (a + b) := if_pos h

theorem addUsize_of_le (h : 2 ^ 64 ≤ a + b) : addUsize true a b = .error .overflow := by
  rw [addUsize, if_neg (by omega), if_pos rfl]

theorem index_of_lt (h : a < data.length) : index data a = .ok (data.getD a 0) := if_pos h

theorem slice_of_le (h : a ≤ b ∧ b ≤ data.length) : slice data a b = .ok (bytesAt data a (b - a)) :=
  if_pos h

theorem fillZero_of_le (h : a ≤ b ∧ b ≤ data.length) :
    fillZero data a b = .ok (zeroWhere (fun i => a ≤ i && i < b) data) := if_pos h

/-- What an iteration does with the outcome of reading a box. -/
def headOf : Except Ending Box → Except Halt Head
  | .ok b => .ok (.box b.size b.header b.type)
  | .error .overflow => .error .overflow
  | .error .truncated => .ok (.broken "truncated MP4 box with extended size")
  | .error _ => .ok .done

theorem readBoxSize_of_le (hlen : data.length < 2 ^ 63) (hpos : pos + 4 ≤ data.length) :
    readBoxSize overflowChecks data pos = .ok (.ok (beNat data pos 4)) := by
  rw [readBoxSize, addUsize_of_lt (by omega), bind_ok, if_neg (by omega)]
  rfl

/-- The check of a size, once it has been read. -/
theorem checkSize_eq {size header : ℕ} {boxType : List UInt8}
    (hchecks : overflowChecks = true ∨ size < 8 ∨ pos + size < 2 ^ 64) :
    (do
      if size < 8 then
        return .done
      if stop < (← addUsize overflowChecks pos size) then
        return .done
      return .box size header boxType : Except Halt Head) =
    headOf (if size < 8 then .error .invalid
      else if 2 ^ 64 ≤ pos + size then .error .overflow
      else if stop < pos + size then .error .invalid
      else .ok ⟨pos, size, header, boxType⟩) := by
  by_cases hsize : size < 8
  · simp only [if_pos hsize]
    rfl
  · simp only [if_neg hsize]
    by_cases hover : pos + size < 2 ^ 64
    · rw [addUsize_of_lt hover, if_neg (Nat.not_le.mpr hover)]
      by_cases hstop : stop < pos + size
      · simp only [bind_ok, if_pos hstop]
        rfl
      · simp only [bind_ok, if_neg hstop]
        rfl
    · rw [hchecks.resolve_right (by omega), addUsize_of_le (by omega), if_pos (by omega)]
      rfl

/-- An iteration reads the box at its position, as long as the end of the box is a `usize` or
the build checks. -/
theorem readHead_eq (hlen : data.length < 2 ^ 63) (hpos : pos ≤ data.length + 8)
    (hstop : stop ≤ data.length)
    (hchecks : overflowChecks = true ∨ boxAt data pos stop ≠ .error .overflow) :
    readHead overflowChecks data pos stop = headOf (boxAt data pos stop) := by
  rw [readHead, addUsize_of_lt (by omega), bind_ok]
  by_cases hroom : stop < pos + 8
  · rw [boxAt, if_pos hroom, if_pos hroom]
    split <;> rfl
  · rw [if_neg hroom, readBoxSize_of_le hlen (by omega), addUsize_of_lt (by omega)]
    simp only [bind_ok]
    rw [slice_of_le (by omega), addUsize_of_lt (by omega), show pos + 8 - (pos + 4) = 4 by omega]
    simp only [bind_ok]
    by_cases hext : beNat data pos 4 = 1 ∧ stop < pos + 16
    · rw [boxAt, if_neg hroom, if_pos hext, if_pos hext.1, if_pos hext.2]
      rfl
    · have hsize : overflowChecks = true ∨ sizeAt data pos stop < 8 ∨
          pos + sizeAt data pos stop < 2 ^ 64 := by
        by_contra hcon
        simp only [not_or, Nat.not_lt] at hcon
        refine hchecks.resolve_left hcon.1 (boxAt_of_overflow (by omega) hext hcon.2.1 hcon.2.2)
      rw [boxAt, if_neg hroom, if_neg hext, ← checkSize_eq hsize]
      by_cases hone : beNat data pos 4 = 1
      · have hu64 : readU64 data (pos + 8) = .ok (beNat data (pos + 8) 8) := if_pos (by omega)
        rw [sizeAt_of_one hone, if_pos hone, if_neg (by omega), if_neg (by omega), if_pos hone,
          hu64]
        rfl
      · rw [if_neg hone, sizeAt]
        by_cases hzero : beNat data pos 4 = 0
        · rw [if_pos hzero, if_pos hzero]
          rfl
        · simp only [if_neg hzero, if_neg hone]
          rfl

/-- An iteration over bytes that differ outside its range only reads the same box. -/
theorem readHead_eq_of_agreeOn (hlen : cur.length < 2 ^ 63) (hpos : pos ≤ cur.length + 8)
    (hstop : stop ≤ cur.length) (hagree : AgreeOn pos stop data cur)
    (hchecks : overflowChecks = true ∨ boxAt data pos stop ≠ .error .overflow) :
    readHead overflowChecks cur pos stop = headOf (boxAt data pos stop) := by
  rw [← boxAt_congr hagree] at hchecks ⊢
  exact readHead_eq hlen hpos hstop hchecks

end Head

/-! ## What the stripper writes -/

/-- `data[pos + 8]`, which the stripper takes for the version of a box. -/
def versionByte (data : List UInt8) (b : Box) : UInt8 := data.getD (b.pos + 8) 0

/-- The stripper zeroes the byte at `i` when it meets the box. -/
def strips (data : List UInt8) (b : Box) (i : ℕ) : Bool :=
  if isMetadataBox b.type then b.pos + 8 ≤ i && i < b.pos + b.size
  else if b.type = mvhd ∨ b.type = tkhd then
    20 ≤ b.size && (b.pos + 12 ≤ i &&
      (versionByte data b == 0 && i < b.pos + 20 ||
        versionByte data b == 1 && (28 ≤ b.size && i < b.pos + 28)))
  else false

/-- The stripper zeroes the byte at `i` in one of the boxes of the forest. -/
def stripped (data : List UInt8) (T : Forest) (i : ℕ) : Bool := T.boxes.any (strips data · i)

/-- What a call returns that goes through the whole forest: `result`, or the first failure. -/
def outcome {α : Type} (T : Forest) (result : α) : Except Halt α :=
  match T.failure with
  | none => .ok result
  | some .overflow => .error .overflow
  | some _ => .error (.processing "truncated MP4 box with extended size")

section Writes

variable {overflowChecks : Bool} {data cur : List UInt8} {T : Forest} {b : Box} {i : ℕ}

theorem strips_eq_true_iff :
    strips data b i = true ↔
      isMetadataBox b.type = true ∧ b.pos + 8 ≤ i ∧ i < b.pos + b.size ∨
      isMetadataBox b.type = false ∧ (b.type = mvhd ∨ b.type = tkhd) ∧ 20 ≤ b.size ∧
        b.pos + 12 ≤ i ∧ (versionByte data b = 0 ∧ i < b.pos + 20 ∨
          versionByte data b = 1 ∧ 28 ≤ b.size ∧ i < b.pos + 28) := by
  unfold strips
  cases isMetadataBox b.type
  · by_cases htype : b.type = mvhd ∨ b.type = tkhd
    · simp [htype]
    · simp [htype]
  · simp

/-- The stripper writes inside the box, after its size and its type. -/
theorem span_of_strips (h : strips data b i = true) :
    b.pos + 8 ≤ i ∧ i < b.pos + b.size := by
  rcases strips_eq_true_iff.mp h with ⟨-, hspan⟩ | ⟨-, -, hsize, hlo, ⟨-, hi⟩ | ⟨-, hsize', hi⟩⟩
  · exact hspan
  · omega
  · omega

theorem isMetadataBox_eq_true_iff {t : List UInt8} :
    isMetadataBox t = true ↔ t = udta ∨ t = meta_ ∨ t = uuid := by
  simp [isMetadataBox, metadataBoxTypes]

theorem isContainer_eq_true_iff {t : List UInt8} :
    isContainer t = true ↔ t = moov ∨ t = trak ∨ t = mdia := by
  simp [isContainer, or_assoc]

/-- The stripper writes to no box that it enters. -/
theorem isContainer_of_strips (h : strips data b i = true) : isContainer b.type = false := by
  rcases strips_eq_true_iff.mp h with ⟨hmeta, -⟩ | ⟨-, htype, -⟩
  · rcases isMetadataBox_eq_true_iff.mp hmeta with ht | ht | ht <;> rw [ht] <;> decide
  · rcases htype with ht | ht <;> rw [ht] <;> decide

theorem stripped_eq_true_iff :
    stripped data T i = true ↔ ∃ b ∈ T.boxes, strips data b i = true := List.any_eq_true

@[simp] theorem stripped_stop (e : Ending) : stripped data (.stop e) i = false := rfl

theorem stripped_box (c : Box) (inner rest : Forest) :
    stripped data (.box c inner rest) i =
      (strips data c i || (stripped data inner i || stripped data rest i)) := by
  simp [stripped, Forest.boxes]

theorem outcome_stop {α : Type} (e : Ending) (result : α) :
    outcome (.stop e) result = match headOf (.error e) with
      | .ok (.broken message) => .error (.processing message)
      | .ok _ => .ok result
      | .error h => .error h := by
  cases e <;> rfl

/-- A forest fails in the body of its first box or after it. -/
theorem outcome_box {α : Type} (c : Box) (inner rest : Forest) (result : α) :
    outcome (.box c inner rest) result = outcome inner () >>= fun _ => outcome rest result := by
  unfold outcome
  rw [Forest.failure_box]
  cases h : inner.failure with
  | none => rfl
  | some e => rcases Forest.eq_of_failure h with rfl | rfl <;> rfl

/-- A call on a forest returns what was computed, or fails as any call on it. -/
theorem outcome_bind {α β : Type} (a : α) (f : α → Except Halt β) :
    outcome T a >>= f = outcome T () >>= fun _ => f a := by
  unfold outcome
  cases h : T.failure with
  | none => rfl
  | some e => rcases Forest.eq_of_failure h with rfl | rfl <;> rfl

/-- What follows a call on a forest matters when the forest does not fail. -/
theorem outcome_bind_congr {α : Type} {x y : Except Halt α} (h : T.failure = none → x = y) :
    (outcome T () >>= fun _ => x) = outcome T () >>= fun _ => y := by
  unfold outcome
  cases hf : T.failure with
  | none => exact h hf
  | some e => rcases Forest.eq_of_failure hf with rfl | rfl <;> rfl

end Writes

/-! ## The stripper follows the forest -/

section Strip

variable {overflowChecks : Bool} {data cur : List UInt8} {pos stop size fuel : ℕ} {c : Box}

theorem zeroBoxContents_eq (hlen : cur.length < 2 ^ 63) (hend : pos + size ≤ cur.length) :
    zeroBoxContents overflowChecks cur pos size =
      .ok (zeroWhere (fun i => pos + 8 ≤ i && i < pos + size) cur) := by
  rw [zeroBoxContents, addUsize_of_lt (by omega), bind_ok, addUsize_of_lt (by omega), bind_ok]
  by_cases hsize : pos + 8 < pos + size
  · rw [if_pos ⟨hsize, hend⟩, fillZero_of_le (by omega)]
  · rw [if_neg (by omega), zeroWhere_eq_self]
    · rfl
    · intro i hi
      simp only [Bool.and_eq_true, decide_eq_true_eq] at hi
      omega

/-- The fill of the two timestamps together. -/
theorem fillTimestamps_eq {base n : ℕ} (hlen : cur.length < 2 ^ 63)
    (hend : base + 4 + n ≤ cur.length) :
    (do
      let tsStart ← addUsize overflowChecks base 4
      fillZero cur tsStart (← addUsize overflowChecks tsStart n)) =
    .ok (zeroWhere (fun i => base + 4 ≤ i && i < base + 4 + n) cur) := by
  rw [addUsize_of_lt (by omega), bind_ok, addUsize_of_lt (by omega), bind_ok]
  exact fillZero_of_le (by omega)

theorem stripMvhdTimestamps_eq (hlen : cur.length < 2 ^ 63) (hend : pos + size ≤ cur.length) :
    stripMvhdTimestamps overflowChecks cur pos size =
      .ok (zeroWhere (fun i => 20 ≤ size && (pos + 12 ≤ i &&
        (cur.getD (pos + 8) 0 == 0 && i < pos + 20 ||
          cur.getD (pos + 8) 0 == 1 && (28 ≤ size && i < pos + 28)))) cur) := by
  rw [stripMvhdTimestamps]
  dsimp only
  by_cases hsize : size < 20
  · rw [if_pos hsize, zeroWhere_eq_self]
    · rfl
    · intro i hi
      simp only [Bool.and_eq_true, decide_eq_true_eq] at hi
      omega
  · rw [if_neg hsize, addUsize_of_lt (by omega), bind_ok, index_of_lt (by omega), bind_ok]
    simp only [bind_ok]
    by_cases hzero : cur.getD (pos + 8) 0 = 0
    · rw [if_pos ⟨hzero, by omega⟩, fillTimestamps_eq hlen (by omega), hzero]
      simp [Nat.not_lt.mp hsize]
    · rw [if_neg (fun h => hzero h.1)]
      by_cases hone : cur.getD (pos + 8) 0 = 1 ∧ 28 ≤ size
      · rw [if_pos hone, fillTimestamps_eq hlen (by omega), hone.1]
        simp [Nat.not_lt.mp hsize, hone.2]
      · rw [if_neg hone, zeroWhere_eq_self]
        · rfl
        · intro i hi
          simp only [Bool.and_eq_true, Bool.or_eq_true, decide_eq_true_eq, beq_iff_eq] at hi
          obtain ⟨-, -, ⟨hversion, -⟩ | ⟨hversion, hroom, -⟩⟩ := hi
          · exact absurd hversion hzero
          · exact absurd ⟨hversion, hroom⟩ hone

/-- The stripper writes inside the level of the forest. -/
theorem span_of_stripped {i : ℕ}
    (h : stripped data (readFuel isContainer data fuel pos stop) i = true) :
    pos + 8 ≤ i ∧ i < stop := by
  obtain ⟨b, hb, hstrips⟩ := stripped_eq_true_iff.mp h
  have hspan := span_of_mem_boxes hb
  have hwrite := span_of_strips hstrips
  omega

theorem isMetadataBox_of_isContainer {t : List UInt8} (h : isContainer t = true) :
    isMetadataBox t = false := by
  rcases isContainer_eq_true_iff.mp h with rfl | rfl | rfl <;> decide

/-- What an iteration does with a box that it does not enter. -/
theorem stripLeaf_eq {β : Type} (hlen : cur.length < 2 ^ 63) (hend : c.pos + c.size ≤ cur.length)
    (hversion : 20 ≤ c.size → versionByte cur c = versionByte data c)
    (next : List UInt8 → Except Halt β) :
    (if isMetadataBox c.type = true then
      zeroBoxContents overflowChecks cur c.pos c.size >>= next
    else if c.type = mvhd then stripMvhdTimestamps overflowChecks cur c.pos c.size >>= next
    else if c.type = tkhd then stripTkhdTimestamps overflowChecks cur c.pos c.size >>= next
    else pure cur >>= next) = next (zeroWhere (strips data c) cur) := by
  by_cases hmeta : isMetadataBox c.type = true
  · have hrange : (fun i => decide (c.pos + 8 ≤ i) && decide (i < c.pos + c.size)) =
        strips data c := by
      funext i
      rw [strips, if_pos hmeta]
    rw [if_pos hmeta, zeroBoxContents_eq hlen hend, bind_ok, hrange]
  · have htimes : c.type = mvhd ∨ c.type = tkhd →
        stripMvhdTimestamps overflowChecks cur c.pos c.size =
          .ok (zeroWhere (strips data c) cur) := by
      intro htype
      rw [stripMvhdTimestamps_eq hlen hend]
      congr 1
      refine zeroWhere_congr fun i => ?_
      simp only [strips, if_neg hmeta, if_pos htype]
      by_cases hsize : 20 ≤ c.size
      · rw [← hversion hsize]
        rfl
      · simp [hsize]
    rw [if_neg hmeta]
    by_cases hmvhd : c.type = mvhd
    · rw [if_pos hmvhd, htimes (.inl hmvhd), bind_ok]
    · rw [if_neg hmvhd]
      by_cases htkhd : c.type = tkhd
      · rw [if_pos htkhd, stripTkhdTimestamps, htimes (.inr htkhd), bind_ok]
      · have hnothing : zeroWhere (strips data c) cur = cur := by
          refine zeroWhere_eq_self fun i hi => ?_
          simp [strips, hmeta, hmvhd, htkhd] at hi
        rw [if_neg htkhd, hnothing]
        rfl

/-- An iteration at a box that the stripper enters. -/
theorem stripBoxes_container (hhead : readHead overflowChecks cur pos stop = headOf (.ok c))
    (hcon : isContainer c.type = true) (hheader : pos + c.header < 2 ^ 64)
    (hsize : pos + c.size < 2 ^ 64) :
    stripBoxes overflowChecks (fuel + 1) cur pos stop =
      stripBoxes overflowChecks fuel cur (pos + c.header) (pos + c.size) >>= fun data =>
        stripBoxes overflowChecks fuel data (pos + c.size) stop := by
  rw [stripBoxes, hhead]
  simp only [headOf, bind_ok, isMetadataBox_of_isContainer hcon, hcon, if_true,
    Bool.false_eq_true, if_false, addUsize_of_lt hheader, addUsize_of_lt hsize]

/-- An iteration at a box that it does not enter. -/
theorem stripBoxes_leaf (hhead : readHead overflowChecks cur pos stop = headOf (.ok c))
    (hleaf : isContainer c.type ≠ true) (hlen : cur.length < 2 ^ 63) (hcpos : c.pos = pos)
    (hend : pos + c.size ≤ cur.length)
    (hversion : 20 ≤ c.size → versionByte cur c = versionByte data c) :
    stripBoxes overflowChecks (fuel + 1) cur pos stop =
      stripBoxes overflowChecks fuel (zeroWhere (strips data c) cur) (pos + c.size) stop := by
  rw [stripBoxes, hhead]
  simp only [headOf, bind_ok, addUsize_of_lt (show pos + c.size < 2 ^ 64 by omega)]
  rw [if_neg hleaf, ← hcpos]
  exact stripLeaf_eq hlen (by omega) hversion _

/-- What is written in a container and after it. -/
theorem stripped_container (hcon : isContainer c.type = true) (inner rest : Forest) (i : ℕ) :
    stripped data (.box c inner rest) i = (stripped data inner i || stripped data rest i) := by
  have hnostrip : strips data c i = false := by
    by_contra htrue
    rw [isContainer_of_strips (by simpa using htrue)] at hcon
    cases hcon
  rw [stripped_box, hnostrip, Bool.false_or]

/-- What is written in a box without boxes in it and after it. -/
theorem stripped_leaf (c : Box) (rest : Forest) (i : ℕ) :
    stripped data (.box c (.stop .tiled) rest) i = (strips data c i || stripped data rest i) := by
  rw [stripped_box, stripped_stop, Bool.false_or]

/-- **The stripper follows the forest.** -/
theorem stripBoxes_eq (hlen : data.length < 2 ^ 63) (hcur : cur.length = data.length)
    (hpos : pos ≤ data.length + 8) (hstop : stop ≤ data.length) (hfuel : stop - pos < fuel)
    (hagree : AgreeOn pos stop data cur)
    (hchecks : overflowChecks = true ∨
      (readFuel isContainer data fuel pos stop).failure ≠ some .overflow) :
    stripBoxes overflowChecks fuel cur pos stop =
      outcome (readFuel isContainer data fuel pos stop)
        (zeroWhere (stripped data (readFuel isContainer data fuel pos stop)) cur) := by
  induction fuel generalizing cur pos stop with
  | zero => omega
  | succ fuel ih =>
    have hhead : readHead overflowChecks cur pos stop = headOf (boxAt data pos stop) := by
      refine readHead_eq_of_agreeOn (by omega) (by omega) (by omega) hagree
        (hchecks.imp_right fun hne heq => ?_)
      rw [readFuel_of_error heq] at hne
      exact hne rfl
    cases hc : boxAt data pos stop with
    | error e =>
      rw [stripBoxes, hhead, hc, readFuel_of_error hc, outcome_stop, zeroWhere_eq_self (by simp)]
      cases e <;> rfl
    | ok c =>
      obtain ⟨hcpos, hroom, hsize, hcstop, -, hheader⟩ := boxAt_eq_ok hc
      rw [hc] at hhead
      -- the call for the boxes after this one, on bytes that differ before them only
      have hrest : ∀ q : ℕ → Bool, (∀ i, q i = true → i < pos + c.size) →
          (readFuel isContainer data (fuel + 1) pos stop).failure =
            (readFuel isContainer data fuel (pos + c.size) stop).failure →
          stripBoxes overflowChecks fuel (zeroWhere q cur) (pos + c.size) stop =
          outcome (readFuel isContainer data fuel (pos + c.size) stop)
            (zeroWhere (fun i => q i ||
              stripped data (readFuel isContainer data fuel (pos + c.size) stop) i) cur) := by
        intro q hq hfail
        rw [← zeroWhere_zeroWhere]
        refine ih (by rw [length_zeroWhere, hcur]) (by omega) hstop (by omega)
          ((hagree.mono (by omega) le_rfl).zeroWhere_right fun i hlo _ => ?_) (hfail ▸ hchecks)
        by_contra htrue
        have := hq i (by simpa using htrue)
        omega
      rw [readFuel_of_ok hc] at hchecks hrest ⊢
      rw [outcome_box]
      by_cases hcon : isContainer c.type = true
      · simp only [if_pos hcon, Forest.failure_box] at hchecks hrest ⊢
        rw [stripBoxes_container hhead hcon (by omega) (by omega),
          ih hcur (by omega) (by omega) (by omega) (hagree.mono (by omega) (by omega))
            (hchecks.imp_right fun hne heq => hne (by rw [heq]; rfl)), outcome_bind]
        refine outcome_bind_congr fun hfail => ?_
        rw [hrest _ (fun i hi => (span_of_stripped hi).2) (by rw [hfail]; rfl),
          zeroWhere_congr (stripped_container hcon _ _)]
      · simp only [if_neg hcon] at hrest ⊢
        rw [stripBoxes_leaf hhead hcon (by omega) hcpos (by omega)
            (fun hsize => (hagree.getD (by omega) (by omega)).symm),
          hrest (strips data c) (fun i hi => hcpos ▸ (span_of_strips hi).2) rfl,
          zeroWhere_congr (stripped_leaf c _)]
        rfl

end Strip

/-! ## The verifier follows the forest -/

/-- The box is a metadata box with a byte that is not zero. -/
def activeMetadata (data : List UInt8) (b : Box) : Bool :=
  isMetadataBox b.type && (bytesAt data (b.pos + 8) (b.size - 8)).any (· != 0)

/-- What the scan returns for the outcome of a search. -/
def scanOf : Forest.Search → Except Halt Bool
  | .found => .ok true
  | .overflow => .error .overflow
  | .nothing => .ok false

section Scan

variable {overflowChecks : Bool} {data : List UInt8} {pos stop size fuel : ℕ} {b : Box}

theorem hasContent_eq (hlen : data.length < 2 ^ 63) (hend : pos + size ≤ data.length)
    (hsize : 8 ≤ size) :
    hasContent overflowChecks data pos size =
      .ok ((bytesAt data (pos + 8) (size - 8)).any (· != 0)) := by
  rw [hasContent, addUsize_of_lt (by omega), bind_ok, addUsize_of_lt (by omega), bind_ok]
  by_cases hlt : pos + 8 < pos + size
  · rw [if_pos hlt, slice_of_le (by omega), bind_ok,
      show pos + size - (pos + 8) = size - 8 by omega]
    rfl
  · rw [if_neg hlt, show size - 8 = 0 by omega]
    rfl

/-- **The verifier follows the forest.** -/
theorem scanForMetadataBoxes_eq (hlen : data.length < 2 ^ 63) (hpos : pos ≤ data.length + 8)
    (hstop : stop ≤ data.length) (hfuel : stop - pos < fuel)
    (hchecks : overflowChecks = true ∨
      (readFuel isContainer data fuel pos stop).search (activeMetadata data) ≠ .overflow) :
    scanForMetadataBoxes overflowChecks data fuel pos stop =
      scanOf ((readFuel isContainer data fuel pos stop).search (activeMetadata data)) := by
  induction fuel generalizing pos stop with
  | zero => omega
  | succ fuel ih =>
    have hhead : readHead overflowChecks data pos stop = headOf (boxAt data pos stop) := by
      refine readHead_eq hlen hpos hstop (hchecks.imp_right fun hne heq => ?_)
      rw [readFuel_of_error heq] at hne
      exact hne rfl
    rw [scanForMetadataBoxes, hhead]
    cases hc : boxAt data pos stop with
    | error e =>
      rw [readFuel_of_error hc]
      cases e <;> rfl
    | ok c =>
      obtain ⟨hcpos, hroom, hsize, hcstop, -, hheader⟩ := boxAt_eq_ok hc
      have hnext : addUsize overflowChecks pos c.size = .ok (pos + c.size) :=
        addUsize_of_lt (by omega)
      rw [readFuel_of_ok hc, Forest.search] at hchecks ⊢
      simp only [headOf, bind_ok, hnext]
      by_cases hmeta : isMetadataBox c.type = true
      · have hcon : isContainer c.type ≠ true := fun hcon =>
          absurd (isMetadataBox_of_isContainer hcon) (by rw [hmeta]; decide)
        have hactive : activeMetadata data c =
            (bytesAt data (pos + 8) (c.size - 8)).any (· != 0) := by
          rw [activeMetadata, hmeta, Bool.true_and, hcpos]
        rw [if_neg hcon] at hchecks
        rw [if_pos hmeta, hasContent_eq hlen (by omega) hsize, ← hactive, bind_ok, if_neg hcon]
        cases ha : activeMetadata data c with
        | true => rfl
        | false =>
          rw [ha] at hchecks
          exact ih (by omega) hstop (by omega) hchecks
      · have hactive : ¬ activeMetadata data c = true := by
          rw [activeMetadata, Bool.and_eq_true]
          exact fun h => hmeta h.1
        rw [if_neg hactive] at hchecks ⊢
        rw [if_neg hmeta]
        by_cases hcon : isContainer c.type = true
        · rw [if_pos hcon] at hchecks
          rw [if_pos hcon, if_pos hcon, addUsize_of_lt (by omega), bind_ok,
            ih (by omega) (by omega) (by omega)
              (hchecks.imp_right fun hne heq => hne (by rw [heq]))]
          cases hinner : (readFuel isContainer data fuel (pos + c.header) (pos + c.size)).search
              (activeMetadata data) with
          | found => rfl
          | overflow => rfl
          | nothing =>
            rw [hinner] at hchecks
            exact ih (by omega) hstop (by omega) hchecks
        · rw [if_neg hcon] at hchecks
          rw [if_neg hcon, if_neg hcon]
          exact ih (by omega) hstop (by omega) hchecks

end Scan

/-! ## When the walks come to an end -/

/-- The forest of the boxes that both walks meet. -/
def walk (data : List UInt8) : Forest := read isContainer data

section Totality

variable {overflowChecks : Bool} {fuel : ℕ} {data : List UInt8}

theorem readFuel_eq_walk (hfuel : data.length < fuel) :
    readFuel isContainer data fuel 0 data.length = walk data :=
  readFuel_eq_of_lt (by omega) (by omega)

/-- The stripper zeroes what lies in the boxes of the walk, or fails as the walk does. -/
theorem stripVideoMetadata_eq (hlen : data.length < 2 ^ 63) (hfuel : data.length < fuel)
    (hchecks : overflowChecks = true ∨ (walk data).failure ≠ some .overflow) :
    stripVideoMetadata overflowChecks fuel data =
      outcome (walk data) (zeroWhere (stripped data (walk data)) data) := by
  rw [← readFuel_eq_walk hfuel] at hchecks ⊢
  exact stripBoxes_eq hlen rfl (by omega) le_rfl (by omega) (agreeOn_refl _ _ _) hchecks

/-- The verifier searches the boxes of the walk. -/
theorem verifyMetadataStripped_eq (hlen : data.length < 2 ^ 63) (hfuel : data.length < fuel)
    (hchecks : overflowChecks = true ∨ (walk data).search (activeMetadata data) ≠ .overflow) :
    verifyMetadataStripped overflowChecks fuel data =
      (scanOf ((walk data).search (activeMetadata data))).map (!·) := by
  rw [← readFuel_eq_walk hfuel] at hchecks ⊢
  rw [verifyMetadataStripped, scanForMetadataBoxes_eq hlen (by omega) le_rfl (by omega) hchecks]
  cases (readFuel isContainer data fuel 0 data.length).search (activeMetadata data) <;> rfl

end Totality

end VideoMetadata
