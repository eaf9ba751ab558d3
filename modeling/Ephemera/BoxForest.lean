/-
# Forests of boxes in a byte string

A box container stores a box as a size, a four-byte type and a body; the body of some types
holds boxes again.  The size is a 32-bit field, where 0 stands for "up to the end of the
parent" and 1 for "a 64-bit size follows the type".  `read` turns a byte string into the
forest of its boxes, and records at each level why the reading ends there.

`readFuel_eq_cut` says what is read from a byte string whose leaf boxes have been written to:
the same forest, cut at the boxes whose 64-bit size has been destroyed.
-/
import Mathlib.Algebra.Group.Nat.Defs
import Mathlib.Algebra.Order.Ring.Nat
import Mathlib.Data.List.Basic

namespace BoxForest

/-! ## Numbers and ranges of bytes -/

/-- The `n`-byte big-endian number at `pos`. -/
def beNat (data : List UInt8) (pos : ℕ) : ℕ → ℕ
  | 0 => 0
  | n + 1 => beNat data pos n * 256 + (data.getD (pos + n) 0).toNat

/-- The `n` bytes at `pos`. -/
def bytesAt (data : List UInt8) (pos n : ℕ) : List UInt8 := (data.drop pos).take n

/-- The byte string with zeros at the positions that satisfy `p`. -/
def zeroWhere (p : ℕ → Bool) (data : List UInt8) : List UInt8 :=
  data.mapIdx fun i x => if p i then 0 else x

/-- Two byte strings have the same bytes at the positions from `lo` up to `hi`. -/
def AgreeOn (lo hi : ℕ) (data data' : List UInt8) : Prop :=
  ∀ i, lo ≤ i → i < hi → data[i]? = data'[i]?

section Bytes

variable {data data' : List UInt8} {p q : ℕ → Bool} {pos lo hi n m : ℕ}

theorem AgreeOn.mono {lo' hi' : ℕ} (h : AgreeOn lo hi data data') (hlo : lo ≤ lo')
    (hhi : hi' ≤ hi) : AgreeOn lo' hi' data data' := by
  intro i h₁ h₂
  exact h i (hlo.trans h₁) (h₂.trans_le hhi)

theorem agreeOn_refl (lo hi : ℕ) (data : List UInt8) : AgreeOn lo hi data data :=
  fun _ _ _ => rfl

theorem AgreeOn.getD (h : AgreeOn lo hi data data') {i : ℕ} (hlo : lo ≤ i) (hhi : i < hi) :
    data.getD i 0 = data'.getD i 0 := by
  rw [List.getD_eq_getElem?_getD, List.getD_eq_getElem?_getD, h i hlo hhi]

/-- A number is read from its own bytes. -/
theorem beNat_congr (h : AgreeOn pos (pos + n) data data') :
    beNat data pos n = beNat data' pos n := by
  induction n with
  | zero => rfl
  | succ n ih =>
    rw [beNat, beNat, ih (h.mono le_rfl (by omega)), h.getD (by omega) (by omega)]

theorem bytesAt_congr (h : AgreeOn pos (pos + n) data data') :
    bytesAt data pos n = bytesAt data' pos n := by
  refine List.ext_getElem? fun i => ?_
  rw [bytesAt, bytesAt, List.getElem?_take, List.getElem?_take]
  split
  · rw [List.getElem?_drop, List.getElem?_drop, h (pos + i) (by omega) (by omega)]
  · rfl

/-- Every byte of a range is one of the byte string. -/
theorem exists_of_mem_bytesAt {x : UInt8} (h : x ∈ bytesAt data pos n) :
    ∃ i, pos ≤ i ∧ i < pos + n ∧ data.getD i 0 = x := by
  obtain ⟨j, hj⟩ := List.mem_iff_getElem?.mp h
  rw [bytesAt, List.getElem?_take] at hj
  split at hj
  · rename_i hlt
    rw [List.getElem?_drop] at hj
    exact ⟨pos + j, by omega, by omega, by rw [List.getD_eq_getElem?_getD, hj, Option.getD_some]⟩
  · cases hj

theorem beNat_lt (data : List UInt8) (pos n : ℕ) : beNat data pos n < 256 ^ n := by
  induction n with
  | zero => exact Nat.one_pos
  | succ n ih =>
    have hbyte := (data.getD (pos + n) 0).toNat_lt
    rw [beNat, Nat.pow_succ]
    omega

/-- A number is made of its leading and its trailing bytes. -/
theorem beNat_add (data : List UInt8) (pos m n : ℕ) :
    beNat data pos (m + n) = beNat data pos m * 256 ^ n + beNat data (pos + m) n := by
  induction n with
  | zero => simp [beNat]
  | succ n ih =>
    rw [← Nat.add_assoc, beNat, ih, beNat, Nat.pow_succ, Nat.add_mul, Nat.mul_assoc,
      Nat.add_assoc pos m n, Nat.add_assoc]

theorem beNat_one (data : List UInt8) (pos : ℕ) : beNat data pos 1 = (data.getD pos 0).toNat := by
  rw [beNat, beNat, Nat.zero_mul, Nat.zero_add, Nat.add_zero]

/-- A number is zero when its bytes are. -/
theorem beNat_eq_zero_iff : beNat data pos n = 0 ↔ ∀ i, i < n → data.getD (pos + i) 0 = 0 := by
  induction n with
  | zero => simp [beNat]
  | succ n ih =>
    rw [beNat, Nat.add_eq_zero_iff, Nat.mul_eq_zero, ih]
    constructor
    · rintro ⟨hlead | hlead, hlast⟩ i hi
      · rcases Nat.lt_succ_iff_lt_or_eq.mp hi with hlt | rfl
        · exact hlead i hlt
        · exact UInt8.toNat_inj.mp hlast
      · exact absurd hlead (by decide)
    · intro h
      exact ⟨.inl fun i hi => h i (by omega), by rw [h n (by omega)]; rfl⟩

@[simp] theorem length_zeroWhere (p : ℕ → Bool) (data : List UInt8) :
    (zeroWhere p data).length = data.length := List.length_mapIdx

@[simp] theorem getElem?_zeroWhere (p : ℕ → Bool) (data : List UInt8) (i : ℕ) :
    (zeroWhere p data)[i]? = data[i]?.map fun x => if p i then 0 else x := List.getElem?_mapIdx

/-- Zeroing twice is zeroing at the positions of both. -/
theorem zeroWhere_zeroWhere (p q : ℕ → Bool) (data : List UInt8) :
    zeroWhere p (zeroWhere q data) = zeroWhere (fun i => q i || p i) data := by
  refine List.ext_getElem? fun i => ?_
  rw [getElem?_zeroWhere, getElem?_zeroWhere, getElem?_zeroWhere, Option.map_map]
  congr 1
  funext x
  cases p i <;> cases q i <;> simp

/-- Nothing changes where the bytes are zero already. -/
theorem zeroWhere_eq_self (h : ∀ i, p i = true → data.getD i 0 = 0) : zeroWhere p data = data := by
  refine List.ext_getElem? fun i => ?_
  rw [getElem?_zeroWhere]
  cases hp : p i
  · simp
  · have hzero := h i hp
    rw [List.getD_eq_getElem?_getD] at hzero
    cases hi : data[i]? with
    | none => rfl
    | some x =>
      rw [hi, Option.getD_some] at hzero
      rw [Option.map_some, if_pos rfl, hzero]

theorem zeroWhere_congr (h : ∀ i, p i = q i) : zeroWhere p data = zeroWhere q data := by
  rw [funext h]

theorem AgreeOn.zeroWhere_right (hagree : AgreeOn lo hi data data')
    (h : ∀ i, lo ≤ i → i < hi → p i = false) : AgreeOn lo hi data (zeroWhere p data') := by
  intro i hlo hhi
  rw [getElem?_zeroWhere, h i hlo hhi, hagree i hlo hhi]
  simp

theorem getD_zeroWhere (p : ℕ → Bool) (data : List UInt8) (i : ℕ) :
    (zeroWhere p data).getD i 0 = if p i then 0 else data.getD i 0 := by
  rw [List.getD_eq_getElem?_getD, List.getD_eq_getElem?_getD, getElem?_zeroWhere]
  cases data[i]? <;> simp

end Bytes

/-! ## Boxes -/

/-- Why the reading of a level ends. -/
inductive Ending where
  /-- The boxes fill the level. -/
  | tiled
  /-- Fewer than eight bytes are left, or the level ends before it begins. -/
  | leftover
  /-- The size of the next box is below eight or reaches over the end. -/
  | invalid
  /-- The 64-bit size of the next box is cut off. -/
  | truncated
  /-- The position after the next box is no 64-bit number. -/
  | overflow
  deriving DecidableEq, Repr

/-- A box: its first byte, its size, the size of its header and its type. -/
structure Box where
  pos : ℕ
  size : ℕ
  header : ℕ
  type : List UInt8
  deriving DecidableEq, Repr

/-- The size of the box at `pos` in a level that ends at `stop`. -/
def sizeAt (data : List UInt8) (pos stop : ℕ) : ℕ :=
  if beNat data pos 4 = 0 then stop - pos
  else if beNat data pos 4 = 1 then beNat data (pos + 8) 8
  else beNat data pos 4

/-- The box at `pos` in a level that ends at `stop`. -/
def boxAt (data : List UInt8) (pos stop : ℕ) : Except Ending Box :=
  if stop < pos + 8 then .error (if pos = stop then .tiled else .leftover)
  else if beNat data pos 4 = 1 ∧ stop < pos + 16 then .error .truncated
  else if sizeAt data pos stop < 8 then .error .invalid
  else if 2 ^ 64 ≤ pos + sizeAt data pos stop then .error .overflow
  else if stop < pos + sizeAt data pos stop then .error .invalid
  else .ok ⟨pos, sizeAt data pos stop, if beNat data pos 4 = 1 then 16 else 8,
    bytesAt data (pos + 4) 4⟩

/-- A level of boxes: each box with the boxes in its body and those after it. -/
inductive Forest where
  | stop (e : Ending)
  | box (b : Box) (inner rest : Forest)
  deriving DecidableEq, Repr

/-- The forest from `pos` up to `stop`; only the bodies of containers are read. -/
def readFuel (isContainer : List UInt8 → Bool) (data : List UInt8) : ℕ → ℕ → ℕ → Forest
  | 0, _, _ => .stop .invalid
  | fuel + 1, pos, stop =>
    match boxAt data pos stop with
    | .error e => .stop e
    | .ok b =>
      .box b
        (if isContainer b.type then readFuel isContainer data fuel (pos + b.header) (pos + b.size)
          else .stop .tiled)
        (readFuel isContainer data fuel (pos + b.size) stop)

/-- The forest of a byte string. -/
def read (isContainer : List UInt8 → Bool) (data : List UInt8) : Forest :=
  readFuel isContainer data (data.length + 1) 0 data.length

namespace Forest

/-- The boxes of all levels, in the order of their first bytes. -/
def boxes : Forest → List Box
  | .stop _ => []
  | .box b inner rest => b :: (inner.boxes ++ rest.boxes)

/-- Why the levels end, in the order in which a reader meets the ends. -/
def endings : Forest → List Ending
  | .stop e => [e]
  | .box _ inner rest => inner.endings ++ rest.endings

/-- The boxes fill each level, and each holds its header. -/
def Tiles (T : Forest) : Prop :=
  (∀ e ∈ T.endings, e = .tiled) ∧ ∀ b ∈ T.boxes, b.header ≤ b.size

instance (T : Forest) : Decidable T.Tiles := inferInstanceAs (Decidable (_ ∧ _))

/-- The first end at which a size cannot be read or added. -/
def failure (T : Forest) : Option Ending :=
  T.endings.find? fun e => decide (e = .truncated ∨ e = .overflow)

/-- The forest without the boxes that satisfy `p` and what follows them on their level. -/
def cut (p : Box → Bool) : Forest → Forest
  | .stop e => .stop e
  | .box b inner rest => if p b then .stop .invalid else .box b (inner.cut p) (rest.cut p)

/-- What a search through the boxes finds first. -/
inductive Search where
  | found
  | overflow
  | nothing
  deriving DecidableEq, Repr

/-- The search for a box that satisfies `p`: a size that cannot be added stops it. -/
def search (p : Box → Bool) : Forest → Search
  | .stop e => if e = .overflow then .overflow else .nothing
  | .box b inner rest =>
    if p b then .found
    else match inner.search p with
      | .nothing => rest.search p
      | r => r

end Forest

/-! ## Reading one box -/

section Reading

variable {data out : List UInt8} {isContainer : List UInt8 → Bool} {fuel pos stop : ℕ} {b : Box}
  {e : Ending}

theorem sizeAt_of_one (h : beNat data pos 4 = 1) :
    sizeAt data pos stop = beNat data (pos + 8) 8 := by
  rw [sizeAt, if_neg (by omega), if_pos h]

theorem sizeAt_of_ne_one (hone : beNat data pos 4 ≠ 1) (h : beNat out pos 4 = beNat data pos 4) :
    sizeAt out pos stop = sizeAt data pos stop := by
  rw [sizeAt, sizeAt, h, if_neg hone, if_neg hone]

/-- What reading a box says about the bytes. -/
theorem boxAt_eq_ok (h : boxAt data pos stop = .ok b) :
    b.pos = pos ∧ pos + 8 ≤ stop ∧ 8 ≤ b.size ∧ pos + b.size ≤ stop ∧
      b.type = bytesAt data (pos + 4) 4 ∧
      (b.header = 8 ∧ beNat data pos 4 ≠ 1 ∨
        b.header = 16 ∧ beNat data pos 4 = 1 ∧ pos + 16 ≤ stop ∧
          b.size = beNat data (pos + 8) 8) := by
  unfold boxAt at h
  split at h
  · cases h
  · rename_i hroom
    split at h
    · cases h
    · rename_i hext
      split at h
      · cases h
      · rename_i hsize
        split at h
        · cases h
        · split at h
          · cases h
          · rename_i hstop
            cases h
            refine ⟨rfl, by omega, Nat.not_lt.mp hsize, Nat.not_lt.mp hstop, rfl, ?_⟩
            by_cases hone : beNat data pos 4 = 1
            · exact .inr ⟨if_pos hone, hone, by omega, sizeAt_of_one hone⟩
            · exact .inl ⟨if_neg hone, hone⟩

/-- The reading of a box overflows when the box has a size and its end is no 64-bit number. -/
theorem boxAt_of_overflow (hroom : pos + 8 ≤ stop)
    (hext : ¬ (beNat data pos 4 = 1 ∧ stop < pos + 16)) (hsize : 8 ≤ sizeAt data pos stop)
    (hover : 2 ^ 64 ≤ pos + sizeAt data pos stop) :
    boxAt data pos stop = .error .overflow := by
  rw [boxAt, if_neg (Nat.not_lt.mpr hroom), if_neg hext, if_neg (Nat.not_lt.mpr hsize),
    if_pos hover]

/-- Two readings agree on a level when they do on the fields of the header. -/
theorem boxAt_congr_of_fields (hagree : AgreeOn pos (pos + 8) data out)
    (hsize : sizeAt out pos stop = sizeAt data pos stop) :
    boxAt out pos stop = boxAt data pos stop := by
  rw [boxAt, boxAt, ← beNat_congr (hagree.mono le_rfl (by omega)),
    ← bytesAt_congr (hagree.mono (by omega) (by omega)), hsize]

/-- A box is read from its level. -/
theorem boxAt_congr (h : AgreeOn pos stop data out) : boxAt out pos stop = boxAt data pos stop := by
  by_cases hroom : stop < pos + 8
  · rw [boxAt, boxAt, if_pos hroom, if_pos hroom]
  · have hfield : beNat data pos 4 = beNat out pos 4 := beNat_congr (h.mono le_rfl (by omega))
    by_cases hone : beNat data pos 4 = 1
    · by_cases hext : stop < pos + 16
      · have hone' : beNat out pos 4 = 1 := by omega
        rw [boxAt, boxAt, if_neg hroom, if_neg hroom, if_pos (And.intro hone hext),
          if_pos (And.intro hone' hext)]
      · refine boxAt_congr_of_fields (h.mono le_rfl (by omega)) ?_
        rw [sizeAt_of_one hone, sizeAt_of_one (by omega)]
        exact (beNat_congr (h.mono (by omega) (by omega))).symm
    · exact boxAt_congr_of_fields (h.mono le_rfl (by omega)) (sizeAt_of_ne_one hone hfield.symm)

/-- A box whose header is unchanged is read again. -/
theorem boxAt_of_header (h : boxAt data pos stop = .ok b)
    (hagree : AgreeOn pos (pos + 8) data out)
    (hext : b.header = 16 → beNat out (pos + 8) 8 = beNat data (pos + 8) 8) :
    boxAt out pos stop = .ok b := by
  have hfield : beNat data pos 4 = beNat out pos 4 := beNat_congr (hagree.mono le_rfl (by omega))
  obtain ⟨-, -, -, -, -, ⟨-, hone⟩ | ⟨hheader, hone, -, -⟩⟩ := boxAt_eq_ok h
  · rw [boxAt_congr_of_fields hagree (sizeAt_of_ne_one hone hfield.symm), h]
  · rw [boxAt_congr_of_fields hagree, h]
    rw [sizeAt_of_one hone, sizeAt_of_one (by omega), hext hheader]

/-- A box whose 64-bit size has become smaller than a header ends its level. -/
theorem boxAt_of_destroyed (h : boxAt data pos stop = .ok b)
    (hagree : AgreeOn pos (pos + 8) data out) (hheader : b.header = 16)
    (hext : beNat out (pos + 8) 8 < 8) : boxAt out pos stop = .error .invalid := by
  have hfield : beNat data pos 4 = beNat out pos 4 := beNat_congr (hagree.mono le_rfl (by omega))
  obtain ⟨-, hroom, -, -, -, ⟨h8, -⟩ | ⟨-, hone, hroom16, -⟩⟩ := boxAt_eq_ok h
  · omega
  · rw [boxAt, if_neg (by omega), if_neg (by omega), sizeAt_of_one (by omega), if_pos hext]

theorem readFuel_of_error (h : boxAt data pos stop = .error e) :
    readFuel isContainer data (fuel + 1) pos stop = .stop e := by
  rw [readFuel, h]

theorem readFuel_of_ok (h : boxAt data pos stop = .ok b) :
    readFuel isContainer data (fuel + 1) pos stop =
      .box b
        (if isContainer b.type then readFuel isContainer data fuel (pos + b.header) (pos + b.size)
          else .stop .tiled)
        (readFuel isContainer data fuel (pos + b.size) stop) := by
  rw [readFuel, h]

end Reading

/-! ## Where the boxes of a forest lie -/

section Layout

variable {data out : List UInt8} {isContainer : List UInt8 → Bool} {fuel pos stop : ℕ} {b b' : Box}

/-- A box of a level or below: the first of the level, in the body of the first, or after it. -/
theorem mem_boxes_readFuel_succ :
    b ∈ (readFuel isContainer data (fuel + 1) pos stop).boxes ↔
      ∃ c, boxAt data pos stop = .ok c ∧ (b = c ∨
        isContainer c.type = true ∧
          b ∈ (readFuel isContainer data fuel (pos + c.header) (pos + c.size)).boxes ∨
        b ∈ (readFuel isContainer data fuel (pos + c.size) stop).boxes) := by
  cases h : boxAt data pos stop with
  | error e => simp [readFuel_of_error h, Forest.boxes]
  | ok c =>
    rw [readFuel_of_ok h, Forest.boxes, List.mem_cons, List.mem_append]
    cases hc : isContainer c.type <;> simp [Forest.boxes, hc]

/-- The boxes of a level lie in it. -/
theorem span_of_mem_boxes (h : b ∈ (readFuel isContainer data fuel pos stop).boxes) :
    pos ≤ b.pos ∧ b.pos + b.size ≤ stop := by
  induction fuel generalizing pos stop with
  | zero => simp [readFuel, Forest.boxes] at h
  | succ fuel ih =>
    obtain ⟨c, hc, hb⟩ := mem_boxes_readFuel_succ.mp h
    obtain ⟨hpos, -, hsize, hstop, -, -⟩ := boxAt_eq_ok hc
    rcases hb with rfl | ⟨-, hinner⟩ | hrest
    · omega
    · have := ih hinner
      omega
    · have := ih hrest
      omega

/-- Each box has been read where it lies. -/
theorem boxAt_of_mem_boxes (h : b ∈ (readFuel isContainer data fuel pos stop).boxes) :
    ∃ stop', stop' ≤ stop ∧ boxAt data b.pos stop' = .ok b := by
  induction fuel generalizing pos stop with
  | zero => simp [readFuel, Forest.boxes] at h
  | succ fuel ih =>
    obtain ⟨c, hc, hb⟩ := mem_boxes_readFuel_succ.mp h
    obtain ⟨hpos, -, -, hstop, -, -⟩ := boxAt_eq_ok hc
    rcases hb with rfl | ⟨-, hinner⟩ | hrest
    · exact ⟨stop, le_rfl, hpos ▸ hc⟩
    · obtain ⟨stop', hle, hbox⟩ := ih hinner
      exact ⟨stop', hle.trans hstop, hbox⟩
    · exact ih hrest

/-- A box has room for its size and its type, and a 64-bit size follows in a long header. -/
theorem header_of_mem_boxes (h : b ∈ (readFuel isContainer data fuel pos stop).boxes) :
    8 ≤ b.size ∧ (b.header = 8 ∨ b.header = 16 ∧ b.size = beNat data (b.pos + 8) 8) := by
  obtain ⟨stop', -, hbox⟩ := boxAt_of_mem_boxes h
  obtain ⟨-, -, hsize, -, -, ⟨hheader, -⟩ | ⟨hheader, -, -, hfield⟩⟩ := boxAt_eq_ok hbox
  · exact ⟨hsize, .inl hheader⟩
  · exact ⟨hsize, .inr ⟨hheader, hfield⟩⟩

/-- Two boxes without boxes in them lie apart. -/
theorem eq_of_mem_span (hb : b ∈ (readFuel isContainer data fuel pos stop).boxes)
    (hb' : b' ∈ (readFuel isContainer data fuel pos stop).boxes)
    (hleaf : isContainer b.type = false) (hleaf' : isContainer b'.type = false) {i : ℕ}
    (hi : b.pos ≤ i ∧ i < b.pos + b.size) (hi' : b'.pos ≤ i ∧ i < b'.pos + b'.size) : b = b' := by
  induction fuel generalizing pos stop with
  | zero => simp [readFuel, Forest.boxes] at hb
  | succ fuel ih =>
    obtain ⟨c, hc, hb⟩ := mem_boxes_readFuel_succ.mp hb
    obtain ⟨c', hc', hb'⟩ := mem_boxes_readFuel_succ.mp hb'
    obtain rfl : c = c' := by
      rw [hc] at hc'
      exact Except.ok.inj hc'
    obtain ⟨hpos, -, -, -, -, -⟩ := boxAt_eq_ok hc
    rcases hb with rfl | ⟨hcon, hinner⟩ | hrest
    · rcases hb' with rfl | ⟨hcon, -⟩ | hrest'
      · rfl
      · rw [hleaf] at hcon
        cases hcon
      · have := span_of_mem_boxes hrest'
        omega
    · rcases hb' with rfl | ⟨-, hinner'⟩ | hrest'
      · rw [hleaf'] at hcon
        cases hcon
      · exact ih hinner hinner'
      · have hspan := span_of_mem_boxes hinner
        have hspan' := span_of_mem_boxes hrest'
        omega
    · rcases hb' with rfl | ⟨-, hinner'⟩ | hrest'
      · have := span_of_mem_boxes hrest
        omega
      · have hspan := span_of_mem_boxes hrest
        have hspan' := span_of_mem_boxes hinner'
        omega
      · exact ih hrest hrest'

/-- Of two such boxes one lies before the other. -/
theorem apart_of_ne (hb : b ∈ (readFuel isContainer data fuel pos stop).boxes)
    (hb' : b' ∈ (readFuel isContainer data fuel pos stop).boxes)
    (hleaf : isContainer b.type = false) (hleaf' : isContainer b'.type = false) (hne : b ≠ b') :
    b.pos + b.size ≤ b'.pos ∨ b'.pos + b'.size ≤ b.pos := by
  by_contra hcon
  have hsize := (header_of_mem_boxes hb).1
  have hsize' := (header_of_mem_boxes hb').1
  -- otherwise the later of the two starts in the other
  have hfirst : b.pos ≤ max b.pos b'.pos ∧ max b.pos b'.pos < b.pos + b.size := by omega
  exact hne (eq_of_mem_span hb hb' hleaf hleaf' hfirst (by omega))

/-- The reading does not depend on the fuel when there is enough. -/
theorem readFuel_eq_of_lt {fuel' : ℕ} (h : stop - pos < fuel) (h' : stop - pos < fuel') :
    readFuel isContainer data fuel pos stop = readFuel isContainer data fuel' pos stop := by
  induction fuel generalizing pos stop fuel' with
  | zero => omega
  | succ fuel ih =>
    cases fuel' with
    | zero => omega
    | succ fuel' =>
      cases hc : boxAt data pos stop with
      | error e => rw [readFuel_of_error hc, readFuel_of_error hc]
      | ok c =>
        obtain ⟨-, hroom, hsize, hstop, -, hheader⟩ := boxAt_eq_ok hc
        have hinner : readFuel isContainer data fuel (pos + c.header) (pos + c.size) =
            readFuel isContainer data fuel' (pos + c.header) (pos + c.size) :=
          ih (by omega) (by omega)
        have hrest : readFuel isContainer data fuel (pos + c.size) stop =
            readFuel isContainer data fuel' (pos + c.size) stop := ih (by omega) (by omega)
        rw [readFuel_of_ok hc, readFuel_of_ok hc, hinner, hrest]

/-- A reader that enters more types finds more boxes. -/
theorem boxes_subset {isContainer' : List UInt8 → Bool}
    (hmono : ∀ t, isContainer t = true → isContainer' t = true)
    (h : b ∈ (readFuel isContainer data fuel pos stop).boxes) :
    b ∈ (readFuel isContainer' data fuel pos stop).boxes := by
  induction fuel generalizing pos stop with
  | zero => simp [readFuel, Forest.boxes] at h
  | succ fuel ih =>
    obtain ⟨c, hc, hb⟩ := mem_boxes_readFuel_succ.mp h
    refine mem_boxes_readFuel_succ.mpr ⟨c, hc, ?_⟩
    rcases hb with rfl | ⟨hcon, hinner⟩ | hrest
    · exact .inl rfl
    · exact .inr (.inl ⟨hmono _ hcon, ih hinner⟩)
    · exact .inr (.inr (ih hrest))

/-- It meets every ending other than that of a body which the other does not enter. -/
theorem endings_subset {isContainer' : List UInt8 → Bool} {e : Ending}
    (hmono : ∀ t, isContainer t = true → isContainer' t = true)
    (h : e ∈ (readFuel isContainer data fuel pos stop).endings) :
    e = .tiled ∨ e ∈ (readFuel isContainer' data fuel pos stop).endings := by
  induction fuel generalizing pos stop with
  | zero => exact .inr (by simpa [readFuel, Forest.endings] using h)
  | succ fuel ih =>
    cases hc : boxAt data pos stop with
    | error e' =>
      rw [readFuel_of_error hc] at h ⊢
      exact .inr h
    | ok c =>
      rw [readFuel_of_ok hc, Forest.endings, List.mem_append] at h ⊢
      rcases h with hinner | hrest
      · by_cases hcon : isContainer c.type = true
        · rw [if_pos hcon] at hinner
          rw [if_pos (hmono _ hcon)]
          exact (ih hinner).imp_right .inl
        · rw [if_neg hcon, Forest.endings, List.mem_singleton] at hinner
          exact .inl hinner
      · exact (ih hrest).imp_right .inr

/-- What tiles for one reader tiles for every reader that enters fewer types. -/
theorem tiles_of_subset {isContainer' : List UInt8 → Bool}
    (hmono : ∀ t, isContainer t = true → isContainer' t = true)
    (h : (readFuel isContainer' data fuel pos stop).Tiles) :
    (readFuel isContainer data fuel pos stop).Tiles := by
  refine ⟨fun e he => ?_, fun b hb => h.2 b (boxes_subset hmono hb)⟩
  rcases endings_subset hmono he with htiled | hmem
  · exact htiled
  · exact h.1 e hmem

end Layout

/-! ## Cut forests and searches -/

namespace Forest

variable {T : Forest} {p : Box → Bool} {b : Box} {e : Ending}

theorem mem_boxes_cut (h : b ∈ (T.cut p).boxes) : b ∈ T.boxes ∧ p b = false := by
  induction T with
  | stop e => simp [cut, boxes] at h
  | box c inner rest ihinner ihrest =>
    rw [cut] at h
    split at h
    · simp [boxes] at h
    · rename_i hc
      rw [boxes, List.mem_cons, List.mem_append] at h ⊢
      rcases h with rfl | hinner | hrest
      · exact ⟨.inl rfl, by simpa using hc⟩
      · exact ⟨.inr (.inl (ihinner hinner).1), (ihinner hinner).2⟩
      · exact ⟨.inr (.inr (ihrest hrest).1), (ihrest hrest).2⟩

theorem mem_endings_cut (h : e ∈ (T.cut p).endings) : e = .invalid ∨ e ∈ T.endings := by
  induction T with
  | stop e => exact .inr h
  | box c inner rest ihinner ihrest =>
    rw [cut] at h
    split at h
    · exact .inl (List.mem_singleton.mp h)
    · rw [endings, List.mem_append] at h ⊢
      rcases h with hinner | hrest
      · exact (ihinner hinner).imp_right .inl
      · exact (ihrest hrest).imp_right .inr

/-- Nothing is cut off when no box satisfies the condition. -/
theorem cut_eq_self (h : ∀ b ∈ T.boxes, p b = false) : T.cut p = T := by
  induction T with
  | stop e => rfl
  | box c inner rest ihinner ihrest =>
    rw [boxes, List.forall_mem_cons, List.forall_mem_append] at h
    obtain ⟨hc, hinner, hrest⟩ := h
    rw [cut, hc, ihinner hinner, ihrest hrest, if_neg (by decide)]

theorem failure_box (b : Box) (inner rest : Forest) :
    (box b inner rest).failure = inner.failure.or rest.failure := List.find?_append

theorem failure_eq_none_iff :
    T.failure = none ↔ ∀ e ∈ T.endings, e ≠ .truncated ∧ e ≠ .overflow := by
  rw [failure, List.find?_eq_none]
  simp only [decide_eq_true_eq, not_or]

/-- The first failure is one of the two kinds. -/
theorem eq_of_failure (h : T.failure = some e) : e = .truncated ∨ e = .overflow := by
  simpa using List.find?_some h

theorem failure_eq_none_of_tiles (h : T.Tiles) : T.failure = none := by
  refine failure_eq_none_iff.mpr fun e he => ?_
  rw [h.1 e he]
  exact ⟨by decide, by decide⟩

/-- A search comes to its end when it finds nothing and meets no overflow. -/
theorem search_eq_nothing (hboxes : ∀ b ∈ T.boxes, p b = false)
    (hendings : ∀ e ∈ T.endings, e ≠ .overflow) : T.search p = .nothing := by
  induction T with
  | stop e => rw [search, if_neg (hendings e (List.mem_singleton_self e))]
  | box c inner rest ihinner ihrest =>
    rw [boxes, List.forall_mem_cons, List.forall_mem_append] at hboxes
    rw [endings, List.forall_mem_append] at hendings
    obtain ⟨hc, hinner, hrest⟩ := hboxes
    rw [search, hc, if_neg (by decide), ihinner hinner hendings.1]
    exact ihrest hrest hendings.2

end Forest

section Cut

variable {data out : List UInt8} {isContainer : List UInt8 → Bool} {fuel pos stop : ℕ}
  {p : Box → Bool}

/-- Where a byte in a box without boxes in it lies, past its size and its type: in the first box
of the level, in the body of the first, or after it. -/
theorem leaf_byte_cases {c b : Box} {i : ℕ} (hc : boxAt data pos stop = .ok c)
    (hb : b ∈ (readFuel isContainer data (fuel + 1) pos stop).boxes)
    (hleaf : isContainer b.type = false) (hlo : b.pos + 8 ≤ i) (hhi : i < b.pos + b.size) :
    (isContainer c.type = false ∧ pos + 8 ≤ i ∧ i < pos + c.size) ∨
      (isContainer c.type = true ∧ pos + c.header + 8 ≤ i ∧ i < pos + c.size ∧
        b ∈ (readFuel isContainer data fuel (pos + c.header) (pos + c.size)).boxes) ∨
      (pos + c.size + 8 ≤ i ∧
        b ∈ (readFuel isContainer data fuel (pos + c.size) stop).boxes) := by
  obtain ⟨c', hc', hcase⟩ := mem_boxes_readFuel_succ.mp hb
  obtain rfl : c = c' := by
    rw [hc] at hc'
    exact Except.ok.inj hc'
  have hpos := (boxAt_eq_ok hc).1
  rcases hcase with rfl | ⟨hcon, hinner⟩ | hrest
  · exact .inl ⟨hleaf, by omega, by omega⟩
  · obtain ⟨hge, hle⟩ := span_of_mem_boxes hinner
    exact .inr (.inl ⟨hcon, by omega, by omega, hinner⟩)
  · obtain ⟨hge, -⟩ := span_of_mem_boxes hrest
    exact .inr (.inr ⟨by omega, hrest⟩)

/-- The bytes of a level change only inside boxes without boxes in them, past the size and the
type, and each changed 64-bit size ends below eight, for the boxes that satisfy `p`, or where it
was. -/
structure LeafWrites (isContainer : List UInt8 → Bool) (p : Box → Bool) (data out : List UInt8)
    (fuel pos stop : ℕ) : Prop where
  change : ∀ i, pos ≤ i → i < stop → data[i]? ≠ out[i]? →
    ∃ b ∈ (readFuel isContainer data fuel pos stop).boxes,
      isContainer b.type = false ∧ b.pos + 8 ≤ i ∧ i < b.pos + b.size
  destroyed : ∀ b ∈ (readFuel isContainer data fuel pos stop).boxes, p b = true →
    b.header = 16 ∧ beNat out (b.pos + 8) 8 < 8
  kept : ∀ b ∈ (readFuel isContainer data fuel pos stop).boxes, p b = false →
    isContainer b.type = false → b.header = 16 →
      beNat out (b.pos + 8) 8 = beNat data (b.pos + 8) 8

namespace LeafWrites

/-- In a level without boxes nothing changes. -/
theorem agreeOn_of_error {e : Ending} (h : LeafWrites isContainer p data out (fuel + 1) pos stop)
    (he : boxAt data pos stop = .error e) : AgreeOn pos stop data out := by
  intro i hlo hhi
  by_contra hne
  obtain ⟨b, hb, -⟩ := h.change i hlo hhi hne
  simp [readFuel_of_error he, Forest.boxes] at hb

variable {c : Box}

/-- The size and the type of the first box stay. -/
theorem agreeOn_fields (h : LeafWrites isContainer p data out (fuel + 1) pos stop)
    (hc : boxAt data pos stop = .ok c) : AgreeOn pos (pos + 8) data out := by
  obtain ⟨-, hroom, hsize, -, -, hheader⟩ := boxAt_eq_ok hc
  intro i hlo hhi
  by_contra hne
  obtain ⟨b, hb, hleaf, hbi⟩ := h.change i hlo (by omega) hne
  rcases leaf_byte_cases hc hb hleaf hbi.1 hbi.2 with ⟨-, hge, -⟩ | ⟨-, hge, -⟩ | ⟨hge, -⟩
  · omega
  · omega
  · omega

/-- The 64-bit size of a container lies before every byte that can change. -/
theorem agreeOn_extended (h : LeafWrites isContainer p data out (fuel + 1) pos stop)
    (hc : boxAt data pos stop = .ok c) (hcon : isContainer c.type = true)
    (hheader : c.header = 16) : AgreeOn (pos + 8) (pos + 8 + 8) data out := by
  obtain ⟨-, -, hsize, hstop, -, hlong⟩ := boxAt_eq_ok hc
  intro i hlo hhi
  by_contra hne
  obtain ⟨b, hb, hleaf, hbi⟩ := h.change i (by omega) (by omega) hne
  rcases leaf_byte_cases hc hb hleaf hbi.1 hbi.2 with ⟨hnot, -⟩ | ⟨-, hge, -⟩ | ⟨hge, -⟩
  · rw [hcon] at hnot
    cases hnot
  · omega
  · omega

/-- The 64-bit size of a first box that is not cut stays. -/
theorem extended_eq (h : LeafWrites isContainer p data out (fuel + 1) pos stop)
    (hc : boxAt data pos stop = .ok c) (hp : p c = false) (hheader : c.header = 16) :
    beNat out (pos + 8) 8 = beNat data (pos + 8) 8 := by
  by_cases hcon : isContainer c.type = true
  · exact (beNat_congr (h.agreeOn_extended hc hcon hheader)).symm
  · have hkept := h.kept c (mem_boxes_readFuel_succ.mpr ⟨c, hc, .inl rfl⟩) hp (by simpa using hcon)
      hheader
    rwa [(boxAt_eq_ok hc).1] at hkept

/-- What changes after the first box. -/
theorem rest (h : LeafWrites isContainer p data out (fuel + 1) pos stop)
    (hc : boxAt data pos stop = .ok c) :
    LeafWrites isContainer p data out fuel (pos + c.size) stop := by
  obtain ⟨-, -, hsize, -, -, hheader⟩ := boxAt_eq_ok hc
  have hsub : ∀ b ∈ (readFuel isContainer data fuel (pos + c.size) stop).boxes,
      b ∈ (readFuel isContainer data (fuel + 1) pos stop).boxes := fun b hb =>
    mem_boxes_readFuel_succ.mpr ⟨c, hc, .inr (.inr hb)⟩
  refine ⟨fun i hlo hhi hne => ?_, fun b hb => h.destroyed b (hsub b hb),
    fun b hb => h.kept b (hsub b hb)⟩
  obtain ⟨b, hb, hleaf, hbi⟩ := h.change i (by omega) hhi hne
  rcases leaf_byte_cases hc hb hleaf hbi.1 hbi.2 with ⟨-, -, hlt⟩ | ⟨-, -, hlt, -⟩ | ⟨-, hb'⟩
  · omega
  · omega
  · exact ⟨b, hb', hleaf, hbi⟩

/-- What changes in the body of a first box that holds boxes. -/
theorem inner (h : LeafWrites isContainer p data out (fuel + 1) pos stop)
    (hc : boxAt data pos stop = .ok c) (hcon : isContainer c.type = true) :
    LeafWrites isContainer p data out fuel (pos + c.header) (pos + c.size) := by
  obtain ⟨-, -, -, hstop, -, -⟩ := boxAt_eq_ok hc
  have hsub : ∀ b ∈ (readFuel isContainer data fuel (pos + c.header) (pos + c.size)).boxes,
      b ∈ (readFuel isContainer data (fuel + 1) pos stop).boxes := fun b hb =>
    mem_boxes_readFuel_succ.mpr ⟨c, hc, .inr (.inl ⟨hcon, hb⟩)⟩
  refine ⟨fun i hlo hhi hne => ?_, fun b hb => h.destroyed b (hsub b hb),
    fun b hb => h.kept b (hsub b hb)⟩
  obtain ⟨b, hb, hleaf, hbi⟩ := h.change i (by omega) (by omega) hne
  rcases leaf_byte_cases hc hb hleaf hbi.1 hbi.2 with ⟨hnot, -⟩ | ⟨-, -, -, hb'⟩ | ⟨hge, -⟩
  · rw [hcon] at hnot
    cases hnot
  · exact ⟨b, hb', hleaf, hbi⟩
  · omega

end LeafWrites

/-- **Reading after writes.**  The same forest is read, cut at the boxes whose 64-bit size has
been destroyed. -/
theorem readFuel_eq_cut (h : LeafWrites isContainer p data out fuel pos stop) :
    readFuel isContainer out fuel pos stop = (readFuel isContainer data fuel pos stop).cut p := by
  induction fuel generalizing pos stop with
  | zero => rfl
  | succ fuel ih =>
    cases hc : boxAt data pos stop with
    | error e =>
      have hsame := boxAt_congr (h.agreeOn_of_error hc)
      rw [readFuel_of_error hc, readFuel_of_error (hsame.trans hc)]
      rfl
    | ok c =>
      have hfields := h.agreeOn_fields hc
      by_cases hp : p c = true
      · obtain ⟨hheader, hlt⟩ :=
          h.destroyed c (mem_boxes_readFuel_succ.mpr ⟨c, hc, .inl rfl⟩) hp
        rw [(boxAt_eq_ok hc).1] at hlt
        rw [readFuel_of_ok hc, Forest.cut, if_pos hp,
          readFuel_of_error (boxAt_of_destroyed hc hfields hheader hlt)]
      · have hbox := boxAt_of_header hc hfields (h.extended_eq hc (by simpa using hp))
        rw [readFuel_of_ok hc, readFuel_of_ok hbox, Forest.cut, if_neg hp, ih (h.rest hc)]
        by_cases hcon : isContainer c.type = true
        · rw [if_pos hcon, if_pos hcon, ih (h.inner hc hcon)]
        · rw [if_neg hcon, if_neg hcon]
          rfl

end Cut

end BoxForest
