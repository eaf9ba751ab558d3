/-
# Blobs that several rows name (`gc.rs`, `content_store.rs`, `services/media.rs`)

The content store keeps one copy of equal bytes, and nobody counts the rows that name it.
A sweep deletes the blobs of the rows it handles, so a live post loses its thumbnail when an
expired post has a picture with the same one.

`sharedKept_iff` says when this cannot happen: whatever the batch size and the order of rows,
a sweep at `now` keeps every blob that a live row names, exactly if no such blob is named by a
row that waits for the sweep.
-/
import Ephemera.NodeRun

namespace NodeStore

open GarbageCollector

variable {W : Wire} (blake3 : List UInt8 → List UInt8)

/-- `ContentStore::get` answers the blob. -/
def Readable (s : NodeStore W) (hexHash : String) : Prop :=
  ∃ data, s.content.get blake3 hexHash = .ok data

/-- The row under `key` names the blob, as its content or as the thumbnail of an
attachment. -/
def Names (s : NodeStore W) (key : List UInt8) (row : PostRow) (hexHash : String) : Prop :=
  row.blobHash = hexHash ∨ hexHash ∈ thumbnails s.db key

/-- The row has not expired, is no tombstone, and its epoch has not been destroyed. -/
def LiveAt (now : Int64) (s : NodeStore W) (row : PostRow) : Prop :=
  ¬ row.expiresAt < now ∧ row.isTombstone = 0 ∧ epochDestroyed s.db row.epochNumber = false

/-- A live row names the blob. -/
def NamedByLive (now : Int64) (s : NodeStore W) (hexHash : String) : Prop :=
  ∃ key row, s.db.posts.get? key = some row ∧ LiveAt now s row ∧ Names s key row hexHash

/-- A row that waits for a sweep at `now` names the blob: an expired post, or a post of an
epoch that has ended, unless it is purged before. -/
def NamedByDoomed (now : Int64) (s : NodeStore W) (hexHash : String) : Prop :=
  ∃ key row, s.db.posts.get? key = some row ∧
    (isExpired now row = true ∧ Names s key row hexHash ∨
      epochEnds now s.db row.epochNumber = true ∧ isPurgeable now row = false ∧
        row.blobHash = hexHash)

/-- In `s'` the blobs that live rows of `s` name can still be read. -/
def SharedKept (now : Int64) (s s' : NodeStore W) : Prop :=
  ∀ hexHash, Readable blake3 s hexHash → NamedByLive now s hexHash → Readable blake3 s' hexHash

variable {blake3}

/-! ## What a sweep deletes -/

/-- Every blob that a sweep deletes is named by a row that waits for it. -/
theorem namedByDoomed_of_mem_sweptBlobs {config : GcConfig} {order : SweepOrder} {now : Int64}
    {s : NodeStore W} {h : String} (hmem : h ∈ sweptBlobs config order now s.db) :
    NamedByDoomed now s h := by
  rw [sweptBlobs, expiredBlobs, List.mem_append, List.mem_append, List.mem_flatMap] at hmem
  rcases hmem with (hblob | ⟨k, hk, hthumb⟩) | horphan
  · obtain ⟨⟨k, row⟩, hentry, rfl⟩ := List.mem_map.mp hblob
    obtain ⟨hrow, hexp⟩ := get?_of_mem_expiredEntries hentry
    exact ⟨k, row, hrow, .inl ⟨hexp, .inl rfl⟩⟩
  · obtain ⟨⟨k', row⟩, hentry, rfl⟩ := List.mem_map.mp hk
    obtain ⟨hrow, hexp⟩ := get?_of_mem_expiredEntries hentry
    exact ⟨k', row, hrow, .inl ⟨hexp, .inr hthumb⟩⟩
  · obtain ⟨_, hentry, rfl⟩ := List.mem_map.mp horphan
    have hsel := (order.orphaned.perm _).mem_iff.mp (List.mem_of_mem_take hentry)
    obtain ⟨⟨k, row⟩, hlisted, rfl⟩ := List.mem_map.mp hsel
    rw [SqlTable.selectWhere, List.mem_filter, SqlTable.mem_rows_iff, Bool.and_eq_true,
      Bool.not_eq_true'] at hlisted
    obtain ⟨hrow, hpurge, hends⟩ := hlisted
    have hblob := (blobHash_marked config order now s.db k row).1
    refine ⟨k, row, hrow, ?_⟩
    by_cases hbatch : k ∈ batch config order now s.db
    · exact .inl ⟨expired_of_mem_batch hbatch hrow, .inl hblob.symm⟩
    · rw [marked, if_neg hbatch] at hpurge
      exact .inr ⟨hends, hpurge, hblob.symm⟩

/-- The first phase starts with the row. -/
def startsWithExpired [DecidableEq (List UInt8 × PostRow)] (r : List UInt8 × PostRow) :
    SweepOrder where
  expired := .first r
  orphaned := .asListed _

/-- The last phase starts with the row. -/
def startsWithOrphaned [DecidableEq (List UInt8 × PostRow)] (r : List UInt8 × PostRow) :
    SweepOrder where
  expired := .asListed _
  orphaned := .first r

/-- A sweep of one row that starts with an expired post deletes every blob the post names. -/
theorem mem_sweptBlobs_of_expired {now : Int64} {s : NodeStore W} {key : List UInt8}
    {row : PostRow} {h : String} [DecidableEq (List UInt8 × PostRow)]
    (hrow : s.db.posts.get? key = some row) (hexp : isExpired now row = true)
    (hnames : Names s key row h) :
    h ∈ sweptBlobs ⟨1⟩ (startsWithExpired (key, row)) now s.db := by
  have hsel : (key, row) ∈ s.db.posts.selectWhere (fun _ row => isExpired now row) :=
    List.mem_filter.mpr ⟨SqlTable.mem_rows_iff.mpr hrow, hexp⟩
  have hentries : expiredEntries ⟨1⟩ (startsWithExpired (key, row)) now s.db = [(key, row)] :=
    VisitOrder.take_one_visit_first hsel
  rw [sweptBlobs, expiredBlobs, batch, hentries]
  rcases hnames with hblob | hthumb
  · simp [hblob]
  · simp [hthumb]

/-- One whose last phase starts with a post of an epoch that ends deletes the blob of the
post, if the first two phases leave the row. -/
theorem mem_sweptBlobs_of_epochEnds {now : Int64} {s : NodeStore W} {key : List UInt8}
    {row : PostRow} [DecidableEq (List UInt8 × PostRow)]
    (hrow : s.db.posts.get? key = some row) (hexp : isExpired now row = false)
    (hends : epochEnds now s.db row.epochNumber = true) (hpurge : isPurgeable now row = false) :
    row.blobHash ∈ sweptBlobs ⟨1⟩ (startsWithOrphaned (key, row)) now s.db := by
  -- the row is still there when the last phase starts
  have hmark : marked ⟨1⟩ (startsWithOrphaned (key, row)) now s.db key row = row := by
    refine if_neg (fun hmem => ?_)
    rw [expired_of_mem_batch hmem hrow] at hexp
    cases hexp
  have hsel : (key, row) ∈ shreddedPosts ⟨1⟩ (startsWithOrphaned (key, row)) now s.db := by
    refine List.mem_map.mpr ⟨(key, row), List.mem_filter.mpr ⟨SqlTable.mem_rows_iff.mpr hrow, ?_⟩,
      by rw [hmark]⟩
    show (!isPurgeable now (marked _ _ now s.db key row) && epochEnds now s.db row.epochNumber) = _
    rw [hmark, hpurge, hends]
    rfl
  have hentries : shreddedBatch ⟨1⟩ (startsWithOrphaned (key, row)) now s.db = [(key, row)] :=
    VisitOrder.take_one_visit_first hsel
  rw [sweptBlobs, hentries]
  simp

/-- Every blob that a row names which waits for a sweep is deleted by some sweep of one row. -/
theorem exists_mem_sweptBlobs {now : Int64} {s : NodeStore W} {h : String}
    (hdoomed : NamedByDoomed now s h) :
    ∃ order : SweepOrder, order.variableLimit = 32766 ∧ h ∈ sweptBlobs ⟨1⟩ order now s.db := by
  classical
  obtain ⟨key, row, hrow, ⟨hexp, hnames⟩ | ⟨hends, hpurge, rfl⟩⟩ := hdoomed
  · exact ⟨_, rfl, mem_sweptBlobs_of_expired hrow hexp hnames⟩
  · by_cases hexp : isExpired now row = true
    · exact ⟨_, rfl, mem_sweptBlobs_of_expired hrow hexp (.inl rfl)⟩
    · exact ⟨_, rfl, mem_sweptBlobs_of_epochEnds hrow (by simpa using hexp) hends hpurge⟩

/-- A blob can be read after a completed sweep if it could before and the sweep does not delete
it. -/
theorem readable_completeSweep_iff (config : GcConfig) (order : SweepOrder) (now : Int64)
    (s : NodeStore W) (h : String) :
    Readable blake3 (completeSweep config order now s) h ↔
      Readable blake3 s h ∧ h ∉ sweptBlobs config order now s.db := by
  unfold Readable ContentStore.get
  rw [lookup_completeSweep]
  by_cases hmem : h ∈ sweptBlobs config order now s.db
  · simp [hmem]
  · simp [hmem]

/-- A sweep, completed or not, leaves every other blob readable. -/
theorem readable_sweep_of_notMem {config : GcConfig} {order : SweepOrder} {now : Int64}
    {s : NodeStore W} {h : String} (hread : Readable blake3 s h)
    (hmem : h ∉ sweptBlobs config order now s.db) :
    Readable blake3 (sweep config order now s).2 h := by
  unfold Readable ContentStore.get at hread ⊢
  rw [lookup_sweep_of_notMem hmem]
  exact hread

/-- **When shared blobs are safe.**  Whatever its batch size and the orders of rows, a sweep
at `now` keeps the blobs that live rows name, exactly if no blob that can be read is named
both by a live row and by one that waits for the sweep. -/
theorem sharedKept_iff (now : Int64) (s : NodeStore W) :
    (∀ config order, SharedKept blake3 now s (sweep config order now s).2) ↔
      ∀ hexHash, Readable blake3 s hexHash → NamedByLive now s hexHash →
        ¬ NamedByDoomed now s hexHash := by
  constructor
  · intro hkept hexHash hread hlive hdoomed
    obtain ⟨order, hlimit, hmem⟩ := exists_mem_sweptBlobs hdoomed
    have hfits : UpdateFits ⟨1⟩ order now s.db :=
      updateFits_of_lt (by rw [hlimit]; decide) now s.db
    have hafter := hkept ⟨1⟩ order hexHash hread hlive
    rw [sweep_of_fits hfits, readable_completeSweep_iff] at hafter
    exact hafter.2 hmem
  · intro hsafe config order hexHash hread hlive
    refine readable_sweep_of_notMem hread (fun hmem => ?_)
    exact hsafe hexHash hread hlive (namedByDoomed_of_mem_sweptBlobs hmem)

/-! ## Two posts with one thumbnail -/

open TinyNode

/-- `alice` posts a second picture, with the same first byte, for a day. -/
def twoPictures : NodeStore Wire.symbolic :=
  step primitives afterHi
    (.create (callBy alice noon) "yo" [⟨[5, 7], "dog.png"⟩] (some 86400) none)

/-- The key of that post, and its row. -/
def yoKey : List UInt8 := (ContentId.fromDigest (digest (alice ++ asciiBytes "yo"))).toWireBytes

def yoRow : PostRow := (twoPictures.db.posts.get? yoKey).get (by decide +kernel)

/-- **A live post loses its thumbnail.**  Both pictures have the same thumbnail; when the first
post expires, the sweep deletes it, and the second post lives on without. -/
theorem thumbnail_lost :
    ¬ ∀ (s : NodeStore Wire.symbolic) (now : Int64), Reachable primitives s →
      ∀ config order, SharedKept primitives.blake3 now s (sweep config order now s).2 := by
  intro h
  have hreach : Reachable primitives twoPictures :=
    ⟨[.create (callBy alice noon) "hi" [⟨[5, 6], "cat.png"⟩] (some 3600) none,
      .create (callBy alice noon) "yo" [⟨[5, 7], "dog.png"⟩] (some 86400) none], rfl⟩
  have hread : Readable primitives.blake3 twoPictures (Hex.encode (digest [5])) :=
    ⟨[5], by decide +kernel⟩
  have hlive : NamedByLive 1700003601 twoPictures (Hex.encode (digest [5])) :=
    ⟨yoKey, yoRow, (Option.some_get _).symm, by unfold LiveAt; decide +kernel,
      .inr (by decide +kernel)⟩
  obtain ⟨data, hdata⟩ := h twoPictures 1700003601 hreach {} .asListed _ hread hlive
  have hgone : ((sweep {} .asListed 1700003601 twoPictures).2.content.get primitives.blake3
      (Hex.encode (digest [5]))).toOption = none := by decide +kernel
  rw [hdata] at hgone
  cases hgone

end NodeStore
