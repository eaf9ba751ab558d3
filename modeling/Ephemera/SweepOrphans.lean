/-
# What the rows of removed posts leave behind (`gc.rs`)

Blobs and media are found through the row of their post, so once the row is deleted nobody finds
them again.  The first phase deletes them for at most `batch_size` expired posts.  The second
phase deletes the rows of old tombstones, of which those that a user deleted still have all their
content; the last phase deletes the blobs of at most `batch_size` posts of destroyed epochs, but
the rows of all of them, and the media of none.  A sweep that fails at its `UPDATE` removes no
row.

`orphansNothing_iff` is the exact condition on a store under which a sweep orphans nothing, and
`orphansNothing_iff_meets` the one on a run.
-/
import Ephemera.SharedContent
import Ephemera.TombstoneRetention

namespace NodeStore

open GuardedRun GarbageCollector

variable {W : Wire}

/-! ## Orphans -/

/-- A row of `posts` names the blob. -/
def NamedByRow (s : NodeStore W) (hexHash : String) : Prop :=
  ∃ key row, s.db.posts.get? key = some row ∧ Names s key row hexHash

/-- The blob is gone from `s`, or a row there names it. -/
def GoneOrShared (s : NodeStore W) (hexHash : String) : Prop :=
  s.content.blobs.lookup hexHash = none ∨ NamedByRow s hexHash

/-- In `s'` nothing is left of the post that was stored in `s`. -/
structure NothingLeft (s s' : NodeStore W) (key : List UInt8) (row : PostRow) : Prop where
  blob : GoneOrShared s' row.blobHash
  thumbnails : ∀ hexHash ∈ thumbnails s.db key, GoneOrShared s' hexHash
  attachments : ∀ id a, s'.db.mediaAttachments.get? id = some a → a.postHash ≠ key
  chunks : ∀ hash chunk a, s'.db.mediaChunks.get? hash = some chunk →
    s.db.mediaAttachments.get? chunk.mediaId = some a → a.postHash ≠ key

/-- Nothing is left of the posts whose rows are removed. -/
def OrphansNothing (s s' : NodeStore W) : Prop :=
  ∀ key row, s.db.posts.get? key = some row → s'.db.posts.get? key = none →
    NothingLeft s s' key row

/-! ## The condition -/

/-- A completed sweep removes the row: it is a tombstone past its time, once the batch is marked,
or its epoch ends. -/
def Removes (config : GcConfig) (order : SweepOrder) (now : Int64) (s : NodeStore W)
    (key : List UInt8) (row : PostRow) : Prop :=
  isPurgeable now (marked config order now s.db key row) = true ∨
    epochEnds now s.db row.epochNumber = true

/-- A row that a completed sweep leaves names the blob, as its content or as a thumbnail that it
leaves. -/
def NamedByRemaining (config : GcConfig) (order : SweepOrder) (now : Int64) (s : NodeStore W)
    (hexHash : String) : Prop :=
  ∃ key row, s.db.posts.get? key = some row ∧ ¬ Removes config order now s key row ∧
    (row.blobHash = hexHash ∨ hexHash ∈ thumbnails s.db key ∧ key ∉ batch config order now s.db)

/-- The post has attachments. -/
def HasMedia (db : NodeDb W) (key : List UInt8) : Prop :=
  ∃ id a, db.mediaAttachments.get? id = some a ∧ a.postHash = key

/-- **The condition on a sweep** that is completed.  A post whose row it removes has no
attachments, unless it is one of the expired posts of the batch; and its blob is not stored, or
goes with the blobs of the two batches, or is named by a row that remains. -/
def HandlesRemoved (config : GcConfig) (order : SweepOrder) (now : Int64) (s : NodeStore W) :
    Prop :=
  ∀ key row, s.db.posts.get? key = some row → Removes config order now s key row →
    (HasMedia s.db key → key ∈ batch config order now s.db) ∧
      (s.content.exists? row.blobHash = true →
        row.blobHash ∈ sweptBlobs config order now s.db ∨
          NamedByRemaining config order now s row.blobHash)

/-! ## What a sweep leaves -/

/-- A completed sweep removes the rows it should. -/
theorem get?_posts_completeSweep_eq_none_iff {config : GcConfig} {order : SweepOrder} {now : Int64}
    {s : NodeStore W} {key : List UInt8} {row : PostRow} (hrow : s.db.posts.get? key = some row) :
    (completeSweep config order now s).db.posts.get? key = none ↔
      Removes config order now s key row := by
  have hepoch := (blobHash_marked config order now s.db key row).2
  rw [get?_posts_completeSweep, hrow, Option.map_some, Removes, ← hepoch]
  cases hpurge : isPurgeable now (marked config order now s.db key row) <;>
    cases hends : epochEnds now s.db (marked config order now s.db key row).epochNumber <;>
    simp [Option.filter, hpurge, hends]

/-- A completed sweep leaves the thumbnails of posts outside the batch. -/
theorem mem_thumbnails_completeSweep {config : GcConfig} {order : SweepOrder} {now : Int64}
    {s : NodeStore W} {key : List UInt8} {hexHash : String} :
    hexHash ∈ thumbnails (completeSweep config order now s).db key ↔
      hexHash ∈ thumbnails s.db key ∧ key ∉ batch config order now s.db := by
  simp only [mem_thumbnails, get?_mediaAttachments_completeSweep, Option.filter_eq_some_iff,
    decide_eq_true_eq]
  constructor
  · rintro ⟨id, a, ⟨ha, hnot⟩, rfl, hthumb⟩
    exact ⟨⟨id, a, ha, rfl, hthumb⟩, hnot⟩
  · rintro ⟨⟨id, a, ha, rfl, hthumb⟩, hnot⟩
    exact ⟨id, a, ⟨ha, hnot⟩, rfl, hthumb⟩

/-- The blobs that rows name after a sweep. -/
theorem namedByRow_completeSweep_iff {config : GcConfig} {order : SweepOrder} {now : Int64}
    {s : NodeStore W} {hexHash : String} :
    NamedByRow (completeSweep config order now s) hexHash ↔
      NamedByRemaining config order now s hexHash := by
  constructor
  · rintro ⟨key, row, hrow, hnames⟩
    obtain ⟨old, hold, rfl⟩ := get?_of_get?_posts_completeSweep hrow
    refine ⟨key, old, hold, ?_, ?_⟩
    · rw [← get?_posts_completeSweep_eq_none_iff hold, hrow]
      exact Option.some_ne_none _
    · rw [Names, mem_thumbnails_completeSweep,
        (blobHash_marked config order now s.db key old).1] at hnames
      exact hnames
  · rintro ⟨key, old, hold, hstays, hnames⟩
    rw [← get?_posts_completeSweep_eq_none_iff hold] at hstays
    obtain ⟨row, hrow⟩ := Option.ne_none_iff_exists'.mp hstays
    obtain ⟨old', hold', rfl⟩ := get?_of_get?_posts_completeSweep hrow
    rw [hold, Option.some.injEq] at hold'
    subst hold'
    refine ⟨key, _, hrow, ?_⟩
    rw [Names, mem_thumbnails_completeSweep, (blobHash_marked config order now s.db key old).1]
    exact hnames

/-- A blob is gone or shared after a sweep unless it was stored and nobody took care of it. -/
theorem goneOrShared_completeSweep_iff {config : GcConfig} {order : SweepOrder} {now : Int64}
    {s : NodeStore W} {hexHash : String} :
    GoneOrShared (completeSweep config order now s) hexHash ↔
      (s.content.exists? hexHash = true →
        hexHash ∈ sweptBlobs config order now s.db ∨
          NamedByRemaining config order now s hexHash) := by
  rw [GoneOrShared, namedByRow_completeSweep_iff, lookup_completeSweep, ContentStore.exists?]
  by_cases hmem : hexHash ∈ sweptBlobs config order now s.db
  · simp [hmem]
  · rw [if_neg hmem]
    cases hlook : s.content.blobs.lookup hexHash <;> simp [hmem]

/-- Attachments of a post are gone after a sweep exactly if it has none or is in the batch. -/
theorem attachments_gone_iff {config : GcConfig} {order : SweepOrder} {now : Int64}
    {s : NodeStore W} {key : List UInt8} :
    (∀ id a, (completeSweep config order now s).db.mediaAttachments.get? id = some a →
        a.postHash ≠ key) ↔
      (HasMedia s.db key → key ∈ batch config order now s.db) := by
  simp only [get?_mediaAttachments_completeSweep, Option.filter_eq_some_iff, decide_eq_true_eq]
  constructor
  · rintro hgone ⟨id, a, ha, rfl⟩
    by_contra hnot
    exact hgone id a ⟨ha, hnot⟩ rfl
  · rintro hbatch id a ⟨ha, hnot⟩ rfl
    exact hnot (hbatch ⟨id, a, ha, rfl⟩)

/-- With the attachments of a post its chunks and thumbnails are gone. -/
theorem media_gone {config : GcConfig} {order : SweepOrder} {now : Int64} {s : NodeStore W}
    {key : List UInt8} (hbatch : HasMedia s.db key → key ∈ batch config order now s.db) :
    (∀ hexHash ∈ thumbnails s.db key, GoneOrShared (completeSweep config order now s) hexHash) ∧
      ∀ hash chunk a, (completeSweep config order now s).db.mediaChunks.get? hash = some chunk →
        s.db.mediaAttachments.get? chunk.mediaId = some a → a.postHash ≠ key := by
  constructor
  · intro hexHash hthumb
    obtain ⟨id, a, ha, hpost, -⟩ := mem_thumbnails.mp hthumb
    refine goneOrShared_completeSweep_iff.mpr (fun _ => .inl ?_)
    rw [sweptBlobs, expiredBlobs, List.mem_append, List.mem_append, List.mem_flatMap]
    exact .inl (.inr ⟨key, hbatch ⟨id, a, ha, hpost⟩, hthumb⟩)
  · rintro hash chunk a hchunk ha rfl
    rw [get?_mediaChunks_completeSweep, Option.filter_eq_some_iff] at hchunk
    have hin := hbatch ⟨chunk.mediaId, a, ha, rfl⟩
    simpa [ha, hin] using hchunk.2

/-- When a completed sweep orphans nothing. -/
theorem orphansNothing_completeSweep_iff {config : GcConfig} {order : SweepOrder} {now : Int64}
    {s : NodeStore W} :
    OrphansNothing s (completeSweep config order now s) ↔ HandlesRemoved config order now s := by
  constructor
  · intro hnothing key row hrow hremoves
    have hleft := hnothing key row hrow
      ((get?_posts_completeSweep_eq_none_iff hrow).mpr hremoves)
    exact ⟨attachments_gone_iff.mp hleft.attachments,
      goneOrShared_completeSweep_iff.mp hleft.blob⟩
  · intro hhandles key row hrow hnone
    obtain ⟨hbatch, hblob⟩ := hhandles key row hrow
      ((get?_posts_completeSweep_eq_none_iff hrow).mp hnone)
    obtain ⟨hthumbs, hchunks⟩ := media_gone hbatch
    exact ⟨goneOrShared_completeSweep_iff.mpr hblob, hthumbs, attachments_gone_iff.mpr hbatch,
      hchunks⟩

/-- A sweep that fails removes no row. -/
theorem orphansNothing_withoutMedia (config : GcConfig) (order : SweepOrder) (now : Int64)
    (s : NodeStore W) : OrphansNothing s (withoutMedia config order now s) := by
  intro key row hrow hnone
  rw [(sameButMedia_withoutMedia config order now s).posts, hrow] at hnone
  cases hnone

/-- **When a sweep orphans nothing.**  It fails at its `UPDATE`, or it handles what it removes. -/
theorem orphansNothing_iff (config : GcConfig) (order : SweepOrder) (now : Int64)
    (s : NodeStore W) :
    OrphansNothing s (sweep config order now s).2 ↔
      (UpdateFits config order now s.db → HandlesRemoved config order now s) := by
  by_cases hfits : UpdateFits config order now s.db
  · rw [sweep_of_fits hfits, orphansNothing_completeSweep_iff]
    exact ⟨fun hhandles _ => hhandles, fun hhandles => hhandles hfits⟩
  · rw [sweep_of_not_fits hfits]
    exact iff_of_true (orphansNothing_withoutMedia config order now s)
      (fun hfits' => absurd hfits' hfits)

/-! ## Runs -/

/-- The event, if it is a sweep, orphans nothing. -/
def SweepsClean (P : NodePrimitives) (s : NodeStore W) : StoreEvent → Prop
  | .sweep config order now => OrphansNothing s (step P s (.sweep config order now))
  | _ => True

/-- The condition on an event. -/
def HandledBySweep (s : NodeStore W) : StoreEvent → Prop
  | .sweep config order now => UpdateFits config order now.secs.toInt64 s.db →
      HandlesRemoved config order now.secs.toInt64 s
  | _ => True

/-- **Garbage collection orphans nothing**, over a whole run and whatever the batch sizes and the
orders of rows, exactly if each sweep that is completed finds the posts whose rows it removes
without media and without a blob of their own, or in its batches. -/
theorem orphansNothing_iff_meets (P : NodePrimitives) (s : NodeStore W)
    (events : List StoreEvent) :
    (∀ l₁ e l₂, events = l₁ ++ e :: l₂ → SweepsClean P (run (step P) s l₁) e) ↔
      Meets (step P) HandledBySweep s events := by
  rw [meets_iff_forall_split]
  have hevent : ∀ (s : NodeStore W) e, SweepsClean P s e ↔ HandledBySweep s e := by
    intro s e
    cases e with
    | sweep config order now => exact orphansNothing_iff config order now.secs.toInt64 s
    | _ => exact Iff.rfl
  simp only [hevent]

/-! ## A deleted post with a picture -/

open TinyNode

/-- **The content of a deleted post is never collected.**  `alice` deletes her post and its
picture; three TTLs later a sweep removes the row, and the blob, the attachment, the chunk and the
thumbnail stay. -/
theorem deleted_post_orphaned :
    ¬ ∀ (s : NodeStore Wire.symbolic) (config : GcConfig) (order : SweepOrder) (now : Int64),
      Reachable primitives s → OrphansNothing s (sweep config order now s).2 := by
  intro h
  have hreach : Reachable primitives (step primitives afterHi (deletesHi noon)) :=
    ⟨[.create (callBy alice noon) "hi" [⟨[5, 6], "cat.png"⟩] (some 3600) none, deletesHi noon],
      rfl⟩
  have hrow := get?_deletesHi get?_hiRow noon
  have hgone : ((sweep {} .asListed threeHoursLater.secs.toInt64
      (step primitives afterHi (deletesHi noon))).2.db.posts.get? hiKey).isNone = true := by
    decide +kernel
  have hleft := h _ {} .asListed threeHoursLater.secs.toInt64 hreach hiKey _ hrow
    (Option.isNone_iff_eq_none.mp hgone)
  have hstays : ((sweep {} .asListed threeHoursLater.secs.toInt64
      (step primitives afterHi (deletesHi noon))).2.db.mediaAttachments.rows.map
        (fun r => r.2.postHash)) = [hiKey] := by decide +kernel
  have hmem : hiKey ∈ [hiKey] := List.mem_singleton_self _
  rw [← hstays, List.mem_map] at hmem
  obtain ⟨⟨id, a⟩, ha, hpost⟩ := hmem
  exact hleft.attachments id a (SqlTable.mem_rows_iff.mp ha) hpost

end NodeStore
