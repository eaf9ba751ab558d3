/-
# What a sweep leaves alone (`gc.rs`)

A sweep runs six statements, each with its own condition, and fails at the `UPDATE` of the first
phase if the batch has more rows than SQLite takes placeholders.

`touchesOnlyDue` is the frame of either outcome: whatever the batch, the orders and the bound,
rows that are not due are as they were, and once nothing waits for the first phase another sweep
at the same time changes nothing.
-/
import Ephemera.GarbageCollector

namespace GarbageCollector

variable {W : Wire}

/-! ## The frame -/

/-- A post that a sweep at `now`, which leads to the database `db'`, has nothing to do with. -/
structure NotDue (now : Int64) (db' : NodeDb W) (row : PostRow) : Prop where
  notExpired : isExpired now row = false
  notPurgeable : isPurgeable now row = false
  epochLives : epochDestroyed db' row.epochNumber = false

/-- The post named by the hash is stored, and no sweep at `now` has to do with it. -/
def PostNotDue (now : Int64) (db db' : NodeDb W) (postHash : List UInt8) : Prop :=
  ∃ row, db.posts.get? postHash = some row ∧ NotDue now db' row

/-- Between the databases `db` and `db'`, only what was due at `now` has changed. -/
structure TouchesOnlyDue (now : Int64) (db db' : NodeDb W) : Prop where
  posts : ∀ key row, db.posts.get? key = some row → NotDue now db' row →
    db'.posts.get? key = some row
  messages : ∀ id row, db.metadata.messages.get? id = some row → now ≤ row.expiresAt →
    db'.metadata.messages.get? id = some row
  attachments : ∀ id a, db.mediaAttachments.get? id = some a → PostNotDue now db db' a.postHash →
    db'.mediaAttachments.get? id = some a
  chunks : ∀ hash chunk a, db.mediaChunks.get? hash = some chunk →
    db.mediaAttachments.get? chunk.mediaId = some a → PostNotDue now db db' a.postHash →
    db'.mediaChunks.get? hash = some chunk

/-- A post that has not expired is not in the batch. -/
theorem notMem_batch {config : GcConfig} {order : SweepOrder} {now : Int64} {db : NodeDb W}
    {key : List UInt8} {row : PostRow} (hrow : db.posts.get? key = some row)
    (hexp : isExpired now row = false) : key ∉ batch config order now db := by
  intro hmem
  rw [expired_of_mem_batch hmem hrow] at hexp
  cases hexp

theorem PostNotDue.notMem_batch {config : GcConfig} {order : SweepOrder} {now : Int64}
    {db db' : NodeDb W} {postHash : List UInt8} (h : PostNotDue now db db' postHash) :
    postHash ∉ batch config order now db := by
  obtain ⟨row, hrow, hdue⟩ := h
  exact GarbageCollector.notMem_batch hrow hdue.notExpired

/-- A completed sweep ends the epochs that its third phase finds expired. -/
theorem epochDestroyed_completeSweep (config : GcConfig) (order : SweepOrder) (now : Int64)
    (s : NodeStore W) (n : Int64) :
    epochDestroyed (completeSweep config order now s).db n = epochEnds now s.db n :=
  epochDestroyed_beforeOrphans config order now s n

/-- The first phase keeps the attachments of posts outside the batch, and their chunks. -/
theorem media_kept {config : GcConfig} {order : SweepOrder} {now : Int64} {s : NodeStore W}
    {id : String} {a : MediaAttachment} (ha : s.db.mediaAttachments.get? id = some a)
    (hpost : a.postHash ∉ batch config order now s.db) :
    (withoutMedia config order now s).db.mediaAttachments.get? id = some a ∧
      ∀ hash chunk, s.db.mediaChunks.get? hash = some chunk → chunk.mediaId = id →
        (withoutMedia config order now s).db.mediaChunks.get? hash = some chunk := by
  constructor
  · refine (get?_mediaAttachments_foldl (batch config order now s.db) _ id).trans ?_
    show (s.db.mediaAttachments.get? id).filter _ = some a
    rw [ha]
    simp [Option.filter, hpost]
  · rintro hash chunk hchunk rfl
    refine (get?_mediaChunks_foldl (batch config order now s.db) _ hash).trans ?_
    show (s.db.mediaChunks.get? hash).filter (fun c => !(s.db.mediaAttachments.get? c.mediaId).any
      (fun a => decide (a.postHash ∈ batch config order now s.db))) = some chunk
    rw [hchunk]
    simp [Option.filter, ha, hpost]

/-- The frame of a sweep that is completed. -/
theorem touchesOnlyDue_completeSweep (config : GcConfig) (order : SweepOrder) (now : Int64)
    (s : NodeStore W) : TouchesOnlyDue now s.db (completeSweep config order now s).db where
  posts key row hrow hdue := by
    have hends : epochEnds now s.db row.epochNumber = false := by
      rw [← epochDestroyed_completeSweep config order]
      exact hdue.epochLives
    have hmark : marked config order now s.db key row = row :=
      if_neg (notMem_batch hrow hdue.notExpired)
    rw [get?_posts_completeSweep, hrow, Option.map_some, hmark]
    simp [Option.filter, hdue.notPurgeable, hends]
  messages id row hrow hlive := by
    rw [get?_messages_completeSweep, hrow]
    simp [Option.filter, Int64.not_lt.mpr hlive]
  attachments id a ha hpost := (media_kept ha hpost.notMem_batch).1
  chunks hash chunk a hchunk ha hpost :=
    (media_kept ha hpost.notMem_batch).2 hash chunk hchunk rfl

/-- The frame of a sweep that fails at its `UPDATE`. -/
theorem touchesOnlyDue_withoutMedia (config : GcConfig) (order : SweepOrder) (now : Int64)
    (s : NodeStore W) : TouchesOnlyDue now s.db (withoutMedia config order now s).db where
  posts key row hrow _ := by
    rw [(sameButMedia_withoutMedia config order now s).posts]
    exact hrow
  messages id row hrow _ := by
    rw [(sameButMedia_withoutMedia config order now s).metadata]
    exact hrow
  attachments id a ha hpost := (media_kept ha hpost.notMem_batch).1
  chunks hash chunk a hchunk ha hpost :=
    (media_kept ha hpost.notMem_batch).2 hash chunk hchunk rfl

/-- **A sweep touches only what is due.**  Posts that have not expired, are no old tombstones and
belong to no destroyed epoch stay as they are with their attachments and chunks, and so do
messages that have not expired; and when no expired post is left, another sweep at the same time
changes nothing. -/
theorem touchesOnlyDue (config : GcConfig) (order : SweepOrder) (now : Int64) (s : NodeStore W) :
    TouchesOnlyDue now s.db (sweep config order now s).2.db ∧
      (expiredPosts now (sweep config order now s).2.db = [] → ∀ config' order',
        (sweep config' order' now (sweep config order now s).2).2
          = (sweep config order now s).2) :=
  ⟨sweep_cases (p := fun s' => TouchesOnlyDue now s.db s'.db) config order now s
      (touchesOnlyDue_completeSweep config order now s)
      (touchesOnlyDue_withoutMedia config order now s),
    fun hnone => (quiet_sweep hnone).sweep_eq_self⟩

end GarbageCollector
