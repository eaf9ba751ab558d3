/-
# What a deletion leaves behind (`services/post.rs`, `gc.rs`, `gossip_ingest.rs`)

`PostService::delete` marks the row of a post and does nothing else.  The first phase of the
garbage collector, which deletes blobs, thumbnails and attachments, selects posts that are
no tombstones, and the second, which purges tombstones, deletes the row alone.  So nobody
ever comes back for the media of a deleted post (`revived_of_erased`): they go only if
the post is stored anew by a late delivery and then expires.  Run enough sweeps and the store
comes to rest with them still in it (`deletion_never_erases`).

The moderation ingest, which handles the same message on other nodes, does delete the blob.
-/
import Ephemera.NodeReads
import Ephemera.NodeRun

namespace NodeStore

variable {W : Wire}

/-! ## Erased for good -/

/-- Another post that is no tombstone names the blob. -/
def NamedByAnother (s : NodeStore W) (key : List UInt8) (hexHash : String) : Prop :=
  ∃ key' row, key' ≠ key ∧ s.livePost key' = some row ∧
    (row.blobHash = hexHash ∨ hexHash ∈ GarbageCollector.thumbnails s.db key')

/-- In `s` nothing is left of the post that was stored in `s₀` under `key` as `row`. -/
structure Erased (s₀ s : NodeStore W) (key : List UInt8) (row : PostRow) : Prop where
  blob : s.content.exists? row.blobHash = true → s.NamedByAnother key row.blobHash
  thumbnails : ∀ h ∈ GarbageCollector.thumbnails s₀.db key,
    s.content.exists? h = true → s.NamedByAnother key h
  attachments : ∀ id a, s.db.mediaAttachments.get? id = some a → a.postHash ≠ key
  chunks : ∀ hash chunk, s.db.mediaChunks.get? hash = some chunk →
    ∀ a, s₀.db.mediaAttachments.get? chunk.mediaId = some a → a.postHash ≠ key
  unseen : ∀ now, ¬ s.db.ShowsPost now key

/-- A run of sweeps and deliveries of the payload, from one time to a later one. -/
inductive LaterRun (payload : List UInt8) :
    ClockReading → List StoreEvent → ClockReading → Prop
  | nil (t : ClockReading) : LaterRun payload t [] t
  | sweep {t t' now : ClockReading} {events : List StoreEvent} (config : GcConfig)
      (order : SweepOrder) (le : t.secs ≤ now.secs) (rest : LaterRun payload now events t') :
      LaterRun payload t (.sweep config order now :: events) t'
  | redeliver {t t' now : ClockReading} {events : List StoreEvent} (abuse : Except String Unit)
      (le : t.secs ≤ now.secs) (rest : LaterRun payload now events t') :
      LaterRun payload t (.gossip now abuse payload :: events) t'

/-- No sweep from `t` on changes the store. -/
def AtRest (t : ClockReading) (s : NodeStore W) : Prop :=
  ∀ config order (now : ClockReading), t.secs ≤ now.secs →
    (GarbageCollector.sweep config order now.secs.toInt64 s).2 = s

/-- After every later run that comes to rest, the post is erased. -/
def ErasedForGood (P : NodePrimitives) (s₀ s : NodeStore W) (t : ClockReading)
    (key : List UInt8) (row : PostRow) (payload : List UInt8) : Prop :=
  ∀ events t', LaterRun payload t events t' → AtRest t' (GuardedRun.run (step P) s events) →
    Erased s₀ (GuardedRun.run (step P) s events) key row

/-! ## What stays -/

/-- The post is not live, and an attachment of it is stored. -/
structure Leftover (s : NodeStore W) (key : List UInt8) : Prop where
  notLive : s.livePost key = none
  attached : ∃ id a, s.db.mediaAttachments.get? id = some a ∧ a.postHash = key

/-- The event does not store the post anew. -/
def DoesNotRevive (P : NodePrimitives) (key : List UInt8) (s : NodeStore W) (e : StoreEvent) :
    Prop :=
  (step P s e).livePost key = none

theorem Leftover.not_erased {s₀ s : NodeStore W} {key : List UInt8} {row : PostRow}
    (h : Leftover s key) : ¬ Erased s₀ s key row := by
  obtain ⟨id, a, hget, hpost⟩ := h.attached
  exact fun herased => herased.attachments id a hget hpost

/-- A post that is not live is not in the batch of a sweep. -/
theorem notMem_batch_of_livePost {s : NodeStore W} {key : List UInt8}
    (h : s.livePost key = none) (config : GcConfig) (order : SweepOrder) (now : Int64) :
    key ∉ GarbageCollector.batch config order now s.db := by
  intro hmem
  obtain ⟨⟨k, row⟩, hentry, rfl⟩ := List.mem_map.mp hmem
  obtain ⟨hrow, hexp⟩ := GarbageCollector.get?_of_mem_expiredEntries hentry
  have hlive : s.livePost k = some row :=
    livePost_eq_some_iff.mpr ⟨hrow, (GarbageCollector.isExpired_iff.mp hexp).2⟩
  rw [h] at hlive
  cases hlive

/-- A sweep leaves what is left over. -/
theorem Leftover.sweep {s : NodeStore W} {key : List UInt8} (h : Leftover s key)
    (config : GcConfig) (order : SweepOrder) (now : Int64) :
    Leftover (GarbageCollector.sweep config order now s).2 key := by
  have hbatch := notMem_batch_of_livePost h.notLive config order now
  constructor
  · cases hlive : (GarbageCollector.sweep config order now s).2.livePost key with
    | none => rfl
    | some row =>
      obtain ⟨hrow, hzero⟩ := livePost_eq_some_iff.mp hlive
      obtain ⟨old, hold, hmarked⟩ := GarbageCollector.get?_of_get?_posts_sweep hrow
      rw [GarbageCollector.marked, if_neg hbatch, or_self] at hmarked
      have hbefore : s.livePost key = some old :=
        livePost_eq_some_iff.mpr ⟨hold, hmarked ▸ hzero⟩
      rw [h.notLive] at hbefore
      cases hbefore
  · obtain ⟨id, a, hget, rfl⟩ := h.attached
    refine ⟨id, a, ?_, rfl⟩
    rw [GarbageCollector.get?_mediaAttachments_sweep, hget]
    simp [Option.filter, hbatch]

/-- So does a delivery that does not store the post anew. -/
theorem Leftover.gossip {P : NodePrimitives} {s : NodeStore W} {key : List UInt8}
    (h : Leftover s key) {now : ClockReading} {abuse : Except String Unit} {payload : List UInt8}
    (hok : (s.gossipIngest P now abuse payload).livePost key = none) :
    Leftover (s.gossipIngest P now abuse payload) key := by
  refine ⟨hok, ?_⟩
  rcases gossipIngest_cases P now abuse payload s with heq | ⟨post, -, -, heq⟩
  · rw [heq]
    exact h.attached
  · rw [heq]
    exact h.attached

/-- A deletion that succeeds leaves the media of the post. -/
theorem leftover_delete {s s' : NodeStore W} {now : ClockReading} {hashHex id : String}
    {key : List UInt8} {a : MediaAttachment}
    (hdel : StateExcept.exec (PostService.delete now hashHex) s = (.ok (), s'))
    (hkey : postKey hashHex = .ok key) (hmedia : s.db.mediaAttachments.get? id = some a)
    (hpost : a.postHash = key) : Leftover s' key := by
  have hs' : (StateExcept.exec (PostService.delete now hashHex) s).2 = s' := by rw [hdel]
  have hkeeps : StateExcept.Keeps (fun s : NodeStore W => s.db.mediaAttachments)
      (PostService.delete now hashHex) := keeps_delete (fun _ _ => rfl) now hashHex
  constructor
  · rw [livePost, ← hs', get?_posts_delete, hkey]
    cases s.db.posts.get? key <;> simp [Option.filter, PostRow.tombstoned]
  · have hmedia' : s'.db.mediaAttachments = s.db.mediaAttachments := by
      rw [← hs']
      exact hkeeps s
    exact ⟨id, a, by rw [hmedia', hmedia], hpost⟩

/-- A later run leaves what is left over, unless some event in it stores the post anew. -/
theorem Leftover.run {P : NodePrimitives} {s : NodeStore W} {key payload : List UInt8}
    {t t' : ClockReading} {events : List StoreEvent} (h : Leftover s key)
    (hrun : LaterRun payload t events t')
    (hok : GuardedRun.Meets (step P) (DoesNotRevive P key) s events) :
    Leftover (GuardedRun.run (step P) s events) key := by
  induction hrun generalizing s with
  | nil t => exact h
  | sweep config order le rest ih => exact ih (h.sweep config order _) hok.2
  | redeliver abuse le rest ih => exact ih (h.gossip hok.1) hok.2

/-- **Only a resurrection leads to erasure.**  If a deleted post with media is erased after a
later run, then a delivery in that run stored it anew. -/
theorem revived_of_erased {P : NodePrimitives} {s s' : NodeStore W} {now t' : ClockReading}
    {hashHex id : String} {key payload : List UInt8} {a : MediaAttachment} {row : PostRow}
    {events : List StoreEvent}
    (hdel : StateExcept.exec (PostService.delete now hashHex) s = (.ok (), s'))
    (hkey : postKey hashHex = .ok key) (hmedia : s.db.mediaAttachments.get? id = some a)
    (hpost : a.postHash = key) (hrun : LaterRun payload now events t')
    (h : Erased s (GuardedRun.run (step P) s' events) key row) :
    ∃ l₁ e l₂, events = l₁ ++ e :: l₂ ∧
      (step P (GuardedRun.run (step P) s' l₁) e).livePost key ≠ none := by
  by_contra hnone
  push Not at hnone
  have hok : GuardedRun.Meets (step P) (DoesNotRevive P key) s' events :=
    GuardedRun.meets_iff_forall_split.mpr hnone
  exact ((leftover_delete hdel hkey hmedia hpost).run hrun hok).not_erased h

/-! ## Coming to rest -/

/-- The last time the clock can show. -/
def lastClock : ClockReading := ⟨9223372036854775807, by decide⟩

/-- Sweeps at one time are a run of the node. -/
theorem run_sweeps (P : NodePrimitives) (config : GcConfig) (now : ClockReading)
    (s : NodeStore W) (orders : List SweepOrder) :
    GuardedRun.run (step P) s (orders.map (fun order => .sweep config order now))
      = GarbageCollector.sweeps config now.secs.toInt64 s orders := by
  rw [GuardedRun.run, List.foldl_map]
  rfl

theorem laterRun_sweeps (payload : List UInt8) (config : GcConfig) {t now : ClockReading}
    (h : t.secs ≤ now.secs) (orders : List SweepOrder) (order : SweepOrder) :
    LaterRun payload t ((orders ++ [order]).map (fun order => .sweep config order now)) now := by
  induction orders generalizing t with
  | nil => exact .sweep config order h (.nil now)
  | cons first orders ih => exact .sweep config first h (ih UInt64.le_rfl)

/-- A store that is quiet at the last time is at rest. -/
theorem atRest_lastClock {s : NodeStore W}
    (h : GarbageCollector.Quiet lastClock.secs.toInt64 s) : AtRest lastClock s := by
  intro config order now hle
  have hnow : now.secs = lastClock.secs := by
    apply UInt64.toNat_inj.mp
    have hlt := now.secs_lt
    have hlast : lastClock.secs.toNat = 9223372036854775807 := rfl
    rw [UInt64.le_iff_toNat_le, hlast] at hle
    omega
  rw [hnow]
  exact h.sweep_eq_self config order

/-- Every store comes to rest by sweeps alone. -/
theorem exists_atRest (P : NodePrimitives) (s : NodeStore W) (t : ClockReading)
    (payload : List UInt8) :
    ∃ orders : List SweepOrder,
      LaterRun payload t (orders.map (fun order => .sweep {} order lastClock)) lastClock ∧
      AtRest lastClock (GuardedRun.run (step P) s
        (orders.map (fun order => .sweep {} order lastClock))) := by
  have hlast : t.secs ≤ lastClock.secs := by
    have hlt := t.secs_lt
    have hnat : lastClock.secs.toNat = 9223372036854775807 := rfl
    rw [UInt64.le_iff_toNat_le, hnat]
    omega
  refine ⟨List.replicate (GarbageCollector.expiredPosts lastClock.secs.toInt64 s.db).length
    .asListed ++ [.asListed], laterRun_sweeps payload {} hlast _ _, ?_⟩
  rw [run_sweeps]
  have hbatch : ({} : GcConfig).batchSize.toNat = 1000 := rfl
  refine atRest_lastClock (GarbageCollector.quiet_sweeps .asListed ?_ ?_)
  · -- a thousand rows are within the limit
    intro order horder
    rw [List.eq_of_mem_replicate horder]
    exact GarbageCollector.updateFits_of_lt (by rw [hbatch]; decide) _ _
  · rw [List.length_replicate, hbatch]
    omega

/-- A sweep does not store a post anew. -/
theorem meets_doesNotRevive_sweeps {P : NodePrimitives} {s : NodeStore W} {key : List UInt8}
    (h : Leftover s key) (config : GcConfig) (now : ClockReading) (orders : List SweepOrder) :
    GuardedRun.Meets (step P) (DoesNotRevive P key) s
      (orders.map (fun order => .sweep config order now)) := by
  induction orders generalizing s with
  | nil => trivial
  | cons order orders ih =>
    have hnext := h.sweep config order now.secs.toInt64
    exact ⟨hnext.notLive, ih hnext⟩

/-- **Deletion never erases.**  Whatever the store, a post with an attachment that has been
deleted is not erased for good: the sweeps come to rest and its media are still there. -/
theorem deletion_never_erases (P : NodePrimitives) {s s' : NodeStore W} {now : ClockReading}
    {hashHex id : String} {key : List UInt8} {a : MediaAttachment} (row : PostRow)
    (payload : List UInt8)
    (hdel : StateExcept.exec (PostService.delete now hashHex) s = (.ok (), s'))
    (hkey : postKey hashHex = .ok key) (hmedia : s.db.mediaAttachments.get? id = some a)
    (hpost : a.postHash = key) : ¬ ErasedForGood P s s' now key row payload := by
  intro herased
  obtain ⟨orders, hrun, hrest⟩ := exists_atRest P s' now payload
  have hleft := leftover_delete hdel hkey hmedia hpost
  have hok : GuardedRun.Meets (step P) (DoesNotRevive P key) s' _ :=
    meets_doesNotRevive_sweeps hleft {} lastClock orders
  exact (hleft.run hrun hok).not_erased (herased _ _ hrun hrest)

/-! ## One post -/

open TinyNode

/-- The picture of the post of `alice`, as it is stored. -/
def catAttachment : MediaAttachment :=
  (afterHi.db.mediaAttachments.get? (Hex.encode (digest [5, 6]) ++ "-0")).get (by decide +kernel)

/-- A second later she deletes it. -/
def deletedAt : ClockReading := ⟨1700000001, by decide⟩

/-- The store after that. -/
def afterDelete : NodeStore Wire.symbolic :=
  (StateExcept.exec (PostService.delete deletedAt (Hex.encode hiDigest)) afterHi).2

theorem exec_delete_hi :
    StateExcept.exec (PostService.delete deletedAt (Hex.encode hiDigest)) afterHi
      = (.ok (), afterDelete) := by
  have hok : (StateExcept.exec (PostService.delete deletedAt (Hex.encode hiDigest)) afterHi).1
      = .ok () := by decide +kernel
  exact Prod.ext hok rfl

theorem postKey_hi : postKey (Hex.encode hiDigest) = .ok hiKey := by decide +kernel

theorem get?_catAttachment :
    afterHi.db.mediaAttachments.get? (Hex.encode (digest [5, 6]) ++ "-0") = some catAttachment :=
  (Option.some_get _).symm

theorem postHash_catAttachment : catAttachment.postHash = hiKey := by decide +kernel

/-- The deletion of that post does not erase it. -/
theorem deletion_never_erases_hi :
    ¬ ErasedForGood primitives afterHi afterDelete deletedAt hiKey hiRow [] :=
  deletion_never_erases primitives hiRow [] exec_delete_hi postKey_hi get?_catAttachment
    postHash_catAttachment

/-- A store without posts, messages and epoch keys is quiet. -/
theorem quiet_of_rows_eq_nil {s : NodeStore W} (hposts : s.db.posts.rows = [])
    (hmessages : s.db.metadata.messages.rows = []) (hkeys : s.db.epochKeys.rows = [])
    (now : Int64) : GarbageCollector.Quiet now s := by
  have hpost : ∀ k row, s.db.posts.get? k ≠ some row := by
    intro k row h
    rw [← SqlTable.mem_rows_iff, hposts] at h
    cases h
  constructor
  · exact fun k row h => absurd h (hpost k row)
  · intro id row h
    rw [← SqlTable.mem_rows_iff, hmessages] at h
    cases h
  · exact fun k row h => absurd h (hpost k row)
  · intro n key h
    rw [← SqlTable.mem_rows_iff, hkeys] at h
    cases h
  · exact fun k row h => absurd h (hpost k row)

/-- The time of the sweep below, four hours after the post. -/
def fourHoursLater : ClockReading := ⟨1700014400, by decide⟩

/-- **A deleted picture stays.**  `alice` posts a picture and deletes it; one sweep after four
hours purges the tombstone, no sweep changes anything any more, and the attachment is still
stored. -/
theorem picture_outlives_deletion :
    ¬ ∀ (s s' : NodeStore Wire.symbolic) (now : ClockReading) (hashHex : String)
        (key : List UInt8) (row : PostRow) (payload : List UInt8), Reachable primitives s →
      StateExcept.exec (PostService.delete now hashHex) s = (.ok (), s') →
      postKey hashHex = .ok key → s.db.posts.get? key = some row →
      s.content.exists? row.blobHash = true →
      (∃ id a, s.db.mediaAttachments.get? id = some a ∧ a.postHash = key) →
      ErasedForGood primitives s s' now key row payload := by
  intro h
  have hblob : afterHi.content.exists? hiRow.blobHash = true := by decide +kernel
  have herased := h afterHi afterDelete deletedAt (Hex.encode hiDigest) hiKey hiRow []
    reachable_afterHi exec_delete_hi postKey_hi get?_hiRow hblob
    ⟨_, _, get?_catAttachment, postHash_catAttachment⟩
  have hleft : Leftover afterDelete hiKey :=
    leftover_delete exec_delete_hi postKey_hi get?_catAttachment postHash_catAttachment
  have hrest : AtRest fourHoursLater (GarbageCollector.sweep {} .asListed
      fourHoursLater.secs.toInt64 afterDelete).2 := by
    intro config order now _
    refine (quiet_of_rows_eq_nil ?_ ?_ ?_ _).sweep_eq_self config order
    · exact List.isEmpty_iff.mp (by decide +kernel)
    · exact List.isEmpty_iff.mp (by decide +kernel)
    · exact List.isEmpty_iff.mp (by decide +kernel)
  exact (hleft.sweep {} .asListed _).not_erased
    (herased [.sweep {} .asListed fourHoursLater] fourHoursLater
      (.sweep {} .asListed (by decide) (.nil _)) hrest)

end NodeStore
