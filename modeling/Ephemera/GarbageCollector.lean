/-
# The garbage collector (`ephemera-store/src/gc.rs`)

A sweep has four phases: expired posts and messages, old tombstones, expired epoch keys, and
the posts of destroyed epochs.  The first and the last select at most `batch_size` rows and
leave the order to SQLite, so a sweep takes the two orders as an argument.  The `UPDATE` of the
first phase lists the batch as placeholders of one statement, whose number SQLite bounds: when
the batch is too large the sweep returns there, with the media of the batch gone and no row
marked (`sweep_of_not_fits`).

A sweep that is completed adds no row.  It changes a post only by marking an expired one as a
tombstone (`get?_posts_completeSweep`), it deletes the attachments of the posts of its batch and
of no others (`get?_mediaAttachments_sweep`), and it deletes the blobs that the rows it handles
name (`lookup_completeSweep`), whoever else names them.  It never looks at
`group_chat_messages`.

The empty directories of day partitions, which the last phase removes, hold no blobs and
are left out.
-/
import Ephemera.NodeStore

/-- `GcConfig`, as far as a sweep reads it; the clock is an argument of the sweep. -/
structure GcConfig where
  batchSize : UInt32 := 1000

/-- `GcReport`, without the counts of partitions and of bytes. -/
structure GcReport where
  postsDeleted : ℕ
  messagesDeleted : ℕ
  tombstonesPurged : ℕ
  epochKeysDestroyed : ℕ
  orphanedBlobsDeleted : ℕ
  deriving DecidableEq, Repr

/-- What a sweep leaves to SQLite: the orders in which it lists the rows of the two queries with
a `LIMIT`, and how many placeholders a statement may have. -/
structure SweepOrder where
  expired : VisitOrder (List UInt8 × PostRow)
  orphaned : VisitOrder (List UInt8 × PostRow)
  variableLimit : ℕ := 32766

/-- The rows as they lie in the table, and SQLite's default limit. -/
def SweepOrder.asListed : SweepOrder where
  expired := .asListed _
  orphaned := .asListed _

namespace GarbageCollector

/-! ## The sweep -/

/-- Delete blobs one after the other; how many there were. -/
def deleteBlobs (content : ContentStore) : List String → ℕ × ContentStore
  | [] => (0, content)
  | hexKey :: hexKeys =>
    let (found, content) := content.delete hexKey
    let (deleted, content) := deleteBlobs content hexKeys
    (if found then deleted + 1 else deleted, content)

/-- `expires_at < now AND is_tombstone = 0`. -/
def isExpired (now : Int64) (row : PostRow) : Bool :=
  decide (row.expiresAt < now) && decide (row.isTombstone = 0)

/-- `is_tombstone = 1 AND tombstone_at + (ttl_seconds * 3) < now`; SQLite computes this
without overflow. -/
def isPurgeable (now : Int64) (row : PostRow) : Bool :=
  decide (row.isTombstone = 1) &&
    row.tombstoneAt.any (fun t => decide (t.toInt + row.ttlSeconds.toInt * 3 < now.toInt))

variable {W : Wire}

/-- The posts the first phase handles. -/
def expiredEntries (config : GcConfig) (order : SweepOrder) (now : Int64) (db : NodeDb W) :
    List (List UInt8 × PostRow) :=
  (order.expired.visit (db.posts.selectWhere (fun _ row => isExpired now row))).take
    config.batchSize.toNat

/-- `SELECT thumbnail_hash FROM media_attachments WHERE post_hash = …`. -/
def thumbnails (db : NodeDb W) (postHash : List UInt8) : List String :=
  (db.mediaAttachments.selectWhere (fun _ a => decide (a.postHash = postHash))).filterMap
    (fun r => r.2.thumbnailHash)

/-- Delete the chunks, the thumbnails and the attachments of one post. -/
def expireMedia (s : NodeStore W) (postHash : List UInt8) : NodeStore W :=
  let ofPost := fun (a : MediaAttachment) => decide (a.postHash = postHash)
  { s with
    content := (deleteBlobs s.content (thumbnails s.db postHash)).2
    db := { s.db with
      mediaChunks := s.db.mediaChunks.deleteWhere (fun _ chunk =>
        s.db.mediaAttachments.existsWhere (fun id a => decide (id = chunk.mediaId) && ofPost a))
      mediaAttachments := s.db.mediaAttachments.deleteWhere (fun _ a => ofPost a) } }

/-- The keys of the posts the first phase handles. -/
def batch (config : GcConfig) (order : SweepOrder) (now : Int64) (db : NodeDb W) :
    List (List UInt8) :=
  (expiredEntries config order now db).map Prod.fst

/-- The first phase up to its `UPDATE`: how many blobs of posts were deleted, and the store
without the blobs and the media of the batch. -/
def expireBatch (config : GcConfig) (order : SweepOrder) (now : Int64) (s : NodeStore W) :
    ℕ × NodeStore W :=
  let blobs := deleteBlobs s.content
    ((expiredEntries config order now s.db).map (fun e => e.2.blobHash))
  (blobs.1, (batch config order now s.db).foldl expireMedia { s with content := blobs.2 })

/-- The first phase from its `UPDATE` on: mark the posts and delete the expired messages; how
many messages there were. -/
def markExpired (postHashes : List (List UInt8)) (now : Int64) (s : NodeStore W) :
    ℕ × NodeStore W :=
  let expiredMessage := fun (_ : W.Digest) (row : MessageRow W) => decide (row.expiresAt < now)
  ((s.db.metadata.messages.selectWhere expiredMessage).length,
    { s with
      db := { s.db with
        posts := s.db.posts.updateWhere (fun k _ => postHashes.contains k) (PostRow.tombstoned now)
        metadata := { s.db.metadata with
          messages := s.db.metadata.messages.deleteWhere expiredMessage } } })

/-- SQLite takes the `UPDATE` of the batch: a placeholder for the time and one for each row, and
none at all if the batch is empty. -/
def UpdateFits (config : GcConfig) (order : SweepOrder) (now : Int64) (db : NodeDb W) : Prop :=
  batch config order now db = [] ∨ (batch config order now db).length + 1 ≤ order.variableLimit

instance (config : GcConfig) (order : SweepOrder) (now : Int64) (db : NodeDb W) :
    Decidable (UpdateFits config order now db) :=
  inferInstanceAs (Decidable (_ ∨ _))

/-- `phase1_expire_content`: how many blobs of posts and how many messages were deleted, or
`none` if the `UPDATE` fails. -/
def phase1ExpireContent (config : GcConfig) (order : SweepOrder) (now : Int64)
    (s : NodeStore W) : Option (ℕ × ℕ) × NodeStore W :=
  let media := expireBatch config order now s
  if UpdateFits config order now s.db then
    let marked := markExpired (batch config order now s.db) now media.2
    (some (media.1, marked.1), marked.2)
  else
    -- the `?` of `execute`: the chunks, thumbnails and attachments of the batch are gone already
    (none, media.2)

/-- `phase2_purge_tombstones`. -/
def phase2PurgeTombstones (now : Int64) (s : NodeStore W) : ℕ × NodeStore W :=
  ((s.db.posts.selectWhere (fun _ row => isPurgeable now row)).length,
    { s with
      db := { s.db with posts := s.db.posts.deleteWhere (fun _ row => isPurgeable now row) } })

/-- `is_deleted = 0 AND expires_at < now`. -/
def isEpochExpired (now : Int64) (key : EpochKeyRow) : Bool :=
  decide (key.isDeleted = 0) && decide (key.expiresAt < now)

/-- `phase3_destroy_epoch_keys`. -/
def phase3DestroyEpochKeys (now : Int64) (s : NodeStore W) : ℕ × NodeStore W :=
  ((s.db.epochKeys.selectWhere (fun _ key => isEpochExpired now key)).length,
    { s with
      db := { s.db with
        epochKeys := s.db.epochKeys.updateWhere (fun _ key => isEpochExpired now key)
          (fun key => { key with isDeleted := 1, deletedAt := some now }) } })

/-- Whether an epoch has been destroyed. -/
def epochDestroyed (db : NodeDb W) (epochNumber : Int64) : Bool :=
  db.epochKeys.existsWhere (fun n key => decide (n = epochNumber) && decide (key.isDeleted = 1))

/-- The posts whose blobs the last phase deletes. -/
def orphanedEntries (config : GcConfig) (order : SweepOrder) (db : NodeDb W) :
    List (List UInt8 × PostRow) :=
  (order.orphaned.visit
    (db.posts.selectWhere (fun _ row => epochDestroyed db row.epochNumber))).take
    config.batchSize.toNat

/-- `phase4_sweep_orphaned_content`. -/
def phase4SweepOrphanedContent (config : GcConfig) (order : SweepOrder) (s : NodeStore W) :
    ℕ × NodeStore W :=
  let blobs := deleteBlobs s.content
    ((orphanedEntries config order s.db).map (fun e => e.2.blobHash))
  (blobs.1,
    { s with
      content := blobs.2
      db := { s.db with
        posts := s.db.posts.deleteWhere (fun _ row => epochDestroyed s.db row.epochNumber) } })

/-- `GarbageCollector::sweep`, and `sweep_with_events` but for its events. -/
def sweep (config : GcConfig) (order : SweepOrder) (now : Int64) (s : NodeStore W) :
    Option GcReport × NodeStore W :=
  match phase1ExpireContent config order now s with
  | (none, s) => (none, s)
  | (some expired, s) =>
    let purged := phase2PurgeTombstones now s
    let destroyed := phase3DestroyEpochKeys now purged.2
    let orphaned := phase4SweepOrphanedContent config order destroyed.2
    (some ⟨expired.1, expired.2, purged.1, destroyed.1, orphaned.1⟩, orphaned.2)

/-- Sweeps at one time, each with its orders. -/
def sweeps (config : GcConfig) (now : Int64) (s : NodeStore W) (orders : List SweepOrder) :
    NodeStore W :=
  orders.foldl (fun s order => (sweep config order now s).2) s

/-! ## What the phases do -/

theorem isExpired_iff {now : Int64} {row : PostRow} :
    isExpired now row = true ↔ row.expiresAt < now ∧ row.isTombstone = 0 := by
  rw [isExpired, Bool.and_eq_true, decide_eq_true_eq, decide_eq_true_eq]

/-- A tombstone does not expire. -/
@[simp] theorem isExpired_tombstoned (now time : Int64) (row : PostRow) :
    isExpired now (row.tombstoned time) = false := by
  have h : (row.tombstoned time).isTombstone = 1 := rfl
  rw [isExpired, h]
  exact Bool.and_false _

/-- The posts that wait for the first phase. -/
def expiredPosts (now : Int64) (db : NodeDb W) : List (List UInt8 × PostRow) :=
  db.posts.selectWhere (fun _ row => isExpired now row)

/-- The first phase handles stored posts that have expired. -/
theorem get?_of_mem_expiredEntries {config : GcConfig} {order : SweepOrder} {now : Int64}
    {db : NodeDb W} {k : List UInt8} {row : PostRow}
    (h : (k, row) ∈ expiredEntries config order now db) :
    db.posts.get? k = some row ∧ isExpired now row = true := by
  have hmem := (order.expired.perm _).mem_iff.mp (List.mem_of_mem_take h)
  rw [SqlTable.selectWhere, List.mem_filter, SqlTable.mem_rows_iff] at hmem
  exact hmem

theorem expired_of_mem_batch {config : GcConfig} {order : SweepOrder} {now : Int64}
    {db : NodeDb W} {k : List UInt8} {row : PostRow} (h : k ∈ batch config order now db)
    (hrow : db.posts.get? k = some row) : isExpired now row = true := by
  obtain ⟨⟨k', row'⟩, hmem, rfl⟩ := List.mem_map.mp h
  obtain ⟨hget, hexp⟩ := get?_of_mem_expiredEntries hmem
  rw [hget, Option.some.injEq] at hrow
  exact hrow ▸ hexp

/-- The blobs that are left after deletions. -/
theorem lookup_deleteBlobs (content : ContentStore) (hexKeys : List String) (h : String) :
    (deleteBlobs content hexKeys).2.blobs.lookup h
      = if h ∈ hexKeys then none else content.blobs.lookup h := by
  induction hexKeys generalizing content with
  | nil => simp [deleteBlobs]
  | cons a l ih =>
    show (deleteBlobs (content.delete a).2 l).2.blobs.lookup h = _
    rw [ih, ContentStore.delete, HashMap.lookup_erase_eq]
    by_cases hl : h ∈ l
    · simp [hl]
    · by_cases ha : h = a
      · simp [ha]
      · simp [hl, ha]

/-! ### Media -/

/-- `s'` is `s` with other media and other blobs. -/
structure SameButMedia (s s' : NodeStore W) : Prop where
  posts : s'.db.posts = s.db.posts
  metadata : s'.db.metadata = s.db.metadata
  groups : s'.db.groups = s.db.groups
  mutes : s'.db.mutes = s.db.mutes
  topicPosts : s'.db.topicPosts = s.db.topicPosts
  epochKeys : s'.db.epochKeys = s.db.epochKeys
  reports : s'.reports = s.reports

/-- The deletion of media touches nothing else. -/
theorem sameButMedia_foldl (hashes : List (List UInt8)) (s : NodeStore W) :
    SameButMedia s (hashes.foldl expireMedia s) := by
  induction hashes generalizing s with
  | nil => exact ⟨rfl, rfl, rfl, rfl, rfl, rfl, rfl⟩
  | cons hash hashes ih =>
    have h := ih (expireMedia s hash)
    exact ⟨h.posts, h.metadata, h.groups, h.mutes, h.topicPosts, h.epochKeys, h.reports⟩

/-- The attachments that are left are those of other posts. -/
theorem get?_mediaAttachments_foldl (hashes : List (List UInt8)) (s : NodeStore W) (id : String) :
    (hashes.foldl expireMedia s).db.mediaAttachments.get? id
      = (s.db.mediaAttachments.get? id).filter (fun a => decide (a.postHash ∉ hashes)) := by
  induction hashes generalizing s with
  | nil =>
    rw [List.foldl_nil]
    cases s.db.mediaAttachments.get? id <;> simp [Option.filter]
  | cons hash hashes ih =>
    rw [List.foldl_cons, ih, expireMedia, SqlTable.get?_deleteWhere]
    cases s.db.mediaAttachments.get? id with
    | none => rfl
    | some a => by_cases ha : a.postHash = hash <;> simp [Option.filter, ha]

/-- The chunks that are left are those of attachments that are left. -/
theorem get?_mediaChunks_foldl (hashes : List (List UInt8)) (s : NodeStore W) (h : String) :
    (hashes.foldl expireMedia s).db.mediaChunks.get? h
      = (s.db.mediaChunks.get? h).filter (fun c =>
        !(s.db.mediaAttachments.get? c.mediaId).any (fun a => decide (a.postHash ∈ hashes))) := by
  induction hashes generalizing s with
  | nil =>
    rw [List.foldl_nil]
    cases s.db.mediaChunks.get? h <;> simp [Option.filter]
  | cons hash hashes ih =>
    rw [List.foldl_cons, ih, expireMedia, SqlTable.get?_deleteWhere]
    simp only [SqlTable.get?_deleteWhere, SqlTable.existsWhere_key]
    cases s.db.mediaChunks.get? h with
    | none => rfl
    | some c =>
      -- a chunk goes with the post of its attachment, now or later
      cases hatt : s.db.mediaAttachments.get? c.mediaId with
      | none => simp [Option.filter, hatt]
      | some a => by_cases ha : a.postHash = hash <;> simp [Option.filter, hatt, ha]

theorem mem_thumbnails {db : NodeDb W} {postHash : List UInt8} {h : String} :
    h ∈ thumbnails db postHash ↔ ∃ id a, db.mediaAttachments.get? id = some a ∧
      a.postHash = postHash ∧ a.thumbnailHash = some h := by
  unfold thumbnails SqlTable.selectWhere
  rw [List.mem_filterMap]
  constructor
  · rintro ⟨⟨id, a⟩, hmem, hthumb⟩
    rw [List.mem_filter, SqlTable.mem_rows_iff, decide_eq_true_eq] at hmem
    exact ⟨id, a, hmem.1, hmem.2, hthumb⟩
  · rintro ⟨id, a, hget, hpost, hthumb⟩
    refine ⟨(id, a), ?_, hthumb⟩
    rw [List.mem_filter, SqlTable.mem_rows_iff, decide_eq_true_eq]
    exact ⟨hget, hpost⟩

/-- The thumbnails of the other posts are still listed after a deletion. -/
theorem mem_thumbnails_expireMedia {s : NodeStore W} {hash postHash : List UInt8} {h : String} :
    h ∈ thumbnails (expireMedia s hash).db postHash ↔
      h ∈ thumbnails s.db postHash ∧ postHash ≠ hash := by
  have hget := get?_mediaAttachments_foldl [hash] s
  simp only [List.foldl_cons, List.foldl_nil, List.mem_singleton] at hget
  simp only [mem_thumbnails, hget, Option.filter_eq_some_iff, decide_eq_true_eq]
  constructor
  · rintro ⟨id, a, ⟨ha, hne⟩, rfl, hthumb⟩
    exact ⟨⟨id, a, ha, rfl, hthumb⟩, hne⟩
  · rintro ⟨⟨id, a, ha, rfl, hthumb⟩, hne⟩
    exact ⟨id, a, ⟨ha, hne⟩, rfl, hthumb⟩

/-- The blobs that are left after the deletion of media. -/
theorem lookup_foldl_expireMedia (hashes : List (List UInt8)) (s : NodeStore W) (h : String) :
    (hashes.foldl expireMedia s).content.blobs.lookup h
      = if ∃ hash ∈ hashes, h ∈ thumbnails s.db hash then none
        else s.content.blobs.lookup h := by
  induction hashes generalizing s with
  | nil => simp
  | cons hash hashes ih =>
    have hcontent : (expireMedia s hash).content.blobs.lookup h
        = if h ∈ thumbnails s.db hash then none else s.content.blobs.lookup h :=
      lookup_deleteBlobs _ _ _
    rw [List.foldl_cons, ih, hcontent]
    simp only [mem_thumbnails_expireMedia, List.mem_cons, exists_eq_or_imp]
    by_cases hhead : h ∈ thumbnails s.db hash
    · simp [hhead]
    · -- a thumbnail of a later post is not one of the post just handled
      have htail : (∃ a ∈ hashes, h ∈ thumbnails s.db a ∧ a ≠ hash) ↔
          ∃ a ∈ hashes, h ∈ thumbnails s.db a := by
        constructor
        · rintro ⟨a, ha, hmem, -⟩
          exact ⟨a, ha, hmem⟩
        · rintro ⟨a, ha, hmem⟩
          exact ⟨a, ha, hmem, fun heq => hhead (heq ▸ hmem)⟩
      simp only [htail, hhead, if_false, false_or]

/-- The store once the first phase has deleted blobs and media. -/
def withoutMedia (config : GcConfig) (order : SweepOrder) (now : Int64) (s : NodeStore W) :
    NodeStore W :=
  (expireBatch config order now s).2

theorem sameButMedia_withoutMedia (config : GcConfig) (order : SweepOrder) (now : Int64)
    (s : NodeStore W) : SameButMedia s (withoutMedia config order now s) := by
  have h := sameButMedia_foldl (batch config order now s.db) { s with
    content := (deleteBlobs s.content
      ((expiredEntries config order now s.db).map (fun e => e.2.blobHash))).2 }
  exact ⟨h.posts, h.metadata, h.groups, h.mutes, h.topicPosts, h.epochKeys, h.reports⟩

/-! ### Posts -/

/-- A post as the first phase leaves it. -/
def marked (config : GcConfig) (order : SweepOrder) (now : Int64) (db : NodeDb W)
    (k : List UInt8) (row : PostRow) : PostRow :=
  if k ∈ batch config order now db then row.tombstoned now else row

/-- The store after a first phase whose `UPDATE` goes through. -/
def afterFirst (config : GcConfig) (order : SweepOrder) (now : Int64) (s : NodeStore W) :
    NodeStore W :=
  (markExpired (batch config order now s.db) now (withoutMedia config order now s)).2

theorem get?_posts_afterFirst (config : GcConfig) (order : SweepOrder) (now : Int64)
    (s : NodeStore W) (k : List UInt8) :
    (afterFirst config order now s).db.posts.get? k
      = (s.db.posts.get? k).map (marked config order now s.db k) := by
  have hposts := (sameButMedia_withoutMedia config order now s).posts
  show ((withoutMedia config order now s).db.posts.updateWhere
    (fun k _ => (batch config order now s.db).contains k) (PostRow.tombstoned now)).get? k = _
  rw [hposts, SqlTable.get?_updateWhere]
  congr 1
  funext row
  rw [marked]
  simp only [List.contains_iff_mem]

/-- Whether the epoch is destroyed once the third phase has run. -/
def epochEnds (now : Int64) (db : NodeDb W) (epochNumber : Int64) : Bool :=
  db.epochKeys.existsWhere (fun n key => decide (n = epochNumber) &&
    (decide (key.isDeleted = 1) || isEpochExpired now key))

theorem epochEnds_iff {now : Int64} {db : NodeDb W} {n : Int64} :
    epochEnds now db n = true ↔ ∃ key, db.epochKeys.get? n = some key ∧
      (key.isDeleted = 1 ∨ isEpochExpired now key = true) := by
  rw [epochEnds, SqlTable.existsWhere_key, Option.any_eq_true]
  simp only [Bool.or_eq_true, decide_eq_true_eq]

theorem epochDestroyed_iff {db : NodeDb W} {n : Int64} :
    epochDestroyed db n = true ↔ ∃ key, db.epochKeys.get? n = some key ∧ key.isDeleted = 1 := by
  rw [epochDestroyed, SqlTable.existsWhere_key, Option.any_eq_true]
  simp only [decide_eq_true_eq]

/-- The third phase destroys the epochs that end. -/
theorem epochDestroyed_phase3 (now : Int64) (s : NodeStore W) (n : Int64) :
    epochDestroyed (phase3DestroyEpochKeys now s).2.db n = epochEnds now s.db n := by
  rw [Bool.eq_iff_iff, epochDestroyed_iff, epochEnds_iff]
  simp only [phase3DestroyEpochKeys, SqlTable.get?_updateWhere, Option.map_eq_some_iff]
  constructor
  · rintro ⟨_, ⟨key, hget, rfl⟩, hdel⟩
    refine ⟨key, hget, ?_⟩
    by_cases hexp : isEpochExpired now key = true
    · exact .inr hexp
    · rw [if_neg hexp] at hdel
      exact .inl hdel
  · rintro ⟨key, hget, hkey⟩
    refine ⟨_, ⟨key, hget, rfl⟩, ?_⟩
    by_cases hexp : isEpochExpired now key = true
    · rw [if_pos hexp]
    · rw [if_neg hexp]
      exact hkey.resolve_right hexp

/-- The store between the third and the last phase. -/
def beforeOrphans (config : GcConfig) (order : SweepOrder) (now : Int64) (s : NodeStore W) :
    NodeStore W :=
  (phase3DestroyEpochKeys now
    (phase2PurgeTombstones now (afterFirst config order now s)).2).2

/-- The store after a sweep that is completed. -/
def completeSweep (config : GcConfig) (order : SweepOrder) (now : Int64) (s : NodeStore W) :
    NodeStore W :=
  (phase4SweepOrphanedContent config order (beforeOrphans config order now s)).2

/-- **A sweep is completed if the `UPDATE` takes its batch**, … -/
theorem sweep_of_fits {config : GcConfig} {order : SweepOrder} {now : Int64} {s : NodeStore W}
    (h : UpdateFits config order now s.db) :
    (sweep config order now s).2 = completeSweep config order now s := by
  rw [sweep, phase1ExpireContent, if_pos h]
  rfl

/-- … and otherwise leaves the rows of posts and messages as they were, without the media of the
batch. -/
theorem sweep_of_not_fits {config : GcConfig} {order : SweepOrder} {now : Int64}
    {s : NodeStore W} (h : ¬ UpdateFits config order now s.db) :
    (sweep config order now s).2 = withoutMedia config order now s := by
  rw [sweep, phase1ExpireContent, if_neg h]
  rfl

/-- What both outcomes have in common. -/
theorem sweep_cases {p : NodeStore W → Prop} (config : GcConfig) (order : SweepOrder)
    (now : Int64) (s : NodeStore W) (complete : p (completeSweep config order now s))
    (fails : p (withoutMedia config order now s)) : p (sweep config order now s).2 := by
  by_cases h : UpdateFits config order now s.db
  · rw [sweep_of_fits h]
    exact complete
  · rw [sweep_of_not_fits h]
    exact fails

/-- How many posts the batch has. -/
theorem length_batch (config : GcConfig) (order : SweepOrder) (now : Int64) (db : NodeDb W) :
    (batch config order now db).length
      = min config.batchSize.toNat (expiredPosts now db).length := by
  rw [batch, List.length_map, expiredEntries, List.length_take, (order.expired.perm _).length_eq]
  rfl

/-- Whether the `UPDATE` fits depends on the number of expired posts. -/
theorem updateFits_iff {config : GcConfig} {order : SweepOrder} {now : Int64} {db : NodeDb W} :
    UpdateFits config order now db ↔
      min config.batchSize.toNat (expiredPosts now db).length = 0 ∨
        min config.batchSize.toNat (expiredPosts now db).length < order.variableLimit := by
  rw [UpdateFits, ← List.length_eq_zero_iff, length_batch]
  exact Iff.rfl

/-- A batch within SQLite's limit fits, whatever the store. -/
theorem updateFits_of_lt {config : GcConfig} {order : SweepOrder}
    (h : config.batchSize.toNat < order.variableLimit) (now : Int64) (db : NodeDb W) :
    UpdateFits config order now db :=
  updateFits_iff.mpr (.inr (by omega))

/-- The first phase leaves the epoch keys. -/
theorem epochKeys_afterFirst (config : GcConfig) (order : SweepOrder) (now : Int64)
    (s : NodeStore W) : (afterFirst config order now s).db.epochKeys = s.db.epochKeys :=
  (sameButMedia_withoutMedia config order now s).epochKeys

theorem epochDestroyed_beforeOrphans (config : GcConfig) (order : SweepOrder) (now : Int64)
    (s : NodeStore W) (n : Int64) :
    epochDestroyed (beforeOrphans config order now s).db n = epochEnds now s.db n := by
  rw [beforeOrphans, epochDestroyed_phase3]
  simp only [epochEnds, phase2PurgeTombstones, epochKeys_afterFirst]

/-- The posts before the last phase: marked, and without those that are purged. -/
theorem get?_posts_beforeOrphans (config : GcConfig) (order : SweepOrder) (now : Int64)
    (s : NodeStore W) (k : List UInt8) :
    (beforeOrphans config order now s).db.posts.get? k
      = ((s.db.posts.get? k).map (marked config order now s.db k)).filter
        (fun row => !isPurgeable now row) := by
  rw [← get?_posts_afterFirst]
  exact SqlTable.get?_deleteWhere _ _ _

/-- **What a completed sweep does to a post.**  It is marked if it is in the batch, and deleted
if it is an old tombstone or belongs to an epoch that ends. -/
theorem get?_posts_completeSweep (config : GcConfig) (order : SweepOrder) (now : Int64)
    (s : NodeStore W) (k : List UInt8) :
    (completeSweep config order now s).db.posts.get? k
      = (((s.db.posts.get? k).map (marked config order now s.db k)).filter
        (fun row => !isPurgeable now row)).filter
        (fun row => !epochEnds now s.db row.epochNumber) := by
  rw [completeSweep, phase4SweepOrphanedContent, SqlTable.get?_deleteWhere,
    get?_posts_beforeOrphans]
  simp only [epochDestroyed_beforeOrphans]

/-- A post after a completed sweep was there before it. -/
theorem get?_of_get?_posts_completeSweep {config : GcConfig} {order : SweepOrder} {now : Int64}
    {s : NodeStore W} {k : List UInt8} {row : PostRow}
    (h : (completeSweep config order now s).db.posts.get? k = some row) :
    ∃ old, s.db.posts.get? k = some old ∧ row = marked config order now s.db k old := by
  rw [get?_posts_completeSweep, Option.filter_eq_some_iff, Option.filter_eq_some_iff,
    Option.map_eq_some_iff] at h
  obtain ⟨⟨⟨old, hold, hmark⟩, -⟩, -⟩ := h
  exact ⟨old, hold, hmark.symm⟩

/-- A post after a sweep was there before it; if the sweep was not completed, it is unchanged. -/
theorem get?_of_get?_posts_sweep {config : GcConfig} {order : SweepOrder} {now : Int64}
    {s : NodeStore W} {k : List UInt8} {row : PostRow}
    (h : (sweep config order now s).2.db.posts.get? k = some row) :
    ∃ old, s.db.posts.get? k = some old ∧
      (row = old ∨ row = marked config order now s.db k old) := by
  refine sweep_cases (p := fun s' => s'.db.posts.get? k = some row → _) config order now s ?_ ?_ h
  · intro hrow
    obtain ⟨old, hold, hmark⟩ := get?_of_get?_posts_completeSweep hrow
    exact ⟨old, hold, .inr hmark⟩
  · intro hrow
    rw [(sameButMedia_withoutMedia config order now s).posts] at hrow
    exact ⟨row, hrow, .inl rfl⟩

/-! ### The rest of the database -/

/-- A completed sweep leaves the attachments of the posts outside its batch. -/
theorem get?_mediaAttachments_completeSweep (config : GcConfig) (order : SweepOrder) (now : Int64)
    (s : NodeStore W) (id : String) :
    (completeSweep config order now s).db.mediaAttachments.get? id
      = (s.db.mediaAttachments.get? id).filter
        (fun a => decide (a.postHash ∉ batch config order now s.db)) :=
  get?_mediaAttachments_foldl (batch config order now s.db) _ id

/-- It leaves the chunks of those attachments. -/
theorem get?_mediaChunks_completeSweep (config : GcConfig) (order : SweepOrder) (now : Int64)
    (s : NodeStore W) (h : String) :
    (completeSweep config order now s).db.mediaChunks.get? h
      = (s.db.mediaChunks.get? h).filter (fun c => !(s.db.mediaAttachments.get? c.mediaId).any
        (fun a => decide (a.postHash ∈ batch config order now s.db))) :=
  get?_mediaChunks_foldl (batch config order now s.db) _ h

/-- Media are deleted before the `UPDATE`, so both outcomes leave the same. -/
theorem media_sweep (config : GcConfig) (order : SweepOrder) (now : Int64) (s : NodeStore W) :
    (sweep config order now s).2.db.mediaAttachments
        = (completeSweep config order now s).db.mediaAttachments ∧
      (sweep config order now s).2.db.mediaChunks
        = (completeSweep config order now s).db.mediaChunks :=
  sweep_cases (p := fun s' => s'.db.mediaAttachments = _ ∧ s'.db.mediaChunks = _)
    config order now s ⟨rfl, rfl⟩ ⟨rfl, rfl⟩

/-- A sweep leaves the attachments of the posts outside its batch. -/
theorem get?_mediaAttachments_sweep (config : GcConfig) (order : SweepOrder) (now : Int64)
    (s : NodeStore W) (id : String) :
    (sweep config order now s).2.db.mediaAttachments.get? id
      = (s.db.mediaAttachments.get? id).filter
        (fun a => decide (a.postHash ∉ batch config order now s.db)) := by
  rw [(media_sweep config order now s).1, get?_mediaAttachments_completeSweep]

/-- A sweep leaves the chunks of those attachments. -/
theorem get?_mediaChunks_sweep (config : GcConfig) (order : SweepOrder) (now : Int64)
    (s : NodeStore W) (h : String) :
    (sweep config order now s).2.db.mediaChunks.get? h
      = (s.db.mediaChunks.get? h).filter (fun c => !(s.db.mediaAttachments.get? c.mediaId).any
        (fun a => decide (a.postHash ∈ batch config order now s.db))) := by
  rw [(media_sweep config order now s).2, get?_mediaChunks_completeSweep]

/-- A completed sweep deletes the expired messages. -/
theorem get?_messages_completeSweep (config : GcConfig) (order : SweepOrder) (now : Int64)
    (s : NodeStore W) (id : W.Digest) :
    (completeSweep config order now s).db.metadata.messages.get? id
      = (s.db.metadata.messages.get? id).filter (fun row => !decide (row.expiresAt < now)) := by
  have hmeta := (sameButMedia_withoutMedia config order now s).metadata
  show ((withoutMedia config order now s).db.metadata.messages.deleteWhere
    (fun _ row => decide (row.expiresAt < now))).get? id = _
  rw [hmeta, SqlTable.get?_deleteWhere]

/-- A sweep never touches the tables of groups. -/
theorem groups_sweep (config : GcConfig) (order : SweepOrder) (now : Int64) (s : NodeStore W) :
    (sweep config order now s).2.db.groups = s.db.groups :=
  have hgroups := (sameButMedia_withoutMedia config order now s).groups
  sweep_cases (p := fun s' => s'.db.groups = s.db.groups) config order now s hgroups hgroups

/-! ### Blobs -/

/-- The posts of the epochs that end, as the last phase finds them: without those that are
purged, and with those of the batch marked. -/
def shreddedPosts (config : GcConfig) (order : SweepOrder) (now : Int64) (db : NodeDb W) :
    List (List UInt8 × PostRow) :=
  (db.posts.selectWhere (fun k row => !isPurgeable now (marked config order now db k row) &&
    epochEnds now db row.epochNumber)).map (fun e => (e.1, marked config order now db e.1 e.2))

/-- Those of them whose blobs the last phase deletes. -/
def shreddedBatch (config : GcConfig) (order : SweepOrder) (now : Int64) (db : NodeDb W) :
    List (List UInt8 × PostRow) :=
  (order.orphaned.visit (shreddedPosts config order now db)).take config.batchSize.toNat

/-- The blobs of the expired posts that a sweep handles, and their thumbnails. -/
def expiredBlobs (config : GcConfig) (order : SweepOrder) (now : Int64) (db : NodeDb W) :
    List String :=
  (expiredEntries config order now db).map (fun e => e.2.blobHash)
    ++ (batch config order now db).flatMap (thumbnails db)

/-- The blobs a completed sweep deletes: these, and those of destroyed epochs. -/
def sweptBlobs (config : GcConfig) (order : SweepOrder) (now : Int64) (db : NodeDb W) :
    List String :=
  expiredBlobs config order now db
    ++ (shreddedBatch config order now db).map (fun e => e.2.blobHash)

/-- Marking a post leaves its blob and its epoch. -/
theorem blobHash_marked (config : GcConfig) (order : SweepOrder) (now : Int64) (db : NodeDb W)
    (k : List UInt8) (row : PostRow) :
    (marked config order now db k row).blobHash = row.blobHash ∧
      (marked config order now db k row).epochNumber = row.epochNumber := by
  unfold marked
  split
  · exact ⟨rfl, rfl⟩
  · exact ⟨rfl, rfl⟩

/-- The last phase finds the posts of the epochs that end. -/
theorem orphanedEntries_beforeOrphans (config : GcConfig) (order : SweepOrder) (now : Int64)
    (s : NodeStore W) :
    orphanedEntries config order (beforeOrphans config order now s).db
      = shreddedBatch config order now s.db := by
  have hrows : (beforeOrphans config order now s).db.posts
      = (s.db.posts.updateWhere (fun k _ => (batch config order now s.db).contains k)
          (PostRow.tombstoned now)).deleteWhere (fun _ row => isPurgeable now row) := by
    rw [← (sameButMedia_withoutMedia config order now s).posts]
    rfl
  have hmarked : ∀ r : List UInt8 × PostRow,
      (if (batch config order now s.db).contains r.1 then (r.1, r.2.tombstoned now) else r)
        = (r.1, marked config order now s.db r.1 r.2) := by
    intro r
    rw [marked]
    by_cases hr : r.1 ∈ batch config order now s.db
    · simp [hr]
    · simp [hr]
  rw [orphanedEntries, shreddedBatch, shreddedPosts]
  simp only [epochDestroyed_beforeOrphans, hrows, SqlTable.selectWhere, SqlTable.deleteWhere,
    SqlTable.updateWhere, List.filter_map, List.filter_filter, hmarked, Function.comp_def,
    (blobHash_marked config order now s.db _ _).2, Bool.and_comm]

/-- The blobs before the `UPDATE`. -/
theorem lookup_withoutMedia (config : GcConfig) (order : SweepOrder) (now : Int64)
    (s : NodeStore W) (h : String) :
    (withoutMedia config order now s).content.blobs.lookup h
      = if h ∈ expiredBlobs config order now s.db then none
        else s.content.blobs.lookup h := by
  have hthumbs := lookup_foldl_expireMedia (batch config order now s.db) { s with
    content := (deleteBlobs s.content
      ((expiredEntries config order now s.db).map (fun e => e.2.blobHash))).2 } h
  rw [withoutMedia, expireBatch, hthumbs, lookup_deleteBlobs, expiredBlobs]
  simp only [List.mem_append, List.mem_flatMap]
  split
  · next hthumb => simp [hthumb]
  · next hthumb => simp only [hthumb, or_false]

/-- **What a completed sweep does to a blob.** -/
theorem lookup_completeSweep (config : GcConfig) (order : SweepOrder) (now : Int64)
    (s : NodeStore W) (h : String) :
    (completeSweep config order now s).content.blobs.lookup h
      = if h ∈ sweptBlobs config order now s.db then none else s.content.blobs.lookup h := by
  have hbefore : (beforeOrphans config order now s).content.blobs.lookup h
      = if h ∈ expiredBlobs config order now s.db then none
        else s.content.blobs.lookup h := lookup_withoutMedia config order now s h
  rw [completeSweep, phase4SweepOrphanedContent, lookup_deleteBlobs, hbefore,
    orphanedEntries_beforeOrphans, sweptBlobs]
  simp only [List.mem_append]
  split
  · next hlast => simp [hlast]
  · next hlast => simp only [hlast, or_false]

/-- A sweep deletes no other blob, completed or not. -/
theorem lookup_sweep_of_notMem {config : GcConfig} {order : SweepOrder} {now : Int64}
    {s : NodeStore W} {h : String} (hmem : h ∉ sweptBlobs config order now s.db) :
    (sweep config order now s).2.content.blobs.lookup h = s.content.blobs.lookup h := by
  have hexpired : h ∉ expiredBlobs config order now s.db :=
    fun h => hmem (List.mem_append_left _ h)
  refine sweep_cases (p := fun s' => s'.content.blobs.lookup h = s.content.blobs.lookup h)
    config order now s ?_ ?_
  · rw [lookup_completeSweep, if_neg hmem]
  · rw [lookup_withoutMedia, if_neg hexpired]

/-! ## Sweeps until nothing changes -/

/-- The first phase takes a full batch away from the posts that wait for it. -/
theorem length_filter_batch_le (config : GcConfig) (order : SweepOrder) (now : Int64)
    (db : NodeDb W) :
    ((expiredPosts now db).filter (fun r => !(batch config order now db).contains r.1)).length
      ≤ (expiredPosts now db).length - config.batchSize.toNat := by
  have hperm := order.expired.perm (expiredPosts now db)
  have htake : ((order.expired.visit (expiredPosts now db)).take config.batchSize.toNat).filter
      (fun r => !(batch config order now db).contains r.1) = [] := by
    rw [List.filter_eq_nil_iff]
    intro r hr
    have hmem : r.1 ∈ batch config order now db := List.mem_map_of_mem hr
    simp [hmem]
  have hsplit := List.filter_append (p := fun r => !(batch config order now db).contains r.1)
    ((order.expired.visit (expiredPosts now db)).take config.batchSize.toNat)
    ((order.expired.visit (expiredPosts now db)).drop config.batchSize.toNat)
  rw [List.take_append_drop, htake, List.nil_append] at hsplit
  rw [← (hperm.filter _).length_eq, hsplit, ← hperm.length_eq, ← List.length_drop]
  exact List.length_filter_le _ _

/-- **Progress.**  Each completed sweep takes a full batch away from the expired posts. -/
theorem length_expiredPosts_completeSweep (config : GcConfig) (order : SweepOrder) (now : Int64)
    (s : NodeStore W) :
    (expiredPosts now (completeSweep config order now s).db).length
      ≤ (expiredPosts now s.db).length - config.batchSize.toNat := by
  have hmedia := (sameButMedia_withoutMedia config order now s).posts
  have hfirst : (afterFirst config order now s).db.posts
      = s.db.posts.updateWhere (fun k _ => (batch config order now s.db).contains k)
        (PostRow.tombstoned now) := by
    rw [← hmedia]
    rfl
  calc (expiredPosts now (completeSweep config order now s).db).length
      ≤ ((afterFirst config order now s).db.posts.selectWhere
          (fun _ row => isExpired now row)).length := by
        have hlast := SqlTable.length_selectWhere_deleteWhere_le
          (beforeOrphans config order now s).db.posts (fun _ row => isExpired now row)
          (fun _ row => epochDestroyed (beforeOrphans config order now s).db row.epochNumber)
        have hpurge := SqlTable.length_selectWhere_deleteWhere_le
          (afterFirst config order now s).db.posts (fun _ row => isExpired now row)
          (fun _ row => isPurgeable now row)
        exact hlast.trans hpurge
    _ = ((expiredPosts now s.db).filter
          (fun r => !(batch config order now s.db).contains r.1)).length := by
        rw [hfirst, SqlTable.length_selectWhere_updateWhere
          (fun _ row => isExpired_tombstoned now now row)]
        rfl
    _ ≤ (expiredPosts now s.db).length - config.batchSize.toNat :=
        length_filter_batch_le config order now s.db

/-- No sweep adds to the expired posts. -/
theorem length_expiredPosts_sweep_le (config : GcConfig) (order : SweepOrder) (now : Int64)
    (s : NodeStore W) :
    (expiredPosts now (sweep config order now s).2.db).length
      ≤ (expiredPosts now s.db).length := by
  refine sweep_cases (p := fun s' => (expiredPosts now s'.db).length ≤ _) config order now s ?_ ?_
  · exact (length_expiredPosts_completeSweep config order now s).trans (Nat.sub_le _ _)
  · rw [expiredPosts, (sameButMedia_withoutMedia config order now s).posts]
    exact le_rfl

/-- A batch fits if one did that was taken from more expired posts. -/
theorem UpdateFits.mono {config : GcConfig} {order : SweepOrder} {now : Int64} {db db' : NodeDb W}
    (h : UpdateFits config order now db)
    (hle : (expiredPosts now db').length ≤ (expiredPosts now db).length) :
    UpdateFits config order now db' := by
  rw [updateFits_iff] at h ⊢
  omega

/-- The batches of the sweeps fit: those of the first, and so those of the later ones. -/
def BatchesFit (config : GcConfig) (now : Int64) (db : NodeDb W) (orders : List SweepOrder) :
    Prop :=
  ∀ order ∈ orders, UpdateFits config order now db

/-- After one sweep the batches of the others still fit. -/
theorem BatchesFit.tail {config : GcConfig} {now : Int64} {s : NodeStore W}
    {orders : List SweepOrder} (order : SweepOrder)
    (h : BatchesFit config now s.db (order :: orders)) :
    BatchesFit config now (sweep config order now s).2.db orders := fun o ho =>
  (h o (List.mem_cons_of_mem _ ho)).mono (length_expiredPosts_sweep_le config order now s)

/-- The expired posts that are left after several sweeps. -/
theorem length_expiredPosts_sweeps {config : GcConfig} {now : Int64} {s : NodeStore W}
    {orders : List SweepOrder} (hfit : BatchesFit config now s.db orders) :
    (expiredPosts now (sweeps config now s orders).db).length
      ≤ (expiredPosts now s.db).length - orders.length * config.batchSize.toNat := by
  induction orders generalizing s with
  | nil => simp [sweeps]
  | cons order orders ih =>
    have hstep := length_expiredPosts_completeSweep config order now s
    rw [← sweep_of_fits (hfit order List.mem_cons_self)] at hstep
    have hrest := ih (hfit.tail order)
    rw [List.length_cons, Nat.succ_mul]
    exact hrest.trans (by omega)

/-- A store on which a sweep at `now` has nothing to do. -/
structure Quiet (now : Int64) (s : NodeStore W) : Prop where
  posts : ∀ k row, s.db.posts.get? k = some row → isExpired now row = false
  messages : ∀ id row, s.db.metadata.messages.get? id = some row → ¬ row.expiresAt < now
  tombstones : ∀ k row, s.db.posts.get? k = some row → isPurgeable now row = false
  epochKeys : ∀ n key, s.db.epochKeys.get? n = some key → isEpochExpired now key = false
  orphans : ∀ k row, s.db.posts.get? k = some row → epochDestroyed s.db row.epochNumber = false

/-- The batch of a quiet store is empty. -/
theorem Quiet.expiredEntries_eq_nil {now : Int64} {s : NodeStore W} (h : Quiet now s)
    (config : GcConfig) (order : SweepOrder) : expiredEntries config order now s.db = [] := by
  have hnone : s.db.posts.selectWhere (fun _ row => isExpired now row) = [] :=
    SqlTable.selectWhere_eq_nil h.posts
  rw [expiredEntries, hnone, (order.expired.perm []).eq_nil, List.take_nil]

/-- A sweep of a quiet store changes nothing. -/
theorem Quiet.sweep_eq_self {now : Int64} {s : NodeStore W} (h : Quiet now s)
    (config : GcConfig) (order : SweepOrder) : (sweep config order now s).2 = s := by
  have hentries := h.expiredEntries_eq_nil config order
  have hbatch : batch config order now s.db = [] := by rw [batch, hentries, List.map_nil]
  have hmedia : withoutMedia config order now s = s := by
    simp only [withoutMedia, expireBatch, hbatch, hentries, List.map_nil, deleteBlobs,
      List.foldl_nil]
  have hfirst : afterFirst config order now s = s := by
    have hmessages := SqlTable.deleteWhere_eq_self (t := s.db.metadata.messages)
      (p := fun _ row => decide (row.expiresAt < now))
      (fun id row hrow => decide_eq_false (h.messages id row hrow))
    have hposts := SqlTable.updateWhere_eq_self (t := s.db.posts)
      (p := fun k _ => ([] : List (List UInt8)).contains k) (fun _ _ _ => rfl)
      (PostRow.tombstoned now)
    simp only [afterFirst, hmedia, hbatch, markExpired, hmessages, hposts]
  have hsecond : (phase2PurgeTombstones now s).2 = s := by
    simp only [phase2PurgeTombstones, SqlTable.deleteWhere_eq_self h.tombstones]
  have hthird : (phase3DestroyEpochKeys now s).2 = s := by
    simp only [phase3DestroyEpochKeys, SqlTable.updateWhere_eq_self h.epochKeys]
  have hbefore : beforeOrphans config order now s = s := by
    rw [beforeOrphans, hfirst, hsecond, hthird]
  have horphaned : orphanedEntries config order s.db = [] := by
    have hnone : s.db.posts.selectWhere (fun _ row => epochDestroyed s.db row.epochNumber) = [] :=
      SqlTable.selectWhere_eq_nil h.orphans
    rw [orphanedEntries, hnone, (order.orphaned.perm []).eq_nil, List.take_nil]
  rw [sweep_of_fits (.inl hbatch), completeSweep, hbefore]
  simp only [phase4SweepOrphanedContent, horphaned, List.map_nil, deleteBlobs,
    SqlTable.deleteWhere_eq_self h.orphans]

/-- The epoch keys after a completed sweep. -/
theorem get?_epochKeys_completeSweep (config : GcConfig) (order : SweepOrder) (now : Int64)
    (s : NodeStore W) (n : Int64) :
    (completeSweep config order now s).db.epochKeys.get? n
      = (s.db.epochKeys.get? n).map (fun key => if isEpochExpired now key then
          { key with isDeleted := 1, deletedAt := some now } else key) := by
  rw [← epochKeys_afterFirst config order now s]
  exact SqlTable.get?_updateWhere _ _ _ _

/-- What one completed sweep leaves for the next one at the same time: expired posts beyond the
batch. -/
theorem quiet_completeSweep {config : GcConfig} {order : SweepOrder} {now : Int64}
    {s : NodeStore W} (h : expiredPosts now (completeSweep config order now s).db = []) :
    Quiet now (completeSweep config order now s) where
  posts k row hrow := by
    have hmem := List.filter_eq_nil_iff.mp h (k, row) (SqlTable.mem_rows_iff.mpr hrow)
    simpa using hmem
  messages id row hrow := by
    rw [get?_messages_completeSweep, Option.filter_eq_some_iff] at hrow
    simpa using hrow.2
  tombstones k row hrow := by
    rw [get?_posts_completeSweep, Option.filter_eq_some_iff, Option.filter_eq_some_iff] at hrow
    simpa using hrow.1.2
  epochKeys n key hkey := by
    rw [get?_epochKeys_completeSweep, Option.map_eq_some_iff] at hkey
    obtain ⟨old, -, rfl⟩ := hkey
    split
    · rfl
    · next hexp => simpa using hexp
  orphans k row hrow := by
    have hdestroyed : epochDestroyed (completeSweep config order now s).db row.epochNumber
        = epochEnds now s.db row.epochNumber :=
      epochDestroyed_beforeOrphans config order now s row.epochNumber
    rw [get?_posts_completeSweep, Option.filter_eq_some_iff] at hrow
    rw [hdestroyed]
    simpa using hrow.2

/-- A sweep that fails leaves expired posts behind. -/
theorem expiredPosts_withoutMedia {config : GcConfig} {order : SweepOrder} {now : Int64}
    {s : NodeStore W} (h : ¬ UpdateFits config order now s.db) :
    expiredPosts now (withoutMedia config order now s).db ≠ [] := by
  intro hnone
  rw [expiredPosts, (sameButMedia_withoutMedia config order now s).posts] at hnone
  refine h (updateFits_iff.mpr (.inl ?_))
  rw [expiredPosts, hnone, List.length_nil, Nat.min_zero]

/-- **A sweep that leaves no expired post leaves nothing to do.** -/
theorem quiet_sweep {config : GcConfig} {order : SweepOrder} {now : Int64} {s : NodeStore W}
    (h : expiredPosts now (sweep config order now s).2.db = []) :
    Quiet now (sweep config order now s).2 := by
  by_cases hfits : UpdateFits config order now s.db
  · rw [sweep_of_fits hfits] at h ⊢
    exact quiet_completeSweep h
  · rw [sweep_of_not_fits hfits] at h
    exact absurd h (expiredPosts_withoutMedia hfits)

/-- **Enough sweeps come to rest** if their batches fit. -/
theorem quiet_sweeps {config : GcConfig} {now : Int64} {s : NodeStore W}
    {orders : List SweepOrder} (order : SweepOrder) (hfit : BatchesFit config now s.db orders)
    (h : (expiredPosts now s.db).length ≤ orders.length * config.batchSize.toNat) :
    Quiet now (sweeps config now s (orders ++ [order])) := by
  have hlast : sweeps config now s (orders ++ [order])
      = (sweep config order now (sweeps config now s orders)).2 := by
    rw [sweeps, List.foldl_append]
    rfl
  have hnone := length_expiredPosts_sweeps hfit
  have hstep := length_expiredPosts_sweep_le config order now (sweeps config now s orders)
  rw [hlast]
  exact quiet_sweep (List.eq_nil_of_length_eq_zero (by omega))

end GarbageCollector
