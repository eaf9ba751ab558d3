/-
# Expired content (`gc.rs`, `services/post.rs`, `store/feed.rs`, `store/group_chat.rs`)

No read of posts or messages compares `expires_at` with the clock, so what has expired is
shown until a sweep takes it away, and a group shows its posts even after that.  The sweeps
do take away the expired posts and messages, a batch of posts at a time; they pass over
`group_chat_messages`, which has an `expires_at` and an index on it for this purpose.

`expiry_iff` puts the two together: nothing expired is shown and enough sweeps of any batch size
leave nothing expired, exactly on the stores that are `Fresh` to begin with.  For one batch size,
the sweeps alone need that no message of a group chat has expired and that SQLite takes the
`UPDATE` of the batch.
-/
import Ephemera.NodeReads
import Ephemera.NodeRun

namespace NodeStore

open GarbageCollector

variable {W : Wire}

/-! ## Invisible and collected -/

/-- No read at `now` returns an item that has expired. -/
structure HidesExpired (C : Cipher W) (secret : C.X25519Secret) (db : NodeDb W) (now : Int64) :
    Prop where
  posts : ∀ key row, db.posts.get? key = some row → row.expiresAt < now → ¬ db.ShowsPost now key
  threads : ∀ loc conversationId limit, ∀ item ∈
    (DirectMessage.getThread C db.metadata loc secret conversationId limit).1,
    ¬ item.expiresAt < now
  chats : ∀ chatId limit before reader rows,
    (StateExcept.exec (GroupStore.getChatMessages chatId limit before reader) db.groups).1
      = .ok rows → ∀ m ∈ rows, ¬ m.2.expiresAt < now

/-- The rows of `messages` that have expired. -/
def expiredMessages (now : Int64) (db : MetadataDb W) : List (W.Digest × MessageRow W) :=
  db.messages.selectWhere (fun _ row => decide (row.expiresAt < now))

/-- The rows of `group_chat_messages` that have expired. -/
def expiredChatMessages (now : Int64) (db : GroupDb) : List (String × ChatMessageRow) :=
  db.chatMessages.selectWhere (fun _ row => decide (row.expiresAt < now))

/-- How many rows have expired. -/
def expiredCount (now : Int64) (db : NodeDb W) : ℕ :=
  (expiredPosts now db).length + (expiredMessages now db.metadata).length
    + (expiredChatMessages now db.groups).length

/-- No row has expired, but for tombstones. -/
structure NoneExpired (now : Int64) (db : NodeDb W) : Prop where
  posts : ∀ key row, db.posts.get? key = some row → row.isTombstone = 0 → ¬ row.expiresAt < now
  messages : ∀ id row, db.metadata.messages.get? id = some row → ¬ row.expiresAt < now
  chatMessages : ∀ id row, db.groups.chatMessages.get? id = some row → ¬ row.expiresAt < now

/-- Sweeps at `now` that have room for all expired rows leave none, where SQLite takes
`variableLimit` placeholders. -/
def CollectsExpired (config : GcConfig) (variableLimit : ℕ) (now : Int64) (s : NodeStore W) :
    Prop :=
  ∀ orders : List SweepOrder, (∀ order ∈ orders, order.variableLimit = variableLimit) →
    expiredCount now s.db ≤ orders.length * config.batchSize.toNat →
      NoneExpired now (sweeps config now s orders).db

/-- No message of a group chat has expired, and SQLite takes the `UPDATE` of a batch: the time
and one placeholder for each post in it. -/
def Collectable (config : GcConfig) (variableLimit : ℕ) (now : Int64) (db : NodeDb W) : Prop :=
  (∀ id row, db.groups.chatMessages.get? id = some row → ¬ row.expiresAt < now) ∧
    (expiredPosts now db = [] ∨
      min config.batchSize.toNat (expiredPosts now db).length < variableLimit)

/-- Nothing that a read could show has expired: no post that is no tombstone or that a group
has, no message that a thread lists, and no message of a group chat. -/
structure Fresh (now : Int64) (db : NodeDb W) : Prop where
  posts : ∀ key row, db.posts.get? key = some row → row.isTombstone = 0 → ¬ row.expiresAt < now
  groupPosts : ∀ group key post, db.groups.posts.get? (group, key) = some post →
    ∀ row, db.posts.get? key = some row → ¬ row.expiresAt < now
  threads : ∀ id row, NodeDb.InThread db.metadata id row → ¬ row.expiresAt < now
  chatMessages : ∀ id row, db.groups.chatMessages.get? id = some row → ¬ row.expiresAt < now

/-! ## What sweeps collect -/

/-- Sweeps never touch the tables of groups. -/
theorem groups_sweeps (config : GcConfig) (now : Int64) (s : NodeStore W)
    (orders : List SweepOrder) : (sweeps config now s orders).db.groups = s.db.groups := by
  induction orders generalizing s with
  | nil => rfl
  | cons order orders ih =>
    exact (ih (sweep config order now s).2).trans (groups_sweep config order now s)

/-- Sweeps leave no expired message if there was one at all, and its batch fits. -/
theorem get?_messages_sweeps {config : GcConfig} {now : Int64} {s : NodeStore W}
    {orders : List SweepOrder} {id : W.Digest} {row : MessageRow W}
    (hfit : BatchesFit config now s.db orders)
    (h : (sweeps config now s orders).db.metadata.messages.get? id = some row) :
    s.db.metadata.messages.get? id = some row ∧ (orders ≠ [] → ¬ row.expiresAt < now) := by
  induction orders generalizing s with
  | nil => exact ⟨h, fun hne => absurd rfl hne⟩
  | cons order orders ih =>
    obtain ⟨hmem, -⟩ := ih (hfit.tail order) h
    rw [sweep_of_fits (hfit order List.mem_cons_self), get?_messages_completeSweep,
      Option.filter_eq_some_iff] at hmem
    exact ⟨hmem.1, fun _ => by simpa using hmem.2⟩

/-- Enough sweeps leave no expired post that is no tombstone. -/
theorem posts_sweeps {config : GcConfig} {now : Int64} {s : NodeStore W}
    {orders : List SweepOrder} (hfit : BatchesFit config now s.db orders)
    (hroom : (expiredPosts now s.db).length ≤ orders.length * config.batchSize.toNat)
    {key : List UInt8} {row : PostRow}
    (hrow : (sweeps config now s orders).db.posts.get? key = some row)
    (hlive : row.isTombstone = 0) : ¬ row.expiresAt < now := by
  intro hexp
  have hpos : 0 < (expiredPosts now (sweeps config now s orders).db).length :=
    SqlTable.length_selectWhere_pos hrow (isExpired_iff.mpr ⟨hexp, hlive⟩)
  have hleft := length_expiredPosts_sweeps hfit
  omega

/-- Enough sweeps leave no expired message. -/
theorem messages_sweeps {config : GcConfig} {now : Int64} {s : NodeStore W}
    {orders : List SweepOrder} (hfit : BatchesFit config now s.db orders)
    (hroom : (expiredMessages now s.db.metadata).length
      ≤ orders.length * config.batchSize.toNat)
    {id : W.Digest} {row : MessageRow W}
    (hrow : (sweeps config now s orders).db.metadata.messages.get? id = some row) :
    ¬ row.expiresAt < now := by
  obtain ⟨hbefore, hswept⟩ := get?_messages_sweeps hfit hrow
  intro hexp
  -- an expired message makes room for at least one sweep
  have hpos : 0 < (expiredMessages now s.db.metadata).length :=
    SqlTable.length_selectWhere_pos hbefore (decide_eq_true hexp)
  refine hswept ?_ hexp
  rintro rfl
  rw [List.length_nil, Nat.zero_mul] at hroom
  omega

/-- Sweeps whose `UPDATE` fails leave the posts as they are. -/
theorem posts_sweeps_of_not_fits {config : GcConfig} {now : Int64} {s : NodeStore W}
    {orders : List SweepOrder}
    (h : ∀ order ∈ orders, ¬ UpdateFits config order now s.db) :
    (sweeps config now s orders).db.posts = s.db.posts := by
  induction orders generalizing s with
  | nil => rfl
  | cons order orders ih =>
    have hposts : (sweep config order now s).2.db.posts = s.db.posts := by
      rw [sweep_of_not_fits (h order List.mem_cons_self)]
      exact (sameButMedia_withoutMedia config order now s).posts
    refine (ih (s := (sweep config order now s).2) (fun o ho hfits => ?_)).trans hposts
    refine h o (List.mem_cons_of_mem _ ho) (hfits.mono ?_)
    rw [expiredPosts, expiredPosts, hposts]

/-- Sweeps collect what they can reach. -/
theorem collectsExpired_of_collectable {config : GcConfig} {variableLimit : ℕ} {now : Int64}
    {s : NodeStore W} (h : Collectable config variableLimit now s.db) :
    CollectsExpired config variableLimit now s := by
  obtain ⟨hchats, hbatch⟩ := h
  intro orders hlimit hroom
  have hfit : BatchesFit config now s.db orders := by
    intro order horder
    rw [updateFits_iff, hlimit order horder]
    rcases hbatch with hnone | hlt
    · rw [hnone, List.length_nil, Nat.min_zero]
      exact .inl rfl
    · exact .inr hlt
  unfold expiredCount at hroom
  refine ⟨?_, ?_, ?_⟩
  · intro key row hrow hlive
    exact posts_sweeps hfit (by omega) hrow hlive
  · intro id row hrow
    exact messages_sweeps hfit (by omega) hrow
  · intro id row hrow
    rw [groups_sweeps] at hrow
    exact hchats id row hrow

/-- **What sweeps collect.**  They leave nothing expired exactly if what has expired is in their
reach; a batch size of zero has room for nothing. -/
theorem collectsExpired_iff {config : GcConfig} {variableLimit : ℕ} {now : Int64}
    {s : NodeStore W} :
    CollectsExpired config variableLimit now s ↔
      (config.batchSize = 0 ∧ 0 < expiredCount now s.db) ∨
        Collectable config variableLimit now s.db := by
  constructor
  · intro hcollects
    by_cases hzero : config.batchSize = 0 ∧ 0 < expiredCount now s.db
    · exact .inl hzero
    · right
      have hlimit : ∀ order ∈ List.replicate (expiredCount now s.db)
          { SweepOrder.asListed with variableLimit := variableLimit },
          order.variableLimit = variableLimit := by
        intro order horder
        rw [List.eq_of_mem_replicate horder]
      have hroom : expiredCount now s.db ≤ (List.replicate (expiredCount now s.db)
          { SweepOrder.asListed with variableLimit := variableLimit }).length
            * config.batchSize.toNat := by
        rw [List.length_replicate]
        by_cases hsize : config.batchSize = 0
        · have hcount : expiredCount now s.db = 0 := by
            by_contra hne
            exact hzero ⟨hsize, Nat.pos_of_ne_zero hne⟩
          rw [hcount, Nat.zero_mul]
        · have hpos : 0 < config.batchSize.toNat :=
            Nat.pos_of_ne_zero (fun h => hsize (UInt32.toNat_inj.mp h))
          exact Nat.le_mul_of_pos_right _ hpos
      have hnone := hcollects _ hlimit hroom
      constructor
      · intro id row hrow
        refine hnone.chatMessages id row ?_
        rw [groups_sweeps]
        exact hrow
      · by_contra hbatch
        push Not at hbatch
        obtain ⟨hposts, hlarge⟩ := hbatch
        -- no sweep is completed, so an expired post is still there
        obtain ⟨⟨key, row⟩, hmem⟩ := List.exists_mem_of_ne_nil _ hposts
        rw [expiredPosts, SqlTable.selectWhere, List.mem_filter, SqlTable.mem_rows_iff,
          isExpired_iff] at hmem
        refine hnone.posts key row ?_ hmem.2.2 hmem.2.1
        rw [posts_sweeps_of_not_fits]
        · exact hmem.1
        · intro order horder hfits
          rw [updateFits_iff, hlimit order horder] at hfits
          have hlen := List.length_pos_of_ne_nil hposts
          have hcount : 0 < expiredCount now s.db := by
            unfold expiredCount
            omega
          have hsize : config.batchSize.toNat ≠ 0 :=
            fun h => hzero ⟨UInt32.toNat_inj.mp h, hcount⟩
          omega
  · rintro (⟨hzero, hcount⟩ | hreach)
    · intro orders _ hroom
      have hnot : ¬ expiredCount now s.db ≤ 0 := by omega
      rw [hzero] at hroom
      exact absurd hroom hnot
    · exact collectsExpired_of_collectable hreach

/-! ## What reads hide -/

/-- The reads of posts hide the expired ones exactly if all that are left are tombstones that
no group has. -/
theorem hidesPosts_iff {now : Int64} {db : NodeDb W} :
    (∀ key row, db.posts.get? key = some row → row.expiresAt < now → ¬ db.ShowsPost now key) ↔
      (∀ key row, db.posts.get? key = some row → row.isTombstone = 0 → ¬ row.expiresAt < now) ∧
        ∀ group key post, db.groups.posts.get? (group, key) = some post →
          ∀ row, db.posts.get? key = some row → ¬ row.expiresAt < now := by
  constructor
  · intro hhides
    constructor
    · intro key row hrow hlive hexp
      exact hhides key row hrow hexp (NodeDb.showsPost_of_live hrow hlive)
    · intro group key post hpost row hrow hexp
      exact hhides key row hrow hexp (NodeDb.showsPost_of_group hpost)
  · rintro ⟨hposts, hgroups⟩ key row hrow hexp hshows
    rcases NodeDb.row_of_showsPost hshows with ⟨row', hrow', hlive⟩ | ⟨group, post, hpost⟩
    · rw [hrow, Option.some.injEq] at hrow'
      subst hrow'
      exact hposts key row hrow hlive hexp
    · exact hgroups group key post hpost row hrow hexp

/-- Threads hide expired messages exactly if they list none. -/
theorem hidesThreads_iff (C : Cipher W) (secret : C.X25519Secret) {now : Int64}
    {db : MetadataDb W} :
    (∀ loc conversationId limit, ∀ item ∈
        (DirectMessage.getThread C db loc secret conversationId limit).1,
        ¬ item.expiresAt < now) ↔
      ∀ id row, NodeDb.InThread db id row → ¬ row.expiresAt < now := by
  have hshown := NodeDb.exists_thread_iff C secret db (fun t => t < now)
  constructor
  · intro hhides id row hin hexp
    obtain ⟨loc, conversationId, limit, item, hitem, hitemExp⟩ := hshown.mpr ⟨id, row, hin, hexp⟩
    exact hhides loc conversationId limit item hitem hitemExp
  · intro hfresh loc conversationId limit item hitem hexp
    obtain ⟨id, row, hin, hrowExp⟩ :=
      hshown.mp ⟨loc, conversationId, limit, item, hitem, hexp⟩
    exact hfresh id row hin hrowExp

/-- **When expiry is kept.**  Reads hide what has expired and sweeps of every batch size collect
it exactly on stores on which nothing that a read could show has expired; of the two, the sweeps
of one batch size only need that no message of a group chat has, and that their `UPDATE` fits. -/
theorem expiry_iff (C : Cipher W) (secret : C.X25519Secret) (now : Int64) (s : NodeStore W)
    (variableLimit : ℕ) :
    (HidesExpired C secret s.db now ∧ (∀ config, CollectsExpired config variableLimit now s) ↔
        Fresh now s.db) ∧
      ∀ config : GcConfig, CollectsExpired config variableLimit now s ↔
        (config.batchSize = 0 ∧ 0 < expiredCount now s.db) ∨
          Collectable config variableLimit now s.db := by
  refine ⟨⟨?_, ?_⟩, fun config => collectsExpired_iff⟩
  · rintro ⟨hhides, hcollects⟩
    obtain ⟨hposts, hgroups⟩ := hidesPosts_iff.mp hhides.posts
    have hreach := (collectsExpired_iff.mp (hcollects ⟨1⟩)).resolve_left
      (fun h => absurd h.1 (by decide))
    exact ⟨hposts, hgroups, (hidesThreads_iff C secret).mp hhides.threads, hreach.1⟩
  · intro hfresh
    have hnone : expiredPosts now s.db = [] := by
      refine SqlTable.selectWhere_eq_nil (fun key row hrow => ?_)
      rw [Bool.eq_false_iff, Ne, isExpired_iff]
      exact fun hexp => hfresh.posts key row hrow hexp.2 hexp.1
    refine ⟨⟨?_, ?_, ?_⟩, fun config =>
      collectsExpired_of_collectable ⟨hfresh.chatMessages, .inl hnone⟩⟩
    · exact hidesPosts_iff.mpr ⟨hfresh.posts, hfresh.groupPosts⟩
    · exact (hidesThreads_iff C secret).mpr hfresh.threads
    · rintro chatId limit before reader rows hrows ⟨id, row⟩ hmem
      exact hfresh.chatMessages id row (NodeDb.get?_of_mem_getChatMessages hrows hmem)

/-! ## A post after its hour -/

open TinyNode

/-- **An expired post is shown.**  A second after its hour has passed, and before a sweep, the
profile of its author shows the post. -/
theorem expired_post_shown :
    ¬ ∀ (s : NodeStore Wire.symbolic) (now : Int64), Reachable primitives s →
      HidesExpired Cipher.symbolic alice s.db now ∧
        ∀ config, CollectsExpired config 32766 now s := by
  intro h
  have hlive : hiRow.isTombstone = 0 := by decide +kernel
  have hexp : hiRow.expiresAt < 1700003601 := by decide +kernel
  have hhides := (h afterHi 1700003601 reachable_afterHi).1
  exact hhides.posts hiKey hiRow get?_hiRow hexp (NodeDb.showsPost_of_live get?_hiRow hlive)

end NodeStore
