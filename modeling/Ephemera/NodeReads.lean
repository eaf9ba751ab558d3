/-
# What a node shows of its store

The reads of posts and messages over the whole database: `get` and the five feeds, threads
of direct messages and group chats.  A feed shows a post when one of its pages, for some
cursor and page size and some order of rows with equal times, has the item of its row; every
row that is selected and not skipped is shown by some page (`lists_of_selected`).
-/
import Ephemera.DirectMessage
import Ephemera.GroupChat
import Ephemera.NodeStore

open KeysetPaging

/-! ## Pages with a given row -/

namespace FeedQuery

variable {R : Type} {q : FeedQuery R}

/-- The rows a request gets may end with any row that is selected: a cursor right after it
hides the later ones. -/
theorem exists_cursor {r : R} (hr : r ∈ q.rows) :
    ∃ cursor, r ∈ q.matching cursor ∧ ∀ x ∈ q.matching cursor, q.key x ≤ q.key r := by
  by_cases hmax : ∀ x ∈ q.rows, q.key x ≤ q.key r
  · exact ⟨none, hr, hmax⟩
  · obtain ⟨x, -, hx⟩ := by simpa using hmax
    -- the time of `r` is not the largest, so its successor does not wrap around
    have hsucc : (q.createdAt r + 1).toInt = (q.createdAt r).toInt + 1 := by
      have hxlt : (q.createdAt x).toInt < 2 ^ 63 := Int64.toInt_lt _
      have hrge : -2 ^ 63 ≤ (q.createdAt r).toInt := Int64.le_toInt _
      have hlt : (q.createdAt r).toInt < (q.createdAt x).toInt := hx
      have hone : (1 : Int64).toInt = 1 := rfl
      rw [Int64.toInt_add, hone]
      exact Int.bmod_eq_of_le (by omega) (by omega)
    have hlt : ∀ y, (q.createdAt y < ((q.createdAt r + 1).toUInt64).toInt64) ↔
        q.key y ≤ q.key r := by
      intro y
      rw [Int64.toInt64_toUInt64, Int64.lt_iff_toInt_lt, hsucc]
      exact Int.lt_add_one_iff
    refine ⟨some ⟨(q.createdAt r + 1).toUInt64, ⟨0, []⟩⟩, ?_, ?_⟩
    · exact List.mem_filter.mpr ⟨hr, decide_eq_true ((hlt r).mpr le_rfl)⟩
    · intro y hy
      exact (hlt y).mp (of_decide_eq_true (List.mem_filter.mp hy).2)

/-- Some page has the item of a row that is selected and not skipped. -/
theorem exists_feedPage {r : R} (hr : r ∈ q.selected) :
    ∃ order cursor, q.item r ∈ (feedPage q order cursor 1).items := by
  obtain ⟨hrow, hskip⟩ := List.mem_filter.mp hr
  obtain ⟨cursor, hmem, hmax⟩ := exists_cursor hrow
  obtain ⟨order, hhead⟩ := exists_order_head hmem hmax
  refine ⟨order, cursor, ?_⟩
  obtain ⟨rest, hsort⟩ := List.head?_eq_some_iff.mp hhead
  have htake : (order.sort (q.matching cursor)).take (min (1 : UInt32).toNat maxPageRows + 1)
      = r :: rest.take 1 := by
    rw [hsort]
    rfl
  have hkeep : (r :: rest.take 1).filter (fun x => !q.skip x)
      = r :: (rest.take 1).filter (fun x => !q.skip x) := List.filter_cons_of_pos hskip
  simp only [feedPage, htake, hkeep, List.map_cons]
  split
  · exact List.mem_cons_self
  · exact List.mem_cons_self

end FeedQuery

/-! ## Posts -/

namespace Feed

/-- The key in `posts` behind a result row. -/
def rowHash : (feed : Feed) → feed.Row → List UInt8
  | connections _ => PostResult.hash
  | profile _ _ => PostResult.hash
  | discover _ => PostResult.hash
  | topic _ => PostResult.hash
  | group _ => GroupPostResult.hash

/-- Some page of the feed has the item of a row of the post. -/
def Lists (db : FeedDb) (now : Int64) (feed : Feed) (key : List UInt8) : Prop :=
  ∃ order cursor pageSize, ∃ r ∈ (feed.query db now).rows, feed.rowHash r = key ∧
    (feed.query db now).item r ∈ (feed.fetch db now pageSize order cursor).items

/-- A row that is selected is listed. -/
theorem lists_of_selected {db : FeedDb} {now : Int64} {feed : Feed} {r : feed.Row}
    (h : r ∈ (feed.query db now).selected) : feed.Lists db now (feed.rowHash r) := by
  obtain ⟨order, cursor, hmem⟩ := FeedQuery.exists_feedPage h
  refine ⟨order, cursor, 1, r, (List.mem_filter.mp h).1, rfl, ?_⟩
  rw [fetch_eq]
  exact hmem

end Feed

/-- The queries over `posts` select rows that are no tombstones. -/
theorem FeedDb.get?_of_mem_selectPosts {db : FeedDb} {p : List UInt8 → Bool} {r : PostResult}
    (h : r ∈ db.selectPosts p) : ∃ row, db.posts.get? r.hash = some row ∧ row.isTombstone = 0 := by
  obtain ⟨⟨key, row⟩, hmem, rfl⟩ := List.mem_map.mp h
  obtain ⟨hrow, hp⟩ := List.mem_filter.mp hmem
  exact ⟨row, SqlTable.mem_rows_iff.mp hrow, of_decide_eq_true (Bool.and_eq_true_iff.mp hp).2⟩

namespace NodeDb

variable {W : Wire}

/-- `get` returns the post, or a feed lists it. -/
def ShowsPost (db : NodeDb W) (now : Int64) (key : List UInt8) : Prop :=
  (∃ hashHex view, postKey hashHex = .ok key ∧ PostService.get db hashHex = .ok view) ∨
    ∃ feed : Feed, feed.Lists db.feeds now key

/-- What the reads of posts need: a row that is no tombstone, or a post in a group. -/
theorem row_of_showsPost {db : NodeDb W} {now : Int64} {key : List UInt8}
    (h : db.ShowsPost now key) :
    (∃ row, db.posts.get? key = some row ∧ row.isTombstone = 0) ∨
      ∃ group post, db.groups.posts.get? (group, key) = some post := by
  rcases h with ⟨hashHex, view, hkey, hget⟩ | ⟨feed, order, cursor, pageSize, r, hr, rfl, -⟩
  · left
    unfold PostService.get at hget
    rw [hkey] at hget
    cases hrow : db.posts.get? key with
    | none => simp [hrow, bind, Except.bind, throw, throwThe, MonadExceptOf.throw] at hget
    | some row =>
      refine ⟨row, rfl, ?_⟩
      by_contra hne
      simp [hrow, hne, bind, Except.bind, throw, throwThe, MonadExceptOf.throw] at hget
  · cases feed with
    | connections identity => exact .inl (@FeedDb.get?_of_mem_selectPosts db.feeds _ r hr)
    | profile viewer profileOwner =>
      have hsel : r ∈ db.feeds.selectPosts (fun author => decide (author = profileOwner)) := hr
      exact .inl (FeedDb.get?_of_mem_selectPosts hsel)
    | discover viewer =>
      have hsel : r ∈ db.feeds.selectPosts (fun author =>
        !(db.feeds.connectedKeys viewer ++ db.feeds.getExcludedKeys viewer now).contains author) :=
        hr
      exact .inl (FeedDb.get?_of_mem_selectPosts hsel)
    | topic topicId =>
      obtain ⟨⟨k, time⟩, -, hjoin⟩ := List.mem_filterMap.mp hr
      left
      split at hjoin
      · rename_i post hpost
        split at hjoin
        · rename_i hlive
          cases hjoin
          exact ⟨post, hpost, hlive⟩
        · cases hjoin
      · cases hjoin
    | group groupId =>
      obtain ⟨⟨⟨group, key⟩, post⟩, hmem, rfl⟩ := List.mem_map.mp hr
      exact .inr ⟨group, post, SqlTable.mem_rows_iff.mp (List.mem_filter.mp hmem).1⟩

/-- A post that is no tombstone is shown, by the profile of its author. -/
theorem showsPost_of_live {db : NodeDb W} {now : Int64} {key : List UInt8} {row : PostRow}
    (hrow : db.posts.get? key = some row) (hlive : row.isTombstone = 0) :
    db.ShowsPost now key := by
  have hmem : (⟨key, row.authorPubkey, row.createdAt, row.parentHash⟩ : PostResult)
      ∈ (Feed.query db.feeds now (.profile row.authorPubkey row.authorPubkey)).selected := by
    refine List.mem_filter.mpr ⟨List.mem_map.mpr ⟨(key, row), ?_, rfl⟩, rfl⟩
    refine List.mem_filter.mpr ⟨SqlTable.mem_rows_iff.mpr hrow, ?_⟩
    simp [hlive]
  exact .inr ⟨.profile row.authorPubkey row.authorPubkey, Feed.lists_of_selected hmem⟩

/-- A post in a group is shown by the feed of the group. -/
theorem showsPost_of_group {db : NodeDb W} {now : Int64} {key : List UInt8} {group : String}
    {post : GroupPostRow} (h : db.groups.posts.get? (group, key) = some post) :
    db.ShowsPost now key := by
  have hmem : (⟨key, post.authorPubkey, post.createdAt⟩ : GroupPostResult)
      ∈ (Feed.query db.feeds now (.group group)).selected := by
    refine List.mem_filter.mpr ⟨List.mem_map.mpr ⟨((group, key), post), ?_, rfl⟩, rfl⟩
    exact List.mem_filter.mpr ⟨SqlTable.mem_rows_iff.mpr h, decide_eq_true rfl⟩
  exact .inr ⟨.group group, Feed.lists_of_selected hmem⟩

/-! ## Messages -/

/-- The messages of a conversation that are dated before the end of time, newest first. -/
def newestFirst (db : MetadataDb W) (conversationId : W.Digest) :
    List (W.Digest × MessageRow W) :=
  (db.messages.selectWhere (fun _ row => decide (row.conversationId = conversationId) &&
    decide (row.receivedAt < Int64.maxValue))).mergeSort
    (fun a b => decide (b.2.receivedAt ≤ a.2.receivedAt))

/-- The most messages a thread lists. -/
def maxThreadLen : ℕ := 2 ^ 32 - 1

/-- The messages that threads list. -/
def InThread (db : MetadataDb W) (id : W.Digest) (row : MessageRow W) : Prop :=
  (id, row) ∈ (newestFirst db row.conversationId).take maxThreadLen

/-- What a thread lists is stored, under its conversation. -/
theorem mem_newestFirst {db : MetadataDb W} {conversationId id : W.Digest} {row : MessageRow W}
    (h : (id, row) ∈ newestFirst db conversationId) :
    db.messages.get? id = some row ∧ row.conversationId = conversationId := by
  have hmem := List.mem_mergeSort.mp h
  rw [SqlTable.selectWhere, List.mem_filter, SqlTable.mem_rows_iff, Bool.and_eq_true,
    decide_eq_true_eq] at hmem
  exact ⟨hmem.1, hmem.2.1⟩

/-- The items of threads are those of the messages they list. -/
theorem exists_thread_iff (C : Cipher W) (secret : C.X25519Secret) (db : MetadataDb W)
    (p : Int64 → Prop) :
    (∃ loc conversationId limit, ∃ item ∈
        (DirectMessage.getThread C db loc secret conversationId limit).1, p item.expiresAt) ↔
      ∃ id row, InThread db id row ∧ p row.expiresAt := by
  constructor
  · rintro ⟨loc, conversationId, limit, item, hitem, hp⟩
    obtain ⟨⟨id, row⟩, hmem, rfl⟩ := List.mem_map.mp hitem
    have hle : limit.toUInt32.toNat ≤ maxThreadLen := Nat.le_sub_one_of_lt (UInt32.toNat_lt _)
    have htake : (id, row) ∈ (newestFirst db conversationId).take limit.toUInt32.toNat := hmem
    obtain ⟨-, hconv⟩ := mem_newestFirst (List.mem_of_mem_take htake)
    refine ⟨id, row, ?_, hp⟩
    rw [InThread, hconv]
    exact List.take_subset_take_left _ hle htake
  · rintro ⟨id, row, hmem, hp⟩
    refine ⟨[], row.conversationId, 4294967295, DirectMessage.threadItem C [] secret (id, row),
      ?_, hp⟩
    exact List.mem_map.mpr ⟨(id, row), hmem, rfl⟩

/-- A chat returns messages that are stored. -/
theorem get?_of_mem_getChatMessages {db : GroupDb} {chatId : String} {limit : UInt32}
    {before : Option Int64} {reader : Option String} {rows : List (String × ChatMessageRow)}
    (h : (StateExcept.exec (GroupStore.getChatMessages chatId limit before reader) db).1 = .ok rows)
    {id : String} {row : ChatMessageRow} (hmem : (id, row) ∈ rows) :
    db.chatMessages.get? id = some row := by
  unfold GroupStore.getChatMessages at h
  rw [StateExcept.exec_bind, StateExcept.exec_get] at h
  simp only [StateExcept.exec_bind, StateExcept.exec_lift] at h
  cases hcheck : GroupStore.checkChatMember db chatId reader with
  | error e => simp [hcheck] at h
  | ok _ =>
    simp only [hcheck, StateExcept.exec_pure, Except.ok.injEq] at h
    rw [← h] at hmem
    have hsel := List.mem_mergeSort.mp (List.mem_of_mem_take hmem)
    exact SqlTable.mem_rows_iff.mp (List.mem_filter.mp hsel).1

end NodeDb
