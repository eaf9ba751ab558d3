/-
# Posting to a group and deleting the post (`services/social.rs`, `store/group.rs`)

`post_to_group` stores a hash of 32 bytes with its version byte in front, as the table of posts
does.  `delete_group_post` looks for the bytes as they were given.  So a post that was named by
the 64 digits of its hash is not found under the same digits, although the deletion reports
success, and one that was named by 66 digits is.

`removed_iff` is the exact condition, over every run of the operations on groups.
-/
import Ephemera.Feed
import Ephemera.GroupOp

namespace GroupPosts

open StateExcept GuardedRun GroupService GroupOp

/-- The tables that `get_group_feed` reads. -/
def feedDb (db : GroupDb) : FeedDb := { FeedDb.empty with groupPosts := db.posts }

/-- What a deletion should do to the post with the hash that was given as `hash`: exactly its row
goes, and the pages of the feed of the group show other rows only. -/
structure Removed (g : String) (hash : List UInt8) (db db' : GroupDb) : Prop where
  gone : db'.posts.get? (g, wireBytes hash) = none
  others : ∀ k, k ≠ (g, wireBytes hash) → db'.posts.get? k = db.posts.get? k
  tables : { db' with posts := db.posts } = db
  feed : ∀ order cursor limit, ∀ item ∈ ((feedDb db').getGroupFeed g order cursor limit).items,
    ∃ row ∈ ((feedDb db).groupQuery g).rows, row.hash ≠ wireBytes hash ∧ item = row.item

/-- The caller is a member who may delete posts. -/
def MayDelete (db : GroupDb) (env : GroupEnv) (g : String) : Prop :=
  ∃ pubkey role, callerRole db env g = .ok (pubkey, role) ∧ role.canDeletePosts = true

/-! ## The two calls -/

variable {hashHex : String → String} {db : GroupDb} {env : GroupEnv} {g h : String}
  {hash : List UInt8}

/-- A post fails and changes nothing, or its row is inserted. -/
theorem exec_postToGroup_cases (db : GroupDb) (env : GroupEnv) (g h : String) :
    (∃ e, exec (GroupService.postToGroup env g h) db = (.error e, db)) ∨
      ∃ hash pubkey, Hex.decode h = .ok hash ∧
        exec (GroupService.postToGroup env g h) db = (.ok (), { db with
          posts := db.posts.insertOrIgnore (g, wireBytes hash) ⟨pubkey, env.now.toInt64⟩ }) := by
  unfold GroupService.postToGroup
  simp only [exec_bind, exec_get, exec_lift]
  cases callerRole db env g with
  | error e => exact Or.inl ⟨e, rfl⟩
  | ok caller =>
    cases hdecode : Hex.decode h with
    | error e => exact Or.inl ⟨_, rfl⟩
    | ok hash => exact Or.inr ⟨hash, caller.1, rfl, rfl⟩

/-- A deletion fails and changes nothing, or the row with the bytes as given is deleted. -/
theorem exec_deleteGroupPost_cases (db : GroupDb) (env : GroupEnv) (g h : String) :
    (∃ e, exec (GroupService.deleteGroupPost env g h) db = (.error e, db)) ∨
      ∃ hash, exec (GroupService.deleteGroupPost env g h) db = (.ok (), { db with
        posts := db.posts.deleteWhere (fun k _ => decide (k = (g, hash))) }) := by
  unfold GroupService.deleteGroupPost
  simp only [exec_bind, exec_get, exec_lift]
  cases callerRole db env g with
  | error e => exact Or.inl ⟨e, rfl⟩
  | ok caller =>
    by_cases hrole : caller.2.canDeletePosts = true
    · simp only [hrole, if_true]
      cases Hex.decode h with
      | error e => exact Or.inl ⟨_, rfl⟩
      | ok hash => exact Or.inr ⟨hash, rfl⟩
    · simp only [hrole]
      exact Or.inl ⟨_, rfl⟩

/-- What a deletion does, by a caller who may delete. -/
theorem exec_deleteGroupPost (hmay : MayDelete db env g) (hdecode : Hex.decode h = .ok hash) :
    exec (GroupService.deleteGroupPost env g h) db = (.ok (), { db with
      posts := db.posts.deleteWhere (fun k _ => decide (k = (g, hash))) }) := by
  obtain ⟨pubkey, role, hcaller, hrole⟩ := hmay
  unfold GroupService.deleteGroupPost
  simp only [exec_bind, exec_get, exec_lift, hcaller, hrole, if_true, hdecode, Except.mapError]
  rfl

/-! ## The keys of the table -/

theorem length_wireBytes (hash : List UInt8) : (wireBytes hash).length ≠ 32 := by
  unfold wireBytes
  split
  · rename_i hlen
    rw [List.length_cons]
    omega
  · rename_i hlen
    exact hlen

theorem posts_onCaller {f : String → GroupRole → GroupDb}
    (hf : ∀ pubkey role, (f pubkey role).posts = db.posts) :
    (onCaller db env g f).posts = db.posts := by
  unfold onCaller
  split
  · exact hf _ _
  · rfl

/-- The operations that write posts. -/
def Writes : GroupOp → Prop
  | .postToGroup _ _ _ | .deleteGroupPost _ _ _ | .deleteGroup _ _ => True
  | _ => False

/-- The others leave them alone. -/
theorem posts_apply {op : GroupOp} (hop : ¬Writes op) :
    (apply hashHex db op).posts = db.posts := by
  cases op with
  | postToGroup env g h => exact absurd trivial hop
  | deleteGroupPost env g h => exact absurd trivial hop
  | deleteGroup env g => exact absurd trivial hop
  | createGroup env name description visibility =>
    rcases apply_createGroup_cases db env name description visibility with
      h | ⟨loc, -, -, ⟨-, h⟩ | ⟨-, h⟩⟩
    · rw [h]
    · rw [h]
    · rw [h]
  | joinGroup env g =>
    rw [apply_joinGroup]
    split
    · split
      · rfl
      · rfl
    · rfl
  | leaveGroup env g =>
    rw [apply_leaveGroup]
    split
    · split
      · rfl
      · rfl
    · rfl
  | inviteToGroup env g target =>
    rw [apply_inviteToGroup]
    exact posts_onCaller (fun _ _ => by split <;> rfl)
  | setGroupRole env g target newRole =>
    rw [apply_setGroupRole]
    exact posts_onCaller (fun _ _ => by split <;> rfl)
  | kickMember env g target =>
    rw [apply_kickMember]
    exact posts_onCaller (fun _ _ => by split <;> rfl)
  | banMember env g target reason =>
    rw [apply_banMember]
    exact posts_onCaller (fun _ _ => by split <;> rfl)
  | transferOwnership env g newOwner =>
    rw [apply_transferOwnership]
    exact posts_onCaller (fun _ _ => by split <;> rfl)
  | createPrivateChat env name members =>
    exact keeps_createPrivateChat db env (fun _ _ => rfl) (fun _ _ => rfl) name members
  | createGroupChat env g => exact keeps_createGroupChat db env g (fun _ _ => rfl)
  | addChatMember env chatId member =>
    exact keeps_addChatMember db env (fun _ _ => rfl) chatId member
  | leaveChat env chatId => exact keeps_leaveChat db env (fun _ _ => rfl) chatId
  | sendGroupChatMessage env chatId body =>
    exact keeps_sendGroupChatMessage db env (fun _ _ => rfl) chatId body
  | getChatMessages env chatId limit => exact keeps_getChatMessages db env chatId limit

/-- No key of the table has a hash of 32 bytes. -/
def WireKeys (db : GroupDb) : Prop := ∀ k, db.posts.get? k ≠ none → k.2.length ≠ 32

/-- **One operation.** -/
theorem WireKeys.apply (h : WireKeys db) (op : GroupOp) : WireKeys (apply hashHex db op) := by
  by_cases hop : Writes op
  · intro k hk
    -- a row that is left was there, or it is the one of a post
    cases op with
    | postToGroup env g text =>
      change (exec (GroupService.postToGroup env g text) db).2.posts.get? k ≠ none at hk
      rcases exec_postToGroup_cases db env g text with ⟨e, heq⟩ | ⟨hash, pubkey, -, heq⟩
      · rw [heq] at hk
        exact h k hk
      · rw [heq] at hk
        dsimp only at hk
        rw [SqlTable.get?_insertOrIgnore] at hk
        split at hk
        · rename_i hkey
          rw [hkey]
          exact length_wireBytes hash
        · exact h k hk
    | deleteGroupPost env g text =>
      change (exec (GroupService.deleteGroupPost env g text) db).2.posts.get? k ≠ none at hk
      rcases exec_deleteGroupPost_cases db env g text with ⟨e, heq⟩ | ⟨hash, heq⟩
      · rw [heq] at hk
        exact h k hk
      · rw [heq] at hk
        dsimp only at hk
        rw [SqlTable.get?_deleteWhere_key] at hk
        split at hk
        · exact absurd rfl hk
        · exact h k hk
    | deleteGroup env g =>
      rw [apply_deleteGroup] at hk
      unfold onCaller at hk
      split at hk
      · dsimp only at hk
        split at hk
        · change (db.posts.deleteWhere _).get? k ≠ none at hk
          rw [SqlTable.get?_deleteWhere_key] at hk
          split at hk
          · exact absurd rfl hk
          · exact h k hk
        · exact h k hk
      · exact h k hk
    | _ => exact hop.elim
  · intro k hk
    rw [posts_apply hop] at hk
    exact h k hk

/-- **A run.** -/
theorem wireKeys_run (ops : List GroupOp) : WireKeys (run (GroupOp.apply hashHex) .empty ops) :=
  run_invariant_of_step (fun _ op h => h.apply op) (fun _ h => absurd rfl h) ops

/-! ## The feed -/

/-- A page shows rows of its query. -/
theorem exists_row_of_mem_feedPage {R : Type} {q : FeedQuery R}
    {order : KeysetPaging.DescOrder q.key} {cursor : Option FeedCursor} {pageSize : UInt32}
    {item : FeedItem}
    (h : item ∈ (feedPage q order cursor pageSize).items) : ∃ row ∈ q.rows, item = q.item row := by
  have hall : item ∈ (((order.sort (q.matching cursor)).take
      (min pageSize.toNat maxPageRows + 1)).filter (fun r => !q.skip r)).map q.item := by
    unfold feedPage at h
    dsimp only at h
    split at h
    · exact List.mem_of_mem_take h
    · exact h
  obtain ⟨row, hrow, rfl⟩ := List.mem_map.mp hall
  have hmatch : row ∈ q.matching cursor :=
    (order.perm _).mem_iff.mp (List.mem_of_mem_take (List.mem_filter.mp hrow).1)
  refine ⟨row, ?_, rfl⟩
  cases cursor with
  | none => exact hmatch
  | some c => exact (List.mem_filter.mp hmatch).1

/-- The rows of the feed of a group. -/
theorem mem_groupQuery_iff {row : GroupPostResult} :
    row ∈ ((feedDb db).groupQuery g).rows ↔
      ∃ v, db.posts.get? (g, row.hash) = some v ∧ row.author = v.authorPubkey ∧
        row.createdAt = v.createdAt := by
  obtain ⟨bytes, author, createdAt⟩ := row
  show _ ∈ (db.posts.selectWhere (fun k _ => decide (k.1 = g))).map _ ↔ _
  rw [List.mem_map]
  constructor
  · rintro ⟨⟨k, v⟩, hmem, heq⟩
    obtain ⟨hrow, hkey⟩ := List.mem_filter.mp hmem
    cases heq
    have hk : k = (g, k.2) := by rw [← of_decide_eq_true hkey]
    rw [hk] at hrow
    exact ⟨v, SqlTable.mem_rows_iff.mp hrow, rfl, rfl⟩
  · rintro ⟨v, hget, hauthor, htime⟩
    refine ⟨((g, bytes), v), List.mem_filter.mpr ⟨SqlTable.mem_rows_iff.mpr hget, by simp⟩, ?_⟩
    dsimp only at hauthor htime ⊢
    rw [hauthor, htime]

/-! ## Deletions -/

/-- Deleting under the key of a row removes it, and no other. -/
theorem removed_of_gone (hgone : (db.posts.deleteWhere
      (fun k _ => decide (k = (g, hash)))).get? (g, wireBytes hash) = none)
    (hothers : hash = wireBytes hash ∨ db.posts.get? (g, hash) = none) :
    Removed g hash db { db with
      posts := db.posts.deleteWhere (fun k _ => decide (k = (g, hash))) } := by
  -- The deletion looks under `(g, hash)`: that is the row itself, or there is nothing.
  have hget : ∀ k, k ≠ (g, wireBytes hash) →
      (db.posts.deleteWhere (fun k _ => decide (k = (g, hash)))).get? k = db.posts.get? k := by
    intro k hk
    rw [SqlTable.get?_deleteWhere_key]
    split
    · rename_i hkey
      have hkey : k = (g, hash) := of_decide_eq_true hkey
      rcases hothers with hwire | hnone
      · exact absurd (hwire ▸ hkey) hk
      · rw [hkey, hnone]
    · rfl
  refine ⟨hgone, hget, rfl, fun order cursor limit item hitem => ?_⟩
  obtain ⟨row, hrow, rfl⟩ := exists_row_of_mem_feedPage hitem
  obtain ⟨v, hv, hauthor, htime⟩ := mem_groupQuery_iff.mp hrow
  have hne : row.hash ≠ wireBytes hash := by
    intro heq
    rw [heq] at hv
    exact absurd (hgone.symm.trans hv) (Option.some_ne_none v).symm
  refine ⟨row, mem_groupQuery_iff.mpr ⟨v, ?_, hauthor, htime⟩, hne, rfl⟩
  rw [← hget (g, row.hash) (fun h => hne (Prod.mk.inj h).2)]
  exact hv

/-- **One deletion**: it removes the post exactly if the hash has not 32 bytes, or the row is
not there. -/
theorem removed_delete_iff (hkeys : WireKeys db) (hmay : MayDelete db env g)
    (hdecode : Hex.decode h = .ok hash) :
    Removed g hash db (GroupOp.apply hashHex db (.deleteGroupPost env g h)) ↔
      hash.length ≠ 32 ∨ db.posts.get? (g, wireBytes hash) = none := by
  have hafter : GroupOp.apply hashHex db (.deleteGroupPost env g h) = { db with
      posts := db.posts.deleteWhere (fun k _ => decide (k = (g, hash))) } :=
    congrArg Prod.snd (exec_deleteGroupPost hmay hdecode)
  rw [hafter]
  by_cases hlen : hash.length = 32
  · -- the row is under the wire bytes, and the deletion looks under the hash
    have hne : (g, wireBytes hash) ≠ (g, hash) := by
      intro heq
      exact length_wireBytes hash ((congrArg List.length (Prod.mk.inj heq).2).trans hlen)
    have hsame : (db.posts.deleteWhere (fun k _ => decide (k = (g, hash)))).get?
        (g, wireBytes hash) = db.posts.get? (g, wireBytes hash) := by
      rw [SqlTable.get?_deleteWhere_key, if_neg (by simpa using hne)]
    rw [or_iff_right (not_not.mpr hlen), ← hsame]
    refine ⟨fun hremoved => hremoved.gone, fun hgone => removed_of_gone hgone (Or.inr ?_)⟩
    by_contra hrow
    exact hkeys (g, hash) hrow hlen
  · -- other hashes are stored as they are
    have hwire : wireBytes hash = hash := if_neg hlen
    refine iff_of_true (removed_of_gone ?_ (Or.inl hwire.symm)) (Or.inl hlen)
    rw [hwire, SqlTable.get?_deleteWhere_key, if_pos (by simp)]

/-- **Group posts can be removed again** with the text they were posted with, after any
operations before and in between, exactly if this has not 64 digits, or the row has gone before
the deletion. -/
theorem removed_iff (hashHex : String → String) (before : List GroupOp) {poster : GroupEnv}
    {g h : String}
    (hposted : (exec (GroupService.postToGroup poster g h)
      (run (GroupOp.apply hashHex) .empty before)).1 = .ok ()) :
    ∃ hash, Hex.decode h = .ok hash ∧
      (run (GroupOp.apply hashHex) .empty (before ++ [.postToGroup poster g h])).posts.get?
        (g, wireBytes hash) ≠ none ∧
      ∀ (between : List GroupOp) (deleter : GroupEnv) (db : GroupDb),
        db = run (GroupOp.apply hashHex) .empty (before ++ [.postToGroup poster g h] ++ between) →
        MayDelete db deleter g →
        (Removed g hash db (GroupOp.apply hashHex db (.deleteGroupPost deleter g h)) ↔
          h.length ≠ 64 ∨ db.posts.get? (g, wireBytes hash) = none) := by
  rcases exec_postToGroup_cases (run (GroupOp.apply hashHex) .empty before) poster g h with
    ⟨e, heq⟩ | ⟨hash, pubkey, hdecode, heq⟩
  · rw [heq] at hposted
    cases hposted
  · refine ⟨hash, hdecode, ?_, ?_⟩
    · have hafter := congrArg Prod.snd heq
      rw [run_append]
      show (exec (GroupService.postToGroup poster g h) _).2.posts.get? _ ≠ none
      rw [hafter]
      dsimp only
      rw [SqlTable.get?_insertOrIgnore, if_pos rfl]
      exact Option.some_ne_none _
    · rintro between deleter db rfl hmay
      have hlen := Hex.length_of_decode hdecode
      rw [removed_delete_iff (wireKeys_run _) hmay hdecode, ne_eq, ne_eq,
        show hash.length = 32 ↔ h.length = 64 by omega]

/-- The owner of a group, at any time. -/
def owner : GroupEnv := ⟨.ok [1], 0, .ok (), fun _ _ => false⟩

/-- The owner creates the group. -/
def created : List GroupOp := [.createGroup owner "g" none "public"]

/-- The table after the owner has posted under a hash of zeros, and the owner may delete. -/
theorem mayDelete_owner (n : ℕ) (hn : n = 32 ∨ n = 33) :
    MayDelete (run (GroupOp.apply id) .empty
      (created ++ [.postToGroup owner "g" (Hex.encode (List.replicate n 0))] ++ [])) owner "g" := by
  refine ⟨Hex.encode [1], .owner, ?_, rfl⟩
  rcases hn with rfl | rfl
  · rfl
  · rfl

/-- A post under 66 digits. -/
theorem removed_iff_wire :
    (exec (GroupService.postToGroup owner "g" (Hex.encode (List.replicate 33 0)))
      (run (GroupOp.apply id) .empty created)).1 = .ok () ∧
    ∃ hash, Removed "g" hash
      (run (GroupOp.apply id) .empty
        (created ++ [.postToGroup owner "g" (Hex.encode (List.replicate 33 0))] ++ []))
      (GroupOp.apply id (run (GroupOp.apply id) .empty
        (created ++ [.postToGroup owner "g" (Hex.encode (List.replicate 33 0))] ++ []))
        (.deleteGroupPost owner "g" (Hex.encode (List.replicate 33 0)))) := by
  have hposted : (exec (GroupService.postToGroup owner "g" (Hex.encode (List.replicate 33 0)))
      (run (GroupOp.apply id) .empty created)).1 = .ok () := by rfl
  obtain ⟨hash, -, -, hiff⟩ := removed_iff id created hposted
  exact ⟨hposted, hash, (hiff [] owner _ rfl (mayDelete_owner 33 (Or.inr rfl))).mpr
    (Or.inl (by decide))⟩

/-- A post under 64 digits, and its deletion: both report success, and the row is still there,
and in the feed. -/
theorem kept_under_hash :
    let db := run (GroupOp.apply id) .empty
      (created ++ [.postToGroup owner "g" (Hex.encode (List.replicate 32 0))] ++ [])
    let db' := GroupOp.apply id db
      (.deleteGroupPost owner "g" (Hex.encode (List.replicate 32 0)))
    (exec (GroupService.postToGroup owner "g" (Hex.encode (List.replicate 32 0)))
      (run (GroupOp.apply id) .empty created)).1 = .ok () ∧
    (exec (GroupService.deleteGroupPost owner "g" (Hex.encode (List.replicate 32 0))) db).1
      = .ok () ∧
    ¬Removed "g" (List.replicate 32 0) db db' ∧
    ((feedDb db').groupQuery "g").rows.map GroupPostResult.hash = [1 :: List.replicate 32 0] := by
  refine ⟨by rfl, by rfl, fun h => ?_, by rfl⟩
  have hrow : (GroupDb.posts (GroupOp.apply id (run (GroupOp.apply id) .empty
      (created ++ [.postToGroup owner "g" (Hex.encode (List.replicate 32 0))] ++ []))
      (.deleteGroupPost owner "g" (Hex.encode (List.replicate 32 0))))).get?
        ("g", wireBytes (List.replicate 32 0)) = some ⟨Hex.encode [1], 0⟩ := by rfl
  exact absurd (h.gone.symm.trans hrow) (Option.some_ne_none _).symm

end GroupPosts
