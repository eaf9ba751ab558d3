/-
# Chats linked to a group

The module documentation of group chats says that a linked chat shares the membership of its
group.  In the code the two memberships are separate tables, and no call ever writes a member
of a linked chat: `create_group_linked_chat` adds nobody, and `add_chat_member` asks for an
adder who is a member of the chat already.

So a linked chat has no members in any reachable state (`unlinked_run`), all its sends and
reads are refused, and the documented rule holds only while the group has no members either
(`linked_chat_shared_iff`).
-/
import Ephemera.GroupGovernance

namespace LinkedChat

open GuardedRun StateExcept GroupService GroupOp GroupGovernance

variable {hashHex : String → String} {db : GroupDb}

/-! ## Members of chats -/

/-- Only chats that are not linked have members. -/
def Unlinked (db : GroupDb) : Prop :=
  ∀ chatId m, db.chatMembers.get? (chatId, m) ≠ none →
    ∃ row, db.chats.get? chatId = some row ∧ row.isGroupLinked = false

/-- The tables of chats and their members. -/
def chatTables (db : GroupDb) :
    SqlTable String GroupChatRow × SqlTable (String × String) Int64 :=
  (db.chats, db.chatMembers)

theorem Unlinked.of_eq {db' : GroupDb} (h : Unlinked db) (heq : chatTables db' = chatTables db) :
    Unlinked db' := by
  have hchats : db'.chats = db.chats := congrArg Prod.fst heq
  have hmembers : db'.chatMembers = db.chatMembers := congrArg Prod.snd heq
  unfold Unlinked
  rw [hchats, hmembers]
  exact h

/-- A call that does something for a member only keeps the chats if that does. -/
theorem chatTables_onCaller {env : GroupEnv} {g : String} {f : String → GroupRole → GroupDb}
    (h : ∀ pubkey role, chatTables (f pubkey role) = chatTables db) :
    chatTables (onCaller db env g f) = chatTables db := by
  unfold onCaller
  split
  · exact h _ _
  · rfl

/-- A chat is inserted under an id that is free. -/
theorem exec_insertChat (chatId : String) (row : GroupChatRow) (db : GroupDb) :
    exec (GroupStore.insertChat chatId row) db = if db.chats.get? chatId = none then
      (.ok (), { db with chats := db.chats.insertOrIgnore chatId row })
    else (.error (.storage "UNIQUE constraint failed: group_chats.chat_id"), db) := by
  unfold GroupStore.insertChat
  simp only [exec_bind, exec_get]
  by_cases hfree : db.chats.get? chatId = none
  · rw [SqlTable.insert?_eq_some_iff.mpr ⟨hfree, rfl⟩, if_pos hfree]
    rfl
  · rw [SqlTable.insert?, dif_neg hfree, if_neg hfree]
    rfl

/-- A new chat leaves the chats that are there. -/
theorem Unlinked.insertChat (h : Unlinked db) (chatId : String) (row : GroupChatRow) :
    Unlinked { db with chats := db.chats.insertOrIgnore chatId row } := by
  intro c m hm
  obtain ⟨old, hold, hlink⟩ := h c m hm
  exact ⟨old, SqlTable.get?_insertOrIgnore_eq_some.mpr (Or.inl hold), hlink⟩

/-- A member may come into a chat that is not linked. -/
theorem Unlinked.addChatMemberRow (h : Unlinked db) {chatId : String} {row : GroupChatRow}
    (hchat : db.chats.get? chatId = some row) (hlink : row.isGroupLinked = false) (m : String)
    (joinedAt : Int64) : Unlinked (GroupStore.addChatMemberRow db chatId m joinedAt) := by
  intro c m' hm'
  simp only [GroupStore.addChatMemberRow, SqlTable.get?_insertOrIgnore] at hm'
  split at hm'
  · rename_i hk
    obtain ⟨rfl, rfl⟩ := Prod.mk.inj hk
    exact ⟨row, hchat, hlink⟩
  · exact h c m' hm'

theorem Unlinked.addChatMemberRows (h : Unlinked db) {chatId : String} {row : GroupChatRow}
    (hchat : db.chats.get? chatId = some row) (hlink : row.isGroupLinked = false)
    (pks : List String) (joinedAt : Int64) :
    Unlinked (pks.foldl (fun db pk => GroupStore.addChatMemberRow db chatId pk joinedAt) db) := by
  induction pks generalizing db with
  | nil => exact h
  | cons pk pks ih => exact ih (h.addChatMemberRow hchat hlink pk joinedAt) hchat

/-- A member may go. -/
theorem Unlinked.of_fewer {db' : GroupDb} (h : Unlinked db)
    (hmembers : ∀ k, db'.chatMembers.get? k ≠ none → db.chatMembers.get? k ≠ none)
    (hchats : ∀ c m row, db'.chatMembers.get? (c, m) ≠ none → db.chats.get? c = some row →
      db'.chats.get? c = some row) : Unlinked db' := by
  intro c m hm
  obtain ⟨row, hrow, hlink⟩ := h c m (hmembers _ hm)
  exact ⟨row, hchats c m row hm hrow, hlink⟩

theorem Unlinked.deleted (h : Unlinked db) (g : String) : Unlinked (GroupOp.deleted db g) := by
  refine h.of_fewer ?_ ?_
  · intro k hk
    change (db.chatMembers.deleteWhere _).get? k ≠ none at hk
    rw [SqlTable.get?_deleteWhere_key] at hk
    split at hk
    · exact absurd rfl hk
    · exact hk
  · intro c m row hm hrow
    change (db.chatMembers.deleteWhere _).get? (c, m) ≠ none at hm
    show (db.chats.deleteWhere _).get? c = some row
    rw [SqlTable.get?_deleteWhere_key] at hm
    rw [SqlTable.get?_deleteWhere, hrow, Option.filter_eq_some_iff]
    refine ⟨rfl, ?_⟩
    -- the members of a chat of the group went with it
    by_contra hgroup
    refine hm (if_pos (SqlTable.existsWhere_iff.mpr ⟨c, row, hrow, ?_⟩))
    simpa using hgroup

theorem unlinked_createPrivateChat (h : Unlinked db) (env : GroupEnv) (name : Option String)
    (members : List String) :
    Unlinked (apply hashHex db (.createPrivateChat env name members)) := by
  unfold apply after GroupService.createPrivateChat
  simp only [exec_bind, exec_lift]
  cases env.identity with
  | error e => exact h
  | ok loc =>
    simp only [store, exec_mapErr, GroupStore.createPrivateGroupChat]
    split
    · exact h
    · rw [exec_bind, exec_insertChat]
      by_cases hfree : db.chats.get? (generateChatId hashHex (Hex.encode loc)
          env.now.toInt64.toUInt64) = none
      · rw [if_pos hfree]
        have hchat := h.insertChat (generateChatId hashHex (Hex.encode loc)
          env.now.toInt64.toUInt64) ⟨name, false, none, env.now.toInt64⟩
        simp only [exec_bind, exec_get]
        split
        · exact hchat
        · rename_i chatMembers hins
          obtain ⟨-, rfl⟩ := SqlTable.insert?_eq_some_iff.mp hins
          have hrow := SqlTable.get?_insertOrIgnore_eq_some.mpr
            (Or.inr ⟨hfree, rfl, (rfl : (⟨name, false, none, env.now.toInt64⟩ : GroupChatRow) = _)⟩)
          exact (hchat.addChatMemberRow hrow rfl _ _).addChatMemberRows hrow rfl _ _
      · rw [if_neg hfree]
        exact h

theorem unlinked_createGroupChat (h : Unlinked db) (env : GroupEnv) (g : String) :
    Unlinked (apply hashHex db (.createGroupChat env g)) := by
  unfold apply after GroupService.createGroupChat
  simp only [store, exec_mapErr, GroupStore.createGroupLinkedChat, exec_bind, exec_get]
  split
  · exact h
  · split
    · exact h
    · rw [exec_bind, exec_insertChat]
      split
      · rename_i heq
        split at heq
        · obtain ⟨-, rfl⟩ := Prod.mk.inj heq
          exact h.insertChat _ _
        · cases heq
      · rename_i heq
        split at heq
        · cases heq
        · obtain ⟨-, rfl⟩ := Prod.mk.inj heq
          exact h

/-- Who adds somebody to a chat is a member of it, so the chat is not linked. -/
theorem unlinked_addChatMember (h : Unlinked db) (env : GroupEnv) (chatId member : String) :
    Unlinked (apply hashHex db (.addChatMember env chatId member)) := by
  unfold apply after GroupService.addChatMember
  simp only [exec_bind, exec_lift]
  cases env.identity with
  | error e => exact h
  | ok loc =>
    simp only [store, exec_mapErr, GroupStore.addChatMember, exec_bind, exec_get, exec_lift]
    cases hadder : GroupStore.checkAdder db env.blocks chatId member (some (Hex.encode loc)) with
    | error e => exact h
    | ok u =>
      simp only
      split
      · exact h
      · have hmember : db.chatMembers.get? (chatId, Hex.encode loc) ≠ none := by
          intro hnone
          simp [GroupStore.checkAdder, GroupDb.isChatMember, hnone] at hadder
        obtain ⟨row, hrow, hlink⟩ := h chatId _ hmember
        exact h.addChatMemberRow hrow hlink member _

theorem unlinked_leaveChat (h : Unlinked db) (env : GroupEnv) (chatId : String) :
    Unlinked (apply hashHex db (.leaveChat env chatId)) := by
  unfold apply after GroupService.leaveChat
  simp only [exec_bind, exec_lift]
  cases env.identity with
  | error e => exact h
  | ok loc =>
    refine h.of_fewer ?_ (fun _ _ _ _ hrow => hrow)
    intro k hk
    change (db.chatMembers.deleteWhere _).get? k ≠ none at hk
    rw [SqlTable.get?_deleteWhere_key] at hk
    split at hk
    · exact absurd rfl hk
    · exact hk

/-- Every call leaves linked chats without members. -/
theorem unlinked_apply (op : GroupOp) (h : Unlinked db) : Unlinked (apply hashHex db op) := by
  cases op with
  | createGroup env name description visibility =>
    obtain heq | ⟨loc, -, -, ⟨-, heq⟩ | ⟨-, heq⟩⟩ :=
      @apply_createGroup_cases hashHex db env name description visibility
    · rwa [heq]
    · exact h.of_eq (by rw [heq]; rfl)
    · exact h.of_eq (by rw [heq]; rfl)
  | joinGroup env g =>
    rw [apply_joinGroup]
    split
    · split
      · exact h.of_eq rfl
      · exact h
    · exact h
  | inviteToGroup env g target =>
    rw [apply_inviteToGroup]
    refine h.of_eq (chatTables_onCaller (fun _ _ => ?_))
    split <;> rfl
  | leaveGroup env g =>
    rw [apply_leaveGroup]
    split
    · split
      · exact h
      · exact h.of_eq rfl
    · exact h
  | setGroupRole env g target newRole =>
    rw [apply_setGroupRole]
    refine h.of_eq (chatTables_onCaller (fun _ _ => ?_))
    split <;> rfl
  | kickMember env g target =>
    rw [apply_kickMember]
    refine h.of_eq (chatTables_onCaller (fun _ _ => ?_))
    split <;> rfl
  | banMember env g target reason =>
    rw [apply_banMember]
    refine h.of_eq (chatTables_onCaller (fun _ _ => ?_))
    split <;> rfl
  | transferOwnership env g newOwner =>
    rw [apply_transferOwnership]
    refine h.of_eq (chatTables_onCaller (fun _ _ => ?_))
    split <;> rfl
  | deleteGroup env g =>
    rw [apply_deleteGroup]
    unfold onCaller
    split
    · simp only
      split
      · exact h.deleted g
      · exact h
    · exact h
  | postToGroup env g hash => exact h.of_eq (keeps_postToGroup db env g (fun _ _ => rfl) hash)
  | deleteGroupPost env g hash =>
    exact h.of_eq (keeps_deleteGroupPost db env g (fun _ _ => rfl) hash)
  | createPrivateChat env name members => exact unlinked_createPrivateChat h env name members
  | createGroupChat env g => exact unlinked_createGroupChat h env g
  | addChatMember env chatId member => exact unlinked_addChatMember h env chatId member
  | leaveChat env chatId => exact unlinked_leaveChat h env chatId
  | sendGroupChatMessage env chatId body =>
    exact h.of_eq (keeps_sendGroupChatMessage db env (fun _ _ => rfl) chatId body)
  | getChatMessages env chatId limit => exact h.of_eq (keeps_getChatMessages db env chatId limit)

variable (hashHex) in
/-- A linked chat has no members, after any run. -/
theorem unlinked_run (ops : List GroupOp) : Unlinked (run (apply hashHex) .empty ops) := by
  refine run_invariant_of_step (fun _ op h => unlinked_apply op h) ?_ ops
  intro chatId m hm
  exact absurd rfl hm

/-! ## Sends and reads -/

/-- The call returns a result. -/
def Succeeds {α : Type} (m : GroupM α) (db : GroupDb) : Prop := ∃ a, (exec m db).1 = .ok a

/-- The chat `chatId` is open to the members of the group `g` and to nobody else: a send by
an identity that is not rate limited, under a message id that is free, and a read succeed
exactly when the identity is a member of `g`. -/
structure SharesMembers (hashHex : String → String) (db : GroupDb) (chatId g : String) : Prop where
  send : ∀ (env : GroupEnv) (loc : IdentityKey) (body : String), env.identity = .ok loc →
    env.rateLimit = .ok () →
    db.chatMessages.get? (chatMessageId hashHex chatId (Hex.encode loc) env.now.toInt64 body)
      = none →
    (Succeeds (GroupService.sendGroupChatMessage hashHex env chatId body) db ↔
      db.role g (Hex.encode loc) ≠ none)
  read : ∀ (env : GroupEnv) (loc : IdentityKey) (limit : UInt32), env.identity = .ok loc →
    (Succeeds (GroupService.getChatMessages env chatId limit) db ↔
      db.role g (Hex.encode loc) ≠ none)

/-- A read succeeds for the members of the chat. -/
theorem succeeds_getChatMessages_iff {env : GroupEnv} {loc : IdentityKey} {chatId : String}
    {limit : UInt32} (hid : env.identity = .ok loc) :
    Succeeds (GroupService.getChatMessages env chatId limit) db ↔
      db.chatMembers.get? (chatId, Hex.encode loc) ≠ none := by
  unfold Succeeds GroupService.getChatMessages store GroupStore.getChatMessages
    GroupStore.checkChatMember GroupDb.isChatMember
  simp only [exec_bind, exec_lift, hid, exec_mapErr, exec_get]
  cases hmember : db.chatMembers.get? (chatId, Hex.encode loc) with
  | none => simp [Except.mapError]
  | some joinedAt => simp [Except.mapError]

/-- A send succeeds for the members of the chat. -/
theorem succeeds_sendGroupChatMessage_iff {env : GroupEnv} {loc : IdentityKey}
    {chatId body : String} (hid : env.identity = .ok loc) (hrate : env.rateLimit = .ok ())
    (hfree : db.chatMessages.get?
      (chatMessageId hashHex chatId (Hex.encode loc) env.now.toInt64 body) = none) :
    Succeeds (GroupService.sendGroupChatMessage hashHex env chatId body) db ↔
      db.chatMembers.get? (chatId, Hex.encode loc) ≠ none := by
  unfold Succeeds GroupService.sendGroupChatMessage store GroupStore.sendGroupChatMessage
    GroupStore.checkChatMember GroupDb.isChatMember
  simp only [exec_bind, exec_lift, hid, hrate, exec_mapErr, exec_get, Except.mapError]
  rw [SqlTable.insert?_eq_some_iff.mpr ⟨hfree, rfl⟩]
  cases hmember : db.chatMembers.get? (chatId, Hex.encode loc) with
  | none => simp
  | some joinedAt => exact ⟨fun _ => by simp, fun _ => ⟨_, rfl⟩⟩

/-- A linked chat serves nobody. -/
theorem no_member_of_linked (ops : List GroupOp) {chatId : String} {row : GroupChatRow}
    (hchat : (run (apply hashHex) .empty ops).chats.get? chatId = some row)
    (hlinked : row.isGroupLinked = true) (m : String) :
    (run (apply hashHex) .empty ops).chatMembers.get? (chatId, m) = none := by
  by_contra hm
  obtain ⟨row', hrow', hlink⟩ := unlinked_run hashHex ops chatId m hm
  rw [hchat] at hrow'
  cases hrow'
  rw [hlinked] at hlink
  cases hlink

/-- **When a linked chat shares the membership of its group.**  After any run of the calls on
groups and chats, a chat linked to the group `g` is open to the members of `g` and to nobody
else exactly if no identity is a member of `g`: a linked chat refuses everybody. -/
theorem linked_chat_shared_iff (hashHex : String → String) (ops : List GroupOp)
    (chatId g : String) (name : Option String) (createdAt : Int64)
    (hchat : (run (apply hashHex) .empty ops).chats.get? chatId =
      some ⟨name, true, some g, createdAt⟩) :
    SharesMembers hashHex (run (apply hashHex) .empty ops) chatId g ↔
      ∀ loc : IdentityKey,
        (run (apply hashHex) .empty ops).role g (Hex.encode loc) = none := by
  constructor
  · intro hshares loc
    by_contra hmember
    have hread := (hshares.read ⟨.ok loc, 0, .ok (), fun _ _ => false⟩ loc 0 rfl).mpr hmember
    rw [succeeds_getChatMessages_iff rfl] at hread
    exact hread (no_member_of_linked ops hchat rfl _)
  · intro hnobody
    constructor
    · intro env loc body hid hrate hfree
      rw [succeeds_sendGroupChatMessage_iff hid hrate hfree,
        no_member_of_linked ops hchat rfl, hnobody loc]
      simp
    · intro env loc limit hid
      rw [succeeds_getChatMessages_iff hid, no_member_of_linked ops hchat rfl, hnobody loc]
      simp

/-- Ann makes a group and its chat. -/
def chatOfClub : List GroupOp :=
  [.createGroup (callOf ann 1) "club" none "public", .createGroupChat (callOf ann 2) "club"]

/-- Ann then bans herself, and the group is empty like its chat. -/
theorem linked_chat_shared_empty :
    SharesMembers id (run (apply id) .empty
      (chatOfClub ++ [.banMember (callOf ann 3) "club" (Hex.encode ann) none])) "club:2"
        "club" := by
  refine (linked_chat_shared_iff id _ "club:2" "club" (some "club") 2
    (by decide +kernel)).mpr ?_
  intro loc
  have hnone : (run (apply id) GroupDb.empty
      (chatOfClub ++ [.banMember (callOf ann 3) "club" (Hex.encode ann) none])).members.rows
        = [] := by
    decide +kernel
  simp only [GroupDb.role, SqlTable.get?, hnone, List.find?_nil, Option.map_none]

/-- Ann is the owner of the group and cannot read its chat. -/
theorem chat_refuses_owner :
    ¬SharesMembers id (run (apply id) .empty chatOfClub) "club:2" "club" := by
  intro hshares
  have hread := (hshares.read (callOf ann 3) ann 10 rfl).mpr (by decide +kernel)
  rw [succeeds_getChatMessages_iff rfl] at hread
  exact hread (by decide +kernel)

end LinkedChat
