/-
# Who is in a private chat (`store/group_chat.rs`)

A private chat has at most `MAX_PRIVATE_CHAT_MEMBERS` members, its members are those it was
created with and those a member added, and `add_chat_member` refuses to add somebody who has
blocked the adder.  `create_private_group_chat` checks the number of members and nothing else,
so whoever has blocked the creator can still be put into a new chat.

`kept_iff_meets` is the exact condition on a run.  It needs that only chats that are there have
members (`LinkedChat.Unlinked`), so that a new chat starts without any.
-/
import Ephemera.LinkedChat

namespace PrivateChat

open GuardedRun StateExcept LinkedChat

/-! ## The calls -/

/-- The tables of the chats, and who has blocked whom. -/
structure ChatState where
  db : GroupDb
  blocks : IdentityKey → IdentityKey → Bool

/-- A call of the chat store, or a change of the table of blocks. -/
inductive Op where
  | create (name : Option String) (creator : String) (members : List String) (createdAt : Int64)
  | add (chatId member adder : String) (joinedAt : Int64)
  | leave (chatId member : String)
  | send (messageId chatId sender : String) (body : Option String) (createdAt expiresAt : Int64)
  | read (chatId : String) (limit : UInt32) (before : Option Int64) (reader : String)
  | setBlocks (blocks : IdentityKey → IdentityKey → Bool)

variable {hashHex : String → String}

/-- The call of an operation, without what it returns. -/
def call (hashHex : String → String) (blocks : IdentityKey → IdentityKey → Bool) :
    Op → StoreM Unit
  | .create name creator members createdAt => do
    let _ ← GroupStore.createPrivateGroupChat hashHex name creator members createdAt
  | .add chatId member adder joinedAt =>
    GroupStore.addChatMember blocks chatId member (some adder) joinedAt
  | .leave chatId member => GroupStore.leaveChat chatId member
  | .send messageId chatId sender body createdAt expiresAt => do
    let _ ← GroupStore.sendGroupChatMessage messageId chatId sender body createdAt expiresAt
  | .read chatId limit before reader => do
    let _ ← GroupStore.getChatMessages chatId limit before (some reader)
  | .setBlocks _ => pure ()

/-- The state after an operation. -/
def step (hashHex : String → String) (s : ChatState) (op : Op) : ChatState where
  db := (exec (call hashHex s.blocks op) s.db).2
  blocks := match op with
    | .setBlocks blocks => blocks
    | _ => s.blocks

theorem db_step (hashHex : String → String) (s : ChatState) (op : Op) :
    (step hashHex s op).db = (exec (call hashHex s.blocks op) s.db).2 := rfl

/-- The call returns `Ok`. -/
def Succeeds (hashHex : String → String) (s : ChatState) (op : Op) : Prop :=
  (exec (call hashHex s.blocks op) s.db).1 = .ok ()

/-! ## The rules -/

/-- The number of members of a chat. -/
def memberCount (db : GroupDb) (chatId : String) : ℕ :=
  (db.chatMembers.selectWhere (fun k _ => decide (k.1 = chatId))).length

/-- No chat has too many members. -/
def Small (db : GroupDb) : Prop := ∀ chatId, memberCount db chatId ≤ maxPrivateChatMembers

/-- Somebody who was not in the chat is in it after the operation. -/
def Enters (hashHex : String → String) (s : ChatState) (op : Op) (chatId user : String) : Prop :=
  s.db.isChatMember chatId user = false ∧ (step hashHex s op).db.isChatMember chatId user = true

/-- By the operation, `putter` puts `user`, who is somebody else, into a chat. -/
def Puts (user putter : String) : Op → Prop
  | .create _ creator _ _ => putter = creator ∧ user ≠ creator
  | .add _ member adder _ => putter = adder ∧ user = member
  | _ => False

/-- By the operation, `user` adds somebody to the chat, writes to it or reads it. -/
def ActsIn (chatId user : String) : Op → Prop
  | .add c _ adder _ => c = chatId ∧ adder = user
  | .send _ c sender _ _ _ => c = chatId ∧ sender = user
  | .read c _ _ reader => c = chatId ∧ reader = user
  | _ => False

/-- By the operation, `user` may come into the chat: as one of those it is created with, or
because a current member adds them. -/
def Admits (hashHex : String → String) (s : ChatState) (chatId user : String) : Op → Prop
  | .create _ creator members createdAt =>
    chatId = generateChatId hashHex creator createdAt.toUInt64 ∧ (user = creator ∨ user ∈ members)
  | .add c member adder _ => c = chatId ∧ member = user ∧ s.db.isChatMember chatId adder = true
  | _ => False

/-- **The rules of membership** for one operation. -/
structure Kept (hashHex : String → String) (s : ChatState) (op : Op) : Prop where
  entered : ∀ chatId user, Enters hashHex s op chatId user → Admits hashHex s chatId user op
  unblocked : ∀ chatId user putter, Enters hashHex s op chatId user → Puts user putter op →
    GroupStore.hasBlocked s.blocks user putter = false
  acted : Succeeds hashHex s op → ∀ chatId user, ActsIn chatId user op →
    s.db.isChatMember chatId user = true

/-- **The condition on an operation.**  Nobody in the list of a chat that gets created has blocked
its creator. -/
def Unblocked (hashHex : String → String) (s : ChatState) : Op → Prop
  | .create _ creator members createdAt => members.length + 1 ≤ maxPrivateChatMembers →
      s.db.chats.get? (generateChatId hashHex creator createdAt.toUInt64) = none →
        ∀ member ∈ members, member ≠ creator →
          GroupStore.hasBlocked s.blocks member creator = false
  | _ => True

/-! ## Members of chats -/

variable {db : GroupDb}

theorem isChatMember_iff {chatId user : String} :
    db.isChatMember chatId user = true ↔ db.chatMembers.get? (chatId, user) ≠ none := by
  rw [GroupDb.isChatMember, Option.isSome_iff_ne_none]

/-- A row more is at most one member more, and only in its chat. -/
theorem memberCount_addChatMemberRow_le (db : GroupDb) (c user : String) (joinedAt : Int64)
    (chatId : String) :
    memberCount (GroupStore.addChatMemberRow db c user joinedAt) chatId
      ≤ memberCount db chatId + if c = chatId then 1 else 0 := by
  unfold memberCount GroupStore.addChatMemberRow
  by_cases hnew : db.chatMembers.get? (c, user) = none
  · dsimp only
    rw [SqlTable.length_selectWhere_insertOrIgnore hnew]
    simp
  · dsimp only
    rw [SqlTable.insertOrIgnore_of_ne_none hnew]
    exact Nat.le_add_right _ _

theorem isChatMember_addChatMemberRow (db : GroupDb) (c member : String) (joinedAt : Int64)
    (chatId user : String) :
    (GroupStore.addChatMemberRow db c member joinedAt).isChatMember chatId user = true ↔
      (c = chatId ∧ member = user) ∨ db.isChatMember chatId user = true := by
  rw [isChatMember_iff, isChatMember_iff]
  unfold GroupStore.addChatMemberRow
  rw [SqlTable.get?_insertOrIgnore]
  by_cases hk : (chatId, user) = (c, member)
  · obtain ⟨rfl, rfl⟩ := Prod.mk.inj hk
    simp
  · rw [if_neg hk]
    refine ⟨Or.inr, fun h => h.resolve_left ?_⟩
    rintro ⟨rfl, rfl⟩
    exact hk rfl

/-- Rows for a list of members. -/
theorem memberCount_addChatMemberRows_le (db : GroupDb) (c : String) (pks : List String)
    (joinedAt : Int64) (chatId : String) :
    memberCount (pks.foldl (fun db pk => GroupStore.addChatMemberRow db c pk joinedAt) db) chatId
      ≤ memberCount db chatId + if c = chatId then pks.length else 0 := by
  induction pks generalizing db with
  | nil => simp
  | cons pk pks ih =>
    have hone := memberCount_addChatMemberRow_le db c pk joinedAt chatId
    have hrest := ih (GroupStore.addChatMemberRow db c pk joinedAt)
    rw [List.foldl_cons, List.length_cons]
    split_ifs at hone hrest ⊢
    · omega
    · omega

theorem isChatMember_addChatMemberRows (db : GroupDb) (c : String) (pks : List String)
    (joinedAt : Int64) (chatId user : String) :
    (pks.foldl (fun db pk => GroupStore.addChatMemberRow db c pk joinedAt) db).isChatMember chatId
        user = true ↔
      (c = chatId ∧ user ∈ pks) ∨ db.isChatMember chatId user = true := by
  induction pks generalizing db with
  | nil => simp
  | cons pk pks ih =>
    rw [List.foldl_cons, ih, isChatMember_addChatMemberRow, List.mem_cons]
    constructor
    · rintro (⟨hc, hmem⟩ | ⟨hc, rfl⟩ | hold)
      · exact Or.inl ⟨hc, Or.inr hmem⟩
      · exact Or.inl ⟨hc, Or.inl rfl⟩
      · exact Or.inr hold
    · rintro (⟨hc, rfl | hmem⟩ | hold)
      · exact Or.inr (Or.inl ⟨hc, rfl⟩)
      · exact Or.inl ⟨hc, hmem⟩
      · exact Or.inr (Or.inr hold)

/-- A chat that is not there has no members. -/
theorem memberCount_eq_zero (h : Unlinked db) {chatId : String}
    (hnone : db.chats.get? chatId = none) : memberCount db chatId = 0 := by
  unfold memberCount
  rw [List.length_eq_zero_iff]
  refine SqlTable.selectWhere_eq_nil ?_
  rintro ⟨c, user⟩ joinedAt hrow
  rw [decide_eq_false_iff_not]
  rintro rfl
  obtain ⟨row, hchat, -⟩ := h c user (by rw [hrow]; exact Option.some_ne_none joinedAt)
  rw [hnone] at hchat
  cases hchat

/-! ## Creating a chat -/

/-- The database with a new chat: its creator and the others are its members. -/
def created (db : GroupDb) (chatId : String) (name : Option String) (creator : String)
    (members : List String) (createdAt : Int64) : GroupDb :=
  (members.filter (fun pk => decide (pk ≠ creator))).foldl
    (fun db pk => GroupStore.addChatMemberRow db chatId pk createdAt)
    (GroupStore.addChatMemberRow { db with
      chats := db.chats.insertOrIgnore chatId ⟨name, false, none, createdAt⟩ } chatId creator
      createdAt)

/-- **Creating a chat** succeeds when the list is short and the id is free. -/
theorem db_create (hashHex : String → String) (h : Unlinked db)
    (blocks : IdentityKey → IdentityKey → Bool) (name : Option String) (creator : String)
    (members : List String) (createdAt : Int64) :
    (exec (call hashHex blocks (.create name creator members createdAt)) db).2
      = if members.length + 1 ≤ maxPrivateChatMembers ∧
            db.chats.get? (generateChatId hashHex creator createdAt.toUInt64) = none
        then created db (generateChatId hashHex creator createdAt.toUInt64) name creator members
          createdAt
        else db := by
  unfold call
  rw [exec_bind_pure_snd]
  unfold GroupStore.createPrivateGroupChat
  by_cases hlong : maxPrivateChatMembers < members.length + 1
  · rw [if_pos hlong, if_neg (fun hboth => absurd hboth.1 (not_le.mpr hlong))]
    rfl
  · rw [if_neg hlong, exec_bind, exec_insertChat]
    by_cases hfree : db.chats.get? (generateChatId hashHex creator createdAt.toUInt64) = none
    · -- the chat is new, so its creator is not a member yet
      have hnew : db.chatMembers.get?
          (generateChatId hashHex creator createdAt.toUInt64, creator) = none := by
        by_contra hmember
        obtain ⟨row, hrow, -⟩ := h _ _ hmember
        rw [hfree] at hrow
        cases hrow
      rw [if_pos hfree, if_pos ⟨not_lt.mp hlong, hfree⟩]
      simp only [exec_bind, exec_get, SqlTable.insert?_eq_some_iff.mpr ⟨hnew, rfl⟩, exec_modify,
        exec_pure]
      rfl
    · rw [if_neg hfree, if_neg (fun hboth => hfree hboth.2)]

/-- The members of a chat that has been created. -/
theorem isChatMember_created (db : GroupDb) (c : String) (name : Option String) (creator : String)
    (members : List String) (createdAt : Int64) (chatId user : String) :
    (created db c name creator members createdAt).isChatMember chatId user = true ↔
      (c = chatId ∧ (user = creator ∨ user ∈ members)) ∨ db.isChatMember chatId user = true := by
  unfold created
  rw [isChatMember_addChatMemberRows, isChatMember_addChatMemberRow, List.mem_filter,
    decide_eq_true_eq]
  constructor
  · rintro (⟨hc, hmem, -⟩ | ⟨hc, rfl⟩ | hold)
    · exact Or.inl ⟨hc, Or.inr hmem⟩
    · exact Or.inl ⟨hc, Or.inl rfl⟩
    · exact Or.inr hold
  · rintro (⟨hc, huser⟩ | hold)
    · by_cases hcreator : user = creator
      · exact Or.inr (Or.inl ⟨hc, hcreator.symm⟩)
      · exact Or.inl ⟨hc, huser.resolve_left hcreator, hcreator⟩
    · exact Or.inr (Or.inr hold)

theorem small_created (h : Unlinked db) (hs : Small db) {c : String}
    (hfree : db.chats.get? c = none) {members : List String}
    (hshort : members.length + 1 ≤ maxPrivateChatMembers) (name : Option String) (creator : String)
    (createdAt : Int64) : Small (created db c name creator members createdAt) := by
  intro chatId
  have hrows := memberCount_addChatMemberRows_le (GroupStore.addChatMemberRow { db with
    chats := db.chats.insertOrIgnore c ⟨name, false, none, createdAt⟩ } c creator createdAt) c
    (members.filter (fun pk => decide (pk ≠ creator))) createdAt chatId
  have hone := memberCount_addChatMemberRow_le { db with
    chats := db.chats.insertOrIgnore c ⟨name, false, none, createdAt⟩ } c creator createdAt chatId
  have hbefore : memberCount { db with
      chats := db.chats.insertOrIgnore c ⟨name, false, none, createdAt⟩ } chatId
      = memberCount db chatId := rfl
  have hfilter := List.length_filter_le (fun pk => decide (pk ≠ creator)) members
  refine Nat.le_trans hrows ?_
  by_cases hc : c = chatId
  · subst hc
    have hzero := memberCount_eq_zero h hfree
    rw [if_pos rfl] at hone ⊢
    omega
  · have hold := hs chatId
    rw [if_neg hc] at hone ⊢
    omega

theorem unlinked_created (h : Unlinked db) {c : String} (hfree : db.chats.get? c = none)
    (name : Option String) (creator : String) (members : List String) (createdAt : Int64) :
    Unlinked (created db c name creator members createdAt) := by
  have hrow := SqlTable.get?_insertOrIgnore_eq_some.mpr
    (Or.inr ⟨hfree, rfl, (rfl : (⟨name, false, none, createdAt⟩ : GroupChatRow) = _)⟩)
  exact ((h.insertChat c ⟨name, false, none, createdAt⟩).addChatMemberRow hrow rfl creator
    createdAt).addChatMemberRows hrow rfl _ createdAt

/-! ## The other calls -/

/-- The adder passes when a member, and not blocked by whom they add. -/
theorem checkAdder_eq_ok {blocks : IdentityKey → IdentityKey → Bool}
    {chatId member adder : String} :
    GroupStore.checkAdder db blocks chatId member (some adder) = .ok () ↔
      db.isChatMember chatId adder = true ∧
        GroupStore.hasBlocked blocks member adder = false := by
  unfold GroupStore.checkAdder
  dsimp only
  cases db.isChatMember chatId adder with
  | false => simp
  | true =>
    cases GroupStore.hasBlocked blocks member adder with
    | false => simp
    | true => simp

/-- **Adding a member** is refused unless the adder passes and there is room. -/
theorem exec_add (hashHex : String → String) (blocks : IdentityKey → IdentityKey → Bool)
    (chatId member adder : String) (joinedAt : Int64) (db : GroupDb) :
    (GroupStore.checkAdder db blocks chatId member (some adder) = .ok () ∧
        memberCount db chatId < maxPrivateChatMembers ∧
        exec (call hashHex blocks (.add chatId member adder joinedAt)) db
          = (.ok (), GroupStore.addChatMemberRow db chatId member joinedAt)) ∨
      ∃ e, exec (call hashHex blocks (.add chatId member adder joinedAt)) db = (.error e, db) := by
  unfold call GroupStore.addChatMember
  simp only [exec_bind, exec_get, exec_lift]
  cases hcheck : GroupStore.checkAdder db blocks chatId member (some adder) with
  | error e => exact Or.inr ⟨e, rfl⟩
  | ok u =>
    simp only
    by_cases hfull : maxPrivateChatMembers ≤ memberCount db chatId
    · refine Or.inr ⟨.validation "group chat is full (50 members max)", ?_⟩
      rw [if_pos (by exact hfull)]
      rfl
    · refine Or.inl ⟨trivial, not_le.mp hfull, ?_⟩
      rw [if_neg (by exact hfull)]
      rfl

/-- Writing and reading leave the members, and are for members only. -/
theorem exec_send (hashHex : String → String) (blocks : IdentityKey → IdentityKey → Bool)
    (messageId chatId sender : String)
    (body : Option String) (createdAt expiresAt : Int64) (db : GroupDb) :
    chatTables (exec (call hashHex blocks (.send messageId chatId sender body createdAt expiresAt))
        db).2 = chatTables db ∧
      ((exec (call hashHex blocks (.send messageId chatId sender body createdAt expiresAt)) db).1
        = .ok () → db.isChatMember chatId sender = true) := by
  unfold call GroupStore.sendGroupChatMessage
  simp only [exec_bind, exec_get, exec_lift, GroupStore.checkChatMember]
  cases hmember : db.isChatMember chatId sender with
  | false => exact ⟨rfl, fun h => by cases h⟩
  | true =>
    refine ⟨?_, fun _ => rfl⟩
    simp only [if_true]
    cases db.chatMessages.insert? messageId ⟨chatId, sender, body, createdAt, expiresAt⟩ <;> rfl

theorem exec_read (hashHex : String → String) (blocks : IdentityKey → IdentityKey → Bool)
    (chatId : String) (limit : UInt32) (before : Option Int64) (reader : String) (db : GroupDb) :
    (exec (call hashHex blocks (.read chatId limit before reader)) db).2 = db ∧
      ((exec (call hashHex blocks (.read chatId limit before reader)) db).1 = .ok () →
        db.isChatMember chatId reader = true) := by
  unfold call GroupStore.getChatMessages
  simp only [exec_bind, exec_get, exec_lift, GroupStore.checkChatMember]
  cases hmember : db.isChatMember chatId reader with
  | false => exact ⟨rfl, fun h => by cases h⟩
  | true => exact ⟨rfl, fun _ => rfl⟩

/-- Whoever leaves is no member any more; everybody else stays. -/
theorem db_leave (blocks : IdentityKey → IdentityKey → Bool) (chatId member : String)
    (db : GroupDb) :
    (exec (call hashHex blocks (.leave chatId member)) db).2 = { db with
      chatMembers := db.chatMembers.deleteWhere (fun k _ => decide (k = (chatId, member))) } := rfl

/-! ## One operation -/

/-- What every operation leaves: members only in chats that are there, and not too many. -/
structure Inv (db : GroupDb) : Prop where
  unlinked : Unlinked db
  small : Small db

theorem Inv.of_chatTables {db' : GroupDb} (h : Inv db) (heq : chatTables db' = chatTables db) :
    Inv db' := by
  have hmembers : db'.chatMembers = db.chatMembers := congrArg Prod.snd heq
  refine ⟨h.unlinked.of_eq heq, fun chatId => ?_⟩
  unfold memberCount
  rw [hmembers]
  exact h.small chatId

/-- **One operation** keeps the chats small. -/
theorem inv_step {s : ChatState} (h : Inv s.db) (op : Op) : Inv (step hashHex s op).db := by
  cases op with
  | create name creator members createdAt =>
    rw [db_step, db_create hashHex h.unlinked]
    split_ifs with hok
    · exact ⟨unlinked_created h.unlinked hok.2 _ _ _ _,
        small_created h.unlinked h.small hok.2 hok.1 _ _ _⟩
    · exact h
  | add chatId member adder joinedAt =>
    rcases exec_add hashHex s.blocks chatId member adder joinedAt s.db with
      ⟨hcheck, hroom, hexec⟩ | ⟨e, hexec⟩
    · obtain ⟨row, hrow, hlink⟩ := h.unlinked chatId adder
        (isChatMember_iff.mp (checkAdder_eq_ok.mp hcheck).1)
      rw [db_step, hexec]
      refine ⟨h.unlinked.addChatMemberRow hrow hlink member joinedAt, fun c => ?_⟩
      refine Nat.le_trans (memberCount_addChatMemberRow_le s.db chatId member joinedAt c) ?_
      split_ifs with hc
      · exact hc ▸ hroom
      · exact h.small c
    · rw [db_step, hexec]
      exact h
  | leave chatId member =>
    rw [db_step, db_leave]
    refine ⟨h.unlinked.of_fewer (fun k hk => ?_) (fun _ _ _ _ hrow => hrow), fun c => ?_⟩
    · dsimp only at hk
      rw [SqlTable.get?_deleteWhere_key] at hk
      split_ifs at hk
      · exact absurd rfl hk
      · exact hk
    · have hfewer := SqlTable.length_selectWhere_deleteWhere_le s.db.chatMembers
        (fun k _ => decide (k.1 = c)) (fun k _ => decide (k = (chatId, member)))
      exact Nat.le_trans hfewer (h.small c)
  | send messageId chatId sender body createdAt expiresAt =>
    exact h.of_chatTables
      (exec_send hashHex s.blocks messageId chatId sender body createdAt expiresAt s.db).1
  | read chatId limit before reader =>
    rw [db_step, (exec_read hashHex s.blocks chatId limit before reader s.db).1]
    exact h
  | setBlocks blocks => exact h

/-- An operation that leaves the members lets nobody in. -/
theorem kept_of_chatTables {s : ChatState} {op : Op}
    (heq : chatTables (step hashHex s op).db = chatTables s.db)
    (hacted : Succeeds hashHex s op → ∀ chatId user, ActsIn chatId user op →
      s.db.isChatMember chatId user = true) : Kept hashHex s op := by
  have hmembers : (step hashHex s op).db.chatMembers = s.db.chatMembers := congrArg Prod.snd heq
  have hnobody : ∀ chatId user, ¬Enters hashHex s op chatId user := by
    rintro chatId user ⟨hbefore, hafter⟩
    rw [GroupDb.isChatMember, hmembers] at hafter
    rw [GroupDb.isChatMember, hafter] at hbefore
    cases hbefore
  exact ⟨fun c u h => absurd h (hnobody c u), fun c u _ h => absurd h (hnobody c u), hacted⟩

/-- Adding somebody keeps the rules. -/
theorem kept_add (s : ChatState) (chatId member adder : String) (joinedAt : Int64) :
    Kept hashHex s (.add chatId member adder joinedAt) := by
  rcases exec_add hashHex s.blocks chatId member adder joinedAt s.db with
    ⟨hcheck, -, hexec⟩ | ⟨e, hexec⟩
  · obtain ⟨hadder, hblocked⟩ := checkAdder_eq_ok.mp hcheck
    have henters : ∀ c user, Enters hashHex s (.add chatId member adder joinedAt) c user →
        chatId = c ∧ member = user := by
      rintro c user ⟨hbefore, hafter⟩
      rw [db_step, hexec] at hafter
      rcases (isChatMember_addChatMemberRow s.db chatId member joinedAt c user).mp hafter with h | h
      · exact h
      · rw [hbefore] at h
        cases h
    refine ⟨fun c user h => ?_, fun c user putter h hputs => ?_, fun _ c user hacts => ?_⟩
    · obtain ⟨rfl, rfl⟩ := henters c user h
      exact ⟨rfl, rfl, hadder⟩
    · obtain ⟨rfl, rfl⟩ := hputs
      exact hblocked
    · obtain ⟨rfl, rfl⟩ := hacts
      exact hadder
  · refine kept_of_chatTables ?_ (fun hok => ?_)
    · rw [db_step, hexec]
    · rw [Succeeds, hexec] at hok
      cases hok

/-- Creating a chat keeps the rules exactly when nobody in its list has blocked the creator. -/
theorem kept_create_iff {s : ChatState} (h : Inv s.db) (name : Option String) (creator : String)
    (members : List String) (createdAt : Int64) :
    Kept hashHex s (.create name creator members createdAt) ↔
      Unblocked hashHex s (.create name creator members createdAt) := by
  have hdb : (step hashHex s (.create name creator members createdAt)).db = _ :=
    db_create hashHex h.unlinked s.blocks name creator members createdAt
  constructor
  · intro hkept hshort hfree member hmem hne
    have hbefore : s.db.isChatMember (generateChatId hashHex creator createdAt.toUInt64) member
        = false := by
      rw [Bool.eq_false_iff, Ne, isChatMember_iff]
      intro hin
      obtain ⟨row, hrow, -⟩ := h.unlinked _ _ hin
      rw [hfree] at hrow
      cases hrow
    have hafter : (step hashHex s (.create name creator members createdAt)).db.isChatMember
        (generateChatId hashHex creator createdAt.toUInt64) member = true := by
      rw [hdb, if_pos ⟨hshort, hfree⟩, isChatMember_created]
      exact Or.inl ⟨rfl, Or.inr hmem⟩
    exact hkept.unblocked _ member creator ⟨hbefore, hafter⟩ ⟨rfl, hne⟩
  · intro hunblocked
    have henters : ∀ c user, Enters hashHex s (.create name creator members createdAt) c user →
        (members.length + 1 ≤ maxPrivateChatMembers ∧
          s.db.chats.get? (generateChatId hashHex creator createdAt.toUInt64) = none) ∧
        generateChatId hashHex creator createdAt.toUInt64 = c ∧
          (user = creator ∨ user ∈ members) := by
      rintro c user ⟨hbefore, hafter⟩
      rw [hdb] at hafter
      split_ifs at hafter with hok
      · rcases (isChatMember_created _ _ _ _ _ _ _ _).mp hafter with hin | hold
        · exact ⟨hok, hin⟩
        · rw [hbefore] at hold
          cases hold
      · rw [hbefore] at hafter
        cases hafter
    refine ⟨fun c user hin => ?_, fun c user putter hin hputs => ?_,
      fun _ c user hacts => hacts.elim⟩
    · obtain ⟨-, hc, huser⟩ := henters c user hin
      exact ⟨hc.symm, huser⟩
    · obtain ⟨hok, -, huser⟩ := henters c user hin
      obtain ⟨rfl, hne⟩ := hputs
      exact hunblocked hok.1 hok.2 user (huser.resolve_left hne) hne

/-- **One operation** keeps the rules exactly under its condition. -/
theorem kept_iff {s : ChatState} (h : Inv s.db) (op : Op) :
    Kept hashHex s op ↔ Unblocked hashHex s op := by
  cases op with
  | create name creator members createdAt => exact kept_create_iff h name creator members createdAt
  | add chatId member adder joinedAt =>
    exact iff_of_true (kept_add s chatId member adder joinedAt) trivial
  | leave chatId member =>
    refine iff_of_true ⟨fun c user hin => ?_, fun c user putter _ hputs => hputs.elim,
      fun _ c user hacts => hacts.elim⟩ trivial
    obtain ⟨hbefore, hafter⟩ := hin
    rw [isChatMember_iff, db_step, db_leave] at hafter
    dsimp only at hafter
    rw [SqlTable.get?_deleteWhere_key] at hafter
    split_ifs at hafter
    · exact absurd rfl hafter
    · rw [← isChatMember_iff, hbefore] at hafter
      cases hafter
  | send messageId chatId sender body createdAt expiresAt =>
    have hsend := exec_send hashHex s.blocks messageId chatId sender body createdAt
      expiresAt s.db
    refine iff_of_true (kept_of_chatTables hsend.1 (fun hok c user hacts => ?_)) trivial
    obtain ⟨rfl, rfl⟩ := hacts
    exact hsend.2 hok
  | read chatId limit before reader =>
    have hread := exec_read hashHex s.blocks chatId limit before reader s.db
    refine iff_of_true (kept_of_chatTables (congrArg chatTables hread.1)
      (fun hok c user hacts => ?_)) trivial
    obtain ⟨rfl, rfl⟩ := hacts
    exact hread.2 hok
  | setBlocks blocks =>
    exact iff_of_true (kept_of_chatTables rfl (fun _ c user hacts => hacts.elim)) trivial

/-! ## Whole runs -/

/-- No chats, and any table of blocks. -/
def start (blocks : IdentityKey → IdentityKey → Bool) : ChatState := ⟨.empty, blocks⟩

/-- Every state of a run has small chats. -/
theorem inv_run (blocks : IdentityKey → IdentityKey → Bool) (ops : List Op) :
    Inv (run (step hashHex) (start blocks) ops).db := by
  have hstart : Inv (start blocks).db := by
    refine ⟨fun c m hm => absurd rfl hm, fun c => ?_⟩
    exact Nat.zero_le _
  have hstep : ∀ (s : ChatState) (op : Op), Inv s.db → Inv (step hashHex s op).db :=
    fun s op h => inv_step h op
  have hrun := run_invariant_of_step hstep hstart ops
  exact hrun

/-- **When the rules of membership are kept.**  In a run of the chat store every state has small
chats, and every operation keeps the rules exactly when no chat is created with somebody who has
blocked its creator. -/
theorem kept_iff_meets (hashHex : String → String) (blocks : IdentityKey → IdentityKey → Bool)
    (ops : List Op) :
    ((∀ l₁ l₂, ops = l₁ ++ l₂ → Small (run (step hashHex) (start blocks) l₁).db) ∧
        ∀ l₁ op l₂, ops = l₁ ++ op :: l₂ →
          Kept hashHex (run (step hashHex) (start blocks) l₁) op) ↔
      Meets (step hashHex) (Unblocked hashHex) (start blocks) ops := by
  rw [meets_iff_forall_split]
  constructor
  · exact fun h l₁ op l₂ heq => (kept_iff (inv_run blocks l₁) op).mp (h.2 l₁ op l₂ heq)
  · intro h
    refine ⟨fun l₁ _ _ => (inv_run blocks l₁).small, fun l₁ op l₂ heq => ?_⟩
    exact (kept_iff (inv_run blocks l₁) op).mpr (h l₁ op l₂ heq)

/-- The texts of two keys. -/
def aliceHex : String := Hex.encode (List.replicate 32 1)

def bobHex : String := Hex.encode (List.replicate 32 2)

/-- Bob has blocked Alice. -/
def bobBlocksAlice (blocker blocked : IdentityKey) : Bool :=
  decide (blocker = List.replicate 32 2) && decide (blocked = List.replicate 32 1)

/-- **A chat with somebody who has blocked its creator.**  Alice cannot add Bob to a chat, but she
can create one with him. -/
theorem blocked_creator_puts_in_chat :
    ¬Kept (fun text => text)
      (run (step (fun text => text)) (start (fun _ _ => false)) [.setBlocks bobBlocksAlice])
      (.create none aliceHex [bobHex] 1000) := by
  rw [kept_iff (inv_run _ _)]
  intro hunblocked
  have hfalse := hunblocked (by decide) rfl bobHex List.mem_cons_self (by decide +kernel)
  exact absurd hfalse (by decide +kernel)

end PrivateChat
