/-
# Runs of group operations

The calls of the social service on groups and group chats as one type of operations, and
the state each of them leaves.  Each operation has one equation, so that a statement about
runs never runs a call again.
-/
import Ephemera.GroupChat
import Ephemera.GuardedRun

/-- A call of the social service on groups or group chats. -/
inductive GroupOp where
  | createGroup (env : GroupEnv) (name : String) (description : Option String)
      (visibility : String)
  | joinGroup (env : GroupEnv) (groupId : String)
  | inviteToGroup (env : GroupEnv) (groupId target : String)
  | leaveGroup (env : GroupEnv) (groupId : String)
  | setGroupRole (env : GroupEnv) (groupId target newRole : String)
  | kickMember (env : GroupEnv) (groupId target : String)
  | banMember (env : GroupEnv) (groupId target : String) (reason : Option String)
  | transferOwnership (env : GroupEnv) (groupId newOwner : String)
  | deleteGroup (env : GroupEnv) (groupId : String)
  | postToGroup (env : GroupEnv) (groupId contentHashHex : String)
  | deleteGroupPost (env : GroupEnv) (groupId contentHashHex : String)
  | createPrivateChat (env : GroupEnv) (name : Option String) (members : List String)
  | createGroupChat (env : GroupEnv) (groupId : String)
  | addChatMember (env : GroupEnv) (chatId member : String)
  | leaveChat (env : GroupEnv) (chatId : String)
  | sendGroupChatMessage (env : GroupEnv) (chatId body : String)
  | getChatMessages (env : GroupEnv) (chatId : String) (limit : UInt32)

namespace GroupOp

open StateExcept GroupService
open GroupStore (groupIdFromName groupExists)

/-- The state a call leaves. -/
def after {α : Type} (m : GroupM α) (db : GroupDb) : GroupDb := (exec m db).2

variable (hashHex : String → String)

/-- The state after an operation. -/
def apply (db : GroupDb) : GroupOp → GroupDb
  | .createGroup env name description visibility =>
    after (GroupService.createGroup hashHex env name description visibility) db
  | .joinGroup env groupId => after (GroupService.joinGroup env groupId) db
  | .inviteToGroup env groupId target => after (GroupService.inviteToGroup env groupId target) db
  | .leaveGroup env groupId => after (GroupService.leaveGroup env groupId) db
  | .setGroupRole env groupId target newRole =>
    after (GroupService.setGroupRole env groupId target newRole) db
  | .kickMember env groupId target => after (GroupService.kickMember env groupId target) db
  | .banMember env groupId target reason =>
    after (GroupService.banMember env groupId target reason) db
  | .transferOwnership env groupId newOwner =>
    after (GroupService.transferOwnership env groupId newOwner) db
  | .deleteGroup env groupId => after (GroupService.deleteGroup env groupId) db
  | .postToGroup env groupId contentHashHex =>
    after (GroupService.postToGroup env groupId contentHashHex) db
  | .deleteGroupPost env groupId contentHashHex =>
    after (GroupService.deleteGroupPost env groupId contentHashHex) db
  | .createPrivateChat env name members =>
    after (GroupService.createPrivateChat hashHex env name members) db
  | .createGroupChat env groupId => after (GroupService.createGroupChat hashHex env groupId) db
  | .addChatMember env chatId member => after (GroupService.addChatMember env chatId member) db
  | .leaveChat env chatId => after (GroupService.leaveChat env chatId) db
  | .sendGroupChatMessage env chatId body =>
    after (GroupService.sendGroupChatMessage hashHex env chatId body) db
  | .getChatMessages env chatId limit =>
    after (GroupService.getChatMessages env chatId limit) db

/-! ## What the calls on groups leave -/

variable {hashHex} (db : GroupDb) (env : GroupEnv) (g : String)

/-- Do something with the caller's key and role, if it is a member. -/
def onCaller (f : String → GroupRole → GroupDb) : GroupDb :=
  match callerRole db env g with
  | .ok (pubkey, role) => f pubkey role
  | .error _ => db

theorem callerRole_eq_ok {db : GroupDb} {env : GroupEnv} {g pubkey : String} {role : GroupRole} :
    callerRole db env g = .ok (pubkey, role) ↔
      ∃ loc, env.identity = .ok loc ∧ pubkey = Hex.encode loc ∧ db.role g pubkey = some role := by
  unfold callerRole
  cases env.identity with
  | error e => simp [bind, Except.bind]
  | ok loc =>
    simp only [bind, Except.bind, Except.ok.injEq]
    constructor
    · intro h
      cases hrole : db.role g (Hex.encode loc) with
      | none => simp [hrole, throw, throwThe, MonadExceptOf.throw] at h
      | some r =>
        simp only [hrole, pure, Except.pure, Except.ok.injEq, Prod.mk.injEq] at h
        obtain ⟨rfl, rfl⟩ := h
        exact ⟨loc, rfl, rfl, hrole⟩
    · rintro ⟨loc', rfl, rfl, h⟩
      simp only [h, pure, Except.pure]

theorem apply_setGroupRole (target newRole : String) :
    apply hashHex db (.setGroupRole env g target newRole) = onCaller db env g (fun _ role =>
      if role.canSetRole (GroupRole.fromStrLossy newRole) then
        db.updateRole g target (GroupRole.fromStrLossy newRole)
      else db) := by
  unfold apply after GroupService.setGroupRole onCaller
  simp only [exec_bind, exec_get, exec_lift]
  cases callerRole db env g with
  | error e => rfl
  | ok caller =>
    simp only
    split <;> rfl

theorem apply_banMember (target : String) (reason : Option String) :
    apply hashHex db (.banMember env g target reason) = onCaller db env g (fun pubkey role =>
      if role.canBan then { db.removeMember g target with
        bans := db.bans.insertOrReplace (g, target) ⟨pubkey, reason, env.now.toInt64⟩ }
      else db) := by
  unfold apply after GroupService.banMember onCaller
  simp only [exec_bind, exec_get, exec_lift]
  cases callerRole db env g with
  | error e => rfl
  | ok caller =>
    simp only
    split <;> rfl

theorem apply_kickMember (target : String) :
    apply hashHex db (.kickMember env g target) = onCaller db env g (fun _ role =>
      if role.canKick = true ∧ role.rank < ((db.role g target).getD .member).rank then
        db.removeMember g target
      else db) := by
  unfold apply after GroupService.kickMember onCaller
  simp only [exec_bind, exec_get, exec_lift]
  cases callerRole db env g with
  | error e => rfl
  | ok caller =>
    simp only
    by_cases hkick : caller.2.canKick = true
    · rw [if_pos hkick]
      by_cases hrank : ((db.role g target).getD .member).rank ≤ caller.2.rank
      · rw [if_pos hrank, if_neg (by omega)]
        rfl
      · rw [if_neg hrank, if_pos ⟨hkick, by omega⟩]
        rfl
    · rw [if_neg hkick, if_neg (fun h => hkick h.1)]
      rfl

theorem apply_transferOwnership (newOwner : String) :
    apply hashHex db (.transferOwnership env g newOwner) = onCaller db env g (fun pubkey role =>
      if role = .owner ∧ db.role g newOwner ≠ none then
        (db.updateRole g pubkey .admin).updateRole g newOwner .owner
      else db) := by
  unfold apply after GroupService.transferOwnership onCaller
  simp only [exec_bind, exec_get, exec_lift]
  cases callerRole db env g with
  | error e => rfl
  | ok caller =>
    simp only [GroupRole.canDeleteGroup_iff]
    by_cases hrole : caller.2 = .owner
    · rw [if_pos hrole]
      unfold store GroupStore.transferOwnership
      simp only [exec_bind, exec_mapErr, exec_get]
      cases hnew : db.role g newOwner with
      | none => simp [Except.mapError]
      | some r =>
        simp only [Option.isNone_some, Bool.false_eq_true, if_false, exec_bind, exec_modify,
          Except.mapError, exec_pure]
        rw [if_pos ⟨hrole, by simp⟩]
    · rw [if_neg hrole, if_neg (fun h => hrole h.1)]
      rfl

/-- The state after the group is deleted. -/
def deleted (db : GroupDb) (g : String) : GroupDb := (exec (GroupStore.deleteGroup g) db).2

@[simp] theorem groups_deleted (g g' : String) :
    (deleted db g).groups.get? g' = if g' = g then none else db.groups.get? g' := by
  show (db.groups.deleteWhere _).get? g' = _
  rw [SqlTable.get?_deleteWhere_key]
  simp only [decide_eq_true_eq]

@[simp] theorem members_deleted (g : String) (k : String × String) :
    (deleted db g).members.get? k = if k.1 = g then none else db.members.get? k := by
  show (db.members.deleteWhere _).get? k = _
  rw [SqlTable.get?_deleteWhere_key]
  simp only [decide_eq_true_eq]

@[simp] theorem bans_deleted (g : String) (k : String × String) :
    (deleted db g).bans.get? k = if k.1 = g then none else db.bans.get? k := by
  show (db.bans.deleteWhere _).get? k = _
  rw [SqlTable.get?_deleteWhere_key]
  simp only [decide_eq_true_eq]

theorem apply_deleteGroup :
    apply hashHex db (.deleteGroup env g) = onCaller db env g (fun _ role =>
      if role = .owner then deleted db g else db) := by
  unfold apply after GroupService.deleteGroup onCaller
  simp only [exec_bind, exec_get, exec_lift]
  cases callerRole db env g with
  | error e => rfl
  | ok caller =>
    simp only [GroupRole.canDeleteGroup_iff]
    split <;> rfl

theorem apply_inviteToGroup (target : String) :
    apply hashHex db (.inviteToGroup env g target) = onCaller db env g (fun pubkey role =>
      if env.rateLimit = .ok () ∧ role.canInvite = true ∧ db.isBanned g target = false then
        db.addMember g target ⟨.member, env.now.toInt64, some pubkey⟩
      else db) := by
  unfold apply after GroupService.inviteToGroup onCaller
  simp only [exec_bind, exec_get, exec_lift]
  cases hid : env.identity with
  | error e => simp [callerRole, hid, bind, Except.bind]
  | ok loc =>
    cases hrate : env.rateLimit with
    | error e =>
      simp only [Except.mapError]
      split <;> simp
    | ok u =>
      simp only [Except.mapError]
      cases callerRole db env g with
      | error e => rfl
      | ok caller =>
        simp only
        by_cases hinv : caller.2.canInvite = true
        · rw [if_pos hinv]
          unfold store GroupStore.inviteToGroup
          simp only [exec_mapErr, exec_bind, exec_get]
          by_cases hban : db.isBanned g target = true
          · rw [if_pos hban, if_neg (by simp [hban])]
            rfl
          · rw [if_neg hban, if_pos ⟨trivial, hinv, by simpa using hban⟩]
            rfl
        · rw [if_neg hinv, if_neg (fun h => hinv h.2.1)]
          rfl

theorem apply_joinGroup :
    apply hashHex db (.joinGroup env g) = match env.identity, db.groups.get? g with
      | .ok loc, some group =>
        if group.visibility = .publicGroup ∧ db.isBanned g (Hex.encode loc) = false then
          db.addMember g (Hex.encode loc) ⟨.member, env.now.toInt64, none⟩
        else db
      | _, _ => db := by
  unfold apply after GroupService.joinGroup
  simp only [exec_bind, exec_lift]
  cases env.identity with
  | error e => rfl
  | ok loc =>
    unfold store GroupStore.joinGroup
    simp only [exec_mapErr, exec_bind, exec_get]
    cases db.groups.get? g with
    | none => rfl
    | some group =>
      simp only
      by_cases hpub : group.visibility = .publicGroup
      · rw [if_neg (not_not_intro hpub)]
        by_cases hban : db.isBanned g (Hex.encode loc) = true
        · rw [if_pos hban, if_neg (by simp [hban])]
          rfl
        · rw [if_neg hban, if_pos ⟨hpub, by simpa using hban⟩]
          rfl
      · rw [if_pos hpub, if_neg (fun h => hpub h.1)]
        rfl

theorem apply_leaveGroup :
    apply hashHex db (.leaveGroup env g) = match env.identity with
      | .ok loc =>
        if db.role g (Hex.encode loc) = some .owner then db else db.removeMember g (Hex.encode loc)
      | .error _ => db := by
  unfold apply after GroupService.leaveGroup
  simp only [exec_bind, exec_lift]
  cases env.identity with
  | error e => rfl
  | ok loc =>
    unfold store GroupStore.leaveGroup
    simp only [exec_mapErr, exec_bind, exec_get]
    split <;> rfl

/-- The group a call of `create_group` inserts, and its row. -/
def createdRow (env : GroupEnv) (name : String) (description : Option String) (visibility : String)
    (creator : String) : GroupRow :=
  ⟨name, description, GroupVisibility.fromStrLossy visibility, creator, env.now.toInt64⟩

/-- A group is created under an id that is free; its creator becomes the owner, unless the
id has a row of the creator left. -/
theorem apply_createGroup_cases (name : String) (description : Option String)
    (visibility : String) :
    apply hashHex db (.createGroup env name description visibility) = db ∨
      ∃ loc, env.identity = .ok loc ∧ db.groups.get? (groupIdFromName hashHex name) = none ∧
        (db.members.get? (groupIdFromName hashHex name, Hex.encode loc) = none ∧
            apply hashHex db (.createGroup env name description visibility) = { db with
              groups := db.groups.insertOrIgnore (groupIdFromName hashHex name)
                (createdRow env name description visibility (Hex.encode loc))
              members := db.members.insertOrIgnore (groupIdFromName hashHex name, Hex.encode loc)
                ⟨.owner, env.now.toInt64, none⟩ } ∨
          db.members.get? (groupIdFromName hashHex name, Hex.encode loc) ≠ none ∧
            apply hashHex db (.createGroup env name description visibility) = { db with
              groups := db.groups.insertOrIgnore (groupIdFromName hashHex name)
                (createdRow env name description visibility (Hex.encode loc)) }) := by
  unfold apply after GroupService.createGroup
  simp only [exec_bind, exec_lift]
  cases hid : env.identity with
  | error e => exact Or.inl rfl
  | ok loc =>
    simp only
    cases env.rateLimit with
    | error e => exact Or.inl rfl
    | ok u =>
      unfold store GroupStore.createGroup
      simp only [Except.mapError, exec_mapErr, exec_bind, exec_lift, exec_get]
      cases GroupStore.validateGroup name description with
      | error e => exact Or.inl rfl
      | ok u =>
        simp only
        by_cases htaken : groupExists db (groupIdFromName hashHex name) name = true
        · rw [if_pos htaken]
          exact Or.inl rfl
        · rw [if_neg htaken]
          have hfree : db.groups.get? (groupIdFromName hashHex name) = none := by
            rw [groupExists, Bool.or_eq_true, not_or] at htaken
            simpa using htaken.1
          refine Or.inr ⟨loc, rfl, hfree, ?_⟩
          simp only [exec_bind, exec_modify]
          by_cases hmem : db.members.get? (groupIdFromName hashHex name, Hex.encode loc) = none
          · rw [SqlTable.insert?_eq_some_iff.mpr ⟨hmem, rfl⟩]
            exact Or.inl ⟨hmem, rfl⟩
          · rw [SqlTable.insert?, dif_neg hmem]
            exact Or.inr ⟨hmem, rfl⟩

/-! ## What the other calls leave -/

/-- The tables that say who belongs to a group: groups, members and bans. -/
def governance (db : GroupDb) :
    SqlTable String GroupRow × SqlTable (String × String) GroupMemberRow ×
      SqlTable (String × String) GroupBanRow :=
  (db.groups, db.members, db.bans)

/-- Whoever reads neither chats nor their members sees no difference after a call on them. -/
theorem keeps_insertChat {τ : Type} {f : GroupDb → τ}
    (hf : ∀ db chats, f { db with chats := chats } = f db) (chatId : String) (row : GroupChatRow) :
    Keeps f (GroupStore.insertChat chatId row) := by
  refine keeps_bind keeps_get (fun db => ?_)
  split
  · exact keeps_throw _
  · exact keeps_modify (fun _ => hf _ _)

theorem keeps_addChatMemberRows {τ : Type} {f : GroupDb → τ}
    (hf : ∀ db chatMembers, f { db with chatMembers := chatMembers } = f db) (chatId : String)
    (createdAt : Int64) (pks : List String) (db : GroupDb) :
    f (pks.foldl (fun db pk => GroupStore.addChatMemberRow db chatId pk createdAt) db) = f db := by
  induction pks generalizing db with
  | nil => rfl
  | cons pk pks ih =>
    exact (ih (GroupStore.addChatMemberRow db chatId pk createdAt)).trans (hf _ _)

/-- Whoever reads no posts sees no difference after a call on posts. -/
theorem keeps_postToGroup {τ : Type} {f : GroupDb → τ}
    (hf : ∀ db posts, f { db with posts := posts } = f db) (hash : String) :
    f (apply hashHex db (.postToGroup env g hash)) = f db := by
  revert db
  refine keeps_bind keeps_get (fun _ => ?_)
  refine keeps_bind (keeps_lift _) (fun _ => ?_)
  refine keeps_bind (keeps_lift _) (fun _ => ?_)
  exact keeps_mapErr _ (keeps_modify (fun _ => hf _ _))

theorem keeps_deleteGroupPost {τ : Type} {f : GroupDb → τ}
    (hf : ∀ db posts, f { db with posts := posts } = f db) (hash : String) :
    f (apply hashHex db (.deleteGroupPost env g hash)) = f db := by
  revert db
  refine keeps_bind keeps_get (fun _ => ?_)
  refine keeps_bind (keeps_lift _) (fun caller => ?_)
  simp only
  split
  · refine keeps_bind (keeps_lift _) (fun _ => ?_)
    exact keeps_mapErr _ (keeps_modify (fun _ => hf _ _))
  · exact keeps_throw _

theorem keeps_createPrivateChat {τ : Type} {f : GroupDb → τ}
    (hchats : ∀ db chats, f { db with chats := chats } = f db)
    (hmembers : ∀ db chatMembers, f { db with chatMembers := chatMembers } = f db)
    (name : Option String) (members : List String) :
    f (apply hashHex db (.createPrivateChat env name members)) = f db := by
  revert db
  refine keeps_bind (keeps_lift _) (fun loc => ?_)
  refine keeps_mapErr _ ?_
  unfold GroupStore.createPrivateGroupChat
  split
  · exact keeps_throw _
  · refine keeps_bind (keeps_insertChat hchats _ _) (fun _ => ?_)
    refine keeps_bind keeps_get (fun _ => ?_)
    split
    · exact keeps_throw _
    · refine keeps_bind (keeps_modify (fun _ => hmembers _ _)) (fun _ => ?_)
      refine keeps_bind (keeps_modify (keeps_addChatMemberRows hmembers _ _ _)) (fun _ => ?_)
      exact keeps_pure _

theorem keeps_createGroupChat {τ : Type} {f : GroupDb → τ}
    (hchats : ∀ db chats, f { db with chats := chats } = f db) :
    f (apply hashHex db (.createGroupChat env g)) = f db := by
  revert db
  refine keeps_mapErr _ ?_
  refine keeps_bind keeps_get (fun _ => ?_)
  split
  · exact keeps_throw _
  · split
    · exact keeps_pure _
    · refine keeps_bind (keeps_insertChat hchats _ _) (fun _ => ?_)
      exact keeps_pure _

theorem keeps_addChatMember {τ : Type} {f : GroupDb → τ}
    (hmembers : ∀ db chatMembers, f { db with chatMembers := chatMembers } = f db)
    (chatId member : String) :
    f (apply hashHex db (.addChatMember env chatId member)) = f db := by
  revert db
  refine keeps_bind (keeps_lift _) (fun loc => ?_)
  refine keeps_mapErr _ (keeps_bind keeps_get (fun _ => ?_))
  refine keeps_bind (keeps_lift _) (fun _ => ?_)
  split
  · exact keeps_throw _
  · exact keeps_modify (fun _ => hmembers _ _)

theorem keeps_leaveChat {τ : Type} {f : GroupDb → τ}
    (hmembers : ∀ db chatMembers, f { db with chatMembers := chatMembers } = f db)
    (chatId : String) : f (apply hashHex db (.leaveChat env chatId)) = f db := by
  revert db
  refine keeps_bind (keeps_lift _) (fun loc => ?_)
  exact keeps_mapErr _ (keeps_modify (fun _ => hmembers _ _))

theorem keeps_sendGroupChatMessage {τ : Type} {f : GroupDb → τ}
    (hf : ∀ db chatMessages, f { db with chatMessages := chatMessages } = f db)
    (chatId body : String) :
    f (apply hashHex db (.sendGroupChatMessage env chatId body)) = f db := by
  revert db
  refine keeps_bind (keeps_lift _) (fun loc => ?_)
  refine keeps_bind (keeps_lift _) (fun _ => ?_)
  refine keeps_mapErr _ (keeps_bind keeps_get (fun _ => ?_))
  refine keeps_bind (keeps_lift _) (fun _ => ?_)
  split
  · exact keeps_throw _
  · refine keeps_bind (keeps_modify (fun _ => hf _ _)) (fun _ => ?_)
    exact keeps_pure _

theorem keeps_getChatMessages {τ : Type} {f : GroupDb → τ} (chatId : String) (limit : UInt32) :
    f (apply hashHex db (.getChatMessages env chatId limit)) = f db := by
  revert db
  refine keeps_bind (keeps_lift _) (fun loc => ?_)
  refine keeps_mapErr _ (keeps_bind keeps_get (fun _ => ?_))
  refine keeps_bind (keeps_lift _) (fun _ => ?_)
  exact keeps_pure _

/-! ## What an operation can do -/

variable (hashHex) in
/-- **What an operation does to groups, members and bans.**  It touches none of them, or it
is one of the calls on groups and passed the checks given here. -/
inductive Effect : GroupOp → GroupDb → Prop where
  | idle {op db'} (h : governance db' = governance db) : Effect op db'
  | created {env name description visibility loc} (hid : env.identity = .ok loc)
      (hgroup : db.groups.get? (groupIdFromName hashHex name) = none)
      (hmember : db.members.get? (groupIdFromName hashHex name, Hex.encode loc) = none) :
      Effect (.createGroup env name description visibility) { db with
        groups := db.groups.insertOrIgnore (groupIdFromName hashHex name)
          (createdRow env name description visibility (Hex.encode loc))
        members := db.members.insertOrIgnore (groupIdFromName hashHex name, Hex.encode loc)
          ⟨.owner, env.now.toInt64, none⟩ }
  | halfCreated {env name description visibility loc}
      (hgroup : db.groups.get? (groupIdFromName hashHex name) = none)
      (hmember : db.members.get? (groupIdFromName hashHex name, Hex.encode loc) ≠ none) :
      Effect (.createGroup env name description visibility) { db with
        groups := db.groups.insertOrIgnore (groupIdFromName hashHex name)
          (createdRow env name description visibility (Hex.encode loc)) }
  | joined {env g loc group} (hid : env.identity = .ok loc) (hgroup : db.groups.get? g = some group)
      (hpublic : group.visibility = .publicGroup) (hban : db.isBanned g (Hex.encode loc) = false) :
      Effect (.joinGroup env g)
        (db.addMember g (Hex.encode loc) ⟨.member, env.now.toInt64, none⟩)
  | invited {env g target pubkey role} (hcaller : callerRole db env g = .ok (pubkey, role))
      (hinvite : role.canInvite = true) (hban : db.isBanned g target = false) :
      Effect (.inviteToGroup env g target)
        (db.addMember g target ⟨.member, env.now.toInt64, some pubkey⟩)
  | left {env g loc} (hid : env.identity = .ok loc)
      (hrole : db.role g (Hex.encode loc) ≠ some .owner) :
      Effect (.leaveGroup env g) (db.removeMember g (Hex.encode loc))
  | roleSet {env g target newRole pubkey role} (hcaller : callerRole db env g = .ok (pubkey, role))
      (hset : role.canSetRole (GroupRole.fromStrLossy newRole) = true) :
      Effect (.setGroupRole env g target newRole)
        (db.updateRole g target (GroupRole.fromStrLossy newRole))
  | kicked {env g target pubkey role} (hcaller : callerRole db env g = .ok (pubkey, role))
      (hrank : role.rank < ((db.role g target).getD .member).rank) :
      Effect (.kickMember env g target) (db.removeMember g target)
  | banned {env g target reason pubkey role} (hcaller : callerRole db env g = .ok (pubkey, role))
      (hban : role.canBan = true) :
      Effect (.banMember env g target reason) { db.removeMember g target with
        bans := db.bans.insertOrReplace (g, target) ⟨pubkey, reason, env.now.toInt64⟩ }
  | transferred {env g newOwner pubkey} (hcaller : callerRole db env g = .ok (pubkey, .owner))
      (hnew : db.role g newOwner ≠ none) :
      Effect (.transferOwnership env g newOwner)
        ((db.updateRole g pubkey .admin).updateRole g newOwner .owner)
  | deleted {env g pubkey} (hcaller : callerRole db env g = .ok (pubkey, .owner)) :
      Effect (.deleteGroup env g) (GroupOp.deleted db g)

/-- A call that needs a role does what it does to a member, or nothing. -/
theorem effect_onCaller {op : GroupOp} {f : String → GroupRole → GroupDb}
    (h : ∀ pubkey role, callerRole db env g = .ok (pubkey, role) →
      Effect hashHex db op (f pubkey role)) : Effect hashHex db op (onCaller db env g f) := by
  unfold onCaller
  split
  · rename_i hcaller
    exact h _ _ hcaller
  · exact .idle rfl

theorem effect_createGroup (name : String) (description : Option String) (visibility : String) :
    Effect hashHex db (.createGroup env name description visibility)
      (apply hashHex db (.createGroup env name description visibility)) := by
  rcases apply_createGroup_cases db env name description visibility with
    h | ⟨loc, hid, hgroup, ⟨hmember, h⟩ | ⟨hmember, h⟩⟩
  · rw [h]
    exact .idle rfl
  · rw [h]
    exact .created hid hgroup hmember
  · rw [h]
    exact .halfCreated hgroup hmember

theorem effect_joinGroup :
    Effect hashHex db (.joinGroup env g) (apply hashHex db (.joinGroup env g)) := by
  rw [apply_joinGroup]
  split
  · rename_i loc group hid hgroup
    split
    · rename_i hok
      exact .joined hid hgroup hok.1 hok.2
    · exact .idle rfl
  · exact .idle rfl

theorem effect_inviteToGroup (target : String) :
    Effect hashHex db (.inviteToGroup env g target)
      (apply hashHex db (.inviteToGroup env g target)) := by
  rw [apply_inviteToGroup]
  refine effect_onCaller db env g (fun pubkey role hcaller => ?_)
  split
  · rename_i hok
    exact .invited hcaller hok.2.1 hok.2.2
  · exact .idle rfl

theorem effect_leaveGroup :
    Effect hashHex db (.leaveGroup env g) (apply hashHex db (.leaveGroup env g)) := by
  rw [apply_leaveGroup]
  split
  · rename_i hid
    split
    · exact .idle rfl
    · rename_i hrole
      exact .left hid hrole
  · exact .idle rfl

theorem effect_setGroupRole (target newRole : String) :
    Effect hashHex db (.setGroupRole env g target newRole)
      (apply hashHex db (.setGroupRole env g target newRole)) := by
  rw [apply_setGroupRole]
  refine effect_onCaller db env g (fun pubkey role hcaller => ?_)
  split
  · rename_i hset
    exact .roleSet hcaller hset
  · exact .idle rfl

theorem effect_kickMember (target : String) :
    Effect hashHex db (.kickMember env g target)
      (apply hashHex db (.kickMember env g target)) := by
  rw [apply_kickMember]
  refine effect_onCaller db env g (fun pubkey role hcaller => ?_)
  split
  · rename_i hok
    exact .kicked hcaller hok.2
  · exact .idle rfl

theorem effect_banMember (target : String) (reason : Option String) :
    Effect hashHex db (.banMember env g target reason)
      (apply hashHex db (.banMember env g target reason)) := by
  rw [apply_banMember]
  refine effect_onCaller db env g (fun pubkey role hcaller => ?_)
  split
  · rename_i hban
    exact .banned hcaller hban
  · exact .idle rfl

theorem effect_transferOwnership (newOwner : String) :
    Effect hashHex db (.transferOwnership env g newOwner)
      (apply hashHex db (.transferOwnership env g newOwner)) := by
  rw [apply_transferOwnership]
  refine effect_onCaller db env g (fun pubkey role hcaller => ?_)
  split
  · rename_i hok
    obtain ⟨rfl, hnew⟩ := hok
    exact .transferred hcaller hnew
  · exact .idle rfl

theorem effect_deleteGroup :
    Effect hashHex db (.deleteGroup env g) (apply hashHex db (.deleteGroup env g)) := by
  rw [apply_deleteGroup]
  refine effect_onCaller db env g (fun pubkey role hcaller => ?_)
  split
  · rename_i hrole
    obtain rfl := hrole
    exact .deleted hcaller
  · exact .idle rfl

/-- Every operation has one of the effects. -/
theorem effect_apply (op : GroupOp) : Effect hashHex db op (apply hashHex db op) := by
  cases op with
  | createGroup env name description visibility =>
    exact effect_createGroup db env name description visibility
  | joinGroup env g => exact effect_joinGroup db env g
  | inviteToGroup env g target => exact effect_inviteToGroup db env g target
  | leaveGroup env g => exact effect_leaveGroup db env g
  | setGroupRole env g target newRole => exact effect_setGroupRole db env g target newRole
  | kickMember env g target => exact effect_kickMember db env g target
  | banMember env g target reason => exact effect_banMember db env g target reason
  | transferOwnership env g newOwner => exact effect_transferOwnership db env g newOwner
  | deleteGroup env g => exact effect_deleteGroup db env g
  | postToGroup env g hash => exact .idle (keeps_postToGroup db env g (fun _ _ => rfl) hash)
  | deleteGroupPost env g hash => exact .idle (keeps_deleteGroupPost db env g (fun _ _ => rfl) hash)
  | createPrivateChat env name members =>
    exact .idle (keeps_createPrivateChat db env (fun _ _ => rfl) (fun _ _ => rfl) name members)
  | createGroupChat env g => exact .idle (keeps_createGroupChat db env g (fun _ _ => rfl))
  | addChatMember env chatId member =>
    exact .idle (keeps_addChatMember db env (fun _ _ => rfl) chatId member)
  | leaveChat env chatId => exact .idle (keeps_leaveChat db env (fun _ _ => rfl) chatId)
  | sendGroupChatMessage env chatId body =>
    exact .idle (keeps_sendGroupChatMessage db env (fun _ _ => rfl) chatId body)
  | getChatMessages env chatId limit =>
    exact .idle (keeps_getChatMessages db env chatId limit)

end GroupOp
