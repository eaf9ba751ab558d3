/-
# Groups (`ephemera-social/src/group.rs`, `store/group.rs`, `services/social.rs`)

A group has members with roles, and bans.  The store writes its tables without looking at
who asks; the permission checks are those of the social service of the node, one for each
operation.

The tables of group chats live in the same database, since deleting a group deletes its
chats (`GroupChat.lean` has their operations).
-/
import Ephemera.SqlTable
import Ephemera.StateExcept
import Ephemera.Wire

/-! ## Roles and visibility -/

/-- `GroupVisibility`. -/
inductive GroupVisibility where
  | publicGroup
  | privateGroup
  | secretGroup
  deriving DecidableEq, Repr

/-- `GroupVisibility::from_str_lossy`. -/
def GroupVisibility.fromStrLossy (s : String) : GroupVisibility :=
  if s = "private" then .privateGroup
  else if s = "secret" then .secretGroup
  else .publicGroup

/-- `GroupRole`, highest first. -/
inductive GroupRole where
  | owner
  | admin
  | moderator
  | member
  deriving DecidableEq, Repr

namespace GroupRole

/-- The discriminant, by which roles are compared: the lower, the more privileged. -/
def rank : GroupRole → ℕ
  | .owner => 0
  | .admin => 1
  | .moderator => 2
  | .member => 3

/-- `GroupRole::from_str_lossy`. -/
def fromStrLossy (s : String) : GroupRole :=
  if s = "owner" then .owner
  else if s = "admin" then .admin
  else if s = "moderator" then .moderator
  else .member

/-- `GroupRole::can_set_role`: only roles strictly below one's own. -/
def canSetRole (self target : GroupRole) : Bool := decide (self.rank < target.rank)

/-- `GroupRole::can_kick`. -/
def canKick : GroupRole → Bool
  | .owner | .admin | .moderator => true
  | .member => false

/-- `GroupRole::can_ban`. -/
def canBan : GroupRole → Bool
  | .owner | .admin => true
  | .moderator | .member => false

/-- `GroupRole::can_invite`. -/
def canInvite : GroupRole → Bool
  | .owner | .admin | .moderator => true
  | .member => false

/-- `GroupRole::can_delete_posts`. -/
def canDeletePosts : GroupRole → Bool
  | .owner | .admin | .moderator => true
  | .member => false

/-- `GroupRole::can_delete_group`. -/
def canDeleteGroup : GroupRole → Bool
  | .owner => true
  | .admin | .moderator | .member => false

theorem canDeleteGroup_iff {role : GroupRole} : role.canDeleteGroup = true ↔ role = .owner := by
  cases role <;> simp [canDeleteGroup]

/-- The owner is alone at the top. -/
theorem eq_owner_of_rank_le {role : GroupRole} (h : role.rank ≤ GroupRole.owner.rank) :
    role = .owner := by
  cases role with
  | owner => rfl
  | admin => simp [rank] at h
  | moderator => simp [rank] at h
  | member => simp [rank] at h

end GroupRole

/-! ## Tables -/

/-- A row of `groups`; the key is the group id. -/
structure GroupRow where
  name : String
  description : Option String
  visibility : GroupVisibility
  createdBy : String
  createdAt : Int64

/-- A row of `group_members`; the key is the group and the member. -/
structure GroupMemberRow where
  role : GroupRole
  joinedAt : Int64
  invitedBy : Option String

/-- A row of `group_bans`; the key is the group and the banned key. -/
structure GroupBanRow where
  bannedBy : String
  reason : Option String
  bannedAt : Int64

/-- A row of `group_posts`; the key is the group and the content hash. -/
structure GroupPostRow where
  authorPubkey : String
  createdAt : Int64

/-- A row of `group_chats`; the key is the chat id. -/
structure GroupChatRow where
  name : Option String
  isGroupLinked : Bool
  groupId : Option String
  createdAt : Int64
  deriving DecidableEq

/-- A row of `group_chat_messages`; the key is the message id. -/
structure ChatMessageRow where
  chatId : String
  senderPubkey : String
  body : Option String
  createdAt : Int64
  expiresAt : Int64

/-- The tables of groups and group chats.  Public keys are hex texts here;
`chatMembers` holds the time of joining. -/
structure GroupDb where
  groups : SqlTable String GroupRow
  members : SqlTable (String × String) GroupMemberRow
  bans : SqlTable (String × String) GroupBanRow
  posts : SqlTable (String × List UInt8) GroupPostRow
  chats : SqlTable String GroupChatRow
  chatMembers : SqlTable (String × String) Int64
  chatMessages : SqlTable String ChatMessageRow

namespace GroupDb

/-- A database without rows. -/
def empty : GroupDb := ⟨.empty, .empty, .empty, .empty, .empty, .empty, .empty⟩

/-- `get_member_role`. -/
def role (db : GroupDb) (groupId pubkey : String) : Option GroupRole :=
  (db.members.get? (groupId, pubkey)).map GroupMemberRow.role

/-- `SELECT COUNT(*) > 0 FROM group_bans …`. -/
def isBanned (db : GroupDb) (groupId pubkey : String) : Bool :=
  (db.bans.get? (groupId, pubkey)).isSome

/-- Delete the row of one member. -/
def removeMember (db : GroupDb) (groupId pubkey : String) : GroupDb :=
  { db with members := db.members.deleteWhere (fun k _ => decide (k = (groupId, pubkey))) }

/-- Insert a member, unless there is one. -/
def addMember (db : GroupDb) (groupId pubkey : String) (row : GroupMemberRow) : GroupDb :=
  { db with members := db.members.insertOrIgnore (groupId, pubkey) row }

/-- `UPDATE group_members SET role = … WHERE` the key is given. -/
def updateRole (db : GroupDb) (groupId pubkey : String) (newRole : GroupRole) : GroupDb :=
  { db with
    members := db.members.updateWhere (fun k _ => decide (k = (groupId, pubkey)))
      (fun row => { row with role := newRole }) }

theorem role_eq_some_iff {db : GroupDb} {g m : String} {r : GroupRole} :
    db.role g m = some r ↔ ∃ row, db.members.get? (g, m) = some row ∧ row.role = r := by
  rw [role, Option.map_eq_some_iff]

@[simp] theorem members_removeMember (db : GroupDb) (g m : String) (k : String × String) :
    (db.removeMember g m).members.get? k = if k = (g, m) then none else db.members.get? k := by
  rw [removeMember, SqlTable.get?_deleteWhere_key]
  simp only [decide_eq_true_eq]

/-- A new role adds no row. -/
theorem members_updateRole_of_none {db : GroupDb} {k : String × String}
    (h : db.members.get? k = none) (g m : String) (r : GroupRole) :
    (db.updateRole g m r).members.get? k = none := by
  rw [updateRole, SqlTable.get?_updateWhere, h, Option.map_none]

/-- A removal adds no row. -/
theorem members_removeMember_of_none {db : GroupDb} {k : String × String}
    (h : db.members.get? k = none) (g m : String) :
    (db.removeMember g m).members.get? k = none := by
  rw [members_removeMember, h, ite_self]

theorem role_removeMember (db : GroupDb) (g m g' m' : String) :
    (db.removeMember g m).role g' m' = if (g', m') = (g, m) then none else db.role g' m' := by
  rw [role, members_removeMember]
  split <;> rfl

theorem role_addMember (db : GroupDb) (g m : String) (row : GroupMemberRow) (g' m' : String) :
    (db.addMember g m row).role g' m'
      = if (g', m') = (g, m) then some ((db.role g m).getD row.role) else db.role g' m' := by
  rw [role, addMember, SqlTable.get?_insertOrIgnore]
  split
  · rw [role]
    cases db.members.get? (g, m) <;> rfl
  · rfl

theorem role_updateRole (db : GroupDb) (g m : String) (r : GroupRole) (g' m' : String) :
    (db.updateRole g m r).role g' m'
      = (db.role g' m').map (fun old => if (g', m') = (g, m) then r else old) := by
  rw [role, updateRole, SqlTable.get?_updateWhere, role, Option.map_map, Option.map_map]
  congr 1
  funext row
  by_cases hk : (g', m') = (g, m)
  · simp [hk]
  · simp only [Function.comp_apply, decide_eq_true_eq, if_neg hk]

end GroupDb

/-! ## The store -/

/-- `SocialError`, as far as the group functions return it. -/
inductive SocialError where
  | validation (reason : String)
  | notFound (what : String)
  | storage (reason : String)
  | permissionDenied (reason : String)
  deriving DecidableEq, Repr

/-- The text of a `SocialError`. -/
def SocialError.text : SocialError → String
  | .validation reason => "validation error: " ++ reason
  | .notFound what => "not found: " ++ what
  | .storage reason => "storage error: " ++ reason
  | .permissionDenied reason => "permission denied: " ++ reason

/-- The calls of `SqliteSocialServices`. -/
abbrev StoreM := StateExcept SocialError GroupDb

/-- `Group`, as `create_group` returns it. -/
structure GroupRecord where
  groupId : String
  name : String
  description : Option String
  visibility : GroupVisibility
  createdBy : String
  createdAt : Int64

namespace GroupStore

/-- `MAX_GROUP_NAME_LEN`. -/
def maxGroupNameLen : ℕ := 50

/-- `MAX_GROUP_DESCRIPTION_LEN`. -/
def maxGroupDescriptionLen : ℕ := 500

/-- `validate_group_name`. -/
def validateGroupName (name : String) : Except SocialError Unit :=
  if name.isEmpty then .error (.validation "group name cannot be empty")
  else if maxGroupNameLen < name.length then
    .error (.validation ("group name is " ++ toString name.length ++ " chars, max is 50"))
  else .ok ()

/-- `validate_group_description`. -/
def validateGroupDescription (desc : String) : Except SocialError Unit :=
  if maxGroupDescriptionLen < desc.length then
    .error (.validation ("group description is " ++ toString desc.length ++ " chars, max is 500"))
  else .ok ()

/-- The checks of `create_group` on its texts. -/
def validateGroup (name : String) (description : Option String) : Except SocialError Unit := do
  validateGroupName name
  match description with
  | some desc => validateGroupDescription desc
  | none => pure ()

/-- `group_id_from_name`; `hashHex` is the hex text of the BLAKE3 hash of a text. -/
def groupIdFromName (hashHex : String → String) (name : String) : String := hashHex name

/-- Whether `INSERT OR IGNORE` finds a conflict: ids and names are unique. -/
def groupExists (db : GroupDb) (groupId name : String) : Bool :=
  (db.groups.get? groupId).isSome || db.groups.existsWhere (fun _ row => decide (row.name = name))

/-- `create_group`. -/
def createGroup (hashHex : String → String) (name : String) (description : Option String)
    (visibility : GroupVisibility) (creatorPubkey : String) (createdAt : Int64) :
    StoreM GroupRecord := do
  validateGroup name description
  let groupId := groupIdFromName hashHex name
  let db ← get
  if groupExists db groupId name then throw (.validation ("group '" ++ name ++ "' already exists"))
  else
    modify fun db => { db with
      groups := db.groups.insertOrIgnore groupId
        ⟨name, description, visibility, creatorPubkey, createdAt⟩ }
    match db.members.insert? (groupId, creatorPubkey) ⟨.owner, createdAt, none⟩ with
    | none => throw (.storage
        "UNIQUE constraint failed: group_members.group_id, group_members.member_pubkey")
    | some members =>
      modify fun db => { db with members := members }
      return ⟨groupId, name, description, visibility, creatorPubkey, createdAt⟩

/-- `delete_group`: the group, and everything that belongs to it. -/
def deleteGroup (groupId : String) : StoreM Unit :=
  modify fun db =>
    let ofGroup := fun chatId =>
      db.chats.existsWhere (fun k row => decide (k = chatId) && decide (row.groupId = some groupId))
    { groups := db.groups.deleteWhere (fun k _ => decide (k = groupId))
      members := db.members.deleteWhere (fun k _ => decide (k.1 = groupId))
      bans := db.bans.deleteWhere (fun k _ => decide (k.1 = groupId))
      posts := db.posts.deleteWhere (fun k _ => decide (k.1 = groupId))
      chats := db.chats.deleteWhere (fun _ row => decide (row.groupId = some groupId))
      chatMembers := db.chatMembers.deleteWhere (fun k _ => ofGroup k.1)
      chatMessages := db.chatMessages.deleteWhere (fun _ row => ofGroup row.chatId) }

/-- `join_group`. -/
def joinGroup (groupId memberPubkey : String) (joinedAt : Int64) : StoreM Unit := do
  let db ← get
  match db.groups.get? groupId with
  | none => throw (.notFound ("group " ++ groupId ++ " not found"))
  | some group =>
    if group.visibility ≠ .publicGroup then
      throw (.validation "cannot self-join a non-public group; an invite is required")
    else if db.isBanned groupId memberPubkey then
      throw (.validation "you are banned from this group")
    else modify fun db => db.addMember groupId memberPubkey ⟨.member, joinedAt, none⟩

/-- `invite_to_group`: the invited key is a member at once. -/
def inviteToGroup (groupId targetPubkey invitedBy : String) (joinedAt : Int64) : StoreM Unit := do
  if (← get).isBanned groupId targetPubkey then
    throw (.validation "target user is banned from this group")
  else modify fun db => db.addMember groupId targetPubkey ⟨.member, joinedAt, some invitedBy⟩

/-- `leave_group`. -/
def leaveGroup (groupId memberPubkey : String) : StoreM Unit := do
  if (← get).role groupId memberPubkey = some .owner then
    throw (.validation "owner cannot leave; transfer ownership or delete the group")
  else modify fun db => db.removeMember groupId memberPubkey

/-- `set_group_role`. -/
def setGroupRole (groupId targetPubkey : String) (newRole : GroupRole) : StoreM Unit :=
  modify fun db => db.updateRole groupId targetPubkey newRole

/-- `kick_member`. -/
def kickMember (groupId targetPubkey : String) : StoreM Unit :=
  modify fun db => db.removeMember groupId targetPubkey

/-- `ban_member`. -/
def banMember (groupId bannedPubkey bannedBy : String) (reason : Option String)
    (bannedAt : Int64) : StoreM Unit := do
  modify fun db => db.removeMember groupId bannedPubkey
  modify fun db => { db with
    bans := db.bans.insertOrReplace (groupId, bannedPubkey) ⟨bannedBy, reason, bannedAt⟩ }

/-- `transfer_ownership`. -/
def transferOwnership (groupId currentOwner newOwner : String) : StoreM Unit := do
  if ((← get).role groupId newOwner).isNone then
    throw (.validation "target is not a member of this group")
  else
    modify fun db => db.updateRole groupId currentOwner .admin
    modify fun db => db.updateRole groupId newOwner .owner

/-- `post_to_group`. -/
def postToGroup (groupId : String) (contentHash : List UInt8) (authorPubkey : String)
    (createdAt : Int64) : StoreM Unit :=
  modify fun db => { db with
    posts := db.posts.insertOrIgnore (groupId, contentHash) ⟨authorPubkey, createdAt⟩ }

/-- `delete_group_post`. -/
def deleteGroupPost (groupId : String) (contentHash : List UInt8) : StoreM Unit :=
  modify fun db => { db with
    posts := db.posts.deleteWhere (fun k _ => decide (k = (groupId, contentHash))) }

end GroupStore

/-! ## The social service -/

/-- What a call finds around it: the signing identity (or why it is not available), the
clock, the verdict of the rate limiter, and what the table `blocks` says of two keys. -/
structure GroupEnv where
  identity : Except String IdentityKey
  now : UInt64
  rateLimit : Except String Unit
  blocks : IdentityKey → IdentityKey → Bool

/-- The calls of the social service on groups. -/
abbrev GroupM := StateExcept String GroupDb

namespace GroupService

open StateExcept

/-- `map_err(|e| format!("{context}: {e}"))` on a call of the store. -/
def store {α : Type} (context : String) (m : StoreM α) : GroupM α :=
  mapErr (fun e => context ++ ": " ++ e.text) m

/-- The caller's public key and role, if it is a member. -/
def callerRole (db : GroupDb) (env : GroupEnv) (groupId : String) :
    Except String (String × GroupRole) := do
  let loc ← env.identity
  match db.role groupId (Hex.encode loc) with
  | none => throw "not a member of this group"
  | some role => return (Hex.encode loc, role)

/-- `SocialService::create_group`. -/
def createGroup (hashHex : String → String) (env : GroupEnv) (name : String)
    (description : Option String) (visibility : String) : GroupM GroupRecord := do
  let loc ← env.identity
  (env.rateLimit.mapError (fun e => "Rate limited: " ++ e) : Except String Unit)
  store "create group" (GroupStore.createGroup hashHex name description
    (GroupVisibility.fromStrLossy visibility) (Hex.encode loc) env.now.toInt64)

/-- `SocialService::join_group`. -/
def joinGroup (env : GroupEnv) (groupId : String) : GroupM Unit := do
  let loc ← env.identity
  store "join group" (GroupStore.joinGroup groupId (Hex.encode loc) env.now.toInt64)

/-- `SocialService::invite_to_group`. -/
def inviteToGroup (env : GroupEnv) (groupId target : String) : GroupM Unit := do
  let _ ← env.identity
  (env.rateLimit.mapError (fun e => "Rate limited: " ++ e) : Except String Unit)
  let (myPubkey, role) ← callerRole (← get) env groupId
  if role.canInvite then
    store "invite" (GroupStore.inviteToGroup groupId target myPubkey env.now.toInt64)
  else throw "insufficient permissions to invite"

/-- `SocialService::leave_group`. -/
def leaveGroup (env : GroupEnv) (groupId : String) : GroupM Unit := do
  let loc ← env.identity
  store "leave group" (GroupStore.leaveGroup groupId (Hex.encode loc))

/-- `SocialService::set_group_role`: the new role is checked, the present one is not. -/
def setGroupRole (env : GroupEnv) (groupId target newRole : String) : GroupM String := do
  let (_, myRole) ← callerRole (← get) env groupId
  if myRole.canSetRole (GroupRole.fromStrLossy newRole) then
    store "set role" (GroupStore.setGroupRole groupId target (GroupRole.fromStrLossy newRole))
    return newRole
  else throw "insufficient permissions to set this role"

/-- `SocialService::kick_member`. -/
def kickMember (env : GroupEnv) (groupId target : String) : GroupM Unit := do
  let db ← get
  let (_, myRole) ← callerRole db env groupId
  if myRole.canKick then
    if ((db.role groupId target).getD .member).rank ≤ myRole.rank then
      throw "cannot kick someone with equal or higher role"
    else store "kick" (GroupStore.kickMember groupId target)
  else throw "insufficient permissions to kick"

/-- `SocialService::ban_member`: the role of the target is not looked at. -/
def banMember (env : GroupEnv) (groupId target : String) (reason : Option String) :
    GroupM Unit := do
  let (myPubkey, myRole) ← callerRole (← get) env groupId
  if myRole.canBan then
    store "ban" (GroupStore.banMember groupId target myPubkey reason env.now.toInt64)
  else throw "insufficient permissions to ban"

/-- `SocialService::transfer_ownership`. -/
def transferOwnership (env : GroupEnv) (groupId newOwner : String) : GroupM String := do
  let (myPubkey, myRole) ← callerRole (← get) env groupId
  if myRole.canDeleteGroup then
    store "transfer ownership" (GroupStore.transferOwnership groupId myPubkey newOwner)
    return newOwner
  else throw "only the owner can transfer ownership"

/-- `SocialService::delete_group`. -/
def deleteGroup (env : GroupEnv) (groupId : String) : GroupM Unit := do
  let (_, myRole) ← callerRole (← get) env groupId
  if myRole.canDeleteGroup then store "delete group" (GroupStore.deleteGroup groupId)
  else throw "only the owner can delete a group"

/-- `ContentId::to_wire_bytes` of a digest: a version byte and the hash.  Other lengths are
left as they are. -/
def wireBytes (hash : List UInt8) : List UInt8 := if hash.length = 32 then 1 :: hash else hash

/-- `SocialService::post_to_group`. -/
def postToGroup (env : GroupEnv) (groupId contentHashHex : String) : GroupM Unit := do
  let (myPubkey, _) ← callerRole (← get) env groupId
  let hash ← ((Hex.decode contentHashHex).mapError (fun e => "bad hash: " ++ e) :
    Except String (List UInt8))
  store "post to group" (GroupStore.postToGroup groupId (wireBytes hash) myPubkey env.now.toInt64)

/-- `SocialService::delete_group_post`, which takes the hash as it is. -/
def deleteGroupPost (env : GroupEnv) (groupId contentHashHex : String) : GroupM Unit := do
  let (_, myRole) ← callerRole (← get) env groupId
  if myRole.canDeletePosts then
    let hash ← ((Hex.decode contentHashHex).mapError (fun e => "bad hash: " ++ e) :
      Except String (List UInt8))
    store "delete group post" (GroupStore.deleteGroupPost groupId hash)
  else throw "insufficient permissions to delete posts"

end GroupService
