/-
# Group chats (`store/group_chat.rs`, `services/social.rs`)

A chat is linked to a group or stands alone.  Who may write to a chat and read it is
decided by `group_chat_members` alone, in both cases.
-/
import Ephemera.Groups

/-- `GroupChat`. -/
structure GroupChat where
  chatId : String
  name : Option String
  isGroupLinked : Bool
  groupId : Option String
  createdAt : UInt64

/-- `MAX_PRIVATE_CHAT_MEMBERS`. -/
def maxPrivateChatMembers : ℕ := 50

/-- `generate_chat_id`; `hashHex` is the hex text of the BLAKE3 hash of a text. -/
def generateChatId (hashHex : String → String) (creator : String) (timestampSecs : UInt64) :
    String :=
  hashHex (creator ++ ":" ++ toString timestampSecs.toNat)

/-- `SELECT COUNT(*) > 0 FROM group_chat_members …`. -/
def GroupDb.isChatMember (db : GroupDb) (chatId pubkey : String) : Bool :=
  (db.chatMembers.get? (chatId, pubkey)).isSome

/-! ## The store -/

namespace GroupStore

/-- The chat linked to a group, if there is one. -/
def linkedChat? (db : GroupDb) (groupId : String) : Option (String × GroupChatRow) :=
  (db.chats.selectWhere
    (fun _ row => decide (row.groupId = some groupId) && row.isGroupLinked)).head?

/-- `INSERT INTO group_chats`, which fails on a listed id. -/
def insertChat (chatId : String) (row : GroupChatRow) : StoreM Unit := do
  match (← get).chats.insert? chatId row with
  | none => throw (.storage "UNIQUE constraint failed: group_chats.chat_id")
  | some chats => modify fun db => { db with chats := chats }

/-- `create_group_linked_chat`: the chat has no members. -/
def createGroupLinkedChat (hashHex : String → String) (groupId : String) (createdAt : Int64) :
    StoreM GroupChat := do
  let db ← get
  match db.groups.get? groupId with
  | none => throw (.notFound ("group " ++ groupId ++ " not found"))
  | some group =>
    match linkedChat? db groupId with
    | some (chatId, _) => return ⟨chatId, some group.name, true, some groupId, createdAt.toUInt64⟩
    | none =>
      let chatId := generateChatId hashHex groupId createdAt.toUInt64
      insertChat chatId ⟨some group.name, true, some groupId, createdAt⟩
      return ⟨chatId, some group.name, true, some groupId, createdAt.toUInt64⟩

/-- `INSERT OR IGNORE INTO group_chat_members`. -/
def addChatMemberRow (db : GroupDb) (chatId pubkey : String) (joinedAt : Int64) : GroupDb :=
  { db with chatMembers := db.chatMembers.insertOrIgnore (chatId, pubkey) joinedAt }

/-- `create_private_group_chat`. -/
def createPrivateGroupChat (hashHex : String → String) (name : Option String)
    (creatorPubkey : String) (memberPubkeys : List String) (createdAt : Int64) :
    StoreM GroupChat := do
  if maxPrivateChatMembers < memberPubkeys.length + 1 then
    throw (.validation "group chat cannot have more than 50 members")
  else
    let chatId := generateChatId hashHex creatorPubkey createdAt.toUInt64
    insertChat chatId ⟨name, false, none, createdAt⟩
    match (← get).chatMembers.insert? (chatId, creatorPubkey) createdAt with
    | none => throw (.storage
        "UNIQUE constraint failed: group_chat_members.chat_id, group_chat_members.member_pubkey")
    | some chatMembers =>
      modify fun db => { db with chatMembers := chatMembers }
      modify fun db => (memberPubkeys.filter (fun pk => decide (pk ≠ creatorPubkey))).foldl
        (fun db pk => addChatMemberRow db chatId pk createdAt) db
      return ⟨chatId, name, false, none, createdAt.toUInt64⟩

/-- Whether the owner of the text `target` has blocked the owner of the text `adder`; a text
that is not hex has blocked nobody. -/
def hasBlocked (blocks : IdentityKey → IdentityKey → Bool) (target adder : String) : Bool :=
  match Hex.decode target, Hex.decode adder with
  | .ok targetBytes, .ok adderBytes => blocks targetBytes adderBytes
  | _, _ => false

/-- The checks of `add_chat_member` on the adder, if it is given. -/
def checkAdder (db : GroupDb) (blocks : IdentityKey → IdentityKey → Bool)
    (chatId memberPubkey : String) : Option String → Except SocialError Unit
  | none => .ok ()
  | some adder =>
    if !db.isChatMember chatId adder then
      .error (.permissionDenied "only current members can add people to the chat")
    else if hasBlocked blocks memberPubkey adder then
      .error (.permissionDenied "cannot add this user (they have blocked you)")
    else .ok ()

/-- `add_chat_member`. -/
def addChatMember (blocks : IdentityKey → IdentityKey → Bool) (chatId memberPubkey : String)
    (adderPubkey : Option String) (joinedAt : Int64) : StoreM Unit := do
  let db ← get
  checkAdder db blocks chatId memberPubkey adderPubkey
  if maxPrivateChatMembers ≤ (db.chatMembers.selectWhere (fun k _ => decide (k.1 = chatId))).length
  then throw (.validation "group chat is full (50 members max)")
  else modify fun db => addChatMemberRow db chatId memberPubkey joinedAt

/-- `leave_chat`. -/
def leaveChat (chatId memberPubkey : String) : StoreM Unit :=
  modify fun db => { db with
    chatMembers := db.chatMembers.deleteWhere (fun k _ => decide (k = (chatId, memberPubkey))) }

/-- The membership check of messages: `None` is an internal caller. -/
def checkChatMember (db : GroupDb) (chatId : String) : Option String → Except SocialError Unit
  | none => .ok ()
  | some pubkey =>
    if db.isChatMember chatId pubkey then .ok ()
    else .error (.permissionDenied "not a member of this chat")

/-- `send_group_chat_message`. -/
def sendGroupChatMessage (messageId chatId senderPubkey : String) (body : Option String)
    (createdAt expiresAt : Int64) : StoreM ChatMessageRow := do
  let db ← get
  checkChatMember db chatId (some senderPubkey)
  match db.chatMessages.insert? messageId ⟨chatId, senderPubkey, body, createdAt, expiresAt⟩ with
  | none => throw (.storage "UNIQUE constraint failed: group_chat_messages.message_id")
  | some chatMessages =>
    modify fun db => { db with chatMessages := chatMessages }
    return ⟨chatId, senderPubkey, body, createdAt, expiresAt⟩

/-- `get_chat_messages`: the rows of a chat, latest first; among rows of one second the
order is that of the table. -/
def getChatMessages (chatId : String) (limit : UInt32) (before : Option Int64)
    (readerPubkey : Option String) : StoreM (List (String × ChatMessageRow)) := do
  let db ← get
  checkChatMember db chatId readerPubkey
  return ((db.chatMessages.selectWhere (fun _ row =>
      decide (row.chatId = chatId) && before.all (fun ts => decide (row.createdAt < ts)))).mergeSort
    (fun a b => decide (b.2.createdAt ≤ a.2.createdAt))).take (min limit 200).toNat

end GroupStore

/-! ## The social service -/

namespace GroupService

open StateExcept

/-- `SocialService::create_private_chat`. -/
def createPrivateChat (hashHex : String → String) (env : GroupEnv) (name : Option String)
    (members : List String) : GroupM GroupChat := do
  let loc ← env.identity
  store "create chat" (GroupStore.createPrivateGroupChat hashHex name (Hex.encode loc) members
    env.now.toInt64)

/-- `SocialService::create_group_chat`, which anyone may call. -/
def createGroupChat (hashHex : String → String) (env : GroupEnv) (groupId : String) :
    GroupM GroupChat :=
  store "create group chat" (GroupStore.createGroupLinkedChat hashHex groupId env.now.toInt64)

/-- `SocialService::add_chat_member`. -/
def addChatMember (env : GroupEnv) (chatId member : String) : GroupM Unit := do
  let loc ← env.identity
  store "add chat member" (GroupStore.addChatMember env.blocks chatId member
    (some (Hex.encode loc)) env.now.toInt64)

/-- `SocialService::leave_chat`. -/
def leaveChat (env : GroupEnv) (chatId : String) : GroupM Unit := do
  let loc ← env.identity
  store "leave chat" (GroupStore.leaveChat chatId (Hex.encode loc))

/-- The id of a chat message. -/
def chatMessageId (hashHex : String → String) (chatId sender : String) (now : Int64)
    (body : String) : String :=
  hashHex (chatId ++ ":" ++ sender ++ ":" ++ toString now ++ ":" ++ body)

/-- `SocialService::send_group_chat_message`. -/
def sendGroupChatMessage (hashHex : String → String) (env : GroupEnv) (chatId body : String) :
    GroupM ChatMessageRow := do
  let loc ← env.identity
  (env.rateLimit.mapError (fun e => "Rate limited: " ++ e) : Except String Unit)
  let now := env.now.toInt64
  store "send chat message" (GroupStore.sendGroupChatMessage
    (chatMessageId hashHex chatId (Hex.encode loc) now body) chatId (Hex.encode loc) (some body)
    now (now + 86400))

/-- `SocialService::get_chat_messages`. -/
def getChatMessages (env : GroupEnv) (chatId : String) (limit : UInt32) :
    GroupM (List (String × ChatMessageRow)) := do
  let loc ← env.identity
  store "get chat messages" (GroupStore.getChatMessages chatId limit none (some (Hex.encode loc)))

end GroupService
