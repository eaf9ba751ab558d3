/-
# Direct messages at rest (`ephemera-message`)

`DeadDropService` and the parts of `MessageService` that the node calls: conversations,
message requests and the sealed receive path.  Encryption comes from other crates and is
collected in `Cipher`; a call that needs randomness takes it as an argument.
-/
import Ephemera.MetadataDb
import Ephemera.Ratchet
import Mathlib.Data.List.Lex
import Mathlib.Order.Basic

/-! ## Encryption -/

/-- `SealedPayload`, over identity keys and byte strings. -/
structure SealedPayload (K B : Type) where
  sender : K
  body : B
  deriving DecidableEq

/-- `SealedEnvelope`. -/
structure SealedEnvelope (K B : Type) where
  recipient : K
  ciphertext : B
  timestamp : UInt64
  ttl : UInt64
  deriving DecidableEq

/-- A payload over the byte strings of `W`. -/
abbrev Wire.Payload (W : Wire) := SealedPayload IdentityKey W.Bytes

/-- A sealed envelope over the byte strings of `W`. -/
abbrev Wire.Sealed (W : Wire) := SealedEnvelope IdentityKey W.Bytes

/-- The encryption the messaging code calls: the conversion of identity keys, the
functions of `MessageEncryption`, and the parser of sealed payloads. -/
structure Cipher (W : Wire) where
  X25519Public : Type
  X25519Secret : Type
  Entropy : Type
  ed25519PubToX25519 : IdentityKey → Except String X25519Public
  encryptMessage : W.Bytes → X25519Public → Entropy → Except String W.Bytes
  decryptMessage : W.Bytes → X25519Secret → Except String W.Bytes
  payloadFromSlice : W.Bytes → Except String W.Payload

/-- A ciphertext is not JSON. -/
def Cipher.Opaque {W : Wire} (C : Cipher W) : Prop :=
  ∀ plaintext recipient entropy ciphertext,
    C.encryptMessage plaintext recipient entropy = .ok ciphertext →
    W.jsonFromSlice ciphertext = none

/-- A cipher over the symbolic byte strings: a ciphertext opens for its recipient alone. -/
def Cipher.symbolic : Cipher Wire.symbolic where
  X25519Public := IdentityKey
  X25519Secret := IdentityKey
  Entropy := ℕ
  ed25519PubToX25519 := .ok
  encryptMessage := fun plaintext recipient entropy => .ok (.ciphertext plaintext recipient entropy)
  decryptMessage := fun
    | .ciphertext plaintext recipient _, secret =>
      if recipient = secret then .ok plaintext else .error "decryption failed"
    | _, _ => .error "ciphertext too short"
  payloadFromSlice := fun
    | .raw bytes => .ok ⟨bytes.take identityKeyLen, .raw (bytes.drop identityKeyLen)⟩
    | _ => .error "expected value"

theorem Cipher.opaque_symbolic : Cipher.symbolic.Opaque := by
  intro plaintext recipient entropy ciphertext h
  rw [← Except.ok.inj h]
  rfl

namespace Messaging

variable {W : Wire}

/-- `s.chars().take(n).collect()`. -/
def takeChars (n : ℕ) (s : String) : String := String.ofList (s.toList.take n)

/-- The number of characters of a body that `messages.body_preview` keeps. -/
def previewChars : ℕ := 100

/-! ## Dead drops -/

/-- `DEAD_DROP_MAX_TTL_SECS`: 14 days. -/
def deadDropMaxTtlSecs : UInt64 := 14 * 24 * 60 * 60

/-- The domain separator of mailbox keys. -/
def mailboxDomain : List UInt8 := "ephemera-dead-drop-mailbox-v1".toUTF8.toList ++ [0]

/-- `DeadDropService::mailbox_key`. -/
def mailboxKey (pubkey : IdentityKey) : W.Digest := W.blake3 (W.ofBytes (mailboxDomain ++ pubkey))

/-- What is hashed for the mailbox key of an identity. -/
def mailboxBytes (pubkey : IdentityKey) : W.Bytes := W.ofBytes (mailboxDomain ++ pubkey)

/-- Different identities have different mailboxes. -/
theorem mailboxKey_inj (hW : W.Lawful) {hashed : Set W.Bytes} (hhash : Set.InjOn W.blake3 hashed)
    {a b : IdentityKey} (ha : mailboxBytes a ∈ hashed) (hb : mailboxBytes b ∈ hashed)
    (h : (mailboxKey a : W.Digest) = mailboxKey b) : a = b := by
  have hbytes := hW.ofBytes_injective (hhash ha hb h)
  exact List.append_cancel_left hbytes

/-- The largest integer SQLite stores; `rusqlite` refuses to bind a larger `u64`. -/
def maxSqlInteger : UInt64 := 0x7FFFFFFFFFFFFFFF

/-- `DeadDropService::deposit_raw`. -/
def depositRaw (db : MetadataDb W) (mailbox messageId : W.Digest) (sealedData : W.Bytes)
    (depositedAt expiresAt now : UInt64) : Except MessageError (MetadataDb W) :=
  if expiresAt ≤ now then .error .expired
  else if maxSqlInteger < depositedAt ∨
      maxSqlInteger < min expiresAt (now + deadDropMaxTtlSecs) then
    .error (.database "out of range integral type conversion attempted")
  else .ok { db with
    deadDrops := db.deadDrops.insertOrIgnore messageId
      ⟨mailbox, sealedData, depositedAt, min expiresAt (now + deadDropMaxTtlSecs)⟩ }

/-- `PendingMessage`. -/
structure PendingMessage (W : Wire) where
  id : W.Digest
  sealedEnvelope : W.Bytes
  depositedAt : UInt64
  expiresAt : UInt64

/-- `DeadDropService::check_mailbox`: the dead drops of a mailbox that have not expired, oldest
first; among rows of one second the order is that of the table.  SQLite compares `i64`
values. -/
def checkMailbox (db : MetadataDb W) (ours : IdentityKey) (now : UInt64) :
    List (PendingMessage W) :=
  ((db.deadDrops.selectWhere (fun _ row => decide (row.mailboxKey = mailboxKey ours) &&
      decide (now.toInt64 < row.expiresAt.toInt64))).mergeSort
    (fun a b => decide (a.2.depositedAt.toInt64 ≤ b.2.depositedAt.toInt64))).map
    (fun r => ⟨r.1, r.2.sealedData, r.2.depositedAt, r.2.expiresAt⟩)

/-- `DeadDropService::acknowledge`; the text of the error is left out. -/
def acknowledge (db : MetadataDb W) (messageId : W.Digest) :
    Except MessageError (MetadataDb W) :=
  if db.deadDrops.get? messageId = none then .error .conversationNotFound
  else .ok { db with deadDrops := db.deadDrops.deleteWhere (fun k _ => decide (k = messageId)) }

/-- `DeadDropService::gc`. -/
def gc (db : MetadataDb W) (now : UInt64) : MetadataDb W :=
  { db with
    deadDrops := db.deadDrops.deleteWhere
      (fun _ row => decide (row.expiresAt.toInt64 ≤ now.toInt64)) }

/-! ## Conversations and requests -/

/-- `MessageService::compute_conversation_id`: the keys are sorted before hashing. -/
def computeConversationId (a b : IdentityKey) : W.Digest :=
  W.blake3 (W.ofBytes (if a ≤ b then a ++ b else b ++ a))

/-- `MessageService::get_or_create_conversation`. -/
def getOrCreateConversation (db : MetadataDb W) (ours theirs : IdentityKey) (isRequest : Bool)
    (now : UInt64) : W.Digest × MetadataDb W :=
  (computeConversationId ours theirs, { db with
    conversations := db.conversations.insertOrIgnore (computeConversationId ours theirs)
      ⟨ours, theirs, some now.toInt64, 0, isRequest, now.toInt64⟩ })

/-- `MessageService::is_connected`. -/
def isConnected (db : MetadataDb W) (loc remote : IdentityKey) : Bool :=
  db.connections.existsWhere
    (fun k row => decide (k = (loc, remote)) && decide (row.status = .active))

/-- `SELECT COUNT(*) > 0 FROM message_requests …` with a given status. -/
def hasRequest (db : MetadataDb W) (recipient sender : IdentityKey)
    (status : RequestStatus) : Bool :=
  db.messageRequests.existsWhere
    (fun k row => decide (k = (sender, recipient)) && decide (row.status = status))

/-- `MessageService::is_request_accepted`. -/
def isRequestAccepted (db : MetadataDb W) (recipient sender : IdentityKey) : Bool :=
  hasRequest db recipient sender .accepted

/-- `MessageService::is_request_rejected`. -/
def isRequestRejected (db : MetadataDb W) (recipient sender : IdentityKey) : Bool :=
  hasRequest db recipient sender .rejected

/-- `MessageService::store_message_request`. -/
def storeMessageRequest (db : MetadataDb W) (sender recipient : IdentityKey) (now : UInt64) :
    MetadataDb W :=
  { db with
    messageRequests := db.messageRequests.insertOrIgnore (sender, recipient)
      ⟨.pending, now.toInt64⟩ }

/-- Set the status of a pending request. -/
def settleRequest (db : MetadataDb W) (ours sender : IdentityKey) (status : RequestStatus) :
    Except MessageError (MetadataDb W) :=
  let isPending := fun (k : IdentityKey × IdentityKey) (row : RequestRow) =>
    decide (k = (sender, ours)) && decide (row.status = .pending)
  if db.messageRequests.existsWhere isPending then
    .ok { db with
      messageRequests := db.messageRequests.updateWhere isPending
        (fun row => { row with status := status }) }
  else .error (.invalidRequestState "Pending" "no matching request found")

/-- `MessageService::accept_request`. -/
def acceptRequest (db : MetadataDb W) (ours sender : IdentityKey) :
    Except MessageError (MetadataDb W) := do
  let db ← settleRequest db ours sender .accepted
  return { db with
    conversations := db.conversations.updateWhere
      (fun _ row => decide (row.ourPubkey = ours) && decide (row.theirPubkey = sender))
      (fun row => { row with isRequest := false }) }

/-- `MessageService::reject_request`. -/
def rejectRequest (db : MetadataDb W) (ours sender : IdentityKey) :
    Except MessageError (MetadataDb W) :=
  settleRequest db ours sender .rejected

/-- `UPDATE conversations SET last_message_at = …, unread_count = unread_count + 1`. -/
def bumpConversation (db : MetadataDb W) (conversationId : W.Digest) (at' : Int64) : MetadataDb W :=
  { db with
    conversations := db.conversations.updateWhere (fun k _ => decide (k = conversationId))
      (fun row => { row with lastMessageAt := some at', unreadCount := row.unreadCount + 1 }) }

/-! ## Receiving a sealed message -/

/-- `SealedEnvelope::is_expired`. -/
def isExpired (envelope : W.Sealed) (now : UInt64) : Bool :=
  decide (envelope.timestamp + envelope.ttl < now)

/-- `SealedEnvelope::open`. -/
def openEnvelope (C : Cipher W) (envelope : W.Sealed) (secret : C.X25519Secret) :
    Except MessageError W.Payload := do
  let plaintext ← (C.decryptMessage envelope.ciphertext secret).mapError .encryption
  (C.payloadFromSlice plaintext).mapError .deserialization

/-- The writes of `receive_message`, once the payload is known. -/
def storeReceived (db : MetadataDb W) (envelope : W.Sealed) (payload : W.Payload)
    (ours : IdentityKey) (isRequest : Bool) (now : UInt64) : MetadataDb W :=
  let (conversationId, db) := getOrCreateConversation db ours payload.sender isRequest now
  let db := { db with
    messages := db.messages.insertOrIgnore (W.blake3 envelope.ciphertext)
      { conversationId := conversationId
        senderPubkey := payload.sender
        receivedAt := now.toInt64
        expiresAt := envelope.timestamp.toInt64 + envelope.ttl.toInt64
        isRead := false
        bodyPreview := (W.toStr? payload.body).map (takeChars previewChars)
        hasMedia := false
        encryptedBody := none
        isEncrypted := false } }
  let db := bumpConversation db conversationId now.toInt64
  if isRequest then storeMessageRequest db payload.sender ours now else db

/-- A sender without a connection and without an accepted request. -/
def isStranger (db : MetadataDb W) (ours sender : IdentityKey) : Bool :=
  !isConnected db ours sender && !isRequestAccepted db ours sender

/-- `MessageService::receive_message`. -/
def receiveMessage (C : Cipher W) (db : MetadataDb W) (envelope : W.Sealed)
    (ours : IdentityKey) (secret : C.X25519Secret) (now : UInt64) :
    Except MessageError (W.Payload × MetadataDb W) := do
  if isExpired envelope now then throw .expired
  let payload ← openEnvelope C envelope secret
  let isRequest := isStranger db ours payload.sender
  if isRequest && isRequestRejected db ours payload.sender then
    throw (.notAllowed "message request was rejected")
  return (payload, storeReceived db envelope payload ours isRequest now)

/-! ## Reading a conversation -/

/-- `MessageService::get_messages` without its `before` cursor: the rows of a conversation,
latest first; among rows of one second the order is that of the table. -/
def getMessages (db : MetadataDb W) (conversationId : W.Digest) (limit : ℕ) :
    List (W.Digest × MessageRow W) :=
  ((db.messages.selectWhere (fun _ row =>
      decide (row.conversationId = conversationId) &&
        decide (row.receivedAt < Int64.maxValue))).mergeSort
    (fun a b => decide (b.2.receivedAt ≤ a.2.receivedAt))).take limit

/-! ## What they leave alone -/

/-- `db'` is `db` with other dead drops. -/
def SameButDrops (db db' : MetadataDb W) : Prop := db' = { db with deadDrops := db'.deadDrops }

/-- A deposit succeeds before the expiry and for times that SQLite can store; it then
inserts the row unless its id is taken. -/
theorem depositRaw_eq_ok {db db' : MetadataDb W} {mailbox messageId : W.Digest}
    {sealedData : W.Bytes} {depositedAt expiresAt now : UInt64} :
    depositRaw db mailbox messageId sealedData depositedAt expiresAt now = .ok db' ↔
      ¬expiresAt ≤ now ∧
      ¬(maxSqlInteger < depositedAt ∨
        maxSqlInteger < min expiresAt (now + deadDropMaxTtlSecs)) ∧
      db' = { db with
        deadDrops := db.deadDrops.insertOrIgnore messageId
          ⟨mailbox, sealedData, depositedAt, min expiresAt (now + deadDropMaxTtlSecs)⟩ } := by
  unfold depositRaw
  by_cases hlive : expiresAt ≤ now
  · simp [hlive]
  · by_cases hsql : maxSqlInteger < depositedAt ∨
        maxSqlInteger < min expiresAt (now + deadDropMaxTtlSecs)
    · rw [if_neg hlive, if_pos hsql]
      simp [hsql]
    · rw [if_neg hlive, if_neg hsql, Except.ok.injEq]
      exact ⟨fun h => ⟨hlive, hsql, h.symm⟩, fun h => h.2.2.symm⟩

theorem sameButDrops_depositRaw {db db' : MetadataDb W} {mailbox messageId : W.Digest}
    {sealedData : W.Bytes} {depositedAt expiresAt now : UInt64}
    (h : depositRaw db mailbox messageId sealedData depositedAt expiresAt now = .ok db') :
    SameButDrops db db' := by
  obtain ⟨-, -, rfl⟩ := depositRaw_eq_ok.mp h
  rfl

/-- The other tables after a request is settled. -/
theorem tables_settleRequest {db db' : MetadataDb W} {ours sender : IdentityKey}
    {status : RequestStatus} (h : settleRequest db ours sender status = .ok db') :
    db'.connections = db.connections ∧ db'.conversations = db.conversations ∧
      db'.messages = db.messages := by
  unfold settleRequest at h
  dsimp only at h
  split at h
  · rw [← Except.ok.inj h]
    exact ⟨rfl, rfl, rfl⟩
  · cases h

/-- An accepted request takes its conversations out of the requests. -/
theorem acceptRequest_eq_ok {db db' : MetadataDb W} {ours sender : IdentityKey}
    (h : acceptRequest db ours sender = .ok db') :
    ∃ db₁, settleRequest db ours sender .accepted = .ok db₁ ∧
      db'.connections = db₁.connections ∧ db'.messages = db₁.messages ∧
      db'.messageRequests = db₁.messageRequests ∧
      db'.conversations = db₁.conversations.updateWhere
        (fun _ row => decide (row.ourPubkey = ours) && decide (row.theirPubkey = sender))
        (fun row => { row with isRequest := false }) := by
  unfold acceptRequest at h
  cases hset : settleRequest db ours sender .accepted with
  | error e => simp [hset, bind, Except.bind] at h
  | ok db₁ =>
    simp only [hset, bind, Except.bind, pure, Except.pure, Except.ok.injEq] at h
    rw [← h]
    exact ⟨db₁, rfl, rfl, rfl, rfl, rfl⟩

theorem connections_acceptRequest {db db' : MetadataDb W} {ours sender : IdentityKey}
    (h : acceptRequest db ours sender = .ok db') : db'.connections = db.connections := by
  obtain ⟨db₁, hset, hconnections, -⟩ := acceptRequest_eq_ok h
  exact hconnections.trans (tables_settleRequest hset).1

theorem connections_storeReceived (db : MetadataDb W) (envelope : W.Sealed)
    (payload : W.Payload) (ours : IdentityKey) (isRequest : Bool) (now : UInt64) :
    (storeReceived db envelope payload ours isRequest now).connections
      = db.connections := by
  cases isRequest with
  | false => rfl
  | true => rfl

/-- The row `receive_message` stores for a sealed message. -/
def receivedRow (envelope : W.Sealed) (payload : W.Payload) (ours : IdentityKey)
    (now : UInt64) : MessageRow W :=
  { conversationId := computeConversationId ours payload.sender
    senderPubkey := payload.sender
    receivedAt := now.toInt64
    expiresAt := envelope.timestamp.toInt64 + envelope.ttl.toInt64
    isRead := false
    bodyPreview := (W.toStr? payload.body).map (takeChars previewChars)
    hasMedia := false
    encryptedBody := none
    isEncrypted := false }

/-- The database of the conversation, with the row inserted unless its id is there, and the
counter raised in any case: what `receive_message` leaves but for the requests. -/
def bumpedByReceive (db : MetadataDb W) (envelope : W.Sealed) (payload : W.Payload)
    (ours : IdentityKey) (isRequest : Bool) (now : UInt64) : MetadataDb W :=
  let made := (getOrCreateConversation db ours payload.sender isRequest now).2
  bumpConversation
    { made with
      messages := made.messages.insertOrIgnore (W.blake3 envelope.ciphertext)
        (receivedRow envelope payload ours now) }
    (computeConversationId ours payload.sender) now.toInt64

/-- The tables after a sealed message is stored. -/
theorem tables_storeReceived (db : MetadataDb W) (envelope : W.Sealed)
    (payload : W.Payload) (ours : IdentityKey) (isRequest : Bool) (now : UInt64) :
    (storeReceived db envelope payload ours isRequest now).conversations
        = (bumpedByReceive db envelope payload ours isRequest now).conversations ∧
      (storeReceived db envelope payload ours isRequest now).messages
        = (bumpedByReceive db envelope payload ours isRequest now).messages := by
  cases isRequest with
  | false => exact ⟨rfl, rfl⟩
  | true => exact ⟨rfl, rfl⟩

/-- A sealed message is taken when it is in time, opens, and is not a rejected request; its
payload is then stored. -/
theorem receiveMessage_eq_ok_iff {C : Cipher W} {db db' : MetadataDb W}
    {envelope : W.Sealed} {ours : IdentityKey} {secret : C.X25519Secret} {now : UInt64}
    {payload : W.Payload} :
    receiveMessage C db envelope ours secret now = .ok (payload, db') ↔
      isExpired envelope now = false ∧ openEnvelope C envelope secret = .ok payload ∧
        ¬(isStranger db ours payload.sender = true ∧
          isRequestRejected db ours payload.sender = true) ∧
        db' = storeReceived db envelope payload ours (isStranger db ours payload.sender) now := by
  unfold receiveMessage
  by_cases hexp : isExpired envelope now = true
  · simp [hexp, bind, Except.bind, throw, throwThe, MonadExceptOf.throw]
  · cases hopen : openEnvelope C envelope secret with
    | error e => simp [hexp, bind, Except.bind]
    | ok p =>
      by_cases hrej : (isStranger db ours p.sender && isRequestRejected db ours p.sender) = true
      · have hrej' := hrej
        rw [Bool.and_eq_true] at hrej'
        simp only [hexp, hrej, bind, Except.bind, throw, throwThe, MonadExceptOf.throw]
        constructor
        · intro h
          cases h
        · rintro ⟨-, hp, hnot, -⟩
          rw [← Except.ok.inj hp] at hnot
          exact absurd hrej' hnot
      · simp only [hexp, hrej, bind, Except.bind, pure, Except.pure]
        rw [Bool.and_eq_true] at hrej
        constructor
        · intro h
          obtain ⟨rfl, rfl⟩ := Prod.mk.inj (Except.ok.inj h)
          exact ⟨trivial, rfl, hrej, rfl⟩
        · rintro ⟨-, hp, -, rfl⟩
          obtain rfl := Except.ok.inj hp
          rfl

end Messaging
