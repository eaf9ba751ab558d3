/-
# The metadata database (`ephemera-store/src/metadata.rs`)

The tables of the social graph and of direct messages, with the columns the modelled
functions read or write.  Integer columns hold `i64` values.

`MetadataDb` is written by two services: `ConnectionService` and `BlockService` of
`ephemera-social`, which own `connections` and `blocks`, and `MessageService` and
`DeadDropService` of `ephemera-message`, which own the rest.
-/
import Ephemera.SqlTable
import Ephemera.Wire

/-! ## Rows -/

/-- `ConnectionStatus`, which `connections.status` stores as a text. -/
inductive ConnectionStatus where
  | pendingOutgoing
  | pendingIncoming
  | active
  | blocked
  deriving DecidableEq, Repr

/-- A row of `connections`; the key is the local and the remote identity. -/
structure ConnectionRow where
  status : ConnectionStatus
  createdAt : Int64
  updatedAt : Int64
  message : Option String
  initiatorPubkey : Option IdentityKey
  deriving DecidableEq

/-- A row of `blocks`; the key is the blocker and the blocked identity. -/
structure BlockRow where
  createdAt : Int64
  reason : Option String

/-- A row of `conversations`; the key is the conversation id. -/
structure ConversationRow where
  ourPubkey : IdentityKey
  theirPubkey : IdentityKey
  lastMessageAt : Option Int64
  unreadCount : Int64
  isRequest : Bool
  createdAt : Int64
  deriving DecidableEq

/-- A row of `messages`; the key is the message id. -/
structure MessageRow (W : Wire) where
  conversationId : W.Digest
  senderPubkey : IdentityKey
  receivedAt : Int64
  expiresAt : Int64
  isRead : Bool
  bodyPreview : Option String
  hasMedia : Bool
  encryptedBody : Option W.Bytes
  isEncrypted : Bool

/-- The status of a message request. -/
inductive RequestStatus where
  | pending
  | accepted
  | rejected
  deriving DecidableEq, Repr

/-- A row of `message_requests`; the key is the sender and the recipient. -/
structure RequestRow where
  status : RequestStatus
  createdAt : Int64

/-- A row of `dead_drops`; the key is the message id. -/
structure DeadDropRow (W : Wire) where
  mailboxKey : W.Digest
  sealedData : W.Bytes
  depositedAt : UInt64
  expiresAt : UInt64

/-- `MetadataDb`. -/
structure MetadataDb (W : Wire) where
  connections : SqlTable (IdentityKey × IdentityKey) ConnectionRow
  blocks : SqlTable (IdentityKey × IdentityKey) BlockRow
  conversations : SqlTable W.Digest ConversationRow
  messages : SqlTable W.Digest (MessageRow W)
  messageRequests : SqlTable (IdentityKey × IdentityKey) RequestRow
  deadDrops : SqlTable W.Digest (DeadDropRow W)

namespace MetadataDb

variable {W : Wire}

/-- A database without rows. -/
def empty : MetadataDb W := ⟨.empty, .empty, .empty, .empty, .empty, .empty⟩

/-! ## `ConnectionService` and `BlockService` -/

/-- `MAX_CONNECTION_MESSAGE_LEN`. -/
def maxConnectionMessageLen : ℕ := 280

/-- `ConnectionError`, without storage errors. -/
inductive ConnectionError where
  | alreadyExists (status : ConnectionStatus)
  | messageTooLong (len : ℕ)
  deriving DecidableEq, Repr

/-- The status of the connection `local → remote`. -/
def status (db : MetadataDb W) (loc remote : IdentityKey) : Option ConnectionStatus :=
  (db.connections.get? (loc, remote)).map ConnectionRow.status

/-- `ConnectionService::request`. -/
def request (db : MetadataDb W) (source target : IdentityKey) (message : Option String)
    (now : UInt64) : Except ConnectionError (MetadataDb W) :=
  match message with
  | some msg =>
    if maxConnectionMessageLen < msg.utf8ByteSize then .error (.messageTooLong msg.utf8ByteSize)
    else insertRequest
  | none => insertRequest
where
  /-- The check for an existing row and the insertion. -/
  insertRequest : Except ConnectionError (MetadataDb W) :=
    match db.connections.get? (source, target) with
    | some row => .error (.alreadyExists row.status)
    | none => .ok { db with
        connections := db.connections.insertOrIgnore (source, target)
          ⟨.pendingOutgoing, now.toInt64, now.toInt64, message, some source⟩ }

/-- `UPDATE connections SET status = 'connected', updated_at = … WHERE` the key is `k` and
the row satisfies `p`. -/
def connectWhere (db : MetadataDb W) (k : IdentityKey × IdentityKey)
    (p : ConnectionRow → Bool) (updatedAt : Int64) : MetadataDb W :=
  { db with
    connections := db.connections.updateWhere (fun k' row => decide (k' = k) && p row)
      (fun row => { row with status := .active, updatedAt := updatedAt }) }

/-- `DELETE FROM connections WHERE` the key is `k`. -/
def deleteConnection (db : MetadataDb W) (k : IdentityKey × IdentityKey) : MetadataDb W :=
  { db with connections := db.connections.deleteWhere (fun k' _ => decide (k' = k)) }

/-- `ConnectionService::accept`: both directions, whatever their status. -/
def accept (db : MetadataDb W) (loc remote : IdentityKey) (now : UInt64) : MetadataDb W :=
  (db.connectWhere (loc, remote) (fun _ => true) now.toInt64).connectWhere (remote, loc)
    (fun _ => true) now.toInt64

/-- `ConnectionService::reject`: the row is deleted, whatever its status. -/
def reject (db : MetadataDb W) (loc remote : IdentityKey) : MetadataDb W :=
  db.deleteConnection (loc, remote)

/-- `ConnectionService::remove`: both directions. -/
def remove (db : MetadataDb W) (loc remote : IdentityKey) : MetadataDb W :=
  (db.deleteConnection (loc, remote)).deleteConnection (remote, loc)

/-- `BlockService::block`. -/
def block (db : MetadataDb W) (blocker blocked : IdentityKey) (reason : Option String)
    (now : UInt64) : MetadataDb W :=
  { db with blocks := db.blocks.insertOrReplace (blocker, blocked) ⟨now.toInt64, reason⟩
  }.deleteConnection (blocker, blocked)

/-- `BlockService::unblock`. -/
def unblock (db : MetadataDb W) (blocker blocked : IdentityKey) : MetadataDb W :=
  { db with blocks := db.blocks.deleteWhere (fun k _ => decide (k = (blocker, blocked))) }

/-- `SELECT COUNT(*) > 0 FROM blocks …`. -/
def isBlocked (db : MetadataDb W) (blocker blocked : IdentityKey) : Bool :=
  db.blocks.existsWhere (fun k _ => decide (k = (blocker, blocked)))

/-- `receive_connection_request`. -/
def receiveConnectionRequest (db : MetadataDb W) (receiver sender : IdentityKey)
    (message : Option String) (now : UInt64) : MetadataDb W :=
  if db.isBlocked receiver sender then db
  else { db with
    connections := db.connections.insertOrReplace (receiver, sender)
      ⟨.pendingIncoming, now.toInt64, now.toInt64, message, some sender⟩ }

/-! ## What they do to `connections` -/

@[simp] theorem connections_connectWhere (db : MetadataDb W) (k k' : IdentityKey × IdentityKey)
    (p : ConnectionRow → Bool) (t : Int64) :
    (db.connectWhere k p t).connections.get? k' = (db.connections.get? k').map (fun row =>
      if k' = k ∧ p row = true then { row with status := .active, updatedAt := t } else row) := by
  unfold connectWhere
  rw [SqlTable.get?_updateWhere]
  simp only [Bool.and_eq_true, decide_eq_true_eq]

@[simp] theorem connections_deleteConnection (db : MetadataDb W)
    (k k' : IdentityKey × IdentityKey) :
    (db.deleteConnection k).connections.get? k'
      = if k' = k then none else db.connections.get? k' := by
  rw [deleteConnection, SqlTable.get?_deleteWhere_key]
  simp only [decide_eq_true_eq]

/-- A request succeeds when the message is short and no row is there, and then inserts
one. -/
theorem request_eq_ok {db db' : MetadataDb W} {a b : IdentityKey} {message : Option String}
    {now : UInt64} (h : db.request a b message now = .ok db') :
    db.connections.get? (a, b) = none ∧
      db' = { db with
        connections := db.connections.insertOrIgnore (a, b)
          ⟨.pendingOutgoing, now.toInt64, now.toInt64, message, some a⟩ } := by
  have hins : request.insertRequest db a b message now = .ok db' := by
    unfold request at h
    cases message with
    | none => exact h
    | some msg =>
      simp only at h
      split at h
      · cases h
      · exact h
  unfold request.insertRequest at hins
  cases hrow : db.connections.get? (a, b) with
  | some row => simp [hrow] at hins
  | none =>
    simp only [hrow, Except.ok.injEq] at hins
    exact ⟨rfl, hins.symm⟩

/-- The rows after an accept. -/
theorem connections_accept (db : MetadataDb W) (a b : IdentityKey) (now : UInt64)
    (k : IdentityKey × IdentityKey) :
    (db.accept a b now).connections.get? k = (db.connections.get? k).map (fun row =>
      if k = (a, b) ∨ k = (b, a) then { row with status := .active, updatedAt := now.toInt64 }
      else row) := by
  unfold accept
  rw [connections_connectWhere, connections_connectWhere, Option.map_map]
  congr 1
  funext row
  by_cases h1 : k = (a, b)
  · simp only [Function.comp_apply, eq_true h1, true_and, if_true, true_or]
    split <;> rfl
  · simp only [Function.comp_apply, eq_false h1, if_false, and_true, false_or]

end MetadataDb
