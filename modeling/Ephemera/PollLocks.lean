/-
# The locks of a mailbox poll (`background.rs`, `services/notifications.rs`)

`retrieve_dht_dead_drops` takes `dht_storage`, gives it back, works under `metadata_db`, gives
that back and takes `dht_storage` once more.  `NotificationService::insert`, which it calls while
it works, takes `metadata_db` itself.  A `std::sync::Mutex` that the calling thread holds already
is never granted.

`finishes_iff` says that a poll runs to its end unless the record in the mailbox is a connection
request or an acceptance that changes a row.  A poll that ends does what
`NodeIngest.retrieveDhtDeadDrops` says, and holds no lock (`exec_retrieveDhtDeadDrops`).
-/
import Ephemera.SocialService
import Ephemera.StateExcept

namespace PollLocks

open NodeIngest Messaging StateExcept

variable {W : Wire}

/-! ## The node's locks -/

/-- A `std::sync::Mutex`, as the running call sees it. -/
structure Mutex (α : Type) where
  value : α
  /-- The call holds the guard. -/
  held : Bool
  /-- A thread has panicked while it held the guard. -/
  poisoned : Bool

/-- A row of `notifications`; the id is the key. -/
structure NotificationRow where
  notificationType : String
  fromPubkey : Option IdentityKey
  displayName : Option String
  preview : Option String
  postHash : Option (List UInt8)
  isRead : Bool
  createdAt : Int64
  deriving DecidableEq

/-- What `metadata_db` guards. -/
structure NodeDatabase (W : Wire) where
  db : MetadataDb W
  notifications : SqlTable String NotificationRow

/-- The `ServiceContainer`, as far as a poll uses it. -/
structure Services (W : Wire) where
  metadataDb : Mutex (NodeDatabase W)
  dhtStorage : Mutex (DhtStorage W)
  /-- The events that have been emitted. -/
  eventBus : List (NodeEvent W)

/-- The two locks. -/
inductive Lock where
  | metadataDb
  | dhtStorage
  deriving DecidableEq, Repr

/-- A computation of the poll; it is stuck with the lock it requests while it holds it. -/
abbrev Poll (W : Wire) := StateExcept Lock (Services W)

/-- `services.metadata_db.lock()`, with whether the result is `Ok`. -/
def lockMetadataDb : Poll W Bool := do
  let s ← get
  if s.metadataDb.held then throw .metadataDb
  else if s.metadataDb.poisoned then return false
  else
    modify fun s => { s with metadataDb := { s.metadataDb with held := true } }
    return true

/-- `services.dht_storage.lock()`, with whether the result is `Ok`. -/
def lockDhtStorage : Poll W Bool := do
  let s ← get
  if s.dhtStorage.held then throw .dhtStorage
  else if s.dhtStorage.poisoned then return false
  else
    modify fun s => { s with dhtStorage := { s.dhtStorage with held := true } }
    return true

/-- The guard of `metadata_db` is dropped. -/
def dropMetadataDb : Poll W Unit :=
  modify fun s => { s with metadataDb := { s.metadataDb with held := false } }

/-- The guard of `dht_storage` is dropped. -/
def dropDhtStorage : Poll W Unit :=
  modify fun s => { s with dhtStorage := { s.dhtStorage with held := false } }

/-- A write to the tables under the guard of `metadata_db`. -/
def writeDb (f : NodeDatabase W → NodeDatabase W) : Poll W Unit :=
  modify fun s => { s with metadataDb := { s.metadataDb with value := f s.metadataDb.value } }

/-- `event_bus.emit` -/
def emit (event : NodeEvent W) : Poll W Unit :=
  modify fun s => { s with eventBus := s.eventBus ++ [event] }

/-! ## `NotificationService::insert` -/

/-- What a poll draws and reads besides the state: the clock, the random number of a
notification, and `hex::encode` of the first sixteen bytes of a BLAKE3 hash. -/
structure PollInput where
  now : UInt64
  random : UInt64
  shortHash : String → String

/-- `NotificationService::insert` -/
def NotificationService.insert (input : PollInput) (notificationType : String)
    (fromPubkey : Option IdentityKey) (displayName preview : Option String)
    (postHash : Option (List UInt8)) : Poll W (Except String String) := do
  let notificationId := input.shortHash
    (notificationType ++ ":" ++ toString input.now.toInt64 ++ ":" ++ toString input.random)
  if !(← lockMetadataDb) then
    return .error "lock: poisoned lock: another task failed inside"
  writeDb fun d => { d with
    notifications := d.notifications.insertOrIgnore notificationId
      ⟨notificationType, fromPubkey, displayName, preview, postHash, false, input.now.toInt64⟩ }
  dropMetadataDb
  return .ok notificationId

/-! ## `retrieve_dht_dead_drops` -/

/-- The branch of a `connection_request`, with `processed`. -/
def takeRequest (input : PollInput) (ours : IdentityKey) (payload : Json) : Poll W Bool := do
  match decodeKey ((payload.getStr "initiator").getD "") with
  | none => return false
  | some initiator =>
    let s ← get
    let inserted := (s.metadataDb.value.db.connections.get? (ours, initiator)).isNone
    writeDb fun d => { d with db := ingestRequest d.db ours payload 0 }
    if inserted then
      emit (.connectionRequestReceived initiator)
      let _ ← NotificationService.insert input "connection_request" (some initiator) none
        (payload.getStr "message") none
    return true

/-- The branch of a `connection_accepted`, with `processed`. -/
def takeAcceptance (input : PollInput) (ours : IdentityKey) (payload : Json) : Poll W Bool := do
  match decodeKey ((payload.getStr "acceptor").getD "") with
  | none => return false
  | some acceptor =>
    let s ← get
    let updated := (s.metadataDb.value.db.connections.get? (ours, acceptor)).any isOutgoing
    writeDb fun d => { d with db := ingestAccepted d.db ours payload 0 }
    if updated then
      emit (.connectionEstablished acceptor)
      let _ ← NotificationService.insert input "connection_accepted" (some acceptor) none
        (some "Your connection request was accepted") none
    return true

/-- The part of `retrieve_dht_dead_drops` that looks for a connection payload, with
`processed`. -/
def takeConnection (input : PollInput) (ours : IdentityKey) (envelope : W.Envelope) :
    Poll W Bool :=
  match W.jsonFromSlice envelope.sealedData with
  | none => return false
  | some payload =>
    if payload.getStr "type" = some "connection_request" then takeRequest input ours payload
    else if payload.getStr "type" = some "connection_accepted" then
      takeAcceptance input ours payload
    else return false

/-- The part that deposits everything else, with `processed`. -/
def takeMessage (input : PollInput) (ours : IdentityKey) (envelope : W.Envelope) : Poll W Bool := do
  let s ← get
  let (db, processed) := depositDhtEnvelope s.metadataDb.value.db envelope ours input.now
  writeDb fun d => { d with db }
  return processed

/-- The part under the guard of `metadata_db`, with `processed`. -/
def takeEnvelope (input : PollInput) (ours : IdentityKey) (envelope : W.Envelope) :
    Poll W Bool := do
  if ← takeConnection input ours envelope then return true
  takeMessage input ours envelope

/-- The end of `retrieve_dht_dead_drops`, where the guard of `metadata_db` is dropped and a
record that was processed is removed. -/
def removeProcessed (ours : IdentityKey) (processed : Bool) : Poll W Unit := do
  dropMetadataDb
  if processed then
    if ← lockDhtStorage then
      modify fun s => { s with
        dhtStorage := { s.dhtStorage with
          value := s.dhtStorage.value.remove (mailboxKey ours) } }
      dropDhtStorage

/-- `retrieve_dht_dead_drops`: every early return drops the guard that is held. -/
def retrieveDhtDeadDrops (input : PollInput) (ours : IdentityKey) : Poll W Unit := do
  if !(← lockDhtStorage) then return
  let s ← get
  match s.dhtStorage.value.get (mailboxKey ours) input.now with
  | none => dropDhtStorage
  | some record =>
    match W.envelopeFromSlice record.value with
    | none => dropDhtStorage
    | some envelope =>
      dropDhtStorage
      if !(← lockMetadataDb) then return
      let processed ← takeEnvelope input ours envelope
      removeProcessed ours processed

/-! ## What the parts do under the guard -/

/-- The envelope makes a row of `connections`, or changes one: it is a request of somebody without
a row, or an acceptance by somebody we have asked. -/
def ChangesConnection (db : MetadataDb W) (ours : IdentityKey) (envelope : W.Envelope) : Prop :=
  (∃ sender, SealsRequest envelope sender ∧ db.connections.get? (ours, sender) = none) ∨
    ∃ sender row, SealsAcceptance envelope sender ∧
      db.connections.get? (ours, sender) = some row ∧ row.status = .pendingOutgoing

/-- The services with other tables. -/
def withDb (s : Services W) (db : MetadataDb W) : Services W :=
  { s with metadataDb := { s.metadataDb with value := { s.metadataDb.value with db } } }

section Parts

variable {input : PollInput} {ours : IdentityKey} {envelope : W.Envelope} {payload : Json}
  {s : Services W}

theorem exec_lockMetadataDb (s : Services W) :
    exec lockMetadataDb s =
      if s.metadataDb.held then (.error .metadataDb, s)
      else if s.metadataDb.poisoned then (.ok false, s)
      else (.ok true, { s with metadataDb := { s.metadataDb with held := true } }) := by
  rw [lockMetadataDb, exec_bind, exec_get]
  dsimp only
  split
  · rfl
  · split
    · rfl
    · rfl

theorem exec_lockDhtStorage (s : Services W) :
    exec lockDhtStorage s =
      if s.dhtStorage.held then (.error .dhtStorage, s)
      else if s.dhtStorage.poisoned then (.ok false, s)
      else (.ok true, { s with dhtStorage := { s.dhtStorage with held := true } }) := by
  rw [lockDhtStorage, exec_bind, exec_get]
  dsimp only
  split
  · rfl
  · split
    · rfl
    · rfl

/-- A notification is never stored under the guard. -/
theorem exec_insert_of_held (hheld : s.metadataDb.held = true) (notificationType : String)
    (fromPubkey : Option IdentityKey) (displayName preview : Option String)
    (postHash : Option (List UInt8)) :
    exec (NotificationService.insert input notificationType fromPubkey displayName preview
      postHash) s = (.error .metadataDb, s) := by
  rw [NotificationService.insert, exec_bind, exec_lockMetadataDb, if_pos hheld]

/-- The branch of a request: stuck if the row is new, and quiet otherwise. -/
theorem exec_takeRequest (hheld : s.metadataDb.held = true) :
    exec (takeRequest input ours payload) s =
      match decodeKey ((payload.getStr "initiator").getD "") with
      | none => (.ok false, s)
      | some initiator =>
        if (s.metadataDb.value.db.connections.get? (ours, initiator)).isNone then
          (.error .metadataDb, { withDb s (ingestRequest s.metadataDb.value.db ours payload 0) with
            eventBus := s.eventBus ++ [.connectionRequestReceived initiator] })
        else (.ok true, withDb s (ingestRequest s.metadataDb.value.db ours payload 0)) := by
  unfold takeRequest
  cases decodeKey ((payload.getStr "initiator").getD "") with
  | none => rfl
  | some initiator =>
    simp only [exec_bind, exec_get, writeDb, exec_modify]
    split
    · simp only [exec_bind, emit, exec_modify]
      rw [exec_insert_of_held (by exact hheld)]
      rfl
    · rfl

/-- The branch of an acceptance: stuck if it changes a row, and quiet otherwise. -/
theorem exec_takeAcceptance (hheld : s.metadataDb.held = true) :
    exec (takeAcceptance input ours payload) s =
      match decodeKey ((payload.getStr "acceptor").getD "") with
      | none => (.ok false, s)
      | some acceptor =>
        if (s.metadataDb.value.db.connections.get? (ours, acceptor)).any isOutgoing then
          (.error .metadataDb, { withDb s (ingestAccepted s.metadataDb.value.db ours payload 0) with
            eventBus := s.eventBus ++ [.connectionEstablished acceptor] })
        else (.ok true, withDb s (ingestAccepted s.metadataDb.value.db ours payload 0)) := by
  unfold takeAcceptance
  cases decodeKey ((payload.getStr "acceptor").getD "") with
  | none => rfl
  | some acceptor =>
    simp only [exec_bind, exec_get, writeDb, exec_modify]
    split
    · simp only [exec_bind, emit, exec_modify]
      rw [exec_insert_of_held (by exact hheld)]
      rfl
    · rfl

/-- An envelope that changes no connection is taken in as without locks. -/
theorem exec_takeEnvelope_of_quiet (hheld : s.metadataDb.held = true)
    (hquiet : ¬ ChangesConnection s.metadataDb.value.db ours envelope) :
    exec (takeEnvelope input ours envelope) s =
      (.ok (ingestDhtEnvelope s.metadataDb.value.db envelope ours input.now).2,
        withDb s (ingestDhtEnvelope s.metadataDb.value.db envelope ours input.now).1) := by
  rw [takeEnvelope, exec_bind, takeConnection, ingestDhtEnvelope]
  cases hjson : W.jsonFromSlice envelope.sealedData with
  | none => rfl
  | some payload =>
    dsimp only
    by_cases hrequest : payload.getStr "type" = some "connection_request"
    · rw [if_pos hrequest, if_pos hrequest, exec_takeRequest hheld]
      cases hkey : decodeKey ((payload.getStr "initiator").getD "") with
      | none => rfl
      | some initiator =>
        have hrow : ¬ (s.metadataDb.value.db.connections.get? (ours, initiator)).isNone = true :=
          fun hnone => hquiet (.inl ⟨initiator, ⟨payload, hjson, hrequest, hkey⟩,
            Option.isNone_iff_eq_none.mp hnone⟩)
        simp only [if_neg hrow]
        rfl
    · rw [if_neg hrequest, if_neg hrequest]
      by_cases haccept : payload.getStr "type" = some "connection_accepted"
      · rw [if_pos haccept, if_pos haccept, exec_takeAcceptance hheld]
        cases hkey : decodeKey ((payload.getStr "acceptor").getD "") with
        | none => rfl
        | some acceptor =>
          have hrow : ¬ (s.metadataDb.value.db.connections.get? (ours, acceptor)).any isOutgoing
              = true := by
            intro hany
            obtain ⟨row, hget, houtgoing⟩ := (Option.any_eq_true _ _).mp hany
            exact hquiet (.inr ⟨acceptor, row, ⟨payload, hjson, haccept, hkey⟩, hget,
              of_decide_eq_true houtgoing⟩)
          simp only [if_neg hrow]
          rfl
      · rw [if_neg haccept, if_neg haccept]
        rfl

/-- One that changes a connection is never done. -/
theorem exec_takeEnvelope_of_changes (hheld : s.metadataDb.held = true)
    (hchanges : ChangesConnection s.metadataDb.value.db ours envelope) :
    ∃ s', exec (takeEnvelope input ours envelope) s = (.error .metadataDb, s') := by
  rw [takeEnvelope, exec_bind, takeConnection]
  rcases hchanges with ⟨sender, ⟨payload, hjson, htype, hkey⟩, hrow⟩ |
    ⟨sender, row, ⟨payload, hjson, htype, hkey⟩, hrow, hstatus⟩
  · simp only [hjson, if_pos htype, exec_takeRequest hheld, hkey, hrow, Option.isNone_none, if_true]
    exact ⟨_, rfl⟩
  · have hnot : ¬ payload.getStr "type" = some "connection_request" := by
      rw [htype]
      decide
    have hout : isOutgoing row = true := decide_eq_true hstatus
    simp only [hjson, if_neg hnot, if_pos htype, exec_takeAcceptance hheld, hkey, hrow,
      Option.any_some, hout, if_true]
    exact ⟨_, rfl⟩

end Parts

/-! ## Whole polls -/

/-- The services when a poll begins: it holds no lock. -/
structure AtRest (W : Wire) where
  database : NodeDatabase W
  dht : DhtStorage W
  databasePoisoned : Bool
  dhtPoisoned : Bool
  events : List (NodeEvent W)

/-- The services with both locks free. -/
def AtRest.services (n : AtRest W) : Services W :=
  ⟨⟨n.database, false, n.databasePoisoned⟩, ⟨n.dht, false, n.dhtPoisoned⟩, n.events⟩

/-- The poll runs to its end. -/
def Finishes (input : PollInput) (ours : IdentityKey) (n : AtRest W) : Prop :=
  (exec (retrieveDhtDeadDrops input ours) n.services).1 = .ok ()

/-- The mailbox of the DHT holds an envelope that changes a connection, and both locks can be
had. -/
def DueChange (input : PollInput) (ours : IdentityKey) (n : AtRest W) : Prop :=
  n.dhtPoisoned = false ∧ n.databasePoisoned = false ∧
    ∃ record envelope, n.dht.get (mailboxKey ours) input.now = some record ∧
      W.envelopeFromSlice record.value = some envelope ∧
      ChangesConnection n.database.db ours envelope

section Polls

variable {input : PollInput} {ours : IdentityKey} {n : AtRest W}

/-- With both locks to be had and an envelope in the mailbox, the poll is the part under the
guard of `metadata_db`, and the removal of the record. -/
theorem exec_retrieve_of_envelope {record : DhtRecord W} {envelope : W.Envelope}
    (hdht : n.dhtPoisoned = false) (hdb : n.databasePoisoned = false)
    (hrecord : n.dht.get (mailboxKey ours) input.now = some record)
    (henvelope : W.envelopeFromSlice record.value = some envelope) :
    exec (retrieveDhtDeadDrops input ours) n.services =
      exec (takeEnvelope input ours envelope >>= removeProcessed ours)
        ⟨⟨n.database, true, false⟩, ⟨n.dht, false, false⟩, n.events⟩ := by
  rw [retrieveDhtDeadDrops, exec_bind, exec_lockDhtStorage]
  simp only [AtRest.services, hdht, hdb, Bool.false_eq_true, if_false, Bool.not_true]
  rw [exec_bind, exec_get]
  simp only [hrecord, henvelope]
  rw [exec_bind, dropDhtStorage, exec_modify]
  dsimp only
  rw [exec_bind, exec_lockMetadataDb]
  simp only [Bool.false_eq_true, if_false, Bool.not_true]

/-- Without an envelope in the mailbox, or without a lock, nothing happens. -/
theorem exec_retrieve_of_nothing
    (h : n.dhtPoisoned = true ∨ (∀ record envelope,
      n.dht.get (mailboxKey ours) input.now = some record →
        W.envelopeFromSlice record.value = some envelope → n.databasePoisoned = true)) :
    exec (retrieveDhtDeadDrops input ours) n.services = (.ok (), n.services) := by
  rw [retrieveDhtDeadDrops, exec_bind, exec_lockDhtStorage]
  cases hdht : n.dhtPoisoned with
  | true =>
    simp only [AtRest.services, hdht, Bool.false_eq_true, if_false, if_true]
    rfl
  | false =>
    simp only [AtRest.services, hdht, Bool.false_eq_true, if_false, Bool.not_true]
    rw [exec_bind, exec_get]
    dsimp only
    cases hrecord : n.dht.get (mailboxKey ours) input.now with
    | none => rfl
    | some record =>
      dsimp only
      cases henvelope : W.envelopeFromSlice record.value with
      | none => rfl
      | some envelope =>
        have hdb : n.databasePoisoned = true := by
          rcases h with htrue | hall
          · rw [hdht] at htrue
            cases htrue
          · exact hall record envelope hrecord henvelope
        rw [exec_bind, dropDhtStorage, exec_modify]
        dsimp only
        rw [exec_bind, exec_lockMetadataDb]
        simp only [hdb, Bool.false_eq_true, if_false, if_true]
        rfl

/-- The end of a poll is never stuck, and leaves no lock held. -/
theorem exec_removeProcessed {d : NodeDatabase W} {dht : DhtStorage W}
    {events : List (NodeEvent W)} (processed : Bool) :
    exec (removeProcessed ours processed) ⟨⟨d, true, false⟩, ⟨dht, false, false⟩, events⟩ =
      (.ok (), ⟨⟨d, false, false⟩,
        ⟨if processed then dht.remove (mailboxKey ours) else dht, false, false⟩, events⟩) := by
  cases processed with
  | true => rfl
  | false => rfl

/-- **A poll that comes through.**  Without an envelope that changes a connection, a poll with both
locks to be had does what it does without locks, and holds none afterwards. -/
theorem exec_retrieveDhtDeadDrops (hdht : n.dhtPoisoned = false) (hdb : n.databasePoisoned = false)
    (hquiet : ¬ DueChange input ours n) :
    exec (retrieveDhtDeadDrops input ours) n.services =
      (.ok (), AtRest.services { n with
        database := { n.database with
          db := (NodeIngest.retrieveDhtDeadDrops n.database.db n.dht ours input.now).1 }
        dht := (NodeIngest.retrieveDhtDeadDrops n.database.db n.dht ours input.now).2 }) := by
  cases hrecord : n.dht.get (mailboxKey ours) input.now with
  | none =>
    rw [exec_retrieve_of_nothing (.inr fun record _ hget => by rw [hrecord] at hget; cases hget)]
    simp only [NodeIngest.retrieveDhtDeadDrops, hrecord]
  | some record =>
    cases henvelope : W.envelopeFromSlice record.value with
    | none =>
      rw [exec_retrieve_of_nothing (.inr fun record' envelope hget hparse => by
        rw [hrecord, Option.some.injEq] at hget
        rw [← hget, henvelope] at hparse
        cases hparse)]
      simp only [NodeIngest.retrieveDhtDeadDrops, hrecord, henvelope]
    | some envelope =>
      have hnone : ¬ ChangesConnection n.database.db ours envelope := fun hchanges =>
        hquiet ⟨hdht, hdb, record, envelope, hrecord, henvelope, hchanges⟩
      rw [exec_retrieve_of_envelope hdht hdb hrecord henvelope, exec_bind,
        exec_takeEnvelope_of_quiet rfl hnone]
      simp only [withDb, NodeIngest.retrieveDhtDeadDrops, hrecord, henvelope,
        exec_removeProcessed, AtRest.services, hdht, hdb]

/-- A poll that is due to change a connection is stuck with `metadata_db`. -/
theorem exec_retrieve_of_dueChange (hdue : DueChange input ours n) :
    ∃ s, exec (retrieveDhtDeadDrops input ours) n.services = (.error .metadataDb, s) := by
  obtain ⟨hdht, hdb, record, envelope, hrecord, henvelope, hchanges⟩ := hdue
  rw [exec_retrieve_of_envelope hdht hdb hrecord henvelope, exec_bind]
  have hstuck : ∃ s, exec (takeEnvelope input ours envelope)
      ⟨⟨n.database, true, false⟩, ⟨n.dht, false, false⟩, n.events⟩ = (.error .metadataDb, s) :=
    exec_takeEnvelope_of_changes rfl hchanges
  obtain ⟨s, hs⟩ := hstuck
  exact ⟨s, by rw [hs]⟩

end Polls

/-- **When a poll locks itself out.**  Whatever the database, the DHT record and the time, a poll
runs to its end unless it is due to change a connection. -/
theorem finishes_iff (input : PollInput) (ours : IdentityKey) (n : AtRest W) :
    Finishes input ours n ↔ ¬ DueChange input ours n := by
  rw [Finishes]
  constructor
  · intro hends hdue
    obtain ⟨s, hs⟩ := exec_retrieve_of_dueChange hdue
    rw [hs] at hends
    cases hends
  · intro hquiet
    cases hdht : n.dhtPoisoned with
    | true => rw [exec_retrieve_of_nothing (.inl hdht)]
    | false =>
      cases hdb : n.databasePoisoned with
      | true => rw [exec_retrieve_of_nothing (.inr fun _ _ _ _ => hdb)]
      | false => rw [exec_retrieveDhtDeadDrops hdht hdb hquiet]

/-- The clock and the random number of the example; hashes are not looked at. -/
def inputAt20 : PollInput := ⟨20, 0, id⟩

/-- A connection request by Ann to Ben, at time 10. -/
def annsRequest : Json :=
  SocialService.requestPayload (List.replicate 32 1) (List.replicate 32 2) none 10

/-- Its envelope. -/
def annsEnvelope : Wire.symbolic.Envelope :=
  SocialService.announcementEnvelope (List.replicate 32 2) annsRequest 10

/-- A DHT record in Ben's mailbox that holds the envelope. -/
def annsRecord : DhtRecord Wire.symbolic :=
  { key := mailboxKey (List.replicate 32 2)
    value := Wire.symbolic.envelopeToVec annsEnvelope
    publisher := List.replicate 32 1
    timestamp := 10
    ttlSeconds := 604800
    signature := [] }

/-- Ben's node, without connections, with the record in its part of the DHT. -/
def bensNode : AtRest Wire.symbolic where
  database := ⟨MetadataDb.empty, SqlTable.empty⟩
  dht := ⟨SqlTable.empty.insertOrReplace annsRecord.key ⟨annsRecord, 604810⟩, 10000, 8192⟩
  databasePoisoned := false
  dhtPoisoned := false
  events := []

theorem dueChange_bensNode : DueChange inputAt20 (List.replicate 32 2) bensNode := by
  have hstored : bensNode.dht.records.get? (mailboxKey (List.replicate 32 2)) =
      some ⟨annsRecord, 604810⟩ := by
    rw [bensNode, SqlTable.get?_insertOrReplace]
    exact if_pos rfl
  have hrecord : bensNode.dht.get (mailboxKey (List.replicate 32 2)) inputAt20.now =
      some annsRecord := by
    rw [DhtStorage.get, hstored]
    rfl
  refine ⟨rfl, rfl, annsRecord, annsEnvelope, hrecord, rfl, .inl ⟨List.replicate 32 1, ?_, rfl⟩⟩
  exact ⟨annsRequest, rfl, rfl, decodeKey_encode rfl⟩

/-- Ben's poll takes in the request and never ends. -/
theorem bensNode_stuck :
    (exec (retrieveDhtDeadDrops inputAt20 (List.replicate 32 2)) bensNode.services).1
      = .error .metadataDb ∧
    ¬ ∀ (input : PollInput) (ours : IdentityKey) (n : AtRest Wire.symbolic),
      Finishes input ours n := by
  obtain ⟨s, hs⟩ := exec_retrieve_of_dueChange dueChange_bensNode
  refine ⟨by rw [hs], fun hall => ?_⟩
  have hends := hall inputAt20 (List.replicate 32 2) bensNode
  rw [Finishes, hs] at hends
  cases hends

end PollLocks
