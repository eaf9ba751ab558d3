/-
# Who stands behind what a node ingests

Our node, the node of one honest peer, and everyone else, who may publish any payload and
put any record into our DHT storage.  Nothing on the wire is signed, so whom a payload is
from is what the payload says.

An ingest is `Authentic` if every row it writes in the name of the peer belongs to a call of
the peer's own node: a message to a send of that body at that time, a request to a request with
that text, a connection to an acceptance.  `authentic_iff_meets` says in which runs every ingest
is.  What the peer's node handed out never does harm, whoever delivers it and how often
(`genuine_of_fromCall`); what somebody else makes in its name does, unless the peer has said the
same or nothing is left to write.
-/
import Ephemera.UserCalls

namespace SenderAuthenticity

open SocialService NodeOp MetadataDb NodeIngest UserCalls DirectMessage GuardedRun StateExcept

variable {W : Wire} {C : Cipher W}

/-! ## The system -/

/-- A call about connections, or a message. -/
inductive Call {W : Wire} (C : Cipher W) where
  | social (call : UserCall)
  | send (target body : String) (ttl : Option UInt64) (entropy : C.Entropy)

/-- The state after a call. -/
def Call.perform (env : CallEnv W) (st : NodeState W) : Call C → NodeState W
  | .social call => call.perform env st
  | .send target body ttl entropy => after (DirectMessage.send C env target body ttl entropy) st

/-- The call returns `Ok`. -/
def Call.succeeds (env : CallEnv W) (st : NodeState W) : Call C → Bool
  | .social call => call.succeeds env st
  | .send target body ttl entropy =>
    (exec (DirectMessage.send C env target body ttl entropy) st).1.isOk

/-- A call that has been performed, and when. -/
structure Performed {W : Wire} (C : Cipher W) where
  now : UInt64
  call : Call C

/-- Our node, the node of the peer, the calls that the peer has performed, and the records others
have put into our DHT storage. -/
structure World (C : Cipher W) where
  own : NodeState W
  peer : NodeState W
  history : List (Performed C)
  planted : List (DhtRecord W)

/-- What our node takes in: a payload of the peer, any other payload, or the record in its
mailbox. -/
inductive Ingest (W : Wire) where
  | deliver (index : ℕ) (now : UInt64)
  | inject (payload : W.Bytes) (now : UInt64)
  | poll (now : UInt64)

/-- What can happen. -/
inductive WorldAction (C : Cipher W) where
  | ownCall (env : CallEnv W) (call : Call C)
  | peerCall (env : CallEnv W) (call : Call C)
  | replicate (index : ℕ) (now : UInt64)
  | plant (record : DhtRecord W) (now : UInt64)
  | ingest (i : Ingest W)

namespace World

/-- Both nodes have just been set up. -/
def initial : World C := ⟨fresh, fresh, [], []⟩

/-- The database after our node has taken something in. -/
def ingest (me : IdentityKey) (s : World C) : Ingest W → MetadataDb W × DhtStorage W
  | .deliver index now =>
    match s.peer.published[index]? with
    | some payload => ((ingestPayload s.own.db payload (some me) now).1, s.own.dht)
    | none => (s.own.db, s.own.dht)
  | .inject payload now => ((ingestPayload s.own.db payload (some me) now).1, s.own.dht)
  | .poll now => NodeIngest.retrieveDhtDeadDrops s.own.db s.own.dht me now

/-- Put a record into our DHT storage. -/
def put (s : World C) (record : DhtRecord W) (now : UInt64) : World C :=
  match s.own.dht.put record now with
  | .ok dht => { s with own := { s.own with dht := dht } }
  | .error _ => s

/-- One step.  A call is made under the identity of its user. -/
def step (me peer : IdentityKey) (s : World C) : WorldAction C → World C
  | .ownCall env call => { s with own := call.perform { env with identity := .ok me } s.own }
  | .peerCall env call =>
    { s with
      peer := call.perform { env with identity := .ok peer } s.peer
      history := if call.succeeds { env with identity := .ok peer } s.peer
        then s.history ++ [⟨env.now, call⟩] else s.history }
  | .replicate index now =>
    match s.peer.stored[index]? with
    | some record => s.put record now
    | none => s
  | .plant record now => { s.put record now with planted := s.planted ++ [record] }
  | .ingest i =>
    { s with own := { s.own with db := (s.ingest me i).1, dht := (s.ingest me i).2 } }

end World

/-! ## The calls that stand behind a row -/

/-- The peer sent us the body at that time. -/
def Sent (me : IdentityKey) (history : List (Performed C)) (body : String) (timestamp : UInt64) :
    Prop :=
  ∃ target ttl entropy, decodeKey target = some me ∧
    (⟨timestamp, .send target body ttl entropy⟩ : Performed C) ∈ history

/-- The time in a row is that of the call, as far as SQLite can store it. -/
def StampedBy (now : UInt64) (time : Int64) : Prop :=
  ∀ t, (JsonField.uint now).asI64 = some t → time = t

/-- The peer made a request to us with that message, at that time. -/
def Asked (me : IdentityKey) (history : List (Performed C)) (message : Option String)
    (createdAt : Int64) : Prop :=
  ∃ p ∈ history, ∃ call : UserCall, p.call = .social call ∧ call.Asks me message ∧
    StampedBy p.now createdAt

/-- The peer accepted our request at that time. -/
def Agreed (me : IdentityKey) (history : List (Performed C)) (updatedAt : Int64) : Prop :=
  ∃ p ∈ history, ∃ call : UserCall, p.call = .social call ∧ call.Accepts me ∧
    StampedBy p.now updatedAt

/-- Every row in the name of `peer` that is new in `db'` belongs to a call of the peer: messages
under their ids, a request, a connection. -/
structure Backed (me peer : IdentityKey) (history : List (Performed C)) (db db' : MetadataDb W) :
    Prop where
  messages : ∀ id row, db.messages.get? id = none → db'.messages.get? id = some row →
    row.senderPubkey = peer → ∃ senderHex body timestamp, decodeKey senderHex = some peer ∧
      id = plaintextId senderHex body timestamp ∧ Sent me history body timestamp
  requests : db.status me peer ≠ some .pendingIncoming → ∀ row,
    db'.connections.get? (me, peer) = some row → row.status = .pendingIncoming →
      Asked me history row.message row.createdAt
  connections : db.status me peer ≠ some .active → ∀ row,
    db'.connections.get? (me, peer) = some row → row.status = .active →
      Agreed me history row.updatedAt

/-- What is ingested in the name of the peer is from the peer. -/
def Authentic (me peer : IdentityKey) (s : World C) : WorldAction C → Prop
  | .ingest i => Backed me peer s.history s.own.db (s.ingest me i).1
  | _ => True

/-! ## The condition -/

/-- The creation time a payload gives. -/
def createdAt (payload : Json) (fallback : Int64) : Int64 :=
  ((payload.get "created_at").bind JsonField.asI64).getD fallback

/-- What the envelope seals in the name of `peer`, the peer has announced, or it has no effect: a
request where there is a row already, an acceptance where none is awaited. -/
structure GenuineEnvelope (me peer : IdentityKey) (history : List (Performed C))
    (db : MetadataDb W) (envelope : W.Envelope) (fallback : Int64) : Prop where
  request : ∀ payload, W.jsonFromSlice envelope.sealedData = some payload →
    payload.getStr "type" = some "connection_request" →
    decodeKey ((payload.getStr "initiator").getD "") = some peer →
      db.connections.get? (me, peer) ≠ none ∨
        Asked me history (payload.getStr "message") (createdAt payload fallback)
  acceptance : ∀ payload, W.jsonFromSlice envelope.sealedData = some payload →
    payload.getStr "type" = some "connection_accepted" →
    decodeKey ((payload.getStr "acceptor").getD "") = some peer →
      db.status me peer ≠ some .pendingOutgoing ∨
        Agreed me history (createdAt payload fallback)

/-- A plaintext message in the name of `peer` is one the peer has sent, or is stored already; and
an envelope to us is genuine. -/
structure GenuinePayload (me peer : IdentityKey) (history : List (Performed C))
    (db : MetadataDb W) (payload : W.Bytes) (now : UInt64) : Prop where
  message : ∀ senderHex body timestamp,
    DirectMessageFor payload me now peer senderHex body timestamp →
      db.messages.get? (plaintextId senderHex body timestamp) ≠ none ∨
        Sent me history body timestamp
  envelope : ∀ envelope, EnvelopeFor payload me now envelope →
    GenuineEnvelope me peer history db envelope now.toInt64

/-- **The condition on an action**: a payload that somebody else publishes is genuine, and so is
the envelope in a record that somebody else has put into our mailbox, when a poll finds it. -/
def Genuine (me peer : IdentityKey) (s : World C) : WorldAction C → Prop
  | .ingest (.inject payload now) => GenuinePayload me peer s.history s.own.db payload now
  | .ingest (.poll now) => ∀ record ∈ s.planted,
      s.own.dht.get (Messaging.mailboxKey me) now = some record →
        ∀ envelope, W.envelopeFromSlice record.value = some envelope →
          GenuineEnvelope me peer s.history s.own.db envelope 0
  | _ => True

/-! ## What is hashed -/

/-- What is hashed for a call of the peer: the key of the mailbox it writes to; and, where a
message arrives, its id. -/
def hashedByCall (peer : IdentityKey) (now : UInt64) : Call C → Set W.Bytes
  | .social call => {bytes | ∃ remote payload, call.Announced peer now remote payload ∧
      Messaging.mailboxBytes remote = bytes}
  | .send _ body _ _ => {bytes | ∃ senderHex, decodeKey senderHex = some peer ∧
      plaintextBytes senderHex body now = bytes}

/-- What is hashed for an action: for a payload that somebody else publishes, the id of the message
of the peer that it holds. -/
def hashedBy (me peer : IdentityKey) : WorldAction C → Set W.Bytes
  | .peerCall env call => hashedByCall peer env.now call
  | .ingest (.inject payload now) => {bytes | ∃ senderHex body timestamp,
      DirectMessageFor payload me now peer senderHex body timestamp ∧
        plaintextBytes senderHex body timestamp = bytes}
  | _ => ∅

/-- What is hashed in a run, for our own mailbox too. -/
def hashedIn (me peer : IdentityKey) (actions : List (WorldAction C)) : Set W.Bytes :=
  {bytes | Messaging.mailboxBytes me = bytes ∨ ∃ a ∈ actions, bytes ∈ hashedBy me peer a}

/-- What is hashed for the calls is in `hashed`. -/
def CallsHashed (hashed : Set W.Bytes) (peer : IdentityKey) (history : List (Performed C)) : Prop :=
  ∀ p ∈ history, ∀ bytes ∈ hashedByCall peer p.now p.call, bytes ∈ hashed

/-- So is what is hashed for the ids of the messages that were sent. -/
theorem CallsHashed.sent {hashed : Set W.Bytes} {me peer : IdentityKey}
    {history : List (Performed C)} (h : CallsHashed hashed peer history) {senderHex body : String}
    {timestamp : UInt64} (hkey : decodeKey senderHex = some peer)
    (hsent : Sent me history body timestamp) :
    plaintextBytes senderHex body timestamp ∈ hashed := by
  obtain ⟨target, ttl, entropy, -, hmem⟩ := hsent
  exact h _ hmem _ ⟨senderHex, hkey, rfl⟩

/-! ## What an envelope does to a row -/

variable {hashed : Set W.Bytes}

variable {env : CallEnv W} {me peer : IdentityKey} {history : List (Performed C)}
  {db db' : MetadataDb W} {envelope : W.Envelope} {fallback : Int64}

/-- The connection payload of an envelope, taken in. -/
def connectionEffect (db : MetadataDb W) (me : IdentityKey) (envelope : W.Envelope)
    (fallback : Int64) : MetadataDb W :=
  match W.jsonFromSlice envelope.sealedData with
  | some payload =>
    if payload.getStr "type" = some "connection_request" then ingestRequest db me payload fallback
    else if payload.getStr "type" = some "connection_accepted" then
      ingestAccepted db me payload fallback
    else db
  | none => db

/-- Over gossip the fallback for the time is the clock, … -/
theorem connections_ingestForUs (db : MetadataDb W) (envelope : W.Envelope) (me : IdentityKey)
    (now : UInt64) : (ingestForUs db envelope me now).1.connections
      = (connectionEffect db me envelope now.toInt64).connections := by
  unfold ingestForUs connectionEffect
  cases W.jsonFromSlice envelope.sealedData with
  | none => rfl
  | some payload =>
    simp only
    split
    · rfl
    · split <;> rfl

/-- … and from the DHT it is zero. -/
theorem connections_ingestDhtEnvelope (db : MetadataDb W) (envelope : W.Envelope)
    (me : IdentityKey) (now : UInt64) : (ingestDhtEnvelope db envelope me now).1.connections
      = (connectionEffect db me envelope 0).connections := by
  have hdeposit : (depositDhtEnvelope db envelope me now).1.connections = db.connections := by
    rw [sameButDrops_depositDhtEnvelope db envelope me now]
  unfold ingestDhtEnvelope connectionEffect
  cases W.jsonFromSlice envelope.sealedData with
  | none => exact hdeposit
  | some payload =>
    simp only
    split
    · cases hkey : decodeKey ((payload.getStr "initiator").getD "") with
      | none => simpa [ingestRequest, hkey] using hdeposit
      | some sender => simp
    · split
      · cases hkey : decodeKey ((payload.getStr "acceptor").getD "") with
        | none => simpa [ingestAccepted, hkey] using hdeposit
        | some sender => simp
      · exact hdeposit

/-- **The row of the peer after an envelope**: as it was, inserted, or connected. -/
theorem row_connectionEffect (db : MetadataDb W) (me peer : IdentityKey) (envelope : W.Envelope)
    (fallback : Int64) :
    (¬SealsRequest envelope peer ∧ ¬SealsAcceptance envelope peer ∧
      (connectionEffect db me envelope fallback).connections.get? (me, peer)
        = db.connections.get? (me, peer)) ∨
    (∃ payload, W.jsonFromSlice envelope.sealedData = some payload ∧
      payload.getStr "type" = some "connection_request" ∧
      decodeKey ((payload.getStr "initiator").getD "") = some peer ∧
      (connectionEffect db me envelope fallback).connections.get? (me, peer)
        = some ((db.connections.get? (me, peer)).getD ⟨.pendingIncoming,
            createdAt payload fallback, createdAt payload fallback, payload.getStr "message",
            some peer⟩)) ∨
    ∃ payload, W.jsonFromSlice envelope.sealedData = some payload ∧
      payload.getStr "type" = some "connection_accepted" ∧
      decodeKey ((payload.getStr "acceptor").getD "") = some peer ∧
      (connectionEffect db me envelope fallback).connections.get? (me, peer)
        = (db.connections.get? (me, peer)).map (fun row => if row.status = .pendingOutgoing
            then { row with status := .active, updatedAt := createdAt payload fallback }
            else row) := by
  unfold connectionEffect SealsRequest SealsAcceptance
  cases hjson : W.jsonFromSlice envelope.sealedData with
  | none => exact Or.inl ⟨by simp, by simp, rfl⟩
  | some payload =>
    simp only [Option.some.injEq, exists_eq_left']
    by_cases hreq : payload.getStr "type" = some "connection_request"
    · rw [if_pos hreq, hreq]
      by_cases hkey : decodeKey ((payload.getStr "initiator").getD "") = some peer
      · refine Or.inr (Or.inl ⟨rfl, hkey, ?_⟩)
        simp only [ingestRequest, hkey, SqlTable.get?_insertOrIgnore, if_pos]
        rfl
      · refine Or.inl ⟨fun h => hkey h.2, by simp, ?_⟩
        unfold ingestRequest
        cases hother : decodeKey ((payload.getStr "initiator").getD "") with
        | none => rfl
        | some sender =>
          have hne : (me, peer) ≠ (me, sender) := by
            rintro h
            exact hkey (by rw [hother, (Prod.mk.inj h).2])
          simp only [SqlTable.get?_insertOrIgnore, if_neg hne]
    · rw [if_neg hreq]
      by_cases hacc : payload.getStr "type" = some "connection_accepted"
      · rw [if_pos hacc, hacc]
        by_cases hkey : decodeKey ((payload.getStr "acceptor").getD "") = some peer
        · refine Or.inr (Or.inr ⟨rfl, hkey, ?_⟩)
          simp only [ingestAccepted, hkey, connections_connectWhere, true_and, decide_eq_true_eq]
          rfl
        · refine Or.inl ⟨by simp, fun h => hkey h.2, ?_⟩
          unfold ingestAccepted
          cases hother : decodeKey ((payload.getStr "acceptor").getD "") with
          | none => rfl
          | some sender =>
            have hne : (me, peer) ≠ (me, sender) := by
              rintro h
              exact hkey (by rw [hother, (Prod.mk.inj h).2])
            simp only [connections_connectWhere, hne, false_and, if_false, Option.map_id_fun',
              id]
      · rw [if_neg hacc]
        exact Or.inl ⟨fun h => hreq h.1, fun h => hacc h.1, rfl⟩

/-! ## When an ingest is backed -/

/-- A step that leaves messages and connections needs no call. -/
theorem Backed.of_same (hmessages : db'.messages = db.messages)
    (hrow : db'.connections.get? (me, peer) = db.connections.get? (me, peer)) :
    Backed me peer history db db' := by
  refine ⟨fun id row hnone hrow' _ => ?_, fun hne row hrow' hs => ?_, fun hne row hrow' hs => ?_⟩
  · rw [hmessages, hnone] at hrow'
    cases hrow'
  · exact absurd (by rw [status, ← hrow, hrow', Option.map_some, hs]) hne
  · exact absurd (by rw [status, ← hrow, hrow', Option.map_some, hs]) hne

/-- A step that leaves messages, and whose row of the peer is `row`, needs the calls for that
row. -/
theorem backed_iff_of_row {row : ConnectionRow} (hmessages : db'.messages = db.messages)
    (hrow : db'.connections.get? (me, peer) = some row) :
    Backed me peer history db db' ↔
      (db.status me peer ≠ some .pendingIncoming → row.status = .pendingIncoming →
        Asked me history row.message row.createdAt) ∧
      (db.status me peer ≠ some .active → row.status = .active →
        Agreed me history row.updatedAt) := by
  constructor
  · exact fun h => ⟨fun hne => h.requests hne row hrow, fun hne => h.connections hne row hrow⟩
  · rintro ⟨hrequest, hconnection⟩
    refine ⟨fun id row' hnone hrow' _ => ?_, fun hne row' hrow' => ?_, fun hne row' hrow' => ?_⟩
    · rw [hmessages, hnone] at hrow'
      cases hrow'
    · obtain rfl := Option.some.inj (hrow.symm.trans hrow')
      exact hrequest hne
    · obtain rfl := Option.some.inj (hrow.symm.trans hrow')
      exact hconnection hne

/-- An envelope that seals nothing in the name of the peer is genuine. -/
theorem genuineEnvelope_of_not_seals (hrequest : ¬SealsRequest envelope peer)
    (hacceptance : ¬SealsAcceptance envelope peer) :
    GenuineEnvelope me peer history db envelope fallback :=
  ⟨fun payload hjson htype hkey => absurd ⟨payload, hjson, htype, hkey⟩ hrequest,
    fun payload hjson htype hkey => absurd ⟨payload, hjson, htype, hkey⟩ hacceptance⟩

/-- So is one that seals nothing readable. -/
theorem genuineEnvelope_of_unreadable (h : W.jsonFromSlice envelope.sealedData = none) :
    GenuineEnvelope me peer history db envelope fallback := by
  refine genuineEnvelope_of_not_seals ?_ ?_
  · rintro ⟨payload, hjson, -⟩
    rw [h] at hjson
    cases hjson
  · rintro ⟨payload, hjson, -⟩
    rw [h] at hjson
    cases hjson

/-- A request is genuine if there is a row already, or the peer has made it. -/
theorem genuineEnvelope_iff_request {payload : Json}
    (hjson : W.jsonFromSlice envelope.sealedData = some payload)
    (htype : payload.getStr "type" = some "connection_request")
    (hkey : decodeKey ((payload.getStr "initiator").getD "") = some peer) :
    GenuineEnvelope me peer history db envelope fallback ↔
      (db.connections.get? (me, peer) ≠ none ∨
        Asked me history (payload.getStr "message") (createdAt payload fallback)) := by
  refine ⟨fun h => h.request payload hjson htype hkey, fun h => ⟨fun payload' hjson' _ _ => ?_,
    fun payload' hjson' htype' _ => ?_⟩⟩
  · obtain rfl := Option.some.inj (hjson.symm.trans hjson')
    exact h
  · obtain rfl := Option.some.inj (hjson.symm.trans hjson')
    rw [htype] at htype'
    exact absurd htype' (by decide)

/-- An acceptance is genuine if none is awaited, or the peer has made it. -/
theorem genuineEnvelope_iff_acceptance {payload : Json}
    (hjson : W.jsonFromSlice envelope.sealedData = some payload)
    (htype : payload.getStr "type" = some "connection_accepted")
    (hkey : decodeKey ((payload.getStr "acceptor").getD "") = some peer) :
    GenuineEnvelope me peer history db envelope fallback ↔
      (db.status me peer ≠ some .pendingOutgoing ∨
        Agreed me history (createdAt payload fallback)) := by
  refine ⟨fun h => h.acceptance payload hjson htype hkey,
    fun h => ⟨fun payload' hjson' htype' _ => ?_, fun payload' hjson' _ _ => ?_⟩⟩
  · obtain rfl := Option.some.inj (hjson.symm.trans hjson')
    rw [htype] at htype'
    exact absurd htype' (by decide)
  · obtain rfl := Option.some.inj (hjson.symm.trans hjson')
    exact h

/-- **An envelope** is backed exactly if it is genuine. -/
theorem backed_iff_genuineEnvelope (hmessages : db'.messages = db.messages)
    (hconnections : db'.connections = (connectionEffect db me envelope fallback).connections) :
    Backed me peer history db db' ↔ GenuineEnvelope me peer history db envelope fallback := by
  rcases row_connectionEffect db me peer envelope fallback with
    ⟨hnoreq, hnoacc, hrow⟩ | ⟨payload, hjson, htype, hkey, hrow⟩ |
    ⟨payload, hjson, htype, hkey, hrow⟩
  · rw [← hconnections] at hrow
    exact iff_of_true (Backed.of_same hmessages hrow) (genuineEnvelope_of_not_seals hnoreq hnoacc)
  · -- a request: the row is inserted if there is none
    rw [genuineEnvelope_iff_request hjson htype hkey]
    rw [← hconnections] at hrow
    cases hold : db.connections.get? (me, peer) with
    | some old =>
      rw [hold, Option.getD_some] at hrow
      exact iff_of_true (Backed.of_same hmessages (hrow.trans hold.symm)) (Or.inl (by simp))
    | none =>
      rw [hold, Option.getD_none] at hrow
      rw [backed_iff_of_row hmessages hrow, status_eq_none_iff.mpr hold]
      simp
  · -- an acceptance: the row is connected if one is awaited
    rw [genuineEnvelope_iff_acceptance hjson htype hkey]
    rw [← hconnections] at hrow
    by_cases hawaited : db.status me peer = some .pendingOutgoing
    · obtain ⟨old, hold, hstatus⟩ := Option.map_eq_some_iff.mp hawaited
      rw [hold, Option.map_some, if_pos hstatus] at hrow
      rw [backed_iff_of_row hmessages hrow, hawaited]
      simp
    · have hsame : db'.connections.get? (me, peer) = db.connections.get? (me, peer) := by
        rw [hrow]
        cases hold : db.connections.get? (me, peer) with
        | none => rfl
        | some old =>
          have hne : old.status ≠ .pendingOutgoing := by
            intro hs
            exact hawaited (by rw [status, hold, Option.map_some, hs])
          rw [Option.map_some, if_neg hne]
      exact iff_of_true (Backed.of_same hmessages hsame) (Or.inl hawaited)

/-- **A plaintext message** is backed exactly if it was sent, or is stored already. -/
theorem backed_storePlaintext_iff (hW : W.Lawful) (hhash : Set.InjOn W.blake3 hashed)
    (hcalls : CallsHashed hashed peer history) {sender : IdentityKey} {senderHex body : String}
    {timestamp now : UInt64} (hkey : decodeKey senderHex = some sender)
    (hbytes : sender = peer → plaintextBytes senderHex body timestamp ∈ hashed) :
    Backed me peer history db (storePlaintext db me sender senderHex body timestamp now) ↔
      (sender = peer → db.messages.get? (plaintextId senderHex body timestamp) ≠ none ∨
        Sent me history body timestamp) := by
  have hmessages := messages_storePlaintext db me sender senderHex body timestamp now
  have hrow : (storePlaintext db me sender senderHex body timestamp now).connections.get?
      (me, peer) = db.connections.get? (me, peer) := by
    rw [connections_storePlaintext]
  constructor
  · rintro h rfl
    by_cases hnew : db.messages.get? (plaintextId senderHex body timestamp) = none
    · right
      have hget : (storePlaintext db me sender senderHex body timestamp now).messages.get?
          (plaintextId senderHex body timestamp)
            = some (plaintextRow me sender body timestamp now) := by
        rw [hmessages, SqlTable.get?_insertOrIgnore_eq_some]
        exact Or.inr ⟨hnew, rfl, rfl⟩
      -- the id of the row leaves no choice of the message
      obtain ⟨senderHex', body', timestamp', hkey', hid, hsent⟩ := h.messages _ _ hnew hget rfl
      have hlen : senderHex.length = senderHex'.length := by
        rw [length_of_decodeKey hkey, length_of_decodeKey hkey']
      obtain ⟨-, rfl, rfl⟩ :=
        plaintextId_inj hW hhash (hbytes rfl) (hcalls.sent hkey' hsent) hlen hid
      exact hsent
    · exact Or.inl hnew
  · intro hsent
    have hsame : Backed me peer history db db := Backed.of_same rfl rfl
    refine ⟨fun id row hnone hrow' hsender => ?_, ?_, ?_⟩
    · rw [hmessages, SqlTable.get?_insertOrIgnore_eq_some] at hrow'
      rcases hrow' with hold | ⟨hnew, rfl, rfl⟩
      · rw [hnone] at hold
        cases hold
      · have hpeer : sender = peer := hsender
        subst hpeer
        exact ⟨senderHex, body, timestamp, hkey, rfl,
          (hsent rfl).resolve_left (fun hne => hne hnew)⟩
    · rw [hrow]
      exact hsame.requests
    · rw [hrow]
      exact hsame.connections

/-- **A payload** is backed exactly if it is genuine. -/
theorem backed_iff_genuinePayload (hW : W.Lawful) (hhash : Set.InjOn W.blake3 hashed)
    (hcalls : CallsHashed hashed peer history) {payload : W.Bytes} {now : UInt64}
    (hpayload : ∀ senderHex body timestamp,
      DirectMessageFor payload me now peer senderHex body timestamp →
        plaintextBytes senderHex body timestamp ∈ hashed) :
    Backed me peer history db (ingestPayload db payload (some me) now).1 ↔
      GenuinePayload me peer history db payload now := by
  rcases ingestPayload_cases db payload me now with
    ⟨sender, senderHex, body, timestamp, hmsg, hdb⟩ | ⟨envelope, db₁, henv, hdrops, hdb⟩ |
    ⟨hnomsg, hnoenv, hdrops⟩
  · have hnoenv : ∀ envelope, ¬EnvelopeFor payload me now envelope := by
      intro envelope henv
      obtain ⟨json, hjson, -⟩ := hmsg.json
      have hnone := henv.notMessage
      rw [hjson] at hnone
      cases hnone
    have hbytes : sender = peer → plaintextBytes senderHex body timestamp ∈ hashed := by
      rintro rfl
      exact hpayload senderHex body timestamp hmsg
    rw [hdb, backed_storePlaintext_iff hW hhash hcalls hmsg.key hbytes]
    constructor
    · refine fun h => ⟨fun senderHex' body' timestamp' hmsg' => ?_,
        fun envelope henv => absurd henv (hnoenv envelope)⟩
      obtain ⟨rfl, rfl, rfl, rfl⟩ := hmsg.unique hmsg'
      exact h rfl
    · rintro h rfl
      exact h.message senderHex body timestamp hmsg
  · have hconn : db₁.connections = db.connections := by rw [hdrops]
    have hmessages : db₁.messages = db.messages := by rw [hdrops]
    have heffect : (connectionEffect db₁ me envelope now.toInt64).connections
        = (connectionEffect db me envelope now.toInt64).connections := by
      unfold connectionEffect ingestRequest ingestAccepted
      rw [hdrops]
      split
      · split
        · split <;> rfl
        · split
          · split <;> rfl
          · rfl
      · rfl
    rw [hdb, backed_iff_genuineEnvelope
      ((threads_ingestForUs db₁ envelope me now).1.trans hmessages)
      ((connections_ingestForUs db₁ envelope me now).trans heffect)]
    constructor
    · refine fun h => ⟨fun senderHex body timestamp hmsg => ?_, fun envelope' henv' => ?_⟩
      · obtain ⟨json, hjson, -⟩ := hmsg.json
        have hnone := henv.notMessage
        rw [hjson] at hnone
        cases hnone
      · obtain rfl := Option.some.inj (henv.parsed.symm.trans henv'.parsed)
        exact h
    · exact fun h => h.envelope envelope henv
  · refine iff_of_true (Backed.of_same (by rw [hdrops]) (by rw [hdrops]))
      ⟨fun _ _ _ h => absurd h (hnomsg _ _ _ _), fun envelope h => absurd h (hnoenv envelope)⟩

/-- **A poll** is backed exactly if the record it finds is no envelope, or a genuine one. -/
theorem backed_iff_genuineRecord (dht : DhtStorage W) (now : UInt64) :
    Backed me peer history db (NodeIngest.retrieveDhtDeadDrops db dht me now).1 ↔
      ∀ record, dht.get (Messaging.mailboxKey me) now = some record →
        ∀ envelope, W.envelopeFromSlice record.value = some envelope →
          GenuineEnvelope me peer history db envelope 0 := by
  have hsame : Backed me peer history db db := Backed.of_same rfl rfl
  unfold NodeIngest.retrieveDhtDeadDrops
  cases hget : dht.get (Messaging.mailboxKey me) now with
  | none => exact iff_of_true hsame (fun record h => by cases h)
  | some record =>
    simp only [Option.some.injEq, forall_eq']
    cases henv : W.envelopeFromSlice record.value with
    | none => exact iff_of_true hsame (fun envelope h => by cases h)
    | some envelope =>
      simp only [Option.some.injEq, forall_eq']
      exact backed_iff_genuineEnvelope (threads_ingestDhtEnvelope db envelope me now).1
        (connections_ingestDhtEnvelope db envelope me now)

/-! ## What a call hands out -/

/-- A value that no poll reads a connection payload from. -/
def Unreadable (value : W.Bytes) : Prop :=
  ∀ envelope, W.envelopeFromSlice value = some envelope →
    W.jsonFromSlice envelope.sealedData = none

/-- What a call that `me` performs at `now` publishes: the message as it is, an envelope with a
ciphertext, or an announcement. -/
def FromCall (me : IdentityKey) (now : UInt64) (bytes : W.Bytes) : Call C → Prop
  | .send target body _ _ =>
    (∃ recipient, decodeKey target = some recipient) ∧
      (bytes = W.jsonToVec (plaintextMessage me target body now) ∨
        ∃ envelope, bytes = W.envelopeToVec envelope ∧
          W.jsonFromSlice envelope.sealedData = none)
  | .social call =>
    ∃ remote payload sent, call.Announced me now remote payload ∧
      bytes = W.envelopeToVec (announcementEnvelope remote payload sent)

/-- Everything new in `st'` is from the call, which has succeeded. -/
structure HandsOut (me : IdentityKey) (env : CallEnv W) (call : Call C) (st st' : NodeState W) :
    Prop where
  published : ∀ bytes ∈ st'.published, bytes ∈ st.published ∨
    call.succeeds env st = true ∧ FromCall me env.now bytes call
  stored : ∀ record ∈ st'.stored, record ∈ st.stored ∨ Unreadable record.value
  records : ∀ key stored, st'.dht.records.get? key = some stored →
    st.dht.records.get? key = some stored ∨ Unreadable stored.record.value

theorem unreadable_announcement (hW : W.Lawful) {remote : IdentityKey} {payload : Json}
    (h : IsAnnouncement me remote payload) : Unreadable (W.jsonToVec payload) := by
  intro envelope henv
  rw [h.not_envelope hW] at henv
  cases henv

theorem handsOut_social (hW : W.Lawful) (hid : env.identity = .ok me) (call : UserCall)
    (st : NodeState W) : HandsOut me env (.social call : Call C) st (call.perform env st) := by
  have h := announces_perform hid call st
  refine ⟨fun bytes hb => (h.published bytes hb).imp_right ?_,
    fun record hr => (h.stored record hr).imp_right ?_,
    fun key stored hk => (h.records key stored hk).imp_right ?_⟩
  · rintro ⟨remote, payload, sent, ⟨hok, hP⟩, heq⟩
    exact ⟨hok, remote, payload, sent, hP, heq⟩
  · rintro ⟨remote, payload, ⟨-, hP⟩, heq⟩
    rw [heq]
    exact unreadable_announcement hW (isAnnouncement_of_announced hP)
  · rintro ⟨remote, payload, ⟨-, hP⟩, heq⟩
    rw [heq]
    exact unreadable_announcement hW (isAnnouncement_of_announced hP)

/-- What a sent message leaves outside. -/
theorem handsOut_afterHandOut (hW : W.Lawful) {target body : String} {ttl : Option UInt64}
    {entropy : C.Entropy} {p : Prepared W} {st : NodeState W} (hme : p.loc = me)
    (hrecipient : ∃ recipient, decodeKey target = some recipient)
    (hok : (Call.send target body ttl entropy : Call C).succeeds env st = true)
    (hsealed : W.jsonFromSlice p.encryptedBody = none) (db : MetadataDb W) :
    HandsOut me env (.send target body ttl entropy : Call C) st
      (afterHandOut env target body p { st with db := db }) := by
  have hvalue : Unreadable (sentRecord p env.now).value := by
    intro envelope henv
    rw [sentRecord, hW.envelope, Option.some.injEq] at henv
    rw [← henv]
    exact hsealed
  obtain ⟨hstored, hrecords⟩ := NodeState.stored_of_afterStore env (sentRecord p env.now)
    (NodeState.afterPublish env (W.envelopeToVec (sentEnvelope p env.now))
      (NodeState.afterPublish env (W.jsonToVec (plaintextMessage p.loc target body env.now))
        { st with db := db }))
  refine ⟨fun bytes hb => ?_, fun record hr => ?_, fun key stored hk => ?_⟩
  · rw [afterHandOut, NodeState.published_afterStore] at hb
    rcases NodeState.mem_published_afterPublish hb with hb | hb
    · rcases NodeState.mem_published_afterPublish hb with hb | hb
      · exact Or.inl hb
      · rw [hme] at hb
        exact Or.inr ⟨hok, hrecipient, Or.inl hb⟩
    · exact Or.inr ⟨hok, hrecipient, Or.inr ⟨sentEnvelope p env.now, hb, hsealed⟩⟩
  · rcases hstored record hr with hr | rfl
    · rw [NodeState.stored_afterPublish, NodeState.stored_afterPublish] at hr
      exact Or.inl hr
    · exact Or.inr hvalue
  · rcases hrecords key stored hk with hk | hk
    · rw [NodeState.dht_afterPublish, NodeState.dht_afterPublish] at hk
      exact Or.inl hk
    · rw [hk]
      exact Or.inr hvalue

theorem handsOut_perform (hW : W.Lawful) (hC : C.Opaque) (hid : env.identity = .ok me)
    (call : Call C) (st : NodeState W) : HandsOut me env call st (call.perform env st) := by
  cases call with
  | social call => exact handsOut_social hW hid call st
  | send target body ttl entropy =>
    show HandsOut me env _ st (after (DirectMessage.send C env target body ttl entropy) st)
    cases hseal : sealBody C env target body entropy with
    | error e =>
      rw [after_send_of_error hseal]
      exact ⟨fun _ h => Or.inl h, fun _ h => Or.inl h, fun _ _ h => Or.inl h⟩
    | ok r =>
      obtain ⟨loc, recipient, encryptedBody⟩ := r
      obtain ⟨hres, key, henc⟩ := sealBody_eq_ok hseal
      obtain ⟨hloc, hrecipient⟩ := of_resolve hid hres
      by_cases hnew : st.db.messages.get? (W.blake3 (W.ofStr body)) = none
      · have hok : (Call.send target body ttl entropy : Call C).succeeds env st = true := by
          obtain ⟨r, hr⟩ := exec_send_of_new hseal ttl hnew
          rw [Call.succeeds, hr]
          rfl
        rw [after_send_of_new hseal ttl hnew]
        exact handsOut_afterHandOut hW hloc.symm ⟨recipient, hrecipient⟩ hok (hC _ _ _ _ henc) _
      · rw [after_send_of_taken hseal ttl hnew]
        exact ⟨fun _ h => Or.inl h, fun _ h => Or.inl h, fun _ _ h => Or.inl h⟩

/-! ## Payloads of the peer -/

/-- The time of an announcement, read back. -/
theorem stampedBy_createdAt {now : UInt64} {payload : Json}
    (h : payload.get "created_at" = some (.uint now)) (fallback : Int64) :
    StampedBy now (createdAt payload fallback) := by
  intro t ht
  rw [createdAt, h, Option.bind_some, ht, Option.getD_some]

/-- A message to us among the payloads of a call is the one the call sent to us. -/
theorem sent_of_fromCall (hW : W.Lawful) {p : Performed C} {bytes : W.Bytes}
    (hmem : p ∈ history) (h : FromCall peer p.now bytes p.call) {sender : IdentityKey}
    {now timestamp : UInt64} {senderHex body : String}
    (hmsg : DirectMessageFor bytes me now sender senderHex body timestamp) :
    Sent me history body timestamp := by
  obtain ⟨json, hjson, -, hrecipient, hbody, htime⟩ := hmsg.json
  obtain ⟨performedAt, call⟩ := p
  cases call with
  | send target body' ttl entropy =>
    obtain ⟨⟨recipient, hkey⟩, rfl | ⟨envelope, rfl, -⟩⟩ := h
    · obtain ⟨json', hjson', hget⟩ :=
        directMessage?_plaintextMessage hW peer target body' performedAt
      obtain rfl := Option.some.inj (hjson.symm.trans hjson')
      rw [Json.getStr, hget] at hrecipient hbody
      rw [hget] at htime
      have htarget : target = Hex.encode me := Option.some.inj hrecipient
      have hsame : body' = body := Option.some.inj hbody
      have hat : performedAt = timestamp := htime
      subst hsame hat
      refine ⟨target, ttl, entropy, ?_, hmem⟩
      -- the text of the target is that of our key, so it resolves to it
      rw [htarget, decodeKey, Hex.decode_encode] at hkey ⊢
      simp only at hkey ⊢
      split at hkey
      · next hlen => rw [if_pos hlen]
      · cases hkey
    · rw [directMessage?_envelope hW] at hjson
      cases hjson
  | social call =>
    obtain ⟨remote, payload, sent, -, rfl⟩ := h
    rw [directMessage?_envelope hW] at hjson
    cases hjson

/-- An envelope to us among the payloads of a call seals nothing, or what the call announces to
us. -/
theorem announced_of_fromCall (hW : W.Lawful) (hhash : Set.InjOn W.blake3 hashed)
    (hmine : Messaging.mailboxBytes me ∈ hashed) (hcalls : CallsHashed hashed peer history)
    {p : Performed C} (hmem : p ∈ history) {bytes : W.Bytes} {now : UInt64}
    (h : FromCall peer p.now bytes p.call) (henv : EnvelopeFor bytes me now envelope) :
    W.jsonFromSlice envelope.sealedData = none ∨
      ∃ (call : UserCall) (payload : Json), p.call = .social call ∧
        call.Announced peer p.now me payload ∧ envelope.sealedData = W.jsonToVec payload := by
  have hparsed := henv.parsed
  obtain ⟨performedAt, call⟩ := p
  cases call with
  | send target body ttl entropy =>
    obtain ⟨-, rfl | ⟨envelope', rfl, hsealed⟩⟩ := h
    · obtain ⟨json, hjson, -⟩ := directMessage?_plaintextMessage hW peer target body performedAt
      have hnone := henv.notMessage
      rw [hjson] at hnone
      cases hnone
    · rw [hW.envelope, Option.some.injEq] at hparsed
      subst hparsed
      exact Or.inl hsealed
  | social call =>
    obtain ⟨remote, payload, sent, hann, rfl⟩ := h
    rw [hW.envelope, Option.some.injEq] at hparsed
    subst hparsed
    have hremote : me = remote := Messaging.mailboxKey_inj hW hhash hmine
      (hcalls _ hmem _ ⟨remote, payload, hann, rfl⟩) henv.mailbox
    subst hremote
    exact Or.inr ⟨call, payload, rfl, hann, rfl⟩

/-- What an envelope seals that announces to us, the peer has said. -/
theorem genuine_of_announced (hW : W.Lawful) {p : Performed C} {call : UserCall} {payload : Json}
    (hmem : p ∈ history) (hcall : p.call = .social call)
    (hann : call.Announced peer p.now me payload)
    (hsealed : envelope.sealedData = W.jsonToVec payload) (db : MetadataDb W) (fallback : Int64) :
    GenuineEnvelope me peer history db envelope fallback := by
  have hget : ∀ json, W.jsonFromSlice envelope.sealedData = some json →
      ∀ field, json.get field = payload.get field := by
    intro json hjson
    rw [hsealed] at hjson
    exact (isAnnouncement_of_announced hann).get hW hjson
  have hrequest : ∀ {target msg : String}, decodeKey target = some me →
      payload = requestPayload peer me (requestMessage msg) p.now →
      call.Asks me (requestMessage msg) → GenuineEnvelope me peer history db envelope fallback := by
    rintro target msg htarget rfl hasks
    refine ⟨fun json hjson htype _ => Or.inr ⟨p, hmem, call, hcall, ?_, ?_⟩,
      fun json hjson htype _ => ?_⟩
    · have hmessage : json.getStr "message" = requestMessage msg := by
        rw [Json.getStr, hget json hjson]
        cases requestMessage msg <;> rfl
      rw [hmessage]
      exact hasks
    · exact stampedBy_createdAt (hget json hjson "created_at") fallback
    · rw [Json.getStr, hget json hjson] at htype
      exact absurd (Option.some.inj htype) (by decide)
  cases call with
  | connect target msg => exact hrequest hann.1 hann.2 ⟨hann.1, rfl⟩
  | resendRequest target msg => exact hrequest hann.1 hann.2 ⟨hann.1, rfl⟩
  | accept source =>
    obtain ⟨hsource, rfl⟩ := hann
    refine ⟨fun json hjson htype _ => ?_,
      fun json hjson _ _ => Or.inr ⟨p, hmem, .accept source, hcall, hsource, ?_⟩⟩
    · rw [Json.getStr, hget json hjson] at htype
      exact absurd (Option.some.inj htype) (by decide)
    · exact stampedBy_createdAt (hget json hjson "created_at") fallback
  | _ => exact hann.elim

/-- **What the peer hands out is genuine**, wherever it arrives. -/
theorem genuine_of_fromCall (hW : W.Lawful) (hhash : Set.InjOn W.blake3 hashed)
    (hmine : Messaging.mailboxBytes me ∈ hashed) (hcalls : CallsHashed hashed peer history)
    {p : Performed C} {bytes : W.Bytes} (hmem : p ∈ history)
    (h : FromCall peer p.now bytes p.call) (db : MetadataDb W)
    (now : UInt64) : GenuinePayload me peer history db bytes now := by
  refine ⟨fun senderHex body timestamp hmsg => Or.inr (sent_of_fromCall hW hmem h hmsg),
    fun envelope henv => ?_⟩
  rcases announced_of_fromCall hW hhash hmine hcalls hmem h henv with
    hsealed | ⟨call, payload, hcall, hann, hsealed⟩
  · exact genuineEnvelope_of_unreadable hsealed
  · exact genuine_of_announced hW hmem hcall hann hsealed db now.toInt64

/-! ## Runs -/

variable {s : World C}

/-- Everything the peer has handed out is from its calls, for which what is hashed is in `hashed`,
and every record in our DHT storage is unreadable or was planted. -/
structure Traced (hashed : Set W.Bytes) (peer : IdentityKey) (s : World C) : Prop where
  calls : CallsHashed hashed peer s.history
  published : ∀ bytes ∈ s.peer.published, ∃ p ∈ s.history, FromCall peer p.now bytes p.call
  stored : ∀ record ∈ s.peer.stored, Unreadable record.value
  records : ∀ key stored, s.own.dht.records.get? key = some stored →
    Unreadable stored.record.value ∨ stored.record ∈ s.planted

theorem traced_initial (hashed : Set W.Bytes) (peer : IdentityKey) :
    Traced hashed peer (World.initial : World C) := by
  refine ⟨fun _ h => ?_, fun _ h => ?_, fun _ h => ?_, fun _ _ h => ?_⟩
  · cases h
  · cases h
  · cases h
  · cases h

theorem traced_put {record : DhtRecord W} {planted : List (DhtRecord W)} (h : Traced hashed peer s)
    (hplanted : ∀ r ∈ s.planted, r ∈ planted)
    (hrecord : Unreadable record.value ∨ record ∈ planted) (now : UInt64) :
    Traced hashed peer { s.put record now with planted := planted } := by
  unfold World.put
  split
  · rename_i dht hput
    refine ⟨h.calls, h.published, h.stored, fun key stored hk => ?_⟩
    rcases DhtStorage.get?_of_put hput hk with hk | hk
    · exact (h.records key stored hk).imp_right (hplanted _)
    · rw [hk]
      exact hrecord
  · exact ⟨h.calls, h.published, h.stored,
      fun key stored hk => (h.records key stored hk).imp_right (hplanted _)⟩

theorem dht_of_ingest (me : IdentityKey) (s : World C) (i : Ingest W) {key : W.Digest}
    {stored : StoredRecord W} (h : (s.ingest me i).2.records.get? key = some stored) :
    s.own.dht.records.get? key = some stored := by
  cases i with
  | deliver index now =>
    simp only [World.ingest] at h
    split at h
    · exact h
    · exact h
  | inject payload now => exact h
  | poll now =>
    simp only [World.ingest, NodeIngest.retrieveDhtDeadDrops] at h
    split at h
    · exact h
    · split at h
      · exact h
      · dsimp only at h
        split at h
        · exact DhtStorage.get?_of_remove h
        · exact h

/-- One step keeps the trace. -/
theorem traced_step (hW : W.Lawful) (hC : C.Opaque) {me peer : IdentityKey} (s : World C)
    {action : WorldAction C} (haction : ∀ bytes ∈ hashedBy me peer action, bytes ∈ hashed)
    (h : Traced hashed peer s) : Traced hashed peer (s.step me peer action) := by
  cases action with
  | ownCall env call =>
    -- our own calls leave only unreadable records in our storage
    have hid : ({ env with identity := .ok me } : CallEnv W).identity = .ok me := rfl
    have hout := handsOut_perform hW hC hid call s.own
    refine ⟨h.calls, h.published, h.stored, fun key stored hk => ?_⟩
    rcases hout.records key stored hk with hk | hk
    · exact h.records key stored hk
    · exact Or.inl hk
  | peerCall env call =>
    have hid : ({ env with identity := .ok peer } : CallEnv W).identity = .ok peer := rfl
    have hout := handsOut_perform hW hC hid call s.peer
    refine ⟨fun p hp => ?_, fun bytes hb => ?_, fun record hr => ?_, h.records⟩
    · simp only [World.step] at hp
      split at hp
      · rcases List.mem_append.mp hp with hp | hp
        · exact h.calls p hp
        · rw [List.mem_singleton.mp hp]
          exact haction
      · exact h.calls p hp
    · rcases hout.published bytes hb with hb | ⟨hok, hb⟩
      · obtain ⟨p, hmem, hfrom⟩ := h.published bytes hb
        refine ⟨p, ?_, hfrom⟩
        simp only [World.step]
        split
        · exact List.mem_append_left _ hmem
        · exact hmem
      · refine ⟨⟨env.now, call⟩, ?_, hb⟩
        simp only [World.step]
        rw [if_pos hok]
        exact List.mem_append_right _ (List.mem_singleton.mpr rfl)
    · rcases hout.stored record hr with hr | hr
      · exact h.stored record hr
      · exact hr
  | replicate index now =>
    simp only [World.step]
    cases hget : s.peer.stored[index]? with
    | none => exact h
    | some record =>
      have hput := traced_put h (fun _ hr => hr)
        (Or.inl (h.stored record (List.mem_of_getElem? hget))) now
      have hplanted : (s.put record now).planted = s.planted := by
        unfold World.put
        split <;> rfl
      rw [← hplanted] at hput
      exact hput
  | plant record now =>
    exact traced_put h (fun _ hr => List.mem_append_left _ hr)
      (Or.inr (List.mem_append_right _ (List.mem_singleton.mpr rfl))) now
  | ingest i =>
    exact ⟨h.calls, h.published, h.stored,
      fun key stored hk => h.records key stored (dht_of_ingest me s i hk)⟩

/-- A record that a poll reads a connection payload from was planted. -/
theorem planted_of_sealed (h : Traced hashed peer s) {record : DhtRecord W} {envelope : W.Envelope}
    {now : UInt64} (hget : s.own.dht.get (Messaging.mailboxKey me) now = some record)
    (henv : W.envelopeFromSlice record.value = some envelope)
    (hsealed : W.jsonFromSlice envelope.sealedData ≠ none) : record ∈ s.planted := by
  obtain ⟨stored, hstored, rfl⟩ := DhtStorage.get?_of_get hget
  rcases h.records _ stored hstored with hunreadable | hplanted
  · exact absurd (hunreadable envelope henv) hsealed
  · exact hplanted

/-- **One action** is authentic exactly if it is genuine. -/
theorem authentic_iff_genuine (hW : W.Lawful) (hhash : Set.InjOn W.blake3 hashed)
    (hmine : Messaging.mailboxBytes me ∈ hashed) (h : Traced hashed peer s) {action : WorldAction C}
    (haction : ∀ bytes ∈ hashedBy me peer action, bytes ∈ hashed) :
    Authentic me peer s action ↔ Genuine me peer s action := by
  cases action with
  | ingest i =>
    cases i with
    | deliver index now =>
      refine iff_of_true ?_ trivial
      simp only [Authentic, World.ingest]
      cases hget : s.peer.published[index]? with
      | none => exact Backed.of_same rfl rfl
      | some bytes =>
        -- what the peer published leads back to the call that published it
        obtain ⟨p, hmem, hfrom⟩ := h.published bytes (List.mem_of_getElem? hget)
        have hbytes : ∀ senderHex body timestamp,
            DirectMessageFor bytes me now peer senderHex body timestamp →
              plaintextBytes senderHex body timestamp ∈ hashed := fun _ _ _ hmsg =>
          h.calls.sent hmsg.key (sent_of_fromCall hW hmem hfrom hmsg)
        exact (backed_iff_genuinePayload hW hhash h.calls hbytes).mpr
          (genuine_of_fromCall hW hhash hmine h.calls hmem hfrom s.own.db now)
    | inject payload now =>
      exact backed_iff_genuinePayload hW hhash h.calls
        (fun senderHex body timestamp hmsg => haction _ ⟨senderHex, body, timestamp, hmsg, rfl⟩)
    | poll now =>
      refine (backed_iff_genuineRecord s.own.dht now).trans
        ⟨fun hall record _ hget => hall record hget, fun hall record hget envelope henv => ?_⟩
      by_cases hsealed : W.jsonFromSlice envelope.sealedData = none
      · exact genuineEnvelope_of_unreadable hsealed
      · exact hall record (planted_of_sealed h hget henv hsealed) hget envelope henv
  | _ => exact Iff.rfl

/-- **Who stands behind what is ingested.**  In a run every row that an ingest writes in the name
of the peer belongs to a call that the peer has performed, exactly if every payload that somebody
else publishes, and every record that somebody else puts into our mailbox, is genuine. -/
theorem authentic_iff_meets (hW : W.Lawful) (hC : C.Opaque) (me peer : IdentityKey)
    (actions : List (WorldAction C)) (hhash : Set.InjOn W.blake3 (hashedIn me peer actions)) :
    (∀ l₁ a l₂, actions = l₁ ++ a :: l₂ →
      Authentic me peer (run (World.step me peer) World.initial l₁) a) ↔
      Meets (World.step me peer) (Genuine me peer) World.initial actions :=
  forall_split_iff_meets (Traced (hashedIn me peer actions) peer)
    (fun _ a ha h =>
      authentic_iff_genuine hW hhash (Or.inl rfl) h (fun _ hb => Or.inr ⟨a, ha, hb⟩))
    (fun s a ha h _ => traced_step hW hC s (fun _ hb => Or.inr ⟨a, ha, hb⟩) h)
    (traced_initial _ peer)

/-! ## A message that comes again, and a forged one -/

/-- Bob sends a message to Alice. -/
def hello : Call Cipher.symbolic := .send (Hex.encode alice) "hello" none (0 : ℕ)

/-- What goes over gossip then. -/
def helloPayload : Wire.symbolic.Bytes :=
  Wire.symbolic.jsonToVec (plaintextMessage bob (Hex.encode alice) "hello" 5)

/-- The message arrives, and somebody publishes the same bytes once more. -/
def replayed : List (WorldAction Cipher.symbolic) :=
  [.peerCall (online bob 5) hello, .ingest (.deliver 0 6), .ingest (.inject helloPayload 7)]

/-- The history once the message has arrived. -/
theorem history_replayed : (run (World.step alice bob) World.initial
    [.peerCall (online bob 5) hello, .ingest (.deliver 0 6)]).history = [⟨5, hello⟩] := by
  have hok : hello.succeeds { online bob 5 with identity := .ok bob } fresh = true := by
    decide +kernel
  show (if hello.succeeds { online bob 5 with identity := .ok bob } fresh
    then [] ++ [⟨5, hello⟩] else []) = [(⟨5, hello⟩ : Performed Cipher.symbolic)]
  rw [if_pos hok, List.nil_append]

/-- Every ingest of that run is authentic, and the first one stores the message. -/
theorem authentic_iff_meets_replayed :
    (∀ l₁ a l₂, replayed = l₁ ++ a :: l₂ →
      Authentic alice bob (run (World.step alice bob) World.initial l₁) a) ∧
    ∃ row, (run (World.step alice bob) World.initial replayed).own.db.messages.get?
      (plaintextId (Hex.encode bob) "hello" 5) = some row ∧ row.senderPubkey = bob := by
  have hfrom : FromCall bob 5 helloPayload hello :=
    ⟨⟨alice, by decide +kernel⟩, Or.inl rfl⟩
  have hmem : (⟨5, hello⟩ : Performed Cipher.symbolic) ∈ (run (World.step alice bob) World.initial
      [.peerCall (online bob 5) hello, .ingest (.deliver 0 6)]).history := by
    rw [history_replayed]
    exact List.mem_singleton_self _
  refine ⟨(authentic_iff_meets Wire.symbolic_lawful Cipher.opaque_symbolic alice bob replayed
    (Wire.symbolic_injOn _)).mpr ⟨trivial, trivial, ?_, trivial⟩, ?_⟩
  · exact genuine_of_fromCall Wire.symbolic_lawful (Wire.symbolic_injOn Set.univ) (Set.mem_univ _)
      (fun _ _ _ _ => Set.mem_univ _) hmem hfrom _ 7
  · exact Option.map_eq_some_iff.mp (by decide +kernel)

/-- **A forged message is stored.**  Bob has done nothing; somebody publishes a message in his
name, and Alice's node stores it. -/
theorem forged_message_stored :
    ¬ ∀ (actions l₁ : List (WorldAction Cipher.symbolic)) a l₂, actions = l₁ ++ a :: l₂ →
      Authentic alice bob (run (World.step alice bob) World.initial l₁) a := by
  intro h
  have hbacked := h [.ingest (.inject helloPayload 6)] [] _ [] rfl
  have hnew : (((World.initial : World Cipher.symbolic).ingest alice
      (.inject helloPayload 6)).1.messages.get?
        (plaintextId (Hex.encode bob) "hello" 5)).map MessageRow.senderPubkey = some bob := by
    decide +kernel
  obtain ⟨row, hrow, hsender⟩ := Option.map_eq_some_iff.mp hnew
  obtain ⟨_, _, _, -, -, _, _, _, -, hmem⟩ := hbacked.messages _ row rfl hrow hsender
  cases hmem

end SenderAuthenticity
