/-
# What a node ingests (`message_ingest.rs`, `background.rs`)

One turn of `message_ingest_loop` on a payload of the `dm_delivery` topic, and one
`retrieve_dht_dead_drops`.  A payload is a plaintext `direct_message`, or an envelope
whose sealed data may be a `connection_request` or a `connection_accepted`; everything
else in an envelope is stored as a dead drop.

Whom a payload is from is read off the payload itself, in every branch.
-/
import Ephemera.Messaging
import Ephemera.Dht

/-- The events the ingest emits. -/
inductive NodeEvent (W : Wire) where
  | connectionRequestReceived (sender : IdentityKey)
  | connectionEstablished (peer : IdentityKey)
  | messageReceived (sender : IdentityKey) (messageId : W.Digest)

namespace NodeIngest

open Messaging

variable {W : Wire}

/-- `MAX_ENVELOPE_SIZE`: 64 KiB. -/
def maxEnvelopeSize : ℕ := 64 * 1024

/-- `hex::decode` of a key, with the length check. -/
def decodeKey (hex : String) : Option IdentityKey :=
  match Hex.decode hex with
  | .ok bytes => if bytes.length = identityKeyLen then some bytes else none
  | .error _ => none

theorem decodeKey_encode {key : IdentityKey} (h : key.length = identityKeyLen) :
    decodeKey (Hex.encode key) = some key := by
  rw [decodeKey, Hex.decode_encode]
  show (if key.length = identityKeyLen then some key else none) = some key
  rw [if_pos h]

/-! ## Connection envelopes -/

/-- The effect of a `connection_request` payload: `INSERT OR IGNORE` of a row
`pending_incoming`.  `fallback` is the creation time of a payload without one. -/
def ingestRequest (db : MetadataDb W) (loc : IdentityKey) (payload : Json) (fallback : Int64) :
    MetadataDb W :=
  match decodeKey ((payload.getStr "initiator").getD "") with
  | none => db
  | some initiator =>
    let createdAt := ((payload.get "created_at").bind JsonField.asI64).getD fallback
    { db with
      connections := db.connections.insertOrIgnore (loc, initiator)
        ⟨.pendingIncoming, createdAt, createdAt, payload.getStr "message", some initiator⟩ }

/-- The effect of a `connection_accepted` payload: a row `pending_outgoing` becomes
`connected`. -/
def ingestAccepted (db : MetadataDb W) (loc : IdentityKey) (payload : Json) (fallback : Int64) :
    MetadataDb W :=
  match decodeKey ((payload.getStr "acceptor").getD "") with
  | none => db
  | some acceptor =>
    db.connectWhere (loc, acceptor) (fun row => decide (row.status = .pendingOutgoing))
      (((payload.get "created_at").bind JsonField.asI64).getD fallback)

/-! ## Plaintext messages -/

/-- The id under which `handle_plaintext_dm` stores a message. -/
def plaintextId (senderHex body : String) (timestamp : UInt64) : W.Digest :=
  W.blake3 (W.ofStr (senderHex ++ ":" ++ body ++ ":" ++ toString timestamp.toNat))

/-- What is hashed for that id. -/
def plaintextBytes (senderHex body : String) (timestamp : UInt64) : W.Bytes :=
  W.ofStr (senderHex ++ ":" ++ body ++ ":" ++ toString timestamp.toNat)

/-- The row `handle_plaintext_dm` stores for a message. -/
def plaintextRow (ours sender : IdentityKey) (body : String) (timestamp now : UInt64) :
    MessageRow W :=
  { conversationId := computeConversationId ours sender
    senderPubkey := sender
    receivedAt := timestamp.toInt64
    expiresAt := now.toInt64 + 86400
    isRead := false
    bodyPreview := some (takeChars previewChars body)
    hasMedia := false
    encryptedBody := none
    isEncrypted := false }

/-- The writes of `handle_plaintext_dm`: the conversation, the message, and the counters
of the conversation when the message is new. -/
def storePlaintext (db : MetadataDb W) (ours sender : IdentityKey) (senderHex body : String)
    (timestamp now : UInt64) : MetadataDb W :=
  let msgId : W.Digest := plaintextId senderHex body timestamp
  let (conversationId, db) := getOrCreateConversation db ours sender false now
  let row := plaintextRow ours sender body timestamp now
  if (db.messages.get? msgId).isNone then
    bumpConversation { db with messages := db.messages.insertOrIgnore msgId row } conversationId
      timestamp.toInt64
  else db

/-- `handle_plaintext_dm`. -/
def handlePlaintextDm (db : MetadataDb W) (json : Json) (ours : Option IdentityKey) (now : UInt64) :
    MetadataDb W × List (NodeEvent W) :=
  match json.getStr "sender", json.getStr "recipient", json.getStr "body", ours with
  | some senderHex, some recipientHex, some body, some ours =>
    let timestamp := ((json.get "timestamp").bind JsonField.asU64).getD now
    if recipientHex = Hex.encode ours then
      match decodeKey senderHex with
      | some sender =>
        (storePlaintext db ours sender senderHex body timestamp now,
          [.messageReceived sender (plaintextId senderHex body timestamp)])
      | none => (db, [])
    else (db, [])
  | _, _, _, _ => (db, [])

/-! ## Envelopes -/

/-- What is done with an envelope in our mailbox, once it is stored: the sealed data of a
connection envelope is plain JSON. -/
def ingestForUs (db : MetadataDb W) (envelope : W.Envelope) (ours : IdentityKey) (now : UInt64) :
    MetadataDb W × List (NodeEvent W) :=
  match W.jsonFromSlice envelope.sealedData with
  | some payload =>
    if payload.getStr "type" = some "connection_request" then
      (ingestRequest db ours payload now.toInt64,
        ((decodeKey ((payload.getStr "initiator").getD "")).map
          NodeEvent.connectionRequestReceived).toList)
    else if payload.getStr "type" = some "connection_accepted" then
      (ingestAccepted db ours payload now.toInt64,
        ((decodeKey ((payload.getStr "acceptor").getD "")).map
          NodeEvent.connectionEstablished).toList)
    else (db, [.messageReceived ours envelope.messageId])
  | none => (db, [.messageReceived ours envelope.messageId])

/-- The envelope path of `message_ingest_loop`. -/
def ingestEnvelope (db : MetadataDb W) (envelope : W.Envelope) (ours : Option IdentityKey)
    (now : UInt64) : MetadataDb W × List (NodeEvent W) :=
  if envelope.expiresAt ≤ now then (db, [])
  else
    match depositRaw db envelope.mailboxKey envelope.messageId envelope.sealedData
        envelope.depositedAt (min envelope.expiresAt (now + deadDropMaxTtlSecs)) now with
    | .error _ => (db, [])
    | .ok db =>
      match ours with
      | none => (db, [])
      | some ours =>
        if mailboxKey ours = envelope.mailboxKey then ingestForUs db envelope ours now
        else (db, [])

/-- The plaintext message in a payload, if it is one. -/
def directMessage? (payload : W.Bytes) : Option Json :=
  (W.jsonFromSlice payload).filter (fun json => decide (json.getStr "type" = some "direct_message"))

/-- One turn of `message_ingest_loop`. -/
def ingestPayload (db : MetadataDb W) (payload : W.Bytes) (ours : Option IdentityKey)
    (now : UInt64) : MetadataDb W × List (NodeEvent W) :=
  if maxEnvelopeSize < W.len payload then (db, [])
  else
    match directMessage? payload with
    | some json => handlePlaintextDm db json ours now
    | none =>
      match W.envelopeFromSlice payload with
      | none => (db, [])
      | some envelope => ingestEnvelope db envelope ours now

/-! ## Dead drops from the DHT -/

/-- Whether a failed deposit still counts as processed: the message has expired. -/
def isStale : MessageError → Bool
  | .expired => true
  | _ => false

/-- The deposit of `retrieve_dht_dead_drops`, with whether the record is processed. -/
def depositDhtEnvelope (db : MetadataDb W) (envelope : W.Envelope) (ours : IdentityKey)
    (now : UInt64) : MetadataDb W × Bool :=
  match depositRaw db (mailboxKey ours) envelope.messageId envelope.sealedData
      envelope.depositedAt envelope.expiresAt now with
  | .ok db => (db, true)
  | .error e => (db, isStale e)

/-- The envelope part of `retrieve_dht_dead_drops`, with whether the record is processed.
A connection payload whose key cannot be read is deposited like any other message. -/
def ingestDhtEnvelope (db : MetadataDb W) (envelope : W.Envelope) (ours : IdentityKey)
    (now : UInt64) : MetadataDb W × Bool :=
  match W.jsonFromSlice envelope.sealedData with
  | some payload =>
    if payload.getStr "type" = some "connection_request" then
      if (decodeKey ((payload.getStr "initiator").getD "")).isSome then
        (ingestRequest db ours payload 0, true)
      else depositDhtEnvelope db envelope ours now
    else if payload.getStr "type" = some "connection_accepted" then
      if (decodeKey ((payload.getStr "acceptor").getD "")).isSome then
        (ingestAccepted db ours payload 0, true)
      else depositDhtEnvelope db envelope ours now
    else depositDhtEnvelope db envelope ours now
  | none => depositDhtEnvelope db envelope ours now

/-- `retrieve_dht_dead_drops`: the record in our mailbox is taken in, and removed if it was
processed.  The notification of a new connection is left out. -/
def retrieveDhtDeadDrops (db : MetadataDb W) (dht : DhtStorage W) (ours : IdentityKey)
    (now : UInt64) : MetadataDb W × DhtStorage W :=
  match dht.get (mailboxKey ours) now with
  | none => (db, dht)
  | some record =>
    match W.envelopeFromSlice record.value with
    | none => (db, dht)
    | some envelope =>
      let (db, processed) := ingestDhtEnvelope db envelope ours now
      (db, if processed then dht.remove (mailboxKey ours) else dht)

/-! ## What the ingest does to `connections` -/

/-- The sealed data of the envelope is a request in the name of `sender`. -/
def SealsRequest (envelope : W.Envelope) (sender : IdentityKey) : Prop :=
  ∃ payload, W.jsonFromSlice envelope.sealedData = some payload ∧
    payload.getStr "type" = some "connection_request" ∧
    decodeKey ((payload.getStr "initiator").getD "") = some sender

/-- The sealed data of the envelope is an acceptance in the name of `sender`. -/
def SealsAcceptance (envelope : W.Envelope) (sender : IdentityKey) : Prop :=
  ∃ payload, W.jsonFromSlice envelope.sealedData = some payload ∧
    payload.getStr "type" = some "connection_accepted" ∧
    decodeKey ((payload.getStr "acceptor").getD "") = some sender

/-- The row is `pending_outgoing`. -/
def isOutgoing (row : ConnectionRow) : Bool := decide (row.status = .pendingOutgoing)

/-- What an envelope in the mailbox of `loc` may do to `connections`: nothing, insert a
row `pending_incoming` where there is none, or connect a row `pending_outgoing`; in the
name of the key the envelope gives. -/
def EnvelopeEffect (db db' : MetadataDb W) (envelope : W.Envelope) (loc : IdentityKey) : Prop :=
  db'.connections = db.connections ∨
    (∃ sender row, SealsRequest envelope sender ∧ row.status = .pendingIncoming ∧
      db'.connections = db.connections.insertOrIgnore (loc, sender) row) ∨
    ∃ sender t, SealsAcceptance envelope sender ∧
      db'.connections = (db.connectWhere (loc, sender) isOutgoing t).connections

theorem effect_ingestRequest {db : MetadataDb W} {envelope : W.Envelope} {payload : Json}
    (hjson : W.jsonFromSlice envelope.sealedData = some payload)
    (htype : payload.getStr "type" = some "connection_request") (loc : IdentityKey)
    (fallback : Int64) :
    EnvelopeEffect db (ingestRequest db loc payload fallback) envelope loc := by
  unfold ingestRequest
  cases hkey : decodeKey ((payload.getStr "initiator").getD "") with
  | none => exact Or.inl rfl
  | some sender =>
    exact Or.inr (Or.inl ⟨sender, _, ⟨payload, hjson, htype, hkey⟩, rfl, rfl⟩)

theorem effect_ingestAccepted {db : MetadataDb W} {envelope : W.Envelope} {payload : Json}
    (hjson : W.jsonFromSlice envelope.sealedData = some payload)
    (htype : payload.getStr "type" = some "connection_accepted") (loc : IdentityKey)
    (fallback : Int64) :
    EnvelopeEffect db (ingestAccepted db loc payload fallback) envelope loc := by
  unfold ingestAccepted
  cases hkey : decodeKey ((payload.getStr "acceptor").getD "") with
  | none => exact Or.inl rfl
  | some sender =>
    exact Or.inr (Or.inr ⟨sender, _, ⟨payload, hjson, htype, hkey⟩, rfl⟩)

/-- An effect on a database with the same connections. -/
theorem EnvelopeEffect.of_eq {db db₁ db' : MetadataDb W} {envelope : W.Envelope}
    {loc : IdentityKey} (heq : db₁.connections = db.connections)
    (h : EnvelopeEffect db₁ db' envelope loc) : EnvelopeEffect db db' envelope loc := by
  rcases h with h | ⟨sender, row, hseal, hrow, h⟩ | ⟨sender, t, hseal, h⟩
  · exact Or.inl (h.trans heq)
  · exact Or.inr (Or.inl ⟨sender, row, hseal, hrow, by rw [h, heq]⟩)
  · refine Or.inr (Or.inr ⟨sender, t, hseal, ?_⟩)
    rw [h]
    simp only [MetadataDb.connectWhere, heq]

theorem effect_ingestForUs (db : MetadataDb W) (envelope : W.Envelope) (loc : IdentityKey)
    (now : UInt64) : EnvelopeEffect db (ingestForUs db envelope loc now).1 envelope loc := by
  unfold ingestForUs
  cases hjson : W.jsonFromSlice envelope.sealedData with
  | none => exact Or.inl rfl
  | some payload =>
    simp only
    split
    · rename_i htype
      exact effect_ingestRequest hjson htype loc _
    · split
      · rename_i htype
        exact effect_ingestAccepted hjson htype loc _
      · exact Or.inl rfl

theorem connections_storePlaintext (db : MetadataDb W) (ours sender : IdentityKey)
    (senderHex body : String) (timestamp now : UInt64) :
    (storePlaintext db ours sender senderHex body timestamp now).connections = db.connections := by
  unfold storePlaintext getOrCreateConversation
  dsimp only
  split
  · rfl
  · rfl

theorem sameButDrops_depositDhtEnvelope (db : MetadataDb W) (envelope : W.Envelope)
    (loc : IdentityKey) (now : UInt64) :
    SameButDrops db (depositDhtEnvelope db envelope loc now).1 := by
  unfold depositDhtEnvelope
  split
  · rename_i h
    exact sameButDrops_depositRaw h
  · rfl

/-- An envelope from the DHT is a request, an acceptance, or a dead drop. -/
theorem ingestDhtEnvelope_cases (db : MetadataDb W) (envelope : W.Envelope) (loc : IdentityKey)
    (now : UInt64) :
    (∃ payload, W.jsonFromSlice envelope.sealedData = some payload ∧
      payload.getStr "type" = some "connection_request" ∧
      (ingestDhtEnvelope db envelope loc now).1 = ingestRequest db loc payload 0) ∨
    (∃ payload, W.jsonFromSlice envelope.sealedData = some payload ∧
      payload.getStr "type" = some "connection_accepted" ∧
      (ingestDhtEnvelope db envelope loc now).1 = ingestAccepted db loc payload 0) ∨
    ingestDhtEnvelope db envelope loc now = depositDhtEnvelope db envelope loc now := by
  -- whatever is not a readable connection payload is deposited
  unfold ingestDhtEnvelope
  cases hjson : W.jsonFromSlice envelope.sealedData with
  | none => exact Or.inr (Or.inr rfl)
  | some payload =>
    simp only
    split
    · rename_i htype
      split
      · exact Or.inl ⟨payload, rfl, htype, rfl⟩
      · exact Or.inr (Or.inr rfl)
    · split
      · rename_i htype
        split
        · exact Or.inr (Or.inl ⟨payload, rfl, htype, rfl⟩)
        · exact Or.inr (Or.inr rfl)
      · exact Or.inr (Or.inr rfl)

theorem effect_ingestDhtEnvelope (db : MetadataDb W) (envelope : W.Envelope) (loc : IdentityKey)
    (now : UInt64) : EnvelopeEffect db (ingestDhtEnvelope db envelope loc now).1 envelope loc := by
  rcases ingestDhtEnvelope_cases db envelope loc now with ⟨payload, hjson, htype, h⟩ |
    ⟨payload, hjson, htype, h⟩ | h
  · rw [h]
    exact effect_ingestRequest hjson htype loc 0
  · rw [h]
    exact effect_ingestAccepted hjson htype loc 0
  · rw [h, sameButDrops_depositDhtEnvelope db envelope loc now]
    exact Or.inl rfl

/-- What a poll of the DHT does to `connections`. -/
theorem connections_retrieveDhtDeadDrops (db : MetadataDb W) (dht : DhtStorage W)
    (loc : IdentityKey) (now : UInt64) :
    (retrieveDhtDeadDrops db dht loc now).1.connections = db.connections ∨
      ∃ record envelope, dht.get (mailboxKey loc) now = some record ∧
        W.envelopeFromSlice record.value = some envelope ∧
        EnvelopeEffect db (retrieveDhtDeadDrops db dht loc now).1 envelope loc := by
  unfold retrieveDhtDeadDrops
  split
  · exact Or.inl rfl
  · rename_i record hget
    split
    · exact Or.inl rfl
    · rename_i envelope henv
      exact Or.inr ⟨record, envelope, hget, henv, effect_ingestDhtEnvelope db envelope loc now⟩

/-! ## Which branch a payload takes -/

/-- The payload is a plaintext message to `me`, with these contents. -/
structure DirectMessageFor (payload : W.Bytes) (me : IdentityKey) (now : UInt64)
    (sender : IdentityKey) (senderHex body : String) (timestamp : UInt64) : Prop where
  small : ¬maxEnvelopeSize < W.len payload
  json : ∃ json, directMessage? payload = some json ∧ json.getStr "sender" = some senderHex ∧
    json.getStr "recipient" = some (Hex.encode me) ∧ json.getStr "body" = some body ∧
    ((json.get "timestamp").bind JsonField.asU64).getD now = timestamp
  key : decodeKey senderHex = some sender

/-- What `message_ingest_loop` and the deposit check of an envelope: it has not expired, also
not after its expiry is clamped, and its times can be stored. -/
structure Depositable (envelope : W.Envelope) (now : UInt64) : Prop where
  live : ¬envelope.expiresAt ≤ now
  clamped : ¬min envelope.expiresAt (now + deadDropMaxTtlSecs) ≤ now
  storable : ¬(maxSqlInteger < envelope.depositedAt ∨
    maxSqlInteger < min envelope.expiresAt (now + deadDropMaxTtlSecs))

/-- The payload is an envelope in the mailbox of `me` that is deposited. -/
structure EnvelopeFor (payload : W.Bytes) (me : IdentityKey) (now : UInt64)
    (envelope : W.Envelope) : Prop where
  small : ¬maxEnvelopeSize < W.len payload
  notMessage : directMessage? payload = none
  parsed : W.envelopeFromSlice payload = some envelope
  depositable : Depositable envelope now
  mailbox : mailboxKey me = envelope.mailboxKey

/-- The fields of a plaintext message are those of its JSON. -/
theorem DirectMessageFor.fields {payload : W.Bytes} {me sender : IdentityKey}
    {now timestamp : UInt64} {senderHex body : String} {json : Json}
    (h : DirectMessageFor payload me now sender senderHex body timestamp)
    (hjson : directMessage? payload = some json) :
    json.getStr "sender" = some senderHex ∧ json.getStr "recipient" = some (Hex.encode me) ∧
      json.getStr "body" = some body ∧
      ((json.get "timestamp").bind JsonField.asU64).getD now = timestamp := by
  obtain ⟨json', hjson', hfields⟩ := h.json
  rwa [Option.some.inj (hjson.symm.trans hjson')]

/-- A payload has one reading as a plaintext message. -/
theorem DirectMessageFor.unique {payload : W.Bytes} {me sender sender' : IdentityKey}
    {now timestamp timestamp' : UInt64} {senderHex senderHex' body body' : String}
    (h : DirectMessageFor payload me now sender senderHex body timestamp)
    (h' : DirectMessageFor payload me now sender' senderHex' body' timestamp') :
    sender = sender' ∧ senderHex = senderHex' ∧ body = body' ∧ timestamp = timestamp' := by
  obtain ⟨json, hjson, hs, -, hb, ht⟩ := h.json
  obtain ⟨hs', -, hb', ht'⟩ := h'.fields hjson
  obtain rfl := Option.some.inj (hs.symm.trans hs')
  refine ⟨Option.some.inj (h.key.symm.trans h'.key), rfl, Option.some.inj (hb.symm.trans hb'), ?_⟩
  rw [← ht, ← ht']

/-- A plaintext message is stored when it is to us, and dropped otherwise. -/
theorem handlePlaintextDm_cases (db : MetadataDb W) (payload : W.Bytes) (json : Json)
    (me : IdentityKey) (now : UInt64) (hsmall : ¬maxEnvelopeSize < W.len payload)
    (hjson : directMessage? payload = some json) :
    (∃ sender senderHex body timestamp,
      DirectMessageFor payload me now sender senderHex body timestamp ∧
        (handlePlaintextDm db json (some me) now).1
          = storePlaintext db me sender senderHex body timestamp now) ∨
      (∀ sender senderHex body timestamp,
        ¬DirectMessageFor payload me now sender senderHex body timestamp) ∧
        (handlePlaintextDm db json (some me) now).1 = db := by
  unfold handlePlaintextDm
  -- a missing field, another recipient or an unreadable key each contradict the reading
  cases hs : json.getStr "sender" with
  | none =>
    refine Or.inr ⟨fun _ _ _ _ h => ?_, rfl⟩
    rw [(h.fields hjson).1] at hs
    cases hs
  | some senderHex =>
    cases hr : json.getStr "recipient" with
    | none =>
      refine Or.inr ⟨fun _ _ _ _ h => ?_, rfl⟩
      rw [(h.fields hjson).2.1] at hr
      cases hr
    | some recipientHex =>
      cases hb : json.getStr "body" with
      | none =>
        refine Or.inr ⟨fun _ _ _ _ h => ?_, rfl⟩
        rw [(h.fields hjson).2.2.1] at hb
        cases hb
      | some body =>
        simp only
        by_cases hme : recipientHex = Hex.encode me
        · rw [if_pos hme]
          cases hkey : decodeKey senderHex with
          | none =>
            refine Or.inr ⟨fun _ senderHex' _ _ h => ?_, rfl⟩
            have hsame : senderHex' = senderHex :=
              Option.some.inj ((h.fields hjson).1.symm.trans hs)
            have hkey' := h.key
            rw [hsame, hkey] at hkey'
            cases hkey'
          | some sender =>
            exact Or.inl ⟨sender, senderHex, body, _,
              ⟨hsmall, ⟨json, hjson, hs, by rw [hr, hme], hb, rfl⟩, hkey⟩, rfl⟩
        · rw [if_neg hme]
          refine Or.inr ⟨fun _ _ _ _ h => hme ?_, rfl⟩
          exact Option.some.inj (hr.symm.trans (h.fields hjson).2.1)

/-- The database after an envelope is stored for its mailbox, unless its id is taken. -/
def deposited (db : MetadataDb W) (envelope : W.Envelope) (now : UInt64) : MetadataDb W :=
  { db with
    deadDrops := db.deadDrops.insertOrIgnore envelope.messageId
      ⟨envelope.mailboxKey, envelope.sealedData, envelope.depositedAt,
        min envelope.expiresAt (now + deadDropMaxTtlSecs)⟩ }

/-- An envelope that fails a check is dropped. -/
theorem ingestEnvelope_of_not_depositable {envelope : W.Envelope} {now : UInt64}
    (h : ¬Depositable envelope now) (db : MetadataDb W) (ours : Option IdentityKey) :
    ingestEnvelope db envelope ours now = (db, []) := by
  unfold ingestEnvelope
  by_cases hlive : envelope.expiresAt ≤ now
  · rw [if_pos hlive]
  · rw [if_neg hlive]
    cases hdep : depositRaw db envelope.mailboxKey envelope.messageId envelope.sealedData
        envelope.depositedAt (min envelope.expiresAt (now + deadDropMaxTtlSecs)) now with
    | error e => rfl
    | ok db₁ =>
      -- the deposit clamps the clamped expiry once more
      obtain ⟨hclamped, hsql, -⟩ := depositRaw_eq_ok.mp hdep
      have hmin : min (min envelope.expiresAt (now + deadDropMaxTtlSecs))
          (now + deadDropMaxTtlSecs) = min envelope.expiresAt (now + deadDropMaxTtlSecs) := by
        grind
      rw [hmin] at hsql
      exact absurd ⟨hlive, hclamped, hsql⟩ h

/-- An envelope that passes the checks is stored, and looked into if it is in our
mailbox. -/
theorem ingestEnvelope_of_depositable {envelope : W.Envelope} {now : UInt64}
    (h : Depositable envelope now) (db : MetadataDb W) (ours : Option IdentityKey) :
    ingestEnvelope db envelope ours now = match ours with
      | none => (deposited db envelope now, [])
      | some ours =>
        if mailboxKey ours = envelope.mailboxKey then
          ingestForUs (deposited db envelope now) envelope ours now
        else (deposited db envelope now, []) := by
  have hmin : min (min envelope.expiresAt (now + deadDropMaxTtlSecs))
      (now + deadDropMaxTtlSecs) = min envelope.expiresAt (now + deadDropMaxTtlSecs) := by
    grind
  have hdep : depositRaw db envelope.mailboxKey envelope.messageId envelope.sealedData
      envelope.depositedAt (min envelope.expiresAt (now + deadDropMaxTtlSecs)) now
      = .ok (deposited db envelope now) := by
    refine depositRaw_eq_ok.mpr ⟨h.clamped, ?_, ?_⟩
    · rw [hmin]
      exact h.storable
    · rw [hmin]
      rfl
  rw [ingestEnvelope, if_neg h.live, hdep]

/-- **Which branch an envelope takes.**  It is in our mailbox and in time, or it only touches
the dead drops. -/
theorem ingestEnvelope_cases (db : MetadataDb W) {payload : W.Bytes} {envelope : W.Envelope}
    (me : IdentityKey) (now : UInt64) (hsmall : ¬maxEnvelopeSize < W.len payload)
    (hnot : directMessage? payload = none) (henv : W.envelopeFromSlice payload = some envelope) :
    (∃ db₁, EnvelopeFor payload me now envelope ∧ SameButDrops db db₁ ∧
      (ingestEnvelope db envelope (some me) now).1 = (ingestForUs db₁ envelope me now).1) ∨
    ¬EnvelopeFor payload me now envelope ∧
      SameButDrops db (ingestEnvelope db envelope (some me) now).1 := by
  by_cases hdep : Depositable envelope now
  · rw [ingestEnvelope_of_depositable hdep]
    simp only
    by_cases hbox : mailboxKey me = envelope.mailboxKey
    · rw [if_pos hbox]
      exact Or.inl ⟨deposited db envelope now, ⟨hsmall, hnot, henv, hdep, hbox⟩, rfl, rfl⟩
    · rw [if_neg hbox]
      exact Or.inr ⟨fun h => hbox h.mailbox, rfl⟩
  · rw [ingestEnvelope_of_not_depositable hdep]
    exact Or.inr ⟨fun h => hdep h.depositable, rfl⟩

/-- **Which branch a payload takes.**  It is a plaintext message to us, or an envelope in
our mailbox, or it only touches the dead drops. -/
theorem ingestPayload_cases (db : MetadataDb W) (payload : W.Bytes) (me : IdentityKey)
    (now : UInt64) :
    (∃ sender senderHex body timestamp,
      DirectMessageFor payload me now sender senderHex body timestamp ∧
        (ingestPayload db payload (some me) now).1
          = storePlaintext db me sender senderHex body timestamp now) ∨
      (∃ envelope db₁, EnvelopeFor payload me now envelope ∧ SameButDrops db db₁ ∧
        (ingestPayload db payload (some me) now).1 = (ingestForUs db₁ envelope me now).1) ∨
      (∀ sender senderHex body timestamp,
        ¬DirectMessageFor payload me now sender senderHex body timestamp) ∧
        (∀ envelope, ¬EnvelopeFor payload me now envelope) ∧
        SameButDrops db (ingestPayload db payload (some me) now).1 := by
  unfold ingestPayload
  by_cases hsmall : maxEnvelopeSize < W.len payload
  · rw [if_pos hsmall]
    exact Or.inr (Or.inr ⟨fun _ _ _ _ h => h.small hsmall, fun _ h => h.small hsmall, rfl⟩)
  · rw [if_neg hsmall]
    cases hjson : directMessage? payload with
    | some json =>
      simp only
      rcases handlePlaintextDm_cases db payload json me now hsmall hjson with h | ⟨hnot, hdb⟩
      · exact Or.inl h
      · refine Or.inr (Or.inr ⟨hnot, fun _ h => ?_, by rw [hdb]; rfl⟩)
        have hnone := h.notMessage
        rw [hjson] at hnone
        cases hnone
    | none =>
      have hnot : ∀ sender senderHex body timestamp,
          ¬DirectMessageFor payload me now sender senderHex body timestamp := by
        intro _ _ _ _ h
        obtain ⟨json, hjson', -⟩ := h.json
        rw [hjson] at hjson'
        cases hjson'
      simp only
      cases henv : W.envelopeFromSlice payload with
      | none =>
        refine Or.inr (Or.inr ⟨hnot, fun _ h => ?_, rfl⟩)
        have hparsed := h.parsed
        rw [henv] at hparsed
        cases hparsed
      | some envelope =>
        simp only
        rcases ingestEnvelope_cases db me now hsmall hjson henv with
          ⟨db₁, hfor, hdrops, hdb⟩ | ⟨hfor, hdrops⟩
        · exact Or.inr (Or.inl ⟨envelope, db₁, hfor, hdrops, hdb⟩)
        · refine Or.inr (Or.inr ⟨hnot, fun e h => ?_, hdrops⟩)
          have hsame : e = envelope := Option.some.inj (h.parsed.symm.trans henv)
          exact hfor (hsame ▸ h)

/-- Without an identity, the most that happens to a payload is that it is stored for
others. -/
theorem sameButDrops_ingestPayload_none (db : MetadataDb W) (payload : W.Bytes) (now : UInt64) :
    SameButDrops db (ingestPayload db payload none now).1 := by
  unfold ingestPayload
  split
  · rfl
  · split
    · unfold handlePlaintextDm
      split
      · rename_i hours
        cases hours
      · rfl
    · split
      · rfl
      · unfold ingestEnvelope
        split
        · rfl
        · split
          · rfl
          · rename_i hdep
            exact sameButDrops_depositRaw hdep

/-- **What a payload does to `connections`.**  Only an envelope in our mailbox has an
effect. -/
theorem connections_ingestPayload (db : MetadataDb W) (payload : W.Bytes)
    (ours : Option IdentityKey) (now : UInt64) :
    (ingestPayload db payload ours now).1.connections = db.connections ∨
      ∃ loc envelope, ours = some loc ∧ W.envelopeFromSlice payload = some envelope ∧
        mailboxKey loc = envelope.mailboxKey ∧
        EnvelopeEffect db (ingestPayload db payload ours now).1 envelope loc := by
  cases ours with
  | none =>
    left
    rw [sameButDrops_ingestPayload_none db payload now]
  | some loc =>
    rcases ingestPayload_cases db payload loc now with
      ⟨sender, senderHex, body, timestamp, -, hdb⟩ | ⟨envelope, db₁, henv, hdrops, hdb⟩ |
      ⟨-, -, hdrops⟩
    · left
      rw [hdb]
      exact connections_storePlaintext db loc sender senderHex body timestamp now
    · right
      have heq : db₁.connections = db.connections := by rw [hdrops]
      refine ⟨loc, envelope, rfl, henv.parsed, henv.mailbox, ?_⟩
      rw [hdb]
      exact (effect_ingestForUs db₁ envelope loc now).of_eq heq
    · left
      rw [hdrops]

/-- A plaintext message to us is stored. -/
theorem DirectMessageFor.ingestPayload_eq {payload : W.Bytes} {me sender : IdentityKey}
    {now timestamp : UInt64} {senderHex body : String}
    (h : DirectMessageFor payload me now sender senderHex body timestamp) (db : MetadataDb W) :
    (ingestPayload db payload (some me) now).1
      = storePlaintext db me sender senderHex body timestamp now := by
  rcases ingestPayload_cases db payload me now with
    ⟨sender', senderHex', body', timestamp', h', hdb⟩ | ⟨envelope, db₁, henv, -⟩ | ⟨hnot, -⟩
  · obtain ⟨rfl, rfl, rfl, rfl⟩ := h.unique h'
    exact hdb
  · obtain ⟨json, hjson, -⟩ := h.json
    have hnone := henv.notMessage
    rw [hjson] at hnone
    cases hnone
  · exact absurd h (hnot _ _ _ _)

/-! ## What the ingest does to messages -/

/-- A plaintext message is stored unless its id is taken. -/
theorem messages_storePlaintext (db : MetadataDb W) (ours sender : IdentityKey)
    (senderHex body : String) (timestamp now : UInt64) :
    (storePlaintext db ours sender senderHex body timestamp now).messages
      = db.messages.insertOrIgnore (plaintextId senderHex body timestamp)
          (plaintextRow ours sender body timestamp now) := by
  unfold storePlaintext getOrCreateConversation
  dsimp only
  split
  · rfl
  · rename_i h
    have hold : db.messages.get? (plaintextId senderHex body timestamp) ≠ none := by simpa using h
    exact (SqlTable.insertOrIgnore_of_ne_none hold _).symm

theorem threads_ingestRequest (db : MetadataDb W) (ours : IdentityKey) (payload : Json)
    (fallback : Int64) :
    (ingestRequest db ours payload fallback).messages = db.messages ∧
      (ingestRequest db ours payload fallback).conversations = db.conversations := by
  unfold ingestRequest
  split
  · exact ⟨rfl, rfl⟩
  · exact ⟨rfl, rfl⟩

theorem threads_ingestAccepted (db : MetadataDb W) (ours : IdentityKey) (payload : Json)
    (fallback : Int64) :
    (ingestAccepted db ours payload fallback).messages = db.messages ∧
      (ingestAccepted db ours payload fallback).conversations = db.conversations := by
  unfold ingestAccepted
  split
  · exact ⟨rfl, rfl⟩
  · exact ⟨rfl, rfl⟩

theorem threads_ingestForUs (db : MetadataDb W) (envelope : W.Envelope) (ours : IdentityKey)
    (now : UInt64) :
    (ingestForUs db envelope ours now).1.messages = db.messages ∧
      (ingestForUs db envelope ours now).1.conversations = db.conversations := by
  unfold ingestForUs
  split
  · split
    · exact threads_ingestRequest _ _ _ _
    · split
      · exact threads_ingestAccepted _ _ _ _
      · exact ⟨rfl, rfl⟩
  · exact ⟨rfl, rfl⟩

/-- A payload that is not a plaintext message leaves the messages alone. -/
theorem messages_ingestPayload {payload : W.Bytes} (h : directMessage? payload = none)
    (db : MetadataDb W) (me : IdentityKey) (now : UInt64) :
    (ingestPayload db payload (some me) now).1.messages = db.messages := by
  rcases ingestPayload_cases db payload me now with
    ⟨sender, senderHex, body, timestamp, hmsg, -⟩ | ⟨envelope, db₁, -, hdrops, hdb⟩ | ⟨-, -, hdrops⟩
  · obtain ⟨json, hjson, -⟩ := hmsg.json
    rw [h] at hjson
    cases hjson
  · rw [hdb, (threads_ingestForUs db₁ envelope me now).1, hdrops]
  · rw [hdrops]

theorem threads_ingestDhtEnvelope (db : MetadataDb W) (envelope : W.Envelope) (ours : IdentityKey)
    (now : UInt64) :
    (ingestDhtEnvelope db envelope ours now).1.messages = db.messages ∧
      (ingestDhtEnvelope db envelope ours now).1.conversations = db.conversations := by
  rcases ingestDhtEnvelope_cases db envelope ours now with ⟨payload, -, -, h⟩ |
    ⟨payload, -, -, h⟩ | h
  · rw [h]
    exact threads_ingestRequest db ours payload 0
  · rw [h]
    exact threads_ingestAccepted db ours payload 0
  · rw [h, sameButDrops_depositDhtEnvelope db envelope ours now]
    exact ⟨rfl, rfl⟩

/-! ## Message ids -/

/-- The parts around the last separator are determined. -/
theorem append_separator_inj {α : Type} {c : α} {l₁ l₂ d₁ d₂ : List α} (h₁ : c ∉ d₁) (h₂ : c ∉ d₂)
    (h : l₁ ++ c :: d₁ = l₂ ++ c :: d₂) : l₁ = l₂ ∧ d₁ = d₂ := by
  -- were one of the two longer, the other's rest would contain the separator
  rcases List.append_eq_append_iff.mp h with ⟨a, rfl, ha⟩ | ⟨a, rfl, ha⟩
  · cases a with
    | nil => exact ⟨(List.append_nil _).symm, (List.cons.inj ha).2⟩
    | cons x a =>
      rw [List.cons_append] at ha
      have hd := (List.cons.inj ha).2
      exact absurd (by rw [hd]; simp) h₁
  · cases a with
    | nil => exact ⟨List.append_nil _, (List.cons.inj ha).2.symm⟩
    | cons x a =>
      rw [List.cons_append] at ha
      have hd := (List.cons.inj ha).2
      exact absurd (by rw [hd]; simp) h₂

theorem colon_not_mem_toString (n : ℕ) : ':' ∉ (toString n).toList := by
  intro h
  have hdigit : Char.isDigit ':' = true := by
    refine Nat.isDigit_of_mem_toDigits (b := 10) (n := n) (by decide) (by decide) ?_
    rwa [← Nat.toList_repr]
  exact absurd hdigit (by decide)

/-- **A message id determines its message**, among texts of senders of one length. -/
theorem plaintextId_inj (hW : W.Lawful) {hashed : Set W.Bytes}
    (hhash : Set.InjOn W.blake3 hashed) {senderHex senderHex' body body' : String} {t t' : UInt64}
    (hbytes : plaintextBytes senderHex body t ∈ hashed)
    (hbytes' : plaintextBytes senderHex' body' t' ∈ hashed)
    (hlen : senderHex.length = senderHex'.length)
    (h : (plaintextId senderHex body t : W.Digest) = plaintextId senderHex' body' t') :
    senderHex = senderHex' ∧ body = body' ∧ t = t' := by
  have htext := hW.ofStr_injective (hhash hbytes hbytes' h)
  have hlist := congrArg String.toList htext
  simp only [String.toList_append, List.append_assoc] at hlist
  obtain ⟨hsender, hrest⟩ := List.append_inj hlist
    (by rw [String.length_toList, String.length_toList, hlen])
  -- the decimal time has no colon, so the last colon ends the body
  have hbody : body.toList ++ ':' :: (toString t.toNat).toList
      = body'.toList ++ ':' :: (toString t'.toNat).toList := List.append_cancel_left hrest
  obtain ⟨hbody, htime⟩ :=
    append_separator_inj (colon_not_mem_toString _) (colon_not_mem_toString _) hbody
  refine ⟨String.toList_injective hsender, String.toList_injective hbody, UInt64.toNat_inj.mp ?_⟩
  have hnum := congrArg (fun digits => Nat.ofDigitChars 10 digits 0) htime
  simpa [Nat.toString_eq_ofList_toDigits] using hnum

/-- Texts that decode to the same key have the same length. -/
theorem length_of_decodeKey {hex : String} {key : IdentityKey} (h : decodeKey hex = some key) :
    hex.length = 2 * identityKeyLen := by
  unfold decodeKey at h
  cases hdec : Hex.decode hex with
  | error e =>
    rw [hdec] at h
    cases h
  | ok bytes =>
    simp only [hdec] at h
    split at h
    · next hlen => rw [Hex.length_of_decode hdec, hlen]
    · cases h

end NodeIngest
