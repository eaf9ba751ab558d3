/-
# Blocks and rejected requests

A sender is barred when we block it, or when it is a stranger whose message request we
rejected.  Of the ways a payload can arrive, `receive_message` looks at rejected requests
and `receive_connection_request` at blocks; the others look at neither, and no path looks
at both.

`Enforced` is the exact condition under which a payload adds nothing for a sender: the
path makes the check that bars it, or whatever it would insert is there already.
-/
import Ephemera.ConnectionFrame

namespace BlockEnforcement

open Messaging NodeIngest MetadataDb GuardedRun

variable {W : Wire} {C : Cipher W}

/-! ## What arrives -/

/-- A payload, on the path it takes into the database of a node. -/
inductive Arrival {W : Wire} (C : Cipher W) where
  | sealedMessage (envelope : W.Sealed) (secret : C.X25519Secret) (now : UInt64)
  | gossip (payload : W.Bytes) (now : UInt64)
  | deadDrop (dht : DhtStorage W) (now : UInt64)
  | connectionRequest (sender : IdentityKey) (message : Option String) (now : UInt64)

/-- The database of `ours` after an arrival. -/
def receive (ours : IdentityKey) (db : MetadataDb W) : Arrival C → MetadataDb W
  | .sealedMessage envelope secret now =>
    match receiveMessage C db envelope ours secret now with
    | .ok (_, db) => db
    | .error _ => db
  | .gossip payload now => (ingestPayload db payload (some ours) now).1
  | .deadDrop dht now => (retrieveDhtDeadDrops db dht ours now).1
  | .connectionRequest sender message now => db.receiveConnectionRequest ours sender message now

/-- `ours` blocks `sender`, or has rejected the message request of a stranger. -/
def Barred (ours : IdentityKey) (db : MetadataDb W) (sender : IdentityKey) : Prop :=
  db.isBlocked ours sender = true ∨
    isStranger db ours sender = true ∧ isRequestRejected db ours sender = true

/-- The row is a conversation of `ours` with `sender`, and not a request. -/
def IsConversation (ours sender : IdentityKey) (row : ConversationRow) : Prop :=
  row.ourPubkey = ours ∧ row.theirPubkey = sender ∧ row.isRequest = false

/-- Every message of `sender`, every conversation with it other than a request, and a
connection with it are in `db` already. -/
structure AddsNothing (ours sender : IdentityKey) (db db' : MetadataDb W) : Prop where
  messages : ∀ id row, db'.messages.get? id = some row → row.senderPubkey = sender →
    db.messages.get? id = some row
  conversations : ∀ id row, db'.conversations.get? id = some row → IsConversation ours sender row →
    ∃ row₀, db.conversations.get? id = some row₀ ∧ IsConversation ours sender row₀
  connections : db.connections.get? (ours, sender) = none →
    db'.connections.get? (ours, sender) = none

/-- The checks a path makes, and the rows it would insert. -/
def Enforced (ours : IdentityKey) (db : MetadataDb W) (sender : IdentityKey) : Arrival C → Prop
  | .sealedMessage envelope secret now =>
    ∀ payload, isExpired envelope now = false → openEnvelope C envelope secret = .ok payload →
      payload.sender = sender →
      (isStranger db ours sender = true ∧ isRequestRejected db ours sender = true) ∨
        db.messages.get? (W.blake3 envelope.ciphertext) ≠ none ∧
          (isStranger db ours sender = true ∨
            db.conversations.get? (computeConversationId ours sender) ≠ none)
  | .gossip payload now =>
    (∀ senderHex body timestamp,
      DirectMessageFor payload ours now sender senderHex body timestamp →
        db.messages.get? (plaintextId senderHex body timestamp) ≠ none ∧
          db.conversations.get? (computeConversationId ours sender) ≠ none) ∧
      ∀ envelope, EnvelopeFor payload ours now envelope → SealsRequest envelope sender →
        db.connections.get? (ours, sender) ≠ none
  | .deadDrop dht now =>
    ∀ record envelope, dht.get (mailboxKey ours) now = some record →
      W.envelopeFromSlice record.value = some envelope → SealsRequest envelope sender →
      db.connections.get? (ours, sender) ≠ none
  | .connectionRequest sender' _ _ =>
    sender' = sender → db.isBlocked ours sender = true ∨ db.connections.get? (ours, sender) ≠ none

theorem AddsNothing.refl (ours sender : IdentityKey) (db : MetadataDb W) :
    AddsNothing ours sender db db :=
  ⟨fun _ _ h _ => h, fun _ row h hrow => ⟨row, h, hrow⟩, id⟩

theorem AddsNothing.trans {ours sender : IdentityKey} {db₁ db₂ db₃ : MetadataDb W}
    (h : AddsNothing ours sender db₁ db₂) (h' : AddsNothing ours sender db₂ db₃) :
    AddsNothing ours sender db₁ db₃ where
  messages := fun id row hrow hs => h.messages id row (h'.messages id row hrow hs) hs
  conversations := fun id row hrow hconv => by
    obtain ⟨row₂, hrow₂, hconv₂⟩ := h'.conversations id row hrow hconv
    exact h.conversations id row₂ hrow₂ hconv₂
  connections := fun hnone => h'.connections (h.connections hnone)

/-! ## Messages -/

/-- `db'` is `db` with a message of `sender` and its conversation, each unless it is there
already. -/
structure Delivered (db db' : MetadataDb W) (ours sender : IdentityKey) (id : W.Digest)
    (isRequest : Bool) : Prop where
  connections : db'.connections = db.connections
  messages : ∃ row, row.senderPubkey = sender ∧ db'.messages = db.messages.insertOrIgnore id row
  conversations : ∃ (row : ConversationRow) (f : ConversationRow → ConversationRow),
    row.ourPubkey = ours ∧ row.theirPubkey = sender ∧
    row.isRequest = isRequest ∧
    (∀ ours' sender' r, IsConversation ours' sender' (f r) ↔ IsConversation ours' sender' r) ∧
    ∀ k, db'.conversations.get? k = ((db.conversations.insertOrIgnore
      (computeConversationId ours sender) row).get? k).map
        (fun r => if k = computeConversationId ours sender then f r else r)

/-- What a delivered message adds for its own sender. -/
theorem Delivered.dup_of_addsNothing {db db' : MetadataDb W} {ours sender : IdentityKey}
    {id : W.Digest} {isRequest : Bool} (h : Delivered db db' ours sender id isRequest)
    (hadds : AddsNothing ours sender db db') :
    db.messages.get? id ≠ none ∧
      (isRequest = true ∨ db.conversations.get? (computeConversationId ours sender) ≠ none) := by
  obtain ⟨row, hsender, hmessages⟩ := h.messages
  obtain ⟨conv, f, hours, htheirs, hreq, hf, hconvs⟩ := h.conversations
  constructor
  · intro hnone
    have hget : db'.messages.get? id = some row := by
      rw [hmessages, SqlTable.get?_insertOrIgnore_eq_some]
      exact Or.inr ⟨hnone, rfl, rfl⟩
    rw [hadds.messages id row hget hsender] at hnone
    cases hnone
  · by_cases hr : isRequest = true
    · exact Or.inl hr
    · refine Or.inr (fun hnone => ?_)
      have hget : db'.conversations.get? (computeConversationId ours sender) = some (f conv) := by
        rw [hconvs, SqlTable.get?_insertOrIgnore, if_pos rfl, hnone, Option.getD_none,
          Option.map_some, if_pos rfl]
      have hconv : IsConversation ours sender (f conv) :=
        (hf ours sender conv).mpr ⟨hours, htheirs, by rw [hreq]; simpa using hr⟩
      obtain ⟨row₀, hrow₀, -⟩ := hadds.conversations _ _ hget hconv
      rw [hnone] at hrow₀
      cases hrow₀

/-- A delivered message adds nothing for another sender, and nothing for its own when it and
its conversation are there already. -/
theorem Delivered.addsNothing_iff {db db' : MetadataDb W} {ours sender : IdentityKey}
    {id : W.Digest} {isRequest : Bool} (h : Delivered db db' ours sender id isRequest)
    (sender' : IdentityKey) :
    AddsNothing ours sender' db db' ↔ (sender = sender' →
      db.messages.get? id ≠ none ∧
        (isRequest = true ∨ db.conversations.get? (computeConversationId ours sender) ≠ none)) := by
  constructor
  · rintro hadds rfl
    exact h.dup_of_addsNothing hadds
  · intro hdup
    obtain ⟨row, hsender, hmessages⟩ := h.messages
    obtain ⟨conv, f, -, htheirs, hreq, hf, hconvs⟩ := h.conversations
    refine ⟨fun k r hr hs => ?_, fun k r hr hconv => ?_, fun hnone => by rw [h.connections, hnone]⟩
    · rw [hmessages, SqlTable.get?_insertOrIgnore_eq_some] at hr
      rcases hr with hold | ⟨hnone, rfl, rfl⟩
      · exact hold
      · exact absurd hnone (hdup (hsender.symm.trans hs)).1
    · rw [hconvs, Option.map_eq_some_iff] at hr
      obtain ⟨r', hr', rfl⟩ := hr
      -- the counters of a conversation do not matter
      have hconv' : IsConversation ours sender' r' := by
        split at hconv
        · exact (hf ours sender' r').mp hconv
        · exact hconv
      rcases SqlTable.get?_insertOrIgnore_eq_some.mp hr' with hold | ⟨hnone, rfl, rfl⟩
      · exact ⟨r', hold, hconv'⟩
      · rcases (hdup (htheirs.symm.trans hconv'.2.1)).2 with hr | hsome
        · rw [← hreq, hconv'.2.2] at hr
          cases hr
        · exact absurd hnone hsome

theorem conversations_bumpConversation (db : MetadataDb W) (conversationId : W.Digest)
    (at' : Int64) (k : W.Digest) :
    (bumpConversation db conversationId at').conversations.get? k = (db.conversations.get? k).map
      (fun r => if k = conversationId
        then { r with lastMessageAt := some at', unreadCount := r.unreadCount + 1 } else r) := by
  rw [bumpConversation, SqlTable.get?_updateWhere]
  simp only [decide_eq_true_eq]

theorem delivered_storePlaintext (db : MetadataDb W) (ours sender : IdentityKey)
    (senderHex body : String) (timestamp now : UInt64) :
    Delivered db (storePlaintext db ours sender senderHex body timestamp now) ours sender
      (plaintextId senderHex body timestamp) false := by
  refine ⟨connections_storePlaintext _ _ _ _ _ _ _, ?_, ?_⟩
  · exact ⟨plaintextRow ours sender body timestamp now, rfl,
      messages_storePlaintext db ours sender senderHex body timestamp now⟩
  · unfold storePlaintext getOrCreateConversation
    dsimp only
    split
    · exact ⟨⟨ours, sender, some now.toInt64, 0, false, now.toInt64⟩,
        fun r => { r with
          lastMessageAt := some timestamp.toInt64, unreadCount := r.unreadCount + 1 },
        rfl, rfl, rfl, fun _ _ _ => Iff.rfl, fun k => conversations_bumpConversation _ _ _ k⟩
    · refine ⟨⟨ours, sender, some now.toInt64, 0, false, now.toInt64⟩, id, rfl, rfl, rfl,
        fun _ _ _ => Iff.rfl, fun k => ?_⟩
      simp only [id, ite_self, Option.map_id_fun']

theorem delivered_storeReceived (db : MetadataDb W) (envelope : W.Sealed)
    (payload : W.Payload) (ours : IdentityKey) (isRequest : Bool) (now : UInt64) :
    Delivered db (storeReceived db envelope payload ours isRequest now) ours payload.sender
      (W.blake3 envelope.ciphertext) isRequest := by
  refine ⟨connections_storeReceived _ _ _ _ _ _, ?_, ?_⟩
  · refine ⟨⟨computeConversationId ours payload.sender, payload.sender, now.toInt64,
      envelope.timestamp.toInt64 + envelope.ttl.toInt64, false,
      (W.toStr? payload.body).map (takeChars previewChars), false, none, false⟩, rfl, ?_⟩
    cases isRequest with
    | false => rfl
    | true => rfl
  · refine ⟨⟨ours, payload.sender, some now.toInt64, 0, isRequest, now.toInt64⟩,
      fun r => { r with lastMessageAt := some now.toInt64, unreadCount := r.unreadCount + 1 },
      rfl, rfl, rfl, fun _ _ _ => Iff.rfl, fun k => ?_⟩
    cases isRequest with
    | false => exact conversations_bumpConversation _ _ _ k
    | true => exact conversations_bumpConversation _ _ _ k

/-! ## Connections -/

variable {db db' : MetadataDb W} {ours sender : IdentityKey} {envelope : W.Envelope}

/-- An envelope that inserts the requests it seals adds nothing exactly when it seals none,
or when there is a row already. -/
theorem addsNothing_of_envelopeEffect (hmessages : db'.messages = db.messages)
    (hconversations : db'.conversations = db.conversations)
    (heffect : EnvelopeEffect db db' envelope ours)
    (hinserts : SealsRequest envelope sender → db'.connections.get? (ours, sender) ≠ none) :
    AddsNothing ours sender db db' ↔
      (SealsRequest envelope sender → db.connections.get? (ours, sender) ≠ none) := by
  constructor
  · intro hadds hseal hnone
    exact hinserts hseal (hadds.connections hnone)
  · intro h
    refine ⟨fun id row hrow _ => by rwa [hmessages] at hrow,
      fun id row hrow hconv => ⟨row, by rwa [hconversations] at hrow, hconv⟩, fun hnone => ?_⟩
    rcases status_of_envelopeEffect heffect sender with hsame | ⟨hseal, -⟩ | ⟨-, hold, -⟩
    · rw [← status_eq_none_iff, hsame, status_eq_none_iff, hnone]
    · exact absurd hnone (h hseal)
    · rw [status_eq_none_iff.mpr hnone] at hold
      cases hold

/-- An ingested request leaves a row. -/
theorem connections_ingestRequest {payload : Json}
    (hkey : decodeKey ((payload.getStr "initiator").getD "") = some sender) (db : MetadataDb W)
    (ours : IdentityKey) (fallback : Int64) :
    (ingestRequest db ours payload fallback).connections.get? (ours, sender) ≠ none := by
  simp only [ingestRequest, hkey, SqlTable.get?_insertOrIgnore, if_pos, ne_eq, reduceCtorEq,
    not_false_eq_true]

theorem addsNothing_ingestForUs_iff (hdrops : SameButDrops db db') (now : UInt64) :
    AddsNothing ours sender db (ingestForUs db' envelope ours now).1 ↔
      (SealsRequest envelope sender → db.connections.get? (ours, sender) ≠ none) := by
  obtain ⟨hmessages, hconversations⟩ := threads_ingestForUs db' envelope ours now
  rw [hdrops] at hmessages hconversations
  have hconn : db'.connections = db.connections := by rw [hdrops]
  refine addsNothing_of_envelopeEffect (by rw [hdrops]; exact hmessages)
    (by rw [hdrops]; exact hconversations)
    ((effect_ingestForUs db' envelope ours now).of_eq hconn) ?_
  rintro ⟨payload, hjson, htype, hkey⟩
  simp only [ingestForUs, hjson, if_pos htype]
  exact connections_ingestRequest hkey db' ours _

theorem addsNothing_ingestDhtEnvelope_iff (now : UInt64) :
    AddsNothing ours sender db (ingestDhtEnvelope db envelope ours now).1 ↔
      (SealsRequest envelope sender → db.connections.get? (ours, sender) ≠ none) := by
  obtain ⟨hmessages, hconversations⟩ := threads_ingestDhtEnvelope db envelope ours now
  refine addsNothing_of_envelopeEffect hmessages hconversations
    (effect_ingestDhtEnvelope db envelope ours now) ?_
  rintro ⟨payload, hjson, htype, hkey⟩
  have hsome : (decodeKey ((payload.getStr "initiator").getD "")).isSome = true := by
    rw [hkey, Option.isSome_some]
  simp only [ingestDhtEnvelope, hjson, if_pos htype, if_pos hsome]
  exact connections_ingestRequest hkey db ours 0

/-! ## Every path -/

theorem addsNothing_sealedMessage_iff (db : MetadataDb W) (ours sender : IdentityKey)
    (envelope : W.Sealed) (secret : C.X25519Secret) (now : UInt64) :
    AddsNothing ours sender db (receive ours db (.sealedMessage envelope secret now : Arrival C)) ↔
      Enforced ours db sender (.sealedMessage envelope secret now : Arrival C) := by
  cases hrecv : receiveMessage C db envelope ours secret now with
  | ok r =>
    obtain ⟨payload, db₁⟩ := r
    obtain ⟨hexp, hopen, hallowed, rfl⟩ := receiveMessage_eq_ok_iff.mp hrecv
    simp only [receive, hrecv]
    rw [(delivered_storeReceived db envelope payload ours _ now).addsNothing_iff]
    constructor
    · rintro h payload' - hopen' rfl
      obtain rfl := Except.ok.inj (hopen.symm.trans hopen')
      exact Or.inr (h rfl)
    · rintro h rfl
      exact (h payload hexp hopen rfl).resolve_left hallowed
  | error e =>
    simp only [receive, hrecv]
    refine ⟨fun _ payload hexp hopen hsender => ?_, fun _ => AddsNothing.refl ours sender db⟩
    -- a message that is open and in time is refused only as a rejected request
    subst hsender
    left
    by_contra hallowed
    rw [receiveMessage_eq_ok_iff.mpr ⟨hexp, hopen, hallowed, rfl⟩] at hrecv
    cases hrecv

theorem addsNothing_gossip_iff (db : MetadataDb W) (ours sender : IdentityKey)
    (payload : W.Bytes) (now : UInt64) :
    AddsNothing ours sender db (receive ours db (.gossip payload now : Arrival C)) ↔
      Enforced ours db sender (.gossip payload now : Arrival C) := by
  simp only [receive, Enforced]
  rcases ingestPayload_cases db payload ours now with
    ⟨sender', senderHex, body, timestamp, hmsg, hdb⟩ | ⟨envelope, db₁, henv, hdrops, hdb⟩ |
    ⟨hnomsg, hnoenv, hdrops⟩
  · rw [hdb,
      (delivered_storePlaintext db ours sender' senderHex body timestamp now).addsNothing_iff]
    constructor
    · refine fun h => ⟨fun senderHex' body' timestamp' hmsg' => ?_, fun envelope henv _ => ?_⟩
      · obtain ⟨rfl, rfl, rfl, rfl⟩ := hmsg.unique hmsg'
        exact ⟨(h rfl).1, (h rfl).2.resolve_left Bool.false_ne_true⟩
      · obtain ⟨json, hjson, -⟩ := hmsg.json
        have hnone := henv.notMessage
        rw [hjson] at hnone
        cases hnone
    · rintro ⟨h, -⟩ rfl
      obtain ⟨hid, hconv⟩ := h senderHex body timestamp hmsg
      exact ⟨hid, Or.inr hconv⟩
  · rw [hdb, addsNothing_ingestForUs_iff hdrops]
    constructor
    · refine fun h => ⟨fun senderHex body timestamp hmsg => ?_, fun envelope' henv' hseal => ?_⟩
      · obtain ⟨json, hjson, -⟩ := hmsg.json
        have hnone := henv.notMessage
        rw [hjson] at hnone
        cases hnone
      · obtain rfl := Option.some.inj (henv.parsed.symm.trans henv'.parsed)
        exact h hseal
    · rintro ⟨-, h⟩ hseal
      exact h envelope henv hseal
  · refine ⟨fun _ => ⟨fun _ _ _ h => absurd h (hnomsg _ _ _ _), fun _ h => absurd h (hnoenv _)⟩,
      fun _ => ?_⟩
    rw [hdrops]
    exact ⟨fun _ _ h _ => h, fun _ row h hrow => ⟨row, h, hrow⟩, id⟩

theorem addsNothing_deadDrop_iff (db : MetadataDb W) (ours sender : IdentityKey)
    (dht : DhtStorage W) (now : UInt64) :
    AddsNothing ours sender db (receive ours db (.deadDrop dht now : Arrival C)) ↔
      Enforced ours db sender (.deadDrop dht now : Arrival C) := by
  simp only [receive, Enforced, retrieveDhtDeadDrops]
  cases hget : dht.get (mailboxKey ours) now with
  | none => exact ⟨fun _ _ _ h => (by cases h), fun _ => AddsNothing.refl ours sender db⟩
  | some record =>
    cases henv : W.envelopeFromSlice record.value with
    | none =>
      simp only [henv]
      refine ⟨fun _ record' envelope hrecord hparsed => ?_,
        fun _ => AddsNothing.refl ours sender db⟩
      rw [← Option.some.inj hrecord, henv] at hparsed
      cases hparsed
    | some envelope =>
      simp only [henv]
      rw [addsNothing_ingestDhtEnvelope_iff]
      constructor
      · intro h record' envelope' hrecord hparsed hseal
        rw [← Option.some.inj hrecord, henv, Option.some.injEq] at hparsed
        exact h (hparsed ▸ hseal)
      · intro h hseal
        exact h record envelope rfl henv hseal

theorem addsNothing_connectionRequest_iff (db : MetadataDb W) (ours sender sender' : IdentityKey)
    (message : Option String) (now : UInt64) :
    AddsNothing ours sender db
        (receive ours db (.connectionRequest sender' message now : Arrival C)) ↔
      Enforced ours db sender (.connectionRequest sender' message now : Arrival C) := by
  have hstatus := status_receiveConnectionRequest db ours sender' message now ours sender
  have hthreads : (db.receiveConnectionRequest ours sender' message now).messages = db.messages ∧
      (db.receiveConnectionRequest ours sender' message now).conversations = db.conversations := by
    unfold receiveConnectionRequest
    split <;> exact ⟨rfl, rfl⟩
  simp only [receive, Enforced]
  constructor
  · rintro hadds rfl
    by_contra hnot
    rw [not_or, not_not, Bool.not_eq_true] at hnot
    rw [if_pos ⟨hnot.1, rfl⟩, status, hadds.connections hnot.2] at hstatus
    cases hstatus
  · intro h
    refine ⟨fun _ _ hrow _ => by rwa [hthreads.1] at hrow,
      fun _ row hrow hconv => ⟨row, by rwa [hthreads.2] at hrow, hconv⟩, fun hnone => ?_⟩
    rw [← status_eq_none_iff, hstatus, if_neg, status_eq_none_iff, hnone]
    rintro ⟨hblocked, hk⟩
    obtain ⟨-, rfl⟩ := Prod.mk.inj hk
    rcases h rfl with hb | hrow
    · rw [hblocked] at hb
      cases hb
    · exact hrow hnone

/-- What any arrival adds for any sender. -/
theorem addsNothing_iff (db : MetadataDb W) (ours sender : IdentityKey) (arrival : Arrival C) :
    AddsNothing ours sender db (receive ours db arrival) ↔ Enforced ours db sender arrival := by
  cases arrival with
  | sealedMessage envelope secret now =>
    exact addsNothing_sealedMessage_iff db ours sender envelope secret now
  | gossip payload now => exact addsNothing_gossip_iff db ours sender payload now
  | deadDrop dht now => exact addsNothing_deadDrop_iff db ours sender dht now
  | connectionRequest sender' message now =>
    exact addsNothing_connectionRequest_iff db ours sender sender' message now

/-- **When a barred sender is kept out.**  An arrival adds nothing for a barred sender exactly
when its path makes the check that bars it, or there is nothing left to insert; and runs of
such arrivals add nothing. -/
theorem barred_addsNothing_iff (ours sender : IdentityKey) :
    (∀ (db : MetadataDb W) (arrival : Arrival C),
      (Barred ours db sender → AddsNothing ours sender db (receive ours db arrival)) ↔
        (Barred ours db sender → Enforced ours db sender arrival)) ∧
      ∀ (db : MetadataDb W) (arrivals : List (Arrival C)),
        Meets (receive ours) (fun db arrival => Barred ours db sender ∧
          Enforced ours db sender arrival) db arrivals →
        AddsNothing ours sender db (run (receive ours) db arrivals) := by
  refine ⟨fun db arrival => ⟨fun h hb => (addsNothing_iff db ours sender arrival).mp (h hb),
    fun h hb => (addsNothing_iff db ours sender arrival).mpr (h hb)⟩, fun db arrivals h => ?_⟩
  have hstep : ∀ (db' : MetadataDb W) (arrival : Arrival C), AddsNothing ours sender db db' →
      Barred ours db' sender ∧ Enforced ours db' sender arrival →
      AddsNothing ours sender db (receive ours db' arrival) := by
    intro db' arrival hdb' harrival
    exact hdb'.trans ((addsNothing_iff db' ours sender arrival).mpr harrival.2)
  exact run_invariant hstep (AddsNothing.refl ours sender db) h

/-- Alice's database once she has blocked Bob. -/
def blockedDb : MetadataDb Wire.symbolic :=
  (NodeOp.apply NodeOp.fresh (.block (NodeOp.offline NodeOp.alice 5) (Hex.encode NodeOp.bob) :
    NodeOp Cipher.symbolic)).db

theorem barred_blockedDb : Barred NodeOp.alice blockedDb NodeOp.bob := Or.inl (by decide +kernel)

/-- A request of Bob that takes the path with the check. -/
theorem barred_addsNothing_iff_request :
    AddsNothing NodeOp.alice NodeOp.bob blockedDb
      (run (receive (C := Cipher.symbolic) NodeOp.alice) blockedDb
        [.connectionRequest NodeOp.bob none 6]) := by
  refine (barred_addsNothing_iff NodeOp.alice NodeOp.bob).2 blockedDb _ ?_
  exact ⟨⟨barred_blockedDb, fun _ => Or.inl (by decide +kernel)⟩, trivial⟩

/-- A plaintext message of Bob to Alice. -/
def messageOfBob : Wire.symbolic.Bytes :=
  Wire.symbolic.jsonToVec
    (DirectMessage.plaintextMessage NodeOp.bob (Hex.encode NodeOp.alice) "hello" 6)

/-- A plaintext message of a blocked sender is stored. -/
theorem blocked_message_stored :
    Barred NodeOp.alice blockedDb NodeOp.bob ∧
      ¬AddsNothing NodeOp.alice NodeOp.bob blockedDb
        (receive NodeOp.alice blockedDb (.gossip messageOfBob 7 : Arrival Cipher.symbolic)) := by
  refine ⟨barred_blockedDb, fun h => ?_⟩
  have hstored : ((receive NodeOp.alice blockedDb (.gossip messageOfBob 7 :
      Arrival Cipher.symbolic)).messages.get? (plaintextId (Hex.encode NodeOp.bob) "hello" 6)).map
        MessageRow.senderPubkey = some NodeOp.bob := by decide +kernel
  have hnew : (blockedDb.messages.get?
      (plaintextId (Hex.encode NodeOp.bob) "hello" 6)).isNone = true := by decide +kernel
  obtain ⟨row, hrow, hsender⟩ := Option.map_eq_some_iff.mp hstored
  rw [h.messages _ row hrow hsender] at hnew
  cases hnew

end BlockEnforcement
