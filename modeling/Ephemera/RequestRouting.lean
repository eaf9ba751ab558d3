/-
# Message requests and the main inbox (`ephemera-message`, `message_ingest.rs`)

`conversations.is_request` keeps a conversation out of the main inbox.  The flag is written when
the conversation is created, and `accept_request` takes it back; nothing else does.  What it
stands for changes on other paths: connections are made and ended, and we may write first.
`receive_message` creates the conversation of a stranger with the flag;
`handle_plaintext_dm` creates every conversation without it, and so does `send`, even when it
then fails.

`routed_iff_meets` is the exact condition on a run.  It needs that no message is stored without
its conversation, which holds of every run.
-/
import Ephemera.ConnectionFrame
import Ephemera.UnreadCounts

namespace RequestRouting

open GuardedRun StateExcept Messaging NodeIngest SocialService DirectMessage MetadataDb

variable {W : Wire} {C : Cipher W}

/-! ## Connections -/

/-- What makes, changes or ends a connection: the functions of `ConnectionService` and
`BlockService`, and the two that the ingest calls for a connection payload. -/
inductive ConnectionOp where
  | request (source target : IdentityKey) (message : Option String) (now : UInt64)
  | accept (loc remote : IdentityKey) (now : UInt64)
  | reject (loc remote : IdentityKey)
  | remove (loc remote : IdentityKey)
  | block (blocker blocked : IdentityKey) (reason : Option String) (now : UInt64)
  | unblock (blocker blocked : IdentityKey)
  | receiveConnectionRequest (receiver sender : IdentityKey) (message : Option String)
      (now : UInt64)
  | ingestRequest (loc : IdentityKey) (payload : Json) (fallback : Int64)
  | ingestAccepted (loc : IdentityKey) (payload : Json) (fallback : Int64)

namespace ConnectionOp

/-- The database after the operation; a request that fails leaves it. -/
def apply (db : MetadataDb W) : ConnectionOp → MetadataDb W
  | .request source target message now =>
    match db.request source target message now with
    | .ok db => db
    | .error _ => db
  | .accept loc remote now => db.accept loc remote now
  | .reject loc remote => db.reject loc remote
  | .remove loc remote => db.remove loc remote
  | .block blocker blocked reason now => db.block blocker blocked reason now
  | .unblock blocker blocked => db.unblock blocker blocked
  | .receiveConnectionRequest receiver sender message now =>
    db.receiveConnectionRequest receiver sender message now
  | .ingestRequest loc payload fallback => NodeIngest.ingestRequest db loc payload fallback
  | .ingestAccepted loc payload fallback => NodeIngest.ingestAccepted db loc payload fallback

/-- The operation connects `a` with `b`: an acceptance by one of the two for a row that is there,
or one by `b` that `a` asked for. -/
def Makes (db : MetadataDb W) (a b : IdentityKey) : ConnectionOp → Prop
  | .accept loc remote _ =>
    ((a, b) = (loc, remote) ∨ (a, b) = (remote, loc)) ∧ db.connections.get? (a, b) ≠ none
  | .ingestAccepted loc payload _ =>
    loc = a ∧ decodeKey ((payload.getStr "acceptor").getD "") = some b ∧
      db.status a b = some .pendingOutgoing
  | _ => False

/-- The operation deletes or replaces the row of `a` with `b`. -/
def Ends (db : MetadataDb W) (a b : IdentityKey) : ConnectionOp → Prop
  | .reject loc remote => (a, b) = (loc, remote)
  | .remove loc remote => (a, b) = (remote, loc) ∨ (a, b) = (loc, remote)
  | .block blocker blocked _ _ => (a, b) = (blocker, blocked)
  | .receiveConnectionRequest receiver sender _ _ =>
    db.isBlocked receiver sender = false ∧ (a, b) = (receiver, sender)
  | _ => False

theorem Makes.not_ends {db : MetadataDb W} {a b : IdentityKey} {op : ConnectionOp}
    (h : op.Makes db a b) : ¬op.Ends db a b := by
  intro hends
  cases op with
  | accept => exact hends
  | ingestAccepted => exact hends
  | _ => exact h

end ConnectionOp

/-- Connected is a row with status `connected`. -/
theorem isConnected_iff {db : MetadataDb W} {a b : IdentityKey} :
    isConnected db a b = true ↔ db.status a b = some .active := by
  rw [isConnected, SqlTable.existsWhere_key, Option.any_eq_true, status_eq_some_iff]
  simp only [decide_eq_true_eq]

/-- A request for a connection, made or received, connects nobody. -/
theorem status_insertOrIgnore_active {db db' : MetadataDb W} {k : IdentityKey × IdentityKey}
    {row : ConnectionRow} (h : db'.connections = db.connections.insertOrIgnore k row)
    (hrow : row.status ≠ .active) (a b : IdentityKey) :
    db'.status a b = some .active ↔ db.status a b = some .active := by
  rw [status_eq_some_iff, status_eq_some_iff, h]
  constructor
  · rintro ⟨row', hrow', hactive⟩
    rcases SqlTable.get?_insertOrIgnore_eq_some.mp hrow' with hold | ⟨-, -, rfl⟩
    · exact ⟨row', hold, hactive⟩
    · exact absurd hactive hrow
  · rintro ⟨row', hrow', hactive⟩
    exact ⟨row', SqlTable.get?_insertOrIgnore_eq_some.mpr (Or.inl hrow'), hactive⟩

/-- An acceptance connects both directions, as far as their rows are there. -/
theorem status_accept_iff (db : MetadataDb W) (l r a b : IdentityKey) (now : UInt64) :
    (db.accept l r now).status a b = some .active ↔
      (((a, b) = (l, r) ∨ (a, b) = (r, l)) ∧ db.connections.get? (a, b) ≠ none) ∨
        db.status a b = some .active := by
  rw [status, connections_accept, status]
  cases hrow : db.connections.get? (a, b) with
  | none => simp
  | some row =>
    by_cases hk : (a, b) = (l, r) ∨ (a, b) = (r, l)
    · simp only [Option.map_some, if_pos hk, Option.some.injEq, true_iff]
      exact Or.inl ⟨hk, Option.some_ne_none row⟩
    · simp only [Option.map_some, if_neg hk, Option.some.injEq]
      exact ⟨Or.inr, fun h => h.resolve_left (fun h' => hk h'.1)⟩

/-- A received acceptance connects a row that was waiting for it. -/
theorem status_ingestAccepted_iff (db : MetadataDb W) (loc a b : IdentityKey) (payload : Json)
    (fallback : Int64) :
    (ingestAccepted db loc payload fallback).status a b = some .active ↔
      (loc = a ∧ decodeKey ((payload.getStr "acceptor").getD "") = some b ∧
        db.status a b = some .pendingOutgoing) ∨ db.status a b = some .active := by
  unfold ingestAccepted
  cases hkey : decodeKey ((payload.getStr "acceptor").getD "") with
  | none => simp
  | some acceptor =>
    simp only [status, connections_connectWhere]
    cases hrow : db.connections.get? (a, b) with
    | none => simp
    | some row =>
      by_cases hk : (a, b) = (loc, acceptor) ∧ decide (row.status = .pendingOutgoing) = true
      · obtain ⟨hab, hout⟩ := hk
        obtain ⟨rfl, rfl⟩ := Prod.mk.inj hab
        rw [decide_eq_true_eq] at hout
        simp [hout]
      · rw [Option.map_some, Option.map_some, if_neg hk]
        refine ⟨Or.inr, fun h => h.resolve_left ?_⟩
        rintro ⟨rfl, hacceptor, hout⟩
        rw [Option.some.injEq] at hacceptor
        rw [Option.map_some, Option.some.injEq] at hout
        exact hk ⟨by rw [hacceptor], by simp [hout]⟩

/-- A connection is there when its row has not been replaced. -/
theorem ite_eq_active {p : Prop} [Decidable p] {x y : Option ConnectionStatus}
    (hy : y ≠ some .active) : (if p then y else x) = some .active ↔ x = some .active ∧ ¬p := by
  split_ifs with hp
  · exact iff_of_false hy (fun h => h.2 hp)
  · exact (and_iff_left hp).symm

/-- **Who is connected after an operation.** -/
theorem ConnectionOp.isConnected_apply (op : ConnectionOp) (db : MetadataDb W)
    (a b : IdentityKey) :
    isConnected (op.apply db) a b = true ↔
      op.Makes db a b ∨ isConnected db a b = true ∧ ¬op.Ends db a b := by
  rw [isConnected_iff, isConnected_iff]
  cases op with
  | request source target message now =>
    simp only [apply, Makes, Ends, not_false_eq_true, and_true, false_or]
    split
    · rename_i db' hreq
      obtain ⟨-, rfl⟩ := request_eq_ok hreq
      exact status_insertOrIgnore_active rfl (by simp) a b
    · rfl
  | accept loc remote now =>
    simp only [apply, Makes, Ends, not_false_eq_true, and_true]
    exact status_accept_iff db loc remote a b now
  | reject loc remote =>
    simp only [apply, Makes, Ends, false_or]
    rw [MetadataDb.reject, status_deleteConnection, ite_eq_active (by simp)]
  | remove loc remote =>
    simp only [apply, Makes, Ends, false_or]
    rw [status_remove, ite_eq_active (by simp)]
  | block blocker blocked reason now =>
    simp only [apply, Makes, Ends, false_or]
    rw [MetadataDb.block, status_deleteConnection, ite_eq_active (by simp)]
    rfl
  | unblock blocker blocked =>
    simp only [apply, Makes, Ends, not_false_eq_true, and_true, false_or]
    rfl
  | receiveConnectionRequest receiver sender message now =>
    simp only [apply, Makes, Ends, false_or]
    rw [status_receiveConnectionRequest, ite_eq_active (by simp)]
  | ingestRequest loc payload fallback =>
    simp only [apply, Makes, Ends, not_false_eq_true, and_true, false_or]
    unfold NodeIngest.ingestRequest
    split
    · rfl
    · exact status_insertOrIgnore_active rfl (by simp) a b
  | ingestAccepted loc payload fallback =>
    simp only [apply, Makes, Ends, not_false_eq_true, and_true]
    exact status_ingestAccepted_iff db loc a b payload fallback

/-- A connection operation leaves the tables of the messages. -/
theorem ConnectionOp.tables_apply (op : ConnectionOp) (db : MetadataDb W) :
    (op.apply db).conversations = db.conversations ∧ (op.apply db).messages = db.messages ∧
      (op.apply db).messageRequests = db.messageRequests := by
  cases op with
  | request source target message now =>
    simp only [apply]
    split
    · rename_i db' hreq
      obtain ⟨-, rfl⟩ := request_eq_ok hreq
      exact ⟨rfl, rfl, rfl⟩
    · exact ⟨rfl, rfl, rfl⟩
  | receiveConnectionRequest receiver sender message now =>
    simp only [apply]
    unfold MetadataDb.receiveConnectionRequest
    split
    · exact ⟨rfl, rfl, rfl⟩
    · exact ⟨rfl, rfl, rfl⟩
  | ingestRequest loc payload fallback =>
    simp only [apply]
    unfold NodeIngest.ingestRequest
    split
    · exact ⟨rfl, rfl, rfl⟩
    · exact ⟨rfl, rfl, rfl⟩
  | ingestAccepted loc payload fallback =>
    simp only [apply]
    unfold NodeIngest.ingestAccepted
    split
    · exact ⟨rfl, rfl, rfl⟩
    · exact ⟨rfl, rfl, rfl⟩
  | _ => exact ⟨rfl, rfl, rfl⟩

/-! ## Where conversations show up -/

/-- The two sides of a conversation, and whether it is kept as a request. -/
structure Route where
  ours : IdentityKey
  peer : IdentityKey
  isRequest : Bool
  deriving DecidableEq

/-- The route of a row of `conversations`. -/
def routeOf (row : ConversationRow) : Route := ⟨row.ourPubkey, row.theirPubkey, row.isRequest⟩

/-- The route of a conversation. -/
def route? (db : MetadataDb W) (id : W.Digest) : Option Route :=
  (db.conversations.get? id).map routeOf

/-- A node, and a record of whom we have written to. -/
structure Inbox (W : Wire) where
  node : NodeState W
  written : List (IdentityKey × IdentityKey)

namespace Inbox

/-- The tables of the node. -/
def db (s : Inbox W) : MetadataDb W := s.node.db

/-- The conversation has a message from `peer`. -/
def Inbound (s : Inbox W) (id : W.Digest) (peer : IdentityKey) : Prop :=
  ∃ k m, s.db.messages.get? k = some m ∧ m.conversationId = id ∧ m.senderPubkey = peer

/-- The flag of a conversation is what its peer is to us: no request from somebody who is
connected to us or whose request was accepted, and a request from somebody who is neither and
whom we have never written to. -/
def Right (s : Inbox W) (r : Route) : Prop :=
  (isConnected s.db r.ours r.peer = true ∨ isRequestAccepted s.db r.ours r.peer = true →
    r.isRequest = false) ∧
  (¬isConnected s.db r.ours r.peer = true → ¬isRequestAccepted s.db r.ours r.peer = true →
    (r.ours, r.peer) ∉ s.written → r.isRequest = true)

/-- Every conversation with a message from its peer has the right flag. -/
def Routed (s : Inbox W) : Prop :=
  ∀ id r, route? s.db id = some r → s.Inbound id r.peer → s.Right r

end Inbox

/-- What happens to the conversations of a node. -/
inductive Op {W : Wire} (C : Cipher W) where
  | receiveMessage (envelope : W.Sealed) (ours : IdentityKey) (secret : C.X25519Secret)
      (now : UInt64)
  | handlePlaintextDm (json : Json) (ours : Option IdentityKey) (now : UInt64)
  | send (env : CallEnv W) (target body : String) (ttl : Option UInt64) (entropy : C.Entropy)
  | acceptRequest (ours sender : IdentityKey)
  | rejectRequest (ours sender : IdentityKey)
  | connection (op : ConnectionOp)

/-- Who has written to whom by a call of `send`: a send that fails has not. -/
def sentTo (C : Cipher W) (env : CallEnv W) (target body : String) (ttl : Option UInt64)
    (entropy : C.Entropy) (st : NodeState W) : List (IdentityKey × IdentityKey) :=
  match resolve env target, (exec (send C env target body ttl entropy) st).1 with
  | .ok pair, .ok _ => [pair]
  | _, _ => []

namespace Inbox

/-- Other tables for the node. -/
def setDb (s : Inbox W) (db : MetadataDb W) : Inbox W := { s with node := { s.node with db := db } }

/-- The node after an operation. -/
def step (s : Inbox W) : Op C → Inbox W
  | .receiveMessage envelope ours secret now =>
    match receiveMessage C s.db envelope ours secret now with
    | .ok (_, db) => s.setDb db
    | .error _ => s
  | .handlePlaintextDm json ours now => s.setDb (handlePlaintextDm s.db json ours now).1
  | .send env target body ttl entropy =>
    { node := after (DirectMessage.send C env target body ttl entropy) s.node
      written := sentTo C env target body ttl entropy s.node ++ s.written }
  | .acceptRequest ours sender =>
    match acceptRequest s.db ours sender with
    | .ok db => s.setDb db
    | .error _ => s
  | .rejectRequest ours sender =>
    match rejectRequest s.db ours sender with
    | .ok db => s.setDb db
    | .error _ => s
  | .connection op => s.setDb (op.apply s.db)

@[simp] theorem db_setDb (s : Inbox W) (db : MetadataDb W) : (s.setDb db).db = db := rfl

@[simp] theorem written_setDb (s : Inbox W) (db : MetadataDb W) :
    (s.setDb db).written = s.written := rfl

/-- The conversation of `ours` with `peer`, as it is or as it is made with the flag `isRequest`. -/
def routeFor (s : Inbox W) (ours peer : IdentityKey) (isRequest : Bool) : Route :=
  (route? s.db (computeConversationId ours peer)).getD ⟨ours, peer, isRequest⟩

/-- A message from `sender` may be stored in that conversation: when it is from the peer, the
flag is right. -/
def Fits (s : Inbox W) (ours peer sender : IdentityKey) (isRequest : Bool) : Prop :=
  (s.routeFor ours peer isRequest).peer = sender → s.Right (s.routeFor ours peer isRequest)

/-- **The condition on an operation.**  A new message finds, or makes, its conversation with the
right flag; whoever is connected has no conversation left that is kept as a request; and whoever
is disconnected with a conversation in the main inbox was accepted or written to. -/
def Fitting (s : Inbox W) : Op C → Prop
  | .receiveMessage envelope ours secret now => ∀ payload,
      UnreadCounts.Taken C s.db envelope ours secret now payload →
        s.db.messages.get? (W.blake3 envelope.ciphertext) = none →
          s.Fits ours payload.sender payload.sender (isStranger s.db ours payload.sender)
  | .handlePlaintextDm json ours now => ∀ d, UnreadCounts.plaintextDm? json ours now = some d →
      s.db.messages.get? (plaintextId d.senderHex d.body d.timestamp) = none →
        s.Fits d.ours d.sender d.sender false
  | .send env target body _ entropy => ∀ loc recipient encryptedBody,
      sealBody C env target body entropy = .ok (loc, recipient, encryptedBody) →
        s.db.messages.get? (W.blake3 (W.ofStr body)) = none →
          Fits { s with written := (loc, recipient) :: s.written } loc recipient loc false
  | .acceptRequest _ _ => True
  | .rejectRequest _ _ => True
  | .connection op => ∀ id r, route? s.db id = some r → s.Inbound id r.peer →
      (op.Makes s.db r.ours r.peer → r.isRequest = false) ∧
        (op.Ends s.db r.ours r.peer → isConnected s.db r.ours r.peer = true →
          isRequestAccepted s.db r.ours r.peer = true ∨ (r.ours, r.peer) ∈ s.written)

end Inbox

/-! ## Storing a message -/

/-- The node after a message from `sender` with id `k` has been stored in the conversation of
`ours` with `peer`, each unless it is there. -/
structure Stores (s s' : Inbox W) (ours peer sender : IdentityKey) (isRequest : Bool)
    (k : W.Digest) : Prop where
  routes : ∀ id, route? s'.db id = if id = computeConversationId ours peer
    then some (s.routeFor ours peer isRequest) else route? s.db id
  messages : ∃ m, m.conversationId = computeConversationId ours peer ∧ m.senderPubkey = sender ∧
    s'.db.messages = s.db.messages.insertOrIgnore k m
  connected : ∀ a b, isConnected s'.db a b = isConnected s.db a b
  accepted : ∀ a b, isRequestAccepted s'.db a b = isRequestAccepted s.db a b
  written : ∀ pair, pair ∈ s.written → pair ∈ s'.written

section Stores

variable {s s' : Inbox W} {ours peer sender : IdentityKey} {isRequest : Bool} {k : W.Digest}

/-- What is right stays right: we have written to more. -/
theorem Stores.right (h : Stores s s' ours peer sender isRequest k) {r : Route} (hr : s.Right r) :
    s'.Right r := by
  unfold Inbox.Right
  rw [h.connected, h.accepted]
  exact ⟨hr.1, fun hconn hacc hnot => hr.2 hconn hacc (fun hmem => hnot (h.written _ hmem))⟩

/-- **A message stored** keeps the routing exactly when it is stored already or its conversation
fits. -/
theorem Stores.routed_iff (h : Stores s s' ours peer sender isRequest k) (hs : s.Routed)
    (hh : UnreadCounts.Housed s.db) :
    s'.Routed ↔ (s.db.messages.get? k = none →
      Inbox.Fits { s with written := s'.written } ours peer sender isRequest) := by
  obtain ⟨m, hconv, hsender, hmessages⟩ := h.messages
  have hright : ∀ r, s'.Right r ↔ Inbox.Right { s with written := s'.written } r := by
    intro r
    unfold Inbox.Right
    rw [h.connected, h.accepted]
    rfl
  constructor
  · intro hrouted hnew hpeer
    refine (hright _).mp (hrouted (computeConversationId ours peer) _ ?_ ⟨k, m, ?_, hconv, ?_⟩)
    · rw [h.routes, if_pos rfl]
      rfl
    · rw [hmessages]
      exact SqlTable.get?_insertOrIgnore_eq_some.mpr (Or.inr ⟨hnew, rfl, rfl⟩)
    · exact hsender.trans hpeer.symm
  · rintro hfits id r hroute ⟨k', m', hm', hconv', hpeer'⟩
    rw [h.routes] at hroute
    rw [hmessages] at hm'
    rcases SqlTable.get?_insertOrIgnore_eq_some.mp hm' with hold | ⟨hnone, rfl, rfl⟩
    · -- the message was there, and so was its conversation
      refine h.right (hs id r ?_ ⟨k', m', hold, hconv', hpeer'⟩)
      split_ifs at hroute with hid
      · have hthere : s.db.conversations.get? id ≠ none := hconv' ▸ hh k' m' hold
        obtain ⟨row, hrow⟩ := Option.ne_none_iff_exists'.mp hthere
        have hfound : route? s.db id = some (routeOf row) := by rw [route?, hrow, Option.map_some]
        rw [← hroute, Inbox.routeFor, ← hid, hfound, Option.getD_some]
      · exact hroute
    · rw [if_pos (hconv'.symm.trans hconv), Option.some.injEq] at hroute
      subst hroute
      exact (hright _).mpr (hfits hnone (hpeer'.symm.trans hsender))

end Stores

/-- The conversation made on demand. -/
theorem route?_getOrCreateConversation (db : MetadataDb W) (ours theirs : IdentityKey)
    (isRequest : Bool) (now : UInt64) (id : W.Digest) :
    route? (getOrCreateConversation db ours theirs isRequest now).2 id
      = if id = computeConversationId ours theirs
        then some ((route? db (computeConversationId ours theirs)).getD ⟨ours, theirs, isRequest⟩)
        else route? db id := by
  rw [route?, getOrCreateConversation, SqlTable.get?_insertOrIgnore]
  split_ifs with hid
  · rw [Option.map_some, route?]
    cases db.conversations.get? (computeConversationId ours theirs) <;> rfl
  · rfl

/-- Touching a conversation leaves the routes. -/
theorem route?_updateWhere {db db' : MetadataDb W} {p : W.Digest → ConversationRow → Bool}
    {f : ConversationRow → ConversationRow}
    (h : db'.conversations = db.conversations.updateWhere p f)
    (hf : ∀ row, routeOf (f row) = routeOf row) (id : W.Digest) : route? db' id = route? db id := by
  rw [route?, h, SqlTable.get?_updateWhere, Option.map_map, route?]
  congr 1
  funext row
  rw [Function.comp_apply]
  split_ifs
  · exact hf row
  · rfl

/-- Raising the counter of a conversation leaves the routes. -/
theorem route?_bumpConversation (db : MetadataDb W) (conversationId : W.Digest) (at' : Int64)
    (id : W.Digest) : route? (bumpConversation db conversationId at') id = route? db id := by
  have hbump : (bumpConversation db conversationId at').conversations
      = db.conversations.updateWhere (fun k _ => decide (k = conversationId))
          (fun row =>
            { row with lastMessageAt := some at', unreadCount := row.unreadCount + 1 }) := rfl
  exact route?_updateWhere hbump (fun _ => rfl) id

theorem isConnected_congr {db db' : MetadataDb W} (h : db'.connections = db.connections)
    (a b : IdentityKey) : isConnected db' a b = isConnected db a b := by
  rw [isConnected, isConnected, h]

theorem isRequestAccepted_congr {db db' : MetadataDb W}
    (h : db'.messageRequests = db.messageRequests) (a b : IdentityKey) :
    isRequestAccepted db' a b = isRequestAccepted db a b := by
  rw [isRequestAccepted, isRequestAccepted, hasRequest, hasRequest, h]

/-- Accepted is a row with status `accepted`. -/
theorem isRequestAccepted_iff {db : MetadataDb W} {a b : IdentityKey} :
    isRequestAccepted db a b = true ↔
      ∃ row, db.messageRequests.get? (b, a) = some row ∧ row.status = .accepted := by
  rw [isRequestAccepted, hasRequest, SqlTable.existsWhere_key, Option.any_eq_true]
  simp only [decide_eq_true_eq]

/-- A new request is pending. -/
theorem isRequestAccepted_storeMessageRequest (db : MetadataDb W) (sender recipient : IdentityKey)
    (now : UInt64) (a b : IdentityKey) :
    isRequestAccepted (storeMessageRequest db sender recipient now) a b
      = isRequestAccepted db a b := by
  rw [Bool.eq_iff_iff, isRequestAccepted_iff, isRequestAccepted_iff, storeMessageRequest]
  constructor
  · rintro ⟨row, hrow, haccepted⟩
    rcases SqlTable.get?_insertOrIgnore_eq_some.mp hrow with hold | ⟨-, -, rfl⟩
    · exact ⟨row, hold, haccepted⟩
    · cases haccepted
  · rintro ⟨row, hrow, haccepted⟩
    exact ⟨row, SqlTable.get?_insertOrIgnore_eq_some.mpr (Or.inl hrow), haccepted⟩

/-! ## The operations -/

/-- `receive_message` stores what it takes. -/
theorem stores_storeReceived (s : Inbox W) (envelope : W.Sealed)
    (payload : W.Payload) (ours : IdentityKey) (isRequest : Bool) (now : UInt64) :
    Stores s (s.setDb (storeReceived s.db envelope payload ours isRequest now)) ours payload.sender
      payload.sender isRequest (W.blake3 envelope.ciphertext) := by
  obtain ⟨hconv, hmsg⟩ := tables_storeReceived s.db envelope payload ours isRequest now
  refine ⟨fun id => ?_, ⟨receivedRow envelope payload ours now, rfl, rfl, hmsg⟩,
    isConnected_congr (connections_storeReceived _ _ _ _ _ _), fun a b => ?_, fun _ h => h⟩
  · rw [Inbox.db_setDb, route?, hconv]
    exact (route?_bumpConversation _ _ _ id).trans (route?_getOrCreateConversation _ _ _ _ _ _)
  · cases isRequest with
    | false => rfl
    | true => exact isRequestAccepted_storeMessageRequest _ _ _ now a b

/-- `handle_plaintext_dm` stores what it can read, and never as a request. -/
theorem stores_storePlaintext (s : Inbox W) (ours sender : IdentityKey) (senderHex body : String)
    (timestamp now : UInt64) :
    Stores s (s.setDb (storePlaintext s.db ours sender senderHex body timestamp now)) ours sender
      sender false (plaintextId senderHex body timestamp) := by
  refine ⟨fun id => ?_, ⟨plaintextRow ours sender body timestamp now, rfl, rfl,
    messages_storePlaintext _ _ _ _ _ _ _⟩,
    isConnected_congr (connections_storePlaintext _ _ _ _ _ _ _),
    isRequestAccepted_congr ?_, fun _ h => h⟩
  · rw [Inbox.db_setDb]
    unfold storePlaintext
    dsimp only
    split
    · exact (route?_bumpConversation _ _ _ id).trans (route?_getOrCreateConversation _ _ _ _ _ _)
    · exact route?_getOrCreateConversation _ _ _ _ _ _
  · rw [Inbox.db_setDb]
    unfold storePlaintext
    dsimp only
    split
    · rfl
    · rfl

/-- The requests after a deposit. -/
theorem messageRequests_depositSent (db : MetadataDb W) (p : Prepared W) (now : UInt64) :
    (depositSent db p now).messageRequests = db.messageRequests := by
  unfold depositSent
  dsimp only
  split
  · rename_i hdep
    rw [sameButDrops_depositRaw hdep]
  · rfl

section Send

variable {env : CallEnv W} {target body : String} {entropy : C.Entropy} {ttl : Option UInt64}
  {loc recipient : IdentityKey} {encryptedBody : W.Bytes} {s : Inbox W}

/-- Whom a send has written to. -/
theorem sentTo_of_new
    (hseal : sealBody C env target body entropy = .ok (loc, recipient, encryptedBody))
    (hnew : s.node.db.messages.get? (W.blake3 (W.ofStr body)) = none) :
    sentTo C env target body ttl entropy s.node = [(loc, recipient)] := by
  obtain ⟨r, hr⟩ := exec_send_of_new hseal ttl hnew
  rw [sentTo, (sealBody_eq_ok hseal).1, hr]

/-- `send` stores its message, if the body is new; it makes the conversation in any case. -/
theorem stores_send
    (hseal : sealBody C env target body entropy = .ok (loc, recipient, encryptedBody)) :
    Stores s (s.step (.send env target body ttl entropy)) loc recipient loc false
      (W.blake3 (W.ofStr body)) := by
  have hwritten : ∀ pair, pair ∈ s.written →
      pair ∈ (s.step (.send env target body ttl entropy)).written :=
    fun pair h => List.mem_append_right _ h
  by_cases hnew : s.node.db.messages.get? (W.blake3 (W.ofStr body)) = none
  · have hdb : (s.step (.send env target body ttl entropy)).db
        = sentDb s.db (preparedOf loc recipient body encryptedBody ttl) body ttl env.now := by
      show (after (DirectMessage.send C env target body ttl entropy) s.node).db = _
      rw [after_send_of_new hseal ttl hnew, db_afterHandOut]
      rfl
    have hmessages :=
      messages_sentDb s.db (preparedOf loc recipient body encryptedBody ttl) body ttl
      env.now
    refine ⟨fun id => ?_, ⟨_, rfl, rfl, hdb ▸ hmessages⟩, ?_, ?_, hwritten⟩
    · rw [hdb]
      exact (route?_updateWhere (UnreadCounts.conversations_depositSent _ _ _) (fun _ => rfl)
        id).trans (route?_getOrCreateConversation _ _ _ _ _ _)
    · rw [hdb]
      exact isConnected_congr (tables_depositSent _ _ _).2
    · rw [hdb]
      exact isRequestAccepted_congr (messageRequests_depositSent _ _ _)
  · have hdb : (s.step (.send env target body ttl entropy)).db
        = (getOrCreateConversation s.db loc recipient false env.now).2 := by
      show (after (DirectMessage.send C env target body ttl entropy) s.node).db = _
      rw [after_send_of_taken hseal ttl hnew]
      rfl
    refine ⟨fun id => ?_, ⟨sentRow loc (computeConversationId loc recipient) body encryptedBody
      (ttl.getD defaultTtlSecs) env.now, rfl, rfl, ?_⟩, ?_, ?_, hwritten⟩
    · rw [hdb]
      exact route?_getOrCreateConversation _ _ _ _ _ _
    · rw [hdb]
      exact (SqlTable.insertOrIgnore_of_ne_none hnew _).symm
    · rw [hdb]
      exact isConnected_congr rfl
    · rw [hdb]
      exact isRequestAccepted_congr rfl

end Send

/-- A settled request has the status it was settled to; no other request is touched. -/
theorem isRequestAccepted_settleRequest {db db' : MetadataDb W} {ours sender : IdentityKey}
    {status : RequestStatus} (h : settleRequest db ours sender status = .ok db')
    (a b : IdentityKey) :
    (isRequestAccepted db' a b = true ↔
      if (a, b) = (ours, sender) then status = .accepted else isRequestAccepted db a b = true) ∧
    ((a, b) = (ours, sender) → ¬isRequestAccepted db a b = true) := by
  unfold settleRequest at h
  dsimp only at h
  split at h
  · rename_i hpending
    rw [← Except.ok.inj h]
    obtain ⟨k, row, hrow, hp⟩ := SqlTable.existsWhere_iff.mp hpending
    rw [Bool.and_eq_true, decide_eq_true_eq, decide_eq_true_eq] at hp
    obtain ⟨rfl, hstatus⟩ := hp
    rw [isRequestAccepted_iff, isRequestAccepted_iff, SqlTable.get?_updateWhere]
    constructor
    · split_ifs with hab
      · obtain ⟨rfl, rfl⟩ := Prod.mk.inj hab
        rw [hrow]
        simp [hstatus]
      · have hkey : ¬(b, a) = (sender, ours) := by
          intro heq
          obtain ⟨rfl, rfl⟩ := Prod.mk.inj heq
          exact hab rfl
        cases db.messageRequests.get? (b, a) <;> simp [hkey]
    · rintro hab ⟨row', hrow', haccepted⟩
      obtain ⟨rfl, rfl⟩ := Prod.mk.inj hab
      rw [hrow, Option.some.injEq] at hrow'
      rw [hrow', haccepted] at hstatus
      cases hstatus
  · cases h

/-- **`accept_request` keeps the routing.** -/
theorem routed_acceptRequest {s : Inbox W} (hs : s.Routed) {ours sender : IdentityKey}
    {db' : MetadataDb W} (h : acceptRequest s.db ours sender = .ok db') :
    (s.setDb db').Routed := by
  obtain ⟨db₁, hset, hconnections', hmessages', hrequests', hconversations'⟩ :=
    acceptRequest_eq_ok h
  obtain ⟨hconnections, hconversations, hmessages⟩ := tables_settleRequest hset
  have hconnected := isConnected_congr (hconnections'.trans hconnections)
  have haccepted : ∀ a b, isRequestAccepted db' a b = true ↔
      if (a, b) = (ours, sender) then True else isRequestAccepted s.db a b = true := by
    intro a b
    rw [isRequestAccepted_congr hrequests', (isRequestAccepted_settleRequest hset a b).1]
    simp only
  rintro id r hroute ⟨k, m, hm, hconv, hpeer⟩
  rw [Inbox.db_setDb, route?, hconversations', SqlTable.get?_updateWhere, hconversations,
    Option.map_map, Option.map_eq_some_iff] at hroute
  obtain ⟨row, hrow, hr⟩ := hroute
  rw [Function.comp_apply] at hr
  by_cases hmatch : row.ourPubkey = ours ∧ row.theirPubkey = sender
  · -- the conversation of the sender: accepted, and no request
    rw [if_pos (by simp [hmatch])] at hr
    subst hr
    have hpair : ((routeOf { row with isRequest := false }).ours,
        (routeOf { row with isRequest := false }).peer) = (ours, sender) :=
      Prod.ext hmatch.1 hmatch.2
    refine ⟨fun _ => rfl, fun _ hnot => absurd ?_ hnot⟩
    rw [Inbox.db_setDb, haccepted, if_pos hpair]
    trivial
  · rw [if_neg (by simpa using hmatch)] at hr
    subst hr
    have hpair : ((routeOf row).ours, (routeOf row).peer) ≠ (ours, sender) :=
      fun heq => hmatch (Prod.mk.inj heq)
    have hold := hs id (routeOf row) (congrArg (Option.map routeOf) hrow)
      ⟨k, m, hmessages ▸ hmessages' ▸ hm, hconv, hpeer⟩
    unfold Inbox.Right at hold ⊢
    rw [Inbox.db_setDb, hconnected, haccepted, if_neg hpair]
    exact hold

/-- **`reject_request` keeps the routing.** -/
theorem routed_rejectRequest {s : Inbox W} (hs : s.Routed) {ours sender : IdentityKey}
    {db' : MetadataDb W} (h : rejectRequest s.db ours sender = .ok db') :
    (s.setDb db').Routed := by
  obtain ⟨hconnections, hconversations, hmessages⟩ := tables_settleRequest h
  rintro id r hroute ⟨k, m, hm, hconv, hpeer⟩
  have hold := hs id r (by rw [route?, ← hconversations]; exact hroute)
    ⟨k, m, hmessages ▸ hm, hconv, hpeer⟩
  have hsame : isRequestAccepted db' r.ours r.peer = true ↔
      isRequestAccepted s.db r.ours r.peer = true := by
    obtain ⟨hiff, hpending⟩ := isRequestAccepted_settleRequest h r.ours r.peer
    rw [hiff]
    split_ifs with hab
    · exact iff_of_false (by simp) (hpending hab)
    · rfl
  unfold Inbox.Right at hold ⊢
  rw [Inbox.db_setDb, isConnected_congr hconnections, hsame]
  exact hold

/-- A flag that is right stays right under a connection operation exactly when whoever is
connected is no request, and whoever is disconnected was accepted or written to. -/
theorem right_connection_iff {s : Inbox W} (op : ConnectionOp) {r : Route} (hr : s.Right r) :
    (s.setDb (op.apply s.db)).Right r ↔
      (op.Makes s.db r.ours r.peer → r.isRequest = false) ∧
        (op.Ends s.db r.ours r.peer → isConnected s.db r.ours r.peer = true →
          isRequestAccepted s.db r.ours r.peer = true ∨ (r.ours, r.peer) ∈ s.written) := by
  have hconn := op.isConnected_apply s.db r.ours r.peer
  obtain ⟨-, -, hrequests⟩ := op.tables_apply s.db
  unfold Inbox.Right at hr ⊢
  rw [Inbox.db_setDb, isRequestAccepted_congr hrequests, Inbox.written_setDb]
  constructor
  · rintro ⟨hfriend, hstranger⟩
    refine ⟨fun hmakes => hfriend (Or.inl (hconn.mpr (Or.inl hmakes))), fun hends hbefore => ?_⟩
    by_contra hneither
    obtain ⟨hnotAccepted, hnotWritten⟩ := not_or.mp hneither
    have hafter : ¬isConnected (op.apply s.db) r.ours r.peer = true := by
      rw [hconn]
      rintro (hmakes | ⟨-, hnot⟩)
      · exact hmakes.not_ends hends
      · exact hnot hends
    have htrue := hstranger hafter hnotAccepted hnotWritten
    rw [hr.1 (Or.inl hbefore)] at htrue
    cases htrue
  · rintro ⟨hmakes, hends⟩
    constructor
    · rintro (hafter | haccepted)
      · rcases hconn.mp hafter with h | ⟨hbefore, -⟩
        · exact hmakes h
        · exact hr.1 (Or.inl hbefore)
      · exact hr.1 (Or.inr haccepted)
    · intro hafter hnotAccepted hnotWritten
      refine hr.2 (fun hbefore => ?_) hnotAccepted hnotWritten
      have hended : op.Ends s.db r.ours r.peer := by
        by_contra hnot
        exact hafter (hconn.mpr (Or.inr ⟨hbefore, hnot⟩))
      rcases hends hended hbefore with h | h
      · exact hnotAccepted h
      · exact hnotWritten h

/-- A connection operation keeps the routing exactly under its condition. -/
theorem routed_connection_iff {s : Inbox W} (hs : s.Routed) (op : ConnectionOp) :
    (s.setDb (op.apply s.db)).Routed ↔ s.Fitting (.connection op : Op C) := by
  obtain ⟨hconversations, hmessages, -⟩ := op.tables_apply s.db
  have hroutes : ∀ id, route? (s.setDb (op.apply s.db)).db id = route? s.db id := by
    intro id
    rw [Inbox.db_setDb, route?, route?, hconversations]
  have hinbound : ∀ id peer, (s.setDb (op.apply s.db)).Inbound id peer ↔ s.Inbound id peer := by
    intro id peer
    unfold Inbox.Inbound
    rw [Inbox.db_setDb, hmessages]
  constructor
  · intro hrouted id r hroute hin
    exact (right_connection_iff op (hs id r hroute hin)).mp
      (hrouted id r ((hroutes id).trans hroute) ((hinbound id r.peer).mpr hin))
  · intro hfits id r hroute hin
    rw [hroutes] at hroute
    rw [hinbound] at hin
    exact (right_connection_iff op (hs id r hroute hin)).mpr (hfits id r hroute hin)

/-! ## Whole runs -/

namespace Inbox

/-- A new node that has written to nobody. -/
def new : Inbox W := ⟨NodeOp.fresh, []⟩

/-- A sealed message is stored, or refused without a trace. -/
theorem step_receiveMessage (s : Inbox W) (envelope : W.Sealed) (ours : IdentityKey)
    (secret : C.X25519Secret) (now : UInt64) :
    (∃ payload, UnreadCounts.Taken C s.db envelope ours secret now payload ∧
        s.step (.receiveMessage envelope ours secret now) = s.setDb (storeReceived s.db envelope
          payload ours (isStranger s.db ours payload.sender) now)) ∨
      ((∀ payload, ¬UnreadCounts.Taken C s.db envelope ours secret now payload) ∧
        s.step (.receiveMessage envelope ours secret now) = s) := by
  rcases UnreadCounts.receiveMessage_cases C s.db envelope ours secret now with
    ⟨payload, htaken, hres⟩ | ⟨hnot, e, hres⟩
  · exact Or.inl ⟨payload, htaken, by rw [step, hres]⟩
  · exact Or.inr ⟨hnot, by rw [step, hres]⟩

/-- Every message stays with its conversation. -/
theorem housed_step {s : Inbox W} (hh : UnreadCounts.Housed s.db) (op : Op C) :
    UnreadCounts.Housed (s.step op).db := by
  cases op with
  | receiveMessage envelope ours secret now =>
    rcases s.step_receiveMessage envelope ours secret now with ⟨payload, -, heq⟩ | ⟨-, heq⟩
    · rw [heq]
      exact UnreadCounts.housed_storeReceived hh _ _ _ _ _
    · rw [heq]
      exact hh
  | handlePlaintextDm json ours now =>
    rw [step, db_setDb, UnreadCounts.handlePlaintextDm_fst]
    cases UnreadCounts.plaintextDm? json ours now with
    | none => exact hh
    | some d => exact UnreadCounts.housed_storePlaintext hh d now
  | send env target body ttl entropy =>
    exact UnreadCounts.housed_send hh env target body ttl entropy
  | acceptRequest ours sender =>
    rw [step]
    split
    · rename_i db' hres
      obtain ⟨db₁, hset, -, hmessages', -, hconversations'⟩ := acceptRequest_eq_ok hres
      obtain ⟨-, hconversations, hmessages⟩ := tables_settleRequest hset
      have hcleared := UnreadCounts.housed_updateConversations hh
        (fun _ row => decide (row.ourPubkey = ours) && decide (row.theirPubkey = sender))
        (fun row => { row with isRequest := false })
      refine UnreadCounts.housed_of_messages hcleared (hconversations'.trans ?_) (fun k m hm => ?_)
      · rw [hconversations]
      · exact ⟨m, hmessages ▸ hmessages' ▸ hm, rfl⟩
    · exact hh
  | rejectRequest ours sender =>
    rw [step]
    split
    · rename_i db' hres
      obtain ⟨-, hconversations, hmessages⟩ := tables_settleRequest hres
      exact UnreadCounts.housed_of_messages hh hconversations
        (fun k m hm => ⟨m, hmessages ▸ hm, rfl⟩)
    · exact hh
  | connection op =>
    obtain ⟨hconversations, hmessages, -⟩ := op.tables_apply s.db
    exact UnreadCounts.housed_of_messages hh hconversations (fun k m hm => ⟨m, hmessages ▸ hm, rfl⟩)

/-- **`send`** keeps the routing exactly under its condition. -/
theorem routed_send_iff {s : Inbox W} (hs : s.Routed) (hh : UnreadCounts.Housed s.db)
    (env : CallEnv W) (target body : String) (ttl : Option UInt64) (entropy : C.Entropy) :
    (s.step (.send env target body ttl entropy)).Routed ↔
      s.Fitting (.send env target body ttl entropy) := by
  cases hseal : sealBody C env target body entropy with
  | error e =>
    have hstep : s.step (.send env target body ttl entropy) = s := by
      have hsent : sentTo C env target body ttl entropy s.node = [] := by
        rw [sentTo, exec_send_of_error hseal]
        cases resolve env target <;> rfl
      rw [step, after_send_of_error hseal, hsent]
      rfl
    rw [hstep]
    refine iff_of_true hs (fun loc recipient encryptedBody hok => ?_)
    rw [hseal] at hok
    cases hok
  | ok r =>
    obtain ⟨loc, recipient, encryptedBody⟩ := r
    rw [(stores_send hseal).routed_iff hs hh]
    have hwritten : s.db.messages.get? (W.blake3 (W.ofStr body)) = none →
        (s.step (.send env target body ttl entropy)).written = (loc, recipient) :: s.written := by
      intro hnew
      show sentTo C env target body ttl entropy s.node ++ s.written = _
      rw [sentTo_of_new hseal hnew]
      rfl
    constructor
    · intro hfits loc' recipient' encryptedBody' hok hnew
      obtain ⟨rfl, hrest⟩ := Prod.mk.inj (Except.ok.inj (hseal.symm.trans hok))
      obtain ⟨rfl, -⟩ := Prod.mk.inj hrest
      rw [← hwritten hnew]
      exact hfits hnew
    · intro hfitting hnew
      rw [hwritten hnew]
      exact hfitting loc recipient encryptedBody hseal hnew

/-- **One operation** keeps the routing exactly under its condition. -/
theorem routed_step_iff {s : Inbox W} (hs : s.Routed) (hh : UnreadCounts.Housed s.db) (op : Op C) :
    (s.step op).Routed ↔ s.Fitting op := by
  cases op with
  | receiveMessage envelope ours secret now =>
    rcases s.step_receiveMessage envelope ours secret now with ⟨payload, htaken, heq⟩ | ⟨hnot, heq⟩
    · rw [heq, (stores_storeReceived s envelope payload ours _ now).routed_iff hs hh]
      constructor
      · intro hfits payload' htaken'
        rw [← UnreadCounts.Taken.unique htaken htaken']
        exact hfits
      · exact fun hfitting => hfitting payload htaken
    · rw [heq]
      exact iff_of_true hs (fun payload htaken => absurd htaken (hnot payload))
  | handlePlaintextDm json ours now =>
    rw [step, UnreadCounts.handlePlaintextDm_fst, Fitting]
    cases UnreadCounts.plaintextDm? json ours now with
    | none => exact iff_of_true hs (fun d hd => by cases hd)
    | some d =>
      dsimp only
      rw [(stores_storePlaintext s d.ours d.sender d.senderHex d.body d.timestamp
        now).routed_iff hs hh]
      constructor
      · intro hfits d' hd'
        rw [← Option.some.inj hd']
        exact hfits
      · exact fun hfitting => hfitting d rfl
  | send env target body ttl entropy => exact routed_send_iff hs hh env target body ttl entropy
  | acceptRequest ours sender =>
    rw [step]
    split
    · rename_i db' hres
      exact iff_of_true (routed_acceptRequest hs hres) trivial
    · exact iff_of_true hs trivial
  | rejectRequest ours sender =>
    rw [step]
    split
    · rename_i db' hres
      exact iff_of_true (routed_rejectRequest hs hres) trivial
    · exact iff_of_true hs trivial
  | connection op => exact routed_connection_iff hs op

/-- **When message requests are routed.**  In every state of a run of a new node each
conversation with a message from its peer has the right flag exactly when every operation meets
the condition. -/
theorem routed_iff_meets (ops : List (Op C)) :
    (∀ l₁ l₂, ops = l₁ ++ l₂ → (run step (new : Inbox W) l₁).Routed) ↔
      Meets step Fitting new ops := by
  have hrouted : (new : Inbox W).Routed := by
    intro id r hroute
    cases hroute
  have hhoused : UnreadCounts.Housed (new : Inbox W).db := by
    intro k m hm
    cases hm
  exact always_iff_meets_of_keeps (P := Routed) (Q := fun s => UnreadCounts.Housed s.db)
    (fun s op _ hh => housed_step hh op) (fun s op hs hh => routed_step_iff hs hh op) hrouted
    hhoused ops

/-! ## Strangers in the main inbox -/

instance decidableRight (s : Inbox W) (r : Route) : Decidable (s.Right r) :=
  inferInstanceAs (Decidable (_ ∧ _))

theorem not_routed {s : Inbox W} (id k : W.Digest) (r : Route) (hroute : route? s.db id = some r)
    (hmessage : (s.db.messages.get? k).map (fun m => (m.conversationId, m.senderPubkey))
      = some (id, r.peer)) (hwrong : ¬s.Right r) : ¬s.Routed := by
  intro hrouted
  obtain ⟨m, hm, heq⟩ := Option.map_eq_some_iff.mp hmessage
  obtain ⟨hconv, hpeer⟩ := Prod.mk.inj heq
  exact hwrong (hrouted id r hroute ⟨k, m, hm, hconv, hpeer⟩)

/-- A plaintext message of Bob for Alice. -/
def plaintextOfBob : Op Cipher.symbolic :=
  .handlePlaintextDm (plaintextMessage NodeOp.bob (Hex.encode NodeOp.alice) "hi" 1000)
    (some NodeOp.alice) 1000

/-- A sealed message of Bob for Alice. -/
def sealedByBob : Wire.symbolic.Sealed where
  recipient := NodeOp.alice
  ciphertext := .ciphertext (.raw (NodeOp.bob ++ [104, 105])) NodeOp.alice 0
  timestamp := 1000
  ttl := 86400

def messageOfBob : Op Cipher.symbolic :=
  .receiveMessage sealedByBob NodeOp.alice NodeOp.alice 1000

/-- Bob asks Alice for a connection, and she accepts. -/
def connectBob : List (Op Cipher.symbolic) :=
  [.connection (.receiveConnectionRequest NodeOp.alice NodeOp.bob none 1000),
    .connection (.accept NodeOp.alice NodeOp.bob 1000)]

/-- The conversation of the two. -/
def withBob : Wire.symbolic.Digest := computeConversationId NodeOp.alice NodeOp.bob

/-- **Wrong inboxes.**  A stranger who writes in plaintext is in the main inbox; somebody whose
message came before the connection stays among the requests; and somebody whose connection has
ended stays in the main inbox. -/
theorem wrong_inboxes :
    ¬(run step (new : Inbox Wire.symbolic) [plaintextOfBob]).Routed ∧
      ¬(run step (new : Inbox Wire.symbolic) (messageOfBob :: connectBob)).Routed ∧
      ¬(run step (new : Inbox Wire.symbolic) (connectBob ++ [messageOfBob,
        .connection (.remove NodeOp.alice NodeOp.bob)])).Routed := by
  refine ⟨?_, ?_, ?_⟩
  · exact not_routed withBob (plaintextId (Hex.encode NodeOp.bob) "hi" 1000)
      ⟨NodeOp.alice, NodeOp.bob, false⟩ (by decide +kernel) (by decide +kernel)
      (by decide +kernel)
  · exact not_routed withBob (Wire.symbolic.blake3 sealedByBob.ciphertext)
      ⟨NodeOp.alice, NodeOp.bob, true⟩ (by decide +kernel) (by decide +kernel)
      (by decide +kernel)
  · exact not_routed withBob (Wire.symbolic.blake3 sealedByBob.ciphertext)
      ⟨NodeOp.alice, NodeOp.bob, false⟩ (by decide +kernel) (by decide +kernel)
      (by decide +kernel)

end Inbox

end RequestRouting
