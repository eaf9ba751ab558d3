/-
# Sending and reading direct messages (`ephemera-node/src/services/social.rs`)

`MessageService::send` stores the message, and hands out three artefacts: a plaintext
JSON message and an envelope over gossip, and the envelope again as a DHT record.
`MessageService::get_thread` reads a conversation back.

`send` is cut at its database part: `prepare` is what happens before anything leaves the
node, and `handOut` what leaves it.
-/
import Ephemera.SocialService

namespace DirectMessage

open StateExcept NodeState Messaging NodeIngest SocialService

variable {W : Wire}

/-! ## Sending -/

/-- What the database part of `send` passes on. -/
structure Prepared (W : Wire) where
  loc : IdentityKey
  recipient : IdentityKey
  conversationId : W.Digest
  msgId : W.Digest
  encryptedBody : W.Bytes
  deadDropTtl : UInt64

/-- The result of `send`. -/
structure SendResult (W : Wire) where
  messageHash : W.Digest
  conversationId : W.Digest
  publishedGossip : Bool
  publishedDht : Bool

/-- The default lifetime of a message: 24 hours. -/
def defaultTtlSecs : UInt64 := 86400

/-- The row `send` stores for its message. -/
def sentRow (loc : IdentityKey) (conversationId : W.Digest) (body : String)
    (encryptedBody : W.Bytes) (ttlSecs now : UInt64) : MessageRow W :=
  { conversationId := conversationId
    senderPubkey := loc
    receivedAt := now.toInt64
    expiresAt := now.toInt64 + ttlSecs.toInt64
    isRead := true
    bodyPreview := some (takeChars previewChars body)
    hasMedia := false
    encryptedBody := some encryptedBody
    isEncrypted := true }

/-- The envelope `send` publishes and stores in the DHT. -/
def sentEnvelope (p : Prepared W) (now : UInt64) : W.Envelope :=
  { mailboxKey := mailboxKey p.recipient
    messageId := p.msgId
    sealedData := p.encryptedBody
    depositedAt := now
    expiresAt := now + p.deadDropTtl }

/-- The plaintext message `send` publishes; the recipient is the text the caller gave. -/
def plaintextMessage (loc : IdentityKey) (target body : String) (now : UInt64) : Json :=
  [("type", .str "direct_message"), ("sender", .str (Hex.encode loc)), ("recipient", .str target),
    ("body", .str body), ("timestamp", .uint now)]

/-- The DHT record `send` stores. -/
def sentRecord (p : Prepared W) (now : UInt64) : DhtRecord W :=
  { key := mailboxKey p.recipient
    value := W.envelopeToVec (sentEnvelope p now)
    publisher := p.loc
    timestamp := now
    ttlSeconds := p.deadDropTtl.toUInt32
    signature := [] }

/-- What `send` computes before it opens the database: the caller, the recipient and the
encrypted body. -/
def sealBody (C : Cipher W) (env : CallEnv W) (target body : String) (entropy : C.Entropy) :
    Except String (IdentityKey × IdentityKey × W.Bytes) := do
  let (loc, recipient) ← resolve env target
  let recipientX25519 ← (C.ed25519PubToX25519 recipient).mapError
    (fun e => "derive recipient x25519: " ++ e)
  let encryptedBody ← (C.encryptMessage (W.ofStr body) recipientX25519 entropy).mapError
    (fun e => "encrypt message: " ++ e)
  return (loc, recipient, encryptedBody)

/-- What `send` writes once its message is in `messages`; a failed deposit is only
logged. -/
def depositSent (db : MetadataDb W) (p : Prepared W) (now : UInt64) : MetadataDb W :=
  let db := { db with
    conversations := db.conversations.updateWhere (fun k _ => decide (k = p.conversationId))
      (fun row => { row with lastMessageAt := some now.toInt64 }) }
  match depositRaw db (mailboxKey p.recipient) p.msgId p.encryptedBody now (now + p.deadDropTtl)
      now with
  | .ok db => db
  | .error _ => db

/-- The part of `send` before anything leaves the node: it fails when the caller or the
target cannot be resolved, when encryption fails, or when the message id is taken. -/
def prepare (C : Cipher W) (env : CallEnv W) (target body : String) (ttl : Option UInt64)
    (entropy : C.Entropy) : NodeM W (Prepared W) := do
  let (loc, recipient, encryptedBody) ← sealBody C env target body entropy
  let ttlSecs := ttl.getD defaultTtlSecs
  let (conversationId, db) := getOrCreateConversation (← get).db loc recipient false env.now
  let p : Prepared W := ⟨loc, recipient, conversationId, W.blake3 (W.ofStr body), encryptedBody,
    min ttlSecs deadDropMaxTtlSecs⟩
  modify fun st => { st with db := db }
  match db.messages.insert? p.msgId
      (sentRow loc conversationId body encryptedBody ttlSecs env.now) with
  | none => throw "store message: UNIQUE constraint failed: messages.message_id"
  | some messages =>
    modify fun st => { st with db := depositSent { db with messages := messages } p env.now }
    return p

/-- The part of `send` that hands the message out. -/
def handOut (env : CallEnv W) (target body : String) (p : Prepared W) : NodeM W (SendResult W) := do
  let publishedGossip ← publishBytes env (W.jsonToVec (plaintextMessage p.loc target body env.now))
  let _ ← publishBytes env (W.envelopeToVec (sentEnvelope p env.now))
  let publishedDht ← storeRecord env (sentRecord p env.now)
  return ⟨p.msgId, p.conversationId, publishedGossip, publishedDht⟩

/-- `MessageService::send`. -/
def send (C : Cipher W) (env : CallEnv W) (target body : String) (ttl : Option UInt64)
    (entropy : C.Entropy) : NodeM W (SendResult W) := do
  let p ← prepare C env target body ttl entropy
  handOut env target body p

/-! ## What a send leaves -/

/-- What the database part of a send passes on, when it succeeds. -/
def preparedOf (loc recipient : IdentityKey) (body : String) (encryptedBody : W.Bytes)
    (ttl : Option UInt64) : Prepared W :=
  ⟨loc, recipient, computeConversationId loc recipient, W.blake3 (W.ofStr body), encryptedBody,
    min (ttl.getD defaultTtlSecs) deadDropMaxTtlSecs⟩

/-- The database after a send. -/
def sentDb (db : MetadataDb W) (p : Prepared W) (body : String) (ttl : Option UInt64)
    (now : UInt64) : MetadataDb W :=
  let db := (getOrCreateConversation db p.loc p.recipient false now).2
  depositSent { db with
    messages := db.messages.insertOrIgnore p.msgId
      (sentRow p.loc p.conversationId body p.encryptedBody (ttl.getD defaultTtlSecs) now) } p now

/-- The state after the message is handed out. -/
def afterHandOut (env : CallEnv W) (target body : String) (p : Prepared W) (st : NodeState W) :
    NodeState W :=
  afterStore env (sentRecord p env.now)
    (afterPublish env (W.envelopeToVec (sentEnvelope p env.now))
      (afterPublish env (W.jsonToVec (plaintextMessage p.loc target body env.now)) st))

theorem exec_handOut (env : CallEnv W) (target body : String) (p : Prepared W)
    (st : NodeState W) :
    ∃ r, exec (handOut env target body p) st = (.ok r, afterHandOut env target body p st) := by
  obtain ⟨g, hg⟩ := exec_publishBytes env
    (W.jsonToVec (plaintextMessage p.loc target body env.now)) st
  obtain ⟨e, he⟩ := exec_publishBytes env (W.envelopeToVec (sentEnvelope p env.now))
    (afterPublish env (W.jsonToVec (plaintextMessage p.loc target body env.now)) st)
  obtain ⟨d, hd⟩ := exec_storeRecord env (sentRecord p env.now)
    (afterPublish env (W.envelopeToVec (sentEnvelope p env.now))
      (afterPublish env (W.jsonToVec (plaintextMessage p.loc target body env.now)) st))
  refine ⟨⟨p.msgId, p.conversationId, g, d⟩, ?_⟩
  simp only [handOut, exec_bind, hg, he, hd, exec_pure]
  rfl

variable {C : Cipher W} {env : CallEnv W} {target body : String} {entropy : C.Entropy}
  {loc recipient : IdentityKey} {encryptedBody : W.Bytes}

/-- What the sealed body of a send is. -/
theorem sealBody_eq_ok
    (h : sealBody C env target body entropy = .ok (loc, recipient, encryptedBody)) :
    resolve env target = .ok (loc, recipient) ∧
      ∃ key, C.encryptMessage (W.ofStr body) key entropy = .ok encryptedBody := by
  unfold sealBody at h
  cases hres : resolve env target with
  | error e => simp [hres, bind, Except.bind] at h
  | ok lr =>
    obtain ⟨l, r⟩ := lr
    cases hkey : C.ed25519PubToX25519 r with
    | error e => simp [hres, hkey, bind, Except.bind, Except.mapError] at h
    | ok key =>
      cases henc : C.encryptMessage (W.ofStr body) key entropy with
      | error e => simp [hres, hkey, henc, bind, Except.bind, Except.mapError] at h
      | ok ciphertext =>
        simp [hres, hkey, henc, bind, Except.bind, Except.mapError, pure, Except.pure] at h
        obtain ⟨rfl, rfl, rfl⟩ := h
        exact ⟨rfl, key, henc⟩

/-- A send fails without a trace when its body cannot be sealed. -/
theorem exec_send_of_error {e : String} (h : sealBody C env target body entropy = .error e)
    (ttl : Option UInt64) (st : NodeState W) :
    exec (send C env target body ttl entropy) st = (.error e, st) := by
  unfold send prepare
  rw [exec_bind, exec_bind, h, exec_lift]

theorem after_send_of_error {e : String} (h : sealBody C env target body entropy = .error e)
    (ttl : Option UInt64) (st : NodeState W) :
    after (send C env target body ttl entropy) st = st := by
  rw [after, exec_send_of_error h]

/-- A send of a body whose id is taken fails, and only leaves its conversation. -/
theorem exec_send_of_taken
    (h : sealBody C env target body entropy = .ok (loc, recipient, encryptedBody))
    (ttl : Option UInt64) {st : NodeState W}
    (htaken : st.db.messages.get? (W.blake3 (W.ofStr body)) ≠ none) :
    exec (send C env target body ttl entropy) st
      = (.error "store message: UNIQUE constraint failed: messages.message_id",
          { st with db := (getOrCreateConversation st.db loc recipient false env.now).2 }) := by
  -- the plain `INSERT` fails, and the conversation made before it stays
  have hins : st.db.messages.insert? (W.blake3 (W.ofStr body))
      (sentRow loc (computeConversationId loc recipient) body encryptedBody
        (ttl.getD defaultTtlSecs) env.now) = none := by
    rw [SqlTable.insert?, dif_neg htaken]
  unfold send prepare
  rw [exec_bind, exec_bind, h, exec_lift]
  simp only [exec_bind, exec_get, exec_modify, getOrCreateConversation, hins, exec_throw]

theorem after_send_of_taken
    (h : sealBody C env target body entropy = .ok (loc, recipient, encryptedBody))
    (ttl : Option UInt64) {st : NodeState W}
    (htaken : st.db.messages.get? (W.blake3 (W.ofStr body)) ≠ none) :
    after (send C env target body ttl entropy) st
      = { st with db := (getOrCreateConversation st.db loc recipient false env.now).2 } := by
  rw [after, exec_send_of_taken h ttl htaken]

/-- A send of a new body succeeds: it stores it and hands it out. -/
theorem exec_send_of_new
    (h : sealBody C env target body entropy = .ok (loc, recipient, encryptedBody))
    (ttl : Option UInt64) {st : NodeState W}
    (hnew : st.db.messages.get? (W.blake3 (W.ofStr body)) = none) :
    ∃ r, exec (send C env target body ttl entropy) st
      = (.ok r, afterHandOut env target body (preparedOf loc recipient body encryptedBody ttl)
          { st with
            db := sentDb st.db (preparedOf loc recipient body encryptedBody ttl) body ttl
              env.now }) := by
  have hins : st.db.messages.insert? (W.blake3 (W.ofStr body))
      (sentRow loc (computeConversationId loc recipient) body encryptedBody
        (ttl.getD defaultTtlSecs) env.now)
      = some (st.db.messages.insertOrIgnore (W.blake3 (W.ofStr body))
          (sentRow loc (computeConversationId loc recipient) body encryptedBody
            (ttl.getD defaultTtlSecs) env.now)) :=
    SqlTable.insert?_eq_some_iff.mpr ⟨hnew, rfl⟩
  obtain ⟨r, hr⟩ := exec_handOut env target body (preparedOf loc recipient body encryptedBody ttl)
    { st with
      db := sentDb st.db (preparedOf loc recipient body encryptedBody ttl) body ttl env.now }
  refine ⟨r, ?_⟩
  unfold send prepare
  rw [exec_bind, exec_bind, h, exec_lift]
  simp only [exec_bind, exec_get, exec_modify, getOrCreateConversation, hins, exec_pure]
  exact hr

theorem after_send_of_new
    (h : sealBody C env target body entropy = .ok (loc, recipient, encryptedBody))
    (ttl : Option UInt64) {st : NodeState W}
    (hnew : st.db.messages.get? (W.blake3 (W.ofStr body)) = none) :
    after (send C env target body ttl entropy) st
      = afterHandOut env target body (preparedOf loc recipient body encryptedBody ttl)
          { st with
            db := sentDb st.db (preparedOf loc recipient body encryptedBody ttl) body
              ttl env.now } := by
  obtain ⟨r, hr⟩ := exec_send_of_new h ttl hnew
  rw [after, hr]

@[simp] theorem db_afterHandOut (env : CallEnv W) (target body : String) (p : Prepared W)
    (st : NodeState W) : (afterHandOut env target body p st).db = st.db := by
  rw [afterHandOut, db_afterStore, db_afterPublish, db_afterPublish]

/-- What a send publishes, when there is a network. -/
theorem published_afterHandOut (env : CallEnv W) (target body : String) (p : Prepared W)
    (st : NodeState W) :
    (afterHandOut env target body p st).published
      = st.published ++ (if env.network.isSome
          then [W.jsonToVec (plaintextMessage p.loc target body env.now),
            W.envelopeToVec (sentEnvelope p env.now)] else []) := by
  rw [afterHandOut, published_afterStore]
  unfold afterPublish
  by_cases hnet : env.network.isSome = true
  · simp only [if_pos hnet, List.append_assoc, List.cons_append, List.nil_append]
  · simp only [if_neg hnet, List.append_nil]

/-- Messages and connections are as they were before the deposit. -/
theorem tables_depositSent (db : MetadataDb W) (p : Prepared W) (now : UInt64) :
    (depositSent db p now).messages = db.messages ∧
      (depositSent db p now).connections = db.connections := by
  unfold depositSent
  dsimp only
  split
  · rename_i hdep
    rw [sameButDrops_depositRaw hdep]
    exact ⟨rfl, rfl⟩
  · exact ⟨rfl, rfl⟩

/-- A send stores its message. -/
theorem messages_sentDb (db : MetadataDb W) (p : Prepared W) (body : String) (ttl : Option UInt64)
    (now : UInt64) :
    (sentDb db p body ttl now).messages = db.messages.insertOrIgnore p.msgId
      (sentRow p.loc p.conversationId body p.encryptedBody (ttl.getD defaultTtlSecs) now) := by
  rw [sentDb, (tables_depositSent _ _ _).1]
  rfl

/-- A send leaves the connections alone. -/
theorem connections_send (C : Cipher W) (env : CallEnv W) (target body : String)
    (ttl : Option UInt64) (entropy : C.Entropy) (st : NodeState W) :
    (after (send C env target body ttl entropy) st).db.connections = st.db.connections := by
  cases hseal : sealBody C env target body entropy with
  | error e => rw [after_send_of_error hseal]
  | ok r =>
    obtain ⟨loc, recipient, encryptedBody⟩ := r
    by_cases hnew : st.db.messages.get? (W.blake3 (W.ofStr body)) = none
    · rw [after_send_of_new hseal ttl hnew, db_afterHandOut]
      exact (tables_depositSent _ _ _).2
    · rw [after_send_of_taken hseal ttl hnew]
      rfl

/-! ## Reading a payload back -/

theorem directMessage?_eq_some {payload : W.Bytes} {json : Json} :
    directMessage? payload = some json ↔
      W.jsonFromSlice payload = some json ∧ json.getStr "type" = some "direct_message" := by
  rw [directMessage?, Option.filter_eq_some_iff, decide_eq_true_eq]

/-- An envelope is not taken for a plaintext message. -/
theorem directMessage?_envelope (hW : W.Lawful) (envelope : W.Envelope) :
    directMessage? (W.envelopeToVec envelope) = none := by
  obtain ⟨json, hjson, htype⟩ := hW.envelope_json envelope
  cases hmsg : directMessage? (W.envelopeToVec envelope) with
  | none => rfl
  | some json' =>
    obtain ⟨hjson', htype'⟩ := directMessage?_eq_some.mp hmsg
    rw [hjson, Option.some.injEq] at hjson'
    rw [← hjson', Json.getStr, htype] at htype'
    cases htype'

/-- A plaintext message is read back. -/
theorem directMessage?_plaintextMessage (hW : W.Lawful) (loc : IdentityKey) (target body : String)
    (now : UInt64) :
    ∃ json, directMessage? (W.jsonToVec (plaintextMessage loc target body now)) = some json ∧
      ∀ field, json.get field = (plaintextMessage loc target body now).get field := by
  have hnodup : ((plaintextMessage loc target body now).map Prod.fst).Nodup := by
    show ["type", "sender", "recipient", "body", "timestamp"].Nodup
    decide
  obtain ⟨json, hjson, hget⟩ := hW.json _ hnodup
  refine ⟨json, directMessage?_eq_some.mpr ⟨hjson, ?_⟩, hget⟩
  rw [Json.getStr, hget]
  rfl

/-! ## Reading -/

/-- A message of a thread as `get_thread` shows it. -/
structure ThreadItem (W : Wire) where
  messageId : W.Digest
  sender : IdentityKey
  body : Option String
  receivedAt : Int64
  expiresAt : Int64
  isOwn : Bool
  isRead : Bool
  isEncrypted : Bool
  status : String

/-- The item of a row.  An incoming encrypted message is decrypted; everything else shows
its preview. -/
def threadItem (C : Cipher W) (loc : IdentityKey) (secret : C.X25519Secret)
    (m : W.Digest × MessageRow W) : ThreadItem W :=
  let isOwn := decide (m.2.senderPubkey = loc)
  let body :=
    if m.2.isEncrypted && !isOwn then
      match m.2.encryptedBody with
      | some ciphertext =>
        match C.decryptMessage ciphertext secret with
        | .ok plaintext => W.toStr? plaintext
        | .error _ => m.2.bodyPreview
      | none => m.2.bodyPreview
    else m.2.bodyPreview
  { messageId := m.1
    sender := m.2.senderPubkey
    body := body
    receivedAt := m.2.receivedAt
    expiresAt := m.2.expiresAt
    isOwn := isOwn
    isRead := m.2.isRead
    isEncrypted := m.2.isEncrypted
    status := if isOwn then (if m.2.isRead then "read" else "sent") else "delivered" }

/-- `MessageService::get_thread`: the items and whether there may be more. -/
def getThread (C : Cipher W) (db : MetadataDb W) (loc : IdentityKey) (secret : C.X25519Secret)
    (conversationId : W.Digest) (limit : UInt64) : List (ThreadItem W) × Bool :=
  let items := (getMessages db conversationId limit.toUInt32.toNat).map (threadItem C loc secret)
  (items, decide (items.length = limit.toNat))

end DirectMessage
