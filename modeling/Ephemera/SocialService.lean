/-
# The social service of a node (`ephemera-node/src/services/social.rs`)

The operations on connections as the node's API offers them.  Each resolves the caller
and the target, writes `connections`, and `connect` and `accept` then announce what
happened: an envelope on the gossip network and a record in the local DHT storage.

A node is its database, its DHT storage, and what it has handed out so far.  One lemma
for each operation says what it does to `connections`; the announcements leave the
database alone (`db_announce`).
-/
import Ephemera.NodeIngest
import Ephemera.StateExcept

/-! ## The node -/

/-- A node: its database and DHT storage, every payload it has given to
`NetworkSubsystem::publish`, and every record it has put into DHT storage. -/
structure NodeState (W : Wire) where
  db : MetadataDb W
  dht : DhtStorage W
  published : List W.Bytes
  stored : List (DhtRecord W)

/-- What a call finds around it: the signing identity (or why it is not available), the
clock, the network with the outcome of each publication, and whether it is given the DHT
storage. -/
structure CallEnv (W : Wire) where
  identity : Except String IdentityKey
  now : UInt64
  network : Option (W.Bytes → Bool)
  withDht : Bool

/-- The calls of the node's services. -/
abbrev NodeM (W : Wire) := StateExcept String (NodeState W)

namespace NodeState

open StateExcept

variable {W : Wire}

/-- `net.publish(…)`, when there is a network. -/
def publishBytes (env : CallEnv W) (bytes : W.Bytes) : NodeM W Bool :=
  match env.network with
  | none => return false
  | some publish => do
    modify fun st => { st with published := st.published ++ [bytes] }
    return publish bytes

/-- `storage.put(…)`, when the call is given the DHT storage. -/
def storeRecord (env : CallEnv W) (record : DhtRecord W) : NodeM W Bool :=
  if env.withDht then do
    match (← get).dht.put record env.now with
    | .ok dht =>
      modify fun st => { st with dht := dht, stored := st.stored ++ [record] }
      return true
    | .error _ => return false
  else return false

/-- The state after a publication. -/
def afterPublish (env : CallEnv W) (bytes : W.Bytes) (st : NodeState W) : NodeState W :=
  if env.network.isSome then { st with published := st.published ++ [bytes] } else st

/-- The state after a record was offered to the DHT storage. -/
def afterStore (env : CallEnv W) (record : DhtRecord W) (st : NodeState W) : NodeState W :=
  if env.withDht then
    match st.dht.put record env.now with
    | .ok dht => { st with dht := dht, stored := st.stored ++ [record] }
    | .error _ => st
  else st

theorem exec_publishBytes (env : CallEnv W) (bytes : W.Bytes) (st : NodeState W) :
    ∃ b, exec (publishBytes env bytes) st = (.ok b, afterPublish env bytes st) := by
  unfold publishBytes afterPublish
  cases env.network with
  | none => exact ⟨false, rfl⟩
  | some publish => exact ⟨publish bytes, rfl⟩

theorem exec_storeRecord (env : CallEnv W) (record : DhtRecord W) (st : NodeState W) :
    ∃ b, exec (storeRecord env record) st = (.ok b, afterStore env record st) := by
  unfold storeRecord afterStore
  by_cases hdht : env.withDht = true
  · rw [if_pos hdht, if_pos hdht, exec_bind, exec_get]
    cases hput : st.dht.put record env.now with
    | ok dht =>
      simp only [hput]
      exact ⟨true, rfl⟩
    | error e =>
      simp only [hput]
      exact ⟨false, rfl⟩
  · rw [if_neg hdht, if_neg hdht]
    exact ⟨false, rfl⟩

@[simp] theorem db_afterPublish (env : CallEnv W) (bytes : W.Bytes) (st : NodeState W) :
    (afterPublish env bytes st).db = st.db := by
  unfold afterPublish
  split <;> rfl

@[simp] theorem db_afterStore (env : CallEnv W) (record : DhtRecord W) (st : NodeState W) :
    (afterStore env record st).db = st.db := by
  unfold afterStore
  split
  · split <;> rfl
  · rfl

@[simp] theorem dht_afterPublish (env : CallEnv W) (bytes : W.Bytes) (st : NodeState W) :
    (afterPublish env bytes st).dht = st.dht := by
  unfold afterPublish
  split <;> rfl

@[simp] theorem stored_afterPublish (env : CallEnv W) (bytes : W.Bytes) (st : NodeState W) :
    (afterPublish env bytes st).stored = st.stored := by
  unfold afterPublish
  split <;> rfl

@[simp] theorem published_afterStore (env : CallEnv W) (record : DhtRecord W) (st : NodeState W) :
    (afterStore env record st).published = st.published := by
  unfold afterStore
  split
  · split <;> rfl
  · rfl

/-- A publication hands out one payload. -/
theorem mem_published_afterPublish {env : CallEnv W} {bytes bytes' : W.Bytes} {st : NodeState W}
    (h : bytes' ∈ (afterPublish env bytes st).published) : bytes' ∈ st.published ∨
      bytes' = bytes := by
  unfold afterPublish at h
  split at h
  · rcases List.mem_append.mp h with h | h
    · exact Or.inl h
    · exact Or.inr (List.mem_singleton.mp h)
  · exact Or.inl h

/-- A record that is offered to the DHT storage is the only one that can be new there. -/
theorem stored_of_afterStore (env : CallEnv W) (record : DhtRecord W) (st : NodeState W) :
    (∀ record' ∈ (afterStore env record st).stored, record' ∈ st.stored ∨ record' = record) ∧
      ∀ key stored, (afterStore env record st).dht.records.get? key = some stored →
        st.dht.records.get? key = some stored ∨ stored.record = record := by
  unfold afterStore
  split
  · split
    · rename_i dht hput
      refine ⟨fun record' h => ?_, fun key stored h => DhtStorage.get?_of_put hput h⟩
      rcases List.mem_append.mp h with h | h
      · exact Or.inl h
      · exact Or.inr (List.mem_singleton.mp h)
    · exact ⟨fun _ h => Or.inl h, fun _ _ h => Or.inl h⟩
  · exact ⟨fun _ h => Or.inl h, fun _ _ h => Or.inl h⟩

end NodeState

namespace SocialService

open StateExcept NodeState Messaging NodeIngest

variable {W : Wire}

/-- `parse_pubkey`. -/
def parsePubkey (hex : String) : Except String IdentityKey := do
  let bytes ← (Hex.decode hex).mapError (fun e => "bad pubkey hex: " ++ e)
  if bytes.length ≠ identityKeyLen then
    throw ("pubkey must be 32 bytes, got " ++ toString bytes.length)
  return bytes

/-- The caller and the target of a call, when both can be resolved. -/
def resolve (env : CallEnv W) (target : String) : Except String (IdentityKey × IdentityKey) := do
  let loc ← env.identity
  let remote ← parsePubkey target
  return (loc, remote)

/-- The name of a status in error texts. -/
def statusName : ConnectionStatus → String
  | .pendingOutgoing => "PendingOutgoing"
  | .pendingIncoming => "PendingIncoming"
  | .active => "Active"
  | .blocked => "Blocked"

/-- The text of a `ConnectionError`. -/
def errorText : MetadataDb.ConnectionError → String
  | .alreadyExists status => "connection already exists with status: " ++ statusName status
  | .messageTooLong len => "connection message too long: " ++ toString len ++ " chars, max 280"

/-- What `connect` and `accept` report about their announcement. -/
structure Announced where
  publishedGossip : Bool
  publishedDht : Bool

/-- The lifetime of an announcement: 7 days. -/
def announcementTtl : UInt64 := 7 * 24 * 60 * 60

/-- The envelope in which a payload goes to the mailbox of `remote`. -/
def announcementEnvelope (remote : IdentityKey) (payload : Json) (now : UInt64) : W.Envelope :=
  { mailboxKey := mailboxKey remote
    messageId := W.blake3 (W.jsonToVec payload)
    sealedData := W.jsonToVec payload
    depositedAt := now
    expiresAt := now + announcementTtl }

/-- The DHT record of a payload, which holds it without an envelope. -/
def announcementRecord (loc remote : IdentityKey) (payload : Json) (now : UInt64) : DhtRecord W :=
  { key := mailboxKey remote
    value := W.jsonToVec payload
    publisher := loc
    timestamp := now
    ttlSeconds := announcementTtl.toUInt32
    signature := [] }

/-- The announcement of `connect` and `accept`, over gossip and into the DHT. -/
def announce (env : CallEnv W) (loc remote : IdentityKey) (payload : Json) :
    NodeM W Announced := do
  let publishedGossip ← publishBytes env
    (W.envelopeToVec (announcementEnvelope remote payload env.now))
  let publishedDht ← storeRecord env (announcementRecord loc remote payload env.now)
  return ⟨publishedGossip, publishedDht⟩

/-- The payload of a connection request. -/
def requestPayload (loc remote : IdentityKey) (message : Option String) (now : UInt64) : Json :=
  [("type", .str "connection_request"), ("initiator", .str (Hex.encode loc)),
    ("responder", .str (Hex.encode remote)), ("message", .ofOption message),
    ("created_at", .uint now)]

/-- The payload of an acceptance. -/
def acceptancePayload (loc remote : IdentityKey) (now : UInt64) : Json :=
  [("type", .str "connection_accepted"), ("acceptor", .str (Hex.encode loc)),
    ("requester", .str (Hex.encode remote)), ("created_at", .uint now)]

/-- The message of a request: the empty text is no message. -/
def requestMessage (msg : String) : Option String := if msg.isEmpty then none else some msg

/-- `SocialService::connect`. -/
def connect (env : CallEnv W) (target msg : String) : NodeM W Announced := do
  let (loc, remote) ← resolve env target
  let message := requestMessage msg
  let db ← (((← get).db.request loc remote message env.now).mapError
    (fun e => "connection request: " ++ errorText e) : Except String (MetadataDb W))
  modify fun st => { st with db := db }
  announce env loc remote (requestPayload loc remote message env.now)

/-- `SocialService::accept`. -/
def accept (env : CallEnv W) (source : String) : NodeM W Announced := do
  let (loc, remote) ← resolve env source
  modify fun st => { st with db := st.db.accept loc remote env.now }
  announce env loc remote (acceptancePayload loc remote env.now)

/-- A call that only writes the database. -/
def writeDb (env : CallEnv W) (target : String)
    (write : MetadataDb W → IdentityKey → IdentityKey → MetadataDb W) : NodeM W Unit := do
  let (loc, remote) ← resolve env target
  modify fun st => { st with db := write st.db loc remote }

/-- `SocialService::reject`. -/
def reject (env : CallEnv W) (source : String) : NodeM W Unit :=
  writeDb env source MetadataDb.reject

/-- `SocialService::cancel_request`, which reuses the `reject` of the store. -/
def cancelRequest (env : CallEnv W) (target : String) : NodeM W Unit :=
  writeDb env target MetadataDb.reject

/-- `SocialService::resend_request`: the rows of both directions are deleted, then the
request is made again. -/
def resendRequest (env : CallEnv W) (target msg : String) : NodeM W Announced := do
  let (loc, remote) ← resolve env target
  modify fun st => { st with db := st.db.reject loc remote }
  modify fun st => { st with db := st.db.reject remote loc }
  connect env target msg

/-- `SocialService::disconnect`. -/
def disconnect (env : CallEnv W) (target : String) : NodeM W Unit :=
  writeDb env target MetadataDb.remove

/-- `SocialService::unfollow`. -/
def unfollow (env : CallEnv W) (target : String) : NodeM W Unit := disconnect env target

/-- `SocialService::follow`: a request that is not announced. -/
def follow (env : CallEnv W) (target : String) : NodeM W Unit := do
  let _ ← connect { env with network := none, withDht := false } target ""

/-- `SocialService::block`. -/
def block (env : CallEnv W) (target : String) : NodeM W Unit :=
  writeDb env target (fun db loc remote => db.block loc remote none env.now)

/-- `SocialService::unblock`. -/
def unblock (env : CallEnv W) (target : String) : NodeM W Unit :=
  writeDb env target MetadataDb.unblock

/-! ## What the operations do to the database -/

/-- The state a call leaves. -/
def after {α : Type} (m : NodeM W α) (st : NodeState W) : NodeState W := (exec m st).2

theorem parsePubkey_eq_ok {hex : String} {key : IdentityKey} :
    parsePubkey hex = .ok key ↔ decodeKey hex = some key := by
  unfold parsePubkey decodeKey
  cases Hex.decode hex with
  | error e => simp [Except.mapError, bind, Except.bind]
  | ok bytes =>
    by_cases h : bytes.length = identityKeyLen
    · simp [Except.mapError, bind, Except.bind, h, pure, Except.pure]
    · simp [Except.mapError, bind, Except.bind, h, throw, throwThe, MonadExceptOf.throw]

theorem resolve_eq_ok {env : CallEnv W} {target : String} {loc remote : IdentityKey} :
    resolve env target = .ok (loc, remote) ↔
      env.identity = .ok loc ∧ decodeKey target = some remote := by
  rw [← parsePubkey_eq_ok]
  unfold resolve
  cases env.identity with
  | error e => simp [bind, Except.bind]
  | ok l =>
    cases parsePubkey target with
    | error e => simp [bind, Except.bind]
    | ok r => simp [bind, Except.bind, pure, Except.pure]

/-- A call is resolved to its user and the key it names. -/
theorem of_resolve {env : CallEnv W} {me loc remote : IdentityKey} {target : String}
    (hid : env.identity = .ok me) (hres : resolve env target = .ok (loc, remote)) :
    me = loc ∧ decodeKey target = some remote := by
  obtain ⟨hloc, hremote⟩ := resolve_eq_ok.mp hres
  exact ⟨Except.ok.inj (hid.symm.trans hloc), hremote⟩

/-- The state after an announcement. -/
def afterAnnounce (env : CallEnv W) (loc remote : IdentityKey) (payload : Json)
    (st : NodeState W) : NodeState W :=
  afterStore env (announcementRecord loc remote payload env.now)
    (afterPublish env (W.envelopeToVec (announcementEnvelope remote payload env.now)) st)

theorem exec_announce (env : CallEnv W) (loc remote : IdentityKey) (payload : Json)
    (st : NodeState W) :
    ∃ a, exec (announce env loc remote payload) st
      = (.ok a, afterAnnounce env loc remote payload st) := by
  obtain ⟨g, hg⟩ := exec_publishBytes env
    (W.envelopeToVec (announcementEnvelope remote payload env.now)) st
  obtain ⟨d, hd⟩ := exec_storeRecord env (announcementRecord loc remote payload env.now)
    (afterPublish env (W.envelopeToVec (announcementEnvelope remote payload env.now)) st)
  refine ⟨⟨g, d⟩, ?_⟩
  simp only [announce, exec_bind, hg, hd, exec_pure]
  rfl

@[simp] theorem db_afterAnnounce (env : CallEnv W) (loc remote : IdentityKey) (payload : Json)
    (st : NodeState W) : (afterAnnounce env loc remote payload st).db = st.db := by
  rw [afterAnnounce, db_afterStore, db_afterPublish]

/-- Do something with the caller and the target, if they can be resolved. -/
def onResolved (env : CallEnv W) (target : String) (st : NodeState W)
    (f : IdentityKey → IdentityKey → NodeState W) : NodeState W :=
  match resolve env target with
  | .ok (loc, remote) => f loc remote
  | .error _ => st

theorem after_writeDb (env : CallEnv W) (target : String)
    (write : MetadataDb W → IdentityKey → IdentityKey → MetadataDb W) (st : NodeState W) :
    after (writeDb env target write) st
      = onResolved env target st (fun loc remote => { st with db := write st.db loc remote }) := by
  unfold after writeDb onResolved
  cases resolve env target <;> rfl

theorem after_connect (env : CallEnv W) (target msg : String) (st : NodeState W) :
    after (connect env target msg) st = onResolved env target st (fun loc remote =>
      match st.db.request loc remote (requestMessage msg) env.now with
      | .ok db => afterAnnounce env loc remote
          (requestPayload loc remote (requestMessage msg) env.now) { st with db := db }
      | .error _ => st) := by
  unfold after connect onResolved
  cases hres : resolve env target with
  | error e => rfl
  | ok lr =>
    obtain ⟨loc, remote⟩ := lr
    simp only [exec_bind, exec_lift, exec_get]
    cases hreq : st.db.request loc remote (requestMessage msg) env.now with
    | error e => rfl
    | ok db =>
      obtain ⟨a, ha⟩ := exec_announce env loc remote
        (requestPayload loc remote (requestMessage msg) env.now) { st with db := db }
      simp only [Except.mapError, exec_modify, ha]

theorem after_accept (env : CallEnv W) (source : String) (st : NodeState W) :
    after (accept env source) st = onResolved env source st (fun loc remote =>
      afterAnnounce env loc remote (acceptancePayload loc remote env.now)
        { st with db := st.db.accept loc remote env.now }) := by
  unfold after accept onResolved
  cases hres : resolve env source with
  | error e => rfl
  | ok lr =>
    obtain ⟨loc, remote⟩ := lr
    obtain ⟨a, ha⟩ := exec_announce env loc remote (acceptancePayload loc remote env.now)
      { st with db := st.db.accept loc remote env.now }
    simp only [exec_bind, exec_lift, exec_modify, ha]

theorem after_resendRequest (env : CallEnv W) (target msg : String) (st : NodeState W) :
    after (resendRequest env target msg) st = onResolved env target st (fun loc remote =>
      after (connect env target msg)
        { st with db := (st.db.reject loc remote).reject remote loc }) := by
  unfold after resendRequest onResolved
  cases hres : resolve env target with
  | error e => rfl
  | ok lr =>
    obtain ⟨loc, remote⟩ := lr
    simp only [exec_bind, exec_lift, exec_modify]

theorem after_follow (env : CallEnv W) (target : String) (st : NodeState W) :
    after (follow env target) st
      = after (connect { env with network := none, withDht := false } target "") st := by
  unfold after follow
  rw [exec_bind]
  rcases exec (connect { env with network := none, withDht := false } target "") st with ⟨_ | a, s'⟩
  · rfl
  · rfl

/-- A call whose target cannot be resolved does nothing. -/
theorem onResolved_of_error {env : CallEnv W} {target e : String}
    (h : resolve env target = .error e) (st : NodeState W)
    (f : IdentityKey → IdentityKey → NodeState W) : onResolved env target st f = st := by
  rw [onResolved, h]

/-- A call that only writes the database, once its target is resolved. -/
theorem db_writeDb {env : CallEnv W} {target : String} {loc remote : IdentityKey}
    (h : resolve env target = .ok (loc, remote))
    (write : MetadataDb W → IdentityKey → IdentityKey → MetadataDb W) (st : NodeState W) :
    (after (writeDb env target write) st).db = write st.db loc remote := by
  rw [after_writeDb, onResolved, h]

theorem db_accept {env : CallEnv W} {source : String} {loc remote : IdentityKey}
    (h : resolve env source = .ok (loc, remote)) (st : NodeState W) :
    (after (accept env source) st).db = st.db.accept loc remote env.now := by
  rw [after_accept, onResolved, h]
  exact db_afterAnnounce _ _ _ _ _

/-- A request inserts a row `pending_outgoing` where there is none, or does nothing. -/
theorem connections_connect (env : CallEnv W) (target msg : String) (st : NodeState W) :
    (after (connect env target msg) st).db.connections = st.db.connections ∨
      ∃ loc remote row, resolve env target = .ok (loc, remote) ∧
        st.db.connections.get? (loc, remote) = none ∧ row.status = .pendingOutgoing ∧
        (after (connect env target msg) st).db.connections
          = st.db.connections.insertOrIgnore (loc, remote) row := by
  rw [after_connect]
  unfold onResolved
  cases hres : resolve env target with
  | error e => exact Or.inl rfl
  | ok lr =>
    obtain ⟨loc, remote⟩ := lr
    simp only
    cases hreq : st.db.request loc remote (requestMessage msg) env.now with
    | error e => exact Or.inl rfl
    | ok db =>
      obtain ⟨hnone, rfl⟩ := MetadataDb.request_eq_ok hreq
      refine Or.inr ⟨loc, remote, ⟨.pendingOutgoing, env.now.toInt64, env.now.toInt64,
        requestMessage msg, some loc⟩, rfl, hnone, rfl, ?_⟩
      simp only [db_afterAnnounce]

/-- A resent request starts from the database without the rows of both directions. -/
theorem after_resendRequest_of_ok {env : CallEnv W} {target : String} {loc remote : IdentityKey}
    (h : resolve env target = .ok (loc, remote)) (msg : String) (st : NodeState W) :
    after (resendRequest env target msg) st
      = after (connect env target msg)
          { st with db := (st.db.reject loc remote).reject remote loc } := by
  rw [after_resendRequest, onResolved, h]

end SocialService
