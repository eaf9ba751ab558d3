/-
# Queries to the DHT over gossip (`ephemera-node/src/dht_query.rs`, `services/dht.rs`)

Every node that holds a key answers a query for it, and every node that sees the answer
caches it.  Messages are broadcast: a node may see any of them, at any time and more than
once, and it may see a message that no node has posted.

A node keeps, beside what the code keeps, the records it has published itself and the
expiries with which the records it holds were first published.  Nothing reads them; they are
there to say what the cache should preserve.

`integrity_iff_meets` is the exact condition on a run under which responses only touch what was
asked for, leave the node's own records alone and never extend a lifetime.
-/
import Ephemera.Dht
import Ephemera.GuardedRun
import Ephemera.HashMap
import Mathlib.Logic.Function.Basic

namespace DhtQuery

open GuardedRun

/-! ## Values on the wire -/

/-- `serde_json` on values, the bytes of a DHT key, and the signature of `key ‖ value` under the
secret of a public key. -/
structure ValueCodec (W : Wire) where
  Value : Type
  /-- `Value::get`. -/
  get : Value → String → Option Value
  asStr : Value → Option String
  ofStr : String → Value
  /-- An object with these fields. -/
  ofFields : List (String × Value) → Value
  toVec : Value → Except String W.Bytes
  fromSlice : W.Bytes → Option Value
  hexOfBytes : W.Bytes → String
  keyOfBytes : List UInt8 → W.Digest
  keyToBytes : W.Digest → List UInt8
  sign : IdentityKey → W.Digest → W.Bytes → List UInt8

variable {W : Wire} (V : ValueCodec W)

/-- `decode_key`. -/
def decodeKey (hex : String) : Option W.Digest :=
  match Hex.decode hex with
  | .ok bytes => if bytes.length = 32 then some (V.keyOfBytes bytes) else none
  | .error _ => none

/-- `payload.get(name).and_then(|v| v.as_str())`. -/
def getStr (payload : V.Value) (name : String) : Option String := (V.get payload name).bind V.asStr

/-! ## The DHT service -/

/-- The text of an error of `put`. -/
def dhtErrorText : DhtError → String
  | .recordTooLarge size max =>
    "record too large: " ++ toString size ++ " bytes (max " ++ toString max ++ ")"
  | .ttlTooLarge ttlSecs maxSecs =>
    "TTL too large: " ++ toString ttlSecs ++ "s (max " ++ toString maxSecs ++ "s)"
  | .expired => "record expired"
  | .storageFull count max =>
    "storage full: " ++ toString count ++ "/" ++ toString max ++ " records"

/-- `build_record`. -/
def buildRecord (key : W.Digest) (value : W.Bytes) (publisher : IdentityKey) (ttlSeconds : UInt32)
    (now : UInt64) : DhtRecord W :=
  { key := key
    value := value
    publisher := publisher
    timestamp := now
    ttlSeconds := ttlSeconds
    signature := V.sign publisher key value }

/-- `DhtNodeService::put`. -/
def put (dht : DhtStorage W) (identity : Except String IdentityKey) (key : W.Digest)
    (value : W.Bytes) (ttlSeconds : UInt32) (now : UInt64) : Except String (DhtStorage W) := do
  let publisher ← identity
  (dht.put (buildRecord V key value publisher ttlSeconds now) now).mapError
    (fun e => "dht put: " ++ dhtErrorText e)

/-- `DhtNodeService::get`: bytes that are no JSON are shown in hexadecimal. -/
def get (dht : DhtStorage W) (key : W.Digest) (now : UInt64) : Option V.Value :=
  (dht.get key now).map fun record =>
    match V.fromSlice record.value with
    | some value => value
    | none => V.ofFields [("raw_hex", V.ofStr (V.hexOfBytes record.value))]

/-! ## A node -/

/-- A node: its DHT storage, the key that the waiter of each pending query asked for, and the
values its waiters were woken with.  `own` are the records it has published itself, and
`copyOf` the expiries of the publications that the record under a key is a copy of. -/
structure DhtNode where
  dht : DhtStorage W
  pending : HashMap String W.Digest
  woken : List (String × V.Value)
  own : W.Digest → StoredRecord W → Prop
  copyOf : W.Digest → UInt64 → Prop

/-- A message on the wire, with the expiries of the publications it is a copy of. -/
structure Posted (W : Wire) where
  payload : W.Bytes
  origins : UInt64 → Prop

/-- The network as a query finds it. -/
inductive Link where
  | offline
  | alone
  | connected (publishes : Bool)

variable {V}

/-- What the records are copies of, after one was put under `key`; a record that is put over
itself stays what it was. -/
def DhtNode.copies (node : DhtNode V) (dht : DhtStorage W) (key : W.Digest)
    (origins : UInt64 → Prop) (k : W.Digest) (expiry : UInt64) : Prop :=
  dht.records.get? k = node.dht.records.get? k ∧ node.copyOf k expiry ∨ k = key ∧ origins expiry

/-- A local store: the node publishes the record with the expiry it has. -/
def DhtNode.store (node : DhtNode V) (identity : Except String IdentityKey) (key : W.Digest)
    (value : W.Bytes) (ttlSeconds : UInt32) (now : UInt64) : DhtNode V :=
  match put V node.dht identity key value ttlSeconds now with
  | .error _ => node
  | .ok dht => { node with
    dht := dht
    own := fun k stored => node.own k stored ∨ k = key ∧ dht.records.get? k = some stored
    copyOf := node.copies dht key
      (fun expiry => ∃ stored, dht.records.get? key = some stored ∧ expiry = stored.expiresAt) }

/-- `query_network_dht_inner` up to the wait: the waiter is registered before the query is
published, and stays registered if that fails. -/
def DhtNode.queryNetwork (node : DhtNode V) (nodeId : String) (key : W.Digest)
    (idBytes : List UInt8) (skipLocal : Bool) (link : Link) (now : UInt64) :
    DhtNode V × Option W.Bytes :=
  if !skipLocal && (get V node.dht key now).isSome then (node, none)
  else match link with
  | .offline | .alone => (node, none)
  | .connected publishes =>
    let queryId := Hex.encode idBytes
    let query := V.ofFields [("type", V.ofStr "dht_query"),
      ("key", V.ofStr (Hex.encode (V.keyToBytes key))), ("requester", V.ofStr nodeId),
      ("query_id", V.ofStr queryId)]
    ({ node with pending := node.pending.insert queryId key },
      if publishes then (V.toVec query).toOption else none)

/-- The waiter gives up. -/
def DhtNode.timeout (node : DhtNode V) (queryId : String) : DhtNode V :=
  { node with pending := node.pending.erase queryId }

/-- `handle_query`: the key that is answered, and the response. -/
def DhtNode.handleQuery (node : DhtNode V) (nodeId : String) (payload : V.Value) (now : UInt64) :
    Option (W.Digest × W.Bytes) := do
  let keyHex ← getStr V payload "key"
  let requester ← getStr V payload "requester"
  let queryId ← getStr V payload "query_id"
  if requester = nodeId then none
  let key ← decodeKey V keyHex
  let value ← get V node.dht key now
  let bytes ← (V.toVec (V.ofFields [("type", V.ofStr "dht_response"), ("key", V.ofStr keyHex),
    ("value", value), ("responder", V.ofStr nodeId), ("query_id", V.ofStr queryId)])).toOption
  return (key, bytes)

/-- What `handle_response` reads off a payload. -/
structure Response (V : ValueCodec W) where
  key : W.Digest
  value : V.Value
  valueBytes : W.Bytes
  queryId : String

/-- A payload without the three fields, or with a bad key, is dropped. -/
def response? (payload : V.Value) : Option (Response V) := do
  let keyHex ← getStr V payload "key"
  let value ← V.get payload "value"
  let queryId ← getStr V payload "query_id"
  let key ← decodeKey V keyHex
  let valueBytes ← (V.toVec value).toOption
  return ⟨key, value, valueBytes, queryId⟩

/-- The first half of `handle_response`: the value is cached as a record of the node, for as
long as a record may live. -/
def DhtNode.cache (node : DhtNode V) (r : Response V) (identity : Except String IdentityKey)
    (now : UInt64) (origins : UInt64 → Prop) : DhtNode V :=
  match put V node.dht identity r.key r.valueBytes DhtStorage.maxTtlSeconds now with
  | .error _ => node
  | .ok dht => { node with dht := dht, copyOf := node.copies dht r.key origins }

/-- The second half: the waiter of the query is woken. -/
def DhtNode.wake (node : DhtNode V) (r : Response V) : DhtNode V :=
  match node.pending.lookup r.queryId with
  | none => node
  | some _ => { node with
    pending := node.pending.erase r.queryId, woken := node.woken ++ [(r.queryId, r.value)] }

/-- `handle_response`. -/
def DhtNode.handleResponse (node : DhtNode V) (payload : V.Value)
    (identity : Except String IdentityKey) (now : UInt64) (origins : UInt64 → Prop) : DhtNode V :=
  match response? payload with
  | none => node
  | some r => (node.cache r identity now origins).wake r

/-! ## The network -/

/-- The nodes and what has been posted. -/
structure System (N : Type) (V : ValueCodec W) where
  nodes : N → DhtNode V
  wire : List (Posted W)

/-- Where a message comes from: the wire, or somebody who runs other code. -/
inductive Source (W : Wire) where
  | posted (i : ℕ)
  | forged (payload : W.Bytes)

/-- What happens in the network. -/
inductive Op (N : Type) (W : Wire) where
  | store (n : N) (identity : Except String IdentityKey) (key : W.Digest) (value : W.Bytes)
      (ttlSeconds : UInt32) (now : UInt64)
  | remove (n : N) (key : W.Digest)
  | sweep (n : N) (now : UInt64)
  | query (n : N) (key : W.Digest) (idBytes : List UInt8) (skipLocal : Bool) (link : Link)
      (now : UInt64)
  | timeout (n : N) (queryId : String)
  | deliver (n : N) (source : Source W) (identity : Except String IdentityKey) (publishes : Bool)
      (now : UInt64)

namespace System

variable {N : Type} [DecidableEq N]

/-- The message of a delivery. -/
def message? (sys : System N V) : Source W → Option (Posted W)
  | .posted i => sys.wire[i]?
  | .forged payload => some ⟨payload, fun _ => False⟩

/-- The payload of a delivery of a given type. -/
def payload? (V : ValueCodec W) (m : Posted W) (type : String) : Option V.Value :=
  (V.fromSlice m.payload).filter (fun payload => decide (getStr V payload "type" = some type))

/-- One node changes. -/
def setNode (sys : System N V) (n : N) (node : DhtNode V) : System N V :=
  { sys with nodes := Function.update sys.nodes n node }

/-- A message is posted. -/
def post (sys : System N V) (payload : Option W.Bytes) (origins : UInt64 → Prop) : System N V :=
  match payload with
  | none => sys
  | some payload => { sys with wire := sys.wire ++ [⟨payload, origins⟩] }

/-- `dht_query_ingest_loop_services` on one message. -/
def ingest (nodeId : N → String) (sys : System N V) (n : N) (m : Posted W)
    (identity : Except String IdentityKey) (publishes : Bool) (now : UInt64) : System N V :=
  match payload? V m "dht_query" with
  | some payload =>
    match (sys.nodes n).handleQuery (nodeId n) payload now with
    | none => sys
    | some (key, bytes) =>
      sys.post (if publishes then some bytes else none) ((sys.nodes n).copyOf key)
  | none =>
    match payload? V m "dht_response" with
    | some payload => sys.setNode n ((sys.nodes n).handleResponse payload identity now m.origins)
    | none => sys

/-- The network after something has happened. -/
def step (nodeId : N → String) (sys : System N V) : Op N W → System N V
  | .store n identity key value ttlSeconds now =>
    sys.setNode n ((sys.nodes n).store identity key value ttlSeconds now)
  | .remove n key =>
    sys.setNode n { sys.nodes n with dht := (sys.nodes n).dht.remove key }
  | .sweep n now =>
    sys.setNode n { sys.nodes n with dht := (sys.nodes n).dht.sweepExpired now }
  | .query n key idBytes skipLocal link now =>
    let (node, query) := (sys.nodes n).queryNetwork (nodeId n) key idBytes skipLocal link now
    (sys.setNode n node).post query (fun _ => False)
  | .timeout n queryId => sys.setNode n ((sys.nodes n).timeout queryId)
  | .deliver n source identity publishes now =>
    match sys.message? source with
    | none => sys
    | some m => sys.ingest nodeId n m identity publishes now

/-- A network in which nothing has happened yet; every node has its own limits. -/
def new (maxRecords maxRecordSize : N → ℕ) : System N V where
  nodes n := ⟨⟨.empty, maxRecords n, maxRecordSize n⟩, ∅, [], fun _ _ => False, fun _ _ => False⟩
  wire := []

end System

/-! ## What should hold -/

/-- The storage reads differently. -/
def Changed (dht dht' : DhtStorage W) : Prop := ∃ key, dht'.records.get? key ≠ dht.records.get? key

/-- What a response should do to a node: touch nothing unless it answers a pending query for
its key, and leave the records alone that the node has published itself. -/
structure Kept (node node' : DhtNode V) (payload : V.Value) : Prop where
  asked : Changed node.dht node'.dht ∨ node'.woken ≠ node.woken →
    ∃ r, response? payload = some r ∧ node.pending.lookup r.queryId = some r.key
  own : ∀ key stored, node.dht.records.get? key = some stored → node.own key stored →
    node'.dht.records.get? key = some stored

/-- The record that a response is cached as. -/
def storedAs (r : Response V) (publisher : IdentityKey) (now : UInt64) : StoredRecord W :=
  ⟨buildRecord V r.key r.valueBytes publisher DhtStorage.maxTtlSeconds now,
    now + DhtStorage.maxTtlSeconds.toUInt64⟩

/-- The storage takes the record: it is not too large, it has not expired, and there is room. -/
def Takes (dht : DhtStorage W) (r : Response V) (now : UInt64) : Prop :=
  W.len r.valueBytes ≤ dht.maxRecordSize ∧
    ¬now + DhtStorage.maxTtlSeconds.toUInt64 < now ∧
    (dht.records.get? r.key ≠ none ∨ dht.records.rows.length < dht.maxRecords)

/-- **The condition on a response**, with the identity of the node, the time and the expiries of
the publications it is a copy of: the query it names, if pending, asked for its key; if it is
stored over something else, that query is pending and the node has not published what it
overwrites; and if it is stored at all, its publications live for as long as a record may. -/
structure Expected (node : DhtNode V) (r : Response V) (identity : Except String IdentityKey)
    (now : UInt64) (origins : UInt64 → Prop) : Prop where
  pending : ∀ key, node.pending.lookup r.queryId = some key → key = r.key
  stored : ∀ publisher, identity = .ok publisher → Takes node.dht r now →
    node.dht.records.get? r.key ≠ some (storedAs r publisher now) →
      node.pending.lookup r.queryId = some r.key ∧
        ∀ old, node.dht.records.get? r.key = some old → ¬node.own r.key old
  lifetime : ∀ publisher, identity = .ok publisher → Takes node.dht r now →
    ∀ expiry, origins expiry → now + DhtStorage.maxTtlSeconds.toUInt64 ≤ expiry

/-- Nothing is held longer than it was published for. -/
def NoLate (node : DhtNode V) : Prop :=
  ∀ key expiry, node.copyOf key expiry → ∀ t, expiry < t → node.dht.get key t = none

/-! ## One response -/

/-- A put succeeds when the identity is unlocked and the storage takes the record. -/
theorem put_eq_ok_iff {dht dht' : DhtStorage W} {identity : Except String IdentityKey}
    {key : W.Digest} {value : W.Bytes} {ttlSeconds : UInt32} {now : UInt64} :
    put V dht identity key value ttlSeconds now = .ok dht' ↔
      ∃ publisher, identity = .ok publisher ∧ W.len value ≤ dht.maxRecordSize ∧
        ttlSeconds ≤ DhtStorage.maxTtlSeconds ∧ ¬now + ttlSeconds.toUInt64 < now ∧
        (dht.records.get? key ≠ none ∨ dht.records.rows.length < dht.maxRecords) ∧
        dht' = { dht with
          records := dht.records.insertOrReplace key
            ⟨buildRecord V key value publisher ttlSeconds now, now + ttlSeconds.toUInt64⟩ } := by
  cases identity with
  | error e =>
    refine iff_of_false ?_ ?_
    · intro h
      cases h
    · rintro ⟨publisher, h, -⟩
      cases h
  | ok publisher =>
    have hput : put V dht (.ok publisher) key value ttlSeconds now = .ok dht' ↔
        dht.put (buildRecord V key value publisher ttlSeconds now) now = .ok dht' := by
      show (dht.put (buildRecord V key value publisher ttlSeconds now) now).mapError
        (fun e => "dht put: " ++ dhtErrorText e) = .ok dht' ↔ _
      cases dht.put (buildRecord V key value publisher ttlSeconds now) now with
      | error e => exact iff_of_false (by simp [Except.mapError]) (by simp)
      | ok dht₁ => simp [Except.mapError]
    rw [hput, DhtStorage.put_eq_ok_iff]
    constructor
    · exact fun h => ⟨publisher, rfl, h⟩
    · rintro ⟨publisher', hpub, h⟩
      obtain rfl := Except.ok.inj hpub
      exact h

/-- The same for a response. -/
theorem put_response_eq_ok {dht dht' : DhtStorage W} {r : Response V}
    {identity : Except String IdentityKey} {now : UInt64} :
    put V dht identity r.key r.valueBytes DhtStorage.maxTtlSeconds now = .ok dht' ↔
      ∃ publisher, identity = .ok publisher ∧ Takes dht r now ∧
        dht' = { dht with
          records := dht.records.insertOrReplace r.key (storedAs r publisher now) } := by
  rw [put_eq_ok_iff]
  constructor
  · rintro ⟨publisher, hidentity, hsize, -, hlive, hroom, hdht⟩
    exact ⟨publisher, hidentity, ⟨hsize, hlive, hroom⟩, hdht⟩
  · rintro ⟨publisher, hidentity, ⟨hsize, hlive, hroom⟩, hdht⟩
    exact ⟨publisher, hidentity, hsize, UInt32.le_refl _, hlive, hroom, hdht⟩

variable {node : DhtNode V} {r : Response V} {identity : Except String IdentityKey} {now : UInt64}
  {origins : UInt64 → Prop}

/-- The storage with the response in it. -/
def cachedDht (dht : DhtStorage W) (r : Response V) (publisher : IdentityKey) (now : UInt64) :
    DhtStorage W :=
  { dht with records := dht.records.insertOrReplace r.key (storedAs r publisher now) }

/-- The node with the response in its storage. -/
def DhtNode.cached (node : DhtNode V) (r : Response V) (publisher : IdentityKey) (now : UInt64)
    (origins : UInt64 → Prop) : DhtNode V :=
  { node with
    dht := cachedDht node.dht r publisher now
    copyOf := node.copies (cachedDht node.dht r publisher now) r.key origins }

/-- A response is cached, or it leaves the node as it was. -/
theorem cache_cases (node : DhtNode V) (r : Response V) (identity : Except String IdentityKey)
    (now : UInt64) (origins : UInt64 → Prop) :
    (∃ publisher, identity = .ok publisher ∧ Takes node.dht r now ∧
      node.cache r identity now origins = node.cached r publisher now origins) ∨
    (∀ publisher, identity = .ok publisher → ¬Takes node.dht r now) ∧
      node.cache r identity now origins = node := by
  cases hput : put V node.dht identity r.key r.valueBytes DhtStorage.maxTtlSeconds now with
  | error e =>
    refine Or.inr ⟨?_, ?_⟩
    · intro publisher hidentity htakes
      have hok := put_response_eq_ok.mpr ⟨publisher, hidentity, htakes, rfl⟩
      rw [hput] at hok
      cases hok
    · rw [DhtNode.cache, hput]
  | ok dht =>
    obtain ⟨publisher, hidentity, htakes, rfl⟩ := put_response_eq_ok.mp hput
    refine Or.inl ⟨publisher, hidentity, htakes, ?_⟩
    rw [DhtNode.cache, hput]
    rfl

/-- What is under each key once a response is cached. -/
theorem get?_cached (node : DhtNode V) (r : Response V) (publisher : IdentityKey) (now : UInt64)
    (origins : UInt64 → Prop) (key : W.Digest) :
    (node.cached r publisher now origins).dht.records.get? key
      = if key = r.key then some (storedAs r publisher now) else node.dht.records.get? key :=
  SqlTable.get?_insertOrReplace _ _ _ _

/-- Waking a waiter touches neither the storage nor what is known of its records. -/
theorem wake_keeps (node : DhtNode V) (r : Response V) :
    (node.wake r).dht = node.dht ∧ (node.wake r).own = node.own ∧
      (node.wake r).copyOf = node.copyOf := by
  unfold DhtNode.wake
  split
  · exact ⟨rfl, rfl, rfl⟩
  · exact ⟨rfl, rfl, rfl⟩

/-- A waiter is woken when the query is pending. -/
theorem woken_wake_iff (node : DhtNode V) (r : Response V) :
    (node.wake r).woken ≠ node.woken ↔ node.pending.lookup r.queryId ≠ none := by
  unfold DhtNode.wake
  split
  · rename_i hnone
    exact iff_of_false (fun h => h rfl) (fun h => h hnone)
  · rename_i hsome
    refine iff_of_true ?_ ?_
    · intro h
      simpa using congrArg List.length h
    · rw [hsome]
      exact Option.some_ne_none _

/-- The storage reads differently when the response is stored over something else. -/
theorem changed_cached_iff {publisher : IdentityKey} :
    Changed node.dht (node.cached r publisher now origins).dht ↔
      node.dht.records.get? r.key ≠ some (storedAs r publisher now) := by
  constructor
  · rintro ⟨key, hkey⟩ hsame
    rw [get?_cached] at hkey
    split_ifs at hkey with heq
    · rw [heq, hsame] at hkey
      exact hkey rfl
    · exact hkey rfl
  · intro hother
    refine ⟨r.key, ?_⟩
    rw [get?_cached, if_pos rfl]
    exact Ne.symm hother

theorem handleResponse_eq {payload : V.Value} (h : response? payload = some r) :
    node.handleResponse payload identity now origins
      = (node.cache r identity now origins).wake r := by
  rw [DhtNode.handleResponse, h]

/-- A cached response leaves the node's own records alone when it does not overwrite one of
them with something else. -/
theorem own_cached_iff {publisher : IdentityKey} :
    (∀ key stored, node.dht.records.get? key = some stored → node.own key stored →
        (node.cached r publisher now origins).dht.records.get? key = some stored) ↔
      (node.dht.records.get? r.key ≠ some (storedAs r publisher now) →
        ∀ old, node.dht.records.get? r.key = some old → ¬node.own r.key old) := by
  constructor
  · intro hown hother old hold hmine
    have hkept := hown r.key old hold hmine
    rw [get?_cached, if_pos rfl] at hkept
    exact hother (hold.trans hkept.symm)
  · intro hstored key old hold hmine
    rw [get?_cached]
    split_ifs with hkey
    · subst hkey
      by_contra hother
      have hne : node.dht.records.get? r.key ≠ some (storedAs r publisher now) := by
        rw [hold]
        exact fun heq => hother heq.symm
      exact hstored hne old hold hmine
    · exact hold

/-- When waking the waiter leaves alone what it should, on a node that differs from the one
before in its storage only. -/
theorem kept_wake_iff {payload : V.Value} (h : response? payload = some r) {node' : DhtNode V}
    (hpending : node'.pending = node.pending) (hwoken : node'.woken = node.woken) :
    Kept node (node'.wake r) payload ↔
      (∀ key, node.pending.lookup r.queryId = some key → key = r.key) ∧
      (Changed node.dht node'.dht → node.pending.lookup r.queryId = some r.key) ∧
      ∀ key stored, node.dht.records.get? key = some stored → node.own key stored →
        node'.dht.records.get? key = some stored := by
  -- the query of the response is the only one it can have answered
  have hasked : (∃ r', response? payload = some r' ∧ node.pending.lookup r'.queryId = some r'.key) ↔
      node.pending.lookup r.queryId = some r.key := by
    rw [h]
    constructor
    · rintro ⟨r', hr', hlookup⟩
      rw [Option.some.inj hr']
      exact hlookup
    · exact fun hlookup => ⟨r, rfl, hlookup⟩
  have hwake : (node'.wake r).woken ≠ node.woken ↔ node.pending.lookup r.queryId ≠ none := by
    rw [← hwoken, woken_wake_iff, hpending]
  have hdht := (wake_keeps node' r).1
  constructor
  · rintro ⟨hask, hown⟩
    rw [hdht, hwake, hasked] at hask
    rw [hdht] at hown
    refine ⟨fun key hkey => ?_, fun hchanged => hask (Or.inl hchanged), hown⟩
    have hsame := hask (Or.inr (by rw [hkey]; exact Option.some_ne_none _))
    rw [hkey, Option.some.injEq] at hsame
    exact hsame
  · rintro ⟨hkeys, hchanged, hown⟩
    refine ⟨?_, ?_⟩
    · rw [hdht, hwake, hasked]
      rintro (hother | hsome)
      · exact hchanged hother
      · obtain ⟨key, hkey⟩ := Option.ne_none_iff_exists'.mp hsome
        rw [hkey, hkeys key hkey]
    · rw [hdht]
      exact hown

/-- When a response leaves alone what it should, as far as the query and the records of the
node are concerned. -/
theorem kept_handleResponse_iff {payload : V.Value} (h : response? payload = some r) :
    Kept node (node.handleResponse payload identity now origins) payload ↔
      (∀ key, node.pending.lookup r.queryId = some key → key = r.key) ∧
      ∀ publisher, identity = .ok publisher → Takes node.dht r now →
        node.dht.records.get? r.key ≠ some (storedAs r publisher now) →
          node.pending.lookup r.queryId = some r.key ∧
            ∀ old, node.dht.records.get? r.key = some old → ¬node.own r.key old := by
  rw [handleResponse_eq h]
  rcases cache_cases node r identity now origins with
    ⟨publisher, hidentity, htakes, hcache⟩ | ⟨hnot, hcache⟩
  · have hpending : (node.cached r publisher now origins).pending = node.pending := rfl
    rw [hcache, kept_wake_iff h hpending rfl, changed_cached_iff, own_cached_iff]
    refine and_congr_right (fun _ => ⟨?_, fun hstored => ?_⟩)
    · rintro ⟨hasked, hown⟩ publisher' hidentity' _ hother
      obtain rfl := Except.ok.inj (hidentity.symm.trans hidentity')
      exact ⟨hasked hother, hown hother⟩
    · have hcached := hstored publisher hidentity htakes
      exact ⟨fun hother => (hcached hother).1, fun hother => (hcached hother).2⟩
  · rw [hcache, kept_wake_iff h rfl rfl]
    refine and_congr_right (fun _ => ⟨fun _ publisher hidentity htakes => ?_, fun _ => ?_⟩)
    · exact absurd htakes (hnot publisher hidentity)
    · refine ⟨?_, fun key stored hstored _ => hstored⟩
      rintro ⟨key, hkey⟩
      exact absurd rfl hkey

/-- A record under a key is readable until it expires. -/
theorem get_eq_none_iff {dht : DhtStorage W} {key : W.Digest} {t : UInt64} :
    dht.get key t = none ↔ ∀ stored, dht.records.get? key = some stored → stored.expiresAt < t := by
  rw [DhtStorage.get]
  cases dht.records.get? key with
  | none => simp
  | some stored => simp

/-- When a response does not extend a lifetime. -/
theorem noLate_handleResponse_iff (hnode : NoLate node) {payload : V.Value}
    (h : response? payload = some r) :
    NoLate (node.handleResponse payload identity now origins) ↔
      ∀ publisher, identity = .ok publisher → Takes node.dht r now →
        ∀ expiry, origins expiry → now + DhtStorage.maxTtlSeconds.toUInt64 ≤ expiry := by
  rw [handleResponse_eq h]
  rcases cache_cases node r identity now origins with
    ⟨publisher, hidentity, htakes, hcache⟩ | ⟨hnot, hcache⟩
  · rw [hcache]
    obtain ⟨hdht, -, hcopy⟩ := wake_keeps (node.cached r publisher now origins) r
    constructor
    · intro hlate publisher' _ _ expiry horigin
      by_contra hlong
      rw [UInt64.not_le] at hlong
      have hgone := hlate r.key expiry (by rw [hcopy]; exact Or.inr ⟨rfl, horigin⟩) _ hlong
      rw [hdht, get_eq_none_iff] at hgone
      have hself := hgone (storedAs r publisher now) (by rw [get?_cached, if_pos rfl])
      exact UInt64.lt_irrefl _ hself
    · intro hlife key expiry horigin t ht
      rw [hcopy] at horigin
      rw [hdht, get_eq_none_iff]
      intro stored hstored
      rcases horigin with ⟨hsame, hold⟩ | ⟨rfl, hnew⟩
      · have hgone := hnode key expiry hold t ht
        exact get_eq_none_iff.mp hgone stored (hsame ▸ hstored)
      · rw [get?_cached, if_pos rfl, Option.some.injEq] at hstored
        rw [← hstored]
        exact UInt64.lt_of_le_of_lt (hlife publisher hidentity htakes expiry hnew) ht
  · rw [hcache]
    obtain ⟨hdht, -, hcopy⟩ := wake_keeps node r
    refine iff_of_true ?_ ?_
    · intro key expiry horigin t ht
      rw [hcopy] at horigin
      rw [hdht]
      exact hnode key expiry horigin t ht
    · intro publisher hidentity htakes
      exact absurd htakes (hnot publisher hidentity)

/-! ## Local operations -/

/-- A record that the node publishes itself lives exactly as long as it was published for. -/
theorem NoLate.store (h : NoLate node) (identity : Except String IdentityKey) (key : W.Digest)
    (value : W.Bytes) (ttlSeconds : UInt32) (now : UInt64) :
    NoLate (node.store identity key value ttlSeconds now) := by
  unfold DhtNode.store
  cases put V node.dht identity key value ttlSeconds now with
  | error e => exact h
  | ok dht =>
    intro k expiry horigin t ht
    refine get_eq_none_iff.mpr ?_
    intro stored hstored
    rcases horigin with ⟨hsame, hold⟩ | ⟨rfl, stored', hstored', rfl⟩
    · exact get_eq_none_iff.mp (h k expiry hold t ht) stored (hsame ▸ hstored)
    · rw [Option.some.inj (hstored.symm.trans hstored')]
      exact ht

/-- Deleting records leaves nothing longer. -/
theorem NoLate.deleteWhere (h : NoLate node) (p : W.Digest → StoredRecord W → Bool) :
    NoLate { node with
      dht := { node.dht with records := node.dht.records.deleteWhere p } } := by
  intro key expiry horigin t ht
  refine get_eq_none_iff.mpr ?_
  intro stored hstored
  simp only [SqlTable.get?_deleteWhere, Option.filter_eq_some_iff] at hstored
  exact get_eq_none_iff.mp (h key expiry horigin t ht) stored hstored.1

/-- A query leaves the storage as it was. -/
theorem NoLate.queryNetwork (h : NoLate node) (nodeId : String) (key : W.Digest)
    (idBytes : List UInt8) (skipLocal : Bool) (link : Link) (now : UInt64) :
    NoLate (node.queryNetwork nodeId key idBytes skipLocal link now).1 := by
  unfold DhtNode.queryNetwork
  split
  · exact h
  · cases link with
    | offline => exact h
    | alone => exact h
    | connected publishes => exact h

/-! ## Runs -/

namespace System

variable {N : Type} [DecidableEq N]

/-- The delivery is of a `dht_response`. -/
def Receives (sys : System N V) (source : Source W) (m : Posted W) (payload : V.Value) : Prop :=
  sys.message? source = some m ∧ payload? V m "dht_response" = some payload

/-- What a step should do: a response that is delivered keeps what it should. -/
def StepOk (nodeId : N → String) (sys : System N V) (op : Op N W) : Prop :=
  match op with
  | .deliver n source _ _ _ => ∀ m payload, sys.Receives source m payload →
      Kept (sys.nodes n) ((step nodeId sys op).nodes n) payload
  | _ => True

/-- No node holds anything longer than it was published for. -/
def Safe (sys : System N V) : Prop := ∀ n, NoLate (sys.nodes n)

/-- **The condition on a step**: a response that is delivered is expected. -/
def Careful (sys : System N V) : Op N W → Prop
  | .deliver n source identity _ now => ∀ m payload r, sys.Receives source m payload →
      response? payload = some r → Expected (sys.nodes n) r identity now m.origins
  | _ => True

omit [DecidableEq N] in
@[simp] theorem nodes_post (sys : System N V) (payload : Option W.Bytes)
    (origins : UInt64 → Prop) : (sys.post payload origins).nodes = sys.nodes := by
  cases payload <;> rfl

theorem nodes_setNode (sys : System N V) (n : N) (node : DhtNode V) (n' : N) :
    (sys.setNode n node).nodes n' = if n' = n then node else sys.nodes n' :=
  Function.update_apply _ _ _ _

/-- A query changes the node that asks. -/
theorem nodes_step_query (nodeId : N → String) (sys : System N V) (n : N) (key : W.Digest)
    (idBytes : List UInt8) (skipLocal : Bool) (link : Link) (now : UInt64) (n' : N) :
    (step nodeId sys (.query n key idBytes skipLocal link now)).nodes n'
      = if n' = n then ((sys.nodes n).queryNetwork (nodeId n) key idBytes skipLocal link now).1
        else sys.nodes n' := by
  rw [step, nodes_post, nodes_setNode]

/-- The network stays safe when the one node that changes does. -/
theorem safe_setNode_iff {sys : System N V} (h : Safe sys) {n : N} {node : DhtNode V} :
    Safe (sys.setNode n node) ↔ NoLate node := by
  constructor
  · intro hsafe
    have hn := hsafe n
    rw [nodes_setNode, if_pos rfl] at hn
    exact hn
  · intro hnode n'
    rw [nodes_setNode]
    split_ifs
    · exact hnode
    · exact h n'

omit [DecidableEq N] in
/-- A payload has one type. -/
theorem payload?_unique {m : Posted W} {payload payload' : V.Value} {type type' : String}
    (h : payload? V m type = some payload) (h' : payload? V m type' = some payload') :
    type = type' ∧ payload = payload' := by
  rw [payload?, Option.filter_eq_some_iff] at h h'
  obtain ⟨hvalue, htype⟩ := h
  obtain ⟨hvalue', htype'⟩ := h'
  obtain rfl := Option.some.inj (hvalue.symm.trans hvalue')
  have htypes := (of_decide_eq_true htype).symm.trans (of_decide_eq_true htype')
  exact ⟨Option.some.inj htypes, rfl⟩

/-- A response changes the node it is delivered to. -/
theorem step_of_receives {nodeId : N → String} {sys : System N V} {n : N} {source : Source W}
    {m : Posted W} {payload : V.Value} (h : sys.Receives source m payload)
    (identity : Except String IdentityKey) (publishes : Bool) (now : UInt64) :
    step nodeId sys (.deliver n source identity publishes now)
      = sys.setNode n ((sys.nodes n).handleResponse payload identity now m.origins) := by
  rw [step, h.1]
  simp only
  rw [ingest]
  cases hquery : payload? V m "dht_query" with
  | some payload' => exact absurd (payload?_unique h.2 hquery).1 (by decide)
  | none => rw [h.2]

/-- Any other message changes no node. -/
theorem nodes_step_of_not_receives {nodeId : N → String} {sys : System N V} {n : N}
    {source : Source W} (h : ¬∃ m payload, sys.Receives source m payload)
    (identity : Except String IdentityKey) (publishes : Bool) (now : UInt64) :
    (step nodeId sys (.deliver n source identity publishes now)).nodes = sys.nodes := by
  rw [step]
  cases hmessage : sys.message? source with
  | none => rfl
  | some m =>
    simp only
    have hother : payload? V m "dht_response" = none := by
      rw [Option.eq_none_iff_forall_ne_some]
      exact fun payload hpayload => h ⟨m, payload, hmessage, hpayload⟩
    rw [ingest, hother]
    cases payload? V m "dht_query" with
    | none => rfl
    | some payload =>
      simp only
      cases (sys.nodes n).handleQuery (nodeId n) payload now with
      | none => rfl
      | some answer => exact nodes_post _ _ _

/-- What a delivery has to satisfy. -/
theorem deliver_iff {nodeId : N → String} {sys : System N V} (h : Safe sys) (n : N)
    (source : Source W) (identity : Except String IdentityKey) (publishes : Bool) (now : UInt64) :
    (StepOk nodeId sys (.deliver n source identity publishes now) ∧
      Safe (step nodeId sys (.deliver n source identity publishes now))) ↔
    Careful sys (.deliver n source identity publishes now) := by
  by_cases hreceives : ∃ m payload, sys.Receives source m payload
  · obtain ⟨m, payload, hm⟩ := hreceives
    have hunique : ∀ m' payload', sys.Receives source m' payload' → m' = m ∧
        payload' = payload := by
      rintro m' payload' ⟨hm', hpayload'⟩
      obtain rfl := Option.some.inj (hm'.symm.trans hm.1)
      exact ⟨rfl, (payload?_unique hpayload' hm.2).2⟩
    have hok : StepOk nodeId sys (.deliver n source identity publishes now) ↔
        Kept (sys.nodes n)
          ((sys.nodes n).handleResponse payload identity now m.origins) payload := by
      have hnode : (step nodeId sys (.deliver n source identity publishes now)).nodes n
          = (sys.nodes n).handleResponse payload identity now m.origins := by
        rw [step_of_receives hm, nodes_setNode, if_pos rfl]
      rw [← hnode]
      constructor
      · exact fun hstep => hstep m payload hm
      · intro hkept m' payload' hm'
        obtain ⟨rfl, rfl⟩ := hunique m' payload' hm'
        exact hkept
    rw [hok, step_of_receives hm, safe_setNode_iff h]
    cases hr : response? payload with
    | none =>
      have hsame : (sys.nodes n).handleResponse payload identity now m.origins = sys.nodes n := by
        rw [DhtNode.handleResponse, hr]
      rw [hsame]
      refine iff_of_true ⟨⟨?_, fun _ _ hold _ => hold⟩, h n⟩ ?_
      · rintro (⟨key, hkey⟩ | hwoken)
        · exact absurd rfl hkey
        · exact absurd rfl hwoken
      · intro m' payload' r hm' hr'
        rw [(hunique m' payload' hm').2, hr] at hr'
        cases hr'
    | some r =>
      rw [kept_handleResponse_iff hr, noLate_handleResponse_iff (h n) hr]
      constructor
      · rintro ⟨⟨hpending, hstored⟩, hlife⟩ m' payload' r' hm' hr'
        obtain ⟨rfl, rfl⟩ := hunique m' payload' hm'
        obtain rfl := Option.some.inj (hr'.symm.trans hr)
        exact ⟨hpending, hstored, hlife⟩
      · intro hcareful
        obtain ⟨hpending, hstored, hlife⟩ := hcareful m payload r hm hr
        exact ⟨⟨hpending, hstored⟩, hlife⟩
  · refine iff_of_true ⟨?_, ?_⟩ ?_
    · exact fun m payload hm => absurd ⟨m, payload, hm⟩ hreceives
    · intro n'
      rw [nodes_step_of_not_receives hreceives]
      exact h n'
    · exact fun m payload _ hm => absurd ⟨m, payload, hm⟩ hreceives

/-- What a step has to satisfy. -/
theorem step_iff {nodeId : N → String} {sys : System N V} (h : Safe sys) (op : Op N W) :
    (StepOk nodeId sys op ∧ Safe (step nodeId sys op)) ↔ Careful sys op := by
  cases op with
  | store n identity key value ttlSeconds now =>
    refine iff_of_true ⟨trivial, (safe_setNode_iff h).mpr ?_⟩ trivial
    exact (h n).store identity key value ttlSeconds now
  | remove n key =>
    exact iff_of_true ⟨trivial, (safe_setNode_iff h).mpr ((h n).deleteWhere _)⟩ trivial
  | sweep n now =>
    exact iff_of_true ⟨trivial, (safe_setNode_iff h).mpr ((h n).deleteWhere _)⟩ trivial
  | query n key idBytes skipLocal link now =>
    refine iff_of_true ⟨trivial, ?_⟩ trivial
    intro n'
    rw [nodes_step_query]
    split_ifs
    · exact (h n).queryNetwork (nodeId n) key idBytes skipLocal link now
    · exact h n'
  | timeout n queryId => exact iff_of_true ⟨trivial, (safe_setNode_iff h).mpr (h n)⟩ trivial
  | deliver n source identity publishes now => exact deliver_iff h n source identity publishes now

omit [DecidableEq N] in
theorem safe_new (V : ValueCodec W) (maxRecords maxRecordSize : N → ℕ) :
    Safe (new maxRecords maxRecordSize : System N V) := by
  intro n key expiry horigin
  cases horigin

/-- **Exactly when the cache keeps its integrity.**  In a run of any number of nodes, every
response that is delivered keeps what it should and no state holds a record longer than it was
published for, if and only if every response that is delivered is expected. -/
theorem integrity_iff_meets (nodeId : N → String) (V : ValueCodec W)
    (maxRecords maxRecordSize : N → ℕ) (ops : List (Op N W)) :
    ((∀ l₁ op l₂, ops = l₁ ++ op :: l₂ →
        StepOk nodeId (run (step nodeId) (new maxRecords maxRecordSize : System N V) l₁) op) ∧
      ∀ l₁ l₂, ops = l₁ ++ l₂ →
        Safe (run (step nodeId) (new maxRecords maxRecordSize : System N V) l₁)) ↔
    Meets (step nodeId) Careful (new maxRecords maxRecordSize : System N V) ops := by
  constructor
  · rintro ⟨hok, hsafe⟩
    refine meets_iff_forall_split.mpr (fun l₁ op l₂ heq => ?_)
    have hafter := hsafe (l₁ ++ [op]) l₂ (by rw [heq, List.append_assoc, List.singleton_append])
    rw [run_append, run_cons, run_nil] at hafter
    exact (step_iff (hsafe l₁ _ heq) op).mp ⟨hok l₁ op l₂ heq, hafter⟩
  · intro h
    have hsafe : ∀ l₁ l₂, ops = l₁ ++ l₂ →
        Safe (run (step nodeId) (new maxRecords maxRecordSize : System N V) l₁) := by
      intro l₁ l₂ heq
      rw [heq, meets_append] at h
      refine run_invariant ?_ (safe_new V maxRecords maxRecordSize) h.1
      exact fun sys op hsys hop => ((step_iff hsys op).mpr hop).2
    refine ⟨fun l₁ op l₂ heq => ?_, hsafe⟩
    exact ((step_iff (hsafe l₁ _ heq) op).mpr (meets_iff_forall_split.mp h l₁ op l₂ heq)).1

end System

/-! ## A relay -/

/-- A record that the node stores is its own, and a copy of its own publication. -/
theorem store_eq {key : W.Digest} {value : W.Bytes} {ttlSeconds : UInt32} {dht : DhtStorage W}
    {stored : StoredRecord W} (hput : put V node.dht identity key value ttlSeconds now = .ok dht)
    (hstored : dht.records.get? key = some stored) :
    (node.store identity key value ttlSeconds now).dht = dht ∧
      (node.store identity key value ttlSeconds now).own key stored ∧
      (node.store identity key value ttlSeconds now).copyOf key stored.expiresAt := by
  rw [DhtNode.store, hput]
  exact ⟨rfl, Or.inr ⟨rfl, hstored⟩, Or.inr ⟨rfl, stored, hstored, rfl⟩⟩

namespace System

variable {N : Type} [DecidableEq N]

/-- An answer is posted with what the record under the key is a copy of. -/
theorem wire_of_answer {nodeId : N → String} {sys : System N V} {n : N} {source : Source W}
    {m : Posted W} {payload : V.Value} {key : W.Digest} {bytes : W.Bytes}
    (hmessage : sys.message? source = some m) (hpayload : payload? V m "dht_query" = some payload)
    (hanswer : (sys.nodes n).handleQuery (nodeId n) payload now = some (key, bytes)) :
    (step nodeId sys (.deliver n source identity true now)).wire
      = sys.wire ++ [⟨bytes, (sys.nodes n).copyOf key⟩] := by
  rw [step, hmessage]
  simp only
  rw [ingest, hpayload]
  simp only
  rw [hanswer]
  rfl

omit [DecidableEq N] in
/-- A record that outlives a publication it is a copy of. -/
theorem not_safe_of_late {sys : System N V} {n : N} {key : W.Digest} {expiry : UInt64}
    {stored : StoredRecord W} (hcopy : (sys.nodes n).copyOf key expiry)
    (hstored : (sys.nodes n).dht.records.get? key = some stored)
    (hlate : expiry < stored.expiresAt) : ¬Safe sys := by
  intro hsafe
  have hgone := hsafe n key expiry hcopy stored.expiresAt hlate
  exact UInt64.lt_irrefl _ (get_eq_none_iff.mp hgone stored hstored)

end System

/-! ## Examples -/

/-- Values for the examples: strings and flat objects of strings. -/
inductive FlatValue where
  | str (s : String)
  | obj (fields : List (String × String))
  deriving DecidableEq

/-- The string of a value, if it is one. -/
def FlatValue.asStr : FlatValue → Option String
  | .str s => some s
  | .obj _ => none

/-- A codec for the examples. -/
def flatCodec : ValueCodec Wire.symbolic where
  Value := FlatValue
  get
    | .str _, _ => none
    | .obj fields, name => (fields.lookup name).map .str
  asStr := FlatValue.asStr
  ofStr := .str
  ofFields fields := .obj (fields.filterMap (fun f => f.2.asStr.map (fun s => (f.1, s))))
  toVec
    | .str s => .ok (.str s)
    | .obj fields => .ok (.json (fields.map (fun f => (f.1, .str f.2))))
  fromSlice
    | .str s => some (.str s)
    | .json fields => some (.obj (fields.filterMap (fun f => f.2.asStr.map (fun s => (f.1, s)))))
    | _ => none
  hexOfBytes _ := ""
  keyOfBytes := .raw
  keyToBytes
    | .raw bytes => bytes
    | _ => []
  sign _ _ _ := []

instance : DecidableEq flatCodec.Value := inferInstanceAs (DecidableEq FlatValue)

namespace System

/-- The names of two nodes. -/
def twoNodes (n : Fin 2) : String := if n = 0 then "aa" else "bb"

/-- A key, a profile under it, and the owner of the first node. -/
def profileKey : List UInt8 := List.replicate 32 7

def profileDigest : Wire.symbolic.Digest := Wire.SymBytes.raw profileKey

def profile : Wire.symbolic.Bytes := .str "profile"

def owner : IdentityKey := List.replicate 32 1

/-- Two nodes with room for records. -/
def empty : System (Fin 2) flatCodec :=
  new (fun _ => 1000) (fun _ => DhtStorage.defaultMaxRecordSize)

/-- A response that nobody asked for. -/
def forgedResponse : Wire.symbolic.Bytes :=
  .json [("type", .str "dht_response"), ("key", .str (Hex.encode profileKey)),
    ("value", .str "forged"), ("responder", .str "cc"), ("query_id", .str "00")]

/-- The owner of the first node publishes a profile for 30 days at time 1000. -/
def published : Op (Fin 2) Wire.symbolic :=
  .store 0 (.ok owner) profileDigest profile DhtStorage.maxTtlSeconds 1000

/-- The second node asks for it at time 2000, the first answers, and the second takes the answer. -/
def relayed : List (Op (Fin 2) Wire.symbolic) :=
  [published, .query 1 profileDigest [1] false (.connected true) 2000,
    .deliver 0 (.posted 0) (.ok owner) true 2000, .deliver 1 (.posted 1) (.ok owner) true 2000]

/-- What a node holds under the key of the profile, and until when. -/
def profileAt (ops : List (Op (Fin 2) Wire.symbolic)) (n : Fin 2) :
    Option (Wire.symbolic.Bytes × UInt64) :=
  (((run (step twoNodes) empty ops).nodes n).dht.records.get? profileDigest).map
    (fun stored => (stored.record.value, stored.expiresAt))

/-- The record of the profile. -/
def profileRecord : StoredRecord Wire.symbolic :=
  ⟨buildRecord flatCodec profileDigest profile owner DhtStorage.maxTtlSeconds 1000,
    1000 + DhtStorage.maxTtlSeconds.toUInt64⟩

/-- The storage of the first node once it has published the profile. -/
def publishedDht : DhtStorage Wire.symbolic :=
  { (empty.nodes 0).dht with
    records := (empty.nodes 0).dht.records.insertOrReplace profileDigest profileRecord }

theorem get?_publishedDht : publishedDht.records.get? profileDigest = some profileRecord :=
  (SqlTable.get?_insertOrReplace _ _ _ _).trans (if_pos rfl)

/-- Publishing the profile works. -/
theorem put_profile : put flatCodec (empty.nodes 0).dht (.ok owner) profileDigest profile
    DhtStorage.maxTtlSeconds 1000 = .ok publishedDht :=
  put_eq_ok_iff.mpr ⟨owner, rfl, by decide, by decide, by decide, Or.inr (by decide), rfl⟩

/-- The first node then holds the profile as its own. -/
theorem published_eq :
    ((run (step twoNodes) empty [published]).nodes 0).dht = publishedDht ∧
      ((run (step twoNodes) empty [published]).nodes 0).own profileDigest profileRecord ∧
      ((run (step twoNodes) empty [published]).nodes 0).copyOf profileDigest
        profileRecord.expiresAt :=
  store_eq put_profile get?_publishedDht

/-- The network before the answer, with the query on the wire, and after it. -/
def asked : System (Fin 2) flatCodec :=
  run (step twoNodes) empty [published, .query 1 profileDigest [1] false (.connected true) 2000]

def answered : System (Fin 2) flatCodec :=
  step twoNodes asked (.deliver 0 (.posted 0) (.ok owner) true 2000)

/-- The answer. -/
def answer : Wire.symbolic.Bytes :=
  .json [("type", .str "dht_response"), ("key", .str (Hex.encode profileKey)),
    ("value", .str "profile"), ("responder", .str "aa"), ("query_id", .str "01")]

/-- What the nodes read off the query and the answer. -/
def queryValue : flatCodec.Value :=
  FlatValue.obj [("type", "dht_query"), ("key", Hex.encode profileKey), ("requester", "bb"),
    ("query_id", "01")]

def answerValue : flatCodec.Value :=
  FlatValue.obj [("type", "dht_response"), ("key", Hex.encode profileKey), ("value", "profile"),
    ("responder", "aa"), ("query_id", "01")]

/-- The query does not touch the first node. -/
theorem nodes_asked : asked.nodes 0 = (run (step twoNodes) empty [published]).nodes 0 := by
  have hstep : asked = step twoNodes (run (step twoNodes) empty [published])
      (.query 1 profileDigest [1] false (.connected true) 2000) := rfl
  rw [hstep, nodes_step_query, if_neg (by decide)]

/-- The answer is posted as a copy of the profile. -/
theorem answer_posted : ∃ origins, answered.message? (.posted 1) = some ⟨answer, origins⟩ ∧
    origins profileRecord.expiresAt := by
  obtain ⟨m, hwire⟩ : ∃ m, asked.wire = [m] := List.length_eq_one_iff.mp (by decide +kernel)
  have hquery : asked.wire.map (fun m => payload? flatCodec m "dht_query") = [some queryValue] := by
    decide +kernel
  rw [hwire] at hquery
  have hmessage : asked.message? (.posted 0) = some m := by
    rw [message?, hwire]
    rfl
  have hanswer : (asked.nodes 0).handleQuery (twoNodes 0) queryValue 2000
      = some (profileDigest, answer) := by
    decide +kernel
  have hposted : answered.wire
      = asked.wire ++ [⟨answer, (asked.nodes 0).copyOf profileDigest⟩] :=
    wire_of_answer hmessage (List.singleton_inj.mp hquery) hanswer
  refine ⟨(asked.nodes 0).copyOf profileDigest, ?_, ?_⟩
  · rw [message?, hposted, hwire]
    rfl
  · rw [nodes_asked]
    exact published_eq.2.2

/-- A response that nobody asked for overwrites the profile. -/
theorem not_stepOk_forged : ¬StepOk twoNodes (run (step twoNodes) empty [published])
    (.deliver 0 (.forged forgedResponse) (.ok owner) true 2000) := by
  intro hok
  have hreceives : (run (step twoNodes) empty [published]).Receives (.forged forgedResponse)
      ⟨forgedResponse, fun _ => False⟩
      (.obj [("type", "dht_response"), ("key", Hex.encode profileKey), ("value", "forged"),
        ("responder", "cc"), ("query_id", "00")]) :=
    ⟨rfl, by decide +kernel⟩
  obtain ⟨hdht, hown, -⟩ := published_eq
  have hkept := (hok _ _ hreceives).own _ _ (by rw [hdht, get?_publishedDht]) hown
  have hafter : profileAt [published, .deliver 0 (.forged forgedResponse) (.ok owner) true 2000] 0
      = some (profile, 2593000) := congrArg (Option.map _) hkept
  revert hafter
  decide +kernel

/-- The second node takes the answer over as a copy of the profile. -/
theorem copyOf_relayed : ((run (step twoNodes) empty relayed).nodes 1).copyOf profileDigest
    profileRecord.expiresAt := by
  obtain ⟨origins, hmessage, horigin⟩ := answer_posted
  have hpayload : (flatCodec.fromSlice answer).filter
      (fun payload => decide (getStr flatCodec payload "type" = some "dht_response"))
      = some answerValue := by
    decide +kernel
  have hnode : (run (step twoNodes) empty relayed).nodes 1
      = (answered.nodes 1).handleResponse answerValue (.ok owner) 2000 origins := by
    have hrun : run (step twoNodes) empty relayed
        = step twoNodes answered (.deliver 1 (.posted 1) (.ok owner) true 2000) := rfl
    have hreceives : answered.Receives (.posted 1) ⟨answer, origins⟩ answerValue :=
      ⟨hmessage, hpayload⟩
    rw [hrun, step_of_receives hreceives, nodes_setNode, if_pos rfl]
  have hkey : (response? answerValue).map Response.key = some profileDigest := by decide +kernel
  obtain ⟨r, hr, hkey⟩ := Option.map_eq_some_iff.mp hkey
  rw [handleResponse_eq hr] at hnode
  rcases cache_cases (answered.nodes 1) r (.ok owner) 2000 origins with
    ⟨publisher, -, -, hcache⟩ | ⟨-, hcache⟩
  · rw [hnode, (wake_keeps _ r).2.2, hcache]
    exact Or.inr ⟨hkey.symm, horigin⟩
  · -- the second node holds nothing before the answer, and the profile after it
    have hbefore : ((answered.nodes 1).dht.records.get? profileDigest).isNone = true := by
      decide +kernel
    have hafter : (((run (step twoNodes) empty relayed).nodes 1).dht.records.get?
        profileDigest).isNone = false := by
      decide +kernel
    rw [hnode, (wake_keeps _ r).1, hcache, hbefore] at hafter
    cases hafter

/-- An answer that was asked for outlives the profile it relays. -/
theorem not_safe_relayed : ¬Safe (run (step twoNodes) empty relayed) := by
  have hheld : (profileAt relayed 1).map Prod.snd = some 2594000 := by decide +kernel
  simp only [profileAt, Option.map_map, Option.map_eq_some_iff, Function.comp] at hheld
  obtain ⟨stored, hstored, hexpires⟩ := hheld
  have hlate : profileRecord.expiresAt < stored.expiresAt := by
    rw [hexpires]
    decide
  exact not_safe_of_late copyOf_relayed hstored hlate

/-- **Poisoned caches.**  A response that nobody asked for overwrites the profile that the node has
published itself; and an answer that was asked for outlives the profile it relays. -/
theorem poisoned :
    ¬StepOk twoNodes (run (step twoNodes) empty [published])
        (.deliver 0 (.forged forgedResponse) (.ok owner) true 2000) ∧
      ¬Safe (run (step twoNodes) empty relayed) :=
  ⟨not_stepOk_forged, not_safe_relayed⟩

end System

end DhtQuery
