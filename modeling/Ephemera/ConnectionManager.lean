/-
# The connection pool (`ephemera-transport/src/manager.rs` and `connection.rs`)

The manager keeps one connection for each peer and refuses new ones when `max_connections` are
active.  A caller reaches a connection through `get_connection_mut` only, which gives out active
ones: a connection that was once disconnected stays so, and is replaced by the next
`add_connection`, which counts it among neither the active ones nor the free places.

`PeerConnection::new` keeps one half of each of its two channels and drops the other, so nothing
is ever sent or received (`sendTo_error`), and `cleanup_stale`, which looks at the last receipt,
goes by the age of a connection (`isConnected_cleanupStale`).
-/
import Ephemera.HashMap
import Ephemera.GuardedRun

/-- `TransportError`, as far as the manager and the transports return it. -/
inductive TransportError (N : Type) where
  | connectionFailed (peer : N) (reason : String)
  | connectionClosed (reason : String)
  | messageTooLarge (size max : ℕ)
  | peerNotConnected (peer : N)
  | connectionLimitReached (current max : ℕ)
  deriving DecidableEq

namespace ConnectionManager

open GuardedRun

/-! ## Counting the entries of a hash map -/

section Count

variable {K V : Type} [DecidableEq K]

/-- The number of entries whose value satisfies `p`. -/
def countValues (p : V → Bool) (m : HashMap K V) : ℕ := m.entries.countP (fun e => p e.2)

/-- The entry under a key is counted once. -/
theorem countValues_erase (p : V → Bool) (m : HashMap K V) (k : K) :
    countValues p m = countValues p (m.erase k) + if (m.lookup k).any p then 1 else 0 := by
  rcases hk : m.lookup k with _ | v
  · have hnot : k ∉ m.entries.keys := fun h => AList.lookup_eq_none.mp hk h
    have herase : (m.erase k).entries = m.entries := List.kerase_of_notMem_keys hnot
    rw [countValues, countValues, herase]
    rfl
  · have hmem : k ∈ m.entries.keys := AList.mem_keys.mp (HashMap.mem_iff_lookup.mpr ⟨v, hk⟩)
    obtain ⟨b, l₁, l₂, hl₁, hentries, hkerase⟩ := List.exists_of_kerase hmem
    have hlookup : m.lookup k = some b := by
      rw [← Option.mem_def, AList.mem_lookup_iff, hentries]
      simp
    obtain rfl : v = b := Option.some.inj (hk.symm.trans hlookup)
    have herase : (m.erase k).entries = l₁ ++ l₂ := hkerase
    rw [countValues, countValues, herase, hentries, List.countP_append, List.countP_append,
      List.countP_cons]
    simp only [Option.any_some]
    omega

theorem countValues_insert (p : V → Bool) (m : HashMap K V) (k : K) (v : V) :
    countValues p (m.insert k v) = countValues p (m.erase k) + if p v then 1 else 0 := by
  rw [countValues, AList.entries_insert, List.countP_cons]
  rfl

omit [DecidableEq K] in
/-- Values that satisfy one of two predicates that exclude each other. -/
theorem countValues_add_le {p q r : V → Bool} (hp : ∀ v, p v = true → r v = true)
    (hq : ∀ v, q v = true → r v = true) (hpq : ∀ v, p v = true → q v = false) (m : HashMap K V) :
    countValues p m + countValues q m ≤ countValues r m := by
  rw [countValues, countValues, countValues]
  induction m.entries with
  | nil => exact le_rfl
  | cons e l ih =>
    rw [List.countP_cons, List.countP_cons, List.countP_cons]
    have h := hpq e.2
    have hp' := hp e.2
    have hq' := hq e.2
    cases hpe : p e.2 <;> cases hqe : q e.2 <;> cases hre : r e.2 <;> simp_all <;> omega

end Count

/-! ## Connections -/

/-- `ConnectionState`. -/
inductive ConnectionState where
  | connecting | relayed | direct | disconnected
  deriving DecidableEq

/-- `PeerAddr`. -/
structure PeerAddr (N : Type) where
  nodeId : N
  addresses : List String

/-- `TransportConfig`, as far as the manager reads it. -/
structure TransportConfig where
  maxConnections : ℕ
  idleTimeout : ℕ
  maxMessageSize : ℕ

/-- `TransportConfig::default()`, in nanoseconds and bytes. -/
def TransportConfig.default : TransportConfig := ⟨256, 60000000000, 1048576⟩

/-- `PeerConnection`.  Of the two channels there are the halves it keeps. -/
structure PeerConnection (N : Type) where
  peerId : N
  addr : PeerAddr N
  state : ConnectionState
  connectedAt : ℕ
  lastRecv : ℕ
  lastSend : ℕ
  /-- The messages in the outbound channel, and whether its receiver exists. -/
  outbound : List (List UInt8)
  outboundOpen : Bool
  /-- The messages in the inbound channel, and whether it has a sender. -/
  inbound : List (List UInt8)
  inboundOpen : Bool
  messagesSent : ℕ
  messagesReceived : ℕ
  lastRtt : Option ℕ

variable {N : Type}

namespace PeerConnection

/-- `PeerConnection::new`: `_outbound_rx` and `_inbound_tx` are dropped at its end. -/
def new (peerId : N) (addr : PeerAddr N) (now : ℕ) : PeerConnection N where
  peerId := peerId
  addr := addr
  state := .connecting
  connectedAt := now
  lastRecv := now
  lastSend := now
  outbound := []
  outboundOpen := false
  inbound := []
  inboundOpen := false
  messagesSent := 0
  messagesReceived := 0
  lastRtt := none

/-- `is_active`. -/
def isActive (c : PeerConnection N) : Bool := !decide (c.state = .disconnected)

/-- `set_state`. -/
def setState (c : PeerConnection N) (state : ConnectionState) : PeerConnection N :=
  { c with state := state }

/-- `set_rtt`. -/
def setRtt (c : PeerConnection N) (rtt : ℕ) : PeerConnection N := { c with lastRtt := some rtt }

/-- `send`. -/
def send (c : PeerConnection N) (data : List UInt8) (now : ℕ) :
    Except (TransportError N) Unit × PeerConnection N :=
  if c.outboundOpen then
    (.ok (), { c with
      outbound := c.outbound ++ [data], lastSend := now, messagesSent := c.messagesSent + 1 })
  else (.error (.connectionClosed "outbound channel closed"), c)

/-- `recv`: a message, an error when there is none and can be none, or `none` while it waits. -/
def recv (c : PeerConnection N) (now : ℕ) :
    Option (Except (TransportError N) (List UInt8)) × PeerConnection N :=
  match c.inbound with
  | data :: rest =>
    (some (.ok data), { c with
      inbound := rest, lastRecv := now, messagesReceived := c.messagesReceived + 1 })
  | [] =>
    if c.inboundOpen then (none, c)
    else (some (.error (.connectionClosed "inbound channel closed")), c)

/-- `idle_duration`: `elapsed()` of the last receipt. -/
def idleDuration (c : PeerConnection N) (now : ℕ) : ℕ := now - c.lastRecv

/-- `uptime`. -/
def uptime (c : PeerConnection N) (now : ℕ) : ℕ := now - c.connectedAt

end PeerConnection

/-! ## The manager -/

/-- `ConnectionManager`. -/
structure Manager (N : Type) where
  config : TransportConfig
  connections : HashMap N (PeerConnection N)
  localId : N

/-- `ConnectionStats`. -/
structure ConnectionStats where
  active : ℕ
  relayed : ℕ
  direct : ℕ
  max : ℕ

variable [DecidableEq N]

namespace Manager

/-- `ConnectionManager::new`. -/
def new (localId : N) (config : TransportConfig) : Manager N := ⟨config, ∅, localId⟩

/-- `connection_count`. -/
def connectionCount (m : Manager N) : ℕ := countValues PeerConnection.isActive m.connections

/-- `has_capacity`. -/
def hasCapacity (m : Manager N) : Bool := decide (m.connectionCount < m.config.maxConnections)

/-- `is_connected`. -/
def isConnected (m : Manager N) (peer : N) : Bool :=
  (m.connections.lookup peer).any PeerConnection.isActive

/-- `connected_peers`. -/
def connectedPeers (m : Manager N) : List N :=
  (m.connections.entries.filter (fun e => e.2.isActive)).map Sigma.fst

/-- `get_connection` and `get_connection_mut`. -/
def getConnection (m : Manager N) (peer : N) : Option (PeerConnection N) :=
  (m.connections.lookup peer).filter PeerConnection.isActive

/-- `add_connection`. -/
def addConnection (m : Manager N) (addr : PeerAddr N) (now : ℕ) :
    Except (TransportError N) Unit × Manager N :=
  let peerId := addr.nodeId
  if peerId = m.localId then (.error (.connectionFailed peerId "cannot connect to self"), m)
  else if m.isConnected peerId then (.ok (), m)
  else if !m.hasCapacity then
    (.error (.connectionLimitReached m.connectionCount m.config.maxConnections), m)
  else
    (.ok (), { m with connections := m.connections.insert peerId (.new peerId addr now) })

/-- `remove_connection`. -/
def removeConnection (m : Manager N) (peer : N) : Manager N :=
  { m with connections := m.connections.erase peer }

/-- What a caller does to a connection behind `get_connection_mut`. -/
def update (m : Manager N) (peer : N) (f : PeerConnection N → PeerConnection N) : Manager N :=
  match m.getConnection peer with
  | some c => { m with connections := m.connections.insert peer (f c) }
  | none => m

/-- `send_to`. -/
def sendTo (m : Manager N) (peer : N) (data : List UInt8) (now : ℕ) :
    Except (TransportError N) Unit × Manager N :=
  if m.config.maxMessageSize < data.length then
    (.error (.messageTooLarge data.length m.config.maxMessageSize), m)
  else
    match m.getConnection peer with
    | none => (.error (.peerNotConnected peer), m)
    | some c => ((c.send data now).1, m.update peer (fun c => (c.send data now).2))

/-- The peers `cleanup_stale` removes. -/
def stale (m : Manager N) (now : ℕ) : List N :=
  (m.connections.entries.filter (fun e =>
    e.2.isActive && decide (m.config.idleTimeout < e.2.idleDuration now))).map Sigma.fst

/-- `cleanup_stale`. -/
def cleanupStale (m : Manager N) (now : ℕ) : Manager N := (m.stale now).foldl removeConnection m

/-- `stats`. -/
def stats (m : Manager N) : ConnectionStats where
  active := m.connectionCount
  relayed := countValues (fun c => decide (c.state = .relayed)) m.connections
  direct := countValues (fun c => decide (c.state = .direct)) m.connections
  max := m.config.maxConnections

end Manager

/-- A call, with the time it is made at. -/
inductive Call (N : Type) where
  | addConnection (addr : PeerAddr N) (now : ℕ)
  | removeConnection (peer : N)
  | setState (peer : N) (state : ConnectionState)
  | setRtt (peer : N) (rtt : ℕ)
  | sendTo (peer : N) (data : List UInt8) (now : ℕ)
  | recv (peer : N) (now : ℕ)
  | cleanupStale (now : ℕ)

/-- The manager after a call. -/
def step (m : Manager N) : Call N → Manager N
  | .addConnection addr now => (m.addConnection addr now).2
  | .removeConnection peer => m.removeConnection peer
  | .setState peer state => m.update peer (fun c => c.setState state)
  | .setRtt peer rtt => m.update peer (fun c => c.setRtt rtt)
  | .sendTo peer data now => (m.sendTo peer data now).2
  | .recv peer now => m.update peer (fun c => (c.recv now).2)
  | .cleanupStale now => m.cleanupStale now

/-! ## Every state of the pool -/

/-- A connection on which nothing was ever sent or received. -/
structure Unused (peer : N) (c : PeerConnection N) : Prop where
  peerId : c.peerId = peer
  addr : c.addr.nodeId = peer
  outbound : c.outboundOpen = false
  inbound : c.inbound = [] ∧ c.inboundOpen = false
  counts : c.messagesSent = 0 ∧ c.messagesReceived = 0
  times : c.lastRecv = c.connectedAt ∧ c.lastSend = c.connectedAt

/-- What every call keeps. -/
structure Inv (localId : N) (config : TransportConfig) (m : Manager N) : Prop where
  self : m.localId = localId
  params : m.config = config
  limit : m.connectionCount ≤ config.maxConnections
  entries : ∀ peer c, m.connections.lookup peer = some c → peer ≠ localId ∧ Unused peer c

variable {localId : N} {config : TransportConfig} {m : Manager N}

theorem inv_new : Inv localId config (Manager.new localId config) :=
  ⟨rfl, rfl, Nat.zero_le _, fun peer c h => by simp [Manager.new] at h⟩

/-- The active connections without the one of a peer. -/
theorem connectionCount_eq (m : Manager N) (peer : N) :
    m.connectionCount = countValues PeerConnection.isActive (m.connections.erase peer) +
      if m.isConnected peer then 1 else 0 := countValues_erase _ _ _

theorem lookup_of_getConnection {peer : N} {c : PeerConnection N}
    (h : m.getConnection peer = some c) :
    m.connections.lookup peer = some c ∧ c.isActive = true :=
  Option.filter_eq_some_iff.mp h

theorem Inv.addConnection (h : Inv localId config m) (addr : PeerAddr N) (now : ℕ) :
    Inv localId config (m.addConnection addr now).2 := by
  rw [Manager.addConnection]
  split
  · exact h
  · next hself =>
    split
    · exact h
    · next hnew =>
      split
      · exact h
      · next hroom =>
        refine ⟨h.self, h.params, ?_, fun peer c hc => ?_⟩
        · -- The entry that is replaced, if any, was not active.
          have hcount := connectionCount_eq m addr.nodeId
          rw [if_neg hnew] at hcount
          have hlt : m.connectionCount < m.config.maxConnections := by
            simpa [Manager.hasCapacity] using hroom
          rw [Manager.connectionCount, countValues_insert, ← h.params]
          split
          · omega
          · omega
        · rw [HashMap.lookup_insert_eq] at hc
          split at hc
          · next hpeer =>
            obtain rfl := Option.some.inj hc
            rw [h.self] at hself
            exact ⟨by rw [hpeer]; exact hself, hpeer.symm, hpeer.symm, rfl, ⟨rfl, rfl⟩, ⟨rfl, rfl⟩,
              ⟨rfl, rfl⟩⟩
          · exact h.entries peer c hc

theorem Inv.removeConnection (h : Inv localId config m) (peer : N) :
    Inv localId config (m.removeConnection peer) := by
  refine ⟨h.self, h.params, ?_, fun other c hc => ?_⟩
  · have hcount := connectionCount_eq m peer
    have hlimit := h.limit
    rw [Manager.connectionCount, Manager.removeConnection]
    dsimp only
    omega
  · rw [Manager.removeConnection, HashMap.lookup_erase_eq] at hc
    split at hc
    · cases hc
    · exact h.entries other c hc

/-- A change behind `get_connection_mut` that leaves a connection unused. -/
theorem Inv.update (h : Inv localId config m) (peer : N)
    {f : PeerConnection N → PeerConnection N} (hf : ∀ c, Unused peer c → Unused peer (f c)) :
    Inv localId config (m.update peer f) := by
  rw [Manager.update]
  split
  · next c hc =>
    obtain ⟨hlookup, hactive⟩ := lookup_of_getConnection hc
    obtain ⟨hne, hunused⟩ := h.entries peer c hlookup
    refine ⟨h.self, h.params, ?_, fun other c' hc' => ?_⟩
    · have hcount := connectionCount_eq m peer
      have hconn : m.isConnected peer = true := by rw [Manager.isConnected, hlookup]; exact hactive
      rw [if_pos hconn] at hcount
      have hlimit := h.limit
      rw [Manager.connectionCount, countValues_insert]
      split
      · omega
      · omega
    · rw [HashMap.lookup_insert_eq] at hc'
      split at hc'
      · next hother =>
        obtain rfl := Option.some.inj hc'
        rw [hother]
        exact ⟨hne, hf c hunused⟩
      · exact h.entries other c' hc'
  · exact h

omit [DecidableEq N] in
theorem Unused.send {peer : N} {c : PeerConnection N} (h : Unused peer c) (data : List UInt8)
    (now : ℕ) : c.send data now = (.error (.connectionClosed "outbound channel closed"), c) := by
  rw [PeerConnection.send, if_neg (by rw [h.outbound]; exact Bool.false_ne_true)]

omit [DecidableEq N] in
theorem Unused.recv {peer : N} {c : PeerConnection N} (h : Unused peer c) (now : ℕ) :
    c.recv now = (some (.error (.connectionClosed "inbound channel closed")), c) := by
  rw [PeerConnection.recv, h.inbound.1]
  dsimp only
  rw [if_neg (by rw [h.inbound.2]; exact Bool.false_ne_true)]

theorem Inv.sendTo (h : Inv localId config m) (peer : N) (data : List UInt8) (now : ℕ) :
    Inv localId config (m.sendTo peer data now).2 := by
  rw [Manager.sendTo]
  split
  · exact h
  · split
    · exact h
    · exact h.update peer (fun c hc => by rw [hc.send]; exact hc)

theorem Inv.cleanupStale (h : Inv localId config m) (now : ℕ) :
    Inv localId config (m.cleanupStale now) := by
  rw [Manager.cleanupStale]
  generalize m.stale now = peers
  induction peers generalizing m with
  | nil => exact h
  | cons peer peers ih => exact ih (h.removeConnection peer)

theorem Inv.step (h : Inv localId config m) (call : Call N) :
    Inv localId config (step m call) := by
  cases call with
  | addConnection addr now => exact h.addConnection addr now
  | removeConnection peer => exact h.removeConnection peer
  | setState peer state =>
    exact h.update peer (fun c hc =>
      ⟨hc.peerId, hc.addr, hc.outbound, hc.inbound, hc.counts, hc.times⟩)
  | setRtt peer rtt =>
    exact h.update peer (fun c hc =>
      ⟨hc.peerId, hc.addr, hc.outbound, hc.inbound, hc.counts, hc.times⟩)
  | sendTo peer data now => exact h.sendTo peer data now
  | recv peer now => exact h.update peer (fun c hc => by rw [hc.recv]; exact hc)
  | cleanupStale now => exact h.cleanupStale now

/-- The pool after a sequence of calls. -/
def after (localId : N) (config : TransportConfig) (calls : List (Call N)) : Manager N :=
  run step (Manager.new localId config) calls

theorem inv_after (calls : List (Call N)) : Inv localId config (after localId config calls) :=
  run_invariant_of_step (fun _ call h => h.step call) inv_new calls

/-- **The limit, in every run.**  At most `max_connections` connections are active, each under
the id of its own peer, which is not this node, and the counts by state add up to no more. -/
theorem stats_after (localId : N) (config : TransportConfig) (calls : List (Call N)) :
    (after localId config calls).stats.active ≤ config.maxConnections ∧
    (after localId config calls).stats.relayed + (after localId config calls).stats.direct
      ≤ (after localId config calls).stats.active ∧
    ∀ peer c, (after localId config calls).connections.lookup peer = some c →
      peer ≠ localId ∧ c.peerId = peer ∧ c.addr.nodeId = peer := by
  have h : Inv localId config _ := inv_after calls
  refine ⟨h.limit, ?_, fun peer c hc => ?_⟩
  · -- A relayed or a direct connection is active, and none is both.
    refine countValues_add_le (p := fun c : PeerConnection N => decide (c.state = .relayed))
      (q := fun c => decide (c.state = .direct)) (r := PeerConnection.isActive) (fun c hc => ?_)
      (fun c hc => ?_) (fun c hc => ?_) (after localId config calls).connections
    · rw [PeerConnection.isActive, of_decide_eq_true hc]
      rfl
    · rw [PeerConnection.isActive, of_decide_eq_true hc]
      rfl
    · rw [of_decide_eq_true hc]
      rfl
  · obtain ⟨hne, hunused⟩ := h.entries peer c hc
    exact ⟨hne, hunused.peerId, hunused.addr⟩

/-! ## Nothing is sent, and connections end by age -/

/-- **Nothing is ever sent.**  In every run, a message within the size limit to a peer that is
connected is refused because the channel is closed, and no connection has a message counted. -/
theorem sendTo_error (localId : N) (config : TransportConfig) (calls : List (Call N)) (peer : N)
    (data : List UInt8) (now : ℕ) :
    ((after localId config calls).sendTo peer data now).1 = .error
      (if config.maxMessageSize < data.length then
          .messageTooLarge data.length config.maxMessageSize
        else if (after localId config calls).isConnected peer then
          .connectionClosed "outbound channel closed"
        else .peerNotConnected peer) ∧
    ∀ c, (after localId config calls).connections.lookup peer = some c →
      c.messagesSent = 0 ∧ c.messagesReceived = 0 := by
  have h : Inv localId config _ := inv_after calls
  refine ⟨?_, fun c hc => (h.entries peer c hc).2.counts⟩
  rw [Manager.sendTo, h.params]
  split
  · rfl
  · rw [Manager.isConnected]
    rcases hget : (after localId config calls).getConnection peer with _ | c
    · have hnot : ¬((after localId config calls).connections.lookup peer).any
          PeerConnection.isActive = true := by
        intro hany
        obtain ⟨c, hc, hactive⟩ := (Option.any_eq_true _ _).mp hany
        rw [Manager.getConnection, hc, Option.filter_some, if_pos hactive] at hget
        cases hget
      rw [if_neg hnot]
    · obtain ⟨hlookup, hactive⟩ := lookup_of_getConnection hget
      rw [hlookup, Option.any_some, if_pos hactive]
      exact congrArg Prod.fst ((h.entries peer c hlookup).2.send data now)

theorem lookup_foldl_removeConnection (peers : List N) (m : Manager N) (peer : N) :
    (peers.foldl Manager.removeConnection m).connections.lookup peer =
      if peer ∈ peers then none else m.connections.lookup peer := by
  induction peers generalizing m with
  | nil => rfl
  | cons p peers ih =>
    rw [List.foldl_cons, ih, Manager.removeConnection, HashMap.lookup_erase_eq]
    by_cases hp : peer = p
    · simp [hp]
    · simp [hp]

theorem mem_stale {now : ℕ} {peer : N} :
    peer ∈ m.stale now ↔ ∃ c, m.connections.lookup peer = some c ∧ c.isActive = true ∧
      m.config.idleTimeout < c.idleDuration now := by
  simp only [Manager.stale, List.mem_map, List.mem_filter, Bool.and_eq_true, decide_eq_true_eq]
  constructor
  · rintro ⟨⟨k, c⟩, ⟨hmem, hactive, hidle⟩, rfl⟩
    exact ⟨c, AList.mem_lookup_iff.mpr hmem, hactive, hidle⟩
  · rintro ⟨c, hlookup, hactive, hidle⟩
    exact ⟨⟨peer, c⟩, ⟨AList.mem_lookup_iff.mp hlookup, hactive, hidle⟩, rfl⟩

/-- **A connection ends by its age.**  In every run, the peers that are connected after a
clean-up are those that were and whose connection is no older than the idle timeout, whatever was
sent on it since. -/
theorem isConnected_cleanupStale (localId : N) (config : TransportConfig) (calls : List (Call N))
    (now : ℕ) (peer : N) :
    ((after localId config calls).cleanupStale now).isConnected peer = true ↔
      ∃ c, (after localId config calls).connections.lookup peer = some c ∧ c.isActive = true ∧
        c.uptime now ≤ config.idleTimeout := by
  have h : Inv localId config _ := inv_after calls
  rw [Manager.isConnected, Manager.cleanupStale, lookup_foldl_removeConnection]
  have hage : ∀ c, (after localId config calls).connections.lookup peer = some c →
      c.idleDuration now = c.uptime now := by
    intro c hc
    rw [PeerConnection.idleDuration, PeerConnection.uptime, (h.entries peer c hc).2.times.1]
  constructor
  · intro hconn
    split at hconn
    · cases hconn
    · next hstale =>
      obtain ⟨c, hc, hactive⟩ := (Option.any_eq_true _ _).mp hconn
      refine ⟨c, hc, hactive, Nat.not_lt.mp fun hlt => hstale (mem_stale.mpr ⟨c, hc, hactive, ?_⟩)⟩
      rw [h.params, hage c hc]
      exact hlt
  · rintro ⟨c, hc, hactive, hle⟩
    rw [if_neg, hc]
    · exact hactive
    · intro hstale
      obtain ⟨c', hc', -, hlt⟩ := mem_stale.mp hstale
      obtain rfl : c = c' := Option.some.inj (hc.symm.trans hc')
      rw [h.params, hage c hc] at hlt
      omega

end ConnectionManager
