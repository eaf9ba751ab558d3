/-
# The transport (`ephemera-transport/src/iroh_transport.rs`)

A node keeps one writer channel for each connected peer.  A connection that is made, by either
side, is set up at both of its ends: an end whose node already has a channel for the peer drops
the connection, any other end is registered and gets a writer and a reader task.  The writer
puts every message on a stream of its own, behind its length; the reader takes the streams as
they come, and what it reads goes to the node's inbound channel.

The tasks of all nodes are interleaved: an action is one step of one task.  What a writer does
with one message and a reader with one stream is one step each, taken when it is done or has
failed.  QUIC comes from another crate.  Streams arrive in any order, a write may fail after any
number of bytes, a stream may break off under its reader, and a reader may be told at any time
that the connection is gone.
-/
import Ephemera.ConnectionManager
import Ephemera.FrameCodec

namespace IrohTransport

open FrameCodec (putU32 fromBeBytes fromBeBytes_putU32 length_putU32)
open GuardedRun

/-! ## Frames -/

/-- `MAX_FRAME_SIZE`: 1 MiB. -/
def maxFrameSize : UInt32 := 1048576

/-- What `writer_loop` puts on a stream: `data.len() as u32`, then the message. -/
def frame (data : List UInt8) : List UInt8 := putU32 (UInt32.ofNat data.length) ++ data

/-- What `reader_loop` makes of a stream: `none` when it skips it. -/
def readStream (stream : List UInt8) : Option (List UInt8) :=
  match stream with
  | b₀ :: b₁ :: b₂ :: b₃ :: rest =>
    let len := fromBeBytes b₀ b₁ b₂ b₃
    if maxFrameSize < len then none
    -- `read_exact` fails on a stream that ends early, and leaves what follows unread.
    else if rest.length < len.toNat then none
    else some (rest.take len.toNat)
  | _ => none

/-- The part of a message that its length prefix announces. -/
def announced (data : List UInt8) : List UInt8 := data.take (data.length % 2 ^ 32)

/-- A message the reader takes from an undamaged stream. -/
def Fits (data : List UInt8) : Prop := data.length % 2 ^ 32 ≤ 1048576

instance (data : List UInt8) : Decidable (Fits data) := Nat.decLe _ _

theorem length_frame (data : List UInt8) : (frame data).length = 4 + data.length := by
  rw [frame, List.length_append, length_putU32]

/-- A stream that carries less than a length is skipped. -/
theorem readStream_of_short {stream : List UInt8} (h : stream.length < 4) :
    readStream stream = none := by
  match stream, h with
  | [], _ => rfl
  | [_], _ => rfl
  | [_, _], _ => rfl
  | [_, _, _], _ => rfl
  | _ :: _ :: _ :: _ :: _, h => simp only [List.length_cons] at h; omega

/-- A stream that starts with a length. -/
theorem readStream_putU32 (n : UInt32) (rest : List UInt8) :
    readStream (putU32 n ++ rest) =
      if maxFrameSize < n then none
      else if rest.length < n.toNat then none
      else some (rest.take n.toNat) := by
  rw [putU32]
  simp only [List.cons_append, List.nil_append, readStream, fromBeBytes_putU32]

theorem toNat_ofNat_length (data : List UInt8) :
    (UInt32.ofNat data.length).toNat = data.length % 2 ^ 32 := UInt32.toNat_ofNat'

theorem maxFrameSize_lt_iff (data : List UInt8) :
    maxFrameSize < UInt32.ofNat data.length ↔ ¬Fits data := by
  rw [Fits, Nat.not_le, UInt32.lt_iff_toNat_lt, toNat_ofNat_length]
  rfl

/-- **A stream cut anywhere.**  However much of a frame is on the stream, the reader gets what
the prefix announces, when it fits and is there as a whole, and otherwise nothing. -/
theorem readStream_take_frame (data : List UInt8) (k : ℕ) :
    readStream ((frame data).take k) =
      if Fits data ∧ 4 + data.length % 2 ^ 32 ≤ k then some (announced data) else none := by
  rcases Nat.lt_or_ge k 4 with hk | hk
  · rw [if_neg (by omega)]
    apply readStream_of_short
    rw [List.length_take, length_frame]
    omega
  · have htake : (frame data).take k
        = putU32 (UInt32.ofNat data.length) ++ data.take (k - 4) := by
      rw [frame, List.take_append, length_putU32, List.take_of_length_le]
      rw [length_putU32]
      exact hk
    rw [htake, readStream_putU32, toNat_ofNat_length]
    have hle : data.length % 2 ^ 32 ≤ data.length := Nat.mod_le _ _
    by_cases hfits : Fits data
    · rw [if_neg (fun h => (maxFrameSize_lt_iff data).mp h hfits), List.length_take]
      by_cases hall : 4 + data.length % 2 ^ 32 ≤ k
      · rw [if_neg (by omega), if_pos ⟨hfits, hall⟩, List.take_take, announced,
          show min (data.length % 2 ^ 32) (k - 4) = data.length % 2 ^ 32 from by omega]
      · rw [if_pos (by omega), if_neg (fun h => hall h.2)]
    · rw [if_pos ((maxFrameSize_lt_iff data).mpr hfits), if_neg (fun h => hfits h.1)]

/-! ## Connections -/

/-- The side of a connection: the one that called `connect`, or the one that accepted. -/
inductive Side where
  | dialer | acceptor
  deriving DecidableEq

/-- A connection between two nodes.  Which node stands at each side is what QUIC authenticates:
`remote_id()`. -/
structure Connection (N : Type) where
  dialer : N
  acceptor : N
  serial : ℕ
  deriving DecidableEq

/-- One end of a connection. -/
structure End (N : Type) where
  conn : Connection N
  side : Side
  deriving DecidableEq

variable {N : Type}

namespace End

/-- The node at this end. -/
def node (e : End N) : N :=
  match e.side with
  | .dialer => e.conn.dialer
  | .acceptor => e.conn.acceptor

/-- The other end. -/
def other (e : End N) : End N :=
  match e.side with
  | .dialer => ⟨e.conn, .acceptor⟩
  | .acceptor => ⟨e.conn, .dialer⟩

/-- `remote_node_id`: the node at the other end. -/
def remote (e : End N) : N := e.other.node

@[simp] theorem other_other (e : End N) : e.other.other = e := by
  obtain ⟨c, s⟩ := e
  cases s <;> rfl

@[simp] theorem conn_other (e : End N) : e.other.conn = e.conn := by
  obtain ⟨c, s⟩ := e
  cases s <;> rfl

@[simp] theorem node_other (e : End N) : e.other.node = e.remote := rfl

@[simp] theorem remote_other (e : End N) : e.other.remote = e.node := by
  rw [remote, other_other]

theorem other_ne (e : End N) : e.other ≠ e := by
  obtain ⟨c, s⟩ := e
  cases s <;> simp [other]

theorem other_eq_iff {e f : End N} : e.other = f ↔ e = f.other := by
  constructor
  · rintro rfl
    exact (other_other e).symm
  · rintro rfl
    exact other_other f

end End

/-- The writer task of an end. -/
inductive Writer where
  /-- `setup_connection` has not run at this end. -/
  | pending
  /-- `setup_connection` found the peer registered and dropped the connection. -/
  | turnedAway
  /-- `writer_loop` runs. -/
  | running
  /-- `writer_loop` has returned and the clean-up after it has not run. -/
  | ended
  /-- The clean-up has run. -/
  | finished
  deriving DecidableEq

/-- `is_closed()`: the receiver went with the `writer_loop` that owned it. -/
def Writer.isClosed : Writer → Bool
  | .ended | .finished => true
  | _ => false

/-- What belongs to one end. -/
structure EndState where
  writer : Writer
  /-- Whether `reader_loop` runs. -/
  reading : Bool
  /-- The channel `outbound_tx` of this end. -/
  queue : List (List UInt8)
  /-- The streams this end has opened and the other end has not accepted. -/
  streams : List (List UInt8)

/-- An end before `setup_connection`. -/
def EndState.fresh : EndState := ⟨.pending, false, [], []⟩

/-- The capacity of an outbound channel. -/
def outboundCapacity : ℕ := 256

/-- The capacity of the inbound channel. -/
def inboundCapacity : ℕ := 1024

/-- All nodes and the connections between them.  The last four fields record what happened: the
messages `send` accepted, those the readers forwarded, the streams that broke off under a reader,
each with the end that wrote it, and the messages `recv` returned. -/
structure Net (N : Type) where
  conns : List (Connection N)
  /-- `peers`, at each node.  An entry is the sender of the channel of an end. -/
  peers : N → HashMap N (End N)
  ends : End N → EndState
  /-- The inbound channel of each node. -/
  inbound : N → List (N × List UInt8)
  accepted : List (End N × List UInt8)
  forwarded : List (End N × List UInt8)
  unread : List (End N × List UInt8)
  returned : N → List (N × List UInt8)

/-- Before anything happened. -/
def Net.start : Net N :=
  ⟨[], fun _ => ∅, fun _ => .fresh, fun _ => [], [], [], [], fun _ => []⟩

/-- How far a writer gets with a message. -/
inductive Write where
  /-- The stream is opened, written and finished. -/
  | finished
  /-- A step fails when this many bytes of the frame are on the stream. -/
  | failed (written : ℕ)
  /-- `open_uni` fails. -/
  | notOpened

/-- How far a reader gets with a stream. -/
inductive Read where
  /-- What the writer put on the stream is there. -/
  | whole
  /-- `read_exact` fails, because the connection is lost, or nobody listens to the inbound
  channel. -/
  | failed
  deriving DecidableEq

/-- One step of one task. -/
inductive Action (N : Type) where
  /-- `connect` at the first node, up to `setup_connection`. -/
  | connect (local_ remote : N)
  | setup (e : End N)
  | send (local_ peer : N) (data : List UInt8)
  | write (e : End N) (outcome : Write)
  /-- `outbound_rx.recv()` answers that the channel is empty and has no sender. -/
  | drained (e : End N)
  | cleanUp (e : End N)
  /-- The reader gets the stream at this place of those on their way to it. -/
  | accept (e : End N) (i : ℕ) (outcome : Read)
  /-- `accept_uni` fails. -/
  | readerStops (e : End N)
  | recv (local_ : N)
  | disconnect (local_ peer : N)

variable [DecidableEq N]

namespace Net

/-- Replace the state of an end. -/
def setEnd (net : Net N) (e : End N) (s : EndState) : Net N :=
  { net with ends := Function.update net.ends e s }

/-- `connect`: nothing when the peer is connected, and a new connection otherwise.  (An attempt
that fails changes nothing.) -/
def connect (net : Net N) (a b : N) : Net N :=
  if b ∈ net.peers a then net
  else { net with conns := net.conns ++ [⟨a, b, net.conns.length⟩] }

/-- `setup_connection`, at an end of a connection that was made. -/
def setup (net : Net N) (e : End N) : Net N :=
  if e.conn ∈ net.conns ∧ (net.ends e).writer = .pending then
    if e.remote ∈ net.peers e.node then
      net.setEnd e { net.ends e with writer := .turnedAway }
    else
      { net.setEnd e { net.ends e with writer := .running, reading := true } with
        peers := Function.update net.peers e.node ((net.peers e.node).insert e.remote e) }
  else net

/-- `send`: the answer and the net after it, or `none` while the channel is full. -/
def send (net : Net N) (a b : N) (data : List UInt8) :
    Option (Except (TransportError N) Unit × Net N) :=
  match (net.peers a).lookup b with
  | none => some (.error (.peerNotConnected b), net)
  | some e =>
    let s := net.ends e
    if s.writer.isClosed then some (.error (.connectionClosed "outbound channel closed"), net)
    else if s.queue.length < outboundCapacity then
      some (.ok (), { net.setEnd e { s with queue := s.queue ++ [data] } with
        accepted := net.accepted ++ [(e, data)] })
    else none

/-- `writer_loop`, for one message.  A loop that breaks drops its end of the channel. -/
def write (net : Net N) (e : End N) (outcome : Write) : Net N :=
  let s := net.ends e
  match s.writer, s.queue with
  | .running, data :: rest =>
    match outcome with
    | .finished => net.setEnd e { s with queue := rest, streams := s.streams ++ [frame data] }
    | .failed k =>
      net.setEnd e { s with
        writer := .ended, queue := [], streams := s.streams ++ [(frame data).take k] }
    | .notOpened => net.setEnd e { s with writer := .ended, queue := [] }
  | _, _ => net

/-- `writer_loop` returns when its channel is empty and the sender was dropped. -/
def drained (net : Net N) (e : End N) : Net N :=
  if (net.ends e).writer = .running ∧ (net.ends e).queue = [] ∧
      (net.peers e.node).lookup e.remote ≠ some e then
    net.setEnd e { net.ends e with writer := .ended }
  else net

/-- The clean-up after `writer_loop`: the peer goes if the sender stored for it is closed,
whichever connection that sender belongs to. -/
def cleanUp (net : Net N) (e : End N) : Net N :=
  if (net.ends e).writer = .ended then
    let net' := net.setEnd e { net.ends e with writer := .finished }
    match (net.peers e.node).lookup e.remote with
    | some f =>
      if (net.ends f).writer.isClosed then
        { net' with
          peers := Function.update net.peers e.node ((net.peers e.node).erase e.remote) }
      else net'
    | none => net'
  else net

/-- `reader_loop`, for one stream.  It waits while the inbound channel is full. -/
def accept (net : Net N) (e : End N) (i : ℕ) (outcome : Read) : Net N :=
  let s := net.ends e.other
  match (net.ends e).reading, s.streams[i]? with
  | true, some stream =>
    let net' := net.setEnd e.other { s with streams := s.streams.eraseIdx i }
    match outcome with
    | .failed => { net' with unread := net.unread ++ [(e.other, stream)] }
    | .whole =>
      match readStream stream with
      | none => net'
      | some payload =>
        if (net.inbound e.node).length < inboundCapacity then
          { net' with
            inbound := Function.update net.inbound e.node
              (net.inbound e.node ++ [(e.remote, payload)])
            forwarded := net.forwarded ++ [(e, payload)] }
        else net
  | _, _ => net

/-- `reader_loop` returns. -/
def readerStops (net : Net N) (e : End N) : Net N :=
  net.setEnd e { net.ends e with reading := false }

/-- `recv`. -/
def recv (net : Net N) (a : N) : Net N :=
  match net.inbound a with
  | [] => net
  | msg :: rest =>
    { net with
      inbound := Function.update net.inbound a rest
      returned := Function.update net.returned a (net.returned a ++ [msg]) }

/-- `disconnect`. -/
def disconnect (net : Net N) (a b : N) : Net N :=
  { net with peers := Function.update net.peers a ((net.peers a).erase b) }

/-- One action. -/
def step (net : Net N) : Action N → Net N
  | .connect a b => net.connect a b
  | .setup e => net.setup e
  | .send a b data => ((net.send a b data).map Prod.snd).getD net
  | .write e outcome => net.write e outcome
  | .drained e => net.drained e
  | .cleanUp e => net.cleanUp e
  | .accept e i outcome => net.accept e i outcome
  | .readerStops e => net.readerStops e
  | .recv a => net.recv a
  | .disconnect a b => net.disconnect a b

/-- The net after a sequence of actions. -/
abbrev after (actions : List (Action N)) : Net N := run step start actions

end Net

/-! ## What is registered -/

/-- The entries of the peers maps: each is of the right ends, and its writer has not been cleaned
up after. -/
def Registry (net : Net N) : Prop :=
  ∀ a b e, (net.peers a).lookup b = some e →
    e.node = a ∧ e.remote = b ∧ ((net.ends e).writer = .running ∨ (net.ends e).writer = .ended)

namespace Net

variable {net : Net N}

@[simp] theorem peers_setEnd (net : Net N) (e : End N) (s : EndState) :
    (net.setEnd e s).peers = net.peers := rfl

@[simp] theorem accepted_setEnd (net : Net N) (e : End N) (s : EndState) :
    (net.setEnd e s).accepted = net.accepted := rfl

@[simp] theorem forwarded_setEnd (net : Net N) (e : End N) (s : EndState) :
    (net.setEnd e s).forwarded = net.forwarded := rfl

@[simp] theorem unread_setEnd (net : Net N) (e : End N) (s : EndState) :
    (net.setEnd e s).unread = net.unread := rfl

theorem ends_setEnd (net : Net N) (e : End N) (s : EndState) (f : End N) :
    (net.setEnd e s).ends f = if f = e then s else net.ends f :=
  Function.update_apply ..

/-- Registering an end. -/
theorem lookup_insert_peers (net : Net N) (e : End N) (a b : N) :
    (Function.update net.peers e.node ((net.peers e.node).insert e.remote e) a).lookup b =
      if a = e.node ∧ b = e.remote then some e else (net.peers a).lookup b := by
  rw [Function.update_apply]
  by_cases ha : a = e.node
  · subst ha
    rw [if_pos rfl, HashMap.lookup_insert_eq]
    by_cases hb : b = e.remote
    · rw [if_pos hb, if_pos ⟨rfl, hb⟩]
    · rw [if_neg hb, if_neg (fun h => hb h.2)]
  · rw [if_neg ha, if_neg (fun h => ha h.1)]

/-- Dropping a peer. -/
theorem lookup_erase_peers (net : Net N) (c d a b : N) :
    (Function.update net.peers c ((net.peers c).erase d) a).lookup b =
      if a = c ∧ b = d then none else (net.peers a).lookup b := by
  rw [Function.update_apply]
  by_cases ha : a = c
  · subst ha
    rw [if_pos rfl, HashMap.lookup_erase_eq]
    by_cases hb : b = d
    · rw [if_pos hb, if_pos ⟨rfl, hb⟩]
    · rw [if_neg hb, if_neg (fun h => hb h.2)]
  · rw [if_neg ha, if_neg (fun h => ha h.1)]

end Net

variable {net : Net N}

/-- A change of one end keeps the registry, unless it takes a running writer anywhere but to its
end or a returned one past its clean-up. -/
theorem Registry.setEnd (h : Registry net) {e : End N} {s : EndState}
    (hs : s.writer = (net.ends e).writer ∨ ((net.ends e).writer = .running ∧ s.writer = .ended) ∨
      (net.ends e).writer = .pending) : Registry (net.setEnd e s) := by
  intro a b f hf
  obtain ⟨hnode, hremote, hw⟩ := h a b f hf
  refine ⟨hnode, hremote, ?_⟩
  rw [Net.ends_setEnd]
  by_cases hfe : f = e
  · subst hfe
    rw [if_pos rfl]
    rcases hs with hs | ⟨-, hs⟩ | hs
    · rw [hs]
      exact hw
    · exact Or.inr hs
    · rw [hs] at hw
      simp at hw
  · rw [if_neg hfe]
    exact hw

theorem Registry.connect (h : Registry net) (a b : N) : Registry (net.connect a b) := by
  rw [Net.connect]
  split
  · exact h
  · exact h

theorem Registry.setup (h : Registry net) (e : End N) : Registry (net.setup e) := by
  rw [Net.setup]
  split
  · next hpending =>
    have hone : ∀ s, Registry (net.setEnd e s) := fun s => h.setEnd (Or.inr (Or.inr hpending.2))
    split
    · exact hone _
    · intro a b f hf
      -- The new entry, or one that was there and keeps its writer.
      simp only [Net.lookup_insert_peers] at hf
      split at hf
      · next hab =>
        obtain rfl : e = f := Option.some.inj hf
        refine ⟨hab.1.symm, hab.2.symm, Or.inl ?_⟩
        show ((net.setEnd e _).ends e).writer = Writer.running
        rw [Net.ends_setEnd, if_pos rfl]
      · exact hone _ a b f hf
  · exact h

theorem Registry.send (h : Registry net) (a b : N) (data : List UInt8) :
    Registry (((net.send a b data).map Prod.snd).getD net) := by
  rw [Net.send]
  split
  · exact h
  · dsimp only
    split
    · exact h
    · split
      · exact h.setEnd (Or.inl rfl)
      · exact h

theorem Registry.write (h : Registry net) (e : End N) (outcome : Write) :
    Registry (net.write e outcome) := by
  rw [Net.write]
  split
  · next hrunning hqueue =>
    cases outcome with
    | finished => exact h.setEnd (Or.inl rfl)
    | failed k => exact h.setEnd (Or.inr (Or.inl ⟨hrunning, rfl⟩))
    | notOpened => exact h.setEnd (Or.inr (Or.inl ⟨hrunning, rfl⟩))
  · exact h

theorem Registry.drained (h : Registry net) (e : End N) : Registry (net.drained e) := by
  rw [Net.drained]
  split
  · next hidle => exact h.setEnd (Or.inr (Or.inl ⟨hidle.1, rfl⟩))
  · exact h

/-- The clean-up after an end takes out the entry of that end, if there is one. -/
theorem Registry.cleanUp (h : Registry net) (e : End N) : Registry (net.cleanUp e) := by
  rw [Net.cleanUp]
  split
  · next hended =>
    have hkeep : ∀ {a b f}, (net.peers a).lookup b = some f → f ≠ e →
        f.node = a ∧ f.remote = b ∧
          (((net.setEnd e { net.ends e with writer := .finished }).ends f).writer = .running ∨
            ((net.setEnd e { net.ends e with writer := .finished }).ends f).writer = .ended) := by
      intro a b f hf hne
      rw [Net.ends_setEnd, if_neg hne]
      exact h a b f hf
    split
    · next g hg =>
      split
      · intro a b f hf
        simp only [Net.lookup_erase_peers] at hf
        split at hf
        · cases hf
        · next hab =>
          refine hkeep hf ?_
          rintro rfl
          obtain ⟨hnode, hremote, -⟩ := h a b _ hf
          exact hab ⟨hnode.symm, hremote.symm⟩
      · next hopen =>
        intro a b f hf
        refine hkeep hf ?_
        rintro rfl
        obtain ⟨rfl, rfl, -⟩ := h a b _ hf
        -- The entry found is that of this end, whose sender is closed.
        obtain rfl : f = g := Option.some.inj (hf.symm.trans hg)
        rw [hended] at hopen
        exact hopen rfl
    · next hnone =>
      intro a b f hf
      refine hkeep hf ?_
      rintro rfl
      obtain ⟨rfl, rfl, -⟩ := h a b _ hf
      rw [Net.peers_setEnd, hnone] at hf
      cases hf
  · exact h

theorem Registry.accept (h : Registry net) (e : End N) (i : ℕ) (outcome : Read) :
    Registry (net.accept e i outcome) := by
  rw [Net.accept]
  dsimp only
  split
  · split
    · exact h.setEnd (Or.inl rfl)
    · split
      · exact h.setEnd (Or.inl rfl)
      · split
        · exact h.setEnd (Or.inl rfl)
        · exact h
  · exact h

theorem Registry.recv (h : Registry net) (a : N) : Registry (net.recv a) := by
  rw [Net.recv]
  split
  · exact h
  · exact h

theorem Registry.disconnect (h : Registry net) (a b : N) : Registry (net.disconnect a b) := by
  intro c d f hf
  simp only [Net.disconnect, Net.lookup_erase_peers] at hf
  split at hf
  · cases hf
  · exact h c d f hf

theorem Registry.step (h : Registry net) (act : Action N) : Registry (net.step act) := by
  cases act with
  | connect a b => exact h.connect a b
  | setup e => exact h.setup e
  | send a b data => exact h.send a b data
  | write e outcome => exact h.write e outcome
  | drained e => exact h.drained e
  | cleanUp e => exact h.cleanUp e
  | accept e i outcome => exact h.accept e i outcome
  | readerStops e => exact h.setEnd (Or.inl rfl)
  | recv a => exact h.recv a
  | disconnect a b => exact h.disconnect a b

theorem registry_start : Registry (Net.start : Net N) := by
  intro a b e h
  simp [Net.start] at h

/-- In every state that is reached. -/
theorem registry_after (actions : List (Action N)) : Registry (Net.after actions) :=
  run_invariant_of_step (fun _ act h => h.step act) registry_start actions

/-! ## What takes an entry out -/

theorem lookup_connect (a b c d : N) :
    ((net.connect c d).peers a).lookup b = (net.peers a).lookup b := by
  rw [Net.connect]
  split
  · rfl
  · rfl

/-- An end is registered only where there is no entry. -/
theorem lookup_setup {a b : N} {e : End N} (f : End N)
    (he : (net.peers a).lookup b = some e) : ((net.setup f).peers a).lookup b = some e := by
  rw [Net.setup]
  split
  · split
    · exact he
    · next hfree =>
      show (Function.update net.peers f.node ((net.peers f.node).insert f.remote f) a).lookup b = _
      rw [Net.lookup_insert_peers, if_neg, he]
      rintro ⟨rfl, rfl⟩
      exact hfree (HashMap.mem_iff_lookup.mpr ⟨e, he⟩)
  · exact he

theorem peers_send (a b : N) (data : List UInt8) :
    (((net.send a b data).map Prod.snd).getD net).peers = net.peers := by
  rw [Net.send]
  split
  · rfl
  · dsimp only
    split
    · rfl
    · split
      · rfl
      · rfl

theorem peers_write (e : End N) (outcome : Write) : (net.write e outcome).peers = net.peers := by
  rw [Net.write]
  split
  · cases outcome with
    | finished => rfl
    | failed k => rfl
    | notOpened => rfl
  · rfl

theorem peers_drained (e : End N) : (net.drained e).peers = net.peers := by
  rw [Net.drained]
  split
  · rfl
  · rfl

theorem peers_accept (e : End N) (i : ℕ) (outcome : Read) :
    (net.accept e i outcome).peers = net.peers := by
  rw [Net.accept]
  dsimp only
  split
  · split
    · rfl
    · split
      · rfl
      · split
        · rfl
        · rfl
  · rfl

theorem peers_recv (a : N) : (net.recv a).peers = net.peers := by
  rw [Net.recv]
  split
  · rfl
  · rfl

/-- A clean-up takes an entry out only if the writer of that entry has returned. -/
theorem lookup_cleanUp {a b : N} {e : End N} (f : End N) (he : (net.peers a).lookup b = some e) :
    ((net.cleanUp f).peers a).lookup b = some e ∨
      (net.ends e).writer.isClosed = true ∧ f.node = a ∧ f.remote = b := by
  rw [Net.cleanUp]
  split
  · split
    · next g hg =>
      split
      · next hclosed =>
        show (Function.update net.peers f.node ((net.peers f.node).erase f.remote) a).lookup b
          = _ ∨ _
        rw [Net.lookup_erase_peers]
        by_cases hab : a = f.node ∧ b = f.remote
        · obtain ⟨rfl, rfl⟩ := hab
          obtain rfl : e = g := Option.some.inj (he.symm.trans hg)
          exact Or.inr ⟨hclosed, rfl, rfl⟩
        · rw [if_neg hab]
          exact Or.inl he
      · exact Or.inl he
    · exact Or.inl he
  · exact Or.inl he

/-- What one action can take out of the peers maps. -/
theorem lookup_step (h : Registry net) {a b : N} {e : End N} (act : Action N)
    (he : (net.peers a).lookup b = some e) :
    ((net.step act).peers a).lookup b = some e ∨ act = .disconnect a b ∨
      (net.ends e).writer = .ended ∧ ∃ f, act = .cleanUp f ∧ f.node = a ∧ f.remote = b := by
  cases act with
  | connect c d => exact Or.inl ((lookup_connect a b c d).trans he)
  | setup f => exact Or.inl (lookup_setup f he)
  | send c d data => exact Or.inl (by rw [Net.step, peers_send, he])
  | write f outcome => exact Or.inl (by rw [Net.step, peers_write, he])
  | drained f => exact Or.inl (by rw [Net.step, peers_drained, he])
  | cleanUp f =>
    rcases lookup_cleanUp f he with hkept | ⟨hclosed, hnode, hremote⟩
    · exact Or.inl hkept
    · refine Or.inr (Or.inr ⟨?_, f, rfl, hnode, hremote⟩)
      rcases (h a b e he).2.2 with hw | hw
      · rw [hw] at hclosed
        cases hclosed
      · exact hw
  | accept f i outcome => exact Or.inl (by rw [Net.step, peers_accept, he])
  | readerStops f => exact Or.inl he
  | recv c => exact Or.inl (by rw [Net.step, peers_recv, he])
  | disconnect c d =>
    by_cases hcd : a = c ∧ b = d
    · obtain ⟨rfl, rfl⟩ := hcd
      exact Or.inr (Or.inl rfl)
    · refine Or.inl ?_
      show (Function.update net.peers c ((net.peers c).erase d) a).lookup b = _
      rw [Net.lookup_erase_peers, if_neg hcd, he]

/-- **The peers maps, in every run.**  Each entry is that of an end between the two nodes whose
writer runs, or has returned and is still to be cleaned up after; and only `disconnect` takes out
an entry with a running writer, so the clean-up after an old connection spares a newer one. -/
theorem peers_after (actions : List (Action N)) {a b : N} {e : End N}
    (he : ((Net.after actions).peers a).lookup b = some e) :
    (e.node = a ∧ e.remote = b ∧
      (((Net.after actions).ends e).writer = .running ∨
        ((Net.after actions).ends e).writer = .ended)) ∧
    ∀ act, ((Net.after (actions ++ [act])).peers a).lookup b = some e ∨ act = .disconnect a b ∨
      ((Net.after actions).ends e).writer = .ended ∧
        ∃ f, act = .cleanUp f ∧ f.node = a ∧ f.remote = b := by
  refine ⟨registry_after actions a b e he, fun act => ?_⟩
  rw [Net.after, run_append]
  exact lookup_step (registry_after actions) act he

/-- Node 0 disconnects from node 1 and connects again, and the old connection is cleaned up
after: the new one stays. -/
theorem peers_after_reconnect :
    let e : End ℕ := ⟨⟨0, 1, 0⟩, .dialer⟩
    let f : End ℕ := ⟨⟨0, 1, 1⟩, .dialer⟩
    let actions : List (Action ℕ) :=
      [.connect 0 1, .setup e, .disconnect 0 1, .connect 0 1, .setup f, .drained e]
    ((Net.after (actions ++ [.cleanUp e])).peers 0).lookup 1 = some f := by
  intro e f actions
  have hnow : ((Net.after actions).peers 0).lookup 1 = some f := by decide
  rcases (peers_after actions hnow).2 (.cleanUp e) with hkept | hdis | ⟨hended, -⟩
  · exact hkept
  · cases hdis
  · have hrunning : ((Net.after actions).ends f).writer = .running := by decide
    rw [hrunning] at hended
    cases hended

end IrohTransport
