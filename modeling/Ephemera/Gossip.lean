/-
# The gossip service (`ephemera-gossip/src/service.rs`)

`EagerGossipService`: the handlers of full messages, `IHAVE` and `IWANT`, and the loop that
asks for what was announced and did not come.  The receive loop handles one envelope at a
time; the timeout loop runs beside it and releases its locks before it sends, so it is cut
into the collection of what to ask for and the single requests.

A topic has one subscriber behind a bounded channel.  The channel keeps what was ever put
into it, and how much of that is still waiting.
-/
import Ephemera.GuardedRun
import Ephemera.SqlTable
import Ephemera.Wire

/-- `GossipTopic`, as bytes. -/
abbrev GossipTopic := List UInt8

/-- `NodeId`, as bytes. -/
abbrev NodeId := List UInt8

/-- `GossipWireMessage`. -/
structure GossipWireMessage (W : Wire) where
  topic : GossipTopic
  payload : W.Bytes
  contentHash : W.Digest
  origin : NodeId

/-- `IHaveMessage`. -/
structure IHaveMessage (W : Wire) where
  topic : GossipTopic
  contentHash : W.Digest
  origin : NodeId

/-- `IWantMessage`. -/
structure IWantMessage (W : Wire) where
  contentHash : W.Digest

/-- `GossipEnvelope`. -/
inductive GossipEnvelope (W : Wire) where
  | fullMessage (msg : GossipWireMessage W)
  | iHave (msg : IHaveMessage W)
  | iWant (msg : IWantMessage W)

/-- `GossipMessage`, which a subscriber receives. -/
structure GossipMessage (W : Wire) where
  topic : GossipTopic
  payload : W.Bytes
  contentHash : W.Digest
  sourceNode : NodeId

/-- `TopicState`: the channel to the subscriber, with all that was put into it, the number of
messages that wait in it, and its size. -/
structure TopicState (W : Wire) where
  delivered : List (GossipMessage W)
  waiting : ℕ
  capacity : ℕ

/-- `PendingIHave`; times are milliseconds. -/
structure PendingIHave where
  topic : GossipTopic
  source : NodeId
  receivedAt : ℕ
  origin : NodeId

/-- `EagerGossipService`: its shared maps, what the timeout loop is about to ask for, and the
envelopes its transport has sent. -/
structure GossipState (W : Wire) where
  localId : NodeId
  topics : SqlTable GossipTopic (TopicState W)
  seen : List W.Digest
  messageCache : SqlTable W.Digest (GossipWireMessage W)
  pendingIhaves : SqlTable W.Digest PendingIHave
  toRequest : List (W.Digest × NodeId)
  sent : List (NodeId × GossipEnvelope W)

/-- The transport during one call: the connected peers, and whether a send succeeds. -/
structure GossipNet (W : Wire) where
  connectedPeers : List NodeId
  sendOk : NodeId → GossipEnvelope W → Bool

namespace Gossip

variable {W : Wire}

/-- The size of a subscriber's channel. -/
def channelSize : ℕ := 256

/-- A service that has just been started. -/
def new (localId : NodeId) : GossipState W :=
  ⟨localId, .empty, [], .empty, .empty, [], []⟩

/-- The message `publish` makes of a payload. -/
def wireMessage (topic : GossipTopic) (payload : W.Bytes) (localId : NodeId) :
    GossipWireMessage W :=
  ⟨topic, payload, W.blake3 payload, localId⟩

/-- What a subscriber gets of a message. -/
def toSubscriber (msg : GossipWireMessage W) : GossipMessage W :=
  ⟨msg.topic, msg.payload, msg.contentHash, msg.origin⟩

/-- `try_send` into the channel of a topic: a full channel drops the message. -/
def trySend (channel : TopicState W) (msg : GossipMessage W) : TopicState W :=
  if channel.waiting < channel.capacity then
    { channel with delivered := channel.delivered ++ [msg], waiting := channel.waiting + 1 }
  else channel

/-- `transport.send`. -/
def send (s : GossipState W) (net : GossipNet W) (peer : NodeId) (envelope : GossipEnvelope W) :
    GossipState W :=
  if net.sendOk peer envelope then { s with sent := s.sent ++ [(peer, envelope)] } else s

/-- `EagerGossipService::subscribe`: a topic that is subscribed already gets a new channel. -/
def subscribe (s : GossipState W) (topic : GossipTopic) : GossipState W :=
  { s with topics := s.topics.insertOrReplace topic ⟨[], 0, channelSize⟩ }

/-- `EagerGossipService::unsubscribe`; the error for a topic without subscription changes
nothing. -/
def unsubscribe (s : GossipState W) (topic : GossipTopic) : GossipState W :=
  { s with topics := s.topics.deleteWhere (fun t _ => decide (t = topic)) }

/-- The subscriber of a topic takes one message. -/
def subscriberRecv (s : GossipState W) (topic : GossipTopic) : GossipState W :=
  { s with
    topics := s.topics.updateWhere (fun t _ => decide (t = topic))
      (fun channel => { channel with waiting := channel.waiting - 1 }) }

/-- Deliver a message to the subscriber of its topic, if there is one. -/
def deliver (s : GossipState W) (msg : GossipWireMessage W) : GossipState W :=
  { s with
    topics := s.topics.updateWhere (fun t _ => decide (t = msg.topic))
      (fun channel => trySend channel (toSubscriber msg)) }

/-- Forward a message to all peers but its sender, its origin and ourselves. -/
def forward (s : GossipState W) (net : GossipNet W) (msg : GossipWireMessage W)
    (sender : NodeId) : GossipState W :=
  (net.connectedPeers.filter (fun peer =>
      !(decide (peer = sender) || decide (peer = msg.origin) || decide (peer = s.localId)))).foldl
    (fun s peer => send s net peer (.fullMessage msg)) s

/-- `handle_full_message`. -/
def handleFullMessage (s : GossipState W) (net : GossipNet W) (msg : GossipWireMessage W)
    (sender : NodeId) : GossipState W :=
  if msg.contentHash ∈ s.seen then s
  else
    let s := { s with
      seen := msg.contentHash :: s.seen
      pendingIhaves := s.pendingIhaves.deleteWhere (fun h _ => decide (h = msg.contentHash))
      messageCache := s.messageCache.insertOrReplace msg.contentHash msg }
    forward (deliver s msg) net msg sender

/-- `handle_ihave`: `or_insert` keeps the announcement that is there. -/
def handleIhave (s : GossipState W) (msg : IHaveMessage W) (sender : NodeId) (now : ℕ) :
    GossipState W :=
  if msg.contentHash ∈ s.seen then s
  else { s with
    pendingIhaves := s.pendingIhaves.insertOrIgnore msg.contentHash
      ⟨msg.topic, sender, now, msg.origin⟩ }

/-- `handle_iwant`. -/
def handleIwant (s : GossipState W) (net : GossipNet W) (msg : IWantMessage W) (sender : NodeId) :
    GossipState W :=
  match s.messageCache.get? msg.contentHash with
  | some wireMsg => send s net sender (.fullMessage wireMsg)
  | none => s

/-- The dispatch of `receive_loop`. -/
def receive (s : GossipState W) (net : GossipNet W) (now : ℕ) (sender : NodeId) :
    GossipEnvelope W → GossipState W
  | .fullMessage msg => handleFullMessage s net msg sender
  | .iHave msg => handleIhave s msg sender now
  | .iWant msg => handleIwant s net msg sender

/-- The announcement is older than the timeout. -/
def timedOut (lazyTimeout now : ℕ) (entry : PendingIHave) : Bool :=
  decide (lazyTimeout ≤ now - entry.receivedAt)

/-- The first part of a tick of `lazy_timeout_loop`: what has come meanwhile is forgotten, and
what is overdue is taken out to be asked for.  The next tick waits for the requests. -/
def collect (lazyTimeout : ℕ) (s : GossipState W) (now : ℕ) : GossipState W :=
  if s.toRequest = [] then
    { s with
      toRequest := (s.pendingIhaves.selectWhere (fun h entry =>
        !decide (h ∈ s.seen) && timedOut lazyTimeout now entry)).map (fun r => (r.1, r.2.source))
      pendingIhaves := s.pendingIhaves.deleteWhere (fun h entry =>
        decide (h ∈ s.seen) || timedOut lazyTimeout now entry) }
  else s

/-- The second part of a tick, one request at a time; a failed send is only logged. -/
def requestNext (s : GossipState W) (net : GossipNet W) : GossipState W :=
  match s.toRequest with
  | [] => s
  | (hash, peer) :: rest => send { s with toRequest := rest } net peer (.iWant ⟨hash⟩)

end Gossip

/-- What happens to a gossip service. -/
inductive GossipOp (W : Wire) where
  | receive (net : GossipNet W) (now : ℕ) (sender : NodeId) (envelope : GossipEnvelope W)
  | collect (now : ℕ)
  | requestNext (net : GossipNet W)
  | subscribe (topic : GossipTopic)
  | unsubscribe (topic : GossipTopic)
  | subscriberRecv (topic : GossipTopic)

namespace Gossip

variable {W : Wire}

/-- One step of a gossip service. -/
def step (lazyTimeout : ℕ) (s : GossipState W) : GossipOp W → GossipState W
  | .receive net now sender envelope => receive s net now sender envelope
  | .collect now => collect lazyTimeout s now
  | .requestNext net => requestNext s net
  | .subscribe topic => subscribe s topic
  | .unsubscribe topic => unsubscribe s topic
  | .subscriberRecv topic => subscriberRecv s topic

/-! ## What a send leaves alone -/

/-- A send only adds to the sent envelopes. -/
theorem send_eq (s : GossipState W) (net : GossipNet W) (peer : NodeId)
    (envelope : GossipEnvelope W) :
    ∃ more, send s net peer envelope = { s with sent := s.sent ++ more } := by
  unfold send
  split
  · exact ⟨[(peer, envelope)], rfl⟩
  · exact ⟨[], by rw [List.append_nil]⟩

/-- So does the forwarding of a message. -/
theorem forward_eq (s : GossipState W) (net : GossipNet W) (msg : GossipWireMessage W)
    (sender : NodeId) :
    ∃ more, forward s net msg sender = { s with sent := s.sent ++ more } := by
  unfold forward
  generalize net.connectedPeers.filter _ = peers
  induction peers generalizing s with
  | nil => exact ⟨[], by rw [List.append_nil]; rfl⟩
  | cons peer peers ih =>
    rw [List.foldl_cons]
    obtain ⟨more₁, h₁⟩ := send_eq s net peer (.fullMessage msg)
    obtain ⟨more₂, h₂⟩ := ih (send s net peer (.fullMessage msg))
    refine ⟨more₁ ++ more₂, ?_⟩
    rw [h₂, h₁, List.append_assoc]

end Gossip
