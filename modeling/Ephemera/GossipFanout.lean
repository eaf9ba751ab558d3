/-
# Whom a publish reaches (`ephemera-gossip/src/fanout.rs`)

`publish` sends the full message to some of the connected peers and an announcement to the
others.  `select_fanout` shuffles the peers and cuts two slices off the front, the eager and
the lazy ones, each with a cap of its own; who is in neither slice is told as well, in a third
loop.

`publish_reachesOnce` says that the three loops together hand each connected peer one envelope
and nobody else any, whatever the caps and the shuffle are.
-/
import Ephemera.Gossip
import Ephemera.HashMap

/-- `FanoutConfig`, with the two caps that `publish` reads. -/
structure FanoutConfig where
  eagerPushPeers : ℕ
  lazyPushPeers : ℕ

/-- `FanoutConfig::default`. -/
def FanoutConfig.default : FanoutConfig := ⟨3, 6⟩

/-- What `shuffle` does with a random source: some order of the elements. -/
abbrev Shuffle (α : Type) := VisitOrder α

namespace Gossip

variable {W : Wire}

/-! ## Publishing -/

/-- `select_fanout`. -/
def selectFanout (shuffle : Shuffle NodeId) (candidates : List NodeId) (config : FanoutConfig) :
    List NodeId × List NodeId :=
  if candidates = [] then ([], [])
  else
    let shuffled := shuffle.visit candidates
    let eagerCount := min config.eagerPushPeers shuffled.length
    let eager := shuffled.take eagerCount
    let remaining := shuffled.drop eagerCount
    let lazyCount := min config.lazyPushPeers remaining.length
    (eager, remaining.take lazyCount)

/-- The announcement of a message. -/
def announcement (msg : GossipWireMessage W) : IHaveMessage W :=
  ⟨msg.topic, msg.contentHash, msg.origin⟩

/-- What the three loops of `publish` hand to the transport, in order. -/
def publishSends (shuffle : Shuffle NodeId) (peers : List NodeId) (config : FanoutConfig)
    (msg : GossipWireMessage W) : List (NodeId × GossipEnvelope W) :=
  let (eagerPeers, lazyPeers) := selectFanout shuffle peers config
  let overflow :=
    if eagerPeers.length + lazyPeers.length < peers.length then
      peers.filter (fun peer => !(eagerPeers ++ lazyPeers).contains peer)
    else []
  eagerPeers.map (fun peer => (peer, .fullMessage msg)) ++
    lazyPeers.map (fun peer => (peer, .iHave (announcement msg))) ++
    overflow.map (fun peer => (peer, .iHave (announcement msg)))

/-- `publish`: a send that fails is only logged, and envelopes can always be serialised. -/
def publish (s : GossipState W) (net : GossipNet W) (shuffle : Shuffle NodeId)
    (config : FanoutConfig) (topic : GossipTopic) (payload : W.Bytes) : GossipState W :=
  let msg := wireMessage topic payload s.localId
  let s := { s with
    seen := msg.contentHash :: s.seen
    messageCache := s.messageCache.insertOrReplace msg.contentHash msg }
  (publishSends shuffle net.connectedPeers config msg).foldl
    (fun s handed => send s net handed.1 handed.2) (deliver s msg)

/-! ## What a run of sends does -/

/-- Sends, one after the other, leave what the transport took. -/
theorem foldl_send (net : GossipNet W) (sends : List (NodeId × GossipEnvelope W))
    (s : GossipState W) :
    sends.foldl (fun s handed => send s net handed.1 handed.2) s
      = { s with sent := s.sent ++ sends.filter (fun handed => net.sendOk handed.1 handed.2) } := by
  induction sends generalizing s with
  | nil => simp
  | cons handed sends ih =>
    rw [List.foldl_cons, ih, List.filter_cons]
    by_cases hok : net.sendOk handed.1 handed.2 = true
    · rw [send, if_pos hok, if_pos hok, List.append_assoc, List.singleton_append]
    · rw [send, if_neg hok, if_neg hok]

/-! ## The slices -/

section Slices

variable (shuffle : Shuffle NodeId) {peers : List NodeId} (config : FanoutConfig)

/-- The eager and the lazy peers stand in the shuffled list, one slice after the other. -/
theorem selectFanout_sublist (peers : List NodeId) :
    ((selectFanout shuffle peers config).1 ++ (selectFanout shuffle peers config).2).Sublist
      (shuffle.visit peers) := by
  unfold selectFanout
  split
  · exact List.nil_sublist _
  · simp only
    conv_rhs => rw [← List.take_append_drop (min config.eagerPushPeers (shuffle.visit peers).length)
      (shuffle.visit peers)]
    exact (List.Sublist.refl _).append (List.take_sublist _ _)

theorem length_selectFanout_fst (peers : List NodeId) :
    (selectFanout shuffle peers config).1.length = min config.eagerPushPeers peers.length := by
  unfold selectFanout
  split
  · rename_i hnil
    rw [hnil, List.length_nil, Nat.min_zero]
  · rw [List.length_take, (shuffle.perm peers).length_eq, Nat.min_assoc, Nat.min_self]

/-- A part of the peers, and then those who are not in it, are all of them. -/
theorem append_filter_perm {chosen : List NodeId} (hpeers : peers.Nodup) (hchosen : chosen.Nodup)
    (hsub : chosen ⊆ peers) :
    (chosen ++ peers.filter (fun peer => !chosen.contains peer)).Perm peers := by
  have hrest : (peers.filter (fun peer => !chosen.contains peer)).Nodup := hpeers.filter _
  have hdisjoint : chosen.Disjoint (peers.filter (fun peer => !chosen.contains peer)) := by
    intro peer hmem hrest
    simpa [hmem] using (List.mem_filter.mp hrest).2
  refine (List.perm_ext_iff_of_nodup (hchosen.append hrest hdisjoint) hpeers).mpr (fun peer => ?_)
  rw [List.mem_append, List.mem_filter]
  by_cases hmem : peer ∈ chosen
  · simp [hmem, hsub hmem]
  · simp [hmem]

/-- The peers to whom something is handed are the connected ones, each once. -/
theorem publishSends_peers (hpeers : peers.Nodup) (msg : GossipWireMessage W) :
    ((publishSends shuffle peers config msg).map Prod.fst).Perm peers := by
  have hsub := selectFanout_sublist shuffle config peers
  have hperm := shuffle.perm peers
  unfold publishSends
  generalize selectFanout shuffle peers config = slices at hsub ⊢
  obtain ⟨eager, lazyPeers⟩ := slices
  simp only [List.map_append, List.map_map, Function.comp_def, List.map_id']
  have hchosen : (eager ++ lazyPeers).Nodup := hsub.nodup (hperm.nodup_iff.mpr hpeers)
  by_cases hlt : eager.length + lazyPeers.length < peers.length
  · rw [if_pos hlt]
    exact append_filter_perm hpeers hchosen (fun peer hmem => hperm.mem_iff.mp (hsub.subset hmem))
  · -- the caps leave nobody out: the two slices are the whole shuffled list
    rw [if_neg hlt, List.append_nil]
    have hlen : (shuffle.visit peers).length ≤ (eager ++ lazyPeers).length := by
      rw [hperm.length_eq, List.length_append]
      exact not_lt.mp hlt
    rw [hsub.eq_of_length_le hlen]
    exact hperm

end Slices

/-! ## Each peer once -/

/-- The envelope is a full message. -/
def isFull : GossipEnvelope W → Bool
  | .fullMessage _ => true
  | _ => false

/-- The envelopes hand the message to the peers: each of them gets one, the message or its
announcement, and as many as there should be get the message. -/
structure ReachesOnce (peers : List NodeId) (eager : ℕ) (msg : GossipWireMessage W)
    (sends : List (NodeId × GossipEnvelope W)) : Prop where
  once : ∀ peer, sends.countP (fun handed => decide (handed.1 = peer))
    = if peer ∈ peers then 1 else 0
  envelope : ∀ handed ∈ sends,
    handed.2 = .fullMessage msg ∨ handed.2 = .iHave (announcement msg)
  full : sends.countP (fun handed => isFull handed.2) = eager

theorem publishSends_envelope {shuffle : Shuffle NodeId} {peers : List NodeId}
    {config : FanoutConfig} {msg : GossipWireMessage W} {handed : NodeId × GossipEnvelope W}
    (h : handed ∈ publishSends shuffle peers config msg) :
    handed.2 = .fullMessage msg ∨ handed.2 = .iHave (announcement msg) := by
  simp only [publishSends, List.mem_append, List.mem_map] at h
  obtain (⟨peer, -, rfl⟩ | ⟨peer, -, rfl⟩) | ⟨peer, -, rfl⟩ := h
  · exact .inl rfl
  · exact .inr rfl
  · exact .inr rfl

/-- Only the loop over the eager peers sends full messages. -/
theorem publishSends_full (shuffle : Shuffle NodeId) (peers : List NodeId) (config : FanoutConfig)
    (msg : GossipWireMessage W) :
    (publishSends shuffle peers config msg).countP (fun handed => isFull handed.2)
      = min config.eagerPushPeers peers.length := by
  rw [← length_selectFanout_fst shuffle config peers]
  unfold publishSends
  generalize selectFanout shuffle peers config = slices
  obtain ⟨eager, lazyPeers⟩ := slices
  simp only [List.countP_append, List.countP_map, Function.comp_def, isFull]
  simp

theorem publishSends_reachesOnce (shuffle : Shuffle NodeId) {peers : List NodeId}
    (config : FanoutConfig) (msg : GossipWireMessage W) (hpeers : peers.Nodup) :
    ReachesOnce peers (min config.eagerPushPeers peers.length) msg
      (publishSends shuffle peers config msg) where
  once peer := by
    have hperm := publishSends_peers shuffle config hpeers msg
    have hcount : (publishSends shuffle peers config msg).countP
        (fun handed => decide (handed.1 = peer)) = peers.count peer := by
      rw [← hperm.count_eq, List.count, List.countP_map]
      exact List.countP_congr (fun handed _ => by simp)
    rw [hcount, hpeers.count]
  envelope _ h := publishSends_envelope h
  full := publishSends_full shuffle peers config msg

/-- What a publish leaves. -/
theorem publish_eq (s : GossipState W) (net : GossipNet W) (shuffle : Shuffle NodeId)
    (config : FanoutConfig) (topic : GossipTopic) (payload : W.Bytes) :
    publish s net shuffle config topic payload =
      let msg := wireMessage topic payload s.localId
      { deliver s msg with
        seen := msg.contentHash :: s.seen
        messageCache := s.messageCache.insertOrReplace msg.contentHash msg
        sent := s.sent ++ (publishSends shuffle net.connectedPeers config msg).filter
          (fun handed => net.sendOk handed.1 handed.2) } := by
  unfold publish
  simp only
  rw [foldl_send]
  rfl

/-- **A publish reaches everyone once.**  What it hands to the transport is one envelope for
each connected peer and none for anyone else, a full message for as many as the cap allows, and
what is sent is what the transport takes of these. -/
theorem publish_reachesOnce (s : GossipState W) (net : GossipNet W) (shuffle : Shuffle NodeId)
    (config : FanoutConfig) (topic : GossipTopic) (payload : W.Bytes)
    (hpeers : net.connectedPeers.Nodup) :
    (publish s net shuffle config topic payload).sent
        = s.sent ++ (publishSends shuffle net.connectedPeers config
            (wireMessage topic payload s.localId)).filter
          (fun handed => net.sendOk handed.1 handed.2) ∧
      ReachesOnce net.connectedPeers (min config.eagerPushPeers net.connectedPeers.length)
        (wireMessage topic payload s.localId)
        (publishSends shuffle net.connectedPeers config (wireMessage topic payload s.localId)) := by
  constructor
  · rw [publish_eq]
  · exact publishSends_reachesOnce shuffle config _ hpeers

/-- The default caps, with a transport that takes everything: of five peers three get the
message and two its announcement. -/
theorem publish_reachesOnce_five :
    ReachesOnce [[1], [2], [3], [4], [5]] 3
      (wireMessage [7] (.str "hi") [0] : GossipWireMessage Wire.symbolic)
      (publish (new [0] : GossipState Wire.symbolic)
        ⟨[[1], [2], [3], [4], [5]], fun _ _ => true⟩ (.first [4]) .default [7]
        (.str "hi")).sent := by
  obtain ⟨hsent, hreaches⟩ := publish_reachesOnce (new [0] : GossipState Wire.symbolic)
    ⟨[[1], [2], [3], [4], [5]], fun _ _ => true⟩ (.first [4]) .default [7] (.str "hi") (by decide)
  rw [hsent, List.filter_eq_self.mpr (fun _ _ => rfl)]
  exact hreaches

/-! ## What those who got only the announcement can do -/

end Gossip
