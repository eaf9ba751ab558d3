/-
# Delivery of gossip under a hash from the wire

`handle_full_message` drops what has a content hash it has seen, caches the rest under that
hash, and hands it to the subscriber of its topic.  The hash is the one the envelope gives,
and the topic is not part of it.  So of all envelopes with one hash the first decides: what
the cache answers with, and on which topic something is delivered.

`tracks_run` says this of every run.  From it, `unpoisoned_iff` gives the exact condition on
the envelopes under which each honest payload is delivered once and the cache is right.
-/
import Ephemera.FirstByKey
import Ephemera.Gossip

namespace GossipDelivery

open FirstByKey GuardedRun Gossip

variable {W : Wire}

/-! ## What a run leaves -/

/-- The message of a step that processes a full message. -/
def fullOf : GossipOp W → List (GossipWireMessage W)
  | .receive _ _ _ (.fullMessage msg) => [msg]
  | _ => []

/-- The full messages of a run, in order of arrival. -/
def fulls (ops : List (GossipOp W)) : List (GossipWireMessage W) := ops.flatMap fullOf

/-- The first message with a hash. -/
def firstWith (msgs : List (GossipWireMessage W)) (h : W.Digest) : Option (GossipWireMessage W) :=
  msgs.find? (fun msg => decide (msg.contentHash = h))

/-- What the subscriber of `t` is given, of a list of messages. -/
def deliveries (t : GossipTopic) (msgs : List (GossipWireMessage W)) : List (GossipMessage W) :=
  ((firstBy GossipWireMessage.contentHash msgs).filter (fun msg => decide (msg.topic = t))).map
    toSubscriber

/-- The state after the full messages `msgs`, as far as their delivery on `t` goes. -/
structure Tracks (t : GossipTopic) (msgs : List (GossipWireMessage W)) (s : GossipState W) :
    Prop where
  seen : ∀ h, h ∈ s.seen ↔ h ∈ msgs.map GossipWireMessage.contentHash
  cache : ∀ h, s.messageCache.get? h = firstWith msgs h
  channel : ∃ channel, s.topics.get? t = some channel ∧ channel.delivered = deliveries t msgs

/-- The node stays subscribed to `t`, and the channel of `t` is never full. -/
def Stays (t : GossipTopic) (s : GossipState W) : GossipOp W → Prop
  | .receive _ _ _ (.fullMessage msg) => msg.topic = t →
      ∀ channel, s.topics.get? t = some channel → channel.waiting < channel.capacity
  | .subscribe topic => topic ≠ t
  | .unsubscribe topic => topic ≠ t
  | _ => True

section Steps

variable {t : GossipTopic} {msgs : List (GossipWireMessage W)} {s : GossipState W}

/-- A step that leaves hashes, cache and subscription leaves the record. -/
theorem Tracks.of_eq {s' : GossipState W} (h : Tracks t msgs s) (hseen : s'.seen = s.seen)
    (hcache : s'.messageCache = s.messageCache)
    (hchannel : ∀ channel, s.topics.get? t = some channel →
      ∃ channel', s'.topics.get? t = some channel' ∧ channel'.delivered = channel.delivered) :
    Tracks t msgs s' := by
  refine ⟨by rw [hseen]; exact h.seen, by rw [hcache]; exact h.cache, ?_⟩
  obtain ⟨channel, hget, hdel⟩ := h.channel
  obtain ⟨channel', hget', hdel'⟩ := hchannel channel hget
  exact ⟨channel', hget', hdel'.trans hdel⟩

/-- A hash that was seen decides nothing any more. -/
theorem firstWith_append_singleton (msgs : List (GossipWireMessage W)) (msg : GossipWireMessage W)
    (h : W.Digest) :
    firstWith (msgs ++ [msg]) h
      = (firstWith msgs h).or (if msg.contentHash = h then some msg else none) := by
  unfold firstWith
  rw [List.find?_append, List.find?_singleton]
  simp only [decide_eq_true_eq]

theorem firstWith_ne_none_iff {h : W.Digest} :
    firstWith msgs h ≠ none ↔ h ∈ msgs.map GossipWireMessage.contentHash := by
  unfold firstWith
  rw [Ne, List.find?_eq_none, List.mem_map]
  simp

theorem deliveries_append_singleton (t : GossipTopic) (msgs : List (GossipWireMessage W))
    (msg : GossipWireMessage W) :
    deliveries t (msgs ++ [msg])
      = if msg.contentHash ∉ msgs.map GossipWireMessage.contentHash ∧ msg.topic = t then
          deliveries t msgs ++ [toSubscriber msg]
        else deliveries t msgs := by
  unfold deliveries
  rw [firstBy_append_singleton]
  by_cases hseen : msg.contentHash ∈ msgs.map GossipWireMessage.contentHash
  · rw [if_pos hseen, if_neg (fun hc => hc.1 hseen)]
  · rw [if_neg hseen, List.filter_append, List.map_append]
    by_cases htopic : msg.topic = t
    · rw [if_pos ⟨hseen, htopic⟩]
      simp [htopic]
    · rw [if_neg (fun hc => htopic hc.2)]
      simp [htopic]

/-- A message with a known hash is dropped. -/
theorem tracks_seen (h : Tracks t msgs s) (msg : GossipWireMessage W)
    (hseen : msg.contentHash ∈ s.seen) : Tracks t (msgs ++ [msg]) s := by
  have hold := (h.seen _).mp hseen
  constructor
  · intro h'
    rw [h.seen, List.map_append, List.mem_append, List.map_singleton, List.mem_singleton]
    constructor
    · exact Or.inl
    · rintro (hmem | rfl)
      · exact hmem
      · exact hold
  · intro h'
    rw [h.cache, firstWith_append_singleton]
    by_cases hh : msg.contentHash = h'
    · subst hh
      obtain ⟨f, hf⟩ := Option.ne_none_iff_exists'.mp (firstWith_ne_none_iff.mpr hold)
      rw [hf, Option.some_or]
    · rw [if_neg hh, Option.or_none]
  · rw [deliveries_append_singleton, if_neg (fun hc => hc.1 hold)]
    exact h.channel

/-- A message with a new hash is cached, and delivered if it is on `t`. -/
theorem tracks_new (h : Tracks t msgs s) (msg : GossipWireMessage W)
    (hnew : msg.contentHash ∉ s.seen)
    (hroom : msg.topic = t → ∀ channel, s.topics.get? t = some channel →
      channel.waiting < channel.capacity) (net : GossipNet W) (sender : NodeId) :
    Tracks t (msgs ++ [msg]) (handleFullMessage s net msg sender) := by
  have hfresh : msg.contentHash ∉ msgs.map GossipWireMessage.contentHash :=
    fun hmem => hnew ((h.seen _).mpr hmem)
  unfold handleFullMessage
  rw [if_neg hnew]
  simp only
  generalize hs : ({ s with
    seen := msg.contentHash :: s.seen
    pendingIhaves := s.pendingIhaves.deleteWhere (fun h _ => decide (h = msg.contentHash))
    messageCache := s.messageCache.insertOrReplace msg.contentHash msg } : GossipState W) = s₁
  obtain ⟨more, hforward⟩ := forward_eq (deliver s₁ msg) net msg sender
  rw [hforward]
  subst hs
  constructor
  · intro h'
    show h' ∈ msg.contentHash :: s.seen ↔ _
    rw [List.mem_cons, h.seen, List.map_append, List.mem_append, List.map_singleton,
      List.mem_singleton, or_comm]
  · intro h'
    show (s.messageCache.insertOrReplace msg.contentHash msg).get? h' = _
    rw [SqlTable.get?_insertOrReplace, firstWith_append_singleton, h.cache]
    by_cases hh : h' = msg.contentHash
    · subst hh
      have hnone : firstWith msgs msg.contentHash = none := by
        by_contra hne
        exact hfresh (firstWith_ne_none_iff.mp hne)
      rw [if_pos rfl, hnone, if_pos rfl, Option.none_or]
    · rw [if_neg hh, if_neg (fun heq => hh heq.symm), Option.or_none]
  · obtain ⟨channel, hget, hdel⟩ := h.channel
    show ∃ channel', (s.topics.updateWhere _ _).get? t = some channel' ∧ _
    rw [SqlTable.get?_updateWhere, hget, deliveries_append_singleton]
    by_cases htopic : msg.topic = t
    · rw [if_pos ⟨hfresh, htopic⟩]
      refine ⟨_, rfl, ?_⟩
      simp only [htopic, decide_true, if_true]
      rw [trySend, if_pos (hroom htopic channel hget), hdel]
    · rw [if_neg (fun hc => htopic hc.2)]
      refine ⟨_, rfl, ?_⟩
      have hne : ¬t = msg.topic := fun heq => htopic heq.symm
      simpa [hne] using hdel

/-- Sending to peers leaves the record. -/
theorem tracks_send (h : Tracks t msgs s) (net : GossipNet W) (peer : NodeId)
    (envelope : GossipEnvelope W) : Tracks t msgs (send s net peer envelope) := by
  obtain ⟨more, heq⟩ := send_eq s net peer envelope
  rw [heq]
  exact h.of_eq rfl rfl (fun channel hget => ⟨channel, hget, rfl⟩)

theorem tracks_receive (h : Tracks t msgs s) (net : GossipNet W) (now : ℕ) (sender : NodeId)
    (envelope : GossipEnvelope W) (hstays : Stays t s (.receive net now sender envelope)) :
    Tracks t (msgs ++ fullOf (.receive net now sender envelope))
      (receive s net now sender envelope) := by
  cases envelope with
  | fullMessage msg =>
    by_cases hseen : msg.contentHash ∈ s.seen
    · show Tracks t (msgs ++ [msg]) (handleFullMessage s net msg sender)
      rw [handleFullMessage, if_pos hseen]
      exact tracks_seen h msg hseen
    · exact tracks_new h msg hseen hstays net sender
  | iHave msg =>
    show Tracks t (msgs ++ []) (handleIhave s msg sender now)
    rw [List.append_nil, handleIhave]
    split
    · exact h
    · exact h.of_eq rfl rfl (fun channel hget => ⟨channel, hget, rfl⟩)
  | iWant msg =>
    show Tracks t (msgs ++ []) (handleIwant s net msg sender)
    rw [List.append_nil, handleIwant]
    split
    · exact tracks_send h net sender _
    · exact h

/-- What the steps other than the receipt of an envelope do to the channel of `t`. -/
theorem tracks_step (lazyTimeout : ℕ) (h : Tracks t msgs s) (op : GossipOp W)
    (hstays : Stays t s op) : Tracks t (msgs ++ fullOf op) (step lazyTimeout s op) := by
  cases op with
  | receive net now sender envelope => exact tracks_receive h net now sender envelope hstays
  | collect now =>
    show Tracks t (msgs ++ []) (collect lazyTimeout s now)
    rw [List.append_nil, collect]
    split
    · exact h.of_eq rfl rfl (fun channel hget => ⟨channel, hget, rfl⟩)
    · exact h
  | requestNext net =>
    show Tracks t (msgs ++ []) (requestNext s net)
    rw [List.append_nil, requestNext]
    split
    · exact h
    · refine tracks_send ?_ net _ _
      exact h.of_eq rfl rfl (fun channel hget => ⟨channel, hget, rfl⟩)
  | subscribe topic =>
    show Tracks t (msgs ++ []) (subscribe s topic)
    rw [List.append_nil]
    refine h.of_eq rfl rfl (fun channel hget => ⟨channel, ?_, rfl⟩)
    show (s.topics.insertOrReplace topic _).get? t = _
    rw [SqlTable.get?_insertOrReplace, if_neg (fun heq => hstays heq.symm), hget]
  | unsubscribe topic =>
    show Tracks t (msgs ++ []) (unsubscribe s topic)
    rw [List.append_nil]
    refine h.of_eq rfl rfl (fun channel hget => ⟨channel, ?_, rfl⟩)
    show (s.topics.deleteWhere _).get? t = _
    rw [SqlTable.get?_deleteWhere_key, hget, if_neg]
    simpa using (fun heq : t = topic => hstays heq.symm)
  | subscriberRecv topic =>
    show Tracks t (msgs ++ []) (subscriberRecv s topic)
    rw [List.append_nil]
    refine h.of_eq rfl rfl (fun channel hget => ?_)
    show ∃ channel', (s.topics.updateWhere _ _).get? t = some channel' ∧ _
    rw [SqlTable.get?_updateWhere, hget]
    refine ⟨_, rfl, ?_⟩
    split <;> rfl

/-- **What a run leaves.**  The cache has the first message of each hash, and the subscriber
of `t` was given those of them that are on `t`. -/
theorem tracks_run (lazyTimeout : ℕ) (h : Tracks t msgs s) (ops : List (GossipOp W))
    (hstays : Meets (step lazyTimeout) (Stays t) s ops) :
    Tracks t (msgs ++ fulls ops) (run (step lazyTimeout) s ops) := by
  induction ops generalizing msgs s with
  | nil => rwa [fulls, List.flatMap_nil, List.append_nil]
  | cons op ops ih =>
    have hnext := ih (tracks_step lazyTimeout h op hstays.1) hstays.2
    rwa [List.append_assoc] at hnext

end Steps

/-! ## Poisoning -/

/-- The message is one that `publish` builds. -/
def Honest (msg : GossipWireMessage W) : Prop :=
  ∃ topic payload localId, msg = wireMessage topic payload localId

open Classical in
/-- The subscriber of `t` was given the payload exactly once. -/
def DeliveredOnce (s : GossipState W) (t : GossipTopic) (payload : W.Bytes) : Prop :=
  ∃ channel, s.topics.get? t = some channel ∧
    channel.delivered.countP (fun m => decide (m.topic = t ∧ m.payload = payload)) = 1

/-- The full messages `msgs` have not poisoned the service: each payload that an honest one
of them carries on `t` is delivered exactly once, and an `IWANT` is answered with a payload of
the hash that was asked for. -/
structure Unpoisoned (t : GossipTopic) (msgs : List (GossipWireMessage W)) (s : GossipState W) :
    Prop where
  once : ∀ msg ∈ msgs, Honest msg → msg.topic = t → DeliveredOnce s t msg.payload
  answers : ∀ (net : GossipNet W) (peer : NodeId) (h : W.Digest) (reply : GossipWireMessage W),
    (peer, .fullMessage reply) ∈ (handleIwant { s with sent := [] } net ⟨h⟩ peer).sent →
    W.blake3 reply.payload = h

/-- The first message of each hash carries a payload of that hash, and the first message with
the hash of an honest message on `t` is on `t` too. -/
structure WellOrdered (t : GossipTopic) (msgs : List (GossipWireMessage W)) : Prop where
  genuine : ∀ h first, firstWith msgs h = some first → W.blake3 first.payload = h
  sameTopic : ∀ msg ∈ msgs, Honest msg → msg.topic = t →
    ∀ first, firstWith msgs msg.contentHash = some first → first.topic = t

/-- An `IWANT` is answered from the cache. -/
theorem mem_sent_handleIwant {s : GossipState W} {net : GossipNet W} {peer : NodeId}
    {h : W.Digest} {reply : GossipWireMessage W} :
    (peer, .fullMessage reply) ∈ (handleIwant { s with sent := [] } net ⟨h⟩ peer).sent ↔
      s.messageCache.get? h = some reply ∧ net.sendOk peer (.fullMessage reply) = true := by
  unfold handleIwant
  cases hget : s.messageCache.get? h with
  | none => simp
  | some msg =>
    simp only [send]
    split
    · rename_i hok
      constructor
      · intro hmem
        simp only [List.nil_append, List.mem_singleton, Prod.mk.injEq,
          GossipEnvelope.fullMessage.injEq, true_and] at hmem
        subst hmem
        exact ⟨rfl, hok⟩
      · rintro ⟨heq, -⟩
        obtain rfl := Option.some.inj heq
        simp
    · rename_i hok
      constructor
      · intro hmem
        cases hmem
      · rintro ⟨heq, hok'⟩
        obtain rfl := Option.some.inj heq
        exact absurd hok' hok

/-- What is kept of the messages under their hashes. -/
theorem mem_firsts_iff {msgs : List (GossipWireMessage W)} {msg : GossipWireMessage W} :
    msg ∈ firstBy GossipWireMessage.contentHash msgs
      ↔ firstWith msgs msg.contentHash = some msg :=
  mem_firstBy_iff

section Poisoning

variable {t : GossipTopic} {msgs : List (GossipWireMessage W)} {s : GossipState W}

open Classical in
/-- In a good order, each honest payload is delivered once. -/
theorem WellOrdered.countP_deliveries
    (hhash : Set.InjOn W.blake3 {bytes | ∃ msg ∈ msgs, msg.payload = bytes})
    (h : WellOrdered t msgs) {msg : GossipWireMessage W} (hmem : msg ∈ msgs)
    (hhonest : Honest msg) (htopic : msg.topic = t) :
    (deliveries t msgs).countP (fun m => decide (m.topic = t ∧ m.payload = msg.payload)) = 1 := by
  have hcontent : msg.contentHash = W.blake3 msg.payload := by
    obtain ⟨topic, payload, localId, rfl⟩ := hhonest
    rfl
  obtain ⟨first, hfirst⟩ := Option.ne_none_iff_exists'.mp
    (firstWith_ne_none_iff.mpr (List.mem_map.mpr ⟨msg, hmem, rfl⟩))
  have hfirstHash : first.contentHash = msg.contentHash := by
    simpa using List.find?_some hfirst
  have hkept : first ∈ firstBy GossipWireMessage.contentHash msgs := by
    rw [mem_firsts_iff, hfirstHash]
    exact hfirst
  unfold deliveries
  rw [List.countP_map, List.countP_filter]
  -- among the kept messages, topic and payload single out the hash of `msg`
  refine countP_eq_one (nodup_map_firstBy msgs)
    (List.mem_map.mpr ⟨first, hkept, hfirstHash⟩) ?_
  intro a ha
  have hgenuine := h.genuine _ a (mem_firsts_iff.mp ha)
  rw [Function.comp_apply, Bool.and_eq_true, decide_eq_true_eq, decide_eq_true_eq]
  show (a.topic = t ∧ a.payload = msg.payload) ∧ a.topic = t ↔ a.contentHash = msg.contentHash
  constructor
  · rintro ⟨⟨-, hpayload⟩, -⟩
    rw [← hgenuine, hpayload, hcontent]
  · intro heq
    have hpayload : a.payload = msg.payload := by
      refine hhash ⟨a, List.mem_of_find?_eq_some (mem_firsts_iff.mp ha), rfl⟩ ⟨msg, hmem, rfl⟩ ?_
      rw [hgenuine, heq, hcontent]
    have hsame : a.topic = t := by
      refine h.sameTopic msg hmem hhonest htopic a ?_
      rw [← heq]
      exact mem_firsts_iff.mp ha
    exact ⟨⟨hsame, hpayload⟩, hsame⟩

theorem Tracks.unpoisoned
    (hhash : Set.InjOn W.blake3 {bytes | ∃ msg ∈ msgs, msg.payload = bytes}) (h : Tracks t msgs s)
    (hord : WellOrdered t msgs) : Unpoisoned t msgs s := by
  constructor
  · intro msg hmem hhonest htopic
    obtain ⟨channel, hget, hdel⟩ := h.channel
    refine ⟨channel, hget, ?_⟩
    rw [hdel]
    exact hord.countP_deliveries hhash hmem hhonest htopic
  · intro net peer h' reply hreply
    rw [mem_sent_handleIwant, h.cache] at hreply
    exact hord.genuine h' reply hreply.1

theorem Tracks.wellOrdered (h : Tracks t msgs s) (hun : Unpoisoned t msgs s) :
    WellOrdered t msgs := by
  have hgenuine : ∀ h first, firstWith msgs h = some first → W.blake3 first.payload = h := by
    intro h' first hfirst
    refine hun.answers ⟨[], fun _ _ => true⟩ [] h' first (mem_sent_handleIwant.mpr ⟨?_, rfl⟩)
    rw [h.cache, hfirst]
  refine ⟨hgenuine, ?_⟩
  intro msg hmem hhonest htopic first hfirst
  have hhash : msg.contentHash = W.blake3 msg.payload := by
    obtain ⟨topic, payload, localId, rfl⟩ := hhonest
    rfl
  -- the one delivery of the payload is the first message with its hash
  obtain ⟨channel, hget, hcount⟩ := hun.once msg hmem hhonest htopic
  obtain ⟨channel', hget', hdel⟩ := h.channel
  obtain rfl := Option.some.inj (hget.symm.trans hget')
  have hpos := Nat.one_pos
  rw [← hcount] at hpos
  obtain ⟨m, hm, hpayload⟩ := List.countP_pos_iff.mp hpos
  rw [hdel, deliveries] at hm
  obtain ⟨a, ha, rfl⟩ := List.mem_map.mp hm
  obtain ⟨ha, hat⟩ := List.mem_filter.mp ha
  simp only [decide_eq_true_eq] at hpayload
  have hpayload' : a.payload = msg.payload := hpayload.2
  have ha' := mem_firsts_iff.mp ha
  have haHash : a.contentHash = msg.contentHash := by
    rw [hhash, ← hpayload', hgenuine _ a ha']
  rw [haHash, hfirst] at ha'
  rw [Option.some.inj ha']
  exact of_decide_eq_true hat

/-- A service that has seen nothing, with a new subscription to `t`. -/
structure Fresh (t : GossipTopic) (s : GossipState W) : Prop where
  seen : s.seen = []
  cache : s.messageCache = .empty
  channel : s.topics.get? t = some ⟨[], 0, channelSize⟩

theorem Fresh.tracks (h : Fresh t s) : Tracks t [] s := by
  refine ⟨?_, ?_, ⟨_, h.channel, rfl⟩⟩
  · simp [h.seen]
  · intro h'
    rw [h.cache]
    rfl

/-- **When gossip is not poisoned.**  In every run of a service that starts subscribed to `t`
with nothing seen, stays subscribed to `t` and never finds the channel of `t` full: each
honest payload on `t` is delivered exactly once and every answer to an `IWANT` has the hash
asked for, exactly if the first message of each hash is genuine and the first message with
the hash of an honest one on `t` is on `t`. -/
theorem unpoisoned_iff (lazyTimeout : ℕ) (t : GossipTopic) (start : GossipState W)
    (hstart : Fresh t start) (ops : List (GossipOp W))
    (hhash : Set.InjOn W.blake3 {bytes | ∃ msg ∈ fulls ops, msg.payload = bytes})
    (hstays : Meets (step lazyTimeout) (Stays t) start ops) :
    Unpoisoned t (fulls ops) (run (step lazyTimeout) start ops) ↔ WellOrdered t (fulls ops) := by
  have htracks : Tracks t (fulls ops) (run (step lazyTimeout) start ops) := by
    simpa using tracks_run lazyTimeout hstart.tracks ops hstays
  exact ⟨htracks.wellOrdered, htracks.unpoisoned hhash⟩

end Poisoning

/-! ## A poisoned hash -/

/-- A service that is subscribed to the topic `[7]`. -/
def subscribed : GossipState Wire.symbolic := subscribe (new [0]) [7]

theorem subscribed_fresh : Fresh [7] subscribed := ⟨rfl, rfl, rfl⟩

/-- Node 1 forwards a message to us. -/
def arrives (msg : GossipWireMessage Wire.symbolic) : GossipOp Wire.symbolic :=
  .receive ⟨[], fun _ _ => true⟩ 0 [1] (.fullMessage msg)

/-- An honest message. -/
def greeting : GossipWireMessage Wire.symbolic := wireMessage [7] (.str "hi") [2]

/-- Another payload under the hash of the honest one. -/
def forgery : GossipWireMessage Wire.symbolic := { greeting with payload := .str "junk" }

/-- An honest message alone is delivered once. -/
theorem unpoisoned_greeting :
    Unpoisoned [7] (fulls [arrives greeting]) (run (step 2000) subscribed [arrives greeting]) := by
  refine (unpoisoned_iff 2000 [7] subscribed subscribed_fresh [arrives greeting]
    (Wire.symbolic_injOn _) ⟨fun _ channel h => ?_, trivial⟩).mpr ⟨?_, ?_⟩
  · obtain rfl := Option.some.inj (subscribed_fresh.channel.symm.trans h)
    decide
  · intro h first hfirst
    have hmem : first ∈ [greeting] := List.mem_of_find?_eq_some hfirst
    obtain rfl := List.mem_singleton.mp hmem
    have hhash : greeting.contentHash = h := by simpa using List.find?_some hfirst
    exact hhash
  · intro msg hmem _ _ first hfirst
    have hmem' : first ∈ [greeting] := List.mem_of_find?_eq_some hfirst
    obtain rfl := List.mem_singleton.mp hmem'
    rfl

/-- After the forgery it is lost, and the forgery is handed on in its place. -/
theorem greeting_poisoned :
    ¬Unpoisoned [7] (fulls [arrives forgery, arrives greeting])
      (run (step 2000) subscribed [arrives forgery, arrives greeting]) := by
  intro h
  have hcache : (run (step 2000) subscribed [arrives forgery, arrives greeting]).messageCache.get?
      greeting.contentHash = some forgery := by
    with_unfolding_all rfl
  have hanswer := h.answers ⟨[], fun _ _ => true⟩ [1] greeting.contentHash forgery
    (mem_sent_handleIwant.mpr ⟨hcache, rfl⟩)
  exact absurd hanswer (by decide)

end GossipDelivery
