/-
# Deduplication in two epochs (`ephemera-gossip/src/plumtree.rs`)

`MessageDedup` keeps the hashes of the current epoch and of the one before.  No timer rotates
the epochs: a lookup does, if it finds that the current epoch has lasted long enough.  So an
epoch can last much longer than its duration, and any number of lookups can fall into it.

What does not depend on all this is that a hash survives one rotation, and that the next one
comes a full epoch later (`Remembers`).  The engine looks every message up before it delivers
it, and so does not deliver one hash twice within an epoch.
-/
import Ephemera.Gossip
import Ephemera.HashMap
import Ephemera.Hex
import Mathlib.Data.PNat.Notation

/-- The channel to the subscriber of a topic. -/
abbrev PlumTree.Channel (W : Wire) := TopicState W

namespace PlumTree

open GuardedRun

/-! ## Times -/

/-- `Duration::from_secs`; instants and durations are nanoseconds. -/
def fromSecs (secs : ℕ) : ℕ := secs * 10 ^ 9

/-- What the clock shows when a call reads it first, when it may read it once more, and when
the call is over. -/
structure Span where
  began : ℕ
  read : ℕ
  ended : ℕ
  began_le : began ≤ read
  le_ended : read ≤ ended

/-- A call that takes no time. -/
def Span.at (now : ℕ) : Span := ⟨now, now, now, le_rfl, le_rfl⟩

/-- A state, and when the last call was over. -/
structure Clocked (S : Type) where
  state : S
  clock : ℕ

/-! ## `MessageDedup` -/

/-- `MessageDedup`. -/
structure MessageDedup (W : Wire) where
  current : List W.Digest
  previous : List W.Digest
  epochStart : ℕ
  epochDuration : ℕ

namespace MessageDedup

variable {W : Wire}

/-- `MessageDedup::new`. -/
def new (now : ℕ) : MessageDedup W := ⟨[], [], now, fromSecs 300⟩

/-- `MessageDedup::maybe_rotate`. -/
def maybeRotate (dedup : MessageDedup W) (span : Span) : MessageDedup W :=
  if dedup.epochDuration ≤ span.began - dedup.epochStart then
    { dedup with previous := dedup.current, current := [], epochStart := span.read }
  else dedup

/-- `MessageDedup::is_duplicate`. -/
def isDuplicate (dedup : MessageDedup W) (span : Span) (hash : W.Digest) :
    Bool × MessageDedup W :=
  let dedup := dedup.maybeRotate span
  (dedup.current.contains hash || dedup.previous.contains hash, dedup)

/-- `MessageDedup::mark_seen`. -/
def markSeen (dedup : MessageDedup W) (hash : W.Digest) : MessageDedup W :=
  { dedup with current := dedup.current.insert hash }

theorem isDuplicate_eq_true_iff {dedup : MessageDedup W} {span : Span} {hash : W.Digest} :
    (dedup.isDuplicate span hash).1 = true ↔
      hash ∈ (dedup.maybeRotate span).current ∨ hash ∈ (dedup.maybeRotate span).previous := by
  simp [isDuplicate]

/-- A rotation happens when the epoch is over. -/
theorem maybeRotate_cases (dedup : MessageDedup W) (span : Span) :
    dedup.maybeRotate span = dedup ∨
      dedup.epochDuration ≤ span.began - dedup.epochStart ∧
        dedup.maybeRotate span = ⟨[], dedup.current, span.read, dedup.epochDuration⟩ := by
  unfold maybeRotate
  split
  · exact .inr ⟨‹_›, rfl⟩
  · exact .inl rfl

@[simp] theorem epochDuration_maybeRotate (dedup : MessageDedup W) (span : Span) :
    (dedup.maybeRotate span).epochDuration = dedup.epochDuration := by
  obtain h | ⟨-, h⟩ := dedup.maybeRotate_cases span
  · rw [h]
  · rw [h]

end MessageDedup

/-! ## What is remembered -/

section Remembering

variable {W : Wire} {hash : W.Digest} {marked : ℕ} {dedup : MessageDedup W} {clock : ℕ}

/-- A hash that was marked at some time is in the current epoch, or in the one before, which
then began the current one, or a full epoch has gone by since. -/
structure Remembers (hash : W.Digest) (marked : ℕ) (dedup : MessageDedup W)
    (clock : ℕ) : Prop where
  duration : dedup.epochDuration = fromSecs 300
  marked_le : marked ≤ clock
  kept : hash ∈ dedup.current ∨ (hash ∈ dedup.previous ∧ marked ≤ dedup.epochStart) ∨
    marked + fromSecs 300 ≤ clock

/-- Time goes by. -/
theorem Remembers.mono (h : Remembers hash marked dedup clock) {clock' : ℕ}
    (hle : clock ≤ clock') : Remembers hash marked dedup clock' where
  duration := h.duration
  marked_le := h.marked_le.trans hle
  kept := h.kept.imp_right (Or.imp_right (fun h' => h'.trans hle))

/-- **A lookup.**  What it drops was marked before the epoch began that is now over. -/
theorem Remembers.maybeRotate (h : Remembers hash marked dedup clock) {span : Span}
    (hspan : clock ≤ span.began) :
    Remembers hash marked (dedup.maybeRotate span) span.began := by
  obtain heq | ⟨hover, heq⟩ := dedup.maybeRotate_cases span
  · rw [heq]
    exact h.mono hspan
  · rw [heq]
    refine ⟨h.duration, h.marked_le.trans hspan, ?_⟩
    obtain hmem | ⟨-, hold⟩ | hold := h.kept
    · exact .inr (.inl ⟨hmem, (h.marked_le.trans hspan).trans span.began_le⟩)
    · have hpos : 0 < fromSecs 300 := by decide
      rw [h.duration] at hover
      exact .inr (.inr (by omega))
    · exact .inr (.inr (hold.trans hspan))

theorem Remembers.markSeen (h : Remembers hash marked dedup clock) (hash' : W.Digest) :
    Remembers hash marked (dedup.markSeen hash') clock where
  duration := h.duration
  marked_le := h.marked_le
  kept := h.kept.imp_left (fun hmem => List.mem_insert_iff.mpr (.inr hmem))

/-- What is being marked will be remembered. -/
theorem remembers_markSeen (hduration : dedup.epochDuration = fromSecs 300) :
    Remembers hash clock (dedup.markSeen hash) clock where
  duration := hduration
  marked_le := le_rfl
  kept := .inl (List.mem_insert_iff.mpr (.inl rfl))

/-- What is remembered, and was marked less than an epoch ago, is a duplicate. -/
theorem Remembers.isDuplicate (h : Remembers hash marked dedup clock) {span : Span}
    (hspan : clock ≤ span.began) (hrecent : span.began < marked + fromSecs 300) :
    (dedup.isDuplicate span hash).1 = true := by
  rw [MessageDedup.isDuplicate_eq_true_iff]
  obtain hmem | ⟨hmem, -⟩ | hold := (h.maybeRotate hspan).kept
  · exact .inl hmem
  · exact .inr hmem
  · exact absurd hrecent (not_lt.mpr hold)

end Remembering

/-! ## Runs of `MessageDedup` -/

/-- A call on the deduplicator. -/
inductive DedupCall (W : Wire) where
  | isDuplicate (span : Span) (hash : W.Digest)
  | markSeen (span : Span) (hash : W.Digest)

namespace DedupCall

variable {W : Wire}

/-- The time a call takes. -/
def span : DedupCall W → Span
  | .isDuplicate span _ => span
  | .markSeen span _ => span

/-- The state after a call. -/
def step (s : Clocked (MessageDedup W)) : DedupCall W → Clocked (MessageDedup W)
  | .isDuplicate span hash => ⟨(s.state.isDuplicate span hash).2, span.ended⟩
  | .markSeen span hash => ⟨s.state.markSeen hash, span.ended⟩

/-- The clock does not go back between two calls. -/
def InOrder (s : Clocked (MessageDedup W)) (call : DedupCall W) : Prop :=
  s.clock ≤ call.span.began

instance : ∀ (s : Clocked (MessageDedup W)) (call : DedupCall W), Decidable (InOrder s call) :=
  fun _ _ => inferInstanceAs (Decidable (_ ≤ _))

variable {s : Clocked (MessageDedup W)} {call : DedupCall W}

theorem epochDuration_step (s : Clocked (MessageDedup W)) (call : DedupCall W) :
    (step s call).state.epochDuration = s.state.epochDuration := by
  cases call with
  | isDuplicate span hash => exact s.state.epochDuration_maybeRotate span
  | markSeen span hash => rfl

theorem epochDuration_run (s : Clocked (MessageDedup W)) (calls : List (DedupCall W)) :
    (run step s calls).state.epochDuration = s.state.epochDuration :=
  @run_invariant_of_step _ _ step (fun s' => s'.state.epochDuration = s.state.epochDuration)
    (fun s' call h => (epochDuration_step s' call).trans h) s rfl calls

theorem remembers_step {hash : W.Digest} {marked : ℕ}
    (h : Remembers hash marked s.state s.clock) (horder : InOrder s call) :
    Remembers hash marked (step s call).state (step s call).clock := by
  cases call with
  | isDuplicate span hash' =>
    exact (h.maybeRotate horder).mono (span.began_le.trans span.le_ended)
  | markSeen span hash' =>
    exact (h.mono (horder.trans (span.began_le.trans span.le_ended))).markSeen hash'

/-- Only what was marked is found. -/
theorem mem_step {hash : W.Digest}
    (h : hash ∈ (step s call).state.current ∨ hash ∈ (step s call).state.previous) :
    (hash ∈ s.state.current ∨ hash ∈ s.state.previous) ∨ ∃ span, call = .markSeen span hash := by
  cases call with
  | isDuplicate span hash' =>
    left
    obtain heq | ⟨-, heq⟩ := s.state.maybeRotate_cases span
    · simpa only [step, MessageDedup.isDuplicate, heq] using h
    · simp only [step, MessageDedup.isDuplicate, heq, List.not_mem_nil, false_or] at h
      exact .inl h
  | markSeen span hash' =>
    obtain h | h := h
    · obtain rfl | h := List.mem_insert_iff.mp h
      · exact .inr ⟨span, rfl⟩
      · exact .inl (.inl h)
    · exact .inl (.inr h)

theorem mem_run {hash : W.Digest} {calls : List (DedupCall W)}
    (h : hash ∈ (run step s calls).state.current ∨ hash ∈ (run step s calls).state.previous) :
    (hash ∈ s.state.current ∨ hash ∈ s.state.previous) ∨ ∃ span, .markSeen span hash ∈ calls := by
  induction calls generalizing s with
  | nil => exact .inl h
  | cons call calls ih =>
    obtain h | ⟨span, hmem⟩ := ih h
    · obtain h | ⟨span, rfl⟩ := mem_step h
      · exact .inl h
      · exact .inr ⟨span, List.mem_cons_self⟩
    · exact .inr ⟨span, List.mem_cons_of_mem _ hmem⟩

/-- What was marked in a run is remembered at its end. -/
theorem remembers_of_markSeen {calls : List (DedupCall W)} {mark : Span} {hash : W.Digest}
    (hs : s.state.epochDuration = fromSecs 300) (horder : Meets step InOrder s calls)
    (hmem : .markSeen mark hash ∈ calls) :
    Remembers hash mark.ended (run step s calls).state (run step s calls).clock := by
  obtain ⟨before, after, rfl⟩ := List.append_of_mem hmem
  rw [run_append, run_cons]
  rw [meets_append] at horder
  have hduration : (run step s before).state.epochDuration = fromSecs 300 :=
    (epochDuration_run s before).trans hs
  exact @run_invariant _ _ step InOrder (fun s => Remembers hash mark.ended s.state s.clock)
    (fun _ _ h horder => remembers_step h horder) _ _ (remembers_markSeen hduration) horder.2.2

end DedupCall

/-! ## The engine -/

/-- `TopicState` of `plumtree.rs`. -/
structure TopicState (W : Wire) where
  topic : GossipTopic
  eagerPeers : List NodeId
  lazyPeers : List NodeId
  seen : List W.Digest
  subscriberTx : Option (Channel W)

/-- `PlumTreeEngine`. -/
structure PlumTreeEngine (W : Wire) where
  localId : NodeId
  topics : HashMap GossipTopic (TopicState W)
  maxSubscriptions : ℕ
  dedup : MessageDedup W

/-- `GossipError`, as far as the engine makes use of it. -/
inductive GossipError where
  | subscriptionLimitReached (current max : ℕ)
  | notSubscribed (topic : String)

namespace PlumTreeEngine

variable {W : Wire}

/-- `PlumTreeEngine::new`. -/
def new (localId : NodeId) (maxSubscriptions : ℕ) (now : ℕ) : PlumTreeEngine W :=
  ⟨localId, ∅, maxSubscriptions, .new now⟩

/-- `PlumTreeEngine::subscribe`; a channel has room for at least one message. -/
def subscribe (engine : PlumTreeEngine W) (topic : GossipTopic) (bufferSize : ℕ+) :
    Except GossipError (PlumTreeEngine W) :=
  if engine.maxSubscriptions ≤ engine.topics.keys.length then
    .error (.subscriptionLimitReached engine.topics.keys.length engine.maxSubscriptions)
  else
    .ok { engine with
      topics := engine.topics.insert topic ⟨topic, [], [], [], some ⟨[], 0, bufferSize⟩⟩ }

/-- `PlumTreeEngine::unsubscribe`; a topic is shown by its first eight bytes. -/
def unsubscribe (engine : PlumTreeEngine W) (topic : GossipTopic) :
    Except GossipError (PlumTreeEngine W) :=
  match engine.topics.lookup topic with
  | none => .error (.notSubscribed (Hex.encode (topic.take 8)))
  | some _ => .ok { engine with topics := engine.topics.erase topic }

/-- The delivery to the subscriber of a topic. -/
def deliver (state : TopicState W) (msg : GossipMessage W) : TopicState W :=
  { state with
    seen := state.seen.insert msg.contentHash
    subscriberTx := state.subscriberTx.map (fun tx => Gossip.trySend tx msg) }

/-- `PlumTreeEngine::receive_message`: the peers to push to, and those to tell. -/
def receiveMessage (engine : PlumTreeEngine W) (span : Span) (topic : GossipTopic)
    (contentHash : W.Digest) (payload : W.Bytes) (source : NodeId) :
    Option (List NodeId × List NodeId) × PlumTreeEngine W :=
  let (duplicate, dedup) := engine.dedup.isDuplicate span contentHash
  if duplicate then (none, { engine with dedup := dedup })
  else
    let engine := { engine with dedup := dedup.markSeen contentHash }
    match engine.topics.lookup topic with
    | none => (none, engine)
    | some state =>
      if state.seen.contains contentHash then (none, engine)
      else
        let exclude := fun peer => decide (peer ≠ source) && decide (peer ≠ engine.localId)
        let delivered := deliver state ⟨topic, payload, contentHash, source⟩
        (some (state.eagerPeers.filter exclude, state.lazyPeers.filter exclude),
          { engine with topics := engine.topics.insert topic delivered })

/-- The subscriber of a topic takes one message. -/
def subscriberRecv (engine : PlumTreeEngine W) (topic : GossipTopic) : PlumTreeEngine W :=
  match engine.topics.lookup topic with
  | none => engine
  | some state =>
    let tx := state.subscriberTx.map (fun tx => { tx with waiting := tx.waiting - 1 })
    { engine with topics := engine.topics.insert topic { state with subscriberTx := tx } }

end PlumTreeEngine

/-- A message that comes in. -/
structure Incoming (W : Wire) where
  span : Span
  topic : GossipTopic
  contentHash : W.Digest
  payload : W.Bytes
  source : NodeId

/-- A call on the engine. -/
inductive EngineCall (W : Wire) where
  | subscribe (topic : GossipTopic) (bufferSize : ℕ+)
  | unsubscribe (topic : GossipTopic)
  | subscriberRecv (topic : GossipTopic)
  | receiveMessage (incoming : Incoming W)

namespace EngineCall

variable {W : Wire}

/-- `receive_message` of an incoming message. -/
def receive (engine : PlumTreeEngine W) (incoming : Incoming W) :
    Option (List NodeId × List NodeId) × PlumTreeEngine W :=
  engine.receiveMessage incoming.span incoming.topic incoming.contentHash incoming.payload
    incoming.source

/-- The state after a call; a call that fails changes nothing. -/
def step (s : Clocked (PlumTreeEngine W)) : EngineCall W → Clocked (PlumTreeEngine W)
  | .subscribe topic bufferSize =>
    match s.state.subscribe topic bufferSize with
    | .ok engine => { s with state := engine }
    | .error _ => s
  | .unsubscribe topic =>
    match s.state.unsubscribe topic with
    | .ok engine => { s with state := engine }
    | .error _ => s
  | .subscriberRecv topic => { s with state := s.state.subscriberRecv topic }
  | .receiveMessage incoming => ⟨(receive s.state incoming).2, incoming.span.ended⟩

/-- The clock does not go back between two messages. -/
def InOrder (s : Clocked (PlumTreeEngine W)) : EngineCall W → Prop
  | .receiveMessage incoming => s.clock ≤ incoming.span.began
  | _ => True

instance (s : Clocked (PlumTreeEngine W)) : ∀ call : EngineCall W, Decidable (InOrder s call)
  | .receiveMessage _ => inferInstanceAs (Decidable (_ ≤ _))
  | .subscribe _ _ | .unsubscribe _ | .subscriberRecv _ => inferInstanceAs (Decidable True)

/-- The message goes to the subscriber of its topic. -/
def Delivers (s : Clocked (PlumTreeEngine W)) (incoming : Incoming W) : Prop :=
  (receive s.state incoming).1 ≠ none

instance (s : Clocked (PlumTreeEngine W)) (incoming : Incoming W) :
    Decidable (Delivers s incoming) :=
  inferInstanceAs (Decidable (_ ≠ none))

/-! ## What a message does -/

variable {s : Clocked (PlumTreeEngine W)} {incoming : Incoming W}

/-- A message is a lookup, and a mark unless the lookup finds it; what is in the topics changes
only if it is delivered. -/
theorem receive_cases (engine : PlumTreeEngine W) (incoming : Incoming W) :
    (∃ topics, (receive engine incoming).2 = { engine with
        topics := topics
        dedup := (engine.dedup.isDuplicate incoming.span incoming.contentHash).2.markSeen
          incoming.contentHash } ∧
      (engine.dedup.isDuplicate incoming.span incoming.contentHash).1 = false ∧
      ((receive engine incoming).1 = none → topics = engine.topics)) ∨
    (receive engine incoming = (none, { engine with
        dedup := (engine.dedup.isDuplicate incoming.span incoming.contentHash).2 }) ∧
      (engine.dedup.isDuplicate incoming.span incoming.contentHash).1 = true) := by
  unfold receive PlumTreeEngine.receiveMessage
  simp only
  by_cases hdup : (engine.dedup.isDuplicate incoming.span incoming.contentHash).1 = true
  · rw [if_pos hdup]
    exact .inr ⟨rfl, hdup⟩
  · rw [if_neg hdup]
    left
    cases engine.topics.lookup incoming.topic with
    | none => exact ⟨engine.topics, rfl, eq_false_of_ne_true hdup, fun _ => rfl⟩
    | some state =>
      simp only
      split
      · exact ⟨engine.topics, rfl, eq_false_of_ne_true hdup, fun _ => rfl⟩
      · exact ⟨_, rfl, eq_false_of_ne_true hdup, nofun⟩

/-- What is delivered was not found, and is marked. -/
theorem Delivers.dedup (h : Delivers s incoming) :
    (s.state.dedup.isDuplicate incoming.span incoming.contentHash).1 = false ∧
      (receive s.state incoming).2.dedup =
        (s.state.dedup.isDuplicate incoming.span incoming.contentHash).2.markSeen
          incoming.contentHash := by
  obtain ⟨topics, heq, hnew, -⟩ | ⟨heq, -⟩ := receive_cases s.state incoming
  · exact ⟨hnew, by rw [heq]⟩
  · exact absurd (congrArg Prod.fst heq) h

/-- A call that is not a message leaves the deduplicator and the clock alone. -/
theorem step_dedup (s : Clocked (PlumTreeEngine W)) (call : EngineCall W) :
    (∃ incoming, call = .receiveMessage incoming) ∨
      (step s call).state.dedup = s.state.dedup ∧ (step s call).clock = s.clock := by
  cases call with
  | subscribe topic bufferSize =>
    right
    simp only [step, PlumTreeEngine.subscribe]
    by_cases h : s.state.maxSubscriptions ≤ s.state.topics.keys.length
    · rw [if_pos h]
      exact ⟨rfl, rfl⟩
    · rw [if_neg h]
      exact ⟨rfl, rfl⟩
  | unsubscribe topic =>
    right
    simp only [step, PlumTreeEngine.unsubscribe]
    cases s.state.topics.lookup topic with
    | none => exact ⟨rfl, rfl⟩
    | some state => exact ⟨rfl, rfl⟩
  | subscriberRecv topic =>
    refine .inr ⟨?_, rfl⟩
    simp only [step, PlumTreeEngine.subscriberRecv]
    cases s.state.topics.lookup topic with
    | none => rfl
    | some state => rfl
  | receiveMessage incoming => exact .inl ⟨incoming, rfl⟩

theorem epochDuration_step (s : Clocked (PlumTreeEngine W)) (call : EngineCall W) :
    (step s call).state.dedup.epochDuration = s.state.dedup.epochDuration := by
  obtain ⟨incoming, rfl⟩ | ⟨h, -⟩ := step_dedup s call
  · have hlookup := s.state.dedup.epochDuration_maybeRotate incoming.span
    obtain ⟨topics, heq, -⟩ | ⟨heq, -⟩ := receive_cases s.state incoming
    · rw [step, heq]
      exact hlookup
    · rw [step, heq]
      exact hlookup
  · rw [h]

theorem epochDuration_run (s : Clocked (PlumTreeEngine W)) (calls : List (EngineCall W)) :
    (run step s calls).state.dedup.epochDuration = s.state.dedup.epochDuration :=
  @run_invariant_of_step _ _ step
    (fun s' => s'.state.dedup.epochDuration = s.state.dedup.epochDuration)
    (fun s' call h => (epochDuration_step s' call).trans h) s rfl calls

theorem remembers_step {hash : W.Digest} {marked : ℕ} {call : EngineCall W}
    (h : Remembers hash marked s.state.dedup s.clock) (horder : InOrder s call) :
    Remembers hash marked (step s call).state.dedup (step s call).clock := by
  obtain ⟨incoming, rfl⟩ | ⟨hdedup, hclock⟩ := step_dedup s call
  · have hlookup : Remembers hash marked
        (s.state.dedup.isDuplicate incoming.span incoming.contentHash).2 incoming.span.ended :=
      (h.maybeRotate horder).mono (incoming.span.began_le.trans incoming.span.le_ended)
    obtain ⟨topics, heq, -⟩ | ⟨heq, -⟩ := receive_cases s.state incoming
    · rw [step, heq]
      exact hlookup.markSeen incoming.contentHash
    · rw [step, heq]
      exact hlookup
  · rw [hdedup, hclock]
    exact h

/-! ## Two deliveries -/

/-- **Two deliveries of one hash are an epoch apart.** -/
theorem delivers_apart {calls : List (EngineCall W)} {first second : Incoming W}
    (hs : s.state.dedup.epochDuration = fromSecs 300) (hfirst : Delivers s first)
    (horder : Meets step InOrder s (.receiveMessage first :: calls))
    (hclock : (run step s (.receiveMessage first :: calls)).clock ≤ second.span.began)
    (hsecond : Delivers (run step s (.receiveMessage first :: calls)) second)
    (hhash : second.contentHash = first.contentHash) :
    first.span.ended + fromSecs 300 ≤ second.span.began := by
  have hmarked : Remembers first.contentHash first.span.ended
      (step s (.receiveMessage first)).state.dedup (step s (.receiveMessage first)).clock := by
    rw [step, hfirst.dedup.2]
    exact remembers_markSeen ((s.state.dedup.epochDuration_maybeRotate first.span).trans hs)
  have hkept := @run_invariant _ _ step InOrder
    (fun s => Remembers first.contentHash first.span.ended s.state.dedup s.clock)
    (fun _ _ h horder => remembers_step h horder) _ _ hmarked horder.2
  by_contra hsoon
  have hdup := hkept.isDuplicate hclock (not_le.mp hsoon)
  have hnew := hsecond.dedup.1
  rw [hhash] at hnew
  exact Bool.false_ne_true (hnew.symm.trans hdup)

end EngineCall

/-! ## A full epoch -/

variable {W : Wire}

/-- A deduplicator made at some time, after some calls. -/
def dedupAfter (start : ℕ) (calls : List (DedupCall W)) : Clocked (MessageDedup W) :=
  run DedupCall.step ⟨.new start, start⟩ calls

/-- An engine made at some time, after some calls. -/
def engineAfter (localId : NodeId) (maxSubscriptions start : ℕ) (calls : List (EngineCall W)) :
    Clocked (PlumTreeEngine W) :=
  run EngineCall.step ⟨.new localId maxSubscriptions start, start⟩ calls

theorem epochDuration_engineAfter (localId : NodeId) (maxSubscriptions start : ℕ)
    (calls : List (EngineCall W)) :
    (engineAfter localId maxSubscriptions start calls).state.dedup.epochDuration
      = fromSecs 300 :=
  EngineCall.epochDuration_run _ calls

/-- **A hash is suppressed for a full epoch.**  A lookup finds what was marked less than five
minutes before and nothing that was never marked, whatever was called in between, and so two
deliveries of one hash are five minutes apart. -/
theorem suppresses_for_epoch (W : Wire) :
    (∀ (start : ℕ) (calls : List (DedupCall W)) (span : Span) (hash : W.Digest),
      Meets DedupCall.step DedupCall.InOrder ⟨.new start, start⟩ calls →
      (dedupAfter start calls).clock ≤ span.began →
        ((∃ mark, .markSeen mark hash ∈ calls ∧ span.began < mark.ended + fromSecs 300) →
          ((dedupAfter start calls).state.isDuplicate span hash).1 = true) ∧
        (((dedupAfter start calls).state.isDuplicate span hash).1 = true →
          ∃ mark, .markSeen mark hash ∈ calls)) ∧
    ∀ (localId : NodeId) (maxSubscriptions start : ℕ) (before between : List (EngineCall W))
      (first second : Incoming W),
      Meets EngineCall.step EngineCall.InOrder ⟨.new localId maxSubscriptions start, start⟩
        (before ++ (.receiveMessage first :: between ++ [.receiveMessage second])) →
      EngineCall.Delivers (engineAfter localId maxSubscriptions start before) first →
      EngineCall.Delivers
        (engineAfter localId maxSubscriptions start (before ++ .receiveMessage first :: between))
        second →
      second.contentHash = first.contentHash →
        first.span.ended + fromSecs 300 ≤ second.span.began := by
  constructor
  · intro start calls span hash horder hclock
    constructor
    · rintro ⟨mark, hmem, hrecent⟩
      exact (DedupCall.remembers_of_markSeen rfl horder hmem).isDuplicate hclock hrecent
    · intro hdup
      -- a rotation only moves hashes from one set to the other
      have hfound := MessageDedup.isDuplicate_eq_true_iff.mp hdup
      obtain hmem | ⟨mark, hcall⟩ :=
        @DedupCall.mem_step _ (dedupAfter start calls) (.isDuplicate span hash) _ hfound
      · obtain hstart | hmark := DedupCall.mem_run hmem
        · simp [MessageDedup.new] at hstart
        · exact hmark
      · cases hcall
  · intro localId maxSubscriptions start before between first second horder hfirst hsecond hhash
    obtain ⟨-, horder⟩ := meets_append.mp horder
    obtain ⟨horder, hlast, -⟩ := meets_append.mp horder
    rw [engineAfter, run_append] at hsecond
    exact EngineCall.delivers_apart
      (epochDuration_engineAfter localId maxSubscriptions start before) hfirst horder hlast hsecond
      hhash

/-- The message `[9]` on a topic, at some time. -/
def greeting (topic : GossipTopic) (secs : ℕ) (payload : String) : Incoming Wire.symbolic :=
  ⟨.at (fromSecs secs), topic, .str payload, .str payload, [9]⟩

/-- A hash marked at 10 s is found at 309 s, after a rotation at 301 s.  On two topics one
message is delivered at 0 s and again at 602 s, after two rotations. -/
theorem suppresses_for_epoch_example :
    ((dedupAfter 0 [.markSeen (.at (fromSecs 10)) (.str "hi"),
        .isDuplicate (.at (fromSecs 301)) (.str "other")]
      : Clocked (MessageDedup Wire.symbolic)).state.isDuplicate (.at (fromSecs 309))
        (.str "hi")).1 = true ∧
    fromSecs 0 + fromSecs 300 ≤ fromSecs 602 := by
  have h := suppresses_for_epoch Wire.symbolic
  constructor
  · refine (h.1 0 _ (.at (fromSecs 309)) (.str "hi") ?_ ?_).1 ⟨.at (fromSecs 10), ?_, ?_⟩
    · decide
    · decide
    · exact List.mem_cons_self
    · decide
  · refine h.2 [0] 10 0 [.subscribe [7] 8, .subscribe [8] 8]
      [.receiveMessage (greeting [7] 301 "other")] (greeting [7] 0 "hi") (greeting [8] 602 "hi")
      ?_ ?_ ?_ rfl
    · decide
    · decide
    · decide

end PlumTree
