/-
# Mutual consent

Two users, each with a node, over a network that carries exactly what the nodes hand out:
a payload may arrive late, more than once, or never, and a DHT record of either node may
be put into the storage of either.

A connection is meant to be wanted by both.  `Justified` says which wishes the status of a
row stands for, and the invariant `Consenting` joins it with what is on the wire.  The one
step that breaks it is an `accept` of one's own request, because the store accepts
whatever the status of the row; runs without it (`Answers`) keep the invariant.
-/
import Ephemera.UserCalls

namespace MutualConsent

open SocialService NodeOp MetadataDb NodeIngest UserCalls GuardedRun

variable {W : Wire}

/-! ## The system -/

/-- The two users. -/
inductive Side where
  | left
  | right
  deriving DecidableEq, Repr

/-- The other one. -/
def Side.peer : Side → Side
  | .left => .right
  | .right => .left

@[simp] theorem Side.peer_peer (who : Side) : who.peer.peer = who := by
  cases who <;> rfl

/-- The identities of the two users. -/
structure Users where
  key : Side → IdentityKey
  length_key : ∀ who, (key who).length = identityKeyLen
  distinct : key .left ≠ key .right

theorem Users.key_ne_peer (users : Users) (who : Side) : users.key who ≠ users.key who.peer := by
  cases who with
  | left => exact users.distinct
  | right => exact users.distinct.symm

/-- Two nodes, and the calls their users have made. -/
structure Pair (W : Wire) where
  node : Side → NodeState W
  calls : List (Side × UserCall)

/-- What can happen: a user makes a call, a payload handed out by `source` reaches `who`, a
record stored by `source` is put into the storage of `who`, or `who` polls its storage. -/
inductive PairAction (W : Wire) where
  | call (who : Side) (env : CallEnv W) (call : UserCall)
  | deliver (who source : Side) (index : ℕ) (now : UInt64)
  | replicate (who source : Side) (index : ℕ) (now : UInt64)
  | poll (who : Side) (now : UInt64)

namespace Pair

/-- Both nodes have just been set up. -/
def initial : Pair W := ⟨fun _ => fresh, []⟩

/-- Replace the node of `who`. -/
def setNode (s : Pair W) (who : Side) (st : NodeState W) : Pair W :=
  { s with node := Function.update s.node who st }

/-- One step.  A call is made under the identity of its user. -/
def step (users : Users) (s : Pair W) : PairAction W → Pair W
  | .call who env call =>
    { s.setNode who (call.perform { env with identity := .ok (users.key who) } (s.node who)) with
      calls := s.calls ++ [(who, call)] }
  | .deliver who source index now =>
    match (s.node source).published[index]? with
    | some payload =>
      s.setNode who { s.node who with
        db := (ingestPayload (s.node who).db payload (some (users.key who)) now).1 }
    | none => s
  | .replicate who source index now =>
    match (s.node source).stored[index]? with
    | some record =>
      match (s.node who).dht.put record now with
      | .ok dht => s.setNode who { s.node who with dht := dht }
      | .error _ => s
    | none => s
  | .poll who now =>
    s.setNode who { s.node who with
      db := (NodeIngest.retrieveDhtDeadDrops (s.node who).db (s.node who).dht (users.key who) now).1
      dht := (NodeIngest.retrieveDhtDeadDrops (s.node who).db (s.node who).dht
        (users.key who) now).2 }

/-- The status of the row `who` has for the other user. -/
def status (users : Users) (s : Pair W) (who : Side) : Option ConnectionStatus :=
  (s.node who).db.status (users.key who) (users.key who.peer)

/-- The user has issued `connect` or `accept` towards the other one. -/
def Issued (users : Users) (s : Pair W) (who : Side) : Prop :=
  ∃ call, (who, call) ∈ s.calls ∧
    (call.Requests (users.key who.peer) ∨ call.Accepts (users.key who.peer))

end Pair

/-- An `accept` answers a request: the row it is about is not one's own request. -/
def Answers (users : Users) (s : Pair W) : PairAction W → Prop
  | .call who _ call =>
    call.Accepts (users.key who.peer) → s.status users who ≠ some .pendingOutgoing
  | _ => True

/-! ## The invariant -/

variable {env : CallEnv W} {me peer : IdentityKey}

/-- The wishes a status stands for: a request one made, a request one got, or both. -/
def Justified (mine theirs : Prop) : ConnectionStatus → Prop
  | .pendingOutgoing => mine
  | .pendingIncoming => theirs
  | .active => mine ∧ theirs
  | .blocked => False

theorem Justified.mono {mine theirs mine' theirs' : Prop} (hmine : mine → mine')
    (htheirs : theirs → theirs') {status : ConnectionStatus} (h : Justified mine theirs status) :
    Justified mine' theirs' status := by
  cases status with
  | pendingOutgoing => exact hmine h
  | pendingIncoming => exact htheirs h
  | active => exact ⟨hmine h.1, htheirs h.2⟩
  | blocked => exact h

/-- A value that holds an announcement, and so no envelope. -/
def HoldsAnnouncement (value : W.Bytes) : Prop :=
  ∃ me remote payload, IsAnnouncement me remote payload ∧ value = W.jsonToVec payload

/-- What is known of the node of a user with identity `me`, when `mine` and `theirs` say
whether each user has issued a wish: the row of the other user stands for wishes that were
issued, and so does everything the node has handed out to the other user.  What it has handed
out goes to the mailboxes of `ids`. -/
structure NodeConsents (ids : Set IdentityKey) (me peer : IdentityKey) (mine theirs : Prop)
    (st : NodeState W) : Prop where
  row : ∀ status, st.db.status me peer = some status → Justified mine theirs status
  published : ∀ bytes ∈ st.published, ∃ remote payload now, remote ∈ ids ∧
    (remote = peer → mine) ∧ IsAnnouncement me remote payload ∧
    bytes = W.envelopeToVec (announcementEnvelope remote payload now)
  stored : ∀ record ∈ st.stored, HoldsAnnouncement record.value
  records : ∀ key stored, st.dht.records.get? key = some stored →
    HoldsAnnouncement stored.record.value

variable {ids : Set IdentityKey}

theorem NodeConsents.mono {mine theirs mine' theirs' : Prop} {st : NodeState W}
    (h : NodeConsents ids me peer mine theirs st) (hmine : mine → mine')
    (htheirs : theirs → theirs') : NodeConsents ids me peer mine' theirs' st where
  row := fun status hs => (h.row status hs).mono hmine htheirs
  published := fun bytes hb => by
    obtain ⟨remote, payload, now, hmem, hremote, hrest⟩ := h.published bytes hb
    exact ⟨remote, payload, now, hmem, fun heq => hmine (hremote heq), hrest⟩
  stored := h.stored
  records := h.records

/-- A call keeps what is known, unless it accepts a request of one's own. -/
theorem NodeConsents.perform {mine theirs mine' : Prop} {st : NodeState W}
    (h : NodeConsents ids me peer mine theirs st) (hid : env.identity = .ok me) (hne : me ≠ peer)
    (call : UserCall) (hids : ∀ id, call.Requests id ∨ call.Accepts id → id ∈ ids)
    (hmine : mine → mine')
    (hissued : call.Requests peer ∨ call.Accepts peer → mine')
    (hanswers : call.Accepts peer → st.db.status me peer ≠ some .pendingOutgoing) :
    NodeConsents ids me peer mine' theirs (call.perform env st) := by
  have hann := announces_perform hid call st
  refine ⟨fun status hs => ?_, fun bytes hb => ?_, fun record hr => ?_, fun key stored hk => ?_⟩
  · rcases status_perform hid hne call st with hsame | hnone | ⟨hreq, hnew⟩ | ⟨hacc, hold, hnew⟩
    · rw [hsame] at hs
      exact (h.row status hs).mono hmine id
    · rw [hnone] at hs
      cases hs
    · -- a fresh request stands for the wish of its own user only
      rw [hnew] at hs
      rw [← Option.some.inj hs]
      exact hissued (Or.inl hreq)
    · rw [hnew] at hs
      rw [← Option.some.inj hs]
      -- the row was a request of the other user, or connected already
      refine ⟨hissued (Or.inr hacc), ?_⟩
      obtain ⟨old, hold'⟩ := Option.ne_none_iff_exists'.mp hold
      have hjust := h.row old hold'
      cases old with
      | pendingOutgoing => exact absurd hold' (hanswers hacc)
      | pendingIncoming => exact hjust
      | active => exact hjust.2
      | blocked => exact hjust.elim
  · rcases hann.published bytes hb with hb | ⟨remote, payload, now, ⟨-, hpayload⟩, heq⟩
    · obtain ⟨remote, payload, now, hmem, hremote, hrest⟩ := h.published bytes hb
      exact ⟨remote, payload, now, hmem, fun heq => hmine (hremote heq), hrest⟩
    · refine ⟨remote, payload, now, hids remote hpayload.issued, fun hpeer => ?_,
        isAnnouncement_of_announced hpayload, heq⟩
      subst hpeer
      exact hissued hpayload.issued
  · rcases hann.stored record hr with hr | ⟨remote, payload, ⟨-, hpayload⟩, heq⟩
    · exact h.stored record hr
    · exact ⟨me, remote, payload, isAnnouncement_of_announced hpayload, heq⟩
  · rcases hann.records key stored hk with hk | ⟨remote, payload, ⟨-, hpayload⟩, heq⟩
    · exact h.records key stored hk
    · exact ⟨me, remote, payload, isAnnouncement_of_announced hpayload, heq⟩

/-- A payload of a user who satisfies the invariant keeps it, wherever it arrives. -/
theorem NodeConsents.ingest (hW : W.Lawful)
    (hhash : Set.InjOn W.blake3 (Messaging.mailboxBytes '' ids)) {mine theirs : Prop}
    {st : NodeState W} (h : NodeConsents ids me peer mine theirs st)
    {source remote : IdentityKey} {payload : Json} (hme : me ∈ ids) (hmem : remote ∈ ids)
    (hsource : source.length = identityKeyLen) (hann : IsAnnouncement source remote payload)
    (htheirs : peer = source → remote = me → theirs) (sent now : UInt64) :
    NodeConsents ids me peer mine theirs { st with
      db := (ingestPayload st.db (W.envelopeToVec (announcementEnvelope remote payload sent))
        (some me) now).1 } := by
  refine ⟨fun status hs => ?_, h.published, h.stored, h.records⟩
  -- a row that is inserted or connected stands for a wish of the one who announced
  rcases status_ingest_announcement hW hhash ⟨me, hme, rfl⟩ ⟨remote, hmem, rfl⟩ hsource hann
      peer st.db sent now with hsame | ⟨hremote, hpeer, ⟨hold, hnew⟩ | ⟨hold, hnew⟩⟩
  · exact h.row status (hsame ▸ hs)
  · rw [Option.some.inj (hs.symm.trans hnew)]
    exact htheirs hpeer hremote
  · rw [Option.some.inj (hs.symm.trans hnew)]
    exact ⟨h.row _ hold, htheirs hpeer hremote⟩

/-- A poll finds no envelope, because announcements are stored without one. -/
theorem NodeConsents.poll (hW : W.Lawful) {mine theirs : Prop} {st : NodeState W}
    (h : NodeConsents ids me peer mine theirs st) (now : UInt64) :
    NodeIngest.retrieveDhtDeadDrops st.db st.dht me now = (st.db, st.dht) := by
  unfold NodeIngest.retrieveDhtDeadDrops
  cases hget : st.dht.get (Messaging.mailboxKey me) now with
  | none => rfl
  | some record =>
    obtain ⟨stored, hstored, rfl⟩ := DhtStorage.get?_of_get hget
    obtain ⟨_, _, payload, hann, hvalue⟩ := h.records _ stored hstored
    simp only [hvalue, hann.not_envelope hW]

/-! ## Runs -/

variable {users : Users} {s : Pair W}

/-- The users, and the identities that they ask or answer in a run. -/
def addressed (users : Users) (actions : List (PairAction W)) : Set IdentityKey :=
  {id | (∃ who, users.key who = id) ∨ ∃ who env call,
    PairAction.call who env call ∈ actions ∧ (call.Requests id ∨ call.Accepts id)}

/-- Both nodes satisfy the invariant. -/
def Consenting (ids : Set IdentityKey) (users : Users) (s : Pair W) : Prop :=
  ∀ who, NodeConsents ids (users.key who) (users.key who.peer) (s.Issued users who)
    (s.Issued users who.peer) (s.node who)

theorem consenting_initial (ids : Set IdentityKey) (users : Users) :
    Consenting ids users (Pair.initial : Pair W) := by
  intro who
  refine ⟨fun _ h => ?_, fun _ h => ?_, fun _ h => ?_, fun _ _ h => ?_⟩
  · cases h
  · cases h
  · cases h
  · cases h

theorem Consenting.setNode (h : Consenting ids users s) {who : Side} {st : NodeState W}
    (hst : NodeConsents ids (users.key who) (users.key who.peer) (s.Issued users who)
      (s.Issued users who.peer) st) : Consenting ids users (s.setNode who st) := by
  intro other
  by_cases heq : other = who
  · subst heq
    rw [show (s.setNode other st).node other = st from Function.update_self ..]
    exact hst
  · rw [show (s.setNode who st).node other = s.node other from Function.update_of_ne heq ..]
    exact h other

/-- The wishes that were issued before a call. -/
theorem issued_call {who other : Side} {call : UserCall} {node : Side → NodeState W}
    (h : s.Issued users other) : Pair.Issued users ⟨node, s.calls ++ [(who, call)]⟩ other := by
  obtain ⟨call', hmem, hcall⟩ := h
  exact ⟨call', List.mem_append_left _ hmem, hcall⟩

theorem consenting_call (h : Consenting ids users s) (who : Side) (env : CallEnv W)
    (call : UserCall) (hids : ∀ id, call.Requests id ∨ call.Accepts id → id ∈ ids)
    (hanswers : Answers users s (.call who env call)) :
    Consenting ids users (s.step users (.call who env call)) := by
  intro other
  by_cases heq : other = who
  · subst heq
    have hnode : (s.step users (.call other env call)).node other
        = call.perform { env with identity := .ok (users.key other) } (s.node other) :=
      Function.update_self ..
    rw [hnode]
    refine ((h other).perform rfl (users.key_ne_peer other) call hids issued_call ?_
      hanswers).mono id issued_call
    intro hcall
    exact ⟨call, List.mem_append_right _ (List.mem_singleton.mpr rfl), hcall⟩
  · have hnode : (s.step users (.call who env call)).node other = s.node other :=
      Function.update_of_ne heq ..
    rw [hnode]
    exact (h other).mono issued_call issued_call

theorem consenting_deliver (hW : W.Lawful)
    (hhash : Set.InjOn W.blake3 (Messaging.mailboxBytes '' ids))
    (hids : ∀ who, users.key who ∈ ids) (h : Consenting ids users s) (who source : Side)
    (index : ℕ) (now : UInt64) :
    Consenting ids users (s.step users (.deliver who source index now)) := by
  cases hget : (s.node source).published[index]? with
  | none =>
    simp only [Pair.step, hget]
    exact h
  | some bytes =>
    simp only [Pair.step, hget]
    obtain ⟨remote, payload, sent, hmem, hremote, hann, rfl⟩ :=
      (h source).published bytes (List.mem_of_getElem? hget)
    refine h.setNode ((h who).ingest hW hhash (hids who) hmem (users.length_key source) hann ?_
      sent now)
    -- the payload is from the other user, and addressed to us
    intro hpeer haddressed
    have hside : source = who.peer := by
      cases who <;> cases source
      · exact absurd hpeer.symm users.distinct
      · rfl
      · rfl
      · exact absurd hpeer users.distinct
    subst hside
    rw [Side.peer_peer] at hremote
    exact hremote haddressed

theorem consenting_replicate (h : Consenting ids users s) (who source : Side) (index : ℕ)
    (now : UInt64) : Consenting ids users (s.step users (.replicate who source index now)) := by
  cases hget : (s.node source).stored[index]? with
  | none =>
    simp only [Pair.step, hget]
    exact h
  | some record =>
    simp only [Pair.step, hget]
    split
    · rename_i dht hput
      refine h.setNode ⟨(h who).row, (h who).published, (h who).stored, fun key stored hk => ?_⟩
      rcases DhtStorage.get?_of_put hput hk with hk | rfl
      · exact (h who).records key stored hk
      · exact (h source).stored _ (List.mem_of_getElem? hget)
    · exact h

theorem consenting_poll (hW : W.Lawful) (h : Consenting ids users s) (who : Side)
    (now : UInt64) : Consenting ids users (s.step users (.poll who now)) := by
  refine h.setNode ?_
  rw [(h who).poll hW now]
  exact h who

/-- One step keeps the invariant. -/
theorem consenting_step (hW : W.Lawful) {actions : List (PairAction W)}
    (hhash : Set.InjOn W.blake3 (Messaging.mailboxBytes '' addressed users actions)) (s : Pair W)
    (action : PairAction W) (h : Consenting (addressed users actions) users s)
    (hok : Answers users s action ∧ action ∈ actions) :
    Consenting (addressed users actions) users (s.step users action) := by
  obtain ⟨hanswers, hmem⟩ := hok
  cases action with
  | call who env call =>
    exact consenting_call h who env call
      (fun id hcall => Or.inr ⟨who, env, call, hmem, hcall⟩) hanswers
  | deliver who source index now =>
    exact consenting_deliver hW hhash (fun who => Or.inl ⟨who, rfl⟩) h who source index now
  | replicate who source index now => exact consenting_replicate h who source index now
  | poll who now => exact consenting_poll hW h who now

/-- **Mutual consent.**  In every run in which an `accept` answers a request, a connection is
wanted by both users. -/
theorem both_issued_of_connected (hW : W.Lawful) (users : Users) (actions : List (PairAction W))
    (hhash : Set.InjOn W.blake3 (Messaging.mailboxBytes '' addressed users actions))
    (hrun : Meets (Pair.step users) (Answers users) Pair.initial actions) (who : Side)
    (hconnected : (run (Pair.step users) Pair.initial actions).status users who = some .active) :
    (run (Pair.step users) Pair.initial actions).Issued users who ∧
      (run (Pair.step users) Pair.initial actions).Issued users who.peer := by
  have hmeets := hrun.and (meets_of_forall (fun _ haction => haction) Pair.initial)
  have hconsents := run_invariant (consenting_step hW hhash) (consenting_initial _ users) hmeets
  exact (hconsents who).row .active hconnected

/-- Alice on the left, Bob on the right. -/
def aliceAndBob : Users where
  key := fun
    | .left => alice
    | .right => bob
  length_key := by
    intro who
    cases who <;> rfl
  distinct := by decide

/-- Alice asks, Bob gets the request and accepts, and Alice gets the acceptance. -/
def introduction : List (PairAction Wire.symbolic) :=
  [.call .left (online alice 5) (.connect (Hex.encode bob) "hello"), .deliver .right .left 0 6,
    .call .right (online bob 7) (.accept (Hex.encode alice)), .deliver .left .right 0 8]

theorem both_issued_of_connected_introduction :
    (run (Pair.step aliceAndBob) Pair.initial introduction).status aliceAndBob .left
      = some .active ∧
      (run (Pair.step aliceAndBob) Pair.initial introduction).Issued aliceAndBob .left ∧
      (run (Pair.step aliceAndBob) Pair.initial introduction).Issued aliceAndBob .right := by
  have hconnected : (run (Pair.step aliceAndBob) Pair.initial introduction).status aliceAndBob .left
      = some .active := by decide +kernel
  refine ⟨hconnected, both_issued_of_connected Wire.symbolic_lawful aliceAndBob introduction
    (Wire.symbolic_injOn _) ?_ .left hconnected⟩
  refine ⟨fun h => h.elim, trivial, fun _ => ?_, trivial, trivial⟩
  decide +kernel

/-- Alice asks Bob and accepts in his place: she is connected, and Bob has never been
asked. -/
theorem self_accepted_connection :
    (run (Pair.step aliceAndBob) (Pair.initial : Pair Wire.symbolic)
      [.call .left (online alice 5) (.connect (Hex.encode bob) "hello"),
        .call .left (online alice 6) (.accept (Hex.encode bob))]).status aliceAndBob .left
        = some .active ∧
      ¬(run (Pair.step aliceAndBob) (Pair.initial : Pair Wire.symbolic)
        [.call .left (online alice 5) (.connect (Hex.encode bob) "hello"),
          .call .left (online alice 6) (.accept (Hex.encode bob))]).Issued aliceAndBob .right := by
  refine ⟨by decide +kernel, ?_⟩
  rintro ⟨call, hmem, -⟩
  rcases List.mem_cons.mp hmem with h | hmem
  · cases h
  · cases List.mem_singleton.mp hmem

end MutualConsent
