/-
# The calls of a user

The calls by which a user changes connections, as one type: what each does to the row of
another user, what it hands out, and what an ingest reads back from that.  A call hands out
announcements only, in the name of its user and to the one it is about.
-/
import Ephemera.ConnectionFrame

/-- The calls of a user. -/
inductive UserCall where
  | connect (target msg : String)
  | accept (source : String)
  | reject (source : String)
  | cancelRequest (target : String)
  | resendRequest (target msg : String)
  | disconnect (target : String)
  | block (target : String)
  | unblock (target : String)
  deriving DecidableEq

namespace UserCall

open SocialService NodeIngest StateExcept

variable {W : Wire}

/-- The state after a call. -/
def perform (env : CallEnv W) (st : NodeState W) : UserCall → NodeState W
  | .connect target msg => after (SocialService.connect env target msg) st
  | .accept source => after (SocialService.accept env source) st
  | .reject source => after (SocialService.reject env source) st
  | .cancelRequest target => after (SocialService.cancelRequest env target) st
  | .resendRequest target msg => after (SocialService.resendRequest env target msg) st
  | .disconnect target => after (SocialService.disconnect env target) st
  | .block target => after (SocialService.block env target) st
  | .unblock target => after (SocialService.unblock env target) st

/-- The call returns `Ok`. -/
def succeeds (env : CallEnv W) (st : NodeState W) : UserCall → Bool
  | .connect target msg => (exec (SocialService.connect env target msg) st).1.isOk
  | .accept source => (exec (SocialService.accept env source) st).1.isOk
  | .reject source => (exec (SocialService.reject env source) st).1.isOk
  | .cancelRequest target => (exec (SocialService.cancelRequest env target) st).1.isOk
  | .resendRequest target msg => (exec (SocialService.resendRequest env target msg) st).1.isOk
  | .disconnect target => (exec (SocialService.disconnect env target) st).1.isOk
  | .block target => (exec (SocialService.block env target) st).1.isOk
  | .unblock target => (exec (SocialService.unblock env target) st).1.isOk

/-- The call is a `connect` towards `peer`; `resend_request` makes one too. -/
def Requests (peer : IdentityKey) : UserCall → Prop
  | .connect target _ | .resendRequest target _ => decodeKey target = some peer
  | _ => False

/-- The call makes a request to `peer` that carries the message. -/
def Asks (peer : IdentityKey) (message : Option String) : UserCall → Prop
  | .connect target msg | .resendRequest target msg =>
    decodeKey target = some peer ∧ message = requestMessage msg
  | _ => False

/-- The call is an `accept` towards `peer`. -/
def Accepts (peer : IdentityKey) : UserCall → Prop
  | .accept source => decodeKey source = some peer
  | _ => False

/-- The payload the call of `me` announces at `now`, and to whom. -/
def Announced (me : IdentityKey) (now : UInt64) (remote : IdentityKey) (payload : Json) :
    UserCall → Prop
  | .connect target msg | .resendRequest target msg =>
    decodeKey target = some remote ∧ payload = requestPayload me remote (requestMessage msg) now
  | .accept source => decodeKey source = some remote ∧ payload = acceptancePayload me remote now
  | _ => False

/-- What is announced to a user is a request or an acceptance towards it. -/
theorem Announced.issued {me remote : IdentityKey} {now : UInt64} {payload : Json}
    {call : UserCall} (h : call.Announced me now remote payload) :
    call.Requests remote ∨ call.Accepts remote := by
  cases call with
  | connect target msg => exact Or.inl h.1
  | resendRequest target msg => exact Or.inl h.1
  | accept source => exact Or.inr h.1
  | _ => exact h.elim

end UserCall

namespace UserCalls

open SocialService NodeOp MetadataDb NodeIngest StateExcept

variable {W : Wire}

/-! ## What a call does to the row of the other user -/

variable {env : CallEnv W} {me peer : IdentityKey}

theorem status_connect (env : CallEnv W) (target msg : String) (st : NodeState W)
    (a b : IdentityKey) :
    (after (connect env target msg) st).db.status a b = st.db.status a b ∨
      resolve env target = .ok (a, b) ∧
        (after (connect env target msg) st).db.status a b = some .pendingOutgoing := by
  rcases connections_connect env target msg st with h | ⟨l, r, row, hres, hnone, hrow, h⟩
  · exact Or.inl (status_congr h a b)
  · by_cases hk : (a, b) = (l, r)
    · refine Or.inr ⟨by rw [hres, hk], ?_⟩
      rw [MetadataDb.status, h, SqlTable.get?_insertOrIgnore, if_pos hk, hnone, Option.getD_none,
        Option.map_some, hrow]
    · left
      rw [MetadataDb.status, h, SqlTable.get?_insertOrIgnore, if_neg hk, MetadataDb.status]

theorem status_reject (db : MetadataDb W) (l r a b : IdentityKey) :
    (db.reject l r).status a b = db.status a b ∨ (db.reject l r).status a b = none := by
  rw [MetadataDb.reject, status_deleteConnection]
  split
  · exact Or.inr rfl
  · exact Or.inl rfl

/-- An `accept` turns a row of the accepted user into `connected`, and no other. -/
theorem status_accept (db : MetadataDb W) {l r a b : IdentityKey} (hab : a ≠ b) (hal : a = l)
    (now : UInt64) :
    (db.accept l r now).status a b = db.status a b ∨
      b = r ∧ db.status a b ≠ none ∧ (db.accept l r now).status a b = some .active := by
  subst hal
  have hne : (a, b) ≠ (r, a) := by
    rintro hk
    obtain ⟨rfl, rfl⟩ := Prod.mk.inj hk
    exact hab rfl
  rw [MetadataDb.status, MetadataDb.connections_accept, MetadataDb.status, Option.map_map]
  cases hrow : db.connections.get? (a, b) with
  | none => exact Or.inl rfl
  | some row =>
    by_cases hr : b = r
    · right
      subst hr
      exact ⟨rfl, by simp, by simp⟩
    · left
      simp only [Option.map_some, Function.comp_apply, Prod.mk.injEq, true_and, hr, false_or]
      rw [if_neg (fun h => hab h.2.symm)]

/-- A call that only writes the database does to a row what its write does, if anything. -/
theorem status_writeDb (env : CallEnv W) (target : String) (st : NodeState W)
    {write : MetadataDb W → IdentityKey → IdentityKey → MetadataDb W} {a b : IdentityKey}
    (hwrite : ∀ l r, (write st.db l r).status a b = st.db.status a b ∨
      (write st.db l r).status a b = none) :
    (after (writeDb env target write) st).db.status a b = st.db.status a b ∨
      (after (writeDb env target write) st).db.status a b = none := by
  cases hres : resolve env target with
  | error e => exact Or.inl (by rw [ConnectionFrame.db_writeDb_of_error hres])
  | ok lr =>
    rw [db_writeDb hres]
    exact hwrite lr.1 lr.2

theorem status_acceptCall (hid : env.identity = .ok me) (hne : me ≠ peer) (source : String)
    (st : NodeState W) :
    (after (SocialService.accept env source) st).db.status me peer = st.db.status me peer ∨
      decodeKey source = some peer ∧ st.db.status me peer ≠ none ∧
        (after (SocialService.accept env source) st).db.status me peer = some .active := by
  cases hres : resolve env source with
  | error e =>
    left
    rw [after_accept, onResolved_of_error hres]
  | ok lr =>
    obtain ⟨l, r⟩ := lr
    obtain ⟨hml, hr⟩ := of_resolve hid hres
    rw [db_accept hres]
    rcases status_accept (r := r) st.db hne hml env.now with h | ⟨rfl, hsome, h⟩
    · exact Or.inl h
    · exact Or.inr ⟨hr, hsome, h⟩

/-- A resent request deletes, and then does what a request does. -/
theorem status_resendCall (env : CallEnv W) (target msg : String) (st : NodeState W)
    (a b : IdentityKey) :
    (after (SocialService.resendRequest env target msg) st).db.status a b = st.db.status a b ∨
      (after (SocialService.resendRequest env target msg) st).db.status a b = none ∨
      decodeKey target = some b ∧
        (after (SocialService.resendRequest env target msg) st).db.status a b
          = some .pendingOutgoing := by
  cases hres : resolve env target with
  | error e =>
    left
    rw [after_resendRequest, onResolved_of_error hres]
  | ok lr =>
    obtain ⟨l, r⟩ := lr
    rw [after_resendRequest_of_ok hres]
    rcases status_connect env target msg { st with db := (st.db.reject l r).reject r l } a b
      with h | ⟨hres', h⟩
    · rw [h]
      rcases status_reject (st.db.reject l r) r l a b with hrev | hrev
      · rw [hrev]
        exact (status_reject st.db l r a b).imp_right Or.inl
      · exact Or.inr (Or.inl hrev)
    · exact Or.inr (Or.inr ⟨(resolve_eq_ok.mp hres').2, h⟩)

/-- **What a call does to the row of the other user.**  It leaves it, deletes it, makes a
request where there was none, or accepts. -/
theorem status_perform (hid : env.identity = .ok me) (hne : me ≠ peer) (call : UserCall)
    (st : NodeState W) :
    (call.perform env st).db.status me peer = st.db.status me peer ∨
      (call.perform env st).db.status me peer = none ∨
      (call.Requests peer ∧ (call.perform env st).db.status me peer = some .pendingOutgoing) ∨
      call.Accepts peer ∧ st.db.status me peer ≠ none ∧
        (call.perform env st).db.status me peer = some .active := by
  -- the calls that only write the database leave the row or delete it
  have weaken : ∀ {p q r s : Prop}, p ∨ q → p ∨ q ∨ r ∨ s := by tauto
  cases call with
  | connect target msg =>
    rcases status_connect env target msg st me peer with h | ⟨hres, h⟩
    · exact Or.inl h
    · exact Or.inr (Or.inr (Or.inl ⟨(resolve_eq_ok.mp hres).2, h⟩))
  | accept source =>
    rcases status_acceptCall hid hne source st with h | h
    · exact Or.inl h
    · exact Or.inr (Or.inr (Or.inr h))
  | resendRequest target msg =>
    rcases status_resendCall env target msg st me peer with h | h | h
    · exact Or.inl h
    · exact Or.inr (Or.inl h)
    · exact Or.inr (Or.inr (Or.inl h))
  | reject source =>
    exact weaken (status_writeDb env source st (fun l r => status_reject st.db l r me peer))
  | cancelRequest target =>
    exact weaken (status_writeDb env target st (fun l r => status_reject st.db l r me peer))
  | disconnect target =>
    refine weaken (status_writeDb env target st (fun l r => ?_))
    rw [status_remove]
    split
    · exact Or.inr rfl
    · exact Or.inl rfl
  | block target =>
    -- a block deletes the connection as a rejection does
    exact weaken (status_writeDb env target st (fun l r => status_reject _ l r me peer))
  | unblock target => exact weaken (status_writeDb env target st (fun l r => Or.inl rfl))

/-! ## What a call hands out -/

/-- The payloads `me` announces to `remote`. -/
def IsAnnouncement (me remote : IdentityKey) (payload : Json) : Prop :=
  (∃ message now, payload = requestPayload me remote message now) ∨
    ∃ now, payload = acceptancePayload me remote now

theorem isAnnouncement_of_announced {call : UserCall} {remote : IdentityKey} {now : UInt64}
    {payload : Json} (h : call.Announced me now remote payload) :
    IsAnnouncement me remote payload := by
  cases call with
  | connect target msg => exact Or.inl ⟨_, now, h.2⟩
  | resendRequest target msg => exact Or.inl ⟨_, now, h.2⟩
  | accept source => exact Or.inr ⟨now, h.2⟩
  | _ => exact h.elim

/-- Everything new in `st'` announces a payload to a user as `P` allows: over gossip in an
envelope, and in the DHT as it is. -/
structure Announces (P : IdentityKey → Json → Prop) (st st' : NodeState W) : Prop where
  published : ∀ bytes ∈ st'.published, bytes ∈ st.published ∨
    ∃ remote payload now, P remote payload ∧
      bytes = W.envelopeToVec (announcementEnvelope remote payload now)
  stored : ∀ record ∈ st'.stored, record ∈ st.stored ∨
    ∃ remote payload, P remote payload ∧ record.value = W.jsonToVec payload
  records : ∀ key stored, st'.dht.records.get? key = some stored →
    st.dht.records.get? key = some stored ∨
      ∃ remote payload, P remote payload ∧ stored.record.value = W.jsonToVec payload

/-- A call that leaves all but the database announces nothing. -/
theorem Announces.of_db {P : IdentityKey → Json → Prop} (st : NodeState W) (db : MetadataDb W) :
    Announces P st { st with db := db } where
  published := fun _ h => Or.inl h
  stored := fun _ h => Or.inl h
  records := fun _ _ h => Or.inl h

/-- Announcing from another database announces the same. -/
theorem Announces.of_setDb {P : IdentityKey → Json → Prop} {st st' : NodeState W}
    {db : MetadataDb W} (h : Announces P { st with db := db } st') : Announces P st st' :=
  ⟨h.published, h.stored, h.records⟩

theorem announces_afterAnnounce {P : IdentityKey → Json → Prop} {remote : IdentityKey}
    {payload : Json} (hP : P remote payload) (st : NodeState W) (db : MetadataDb W) :
    Announces P st (afterAnnounce env me remote payload { st with db := db }) := by
  obtain ⟨hstored, hrecords⟩ := NodeState.stored_of_afterStore env
    (announcementRecord me remote payload env.now)
    (NodeState.afterPublish env
      (W.envelopeToVec (announcementEnvelope remote payload env.now)) { st with db := db })
  refine ⟨fun bytes h => ?_, fun record h => ?_, fun key stored h => ?_⟩
  · rw [afterAnnounce, NodeState.published_afterStore] at h
    rcases NodeState.mem_published_afterPublish h with h | h
    · exact Or.inl h
    · exact Or.inr ⟨remote, payload, env.now, hP, h⟩
  · rcases hstored record h with h | rfl
    · rw [NodeState.stored_afterPublish] at h
      exact Or.inl h
    · exact Or.inr ⟨remote, payload, hP, rfl⟩
  · rcases hrecords key stored h with h | h
    · rw [NodeState.dht_afterPublish] at h
      exact Or.inl h
    · rw [h]
      exact Or.inr ⟨remote, payload, hP, rfl⟩

/-- A request that passes the checks of the store succeeds. -/
theorem isOk_connect {target msg : String} {st : NodeState W} {l r : IdentityKey}
    {db : MetadataDb W} (hres : resolve env target = .ok (l, r))
    (hreq : st.db.request l r (requestMessage msg) env.now = .ok db) :
    (exec (connect env target msg) st).1.isOk = true := by
  obtain ⟨a, ha⟩ := exec_announce env l r (requestPayload l r (requestMessage msg) env.now)
    { st with db := db }
  unfold SocialService.connect
  simp only [exec_bind, exec_lift, hres, exec_get, hreq, Except.mapError, exec_modify, ha]
  rfl

/-- What a request hands out. -/
theorem announces_connect (hid : env.identity = .ok me) (target msg : String) (st : NodeState W) :
    Announces (fun remote payload => (exec (connect env target msg) st).1.isOk = true ∧
      decodeKey target = some remote ∧
      payload = requestPayload me remote (requestMessage msg) env.now) st
      (after (connect env target msg) st) := by
  rw [after_connect]
  unfold onResolved
  cases hres : resolve env target with
  | error e => exact Announces.of_db st st.db
  | ok lr =>
    obtain ⟨l, r⟩ := lr
    obtain ⟨rfl, hr⟩ := of_resolve hid hres
    simp only
    cases hreq : st.db.request me r (requestMessage msg) env.now with
    | error e => exact Announces.of_db st st.db
    | ok db => exact announces_afterAnnounce ⟨isOk_connect hres hreq, hr, rfl⟩ st db

/-- A call that only writes the database hands out nothing. -/
theorem announces_writeDb {P : IdentityKey → Json → Prop} (env : CallEnv W) (target : String)
    (write : MetadataDb W → IdentityKey → IdentityKey → MetadataDb W) (st : NodeState W) :
    Announces P st (after (writeDb env target write) st) := by
  rw [after_writeDb]
  unfold onResolved
  cases resolve env target with
  | error e => exact Announces.of_db st st.db
  | ok lr => exact Announces.of_db st _

/-- What an acceptance hands out. -/
theorem announces_accept (hid : env.identity = .ok me) (source : String) (st : NodeState W) :
    Announces (fun remote payload => (exec (accept env source) st).1.isOk = true ∧
      decodeKey source = some remote ∧ payload = acceptancePayload me remote env.now) st
      (after (accept env source) st) := by
  rw [after_accept]
  unfold onResolved
  cases hres : resolve env source with
  | error e => exact Announces.of_db st st.db
  | ok lr =>
    obtain ⟨l, r⟩ := lr
    obtain ⟨rfl, hr⟩ := of_resolve hid hres
    have hok : (exec (accept env source) st).1.isOk = true := by
      obtain ⟨a, ha⟩ := exec_announce env me r (acceptancePayload me r env.now)
        { st with db := st.db.accept me r env.now }
      unfold SocialService.accept
      simp only [exec_bind, exec_lift, hres, exec_modify, ha]
      rfl
    exact announces_afterAnnounce ⟨hok, hr, rfl⟩ st _

/-- What a resent request announces is what the request announces. -/
theorem announces_resendRequest (hid : env.identity = .ok me) (target msg : String)
    (st : NodeState W) :
    Announces (fun remote payload => (exec (resendRequest env target msg) st).1.isOk = true ∧
      decodeKey target = some remote ∧
      payload = requestPayload me remote (requestMessage msg) env.now) st
      (after (resendRequest env target msg) st) := by
  rw [after_resendRequest]
  unfold onResolved
  cases hres : resolve env target with
  | error e => exact Announces.of_db st st.db
  | ok lr =>
    obtain ⟨l, r⟩ := lr
    have hexec : exec (resendRequest env target msg) st
        = exec (connect env target msg) { st with db := (st.db.reject l r).reject r l } := by
      unfold SocialService.resendRequest
      simp only [exec_bind, exec_lift, hres, exec_modify]
    rw [hexec]
    exact (announces_connect hid target msg
      { st with db := (st.db.reject l r).reject r l }).of_setDb

/-- **What a call hands out.**  Announcements of its user, to the one it is about, if it
succeeds. -/
theorem announces_perform (hid : env.identity = .ok me) (call : UserCall) (st : NodeState W) :
    Announces (fun remote payload => call.succeeds env st = true ∧
      call.Announced me env.now remote payload) st (call.perform env st) := by
  cases call with
  | connect target msg => exact announces_connect hid target msg st
  | accept source => exact announces_accept hid source st
  | resendRequest target msg => exact announces_resendRequest hid target msg st
  | reject source => exact announces_writeDb env source _ st
  | cancelRequest target => exact announces_writeDb env target _ st
  | disconnect target => exact announces_writeDb env target _ st
  | block target => exact announces_writeDb env target _ st
  | unblock target => exact announces_writeDb env target _ st

/-! ## Reading announcements back -/

theorem IsAnnouncement.nodup {remote : IdentityKey} {payload : Json}
    (h : IsAnnouncement me remote payload) : (payload.map Prod.fst).Nodup := by
  rcases h with ⟨message, now, rfl⟩ | ⟨now, rfl⟩
  · show ["type", "initiator", "responder", "message", "created_at"].Nodup
    decide
  · show ["type", "acceptor", "requester", "created_at"].Nodup
    decide

/-- An announcement is not an envelope, so a DHT record that holds one is skipped. -/
theorem IsAnnouncement.not_envelope (hW : W.Lawful) {remote : IdentityKey} {payload : Json}
    (h : IsAnnouncement me remote payload) :
    W.envelopeFromSlice (W.jsonToVec payload) = none := by
  refine hW.envelope_missing payload h.nodup ?_
  rcases h with ⟨message, now, rfl⟩ | ⟨now, rfl⟩
  · rfl
  · rfl

/-- The fields of an announcement are read back. -/
theorem IsAnnouncement.get (hW : W.Lawful) {remote : IdentityKey} {payload json : Json}
    (h : IsAnnouncement me remote payload)
    (hjson : W.jsonFromSlice (W.jsonToVec payload) = some json) (field : String) :
    json.get field = payload.get field := by
  obtain ⟨json', hjson', hget⟩ := hW.json payload h.nodup
  rw [hjson, Option.some.injEq] at hjson'
  rw [hjson', hget]

theorem IsAnnouncement.getStr (hW : W.Lawful) {remote : IdentityKey} {payload json : Json}
    (h : IsAnnouncement me remote payload)
    (hjson : W.jsonFromSlice (W.jsonToVec payload) = some json) (field : String) :
    json.getStr field = payload.getStr field := by
  rw [Json.getStr, h.get hW hjson, Json.getStr]

/-- An acceptance is not a request. -/
theorem not_sealsRequest_acceptance (hW : W.Lawful) (me remote sender : IdentityKey)
    (now sent : UInt64) :
    ¬SealsRequest (announcementEnvelope remote (acceptancePayload me remote now) sent : W.Envelope)
      sender := by
  rintro ⟨json, hjson, htype, -⟩
  have hann : IsAnnouncement me remote (acceptancePayload me remote now) := Or.inr ⟨now, rfl⟩
  rw [hann.getStr hW hjson] at htype
  have hother : (acceptancePayload me remote now).getStr "type" = some "connection_accepted" := rfl
  rw [hother] at htype
  exact absurd (Option.some.inj htype) (by decide)

/-- A request is not an acceptance. -/
theorem not_sealsAcceptance_request (hW : W.Lawful) (me remote sender : IdentityKey)
    (message : Option String) (now sent : UInt64) :
    ¬SealsAcceptance
      (announcementEnvelope remote (requestPayload me remote message now) sent : W.Envelope)
      sender := by
  rintro ⟨json, hjson, htype, -⟩
  have hann : IsAnnouncement me remote (requestPayload me remote message now) :=
    Or.inl ⟨message, now, rfl⟩
  rw [hann.getStr hW hjson] at htype
  have hother : (requestPayload me remote message now).getStr "type" = some "connection_request" :=
    rfl
  rw [hother] at htype
  exact absurd (Option.some.inj htype) (by decide)

/-- An announced request is in the name of the one who announces it. -/
theorem IsAnnouncement.sender_of_sealsRequest (hW : W.Lawful) (hme : me.length = identityKeyLen)
    {remote sender : IdentityKey} {payload : Json} {now : UInt64}
    (h : IsAnnouncement me remote payload)
    (hseal : SealsRequest (announcementEnvelope remote payload now : W.Envelope) sender) :
    sender = me := by
  rcases id h with ⟨message, sent, rfl⟩ | ⟨sent, rfl⟩
  · obtain ⟨json, hjson, -, hkey⟩ := hseal
    have hinitiator : (requestPayload me remote message sent).getStr "initiator"
        = some (Hex.encode me) := rfl
    rw [h.getStr hW hjson, hinitiator, Option.getD_some, decodeKey_encode hme] at hkey
    exact (Option.some.inj hkey).symm
  · exact absurd hseal (not_sealsRequest_acceptance hW me remote sender sent now)

/-- An announced acceptance is in the name of the one who announces it. -/
theorem IsAnnouncement.sender_of_sealsAcceptance (hW : W.Lawful)
    (hme : me.length = identityKeyLen) {remote sender : IdentityKey} {payload : Json} {now : UInt64}
    (h : IsAnnouncement me remote payload)
    (hseal : SealsAcceptance (announcementEnvelope remote payload now : W.Envelope) sender) :
    sender = me := by
  rcases id h with ⟨message, sent, rfl⟩ | ⟨sent, rfl⟩
  · exact absurd hseal (not_sealsAcceptance_request hW me remote sender message sent now)
  · obtain ⟨json, hjson, -, hkey⟩ := hseal
    have hacceptor : (acceptancePayload me remote sent).getStr "acceptor"
        = some (Hex.encode me) := rfl
    rw [h.getStr hW hjson, hacceptor, Option.getD_some, decodeKey_encode hme] at hkey
    exact (Option.some.inj hkey).symm

/-- **What an announcement does to a row.**  It inserts or connects the row of the one who
announced it, in the table of the one it is addressed to. -/
theorem status_ingest_announcement (hW : W.Lawful) {hashed : Set W.Bytes}
    (hhash : Set.InjOn W.blake3 hashed) {source loc remote : IdentityKey}
    (hloc : Messaging.mailboxBytes loc ∈ hashed) (hremote : Messaging.mailboxBytes remote ∈ hashed)
    (hsource : source.length = identityKeyLen) {payload : Json}
    (h : IsAnnouncement source remote payload) (peer : IdentityKey) (db : MetadataDb W)
    (sent now : UInt64) :
    let db' := (ingestPayload db (W.envelopeToVec (announcementEnvelope remote payload sent))
      (some loc) now).1
    db'.status loc peer = db.status loc peer ∨
      remote = loc ∧ peer = source ∧
        (db.status loc peer = none ∧ db'.status loc peer = some .pendingIncoming ∨
          db.status loc peer = some .pendingOutgoing ∧ db'.status loc peer = some .active) := by
  intro db'
  rcases connections_ingestPayload db
    (W.envelopeToVec (announcementEnvelope remote payload sent)) (some loc) now
    with hconn | ⟨loc', envelope, hsame, henv, hbox, heffect⟩
  · exact Or.inl (status_congr hconn loc peer)
  · obtain rfl := Option.some.inj hsame
    rw [hW.envelope, Option.some.injEq] at henv
    subst henv
    have hmine : remote = loc := (Messaging.mailboxKey_inj hW hhash hloc hremote hbox).symm
    rcases status_of_envelopeEffect heffect peer with
      hsame | ⟨hseal, hold, hnew⟩ | ⟨hseal, hold, hnew⟩
    · exact Or.inl hsame
    · exact Or.inr ⟨hmine, h.sender_of_sealsRequest hW hsource hseal, Or.inl ⟨hold, hnew⟩⟩
    · exact Or.inr ⟨hmine, h.sender_of_sealsAcceptance hW hsource hseal, Or.inr ⟨hold, hnew⟩⟩

end UserCalls
