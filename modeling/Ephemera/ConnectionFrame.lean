/-
# What may end a connection

A connection is meant to be ended by `disconnect`, `unfollow` and `block` of its owner, and
`cancel_request` and `resend_request` are meant for rows `pending_outgoing`.  The store
deletes and replaces rows whatever their status, so this holds only from states in which
the rows an operation hits have the status it is meant for (`Careful`).
-/
import Ephemera.NodeOp

/-! ## Statuses after the writes of the store -/

namespace MetadataDb

variable {W : Wire} {db db' : MetadataDb W} {a b : IdentityKey}

theorem status_congr (h : db'.connections = db.connections) (a b : IdentityKey) :
    db'.status a b = db.status a b := by
  rw [status, status, h]

/-- A row is `connected` exactly when the table says so. -/
theorem status_eq_some_iff {s : ConnectionStatus} :
    db.status a b = some s ↔ ∃ row, db.connections.get? (a, b) = some row ∧ row.status = s := by
  rw [status, Option.map_eq_some_iff]

theorem status_eq_none_iff : db.status a b = none ↔ db.connections.get? (a, b) = none := by
  rw [status, Option.map_eq_none_iff]

/-- `INSERT OR IGNORE` keeps the rows that are there. -/
theorem get?_of_insertOrIgnore {k k' : IdentityKey × IdentityKey} {row row' : ConnectionRow}
    (hins : db'.connections = db.connections.insertOrIgnore k row)
    (h : db.connections.get? k' = some row') : db'.connections.get? k' = some row' := by
  rw [hins, SqlTable.get?_insertOrIgnore]
  by_cases hk : k' = k
  · rw [if_pos hk, ← hk, h, Option.getD_some]
  · rw [if_neg hk, h]

/-- An acceptance never takes `connected` back. -/
theorem status_connectWhere_active (h : db.status a b = some .active)
    (k : IdentityKey × IdentityKey) (p : ConnectionRow → Bool) (t : Int64) :
    (db.connectWhere k p t).status a b = some .active := by
  obtain ⟨row, hrow, hactive⟩ := status_eq_some_iff.mp h
  rw [status, connections_connectWhere, hrow]
  by_cases hc : (a, b) = k ∧ p row = true
  · simp only [Option.map_some, if_pos hc]
  · simp only [Option.map_some, if_neg hc, hactive]

theorem status_accept_active (h : db.status a b = some .active) (l r : IdentityKey) (now : UInt64) :
    (db.accept l r now).status a b = some .active :=
  status_connectWhere_active (status_connectWhere_active h _ _ _) _ _ _

theorem status_deleteConnection (db : MetadataDb W) (k : IdentityKey × IdentityKey)
    (a b : IdentityKey) :
    (db.deleteConnection k).status a b = if (a, b) = k then none else db.status a b := by
  rw [status, connections_deleteConnection]
  by_cases hk : (a, b) = k
  · rw [if_pos hk, if_pos hk, Option.map_none]
  · rw [if_neg hk, if_neg hk, status]

theorem status_remove (db : MetadataDb W) (l r a b : IdentityKey) :
    (db.remove l r).status a b
      = if (a, b) = (r, l) ∨ (a, b) = (l, r) then none else db.status a b := by
  rw [remove, status_deleteConnection, status_deleteConnection]
  by_cases h1 : (a, b) = (r, l)
  · rw [if_pos h1, if_pos (Or.inl h1)]
  · by_cases h2 : (a, b) = (l, r)
    · rw [if_neg h1, if_pos h2, if_pos (Or.inr h2)]
    · rw [if_neg h1, if_neg h2, if_neg (by rintro (h | h) <;> contradiction)]

theorem status_receiveConnectionRequest (db : MetadataDb W) (receiver sender : IdentityKey)
    (message : Option String) (now : UInt64) (a b : IdentityKey) :
    (db.receiveConnectionRequest receiver sender message now).status a b
      = if db.isBlocked receiver sender = false ∧ (a, b) = (receiver, sender)
        then some .pendingIncoming else db.status a b := by
  unfold receiveConnectionRequest
  by_cases hb : db.isBlocked receiver sender = true
  · rw [if_pos hb, if_neg (by simp [hb])]
  · rw [if_neg hb, status, SqlTable.get?_insertOrReplace]
    by_cases hk : (a, b) = (receiver, sender)
    · rw [if_pos hk, if_pos ⟨by simpa using hb, hk⟩, Option.map_some]
    · rw [if_neg hk, if_neg (fun h => hk h.2), status]

/-- What an envelope may do to the status of a row: insert it, or connect it. -/
theorem status_of_envelopeEffect {envelope : W.Envelope} {loc : IdentityKey}
    (h : NodeIngest.EnvelopeEffect db db' envelope loc) (peer : IdentityKey) :
    db'.status loc peer = db.status loc peer ∨
      (NodeIngest.SealsRequest envelope peer ∧ db.status loc peer = none ∧
        db'.status loc peer = some .pendingIncoming) ∨
      NodeIngest.SealsAcceptance envelope peer ∧ db.status loc peer = some .pendingOutgoing ∧
        db'.status loc peer = some .active := by
  rcases h with h | ⟨sender, row, hseal, hrow, h⟩ | ⟨sender, t, hseal, h⟩
  · exact Or.inl (status_congr h loc peer)
  · -- a request for a row that is there is ignored, so only a missing row changes
    cases hold : db.connections.get? (loc, peer) with
    | some row' =>
      left
      rw [status, get?_of_insertOrIgnore h hold, status, hold]
    | none =>
      rw [status_eq_none_iff.mpr hold, status, h, SqlTable.get?_insertOrIgnore]
      by_cases hk : (loc, peer) = (loc, sender)
      · obtain ⟨-, rfl⟩ := Prod.mk.inj hk
        rw [if_pos rfl, hold, Option.getD_none, Option.map_some, hrow]
        exact Or.inr (Or.inl ⟨hseal, rfl, rfl⟩)
      · rw [if_neg hk, hold]
        exact Or.inl rfl
  · -- an acceptance hits one row, and that only while it is `pending_outgoing`
    rw [status_congr h loc peer, status, connections_connectWhere]
    cases hold : db.connections.get? (loc, peer) with
    | none => exact Or.inl (by rw [status_eq_none_iff.mpr hold]; rfl)
    | some row =>
      rw [Option.map_some, Option.map_some, status_eq_some_iff.mpr ⟨row, hold, rfl⟩]
      by_cases hk : (loc, peer) = (loc, sender) ∧ NodeIngest.isOutgoing row = true
      · obtain ⟨-, rfl⟩ := Prod.mk.inj hk.1
        have hout : row.status = .pendingOutgoing := of_decide_eq_true hk.2
        rw [if_pos hk, hout]
        exact Or.inr (Or.inr ⟨hseal, rfl, rfl⟩)
      · rw [if_neg hk]
        exact Or.inl rfl

end MetadataDb

namespace ConnectionFrame

open SocialService NodeOp MetadataDb GuardedRun

variable {W : Wire} {C : Cipher W} {st : NodeState W} {a b : IdentityKey}

/-! ## The frame -/

/-- The operations that are meant to end the connection of `a` with `b`. -/
def Ends (op : NodeOp C) (a b : IdentityKey) : Prop :=
  match op with
  | .disconnect env target | .unfollow env target | .block env target =>
    resolve env target = .ok (a, b)
  | _ => False

/-- The operations that are meant for rows `pending_outgoing`. -/
def IsRerequest : NodeOp C → Prop
  | .cancelRequest _ _ | .resendRequest _ _ _ => True
  | _ => False

/-- An operation stays within its frame: a connection is ended only by the operations meant
for it, and `cancel_request` and `resend_request` touch only rows `pending_outgoing`. -/
structure Framed (st : NodeState W) (op : NodeOp C) : Prop where
  kept : ∀ a b, st.db.status a b = some .active → ¬Ends op a b →
    (apply st op).db.status a b = some .active
  outgoing : IsRerequest op → ∀ k row, st.db.connections.get? k = some row →
    (apply st op).db.connections.get? k ≠ some row → row.status = .pendingOutgoing

/-- There is no row from `a` to `b`, or it is `pending_outgoing`. -/
def AtMostOutgoing (db : MetadataDb W) (a b : IdentityKey) : Prop :=
  ∀ s, db.status a b = some s → s = .pendingOutgoing

/-- The rows that an operation deletes or replaces have a status it is meant for. -/
def Careful (st : NodeState W) : NodeOp C → Prop
  | .reject env source =>
    ∀ l r, resolve env source = .ok (l, r) → st.db.status l r ≠ some .active
  | .cancelRequest env target =>
    ∀ l r, resolve env target = .ok (l, r) → AtMostOutgoing st.db l r
  | .resendRequest env target _ =>
    ∀ l r, resolve env target = .ok (l, r) → AtMostOutgoing st.db l r ∧ AtMostOutgoing st.db r l
  | .disconnect env target | .unfollow env target =>
    ∀ l r, resolve env target = .ok (l, r) → l ≠ r → st.db.status r l ≠ some .active
  | .receiveConnectionRequest receiver sender _ _ =>
    st.db.isBlocked receiver sender = false → st.db.status receiver sender ≠ some .active
  | _ => True

/-! ## Operations that keep every connection -/

/-- Whatever is connected in `db` is connected in `db'`. -/
def Kept (db db' : MetadataDb W) : Prop :=
  ∀ a b, db.status a b = some .active → db'.status a b = some .active

theorem Kept.of_eq {db db' : MetadataDb W} (h : db'.connections = db.connections) :
    Kept db db' := by
  intro a b hab
  rw [status_congr h, hab]

theorem Kept.of_insertOrIgnore {db db' : MetadataDb W} {k : IdentityKey × IdentityKey}
    {row : ConnectionRow} (h : db'.connections = db.connections.insertOrIgnore k row) :
    Kept db db' := by
  intro a b hab
  obtain ⟨row', hrow, hactive⟩ := status_eq_some_iff.mp hab
  exact status_eq_some_iff.mpr ⟨row', get?_of_insertOrIgnore h hrow, hactive⟩

theorem Kept.of_envelopeEffect {db db' : MetadataDb W} {envelope : W.Envelope} {loc : IdentityKey}
    (h : NodeIngest.EnvelopeEffect db db' envelope loc) : Kept db db' := by
  rcases h with h | ⟨sender, row, -, -, h⟩ | ⟨sender, t, -, h⟩
  · exact Kept.of_eq h
  · exact Kept.of_insertOrIgnore h
  · intro a b hab
    rw [status_congr h]
    exact status_connectWhere_active hab _ _ _

theorem kept_connect (env : CallEnv W) (target msg : String) (st : NodeState W) :
    Kept st.db (after (connect env target msg) st).db := by
  rcases connections_connect env target msg st with h | ⟨loc, remote, row, -, -, -, h⟩
  · exact Kept.of_eq h
  · exact Kept.of_insertOrIgnore h

theorem kept_accept (env : CallEnv W) (source : String) (st : NodeState W) :
    Kept st.db (after (accept env source) st).db := by
  cases hres : resolve env source with
  | error e =>
    rw [after_accept, onResolved_of_error hres]
    exact Kept.of_eq rfl
  | ok lr =>
    rw [db_accept hres]
    exact fun a b hab => status_accept_active hab _ _ _

theorem kept_ingest (db : MetadataDb W) (payload : W.Bytes) (ours : Option IdentityKey)
    (now : UInt64) : Kept db (NodeIngest.ingestPayload db payload ours now).1 := by
  rcases NodeIngest.connections_ingestPayload db payload ours now with h | ⟨_, _, -, -, -, h⟩
  · exact Kept.of_eq h
  · exact Kept.of_envelopeEffect h

theorem kept_retrieveDhtDeadDrops (db : MetadataDb W) (dht : DhtStorage W) (ours : IdentityKey)
    (now : UInt64) : Kept db (NodeIngest.retrieveDhtDeadDrops db dht ours now).1 := by
  rcases NodeIngest.connections_retrieveDhtDeadDrops db dht ours now with h | ⟨_, _, -, -, h⟩
  · exact Kept.of_eq h
  · exact Kept.of_envelopeEffect h

theorem kept_writeResult {ε : Type} {st : NodeState W} {r : Except ε (MetadataDb W)}
    (h : ∀ db, r = .ok db → db.connections = st.db.connections) :
    Kept st.db (writeResult st r).db := by
  cases r with
  | error e => exact Kept.of_eq rfl
  | ok db => exact Kept.of_eq (h db rfl)

theorem kept_receiveMessage (st : NodeState W) (envelope : W.Sealed) (ours : IdentityKey)
    (secret : C.X25519Secret) (now : UInt64) :
    Kept st.db (apply st (.receiveMessage envelope ours secret now : NodeOp C)).db := by
  refine kept_writeResult ?_
  intro db hdb
  cases hrecv : Messaging.receiveMessage C st.db envelope ours secret now with
  | error e => simp [hrecv, Except.map] at hdb
  | ok r =>
    obtain ⟨payload, db₁⟩ := r
    obtain ⟨-, -, -, rfl⟩ := Messaging.receiveMessage_eq_ok_iff.mp hrecv
    rw [hrecv] at hdb
    rw [← Except.ok.inj hdb]
    exact Messaging.connections_storeReceived _ _ _ _ _ _

/-! ## Operations that delete or replace rows -/

/-- A call whose target cannot be resolved keeps everything. -/
theorem db_writeDb_of_error {env : CallEnv W} {target e : String}
    (h : resolve env target = .error e)
    (write : MetadataDb W → IdentityKey → IdentityKey → MetadataDb W) (st : NodeState W) :
    (after (writeDb env target write) st).db = st.db := by
  rw [after_writeDb, onResolved_of_error h]

/-- After a resent request there is no row in either direction, or a fresh one. -/
theorem status_resendRequest {env : CallEnv W} {target : String} {l r : IdentityKey}
    (h : resolve env target = .ok (l, r)) (msg : String) (st : NodeState W)
    (hab : (a, b) = (l, r) ∨ (a, b) = (r, l)) :
    AtMostOutgoing (after (resendRequest env target msg) st).db a b := by
  intro s hs
  rw [after_resendRequest_of_ok h] at hs
  -- both directions are deleted before the request is made again
  have hgone : ((st.db.reject l r).reject r l).status a b = none := by
    rw [MetadataDb.reject, status_deleteConnection, MetadataDb.reject, status_deleteConnection]
    rcases hab with hab | hab
    · rw [if_pos hab, ite_self]
    · rw [if_pos hab]
  rcases connections_connect env target msg
      { st with db := (st.db.reject l r).reject r l } with hc | ⟨_, _, row, -, -, hrow, hc⟩
  · rw [status_congr hc, hgone] at hs
    cases hs
  · rw [status, hc, SqlTable.get?_insertOrIgnore] at hs
    split at hs
    · rename_i hk
      rw [← hk, status_eq_none_iff.mp hgone, Option.getD_none, Option.map_some] at hs
      rw [← Option.some.inj hs, hrow]
    · rw [status_eq_none_iff.mp hgone] at hs
      cases hs

/-- A resent request leaves every other row. -/
theorem get?_resendRequest {env : CallEnv W} {target : String} {l r : IdentityKey}
    (h : resolve env target = .ok (l, r)) (msg : String) {st : NodeState W}
    {k : IdentityKey × IdentityKey} {row : ConnectionRow} (hk : k ≠ (l, r)) (hk' : k ≠ (r, l))
    (hrow : st.db.connections.get? k = some row) :
    (after (resendRequest env target msg) st).db.connections.get? k = some row := by
  have hkeep : ((st.db.reject l r).reject r l).connections.get? k = some row := by
    rw [MetadataDb.reject, connections_deleteConnection, if_neg hk', MetadataDb.reject,
      connections_deleteConnection, if_neg hk, hrow]
  rw [after_resendRequest_of_ok h]
  rcases connections_connect env target msg
      { st with db := (st.db.reject l r).reject r l } with hc | ⟨_, _, _, -, -, -, hc⟩
  · rw [hc, hkeep]
  · exact get?_of_insertOrIgnore hc hkeep

/-! ## When an operation stays within its frame -/

theorem framed_of_kept {op : NodeOp C} (hop : ¬IsRerequest op)
    (h : Kept st.db (apply st op).db) : Framed st op where
  kept := fun a b hab _ => h a b hab
  outgoing := fun hre => absurd hre hop

theorem framed_reject_iff (st : NodeState W) (env : CallEnv W) (source : String) :
    Framed st (.reject env source : NodeOp C) ↔ Careful st (.reject env source : NodeOp C) := by
  constructor
  · -- the deletion does not look at the status, so a connected row would be gone
    intro h l r hres hactive
    have hkept := h.kept l r hactive (by simp [Ends])
    have hgone : (apply st (.reject env source : NodeOp C)).db.status l r = none := by
      show (after (SocialService.reject env source) st).db.status l r = none
      rw [SocialService.reject, db_writeDb hres, MetadataDb.reject, status_deleteConnection,
        if_pos rfl]
    rw [hgone] at hkept
    cases hkept
  · intro h
    refine framed_of_kept (by simp [IsRerequest]) ?_
    intro a b hab
    show (after (SocialService.reject env source) st).db.status a b = some .active
    cases hres : resolve env source with
    | error e => rw [SocialService.reject, db_writeDb_of_error hres, hab]
    | ok lr =>
      obtain ⟨l, r⟩ := lr
      rw [SocialService.reject, db_writeDb hres, MetadataDb.reject, status_deleteConnection, if_neg,
        hab]
      intro hk
      obtain ⟨rfl, rfl⟩ := Prod.mk.inj hk
      exact h _ _ hres hab

theorem framed_cancelRequest_iff (st : NodeState W) (env : CallEnv W) (target : String) :
    Framed st (.cancelRequest env target : NodeOp C) ↔
      Careful st (.cancelRequest env target : NodeOp C) := by
  have hdb : (apply st (.cancelRequest env target : NodeOp C)).db
      = (after (writeDb env target MetadataDb.reject) st).db := rfl
  constructor
  · intro h l r hres s hs
    obtain ⟨row, hrow, rfl⟩ := status_eq_some_iff.mp hs
    apply h.outgoing trivial (l, r) row hrow
    rw [hdb, db_writeDb hres, MetadataDb.reject, connections_deleteConnection, if_pos rfl]
    exact fun h => by cases h
  · intro h
    cases hres : resolve env target with
    | error e =>
      rw [db_writeDb_of_error hres] at hdb
      refine ⟨fun a b hab _ => by rw [hdb, hab], fun _ k row hrow hne => ?_⟩
      rw [hdb] at hne
      exact absurd hrow hne
    | ok lr =>
      obtain ⟨l, r⟩ := lr
      rw [db_writeDb hres, MetadataDb.reject] at hdb
      refine ⟨fun a b hab _ => ?_, fun _ k row hrow hne => ?_⟩
      · rw [hdb, status_deleteConnection, if_neg, hab]
        intro hk
        obtain ⟨rfl, rfl⟩ := Prod.mk.inj hk
        cases h _ _ hres _ hab
      · rw [hdb, connections_deleteConnection] at hne
        by_cases hk : k = (l, r)
        · subst hk
          exact h _ _ hres _ (status_eq_some_iff.mpr ⟨row, hrow, rfl⟩)
        · rw [if_neg hk] at hne
          exact absurd hrow hne

theorem framed_resendRequest_iff (st : NodeState W) (env : CallEnv W) (target msg : String) :
    Framed st (.resendRequest env target msg : NodeOp C) ↔
      Careful st (.resendRequest env target msg : NodeOp C) := by
  constructor
  · intro h l r hres
    -- a row that is still there has the status of a fresh request
    have key : ∀ a b, (a, b) = (l, r) ∨ (a, b) = (r, l) → AtMostOutgoing st.db a b := by
      intro a b hab s hs
      obtain ⟨row, hrow, rfl⟩ := status_eq_some_iff.mp hs
      by_cases hsame : (after (SocialService.resendRequest env target msg) st).db.connections.get?
          (a, b) = some row
      · exact status_resendRequest hres msg st hab _ (status_eq_some_iff.mpr ⟨row, hsame, rfl⟩)
      · exact h.outgoing trivial (a, b) row hrow hsame
    exact ⟨key l r (Or.inl rfl), key r l (Or.inr rfl)⟩
  · intro h
    -- the rows that change are those of the two users, which are `pending_outgoing`
    have hrows : ∀ k row, st.db.connections.get? k = some row →
        (apply st (.resendRequest env target msg : NodeOp C)).db.connections.get? k ≠ some row →
        row.status = .pendingOutgoing := by
      intro k row hrow hne
      cases hres : resolve env target with
      | error e =>
        refine absurd ?_ hne
        show (after (SocialService.resendRequest env target msg) st).db.connections.get? k
          = some row
        rw [after_resendRequest, onResolved_of_error hres, hrow]
      | ok lr =>
        obtain ⟨l, r⟩ := lr
        by_cases hk : k = (l, r)
        · subst hk
          exact (h l r hres).1 _ (status_eq_some_iff.mpr ⟨row, hrow, rfl⟩)
        · by_cases hk' : k = (r, l)
          · subst hk'
            exact (h l r hres).2 _ (status_eq_some_iff.mpr ⟨row, hrow, rfl⟩)
          · exact absurd (get?_resendRequest hres msg hk hk' hrow) hne
    refine ⟨fun a b hab _ => ?_, fun _ => hrows⟩
    obtain ⟨row, hrow, hactive⟩ := status_eq_some_iff.mp hab
    by_cases hsame : (apply st (.resendRequest env target msg : NodeOp C)).db.connections.get?
        (a, b) = some row
    · exact status_eq_some_iff.mpr ⟨row, hsame, hactive⟩
    · rw [hrows _ _ hrow hsame] at hactive
      cases hactive

theorem framed_disconnect_iff (st : NodeState W) (env : CallEnv W) (target : String) :
    Framed st (.disconnect env target : NodeOp C) ↔
      Careful st (.disconnect env target : NodeOp C) := by
  constructor
  · -- `remove` deletes the other direction too, which is not the connection that ends
    intro h l r hres hne hactive
    have hkept := h.kept r l hactive (by
      intro hends
      obtain ⟨hrl, -⟩ := Prod.mk.inj (Except.ok.inj (hres.symm.trans hends))
      exact hne hrl)
    have hgone : (apply st (.disconnect env target : NodeOp C)).db.status r l = none := by
      show (after (SocialService.disconnect env target) st).db.status r l = none
      rw [SocialService.disconnect, db_writeDb hres, status_remove, if_pos (Or.inl rfl)]
    rw [hgone] at hkept
    cases hkept
  · intro h
    refine ⟨fun a b hab hends => ?_, fun hre => absurd hre (by simp [IsRerequest])⟩
    show (after (SocialService.disconnect env target) st).db.status a b = some .active
    cases hres : resolve env target with
    | error e => rw [SocialService.disconnect, db_writeDb_of_error hres, hab]
    | ok lr =>
      obtain ⟨l, r⟩ := lr
      have hlr : (a, b) ≠ (l, r) := by
        rintro hk
        rw [← hk] at hres
        exact hends hres
      have hrl : (a, b) ≠ (r, l) := by
        rintro hk
        obtain ⟨rfl, rfl⟩ := Prod.mk.inj hk
        exact h _ _ hres (fun heq => hlr (by rw [heq])) hab
      rw [SocialService.disconnect, db_writeDb hres, status_remove, if_neg (by tauto), hab]

theorem framed_block (st : NodeState W) (env : CallEnv W) (target : String) :
    Framed st (.block env target : NodeOp C) := by
  refine ⟨fun a b hab hends => ?_, fun hre => absurd hre (by simp [IsRerequest])⟩
  show (after (SocialService.block env target) st).db.status a b = some .active
  cases hres : resolve env target with
  | error e => rw [SocialService.block, db_writeDb_of_error hres, hab]
  | ok lr =>
    obtain ⟨l, r⟩ := lr
    rw [SocialService.block, db_writeDb hres, MetadataDb.block, status_deleteConnection, if_neg]
    · exact hab
    · intro hk
      rw [← hk] at hres
      exact hends hres

theorem framed_receiveConnectionRequest_iff (st : NodeState W) (receiver sender : IdentityKey)
    (message : Option String) (now : UInt64) :
    Framed st (.receiveConnectionRequest receiver sender message now : NodeOp C) ↔
      Careful st (.receiveConnectionRequest receiver sender message now : NodeOp C) := by
  have hstatus : ∀ a b,
      (apply st (.receiveConnectionRequest receiver sender message now : NodeOp C)).db.status a b
        = if st.db.isBlocked receiver sender = false ∧ (a, b) = (receiver, sender)
          then some .pendingIncoming else st.db.status a b :=
    status_receiveConnectionRequest st.db receiver sender message now
  constructor
  · -- `INSERT OR REPLACE` takes a connected row back to `pending_incoming`
    intro h hb hactive
    have hkept := h.kept receiver sender hactive (by simp [Ends])
    rw [hstatus, if_pos ⟨hb, rfl⟩] at hkept
    cases hkept
  · intro h
    refine framed_of_kept (by simp [IsRerequest]) ?_
    intro a b hab
    rw [hstatus, if_neg, hab]
    rintro ⟨hb, hk⟩
    obtain ⟨rfl, rfl⟩ := Prod.mk.inj hk
    exact h hb hab

theorem framed_iff_careful (st : NodeState W) (op : NodeOp C) : Framed st op ↔ Careful st op := by
  -- most operations keep every connection, and nothing is asked of them
  have of_kept : ¬IsRerequest op → Careful st op → Kept st.db (apply st op).db →
      (Framed st op ↔ Careful st op) :=
    fun hop hcareful hkept => ⟨fun _ => hcareful, fun _ => framed_of_kept hop hkept⟩
  cases op with
  | connect env target msg => exact of_kept id trivial (kept_connect env target msg st)
  | accept env source => exact of_kept id trivial (kept_accept env source st)
  | reject env source => exact framed_reject_iff st env source
  | cancelRequest env target => exact framed_cancelRequest_iff st env target
  | resendRequest env target msg => exact framed_resendRequest_iff st env target msg
  | disconnect env target => exact framed_disconnect_iff st env target
  | unfollow env target =>
    -- `unfollow` is `disconnect` under another name
    have hdisconnect := framed_disconnect_iff (C := C) st env target
    exact ⟨fun h => hdisconnect.mp ⟨h.kept, h.outgoing⟩,
      fun h => ⟨(hdisconnect.mpr h).kept, (hdisconnect.mpr h).outgoing⟩⟩
  | follow env target =>
    refine of_kept id trivial ?_
    show Kept st.db (after (SocialService.follow env target) st).db
    rw [after_follow]
    exact kept_connect _ target "" st
  | block env target => exact ⟨fun _ => trivial, fun _ => framed_block st env target⟩
  | unblock env target =>
    refine of_kept id trivial ?_
    show Kept st.db (after (SocialService.unblock env target) st).db
    cases hres : resolve env target with
    | error e =>
      rw [SocialService.unblock, db_writeDb_of_error hres]
      exact Kept.of_eq rfl
    | ok lr =>
      rw [SocialService.unblock, db_writeDb hres]
      exact Kept.of_eq rfl
  | send env target body ttl entropy =>
    exact of_kept id trivial
      (Kept.of_eq (DirectMessage.connections_send C env target body ttl entropy st))
  | ingest ours payload now => exact of_kept id trivial (kept_ingest st.db payload ours now)
  | putRecord record now =>
    refine of_kept id trivial (Kept.of_eq ?_)
    cases hput : st.dht.put record now with
    | ok dht => simp only [apply, hput]
    | error e => simp only [apply, hput]
  | retrieveDhtDeadDrops ours now =>
    exact of_kept id trivial (kept_retrieveDhtDeadDrops st.db st.dht ours now)
  | receiveConnectionRequest receiver sender message now =>
    exact framed_receiveConnectionRequest_iff st receiver sender message now
  | receiveMessage envelope ours secret now =>
    exact of_kept id trivial (kept_receiveMessage st envelope ours secret now)
  | acceptRequest ours sender =>
    exact of_kept id trivial (kept_writeResult (fun _ h => Messaging.connections_acceptRequest h))
  | rejectRequest ours sender =>
    exact of_kept id trivial (kept_writeResult (fun _ h => (Messaging.tables_settleRequest h).1))

/-- **What ends a connection.**  An operation stays within its frame exactly when the rows
it deletes or replaces have a status it is meant for; in a run of such operations, a
connection lasts until an operation that is meant to end it. -/
theorem connection_kept_iff_careful :
    (∀ (st : NodeState W) (op : NodeOp C), Framed st op ↔ Careful st op) ∧
      ∀ (st : NodeState W) (ops : List (NodeOp C)) (a b : IdentityKey),
        st.db.status a b = some .active →
        Meets apply (fun st op => ¬Ends op a b ∧ Careful st op) st ops →
        (run apply st ops).db.status a b = some .active := by
  refine ⟨framed_iff_careful, fun st ops a b hab hops => ?_⟩
  have hstep : ∀ (st : NodeState W) (op : NodeOp C), st.db.status a b = some .active →
      ¬Ends op a b ∧ Careful st op → (apply st op).db.status a b = some .active := by
    intro st op hst hop
    exact ((framed_iff_careful st op).mpr hop.2).kept a b hst hop.1
  exact run_invariant hstep hab hops

/-- Alice's node once she has accepted a request of Bob. -/
def connectedNode : NodeState Wire.symbolic :=
  run (apply (C := Cipher.symbolic)) fresh
    [.receiveConnectionRequest alice bob none 5, .accept (offline alice 6) (Hex.encode bob)]

theorem db_connectedNode :
    connectedNode.db
      = ((MetadataDb.empty : MetadataDb Wire.symbolic).receiveConnectionRequest alice bob none 5).accept
          alice bob 6 := by
  show (after (SocialService.accept (offline alice 6) (Hex.encode bob)) _).db = _
  rw [db_accept (resolve_encode rfl rfl)]
  rfl

/-- Bob stays connected while Carol asks and is accepted. -/
theorem connection_kept_iff_careful_carol :
    (run (apply (C := Cipher.symbolic)) connectedNode
      [.receiveConnectionRequest alice carol none 7,
        .accept (offline alice 8) (Hex.encode carol)]).db.status alice bob = some .active := by
  refine connection_kept_iff_careful.2 connectedNode _ alice bob ?_ ?_
  · rw [db_connectedNode]
    decide
  · refine ⟨⟨id, ?_⟩, ⟨id, trivial⟩, trivial⟩
    intro _ hactive
    rw [db_connectedNode] at hactive
    revert hactive
    decide

/-- Cancelling a request that was answered long ago ends the connection. -/
theorem cancelled_connection_ends :
    connectedNode.db.status alice bob = some .active ∧
      ¬Ends (.cancelRequest (offline alice 7) (Hex.encode bob) : NodeOp Cipher.symbolic) alice bob ∧
      (apply connectedNode (.cancelRequest (offline alice 7) (Hex.encode bob) :
        NodeOp Cipher.symbolic)).db.status alice bob = none := by
  refine ⟨?_, id, ?_⟩
  · rw [db_connectedNode]
    decide
  · show (after (SocialService.cancelRequest (offline alice 7) (Hex.encode bob))
      connectedNode).db.status alice bob = none
    rw [SocialService.cancelRequest, db_writeDb (resolve_encode rfl rfl), MetadataDb.reject,
      status_deleteConnection, if_pos rfl]

end ConnectionFrame
