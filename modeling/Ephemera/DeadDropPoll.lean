/-
# Dead drops between arrival and acknowledgement (`background.rs`, `message_ingest.rs`)

The ingest and the poll of the DHT put dead drops into the database; `dead_drop_poll_loop`
collects the expired ones, and acknowledges those in our mailbox, which deletes them.  The
documentation of `acknowledge` says that it is called once a message is decrypted and stored.
The loop calls it for every row it finds and stores nothing.

A connection payload is safe all the same, since the ingest applies it when it arrives
(`Applied`).  `content_kept` says what is left of that promise: nothing is lost in a run whose
polls find only connection payloads and messages that came in plaintext too.
-/
import Ephemera.MailboxDelivery

/-- What happens to the dead drops of a node: a payload arrives over gossip, and the parts of
one turn of `dead_drop_poll_loop`, each with its reading of the clock. -/
inductive DropOp (W : Wire) where
  | ingest (payload : W.Bytes) (ours : Option IdentityKey) (now : UInt64)
  | gc (now : UInt64)
  | retrieve (dht : DhtStorage W) (now : UInt64)
  | drain (now : UInt64)

namespace DeadDropPoll

open GuardedRun Messaging NodeIngest DeadDropId MailboxDelivery

variable {W : Wire}

/-! ## The loop -/

/-- The clock of a step. -/
def clock : DropOp W → UInt64
  | .ingest _ _ now => now
  | .gc now => now
  | .retrieve _ now => now
  | .drain now => now

/-- The last part of a turn of `dead_drop_poll_loop`: an event for each pending message, which
is then acknowledged; an error is only logged. -/
def drain (db : MetadataDb W) (me : IdentityKey) (now : UInt64) :
    MetadataDb W × List (NodeEvent W) :=
  ((checkMailbox db me now).foldl (fun db pm => ((acknowledge db pm.id).toOption).getD db) db,
    (checkMailbox db me now).map (fun pm => .messageReceived me pm.id))

/-- The database after a step of the node of `me`. -/
def apply (me : IdentityKey) (db : MetadataDb W) : DropOp W → MetadataDb W
  | .ingest payload ours now => (ingestPayload db payload ours now).1
  | .gc now => gc db now
  | .retrieve dht now => (retrieveDhtDeadDrops db dht me now).1
  | .drain now => (drain db me now).1

/-! ## What is recorded -/

/-- A row of `dead_drops` as an envelope. -/
def envelopeOf (id : W.Digest) (row : DeadDropRow W) : W.Envelope :=
  ⟨row.mailboxKey, id, row.sealedData, row.depositedAt, row.expiresAt⟩

/-- The row has not expired at `now`, as SQLite compares times. -/
def Live (row : DeadDropRow W) (now : UInt64) : Prop := now.toInt64 < row.expiresAt.toInt64

/-- The sealed data is recorded in `messages`: as the encrypted body of a message, or as a
message that shows all of its body. -/
def InMessages (C : Cipher W) (secret : C.X25519Secret) (db : MetadataDb W) (data : W.Bytes) :
    Prop :=
  ∃ id row, db.messages.get? id = some row ∧
    (row.encryptedBody = some data ∨
      ∃ body, C.decryptMessage data secret = .ok (W.ofStr body) ∧ row.bodyPreview = some body)

/-- The sealed data of the envelope is a connection payload that is recorded in
`connections`. -/
def InConnections (db : MetadataDb W) (me : IdentityKey) (envelope : W.Envelope) : Prop :=
  (∃ sender, SealsRequest envelope sender ∧ db.connections.get? (me, sender) ≠ none) ∨
    ∃ sender, SealsAcceptance envelope sender ∧
      ∀ row, db.connections.get? (me, sender) = some row → row.status ≠ .pendingOutgoing

/-- The row is in `dead_drops`, or its content is recorded elsewhere. -/
def Kept (C : Cipher W) (secret : C.X25519Secret) (me : IdentityKey) (db : MetadataDb W)
    (id : W.Digest) (row : DeadDropRow W) : Prop :=
  db.deadDrops.get? id = some row ∨ InMessages C secret db row.sealedData ∨
    InConnections db me (envelopeOf id row)

/-- The envelope seals a connection payload whose key can be read. -/
def SealsConnection (envelope : W.Envelope) : Prop :=
  ∃ sender, SealsRequest envelope sender ∨ SealsAcceptance envelope sender

/-- The condition on a step: the ingest knows our identity when it stores a connection payload
for us, and a poll acknowledges only connection payloads and messages that are in `messages`
already. -/
def Harmless (C : Cipher W) (secret : C.X25519Secret) (me : IdentityKey) (db : MetadataDb W) :
    DropOp W → Prop
  | .ingest payload ours now => ours = some me ∨ ∀ envelope, Accepted payload now envelope →
      envelope.mailboxKey = mailboxKey me → ¬SealsConnection envelope
  | .gc _ => True
  | .retrieve _ _ => True
  | .drain now => ∀ id row, db.deadDrops.get? id = some row → row.mailboxKey = mailboxKey me →
      Live row now → SealsConnection (envelopeOf id row) ∨ InMessages C secret db row.sealedData

/-- Each connection payload in our mailbox has been applied. -/
def Applied (me : IdentityKey) (db : MetadataDb W) : Prop :=
  ∀ id row, db.deadDrops.get? id = some row → row.mailboxKey = mailboxKey me →
    SealsConnection (envelopeOf id row) → InConnections db me (envelopeOf id row)

/-! ## Records are never taken back -/

/-- `db'` records all that `db` does. -/
structure Grows (db db' : MetadataDb W) : Prop where
  connected : ∀ k, db.connections.get? k ≠ none → db'.connections.get? k ≠ none
  outgoing : ∀ k row, db'.connections.get? k = some row → row.status = .pendingOutgoing →
    db.connections.get? k = some row
  messages : ∀ id row, db.messages.get? id = some row → db'.messages.get? id = some row

theorem Grows.refl (db : MetadataDb W) : Grows db db :=
  ⟨fun _ h => h, fun _ _ h _ => h, fun _ _ h => h⟩

theorem Grows.of_drops {db db' : MetadataDb W} (h : SameButDrops db db') : Grows db db' := by
  rw [h]
  exact ⟨fun _ h => h, fun _ _ h _ => h, fun _ _ h => h⟩

theorem Grows.of_effect {db db' : MetadataDb W} {envelope : W.Envelope} {loc : IdentityKey}
    (h : EnvelopeEffect db db' envelope loc) (hmessages : db'.messages = db.messages) :
    Grows db db' := by
  refine ⟨fun k => (connection_of_effect h k).1, fun k => (connection_of_effect h k).2, ?_⟩
  rw [hmessages]
  exact fun _ _ h => h

theorem Grows.inMessages {C : Cipher W} {secret : C.X25519Secret} {db db' : MetadataDb W}
    {data : W.Bytes} (hg : Grows db db') (h : InMessages C secret db data) :
    InMessages C secret db' data := by
  obtain ⟨id, row, hrow, hdata⟩ := h
  exact ⟨id, row, hg.messages id row hrow, hdata⟩

theorem Grows.inConnections {db db' : MetadataDb W} {me : IdentityKey} {envelope : W.Envelope}
    (hg : Grows db db') (h : InConnections db me envelope) : InConnections db' me envelope := by
  rcases h with ⟨sender, hseal, hconn⟩ | ⟨sender, hseal, hconn⟩
  · exact Or.inl ⟨sender, hseal, hg.connected _ hconn⟩
  · refine Or.inr ⟨sender, hseal, fun row hrow hout => ?_⟩
    exact hconn row (hg.outgoing _ row hrow hout) hout

/-- A payload takes no record back. -/
theorem grows_ingestPayload (db : MetadataDb W) (payload : W.Bytes) (ours : Option IdentityKey)
    (now : UInt64) : Grows db (ingestPayload db payload ours now).1 := by
  cases ours with
  | none => exact Grows.of_drops (sameButDrops_ingestPayload_none db payload now)
  | some loc =>
    rcases ingestPayload_cases db payload loc now with
      ⟨sender, senderHex, body, timestamp, -, hdb⟩ | ⟨envelope, db₁, -, hdrops, hdb⟩ |
      ⟨-, -, hdrops⟩
    · rw [hdb]
      constructor
      · rw [connections_storePlaintext]
        exact fun _ h => h
      · rw [connections_storePlaintext]
        exact fun _ _ h _ => h
      · intro id row hrow
        rw [messages_storePlaintext]
        exact SqlTable.get?_insertOrIgnore_eq_some.mpr (Or.inl hrow)
    · rw [hdb]
      refine Grows.of_effect ((effect_ingestForUs db₁ envelope loc now).of_eq (by rw [hdrops])) ?_
      rw [(threads_ingestForUs db₁ envelope loc now).1, hdrops]
    · exact Grows.of_drops hdrops

/-- A poll of the DHT takes no record back. -/
theorem grows_retrieve (db : MetadataDb W) (dht : DhtStorage W) (me : IdentityKey) (now : UInt64) :
    Grows db (retrieveDhtDeadDrops db dht me now).1 := by
  unfold retrieveDhtDeadDrops
  split
  · exact Grows.refl db
  · split
    · exact Grows.refl db
    · rename_i envelope _
      exact Grows.of_effect (effect_ingestDhtEnvelope db envelope me now)
        (threads_ingestDhtEnvelope db envelope me now).1

/-- A drain deletes dead drops and touches nothing else. -/
theorem sameButDrops_drain (db : MetadataDb W) (me : IdentityKey) (now : UInt64) :
    SameButDrops db (drain db me now).1 := by
  unfold drain
  simp only
  generalize checkMailbox db me now = pending
  induction pending generalizing db with
  | nil => rfl
  | cons pm pending ih =>
    rw [List.foldl_cons]
    have hstep : SameButDrops db ((acknowledge db pm.id).toOption.getD db) := by
      unfold acknowledge
      split <;> rfl
    rw [SameButDrops, ih]
    rw [hstep]

theorem grows_apply (me : IdentityKey) (db : MetadataDb W) (op : DropOp W) :
    Grows db (apply me db op) := by
  cases op with
  | ingest payload ours now => exact grows_ingestPayload db payload ours now
  | gc now => exact Grows.of_drops rfl
  | retrieve dht now => exact grows_retrieve db dht me now
  | drain now => exact Grows.of_drops (sameButDrops_drain db me now)

/-! ## Rows of `dead_drops` -/

/-- A row after a payload was there before, or is that of the accepted envelope. -/
theorem row_of_ingest {db : MetadataDb W} {payload : W.Bytes} {ours : Option IdentityKey}
    {now : UInt64} {id : W.Digest} {row : DeadDropRow W}
    (h : (ingestPayload db payload ours now).1.deadDrops.get? id = some row) :
    db.deadDrops.get? id = some row ∨ ∃ envelope, Accepted payload now envelope ∧
      row.mailboxKey = envelope.mailboxKey ∧ row.sealedData = envelope.sealedData := by
  by_cases hacc : ∃ envelope, Accepted payload now envelope
  · obtain ⟨envelope, hacc⟩ := hacc
    rw [deadDrops_ingestPayload_of_accepted hacc, deposited] at h
    rcases SqlTable.get?_insertOrIgnore_eq_some.mp h with hold | ⟨-, -, rfl⟩
    · exact Or.inl hold
    · exact Or.inr ⟨envelope, hacc, rfl, rfl⟩
  · rw [deadDrops_ingestPayload_of_not (not_exists.mp hacc)] at h
    exact Or.inl h

/-- A payload leaves the rows that are there. -/
theorem row_ingest {db : MetadataDb W} {id : W.Digest} {row : DeadDropRow W}
    (h : db.deadDrops.get? id = some row) (payload : W.Bytes) (ours : Option IdentityKey)
    (now : UInt64) : (ingestPayload db payload ours now).1.deadDrops.get? id = some row := by
  by_cases hacc : ∃ envelope, Accepted payload now envelope
  · obtain ⟨envelope, hacc⟩ := hacc
    rw [deadDrops_ingestPayload_of_accepted hacc, deposited]
    exact SqlTable.get?_insertOrIgnore_eq_some.mpr (Or.inl h)
  · rw [deadDrops_ingestPayload_of_not (not_exists.mp hacc)]
    exact h

/-- An envelope from the DHT is stored as a dead drop only if it seals no connection payload. -/
theorem deadDrops_ingestDhtEnvelope (db : MetadataDb W) (envelope : W.Envelope)
    (me : IdentityKey) (now : UInt64) :
    (ingestDhtEnvelope db envelope me now).1.deadDrops = db.deadDrops ∨
      ¬SealsConnection envelope ∧ ∃ row, row.sealedData = envelope.sealedData ∧
        (ingestDhtEnvelope db envelope me now).1.deadDrops
          = db.deadDrops.insertOrIgnore envelope.messageId row := by
  by_cases hseal : SealsConnection envelope
  · left
    obtain ⟨sender, ⟨payload, hjson, htype, hkey⟩ | ⟨payload, hjson, htype, hkey⟩⟩ := hseal
    · unfold ingestDhtEnvelope
      simp only [hjson, htype, hkey, Option.isSome_some, if_true]
      exact deadDrops_ingestRequest db me payload 0
    · unfold ingestDhtEnvelope
      simp only [hjson, htype, hkey, Option.isSome_some, if_true, Option.some.injEq]
      exact deadDrops_ingestAccepted db me payload 0
  · rcases ingestDhtEnvelope_cases db envelope me now with ⟨payload, -, -, hdb⟩ |
      ⟨payload, -, -, hdb⟩ | hdb
    · rw [hdb]
      exact Or.inl (deadDrops_ingestRequest db me payload 0)
    · rw [hdb]
      exact Or.inl (deadDrops_ingestAccepted db me payload 0)
    · rw [hdb]
      unfold depositDhtEnvelope
      split
      · rename_i db' hdep
        obtain ⟨-, -, rfl⟩ := depositRaw_eq_ok.mp hdep
        exact Or.inr ⟨hseal, _, rfl, rfl⟩
      · exact Or.inl rfl

theorem row_of_retrieve {db : MetadataDb W} {dht : DhtStorage W} {me : IdentityKey}
    {now : UInt64} {id : W.Digest} {row : DeadDropRow W}
    (h : (retrieveDhtDeadDrops db dht me now).1.deadDrops.get? id = some row) :
    db.deadDrops.get? id = some row ∨ ∃ envelope, ¬SealsConnection envelope ∧
      row.sealedData = envelope.sealedData := by
  unfold retrieveDhtDeadDrops at h
  split at h
  · exact Or.inl h
  · split at h
    · exact Or.inl h
    · rename_i envelope _
      rcases deadDrops_ingestDhtEnvelope db envelope me now with heq | ⟨hseal, row', hdata, heq⟩
      · rw [heq] at h
        exact Or.inl h
      · rw [heq] at h
        rcases SqlTable.get?_insertOrIgnore_eq_some.mp h with hold | ⟨-, -, rfl⟩
        · exact Or.inl hold
        · exact Or.inr ⟨envelope, hseal, hdata⟩

theorem row_retrieve {db : MetadataDb W} {id : W.Digest} {row : DeadDropRow W}
    (h : db.deadDrops.get? id = some row) (dht : DhtStorage W) (me : IdentityKey) (now : UInt64) :
    (retrieveDhtDeadDrops db dht me now).1.deadDrops.get? id = some row := by
  unfold retrieveDhtDeadDrops
  split
  · exact h
  · split
    · exact h
    · rename_i envelope _
      rcases deadDrops_ingestDhtEnvelope db envelope me now with heq | ⟨-, row', -, heq⟩
      · rw [heq]
        exact h
      · rw [heq]
        exact SqlTable.get?_insertOrIgnore_eq_some.mpr (Or.inl h)

/-- The collection takes away nothing that is live. -/
theorem row_gc {db : MetadataDb W} {id : W.Digest} {row : DeadDropRow W} {now : UInt64}
    (h : db.deadDrops.get? id = some row) (hlive : Live row now) :
    (gc db now).deadDrops.get? id = some row := by
  unfold gc
  rw [SqlTable.get?_deleteWhere, h, Option.filter_eq_some_iff]
  refine ⟨rfl, ?_⟩
  have hnot : ¬row.expiresAt.toInt64 ≤ now.toInt64 := Int64.not_le.mpr hlive
  simp [hnot]

theorem row_of_gc {db : MetadataDb W} {id : W.Digest} {row : DeadDropRow W} {now : UInt64}
    (h : (gc db now).deadDrops.get? id = some row) : db.deadDrops.get? id = some row := by
  unfold gc at h
  rw [SqlTable.get?_deleteWhere, Option.filter_eq_some_iff] at h
  exact h.1

theorem row_of_drain {db : MetadataDb W} {me : IdentityKey} {now : UInt64} {id : W.Digest}
    {row : DeadDropRow W} (h : (drain db me now).1.deadDrops.get? id = some row) :
    db.deadDrops.get? id = some row := by
  unfold drain at h
  simp only at h
  generalize checkMailbox db me now = pending at h
  induction pending generalizing db with
  | nil => exact h
  | cons pm pending ih =>
    rw [List.foldl_cons] at h
    have hstep := ih h
    unfold acknowledge at hstep
    split at hstep
    · exact hstep
    · change (db.deadDrops.deleteWhere _).get? id = some row at hstep
      rw [SqlTable.get?_deleteWhere, Option.filter_eq_some_iff] at hstep
      exact hstep.1

/-! ## Connection payloads are applied -/

theorem SealsConnection.of_eq {e e' : W.Envelope} (h : SealsConnection e)
    (hdata : e.sealedData = e'.sealedData) : SealsConnection e' := by
  unfold SealsConnection SealsRequest SealsAcceptance at *
  rw [hdata] at h
  exact h

theorem InConnections.of_eq {db : MetadataDb W} {me : IdentityKey} {e e' : W.Envelope}
    (h : InConnections db me e) (hdata : e.sealedData = e'.sealedData) :
    InConnections db me e' := by
  unfold InConnections SealsRequest SealsAcceptance at *
  rw [hdata] at h
  exact h

/-- A connection payload in our mailbox is applied by the ingest. -/
theorem inConnections_ingestForUs (db : MetadataDb W) {envelope : W.Envelope}
    (h : SealsConnection envelope) (me : IdentityKey) (now : UInt64) :
    InConnections (ingestForUs db envelope me now).1 me envelope := by
  obtain ⟨sender, hseal | hseal⟩ := h
  · left
    refine ⟨sender, hseal, ?_⟩
    obtain ⟨payload, hjson, htype, hkey⟩ := hseal
    unfold ingestForUs
    simp only [hjson, htype, if_true]
    unfold ingestRequest
    rw [hkey]
    simp only [SqlTable.get?_insertOrIgnore, if_true]
    simp
  · right
    refine ⟨sender, hseal, ?_⟩
    obtain ⟨payload, hjson, htype, hkey⟩ := hseal
    unfold ingestForUs
    have hother : ¬some "connection_accepted" = some "connection_request" := by decide
    simp only [hjson, htype, if_neg hother, if_true]
    unfold ingestAccepted
    rw [hkey]
    intro row hrow hout
    simp only at hrow
    rw [MetadataDb.connections_connectWhere] at hrow
    obtain ⟨old, -, hupd⟩ := Option.map_eq_some_iff.mp hrow
    split at hupd
    · rw [← hupd] at hout
      cases hout
    · rename_i hnot
      rw [hupd] at hnot
      exact hnot ⟨rfl, by simpa using hout⟩

/-- A step that brings no unapplied connection payload keeps them all applied. -/
theorem Applied.of_rows {me : IdentityKey} {db db' : MetadataDb W} (h : Applied me db)
    (hg : Grows db db')
    (hrows : ∀ id row, db'.deadDrops.get? id = some row → row.mailboxKey = mailboxKey me →
      SealsConnection (envelopeOf id row) →
      db.deadDrops.get? id = some row ∨ InConnections db' me (envelopeOf id row)) :
    Applied me db' := by
  intro id row hrow hbox hseal
  rcases hrows id row hrow hbox hseal with hold | hin
  · exact hg.inConnections (h id row hold hbox hseal)
  · exact hin

variable {C : Cipher W} {secret : C.X25519Secret} {me : IdentityKey}

theorem applied_apply (db : MetadataDb W) (op : DropOp W) (h : Applied me db)
    (hok : Harmless C secret me db op) : Applied me (apply me db op) := by
  refine h.of_rows (grows_apply me db op) ?_
  intro id row hrow hbox hseal
  cases op with
  | ingest payload ours now =>
    rcases row_of_ingest hrow with hold | ⟨envelope, hacc, hbox', hdata⟩
    · exact Or.inl hold
    · right
      have hours : ours = some me := by
        refine hok.resolve_right (fun hnot => ?_)
        exact hnot envelope hacc (by rw [← hbox', hbox]) (hseal.of_eq hdata)
      subst hours
      have hfor : (ingestPayload db payload (some me) now).1
          = (ingestForUs (deposited db envelope now) envelope me now).1 := by
        unfold ingestPayload
        rw [if_neg hacc.small, hacc.notMessage]
        simp only [hacc.parsed]
        rw [ingestEnvelope_of_depositable hacc.depositable]
        simp only [← hbox', hbox, if_true]
      show InConnections (ingestPayload db payload (some me) now).1 me _
      rw [hfor]
      exact (inConnections_ingestForUs _ (hseal.of_eq hdata) me now).of_eq hdata.symm
  | gc now => exact Or.inl (row_of_gc hrow)
  | retrieve dht now =>
    rcases row_of_retrieve hrow with hold | ⟨envelope, hnot, hdata⟩
    · exact Or.inl hold
    · exact absurd (hseal.of_eq hdata) hnot
  | drain now => exact Or.inl (row_of_drain hrow)

/-! ## Nothing is lost -/

/-- A harmless step keeps the content of each row in our mailbox that is live. -/
theorem kept_apply (db : MetadataDb W) (op : DropOp W) (happlied : Applied me db)
    (hok : Harmless C secret me db op) {id : W.Digest} {row : DeadDropRow W}
    (hbox : row.mailboxKey = mailboxKey me) (hlive : Live row (clock op))
    (h : Kept C secret me db id row) : Kept C secret me (apply me db op) id row := by
  have hg := grows_apply me db op
  rcases h with hrow | hin | hin
  · cases op with
    | ingest payload ours now => exact Or.inl (row_ingest hrow payload ours now)
    | gc now => exact Or.inl (row_gc hrow hlive)
    | retrieve dht now => exact Or.inl (row_retrieve hrow dht me now)
    | drain now =>
      -- the drain deletes the row, which is harmless
      right
      rcases hok id row hrow hbox hlive with hseal | hmessage
      · exact Or.inr (hg.inConnections (happlied id row hrow hbox hseal))
      · exact Or.inl (hg.inMessages hmessage)
  · exact Or.inr (Or.inl (hg.inMessages hin))
  · exact Or.inr (Or.inr (hg.inConnections hin))

/-- **No dead drop is lost in a harmless run.**  Take any run, from a database whose connection
payloads are applied, in which each step is `Harmless`.  A row of `dead_drops` for our mailbox
that is there at some time is still there after any further steps before it expires, or its
content is in `messages` or `connections`. -/
theorem content_kept (C : Cipher W) (secret : C.X25519Secret) (me : IdentityKey)
    (start : MetadataDb W) (hstart : Applied me start) (before after : List (DropOp W))
    (hok : Meets (apply me) (Harmless C secret me) start (before ++ after))
    (id : W.Digest) (row : DeadDropRow W)
    (hrow : (run (apply me) start before).deadDrops.get? id = some row)
    (hbox : row.mailboxKey = mailboxKey me) (hlive : ∀ op ∈ after, Live row (clock op)) :
    Kept C secret me (run (apply me) start (before ++ after)) id row := by
  obtain ⟨hbefore, hafter⟩ := meets_append.mp hok
  have happlied : Applied me (run (apply me) start before) :=
    run_invariant (fun db op h hop => applied_apply db op h hop) hstart hbefore
  have hkept : Kept C secret me (run (apply me) start before) id row := Or.inl hrow
  rw [run_append]
  clear hrow hok hbefore
  generalize run (apply me) start before = db at *
  induction after generalizing db with
  | nil => exact hkept
  | cons op after ih =>
    rw [run_cons]
    refine ih (fun op' hop' => hlive op' (List.mem_cons_of_mem op hop')) _ hafter.2 ?_ ?_
    · exact applied_apply db op happlied hafter.1
    · exact kept_apply db op happlied hafter.1 hbox (hlive op List.mem_cons_self) hkept

/-! ## A connection request and a message -/

/-- What is stored for an envelope. -/
def rowOf (envelope : W.Envelope) : DeadDropRow W :=
  ⟨envelope.mailboxKey, envelope.sealedData, envelope.depositedAt, envelope.expiresAt⟩

/-- A publication arrives at Ben's node over gossip. -/
def arrival (pub : Publication Wire.symbolic) : List (DropOp Wire.symbolic) :=
  [.ingest (Wire.symbolic.envelopeToVec pub.envelope) (some (List.replicate 32 2)) 20]

/-- Ann's request is applied before the poll deletes it. -/
theorem content_kept_request :
    Kept Cipher.symbolic (List.replicate 32 2) (List.replicate 32 2)
      (run (apply (List.replicate 32 2)) MetadataDb.empty
        (arrival Publication.requestOfAnn ++ [.drain 80]))
      Publication.requestOfAnn.envelope.messageId (rowOf Publication.requestOfAnn.envelope) := by
  refine content_kept _ _ _ _ (fun _ _ h => (by cases h)) _ _ ?_ _ _ (by with_unfolding_all rfl) rfl
    ?_
  · refine ⟨Or.inl rfl, ?_, trivial⟩
    intro id row hrow hbox hlive
    have hrows : (run (apply (List.replicate 32 2)) MetadataDb.empty
        (arrival Publication.requestOfAnn)).deadDrops.rows
        = [(Publication.requestOfAnn.envelope.messageId,
            rowOf Publication.requestOfAnn.envelope)] := by
      with_unfolding_all rfl
    have hmem := SqlTable.mem_rows_iff.mpr hrow
    change (id, row) ∈ (run (apply (List.replicate 32 2)) MetadataDb.empty
      (arrival Publication.requestOfAnn)).deadDrops.rows at hmem
    rw [hrows, List.mem_singleton] at hmem
    obtain ⟨rfl, rfl⟩ := Prod.mk.inj hmem
    exact Or.inl ⟨List.replicate 32 1, Or.inl ⟨_, rfl, rfl, by decide +kernel⟩⟩
  · intro op hop
    obtain rfl := List.mem_singleton.mp hop
    show Live _ 80
    unfold Live
    decide +kernel

/-- Ann's message is acknowledged without being stored. -/
theorem message_dropped :
    (run (apply (List.replicate 32 2)) MetadataDb.empty
      (arrival Publication.messageOfAnn)).deadDrops.get?
        Publication.messageOfAnn.envelope.messageId
          = some (rowOf Publication.messageOfAnn.envelope) ∧
      Live (rowOf Publication.messageOfAnn.envelope) 80 ∧
      ¬Kept Cipher.symbolic (List.replicate 32 2) (List.replicate 32 2)
        (run (apply (List.replicate 32 2)) MetadataDb.empty
          (arrival Publication.messageOfAnn ++ [.drain 80]))
        Publication.messageOfAnn.envelope.messageId (rowOf Publication.messageOfAnn.envelope) := by
  refine ⟨by with_unfolding_all rfl, ?_, ?_⟩
  · unfold Live
    decide +kernel
  · have hdrops : (run (apply (List.replicate 32 2)) MetadataDb.empty
        (arrival Publication.messageOfAnn ++ [.drain 80])).deadDrops.rows = [] := by
      with_unfolding_all rfl
    have hmessages : (run (apply (List.replicate 32 2)) MetadataDb.empty
        (arrival Publication.messageOfAnn ++ [.drain 80])).messages.rows = [] := by
      with_unfolding_all rfl
    rintro (hrow | ⟨id, row, hrow, -⟩ | ⟨sender, ⟨payload, hjson, -⟩, -⟩ |
      ⟨sender, ⟨payload, hjson, -⟩, -⟩)
    · have hmem := SqlTable.mem_rows_iff.mpr hrow
      rw [hdrops] at hmem
      cases hmem
    · have hmem := SqlTable.mem_rows_iff.mpr hrow
      rw [hmessages] at hmem
      cases hmem
    · cases hjson
    · cases hjson

end DeadDropPoll
