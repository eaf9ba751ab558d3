/-
# Offline delivery through the mailbox of the DHT

All that is published for one recipient goes under one key of the DHT storage, which holds one
record a key.  A poll reads the record and lets go of the storage, processes it and lets go
of the database, and then removes whatever is under the key; publications come in between.

The state keeps the polls cut at these points, and the history of what was published.  The
run rule carries one invariant (`Tracked`): each publication has been processed, has expired,
or is what the mailbox holds.  It survives a publication only if the mailbox is empty and no
poll is under way, and a deposit only if the id of the message is not taken and the message
is not in its last second; `delivered_of_meets` is the resulting statement about runs.
-/
import Ephemera.Publication
import Ephemera.GuardedRun

/-- Where `retrieve_dht_dead_drops` stands: between two polls, after it read an envelope and
released the DHT storage, or after it processed one and released the database. -/
inductive Poll (W : Wire) where
  | idle
  | read (envelope : W.Envelope)
  | done (processed : Bool)

/-- A mailbox: the DHT storage it lives in, the database of its owner, the clock, the poll of
the owner, and the publications that were stored so far. -/
structure MailboxState (W : Wire) where
  dht : DhtStorage W
  db : MetadataDb W
  clock : UInt64
  poll : Poll W
  published : List (Publication W)

/-- What can happen to a mailbox: a sealed publication by somebody, the next part of a poll,
the sweep of the DHT storage, and the passing of time. -/
inductive MailboxOp {W : Wire} (C : Cipher W) where
  | publish (pub : Publication W) (hsealed : pub.Sealed C)
  | pollNext
  | sweep
  | tick (time : UInt64)

namespace MailboxDelivery

open GuardedRun Messaging NodeIngest DeadDropId Publication

variable {W : Wire} {C : Cipher W}

/-! ## The steps -/

/-- A publication is put under the key of its recipient. -/
def publish (s : MailboxState W) (pub : Publication W) : MailboxState W :=
  match s.dht.put pub.record s.clock with
  | .ok dht => { s with dht := dht, published := s.published ++ [pub] }
  | .error _ => s

/-- The next part of `retrieve_dht_dead_drops`. -/
def pollNext (me : IdentityKey) (s : MailboxState W) : MailboxState W :=
  match s.poll with
  | .idle =>
    match s.dht.get (mailboxKey me) s.clock with
    | none => s
    | some record =>
      match W.envelopeFromSlice record.value with
      | none => s
      | some envelope => { s with poll := .read envelope }
  | .read envelope =>
    let (db, processed) := ingestDhtEnvelope s.db envelope me s.clock
    { s with db := db, poll := .done processed }
  | .done processed =>
    { s with dht := if processed then s.dht.remove (mailboxKey me) else s.dht, poll := .idle }

/-- One step of the mailbox of `me`; time does not go back. -/
def step (me : IdentityKey) (s : MailboxState W) : MailboxOp C → MailboxState W
  | .publish pub _ => publish s pub
  | .pollNext => pollNext me s
  | .sweep => { s with dht := s.dht.sweepExpired s.clock }
  | .tick time => { s with clock := max s.clock time }

/-! ## Delivery -/

/-- The event of a publication has reached the database of its recipient: a request or an
acceptance is applied, or the sealed data is a dead drop. -/
def Handled (db : MetadataDb W) : Publication W → Prop
  | .request loc remote _ _ => db.connections.get? (remote, loc) ≠ none
  | .acceptance loc remote _ => ∀ row, db.connections.get? (remote, loc) = some row →
      row.status ≠ .pendingOutgoing
  | .message loc remote body encryptedBody ttl now =>
    Stored db (Publication.message loc remote body encryptedBody ttl now).envelope

/-- The record has expired by the rule of the DHT storage, or it is processed. -/
def Settled (s : MailboxState W) (pub : Publication W) : Prop :=
  pub.envelope.expiresAt < s.clock ∨ Handled s.db pub

/-- Between two polls that find the mailbox empty, all that was published for `me` is
settled. -/
def Delivered (me : IdentityKey) (s : MailboxState W) : Prop :=
  s.poll = .idle → s.dht.get (mailboxKey me) s.clock = none →
    ∀ pub ∈ s.published, pub.recipient = me → Settled s pub

/-- The condition on a step.  Something is published for `me` only while no poll is under way
and the mailbox is empty; and a message is processed only if its id is free, or already
stands for it, and not in the second in which it expires. -/
def Undisturbed (me : IdentityKey) (s : MailboxState W) : MailboxOp C → Prop
  | .publish pub _ => ∀ dht, s.dht.put pub.record s.clock = .ok dht → pub.recipient = me →
      s.poll = .idle ∧ s.dht.get (mailboxKey me) s.clock = none
  | .pollNext => ∀ envelope, s.poll = .read envelope →
      envelope.expiresAt ≠ s.clock ∧
        (s.db.deadDrops.get? envelope.messageId = none ∨ Stored s.db envelope)
  | .sweep => True
  | .tick _ => True

/-! ## What a poll does to the database -/

/-- A deposit from the DHT keeps the dead drops that are there. -/
theorem stored_depositDhtEnvelope {db : MetadataDb W} {e : W.Envelope} (h : Stored db e)
    (envelope : W.Envelope) (me : IdentityKey) (now : UInt64) :
    Stored (depositDhtEnvelope db envelope me now).1 e := by
  unfold depositDhtEnvelope
  split
  · rename_i db' hdep
    obtain ⟨-, -, rfl⟩ := depositRaw_eq_ok.mp hdep
    obtain ⟨row, hrow, hbox, hdata⟩ := h
    exact ⟨row, SqlTable.get?_insertOrIgnore_eq_some.mpr (Or.inl hrow), hbox, hdata⟩
  · exact h

theorem stored_ingestDhtEnvelope {db : MetadataDb W} {e : W.Envelope} (h : Stored db e)
    (envelope : W.Envelope) (me : IdentityKey) (now : UInt64) :
    Stored (ingestDhtEnvelope db envelope me now).1 e := by
  rcases ingestDhtEnvelope_cases db envelope me now with ⟨payload, -, -, hdb⟩ |
    ⟨payload, -, -, hdb⟩ | hdb
  · rw [hdb]
    exact (stored_congr (deadDrops_ingestRequest db me payload 0) e).mpr h
  · rw [hdb]
    exact (stored_congr (deadDrops_ingestAccepted db me payload 0) e).mpr h
  · rw [hdb]
    exact stored_depositDhtEnvelope h envelope me now

/-- An envelope does not take a connection away, and leaves no request pending that was not. -/
theorem connection_of_effect {db db' : MetadataDb W} {envelope : W.Envelope} {me : IdentityKey}
    (h : EnvelopeEffect db db' envelope me) (k : IdentityKey × IdentityKey) :
    (db.connections.get? k ≠ none → db'.connections.get? k ≠ none) ∧
      ∀ row', db'.connections.get? k = some row' → row'.status = .pendingOutgoing →
        db.connections.get? k = some row' := by
  rcases h with h | ⟨sender, row, -, hrow, h⟩ | ⟨sender, t, -, h⟩
  · rw [h]
    exact ⟨id, fun _ h _ => h⟩
  · rw [h]
    constructor
    · intro hold
      obtain ⟨old, hold⟩ := Option.ne_none_iff_exists'.mp hold
      rw [SqlTable.get?_insertOrIgnore_eq_some.mpr (Or.inl hold)]
      simp
    · intro row' hrow' hout
      rcases SqlTable.get?_insertOrIgnore_eq_some.mp hrow' with hold | ⟨-, -, rfl⟩
      · exact hold
      · rw [hrow] at hout
        cases hout
  · rw [h, MetadataDb.connections_connectWhere]
    constructor
    · intro hold
      simpa using hold
    · intro row' hrow' hout
      obtain ⟨old, hold, hupd⟩ := Option.map_eq_some_iff.mp hrow'
      split at hupd
      · rw [← hupd] at hout
        cases hout
      · rwa [← hupd]

/-- What has reached the database stays there while other envelopes are processed. -/
theorem Handled.ingestDhtEnvelope {db : MetadataDb W} {pub : Publication W} (h : Handled db pub)
    (envelope : W.Envelope) (me : IdentityKey) (now : UInt64) :
    Handled (ingestDhtEnvelope db envelope me now).1 pub := by
  have heffect := effect_ingestDhtEnvelope db envelope me now
  cases pub with
  | request loc remote note t => exact (connection_of_effect heffect (remote, loc)).1 h
  | acceptance loc remote t =>
    intro row' hrow' hout
    exact h row' ((connection_of_effect heffect (remote, loc)).2 row' hrow' hout) hout
  | message loc remote body encryptedBody ttl t =>
    exact stored_ingestDhtEnvelope h envelope me now

/-- A message that is processed is stored, if its id is free or stands for it, unless it has
expired. -/
theorem stored_of_processed {db : MetadataDb W} {pub : Publication W} {now : UInt64}
    (hfree : db.deadDrops.get? pub.envelope.messageId = none ∨ Stored db pub.envelope)
    (hdone : (depositDhtEnvelope db pub.envelope pub.recipient now).2 = true) :
    pub.envelope.expiresAt ≤ now ∨
      Stored (depositDhtEnvelope db pub.envelope pub.recipient now).1 pub.envelope := by
  rcases hfree with hfree | hstored
  · unfold depositDhtEnvelope at hdone ⊢
    split at hdone
    · rename_i db' hdep
      obtain ⟨-, -, rfl⟩ := depositRaw_eq_ok.mp hdep
      refine Or.inr
        ⟨_, SqlTable.get?_insertOrIgnore_eq_some.mpr (Or.inr ⟨hfree, rfl, rfl⟩), ?_, rfl⟩
      exact (mailboxKey_envelope pub).symm
    · rename_i e hdep
      left
      by_contra hlive
      unfold depositRaw at hdep
      rw [if_neg hlive] at hdep
      split at hdep
      · obtain rfl := Except.error.inj hdep
        cases hdone
      · cases hdep
  · exact Or.inr (stored_depositDhtEnvelope hstored pub.envelope pub.recipient now)

/-! ## The invariant -/

/-- The mailbox of `me` holds the record of the publication. -/
def Holds (me : IdentityKey) (s : MailboxState W) (pub : Publication W) : Prop :=
  ∃ stored, s.dht.records.get? (mailboxKey me) = some stored ∧ stored.record = pub.record ∧
    stored.expiresAt = pub.envelope.expiresAt

/-- Each publication for `me` is settled or held; a poll under way has read what is held, and
has settled it once it is to be removed. -/
structure Tracked (C : Cipher W) (me : IdentityKey) (s : MailboxState W) : Prop where
  settled : ∀ pub ∈ s.published, pub.recipient = me → Settled s pub ∨ Holds me s pub
  isSealed : ∀ pub ∈ s.published, pub.Sealed C
  reading : ∀ envelope, s.poll = .read envelope → ∀ pub ∈ s.published, pub.recipient = me →
    Holds me s pub → W.envelopeFromSlice pub.record.value = some envelope
  removing : s.poll = .done true → ∀ pub ∈ s.published, pub.recipient = me → Holds me s pub →
    Settled s pub

section Steps

variable {me : IdentityKey} {s : MailboxState W}

/-- What an empty mailbox holds has expired. -/
theorem Holds.expired {pub : Publication W} (h : Holds me s pub)
    (hempty : s.dht.get (mailboxKey me) s.clock = none) : pub.envelope.expiresAt < s.clock := by
  obtain ⟨stored, hstored, -, hexp⟩ := h
  unfold DhtStorage.get at hempty
  simp only [hstored] at hempty
  split at hempty
  · rename_i hlt
    rwa [hexp] at hlt
  · cases hempty

/-- What a poll reads is what the mailbox holds. -/
theorem Holds.record_eq {pub : Publication W} {record : DhtRecord W} (h : Holds me s pub)
    (hget : s.dht.get (mailboxKey me) s.clock = some record) : record = pub.record := by
  obtain ⟨stored, hstored, hrecord, -⟩ := h
  obtain ⟨stored', hstored', rfl⟩ := DhtStorage.get?_of_get hget
  rw [hstored] at hstored'
  rw [← Option.some.inj hstored', hrecord]

/-- **The invariant is enough.** -/
theorem Tracked.delivered (h : Tracked C me s) : Delivered me s := by
  intro _ hempty pub hpub hme
  rcases h.settled pub hpub hme with hsettled | hholds
  · exact hsettled
  · exact Or.inl (hholds.expired hempty)

/-- A step that keeps the poll and the publications, and settles what it takes away, keeps the
invariant. -/
theorem Tracked.of_fewer {s' : MailboxState W} (h : Tracked C me s) (hpoll : s'.poll = s.poll)
    (hpub : s'.published = s.published) (hmono : ∀ pub, Settled s pub → Settled s' pub)
    (hheld : ∀ pub, Holds me s' pub → Holds me s pub)
    (hgone : ∀ pub, Holds me s pub → Settled s' pub ∨ Holds me s' pub) : Tracked C me s' := by
  constructor
  · intro pub hmem hme
    rw [hpub] at hmem
    rcases h.settled pub hmem hme with hsettled | hholds
    · exact Or.inl (hmono pub hsettled)
    · exact hgone pub hholds
  · rw [hpub]
    exact h.isSealed
  · intro envelope hread pub hmem hme hholds
    rw [hpub] at hmem
    rw [hpoll] at hread
    exact h.reading envelope hread pub hmem hme (hheld pub hholds)
  · intro hdone pub hmem hme hholds
    rw [hpub] at hmem
    rw [hpoll] at hdone
    exact hmono pub (h.removing hdone pub hmem hme (hheld pub hholds))

/-- Time does not go back. -/
theorem clock_le_max (clock time : UInt64) : clock ≤ max clock time := by
  show clock ≤ if clock ≤ time then time else clock
  split
  · assumption
  · exact UInt64.le_refl clock

theorem tracked_tick (h : Tracked C me s) (time : UInt64) :
    Tracked C me { s with clock := max s.clock time } := by
  refine h.of_fewer rfl rfl ?_ (fun _ hholds => hholds) (fun _ hholds => Or.inr hholds)
  rintro pub (hexp | hhandled)
  · exact Or.inl (UInt64.lt_of_lt_of_le hexp (clock_le_max s.clock time))
  · exact Or.inr hhandled

theorem tracked_sweep (h : Tracked C me s) :
    Tracked C me { s with dht := s.dht.sweepExpired s.clock } := by
  refine h.of_fewer rfl rfl (fun _ hsettled => hsettled) ?_ ?_
  · rintro pub ⟨stored, hstored, hrecord, hexp⟩
    change (s.dht.records.deleteWhere _).get? _ = _ at hstored
    rw [SqlTable.get?_deleteWhere, Option.filter_eq_some_iff] at hstored
    exact ⟨stored, hstored.1, hrecord, hexp⟩
  · rintro pub ⟨stored, hstored, hrecord, hexp⟩
    by_cases hlt : stored.expiresAt < s.clock
    · rw [hexp] at hlt
      exact Or.inl (Or.inl hlt)
    · refine Or.inr ⟨stored, ?_, hrecord, hexp⟩
      show (s.dht.records.deleteWhere _).get? _ = _
      rw [SqlTable.get?_deleteWhere, Option.filter_eq_some_iff]
      exact ⟨hstored, by simpa using hlt⟩

/-- A publication for `me` finds the mailbox empty, and is what it holds from then on. -/
theorem tracked_publish_self (h : Tracked C me s) {pub : Publication W} (hsealed : pub.Sealed C)
    (hme : pub.recipient = me) {dht : DhtStorage W}
    (hput : s.dht.put pub.record s.clock = .ok dht) (hidle : s.poll = .idle)
    (hempty : s.dht.get (mailboxKey me) s.clock = none) :
    Tracked C me { s with dht := dht, published := s.published ++ [pub] } := by
  obtain ⟨-, -, rfl⟩ := DhtStorage.put_eq_ok hput
  constructor
  · intro pub' hmem hme'
    rcases List.mem_append.mp hmem with hmem | hmem
    · rcases h.settled pub' hmem hme' with hsettled | hholds
      · exact Or.inl hsettled
      · exact Or.inl (Or.inl (hholds.expired hempty))
    · obtain rfl := List.mem_singleton.mp hmem
      refine Or.inr ⟨⟨pub'.record, pub'.record.timestamp + pub'.record.ttlSeconds.toUInt64⟩, ?_,
        rfl, expiry_record pub'⟩
      show (s.dht.records.insertOrReplace _ _).get? _ = _
      rw [SqlTable.get?_insertOrReplace, if_pos (by rw [key_record, hme])]
  · intro pub' hmem
    rcases List.mem_append.mp hmem with hmem | hmem
    · exact h.isSealed pub' hmem
    · obtain rfl := List.mem_singleton.mp hmem
      exact hsealed
  · intro envelope hread
    rw [hidle] at hread
    cases hread
  · intro hdone
    rw [hidle] at hdone
    cases hdone

variable {hashed : Set W.Bytes}

/-- A publication for somebody else goes under another key. -/
theorem tracked_publish_other (hW : W.Lawful) (hhash : Set.InjOn W.blake3 hashed)
    (hme : mailboxBytes me ∈ hashed) (h : Tracked C me s) {pub : Publication W}
    (hbytes : mailboxBytes pub.recipient ∈ hashed) (hsealed : pub.Sealed C)
    (hother : pub.recipient ≠ me) {dht : DhtStorage W}
    (hput : s.dht.put pub.record s.clock = .ok dht) :
    Tracked C me { s with dht := dht, published := s.published ++ [pub] } := by
  obtain ⟨-, -, rfl⟩ := DhtStorage.put_eq_ok hput
  have hkey : mailboxKey me ≠ pub.record.key := by
    rw [key_record]
    exact fun heq => hother (mailboxKey_inj hW hhash hme hbytes heq).symm
  have hsame : ∀ pub' : Publication W, Holds me { s with
      dht := { s.dht with
        records := s.dht.records.insertOrReplace pub.record.key
          ⟨pub.record, pub.record.timestamp + pub.record.ttlSeconds.toUInt64⟩ }
      published := s.published ++ [pub] } pub' ↔ Holds me s pub' := by
    intro pub'
    unfold Holds
    rw [SqlTable.get?_insertOrReplace, if_neg hkey]
  have hmine : ∀ pub' ∈ s.published ++ [pub], pub'.recipient = me → pub' ∈ s.published := by
    intro pub' hmem hme
    rcases List.mem_append.mp hmem with hmem | hmem
    · exact hmem
    · rw [List.mem_singleton.mp hmem] at hme
      exact absurd hme hother
  constructor
  · intro pub' hmem hme
    rw [hsame]
    exact h.settled pub' (hmine pub' hmem hme) hme
  · intro pub' hmem
    rcases List.mem_append.mp hmem with hmem | hmem
    · exact h.isSealed pub' hmem
    · obtain rfl := List.mem_singleton.mp hmem
      exact hsealed
  · intro envelope hread pub' hmem hme hholds
    exact h.reading envelope hread pub' (hmine pub' hmem hme) hme ((hsame pub').mp hholds)
  · intro hdone pub' hmem hme hholds
    exact h.removing hdone pub' (hmine pub' hmem hme) hme ((hsame pub').mp hholds)

theorem tracked_publish (hW : W.Lawful) (hhash : Set.InjOn W.blake3 hashed)
    (hmine : mailboxBytes me ∈ hashed) (h : Tracked C me s) {pub : Publication W}
    (hbytes : mailboxBytes pub.recipient ∈ hashed) (hsealed : pub.Sealed C)
    (hfree : ∀ dht, s.dht.put pub.record s.clock = .ok dht → pub.recipient = me →
      s.poll = .idle ∧ s.dht.get (mailboxKey me) s.clock = none) :
    Tracked C me (publish s pub) := by
  unfold publish
  split
  · rename_i dht hput
    by_cases hme : pub.recipient = me
    · obtain ⟨hidle, hempty⟩ := hfree dht hput hme
      exact tracked_publish_self h hsealed hme hput hidle hempty
    · exact tracked_publish_other hW hhash hmine h hbytes hsealed hme hput
  · exact h

/-- A poll that reads an envelope has read what the mailbox holds. -/
theorem tracked_read (h : Tracked C me s) {record : DhtRecord W} {envelope : W.Envelope}
    (hget : s.dht.get (mailboxKey me) s.clock = some record)
    (henv : W.envelopeFromSlice record.value = some envelope) :
    Tracked C me { s with poll := .read envelope } := by
  refine ⟨h.settled, h.isSealed, ?_, fun hdone => by cases hdone⟩
  intro envelope' hread pub hmem hme hholds
  obtain rfl := Poll.read.inj hread
  have hholds' : Holds me s pub := hholds
  rw [← hholds'.record_eq hget]
  exact henv

/-- What a poll has processed is settled. -/
theorem settled_of_processed (hW : W.Lawful) (hC : C.Opaque) (h : Tracked C me s)
    {envelope : W.Envelope} (hread : s.poll = .read envelope) (hlast : envelope.expiresAt ≠ s.clock)
    (hfree : s.db.deadDrops.get? envelope.messageId = none ∨ Stored s.db envelope)
    (hdone : (ingestDhtEnvelope s.db envelope me s.clock).2 = true) {pub : Publication W}
    (hmem : pub ∈ s.published) (hme : pub.recipient = me) (hholds : Holds me s pub) :
    pub.envelope.expiresAt < s.clock ∨
      Handled (ingestDhtEnvelope s.db envelope me s.clock).1 pub := by
  have hparsed := h.reading envelope hread pub hmem hme hholds
  -- only the record of a message can be read
  have hmsg : pub.isMessage = true := by
    by_contra hann
    rw [envelopeFromSlice_announcement hW (by simpa using hann)] at hparsed
    cases hparsed
  rw [envelopeFromSlice_message hW hmsg] at hparsed
  obtain rfl := Option.some.inj hparsed
  have hdeposit : ingestDhtEnvelope s.db pub.envelope me s.clock
      = depositDhtEnvelope s.db pub.envelope me s.clock := by
    unfold ingestDhtEnvelope
    rw [jsonFromSlice_message hC (h.isSealed pub hmem) hmsg]
  rw [hdeposit] at hdone ⊢
  subst hme
  rcases stored_of_processed hfree hdone with hexp | hstored
  · left
    rw [UInt64.lt_iff_le_and_ne]
    exact ⟨hexp, hlast⟩
  · right
    cases pub with
    | request loc remote note t => cases hmsg
    | acceptance loc remote t => cases hmsg
    | message loc remote body encryptedBody ttl t => exact hstored

theorem tracked_process (hW : W.Lawful) (hC : C.Opaque) (h : Tracked C me s)
    {envelope : W.Envelope} (hread : s.poll = .read envelope) (hlast : envelope.expiresAt ≠ s.clock)
    (hfree : s.db.deadDrops.get? envelope.messageId = none ∨ Stored s.db envelope) :
    Tracked C me { s with
      db := (ingestDhtEnvelope s.db envelope me s.clock).1
      poll := .done (ingestDhtEnvelope s.db envelope me s.clock).2 } := by
  refine ⟨?_, h.isSealed, fun _ hread' => (by cases hread'), ?_⟩
  · intro pub hmem hme
    rcases h.settled pub hmem hme with (hexp | hhandled) | hholds
    · exact Or.inl (Or.inl hexp)
    · exact Or.inl (Or.inr (hhandled.ingestDhtEnvelope envelope me s.clock))
    · exact Or.inr hholds
  · intro hdone pub hmem hme hholds
    exact settled_of_processed hW hC h hread hlast hfree (Poll.done.inj hdone) hmem hme hholds

/-- The removal takes away what is settled. -/
theorem tracked_remove (h : Tracked C me s) {processed : Bool} (hdone : s.poll = .done processed) :
    Tracked C me { s with
      dht := if processed then s.dht.remove (mailboxKey me) else s.dht
      poll := .idle } := by
  cases processed with
  | false => exact ⟨h.settled, h.isSealed, fun _ hread => (by cases hread), fun hd => by cases hd⟩
  | true =>
    refine ⟨?_, h.isSealed, fun _ hread => (by cases hread), fun hd => by cases hd⟩
    intro pub hmem hme
    rcases h.settled pub hmem hme with hsettled | hholds
    · exact Or.inl hsettled
    · exact Or.inl (h.removing hdone pub hmem hme hholds)

theorem tracked_pollNext (hW : W.Lawful) (hC : C.Opaque) (h : Tracked C me s)
    (hok : ∀ envelope, s.poll = .read envelope → envelope.expiresAt ≠ s.clock ∧
      (s.db.deadDrops.get? envelope.messageId = none ∨ Stored s.db envelope)) :
    Tracked C me (pollNext me s) := by
  unfold pollNext
  cases hpoll : s.poll with
  | idle =>
    simp only
    cases hget : s.dht.get (mailboxKey me) s.clock with
    | none => exact h
    | some record =>
      simp only
      cases henv : W.envelopeFromSlice record.value with
      | none => exact h
      | some envelope => exact tracked_read h hget henv
  | read envelope =>
    obtain ⟨hlast, hfree⟩ := hok envelope hpoll
    exact tracked_process hW hC h hpoll hlast hfree
  | done processed => exact tracked_remove h hpoll

/-- What is hashed for the own mailbox and for those of the recipients of a run. -/
def mailboxesHashed (me : IdentityKey) (ops : List (MailboxOp C)) : Set W.Bytes :=
  {bytes | mailboxBytes me = bytes ∨
    ∃ pub hsealed, MailboxOp.publish pub hsealed ∈ ops ∧ mailboxBytes pub.recipient = bytes}

theorem tracked_step (hW : W.Lawful) (hC : C.Opaque) {ops : List (MailboxOp C)}
    (hhash : Set.InjOn W.blake3 (mailboxesHashed me ops)) (s : MailboxState W) (op : MailboxOp C)
    (h : Tracked C me s) (hok : Undisturbed me s op ∧ op ∈ ops) : Tracked C me (step me s op) := by
  obtain ⟨hok, hop⟩ := hok
  cases op with
  | publish pub hsealed =>
    exact tracked_publish hW hhash (Or.inl rfl) h (Or.inr ⟨pub, hsealed, hop, rfl⟩) hsealed hok
  | pollNext => exact tracked_pollNext hW hC h hok
  | sweep => exact tracked_sweep h
  | tick time => exact tracked_tick h time

end Steps

/-! ## Runs -/

/-- **Delivery through the mailbox.**  In every run, from any database and DHT storage, in which
each step meets `Undisturbed`: whenever no poll is under way and the mailbox is empty, each
record that was published for `me` has expired or has been processed. -/
theorem delivered_of_meets (hW : W.Lawful) (hC : C.Opaque) (me : IdentityKey)
    (start : MailboxState W) (hstart : start.published = []) (ops : List (MailboxOp C))
    (hhash : Set.InjOn W.blake3 (mailboxesHashed me ops))
    (hops : Meets (step me) (Undisturbed me) start ops) :
    Delivered me (run (step me) start ops) := by
  have htracked : Tracked C me start := by
    constructor <;> simp [hstart]
  have hmeets := hops.and (meets_of_forall (fun _ hop => hop) start)
  exact (run_invariant (tracked_step hW hC hhash) htracked hmeets).delivered

/-- The mailbox of a new node. -/
def newMailbox : MailboxState Wire.symbolic := ⟨emptyDht, .empty, 10, .idle, []⟩

/-- A message to Ben. -/
def note (sender : UInt8) (body : String) : Publication Wire.symbolic :=
  .message (List.replicate 32 sender) (List.replicate 32 2) body
    (.ciphertext (.str body) (List.replicate 32 2) 0) none 10

/-- It is published. -/
def publishNote (sender : UInt8) (body : String) : MailboxOp Cipher.symbolic :=
  .publish (note sender body) ⟨List.replicate 32 2, (0 : ℕ), rfl⟩

/-- One message and one poll. -/
theorem delivered_one_note :
    Delivered (List.replicate 32 2) (run (step (List.replicate 32 2)) newMailbox
      [publishNote 1 "hi", .pollNext, .pollNext, .pollNext]) := by
  refine delivered_of_meets Wire.symbolic_lawful Cipher.opaque_symbolic _ newMailbox rfl _
    (Wire.symbolic_injOn _) ?_
  have hread : (run (step (List.replicate 32 2)) newMailbox [publishNote 1 "hi", .pollNext]).poll
      = .read (note 1 "hi").envelope := by
    with_unfolding_all rfl
  have hdone : (run (step (List.replicate 32 2)) newMailbox
      [publishNote 1 "hi", .pollNext, .pollNext]).poll = .done true := by
    with_unfolding_all rfl
  refine ⟨fun _ _ _ => ⟨rfl, rfl⟩, fun _ h => (by cases h), ?_, ?_, trivial⟩
  · intro envelope h
    obtain rfl := Poll.read.inj (hread.symm.trans h)
    exact ⟨by decide +kernel, Or.inl (by with_unfolding_all rfl)⟩
  · intro envelope h
    cases hdone.symm.trans h

/-- Two messages before one poll: the second overwrites the first, which is lost. -/
theorem first_note_lost :
    ¬Delivered (List.replicate 32 2) (run (step (List.replicate 32 2)) newMailbox
      [publishNote 1 "hi", publishNote 3 "ho", .pollNext, .pollNext, .pollNext]) := by
  intro h
  have hidle : (run (step (List.replicate 32 2)) newMailbox
      [publishNote 1 "hi", publishNote 3 "ho", .pollNext, .pollNext, .pollNext]).poll = .idle := by
    with_unfolding_all rfl
  have hpub : (run (step (List.replicate 32 2)) newMailbox
      [publishNote 1 "hi", publishNote 3 "ho", .pollNext, .pollNext, .pollNext]).published
        = [note 1 "hi", note 3 "ho"] := by
    with_unfolding_all rfl
  have hrow : (run (step (List.replicate 32 2)) newMailbox
      [publishNote 1 "hi", publishNote 3 "ho", .pollNext, .pollNext, .pollNext]).db.deadDrops.get?
        (note 1 "hi").envelope.messageId = none := by
    with_unfolding_all rfl
  have hmem : note 1 "hi" ∈ [note 1 "hi", note 3 "ho"] := List.mem_cons_self
  rw [← hpub] at hmem
  rcases h hidle (by with_unfolding_all rfl) (note 1 "hi") hmem rfl with hexp | hstored
  · exact absurd hexp (by decide +kernel)
  · exact DeadDropId.Stored.taken hstored hrow

end MailboxDelivery
