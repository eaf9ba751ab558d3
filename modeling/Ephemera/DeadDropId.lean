/-
# Ids of dead drops

`DeadDropEnvelope::message_id` is documented as a content-addressed identifier, and the table
of dead drops holds one row for each id.  The ingest takes the id off the wire and never
compares it with the content, so the first envelope that names a free id has it.

`Accepted` collects the checks an envelope passes on its way into the table, and
`deadDrops_ingestPayload_of_accepted` and its companion are all that is said here about the
ingest itself.  The main result, `unsquatted_iff`, says when of two envelopes with one id
the wrong one is kept out, in both orders of arrival.
-/
import Ephemera.DirectMessage

namespace DeadDropId

open Messaging NodeIngest SocialService DirectMessage

variable {W : Wire}

/-! ## What the ingest does to `dead_drops` -/

theorem deadDrops_ingestRequest (db : MetadataDb W) (ours : IdentityKey) (payload : Json)
    (fallback : Int64) : (ingestRequest db ours payload fallback).deadDrops = db.deadDrops := by
  unfold ingestRequest
  split
  · rfl
  · rfl

theorem deadDrops_ingestAccepted (db : MetadataDb W) (ours : IdentityKey) (payload : Json)
    (fallback : Int64) : (ingestAccepted db ours payload fallback).deadDrops = db.deadDrops := by
  unfold ingestAccepted
  split
  · rfl
  · rfl

/-- Looking into an envelope does not touch the dead drops. -/
theorem deadDrops_ingestForUs (db : MetadataDb W) (envelope : W.Envelope) (ours : IdentityKey)
    (now : UInt64) : (ingestForUs db envelope ours now).1.deadDrops = db.deadDrops := by
  unfold ingestForUs
  split
  · split
    · exact deadDrops_ingestRequest db ours _ _
    · split
      · exact deadDrops_ingestAccepted db ours _ _
      · rfl
  · rfl

theorem deadDrops_handlePlaintextDm (db : MetadataDb W) (json : Json) (ours : Option IdentityKey)
    (now : UInt64) : (handlePlaintextDm db json ours now).1.deadDrops = db.deadDrops := by
  unfold handlePlaintextDm
  split
  · simp only
    split
    · split
      · unfold storePlaintext getOrCreateConversation
        dsimp only
        split
        · rfl
        · rfl
      · rfl
    · rfl
  · rfl

/-- The payload is an envelope that passes every check of the ingest. -/
structure Accepted (payload : W.Bytes) (now : UInt64) (envelope : W.Envelope) : Prop where
  small : ¬maxEnvelopeSize < W.len payload
  notMessage : directMessage? payload = none
  parsed : W.envelopeFromSlice payload = some envelope
  depositable : Depositable envelope now

/-- An accepted envelope is stored, unless its id is taken. -/
theorem deadDrops_ingestPayload_of_accepted {payload : W.Bytes} {now : UInt64}
    {envelope : W.Envelope} (h : Accepted payload now envelope) (db : MetadataDb W)
    (ours : Option IdentityKey) :
    (ingestPayload db payload ours now).1.deadDrops = (deposited db envelope now).deadDrops := by
  unfold ingestPayload
  rw [if_neg h.small, h.notMessage]
  simp only [h.parsed]
  rw [ingestEnvelope_of_depositable h.depositable]
  cases ours with
  | none => rfl
  | some ours =>
    simp only
    split
    · exact deadDrops_ingestForUs (deposited db envelope now) envelope ours now
    · rfl

/-- Any other payload leaves the dead drops alone. -/
theorem deadDrops_ingestPayload_of_not {payload : W.Bytes} {now : UInt64}
    (h : ∀ envelope, ¬Accepted payload now envelope) (db : MetadataDb W)
    (ours : Option IdentityKey) :
    (ingestPayload db payload ours now).1.deadDrops = db.deadDrops := by
  unfold ingestPayload
  by_cases hsmall : maxEnvelopeSize < W.len payload
  · rw [if_pos hsmall]
  · rw [if_neg hsmall]
    cases hjson : directMessage? payload with
    | some json => exact deadDrops_handlePlaintextDm db json ours now
    | none =>
      simp only
      cases henv : W.envelopeFromSlice payload with
      | none => rfl
      | some envelope =>
        have hdep : ¬Depositable envelope now := fun hdep =>
          h envelope ⟨hsmall, hjson, henv, hdep⟩
        simp only
        rw [ingestEnvelope_of_not_depositable hdep]

/-! ## Two envelopes with one id -/

/-- The id is the hash an honest sender derives: `connect` and `accept` hash the payload they
publish, `send` hashes the body it encrypts. -/
inductive Commits (C : Cipher W) (envelope : W.Envelope) : Prop where
  | announcement (payload : Json) (hdata : envelope.sealedData = W.jsonToVec payload)
      (hid : envelope.messageId = W.blake3 envelope.sealedData)
  | message (body : String) (key : C.X25519Public) (entropy : C.Entropy)
      (hdata : C.encryptMessage (W.ofStr body) key entropy = .ok envelope.sealedData)
      (hid : envelope.messageId = W.blake3 (W.ofStr body))

/-- Two envelopes claim one id for different contents or mailboxes. -/
structure Rivals (wrong honest : W.Envelope) : Prop where
  sameId : wrong.messageId = honest.messageId
  differ : wrong.sealedData ≠ honest.sealedData ∨ wrong.mailboxKey ≠ honest.mailboxKey

/-- The row under the id of the envelope holds its data for its mailbox. -/
def Stored (db : MetadataDb W) (envelope : W.Envelope) : Prop :=
  ∃ row, db.deadDrops.get? envelope.messageId = some row ∧
    row.mailboxKey = envelope.mailboxKey ∧ row.sealedData = envelope.sealedData

/-- Of two rivals, the second one to be tested is not what is stored. -/
theorem Rivals.not_stored {wrong honest : W.Envelope} {db : MetadataDb W}
    (hr : Rivals wrong honest) (h : Stored db honest) : ¬Stored db wrong := by
  rintro ⟨row, hrow, hbox, hdata⟩
  obtain ⟨row', hrow', hbox', hdata'⟩ := h
  rw [hr.sameId, hrow'] at hrow
  obtain rfl := Option.some.inj hrow
  rcases hr.differ with hne | hne
  · exact hne (hdata.symm.trans hdata')
  · exact hne (hbox.symm.trans hbox')

theorem stored_congr {db db' : MetadataDb W} (h : db'.deadDrops = db.deadDrops)
    (envelope : W.Envelope) : Stored db' envelope ↔ Stored db envelope := by
  unfold Stored
  rw [h]

/-- A dead drop is stored under an id that is listed. -/
theorem Stored.taken {db : MetadataDb W} {envelope : W.Envelope} (h : Stored db envelope) :
    db.deadDrops.get? envelope.messageId ≠ none := by
  obtain ⟨row, hrow, -⟩ := h
  rw [hrow]
  simp

section Arrival

variable {db : MetadataDb W} {ours : Option IdentityKey} {payload : W.Bytes}
  {envelope : W.Envelope} {now : UInt64}

/-- A refused envelope changes no dead drop. -/
theorem deadDrops_ingest_of_refused (hparsed : W.envelopeFromSlice payload = some envelope)
    (hacc : ¬Accepted payload now envelope) :
    (ingestPayload db payload ours now).1.deadDrops = db.deadDrops := by
  apply deadDrops_ingestPayload_of_not
  intro e he
  obtain rfl := Option.some.inj (hparsed.symm.trans he.parsed)
  exact hacc he

/-- An envelope under a listed id changes no dead drop. -/
theorem deadDrops_ingest_of_taken (hparsed : W.envelopeFromSlice payload = some envelope)
    (htaken : db.deadDrops.get? envelope.messageId ≠ none) :
    (ingestPayload db payload ours now).1.deadDrops = db.deadDrops := by
  by_cases hacc : Accepted payload now envelope
  · rw [deadDrops_ingestPayload_of_accepted hacc, deposited]
    exact SqlTable.insertOrIgnore_of_ne_none htaken _
  · exact deadDrops_ingest_of_refused hparsed hacc

/-- An accepted envelope gets a free id. -/
theorem stored_ingest (hacc : Accepted payload now envelope)
    (hfree : db.deadDrops.get? envelope.messageId = none) :
    Stored (ingestPayload db payload ours now).1 envelope := by
  unfold Stored
  rw [deadDrops_ingestPayload_of_accepted hacc, deposited, SqlTable.get?_insertOrIgnore,
    if_pos rfl, hfree]
  exact ⟨_, rfl, rfl, rfl⟩

/-- An envelope that was stored stays stored. -/
theorem Stored.ingest {envelope' : W.Envelope} (h : Stored db envelope)
    (hparsed : W.envelopeFromSlice payload = some envelope')
    (hid : envelope'.messageId = envelope.messageId) :
    Stored (ingestPayload db payload ours now).1 envelope := by
  have htaken : db.deadDrops.get? envelope'.messageId ≠ none := by
    rw [hid]
    exact h.taken
  rw [stored_congr (deadDrops_ingest_of_taken hparsed htaken)]
  exact h

end Arrival

/-- The database after two payloads. -/
def ingestTwo (db : MetadataDb W) (ours : Option IdentityKey) (first second : W.Bytes)
    (t₁ t₂ : UInt64) : MetadataDb W :=
  (ingestPayload (ingestPayload db first ours t₁).1 second ours t₂).1

/-- The wrong envelope does not take the id: in both orders of arrival, the honest envelope is
stored if it would be stored alone, and the wrong one is not stored unless it was before. -/
structure Unsquatted (db : MetadataDb W) (ours : Option IdentityKey)
    (wrongPayload honestPayload : W.Bytes) (wrong honest : W.Envelope) (t₁ t₂ : UInt64) :
    Prop where
  honestLast : Stored (ingestPayload db honestPayload ours t₂).1 honest →
    Stored (ingestTwo db ours wrongPayload honestPayload t₁ t₂) honest
  wrongFirst : Stored (ingestTwo db ours wrongPayload honestPayload t₁ t₂) wrong → Stored db wrong
  honestFirst : Stored (ingestPayload db honestPayload ours t₁).1 honest →
    Stored (ingestTwo db ours honestPayload wrongPayload t₁ t₂) honest
  wrongLast : Stored (ingestTwo db ours honestPayload wrongPayload t₁ t₂) wrong → Stored db wrong

section Rivals

variable {db : MetadataDb W} {ours : Option IdentityKey} {wrongPayload honestPayload : W.Bytes}
  {wrong honest : W.Envelope} {t₁ t₂ : UInt64}

/-- A listed id stays with its row. -/
theorem deadDrops_ingestTwo_of_taken {first second : W.Bytes} {e₁ e₂ : W.Envelope}
    (h₁ : W.envelopeFromSlice first = some e₁) (h₂ : W.envelopeFromSlice second = some e₂)
    (hid : e₁.messageId = e₂.messageId) (htaken : db.deadDrops.get? e₁.messageId ≠ none) :
    (ingestTwo db ours first second t₁ t₂).deadDrops = db.deadDrops := by
  have hfirst : (ingestPayload db first ours t₁).1.deadDrops = db.deadDrops :=
    deadDrops_ingest_of_taken h₁ htaken
  unfold ingestTwo
  rw [deadDrops_ingest_of_taken h₂ (by rw [hfirst, ← hid]; exact htaken), hfirst]

theorem unsquatted_of_taken (hwrong : W.envelopeFromSlice wrongPayload = some wrong)
    (hhonest : W.envelopeFromSlice honestPayload = some honest) (hr : Rivals wrong honest)
    (htaken : db.deadDrops.get? honest.messageId ≠ none) :
    Unsquatted db ours wrongPayload honestPayload wrong honest t₁ t₂ := by
  have htaken' : db.deadDrops.get? wrong.messageId ≠ none := by rwa [hr.sameId]
  have hwh : (ingestTwo db ours wrongPayload honestPayload t₁ t₂).deadDrops = db.deadDrops :=
    deadDrops_ingestTwo_of_taken hwrong hhonest hr.sameId htaken'
  have hhw : (ingestTwo db ours honestPayload wrongPayload t₁ t₂).deadDrops = db.deadDrops :=
    deadDrops_ingestTwo_of_taken hhonest hwrong hr.sameId.symm htaken
  refine ⟨?_, (stored_congr hwh wrong).mp, ?_, (stored_congr hhw wrong).mp⟩
  · intro h
    rw [stored_congr (deadDrops_ingest_of_taken hhonest htaken)] at h
    exact (stored_congr hwh honest).mpr h
  · intro h
    rw [stored_congr (deadDrops_ingest_of_taken hhonest htaken)] at h
    exact (stored_congr hhw honest).mpr h

/-- Under a free id, a wrong envelope that is accepted before the honest one is stored. -/
theorem Unsquatted.refused (hhonest : W.envelopeFromSlice honestPayload = some honest)
    (hr : Rivals wrong honest) (hfree : db.deadDrops.get? honest.messageId = none)
    (h : Unsquatted db ours wrongPayload honestPayload wrong honest t₁ t₂) :
    ¬Accepted wrongPayload t₁ wrong ∧
      (¬Accepted wrongPayload t₂ wrong ∨ Accepted honestPayload t₁ honest) := by
  have hfree' : db.deadDrops.get? wrong.messageId = none := by rw [hr.sameId, hfree]
  have hnot : ¬Stored db wrong := fun h => h.taken hfree'
  constructor
  · intro hacc
    exact hnot (h.wrongFirst ((stored_ingest hacc hfree').ingest hhonest hr.sameId.symm))
  · by_contra hcon
    obtain ⟨hacc, hrefused⟩ := not_or.mp hcon
    have hkept : (ingestPayload db honestPayload ours t₁).1.deadDrops = db.deadDrops :=
      deadDrops_ingest_of_refused hhonest hrefused
    refine hnot (h.wrongLast (stored_ingest (not_not.mp hacc) ?_))
    rw [hkept, hfree']

theorem unsquatted_of_refused (hwrong : W.envelopeFromSlice wrongPayload = some wrong)
    (hhonest : W.envelopeFromSlice honestPayload = some honest) (hr : Rivals wrong honest)
    (hfree : db.deadDrops.get? honest.messageId = none)
    (hrefused : ¬Accepted wrongPayload t₁ wrong)
    (hlast : ¬Accepted wrongPayload t₂ wrong ∨ Accepted honestPayload t₁ honest) :
    Unsquatted db ours wrongPayload honestPayload wrong honest t₁ t₂ := by
  have hkept : (ingestPayload db wrongPayload ours t₁).1.deadDrops = db.deadDrops :=
    deadDrops_ingest_of_refused hwrong hrefused
  have hfreeLater : (ingestPayload db wrongPayload ours t₁).1.deadDrops.get? honest.messageId
      = none := by
    rw [hkept, hfree]
  constructor
  · intro h
    by_cases hacc : Accepted honestPayload t₂ honest
    · exact stored_ingest hacc hfreeLater
    · rw [stored_congr (deadDrops_ingest_of_refused hhonest hacc)] at h
      exact absurd hfree h.taken
  · intro h
    by_cases hacc : Accepted honestPayload t₂ honest
    · exact absurd h (hr.not_stored (stored_ingest hacc hfreeLater))
    · rw [ingestTwo, stored_congr (deadDrops_ingest_of_refused hhonest hacc),
        stored_congr hkept] at h
      exact h
  · intro h
    exact h.ingest hwrong hr.sameId
  · intro h
    by_cases hacc : Accepted honestPayload t₁ honest
    · exact absurd h (hr.not_stored ((stored_ingest hacc hfree).ingest hwrong hr.sameId))
    · have hlate : ¬Accepted wrongPayload t₂ wrong := hlast.resolve_right hacc
      rw [ingestTwo, stored_congr (deadDrops_ingest_of_refused hwrong hlate),
        stored_congr (deadDrops_ingest_of_refused hhonest hacc)] at h
      exact h

/-- **When a dead-drop id is not squatted.**  For any table and any two envelopes with one
id and different contents, in both orders of arrival: the id is listed already, or the wrong
envelope is refused when it comes first, and when it comes last it is refused or finds the
honest one accepted. -/
theorem unsquatted_iff (hwrong : W.envelopeFromSlice wrongPayload = some wrong)
    (hhonest : W.envelopeFromSlice honestPayload = some honest) (hr : Rivals wrong honest) :
    Unsquatted db ours wrongPayload honestPayload wrong honest t₁ t₂ ↔
      db.deadDrops.get? honest.messageId ≠ none ∨
        ¬Accepted wrongPayload t₁ wrong ∧
          (¬Accepted wrongPayload t₂ wrong ∨ Accepted honestPayload t₁ honest) := by
  by_cases hfree : db.deadDrops.get? honest.messageId = none
  · constructor
    · intro h
      exact Or.inr (h.refused hhonest hr hfree)
    · rintro (htaken | ⟨hrefused, hlast⟩)
      · exact absurd hfree htaken
      · exact unsquatted_of_refused hwrong hhonest hr hfree hrefused hlast
  · exact ⟨fun _ => Or.inl hfree, fun _ => unsquatted_of_taken hwrong hhonest hr hfree⟩

end Rivals

/-! ## A squatted id -/

/-- Ann's connection request to Ben. -/
def annsRequest : Wire.symbolic.Envelope :=
  announcementEnvelope (List.replicate 32 2)
    (requestPayload (List.replicate 32 1) (List.replicate 32 2) none 10) 10

/-- An envelope with the id of Ann's request and other contents; it lives for `ttl` seconds. -/
def squatter (ttl : UInt64) : Wire.symbolic.Envelope :=
  { annsRequest with sealedData := .str "junk", expiresAt := 10 + ttl }

theorem squatter_rivals (ttl : UInt64) : Rivals (squatter ttl) annsRequest :=
  ⟨rfl, Or.inl (by intro h; cases h)⟩

theorem accepted_squatter : Accepted (Wire.symbolic.envelopeToVec (squatter 60)) 20 (squatter 60) :=
  ⟨by decide, rfl, rfl, by decide, by decide, by decide⟩

/-- An expired squatter does no harm. -/
theorem unsquatted_expired :
    Unsquatted MetadataDb.empty none (Wire.symbolic.envelopeToVec (squatter 5))
      (Wire.symbolic.envelopeToVec annsRequest) (squatter 5) annsRequest 20 20 :=
  (unsquatted_iff rfl rfl (squatter_rivals 5)).mpr
    (Or.inr ⟨fun h => h.depositable.live (by decide),
      Or.inl (fun h => h.depositable.live (by decide))⟩)

/-- Ann's request is stored when it comes alone. -/
theorem stored_annsRequest :
    Stored (ingestPayload MetadataDb.empty (Wire.symbolic.envelopeToVec annsRequest) none 20).1
      annsRequest :=
  stored_ingest ⟨by decide, rfl, rfl, by decide, by decide, by decide⟩ rfl

/-- After the squatter it is lost. -/
theorem not_stored_annsRequest :
    ¬Stored (ingestTwo MetadataDb.empty none (Wire.symbolic.envelopeToVec (squatter 60))
      (Wire.symbolic.envelopeToVec annsRequest) 20 20) annsRequest := by
  intro h
  have hparsed : Wire.symbolic.envelopeFromSlice (Wire.symbolic.envelopeToVec annsRequest)
      = some annsRequest := rfl
  exact (squatter_rivals 60).not_stored h ((stored_ingest accepted_squatter rfl).ingest hparsed rfl)

/-- The id of Ann's request commits to it and not to the squatter, which takes it all the
same when it comes first. -/
theorem request_squatted :
    Commits Cipher.symbolic annsRequest ∧ ¬Commits Cipher.symbolic (squatter 60) ∧
      Rivals (squatter 60) annsRequest ∧
      ¬Unsquatted MetadataDb.empty none (Wire.symbolic.envelopeToVec (squatter 60))
        (Wire.symbolic.envelopeToVec annsRequest) (squatter 60) annsRequest 20 20 := by
  refine ⟨.announcement _ rfl rfl, ?_, squatter_rivals 60, ?_⟩
  · rintro (⟨payload, hdata, -⟩ | ⟨body, key, entropy, hdata, -⟩)
    · cases hdata
    · cases hdata
  · intro h
    exact not_stored_annsRequest (h.honestLast stored_annsRequest)

end DeadDropId
