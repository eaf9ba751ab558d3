/-
# Publications into a mailbox

`connect`, `accept` and `send` each hand the recipient one event twice: as an envelope on the
gossip network, and as a record under the mailbox key in the DHT storage.  The record of a
message is the envelope itself; the record of a request or an acceptance is its bare payload,
which `retrieve_dht_dead_drops` cannot read.

So the two paths agree for messages and for nothing else (`paths_agree_iff`).
-/
import Ephemera.DeadDropId
import Ephemera.UserCalls

/-- What `connect`, `accept` or `send` publishes, with all it is made of. -/
inductive Publication (W : Wire) where
  | request (loc remote : IdentityKey) (message : Option String) (now : UInt64)
  | acceptance (loc remote : IdentityKey) (now : UInt64)
  | message (loc remote : IdentityKey) (body : String) (encryptedBody : W.Bytes)
      (ttl : Option UInt64) (now : UInt64)

namespace Publication

open Messaging NodeIngest SocialService DirectMessage DeadDropId UserCalls

variable {W : Wire}

/-- Whose mailbox it goes to. -/
def recipient : Publication W → IdentityKey
  | .request _ remote _ _ => remote
  | .acceptance _ remote _ => remote
  | .message _ remote _ _ _ _ => remote

/-- The envelope on the gossip network. -/
def envelope : Publication W → W.Envelope
  | .request loc remote note now =>
    announcementEnvelope remote (requestPayload loc remote note now) now
  | .acceptance loc remote now => announcementEnvelope remote (acceptancePayload loc remote now) now
  | .message loc remote body encryptedBody ttl now =>
    sentEnvelope (preparedOf loc remote body encryptedBody ttl) now

/-- The record in the DHT storage. -/
def record : Publication W → DhtRecord W
  | .request loc remote note now =>
    announcementRecord loc remote (requestPayload loc remote note now) now
  | .acceptance loc remote now =>
    announcementRecord loc remote (acceptancePayload loc remote now) now
  | .message loc remote body encryptedBody ttl now =>
    sentRecord (preparedOf loc remote body encryptedBody ttl) now

/-- It is what `send` publishes. -/
def isMessage : Publication W → Bool
  | .message _ _ _ _ _ _ => true
  | _ => false

/-- A message is sealed by the cipher. -/
def Sealed (C : Cipher W) : Publication W → Prop
  | .message _ _ body encryptedBody _ _ =>
    ∃ key entropy, C.encryptMessage (W.ofStr body) key entropy = .ok encryptedBody
  | _ => True

theorem key_record (pub : Publication W) : pub.record.key = mailboxKey pub.recipient := by
  cases pub with
  | request loc remote note now => rfl
  | acceptance loc remote now => rfl
  | message loc remote body encryptedBody ttl now => rfl

theorem mailboxKey_envelope (pub : Publication W) :
    pub.envelope.mailboxKey = mailboxKey pub.recipient := by
  cases pub with
  | request loc remote note now => rfl
  | acceptance loc remote now => rfl
  | message loc remote body encryptedBody ttl now => rfl

/-- The lifetime of a dead drop fits the `u32` of a record. -/
theorem toUInt64_toUInt32_deadDropTtl (ttl : UInt64) :
    (min ttl deadDropMaxTtlSecs).toUInt32.toUInt64 = min ttl deadDropMaxTtlSecs := by
  have hmax : (min ttl deadDropMaxTtlSecs).toNat ≤ 14 * 24 * 60 * 60 := by
    have hle : min ttl deadDropMaxTtlSecs ≤ deadDropMaxTtlSecs := Std.min_le_right
    exact UInt64.le_iff_toNat_le.mp hle
  apply UInt64.toNat_inj.mp
  rw [UInt32.toNat_toUInt64, UInt64.toNat_toUInt32]
  omega

/-- The DHT and the envelope give a publication the same expiry. -/
theorem expiry_record (pub : Publication W) :
    pub.record.timestamp + pub.record.ttlSeconds.toUInt64 = pub.envelope.expiresAt := by
  cases pub with
  | request loc remote note now => rfl
  | acceptance loc remote now => rfl
  | message loc remote body encryptedBody ttl now =>
    show now + _ = now + _
    congr 1
    exact toUInt64_toUInt32_deadDropTtl _

/-! ## What the reader makes of a record -/

/-- The record of a message is its envelope. -/
theorem envelopeFromSlice_message (hW : W.Lawful) {pub : Publication W}
    (hmsg : pub.isMessage = true) : W.envelopeFromSlice pub.record.value = some pub.envelope := by
  cases pub with
  | request loc remote note now => cases hmsg
  | acceptance loc remote now => cases hmsg
  | message loc remote body encryptedBody ttl now => exact hW.envelope _

/-- The record of a request or an acceptance is not an envelope. -/
theorem envelopeFromSlice_announcement (hW : W.Lawful) {pub : Publication W}
    (hann : pub.isMessage = false) : W.envelopeFromSlice pub.record.value = none := by
  cases pub with
  | request loc remote note now =>
    have hann : IsAnnouncement loc remote (requestPayload loc remote note now) :=
      Or.inl ⟨note, now, rfl⟩
    exact hann.not_envelope hW
  | acceptance loc remote now =>
    have hann : IsAnnouncement loc remote (acceptancePayload loc remote now) :=
      Or.inr ⟨now, rfl⟩
    exact hann.not_envelope hW
  | message loc remote body encryptedBody ttl now => cases hann

/-- The sealed data of a message is not JSON. -/
theorem jsonFromSlice_message {C : Cipher W} (hC : C.Opaque) {pub : Publication W}
    (hsealed : pub.Sealed C) (hmsg : pub.isMessage = true) :
    W.jsonFromSlice pub.envelope.sealedData = none := by
  cases pub with
  | request loc remote note now => cases hmsg
  | acceptance loc remote now => cases hmsg
  | message loc remote body encryptedBody ttl now =>
    obtain ⟨key, entropy, h⟩ := hsealed
    exact hC _ key entropy _ h

/-! ## The two paths -/

/-- Storing a record and polling for it reads that record, until it expires. -/
theorem get_of_put {dht dht' : DhtStorage W} {pub : Publication W} {t : UInt64}
    (hput : dht.put pub.record t = .ok dht') (now : UInt64) :
    dht'.get (mailboxKey pub.recipient) now
      = if pub.envelope.expiresAt < now then none else some pub.record := by
  obtain ⟨-, -, rfl⟩ := DhtStorage.put_eq_ok hput
  unfold DhtStorage.get
  rw [SqlTable.get?_insertOrReplace, if_pos (key_record pub).symm, expiry_record]

/-- The gossip path and the DHT path of a publication do the same to the recipient: the record
is decoded, and for every database, every time of the put and every time at which the
recipient gets to it, the poll of the DHT storage and the ingest of the envelope leave the
same connections and the same dead drops. -/
structure PathsAgree (pub : Publication W) : Prop where
  decoded : W.envelopeFromSlice pub.record.value ≠ none
  sameEffect : ∀ (db : MetadataDb W) (dht dht' : DhtStorage W) (t now : UInt64),
    dht.maxRecordSize = DhtStorage.defaultMaxRecordSize → dht.put pub.record t = .ok dht' →
    (retrieveDhtDeadDrops db dht' pub.recipient now).1.connections
        = (ingestPayload db (W.envelopeToVec pub.envelope) (some pub.recipient) now).1.connections ∧
      (retrieveDhtDeadDrops db dht' pub.recipient now).1.deadDrops
        = (ingestPayload db (W.envelopeToVec pub.envelope) (some pub.recipient) now).1.deadDrops

/-- A serialised envelope is not a plaintext message. -/
theorem directMessage?_envelopeToVec (hW : W.Lawful) (e : W.Envelope) :
    directMessage? (W.envelopeToVec e) = none := by
  obtain ⟨json, hjson, htype⟩ := hW.envelope_json e
  rw [directMessage?, hjson]
  simp [Json.getStr, htype]

/-- An envelope that lives no longer than a dead drop may, and whose times can be stored, also
survives the clamping of its expiry. -/
theorem clamped_of_storable {depositedAt ttl now : UInt64} (httl : ttl ≤ deadDropMaxTtlSecs)
    (hlive : ¬depositedAt + ttl ≤ now) (hstored : ¬maxSqlInteger < depositedAt) :
    ¬min (depositedAt + ttl) (now + deadDropMaxTtlSecs) ≤ now := by
  have hmin : min (depositedAt + ttl) (now + deadDropMaxTtlSecs) = depositedAt + ttl ∨
      min (depositedAt + ttl) (now + deadDropMaxTtlSecs) = now + deadDropMaxTtlSecs :=
    Std.min_eq_or
  rcases hmin with hmin | hmin
  · rwa [hmin]
  · rw [hmin]
    -- the sum of two times below the bound of SQLite does not wrap around
    rw [UInt64.le_iff_toNat_le, UInt64.toNat_add] at hlive ⊢
    rw [UInt64.lt_iff_toNat_lt] at hstored
    rw [UInt64.le_iff_toNat_le] at httl
    have hmax : deadDropMaxTtlSecs.toNat = 1209600 := rfl
    have hsql : maxSqlInteger.toNat = 9223372036854775807 := rfl
    have hnow := now.toNat_lt
    omega

/-- The lifetime of a message is at most that of a dead drop. -/
theorem expiresAt_message {pub : Publication W} (hmsg : pub.isMessage = true) :
    ∃ ttl, ttl ≤ deadDropMaxTtlSecs ∧
      pub.envelope.expiresAt = pub.envelope.depositedAt + ttl := by
  cases pub with
  | request loc remote note now => cases hmsg
  | acceptance loc remote now => cases hmsg
  | message loc remote body encryptedBody ttl now =>
    exact ⟨min (ttl.getD defaultTtlSecs) deadDropMaxTtlSecs, Std.min_le_right, rfl⟩

/-- The poll deposits a message exactly if the ingest would. -/
theorem depositDhtEnvelope_message {pub : Publication W} (hmsg : pub.isMessage = true)
    (db : MetadataDb W) (now : UInt64) :
    (Depositable pub.envelope now ∧
      depositDhtEnvelope db pub.envelope pub.recipient now
        = (deposited db pub.envelope now, true)) ∨
    (¬Depositable pub.envelope now ∧
      (depositDhtEnvelope db pub.envelope pub.recipient now).1 = db) := by
  unfold depositDhtEnvelope
  cases hdep : depositRaw db (mailboxKey pub.recipient) pub.envelope.messageId
      pub.envelope.sealedData pub.envelope.depositedAt pub.envelope.expiresAt now with
  | ok db' =>
    obtain ⟨hlive, hsql, rfl⟩ := depositRaw_eq_ok.mp hdep
    obtain ⟨ttl, httl, hexp⟩ := expiresAt_message hmsg
    have hclamped : ¬min pub.envelope.expiresAt (now + deadDropMaxTtlSecs) ≤ now := by
      rw [hexp] at hlive ⊢
      exact clamped_of_storable httl hlive (not_or.mp hsql).1
    refine Or.inl ⟨⟨hlive, hclamped, hsql⟩, ?_⟩
    rw [deposited, mailboxKey_envelope]
  | error e =>
    refine Or.inr ⟨fun h => ?_, rfl⟩
    have hok : depositRaw db (mailboxKey pub.recipient) pub.envelope.messageId
        pub.envelope.sealedData pub.envelope.depositedAt pub.envelope.expiresAt now = .ok _ :=
      depositRaw_eq_ok.mpr ⟨h.live, h.storable, rfl⟩
    rw [hdep] at hok
    cases hok

/-- The record of a message is its envelope, so an envelope that fits into the DHT storage is
small enough for the ingest. -/
theorem small_of_put {dht dht' : DhtStorage W} {pub : Publication W} {t : UInt64}
    (hmsg : pub.isMessage = true) (hsize : dht.maxRecordSize = DhtStorage.defaultMaxRecordSize)
    (hput : dht.put pub.record t = .ok dht') :
    ¬maxEnvelopeSize < W.len (W.envelopeToVec pub.envelope) := by
  have hvalue : pub.record.value = W.envelopeToVec pub.envelope := by
    cases pub with
    | request loc remote note now => cases hmsg
    | acceptance loc remote now => cases hmsg
    | message loc remote body encryptedBody ttl now => rfl
  have hlen := (DhtStorage.put_eq_ok hput).1
  rw [hsize, hvalue] at hlen
  unfold DhtStorage.defaultMaxRecordSize at hlen
  unfold maxEnvelopeSize
  omega

section Message

variable {C : Cipher W} {pub : Publication W}

/-- The gossip path of a message ends in its deposit. -/
theorem ingestPayload_message (hW : W.Lawful) (hC : C.Opaque) (hsealed : pub.Sealed C)
    (hmsg : pub.isMessage = true) (hsmall : ¬maxEnvelopeSize < W.len (W.envelopeToVec pub.envelope))
    (db : MetadataDb W) {now : UInt64} (hdep : Depositable pub.envelope now) :
    (ingestPayload db (W.envelopeToVec pub.envelope) (some pub.recipient) now).1
      = deposited db pub.envelope now := by
  unfold ingestPayload
  rw [if_neg hsmall, directMessage?_envelopeToVec hW]
  simp only [hW.envelope]
  rw [ingestEnvelope_of_depositable hdep]
  simp only [mailboxKey_envelope, if_true]
  unfold ingestForUs
  rw [jsonFromSlice_message hC hsealed hmsg]

/-- A message that is not deposited has no effect over gossip. -/
theorem ingestPayload_message_of_not (hW : W.Lawful)
    (hsmall : ¬maxEnvelopeSize < W.len (W.envelopeToVec pub.envelope))
    (db : MetadataDb W) {now : UInt64} (hdep : ¬Depositable pub.envelope now) :
    (ingestPayload db (W.envelopeToVec pub.envelope) (some pub.recipient) now).1 = db := by
  unfold ingestPayload
  rw [if_neg hsmall, directMessage?_envelopeToVec hW]
  simp only [hW.envelope]
  rw [ingestEnvelope_of_not_depositable hdep]

/-- The DHT path of a message ends in its deposit, unless the record has expired. -/
theorem retrieve_message (hW : W.Lawful) (hC : C.Opaque) (hsealed : pub.Sealed C)
    (hmsg : pub.isMessage = true) {dht dht' : DhtStorage W} {t : UInt64}
    (hput : dht.put pub.record t = .ok dht') (db : MetadataDb W) (now : UInt64) :
    (retrieveDhtDeadDrops db dht' pub.recipient now).1
      = if pub.envelope.expiresAt < now then db
        else (depositDhtEnvelope db pub.envelope pub.recipient now).1 := by
  unfold retrieveDhtDeadDrops
  rw [get_of_put hput]
  by_cases hexp : pub.envelope.expiresAt < now
  · rw [if_pos hexp, if_pos hexp]
  · rw [if_neg hexp, if_neg hexp]
    simp only [envelopeFromSlice_message hW hmsg]
    unfold ingestDhtEnvelope
    rw [jsonFromSlice_message hC hsealed hmsg]

/-- **The two paths of a message agree.** -/
theorem paths_agree_message (hW : W.Lawful) (hC : C.Opaque) (hsealed : pub.Sealed C)
    (hmsg : pub.isMessage = true) : PathsAgree pub := by
  constructor
  · rw [envelopeFromSlice_message hW hmsg]
    simp
  · intro db dht dht' t now hsize hput
    have hsmall := small_of_put hmsg hsize hput
    rw [retrieve_message hW hC hsealed hmsg hput]
    -- both paths end in the deposit, which they make under the same condition
    rcases depositDhtEnvelope_message hmsg db now with ⟨hdep, hdb⟩ | ⟨hdep, hdb⟩
    · have hlive : ¬pub.envelope.expiresAt < now := fun h => hdep.live (UInt64.le_of_lt h)
      rw [ingestPayload_message hW hC hsealed hmsg hsmall db hdep, if_neg hlive, hdb]
      exact ⟨rfl, rfl⟩
    · rw [ingestPayload_message_of_not hW hsmall db hdep, hdb]
      simp

end Message

/-- **When the DHT path of a publication agrees with its gossip path.**  It does for the
messages of `send` and for nothing else: the record of a request or of an acceptance is never
decoded. -/
theorem paths_agree_iff (hW : W.Lawful) {C : Cipher W} (hC : C.Opaque) (pub : Publication W)
    (hsealed : pub.Sealed C) : PathsAgree pub ↔ pub.isMessage = true := by
  constructor
  · intro h
    by_contra hmsg
    exact h.decoded (envelopeFromSlice_announcement hW (by simpa using hmsg))
  · exact paths_agree_message hW hC hsealed

/-- A message of Ann to Ben. -/
def messageOfAnn : Publication Wire.symbolic :=
  .message (List.replicate 32 1) (List.replicate 32 2) "hi"
    (.ciphertext (.str "hi") (List.replicate 32 2) 0) none 10

/-- It is deposited alike on both paths. -/
theorem paths_agree_messageOfAnn : PathsAgree messageOfAnn :=
  (paths_agree_iff Wire.symbolic_lawful Cipher.opaque_symbolic messageOfAnn
    ⟨List.replicate 32 2, (0 : ℕ), rfl⟩).mpr rfl

/-- A DHT storage without records. -/
def emptyDht : DhtStorage Wire.symbolic := ⟨.empty, 1000, DhtStorage.defaultMaxRecordSize⟩

/-- Ann's connection request to Ben. -/
def requestOfAnn : Publication Wire.symbolic :=
  .request (List.replicate 32 1) (List.replicate 32 2) none 10

/-- The request reaches Ben over gossip, and never over the DHT. -/
theorem paths_differ_requestOfAnn :
    ¬PathsAgree requestOfAnn ∧
      ∃ dht', emptyDht.put requestOfAnn.record 10 = .ok dht' ∧
        (retrieveDhtDeadDrops MetadataDb.empty dht' (List.replicate 32 2) 20).1.connections.get?
          (List.replicate 32 2, List.replicate 32 1) = none ∧
        (ingestPayload MetadataDb.empty (Wire.symbolic.envelopeToVec requestOfAnn.envelope)
          (some (List.replicate 32 2)) 20).1.connections.get?
          (List.replicate 32 2, List.replicate 32 1) ≠ none := by
  constructor
  · intro h
    exact h.decoded rfl
  · exact ⟨_, rfl, by decide +kernel, by decide +kernel⟩

end Publication
