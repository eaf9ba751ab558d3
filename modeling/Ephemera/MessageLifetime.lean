/-
# How long a stored message lives

Three entry points compute an expiry from 64-bit values that a peer or a caller chooses:
`receive_message` adds the timestamp and the TTL of an envelope, `MessageService::send` adds
the TTL it is given to the clock, and `deposit_raw` takes over the expiry of a dead drop.
Only the last one clamps.  The derived `Deserialize` of `Ttl` admits values its constructor
rejects, so the sums and the casts to `i64` of the first two are unchecked.

`bounded_iff_inBounds` says exactly when what is stored expires within thirty days (fourteen
for dead drops) and nothing has overflowed on the way.
-/
import Ephemera.DeadDropId
import Ephemera.DirectMessage
import Ephemera.PostIngest

namespace MessageLifetime

open StateExcept Messaging NodeIngest

variable {W : Wire}

/-! ## Sums and casts -/

/-- The sum of two `u64` values does not overflow. -/
def AddFits (a b : UInt64) : Prop := a.toNat + b.toNat < 2 ^ 64

/-- `x as i64` keeps the value. -/
def CastKeeps (x : UInt64) : Prop := x.toInt64.toInt = x.toNat

/-- The sum of two `i64` values does not overflow. -/
def SumFits (a b : Int64) : Prop := (a + b).toInt = a.toInt + b.toInt

theorem castKeeps_iff {x : UInt64} : CastKeeps x ↔ x.toNat < 2 ^ 63 := by
  have hcast : x.toInt64.toInt = x.toBitVec.toInt := rfl
  have hnat : x.toBitVec.toNat = x.toNat := rfl
  have hlt := x.toNat_lt
  rw [CastKeeps, hcast, BitVec.toInt_eq_toNat_cond, hnat]
  split
  · omega
  · omega

/-- A sum of casts is exact when it stays below `2 ^ 63`. -/
theorem sum_of_lt {a b : UInt64} (h : a.toNat + b.toNat < 2 ^ 63) :
    CastKeeps a ∧ CastKeeps b ∧ SumFits a.toInt64 b.toInt64 ∧
      (a.toInt64 + b.toInt64).toInt = a.toNat + b.toNat := by
  have ha : CastKeeps a := castKeeps_iff.mpr (by omega)
  have hb : CastKeeps b := castKeeps_iff.mpr (by omega)
  have hsum : (a.toInt64 + b.toInt64).toInt = a.toNat + b.toNat := by
    rw [Int64.toInt_add, ha, hb, Int.bmod_def]
    split_ifs <;> omega
  exact ⟨ha, hb, hsum.trans (by rw [ha, hb]), hsum⟩

theorem toNat_min_le (a b : UInt64) : (min a b).toNat ≤ b.toNat := by
  show (if a ≤ b then a else b).toNat ≤ b.toNat
  split
  · exact UInt64.le_iff_toNat_le.mp ‹_›
  · exact le_refl _

/-! ## The entry points -/

/-- What stores a message or a dead drop: a sealed message, a dead drop relayed to
`deposit_raw`, a dead-drop envelope from gossip or from the DHT, and a sent message. -/
inductive Op (C : Cipher W) where
  | receiveMessage (envelope : W.Sealed) (ours : IdentityKey) (secret : C.X25519Secret)
  | depositRaw (mailbox messageId : W.Digest) (sealedData : W.Bytes)
      (depositedAt expiresAt : UInt64)
  | ingestEnvelope (envelope : W.Envelope) (ours : Option IdentityKey)
  | depositDhtEnvelope (envelope : W.Envelope) (ours : IdentityKey)
  | send (env : CallEnv W) (target body : String) (ttl : Option UInt64) (entropy : C.Entropy)

variable {C : Cipher W}

/-- The database after an operation at time `now`; one that fails leaves it. -/
def apply (st : NodeState W) (now : UInt64) : Op C → MetadataDb W
  | .receiveMessage envelope ours secret =>
    match receiveMessage C st.db envelope ours secret now with
    | .ok (_, db) => db
    | .error _ => st.db
  | .depositRaw mailbox messageId sealedData depositedAt expiresAt =>
    match depositRaw st.db mailbox messageId sealedData depositedAt expiresAt now with
    | .ok db => db
    | .error _ => st.db
  | .ingestEnvelope envelope ours => (ingestEnvelope st.db envelope ours now).1
  | .depositDhtEnvelope envelope ours => (depositDhtEnvelope st.db envelope ours now).1
  | .send env target body ttl entropy =>
    (SocialService.after
      (DirectMessage.send C { env with now := now } target body ttl entropy) st).db

/-- The sums and casts of an operation at time `now`. -/
def Exact (now : UInt64) : Op C → Prop
  | .receiveMessage envelope _ _ =>
    AddFits envelope.timestamp envelope.ttl ∧ CastKeeps now ∧ CastKeeps envelope.timestamp ∧
      CastKeeps envelope.ttl ∧ SumFits envelope.timestamp.toInt64 envelope.ttl.toInt64
  | .send _ _ _ ttl _ =>
    let ttlSecs := ttl.getD DirectMessage.defaultTtlSecs
    CastKeeps now ∧ CastKeeps ttlSecs ∧ SumFits now.toInt64 ttlSecs.toInt64 ∧
      AddFits now (min ttlSecs deadDropMaxTtlSecs) ∧ AddFits now deadDropMaxTtlSecs
  | _ => AddFits now deadDropMaxTtlSecs

/-- The row is stored under a key that was free. -/
def Stores {K V : Type} [DecidableEq K] (t t' : SqlTable K V) (k : K) (v : V) : Prop :=
  t.get? k = none ∧ t'.get? k = some v

/-- **The bound**: what the operation stores expires within thirty days, fourteen for a dead
drop, and nothing has overflowed or changed its sign on the way. -/
structure Bounded (st : NodeState W) (now : UInt64) (op : Op C) : Prop where
  message : ∀ k row, Stores st.db.messages (apply st now op).messages k row →
    row.expiresAt.toInt ≤ now.toNat + maxTtlSecs.toNat ∧ Exact now op
  deadDrop : ∀ k row, Stores st.db.deadDrops (apply st now op).deadDrops k row →
    row.expiresAt.toNat ≤ now.toNat + deadDropMaxTtlSecs.toNat ∧ CastKeeps row.expiresAt ∧
      Exact now op

/-- **The condition**: a sealed message that is taken and new expires within thirty days, its
timestamp and its TTL added as integers; a message that `send` stores has a TTL of at most
thirty days. -/
def InBounds (st : NodeState W) (now : UInt64) : Op C → Prop
  | .receiveMessage envelope ours secret => ∀ payload, isExpired envelope now = false →
      openEnvelope C envelope secret = .ok payload →
      ¬(isStranger st.db ours payload.sender = true ∧
        isRequestRejected st.db ours payload.sender = true) →
      st.db.messages.get? (W.blake3 envelope.ciphertext) = none →
      envelope.timestamp.toNat + envelope.ttl.toNat ≤ now.toNat + maxTtlSecs.toNat
  | .send env target body ttl entropy => ∀ sealed,
      DirectMessage.sealBody C { env with now := now } target body entropy = .ok sealed →
      st.db.messages.get? (W.blake3 (W.ofStr body)) = none →
      (ttl.getD DirectMessage.defaultTtlSecs).toNat ≤ maxTtlSecs.toNat
  | _ => True

/-! ## What is stored -/

/-- An `INSERT OR IGNORE` stores the row it is given, if the key is free. -/
theorem stores_insertOrIgnore_iff {K V : Type} [DecidableEq K] {t : SqlTable K V} {k k' : K}
    {v v' : V} : Stores t (t.insertOrIgnore k v) k' v' ↔ t.get? k = none ∧ k' = k ∧ v' = v := by
  rw [Stores, SqlTable.get?_insertOrIgnore_eq_some]
  constructor
  · rintro ⟨hnone, hold | ⟨-, rfl, rfl⟩⟩
    · rw [hnone] at hold
      cases hold
    · exact ⟨hnone, rfl, rfl⟩
  · rintro ⟨hnone, rfl, rfl⟩
    exact ⟨hnone, Or.inr ⟨hnone, rfl, rfl⟩⟩

/-- A table that is left alone stores nothing. -/
theorem not_stores_self {K V : Type} [DecidableEq K] {t t' : SqlTable K V} (h : t' = t) {k : K}
    {v : V} : ¬Stores t t' k v := by
  rintro ⟨hnone, hsome⟩
  rw [h, hnone] at hsome
  cases hsome

/-- The clamped expiry. -/
theorem clamp_le {now : UInt64} (hnow : now.toNat < 2 ^ 40) (expiresAt : UInt64) :
    (min expiresAt (now + deadDropMaxTtlSecs)).toNat ≤ now.toNat + deadDropMaxTtlSecs.toNat ∧
      CastKeeps (min expiresAt (now + deadDropMaxTtlSecs)) ∧ AddFits now deadDropMaxTtlSecs := by
  have hmax : deadDropMaxTtlSecs.toNat = 1209600 := rfl
  have hsum : (now + deadDropMaxTtlSecs).toNat = now.toNat + deadDropMaxTtlSecs.toNat := by
    rw [UInt64.toNat_add]
    omega
  have hle : (min expiresAt (now + deadDropMaxTtlSecs)).toNat
      ≤ (now + deadDropMaxTtlSecs).toNat := toNat_min_le _ _
  refine ⟨by omega, castKeeps_iff.mpr (by omega), ?_⟩
  rw [AddFits]
  omega

/-- **Dead drops are bounded**, whatever expiry they come with. -/
theorem deadDrop_of_depositRaw {db db' : MetadataDb W} {mailbox messageId : W.Digest}
    {sealedData : W.Bytes} {depositedAt expiresAt now : UInt64} (hnow : now.toNat < 2 ^ 40)
    (h : depositRaw db mailbox messageId sealedData depositedAt expiresAt now = .ok db')
    {k : W.Digest} {row : DeadDropRow W} (hstored : Stores db.deadDrops db'.deadDrops k row) :
    row.expiresAt.toNat ≤ now.toNat + deadDropMaxTtlSecs.toNat ∧ CastKeeps row.expiresAt ∧
      AddFits now deadDropMaxTtlSecs := by
  obtain ⟨-, -, rfl⟩ := depositRaw_eq_ok.mp h
  obtain ⟨-, -, rfl⟩ := stores_insertOrIgnore_iff.mp hstored
  exact clamp_le hnow expiresAt

/-! ## Sealed messages -/

variable {st : NodeState W} {now : UInt64}

/-- What the bound says of an operation that leaves the dead drops alone. -/
theorem bounded_iff_message {op : Op C}
    (hdrops : (apply st now op).deadDrops = st.db.deadDrops) :
    Bounded st now op ↔
      ∀ k row, Stores st.db.messages (apply st now op).messages k row →
        row.expiresAt.toInt ≤ now.toNat + maxTtlSecs.toNat ∧ Exact now op :=
  ⟨Bounded.message, fun h => ⟨h, fun _ _ hstored => absurd hstored (not_stores_self hdrops)⟩⟩

/-- What it says of one that leaves the messages alone. -/
theorem bounded_iff_deadDrop {op : Op C} (hmsg : (apply st now op).messages = st.db.messages) :
    Bounded st now op ↔
      ∀ k row, Stores st.db.deadDrops (apply st now op).deadDrops k row →
        row.expiresAt.toNat ≤ now.toNat + deadDropMaxTtlSecs.toNat ∧ CastKeeps row.expiresAt ∧
          Exact now op :=
  ⟨Bounded.deadDrop, fun h => ⟨fun _ _ hstored => absurd hstored (not_stores_self hmsg), h⟩⟩

/-- An operation that changes nothing is within the bound. -/
theorem bounded_of_unchanged {op : Op C} (hdb : apply st now op = st.db) : Bounded st now op := by
  refine (bounded_iff_message (congrArg MetadataDb.deadDrops hdb)).mpr ?_
  intro k row hstored
  exact absurd hstored (not_stores_self (congrArg MetadataDb.messages hdb))

/-- The expiry of a sealed message is within the bound, and computed without an overflow,
exactly when its timestamp and its TTL add up to no more than the bound. -/
theorem received_iff (hnow : now.toNat < 2 ^ 40) (envelope : W.Sealed)
    (ours : IdentityKey) (secret : C.X25519Secret) :
    ((envelope.timestamp.toInt64 + envelope.ttl.toInt64).toInt ≤ now.toNat + maxTtlSecs.toNat ∧
      Exact now (Op.receiveMessage envelope ours secret)) ↔
    envelope.timestamp.toNat + envelope.ttl.toNat ≤ now.toNat + maxTtlSecs.toNat := by
  have hmax : maxTtlSecs.toNat = 2592000 := rfl
  constructor
  · rintro ⟨hle, -, -, hts, httl, hsum⟩
    rw [hsum, hts, httl] at hle
    exact_mod_cast hle
  · intro hle
    obtain ⟨hts, httl, hsum, hval⟩ :=
      sum_of_lt (a := envelope.timestamp) (b := envelope.ttl) (by omega)
    refine ⟨by rw [hval]; exact_mod_cast hle, ?_, castKeeps_iff.mpr (by omega), hts, httl, hsum⟩
    rw [AddFits]
    omega

theorem bounded_receiveMessage_iff (hnow : now.toNat < 2 ^ 40) (envelope : W.Sealed)
    (ours : IdentityKey) (secret : C.X25519Secret) :
    Bounded st now (Op.receiveMessage envelope ours secret) ↔
      InBounds st now (Op.receiveMessage envelope ours secret) := by
  by_cases htaken : ∃ payload, isExpired envelope now = false ∧
      openEnvelope C envelope secret = .ok payload ∧
      ¬(isStranger st.db ours payload.sender = true ∧
        isRequestRejected st.db ours payload.sender = true)
  · obtain ⟨payload, hlive, hopen, hstranger⟩ := htaken
    have hdb : apply st now (Op.receiveMessage envelope ours secret)
        = storeReceived st.db envelope payload ours (isStranger st.db ours payload.sender) now := by
      rw [apply, receiveMessage_eq_ok_iff.mpr ⟨hlive, hopen, hstranger, rfl⟩]
    have hmsg : (apply st now (Op.receiveMessage envelope ours secret)).messages
        = st.db.messages.insertOrIgnore (W.blake3 envelope.ciphertext)
            (receivedRow envelope payload ours now) := by
      rw [hdb, (tables_storeReceived st.db envelope payload ours _ now).2]
      rfl
    have hdrops : (apply st now (Op.receiveMessage envelope ours secret)).deadDrops
        = st.db.deadDrops := by
      rw [hdb]
      cases isStranger st.db ours payload.sender with
      | false => rfl
      | true => rfl
    rw [bounded_iff_message hdrops, hmsg]
    simp only [stores_insertOrIgnore_iff]
    constructor
    · intro h payload' _ _ _ hnew
      have hrow := h (W.blake3 envelope.ciphertext) (receivedRow envelope payload ours now)
        ⟨hnew, rfl, rfl⟩
      exact (received_iff hnow envelope ours secret).mp hrow
    · rintro h k row ⟨hnew, rfl, rfl⟩
      exact (received_iff hnow envelope ours secret).mpr (h payload hlive hopen hstranger hnew)
  · have hdb : apply st now (Op.receiveMessage envelope ours secret) = st.db := by
      rw [apply]
      split
      · rename_i payload db heq
        obtain ⟨hlive, hopen, hstranger, -⟩ := receiveMessage_eq_ok_iff.mp heq
        exact absurd ⟨payload, hlive, hopen, hstranger⟩ htaken
      · rfl
    refine iff_of_true (bounded_of_unchanged hdb) ?_
    intro payload hlive hopen hstranger _
    exact absurd ⟨payload, hlive, hopen, hstranger⟩ htaken

/-! ## Dead drops -/

theorem bounded_depositRaw (hnow : now.toNat < 2 ^ 40) (mailbox messageId : W.Digest)
    (sealedData : W.Bytes) (depositedAt expiresAt : UInt64) :
    Bounded st now (Op.depositRaw mailbox messageId sealedData depositedAt expiresAt : Op C) := by
  cases hdep : depositRaw st.db mailbox messageId sealedData depositedAt expiresAt now with
  | error e =>
    refine bounded_of_unchanged ?_
    rw [apply, hdep]
  | ok db =>
    have hdb : apply st now
        (Op.depositRaw mailbox messageId sealedData depositedAt expiresAt : Op C)
        = db := by
      rw [apply, hdep]
    refine (bounded_iff_deadDrop ?_).mpr ?_
    · rw [hdb, sameButDrops_depositRaw hdep]
    · rw [hdb]
      exact fun _ _ hstored => deadDrop_of_depositRaw hnow hdep hstored

theorem bounded_ingestEnvelope (hnow : now.toNat < 2 ^ 40) (envelope : W.Envelope)
    (ours : Option IdentityKey) : Bounded st now (Op.ingestEnvelope envelope ours : Op C) := by
  by_cases hdep : Depositable envelope now
  · -- looking into the envelope touches neither table
    have htables : (ingestEnvelope st.db envelope ours now).1.messages = st.db.messages ∧
        (ingestEnvelope st.db envelope ours now).1.deadDrops
          = (deposited st.db envelope now).deadDrops := by
      rw [ingestEnvelope_of_depositable hdep]
      cases ours with
      | none => exact ⟨rfl, rfl⟩
      | some ours =>
        simp only
        split
        · exact ⟨(threads_ingestForUs _ envelope ours now).1,
            DeadDropId.deadDrops_ingestForUs _ envelope ours now⟩
        · exact ⟨rfl, rfl⟩
    have hmsg : (apply st now (Op.ingestEnvelope envelope ours : Op C)).messages
        = st.db.messages := htables.1
    refine (bounded_iff_deadDrop hmsg).mpr ?_
    intro k row hstored
    rw [apply, htables.2] at hstored
    obtain ⟨-, -, rfl⟩ := stores_insertOrIgnore_iff.mp hstored
    exact clamp_le hnow envelope.expiresAt
  · refine bounded_of_unchanged ?_
    rw [apply, ingestEnvelope_of_not_depositable hdep]

theorem bounded_depositDhtEnvelope (hnow : now.toNat < 2 ^ 40) (envelope : W.Envelope)
    (ours : IdentityKey) : Bounded st now (Op.depositDhtEnvelope envelope ours : Op C) := by
  cases hdep : depositRaw st.db (mailboxKey ours) envelope.messageId envelope.sealedData
      envelope.depositedAt envelope.expiresAt now with
  | error e =>
    refine bounded_of_unchanged ?_
    rw [apply, depositDhtEnvelope, hdep]
  | ok db =>
    have hdb : apply st now (Op.depositDhtEnvelope envelope ours : Op C) = db := by
      rw [apply, depositDhtEnvelope, hdep]
    refine (bounded_iff_deadDrop ?_).mpr ?_
    · rw [hdb, sameButDrops_depositRaw hdep]
    · rw [hdb]
      exact fun _ _ hstored => deadDrop_of_depositRaw hnow hdep hstored

/-! ## Sent messages -/

/-- The same for the expiry of a message that is sent, which starts at `now`. -/
theorem sent_iff (hnow : now.toNat < 2 ^ 40) (env : CallEnv W) (target body : String)
    (ttl : Option UInt64) (entropy : C.Entropy) :
    ((now.toInt64 + (ttl.getD DirectMessage.defaultTtlSecs).toInt64).toInt
        ≤ now.toNat + maxTtlSecs.toNat ∧ Exact now (Op.send env target body ttl entropy)) ↔
    (ttl.getD DirectMessage.defaultTtlSecs).toNat ≤ maxTtlSecs.toNat := by
  have hmax : maxTtlSecs.toNat = 2592000 := rfl
  constructor
  · rintro ⟨hle, hcast, httl, hsum, -⟩
    rw [hsum, hcast, httl] at hle
    omega
  · intro hle
    obtain ⟨hcast, httl, hsum, hval⟩ :=
      sum_of_lt (a := now) (b := ttl.getD DirectMessage.defaultTtlSecs) (by omega)
    have hdrop : deadDropMaxTtlSecs.toNat = 1209600 := rfl
    refine ⟨by rw [hval]; omega, hcast, httl, hsum, ?_, (clamp_le hnow 0).2.2⟩
    have hmin : (min (ttl.getD DirectMessage.defaultTtlSecs) deadDropMaxTtlSecs).toNat
        ≤ deadDropMaxTtlSecs.toNat := toNat_min_le _ _
    rw [AddFits]
    omega

/-- The dead drop of a sent message. -/
theorem deadDrop_of_sentDb (hnow : now.toNat < 2 ^ 40) {db : MetadataDb W}
    {p : DirectMessage.Prepared W}
    {body : String} {ttl : Option UInt64} {k : W.Digest} {row : DeadDropRow W}
    (hstored : Stores db.deadDrops (DirectMessage.sentDb db p body ttl now).deadDrops k row) :
    row.expiresAt.toNat ≤ now.toNat + deadDropMaxTtlSecs.toNat ∧ CastKeeps row.expiresAt := by
  unfold DirectMessage.sentDb DirectMessage.depositSent at hstored
  dsimp only at hstored
  split at hstored
  · rename_i db' hdep
    obtain ⟨hle, hcast, -⟩ := deadDrop_of_depositRaw hnow hdep hstored
    exact ⟨hle, hcast⟩
  · exact absurd hstored (not_stores_self rfl)

theorem bounded_send_iff (hnow : now.toNat < 2 ^ 40) (env : CallEnv W) (target body : String)
    (ttl : Option UInt64) (entropy : C.Entropy) :
    Bounded st now (Op.send env target body ttl entropy) ↔
      InBounds st now (Op.send env target body ttl entropy) := by
  cases hseal : DirectMessage.sealBody C { env with now := now } target body entropy with
  | error e =>
    refine iff_of_true (bounded_of_unchanged ?_) ?_
    · rw [apply, DirectMessage.after_send_of_error hseal]
    · intro sealed hok
      rw [hseal] at hok
      cases hok
  | ok sealed =>
    obtain ⟨loc, recipient, encryptedBody⟩ := sealed
    by_cases hnew : st.db.messages.get? (W.blake3 (W.ofStr body)) = none
    · have hdb : apply st now (Op.send env target body ttl entropy)
          = DirectMessage.sentDb st.db
              (DirectMessage.preparedOf loc recipient body encryptedBody ttl) body ttl now := by
        rw [apply, DirectMessage.after_send_of_new hseal ttl hnew,
          DirectMessage.db_afterHandOut]
      have hmsg : (apply st now (Op.send env target body ttl entropy)).messages
          = st.db.messages.insertOrIgnore (W.blake3 (W.ofStr body))
              (DirectMessage.sentRow loc (computeConversationId loc recipient) body encryptedBody
                (ttl.getD DirectMessage.defaultTtlSecs) now) := by
        rw [hdb, DirectMessage.messages_sentDb]
        rfl
      constructor
      · intro h _ _ _
        have hstored := h.message (W.blake3 (W.ofStr body))
          (DirectMessage.sentRow loc (computeConversationId loc recipient) body encryptedBody
            (ttl.getD DirectMessage.defaultTtlSecs) now)
        rw [hmsg, stores_insertOrIgnore_iff] at hstored
        exact (sent_iff hnow env target body ttl entropy).mp (hstored ⟨hnew, rfl, rfl⟩)
      · intro h
        have hrow := (sent_iff hnow env target body ttl entropy).mpr (h _ hseal hnew)
        refine ⟨?_, ?_⟩
        · intro k row hstored
          rw [hmsg] at hstored
          obtain ⟨-, -, rfl⟩ := stores_insertOrIgnore_iff.mp hstored
          exact hrow
        · intro k row hstored
          rw [hdb] at hstored
          obtain ⟨hle, hcast⟩ := deadDrop_of_sentDb hnow hstored
          exact ⟨hle, hcast, hrow.2⟩
    · -- the id is taken: only the conversation is made
      refine iff_of_true ?_ ?_
      · have hdb : apply st now (Op.send env target body ttl entropy)
            = (getOrCreateConversation st.db loc recipient false now).2 := by
          rw [apply, DirectMessage.after_send_of_taken hseal ttl hnew]
        refine (bounded_iff_message (by rw [hdb]; rfl)).mpr ?_
        intro k row hstored
        exact absurd hstored (not_stores_self (by rw [hdb]; rfl))
      · intro _ _ hfree
        exact absurd hfree hnew

/-! ## The main result -/

/-- **Exactly when lifetimes are bounded.**  For every state and every time below `2 ^ 40`, what
an operation stores is within the bound, computed without an overflow, if and only if the
values it is given are. -/
theorem bounded_iff_inBounds (st : NodeState W) (now : UInt64) (hnow : now.toNat < 2 ^ 40)
    (op : Op C) : Bounded st now op ↔ InBounds st now op := by
  cases op with
  | receiveMessage envelope ours secret =>
    exact bounded_receiveMessage_iff hnow envelope ours secret
  | depositRaw mailbox messageId sealedData depositedAt expiresAt =>
    exact iff_of_true (bounded_depositRaw hnow _ _ _ _ _) trivial
  | ingestEnvelope envelope ours => exact iff_of_true (bounded_ingestEnvelope hnow _ _) trivial
  | depositDhtEnvelope envelope ours =>
    exact iff_of_true (bounded_depositDhtEnvelope hnow _ _) trivial
  | send env target body ttl entropy => exact bounded_send_iff hnow env target body ttl entropy

/-- The owner of an empty node and a correspondent, for the examples. -/
def owner : IdentityKey := List.replicate 32 1

def correspondent : IdentityKey := List.replicate 32 2

/-- A node that has stored nothing yet. -/
def emptyNode : NodeState Wire.symbolic :=
  ⟨.empty, ⟨.empty, 1000, DhtStorage.defaultMaxRecordSize⟩, [], []⟩

/-- A message for the owner with the timestamp and the TTL its sender chose. -/
def sealedWith (timestamp ttl : UInt64) : Wire.symbolic.Sealed where
  recipient := owner
  ciphertext := .ciphertext (.raw (correspondent ++ [104, 105])) owner 0
  timestamp := timestamp
  ttl := ttl

/-- The message arrives. -/
def arrives (timestamp ttl : UInt64) : Op Cipher.symbolic :=
  .receiveMessage (sealedWith timestamp ttl) owner owner

/-- A message that lives for a day from the time it arrives is within the bound. -/
theorem bounded_iff_inBounds_day :
    (1000 : UInt64).toNat < 2 ^ 40 ∧
      (Bounded emptyNode 1000 (arrives 1000 86400) ↔
        InBounds emptyNode 1000 (arrives 1000 86400)) :=
  ⟨by decide, bounded_iff_inBounds emptyNode 1000 (by decide) (arrives 1000 86400)⟩

/-- The message is stored whatever its sender chose, as long as it counts as in time. -/
theorem not_bounded_arrives {timestamp ttl : UInt64}
    (hlive : isExpired (sealedWith timestamp ttl) 1000 = false)
    (hlong : ¬timestamp.toNat + ttl.toNat ≤ 1000 + maxTtlSecs.toNat) :
    ¬Bounded emptyNode 1000 (arrives timestamp ttl) := by
  intro h
  have hopen : openEnvelope Cipher.symbolic (sealedWith timestamp ttl) owner
      = .ok ⟨correspondent, .raw [104, 105]⟩ := rfl
  exact hlong ((bounded_receiveMessage_iff (by decide) _ _ _).mp h _ hlive hopen (by decide) rfl)

/-- **Unbounded lifetimes.**  At time 1000 a message with a TTL of four million seconds is stored
for all of them, and one whose timestamp does not fit `i64` is stored with an expiry before
its arrival, although it counts as in time. -/
theorem unbounded_lifetimes :
    ¬Bounded emptyNode 1000 (arrives 1000 4000000) ∧
      ¬Bounded emptyNode 1000 (arrives 0x8000000000000000 0) := by
  constructor
  · exact not_bounded_arrives (by decide) (by decide)
  · exact not_bounded_arrives (by decide) (by decide)

end MessageLifetime
