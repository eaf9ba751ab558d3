/-
# Direct messages from end to end

One node sends, and what it publishes reaches the ingest of the other in any order, each
payload once or more.  A body reaches the thread of the recipient by the plaintext message:
the recipient stores its first 100 characters under a hash of sender, body and time.

`Carries` is the condition on a send under which its body comes through: it has at most 100
characters, it was not sent before, and the target is given as the recipient's own node
writes it.
-/
import Ephemera.NodeOp

namespace MessageFidelity

open SocialService NodeState NodeIngest DirectMessage Messaging GuardedRun NodeOp

variable {W : Wire} {C : Cipher W}

/-! ## The system -/

/-- The node of the sender, the database of the recipient, what was sent when, and which
payloads have been delivered. -/
structure Exchange (W : Wire) where
  sender : NodeState W
  recipient : MetadataDb W
  sent : List (String × UInt64)
  delivered : List ℕ

/-- A message is sent, or a published payload is delivered. -/
inductive ExchangeAction {W : Wire} (C : Cipher W) where
  | send (env : CallEnv W) (target body : String) (ttl : Option UInt64) (entropy : C.Entropy)
  | deliver (index : ℕ) (now : UInt64)

namespace Exchange

/-- Both nodes have just been set up. -/
def initial : Exchange W := ⟨NodeOp.fresh, MetadataDb.empty, [], []⟩

/-- One step, from the node of `source` to the node of `dest`. -/
def step (source dest : IdentityKey) (s : Exchange W) : ExchangeAction C → Exchange W
  | .send env target body ttl entropy =>
    { s with
      sender := after (DirectMessage.send C { env with identity := .ok source } target body ttl
        entropy) s.sender
      sent := s.sent ++ [(body, env.now)] }
  | .deliver index now =>
    match s.sender.published[index]? with
    | some payload =>
      { s with
        recipient := (ingestPayload s.recipient payload (some dest) now).1
        delivered := s.delivered ++ [index] }
    | none => s

/-- Every published payload has been delivered. -/
def Complete (s : Exchange W) : Prop := ∀ i < s.sender.published.length, i ∈ s.delivered

end Exchange

/-- How often a thread shows a body. -/
def shows (items : List (ThreadItem W)) (body : String) : ℕ :=
  items.countP (fun item => decide (item.body = some body))

/-- What a send needs for its body to come through. -/
structure Carries (C : Cipher W) (source dest : IdentityKey) (st : NodeState W) (env : CallEnv W)
    (target body : String) (entropy : C.Entropy) : Prop where
  /-- The node has a network, and the body can be sealed for the recipient. -/
  online : env.network.isSome = true
  sealable : ∃ encryptedBody, sealBody C { env with identity := .ok source } target body entropy
    = .ok (source, dest, encryptedBody)
  /-- The message fits the wire. -/
  fits : ¬maxEnvelopeSize < W.len (W.jsonToVec (plaintextMessage source target body env.now))
  /-- The target is the text the recipient compares with. -/
  target_eq : target = Hex.encode dest
  /-- The body is not cut. -/
  short : body.toList.length ≤ previewChars
  /-- The body was not sent before. -/
  new : st.db.messages.get? (W.blake3 (W.ofStr body)) = none
  /-- The time is one that `get_messages` shows. -/
  clock : env.now.toInt64 < Int64.maxValue

/-- Every send carries its body. -/
def Carrying (source dest : IdentityKey) (s : Exchange W) : ExchangeAction C → Prop
  | .send env target body _ entropy => Carries C source dest s.sender env target body entropy
  | .deliver _ _ => True

/-! ## The invariant -/

variable {source dest : IdentityKey} {s : Exchange W}

/-- The payload that carries a body. -/
def carrier (source dest : IdentityKey) (m : String × UInt64) : W.Bytes :=
  W.jsonToVec (plaintextMessage source (Hex.encode dest) m.1 m.2)

/-- The id under which the recipient stores a body. -/
def arrivalId (source : IdentityKey) (m : String × UInt64) : W.Digest :=
  plaintextId (Hex.encode source) m.1 m.2

/-- A body that comes through: it fits the wire and the preview, at a time that is shown. -/
structure Deliverable (source dest : IdentityKey) (W : Wire) (m : String × UInt64) : Prop where
  fits : ¬maxEnvelopeSize < W.len (carrier source dest m)
  short : m.1.toList.length ≤ previewChars
  clock : m.2.toInt64 < Int64.maxValue

/-- What the sender has done: each body went out once, in its carrier, and what else went out
are envelopes. -/
structure Posted (source dest : IdentityKey) (s : Exchange W) : Prop where
  deliverable : ∀ m ∈ s.sent, Deliverable source dest W m
  taken : ∀ m ∈ s.sent, s.sender.db.messages.get? (W.blake3 (W.ofStr m.1)) ≠ none
  nodup : (s.sent.map Prod.fst).Nodup
  carried : ∀ m ∈ s.sent, carrier source dest m ∈ s.sender.published
  wire : ∀ bytes ∈ s.sender.published, (∃ m ∈ s.sent, bytes = carrier source dest m) ∨
    ∃ envelope, bytes = W.envelopeToVec envelope

/-- What the recipient has: a row for each carrier that was delivered, and no other. -/
structure Stored (source dest : IdentityKey) (s : Exchange W) : Prop where
  rows : ∀ id row, s.recipient.messages.get? id = some row → ∃ m ∈ s.sent, ∃ now,
    id = arrivalId source m ∧ row = plaintextRow dest source m.1 m.2 now
  bound : ∀ i ∈ s.delivered, i < s.sender.published.length
  arrived : ∀ i ∈ s.delivered, ∀ m ∈ s.sent, s.sender.published[i]? = some (carrier source dest m) →
    s.recipient.messages.get? (arrivalId source m) ≠ none

/-- Where the bodies that were sent are. -/
structure Tracked (source dest : IdentityKey) (s : Exchange W) : Prop where
  posted : Posted source dest s
  stored : Stored source dest s

theorem tracked_initial (source dest : IdentityKey) :
    Tracked source dest (Exchange.initial : Exchange W) := by
  refine ⟨⟨fun _ h => ?_, fun _ h => ?_, List.nodup_nil, fun _ h => ?_, fun _ h => ?_⟩,
    ⟨fun _ _ h => ?_, fun _ h => ?_, fun _ h => ?_⟩⟩
  · cases h
  · cases h
  · cases h
  · cases h
  · cases h
  · cases h
  · cases h

/-- Different bodies travel in different carriers. -/
theorem carrier_injective (hW : W.Lawful) {m m' : String × UInt64}
    (h : (carrier source dest m : W.Bytes) = carrier source dest m') : m = m' := by
  obtain ⟨json, hjson, hget⟩ := directMessage?_plaintextMessage hW source (Hex.encode dest) m.1 m.2
  obtain ⟨json', hjson', hget'⟩ :=
    directMessage?_plaintextMessage hW source (Hex.encode dest) m'.1 m'.2
  have hsame : json' = json := by
    rw [carrier, carrier] at h
    rw [h, hjson', Option.some.injEq] at hjson
    exact hjson
  have hfield : ∀ field, (plaintextMessage source (Hex.encode dest) m.1 m.2).get field
      = (plaintextMessage source (Hex.encode dest) m'.1 m'.2).get field := by
    intro field
    rw [← hget, ← hget', hsame]
  have hbody : m.1 = m'.1 := JsonField.str.inj (Option.some.inj (hfield "body"))
  have htime : m.2 = m'.2 := JsonField.uint.inj (Option.some.inj (hfield "timestamp"))
  exact Prod.ext hbody htime

/-- The carrier of a body is read as a plaintext message to the recipient. -/
theorem directMessageFor_carrier (hW : W.Lawful) (hsource : source.length = identityKeyLen)
    {m : String × UInt64} (hm : Deliverable source dest W m) (now : UInt64) :
    DirectMessageFor (carrier source dest m : W.Bytes) dest now source
      (Hex.encode source) m.1 m.2 := by
  obtain ⟨json, hjson, hget⟩ := directMessage?_plaintextMessage hW source (Hex.encode dest) m.1 m.2
  refine ⟨hm.fits, ⟨json, hjson, ?_, ?_, ?_, ?_⟩, decodeKey_encode hsource⟩
  · rw [Json.getStr, hget]
    rfl
  · rw [Json.getStr, hget]
    rfl
  · rw [Json.getStr, hget]
    rfl
  · rw [hget]
    rfl

/-- What a send that carries its body does. -/
theorem send_of_carries {st : NodeState W} {env : CallEnv W} {target body : String}
    (ttl : Option UInt64) {entropy : C.Entropy}
    (h : Carries C source dest st env target body entropy) :
    (∃ envelope, (after (DirectMessage.send C { env with identity := .ok source } target body ttl
        entropy) st).published
      = st.published ++ [carrier source dest (body, env.now), W.envelopeToVec envelope]) ∧
    ∃ row, (after (DirectMessage.send C { env with identity := .ok source } target body ttl
        entropy) st).db.messages
      = st.db.messages.insertOrIgnore (W.blake3 (W.ofStr body)) row := by
  obtain ⟨encryptedBody, hseal⟩ := h.sealable
  rw [after_send_of_new hseal ttl h.new]
  constructor
  · refine ⟨sentEnvelope (preparedOf source dest body encryptedBody ttl) env.now, ?_⟩
    rw [published_afterHandOut, if_pos h.online, h.target_eq]
    rfl
  · refine ⟨sentRow source (computeConversationId source dest) body encryptedBody
      (ttl.getD defaultTtlSecs) env.now, ?_⟩
    rw [db_afterHandOut, messages_sentDb]
    rfl

/-- An envelope carries no body. -/
theorem carrier_ne_envelope (hW : W.Lawful) (m : String × UInt64) (envelope : W.Envelope) :
    (carrier source dest m : W.Bytes) ≠ W.envelopeToVec envelope := by
  intro h
  obtain ⟨json, hjson, -⟩ := directMessage?_plaintextMessage hW source (Hex.encode dest) m.1 m.2
  rw [carrier] at h
  rw [h, directMessage?_envelope hW] at hjson
  cases hjson

/-- A body that can be sent has not been sent before. -/
theorem Posted.body_new (h : Posted source dest s) {env : CallEnv W} {target body : String}
    {entropy : C.Entropy} (hc : Carries C source dest s.sender env target body entropy) :
    body ∉ s.sent.map Prod.fst := by
  intro hmem
  obtain ⟨m, hm, rfl⟩ := List.mem_map.mp hmem
  exact h.taken m hm hc.new

theorem mem_sent_append {sent : List (String × UInt64)} {m new : String × UInt64} :
    m ∈ sent ++ [new] ↔ m ∈ sent ∨ m = new := by
  rw [List.mem_append, List.mem_singleton]

theorem posted_send (h : Posted source dest s) {env : CallEnv W} {target body : String}
    (ttl : Option UInt64) {entropy : C.Entropy}
    (hc : Carries C source dest s.sender env target body entropy) :
    Posted source dest
      (s.step source dest (.send env target body ttl entropy : ExchangeAction C)) := by
  obtain ⟨⟨envelope, hpub⟩, row, hmsgs⟩ := send_of_carries ttl hc
  constructor
  · intro m hm
    rcases mem_sent_append.mp hm with hm | rfl
    · exact h.deliverable m hm
    · exact ⟨by rw [carrier, ← hc.target_eq]; exact hc.fits, hc.short, hc.clock⟩
  · intro m hm
    show (after _ s.sender).db.messages.get? _ ≠ none
    rw [hmsgs, SqlTable.get?_insertOrIgnore]
    split
    · exact Option.some_ne_none _
    · rename_i hother
      rcases mem_sent_append.mp hm with hm | rfl
      · exact h.taken m hm
      · exact absurd rfl hother
  · show ((s.sent ++ [(body, env.now)]).map Prod.fst).Nodup
    rw [List.map_append, List.nodup_append]
    refine ⟨h.nodup, List.nodup_singleton _, ?_⟩
    rintro a ha b hb rfl
    rw [List.map_singleton, List.mem_singleton] at hb
    rw [hb] at ha
    exact h.body_new hc ha
  · intro m hm
    show _ ∈ (after _ s.sender).published
    rw [hpub, List.mem_append]
    rcases mem_sent_append.mp hm with hm | rfl
    · exact Or.inl (h.carried m hm)
    · exact Or.inr (List.mem_cons_self ..)
  · intro bytes hbytes
    have hbytes : bytes ∈ (after _ s.sender).published := hbytes
    rw [hpub, List.mem_append] at hbytes
    rcases hbytes with hbytes | hbytes
    · rcases h.wire bytes hbytes with ⟨m, hm, rfl⟩ | henv
      · exact Or.inl ⟨m, mem_sent_append.mpr (Or.inl hm), rfl⟩
      · exact Or.inr henv
    · rcases List.mem_pair.mp hbytes with rfl | rfl
      · exact Or.inl ⟨_, mem_sent_append.mpr (Or.inr rfl), rfl⟩
      · exact Or.inr ⟨envelope, rfl⟩

theorem stored_send (hW : W.Lawful) (h : Tracked source dest s) {env : CallEnv W}
    {target body : String} (ttl : Option UInt64) {entropy : C.Entropy}
    (hc : Carries C source dest s.sender env target body entropy) :
    Stored source dest
      (s.step source dest (.send env target body ttl entropy : ExchangeAction C)) := by
  obtain ⟨⟨envelope, hpub⟩, -⟩ := send_of_carries ttl hc
  constructor
  · intro id row hrow
    obtain ⟨m, hm, now, hid, hrow⟩ := h.stored.rows id row hrow
    exact ⟨m, mem_sent_append.mpr (Or.inl hm), now, hid, hrow⟩
  · intro i hi
    show i < (after _ s.sender).published.length
    rw [hpub, List.length_append]
    exact Nat.lt_add_right _ (h.stored.bound i hi)
  · intro i hi m hm hget
    have hget : (after _ s.sender).published[i]? = _ := hget
    rw [hpub, List.getElem?_append_left (h.stored.bound i hi)] at hget
    rcases mem_sent_append.mp hm with hm | rfl
    · exact h.stored.arrived i hi m hm hget
    · -- a carrier that was published before carries a body that was sent before
      exfalso
      rcases h.posted.wire _ (List.mem_of_getElem? hget) with ⟨m', hm', heq⟩ | ⟨e, heq⟩
      · rw [← carrier_injective hW heq] at hm'
        exact h.posted.body_new hc (List.mem_map.mpr ⟨_, hm', rfl⟩)
      · exact carrier_ne_envelope hW _ _ heq

/-- A delivery that adds at most the row of a carrier keeps the table, if it adds the row of
the carrier it delivers. -/
theorem Stored.deliver (h : Stored source dest s) {index : ℕ} {db : MetadataDb W}
    (hindex : index < s.sender.published.length)
    (hrows : ∀ id row, db.messages.get? id = some row → s.recipient.messages.get? id = some row ∨
      ∃ m ∈ s.sent, ∃ now, id = arrivalId source m ∧ row = plaintextRow dest source m.1 m.2 now)
    (hkept : ∀ id, s.recipient.messages.get? id ≠ none → db.messages.get? id ≠ none)
    (hnew : ∀ m ∈ s.sent, s.sender.published[index]? = some (carrier source dest m) →
      db.messages.get? (arrivalId source m) ≠ none) :
    Stored source dest { s with recipient := db, delivered := s.delivered ++ [index] } := by
  refine ⟨fun id row hrow => ?_, fun i hi => ?_, fun i hi m hm hget => ?_⟩
  · rcases hrows id row hrow with hold | hadded
    · exact h.rows id row hold
    · exact hadded
  · rcases List.mem_append.mp hi with hi | hi
    · exact h.bound i hi
    · rw [List.mem_singleton.mp hi]
      exact hindex
  · rcases List.mem_append.mp hi with hi | hi
    · exact hkept _ (h.arrived i hi m hm hget)
    · rw [List.mem_singleton.mp hi] at hget
      exact hnew m hm hget

/-- Whatever is delivered is a carrier, which the recipient stores, or an envelope, which
leaves its messages alone. -/
theorem stored_deliver (hW : W.Lawful) (hsource : source.length = identityKeyLen)
    (h : Tracked source dest s) {index : ℕ} {payload : W.Bytes} (now : UInt64)
    (hget : s.sender.published[index]? = some payload) :
    Stored source dest
      { s with
        recipient := (ingestPayload s.recipient payload (some dest) now).1
        delivered := s.delivered ++ [index] } := by
  have hindex := (List.getElem?_eq_some_iff.mp hget).1
  rcases h.posted.wire payload (List.mem_of_getElem? hget) with ⟨m, hm, rfl⟩ | ⟨envelope, rfl⟩
  · have hread := directMessageFor_carrier hW hsource (h.posted.deliverable m hm) now
    have hmsgs := messages_storePlaintext s.recipient dest source (Hex.encode source) m.1 m.2 now
    rw [← hread.ingestPayload_eq] at hmsgs
    refine h.stored.deliver hindex (fun id row hrow => ?_) (fun id hid => ?_) (fun m' _ hget' => ?_)
    · rw [hmsgs, SqlTable.get?_insertOrIgnore_eq_some] at hrow
      rcases hrow with hold | ⟨-, hid, hrow⟩
      · exact Or.inl hold
      · exact Or.inr ⟨m, hm, now, hid, hrow⟩
    · rw [hmsgs, SqlTable.get?_insertOrIgnore]
      split
      · exact Option.some_ne_none _
      · exact hid
    · rw [hget, Option.some.injEq] at hget'
      rw [hmsgs, SqlTable.get?_insertOrIgnore, ← carrier_injective hW hget', arrivalId, if_pos rfl]
      exact Option.some_ne_none _
  · have hmsgs := messages_ingestPayload (directMessage?_envelope hW envelope) s.recipient dest now
    refine h.stored.deliver hindex (fun id row hrow => ?_) (fun id hid => ?_) (fun m' _ hget' => ?_)
    · rw [hmsgs] at hrow
      exact Or.inl hrow
    · rw [hmsgs]
      exact hid
    · rw [hget, Option.some.injEq] at hget'
      exact absurd hget'.symm (carrier_ne_envelope hW _ _)

/-- The invariant survives every step whose send carries its body. -/
theorem tracked_step (hW : W.Lawful) (hsource : source.length = identityKeyLen) (s : Exchange W)
    (a : ExchangeAction C) (h : Tracked source dest s) (ha : Carrying source dest s a) :
    Tracked source dest (s.step source dest a) := by
  cases a with
  | send env target body ttl entropy =>
    exact ⟨posted_send h.posted ttl ha, stored_send hW h ttl ha⟩
  | deliver index now =>
    cases hget : s.sender.published[index]? with
    | some payload =>
      simp only [Exchange.step, hget]
      -- what the sender has done is not about the recipient
      have hposted := h.posted
      exact ⟨⟨hposted.deliverable, hposted.taken, hposted.nodup, hposted.carried, hposted.wire⟩,
        stored_deliver hW hsource h now hget⟩
    | none =>
      simp only [Exchange.step, hget]
      exact h

/-! ## What the thread shows -/

/-- A text that fits the preview is not cut. -/
theorem takeChars_of_short {n : ℕ} {text : String} (h : text.toList.length ≤ n) :
    takeChars n text = text := by
  rw [takeChars, List.take_of_length_le h, String.ofList_toList]

/-- The bodies of a run that has arrived are all in the table. -/
theorem Tracked.arrived_of_complete (h : Tracked source dest s) (hcomplete : s.Complete)
    {m : String × UInt64} (hm : m ∈ s.sent) :
    s.recipient.messages.get? (arrivalId source m) ≠ none := by
  obtain ⟨i, hi⟩ := List.mem_iff_getElem?.mp (h.posted.carried m hm)
  have hlt := (List.getElem?_eq_some_iff.mp hi).1
  exact h.stored.arrived i (hcomplete i hlt) m hm hi

/-- The table has no more rows than bodies were sent. -/
theorem Tracked.length_rows_le (h : Tracked source dest s) :
    s.recipient.messages.rows.length ≤ s.sent.length := by
  -- the ids of the rows are pairwise distinct, and each is the arrival id of a sent body
  have hsub : s.recipient.messages.rows.map Prod.fst ⊆ s.sent.map (arrivalId source) := by
    intro id hid
    obtain ⟨⟨id', row⟩, hrow, rfl⟩ := List.mem_map.mp hid
    obtain ⟨m, hm, now, hid, -⟩ := h.stored.rows id' row (SqlTable.mem_rows_iff.mp hrow)
    exact List.mem_map.mpr ⟨m, hm, hid.symm⟩
  have hle := (List.subperm_of_subset s.recipient.messages.nodup hsub).length_le
  rwa [List.length_map, List.length_map] at hle

/-- All rows belong to the one conversation, so a page that is large enough is the whole
table. -/
theorem Tracked.getMessages_perm (h : Tracked source dest s) {limit : ℕ}
    (hlimit : s.sent.length ≤ limit) :
    (getMessages s.recipient (computeConversationId dest source) limit).Perm
      s.recipient.messages.rows := by
  have hall : s.recipient.messages.selectWhere (fun _ row =>
      decide (row.conversationId = computeConversationId dest source) &&
        decide (row.receivedAt < Int64.maxValue)) = s.recipient.messages.rows := by
    rw [SqlTable.selectWhere, List.filter_eq_self]
    rintro ⟨id, row⟩ hrow
    obtain ⟨m, hm, now, -, rfl⟩ := h.stored.rows id row (SqlTable.mem_rows_iff.mp hrow)
    rw [Bool.and_eq_true, decide_eq_true_eq, decide_eq_true_eq]
    exact ⟨rfl, (h.posted.deliverable m hm).clock⟩
  rw [getMessages, hall, List.take_of_length_le]
  · exact List.mergeSort_perm _ _
  · rw [List.length_mergeSort]
    exact h.length_rows_le.trans hlimit

/-- The thread shows the preview of a row of a plaintext message. -/
theorem body_threadItem (C : Cipher W) (secret : C.X25519Secret) (id : W.Digest)
    (body : String) (timestamp now : UInt64) :
    (threadItem C dest secret (id, plaintextRow dest source body timestamp now)).body
      = some (takeChars previewChars body) := by
  rfl

/-- **Fidelity.**  In every run whose sends carry their bodies, once everything published
has been delivered, in whatever order and however often, the thread of the recipient shows
each body exactly once. -/
theorem thread_shows_each_once (hW : W.Lawful) (hsource : source.length = identityKeyLen)
    (actions : List (ExchangeAction C))
    (hhash : Set.InjOn W.blake3 {bytes |
      ∃ m ∈ (run (Exchange.step source dest) Exchange.initial actions).sent,
        plaintextBytes (Hex.encode source) m.1 m.2 = bytes})
    (hrun : Meets (Exchange.step source dest) (Carrying source dest) Exchange.initial actions)
    (hcomplete : (run (Exchange.step source dest) Exchange.initial actions).Complete)
    (secret : C.X25519Secret) (limit : UInt64)
    (hlimit : (run (Exchange.step source dest) Exchange.initial actions).sent.length
      ≤ limit.toUInt32.toNat) :
    ∀ m ∈ (run (Exchange.step source dest) Exchange.initial actions).sent,
      shows (getThread C (run (Exchange.step source dest) Exchange.initial actions).recipient dest
        secret (computeConversationId dest source) limit).1 m.1 = 1 := by
  have h : Tracked source dest (run (Exchange.step source dest) Exchange.initial actions) :=
    run_invariant (fun s a h ha => tracked_step hW hsource s a h ha) (tracked_initial source dest)
      hrun
  intro m hm
  rw [shows, getThread, List.countP_map, (h.getMessages_perm hlimit).countP_eq]
  refine SqlTable.countP_rows_eq_one (h.arrived_of_complete hcomplete hm) ?_
  intro id row hrow
  obtain ⟨m', hm', now, rfl, rfl⟩ := h.stored.rows id row hrow
  rw [Function.comp_apply, decide_eq_true_eq, body_threadItem,
    takeChars_of_short (h.posted.deliverable m' hm').short, Option.some.injEq]
  constructor
  · -- a body was sent once, so a row that shows it is its own
    intro hbody
    have hsame : m' = m := List.inj_on_of_nodup_map h.posted.nodup hm' hm hbody
    rw [hsame]
  · intro hid
    exact (plaintextId_inj hW hhash ⟨m', hm', rfl⟩ ⟨m, hm, rfl⟩ rfl hid).2.1

/-- Alice sends two messages to Bob, whose node gets them late, in another order and one of
them twice. -/
def lateDelivery : List (ExchangeAction Cipher.symbolic) :=
  [.send (online alice 5) (Hex.encode bob) "hello" none (0 : ℕ),
    .send (online alice 6) (Hex.encode bob) "bye" none (1 : ℕ),
    .deliver 2 7, .deliver 3 7, .deliver 0 8, .deliver 2 8, .deliver 1 9]

/-- The state of both nodes after a run from Alice to Bob. -/
def afterRun (actions : List (ExchangeAction Cipher.symbolic)) : Exchange Wire.symbolic :=
  run (Exchange.step alice bob) Exchange.initial actions

theorem carrying_lateDelivery :
    Meets (Exchange.step alice bob) (Carrying alice bob) Exchange.initial lateDelivery := by
  refine ⟨⟨rfl, ⟨_, rfl⟩, by decide +kernel, rfl, by decide, by decide +kernel, by decide⟩,
    ⟨rfl, ⟨_, rfl⟩, by decide +kernel, rfl, by decide, by decide +kernel, by decide⟩,
    trivial, trivial, trivial, trivial, trivial, trivial⟩

theorem thread_shows_each_once_late :
    (afterRun lateDelivery).sent = [("hello", 5), ("bye", 6)] ∧
      ∀ m ∈ (afterRun lateDelivery).sent,
        shows (getThread Cipher.symbolic (afterRun lateDelivery).recipient bob bob
          (computeConversationId bob alice) 50).1 m.1 = 1 := by
  refine ⟨by decide +kernel, ?_⟩
  refine thread_shows_each_once Wire.symbolic_lawful (by decide) lateDelivery
    (Wire.symbolic_injOn _) carrying_lateDelivery ?_ bob 50 (by decide +kernel)
  show ∀ i < (afterRun lateDelivery).sender.published.length, i ∈ (afterRun lateDelivery).delivered
  decide +kernel

/-- A body of 101 characters. -/
def longBody : String := String.ofList (List.replicate 101 'a')

/-- Alice sends a body of 101 characters, and all she publishes reaches Bob. -/
def longDelivery : List (ExchangeAction Cipher.symbolic) :=
  [.send (online alice 5) (Hex.encode bob) longBody none (0 : ℕ), .deliver 0 6, .deliver 1 6]

/-- Bob's thread does not show it: the body was cut. -/
theorem long_body_not_shown :
    (afterRun longDelivery).Complete ∧ (longBody, 5) ∈ (afterRun longDelivery).sent ∧
      (∀ bytes ∈ (afterRun longDelivery).sender.published,
        Wire.symbolic.len bytes ≤ maxEnvelopeSize) ∧
      shows (getThread Cipher.symbolic (afterRun longDelivery).recipient bob bob
        (computeConversationId bob alice) 50).1 longBody = 0 := by
  refine ⟨?_, by decide +kernel, by decide +kernel, by decide +kernel⟩
  show ∀ i < (afterRun longDelivery).sender.published.length, i ∈ (afterRun longDelivery).delivered
  decide +kernel

end MessageFidelity
