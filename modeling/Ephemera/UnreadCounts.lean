/-
# Unread counts

`conversations.unread_count` is a copy of a count over `messages`.  Messages come in through
`receive_message` and `handle_plaintext_dm`, which both raise the counter, the second only
for a row it has inserted; `send` stores what it sends as read; `mark_read` resets both
sides; and a sweep of the garbage collector deletes rows without looking at the counter.

`counts_iff_meets` is the exact condition on a run.  It needs that no message is stored
without its conversation (`Housed`), which holds of every run.
-/
import Ephemera.DirectMessage
import Ephemera.GarbageCollector
import Ephemera.GuardedRun

namespace UnreadCounts

open GuardedRun StateExcept Messaging NodeIngest

variable {W : Wire}

/-! ## The counter and the rows -/

/-- The row is an unread message of the conversation. -/
def isUnreadOf (conversationId : W.Digest) (_ : W.Digest) (row : MessageRow W) : Bool :=
  decide (row.conversationId = conversationId) && !row.isRead

/-- `SELECT COUNT(*) FROM messages WHERE conversation_id = … AND is_read = 0`. -/
def unread (db : MetadataDb W) (conversationId : W.Digest) : ℕ :=
  (db.messages.selectWhere (isUnreadOf conversationId)).length

/-- Every counter equals the number of unread rows. -/
def Counts (db : MetadataDb W) : Prop :=
  ∀ id row, db.conversations.get? id = some row → row.unreadCount.toInt = unread db id

/-- Every message is stored with its conversation. -/
def Housed (db : MetadataDb W) : Prop :=
  ∀ k m, db.messages.get? k = some m → db.conversations.get? m.conversationId ≠ none

/-- `MessageService::mark_read`, for the conversation that the text names. -/
def markRead (db : MetadataDb W) (conversationId : W.Digest) : MetadataDb W :=
  { db with
    messages := db.messages.updateWhere (isUnreadOf conversationId)
      (fun row => { row with isRead := true })
    conversations := db.conversations.updateWhere (fun k _ => decide (k = conversationId))
      (fun row => { row with unreadCount := 0 }) }

/-! ## A node that receives, sends and sweeps -/

/-- The store of a node, and what `send` hands on to the network and the DHT. -/
structure MailNode (W : Wire) where
  store : NodeStore W
  dht : DhtStorage W
  published : List W.Bytes
  stored : List (DhtRecord W)

namespace MailNode

/-- The tables of the messages. -/
def db (s : MailNode W) : MetadataDb W := s.store.db.metadata

/-- The tables of the messages, rewritten. -/
def setDb (s : MailNode W) (db : MetadataDb W) : MailNode W :=
  { s with store := { s.store with db := { s.store.db with metadata := db } } }

/-- What a call of the node's services works on. -/
def state (s : MailNode W) : NodeState W := ⟨s.db, s.dht, s.published, s.stored⟩

/-- What it leaves. -/
def setState (s : MailNode W) (st : NodeState W) : MailNode W :=
  { s.setDb st.db with dht := st.dht, published := st.published, stored := st.stored }

@[simp] theorem db_setDb (s : MailNode W) (db : MetadataDb W) : (s.setDb db).db = db := rfl

@[simp] theorem db_setState (s : MailNode W) (st : NodeState W) : (s.setState st).db = st.db := rfl

/-- What happens to the messages of a node. -/
inductive Op (C : Cipher W) where
  | receiveMessage (envelope : W.Sealed) (ours : IdentityKey) (secret : C.X25519Secret)
      (now : UInt64)
  | handlePlaintextDm (json : Json) (ours : Option IdentityKey) (now : UInt64)
  | send (env : CallEnv W) (target body : String) (ttl : Option UInt64) (entropy : C.Entropy)
  | markRead (conversationId : W.Digest)
  | sweep (config : GcConfig) (order : SweepOrder) (now : Int64)

variable {C : Cipher W}

/-- The node after an operation; one that fails leaves it. -/
def step (s : MailNode W) : Op C → MailNode W
  | .receiveMessage envelope ours secret now =>
    match receiveMessage C s.db envelope ours secret now with
    | .ok (_, db) => s.setDb db
    | .error _ => s
  | .handlePlaintextDm json ours now => s.setDb (handlePlaintextDm s.db json ours now).1
  | .send env target body ttl entropy =>
    s.setState (SocialService.after (DirectMessage.send C env target body ttl entropy) s.state)
  | .markRead conversationId => s.setDb (UnreadCounts.markRead s.db conversationId)
  | .sweep config order now =>
    { s with store := (GarbageCollector.sweep config order now s.store).2 }

end MailNode

/-! ## What single writes do to the two sides -/

/-- A conversation made on demand starts at zero, and so do its messages. -/
theorem counts_getOrCreateConversation {db : MetadataDb W} (h : Counts db) (hh : Housed db)
    (ours theirs : IdentityKey) (isRequest : Bool) (now : UInt64) :
    Counts (getOrCreateConversation db ours theirs isRequest now).2 := by
  intro id row hrow
  rcases SqlTable.get?_insertOrIgnore_eq_some.mp hrow with hold | ⟨hnone, rfl, rfl⟩
  · exact h id row hold
  · have hempty : db.messages.selectWhere
        (isUnreadOf (computeConversationId ours theirs)) = [] := by
      refine SqlTable.selectWhere_eq_nil (fun k m hm => ?_)
      have hne : m.conversationId ≠ computeConversationId ours theirs := by
        intro heq
        exact hh k m hm (heq ▸ hnone)
      simp [isUnreadOf, hne]
    have hzero : unread (getOrCreateConversation db ours theirs isRequest now).2
        (computeConversationId ours theirs) = 0 := congrArg List.length hempty
    rw [hzero]
    rfl

/-- The conversation made on demand is there, and no other is lost. -/
theorem get?_getOrCreateConversation (db : MetadataDb W) (ours theirs : IdentityKey)
    (isRequest : Bool) (now : UInt64) {id : W.Digest}
    (h : id = computeConversationId ours theirs ∨ db.conversations.get? id ≠ none) :
    (getOrCreateConversation db ours theirs isRequest now).2.conversations.get? id ≠ none := by
  rw [getOrCreateConversation, SqlTable.get?_insertOrIgnore]
  split_ifs with hid
  · exact Option.some_ne_none _
  · exact h.resolve_left hid

theorem housed_getOrCreateConversation {db : MetadataDb W} (hh : Housed db)
    (ours theirs : IdentityKey) (isRequest : Bool) (now : UInt64) :
    Housed (getOrCreateConversation db ours theirs isRequest now).2 :=
  fun k m hm => get?_getOrCreateConversation db ours theirs isRequest now (Or.inr (hh k m hm))

/-- Raising the counter of a conversation is right exactly when the counter was one behind. -/
theorem counts_bumpConversation_iff {db : MetadataDb W} {c : W.Digest}
    (hothers : ∀ id row, id ≠ c → db.conversations.get? id = some row →
      row.unreadCount.toInt = unread db id) (at' : Int64) :
    Counts (bumpConversation db c at') ↔
      ∀ row, db.conversations.get? c = some row → (row.unreadCount + 1).toInt = unread db c := by
  have hget : ∀ id, (bumpConversation db c at').conversations.get? id
      = (db.conversations.get? id).map (fun row => if id = c then
          { row with lastMessageAt := some at', unreadCount := row.unreadCount + 1 } else row) := by
    intro id
    rw [bumpConversation, SqlTable.get?_updateWhere]
    simp only [decide_eq_true_eq]
  constructor
  · intro h row hrow
    have hbumped := hget c
    rw [hrow, Option.map_some, if_pos rfl] at hbumped
    exact h c _ hbumped
  · intro h id row hrow
    rw [hget, Option.map_eq_some_iff] at hrow
    obtain ⟨old, hold, rfl⟩ := hrow
    by_cases hid : id = c
    · subst hid
      rw [if_pos rfl]
      exact h old hold
    · rw [if_neg hid]
      exact hothers id old hid hold

/-- What adding one to a counter does to its value. -/
theorem toInt_add_one {x : Int64} {n : ℕ} (h : x.toInt = n) :
    (x + 1).toInt ≠ n ∧ ((x + 1).toInt = n + 1 ↔ n + 1 < 2 ^ 63) := by
  have hlt : x.toInt < 2 ^ 63 := x.toInt_lt
  have hadd : (x + 1).toInt = (x.toInt + 1).bmod (2 ^ 64) := by
    rw [Int64.toInt_add]
    rfl
  rw [hadd, Int.bmod_def]
  constructor
  · split_ifs <;> omega
  · split_ifs <;> omega

/-- The two sides only depend on the two tables. -/
theorem counts_congr {db db' : MetadataDb W} (hc : db'.conversations = db.conversations)
    (hm : db'.messages = db.messages) : Counts db' ↔ Counts db := by
  simp only [Counts, unread, hc, hm]

/-- Raising the counter of a conversation without a new row makes it wrong. -/
theorem not_counts_bumpConversation {db : MetadataDb W} (h : Counts db) {c : W.Digest}
    (hc : db.conversations.get? c ≠ none) (at' : Int64) : ¬Counts (bumpConversation db c at') := by
  obtain ⟨row, hrow⟩ := Option.ne_none_iff_exists'.mp hc
  rw [counts_bumpConversation_iff (fun id row _ => h id row)]
  intro hbump
  exact (toInt_add_one (h c row hrow)).1 (hbump row hrow)

/-- Raising it together with a new unread row is right as long as the number fits. -/
theorem counts_storeUnread_iff {db : MetadataDb W} (h : Counts db) {c k : W.Digest}
    {m : MessageRow W} (hc : db.conversations.get? c ≠ none) (hk : db.messages.get? k = none)
    (hmc : m.conversationId = c) (hm : m.isRead = false) (at' : Int64) :
    Counts (bumpConversation { db with messages := db.messages.insertOrIgnore k m } c at') ↔
      unread db c + 1 < 2 ^ 63 := by
  have hcount : ∀ id, unread { db with messages := db.messages.insertOrIgnore k m } id
      = unread db id + if id = c then 1 else 0 := by
    intro id
    refine (SqlTable.length_selectWhere_insertOrIgnore hk m (isUnreadOf id)).trans ?_
    by_cases hid : id = c
    · simp [isUnreadOf, hid, hmc, hm, unread]
    · simp [isUnreadOf, hid, hmc, Ne.symm hid, unread]
  obtain ⟨row, hrow⟩ := Option.ne_none_iff_exists'.mp hc
  rw [counts_bumpConversation_iff]
  · have hone : unread { db with messages := db.messages.insertOrIgnore k m } c
        = unread db c + 1 := by
      rw [hcount, if_pos rfl]
    rw [hone]
    constructor
    · intro hbump
      exact (toInt_add_one (h c row hrow)).2.mp (by exact_mod_cast hbump row hrow)
    · intro hfits row' hrow'
      exact_mod_cast (toInt_add_one (h c row' hrow')).2.mpr hfits
  · intro id row' hid hrow'
    rw [hcount, if_neg hid]
    exact h id row' hrow'

/-- Storing a message in a conversation that is there, or raising its counter, leaves every
message with its conversation. -/
theorem housed_insert {db : MetadataDb W} (hh : Housed db) {k : W.Digest} {m : MessageRow W}
    (hc : db.conversations.get? m.conversationId ≠ none) :
    Housed { db with messages := db.messages.insertOrIgnore k m } := by
  intro k' m' hm'
  rcases SqlTable.get?_insertOrIgnore_eq_some.mp hm' with hold | ⟨-, -, rfl⟩
  · exact hh k' m' hold
  · exact hc

theorem housed_updateConversations {db : MetadataDb W} (hh : Housed db)
    (p : W.Digest → ConversationRow → Bool) (f : ConversationRow → ConversationRow) :
    Housed { db with conversations := db.conversations.updateWhere p f } := by
  intro k m hm
  rw [SqlTable.get?_updateWhere, Ne, Option.map_eq_none_iff]
  exact hh k m hm

/-- Messages that are left, or marked as read, stay with their conversation. -/
theorem housed_of_messages {db db' : MetadataDb W} (hh : Housed db)
    (hc : db'.conversations = db.conversations)
    (hm : ∀ k m, db'.messages.get? k = some m → ∃ m₀, db.messages.get? k = some m₀ ∧
      m₀.conversationId = m.conversationId) : Housed db' := by
  intro k m hget
  obtain ⟨m₀, hm₀, heq⟩ := hm k m hget
  rw [hc, ← heq]
  exact hh k m₀ hm₀

/-! ## The operations -/

/-- What `handle_plaintext_dm` reads off a message for the local identity. -/
structure PlaintextDm where
  ours : IdentityKey
  sender : IdentityKey
  senderHex : String
  body : String
  timestamp : UInt64

/-- A message without a sender, a recipient or a body, for somebody else, or while the identity
is locked, is dropped. -/
def plaintextDm? (json : Json) (ours : Option IdentityKey) (now : UInt64) : Option PlaintextDm :=
  match json.getStr "sender", json.getStr "recipient", json.getStr "body", ours with
  | some senderHex, some recipientHex, some body, some ours =>
    if recipientHex = Hex.encode ours then
      (decodeKey senderHex).map (fun sender => ⟨ours, sender, senderHex, body,
        ((json.get "timestamp").bind JsonField.asU64).getD now⟩)
    else none
  | _, _, _, _ => none

/-- `handle_plaintext_dm` stores what it can read. -/
theorem handlePlaintextDm_fst (db : MetadataDb W) (json : Json) (ours : Option IdentityKey)
    (now : UInt64) :
    (handlePlaintextDm db json ours now).1
      = match plaintextDm? json ours now with
        | some d => storePlaintext db d.ours d.sender d.senderHex d.body d.timestamp now
        | none => db := by
  unfold handlePlaintextDm plaintextDm?
  cases json.getStr "sender" with
  | none => rfl
  | some senderHex =>
    cases json.getStr "recipient" with
    | none => rfl
    | some recipientHex =>
      cases json.getStr "body" with
      | none => rfl
      | some body =>
        cases ours with
        | none => rfl
        | some ours =>
          simp only
          split
          · cases decodeKey senderHex <;> rfl
          · rfl

/-- The sealed message is one that `receive_message` takes: in time, opened, and not a rejected
request. -/
def Taken (C : Cipher W) (db : MetadataDb W) (envelope : W.Sealed) (ours : IdentityKey)
    (secret : C.X25519Secret) (now : UInt64) (payload : W.Payload) : Prop :=
  isExpired envelope now = false ∧ openEnvelope C envelope secret = .ok payload ∧
    ¬(isStranger db ours payload.sender = true ∧ isRequestRejected db ours payload.sender = true)

/-- A sealed message has one payload. -/
theorem Taken.unique {C : Cipher W} {db : MetadataDb W} {envelope : W.Sealed}
    {ours : IdentityKey} {secret : C.X25519Secret} {now : UInt64} {p p' : W.Payload}
    (h : Taken C db envelope ours secret now p) (h' : Taken C db envelope ours secret now p') :
    p = p' := Except.ok.inj (h.2.1.symm.trans h'.2.1)

/-- A sealed message is taken and stored, or refused. -/
theorem receiveMessage_cases (C : Cipher W) (db : MetadataDb W) (envelope : W.Sealed)
    (ours : IdentityKey) (secret : C.X25519Secret) (now : UInt64) :
    (∃ payload, Taken C db envelope ours secret now payload ∧
        receiveMessage C db envelope ours secret now = .ok (payload,
          storeReceived db envelope payload ours (isStranger db ours payload.sender) now)) ∨
      ((∀ payload, ¬Taken C db envelope ours secret now payload) ∧
        ∃ e, receiveMessage C db envelope ours secret now = .error e) := by
  cases hres : receiveMessage C db envelope ours secret now with
  | error e =>
    refine Or.inr ⟨fun payload ⟨h₁, h₂, h₃⟩ => ?_, e, rfl⟩
    rw [receiveMessage_eq_ok_iff.mpr ⟨h₁, h₂, h₃, rfl⟩] at hres
    cases hres
  | ok r =>
    obtain ⟨payload, db'⟩ := r
    obtain ⟨h₁, h₂, h₃, rfl⟩ := receiveMessage_eq_ok_iff.mp hres
    exact Or.inl ⟨payload, ⟨h₁, h₂, h₃⟩, rfl⟩

/-- Storing a sealed message is right exactly when its id is new and the number fits. -/
theorem counts_storeReceived_iff {db : MetadataDb W} (h : Counts db) (hh : Housed db)
    (envelope : W.Sealed) (payload : W.Payload) (ours : IdentityKey)
    (isRequest : Bool) (now : UInt64) :
    Counts (storeReceived db envelope payload ours isRequest now) ↔
      db.messages.get? (W.blake3 envelope.ciphertext) = none ∧
        unread db (computeConversationId ours payload.sender) + 1 < 2 ^ 63 := by
  have hmade := counts_getOrCreateConversation h hh ours payload.sender isRequest now
  have hthere := get?_getOrCreateConversation db ours payload.sender isRequest now (Or.inl rfl)
  obtain ⟨hconv, hmsg⟩ := tables_storeReceived db envelope payload ours isRequest now
  rw [counts_congr hconv hmsg, bumpedByReceive]
  by_cases hk : db.messages.get? (W.blake3 envelope.ciphertext) = none
  · rw [counts_storeUnread_iff hmade hthere hk rfl rfl]
    exact (and_iff_right hk).symm
  · refine iff_of_false ?_ (fun hboth => hk hboth.1)
    rw [show (getOrCreateConversation db ours payload.sender isRequest now).2.messages.insertOrIgnore
        (W.blake3 envelope.ciphertext) (receivedRow envelope payload ours now) = db.messages from
      SqlTable.insertOrIgnore_of_ne_none hk _]
    exact not_counts_bumpConversation hmade hthere now.toInt64

theorem housed_storeReceived {db : MetadataDb W} (hh : Housed db) (envelope : W.Sealed)
    (payload : W.Payload) (ours : IdentityKey) (isRequest : Bool) (now : UInt64) :
    Housed (storeReceived db envelope payload ours isRequest now) := by
  have hmade := housed_getOrCreateConversation hh ours payload.sender isRequest now
  have hthere := get?_getOrCreateConversation db ours payload.sender isRequest now (Or.inl rfl)
  have hbumped : Housed (bumpedByReceive db envelope payload ours isRequest now) :=
    housed_updateConversations (housed_insert (k := W.blake3 envelope.ciphertext)
      (m := receivedRow envelope payload ours now) hmade hthere) _ _
  obtain ⟨hconv, hmsg⟩ := tables_storeReceived db envelope payload ours isRequest now
  exact housed_of_messages hbumped hconv (fun k m hm => ⟨m, hmsg ▸ hm, rfl⟩)

/-- Storing a plaintext message keeps the counters right as long as the number fits: the counter
is raised for a new row only. -/
theorem counts_storePlaintext_iff {db : MetadataDb W} (h : Counts db) (hh : Housed db)
    (d : PlaintextDm) (now : UInt64) :
    Counts (storePlaintext db d.ours d.sender d.senderHex d.body d.timestamp now) ↔
      (db.messages.get? (plaintextId d.senderHex d.body d.timestamp) = none →
        unread db (computeConversationId d.ours d.sender) + 1 < 2 ^ 63) := by
  have hmade := counts_getOrCreateConversation h hh d.ours d.sender false now
  have hthere := get?_getOrCreateConversation db d.ours d.sender false now (Or.inl rfl)
  by_cases hk : db.messages.get? (plaintextId d.senderHex d.body d.timestamp) = none
  · have hstored := counts_storeUnread_iff hmade hthere (k := plaintextId d.senderHex d.body
      d.timestamp) (m := plaintextRow d.ours d.sender d.body d.timestamp now) hk rfl rfl
      d.timestamp.toInt64
    have heq : storePlaintext db d.ours d.sender d.senderHex d.body d.timestamp now
        = bumpConversation { (getOrCreateConversation db d.ours d.sender false now).2 with
            messages := (getOrCreateConversation db d.ours d.sender false
              now).2.messages.insertOrIgnore (plaintextId d.senderHex d.body d.timestamp)
              (plaintextRow d.ours d.sender d.body d.timestamp now) }
          (computeConversationId d.ours d.sender) d.timestamp.toInt64 := by
      have hnone : (db.messages.get? (plaintextId d.senderHex d.body d.timestamp)).isNone
          = true := by
        rw [hk]
        rfl
      exact if_pos hnone
    rw [heq, hstored]
    exact ⟨fun hfits _ => hfits, fun hfits => hfits hk⟩
  · have heq : storePlaintext db d.ours d.sender d.senderHex d.body d.timestamp now
        = (getOrCreateConversation db d.ours d.sender false now).2 := by
      have hsome : ¬(db.messages.get? (plaintextId d.senderHex d.body d.timestamp)).isNone
          = true := by
        simpa [Option.isNone_iff_eq_none] using hk
      exact if_neg hsome
    rw [heq]
    exact iff_of_true hmade (fun hnone => absurd hnone hk)

theorem housed_storePlaintext {db : MetadataDb W} (hh : Housed db) (d : PlaintextDm)
    (now : UInt64) :
    Housed (storePlaintext db d.ours d.sender d.senderHex d.body d.timestamp now) := by
  have hmade := housed_getOrCreateConversation hh d.ours d.sender false now
  have hthere := get?_getOrCreateConversation db d.ours d.sender false now (Or.inl rfl)
  unfold storePlaintext
  dsimp only
  split
  · exact housed_updateConversations (housed_insert hmade hthere) _ _
  · exact hmade

/-- An update of conversations that leaves the counters. -/
theorem counts_updateConversations {db : MetadataDb W} (h : Counts db)
    (p : W.Digest → ConversationRow → Bool) {f : ConversationRow → ConversationRow}
    (hf : ∀ row, (f row).unreadCount = row.unreadCount) :
    Counts { db with conversations := db.conversations.updateWhere p f } := by
  intro id row hrow
  rw [SqlTable.get?_updateWhere, Option.map_eq_some_iff] at hrow
  obtain ⟨old, hold, rfl⟩ := hrow
  have hsame : (if p id old = true then f old else old).unreadCount = old.unreadCount := by
    split
    · exact hf old
    · rfl
  rw [hsame]
  exact h id old hold

/-- A row stored as read counts nowhere. -/
theorem counts_insertRead {db : MetadataDb W} (h : Counts db) {k : W.Digest} {m : MessageRow W}
    (hm : m.isRead = true) :
    Counts { db with messages := db.messages.insertOrIgnore k m } := by
  have hcount : ∀ id, unread { db with messages := db.messages.insertOrIgnore k m } id
      = unread db id := by
    intro id
    by_cases hk : db.messages.get? k = none
    · refine (SqlTable.length_selectWhere_insertOrIgnore hk m (isUnreadOf id)).trans ?_
      simp [isUnreadOf, hm, unread]
    · rw [unread, SqlTable.insertOrIgnore_of_ne_none hk]
      rfl
  intro id row hrow
  rw [hcount]
  exact h id row hrow

/-- The tables after the deposit of a sent message. -/
theorem conversations_depositSent (db : MetadataDb W) (p : DirectMessage.Prepared W)
    (now : UInt64) :
    (DirectMessage.depositSent db p now).conversations
      = db.conversations.updateWhere (fun k _ => decide (k = p.conversationId))
          (fun row => { row with lastMessageAt := some now.toInt64 }) := by
  unfold DirectMessage.depositSent
  dsimp only
  split
  · rename_i hdep
    rw [sameButDrops_depositRaw hdep]
  · rfl

/-- What follows the insertion of a sent message leaves every message with its conversation. -/
theorem housed_depositSent {db : MetadataDb W} (hh : Housed db) (p : DirectMessage.Prepared W)
    (now : UInt64) : Housed (DirectMessage.depositSent db p now) := by
  have hhoused := housed_updateConversations hh (fun k _ => decide (k = p.conversationId))
    (fun row => { row with lastMessageAt := some now.toInt64 })
  refine housed_of_messages hhoused (conversations_depositSent db p now) (fun k m hm => ?_)
  rw [(DirectMessage.tables_depositSent db p now).1] at hm
  exact ⟨m, hm, rfl⟩

/-- It leaves the counters, too. -/
theorem counts_depositSent {db : MetadataDb W} (h : Counts db) (p : DirectMessage.Prepared W)
    (now : UInt64) : Counts (DirectMessage.depositSent db p now) := by
  -- the database but for its dead drops
  let touched : MetadataDb W := { db with
    conversations := db.conversations.updateWhere (fun k _ => decide (k = p.conversationId))
      (fun row => { row with lastMessageAt := some now.toInt64 }) }
  have hcounts : Counts touched := counts_updateConversations h _ (fun _ => rfl)
  have hconv : (DirectMessage.depositSent db p now).conversations = touched.conversations :=
    conversations_depositSent db p now
  have hmsg : (DirectMessage.depositSent db p now).messages = touched.messages :=
    (DirectMessage.tables_depositSent db p now).1
  exact (counts_congr hconv hmsg).mpr hcounts

/-- A send leaves every message with its conversation. -/
theorem housed_send {C : Cipher W} {st : NodeState W} (hh : Housed st.db) (env : CallEnv W)
    (target body : String) (ttl : Option UInt64) (entropy : C.Entropy) :
    Housed (SocialService.after (DirectMessage.send C env target body ttl entropy) st).db := by
  cases hseal : DirectMessage.sealBody C env target body entropy with
  | error e =>
    rw [DirectMessage.after_send_of_error hseal]
    exact hh
  | ok r =>
    obtain ⟨loc, recipient, encryptedBody⟩ := r
    have hmade := housed_getOrCreateConversation hh loc recipient false env.now
    have hthere := get?_getOrCreateConversation st.db loc recipient false env.now (Or.inl rfl)
    by_cases hnew : st.db.messages.get? (W.blake3 (W.ofStr body)) = none
    · rw [DirectMessage.after_send_of_new hseal ttl hnew, DirectMessage.db_afterHandOut]
      exact housed_depositSent (housed_insert hmade hthere) _ _
    · rw [DirectMessage.after_send_of_taken hseal ttl hnew]
      exact hmade

/-- **`send` keeps the counters**, whether it succeeds or fails. -/
theorem counts_send {C : Cipher W} {st : NodeState W} (h : Counts st.db) (hh : Housed st.db)
    (env : CallEnv W) (target body : String) (ttl : Option UInt64) (entropy : C.Entropy) :
    Counts (SocialService.after (DirectMessage.send C env target body ttl entropy) st).db := by
  cases hseal : DirectMessage.sealBody C env target body entropy with
  | error e =>
    rw [DirectMessage.after_send_of_error hseal]
    exact h
  | ok r =>
    obtain ⟨loc, recipient, encryptedBody⟩ := r
    have hmade := counts_getOrCreateConversation h hh loc recipient false env.now
    by_cases hnew : st.db.messages.get? (W.blake3 (W.ofStr body)) = none
    · rw [DirectMessage.after_send_of_new hseal ttl hnew, DirectMessage.db_afterHandOut]
      exact counts_depositSent (counts_insertRead hmade rfl) _ _
    · rw [DirectMessage.after_send_of_taken hseal ttl hnew]
      exact hmade

/-- **`mark_read` keeps the counters**: both sides of its conversation become zero. -/
theorem exact_markRead {db : MetadataDb W} (h : Counts db) (hh : Housed db) (c : W.Digest) :
    Counts (markRead db c) ∧ Housed (markRead db c) := by
  have hcount : ∀ id, unread (markRead db c) id = if id = c then 0 else unread db id := by
    intro id
    refine (SqlTable.length_selectWhere_updateWhere (fun k v => by simp [isUnreadOf])).trans ?_
    by_cases hid : id = c
    · subst hid
      rw [if_pos rfl, List.length_eq_zero_iff, List.filter_eq_nil_iff]
      rintro ⟨k, m⟩ hm
      have hmatch := (List.mem_filter.mp hm).2
      simp only at hmatch ⊢
      simp [hmatch]
    · rw [if_neg hid, unread]
      congr 1
      rw [List.filter_eq_self]
      rintro ⟨k, m⟩ hm
      have hmatch := (List.mem_filter.mp hm).2
      have hconv : m.conversationId = id := by
        simp only [isUnreadOf, Bool.and_eq_true, decide_eq_true_eq] at hmatch
        exact hmatch.1
      simp [isUnreadOf, hconv, hid]
  constructor
  · intro id row hrow
    rw [markRead, SqlTable.get?_updateWhere, Option.map_eq_some_iff] at hrow
    obtain ⟨old, hold, rfl⟩ := hrow
    rw [hcount]
    by_cases hid : id = c
    · simp [hid]
    · simpa [hid] using h id old hold
  · have hreset := housed_updateConversations hh (fun k _ => decide (k = c))
      (fun row => { row with unreadCount := 0 })
    refine housed_of_messages hreset rfl (fun k m hm => ?_)
    rw [markRead, SqlTable.get?_updateWhere, Option.map_eq_some_iff] at hm
    obtain ⟨m₀, hm₀, rfl⟩ := hm
    refine ⟨m₀, hm₀, ?_⟩
    split <;> rfl

/-- What a completed sweep does to the tables of the messages. -/
theorem metadata_completeSweep (config : GcConfig) (order : SweepOrder) (now : Int64)
    (s : NodeStore W) :
    (GarbageCollector.completeSweep config order now s).db.metadata
      = { s.db.metadata with
          messages := s.db.metadata.messages.deleteWhere
            (fun _ row => decide (row.expiresAt < now)) } := by
  have hmeta := (GarbageCollector.sameButMedia_withoutMedia config order now s).metadata
  show { (GarbageCollector.withoutMedia config order now s).db.metadata with
    messages := (GarbageCollector.withoutMedia config order now s).db.metadata.messages.deleteWhere
      (fun _ row => decide (row.expiresAt < now)) } = _
  rw [hmeta]

/-- A sweep whose `UPDATE` fails does nothing to them. -/
theorem metadata_sweep_of_not_fits {config : GcConfig} {order : SweepOrder} {now : Int64}
    {s : NodeStore W} (h : ¬ GarbageCollector.UpdateFits config order now s.db) :
    (GarbageCollector.sweep config order now s).2.db.metadata = s.db.metadata := by
  rw [GarbageCollector.sweep_of_not_fits h]
  exact (GarbageCollector.sameButMedia_withoutMedia config order now s).metadata

/-- A sweep keeps the counters exactly when it deletes no unread message. -/
theorem counts_deleteExpired_iff {db : MetadataDb W} (h : Counts db) (hh : Housed db)
    (now : Int64) :
    Counts { db with
        messages := db.messages.deleteWhere (fun _ row => decide (row.expiresAt < now)) } ↔
      ∀ k m, db.messages.get? k = some m → m.expiresAt < now → m.isRead = true := by
  have hiff : ∀ id, (unread { db with
        messages := db.messages.deleteWhere (fun _ row => decide (row.expiresAt < now)) } id
          = unread db id ↔ ∀ k m, db.messages.get? k = some m → isUnreadOf id k m = true →
            decide (m.expiresAt < now) = false) :=
    fun id => SqlTable.length_selectWhere_deleteWhere_eq_iff
  constructor
  · intro hafter k m hm hexp
    obtain ⟨row, hrow⟩ := Option.ne_none_iff_exists'.mp (hh k m hm)
    have hsame : unread { db with
        messages := db.messages.deleteWhere (fun _ row => decide (row.expiresAt < now)) }
          m.conversationId = unread db m.conversationId := by
      exact_mod_cast (hafter _ row hrow).symm.trans (h _ row hrow)
    by_contra hunread
    have hread : m.isRead = false := by simpa using hunread
    have hkept := (hiff m.conversationId).mp hsame k m hm (by simp [isUnreadOf, hread])
    exact absurd hexp (by simpa using hkept)
  · intro hread id row hrow
    rw [(hiff id).mpr (fun k m hm hunread => ?_)]
    · exact h id row hrow
    · rw [decide_eq_false_iff_not]
      intro hexp
      rw [isUnreadOf, hread k m hm hexp] at hunread
      simp at hunread

theorem housed_deleteExpired {db : MetadataDb W} (hh : Housed db) (now : Int64) :
    Housed { db with
      messages := db.messages.deleteWhere (fun _ row => decide (row.expiresAt < now)) } := by
  refine housed_of_messages hh rfl (fun k m hm => ⟨m, ?_, rfl⟩)
  rw [SqlTable.get?_deleteWhere, Option.filter_eq_some_iff] at hm
  exact hm.1

/-! ## Whole runs -/

namespace MailNode

variable {C : Cipher W}

/-- A new node, with the DHT storage it is given. -/
def new (dht : DhtStorage W) : MailNode W := ⟨NodeStore.empty, dht, [], []⟩

/-- **The condition on an operation.**  A sealed message that is taken is not stored yet, a sweep
that is completed meets no expired message that is still unread, and the counter has room for what
comes in. -/
def Careful (s : MailNode W) : Op C → Prop
  | .receiveMessage envelope ours secret now => ∀ payload,
      Taken C s.db envelope ours secret now payload →
        s.db.messages.get? (W.blake3 envelope.ciphertext) = none ∧
          unread s.db (computeConversationId ours payload.sender) + 1 < 2 ^ 63
  | .handlePlaintextDm json ours now => ∀ d, plaintextDm? json ours now = some d →
      s.db.messages.get? (plaintextId d.senderHex d.body d.timestamp) = none →
        unread s.db (computeConversationId d.ours d.sender) + 1 < 2 ^ 63
  | .send _ _ _ _ _ => True
  | .markRead _ => True
  | .sweep config order now => GarbageCollector.UpdateFits config order now s.store.db →
      ∀ k m, s.db.messages.get? k = some m → m.expiresAt < now → m.isRead = true

/-- The database after a sealed message arrives. -/
theorem db_receiveMessage (s : MailNode W) (envelope : W.Sealed) (ours : IdentityKey)
    (secret : C.X25519Secret) (now : UInt64) :
    (∃ payload, Taken C s.db envelope ours secret now payload ∧
        (s.step (.receiveMessage envelope ours secret now)).db
          = storeReceived s.db envelope payload ours (isStranger s.db ours payload.sender) now) ∨
      ((∀ payload, ¬Taken C s.db envelope ours secret now payload) ∧
        s.step (.receiveMessage envelope ours secret now) = s) := by
  rcases receiveMessage_cases C s.db envelope ours secret now with
    ⟨payload, htaken, hres⟩ | ⟨hnot, e, hres⟩
  · exact Or.inl ⟨payload, htaken, by rw [step, hres]; rfl⟩
  · exact Or.inr ⟨hnot, by rw [step, hres]⟩

/-- Every message stays with its conversation. -/
theorem housed_step {s : MailNode W} (h : Counts s.db) (hh : Housed s.db) (op : Op C) :
    Housed (s.step op).db := by
  cases op with
  | receiveMessage envelope ours secret now =>
    rcases s.db_receiveMessage envelope ours secret now with ⟨payload, -, heq⟩ | ⟨-, heq⟩
    · rw [heq]
      exact housed_storeReceived hh _ _ _ _ _
    · rw [heq]
      exact hh
  | handlePlaintextDm json ours now =>
    rw [step, db_setDb, handlePlaintextDm_fst]
    cases plaintextDm? json ours now with
    | none => exact hh
    | some d => exact housed_storePlaintext hh d now
  | send env target body ttl entropy => exact housed_send hh env target body ttl entropy
  | markRead c => exact (exact_markRead h hh c).2
  | sweep config order now =>
    rw [step, db]
    by_cases hfits : GarbageCollector.UpdateFits config order now s.store.db
    · rw [GarbageCollector.sweep_of_fits hfits, metadata_completeSweep]
      exact housed_deleteExpired hh now
    · rw [metadata_sweep_of_not_fits hfits]
      exact hh

/-- **One operation** keeps the counters right exactly when it is careful. -/
theorem counts_step_iff {s : MailNode W} (h : Counts s.db) (hh : Housed s.db) (op : Op C) :
    Counts (s.step op).db ↔ s.Careful op := by
  cases op with
  | receiveMessage envelope ours secret now =>
    rcases s.db_receiveMessage envelope ours secret now with ⟨payload, htaken, heq⟩ | ⟨hnot, heq⟩
    · rw [heq, counts_storeReceived_iff h hh]
      constructor
      · intro hnew payload' htaken'
        rwa [← Taken.unique htaken htaken']
      · exact fun hcareful => hcareful payload htaken
    · rw [heq]
      exact iff_of_true h (fun payload htaken => absurd htaken (hnot payload))
  | handlePlaintextDm json ours now =>
    rw [step, db_setDb, handlePlaintextDm_fst, Careful]
    cases plaintextDm? json ours now with
    | none => exact iff_of_true h (fun d hd => by cases hd)
    | some d =>
      rw [counts_storePlaintext_iff h hh]
      constructor
      · intro hroom d' hd'
        rwa [← Option.some.inj hd']
      · exact fun hcareful => hcareful d rfl
  | send env target body ttl entropy =>
    exact iff_of_true (counts_send h hh env target body ttl entropy) trivial
  | markRead c => exact iff_of_true (exact_markRead h hh c).1 trivial
  | sweep config order now =>
    rw [step, db, Careful]
    by_cases hfits : GarbageCollector.UpdateFits config order now s.store.db
    · rw [GarbageCollector.sweep_of_fits hfits, metadata_completeSweep]
      exact (counts_deleteExpired_iff h hh now).trans
        ⟨fun hread _ => hread, fun hread => hread hfits⟩
    · rw [metadata_sweep_of_not_fits hfits]
      exact iff_of_true h (fun hfits' => absurd hfits' hfits)

/-- **When unread counts are exact.**  In every state of a run of a new node each counter equals
the number of unread messages of its conversation exactly when every operation is careful. -/
theorem counts_iff_meets (dht : DhtStorage W) (ops : List (Op C)) :
    (∀ l₁ l₂, ops = l₁ ++ l₂ → Counts (run step (new dht) l₁).db) ↔
      Meets step Careful (new dht) ops := by
  have hcounts : Counts (new dht).db := by
    intro id row hrow
    cases hrow
  have hhoused : Housed (new dht).db := by
    intro k m hm
    cases hm
  exact always_iff_meets_of_keeps (P := fun s : MailNode W => Counts s.db)
    (Q := fun s => Housed s.db)
    (fun s op h hh => housed_step h hh op) (fun s op h hh => counts_step_iff h hh op)
    hcounts hhoused ops

/-- The owner of the node and a correspondent, for the examples. -/
def owner : IdentityKey := List.replicate 32 1

def correspondent : IdentityKey := List.replicate 32 2

/-- A message for the owner, sealed at time 1000 for a day. -/
def sealedHello : Wire.symbolic.Sealed where
  recipient := owner
  ciphertext := .ciphertext (.raw (correspondent ++ [104, 105])) owner 0
  timestamp := 1000
  ttl := 86400

/-- The message arrives. -/
def helloArrives : Op Cipher.symbolic := .receiveMessage sealedHello owner owner 1000

/-- The conversation with the correspondent. -/
def helloConversation : Wire.symbolic.Digest := computeConversationId owner correspondent

/-- The counter of the conversation and the number of its unread messages. -/
def bothSides (ops : List (Op Cipher.symbolic)) : Option Int × ℕ :=
  let db := (run step (new ⟨.empty, 0, 0⟩) ops).db
  ((db.conversations.get? helloConversation).map (fun row => row.unreadCount.toInt),
    unread db helloConversation)

/-- The two sides differ where the counter is wrong. -/
theorem not_counts_of_bothSides {ops : List (Op Cipher.symbolic)} {i : Int} {n : ℕ}
    (h : bothSides ops = (some i, n)) (hne : i ≠ n) :
    ¬Counts (run step (new ⟨.empty, 0, 0⟩) ops).db := by
  intro hcounts
  obtain ⟨hi, hn⟩ := Prod.mk.inj h
  obtain ⟨row, hrow, rfl⟩ := Option.map_eq_some_iff.mp hi
  exact hne (by rw [hcounts _ row hrow, hn])

/-- **Wrong counts.**  The same envelope delivered twice counts two for one message; an unread
message that a sweep deletes after it has expired still counts. -/
theorem wrong_counts :
    ¬Counts (run step (new ⟨.empty, 0, 0⟩) [helloArrives, helloArrives]).db ∧
      ¬Counts (run step (new ⟨.empty, 0, 0⟩)
        [helloArrives, .sweep {} .asListed 87401]).db := by
  constructor
  · exact not_counts_of_bothSides (i := 2) (n := 1) (by decide +kernel) (by decide)
  · exact not_counts_of_bothSides (i := 1) (n := 0) (by decide +kernel) (by decide)

end MailNode

end UnreadCounts
