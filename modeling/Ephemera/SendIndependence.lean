/-
# Independent sends (`ephemera-node/src/services/social.rs`)

`MessageService::send` puts one row into `messages` and one into `dead_drops`.  Both carry the
hash of the body as their primary key, where `handle_plaintext_dm` hashes the sender and the
time along with it.  So a body that was sent before, to whomever, cannot be sent again, and a
row of `dead_drops` that somebody else put there takes the place of the new one.  A lifetime of
zero seconds is let through, but its dead drop is refused.

`independent_iff_meets` is the exact condition on a run of a node.  For a run of sends alone it
says that the bodies are pairwise different (`sends_independent_iff_nodup`).
-/
import Ephemera.NodeOp
import Ephemera.UnreadCounts

namespace SendIndependence

open GuardedRun StateExcept Messaging SocialService DirectMessage

variable {W : Wire} {C : Cipher W}

/-! ## What happens to the messages and dead drops of a node -/

/-- An operation of a node, or what its background loops do to the two tables. -/
inductive Op {W : Wire} (C : Cipher W) where
  | node (op : NodeOp C)
  | markRead (conversationId : W.Digest)
  | expire (now : Int64)
  | acknowledge (messageId : W.Digest)
  | gc (now : UInt64)

/-- The state after an operation; `expire` is what a sweep deletes from `messages`. -/
def step (st : NodeState W) : Op C → NodeState W
  | .node op => NodeOp.apply st op
  | .markRead conversationId => { st with db := UnreadCounts.markRead st.db conversationId }
  | .expire now =>
    { st with
      db := { st.db with
        messages := st.db.messages.deleteWhere (fun _ row => decide (row.expiresAt < now)) } }
  | .acknowledge messageId => NodeOp.writeResult st (Messaging.acknowledge st.db messageId)
  | .gc now => { st with db := Messaging.gc st.db now }

/-! ## One send -/

/-- One row more in `messages`, in the conversation of the two, and one more in `dead_drops`, in
the mailbox of the recipient; the rows that were there are as they were. -/
structure AddsOne (db db' : MetadataDb W) (loc recipient : IdentityKey) (encryptedBody : W.Bytes) :
    Prop where
  conversation : db'.conversations.get? (computeConversationId loc recipient) ≠ none
  message : ∃ id row, db'.messages.rows = db.messages.rows ++ [(id, row)] ∧
    row.conversationId = computeConversationId loc recipient ∧ row.senderPubkey = loc ∧
    row.encryptedBody = some encryptedBody
  deadDrop : ∃ id row, db'.deadDrops.rows = db.deadDrops.rows ++ [(id, row)] ∧
    row.mailboxKey = mailboxKey recipient ∧ row.sealedData = encryptedBody

/-- A send by an unlocked identity to a key that messages can be encrypted for returns `Ok` and
adds its two rows. -/
def Independent (st : NodeState W) : Op C → Prop
  | .node (.send env target body ttl entropy) => ∀ loc recipient encryptedBody,
      sealBody C env target body entropy = .ok (loc, recipient, encryptedBody) →
        (∃ r, (exec (send C env target body ttl entropy) st).1 = .ok r) ∧
          AddsOne st.db (after (send C env target body ttl entropy) st).db loc recipient
            encryptedBody
  | _ => True

/-- The id of a message. -/
def bodyId (body : String) : W.Digest := W.blake3 (W.ofStr body)

/-- The lifetime of a dead drop for a message with lifetime `ttl`. -/
def dropTtl (ttl : Option UInt64) : UInt64 := min (ttl.getD defaultTtlSecs) deadDropMaxTtlSecs

/-- The lifetime is not zero, and the dead drop expires at a time that SQLite stores. -/
def DropFits (ttl : Option UInt64) (now : UInt64) : Prop :=
  ttl ≠ some 0 ∧ now.toNat + (dropTtl ttl).toNat < 2 ^ 63

/-- **The condition on an operation.**  Neither table has a row under the hash of the body that
is sent, and the lifetime fits. -/
def NewBody (st : NodeState W) : Op C → Prop
  | .node (.send env target body ttl entropy) =>
      (∃ r, sealBody C env target body entropy = .ok r) →
        st.db.messages.get? (bodyId body) = none ∧ st.db.deadDrops.get? (bodyId body) = none ∧
          DropFits ttl env.now
  | _ => True

/-! ## The deposit -/

theorem dropTtl_eq_zero_iff (ttl : Option UInt64) : (dropTtl ttl).toNat = 0 ↔ ttl = some 0 := by
  have hmin : dropTtl ttl = ttl.getD defaultTtlSecs ∨ dropTtl ttl = deadDropMaxTtlSecs :=
    Std.min_eq_or
  have hle : (dropTtl ttl).toNat ≤ (ttl.getD defaultTtlSecs).toNat :=
    UInt64.le_iff_toNat_le.mp Std.min_le_left
  have hmax : deadDropMaxTtlSecs.toNat = 1209600 := rfl
  have hdefault : defaultTtlSecs.toNat = 86400 := rfl
  cases ttl with
  | none =>
    rw [Option.getD_none] at hmin
    refine iff_of_false ?_ (by simp)
    rcases hmin with h | h
    · rw [h, hdefault]
      omega
    · rw [h, hmax]
      omega
  | some t =>
    rw [Option.getD_some] at hmin hle
    rw [Option.some.injEq, ← UInt64.toNat_inj]
    constructor
    · intro hzero
      rcases hmin with h | h
      · rw [← h, hzero]
        rfl
      · rw [h, hmax] at hzero
        omega
    · intro ht
      rw [ht] at hle
      exact Nat.le_zero.mp hle

theorem dropTtl_le (ttl : Option UInt64) : (dropTtl ttl).toNat ≤ deadDropMaxTtlSecs.toNat :=
  UInt64.le_iff_toNat_le.mp Std.min_le_right

/-- What `deposit_raw` checks of a send. -/
theorem dropFits_iff (ttl : Option UInt64) (now : UInt64) :
    DropFits ttl now ↔
      ¬now + dropTtl ttl ≤ now ∧
        ¬(maxSqlInteger < now ∨
          maxSqlInteger < min (now + dropTtl ttl) (now + deadDropMaxTtlSecs)) := by
  have hle := dropTtl_le ttl
  have hmax : deadDropMaxTtlSecs.toNat = 1209600 := rfl
  have hsql : maxSqlInteger.toNat = 2 ^ 63 - 1 := rfl
  have hmin : min (now + dropTtl ttl) (now + deadDropMaxTtlSecs) = now + dropTtl ttl ∨
      min (now + dropTtl ttl) (now + deadDropMaxTtlSecs) = now + deadDropMaxTtlSecs := Std.min_eq_or
  have hmin_le : min (now + dropTtl ttl) (now + deadDropMaxTtlSecs) ≤ now + dropTtl ttl :=
    Std.min_le_left
  have hadd : (now + dropTtl ttl).toNat = (now.toNat + (dropTtl ttl).toNat) % 2 ^ 64 :=
    UInt64.toNat_add _ _
  have haddMax : (now + deadDropMaxTtlSecs).toNat = (now.toNat + 1209600) % 2 ^ 64 :=
    UInt64.toNat_add _ _
  rw [DropFits, Ne, ← dropTtl_eq_zero_iff]
  rw [UInt64.le_iff_toNat_le] at hmin_le
  simp only [UInt64.le_iff_toNat_le, UInt64.lt_iff_toNat_lt, hsql]
  rcases hmin with h | h
  · rw [h, hadd]
    omega
  · rw [h] at hmin_le ⊢
    rw [hadd] at hmin_le ⊢
    rw [haddMax] at hmin_le ⊢
    omega

/-- The dead drops after a send: its own is put in unless the deposit is refused. -/
theorem deadDrops_sentDb (db : MetadataDb W) (loc recipient : IdentityKey) (body : String)
    (encryptedBody : W.Bytes) (ttl : Option UInt64) (now : UInt64) :
    (DropFits ttl now ∧ ∃ row : DeadDropRow W, row.mailboxKey = mailboxKey recipient ∧
      row.sealedData = encryptedBody ∧
      (sentDb db (preparedOf loc recipient body encryptedBody ttl) body ttl now).deadDrops
        = db.deadDrops.insertOrIgnore (bodyId body) row) ∨
    (¬DropFits ttl now ∧
      (sentDb db (preparedOf loc recipient body encryptedBody ttl) body ttl now).deadDrops
        = db.deadDrops) := by
  unfold sentDb depositSent
  dsimp only
  split
  · rename_i db' hdep
    obtain ⟨hlive, hsql, rfl⟩ := depositRaw_eq_ok.mp hdep
    exact Or.inl ⟨(dropFits_iff ttl now).mpr ⟨hlive, hsql⟩, _, rfl, rfl, rfl⟩
  · rename_i e hdep
    refine Or.inr ⟨fun hfits => ?_, rfl⟩
    obtain ⟨hlive, hsql⟩ := (dropFits_iff ttl now).mp hfits
    exact absurd (hdep.symm.trans (depositRaw_eq_ok.mpr ⟨hlive, hsql, rfl⟩)) (by simp)

/-! ## One send -/

variable {env : CallEnv W} {target body : String} {entropy : C.Entropy}
  {loc recipient : IdentityKey} {encryptedBody : W.Bytes}

theorem rows_insertOrIgnore {K V : Type} [DecidableEq K] {t : SqlTable K V} {k : K}
    (h : t.get? k = none) (v : V) : (t.insertOrIgnore k v).rows = t.rows ++ [(k, v)] := by
  rw [SqlTable.insertOrIgnore, dif_pos h]
  rfl

theorem ne_append_singleton {α : Type} (l : List α) (a : α) : l ≠ l ++ [a] := by
  intro h
  have hlen := congrArg List.length h
  simp at hlen

/-- A send of a body that is stored already adds no row to `messages`. -/
theorem not_addsOne_of_taken
    (h : sealBody C env target body entropy = .ok (loc, recipient, encryptedBody))
    (ttl : Option UInt64) {st : NodeState W}
    (htaken : st.db.messages.get? (bodyId body) ≠ none) :
    ¬AddsOne st.db (after (send C env target body ttl entropy) st).db loc recipient
      encryptedBody := by
  rw [after_send_of_taken h ttl htaken]
  rintro ⟨-, ⟨id, row, hrows, -⟩, -⟩
  exact ne_append_singleton _ _ hrows

/-- A send of a new body adds its dead drop exactly when the id is free there too and the
lifetime fits. -/
theorem addsOne_of_new_iff
    (h : sealBody C env target body entropy = .ok (loc, recipient, encryptedBody))
    (ttl : Option UInt64) {st : NodeState W}
    (hnew : st.db.messages.get? (bodyId body) = none) :
    AddsOne st.db (after (send C env target body ttl entropy) st).db loc recipient encryptedBody ↔
      st.db.deadDrops.get? (bodyId body) = none ∧ DropFits ttl env.now := by
  have hdrops := deadDrops_sentDb st.db loc recipient body encryptedBody ttl env.now
  rw [after_send_of_new h ttl hnew, db_afterHandOut]
  have hmessages := messages_sentDb st.db (preparedOf loc recipient body encryptedBody ttl) body
    ttl env.now
  constructor
  · rintro ⟨-, -, id, row, hrows, -⟩
    rcases hdrops with ⟨hfits, row', -, -, hput⟩ | ⟨-, hsame⟩
    · refine ⟨?_, hfits⟩
      by_contra htaken
      -- a row under the same id makes the deposit a silent no-op
      refine ne_append_singleton _ _ (Eq.trans ?_ hrows)
      exact (congrArg SqlTable.rows
        (hput.trans (SqlTable.insertOrIgnore_of_ne_none htaken row'))).symm
    · exact absurd ((congrArg SqlTable.rows hsame).symm.trans hrows) (ne_append_singleton _ _)
  · rintro ⟨hfree, hfits⟩
    rcases hdrops with ⟨-, row, hmailbox, hdata, hput⟩ | ⟨hnot, -⟩
    · refine ⟨?_, ?_, bodyId body, row, ?_, hmailbox, hdata⟩
      · have hthere := UnreadCounts.get?_getOrCreateConversation st.db loc recipient false env.now
          (Or.inl rfl)
        rw [sentDb, UnreadCounts.conversations_depositSent, SqlTable.get?_updateWhere, Ne,
          Option.map_eq_none_iff]
        exact hthere
      · refine ⟨bodyId body, sentRow loc (computeConversationId loc recipient) body encryptedBody
          (ttl.getD defaultTtlSecs) env.now, ?_, rfl, rfl, rfl⟩
        rw [hmessages]
        exact rows_insertOrIgnore hnew _
      · exact (congrArg SqlTable.rows hput).trans (rows_insertOrIgnore hfree row)
    · exact absurd hfits hnot

/-- **One operation** is independent of what came before it exactly under the condition. -/
theorem independent_iff (st : NodeState W) (op : Op C) : Independent st op ↔ NewBody st op := by
  cases op with
  | node op =>
    cases op with
    | send env target body ttl entropy =>
      constructor
      · rintro h ⟨⟨loc, recipient, encryptedBody⟩, hseal⟩
        obtain ⟨-, hadds⟩ := h loc recipient encryptedBody hseal
        by_cases hnew : st.db.messages.get? (bodyId body) = none
        · exact ⟨hnew, (addsOne_of_new_iff hseal ttl hnew).mp hadds⟩
        · exact absurd hadds (not_addsOne_of_taken hseal ttl hnew)
      · intro h loc recipient encryptedBody hseal
        obtain ⟨hnew, hdrop⟩ := h ⟨_, hseal⟩
        obtain ⟨r, hr⟩ := exec_send_of_new hseal ttl hnew
        exact ⟨⟨r, congrArg Prod.fst hr⟩, (addsOne_of_new_iff hseal ttl hnew).mpr hdrop⟩
    | _ => exact Iff.rfl
  | _ => exact Iff.rfl

/-- **When sends are independent.**  In a run of a node every send adds its two rows exactly
when each body is new to the two tables and each lifetime fits. -/
theorem independent_iff_meets (st : NodeState W) (ops : List (Op C)) :
    (∀ l₁ op l₂, ops = l₁ ++ op :: l₂ → Independent (run step st l₁) op) ↔
      Meets step NewBody st ops := by
  rw [meets_iff_forall_split]
  constructor
  · exact fun h l₁ op l₂ heq => (independent_iff _ op).mp (h l₁ op l₂ heq)
  · exact fun h l₁ op l₂ heq => (independent_iff _ op).mpr (h l₁ op l₂ heq)

/-! ## Runs of sends -/

/-- A call of `send`. -/
structure Call (C : Cipher W) where
  env : CallEnv W
  target : String
  body : String
  ttl : Option UInt64
  entropy : C.Entropy

namespace Call

/-- The call as an operation. -/
def op (c : Call C) : Op C := .node (.send c.env c.target c.body c.ttl c.entropy)

/-- The body can be sealed, and the lifetime fits. -/
structure Valid (c : Call C) : Prop where
  sealed : ∃ r, sealBody C c.env c.target c.body c.entropy = .ok r
  fits : DropFits c.ttl c.env.now

end Call

/-- Of the ids of `bodies`, those of the bodies in `sent` are taken in the two tables. -/
def Taken (bodies : Set String) (st : NodeState W) (sent : List String) : Prop :=
  ∀ body ∈ bodies, (st.db.messages.get? (bodyId body) = none ↔ body ∉ sent) ∧
    (st.db.deadDrops.get? (bodyId body) = none ↔ body ∉ sent)

variable {bodies : Set String}

/-- Putting a row under the id of a body takes that id and no other. -/
theorem get?_insertOrIgnore_bodyId (hid : Set.InjOn (bodyId : String → W.Digest) bodies) {V : Type}
    {t : SqlTable W.Digest V} {sent : List String}
    (h : ∀ body ∈ bodies, t.get? (bodyId body) = none ↔ body ∉ sent) {new : String}
    (hnew : new ∈ bodies) (v : V) {body : String} (hbody : body ∈ bodies) :
    (t.insertOrIgnore (bodyId new) v).get? (bodyId body) = none ↔ body ∉ new :: sent := by
  rw [SqlTable.get?_insertOrIgnore, List.mem_cons, not_or]
  split_ifs with heq
  · rw [hid.eq_iff hbody hnew] at heq
    simp [heq]
  · rw [hid.eq_iff hbody hnew] at heq
    rw [h body hbody, and_iff_right heq]

/-- A valid call with a new body takes the id of its body. -/
theorem taken_step (hid : Set.InjOn (bodyId : String → W.Digest) bodies) {st : NodeState W}
    {sent : List String} (h : Taken bodies st sent) {c : Call C} (hc : c.Valid)
    (hbodies : c.body ∈ bodies) (hnew : c.body ∉ sent) :
    Taken bodies (step st c.op) (c.body :: sent) := by
  obtain ⟨⟨loc, recipient, encryptedBody⟩, hseal⟩ := hc.sealed
  have hstep := after_send_of_new hseal c.ttl ((h c.body hbodies).1.mpr hnew)
  intro body hbody
  constructor
  · rw [Call.op, step, NodeOp.apply, hstep, db_afterHandOut]
    dsimp only
    rw [messages_sentDb]
    exact get?_insertOrIgnore_bodyId hid (fun b hb => (h b hb).1) hbodies _ hbody
  · rcases deadDrops_sentDb st.db loc recipient c.body encryptedBody c.ttl c.env.now with
      ⟨-, row, -, -, hput⟩ | ⟨hnot, -⟩
    · rw [Call.op, step, NodeOp.apply, hstep, db_afterHandOut]
      dsimp only
      rw [hput]
      exact get?_insertOrIgnore_bodyId hid (fun b hb => (h b hb).2) hbodies row hbody
    · exact absurd hc.fits hnot

/-- A run of valid calls meets the condition when no body repeats one before it. -/
theorem meets_calls_iff (hid : Set.InjOn (bodyId : String → W.Digest) bodies) {st : NodeState W}
    {sent : List String} (h : Taken bodies st sent) (calls : List (Call C))
    (hcalls : ∀ c ∈ calls, c.Valid ∧ c.body ∈ bodies) :
    Meets step NewBody st (calls.map Call.op) ↔
      (calls.map Call.body).Nodup ∧ ∀ body ∈ calls.map Call.body, body ∉ sent := by
  induction calls generalizing st sent with
  | nil => simp [Meets]
  | cons c calls ih =>
    obtain ⟨hc, hbodies⟩ := hcalls c List.mem_cons_self
    have hfirst : NewBody st c.op ↔ c.body ∉ sent := by
      constructor
      · exact fun hnew => (h c.body hbodies).1.mp (hnew hc.sealed).1
      · exact fun hnew _ =>
          ⟨(h c.body hbodies).1.mpr hnew, (h c.body hbodies).2.mpr hnew, hc.fits⟩
    rw [List.map_cons, List.map_cons, Meets, List.nodup_cons, hfirst]
    constructor
    · rintro ⟨hnew, hrest⟩
      have hlater := (ih (taken_step hid h hc hbodies hnew)
        (fun d hd => hcalls d (List.mem_cons_of_mem _ hd))).mp hrest
      refine ⟨⟨fun hmem => hlater.2 _ hmem List.mem_cons_self, hlater.1⟩, fun body hbody => ?_⟩
      rcases List.mem_cons.mp hbody with rfl | hbody
      · exact hnew
      · exact fun hsent => hlater.2 body hbody (List.mem_cons_of_mem _ hsent)
    · rintro ⟨⟨hrepeat, hnodup⟩, hdisjoint⟩
      have hnew : c.body ∉ sent := hdisjoint c.body List.mem_cons_self
      refine ⟨hnew, (ih (taken_step hid h hc hbodies hnew)
        (fun d hd => hcalls d (List.mem_cons_of_mem _ hd))).mpr ⟨hnodup, fun body hbody => ?_⟩⟩
      rw [List.mem_cons, not_or]
      exact ⟨fun heq => hrepeat (heq ▸ hbody), hdisjoint body (List.mem_cons_of_mem _ hbody)⟩

/-- **Runs of sends.**  On a new node, valid sends are independent exactly when no body is sent
twice, whoever the recipients are. -/
theorem sends_independent_iff_nodup (hW : W.Lawful) (calls : List (Call C))
    (hcalls : ∀ c ∈ calls, c.Valid)
    (hhash : Set.InjOn W.blake3 {bytes | ∃ c ∈ calls, W.ofStr c.body = bytes}) :
    (∀ l₁ op l₂, calls.map Call.op = l₁ ++ op :: l₂ →
        Independent (run step NodeOp.fresh l₁) op) ↔
      (calls.map Call.body).Nodup := by
  have hid : Set.InjOn (bodyId : String → W.Digest) {body | ∃ c ∈ calls, c.body = body} := by
    rintro _ ⟨c, hc, rfl⟩ _ ⟨c', hc', rfl⟩ h
    exact hW.ofStr_injective (hhash ⟨c, hc, rfl⟩ ⟨c', hc', rfl⟩ h)
  have hfresh : Taken {body | ∃ c ∈ calls, c.body = body} (NodeOp.fresh : NodeState W) [] :=
    fun body _ => ⟨iff_of_true rfl List.not_mem_nil, iff_of_true rfl List.not_mem_nil⟩
  rw [independent_iff_meets,
    meets_calls_iff hid hfresh calls (fun c hc => ⟨hcalls c hc, c, hc, rfl⟩)]
  exact and_iff_left (fun body _ => List.not_mem_nil)

/-! ## The same text twice -/

/-- Alice sends a text. -/
def aliceSends (recipient : IdentityKey) (body : String) (ttl : Option UInt64) :
    Op Cipher.symbolic :=
  .node (.send (NodeOp.offline NodeOp.alice 1000) (Hex.encode recipient) body ttl (0 : ℕ))

/-- The sealed body is there for every key of the right length. -/
theorem sealBody_alice {recipient : IdentityKey} (hkey : recipient.length = identityKeyLen)
    (body : String) :
    sealBody Cipher.symbolic (NodeOp.offline NodeOp.alice 1000) (Hex.encode recipient) body (0 : ℕ)
      = .ok (NodeOp.alice, recipient,
          .ciphertext (Wire.symbolic.ofStr body) recipient (0 : ℕ)) := by
  unfold sealBody
  rw [NodeOp.resolve_encode rfl hkey]
  rfl

/-- **The same text to two people, and a message that expires at once.**  What Alice wrote to Bob
she cannot write to Carol; and a message with lifetime zero has no dead drop. -/
theorem not_independent_same_body :
    ¬Independent (run step NodeOp.fresh [aliceSends NodeOp.bob "hello" none])
        (aliceSends NodeOp.carol "hello" none) ∧
      ¬Independent NodeOp.fresh (aliceSends NodeOp.bob "hello" (some 0)) := by
  have hbob := @sealBody_alice NodeOp.bob rfl "hello"
  have hcarol := @sealBody_alice NodeOp.carol rfl "hello"
  rw [independent_iff, independent_iff]
  constructor
  · intro hnew
    have hfree := (hnew ⟨_, hcarol⟩).1
    have hstep : (run step NodeOp.fresh [aliceSends NodeOp.bob "hello" none]).db
        = sentDb (NodeOp.fresh : NodeState Wire.symbolic).db
            (preparedOf NodeOp.alice NodeOp.bob "hello"
              (.ciphertext (Wire.symbolic.ofStr "hello") NodeOp.bob (0 : ℕ)) none)
            "hello" none 1000 :=
      (congrArg NodeState.db (after_send_of_new hbob none rfl)).trans (db_afterHandOut _ _ _ _ _)
    rw [hstep, messages_sentDb, SqlTable.get?_insertOrIgnore] at hfree
    exact absurd hfree (by simp [preparedOf, bodyId])
  · intro hnew
    exact (hnew ⟨_, hbob⟩).2.2.1 rfl

end SendIndependence
