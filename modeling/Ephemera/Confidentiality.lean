/-
# What a sent message gives away

Two sends that differ in their bodies alone, compared by what they hand out once every
ciphertext is replaced by the same bytes.  A send publishes the body as it is next to the
encrypted envelope, and the envelope carries the hash of the body as its message id, so the
two can be told apart as soon as anything leaves the node.
-/
import Ephemera.NodeOp

/-- The cipher whose ciphertexts are all `hole`; it fails where `C` does. -/
def Cipher.erase {W : Wire} (C : Cipher W) (hole : W.Bytes) : Cipher W :=
  { C with
    encryptMessage := fun plaintext recipient entropy =>
      (C.encryptMessage plaintext recipient entropy).map (fun _ => hole) }

namespace Confidentiality

open SocialService NodeState NodeIngest DirectMessage

variable {W : Wire} {C : Cipher W}

/-! ## What a send hands out -/

/-- Every payload a send gives to `publish`, and every record it puts into DHT storage. -/
def handedOut (C : Cipher W) (env : CallEnv W) (target body : String) (ttl : Option UInt64)
    (entropy : C.Entropy) (db : MetadataDb W) (dht : DhtStorage W) :
    List W.Bytes × List (DhtRecord W) :=
  let st := after (send C env target body ttl entropy) ⟨db, dht, [], []⟩
  (st.published, st.stored)

/-- A send does not get to the point where it hands something out: the caller, the target or
the encryption fails, the message id is taken, or there is no network and no DHT storage that
takes the record. -/
def Silent (C : Cipher W) (env : CallEnv W) (target body : String) (ttl : Option UInt64)
    (entropy : C.Entropy) (db : MetadataDb W) (dht : DhtStorage W) : Prop :=
  ∀ loc recipient encryptedBody,
    sealBody C env target body entropy = .ok (loc, recipient, encryptedBody) →
      db.messages.get? (W.blake3 (W.ofStr body)) ≠ none ∨
        env.network = none ∧ (env.withDht = false ∨
          ∀ dht', dht.put (sentRecord (preparedOf loc recipient body encryptedBody ttl) env.now)
            env.now ≠ .ok dht')

variable {env : CallEnv W} {target body : String} {ttl : Option UInt64} {entropy : C.Entropy}
  {db : MetadataDb W} {dht : DhtStorage W}

theorem stored_afterHandOut (env : CallEnv W) (target body : String) (p : Prepared W)
    (db : MetadataDb W) (dht : DhtStorage W) :
    (afterHandOut env target body p ⟨db, dht, [], []⟩).stored = [sentRecord p env.now] ∧
        env.withDht = true ∧ (∃ dht', dht.put (sentRecord p env.now) env.now = .ok dht') ∨
      (afterHandOut env target body p ⟨db, dht, [], []⟩).stored = [] ∧
        (env.withDht = false ∨ ∀ dht', dht.put (sentRecord p env.now) env.now ≠ .ok dht') := by
  unfold afterHandOut afterStore
  rw [dht_afterPublish, dht_afterPublish, stored_afterPublish, stored_afterPublish]
  by_cases hdht : env.withDht = true
  · rw [if_pos hdht]
    cases hput : dht.put (sentRecord p env.now) env.now with
    | ok dht' => exact Or.inl ⟨rfl, hdht, dht', rfl⟩
    | error e =>
      refine Or.inr ⟨?_, Or.inr (fun dht' h => by cases h)⟩
      rw [stored_afterPublish, stored_afterPublish]
  · rw [if_neg hdht, stored_afterPublish, stored_afterPublish]
    exact Or.inr ⟨rfl, Or.inl (by simpa using hdht)⟩

/-- A send is silent, or the first thing it hands out is its body, or all it hands out is a
record under the hash of its body. -/
theorem handedOut_cases (C : Cipher W) (env : CallEnv W) (target body : String)
    (ttl : Option UInt64) (entropy : C.Entropy) (db : MetadataDb W) (dht : DhtStorage W) :
    (Silent C env target body ttl entropy db dht ∧
      handedOut C env target body ttl entropy db dht = ([], [])) ∨
    (¬Silent C env target body ttl entropy db dht ∧ env.network.isSome = true ∧
      ∃ loc rest stored, handedOut C env target body ttl entropy db dht
        = (W.jsonToVec (plaintextMessage loc target body env.now) :: rest, stored)) ∨
    (¬Silent C env target body ttl entropy db dht ∧ env.network.isSome = false ∧
      ∃ p, p.msgId = W.blake3 (W.ofStr body) ∧
        handedOut C env target body ttl entropy db dht = ([], [sentRecord p env.now])) := by
  unfold handedOut
  cases hseal : sealBody C env target body entropy with
  | error e =>
    left
    rw [after_send_of_error hseal]
    refine ⟨fun loc recipient encryptedBody h => ?_, rfl⟩
    rw [hseal] at h
    cases h
  | ok r =>
    obtain ⟨loc, recipient, encryptedBody⟩ := r
    by_cases hnew : db.messages.get? (W.blake3 (W.ofStr body)) = none
    · rw [after_send_of_new hseal ttl hnew]
      -- past the check of the id, only a missing network and storage keep a send silent
      have hsilent : Silent C env target body ttl entropy db dht ↔
          env.network = none ∧ (env.withDht = false ∨
            ∀ dht', dht.put (sentRecord (preparedOf loc recipient body encryptedBody ttl) env.now)
              env.now ≠ .ok dht') := by
        constructor
        · intro h
          exact (h loc recipient encryptedBody hseal).resolve_left (not_not.mpr hnew)
        · intro h loc' recipient' encryptedBody' hseal'
          rw [hseal, Except.ok.injEq, Prod.mk.injEq, Prod.mk.injEq] at hseal'
          obtain ⟨rfl, rfl, rfl⟩ := hseal'
          exact Or.inr h
      dsimp only
      rw [hsilent, published_afterHandOut, List.nil_append]
      by_cases hnet : env.network.isSome = true
      · refine Or.inr (Or.inl ⟨fun h => ?_, hnet, ?_⟩)
        · rw [h.1] at hnet
          cases hnet
        · rw [if_pos hnet]
          exact ⟨loc, _, _, rfl⟩
      · have hnone : env.network = none := by simpa using hnet
        rw [if_neg hnet]
        rcases stored_afterHandOut env target body (preparedOf loc recipient body encryptedBody ttl)
            (sentDb db (preparedOf loc recipient body encryptedBody ttl) body ttl env.now) dht with
          ⟨hstored, hdht, dht', hput⟩ | ⟨hstored, hrefused⟩
        · refine Or.inr (Or.inr ⟨?_, by simpa using hnet, _, rfl, by rw [hstored]⟩)
          rintro ⟨-, hfalse | hrefused⟩
          · rw [hdht] at hfalse
            cases hfalse
          · exact hrefused dht' hput
        · exact Or.inl ⟨⟨hnone, hrefused⟩, by rw [hstored]⟩
    · left
      rw [after_send_of_taken hseal ttl hnew]
      exact ⟨fun _ _ _ _ => Or.inl hnew, rfl⟩

/-! ## Two sends -/

/-- The body is read back from the plaintext message. -/
theorem body_of_plaintextMessage (hW : W.Lawful) {loc loc' : IdentityKey} {body' : String}
    {now : UInt64} (h : W.jsonToVec (plaintextMessage loc target body now)
      = W.jsonToVec (plaintextMessage loc' target body' now)) : body = body' := by
  obtain ⟨json, hjson, hget⟩ := directMessage?_plaintextMessage hW loc target body now
  obtain ⟨json', hjson', hget'⟩ := directMessage?_plaintextMessage hW loc' target body' now
  rw [h, hjson', Option.some.injEq] at hjson
  have hbody : (plaintextMessage loc target body now).get "body"
      = (plaintextMessage loc' target body' now).get "body" := by
    rw [← hget, ← hget', hjson]
  exact JsonField.str.inj (Option.some.inj hbody)

/-- The hash of the body is read back from the record. -/
theorem body_of_sentRecord (hW : W.Lawful) {body' : String}
    (hhash : Set.InjOn W.blake3 {W.ofStr body, W.ofStr body'}) {p p' : Prepared W} {now : UInt64}
    (hp : p.msgId = W.blake3 (W.ofStr body)) (hp' : p'.msgId = W.blake3 (W.ofStr body'))
    (h : sentRecord p now = sentRecord p' now) : body = body' := by
  have hvalue : W.envelopeToVec (sentEnvelope p now) = W.envelopeToVec (sentEnvelope p' now) :=
    congrArg DhtRecord.value h
  have henv := hW.envelope (sentEnvelope p now)
  rw [hvalue, hW.envelope, Option.some.injEq] at henv
  have hid : p'.msgId = p.msgId := congrArg DeadDropEnvelope.messageId henv
  rw [hp, hp'] at hid
  exact hW.ofStr_injective (hhash (Set.mem_insert _ _) (Set.mem_insert_of_mem _ rfl) hid.symm)

/-- **What a send gives away.**  With ciphertexts opaque, two sends that differ in their
bodies alone hand out the same exactly when the bodies are equal or both sends are silent. -/
theorem handedOut_eq_iff (hW : W.Lawful) (C : Cipher W) (hole : W.Bytes) (env : CallEnv W)
    (target : String) (ttl : Option UInt64) (entropy : C.Entropy) (db : MetadataDb W)
    (dht : DhtStorage W) (body₁ body₂ : String)
    (hhash : Set.InjOn W.blake3 {W.ofStr body₁, W.ofStr body₂}) :
    handedOut (C.erase hole) env target body₁ ttl entropy db dht
        = handedOut (C.erase hole) env target body₂ ttl entropy db dht ↔
      body₁ = body₂ ∨
        Silent (C.erase hole) env target body₁ ttl entropy db dht ∧
          Silent (C.erase hole) env target body₂ ttl entropy db dht := by
  constructor
  · -- equal outputs are of one kind, and unless both are silent they show the body
    intro heq
    rcases handedOut_cases (C.erase hole) env target body₁ ttl entropy db dht with
      ⟨hs₁, h₁⟩ | ⟨-, hnet₁, loc₁, rest₁, stored₁, h₁⟩ | ⟨-, hnet₁, p₁, hp₁, h₁⟩ <;>
    rcases handedOut_cases (C.erase hole) env target body₂ ttl entropy db dht with
      ⟨hs₂, h₂⟩ | ⟨-, hnet₂, loc₂, rest₂, stored₂, h₂⟩ | ⟨-, hnet₂, p₂, hp₂, h₂⟩ <;>
    rw [h₁, h₂, Prod.mk.injEq] at heq
    · exact Or.inr ⟨hs₁, hs₂⟩
    · cases heq.1
    · cases heq.2
    · cases heq.1
    · exact Or.inl (body_of_plaintextMessage hW (List.cons.inj heq.1).1)
    · cases heq.1
    · cases heq.2
    · cases heq.1
    · exact Or.inl (body_of_sentRecord hW hhash hp₁ hp₂ (List.cons.inj heq.2).1)
  · rintro (rfl | ⟨hs₁, hs₂⟩)
    · rfl
    · rcases handedOut_cases (C.erase hole) env target body₁ ttl entropy db dht with
        ⟨-, h₁⟩ | ⟨hnot, -⟩ | ⟨hnot, -⟩
      · rcases handedOut_cases (C.erase hole) env target body₂ ttl entropy db dht with
          ⟨-, h₂⟩ | ⟨hnot, -⟩ | ⟨hnot, -⟩
        · rw [h₁, h₂]
        · exact absurd hs₂ hnot
        · exact absurd hs₂ hnot
      · exact absurd hs₁ hnot
      · exact absurd hs₁ hnot

/-- What Alice hands out when she sends `body` to Bob from a fresh node. -/
def handedOutToBob (env : CallEnv Wire.symbolic) (body : String) :
    List Wire.symbolic.Bytes × List (DhtRecord Wire.symbolic) :=
  handedOut (Cipher.symbolic.erase (.raw [])) env (Hex.encode NodeOp.bob) body none (0 : ℕ)
    NodeOp.fresh.db NodeOp.fresh.dht

/-- Without network and DHT storage nothing is given away. -/
theorem handedOut_eq_iff_offline :
    handedOutToBob (NodeOp.offline NodeOp.alice 5) "yes"
      = handedOutToBob (NodeOp.offline NodeOp.alice 5) "nah" := by
  refine (handedOut_eq_iff Wire.symbolic_lawful Cipher.symbolic (.raw []) _ _ _ _ _ _ _ _
    (Wire.symbolic_injOn _)).mpr (Or.inr ⟨?_, ?_⟩)
  · exact fun _ _ _ _ => Or.inr ⟨rfl, Or.inl rfl⟩
  · exact fun _ _ _ _ => Or.inr ⟨rfl, Or.inl rfl⟩

/-- Two answers of the same length are told apart by what a send publishes. -/
theorem published_bodies_differ :
    "yes".utf8ByteSize = "nah".utf8ByteSize ∧
      handedOutToBob (NodeOp.online NodeOp.alice 5) "yes"
        ≠ handedOutToBob (NodeOp.online NodeOp.alice 5) "nah" := by
  refine ⟨by decide, fun h => ?_⟩
  have hpublished : (handedOutToBob (NodeOp.online NodeOp.alice 5) "yes").1
      ≠ (handedOutToBob (NodeOp.online NodeOp.alice 5) "nah").1 := by decide +kernel
  exact hpublished (congrArg Prod.fst h)

end Confidentiality
