/-
# Sessions started from a substituted bundle

The adversary of the symbolic model hands `encrypt_for_peer` any prekey bundle.  The
signature in it is never looked at, so a session is started from whatever keys it names:
the secret of X3DH and the key of the first ciphertext are secret exactly when one of
these keys is honest (`secret_iff`).  `validate_prekey_bundle`, which no session calls,
would see to that as long as the identity signs honest keys only
(`secret_of_validated`); but it says nothing about `identity_x25519`
(`not_boundBySignature`).
-/
import Ephemera.Session

namespace BundleAuthenticity

open DolevYao Ratchet StateExcept RatchetAgreement Session

/-! ## The calls -/

/-- A key pair of an honest party. -/
def honestPair (i : ℕ) : X25519KeyPair symbolicSuite := keyPair (SymbolicSuite.honestSecret i)

/-- A bundle over the symbolic keys. -/
abbrev Bundle := PrekeyBundle symbolicSigning

/-- A call of `encrypt_for_peer` with a bundle.  The initiator is honest: its key pair and
those it draws are given by the numbers of honest secrets. -/
structure Call where
  db : SessionDb symbolicSuite
  conversationId : String
  peerPubkey : IdentityKey
  ourX25519 : ℕ
  ourIdentity : IdentityKey
  bundle : Bundle
  plaintext : List UInt8
  ephemeral : ℕ
  ourRatchet : ℕ
  nonce : ℕ

namespace Call

/-- What the call draws. -/
def entropy (c : Call) : Entropy symbolicSuite :=
  ⟨honestPair c.ephemeral, honestPair c.ourRatchet, c.nonce⟩

/-- The result of the call. -/
def result (c : Call) : Except SessionError (EncryptedMessage symbolicSuite) :=
  (exec (encryptForPeer c.conversationId c.peerPubkey (honestPair c.ourX25519) c.ourIdentity
    (some c.bundle) c.plaintext c.entropy) c.db).1

/-- The X3DH exchange of the call. -/
def exchange (c : Call) : Except SessionError (X3dhInitiatorResult symbolicSuite) :=
  x3dhInitiate (honestPair c.ourX25519).secret (honestPair c.ourX25519).publicKey c.ourIdentity
    c.bundle (honestPair c.ephemeral)

/-- The conversation has no session, and the bundle is one of `B`. -/
def Initiates (c : Call) (B : IdentityKey) : Prop :=
  hasSession c.db c.conversationId = false ∧ c.bundle.identityKey = B

/-- The call succeeds in creating a session from a bundle of `B`. -/
def Creates (c : Call) (B : IdentityKey) : Prop :=
  c.Initiates B ∧ ∃ message, c.result = .ok message

/-- **Secrecy of a new session.**  When the call creates a session from a bundle of `B`, the
adversary can derive neither the shared secret nor the key of the first ciphertext. -/
def Secret (c : Call) (B : IdentityKey) : Prop :=
  c.Creates B →
    (∀ r, c.exchange = .ok r → ¬ Derivable r.sharedSecret) ∧
      ∀ message key nonce plaintext, c.result = .ok message →
        message.ciphertext = .enc key nonce plaintext → ¬ Derivable key

end Call

/-- A bundle is bound together by its signature: it verifies, and it verifies for no other
signed prekey and no other `identity_x25519`. -/
def BoundBySignature (bundle : Bundle) : Prop :=
  validatePrekeyBundle bundle = .ok () ∧ ∀ signedPrekey identityX25519,
    validatePrekeyBundle { bundle with
        signedPrekey := signedPrekey, identityX25519 := identityX25519 } = .ok () →
      signedPrekey = bundle.signedPrekey ∧ identityX25519 = bundle.identityX25519

/-- Only bundles that their signature binds together are used. -/
def Call.UsesBoundBundle (c : Call) (B : IdentityKey) : Prop :=
  c.Creates B → BoundBySignature c.bundle

/-! ## Keys of a bundle -/

/-- The X25519 keys of a bundle. -/
def x25519Keys (bundle : Bundle) : List PublicKey :=
  [bundle.signedPrekey, bundle.identityX25519] ++ bundle.oneTimePrekey.toList

/-- One of the X25519 keys is that of an honest party. -/
def HasHonestKey (bundle : Bundle) : Prop :=
  ∃ k ∈ x25519Keys bundle, ∃ j, k = .of (.honest j)

theorem not_hasHonestKey_iff {bundle : Bundle} :
    ¬ HasHonestKey bundle ↔ ∀ k ∈ x25519Keys bundle, ∀ j, k ≠ .of (.honest j) := by
  simp only [HasHonestKey, not_exists, not_and, ne_eq]

/-- The secret of X3DH can be derived exactly when no key of the bundle is honest: each key
meets an honest secret in one of the exchanges. -/
theorem derivable_initiatorSecret_iff (bundle : Bundle) (i j : ℕ) :
    Derivable (initiatorSecret (honestPair i).secret bundle (honestPair j)) ↔
      ¬ HasHonestKey bundle := by
  have hdh : ∀ (n : ℕ) (k : PublicKey),
      Derivable (symbolicSuite.diffieHellman (honestPair n).secret k) ↔
        ∀ m, k ≠ .of (.honest m) := derivable_agree_iff
  rw [not_hasHonestKey_iff]
  refine derivable_kdf_ofList_iff.trans ?_
  simp only [x25519Keys, List.cons_append, List.nil_append, List.forall_mem_cons, hdh]
  cases bundle.oneTimePrekey with
  | none =>
    simp only [Option.map_none, Option.toList_none]
    tauto
  | some otpk =>
    simp only [Option.map_some, Option.toList_some, List.forall_mem_singleton, hdh]
    tauto

/-- The chain key of the first message. -/
def firstChainKey (c : Call) : Term :=
  chainOf (S := symbolicSuite)
    (initiatorSecret (honestPair c.ourX25519).secret c.bundle (honestPair c.ephemeral))
    (Term.agree (.honest c.ourRatchet) c.bundle.signedPrekey)

/-- The key of the first message can be derived exactly when the secret of X3DH can. -/
theorem derivable_firstMessageKey_iff (c : Call) :
    Derivable (messageKey (S := symbolicSuite) (firstChainKey c)) ↔ ¬ HasHonestKey c.bundle := by
  have hkey : Derivable (messageKey (S := symbolicSuite) (firstChainKey c)) ↔
      Derivable (firstChainKey c) :=
    derivable_kdf_ofList_iff.trans List.forall_mem_singleton
  have hchain : Derivable (firstChainKey c) ↔
      Derivable (initiatorSecret (honestPair c.ourX25519).secret c.bundle
          (honestPair c.ephemeral)) ∧
        Derivable (Term.agree (.honest c.ourRatchet) c.bundle.signedPrekey) :=
    derivable_kdf_ofList_iff.trans (by rw [List.forall_mem_cons, List.forall_mem_singleton])
  rw [hkey, hchain, derivable_initiatorSecret_iff]
  refine ⟨fun h => h.1, fun h => ⟨h, ?_⟩⟩
  exact (derivable_agree_iff _ _).mpr (not_hasHonestKey_iff.mp h _ (by simp [x25519Keys]))

/-! ## Calls without a session -/

namespace Call

variable {c : Call} {B : IdentityKey}

theorem exchange_eq (c : Call) :
    c.exchange = .ok ⟨initiatorSecret (honestPair c.ourX25519).secret c.bundle
        (honestPair c.ephemeral),
      initialMessageOf (honestPair c.ourX25519).publicKey c.ourIdentity c.bundle
        (honestPair c.ephemeral)⟩ :=
  x3dhInitiate_eq _ _ _ _ _

/-- Without a session the call succeeds, whatever the bundle; its ciphertext is under the first
key of the new chain. -/
theorem result_eq (h : hasSession c.db c.conversationId = false) :
    ∃ message, c.result = .ok message ∧
      message.ciphertext = .enc (messageKey (S := symbolicSuite) (firstChainKey c)) c.nonce
        c.plaintext := by
  obtain ⟨state, hinit, hstate⟩ := sendingState_none (E := symbolicSigning)
    (honestPair c.ourX25519) c.ourIdentity c.bundle c.entropy
  rw [initSender_eq, Except.ok.injEq] at hinit
  subst hinit
  refine ⟨⟨⟨(honestPair c.ourRatchet).publicKey, 0, 0⟩,
    .enc (messageKey (S := symbolicSuite) (firstChainKey c)) c.nonce c.plaintext,
    some (initialMessageOf (honestPair c.ourX25519).publicKey c.ourIdentity c.bundle
      (honestPair c.ephemeral))⟩, ?_, rfl⟩
  unfold result
  rw [encryptForPeer_exec, hasSession_eq_false_iff.mp h, hstate]
  rfl

/-- A call that finds no session and is given a bundle of `B` creates one. -/
theorem creates_iff : c.Creates B ↔ c.Initiates B := by
  refine ⟨fun h => h.1, fun h => ⟨h, ?_⟩⟩
  obtain ⟨message, hmessage, -⟩ := result_eq h.1
  exact ⟨message, hmessage⟩

/-- The secrets of a new session are kept exactly when the bundle has an honest key. -/
theorem secret_iff : c.Secret B ↔ (c.Initiates B → HasHonestKey c.bundle) := by
  unfold Secret
  rw [creates_iff]
  refine imp_congr_right (fun h => ?_)
  obtain ⟨message, hmessage, hcipher⟩ := result_eq h.1
  constructor
  · intro hsecret
    have hshared := hsecret.1 _ c.exchange_eq
    rw [derivable_initiatorSecret_iff] at hshared
    exact not_not.mp hshared
  · intro hhonest
    refine ⟨fun r hr => ?_, fun message' key nonce plaintext hmessage' hcipher' => ?_⟩
    · rw [exchange_eq, Except.ok.injEq] at hr
      subst hr
      rw [derivable_initiatorSecret_iff]
      exact not_not.mpr hhonest
    · rw [hmessage, Except.ok.injEq] at hmessage'
      subst hmessage'
      rw [hcipher, Ciphertext.enc.injEq] at hcipher'
      rw [← hcipher'.1, derivable_firstMessageKey_iff]
      exact not_not.mpr hhonest

end Call

/-- Validation does not look at `identity_x25519`, so no bundle is bound by its signature. -/
theorem not_boundBySignature (bundle : Bundle) : ¬ BoundBySignature bundle := by
  rintro ⟨hvalid, hbound⟩
  have hall : ∀ x, x = bundle.identityX25519 := fun x =>
    (hbound bundle.signedPrekey x hvalid).2
  have heq : PublicKey.lowOrder = .of (.adversary 0) :=
    (hall PublicKey.lowOrder).trans (hall (.of (.adversary 0))).symm
  cases heq

/-- **Session authenticity.**  The secrets of every session created from a bundle of `B` are
kept exactly when a bundle used for it has an honest key; and no bundle that is used is bound
together by its signature. -/
theorem authentic_iff (c : Call) (B : IdentityKey) :
    (c.Secret B ↔ ¬ c.Initiates B ∨ HasHonestKey c.bundle) ∧
      (c.UsesBoundBundle B ↔ ¬ c.Initiates B) := by
  refine ⟨Call.secret_iff.trans imp_iff_not_or, ?_⟩
  unfold Call.UsesBoundBundle
  rw [Call.creates_iff]
  exact ⟨fun h hinit => not_boundBySignature _ (h hinit), fun h hinit => absurd hinit h⟩

/-! ## What validation would give -/

/-- The signatures the adversary can put into a bundle, for an identity that signs the keys of
`signed`: those of that identity are on these keys. -/
def Feasible (B : IdentityKey) (signed : List PublicKey) (bundle : Bundle) : Prop :=
  ∀ key, bundle.signedPrekeySignature = SymbolicSignature.signed B key → key ∈ signed

/-- **A validated bundle would be enough.**  If `B` signs honest keys only, every bundle of `B`
that `validate_prekey_bundle` accepts has an honest key. -/
theorem hasHonestKey_of_validated {B : IdentityKey} {signed : List PublicKey} {bundle : Bundle}
    (hsigned : ∀ key ∈ signed, ∃ j, key = .of (.honest j)) (hfeasible : Feasible B signed bundle)
    (hB : bundle.identityKey = B) (hvalid : validatePrekeyBundle bundle = .ok ()) :
    HasHonestKey bundle := by
  have hsig : bundle.signedPrekeySignature
      = SymbolicSignature.signed bundle.identityKey bundle.signedPrekey :=
    symbolicSigning_verify_iff.mp (validatePrekeyBundle_eq_ok_iff.mp hvalid)
  rw [hB] at hsig
  exact ⟨bundle.signedPrekey, by simp [x25519Keys], hsigned _ (hfeasible _ hsig)⟩

/-- So secrecy would follow from a call of `validate_prekey_bundle`. -/
theorem secret_of_validated {c : Call} {B : IdentityKey} {signed : List PublicKey}
    (hsigned : ∀ key ∈ signed, ∃ j, key = .of (.honest j))
    (hfeasible : Feasible B signed c.bundle) (hvalid : validatePrekeyBundle c.bundle = .ok ()) :
    c.Secret B :=
  Call.secret_iff.mpr
    (fun hinit => hasHonestKey_of_validated hsigned hfeasible hinit.2 hvalid)

/-! ## A substituted bundle -/

/-- A bundle under the name of the identity `[66]`, with keys of the adversary and no
signature of that identity. -/
def substitutedBundle : Bundle where
  identityKey := [66]
  identityX25519 := PublicKey.of (.adversary 0)
  signedPrekey := PublicKey.of (.adversary 1)
  signedPrekeySignature := SymbolicSignature.junk []
  oneTimePrekey := none

/-- The first message to that identity, made from that bundle. -/
def substitutedCall : Call where
  db := SqlTable.empty
  conversationId := "conversation"
  peerPubkey := [66]
  ourX25519 := 0
  ourIdentity := [65]
  bundle := substitutedBundle
  plaintext := [1]
  ephemeral := 1
  ourRatchet := 2
  nonce := 0

/-- `validate_prekey_bundle` rejects the bundle, `encrypt_for_peer` creates a session from it
all the same, and the adversary can derive its secret. -/
theorem substituted_bundle_used :
    validatePrekeyBundle substitutedBundle
        = .error (.invalidPrekeyBundle "signed prekey signature verification failed") ∧
      substitutedCall.Creates [66] ∧ ¬ substitutedCall.Secret [66] ∧
      ¬ substitutedCall.UsesBoundBundle [66] := by
  have hinit : substitutedCall.Initiates [66] := ⟨rfl, rfl⟩
  have hcreates : substitutedCall.Creates [66] := Call.creates_iff.mpr hinit
  refine ⟨rfl, hcreates, fun h => ?_, fun h => not_boundBySignature _ (h hcreates)⟩
  obtain ⟨k, hk, j, rfl⟩ := Call.secret_iff.mp h hinit
  simp [x25519Keys, substitutedCall, substitutedBundle] at hk

end BundleAuthenticity
