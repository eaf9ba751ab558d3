/-
# The key derivations of a session

HKDF-SHA256 has collisions, and a ciphertext of XChaCha20-Poly1305 may open under two keys.  What
an argument about a run can use is that neither happens among the keys that the run derives and
the ciphertexts that it opens (`CollisionFree`).  So the calls of `hkdf_derive` that an operation
makes are collected here, under the name of the operation.
-/
import Ephemera.Session
import Mathlib.Data.Set.Function

namespace KeyDerivations

open Ratchet Session

variable {S : CryptoSuite} {E : SigningSuite S}

/-- A call of `hkdf_derive`. -/
structure Derivation (S : CryptoSuite) where
  ikm : List S.Key
  info : String

/-- The key it derives. -/
def Derivation.key (d : Derivation S) : S.Key := S.hkdfSha256 d.ikm d.info

/-! ## The ratchet -/

/-- `kdf_rk`. -/
def ofKdfRk (rootKey dhOutput : S.Key) : Set (Derivation S) :=
  {⟨[rootKey, dhOutput], Info.ratchet.bytes⟩, ⟨[rootKey, dhOutput], Info.chain.bytes⟩}

/-- `kdf_ck`. -/
def ofKdfCk (chainKey : S.Key) : Set (Derivation S) :=
  {⟨[chainKey], Info.chain.bytes⟩, ⟨[chainKey], Info.msgKey.bytes⟩}

/-- `dh_ratchet_step`. -/
def ofDhStep (st : RatchetState S) (theirs : S.Public) (fresh : X25519KeyPair S) :
    Set (Derivation S) :=
  ofKdfRk st.rootKey (S.diffieHellman st.sendRatchetKey.secret theirs) ∪
    ofKdfRk (nextRoot st.rootKey (S.diffieHellman st.sendRatchetKey.secret theirs))
      (S.diffieHellman fresh.secret theirs)

/-- `decrypt_message`: the DH step, if one is made, and the chain up to the number in the
header. -/
def ofDecryptMessage (header : MessageHeader S) (fresh : X25519KeyPair S) (st : RatchetState S) :
    Set (Derivation S) :=
  {d | (needDhStep st header = true ∧ d ∈ ofDhStep st header.ratchetKey fresh) ∨
    ∃ n ≤ header.messageNumber - (atLoop st header fresh).recvCount,
      d ∈ ofKdfCk (advance^[n] (atLoop st header fresh).recvChainKey)}

/-- Of what `decrypt_message` derives are the keys of the DH step, … -/
theorem ofDhStep_subset_ofDecryptMessage {header : MessageHeader S} {st : RatchetState S}
    (h : st.recvRatchetPubkey ≠ some header.ratchetKey) (fresh : X25519KeyPair S) :
    ofDhStep st header.ratchetKey fresh ⊆ ofDecryptMessage header fresh st :=
  fun _ hd => Or.inl ⟨needDhStep_of_ne h, hd⟩

/-- … the next key of each chain key up to the one the message is opened with, … -/
theorem advance_mem_ofDecryptMessage (header : MessageHeader S) (fresh : X25519KeyPair S)
    (st : RatchetState S) {n : ℕ}
    (hn : n ≤ header.messageNumber - (atLoop st header fresh).recvCount) :
    (⟨[advance^[n] (atLoop st header fresh).recvChainKey], Info.chain.bytes⟩ : Derivation S)
      ∈ ofDecryptMessage header fresh st :=
  Or.inr ⟨n, hn, Or.inl rfl⟩

/-- … and the key of the message. -/
theorem messageKey_mem_ofDecryptMessage (header : MessageHeader S) (fresh : X25519KeyPair S)
    (st : RatchetState S) :
    (⟨[openingChain st header fresh], Info.msgKey.bytes⟩ : Derivation S)
      ∈ ofDecryptMessage header fresh st :=
  Or.inr ⟨_, Nat.le_refl _, Or.inr rfl⟩

/-! ## The session manager -/

/-- `x3dh_initiate`. -/
def ofX3dhInitiate (ourIdentityX25519 : S.Secret) (theirBundle : PrekeyBundle E)
    (ephemeral : X25519KeyPair S) : Derivation S where
  ikm := [S.diffieHellman ourIdentityX25519 theirBundle.signedPrekey,
      S.diffieHellman ephemeral.secret theirBundle.identityX25519,
      S.diffieHellman ephemeral.secret theirBundle.signedPrekey] ++
    (theirBundle.oneTimePrekey.map (fun otpk => S.diffieHellman ephemeral.secret otpk)).toList
  info := x3dhInfo

/-- It derives the secret of the initiator. -/
theorem key_ofX3dhInitiate (ourIdentityX25519 : S.Secret) (theirBundle : PrekeyBundle E)
    (ephemeral : X25519KeyPair S) :
    (ofX3dhInitiate ourIdentityX25519 theirBundle ephemeral).key
      = initiatorSecret ourIdentityX25519 theirBundle ephemeral := rfl

/-- `encrypt_for_peer`, with the stored session or with a new one. -/
def ofEncryptForPeer (existing : Option (RatchetState S)) (ourX25519 : X25519KeyPair S)
    (theirBundle : Option (PrekeyBundle E)) (entropy : Entropy S) : Set (Derivation S) :=
  match existing, theirBundle with
  | some state, _ => ofKdfCk state.sendChainKey
  | none, some bundle =>
    let x3dh := ofX3dhInitiate ourX25519.secret bundle entropy.ephemeral
    let dhOut := S.diffieHellman entropy.ourRatchet.secret bundle.signedPrekey
    {x3dh} ∪ ofKdfRk x3dh.key dhOut ∪ ofKdfCk (chainOf x3dh.key dhOut)
  | none, none => ∅

/-- `decrypt_from_peer`. -/
def ofDecryptFromPeer (existing : Option (RatchetState S))
    (ourRatchetKey : Option (X25519KeyPair S)) (sharedSecret : Option S.Key)
    (header : MessageHeader S) (fresh : X25519KeyPair S) : Set (Derivation S) :=
  match receivingState existing ourRatchetKey sharedSecret with
  | .ok state => ofDecryptMessage header fresh state
  | .error _ => ∅

/-! ## No collisions -/

/-- The derivations in `derived` give different keys, and no ciphertext in `opened` opens under
two of these. -/
structure CollisionFree (S : CryptoSuite) (derived : Set (Derivation S)) (opened : Set S.Sealed) :
    Prop where
  key_injOn : Set.InjOn Derivation.key derived
  opens_unique : ∀ d ∈ derived, ∀ d' ∈ derived, ∀ c ∈ opened, ∀ p p',
    S.openBytes d.key c = .ok p → S.openBytes d'.key c = .ok p' → d.key = d'.key

section

variable {derived : Set (Derivation S)} {opened : Set S.Sealed}

/-- A key that has been derived twice was derived from the same. -/
theorem CollisionFree.eq_of_key_eq (h : CollisionFree S derived opened) {d d' : Derivation S}
    (hd : d ∈ derived) (hd' : d' ∈ derived) (heq : d.key = d'.key) :
    d.ikm = d'.ikm ∧ d.info = d'.info := by
  rw [h.key_injOn hd hd' heq]
  exact ⟨rfl, rfl⟩

/-- The message key that opens a ciphertext comes from one chain key. -/
theorem CollisionFree.chainKey_unique (h : CollisionFree S derived opened) {c c' : S.Key}
    (hc : (⟨[c], Info.msgKey.bytes⟩ : Derivation S) ∈ derived)
    (hc' : (⟨[c'], Info.msgKey.bytes⟩ : Derivation S) ∈ derived) {ciphertext : S.Sealed}
    (hmem : ciphertext ∈ opened) {p p' : List UInt8}
    (hp : S.openBytes (messageKey c) ciphertext = .ok p)
    (hp' : S.openBytes (messageKey c') ciphertext = .ok p') : c = c' := by
  have hkeys := h.opens_unique _ hc _ hc' ciphertext hmem p p' hp hp'
  exact (List.cons.inj (h.eq_of_key_eq hc hc' hkeys).1).1

end

/-- The symbolic primitives are free of collisions. -/
theorem collisionFree_symbolicSuite (derived : Set (Derivation symbolicSuite))
    (opened : Set symbolicSuite.Sealed) : CollisionFree symbolicSuite derived opened where
  key_injOn := by
    rintro ⟨ikm, info⟩ _ ⟨ikm', info'⟩ _ h
    obtain ⟨hikm, rfl⟩ := DolevYao.Term.kdf.inj h
    rw [show ikm = ikm' from DolevYao.Term.ofList_injective hikm]
  opens_unique := by
    intro d _ d' _ c _ p p' h h'
    obtain ⟨n, rfl⟩ := SymbolicSuite.openBytes_eq_ok.mp h
    obtain ⟨n', heq⟩ := SymbolicSuite.openBytes_eq_ok.mp h'
    exact (DolevYao.Ciphertext.enc.inj heq).1

end KeyDerivations
