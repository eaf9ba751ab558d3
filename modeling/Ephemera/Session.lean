/-
# Ratchet sessions (`ephemera-message/src/{prekey,x3dh,session}.rs`)

Prekey bundles, the X3DH key exchange and the session manager, which keeps one ratchet
state per conversation in a table.  The first operation on a conversation decides the
role: `encrypt_for_peer` makes an initiator of X3DH, `decrypt_from_peer` a responder.

Signatures come from another crate and are collected in a `SigningSuite`.  The key pairs
and the nonce that the source draws are arguments.

Each of the two operations has one equation that says what it returns and which table it
leaves (`encryptForPeer_exec`, `decryptFromPeer_exec`); no later module unfolds them.
-/
import Ephemera.RatchetAgreement
import Ephemera.SqlTable
import Ephemera.Wire

namespace Session

open Ratchet StateExcept RatchetAgreement CryptoSuite

variable {S : CryptoSuite}

/-- `MessageError`: its variants for bundles and for X3DH, and those that the ratchet
returns. -/
inductive SessionError where
  | x3dhFailed (reason : String)
  | invalidPrekeyBundle (reason : String)
  | message (e : MessageError)
  deriving DecidableEq, Repr

/-! ## Prekey bundles -/

/-- Ed25519 (`ephemera-crypto/src/signing.rs`) on the bytes of X25519 public keys. -/
structure SigningSuite (S : CryptoSuite) where
  SigningKey : Type
  Signature : Type
  publicKey : SigningKey → IdentityKey
  sign : SigningKey → S.Public → Signature
  /-- `verify_signature(..).is_ok()`. -/
  verify : IdentityKey → S.Public → Signature → Bool

/-- `PrekeyBundle`. -/
structure PrekeyBundle (E : SigningSuite S) where
  identityKey : IdentityKey
  identityX25519 : S.Public
  signedPrekey : S.Public
  signedPrekeySignature : E.Signature
  oneTimePrekey : Option S.Public

variable {E : SigningSuite S}

/-- `generate_prekey_bundle`; the key pairs are the generated ones, the second one is drawn
for `include_one_time`. -/
def generatePrekeyBundle (signingKey : E.SigningKey) (identityX25519Pub : S.Public)
    (signedPrekeyPair : X25519KeyPair S) (oneTimePair : Option (X25519KeyPair S)) :
    PrekeyBundle E where
  identityKey := E.publicKey signingKey
  identityX25519 := identityX25519Pub
  signedPrekey := signedPrekeyPair.publicKey
  signedPrekeySignature := E.sign signingKey signedPrekeyPair.publicKey
  oneTimePrekey := oneTimePair.map X25519KeyPair.publicKey

/-- `validate_prekey_bundle`. -/
def validatePrekeyBundle (bundle : PrekeyBundle E) : Except SessionError Unit :=
  if E.verify bundle.identityKey bundle.signedPrekey bundle.signedPrekeySignature then .ok ()
  else .error (.invalidPrekeyBundle "signed prekey signature verification failed")

/-- A bundle is valid exactly when the signature on its signed prekey verifies. -/
theorem validatePrekeyBundle_eq_ok_iff {bundle : PrekeyBundle E} :
    validatePrekeyBundle bundle = .ok () ↔
      E.verify bundle.identityKey bundle.signedPrekey bundle.signedPrekeySignature = true := by
  unfold validatePrekeyBundle
  by_cases h : E.verify bundle.identityKey bundle.signedPrekey bundle.signedPrekeySignature = true
  · simp [h]
  · simp [h]

/-- Signatures that remember who made them, over which key. -/
inductive SymbolicSignature where
  | signed (signer : IdentityKey) (key : DolevYao.PublicKey)
  | junk (bytes : List UInt8)
  deriving DecidableEq

/-- Symbolic signatures on the symbolic keys. -/
def symbolicSigning : SigningSuite symbolicSuite where
  SigningKey := IdentityKey
  Signature := SymbolicSignature
  publicKey := id
  sign := .signed
  verify := fun identity key signature => decide (signature = .signed identity key)

/-- A signature verifies exactly when it is the one of the identity over the key. -/
theorem symbolicSigning_verify_iff {identity : IdentityKey} {key : DolevYao.PublicKey}
    {signature : SymbolicSignature} :
    symbolicSigning.verify identity key signature = true ↔ signature = .signed identity key := by
  unfold symbolicSigning
  exact decide_eq_true_iff

/-! ## X3DH -/

/-- `X3DH_INFO`. -/
def x3dhInfo : String := "ephemera-x3dh-v1"

/-- `hkdf_derive` under `X3DH_SALT`.  The salt is a block of zeros, which is what
HKDF-SHA256 takes when it has no salt. -/
def deriveSharedSecret (dhConcat : List S.Key) : Except SessionError S.Key :=
  if okmLen ≤ maxOkmLen then .ok (S.hkdfSha256 dhConcat x3dhInfo)
  else .error (.x3dhFailed ("HKDF derivation failed: key derivation failed: HKDF expansion " ++
    "failed: invalid number of blocks, too large output"))

theorem deriveSharedSecret_eq (dhConcat : List S.Key) :
    deriveSharedSecret dhConcat = .ok (S.hkdfSha256 dhConcat x3dhInfo) := by
  rw [deriveSharedSecret, if_pos (by decide)]

/-- `X3dhInitialMessage`. -/
structure X3dhInitialMessage (S : CryptoSuite) where
  identityKey : IdentityKey
  identityX25519 : S.Public
  ephemeralKey : S.Public
  signedPrekeyUsed : S.Public
  oneTimePrekeyUsed : Option S.Public

/-- `X3dhInitiatorResult`. -/
structure X3dhInitiatorResult (S : CryptoSuite) where
  sharedSecret : S.Key
  initialMessage : X3dhInitialMessage S

/-- `x3dh_initiate`; `ephemeral` is the generated key pair. -/
def x3dhInitiate (ourIdentityX25519 : S.Secret) (ourIdentityX25519Pub : S.Public)
    (ourIdentityEd25519 : IdentityKey) (theirBundle : PrekeyBundle E)
    (ephemeral : X25519KeyPair S) : Except SessionError (X3dhInitiatorResult S) := do
  let dh1 := S.diffieHellman ourIdentityX25519 theirBundle.signedPrekey
  let dh2 := S.diffieHellman ephemeral.secret theirBundle.identityX25519
  let dh3 := S.diffieHellman ephemeral.secret theirBundle.signedPrekey
  let dhConcat := [dh1, dh2, dh3] ++
    (theirBundle.oneTimePrekey.map (fun otpk => S.diffieHellman ephemeral.secret otpk)).toList
  let sharedSecret ← deriveSharedSecret dhConcat
  return {
    sharedSecret := sharedSecret
    initialMessage := {
      identityKey := ourIdentityEd25519
      identityX25519 := ourIdentityX25519Pub
      ephemeralKey := ephemeral.publicKey
      signedPrekeyUsed := theirBundle.signedPrekey
      oneTimePrekeyUsed := theirBundle.oneTimePrekey } }

/-- `x3dh_respond`. -/
def x3dhRespond (ourIdentityX25519 ourSignedPrekeySecret : S.Secret)
    (ourOneTimePrekeySecret : Option S.Secret) (initialMsg : X3dhInitialMessage S) :
    Except SessionError S.Key := do
  let dh1 := S.diffieHellman ourSignedPrekeySecret initialMsg.identityX25519
  let dh2 := S.diffieHellman ourIdentityX25519 initialMsg.ephemeralKey
  let dh3 := S.diffieHellman ourSignedPrekeySecret initialMsg.ephemeralKey
  let dhConcat ←
    -- which one-time prekey was used is not compared with the secret at hand
    if initialMsg.oneTimePrekeyUsed.isSome then
      match ourOneTimePrekeySecret with
      | some otpSecret =>
        .ok ([dh1, dh2, dh3] ++ [S.diffieHellman otpSecret initialMsg.ephemeralKey])
      | none => .error (.x3dhFailed "initiator used one-time prekey but no matching secret")
    else .ok [dh1, dh2, dh3]
  deriveSharedSecret dhConcat

/-- The secret an initiator derives from a bundle. -/
def initiatorSecret (ourIdentityX25519 : S.Secret) (theirBundle : PrekeyBundle E)
    (ephemeral : X25519KeyPair S) : S.Key :=
  S.hkdfSha256
    ([S.diffieHellman ourIdentityX25519 theirBundle.signedPrekey,
      S.diffieHellman ephemeral.secret theirBundle.identityX25519,
      S.diffieHellman ephemeral.secret theirBundle.signedPrekey] ++
      (theirBundle.oneTimePrekey.map (fun otpk => S.diffieHellman ephemeral.secret otpk)).toList)
    x3dhInfo

/-- The initial message of an initiator. -/
def initialMessageOf (ourIdentityX25519Pub : S.Public) (ourIdentityEd25519 : IdentityKey)
    (theirBundle : PrekeyBundle E) (ephemeral : X25519KeyPair S) : X3dhInitialMessage S where
  identityKey := ourIdentityEd25519
  identityX25519 := ourIdentityX25519Pub
  ephemeralKey := ephemeral.publicKey
  signedPrekeyUsed := theirBundle.signedPrekey
  oneTimePrekeyUsed := theirBundle.oneTimePrekey

/-- `x3dh_initiate` never fails. -/
theorem x3dhInitiate_eq (ourIdentityX25519 : S.Secret) (ourIdentityX25519Pub : S.Public)
    (ourIdentityEd25519 : IdentityKey) (theirBundle : PrekeyBundle E)
    (ephemeral : X25519KeyPair S) :
    x3dhInitiate ourIdentityX25519 ourIdentityX25519Pub ourIdentityEd25519 theirBundle ephemeral
      = .ok ⟨initiatorSecret ourIdentityX25519 theirBundle ephemeral,
          initialMessageOf ourIdentityX25519Pub ourIdentityEd25519 theirBundle ephemeral⟩ := by
  simp only [x3dhInitiate, deriveSharedSecret_eq]
  rfl

/-- Secrets that answer a bundle: they belong to the keys that it names.  A one-time secret may be
at hand although the bundle names no one-time prekey. -/
structure Answers (bundle : PrekeyBundle E) (identity signedPrekey : S.Secret)
    (oneTime : Option S.Secret) : Prop where
  identity : bundle.identityX25519 = S.publicOf identity
  signedPrekey : bundle.signedPrekey = S.publicOf signedPrekey
  oneTime : ∀ otpk, bundle.oneTimePrekey = some otpk →
    ∃ secret, oneTime = some secret ∧ otpk = S.publicOf secret

/-- Both sides derive the same secret from a bundle that is answered. -/
theorem Answers.respond {bundle : PrekeyBundle E} {identity signedPrekey : S.Secret}
    {oneTime : Option S.Secret} (h : Answers bundle identity signedPrekey oneTime)
    (hdh : ∀ a b, S.diffieHellman a (S.publicOf b) = S.diffieHellman b (S.publicOf a))
    (ours ephemeral : X25519KeyPair S) (identityKey : IdentityKey) :
    x3dhRespond identity signedPrekey oneTime
        (initialMessageOf ours.publicKey identityKey bundle ephemeral)
      = .ok (initiatorSecret ours.secret bundle ephemeral) := by
  have hdh1 : S.diffieHellman signedPrekey ours.publicKey
      = S.diffieHellman ours.secret bundle.signedPrekey := by
    rw [ours.publicKey_eq, h.signedPrekey, hdh]
  have hdh2 : S.diffieHellman identity ephemeral.publicKey
      = S.diffieHellman ephemeral.secret bundle.identityX25519 := by
    rw [ephemeral.publicKey_eq, h.identity, hdh]
  have hdh3 : S.diffieHellman signedPrekey ephemeral.publicKey
      = S.diffieHellman ephemeral.secret bundle.signedPrekey := by
    rw [ephemeral.publicKey_eq, h.signedPrekey, hdh]
  simp only [x3dhRespond, initialMessageOf, initiatorSecret, hdh1, hdh2, hdh3]
  cases hotp : bundle.oneTimePrekey with
  | none =>
    simp only [Option.isSome_none, Bool.false_eq_true, if_false]
    exact deriveSharedSecret_eq _
  | some otpk =>
    obtain ⟨secret, rfl, rfl⟩ := h.oneTime otpk hotp
    have hdh4 : S.diffieHellman secret ephemeral.publicKey
        = S.diffieHellman ephemeral.secret (S.publicOf secret) := by
      rw [ephemeral.publicKey_eq, hdh]
    simp only [Option.isSome_some, if_true, Option.map_some, ← hdh4]
    exact deriveSharedSecret_eq _

/-- A generated bundle is answered by the secrets of its pairs. -/
theorem answers_generatePrekeyBundle (signingKey : E.SigningKey)
    (theirs signedPrekey : X25519KeyPair S) (oneTime : Option (X25519KeyPair S)) :
    Answers (generatePrekeyBundle signingKey theirs.publicKey signedPrekey oneTime)
      theirs.secret signedPrekey.secret (oneTime.map X25519KeyPair.secret) where
  identity := theirs.publicKey_eq
  signedPrekey := signedPrekey.publicKey_eq
  oneTime otpk h := by
    obtain ⟨pair, rfl, rfl⟩ := Option.map_eq_some_iff.mp h
    exact ⟨pair.secret, rfl, pair.publicKey_eq⟩

/-- **Agreement of X3DH.**  From a bundle that its owner generated, both sides derive the
same secret. -/
theorem x3dhRespond_initialMessageOf
    (hdh : ∀ a b, S.diffieHellman a (S.publicOf b) = S.diffieHellman b (S.publicOf a))
    (ours theirs signedPrekey ephemeral : X25519KeyPair S) (oneTime : Option (X25519KeyPair S))
    (signingKey : E.SigningKey) (identity : IdentityKey) :
    x3dhRespond theirs.secret signedPrekey.secret (oneTime.map X25519KeyPair.secret)
        (initialMessageOf ours.publicKey identity
          (generatePrekeyBundle signingKey theirs.publicKey signedPrekey oneTime) ephemeral)
      = .ok (initiatorSecret ours.secret
          (generatePrekeyBundle signingKey theirs.publicKey signedPrekey oneTime) ephemeral) :=
  (answers_generatePrekeyBundle signingKey theirs signedPrekey oneTime).respond hdh ours ephemeral
    identity

/-- **When a responder fails**: the message names a one-time prekey, and no secret is at hand. -/
theorem x3dhRespond_fails_iff (identity signedPrekey : S.Secret) (oneTime : Option S.Secret)
    (m : X3dhInitialMessage S) :
    (∃ e, x3dhRespond identity signedPrekey oneTime m = .error e) ↔
      m.oneTimePrekeyUsed ≠ none ∧ oneTime = none := by
  have hok : ∀ l : List S.Key, ¬∃ e, deriveSharedSecret l = .error e := by
    rintro l ⟨e, he⟩
    rw [deriveSharedSecret_eq] at he
    cases he
  unfold x3dhRespond
  cases m.oneTimePrekeyUsed with
  | none => exact iff_of_false (hok _) (fun h => h.1 rfl)
  | some otpk =>
    cases oneTime with
    | none => exact iff_of_true ⟨_, rfl⟩ ⟨Option.some_ne_none otpk, rfl⟩
    | some secret => exact iff_of_false (hok _) (fun h => nomatch h.2)

/-- **X3DH.**  Whatever bundle an initiator uses, secrets that answer it derive the initiator's
secret from the initial message; and a responder fails on a message exactly if that names a
one-time prekey and no secret for it is at hand. -/
theorem x3dh_agreement
    (hdh : ∀ a b, S.diffieHellman a (S.publicOf b) = S.diffieHellman b (S.publicOf a)) :
    (∀ (ours ephemeral : X25519KeyPair S) (identityKey : IdentityKey) (bundle : PrekeyBundle E)
      (result : X3dhInitiatorResult S) (identity signedPrekey : S.Secret)
      (oneTime : Option S.Secret),
      x3dhInitiate ours.secret ours.publicKey identityKey bundle ephemeral = .ok result →
      Answers bundle identity signedPrekey oneTime →
      x3dhRespond identity signedPrekey oneTime result.initialMessage = .ok result.sharedSecret) ∧
    ∀ (identity signedPrekey : S.Secret) (oneTime : Option S.Secret) (m : X3dhInitialMessage S),
      (∃ e, x3dhRespond identity signedPrekey oneTime m = .error e) ↔
        m.oneTimePrekeyUsed ≠ none ∧ oneTime = none := by
  refine ⟨?_, x3dhRespond_fails_iff⟩
  intro ours ephemeral identityKey bundle result identity signedPrekey oneTime hresult hanswers
  rw [x3dhInitiate_eq, Except.ok.injEq] at hresult
  rw [← hresult]
  exact hanswers.respond hdh ours ephemeral identityKey

/-- Symbolic keys, with a one-time prekey. -/
theorem x3dh_agreement_symbolic :
    (∀ a b, symbolicSuite.diffieHellman a (symbolicSuite.publicOf b)
      = symbolicSuite.diffieHellman b (symbolicSuite.publicOf a)) ∧
    ∀ result : X3dhInitiatorResult symbolicSuite,
      x3dhInitiate (E := symbolicSigning) (SymbolicSuite.honestSecret 0)
        (symbolicSuite.publicOf (SymbolicSuite.honestSecret 0)) []
        (generatePrekeyBundle [] (symbolicSuite.publicOf (SymbolicSuite.honestSecret 1))
          (keyPair (SymbolicSuite.honestSecret 2))
          (some (keyPair (SymbolicSuite.honestSecret 3))))
        (keyPair (SymbolicSuite.honestSecret 4)) = .ok result →
      x3dhRespond (SymbolicSuite.honestSecret 1) (SymbolicSuite.honestSecret 2)
        (some (SymbolicSuite.honestSecret 3)) result.initialMessage = .ok result.sharedSecret := by
  have hdh := (primitives_symbolicSuite 0 0).dh_comm
  refine ⟨hdh, fun result hresult => ?_⟩
  exact (x3dh_agreement hdh).1 (keyPair (SymbolicSuite.honestSecret 0)) _ _ _ result _ _ _ hresult
    (answers_generatePrekeyBundle (E := symbolicSigning) [] (keyPair (SymbolicSuite.honestSecret 1))
      _ (some (keyPair (SymbolicSuite.honestSecret 3))))

/-! ## The table of sessions -/

/-- The columns of a row of `ratchet_sessions` that are read again, and `peer_pubkey`. -/
structure SessionRow (S : CryptoSuite) where
  peerPubkey : IdentityKey
  rootKey : S.Key
  sendChainKey : S.Key
  recvChainKey : S.Key
  sendRatchetSecret : S.Secret
  recvRatchetPubkey : Option S.Public
  sendCount : ℕ
  recvCount : ℕ
  prevSendCount : ℕ

/-- The table `ratchet_sessions`, keyed by `conversation_id`. -/
abbrev SessionDb (S : CryptoSuite) := SqlTable String (SessionRow S)

/-- A call of the session manager. -/
abbrev SessionM (S : CryptoSuite) := StateExcept SessionError (SessionDb S)

/-- `RatchetState::from_persisted`: the key pair is rebuilt from its secret. -/
def fromPersisted (row : SessionRow S) : RatchetState S where
  rootKey := row.rootKey
  sendChainKey := row.sendChainKey
  recvChainKey := row.recvChainKey
  sendRatchetKey := keyPair row.sendRatchetSecret
  recvRatchetPubkey := row.recvRatchetPubkey
  sendCount := row.sendCount
  recvCount := row.recvCount
  previousSendCount := row.prevSendCount

/-- The columns `save_session` writes. -/
def toRow (peerPubkey : IdentityKey) (state : RatchetState S) : SessionRow S where
  peerPubkey := peerPubkey
  rootKey := state.rootKey
  sendChainKey := state.sendChainKey
  recvChainKey := state.recvChainKey
  sendRatchetSecret := state.sendRatchetKey.secret
  recvRatchetPubkey := state.recvRatchetPubkey
  sendCount := state.sendCount
  recvCount := state.recvCount
  prevSendCount := state.previousSendCount

/-- `SessionManager::load_session`. -/
def loadSession (db : SessionDb S) (conversationId : String) : Option (RatchetState S) :=
  (db.get? conversationId).map fromPersisted

/-- `SessionManager::save_session`: on a conflict `peer_pubkey` stays. -/
def saveSession (db : SessionDb S) (conversationId : String) (peerPubkey : IdentityKey)
    (state : RatchetState S) : SessionDb S :=
  db.upsert conversationId (toRow peerPubkey state) (fun row => toRow row.peerPubkey state)

/-- `SessionManager::has_session`. -/
def hasSession (db : SessionDb S) (conversationId : String) : Bool :=
  (db.get? conversationId).isSome

/-- A state survives the table. -/
theorem fromPersisted_toRow (peerPubkey : IdentityKey) (state : RatchetState S) :
    fromPersisted (toRow peerPubkey state) = state := by
  obtain ⟨_, _, _, ⟨secret, publicKey, hpublic⟩, _, _, _, _⟩ := state
  subst hpublic
  rfl

/-- **A saved session is the one that is loaded**; other conversations are not touched. -/
theorem loadSession_saveSession (db : SessionDb S) (conversationId : String)
    (peerPubkey : IdentityKey) (state : RatchetState S) (id : String) :
    loadSession (saveSession db conversationId peerPubkey state) id
      = if id = conversationId then some state else loadSession db id := by
  unfold loadSession saveSession
  rw [SqlTable.get?_upsert]
  by_cases hid : id = conversationId
  · rw [if_pos hid, if_pos hid]
    cases db.get? conversationId <;> simp [fromPersisted_toRow]
  · rw [if_neg hid, if_neg hid]

theorem hasSession_eq_false_iff {db : SessionDb S} {conversationId : String} :
    hasSession db conversationId = false ↔ loadSession db conversationId = none := by
  rw [hasSession, loadSession, Option.map_eq_none_iff, Option.isSome_eq_false_iff,
    Option.isNone_iff_eq_none]

/-! ## The session manager -/

/-- `EncryptedMessage`. -/
structure EncryptedMessage (S : CryptoSuite) where
  header : MessageHeader S
  ciphertext : S.Sealed
  x3dhHeader : Option (X3dhInitialMessage S)

/-- What `encrypt_for_peer` draws: the key pairs of `x3dh_initiate` and of `init_sender`, and
the nonce of `seal`. -/
structure Entropy (S : CryptoSuite) where
  ephemeral : X25519KeyPair S
  ourRatchet : X25519KeyPair S
  nonce : S.Nonce

/-- Run a method of the ratchet on a loaded state. -/
def onRatchet {α : Type} (m : RatchetM S α) (state : RatchetState S) :
    Except SessionError (α × RatchetState S) :=
  match exec m state with
  | (.ok a, state') => .ok (a, state')
  | (.error e, _) => .error (.message e)

/-- The state `encrypt_for_peer` works on: the stored one, or a new one by X3DH. -/
def sendingState (existing : Option (RatchetState S)) (ourX25519 : X25519KeyPair S)
    (ourIdentity : IdentityKey) (theirBundle : Option (PrekeyBundle E)) (entropy : Entropy S) :
    Except SessionError (RatchetState S × Option (X3dhInitialMessage S)) :=
  match existing with
  -- a stored session is used whatever the bundle says
  | some state => .ok (state, none)
  | none => do
    -- the keys of the bundle are taken as they are: its signature is not verified
    let bundle ← match theirBundle with
      | some bundle => .ok bundle
      | none => .error (.x3dhFailed "no prekey bundle for new session")
    let result ← x3dhInitiate ourX25519.secret ourX25519.publicKey ourIdentity bundle
      entropy.ephemeral
    let ratchet ← (initSender result.sharedSecret bundle.signedPrekey
      entropy.ourRatchet).mapError SessionError.message
    return (ratchet, some result.initialMessage)

/-- `SessionManager::encrypt_for_peer`. -/
def encryptForPeer (conversationId : String) (peerPubkey : IdentityKey)
    (ourX25519 : X25519KeyPair S) (ourIdentity : IdentityKey)
    (theirBundle : Option (PrekeyBundle E)) (plaintext : List UInt8) (entropy : Entropy S) :
    SessionM S (EncryptedMessage S) := do
  let existing := loadSession (← get) conversationId
  let (state, x3dhHeader) ← sendingState existing ourX25519 ourIdentity theirBundle entropy
  let ((header, ciphertext), state) ← onRatchet (encryptMessage entropy.nonce plaintext) state
  modify fun db => saveSession db conversationId peerPubkey state
  return ⟨header, ciphertext, x3dhHeader⟩

/-- The state `decrypt_from_peer` works on: the stored one, or a new receiver. -/
def receivingState (existing : Option (RatchetState S)) (ourRatchetKey : Option (X25519KeyPair S))
    (sharedSecret : Option S.Key) : Except SessionError (RatchetState S) :=
  match existing with
  -- a stored session is used, and the secret and the key pair are dropped
  | some state => .ok state
  | none => do
    let secret ← match sharedSecret with
      | some secret => .ok secret
      | none => .error (.message (.ratchetError "no session and no shared secret for init"))
    let ratchetKey ← match ourRatchetKey with
      | some ratchetKey => .ok ratchetKey
      | none => .error (.message (.ratchetError "no ratchet key for receiver init"))
    return initReceiver secret ratchetKey

/-- `SessionManager::decrypt_from_peer`; `fresh` is the key pair a DH step generates. -/
def decryptFromPeer (conversationId : String) (peerPubkey : IdentityKey)
    (ourRatchetKey : Option (X25519KeyPair S)) (sharedSecret : Option S.Key)
    (header : MessageHeader S) (ciphertext : S.Sealed) (fresh : X25519KeyPair S) :
    SessionM S (List UInt8) := do
  let existing := loadSession (← get) conversationId
  let state ← receivingState existing ourRatchetKey sharedSecret
  let (plaintext, state) ← onRatchet (decryptMessage header ciphertext fresh) state
  modify fun db => saveSession db conversationId peerPubkey state
  return plaintext

/-- Without a session, and with a bundle, `encrypt_for_peer` starts an initiator on the secret
of X3DH. -/
theorem sendingState_none (ourX25519 : X25519KeyPair S) (ourIdentity : IdentityKey)
    (bundle : PrekeyBundle E) (entropy : Entropy S) :
    ∃ state, initSender (initiatorSecret ourX25519.secret bundle entropy.ephemeral)
        bundle.signedPrekey entropy.ourRatchet = .ok state ∧
      sendingState none ourX25519 ourIdentity (some bundle) entropy
        = .ok (state, some (initialMessageOf ourX25519.publicKey ourIdentity bundle
            entropy.ephemeral)) := by
  have hinit := initSender_eq (initiatorSecret ourX25519.secret bundle entropy.ephemeral)
    bundle.signedPrekey entropy.ourRatchet
  refine ⟨_, hinit, ?_⟩
  simp only [sendingState, x3dhInitiate_eq, bind, Except.bind, hinit]
  rfl

/-- **`encrypt_for_peer`.**  The session is saved only when everything succeeds. -/
theorem encryptForPeer_exec (conversationId : String) (peerPubkey : IdentityKey)
    (ourX25519 : X25519KeyPair S) (ourIdentity : IdentityKey)
    (theirBundle : Option (PrekeyBundle E)) (plaintext : List UInt8) (entropy : Entropy S)
    (db : SessionDb S) :
    exec (encryptForPeer conversationId peerPubkey ourX25519 ourIdentity theirBundle plaintext
        entropy) db =
      match sendingState (loadSession db conversationId) ourX25519 ourIdentity theirBundle
          entropy with
      | .error e => (.error e, db)
      | .ok (state, x3dhHeader) =>
        match onRatchet (encryptMessage entropy.nonce plaintext) state with
        | .error e => (.error e, db)
        | .ok ((header, ciphertext), state') =>
          (.ok ⟨header, ciphertext, x3dhHeader⟩,
            saveSession db conversationId peerPubkey state') := by
  simp only [encryptForPeer, exec_bind, exec_get, exec_lift]
  cases sendingState (loadSession db conversationId) ourX25519 ourIdentity theirBundle
      entropy with
  | error e => rfl
  | ok r =>
    dsimp only
    cases onRatchet (encryptMessage entropy.nonce plaintext) r.1 <;> rfl

/-- **`decrypt_from_peer`.**  The session is saved only when everything succeeds. -/
theorem decryptFromPeer_exec (conversationId : String) (peerPubkey : IdentityKey)
    (ourRatchetKey : Option (X25519KeyPair S)) (sharedSecret : Option S.Key)
    (header : MessageHeader S) (ciphertext : S.Sealed) (fresh : X25519KeyPair S)
    (db : SessionDb S) :
    exec (decryptFromPeer conversationId peerPubkey ourRatchetKey sharedSecret header ciphertext
        fresh) db =
      match receivingState (loadSession db conversationId) ourRatchetKey sharedSecret with
      | .error e => (.error e, db)
      | .ok state =>
        match onRatchet (decryptMessage header ciphertext fresh) state with
        | .error e => (.error e, db)
        | .ok (plaintext, state') =>
          (.ok plaintext, saveSession db conversationId peerPubkey state') := by
  simp only [decryptFromPeer, exec_bind, exec_get, exec_lift]
  cases receivingState (loadSession db conversationId) ourRatchetKey sharedSecret with
  | error e => rfl
  | ok state =>
    dsimp only
    cases onRatchet (decryptMessage header ciphertext fresh) state <;> rfl

end Session
