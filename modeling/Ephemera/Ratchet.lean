/-
# The Double Ratchet (`ephemera-message/src/ratchet.rs`)

The state of one side of a conversation and its operations.  The primitives the
ratchet calls come from other crates and are collected in a `CryptoSuite`; every
statement about the ratchet names the properties of the suite it uses.

The methods of the source take `&mut self` and return a `Result`, and they keep
the writes made before an error; `RatchetM` does the same.  Randomness is an
argument: the nonce of `seal` and the key pair that `X25519KeyPair::generate`
returns.

Each operation has one equation (`encryptMessage_exec`, `decryptMessage_exec`) that
says what it returns and which state it leaves; no later module unfolds them.
-/
import Ephemera.StateExcept
import Mathlib.Algebra.Group.Nat.Defs
import Mathlib.Logic.Function.Iterate

/-! ## The primitives -/

/-- The `info` strings of the two key-derivation functions. -/
inductive Info where
  | chain
  | msgKey
  | ratchet
  deriving DecidableEq, Repr

/-- The bytes of an `info` string. -/
def Info.bytes : Info → String
  | .chain => "ephemera-chain-v1"
  | .msgKey => "ephemera-msg-v1"
  | .ratchet => "ephemera-ratchet-v1"

/-- The primitives of `ephemera-crypto` that the ratchet calls: X25519, HKDF-SHA256
without salt over a concatenation of 32-byte blocks, and the sealed boxes of
XChaCha20-Poly1305. -/
structure CryptoSuite where
  /-- 32-byte symmetric keys. -/
  Key : Type
  Secret : Type
  Public : Type
  Nonce : Type
  /-- The output of `seal`. -/
  Sealed : Type
  decPublic : DecidableEq Public
  /-- `[0u8; 32]`. -/
  zeroKey : Key
  publicOf : Secret → Public
  diffieHellman : Secret → Public → Key
  hkdfSha256 : List Key → String → Key
  /-- `encryption::seal`, with the nonce it draws as an argument. -/
  sealBytes : Key → Nonce → List UInt8 → Except String Sealed
  /-- `encryption::open`. -/
  openBytes : Key → Sealed → Except String (List UInt8)

namespace CryptoSuite

instance (S : CryptoSuite) : DecidableEq S.Public := S.decPublic

/-- The output length `hkdf_derive` asks for. -/
def okmLen : ℕ := 32

/-- The longest output HKDF-SHA256 can expand to: 255 blocks of 32 bytes. -/
def maxOkmLen : ℕ := 255 * 32

variable (S : CryptoSuite)

/-- `hkdf_derive`: the expansion fails only on outputs that are too long. -/
def hkdfDerive (ikm : List S.Key) (info : Info) : Except String S.Key :=
  if okmLen ≤ maxOkmLen then .ok (S.hkdfSha256 ikm info.bytes)
  else .error "HKDF expansion failed: invalid number of blocks, too large output"

/-- The request of `hkdf_derive` is never too long. -/
theorem hkdfDerive_eq (ikm : List S.Key) (info : Info) :
    S.hkdfDerive ikm info = .ok (S.hkdfSha256 ikm info.bytes) := by
  rw [hkdfDerive, if_pos (by decide)]

end CryptoSuite

/-- `X25519KeyPair`: the public key is the one of the secret. -/
structure X25519KeyPair (S : CryptoSuite) where
  secret : S.Secret
  publicKey : S.Public
  publicKey_eq : publicKey = S.publicOf secret

/-! ## State and headers -/

/-- `MessageError`, as far as the modelled functions return it. -/
inductive MessageError where
  | bodyTooLarge (got max : ℕ)
  | ratchetError (reason : String)
  | encryption (reason : String)
  | deserialization (reason : String)
  | expired
  | notAllowed (reason : String)
  | invalidRequestState (expected got : String)
  | database (reason : String)
  | conversationNotFound
  deriving DecidableEq, Repr

/-- `MessageHeader`. -/
structure MessageHeader (S : CryptoSuite) where
  ratchetKey : S.Public
  messageNumber : ℕ
  previousChainLength : ℕ

/-- `RatchetState`; the three counters are `u32`. -/
structure RatchetState (S : CryptoSuite) where
  rootKey : S.Key
  sendChainKey : S.Key
  recvChainKey : S.Key
  sendRatchetKey : X25519KeyPair S
  recvRatchetPubkey : Option S.Public
  sendCount : ℕ
  recvCount : ℕ
  previousSendCount : ℕ

/-- A computation on a ratchet state that may fail and keeps its writes when it does. -/
abbrev RatchetM (S : CryptoSuite) := StateExcept MessageError (RatchetState S)

namespace Ratchet

open StateExcept

variable {S : CryptoSuite} {α : Type}

/-- Report a failure of a primitive under the text of its caller. -/
def mapErr (text : String) (r : Except String α) : Except MessageError α :=
  r.mapError (fun e => .ratchetError (text ++ e))

/-! ## Key derivation -/

/-- `kdf_rk`: a new root key and a chain key from the root key and a DH output. -/
def kdfRk (rootKey dhOutput : S.Key) : Except MessageError (S.Key × S.Key) := do
  let newRoot ← mapErr "root KDF failed: " (S.hkdfDerive [rootKey, dhOutput] .ratchet)
  let chainKey ← mapErr "chain KDF failed: " (S.hkdfDerive [rootKey, dhOutput] .chain)
  return (newRoot, chainKey)

/-- `kdf_ck`: the next chain key and the message key of a chain key. -/
def kdfCk (chainKey : S.Key) : Except MessageError (S.Key × S.Key) := do
  let newChain ← mapErr "chain advance failed: " (S.hkdfDerive [chainKey] .chain)
  let messageKey ← mapErr "message key derivation failed: " (S.hkdfDerive [chainKey] .msgKey)
  return (newChain, messageKey)

/-- The root key `kdf_rk` derives. -/
def nextRoot (rootKey dhOutput : S.Key) : S.Key :=
  S.hkdfSha256 [rootKey, dhOutput] Info.ratchet.bytes

/-- The chain key `kdf_rk` derives. -/
def chainOf (rootKey dhOutput : S.Key) : S.Key :=
  S.hkdfSha256 [rootKey, dhOutput] Info.chain.bytes

/-- The next chain key. -/
def advance (chainKey : S.Key) : S.Key := S.hkdfSha256 [chainKey] Info.chain.bytes

/-- The message key of a chain key. -/
def messageKey (chainKey : S.Key) : S.Key := S.hkdfSha256 [chainKey] Info.msgKey.bytes

theorem kdfRk_eq (rootKey dhOutput : S.Key) :
    kdfRk rootKey dhOutput = .ok (nextRoot rootKey dhOutput, chainOf rootKey dhOutput) := by
  simp only [kdfRk, S.hkdfDerive_eq]
  rfl

theorem kdfCk_eq (chainKey : S.Key) :
    kdfCk chainKey = .ok (advance chainKey, messageKey chainKey) := by
  simp only [kdfCk, S.hkdfDerive_eq]
  rfl

/-! ## The operations -/

/-- `RatchetState::init_sender`; `ourRatchet` is the generated key pair. -/
def initSender (sharedSecret : S.Key) (theirRatchetKey : S.Public)
    (ourRatchet : X25519KeyPair S) : Except MessageError (RatchetState S) := do
  let dhOut := S.diffieHellman ourRatchet.secret theirRatchetKey
  let (rootKey, sendChainKey) ← kdfRk sharedSecret dhOut
  return {
    rootKey := rootKey
    sendChainKey := sendChainKey
    recvChainKey := S.zeroKey
    sendRatchetKey := ourRatchet
    recvRatchetPubkey := some theirRatchetKey
    sendCount := 0
    recvCount := 0
    previousSendCount := 0 }

/-- `RatchetState::init_receiver`. -/
def initReceiver (sharedSecret : S.Key) (ourRatchetKey : X25519KeyPair S) : RatchetState S where
  rootKey := sharedSecret
  sendChainKey := S.zeroKey
  recvChainKey := S.zeroKey
  sendRatchetKey := ourRatchetKey
  recvRatchetPubkey := none
  sendCount := 0
  recvCount := 0
  previousSendCount := 0

/-- `RatchetState::encrypt_message`; `nonce` is the one `seal` draws. -/
def encryptMessage (nonce : S.Nonce) (plaintext : List UInt8) :
    RatchetM S (MessageHeader S × S.Sealed) := do
  let (newChainKey, messageKey) ← kdfCk (← get).sendChainKey
  modify fun st => { st with sendChainKey := newChainKey }
  let st ← get
  let header : MessageHeader S :=
    { ratchetKey := st.sendRatchetKey.publicKey
      messageNumber := st.sendCount
      previousChainLength := st.previousSendCount }
  let ciphertext ← mapErr "encryption failed: " (S.sealBytes messageKey nonce plaintext)
  modify fun st => { st with sendCount := (st.sendCount + 1) % 2 ^ 32 }
  return (header, ciphertext)

/-- `RatchetState::dh_ratchet_step`; `fresh` is the generated key pair. -/
def dhRatchetStep (theirNewRatchetKey : S.Public) (fresh : X25519KeyPair S) : RatchetM S Unit := do
  modify fun st =>
    { st with
      previousSendCount := st.sendCount
      sendCount := 0
      recvCount := 0
      recvRatchetPubkey := some theirNewRatchetKey }
  let st ← get
  let dhRecv := S.diffieHellman st.sendRatchetKey.secret theirNewRatchetKey
  let (newRoot, recvChainKey) ← kdfRk st.rootKey dhRecv
  modify fun st => { st with rootKey := newRoot, recvChainKey := recvChainKey }
  modify fun st => { st with sendRatchetKey := fresh }
  let st ← get
  let dhSend := S.diffieHellman st.sendRatchetKey.secret theirNewRatchetKey
  let (newRoot2, sendChainKey) ← kdfRk st.rootKey dhSend
  modify fun st => { st with rootKey := newRoot2, sendChainKey := sendChainKey }

/-- The loop of `decrypt_message` that advances the receive chain to the message
number: `n` turns, one for each number still missing. -/
def skipMessages : ℕ → RatchetM S Unit
  | 0 => return ()
  | n + 1 => do
    let (newCk, _) ← kdfCk (← get).recvChainKey
    modify fun st =>
      { st with recvChainKey := newCk, recvCount := (st.recvCount + 1) % 2 ^ 32 }
    skipMessages n

/-- The test of `decrypt_message`: has the sender's ratchet key changed? -/
def needDhStep (st : RatchetState S) (header : MessageHeader S) : Bool :=
  match st.recvRatchetPubkey with
  | some existing => decide (existing ≠ header.ratchetKey)
  | none => true

/-- `RatchetState::decrypt_message`; `fresh` is the key pair a DH step generates. -/
def decryptMessage (header : MessageHeader S) (ciphertext : S.Sealed) (fresh : X25519KeyPair S) :
    RatchetM S (List UInt8) := do
  if needDhStep (← get) header then
    dhRatchetStep header.ratchetKey fresh
  skipMessages (header.messageNumber - (← get).recvCount)
  let (newChainKey, messageKey) ← kdfCk (← get).recvChainKey
  modify fun st =>
    { st with recvChainKey := newChainKey, recvCount := (st.recvCount + 1) % 2 ^ 32 }
  (mapErr "decryption failed: " (S.openBytes messageKey ciphertext) : Except MessageError _)

/-! ## What the operations do -/

/-- The state `init_sender` builds. -/
theorem initSender_eq (sharedSecret : S.Key) (theirRatchetKey : S.Public)
    (ourRatchet : X25519KeyPair S) :
    initSender sharedSecret theirRatchetKey ourRatchet = .ok {
      rootKey := nextRoot sharedSecret (S.diffieHellman ourRatchet.secret theirRatchetKey)
      sendChainKey := chainOf sharedSecret (S.diffieHellman ourRatchet.secret theirRatchetKey)
      recvChainKey := S.zeroKey
      sendRatchetKey := ourRatchet
      recvRatchetPubkey := some theirRatchetKey
      sendCount := 0
      recvCount := 0
      previousSendCount := 0 } := by
  simp only [initSender, kdfRk_eq]
  rfl

/-- The state a DH ratchet step leaves. -/
def afterDhStep (st : RatchetState S) (theirs : S.Public) (fresh : X25519KeyPair S) :
    RatchetState S :=
  let root := nextRoot st.rootKey (S.diffieHellman st.sendRatchetKey.secret theirs)
  { rootKey := nextRoot root (S.diffieHellman fresh.secret theirs)
    sendChainKey := chainOf root (S.diffieHellman fresh.secret theirs)
    recvChainKey := chainOf st.rootKey (S.diffieHellman st.sendRatchetKey.secret theirs)
    sendRatchetKey := fresh
    recvRatchetPubkey := some theirs
    sendCount := 0
    recvCount := 0
    previousSendCount := st.sendCount }

theorem dhRatchetStep_exec (theirs : S.Public) (fresh : X25519KeyPair S) (st : RatchetState S) :
    exec (dhRatchetStep theirs fresh) st = (.ok (), afterDhStep st theirs fresh) := by
  simp only [dhRatchetStep, kdfRk_eq, exec_bind, exec_get, exec_modify, exec_lift]
  rfl

/-- The counter after one turn of the loop and `n` more. -/
theorem recvCount_turns (c n : ℕ) :
    (if n = 0 then (c + 1) % 2 ^ 32 else ((c + 1) % 2 ^ 32 + n) % 2 ^ 32)
      = (c + (n + 1)) % 2 ^ 32 := by
  split <;> omega

/-- The loop takes the receive chain `n` steps on; it writes the counter only when it
makes a turn. -/
theorem skipMessages_exec (n : ℕ) (st : RatchetState S) :
    exec (skipMessages n) st = (.ok (), { st with
      recvChainKey := advance^[n] st.recvChainKey
      recvCount := if n = 0 then st.recvCount else (st.recvCount + n) % 2 ^ 32 }) := by
  induction n generalizing st with
  | zero => rfl
  | succ n ih =>
    simp only [skipMessages, kdfCk_eq, exec_bind, exec_get, exec_modify, exec_lift, ih,
      recvCount_turns, Function.iterate_succ_apply, Nat.add_one_ne_zero, if_false]

/-- **`encrypt_message`.**  The chain moves on also when `seal` fails, the counter only
when it succeeds. -/
theorem encryptMessage_exec (nonce : S.Nonce) (plaintext : List UInt8) (st : RatchetState S) :
    exec (encryptMessage nonce plaintext) st =
      match S.sealBytes (messageKey st.sendChainKey) nonce plaintext with
      | .error e => (.error (.ratchetError ("encryption failed: " ++ e)),
          { st with sendChainKey := advance st.sendChainKey })
      | .ok c => (.ok (⟨st.sendRatchetKey.publicKey, st.sendCount, st.previousSendCount⟩, c),
          { st with
            sendChainKey := advance st.sendChainKey
            sendCount := (st.sendCount + 1) % 2 ^ 32 }) := by
  simp only [encryptMessage, kdfCk_eq, exec_bind, exec_get, exec_modify, exec_lift, exec_pure]
  cases S.sealBytes (messageKey st.sendChainKey) nonce plaintext <;> rfl

/-- The state in which `decrypt_message` enters its loop. -/
def atLoop (st : RatchetState S) (header : MessageHeader S) (fresh : X25519KeyPair S) :
    RatchetState S :=
  if needDhStep st header then afterDhStep st header.ratchetKey fresh else st

/-- No DH step is made when the header repeats the stored key. -/
theorem atLoop_of_eq {st : RatchetState S} {header : MessageHeader S}
    (h : st.recvRatchetPubkey = some header.ratchetKey) (fresh : X25519KeyPair S) :
    atLoop st header fresh = st := by
  have hneed : needDhStep st header = false := by
    simp [needDhStep, h]
  rw [atLoop, hneed]
  rfl

/-- A DH step is needed when it does not. -/
theorem needDhStep_of_ne {st : RatchetState S} {header : MessageHeader S}
    (h : st.recvRatchetPubkey ≠ some header.ratchetKey) : needDhStep st header = true := by
  unfold needDhStep
  cases hpub : st.recvRatchetPubkey with
  | none => rfl
  | some existing =>
    refine decide_eq_true (fun he => h ?_)
    rw [hpub, he]

/-- Then it is made. -/
theorem atLoop_of_ne {st : RatchetState S} {header : MessageHeader S}
    (h : st.recvRatchetPubkey ≠ some header.ratchetKey) (fresh : X25519KeyPair S) :
    atLoop st header fresh = afterDhStep st header.ratchetKey fresh := by
  rw [atLoop, if_pos (needDhStep_of_ne h)]

/-- The chain key from which `decrypt_message` derives the message key. -/
def openingChain (st : RatchetState S) (header : MessageHeader S) (fresh : X25519KeyPair S) :
    S.Key :=
  advance^[header.messageNumber - (atLoop st header fresh).recvCount]
    (atLoop st header fresh).recvChainKey

/-- **`decrypt_message`.**  All writes are made before `open` is called, and they stay
whether it succeeds or not. -/
theorem decryptMessage_exec (header : MessageHeader S) (ciphertext : S.Sealed)
    (fresh : X25519KeyPair S) (st : RatchetState S) :
    exec (decryptMessage header ciphertext fresh) st =
      (mapErr "decryption failed: "
          (S.openBytes (messageKey (openingChain st header fresh)) ciphertext),
        { atLoop st header fresh with
          recvChainKey := advance (openingChain st header fresh)
          recvCount := (max (atLoop st header fresh).recvCount header.messageNumber + 1)
            % 2 ^ 32 }) := by
  -- both the loop and the last advance count modulo `2 ^ 32`
  have hcount : ∀ a b : ℕ, ((if b - a = 0 then a else (a + (b - a)) % 2 ^ 32) + 1) % 2 ^ 32
      = (max a b + 1) % 2 ^ 32 := by
    intro a b
    split <;> omega
  by_cases hneed : needDhStep st header = true
  · simp only [decryptMessage, kdfCk_eq, exec_bind, exec_get, exec_modify, exec_lift, if_pos hneed,
      dhRatchetStep_exec, skipMessages_exec, hcount, openingChain, atLoop]
  · simp only [decryptMessage, kdfCk_eq, exec_bind, exec_get, exec_modify, exec_lift, if_neg hneed,
      skipMessages_exec, hcount, openingChain, atLoop]

end Ratchet
