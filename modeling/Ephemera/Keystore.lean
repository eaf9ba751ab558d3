/-
# The encrypted keystore (`ephemera-crypto/src/keystore.rs`, `export.rs`)

A keystore file is a version, a salt, a nonce and the sealed contents: the master secret, the
node secret and the pseudonym secrets.  The key comes from a passphrase through Argon2id, or
from a session file that caches it.  The two import formats give back a master secret.

`openContents_saveBytes` is what the keystore is for: whatever key opens a file that was saved,
the contents are the saved ones.
-/
import Ephemera.EpochKeys
import Ephemera.Hex

/-! ## Pseudonym keys -/

/-- 32 bytes of key material. -/
abbrev Seed := Vector UInt8 32

/-- The text of an error. -/
def EphemeraError.text : EphemeraError → String
  | .encryptionError reason => "encryption error: " ++ reason
  | .keyDerivationError reason => "key derivation failed: " ++ reason

namespace Hkdf

variable (H : Hkdf)

/-- `derivation::PSEUDONYM_INFO_PREFIX`: the bytes of `ephemera-pseudonym`. -/
def pseudonymInfoPrefix : List UInt8 := "ephemera-pseudonym".toUTF8.toList

/-- The bytes of a `u32`, the least significant one first. -/
def indexBytes (index : UInt32) : List UInt8 :=
  (List.range 4).map (fun i => (index >>> (8 * i).toUInt32).toUInt8)

/-- `derive_pseudonym_key`; the key pair is kept as its seed. -/
def derivePseudonymKey (masterSecret : Seed) (index : UInt32) : Except EphemeraError Seed :=
  H.hkdfDerive masterSecret.toList none (pseudonymInfoPrefix ++ indexBytes index)

/-- The key of a pseudonym: its derivation does not fail. -/
def pseudonymKey (masterSecret : Seed) (index : UInt32) : Seed :=
  H.expand masterSecret.toList none (pseudonymInfoPrefix ++ indexBytes index)

theorem derivePseudonymKey_eq (masterSecret : Seed) (index : UInt32) :
    H.derivePseudonymKey masterSecret index = .ok (H.pseudonymKey masterSecret index) := by
  rw [derivePseudonymKey, hkdfDerive, if_pos (by decide)]
  rfl

end Hkdf

namespace Keystore

/-! ## Contents and primitives -/

/-- `PseudonymEntry`. -/
structure PseudonymEntry where
  index : UInt32
  secret : Seed
  deriving DecidableEq

/-- `KeystoreContents`. -/
structure KeystoreContents where
  masterSecret : Seed
  nodeSecret : Seed
  pseudonymSecrets : List PseudonymEntry
  deriving DecidableEq

/-- The primitives of other crates: HKDF, Argon2id, XChaCha20-Poly1305, SHA-256, Ed25519 and
`serde_json` on the contents; `str::to_lowercase`; and `WORDLIST`, the 2048 words of a
mnemonic. -/
structure KeySuite extends Hkdf where
  argon2id : List UInt8 → List UInt8 → Except String Seed
  encrypt : Seed → List UInt8 → List UInt8 → Except String (List UInt8)
  decrypt : Seed → List UInt8 → List UInt8 → Except String (List UInt8)
  sha256 : List UInt8 → Seed
  ed25519Public : Seed → Seed
  contentsToVec : KeystoreContents → Except String (List UInt8)
  contentsFromSlice : List UInt8 → Except String KeystoreContents
  toLowercase : String → String
  wordlist : List String

/-- What the keystore relies on.  `opened` holds of the keys and the sealed contents that are
tried on each other: such a key opens a ciphertext to nothing but what was encrypted.  And the
contents are read back as they were written. -/
structure KeySuite.Lawful (K : KeySuite) (opened : Seed → List UInt8 → Prop) : Prop where
  decrypt_of_encrypt : ∀ key key' nonce plaintext plaintext' ciphertext,
    K.encrypt key nonce plaintext = .ok ciphertext → opened key' (nonce ++ ciphertext) →
      K.decrypt key' nonce ciphertext = .ok plaintext' → plaintext' = plaintext
  contents_roundTrip : ∀ contents bytes,
    K.contentsToVec contents = .ok bytes → K.contentsFromSlice bytes = .ok contents

/-- `KEYSTORE_VERSION`. -/
def keystoreVersion : List UInt8 := [0, 0, 0, 1]

/-- `SALT_LEN`. -/
def saltLen : ℕ := 16

/-- `NONCE_LEN`. -/
def nonceLen : ℕ := 24

/-- `TAG_LEN`. -/
def tagLen : ℕ := 16

/-- What a save draws at random, and the I/O error it may end with. -/
structure SaveEntropy where
  salt : List UInt8
  salt_length : salt.length = saltLen
  nonce : List UInt8
  nonce_length : nonce.length = nonceLen
  nodeSecret : Seed
  writeError : Option String

variable (K : KeySuite)

/-! ## Sealed boxes -/

/-- `encryption::seal`, with the nonce it draws as an argument. -/
def sealBytes (key : Seed) (nonce plaintext : List UInt8) : Except String (List UInt8) :=
  match K.encrypt key nonce plaintext with
  | .ok ciphertext => .ok (nonce ++ ciphertext)
  | .error e => .error ("encryption error: XChaCha20-Poly1305 encryption failed: " ++ e)

/-- `encryption::open`; the errors are replaced by every caller. -/
def openSealed (key : Seed) (bytes : List UInt8) : Option (List UInt8) :=
  if bytes.length < nonceLen + tagLen then none
  else (K.decrypt key (bytes.take nonceLen) (bytes.drop nonceLen)).toOption

/-! ## Saving and loading -/

/-- `derive_key_from_passphrase`. -/
def deriveKeyFromPassphrase (passphrase salt : List UInt8) : Except String Seed :=
  (K.argon2id passphrase salt).mapError
    (fun e => "key derivation failed: Argon2id key derivation failed: " ++ e)

/-- What `save_keystore` writes to the file. -/
def saveBytes (passphrase : List UInt8) (contents : KeystoreContents) (entropy : SaveEntropy) :
    Except String (List UInt8) := do
  let plaintext ← (K.contentsToVec contents).mapError
    (fun e => "serialization error: keystore serialization failed: " ++ e)
  let key ← deriveKeyFromPassphrase K passphrase entropy.salt
  let sealed ← sealBytes K key entropy.nonce plaintext
  return keystoreVersion ++ entropy.salt ++ sealed

/-- The checks on a keystore file before its contents are opened: it is there, long enough and
of the version that is written. -/
def checkFile (file : Option (List UInt8)) : Except String (List UInt8) :=
  match file with
  | none => .error "I/O error: No such file or directory (os error 2)"
  | some bytes =>
    if bytes.length < 4 + saltLen + nonceLen + tagLen then
      .error "keystore error: keystore file too short"
    else if bytes.take 4 ≠ keystoreVersion then
      .error "keystore error: unsupported keystore version"
    else .ok bytes

/-- Open the sealed contents behind the header. -/
def openContents (bytes : List UInt8) (key : Seed) (failed : String) :
    Except String KeystoreContents :=
  match openSealed K key (bytes.drop (4 + saltLen)) with
  | none => .error ("keystore error: decryption failed (" ++ failed ++ ")")
  | some plaintext => (K.contentsFromSlice plaintext).mapError
      (fun e => "keystore error: keystore deserialization failed: " ++ e)

/-- `load_keystore`. -/
def loadKeystore (file : Option (List UInt8)) (passphrase : List UInt8) :
    Except String KeystoreContents := do
  let bytes ← checkFile file
  let key ← deriveKeyFromPassphrase K passphrase ((bytes.drop 4).take saltLen)
  openContents K bytes key "wrong passphrase or corrupt keystore"

/-- `load_keystore_with_key`. -/
def loadKeystoreWithKey (file : Option (List UInt8)) (key : Seed) :
    Except String KeystoreContents := do
  let bytes ← checkFile file
  openContents K bytes key "invalid cached key or corrupt keystore"

/-- `extract_salt`. -/
def extractSalt (file : Option (List UInt8)) : Option (List UInt8) :=
  match file with
  | none => none
  | some bytes => if bytes.length < 4 + saltLen then none else some ((bytes.drop 4).take saltLen)

/-- `derive_key_for_keystore`. -/
def deriveKeyForKeystore (file : Option (List UInt8)) (passphrase : List UInt8) :
    Except String Seed :=
  match extractSalt file with
  | none => .error "keystore error: cannot read keystore salt"
  | some salt => deriveKeyFromPassphrase K passphrase salt

/-! ## Import formats -/

/-- The bits of a number, `n` of them, the most significant one first. -/
def bitsOf (n value : ℕ) : List Bool := (List.range n).reverse.map value.testBit

/-- The number with these bits, the most significant one first. -/
def ofBits (bits : List Bool) : ℕ := bits.foldl (fun value bit => 2 * value + bit.toNat) 0

/-- `KeyExport::from_mnemonic`: 24 words of 11 bits each, 256 bits of secret and 8 of
checksum. -/
def fromMnemonic (words : List String) : Except String Seed := do
  if words.length ≠ 24 then
    throw ("invalid key: expected 24 mnemonic words, got " ++ toString words.length)
  let indices ← words.mapM fun word =>
    match K.wordlist.findIdx? (fun w => decide (w = K.toLowercase word)) with
    | some index => Except.ok index
    | none => .error ("invalid key: unknown mnemonic word: " ++ word)
  let bits := indices.flatMap (bitsOf 11)
  let secret : Seed := Vector.ofFn fun i => (ofBits ((bits.drop (8 * i.val)).take 8)).toUInt8
  if (ofBits ((bits.drop 256).take 8)).toUInt8 ≠ (K.sha256 secret.toList).head then
    throw "invalid key: mnemonic checksum mismatch (typo in words?)"
  return secret

/-- The checksum byte of `KeyExport::to_mnemonic`. -/
def checksumByte (master : Seed) : UInt8 := (K.sha256 master.toList).head

/-- `BACKUP_VERSION`. -/
def backupVersion : List UInt8 := [0x45, 0x50, 0x48, 0x01]

/-- `derive_backup_key`. -/
def deriveBackupKey (passphrase salt : List UInt8) : Except String Seed :=
  (K.argon2id passphrase salt).mapError
    (fun e => "key derivation failed: Argon2id backup key derivation failed: " ++ e)

/-- `KeyExport::from_encrypted_backup`; its salt is as long as that of a keystore. -/
def fromEncryptedBackup (data passphrase : List UInt8) : Except String Seed := do
  if data.length < 4 + saltLen + nonceLen + tagLen then
    throw "keystore error: backup file too short"
  if data.take 4 ≠ backupVersion then
    throw "keystore error: unsupported backup file version"
  let key ← deriveBackupKey K passphrase ((data.drop 4).take saltLen)
  match openSealed K key (data.drop (4 + saltLen)) with
  | none => throw "keystore error: decryption failed (wrong passphrase or corrupt backup)"
  | some plaintext =>
    if h : plaintext.length = 32 then
      return ⟨plaintext.toArray, h⟩
    else
      throw ("invalid key: decrypted master secret wrong length: expected 32, got " ++
        toString plaintext.length)

/-! ## What a saved file opens to -/

variable {K}

/-- A save succeeds when its parts do, and puts them behind each other. -/
theorem saveBytes_eq_ok {passphrase bytes : List UInt8} {contents : KeystoreContents}
    {entropy : SaveEntropy} (h : saveBytes K passphrase contents entropy = .ok bytes) :
    ∃ plaintext key ciphertext, K.contentsToVec contents = .ok plaintext ∧
      K.encrypt key entropy.nonce plaintext = .ok ciphertext ∧
      bytes = keystoreVersion ++ entropy.salt ++ (entropy.nonce ++ ciphertext) := by
  unfold saveBytes at h
  cases hvec : K.contentsToVec contents with
  | error e => simp [hvec, Except.mapError, bind, Except.bind] at h
  | ok plaintext =>
    cases hkey : deriveKeyFromPassphrase K passphrase entropy.salt with
    | error e => simp [hvec, hkey, Except.mapError, bind, Except.bind] at h
    | ok key =>
      cases henc : K.encrypt key entropy.nonce plaintext with
      | error e => simp [hvec, hkey, sealBytes, henc, Except.mapError, bind, Except.bind] at h
      | ok ciphertext =>
        simp only [hvec, hkey, sealBytes, henc, Except.mapError, bind, Except.bind, pure,
          Except.pure, Except.ok.injEq] at h
        exact ⟨plaintext, key, ciphertext, rfl, henc, h.symm⟩

/-- **A saved file opens to nothing but its contents**, under whatever key that is tried on it. -/
theorem openContents_saveBytes {opened : Seed → List UInt8 → Prop} (hK : K.Lawful opened)
    {passphrase bytes : List UInt8} {contents contents' : KeystoreContents} {entropy : SaveEntropy}
    (hsave : saveBytes K passphrase contents entropy = .ok bytes) {key : Seed} {failed : String}
    (hopened : opened key (bytes.drop (4 + saltLen)))
    (hopen : openContents K bytes key failed = .ok contents') : contents' = contents := by
  obtain ⟨plaintext, key₀, ciphertext, hvec, henc, rfl⟩ := saveBytes_eq_ok hsave
  have hdrop : (keystoreVersion ++ entropy.salt ++ (entropy.nonce ++ ciphertext)).drop (4 + saltLen)
      = entropy.nonce ++ ciphertext := by
    refine List.drop_left' ?_
    rw [List.length_append, entropy.salt_length]
    rfl
  rw [hdrop] at hopened
  rw [openContents, hdrop, openSealed, List.take_left' entropy.nonce_length,
    List.drop_left' entropy.nonce_length] at hopen
  -- a file that is too short does not open
  split_ifs at hopen
  cases hdec : K.decrypt key entropy.nonce ciphertext with
  | error e =>
    rw [hdec] at hopen
    cases hopen
  | ok plaintext' =>
    have hplain : plaintext' = plaintext :=
      hK.decrypt_of_encrypt _ _ _ _ _ _ henc hopened hdec
    rw [hdec, hplain] at hopen
    simp only [Except.toOption, hK.contents_roundTrip _ _ hvec, Except.mapError,
      Except.ok.injEq] at hopen
    exact hopen.symm

/-- The file that passes the checks. -/
theorem checkFile_eq_ok {file : Option (List UInt8)} {bytes : List UInt8}
    (h : checkFile file = .ok bytes) : file = some bytes ∧ 4 + saltLen ≤ bytes.length := by
  unfold checkFile at h
  split at h
  · cases h
  · split_ifs at h
    obtain rfl := Except.ok.inj h
    exact ⟨rfl, by omega⟩

/-- The key of a file that passes the checks. -/
theorem deriveKeyForKeystore_of_checkFile {file : Option (List UInt8)} {bytes : List UInt8}
    (h : checkFile file = .ok bytes) (passphrase : List UInt8) :
    deriveKeyForKeystore K file passphrase
      = deriveKeyFromPassphrase K passphrase ((bytes.drop 4).take saltLen) := by
  obtain ⟨rfl, hlen⟩ := checkFile_eq_ok h
  rw [deriveKeyForKeystore, extractSalt, if_neg (Nat.not_lt.mpr hlen)]

/-- Both ways to load a keystore open its contents. -/
theorem openContents_of_loadKeystore {file : Option (List UInt8)} {passphrase : List UInt8}
    {contents : KeystoreContents} (h : loadKeystore K file passphrase = .ok contents) :
    ∃ bytes key failed, file = some bytes ∧ deriveKeyForKeystore K file passphrase = .ok key ∧
      openContents K bytes key failed = .ok contents := by
  unfold loadKeystore at h
  cases hcheck : checkFile file with
  | error e => simp [hcheck, bind, Except.bind] at h
  | ok bytes =>
    cases hkey : deriveKeyFromPassphrase K passphrase ((bytes.drop 4).take saltLen) with
    | error e => simp [hcheck, hkey, bind, Except.bind] at h
    | ok key =>
      simp only [hcheck, hkey, bind, Except.bind] at h
      exact ⟨bytes, key, _, (checkFile_eq_ok hcheck).1,
        (deriveKeyForKeystore_of_checkFile hcheck passphrase).trans hkey, h⟩

theorem openContents_of_loadKeystoreWithKey {file : Option (List UInt8)} {key : Seed}
    {contents : KeystoreContents} (h : loadKeystoreWithKey K file key = .ok contents) :
    ∃ bytes failed, file = some bytes ∧ openContents K bytes key failed = .ok contents := by
  unfold loadKeystoreWithKey at h
  cases hcheck : checkFile file with
  | error e => simp [hcheck, bind, Except.bind] at h
  | ok bytes =>
    simp only [hcheck, bind, Except.bind] at h
    exact ⟨bytes, _, (checkFile_eq_ok hcheck).1, h⟩

end Keystore
