/-
# Sealed envelopes and the wire limit (`ephemera-message/src/{sealed,encryption}.rs`)

`SealedEnvelope::seal` compares the JSON text of its payload with `MAX_SEALED_WIRE_SIZE`, and
`validate` compares the ciphertext with the same limit.  The ciphertext is longer by the
ephemeral key, the nonce and the tag, 72 bytes in all.  So an envelope that `seal` returns
opens to what was sealed, and it is valid exactly when the JSON text is at least 72 bytes
shorter than the limit (`roundTrips_iff`).

X25519, BLAKE3, XChaCha20-Poly1305 and `serde_json` come from other crates and are collected
in a `Suite`, of which a node gets its `Cipher` (`openEnvelope_cipher`).  The last section writes
the JSON text out: a byte takes one to three digits.
-/
import Ephemera.Messaging
import Mathlib.Algebra.GroupWithZero.Nat

namespace SealedWire

/-- `[u8; 32]`. -/
abbrev Bytes32 := Vector UInt8 32

/-- `MAX_SEALED_WIRE_SIZE`. -/
def maxSealedWireSize : ℕ := 32768

/-- `NONCE_LEN` of XChaCha20. -/
def nonceLen : ℕ := 24

/-- `TAG_LEN` of Poly1305. -/
def tagLen : ℕ := 16

/-- `MIN_CIPHERTEXT_LEN`. -/
def minCiphertextLen : ℕ := 32 + 24 + 16

/-- `HKDF_INFO`. -/
def hkdfInfo : List UInt8 := "ephemera-message-v1".toUTF8.toList

/-- A payload, with its bytes. -/
abbrev Payload := SealedPayload Bytes32 (List UInt8)

/-- A sealed envelope, with its bytes. -/
abbrev Envelope := SealedEnvelope Bytes32 (List UInt8)

/-- What the envelope calls in other crates. -/
structure Suite where
  publicOf : Bytes32 → Bytes32
  diffieHellman : Bytes32 → Bytes32 → Bytes32
  /-- `blake3::keyed_hash`. -/
  keyedHash : Bytes32 → List UInt8 → Bytes32
  /-- `XChaCha20Poly1305::encrypt`: the ciphertext with its tag. -/
  encrypt : Bytes32 → Vector UInt8 nonceLen → List UInt8 → Except String (List UInt8)
  decrypt : Bytes32 → Vector UInt8 nonceLen → List UInt8 → Except String (List UInt8)
  /-- `serde_json::to_vec` on `SealedPayload`. -/
  toVec : Payload → Except String (List UInt8)
  /-- `serde_json::from_slice::<SealedPayload>`. -/
  fromSlice : List UInt8 → Except String Payload

/-- The longest plaintext of ChaCha20: `2^32 - 1` blocks of 64 bytes. -/
def maxPlaintext : ℕ := 274877906880

/-- What the envelope relies on. -/
structure Laws (P : Suite) : Prop where
  dh_comm : ∀ a b, P.diffieHellman a (P.publicOf b) = P.diffieHellman b (P.publicOf a)
  encrypts : ∀ key nonce plaintext, plaintext.length ≤ maxPlaintext →
    ∃ ciphertext, P.encrypt key nonce plaintext = .ok ciphertext
  length_encrypt : ∀ key nonce plaintext ciphertext,
    P.encrypt key nonce plaintext = .ok ciphertext → ciphertext.length = plaintext.length + tagLen
  decrypt_encrypt : ∀ key nonce plaintext ciphertext,
    P.encrypt key nonce plaintext = .ok ciphertext → P.decrypt key nonce ciphertext = .ok plaintext
  fromSlice_toVec : ∀ payload json, P.toVec payload = .ok json → P.fromSlice json = .ok payload

variable {P : Suite}

/-! ## The cipher -/

/-- The first `n` bytes, as `copy_from_slice` takes them into an array of zeros. -/
def firstBytes (n : ℕ) (bytes : List UInt8) : Vector UInt8 n :=
  Vector.ofFn (fun i => bytes.getD i 0)

/-- `encryption::seal`, with the nonce it draws. -/
def sealBytes (P : Suite) (key : Bytes32) (nonce : Vector UInt8 nonceLen)
    (plaintext : List UInt8) : Except String (List UInt8) := do
  let ciphertext ← P.encrypt key nonce plaintext
  return nonce.toList ++ ciphertext

/-- `encryption::open`. -/
def openBytes (P : Suite) (key : Bytes32) (sealed : List UInt8) : Except String (List UInt8) :=
  if sealed.length < nonceLen + tagLen then
    .error ("sealed message too short: " ++ toString sealed.length ++ " bytes (minimum " ++
      toString (nonceLen + tagLen) ++ ")")
  else P.decrypt key (firstBytes nonceLen sealed) (sealed.drop nonceLen)

/-- `CryptoError::EncryptionFailed` as a `MessageError`. -/
def encryptionFailed (reason : String) : MessageError :=
  .encryption ("encryption failed: " ++ reason)

/-- `CryptoError::DecryptionFailed` as a `MessageError`. -/
def decryptionFailed (reason : String) : MessageError :=
  .encryption ("decryption failed: " ++ reason)

/-- `MessageEncryption::derive_key`. -/
def deriveKey (P : Suite) (sharedSecret : Bytes32) : Bytes32 := P.keyedHash sharedSecret hkdfInfo

/-- `MessageEncryption::encrypt_message`, with the ephemeral secret and the nonce it draws. -/
def encryptMessage (P : Suite) (plaintext : List UInt8) (recipientPubkey ephemeral : Bytes32)
    (nonce : Vector UInt8 nonceLen) : Except MessageError (List UInt8) := do
  let sharedSecret := P.diffieHellman ephemeral recipientPubkey
  let sealed ← (sealBytes P (deriveKey P sharedSecret) nonce plaintext).mapError encryptionFailed
  return (P.publicOf ephemeral).toList ++ sealed

/-- `MessageEncryption::decrypt_message`. -/
def decryptMessage (P : Suite) (ciphertext : List UInt8) (ourSecret : Bytes32) :
    Except MessageError (List UInt8) :=
  if ciphertext.length < minCiphertextLen then .error (decryptionFailed "ciphertext too short")
  else
    let ephemeralPub := firstBytes 32 ciphertext
    let sharedSecret := P.diffieHellman ourSecret ephemeralPub
    (openBytes P (deriveKey P sharedSecret) (ciphertext.drop 32)).mapError decryptionFailed

/-! ## The envelope -/

/-- `SealedEnvelope::seal`, at time `now`, with what `encrypt_message` draws. -/
def sealEnvelope (P : Suite) (sender recipient recipientX25519 : Bytes32) (body : List UInt8)
    (ttl : UInt64) (ephemeral : Bytes32) (nonce : Vector UInt8 nonceLen) (now : UInt64) :
    Except MessageError Envelope := do
  let payloadBytes ← (P.toVec ⟨sender, body⟩).mapError .deserialization
  -- the limit is compared with the plaintext
  if payloadBytes.length > maxSealedWireSize then
    .error (.bodyTooLarge payloadBytes.length maxSealedWireSize)
  else
    let ciphertext ← encryptMessage P payloadBytes recipientX25519 ephemeral nonce
    return ⟨recipient, ciphertext, now, ttl⟩

/-- `SealedEnvelope::open`. -/
def openEnvelope (P : Suite) (envelope : Envelope) (ourSecret : Bytes32) :
    Except MessageError Payload := do
  let plaintext ← decryptMessage P envelope.ciphertext ourSecret
  (P.fromSlice plaintext).mapError .deserialization

/-- `SealedEnvelope::validate`. -/
def validate (envelope : Envelope) : Except MessageError Unit :=
  if envelope.ciphertext.length > maxSealedWireSize then
    .error (.bodyTooLarge envelope.ciphertext.length maxSealedWireSize)
  else .ok ()

/-- What `seal` returns is valid, and opens to the sender and the body; in particular `seal`
fails on a body whose envelope would not be valid. -/
def RoundTrips (P : Suite) (sender recipient recipientSecret : Bytes32) (body : List UInt8)
    (ttl : UInt64) (ephemeral : Bytes32) (nonce : Vector UInt8 nonceLen) (now : UInt64) : Prop :=
  ∀ envelope, sealEnvelope P sender recipient (P.publicOf recipientSecret) body ttl ephemeral
      nonce now = .ok envelope →
    validate envelope = .ok () ∧ openEnvelope P envelope recipientSecret = .ok ⟨sender, body⟩

/-! ## Opening inverts sealing -/

theorem firstBytes_append {n : ℕ} (v : Vector UInt8 n) (bytes : List UInt8) :
    firstBytes n (v.toList ++ bytes) = v := by
  apply Vector.ext
  intro i hi
  simp [firstBytes, List.getD_eq_getElem?_getD, List.getElem?_append_left]

theorem drop_append {n : ℕ} (v : Vector UInt8 n) (bytes : List UInt8) :
    (v.toList ++ bytes).drop n = bytes :=
  List.drop_left' v.length_toList

/-- What `encrypt_message` returns: the ephemeral key, the nonce and the ciphertext with its
tag. -/
theorem encryptMessage_eq_ok_iff {plaintext : List UInt8} {recipientPubkey ephemeral : Bytes32}
    {nonce : Vector UInt8 nonceLen} {output : List UInt8} :
    encryptMessage P plaintext recipientPubkey ephemeral nonce = .ok output ↔
      ∃ ciphertext, P.encrypt (deriveKey P (P.diffieHellman ephemeral recipientPubkey)) nonce
          plaintext = .ok ciphertext ∧
        output = (P.publicOf ephemeral).toList ++ (nonce.toList ++ ciphertext) := by
  cases hc : P.encrypt (deriveKey P (P.diffieHellman ephemeral recipientPubkey)) nonce
      plaintext with
  | error e =>
    have herr : encryptMessage P plaintext recipientPubkey ephemeral nonce =
        .error (encryptionFailed e) := by
      simp only [encryptMessage, sealBytes, hc]
      rfl
    rw [herr]
    refine iff_of_false (fun h => by cases h) ?_
    rintro ⟨_, h, _⟩
    cases h
  | ok ciphertext =>
    have hok : encryptMessage P plaintext recipientPubkey ephemeral nonce =
        .ok ((P.publicOf ephemeral).toList ++ (nonce.toList ++ ciphertext)) := by
      simp only [encryptMessage, sealBytes, hc]
      rfl
    rw [hok]
    simp only [Except.ok.injEq, exists_eq_left']
    exact eq_comm

/-- A ciphertext is 72 bytes longer than its plaintext. -/
theorem length_encryptMessage (hP : Laws P) {plaintext : List UInt8}
    {recipientPubkey ephemeral : Bytes32} {nonce : Vector UInt8 nonceLen} {output : List UInt8}
    (h : encryptMessage P plaintext recipientPubkey ephemeral nonce = .ok output) :
    output.length = plaintext.length + minCiphertextLen := by
  obtain ⟨ciphertext, hc, rfl⟩ := encryptMessage_eq_ok_iff.mp h
  have hlen := hP.length_encrypt _ _ _ _ hc
  rw [List.length_append, List.length_append, Vector.length_toList, Vector.length_toList, hlen,
    nonceLen, tagLen, minCiphertextLen]
  omega

/-- The recipient decrypts what was encrypted for its key. -/
theorem decryptMessage_encryptMessage (hP : Laws P) {plaintext : List UInt8}
    {recipientSecret ephemeral : Bytes32} {nonce : Vector UInt8 nonceLen} {output : List UInt8}
    (h : encryptMessage P plaintext (P.publicOf recipientSecret) ephemeral nonce = .ok output) :
    decryptMessage P output recipientSecret = .ok plaintext := by
  have hlen := length_encryptMessage hP h
  obtain ⟨ciphertext, hc, rfl⟩ := encryptMessage_eq_ok_iff.mp h
  have htag := hP.length_encrypt _ _ _ _ hc
  have hlong : ¬ (nonce.toList ++ ciphertext).length < nonceLen + tagLen := by
    rw [List.length_append, Vector.length_toList, htag]
    omega
  have hopen : openBytes P (deriveKey P (P.diffieHellman recipientSecret (P.publicOf ephemeral)))
      (nonce.toList ++ ciphertext) = .ok plaintext := by
    rw [openBytes, if_neg hlong, firstBytes_append, drop_append,
      hP.dh_comm recipientSecret ephemeral, hP.decrypt_encrypt _ _ _ _ hc]
  rw [decryptMessage, if_neg (by omega), firstBytes_append, drop_append]
  dsimp only
  rw [hopen]
  rfl

/-- What `seal` returns. -/
theorem sealEnvelope_eq_ok_iff {sender recipient recipientX25519 : Bytes32} {body : List UInt8}
    {ttl : UInt64} {ephemeral : Bytes32} {nonce : Vector UInt8 nonceLen} {now : UInt64}
    {envelope : Envelope} :
    sealEnvelope P sender recipient recipientX25519 body ttl ephemeral nonce now = .ok envelope ↔
      ∃ json ciphertext, P.toVec ⟨sender, body⟩ = .ok json ∧ json.length ≤ maxSealedWireSize ∧
        encryptMessage P json recipientX25519 ephemeral nonce = .ok ciphertext ∧
        envelope = ⟨recipient, ciphertext, now, ttl⟩ := by
  unfold sealEnvelope
  cases P.toVec ⟨sender, body⟩ with
  | error e =>
    refine iff_of_false (fun h => by cases h) ?_
    rintro ⟨_, _, h, _⟩
    cases h
  | ok json =>
    simp only [Except.mapError, bind, Except.bind, Except.ok.injEq]
    by_cases hlen : json.length > maxSealedWireSize
    · rw [if_pos hlen]
      refine iff_of_false (fun h => by cases h) ?_
      rintro ⟨_, _, rfl, hle, _⟩
      exact absurd hle (Nat.not_le_of_gt hlen)
    · rw [if_neg hlen]
      cases hc : encryptMessage P json recipientX25519 ephemeral nonce with
      | error e =>
        refine iff_of_false (fun h => by cases h) ?_
        rintro ⟨_, _, rfl, _, h, _⟩
        rw [hc] at h
        cases h
      | ok ciphertext =>
        constructor
        · intro h
          exact ⟨json, ciphertext, rfl, Nat.le_of_not_gt hlen, hc, (Except.ok.inj h).symm⟩
        · rintro ⟨_, _, rfl, _, h, rfl⟩
          rw [hc] at h
          obtain rfl := Except.ok.inj h
          rfl

/-- What `seal` returns opens to the sender and the body, whatever its size. -/
theorem openEnvelope_sealEnvelope (hP : Laws P)
    {sender recipient recipientSecret : Bytes32} {body : List UInt8} {ttl : UInt64}
    {ephemeral : Bytes32} {nonce : Vector UInt8 nonceLen} {now : UInt64}
    {envelope : Envelope}
    (h : sealEnvelope P sender recipient (P.publicOf recipientSecret) body ttl ephemeral nonce now
      = .ok envelope) :
    openEnvelope P envelope recipientSecret = .ok ⟨sender, body⟩ := by
  obtain ⟨json, ciphertext, hjson, _, hc, rfl⟩ := sealEnvelope_eq_ok_iff.mp h
  simp only [openEnvelope, decryptMessage_encryptMessage hP hc, bind, Except.bind,
    hP.fromSlice_toVec _ _ hjson]
  rfl

theorem validate_eq_ok_iff {envelope : Envelope} :
    validate envelope = .ok () ↔ envelope.ciphertext.length ≤ maxSealedWireSize := by
  rw [validate]
  split
  · next h => exact iff_of_false (fun he => by cases he) (Nat.not_le_of_gt h)
  · next h => exact iff_of_true rfl (Nat.le_of_not_gt h)

/-- A payload within the limit of `seal` is sealed, and the envelope is valid exactly when its
JSON text leaves room for the ephemeral key, the nonce and the tag. -/
theorem exists_sealEnvelope (hP : Laws P) (sender recipient recipientSecret : Bytes32)
    (body : List UInt8) (ttl : UInt64) (ephemeral : Bytes32) (nonce : Vector UInt8 nonceLen)
    (now : UInt64) (json : List UInt8) (hjson : P.toVec ⟨sender, body⟩ = .ok json)
    (hle : json.length ≤ maxSealedWireSize) :
    ∃ envelope, sealEnvelope P sender recipient (P.publicOf recipientSecret) body ttl ephemeral
        nonce now = .ok envelope ∧
      (validate envelope = .ok () ↔ json.length ≤ maxSealedWireSize - minCiphertextLen) := by
  have hmax : json.length ≤ maxPlaintext := Nat.le_trans hle (by decide)
  obtain ⟨sealed, hsealed⟩ := hP.encrypts
    (deriveKey P (P.diffieHellman ephemeral (P.publicOf recipientSecret))) nonce json hmax
  have hc := encryptMessage_eq_ok_iff.mpr ⟨sealed, hsealed, rfl⟩
  have hlen := length_encryptMessage hP hc
  refine ⟨_, sealEnvelope_eq_ok_iff.mpr ⟨json, _, hjson, hle, hc, rfl⟩, ?_⟩
  rw [validate_eq_ok_iff, hlen]
  exact Nat.le_sub_iff_add_le (by decide) |>.symm

/-- **Sealing within the wire limit.**  An envelope that `seal` returns is valid and opens to
the sender and the body, exactly when the JSON text leaves room for the ephemeral key, the
nonce and the tag, or is too long for `seal` itself. -/
theorem roundTrips_iff (hP : Laws P) (sender recipient recipientSecret : Bytes32)
    (body : List UInt8) (ttl : UInt64) (ephemeral : Bytes32) (nonce : Vector UInt8 nonceLen)
    (now : UInt64) :
    RoundTrips P sender recipient recipientSecret body ttl ephemeral nonce now ↔
      ∀ json, P.toVec ⟨sender, body⟩ = .ok json →
        json.length ≤ maxSealedWireSize - minCiphertextLen ∨ maxSealedWireSize < json.length := by
  have hsealed := exists_sealEnvelope hP sender recipient recipientSecret body ttl ephemeral nonce
    now
  constructor
  · intro h json hjson
    by_cases hlong : maxSealedWireSize < json.length
    · exact Or.inr hlong
    · obtain ⟨envelope, hseal, hvalid⟩ := hsealed json hjson (Nat.le_of_not_gt hlong)
      exact Or.inl (hvalid.mp (h envelope hseal).1)
  · intro h envelope hseal
    refine ⟨?_, openEnvelope_sealEnvelope hP hseal⟩
    obtain ⟨json, _, hjson, hle, _, _⟩ := sealEnvelope_eq_ok_iff.mp hseal
    obtain ⟨envelope', hseal', hvalid⟩ := hsealed json hjson hle
    obtain rfl : envelope = envelope' := Except.ok.inj (hseal.symm.trans hseal')
    exact hvalid.mpr ((h json hjson).resolve_right (Nat.not_lt_of_ge hle))

/-! ## The cipher of a node -/

/-- The text of an encryption error, the only kind `decrypt_message` returns. -/
def reasonOf : MessageError → String
  | .encryption reason => reason
  | _ => ""

/-- The encryption a node calls, over byte strings that can be read as lists of bytes. -/
def Suite.cipher (P : Suite) (W : Wire) (bytes : W.Bytes → List UInt8)
    (ed25519PubToX25519 : IdentityKey → Except String Bytes32) : Cipher W where
  X25519Public := Bytes32
  X25519Secret := Bytes32
  Entropy := Bytes32 × Vector UInt8 nonceLen
  ed25519PubToX25519 := ed25519PubToX25519
  encryptMessage := fun plaintext recipient entropy =>
    ((encryptMessage P (bytes plaintext) recipient entropy.1 entropy.2).mapError reasonOf).map
      W.ofBytes
  decryptMessage := fun ciphertext secret =>
    ((decryptMessage P (bytes ciphertext) secret).mapError reasonOf).map W.ofBytes
  payloadFromSlice := fun json =>
    (P.fromSlice (bytes json)).map (fun p => ⟨p.sender.toList, W.ofBytes p.body⟩)

/-- The errors of `decrypt_message`. -/
theorem decryptMessage_error {ciphertext : List UInt8} {ourSecret : Bytes32} {e : MessageError}
    (h : decryptMessage P ciphertext ourSecret = .error e) : .encryption (reasonOf e) = e := by
  rw [decryptMessage] at h
  split at h
  · rw [← Except.error.inj h]
    rfl
  · dsimp only at h
    cases hopen : openBytes P (deriveKey P (P.diffieHellman ourSecret (firstBytes 32 ciphertext)))
        (ciphertext.drop 32) with
    | error reason =>
      rw [hopen] at h
      rw [← Except.error.inj h]
      rfl
    | ok plaintext =>
      rw [hopen] at h
      cases h

/-- **A node opens as `SealedEnvelope::open` does**, with the same payloads and the same errors. -/
theorem openEnvelope_cipher {W : Wire} {bytes : W.Bytes → List UInt8}
    (hbytes : ∀ l, bytes (W.ofBytes l) = l)
    (ed25519PubToX25519 : IdentityKey → Except String Bytes32) (envelope : Envelope)
    (ourSecret : Bytes32) :
    Messaging.openEnvelope (P.cipher W bytes ed25519PubToX25519)
        ⟨envelope.recipient.toList, W.ofBytes envelope.ciphertext, envelope.timestamp,
          envelope.ttl⟩ ourSecret =
      (openEnvelope P envelope ourSecret).map
        (fun p => ⟨p.sender.toList, W.ofBytes p.body⟩) := by
  unfold Messaging.openEnvelope openEnvelope
  simp only [Suite.cipher, hbytes]
  cases hdec : decryptMessage P envelope.ciphertext ourSecret with
  | error e => exact congrArg Except.error (decryptMessage_error hdec)
  | ok plaintext =>
    simp only [Except.mapError, Except.map, bind, Except.bind, hbytes]
    cases P.fromSlice plaintext with
    | error text => rfl
    | ok p => rfl

/-- So a node opens what `seal` returns. -/
theorem messaging_openEnvelope_sealEnvelope (hP : Laws P) {W : Wire}
    {bytes : W.Bytes → List UInt8} (hbytes : ∀ l, bytes (W.ofBytes l) = l)
    (ed25519PubToX25519 : IdentityKey → Except String Bytes32)
    {sender recipient recipientSecret : Bytes32} {body : List UInt8} {ttl : UInt64}
    {ephemeral : Bytes32} {nonce : Vector UInt8 nonceLen} {now : UInt64} {envelope : Envelope}
    (h : sealEnvelope P sender recipient (P.publicOf recipientSecret) body ttl ephemeral nonce now
      = .ok envelope) :
    Messaging.openEnvelope (P.cipher W bytes ed25519PubToX25519)
        ⟨envelope.recipient.toList, W.ofBytes envelope.ciphertext, envelope.timestamp,
          envelope.ttl⟩ recipientSecret =
      .ok ⟨sender.toList, W.ofBytes body⟩ := by
  rw [openEnvelope_cipher hbytes, openEnvelope_sealEnvelope hP h]
  rfl

/-! ## The JSON text of a payload -/

/-- A decimal digit in ASCII. -/
def digit (n : ℕ) : UInt8 := UInt8.ofNat (48 + n)

/-- A byte as `serde_json` writes it. -/
def decimal (b : UInt8) : List UInt8 :=
  if b.toNat < 10 then [digit b.toNat]
  else if b.toNat < 100 then [digit (b.toNat / 10), digit (b.toNat % 10)]
  else [digit (b.toNat / 100), digit (b.toNat / 10 % 10), digit (b.toNat % 10)]

/-- The elements of an array of bytes. -/
def commaSeparated : List UInt8 → List UInt8
  | [] => []
  | [b] => decimal b
  | b :: b' :: l => decimal b ++ 44 :: commaSeparated (b' :: l)

/-- The text in front of the elements of `sender`. -/
def senderText : List UInt8 := "\x7b\"sender\":[".toUTF8.toList

/-- The text between the two arrays, after the closing bracket. -/
def bodyText : List UInt8 := ",\"body\":[".toUTF8.toList

/-- The last character. -/
def endText : List UInt8 := "\x7d".toUTF8.toList

/-- `serde_json::to_vec` on `SealedPayload`: a struct of two arrays of numbers. -/
def payloadJson (p : Payload) : List UInt8 :=
  senderText ++ (commaSeparated p.sender.toList ++ 93 :: (bodyText ++
    (commaSeparated p.body ++ 93 :: endText)))

/-- The elements take their digits, and a comma between each two. -/
theorem length_commaSeparated (l : List UInt8) :
    (commaSeparated l).length = (l.map (fun b => (decimal b).length)).sum + (l.length - 1) := by
  fun_induction commaSeparated l with
  | case1 => rfl
  | case2 b => simp
  | case3 b b' l ih =>
    rw [List.length_append, List.length_cons, ih]
    simp only [List.map_cons, List.sum_cons, List.length_cons]
    omega

/-- **The length of the JSON text**: 23 characters, and the digits and commas of both arrays. -/
theorem length_payloadJson (p : Payload) :
    (payloadJson p).length = 23 + (commaSeparated p.sender.toList).length +
      (commaSeparated p.body).length := by
  have hsender : senderText.length = 11 := by decide +kernel
  have hbody : bodyText.length = 9 := by decide +kernel
  have hend : endText.length = 1 := by decide +kernel
  simp only [payloadJson, List.length_append, List.length_cons, hsender, hbody, hend]
  omega

/-- Read the elements of an array up to its closing bracket. -/
def readArray : List UInt8 → Option ℕ → List UInt8 → Option (List UInt8 × List UInt8)
  | [], _, _ => none
  | c :: rest, number, read =>
    if c = 93 then some (read ++ (number.map UInt8.ofNat).toList, rest)
    else if c = 44 then readArray rest none (read ++ (number.map UInt8.ofNat).toList)
    else readArray rest (some (number.getD 0 * 10 + (c.toNat - 48))) read

/-- Read the text of `payloadJson`. -/
def readPayload (json : List UInt8) : Option Payload := do
  let (sender, rest) ← readArray (json.drop senderText.length) none []
  let (body, _) ← readArray (rest.drop bodyText.length) none []
  return ⟨firstBytes 32 sender, body⟩

/-- A digit is read. -/
theorem readArray_digit {n : ℕ} (hn : n < 10) (rest : List UInt8) (number : Option ℕ)
    (read : List UInt8) :
    readArray (digit n :: rest) number read =
      readArray rest (some (number.getD 0 * 10 + n)) read := by
  have hval : (digit n).toNat = 48 + n := by
    rw [digit, UInt8.toNat_ofNat_of_lt']
    change 48 + n < 256
    omega
  have hclose : digit n ≠ 93 := fun h => by
    rw [h] at hval
    change 93 = 48 + n at hval
    omega
  have hcomma : digit n ≠ 44 := fun h => by
    rw [h] at hval
    change 44 = 48 + n at hval
    omega
  rw [readArray, if_neg hclose, if_neg hcomma, hval, Nat.add_sub_cancel_left]

/-- A byte is read. -/
theorem readArray_decimal (b : UInt8) (rest read : List UInt8) :
    readArray (decimal b ++ rest) none read = readArray rest (some b.toNat) read := by
  have hb : b.toNat < 256 := b.toNat_lt
  rw [decimal]
  split_ifs with h10 h100
  · rw [List.singleton_append, readArray_digit h10, Option.getD_none, Nat.zero_mul, Nat.zero_add]
  · simp only [List.cons_append, List.nil_append]
    rw [readArray_digit (by omega), readArray_digit (by omega)]
    congr 2
    simp only [Option.getD_some, Option.getD_none]
    omega
  · simp only [List.cons_append, List.nil_append]
    rw [readArray_digit (by omega), readArray_digit (by omega), readArray_digit (by omega)]
    congr 2
    simp only [Option.getD_some, Option.getD_none]
    omega

/-- An array is read up to its closing bracket. -/
theorem readArray_commaSeparated (l rest read : List UInt8) :
    readArray (commaSeparated l ++ 93 :: rest) none read = some (read ++ l, rest) := by
  induction l generalizing read with
  | nil => rw [commaSeparated, List.nil_append, readArray, if_pos rfl]; rfl
  | cons b l ih =>
    cases l with
    | nil =>
      rw [commaSeparated, readArray_decimal, readArray, if_pos rfl]
      simp
    | cons b' l =>
      have hne : (44 : UInt8) ≠ 93 := by decide
      rw [commaSeparated, List.append_assoc, readArray_decimal, List.cons_append, readArray,
        if_neg hne, if_pos rfl, ih]
      simp

/-- The text of a payload is read as the payload. -/
theorem readPayload_payloadJson (p : Payload) : readPayload (payloadJson p) = some p := by
  have hsender : firstBytes 32 p.sender.toList = p.sender := by
    have h := firstBytes_append p.sender []
    rwa [List.append_nil] at h
  simp only [readPayload, payloadJson, List.drop_left, readArray_commaSeparated, bind,
    Option.bind, List.nil_append, hsender]
  rfl

/-- Primitives with the documented sizes: a tag of zeros behind the plaintext, and the JSON
text of a payload. -/
def plainSuite : Suite where
  publicOf := id
  diffieHellman := fun a b => Vector.zipWith (· ^^^ ·) a b
  keyedHash := fun key _ => key
  encrypt := fun _ _ plaintext => .ok (plaintext ++ List.replicate tagLen 0)
  decrypt := fun _ _ ciphertext => .ok (ciphertext.take (ciphertext.length - tagLen))
  toVec := fun payload => .ok (payloadJson payload)
  fromSlice := fun json =>
    match readPayload json with
    | some payload => .ok payload
    | none => .error "expected value"

theorem laws_plainSuite : Laws plainSuite where
  dh_comm := fun a b => Vector.ext (fun i hi => by simp [plainSuite, UInt8.xor_comm])
  encrypts := fun _ _ plaintext _ => ⟨_, rfl⟩
  length_encrypt := by
    rintro key nonce plaintext ciphertext h
    obtain rfl := Except.ok.inj h
    simp
  decrypt_encrypt := by
    rintro key nonce plaintext ciphertext h
    obtain rfl := Except.ok.inj h
    simp [plainSuite]
  fromSlice_toVec := by
    rintro payload json h
    obtain rfl := Except.ok.inj h
    simp only [plainSuite, readPayload_payloadJson]

/-- A short text from `170…170` to the owner of secret `7…7`. -/
theorem roundTrips_hello :
    RoundTrips plainSuite (Vector.replicate 32 170) (Vector.replicate 32 187)
      (Vector.replicate 32 7) [104, 101, 108, 108, 111] 86400 (Vector.replicate 32 9)
      (Vector.replicate 24 1) 1700000000 := by
  refine (roundTrips_iff laws_plainSuite _ _ _ _ _ _ _ _).mpr (fun json hjson => Or.inl ?_)
  obtain rfl := Except.ok.inj hjson
  rw [length_payloadJson]
  decide +kernel

/-- The digits of a byte, many times over. -/
theorem length_commaSeparated_replicate (n : ℕ) (b : UInt8) :
    (commaSeparated (List.replicate n b)).length = n * (decimal b).length + (n - 1) := by
  rw [length_commaSeparated, List.map_replicate, List.sum_replicate_nat, List.length_replicate]

/-- The JSON text of a body of `n` letters `d` from `170…170`. -/
theorem length_payloadJson_replicate (n : ℕ) :
    (payloadJson ⟨Vector.replicate 32 170, List.replicate n 100⟩).length
      = 150 + (n * 3 + (n - 1)) := by
  have hsender : (commaSeparated (Vector.replicate 32 (170 : UInt8)).toList).length = 127 := by
    decide +kernel
  have hdecimal : (decimal 100).length = 3 := by decide
  rw [length_payloadJson, length_commaSeparated_replicate, hsender, hdecimal]

/-- A body of 8150 letters `d`: its JSON text of 32749 bytes is within the limit, and `seal`
returns an envelope of 32821 bytes, which is not valid. -/
theorem not_roundTrips_8150 :
    Laws plainSuite ∧ ¬ RoundTrips plainSuite (Vector.replicate 32 170) (Vector.replicate 32 187)
      (Vector.replicate 32 7) (List.replicate 8150 100) 86400 (Vector.replicate 32 9)
      (Vector.replicate 24 1) 1700000000 := by
  refine ⟨laws_plainSuite, fun h => ?_⟩
  have hlen : (payloadJson ⟨Vector.replicate 32 170, List.replicate 8150 100⟩).length = 32749 :=
    length_payloadJson_replicate 8150
  have hle : (payloadJson ⟨Vector.replicate 32 170, List.replicate 8150 100⟩).length ≤
      maxSealedWireSize := by
    rw [hlen]
    decide
  obtain ⟨envelope, hseal, hvalid⟩ := exists_sealEnvelope laws_plainSuite (Vector.replicate 32 170)
    (Vector.replicate 32 187) (Vector.replicate 32 7) (List.replicate 8150 100) 86400
    (Vector.replicate 32 9) (Vector.replicate 24 1) 1700000000 _ rfl hle
  have hshort := hvalid.mp (h envelope hseal).1
  rw [hlen] at hshort
  exact absurd hshort (by decide)

end SealedWire
