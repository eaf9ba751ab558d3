/-
# Handle names and their proofs (`ephemera-social/src/handle_validation.rs`)

The format of a name, the proof of work a registration carries (`ephemera-crypto/src/pow.rs`)
and the signature over it.  Argon2id and Ed25519 come from other crates and are collected
in `HandlePrimitives`.  The search for a nonce is bounded by a number of attempts and says
`none` while it has not ended.
-/
import Ephemera.Wire

/-! ## The format -/

/-- `MIN_HANDLE_LEN`. -/
def minHandleLen : ℕ := 3

/-- `MAX_HANDLE_LEN`. -/
def maxHandleLen : ℕ := 20

/-- `HANDLE_TTL_SECS`: 90 days. -/
def handleTtlSecs : UInt64 := 90 * 24 * 60 * 60

/-- `HANDLE_RELEASE_COOLDOWN_SECS`: 24 hours. -/
def handleReleaseCooldownSecs : UInt64 := 24 * 60 * 60

/-- `HANDLE_REGISTRATION_COOLDOWN_SECS`: 24 hours. -/
def handleRegistrationCooldownSecs : UInt64 := 24 * 60 * 60

/-- `RESERVED_HANDLES`. -/
def reservedHandles : List String :=
  ["admin", "administrator", "ephemera", "help", "info", "mod", "moderator", "official", "root",
    "staff", "support", "system", "team", "trust", "security"]

/-- `HandleValidationError`. -/
inductive HandleValidationError where
  | tooShort (len : ℕ)
  | tooLong (len : ℕ)
  | invalidCharacter (ch : Char) (pos : ℕ)
  | startsWithUnderscore
  | endsWithUnderscore
  | consecutiveUnderscores
  | reserved (name : String)
  | startsWithDigit
  deriving DecidableEq, Repr

/-- The bytes of a string. -/
def nameBytes (name : String) : List UInt8 := name.toList.flatMap String.utf8EncodeChar

/-- `is_ascii_lowercase`. -/
def isAsciiLowercase (ch : Char) : Bool := 'a' ≤ ch && ch ≤ 'z'

/-- `is_ascii_digit`. -/
def isAsciiDigit (ch : Char) : Bool := '0' ≤ ch && ch ≤ '9'

/-- A character that a handle may contain. -/
def isHandleChar (ch : Char) : Bool := isAsciiLowercase ch || isAsciiDigit ch || ch == '_'

/-- `name.contains("__")`. -/
def hasDoubleUnderscore : List Char → Bool
  | a :: b :: l => a == '_' && b == '_' || hasDoubleUnderscore (b :: l)
  | _ => false

/-- `validate_handle_format`.  The test of the first byte for a digit reads the first
character, which is ASCII by then. -/
def validateHandleFormat (name : String) : Except HandleValidationError Unit :=
  let len := (nameBytes name).length
  let chars := name.toList
  if len < minHandleLen then .error (.tooShort len)
  else if maxHandleLen < len then .error (.tooLong len)
  else
    match chars.zipIdx.find? (fun c => !isHandleChar c.1) with
    | some (ch, pos) => .error (.invalidCharacter ch pos)
    | none =>
      if chars.head? = some '_' then .error .startsWithUnderscore
      else if chars.getLast? = some '_' then .error .endsWithUnderscore
      else if hasDoubleUnderscore chars then .error .consecutiveUnderscores
      else if chars.head?.any isAsciiDigit then .error .startsWithDigit
      else if name ∈ reservedHandles then .error (.reserved name)
      else .ok ()

/-- `to_ascii_lowercase`. -/
def toAsciiLowercase (name : String) : String := String.ofList (name.toList.map Char.toLower)

/-! ## Proof of work -/

/-- `PowDifficulty`. -/
inductive PowDifficulty where
  | high
  | medium
  | low
  | renewal
  deriving DecidableEq, Repr

/-- `PowDifficulty::bits`. -/
def PowDifficulty.bits : PowDifficulty → UInt32
  | .high => 11
  | .medium => 9
  | .low => 7
  | .renewal => 5

/-- `calculate_pow_difficulty`. -/
def calculatePowDifficulty (name : String) : PowDifficulty :=
  let len := (nameBytes name).length
  if len ≤ 5 then .high else if len ≤ 10 then .medium else .low

/-- `PowStamp`. -/
structure PowStamp where
  challenge : List UInt8
  nonce : List UInt8
  difficulty : UInt32
  deriving DecidableEq, Repr

/-- What the handles need of other crates. -/
structure HandlePrimitives where
  /-- `pow_hash`: Argon2id of a challenge and a nonce. -/
  powHash : List UInt8 → List UInt8 → List UInt8
  /-- `verify_signature` of `ephemera-crypto` succeeds. -/
  verifySignature : IdentityKey → List UInt8 → Vector UInt8 64 → Bool

/-- `has_leading_zeros`. -/
def hasLeadingZeros (hash : List UInt8) (difficulty : UInt32) : Bool :=
  let fullBytes := (difficulty / 8).toNat
  let remainingBits := difficulty % 8
  (hash.take fullBytes).all (fun byte => byte == 0) &&
    (remainingBits == 0 ||
      match hash[fullBytes]? with
      | some byte => byte &&& (0xFF <<< (8 - remainingBits).toUInt8) == 0
      | none => true)

/-- The bytes of a `u64`, the most significant one first. -/
def toBeBytes (n : UInt64) : List UInt8 :=
  (List.range 8).map (fun i => (n >>> (8 * (7 - i)).toUInt64).toUInt8)

/-- The nonce of an attempt: the counter, and eight zero bytes. -/
def nonceOf (counter : UInt64) : List UInt8 := (toBeBytes counter).reverse ++ List.replicate 8 0

/-- What the challenge and the signed message have after their domain separators: the length
of the name as a big-endian `u16`, the name, the owner and the time. -/
def registrationBytes (name : String) (owner : IdentityKey) (registeredAt : UInt64) :
    List UInt8 :=
  let len := (nameBytes name).length.toUInt16
  [(len >>> 8).toUInt8, len.toUInt8] ++ nameBytes name ++ owner ++ toBeBytes registeredAt

/-- `build_pow_challenge`. -/
def buildPowChallenge (name : String) (owner : IdentityKey) (registeredAt : UInt64) :
    List UInt8 :=
  nameBytes "ephemera-handle-pow-v1" ++ 0 :: registrationBytes name owner registeredAt

/-- `build_signature_message`. -/
def buildSignatureMessage (name : String) (owner : IdentityKey) (registeredAt : UInt64) :
    List UInt8 :=
  nameBytes "ephemera-handle-sig-v1" ++ 0 :: registrationBytes name owner registeredAt

namespace HandlePrimitives

variable (P : HandlePrimitives)

/-- The loop of `generate_pow` from a counter on, for a number of attempts. -/
def searchNonce (challenge : List UInt8) (difficulty : UInt32) : ℕ → UInt64 → Option PowStamp
  | 0, _ => none
  | attempts + 1, counter =>
    let nonce := nonceOf counter
    if hasLeadingZeros (P.powHash challenge nonce) difficulty then
      some ⟨challenge, nonce, difficulty⟩
    else searchNonce challenge difficulty attempts (counter + 1)

/-- `generate_pow`. -/
def generatePow (attempts : ℕ) (challenge : List UInt8) (difficulty : UInt32) : Option PowStamp :=
  P.searchNonce challenge difficulty attempts 0

/-- `verify_pow`, with the reason of its `EphemeraError::InvalidPow`. -/
def verifyPow (stamp : PowStamp) (expectedChallenge : List UInt8) (minDifficulty : UInt32) :
    Except String Unit :=
  if stamp.challenge ≠ expectedChallenge then .error "challenge mismatch"
  else if stamp.difficulty < minDifficulty then
    .error ("difficulty " ++ toString stamp.difficulty ++ " is below minimum "
      ++ toString minDifficulty)
  else if hasLeadingZeros (P.powHash stamp.challenge stamp.nonce) stamp.difficulty then .ok ()
  else .error "hash does not meet difficulty requirement"

/-- `verify_handle_pow`. -/
def verifyHandlePow (name : String) (owner : IdentityKey) (registeredAt : UInt64)
    (powProof : PowStamp) (requiredDifficulty : PowDifficulty) : Except String Unit :=
  P.verifyPow powProof (buildPowChallenge name owner registeredAt) requiredDifficulty.bits

/-- `verify_handle_signature` succeeds. -/
def verifyHandleSignature (name : String) (owner : IdentityKey) (registeredAt : UInt64)
    (signature : Vector UInt8 64) : Bool :=
  P.verifySignature owner (buildSignatureMessage name owner registeredAt) signature

/-! ## Stamps -/

variable {P}

/-- A stamp that the search finds is for the challenge and difficulty it was asked for. -/
theorem of_searchNonce {challenge : List UInt8} {difficulty : UInt32} {attempts : ℕ}
    {counter : UInt64} {stamp : PowStamp}
    (h : P.searchNonce challenge difficulty attempts counter = some stamp) :
    stamp.challenge = challenge ∧ stamp.difficulty = difficulty ∧
      hasLeadingZeros (P.powHash challenge stamp.nonce) difficulty = true := by
  induction attempts generalizing counter with
  | zero => cases h
  | succ attempts ih =>
    rw [searchNonce] at h
    split at h
    · rename_i hz
      cases h
      exact ⟨rfl, rfl, hz⟩
    · exact ih h

/-- A stamp that was generated passes the check of its own difficulty. -/
theorem verifyPow_generatePow {attempts : ℕ} {challenge : List UInt8} {difficulty : UInt32}
    {stamp : PowStamp} (h : P.generatePow attempts challenge difficulty = some stamp) :
    P.verifyPow stamp challenge difficulty = .ok () := by
  obtain ⟨hch, hd, hz⟩ := of_searchNonce h
  rw [verifyPow, hch, hd, if_neg (by simp), if_neg (by simp), hz]
  rfl

/-- The difficulty of a registration is above that of a renewal. -/
theorem renewal_lt_calculatePowDifficulty (name : String) :
    PowDifficulty.renewal.bits < (calculatePowDifficulty name).bits := by
  rw [calculatePowDifficulty]
  split
  · decide
  · split
    · decide
    · decide

/-- A stamp of too low a difficulty fails, whatever its nonce. -/
theorem verifyPow_of_lt {stamp : PowStamp} {minDifficulty : UInt32}
    (h : stamp.difficulty < minDifficulty) (challenge : List UInt8) :
    P.verifyPow stamp challenge minDifficulty ≠ .ok () := by
  rw [verifyPow, if_pos h]
  split
  · exact nofun
  · exact nofun

end HandlePrimitives
