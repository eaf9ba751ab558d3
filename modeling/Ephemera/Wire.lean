/-
# What crosses the wire

Byte strings, their serialisation and their hashes come from other crates
(`serde_json`, `blake3`), so they are collected in a structure `Wire`.  A parsed JSON
value is read only through `get`, `as_str`, `as_u64` and `as_i64`; it is therefore the
list of the fields of an object, and a value that is not an object has none.

`Wire.Lawful` names what the node relies on: serialised values are parsed back, and a
missing field makes an envelope unreadable.  Where it matters that hashes differ, this is
asked of the byte strings that are hashed in a run (`Set.InjOn W.blake3`).
-/
import Ephemera.Hex
import Mathlib.Data.Set.Function

/-! ## JSON -/

/-- A field of a JSON object, as far as the accessors tell it apart. -/
inductive JsonField where
  | null
  | str (s : String)
  | uint (n : UInt64)
  | negInt (n : Int64) (neg : n < 0)
  | other
  deriving DecidableEq

namespace JsonField

/-- `Value::as_str`. -/
def asStr : JsonField → Option String
  | .str s => some s
  | _ => none

/-- `Value::as_u64`. -/
def asU64 : JsonField → Option UInt64
  | .uint n => some n
  | _ => none

/-- `Value::as_i64`. -/
def asI64 : JsonField → Option Int64
  | .uint n => if n.toNat < 2 ^ 63 then some n.toInt64 else none
  | .negInt n _ => some n
  | _ => none

/-- An optional string: `null` when it is missing. -/
def ofOption : Option String → JsonField
  | some s => .str s
  | none => .null

end JsonField

/-- The fields of a JSON object. -/
abbrev Json := List (String × JsonField)

namespace Json

/-- `Value::get`. -/
def get (json : Json) (key : String) : Option JsonField := json.lookup key

/-- `json.get(key).and_then(|v| v.as_str())`. -/
def getStr (json : Json) (key : String) : Option String := (json.get key).bind JsonField.asStr

end Json

/-! ## Byte strings -/

/-- `IdentityKey`, as bytes. -/
abbrev IdentityKey := List UInt8

/-- The length of an identity key. -/
def identityKeyLen : ℕ := 32

/-- `DeadDropEnvelope`. -/
structure DeadDropEnvelope (Digest Bytes : Type) where
  mailboxKey : Digest
  messageId : Digest
  sealedData : Bytes
  depositedAt : UInt64
  expiresAt : UInt64

/-- Byte strings with the operations other crates provide on them. -/
structure Wire where
  Bytes : Type
  Digest : Type
  decDigest : DecidableEq Digest
  /-- `len`. -/
  len : Bytes → ℕ
  /-- `str::as_bytes`. -/
  ofStr : String → Bytes
  /-- A concatenation of byte arrays. -/
  ofBytes : List UInt8 → Bytes
  /-- `String::from_utf8`. -/
  toStr? : Bytes → Option String
  blake3 : Bytes → Digest
  /-- `serde_json::to_vec` of a `json!` object, and `serde_json::from_slice::<Value>`. -/
  jsonToVec : Json → Bytes
  jsonFromSlice : Bytes → Option Json
  /-- `serde_json` on `DeadDropEnvelope`. -/
  envelopeToVec : DeadDropEnvelope Digest Bytes → Bytes
  envelopeFromSlice : Bytes → Option (DeadDropEnvelope Digest Bytes)

namespace Wire

instance (W : Wire) : DecidableEq W.Digest := W.decDigest

/-- An envelope over the byte strings of `W`. -/
abbrev Envelope (W : Wire) := DeadDropEnvelope W.Digest W.Bytes

/-- What the node relies on. -/
structure Lawful (W : Wire) : Prop where
  json : ∀ j : Json, (j.map Prod.fst).Nodup →
    ∃ j', W.jsonFromSlice (W.jsonToVec j) = some j' ∧ ∀ k, j'.get k = j.get k
  envelope : ∀ e : W.Envelope, W.envelopeFromSlice (W.envelopeToVec e) = some e
  /-- An envelope is an object without a field `type`. -/
  envelope_json : ∀ e : W.Envelope,
    ∃ j, W.jsonFromSlice (W.envelopeToVec e) = some j ∧ j.get "type" = none
  /-- An object without a field `mailbox_key` is not an envelope. -/
  envelope_missing : ∀ j : Json, (j.map Prod.fst).Nodup → j.get "mailbox_key" = none →
    W.envelopeFromSlice (W.jsonToVec j) = none
  str : ∀ s, W.toStr? (W.ofStr s) = some s
  ofBytes_injective : Function.Injective W.ofBytes

variable {W : Wire}

theorem Lawful.ofStr_injective (hW : W.Lawful) : Function.Injective W.ofStr := by
  intro s t h
  have hs := hW.str s
  rw [h, hW.str t] at hs
  exact (Option.some.inj hs).symm

/-! ## A concrete wire -/

/-- Byte strings that remember how they were made. -/
inductive SymBytes where
  | str (s : String)
  | raw (bytes : List UInt8)
  | json (fields : Json)
  | envelope (mailboxKey messageId sealedData : SymBytes) (depositedAt expiresAt : UInt64)
  | ciphertext (plaintext : SymBytes) (recipient : IdentityKey) (entropy : ℕ)
  deriving DecidableEq

/-- The number of bytes of a field. -/
def fieldLen : JsonField → ℕ
  | .str s => s.utf8ByteSize + 2
  | _ => 20

/-- The length of a byte string; a digest has 32 bytes, which JSON writes as numbers. -/
def symLen : SymBytes → ℕ
  | .str s => s.utf8ByteSize
  | .raw bytes => bytes.length
  | .json fields => (fields.map (fun f => f.1.utf8ByteSize + fieldLen f.2 + 4)).sum
  | .envelope _ _ sealedData _ _ => 4 * symLen sealedData + 400
  | .ciphertext plaintext _ _ => symLen plaintext + 72

/-- A lawful wire. -/
def symbolic : Wire where
  Bytes := SymBytes
  Digest := SymBytes
  decDigest := inferInstance
  len := symLen
  ofStr := .str
  ofBytes := .raw
  toStr? := fun
    | .str s => some s
    | _ => none
  blake3 := id
  jsonToVec := .json
  jsonFromSlice := fun
    | .json j => some j
    | .envelope _ _ _ d e => some [("deposited_at", .uint d), ("expires_at", .uint e)]
    | _ => none
  envelopeToVec := fun e =>
    .envelope e.mailboxKey e.messageId e.sealedData e.depositedAt e.expiresAt
  envelopeFromSlice := fun
    | .envelope m i s d e => some ⟨m, i, s, d, e⟩
    | _ => none

instance : DecidableEq symbolic.Bytes := inferInstanceAs (DecidableEq SymBytes)

theorem symbolic_lawful : symbolic.Lawful where
  json := fun j _ => ⟨j, rfl, fun _ => rfl⟩
  envelope := fun _ => rfl
  envelope_json := fun _ => ⟨_, rfl, rfl⟩
  envelope_missing := fun _ _ _ => rfl
  str := fun _ => rfl
  ofBytes_injective := fun _ _ h => SymBytes.raw.inj h

/-- Its hash returns what it is given. -/
theorem symbolic_injOn (hashed : Set symbolic.Bytes) : Set.InjOn symbolic.blake3 hashed :=
  fun _ _ _ _ h => h

end Wire
