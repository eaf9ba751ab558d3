/-
# Protocol envelopes and their JSON text (`ephemera-protocol`)

`ProtocolEnvelope` is what one node sends to another.  Its text is the one that `serde_json`
writes for the derived `Serialize`: the fields in the order of the struct, without blanks.  The
text is put together from prefix codes, so it is read back, and no part of it is.
-/
import Ephemera.PrefixCode
import Ephemera.SealedWire

/-- `ProtocolVersion`. -/
structure ProtocolVersion where
  major : UInt16
  minor : UInt16
  deriving DecidableEq

/-- `MessageType`. -/
inductive MessageType where
  | post
  | directMessage
  | socialEvent
  | dhtRequest
  | dhtResponse
  | profileUpdate
  | bloomFilterUpdate
  | moderationVote
  | contentReport
  | tombstone
  | prekeyBundle
  | peerExchange
  | chunkRequest
  | chunkResponse
  | capabilityHandshake
  | gossipControl
  | ping
  | pong
  deriving DecidableEq

/-- `ProtocolEnvelope`. -/
structure ProtocolEnvelope where
  version : ProtocolVersion
  senderNodeId : Vector UInt8 32
  payloadType : MessageType
  payloadBytes : List UInt8
  signature : Option (List UInt8)
  hopCount : UInt8
  ttl : UInt8
  timestamp : UInt64
  compressed : Bool
  contentHash : Option (List UInt8)
  deriving DecidableEq

namespace ProtocolEnvelope

open PrefixCode SealedWire

/-- A text in ASCII. -/
def ascii (s : String) : List UInt8 := s.toUTF8.toList

/-! ## Numbers -/

/-- A number in decimal. -/
def decimalNat (n : ℕ) : List UInt8 :=
  if n < 10 then [digit n] else decimalNat (n / 10) ++ [digit (n % 10)]

/-- A decimal digit in ASCII. -/
def IsDigit (c : UInt8) : Prop := 48 ≤ c.toNat ∧ c.toNat < 58

instance (c : UInt8) : Decidable (IsDigit c) := inferInstanceAs (Decidable (_ ∧ _))

/-- Read the digits of a number, up to the byte behind it. -/
def readNumber : ℕ → List UInt8 → Option (ℕ × List UInt8)
  | _, [] => none
  | n, c :: rest =>
    if IsDigit c then readNumber (n * 10 + (c.toNat - 48)) rest else some (n, c :: rest)

theorem toNat_digit {n : ℕ} (h : n < 10) : (digit n).toNat = 48 + n := by
  rw [digit, UInt8.toNat_ofNat_of_lt']
  show 48 + n < 256
  omega

theorem readNumber_digit {d : ℕ} (hd : d < 10) (n : ℕ) (rest : List UInt8) :
    readNumber n (digit d :: rest) = readNumber (n * 10 + d) rest := by
  have hval := toNat_digit hd
  have hdigit : IsDigit (digit d) := by
    rw [IsDigit, hval]
    omega
  rw [readNumber, if_pos hdigit, hval, Nat.add_sub_cancel_left]

/-- A number is read, digit by digit. -/
theorem readNumber_decimalNat (n : ℕ) (rest : List UInt8) :
    readNumber 0 (decimalNat n ++ rest) = readNumber n rest := by
  induction n using Nat.strongRecOn generalizing rest with
  | ind n ih =>
    rw [decimalNat]
    split_ifs with h
    · rw [List.singleton_append, readNumber_digit h, Nat.zero_mul, Nat.zero_add]
    · rw [List.append_assoc, List.singleton_append, ih (n / 10) (by omega),
        readNumber_digit (Nat.mod_lt n (by omega)), Nat.div_add_mod']

/-- What is behind the byte that ends the number does not matter. -/
theorem readNumber_append {n m : ℕ} {bytes rest : List UInt8}
    (h : readNumber n bytes = some (m, rest)) (more : List UInt8) :
    readNumber n (bytes ++ more) = some (m, rest ++ more) := by
  induction bytes generalizing n with
  | nil => cases h
  | cons c bytes ih =>
    rw [readNumber] at h
    rw [List.cons_append, readNumber]
    split_ifs at h ⊢
    · exact ih h
    · cases h
      rfl

/-- A number, and the byte behind it. -/
def number (close : UInt8) (hclose : ¬ IsDigit close) : PrefixCode UInt8 ℕ where
  write n := decimalNat n ++ [close]
  read bytes :=
    match readNumber 0 bytes with
    | some (n, c :: rest) => if c = close then some (n, rest) else none
    | _ => none
  read_write n more := by
    -- The byte behind the number is no digit, so reading stops there.
    have hread : readNumber 0 (decimalNat n ++ [close] ++ more) = some (n, close :: more) := by
      rw [List.append_assoc, readNumber_decimalNat, List.singleton_append, readNumber,
        if_neg hclose]
    rw [hread]
    exact if_pos rfl
  read_append bytes n rest h more := by
    cases hread : readNumber 0 bytes with
    | none =>
      rw [hread] at h
      cases h
    | some r =>
      obtain ⟨m, rest'⟩ := r
      rw [hread] at h
      cases rest' with
      | nil => cases h
      | cons c rest' =>
        rw [readNumber_append hread more, List.cons_append]
        dsimp only at h ⊢
        split_ifs at h ⊢
        cases h
        rfl

/-- A `u8`. -/
def u8 (close : UInt8) (hclose : ¬ IsDigit close) : PrefixCode UInt8 UInt8 :=
  (number close hclose).restrict (fun n => if n < 2 ^ 8 then some (UInt8.ofNat n) else none)
    UInt8.toNat (fun b => by rw [if_pos b.toNat_lt, UInt8.ofNat_toNat])

/-- A `u16`. -/
def u16 (close : UInt8) (hclose : ¬ IsDigit close) : PrefixCode UInt8 UInt16 :=
  (number close hclose).restrict (fun n => if n < 2 ^ 16 then some (UInt16.ofNat n) else none)
    UInt16.toNat (fun b => by rw [if_pos b.toNat_lt, UInt16.ofNat_toNat])

/-- A `u64`. -/
def u64 (close : UInt8) (hclose : ¬ IsDigit close) : PrefixCode UInt8 UInt64 :=
  (number close hclose).restrict (fun n => if n < 2 ^ 64 then some (UInt64.ofNat n) else none)
    UInt64.toNat (fun b => by rw [if_pos b.toNat_lt, UInt64.ofNat_toNat])

/-! ## Arrays of bytes -/

/-- What is behind the closing bracket does not matter. -/
theorem readArray_append {bytes : List UInt8} {n : Option ℕ} {read l rest : List UInt8}
    (h : readArray bytes n read = some (l, rest)) (more : List UInt8) :
    readArray (bytes ++ more) n read = some (l, rest ++ more) := by
  induction bytes generalizing n read with
  | nil => cases h
  | cons c bytes ih =>
    rw [readArray] at h
    rw [List.cons_append, readArray]
    split_ifs at h ⊢
    · cases h
      rfl
    · exact ih h
    · exact ih h

/-- The elements of an array, and its closing bracket. -/
def elements : PrefixCode UInt8 (List UInt8) where
  write l := commaSeparated l ++ [93]
  read bytes := readArray bytes none []
  read_write l more := by
    rw [List.append_assoc, List.singleton_append, readArray_commaSeparated, List.nil_append]
  read_append _ _ _ h more := readArray_append h more

/-- `[` and `]` around the elements. -/
def array : PrefixCode UInt8 (List UInt8) := after [91] elements

/-- `null`, or an array. -/
def optionalArray : PrefixCode UInt8 (Option (List UInt8)) :=
  optional [110, 117, 108, 108] array
    (fun _ _ h => read_after_eq_none (by decide) h)

/-- A `[u8; 32]`. -/
def array32 : PrefixCode UInt8 (Vector UInt8 32) :=
  array.restrict (fun l => if l.length = 32 then some (firstBytes 32 l) else none) Vector.toList
    (fun v => by
      have hfirst := firstBytes_append v []
      rw [List.append_nil] at hfirst
      rw [if_pos (Vector.length_toList ..), hfirst])

/-! ## The envelope -/

/-- The name of a variant. -/
def variantName : MessageType → String
  | .post => "Post"
  | .directMessage => "DirectMessage"
  | .socialEvent => "SocialEvent"
  | .dhtRequest => "DhtRequest"
  | .dhtResponse => "DhtResponse"
  | .profileUpdate => "ProfileUpdate"
  | .bloomFilterUpdate => "BloomFilterUpdate"
  | .moderationVote => "ModerationVote"
  | .contentReport => "ContentReport"
  | .tombstone => "Tombstone"
  | .prekeyBundle => "PrekeyBundle"
  | .peerExchange => "PeerExchange"
  | .chunkRequest => "ChunkRequest"
  | .chunkResponse => "ChunkResponse"
  | .capabilityHandshake => "CapabilityHandshake"
  | .gossipControl => "GossipControl"
  | .ping => "Ping"
  | .pong => "Pong"

/-- All variants of `MessageType`. -/
def allMessageTypes : List MessageType :=
  [.post, .directMessage, .socialEvent, .dhtRequest, .dhtResponse, .profileUpdate,
    .bloomFilterUpdate, .moderationVote, .contentReport, .tombstone, .prekeyBundle,
    .peerExchange, .chunkRequest, .chunkResponse, .capabilityHandshake, .gossipControl, .ping,
    .pong]

theorem mem_allMessageTypes (t : MessageType) : t ∈ allMessageTypes := by
  cases t <;> decide

/-- A variant: its name, and the closing quote. -/
def messageTypeText (t : MessageType) : List UInt8 := ascii (variantName t) ++ [34]

theorem messageTypeText_free (t t' : MessageType) (h : messageTypeText t <+: messageTypeText t') :
    t = t' := by
  have hall : ∀ t ∈ allMessageTypes, ∀ t' ∈ allMessageTypes,
      messageTypeText t <+: messageTypeText t' → t = t' := by decide +kernel
  exact hall t (mem_allMessageTypes t) t' (mem_allMessageTypes t') h

/-- The variants of `MessageType`. -/
def messageType : PrefixCode UInt8 MessageType :=
  choose messageTypeText allMessageTypes mem_allMessageTypes messageTypeText_free

/-- `true` or `false`. -/
def bool : PrefixCode UInt8 Bool :=
  choose (fun b => ascii (if b then "true" else "false")) [true, false] (by decide)
    (by decide +kernel)

/-- The fields in the order of the struct, each behind the text in front of it; a number comes
with the byte behind it. -/
def fields : PrefixCode UInt8 (UInt16 × UInt16 × Vector UInt8 32 × MessageType × List UInt8 ×
    Option (List UInt8) × UInt8 × UInt8 × UInt64 × Bool × Option (List UInt8) × Unit) :=
  (after (ascii "\x7b\"version\":\x7b\"major\":") (u16 44 (by decide))).pair <|
  (after (ascii "\"minor\":") (u16 125 (by decide))).pair <|
  (after (ascii ",\"sender_node_id\":") array32).pair <|
  (after (ascii ",\"payload_type\":\"") messageType).pair <|
  (after (ascii ",\"payload_bytes\":") array).pair <|
  (after (ascii ",\"signature\":") optionalArray).pair <|
  (after (ascii ",\"hop_count\":") (u8 44 (by decide))).pair <|
  (after (ascii "\"ttl\":") (u8 44 (by decide))).pair <|
  (after (ascii "\"timestamp\":") (u64 44 (by decide))).pair <|
  (after (ascii "\"compressed\":") bool).pair <|
  (after (ascii ",\"content_hash\":") optionalArray).pair <|
  text (ascii "\x7d")

/-- The JSON text of an envelope. -/
def json : PrefixCode UInt8 ProtocolEnvelope :=
  fields.restrict
    (fun (major, minor, sender, type, payload, signature, hops, ttl, time, compressed, hash, _) =>
      some ⟨⟨major, minor⟩, sender, type, payload, signature, hops, ttl, time, compressed, hash⟩)
    (fun e => (e.version.major, e.version.minor, e.senderNodeId, e.payloadType, e.payloadBytes,
      e.signature, e.hopCount, e.ttl, e.timestamp, e.compressed, e.contentHash, ()))
    (fun _ => rfl)

/-- The payload adds the digits and commas of its elements to the text. -/
theorem length_write (e : ProtocolEnvelope) (l : List UInt8) :
    (json.write { e with payloadBytes := l }).length
      = (json.write { e with payloadBytes := [] }).length + (commaSeparated l).length := by
  have harray : ∀ l, (array.write l).length = (commaSeparated l).length + 2 := by
    intro l
    rw [array, write_after, elements, List.length_append, List.length_append]
    simp only [List.length_singleton]
    omega
  simp only [json, write_restrict, fields, write_pair, write_after, List.length_append, harray]
  rw [commaSeparated, List.length_nil]
  omega

end ProtocolEnvelope
