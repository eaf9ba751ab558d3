/-
# Length-prefixed frames (`ephemera-protocol/src/codec.rs`)

`encode` writes the length of an envelope's text as a big-endian `u32` and then the text;
`decode` takes one frame off a buffer, or waits.  The length is narrowed to 32 bits before it
is compared with `MAX_FRAME_SIZE`, so a text of `2^32` bytes and a few more passes: its prefix
names the few, and the rest of it is read as frames.

`framing_exact_iff` is the exact condition: an envelope is framed as it should be unless its
text is longer than the limit and the low half of its length is not.  `serde_json` comes from
another crate and is collected in a `SerdeJson`.
-/
import Ephemera.ChunkedDecoder
import Ephemera.ProtocolEnvelope

namespace FrameCodec

open ChunkedDecoder

/-! ## The codec -/

/-- `MAX_FRAME_SIZE`: 1 MiB. -/
def maxFrameSize : UInt32 := 1048576

/-- `CodecError`, as far as `encode` and `decode` return it. -/
inductive CodecError where
  | frameTooLarge (size max : UInt32)
  | serialization (reason : String)
  deriving DecidableEq

/-- `serde_json::to_vec` and `serde_json::from_slice` on `ProtocolEnvelope`. -/
structure SerdeJson where
  toVec : ProtocolEnvelope → Except String (List UInt8)
  fromSlice : List UInt8 → Except String ProtocolEnvelope

/-- `put_u32`: four bytes, the most significant one first. -/
def putU32 (n : UInt32) : List UInt8 :=
  [UInt8.ofNat (n.toNat / 2 ^ 24), UInt8.ofNat (n.toNat / 2 ^ 16 % 2 ^ 8),
    UInt8.ofNat (n.toNat / 2 ^ 8 % 2 ^ 8), UInt8.ofNat (n.toNat % 2 ^ 8)]

/-- `u32::from_be_bytes`. -/
def fromBeBytes (b₀ b₁ b₂ b₃ : UInt8) : UInt32 :=
  UInt32.ofNat (b₀.toNat * 2 ^ 24 + b₁.toNat * 2 ^ 16 + b₂.toNat * 2 ^ 8 + b₃.toNat)

/-- `encode`: the buffer with the frame behind it. -/
def encode (J : SerdeJson) (envelope : ProtocolEnvelope) (dst : List UInt8) :
    Except CodecError (List UInt8) := do
  let payload ← (J.toVec envelope).mapError .serialization
  -- `payload.len() as u32` keeps the low 32 bits.
  let len := UInt32.ofNat payload.length
  if maxFrameSize < len then throw (.frameTooLarge len maxFrameSize)
  return dst ++ putU32 len ++ payload

/-- `decode`: the answer, and the buffer after it. -/
def decode (J : SerdeJson) (src : List UInt8) :
    Except CodecError (Option ProtocolEnvelope) × List UInt8 :=
  match src with
  | b₀ :: b₁ :: b₂ :: b₃ :: body =>
    let len := fromBeBytes b₀ b₁ b₂ b₃
    if maxFrameSize < len then (.error (.frameTooLarge len maxFrameSize), src)
    else if src.length < 4 + len.toNat then (.ok none, src)
    else
      match J.fromSlice (body.take len.toNat) with
      | .ok envelope => (.ok (some envelope), body.drop len.toNat)
      | .error reason => (.error (.serialization reason), body.drop len.toNat)
  | _ => (.ok none, src)

/-- Several envelopes are encoded into one buffer. -/
def encodeAll (J : SerdeJson) (envelopes : List ProtocolEnvelope) (dst : List UInt8) :
    Except CodecError (List UInt8) :=
  envelopes.foldlM (fun dst envelope => encode J envelope dst) dst

/-- `Result::transpose`: what the reader gets from an answer of `decode`. -/
def transpose : Except CodecError (Option ProtocolEnvelope) →
    Option (Except CodecError ProtocolEnvelope)
  | .ok none => none
  | .ok (some envelope) => some (.ok envelope)
  | .error e => some (.error e)

/-- What `decode` answers to a complete frame. -/
def answer (J : SerdeJson) (text : List UInt8) : Except CodecError ProtocolEnvelope :=
  (J.fromSlice text).mapError .serialization

/-- What is relied on: an envelope is read back from its text, and not from a part of it. -/
structure SerdeJson.Lawful (J : SerdeJson) : Prop where
  roundTrip : ∀ e, ∃ text, J.toVec e = .ok text ∧ J.fromSlice text = .ok e
  truncated : ∀ e text, J.toVec e = .ok text → ∀ n < text.length,
    ∃ reason, J.fromSlice (text.take n) = .error reason

/-- The text of an envelope. -/
def SerdeJson.text (J : SerdeJson) (e : ProtocolEnvelope) : List UInt8 :=
  match J.toVec e with
  | .ok text => text
  | .error _ => []

variable {J : SerdeJson}

theorem SerdeJson.Lawful.toVec_eq (hJ : J.Lawful) (e : ProtocolEnvelope) :
    J.toVec e = .ok (J.text e) := by
  obtain ⟨text, htext, -⟩ := hJ.roundTrip e
  rw [SerdeJson.text, htext]

theorem SerdeJson.Lawful.fromSlice_text (hJ : J.Lawful) (e : ProtocolEnvelope) :
    J.fromSlice (J.text e) = .ok e := by
  obtain ⟨text, htext, hread⟩ := hJ.roundTrip e
  rw [SerdeJson.text, htext]
  exact hread

/-! ## The prefix -/

theorem length_putU32 (n : UInt32) : (putU32 n).length = 4 := rfl

/-- The four bytes are read back. -/
theorem fromBeBytes_putU32 (n : UInt32) :
    fromBeBytes (UInt8.ofNat (n.toNat / 2 ^ 24)) (UInt8.ofNat (n.toNat / 2 ^ 16 % 2 ^ 8))
      (UInt8.ofNat (n.toNat / 2 ^ 8 % 2 ^ 8)) (UInt8.ofNat (n.toNat % 2 ^ 8)) = n := by
  have hlt := n.toNat_lt
  have hbyte : ∀ m < 2 ^ 8, (UInt8.ofNat m).toNat = m := fun m hm => UInt8.toNat_ofNat_of_lt' hm
  rw [fromBeBytes, hbyte _ (by omega), hbyte _ (by omega), hbyte _ (by omega), hbyte _ (by omega)]
  apply UInt32.toNat_inj.mp
  rw [UInt32.toNat_ofNat_of_lt' (by change _ < 2 ^ 32; omega)]
  omega

/-- `decode` on a buffer that starts with a length. -/
theorem decode_putU32 (n : UInt32) (body : List UInt8) :
    decode J (putU32 n ++ body) =
      if maxFrameSize < n then (.error (.frameTooLarge n maxFrameSize), putU32 n ++ body)
      else if body.length < n.toNat then (.ok none, putU32 n ++ body)
      else
        match J.fromSlice (body.take n.toNat) with
        | .ok envelope => (.ok (some envelope), body.drop n.toNat)
        | .error reason => (.error (.serialization reason), body.drop n.toNat) := by
  have hlen : (putU32 n ++ body).length < 4 + n.toNat ↔ body.length < n.toNat := by
    rw [List.length_append, length_putU32]
    omega
  simp only [← hlen]
  rw [putU32]
  simp only [List.cons_append, List.nil_append, decode, fromBeBytes_putU32]

/-- A buffer without a whole prefix. -/
theorem decode_of_short {src : List UInt8} (h : src.length < 4) :
    decode J src = (.ok none, src) := by
  unfold decode
  split
  · simp only [List.length_cons] at h
    omega
  · rfl

/-- **`Ok(None)` leaves the buffer.** -/
theorem decode_none {src rest : List UInt8} (h : decode J src = (.ok none, rest)) : rest = src := by
  unfold decode at h
  split at h
  · dsimp only at h
    split_ifs at h
    · cases h
    · exact (Prod.mk.inj h).2.symm
    · split at h
      · cases h
      · cases h
  · exact (Prod.mk.inj h).2.symm

/-! ## Frames -/

/-- A text with its length in front. -/
def frame (text : List UInt8) : List UInt8 := putU32 (UInt32.ofNat text.length) ++ text

/-- **A frame within the limit.**  It is taken off whatever follows, its text readable or not, and
until it is complete the decoder waits. -/
theorem recognises_frame {text : List UInt8} (h : text.length ≤ maxFrameSize.toNat) :
    Recognises (decode J) (.ok none) (frame text) ((answer J text).map some) := by
  have hmax : maxFrameSize.toNat = 1048576 := rfl
  have hlen : (UInt32.ofNat text.length).toNat = text.length :=
    UInt32.toNat_ofNat_of_lt' (by change _ < 2 ^ 32; omega)
  have hfits : ¬ maxFrameSize < UInt32.ofNat text.length := by
    rw [UInt32.lt_iff_toNat_lt, hlen]
    omega
  refine ⟨by simp [frame, putU32], fun more => ?_, fun p hp hne => ?_⟩
  · -- The whole text is there: it is taken, and what follows stays.
    have hlong : ¬ (text ++ more).length < text.length := by
      rw [List.length_append]
      omega
    rw [frame, List.append_assoc, decode_putU32, if_neg hfits, hlen, if_neg hlong, List.take_left,
      List.drop_left, answer]
    cases J.fromSlice text <;> rfl
  · rcases prefix_append_cases hp with ⟨hhead, hshort⟩ | ⟨body, rfl, hbody⟩
    · -- The prefix itself is not complete.
      refine decode_of_short (Nat.lt_of_le_of_ne hhead.length_le (fun heq => hshort ?_))
      exact hhead.eq_of_length heq
    · have hshort : body.length < text.length := by
        refine Nat.lt_of_le_of_ne hbody.length_le (fun heq => hne ?_)
        rw [hbody.eq_of_length heq, frame]
      rw [decode_putU32, if_neg hfits, hlen, if_pos hshort]

/-- The frames of some texts, with what they are answered. -/
def frames (J : SerdeJson) (texts : List (List UInt8)) :
    List (List UInt8 × Except CodecError (Option ProtocolEnvelope)) :=
  texts.map (fun text => (frame text, (answer J text).map some))

theorem transpose_map_some (a : Except CodecError ProtocolEnvelope) :
    transpose (a.map some) = some a := by
  cases a <;> rfl

/-- **Texts within the limit.**  However the stream is cut, each frame gives its answer, in order;
a text that cannot be read costs its own frame and no other. -/
theorem run_frames {texts : List (List UInt8)} (h : ∀ t ∈ texts, t.length ≤ maxFrameSize.toNat)
    {chunks : List (List UInt8)} (hchunks : chunks.flatten = (texts.map frame).flatten) :
    (run (decode J) chunks).1.filterMap transpose = texts.map (answer J) ∧
      (run (decode J) chunks).2 = [] := by
  have hstream : chunks.flatten = stream (frames J texts) := by
    rw [hchunks, stream, frames, List.map_map]
    rfl
  have hframes : ∀ f ∈ frames J texts, Recognises (decode J) (.ok none) f.1 f.2 := by
    intro f hf
    obtain ⟨t, ht, rfl⟩ := List.mem_map.mp hf
    exact recognises_frame (h t ht)
  have hidle : transpose (.ok none) = none := rfl
  obtain ⟨hreport, hend⟩ := run_of_frames (decode_of_short (by decide)) hidle hframes hstream
  refine ⟨hreport.trans ?_, hend⟩
  rw [reported, frames, List.filterMap_map]
  simp only [Function.comp_def, transpose_map_some, List.filterMap_eq_map']

/-! ## Envelopes -/

/-- The frame of an envelope holds its text, and its text alone. -/
def Fits (J : SerdeJson) (e : ProtocolEnvelope) : Prop :=
  (J.text e).length ≤ maxFrameSize.toNat ∨ maxFrameSize.toNat < (J.text e).length % 2 ^ 32

theorem lt_ofNat_length_iff (text : List UInt8) :
    maxFrameSize < UInt32.ofNat text.length ↔ maxFrameSize.toNat < text.length % 2 ^ 32 := by
  rw [UInt32.lt_iff_toNat_lt, UInt32.toNat_ofNat']

/-- `encode` looks at the low 32 bits of the length. -/
theorem encode_eq (hJ : J.Lawful) (e : ProtocolEnvelope) (dst : List UInt8) :
    encode J e dst =
      if maxFrameSize.toNat < (J.text e).length % 2 ^ 32 then
        .error (.frameTooLarge (UInt32.ofNat (J.text e).length) maxFrameSize)
      else .ok (dst ++ frame (J.text e)) := by
  simp only [← lt_ofNat_length_iff]
  rw [encode, hJ.toVec_eq e, frame, ← List.append_assoc]
  simp only [Except.mapError, bind, Except.bind]
  split_ifs <;> rfl

theorem encode_eq_error_iff (hJ : J.Lawful) {e : ProtocolEnvelope} {dst : List UInt8} :
    (∃ err, encode J e dst = .error err) ↔ maxFrameSize.toNat < (J.text e).length % 2 ^ 32 := by
  rw [encode_eq hJ]
  split_ifs with h
  · exact ⟨fun _ => h, fun _ => ⟨_, rfl⟩⟩
  · refine ⟨?_, fun hc => absurd hc h⟩
    rintro ⟨_, hc⟩
    cases hc

/-- `encode` fails exactly above the limit. -/
def Limited (J : SerdeJson) (e : ProtocolEnvelope) : Prop :=
  ∀ dst, (∃ err, encode J e dst = .error err) ↔ maxFrameSize.toNat < (J.text e).length

theorem limited_iff_fits (hJ : J.Lawful) (e : ProtocolEnvelope) : Limited J e ↔ Fits J e := by
  unfold Limited Fits
  simp only [encode_eq_error_iff hJ]
  have hmod := Nat.mod_le (J.text e).length (2 ^ 32)
  constructor
  · intro h
    by_cases hlarge : (J.text e).length ≤ maxFrameSize.toNat
    · exact Or.inl hlarge
    · exact Or.inr ((h []).mpr (Nat.lt_of_not_le hlarge))
  · rintro (h | h) dst
    · omega
    · omega

/-- The buffer after all envelopes are encoded. -/
theorem encodeAll_eq_ok_iff (hJ : J.Lawful) {envelopes : List ProtocolEnvelope}
    {dst bytes : List UInt8} :
    encodeAll J envelopes dst = .ok bytes ↔
      (∀ e ∈ envelopes, (J.text e).length % 2 ^ 32 ≤ maxFrameSize.toNat) ∧
        bytes = dst ++ ((envelopes.map J.text).map frame).flatten := by
  induction envelopes generalizing dst with
  | nil =>
    rw [encodeAll, List.foldlM_nil]
    simp [pure, Except.pure, eq_comm]
  | cons e envelopes ih =>
    rw [List.forall_mem_cons, encodeAll, List.foldlM_cons, encode_eq hJ]
    split_ifs with hlarge
    · constructor
      · intro h
        cases h
      · rintro ⟨⟨hle, -⟩, -⟩
        omega
    · have hle := Nat.le_of_not_lt hlarge
      show encodeAll J envelopes (dst ++ frame (J.text e)) = .ok bytes ↔ _
      rw [ih, and_iff_right hle, List.append_assoc]
      rfl

/-- However the encoded bytes are cut, the envelopes come back in order, and nothing else does. -/
def DecodesExactly (J : SerdeJson) (envelopes : List ProtocolEnvelope) (bytes : List UInt8) :
    Prop :=
  ∀ chunks : List (List UInt8), chunks.flatten = bytes →
    (run (decode J) chunks).1.filterMap transpose = envelopes.map .ok ∧
      (run (decode J) chunks).2 = []

/-- A text above the limit that `encode` lets pass is cut short by its prefix. -/
theorem decode_of_overlong (hJ : J.Lawful) {e : ProtocolEnvelope}
    (hlarge : maxFrameSize.toNat < (J.text e).length)
    (hpass : (J.text e).length % 2 ^ 32 ≤ maxFrameSize.toNat) (more : List UInt8) :
    ∃ reason rest, decode J (frame (J.text e) ++ more) = (.error (.serialization reason), rest) ∧
      rest.length < (frame (J.text e) ++ more).length := by
  have hlen : (UInt32.ofNat (J.text e).length).toNat = (J.text e).length % 2 ^ 32 :=
    UInt32.toNat_ofNat'
  have hfits : ¬ maxFrameSize < UInt32.ofNat (J.text e).length := by
    rw [lt_ofNat_length_iff]
    omega
  have hlong : ¬ (J.text e ++ more).length < (J.text e).length % 2 ^ 32 := by
    rw [List.length_append]
    omega
  -- The prefix names fewer bytes than the text has, and `serde_json` rejects a part of it.
  have hpart : (J.text e).length % 2 ^ 32 < (J.text e).length := by omega
  obtain ⟨reason, hreason⟩ := hJ.truncated e _ (hJ.toVec_eq e) _ hpart
  refine ⟨reason, (J.text e ++ more).drop ((J.text e).length % 2 ^ 32), ?_, ?_⟩
  · rw [frame, List.append_assoc, decode_putU32, if_neg hfits, hlen, if_neg hlong,
      List.take_append_of_le_length (Nat.le_of_lt hpart), hreason]
  · have hframe : (frame (J.text e) ++ more).length = 4 + (J.text e ++ more).length := by
      rw [frame, List.append_assoc, List.length_append, length_putU32]
    rw [List.length_drop, hframe]
    omega

/-- Bytes that decode to the envelopes are those of texts within the limit. -/
theorem length_le_of_drain (hJ : J.Lawful) {envelopes : List ProtocolEnvelope}
    (hpass : ∀ e ∈ envelopes, (J.text e).length % 2 ^ 32 ≤ maxFrameSize.toNat)
    (h : (drain (decode J) ((envelopes.map J.text).map frame).flatten).1.filterMap transpose
      = envelopes.map .ok) :
    ∀ e ∈ envelopes, (J.text e).length ≤ maxFrameSize.toNat := by
  induction envelopes with
  | nil => exact fun e he => absurd he List.not_mem_nil
  | cons e envelopes ih =>
    rw [List.map_cons, List.map_cons, List.flatten_cons, List.map_cons] at h
    by_cases hsmall : (J.text e).length ≤ maxFrameSize.toNat
    · -- The first frame gives the first envelope, and the others the rest.
      rw [(recognises_frame hsmall).drain_append, List.filterMap_cons, transpose_map_some, answer,
        hJ.fromSlice_text] at h
      have htail := (List.cons.inj h).2
      intro e' he'
      rcases List.mem_cons.mp he' with rfl | he'
      · exact hsmall
      · exact ih (fun e he => hpass e (List.mem_cons_of_mem _ he)) htail e' he'
    · -- The first answer is an error.
      obtain ⟨reason, rest, hdecode, hlt⟩ := decode_of_overlong hJ (Nat.lt_of_not_le hsmall)
        (hpass e List.mem_cons_self) ((envelopes.map J.text).map frame).flatten
      rw [drain_of_taken hdecode hlt, List.filterMap_cons] at h
      cases (List.cons.inj h).1

/-- Encoded envelopes decode exactly if and only if their texts are within the limit. -/
theorem decodesExactly_iff (hJ : J.Lawful) {envelopes : List ProtocolEnvelope} {bytes : List UInt8}
    (h : encodeAll J envelopes [] = .ok bytes) :
    DecodesExactly J envelopes bytes ↔ ∀ e ∈ envelopes, Fits J e := by
  obtain ⟨hpass, rfl⟩ := (encodeAll_eq_ok_iff hJ).mp h
  rw [List.nil_append]
  have hfits : (∀ e ∈ envelopes, Fits J e) ↔
      ∀ e ∈ envelopes, (J.text e).length ≤ maxFrameSize.toNat := by
    refine forall₂_congr (fun e he => or_iff_left ?_)
    have hle := hpass e he
    omega
  rw [hfits]
  constructor
  · intro hexact
    have hone := (hexact [((envelopes.map J.text).map frame).flatten] (by simp)).1
    rw [run_singleton] at hone
    exact length_le_of_drain hJ hpass hone
  · intro hle chunks hchunks
    have hshort : ∀ t ∈ envelopes.map J.text, t.length ≤ maxFrameSize.toNat := by
      intro t ht
      obtain ⟨e, he, rfl⟩ := List.mem_map.mp ht
      exact hle e he
    obtain ⟨hreport, hend⟩ := run_frames hshort hchunks
    refine ⟨hreport.trans ?_, hend⟩
    rw [List.map_map]
    refine List.map_congr_left (fun e _ => ?_)
    show answer J (J.text e) = .ok e
    rw [answer, hJ.fromSlice_text]
    rfl

/-! ## The text that `serde_json` writes -/

/-- `serde_json` on `ProtocolEnvelope`. -/
def serdeJson : SerdeJson where
  toVec e := .ok (ProtocolEnvelope.json.write e)
  fromSlice bytes :=
    match ProtocolEnvelope.json.parse bytes with
    | some e => .ok e
    | none => .error "EOF while parsing a value"

theorem lawful_serdeJson : serdeJson.Lawful where
  roundTrip e := by
    refine ⟨ProtocolEnvelope.json.write e, rfl, ?_⟩
    show (match ProtocolEnvelope.json.parse (ProtocolEnvelope.json.write e) with
      | some e => Except.ok e
      | none => .error "EOF while parsing a value") = _
    rw [PrefixCode.parse_write]
  truncated e text htext n hn := by
    obtain rfl := Except.ok.inj htext
    have hne : (ProtocolEnvelope.json.write e).take n ≠ ProtocolEnvelope.json.write e := by
      intro heq
      have hlen := congrArg List.length heq
      rw [List.length_take] at hlen
      omega
    refine ⟨"EOF while parsing a value", ?_⟩
    show (match ProtocolEnvelope.json.parse ((ProtocolEnvelope.json.write e).take n) with
      | some e => Except.ok e
      | none => .error "EOF while parsing a value") = _
    rw [PrefixCode.parse_of_isPrefix _ (List.take_prefix n _) hne]

/-- A ping from `170…170` with `n` bytes `100` as its payload. -/
def pingOf (n : ℕ) : ProtocolEnvelope where
  version := ⟨1, 0⟩
  senderNodeId := Vector.replicate 32 170
  payloadType := .ping
  payloadBytes := List.replicate n 100
  signature := none
  hopCount := 0
  ttl := 7
  timestamp := 1700000000
  compressed := false
  contentHash := none

theorem length_text_pingOf (n : ℕ) :
    (serdeJson.text (pingOf n)).length = 322 + (n * 3 + (n - 1)) := by
  have hempty : (ProtocolEnvelope.json.write (pingOf 0)).length = 322 := by decide +kernel
  have hdecimal : (SealedWire.decimal 100).length = 3 := by decide
  have hlen := ProtocolEnvelope.length_write (pingOf 0) (List.replicate n 100)
  rw [SealedWire.length_commaSeparated_replicate, hdecimal] at hlen
  exact hlen.trans (congrArg (· + _) hempty)

/-! ## Framing -/

/-- An envelope whose text is too long, by a multiple of 2^32 and a little. -/
theorem misframed_of_length (hJ : J.Lawful) {e : ProtocolEnvelope}
    (hlarge : maxFrameSize.toNat < (J.text e).length)
    (hpass : (J.text e).length % 2 ^ 32 ≤ maxFrameSize.toNat) :
    encode J e [] = .ok (frame (J.text e)) ∧ ¬ DecodesExactly J [e] (frame (J.text e)) := by
  have hencode : encodeAll J [e] [] = .ok (frame (J.text e)) := by
    refine (encodeAll_eq_ok_iff hJ).mpr ⟨fun e' he' => ?_, by simp⟩
    rw [List.mem_singleton.mp he']
    exact hpass
  refine ⟨?_, ?_⟩
  · rw [encode_eq hJ, if_neg (Nat.not_lt_of_le hpass), List.nil_append]
  · rw [decodesExactly_iff hJ hencode]
    intro hfits
    rcases hfits e List.mem_cons_self with h | h
    · exact absurd h (Nat.not_le_of_lt hlarge)
    · exact absurd h (Nat.not_lt_of_le hpass)

/-- **When framing is exact.**  `encode` fails exactly above the limit, and the envelopes it
accepts come back in order under any chunking, if and only if no text is longer than the limit
while the low 32 bits of its length are not.  `Ok(None)` always leaves the buffer, and a text
within the limit that is no envelope costs its own frame and no other. -/
theorem framing_exact_iff (J : SerdeJson) (hJ : J.Lawful) :
    (∀ e, Limited J e ↔ Fits J e) ∧
    (∀ envelopes bytes, encodeAll J envelopes [] = .ok bytes →
      (DecodesExactly J envelopes bytes ↔ ∀ e ∈ envelopes, Fits J e)) ∧
    (∀ src rest, decode J src = (.ok none, rest) → rest = src) ∧
    (∀ text reason more, text.length ≤ maxFrameSize.toNat → J.fromSlice text = .error reason →
      decode J (frame text ++ more) = (.error (.serialization reason), more)) ∧
    ∀ texts : List (List UInt8), (∀ t ∈ texts, t.length ≤ maxFrameSize.toNat) →
      ∀ chunks : List (List UInt8), chunks.flatten = (texts.map frame).flatten →
        (run (decode J) chunks).1.filterMap transpose = texts.map (answer J) ∧
          (run (decode J) chunks).2 = [] := by
  refine ⟨limited_iff_fits hJ, fun envelopes bytes h => decodesExactly_iff hJ h,
    fun src rest h => decode_none h, fun text reason more htext hread => ?_,
    fun texts htexts chunks hchunks => run_frames htexts hchunks⟩
  rw [(recognises_frame htext).whole more, answer, hread]
  rfl

/-- The bytes of two pings. -/
def twoPings : List UInt8 := frame (serdeJson.text (pingOf 0)) ++ frame (serdeJson.text (pingOf 1))

/-- Two pings, cut inside the first prefix. -/
theorem framing_exact_iff_pings :
    (run (decode serdeJson) [twoPings.take 2, twoPings.drop 2]).1.filterMap transpose
      = [.ok (pingOf 0), .ok (pingOf 1)] := by
  have hmax : maxFrameSize.toNat = 1048576 := rfl
  have hlen : ∀ e ∈ [pingOf 0, pingOf 1], (serdeJson.text e).length < 400 := by
    intro e he
    rcases List.mem_cons.mp he with rfl | he
    · rw [length_text_pingOf]
      omega
    · rw [List.mem_singleton.mp he, length_text_pingOf]
      omega
  have hencode : encodeAll serdeJson [pingOf 0, pingOf 1] [] = .ok twoPings := by
    refine (encodeAll_eq_ok_iff lawful_serdeJson).mpr ⟨fun e he => ?_, by simp [twoPings]⟩
    have hle := hlen e he
    omega
  have hfits : ∀ e ∈ [pingOf 0, pingOf 1], Fits serdeJson e := by
    intro e he
    have hle := hlen e he
    exact Or.inl (by omega)
  have hexact := ((framing_exact_iff serdeJson lawful_serdeJson).2.1 _ _ hencode).mpr hfits
  exact (hexact _ (by simp)).1

/-- A ping with 2^30 bytes `100`: its text has 2^32 + 321 bytes, `encode` lets it pass, and it does
not come back. -/
theorem pingOf_misframed :
    serdeJson.Lawful ∧ maxFrameSize.toNat < (serdeJson.text (pingOf (2 ^ 30))).length ∧
      encode serdeJson (pingOf (2 ^ 30)) [] = .ok (frame (serdeJson.text (pingOf (2 ^ 30)))) ∧
      ¬ DecodesExactly serdeJson [pingOf (2 ^ 30)] (frame (serdeJson.text (pingOf (2 ^ 30)))) := by
  have hmax : maxFrameSize.toNat = 1048576 := rfl
  have hlen := length_text_pingOf (2 ^ 30)
  have hlarge : maxFrameSize.toNat < (serdeJson.text (pingOf (2 ^ 30))).length := by omega
  exact ⟨lawful_serdeJson, hlarge, misframed_of_length lawful_serdeJson hlarge (by omega)⟩

end FrameCodec
