/-
# Exporting a master secret (`ephemera-crypto/src/export.rs`)

`to_mnemonic` writes the 256 bits of a secret and 8 bits of checksum as 24 words of 11 bits
each; `to_qr_bytes` writes a version, the secret and a checksum.  Both can be read back, and
nothing else can be read: what an import accepts is what the export of its result would be, up
to the case of the words.

For the words this rests on the table: no word is in it twice, and each is its own lower case.
-/
import Ephemera.Chunks
import Ephemera.Digits
import Ephemera.Keystore
import Ephemera.MnemonicWords

namespace KeyExport

open Keystore Chunks

/-! ## The exports -/

/-- The bits of a secret and of its checksum. -/
def secretBits (K : KeySuite) (master : Seed) : List Bool :=
  master.toList.flatMap (fun b => bitsOf 8 b.toNat) ++ bitsOf 8 (checksumByte K master).toNat

/-- `KeyExport::to_mnemonic`; the error is the panic of an index out of range. -/
def toMnemonic (K : KeySuite) (master : Seed) : Except String (List String) :=
  ((secretBits K master).toChunks 11).mapM fun chunk =>
    match K.wordlist[ofBits chunk]? with
    | some word => .ok word
    | none => .error "index out of bounds"

/-- `QR_VERSION`. -/
def qrVersion : UInt8 := 0x01

/-- `QR_CHECKSUM_LEN`. -/
def qrChecksumLen : ℕ := 4

/-- `KeyExport::to_qr_bytes`. -/
def toQrBytes (blake3 : List UInt8 → Seed) (master : Seed) : List UInt8 :=
  let data := qrVersion :: master.toList
  data ++ (blake3 data).toList.take qrChecksumLen

/-- `KeyExport::from_qr_bytes`. -/
def fromQrBytes (blake3 : List UInt8 → Seed) (data : List UInt8) : Except String Seed :=
  if h : data.length = 1 + 32 + qrChecksumLen then
    if data.head? ≠ some qrVersion then
      .error ("invalid key: unsupported QR version: 0x" ++ Hex.encode (data.take 1))
    else if (data.drop 33).take qrChecksumLen
        ≠ (blake3 (data.take 33)).toList.take qrChecksumLen then
      .error "invalid key: QR checksum mismatch (data corrupted or tampered)"
    else .ok ⟨((data.drop 1).take 32).toArray, by simp [h, qrChecksumLen]⟩
  else
    .error ("invalid key: QR data wrong length: expected 37, got " ++ toString data.length)

/-- What the mnemonics rely on: the words are those of the file, and lower-case ASCII letters
are their own lower case. -/
structure Exports (K : KeySuite) : Prop where
  wordlist_eq : K.wordlist = wordlist
  toLowercase_of_lower : ∀ s, IsLowerAscii s → K.toLowercase s = s

/-! ## Bits -/

@[simp] theorem length_bitsOf (n v : ℕ) : (bitsOf n v).length = n := by
  simp [bitsOf]

/-- The bits of a number are its digits in base two. -/
theorem map_toNat_bitsOf (n v : ℕ) : (bitsOf n v).map Bool.toNat = Digits.expand 2 n v := by
  have hrev : (List.range n).reverse = (List.range n).map (fun i => n - 1 - i) := by
    rw [List.range_eq_range', List.reverse_range', Nat.zero_add, List.range_eq_range']
  rw [← Digits.map_toNat_testBit, bitsOf, hrev, List.map_map (f := fun i => n - 1 - i)]
  rfl

theorem ofBits_eq (bits : List Bool) : ofBits bits = Digits.value 2 (bits.map Bool.toNat) := by
  rw [ofBits, Digits.value_eq_foldl, List.foldl_map]
  simp only [Nat.add_comm]

theorem ofBits_lt (bits : List Bool) : ofBits bits < 2 ^ bits.length := by
  have hlt := Digits.value_lt Nat.one_lt_two (Digits.lt_two_of_mem bits)
  rwa [← ofBits_eq, List.length_map] at hlt

/-- Reading the bits of a number. -/
theorem ofBits_bitsOf (n v : ℕ) : ofBits (bitsOf n v) = v % 2 ^ n := by
  rw [ofBits_eq, map_toNat_bitsOf, Digits.value_expand]

theorem ofBits_bitsOf_of_lt {n v : ℕ} (h : v < 2 ^ n) : ofBits (bitsOf n v) = v := by
  rw [ofBits_bitsOf, Nat.mod_eq_of_lt h]

/-- Bits are determined by their number. -/
theorem ofBits_injective {bits bits' : List Bool} (hlen : bits.length = bits'.length)
    (h : ofBits bits = ofBits bits') : bits = bits' := by
  rw [ofBits_eq, ofBits_eq] at h
  have hdigits : bits.map Bool.toNat = bits'.map Bool.toNat :=
    Digits.eq_of_value_eq Nat.one_lt_two (by rwa [List.length_map, List.length_map])
      (Digits.lt_two_of_mem bits) (Digits.lt_two_of_mem bits') h
  have htoNat : ∀ b b' : Bool, b.toNat = b'.toNat → b = b' := by decide
  exact List.map_injective_iff.mpr htoNat hdigits

/-- Writing the bits of a number that was read. -/
theorem bitsOf_ofBits {n : ℕ} {bits : List Bool} (h : bits.length = n) :
    bitsOf n (ofBits bits) = bits := by
  refine ofBits_injective (by rw [length_bitsOf, h]) ?_
  rw [ofBits_bitsOf_of_lt]
  rw [← h]
  exact ofBits_lt bits

/-- The bits of a byte that was read. -/
theorem bitsOf_toUInt8 {bits : List Bool} (h : bits.length = 8) :
    bitsOf 8 (ofBits bits).toUInt8.toNat = bits := by
  have hlt : ofBits bits < 256 := (ofBits_lt bits).trans_eq (by rw [h]; rfl)
  rw [Nat.toUInt8, UInt8.toNat_ofNat', Nat.mod_eq_of_lt hlt, bitsOf_ofBits h]

theorem toUInt8_ofBits_bitsOf (b : UInt8) : (ofBits (bitsOf 8 b.toNat)).toUInt8 = b := by
  rw [ofBits_bitsOf_of_lt b.toNat_lt, Nat.toUInt8, UInt8.ofNat_toNat]

/-! ## Bytes and their bits -/

/-- The bytes read from some bits are `bytes` exactly if these are their bits. -/
theorem map_chunk_eq_iff {bits : List Bool} {bytes : List UInt8}
    (hlen : bits.length = 8 * bytes.length) :
    (List.range bytes.length).map (fun i => (ofBits (chunk 8 bits i)).toUInt8) = bytes ↔
      bits = bytes.flatMap (fun b => bitsOf 8 b.toNat) := by
  constructor
  · intro h
    have hgroups : (List.range bytes.length).map (chunk 8 bits)
        = bytes.map (fun b => bitsOf 8 b.toNat) := by
      conv_rhs => rw [← h, List.map_map]
      refine List.map_congr_left (fun i hi => ?_)
      have hle : 8 * (i + 1) ≤ bits.length :=
        hlen ▸ Nat.mul_le_mul_left 8 (List.mem_range.mp hi)
      exact (bitsOf_toUInt8 (length_chunk hle)).symm
    rw [List.flatMap_def, ← hgroups, flatten_map_chunk, ← hlen, List.take_length]
  · rintro rfl
    refine List.ext_getElem (by simp) (fun i hi hi' => ?_)
    have hgroups : ∀ g ∈ bytes.map (fun b => bitsOf 8 b.toNat), g.length = 8 := by
      simp
    rw [List.getElem_map, List.getElem_range, List.flatMap_def,
      chunk_flatten hgroups (by simpa using hi'), List.getElem_map, toUInt8_ofBits_bitsOf]

theorem length_secretBits (K : KeySuite) (s : Seed) : (secretBits K s).length = 264 := by
  simp [secretBits, List.length_flatMap]

/-- The bytes of the secret that is read from some bits. -/
theorem toList_ofFn_chunk (bits : List Bool) :
    (Vector.ofFn (fun i : Fin 32 => (ofBits ((bits.drop (8 * i.val)).take 8)).toUInt8)).toList
      = (List.range 32).map (fun i => (ofBits (chunk 8 bits i)).toUInt8) := by
  rw [Vector.toList_ofFn]
  refine List.ext_getElem (by simp) (fun i _ _ => ?_)
  rw [List.getElem_ofFn, List.getElem_map, List.getElem_range]
  rfl

/-- The secret and the checksum read from some bits. -/
theorem read_eq_iff (K : KeySuite) {bits : List Bool} (hlen : bits.length = 264) (s : Seed) :
    (Vector.ofFn (fun i : Fin 32 => (ofBits ((bits.drop (8 * i.val)).take 8)).toUInt8) = s ∧
      (ofBits ((bits.drop 256).take 8)).toUInt8 = checksumByte K s) ↔
      bits = secretBits K s := by
  have hbytes : (s.toList ++ [checksumByte K s]).length = 33 := by simp
  have hbits : secretBits K s = (s.toList ++ [checksumByte K s]).flatMap
      (fun b => bitsOf 8 b.toNat) := by
    simp [secretBits]
  have hsize : ((List.range 32).map (fun i => (ofBits (chunk 8 bits i)).toUInt8)).length
      = s.toList.length := by
    simp
  rw [hbits, ← map_chunk_eq_iff (by rw [hlen, hbytes]), hbytes, List.range_succ, List.map_append,
    List.map_singleton, List.append_eq_append_iff_of_size_eq_left hsize, ← Vector.toList_inj,
    toList_ofFn_chunk, List.singleton_inj]
  rfl

/-! ## Words and their numbers -/

/-- A loop that fails at the first failure succeeds if every step does. -/
theorem mapM_eq_ok_iff {α β ε : Type} {f : α → Except ε β} {l : List α} {r : List β} :
    l.mapM f = .ok r ↔ List.Forall₂ (fun a b => f a = .ok b) l r := by
  induction l generalizing r with
  | nil =>
    rw [List.mapM_nil, List.forall₂_nil_left_iff]
    exact ⟨fun h => (Except.ok.inj h).symm, fun h => by rw [h]; rfl⟩
  | cons a l ih =>
    rw [List.mapM_cons, List.forall₂_cons_left_iff]
    cases ha : f a with
    | error e => simp [bind, Except.bind]
    | ok b =>
      cases hl : l.mapM f with
      | error e => simp [bind, Except.bind, ← ih, hl]
      | ok bs => simp [bind, Except.bind, pure, Except.pure, ← ih, hl, eq_comm]

/-- The first place of the lower case of a word in the table. -/
def indexOf (K : KeySuite) (word : String) : Option ℕ :=
  K.wordlist.findIdx? (fun w => decide (w = K.toLowercase word))

/-- What stands at the place of a word is its lower case. -/
theorem getElem?_of_indexOf {K : KeySuite} {word : String} {index : ℕ}
    (h : indexOf K word = some index) : K.wordlist[index]? = some (K.toLowercase word) := by
  obtain ⟨hlt, hword, -⟩ := List.findIdx?_eq_some_iff_getElem.mp h
  rw [List.getElem?_eq_getElem hlt, of_decide_eq_true hword]

/-- **Words of the table** stand at one place. -/
theorem Exports.indexOf_eq {K : KeySuite} (hK : Exports K) {word : String} {index : ℕ}
    (h : K.wordlist[index]? = some word) : indexOf K word = some index := by
  obtain ⟨hlt, hword⟩ := List.getElem?_eq_some_iff.mp h
  have hmem : word ∈ wordlist := hK.wordlist_eq ▸ List.mem_of_getElem? h
  have hlower := hK.toLowercase_of_lower word (isLowerAscii_of_mem_wordlist hmem)
  have hnodup : K.wordlist.Nodup := hK.wordlist_eq ▸ nodup_wordlist
  refine List.findIdx?_eq_some_iff_getElem.mpr ⟨hlt, decide_eq_true (hword.trans hlower.symm), ?_⟩
  intro j hj hfirst
  have heq : K.wordlist[j] = K.wordlist[index] := by
    rw [of_decide_eq_true hfirst, hlower, hword]
  exact absurd (hnodup.getElem_inj_iff.mp heq) (ne_of_lt hj)

/-- The loop over the words. -/
theorem mapM_words_eq_ok_iff {K : KeySuite} {words : List String} {indices : List ℕ} :
    (words.mapM fun word =>
      match K.wordlist.findIdx? (fun w => decide (w = K.toLowercase word)) with
      | some index => Except.ok index
      | none => .error ("invalid key: unknown mnemonic word: " ++ word)) = .ok indices ↔
      List.Forall₂ (fun w i => indexOf K w = some i) words indices := by
  have hword (word : String) (index : ℕ) :
      (match indexOf K word with
        | some index => Except.ok index
        | none => .error ("invalid key: unknown mnemonic word: " ++ word)) = .ok index ↔
      indexOf K word = some index := by
    cases indexOf K word <;> simp
  rw [mapM_eq_ok_iff]
  constructor
  · exact List.Forall₂.imp (fun word index h => (hword word index).mp h)
  · exact List.Forall₂.imp (fun word index h => (hword word index).mpr h)

theorem ite_error_eq_ok_iff {α ε : Type} {p : Prop} [Decidable p] {e : ε} {a b : α} :
    (if p then .error e else .ok a : Except ε α) = .ok b ↔ ¬p ∧ a = b := by
  split <;> simp_all

/-- What an import accepts: words whose numbers have the bits of the secret. -/
theorem fromMnemonic_eq_ok_iff {K : KeySuite} {words : List String} {s : Seed} :
    fromMnemonic K words = .ok s ↔
      words.length = 24 ∧ ∃ indices, List.Forall₂ (fun w i => indexOf K w = some i) words indices ∧
        indices.flatMap (bitsOf 11) = secretBits K s := by
  have hlen {indices : List ℕ} (h : List.Forall₂ (fun w i => indexOf K w = some i) words indices)
      (hcount : words.length = 24) : (indices.flatMap (bitsOf 11)).length = 264 := by
    simp [List.length_flatMap, ← h.length_eq, hcount]
  unfold fromMnemonic
  by_cases hcount : words.length = 24
  · rw [if_neg (not_not.mpr hcount)]
    simp only [bind, Except.bind, pure, Except.pure, throw, throwThe, MonadExceptOf.throw]
    constructor
    · intro h
      split at h
      · cases h
      · rename_i indices hindices
        have hall := mapM_words_eq_ok_iff.mp hindices
        obtain ⟨hsum, hs⟩ := ite_error_eq_ok_iff.mp h
        rw [hs] at hsum
        exact ⟨hcount, indices, hall,
          (read_eq_iff K (hlen hall hcount) s).mp ⟨hs, not_not.mp hsum⟩⟩
    · rintro ⟨-, indices, hall, hbits⟩
      obtain ⟨hs, hsum⟩ := (read_eq_iff K (hlen hall hcount) s).mpr hbits
      have hindices := mapM_words_eq_ok_iff.mpr hall
      split
      · rename_i e herror
        cases herror.symm.trans hindices
      · rename_i indices' hindices'
        obtain rfl := Except.ok.inj (hindices'.symm.trans hindices)
        refine ite_error_eq_ok_iff.mpr ⟨?_, hs⟩
        rw [hs]
        exact not_not.mpr hsum
  · rw [if_pos hcount]
    exact iff_of_false nofun (fun h => hcount h.1)

/-- What an export writes: the words whose numbers have the bits of the secret. -/
theorem Exports.toMnemonic_eq {K : KeySuite} (hK : Exports K) {s : Seed} {indices : List ℕ}
    {words : List String} (hbits : indices.flatMap (bitsOf 11) = secretBits K s)
    (hwords : List.Forall₂ (fun i w => K.wordlist[i]? = some w) indices words) :
    toMnemonic K s = .ok words := by
  have hgroups : ∀ g ∈ indices.map (bitsOf 11), g.length = 11 := by
    simp
  rw [toMnemonic, ← hbits, List.flatMap_def, List.toChunks_flatten (by decide) hgroups,
    mapM_eq_ok_iff, List.forall₂_map_left_iff]
  refine hwords.imp (fun i w h => ?_)
  have hlt : i < 2048 := by
    obtain ⟨hlt, -⟩ := List.getElem?_eq_some_iff.mp h
    rwa [hK.wordlist_eq, length_wordlist] at hlt
  rw [ofBits_bitsOf_of_lt hlt, h]

/-! ## Both ways -/

/-- **A mnemonic is read back.** -/
theorem Exports.fromMnemonic_toMnemonic {K : KeySuite} (hK : Exports K) (s : Seed) :
    ∃ words, toMnemonic K s = .ok words ∧ words.length = 24 ∧ fromMnemonic K words = .ok s := by
  have hlen : (secretBits K s).length = 11 * 24 := length_secretBits K s
  have hchunks {g : List Bool} (hg : g ∈ (secretBits K s).toChunks 11) : g.length = 11 :=
    List.length_of_mem_toChunks (by decide) hlen hg
  let indices := ((secretBits K s).toChunks 11).map ofBits
  have hbits : indices.flatMap (bitsOf 11) = secretBits K s := by
    have hid : ∀ g ∈ (secretBits K s).toChunks 11, bitsOf 11 (ofBits g) = id g :=
      fun g hg => bitsOf_ofBits (hchunks hg)
    rw [List.flatMap_map, List.flatMap_def, List.map_congr_left hid, List.map_id,
      List.flatten_toChunks]
  have hwords : List.Forall₂ (fun i w => K.wordlist[i]? = some w) indices
      (indices.map (fun i => K.wordlist.getD i "")) := by
    rw [List.forall₂_map_right_iff, List.forall₂_same]
    intro i hi
    obtain ⟨g, hg, rfl⟩ := List.mem_map.mp hi
    have hlt : ofBits g < K.wordlist.length := by
      rw [hK.wordlist_eq, length_wordlist]
      exact (ofBits_lt g).trans_eq (by rw [hchunks hg]; rfl)
    rw [List.getD_eq_getElem?_getD, List.getElem?_eq_getElem hlt, Option.getD_some]
  have hcount : (indices.map (fun i => K.wordlist.getD i "")).length = 24 := by
    rw [List.length_map, List.length_map, List.length_toChunks (by decide) hlen]
  refine ⟨_, hK.toMnemonic_eq hbits hwords, hcount, fromMnemonic_eq_ok_iff.mpr
    ⟨hcount, indices, ?_, hbits⟩⟩
  exact (hwords.imp (fun i w h => hK.indexOf_eq h)).flip

/-- **Only a mnemonic is read**, in whatever case its words are. -/
theorem Exports.toMnemonic_of_fromMnemonic {K : KeySuite} (hK : Exports K) {words : List String}
    {s : Seed} (h : fromMnemonic K words = .ok s) :
    toMnemonic K s = .ok (words.map K.toLowercase) := by
  obtain ⟨-, indices, hall, hbits⟩ := fromMnemonic_eq_ok_iff.mp h
  refine hK.toMnemonic_eq hbits (List.forall₂_map_right_iff.mpr ?_)
  exact (hall.imp (fun w i h => getElem?_of_indexOf h)).flip

/-- The bytes of an export, in their parts. -/
theorem toQrBytes_parts (blake3 : List UInt8 → Seed) (s : Seed) :
    (toQrBytes blake3 s).take 33 = qrVersion :: s.toList ∧
      (toQrBytes blake3 s).drop 33
        = (blake3 (qrVersion :: s.toList)).toList.take qrChecksumLen := by
  have hdata : (qrVersion :: s.toList).length = 33 := by simp
  exact ⟨List.take_left' hdata, List.drop_left' hdata⟩

/-- **QR bytes are read back.** -/
theorem fromQrBytes_toQrBytes (blake3 : List UInt8 → Seed) (s : Seed) :
    fromQrBytes blake3 (toQrBytes blake3 s) = .ok s := by
  obtain ⟨htake, hdrop⟩ := toQrBytes_parts blake3 s
  have hlen : (toQrBytes blake3 s).length = 1 + 32 + qrChecksumLen := by
    simp [toQrBytes, qrChecksumLen]
  have hversion : (toQrBytes blake3 s).head? = some qrVersion := rfl
  have hsecret : ((toQrBytes blake3 s).drop 1).take 32 = s.toList := by
    rw [List.take_drop, htake]
    rfl
  have hsum : ((toQrBytes blake3 s).drop 33).take qrChecksumLen
      = (blake3 ((toQrBytes blake3 s).take 33)).toList.take qrChecksumLen := by
    rw [hdrop, htake, List.take_take, Nat.min_self]
  rw [fromQrBytes, dif_pos hlen, if_neg (not_not.mpr hversion), if_neg (not_not.mpr hsum)]
  simp only [hsecret]
  rfl

/-- **Only QR bytes are read.** -/
theorem toQrBytes_of_fromQrBytes {blake3 : List UInt8 → Seed} {data : List UInt8} {s : Seed}
    (h : fromQrBytes blake3 data = .ok s) : data = toQrBytes blake3 s := by
  unfold fromQrBytes at h
  split_ifs at h with hlen hversion hsum
  have hsecret : (data.drop 1).take 32 = s.toList := by
    rw [← Except.ok.inj h]
    rfl
  have htake : data.take 33 = qrVersion :: s.toList := by
    rw [← hsecret]
    cases data with
    | nil => cases hlen
    | cons version rest =>
      rw [not_not, List.head?_cons, Option.some.injEq] at hversion
      rw [hversion]
      rfl
  have hdrop : (data.drop 33).take qrChecksumLen = data.drop 33 := by
    refine List.take_of_length_le ?_
    rw [List.length_drop, hlen]
    exact Nat.le_refl 4
  rw [not_not, hdrop, htake] at hsum
  calc data = data.take 33 ++ data.drop 33 := (List.take_append_drop 33 data).symm
    _ = toQrBytes blake3 s := by rw [htake, hsum]; rfl

/-- **The exports are lossless and exact.**  The words of the table are 2048, different and in
lower case.  A mnemonic of 24 words and the QR bytes are read back, and what is read is what the
export of the result writes, the words up to their case. -/
theorem exports_lossless (K : KeySuite) (blake3 : List UInt8 → Seed) (hK : Exports K) :
    (wordlist.length = 2048 ∧ wordlist.Nodup ∧ ∀ w ∈ wordlist, IsLowerAscii w) ∧
    (∀ s, ∃ words, toMnemonic K s = .ok words ∧ words.length = 24 ∧
      fromMnemonic K words = .ok s) ∧
    (∀ s, fromQrBytes blake3 (toQrBytes blake3 s) = .ok s) ∧
    (∀ words s, fromMnemonic K words = .ok s → toMnemonic K s = .ok (words.map K.toLowercase)) ∧
    ∀ data s, fromQrBytes blake3 data = .ok s → data = toQrBytes blake3 s :=
  ⟨⟨length_wordlist, nodup_wordlist, fun _ h => isLowerAscii_of_mem_wordlist h⟩,
    hK.fromMnemonic_toMnemonic, fromQrBytes_toQrBytes blake3,
    fun _ _ h => hK.toMnemonic_of_fromMnemonic h, fun _ _ h => toQrBytes_of_fromQrBytes h⟩

/-! ## An example -/

/-- A suite with the words of the file, and the lower case of ASCII. -/
def asciiSuite : KeySuite where
  expand _ _ _ := Vector.replicate 32 0
  argon2id _ _ := .error "not supported"
  encrypt _ _ _ := .error "not supported"
  decrypt _ _ _ := .error "not supported"
  sha256 bytes := Vector.replicate 32 (bytes.getD 0 0)
  ed25519Public seed := seed
  contentsToVec _ := .error "not supported"
  contentsFromSlice _ := .error "not supported"
  toLowercase s := String.ofList (s.toList.map Char.toLower)
  wordlist := wordlist

theorem asciiSuite_exports : Exports asciiSuite where
  wordlist_eq := rfl
  toLowercase_of_lower s h := by
    have hmap : s.toList.map Char.toLower = s.toList.map id :=
      List.map_congr_left (fun c hc => Utf8.toLower_eq_self
        (fun hupper => absurd (Char.le_trans (h c hc).1 hupper.2) (by decide)))
    calc asciiSuite.toLowercase s = String.ofList (s.toList.map Char.toLower) := rfl
      _ = s := by rw [hmap, List.map_id, String.ofList_toList]

/-- The secret of 32 zero bytes is exported and read back. -/
theorem exports_lossless_zero :
    ∃ words, toMnemonic asciiSuite (Vector.replicate 32 0) = .ok words ∧ words.length = 24 ∧
      fromMnemonic asciiSuite words = .ok (Vector.replicate 32 0) :=
  (exports_lossless asciiSuite (fun _ => Vector.replicate 32 0) asciiSuite_exports).2.1 _

end KeyExport
