/-
# Chunks of media (`ephemera-media/src/chunker.rs`)

Content is cut into chunks of a given size, each with its index and its hash, and put together
again from a list of chunks.  `reassemble_eq_ok_iff` says which lists are accepted, and what
they give: the indices count from zero on, wrapping as they are cast to 32 bits, and each hash is
that of the data.

The manifest of the content has the hash of all of it.  A list of chunks that
`reassembleWithManifest` accepts need not be the one the content was cut into, but it gives the
content, unless two of the inputs involved have one BLAKE3 hash (`lossless`).
-/
import Ephemera.MediaStorage

namespace MediaChunks

/-- `MediaError::Validation`. -/
structure ValidationError where
  message : String
  deriving DecidableEq, Repr

/-- `Chunk`. -/
structure Chunk where
  index : UInt32
  hash : ContentId
  data : List UInt8
  size : ℕ
  deriving DecidableEq

/-- `ChunkInfo`. -/
structure ChunkInfo where
  index : UInt32
  hash : ContentId
  size : UInt32
  deriving DecidableEq

/-- `ChunkManifest`. -/
structure ChunkManifest where
  contentHash : ContentId
  totalSize : UInt64
  chunkCount : UInt32
  chunkSize : UInt32
  chunks : List ChunkInfo
  deriving DecidableEq

variable (blake3 : List UInt8 → List UInt8)

/-- `chunk_with_size`; a size of zero would panic. -/
def chunkWithSize (data : List UInt8) (chunkSize : UInt32) : List Chunk :=
  (data.toChunks chunkSize.toNat).zipIdx.map
    (fun c => ⟨UInt32.ofNat c.2, .fromDigest (blake3 c.1), c.1, c.1.length⟩)

/-- `manifest_with_size`. -/
def manifestWithSize (data : List UInt8) (chunkSize : UInt32) : ChunkManifest :=
  let chunkInfos := (chunkWithSize blake3 data chunkSize).map
    (fun c => ⟨c.index, c.hash, UInt32.ofNat c.size⟩)
  { contentHash := .fromDigest (blake3 data)
    totalSize := UInt64.ofNat data.length
    chunkCount := UInt32.ofNat chunkInfos.length
    chunkSize := chunkSize
    chunks := chunkInfos }

/-- The first loop of `reassemble`, from the chunk in place `i` on. -/
def checkOrder : ℕ → List Chunk → Except ValidationError Unit
  | _, [] => .ok ()
  | i, chunk :: chunks =>
    if chunk.index ≠ UInt32.ofNat i then
      .error ⟨"chunk index mismatch: expected " ++ toString i ++ ", got " ++ toString chunk.index⟩
    else checkOrder (i + 1) chunks

/-- The second loop. -/
def collect : List UInt8 → List Chunk → Except ValidationError (List UInt8)
  | assembled, [] => .ok assembled
  | assembled, chunk :: chunks =>
    if ContentId.fromDigest (blake3 chunk.data) ≠ chunk.hash then
      .error ⟨"chunk " ++ toString chunk.index ++ " hash mismatch: data has been tampered with"⟩
    else collect (assembled ++ chunk.data) chunks

/-- `reassemble`. -/
def reassemble (chunks : List Chunk) : Except ValidationError (List UInt8) :=
  if chunks.isEmpty then .ok []
  else do
    checkOrder 0 chunks
    collect blake3 [] chunks

/-- `reassemble_with_manifest`. -/
def reassembleWithManifest (chunks : List Chunk) (manifest : ChunkManifest) :
    Except ValidationError (List UInt8) :=
  if UInt32.ofNat chunks.length ≠ manifest.chunkCount then
    .error ⟨"expected " ++ toString manifest.chunkCount ++ " chunks, got "
      ++ toString chunks.length⟩
  else do
    let data ← reassemble blake3 chunks
    if ContentId.fromDigest (blake3 data) ≠ manifest.contentHash then
      .error ⟨"reassembled content hash does not match manifest"⟩
    else .ok data

/-- The chunks that media are stored in are those of the default size. -/
theorem chunk_eq (data : List UInt8) : ContentChunker.chunk blake3 data =
    (chunkWithSize blake3 data (UInt32.ofNat defaultChunkSize)).map
      (fun c => ⟨c.index, c.hash, c.data⟩) := by
  rw [chunkWithSize, List.map_map]
  rfl

/-! ## Which lists are accepted -/

/-- The chunks in places from `i` on have their places as indices. -/
theorem checkOrder_eq_ok_iff (i : ℕ) (chunks : List Chunk) :
    checkOrder i chunks = .ok () ↔
      ∀ j c, chunks[j]? = some c → c.index = UInt32.ofNat (i + j) := by
  induction chunks generalizing i with
  | nil => simp [checkOrder]
  | cons chunk chunks ih =>
    rw [checkOrder]
    by_cases hindex : chunk.index = UInt32.ofNat i
    · rw [if_neg (not_not.mpr hindex), ih]
      constructor
      · intro h j c hc
        cases j with
        | zero =>
          rw [← Option.some.inj hc]
          exact hindex
        | succ j => rw [h j c hc, Nat.add_right_comm, Nat.add_assoc]
      · intro h j c hc
        rw [h (j + 1) c hc, Nat.add_right_comm, Nat.add_assoc]
    · rw [if_pos hindex]
      exact iff_of_false (fun h => nomatch h) (fun h => hindex (h 0 chunk rfl))

variable {blake3}

theorem collect_eq_ok_iff {assembled r : List UInt8} {chunks : List Chunk} :
    collect blake3 assembled chunks = .ok r ↔
      (∀ c ∈ chunks, c.hash = .fromDigest (blake3 c.data)) ∧
        r = assembled ++ (chunks.map Chunk.data).flatten := by
  induction chunks generalizing assembled with
  | nil => simp [collect, eq_comm]
  | cons chunk chunks ih =>
    rw [collect, List.forall_mem_cons, List.map_cons, List.flatten_cons, ← List.append_assoc]
    by_cases hhash : ContentId.fromDigest (blake3 chunk.data) = chunk.hash
    · rw [if_neg (not_not.mpr hhash), ih]
      simp only [hhash, true_and]
    · rw [if_pos hhash]
      exact iff_of_false (fun h => nomatch h) (fun h => hhash h.1.1.symm)

/-- **What `reassemble` accepts**: chunks with their places as indices, and their hashes. -/
theorem reassemble_eq_ok_iff {chunks : List Chunk} {r : List UInt8} :
    reassemble blake3 chunks = .ok r ↔
      (∀ i c, chunks[i]? = some c → c.index = UInt32.ofNat i) ∧
        (∀ c ∈ chunks, c.hash = .fromDigest (blake3 c.data)) ∧
          r = (chunks.map Chunk.data).flatten := by
  rw [reassemble]
  cases chunks with
  | nil => simp [eq_comm]
  | cons chunk chunks =>
    rw [if_neg (by simp)]
    have horder := checkOrder_eq_ok_iff 0 (chunk :: chunks)
    simp only [Nat.zero_add] at horder
    rw [← horder]
    have hcollect : collect blake3 [] (chunk :: chunks) = .ok r ↔ _ := collect_eq_ok_iff
    rw [List.nil_append] at hcollect
    rw [← hcollect]
    cases checkOrder 0 (chunk :: chunks) with
    | ok => exact (and_iff_right rfl).symm
    | error e => exact iff_of_false (fun h => nomatch h) (fun h => nomatch h.1)

/-- What `reassemble_with_manifest` accepts. -/
theorem reassembleWithManifest_eq_ok_iff {chunks : List Chunk} {manifest : ChunkManifest}
    {r : List UInt8} :
    reassembleWithManifest blake3 chunks manifest = .ok r ↔
      UInt32.ofNat chunks.length = manifest.chunkCount ∧ reassemble blake3 chunks = .ok r ∧
        manifest.contentHash = .fromDigest (blake3 r) := by
  rw [reassembleWithManifest]
  by_cases hcount : UInt32.ofNat chunks.length = manifest.chunkCount
  · rw [if_neg (not_not.mpr hcount), and_iff_right hcount]
    cases hdata : reassemble blake3 chunks with
    | error e => exact iff_of_false (fun h => nomatch h) (fun h => nomatch h.1)
    | ok data =>
      show (if ContentId.fromDigest (blake3 data) ≠ manifest.contentHash then
        Except.error _ else Except.ok data) = Except.ok r ↔ _
      by_cases hhash : ContentId.fromDigest (blake3 data) = manifest.contentHash
      · rw [if_neg (not_not.mpr hhash), Except.ok.injEq, ← hhash]
        constructor
        · rintro rfl
          exact ⟨rfl, rfl⟩
        · exact And.left
      · rw [if_pos hhash]
        refine iff_of_false (fun h => nomatch h) (fun h => hhash ?_)
        rw [Except.ok.inj h.1]
        exact h.2.symm
  · rw [if_pos hcount]
    exact iff_of_false (fun h => nomatch h) (fun h => hcount h.1)

/-! ## Round trips -/

/-- The bytes of the chunks are pieces of the content. -/
theorem map_data_chunkWithSize (data : List UInt8) (n : UInt32) :
    (chunkWithSize blake3 data n).map Chunk.data = data.toChunks n.toNat := by
  rw [chunkWithSize, List.map_map]
  exact List.zipIdx_map_fst 0 _

theorem mem_chunkWithSize {data : List UInt8} {n : UInt32} {c : Chunk}
    (h : c ∈ chunkWithSize blake3 data n) :
    c.hash = .fromDigest (blake3 c.data) ∧ c.size = c.data.length := by
  obtain ⟨p, -, rfl⟩ := List.mem_map.mp h
  exact ⟨rfl, rfl⟩

/-- **What was cut is put together again.** -/
theorem reassemble_chunkWithSize (data : List UInt8) (n : UInt32) :
    reassemble blake3 (chunkWithSize blake3 data n) = .ok data := by
  rw [reassemble_eq_ok_iff]
  refine ⟨fun i c hc => ?_, fun c hc => (mem_chunkWithSize hc).1, ?_⟩
  · rw [chunkWithSize, List.getElem?_map, List.getElem?_zipIdx, Option.map_map,
      Option.map_eq_some_iff] at hc
    obtain ⟨slice, -, rfl⟩ := hc
    show UInt32.ofNat (0 + i) = UInt32.ofNat i
    rw [Nat.zero_add]
  · rw [map_data_chunkWithSize, List.flatten_toChunks]

/-- The manifest accepts the chunks it was made from. -/
theorem reassembleWithManifest_chunkWithSize (data : List UInt8) (n : UInt32) :
    reassembleWithManifest blake3 (chunkWithSize blake3 data n) (manifestWithSize blake3 data n)
      = .ok data := by
  refine reassembleWithManifest_eq_ok_iff.mpr ⟨?_, reassemble_chunkWithSize data n, rfl⟩
  show UInt32.ofNat _ = UInt32.ofNat (List.map _ _).length
  rw [List.length_map]

/-- The byte strings that are hashed when the content is cut, and when the chunks `cs` are put
together. -/
def hashed (data : List UInt8) (n : UInt32) (cs : List Chunk) : Set (List UInt8) :=
  {bytes | bytes = data ∨ bytes ∈ data.toChunks n.toNat ∨ bytes ∈ cs.map Chunk.data ∨
    bytes = (cs.map Chunk.data).flatten}

variable (blake3)

/-- **Chunking is lossless and tamper-evident.**  Cut into chunks of any size, all full but the
last, which is not empty, the content is put together again; and whatever chunks the manifest
accepts give the content, unless BLAKE3 has a collision among the inputs. -/
theorem lossless (data : List UInt8) {n : UInt32} (hn : 0 < n) :
    reassemble blake3 (chunkWithSize blake3 data n) = .ok data ∧
    (∀ c ∈ (chunkWithSize blake3 data n).dropLast,
      c.size = n.toNat ∧ c.data.length = n.toNat) ∧
    (∀ c ∈ (chunkWithSize blake3 data n).getLast?, c.size = c.data.length ∧ c.data ≠ []) ∧
    ∀ (cs : List Chunk) (r : List UInt8), Set.InjOn blake3 (hashed data n cs) →
      reassembleWithManifest blake3 cs (manifestWithSize blake3 data n) = .ok r → r = data := by
  obtain ⟨hfull, hlast⟩ := List.toChunks_lengths (UInt32.lt_iff_toNat_lt.mp hn) data
  have hdata : (chunkWithSize blake3 data n).map Chunk.data = data.toChunks n.toNat :=
    map_data_chunkWithSize data n
  rw [← hdata] at hfull hlast
  refine ⟨reassemble_chunkWithSize data n, fun c hc => ?_, fun c hc => ?_, fun cs r hinj h => ?_⟩
  · rw [← List.map_dropLast] at hfull
    have hlen := hfull c.data (List.mem_map_of_mem hc)
    exact ⟨(mem_chunkWithSize (List.dropLast_subset _ hc)).2.trans hlen, hlen⟩
  · rw [List.getLast?_map] at hlast
    have hpos := (hlast c.data (Option.mem_map_of_mem Chunk.data hc)).1
    exact ⟨(mem_chunkWithSize (List.mem_of_getLast? hc)).2, List.ne_nil_of_length_pos hpos⟩
  · obtain ⟨-, hr, hhash⟩ := reassembleWithManifest_eq_ok_iff.mp h
    obtain ⟨-, -, hflat⟩ := reassemble_eq_ok_iff.mp hr
    refine hinj (Or.inr (Or.inr (Or.inr hflat))) (Or.inl rfl) ?_
    exact (congrArg ContentId.hash hhash).symm

/-- Five bytes in chunks of two, with a hash that returns its input: the chunks of another size
are accepted if there are as many. -/
theorem lossless_two : (0 : UInt32) < 2 ∧
    ∀ r, reassembleWithManifest id
      [⟨0, .fromDigest [1], [1], 1⟩, ⟨1, .fromDigest [2, 3, 4], [2, 3, 4], 3⟩,
        ⟨2, .fromDigest [5], [5], 1⟩] (manifestWithSize id [1, 2, 3, 4, 5] 2) = .ok r →
      r = [1, 2, 3, 4, 5] :=
  ⟨by decide, fun r => (lossless id [1, 2, 3, 4, 5] (n := 2) (by decide)).2.2.2 _ r
    (Function.injective_id.injOn)⟩

end MediaChunks
