/-
# The storing of media (`services/media.rs`, `media_store.rs`, `chunker.rs`, `server.rs`)

`create` stores a file of a post as a row of `media_attachments` and one row of `media_chunks`
for each 256 KiB.  The key of an attachment is the hash of its content with its position in the
post, and the key of a chunk is its hash; neither names the post, and both rows are inserted
plainly.

`exec_storeAll` says when the files of a post are stored: if there is `Room` for all of them.
`retrievable_iff` says when a stored file can be read back, and `exec_create` where in the
creation of a post its files are stored.
-/
import Ephemera.Chunks
import Ephemera.NodeRun

namespace MediaService

open StateExcept GuardedRun

variable {W : Wire}

/-! ## Reading media -/

/-- The rows of `media_chunks` of one attachment. -/
def chunksOf (db : NodeDb W) (mediaId : String) : List (String × StoredChunk) :=
  db.mediaChunks.selectWhere (fun _ chunk => decide (chunk.mediaId = mediaId))

/-- `list_chunks_for_media`: they are ordered by index. -/
def listChunksForMedia (db : NodeDb W) (mediaId : String) : List (String × StoredChunk) :=
  (chunksOf db mediaId).mergeSort (fun a b => decide (a.2.chunkIndex ≤ b.2.chunkIndex))

/-- `serve_media`, for an attachment: its MIME type and its bytes. -/
def serveMedia (db : NodeDb W) (mediaId : String) : Option (String × List UInt8) :=
  (db.mediaAttachments.get? mediaId).map (fun a =>
    (a.mimeType, ((listChunksForMedia db mediaId).map (fun r => r.2.data)).flatten))

/-- The attachment is stored, its chunks are `chunk_count` many and numbered from 0 on, and they
make up the bytes. -/
structure Retrievable (db : NodeDb W) (mediaId : String) (data : List UInt8) : Prop where
  count : ∃ a, db.mediaAttachments.get? mediaId = some a ∧
    a.chunkCount.toInt = (listChunksForMedia db mediaId).length
  indices : (listChunksForMedia db mediaId).map (fun r => r.2.chunkIndex.toInt)
    = (List.range (listChunksForMedia db mediaId).length).map Int.ofNat
  bytes : (serveMedia db mediaId).map Prod.snd = some data

/-! ## What is stored -/

/-- The id of an attachment. -/
def mediaId (contentHash : ContentId) (index : ℕ) : String :=
  Hex.encode contentHash.hash ++ "-" ++ toString index

/-- The row of a chunk. -/
def chunkRow (mediaId : String) (chunk : Chunk) : String × StoredChunk :=
  (Hex.encode chunk.hash.hash, ⟨mediaId, chunk.index.toUInt64.toInt64, chunk.data⟩)

variable (P : NodePrimitives)

/-- The rows of the chunks of a file. -/
def chunkRows (mediaId : String) (data : List UInt8) : List (String × StoredChunk) :=
  (ContentChunker.chunk P.blake3 data).map (chunkRow mediaId)

/-- Their keys. -/
def chunkKeys (data : List UInt8) : List String :=
  (ContentChunker.chunk P.blake3 data).map (fun chunk => Hex.encode chunk.hash.hash)

/-- The number of chunks of a file. -/
def chunkCount (data : List UInt8) : ℕ := (ContentChunker.chunk P.blake3 data).length

/-- The ids and the bytes of the files that the pipeline accepts. -/
def acceptedMedia : ℕ → List MediaFile → List (String × List UInt8)
  | _, [] => []
  | index, file :: files =>
    match P.processAuto file.data with
    | .ok (.image img) =>
      (mediaId img.contentHash index, img.standard) :: acceptedMedia (index + 1) files
    | .ok (.video vid) =>
      (mediaId vid.contentHash index, vid.videoData) :: acceptedMedia (index + 1) files
    | .error _ => acceptedMedia (index + 1) files

/-- There is room for the files: no id and no chunk of theirs is stored or comes twice. -/
def Room (db : NodeDb W) (items : List (String × List UInt8)) : Prop :=
  db.mediaAttachments.Fresh (items.map Prod.fst) ∧
    db.mediaChunks.Fresh (items.flatMap (fun item => chunkKeys P item.2))

/-- The database `db'` has one file more. -/
def Adds (db db' : NodeDb W) (item : String × List UInt8) : Prop :=
  ∃ a : MediaAttachment, a.chunkCount = (UInt64.ofNat (chunkCount P item.2)).toInt64 ∧
    db'.mediaAttachments = db.mediaAttachments.insertOrIgnore item.1 a ∧
    db'.mediaChunks = db.mediaChunks.insertAll (chunkRows P item.1 item.2)

/-- The database `db'` has the files more, one after the other. -/
def AddsAll : NodeDb W → NodeDb W → List (String × List UInt8) → Prop
  | db, db', [] => db'.mediaAttachments = db.mediaAttachments ∧ db'.mediaChunks = db.mediaChunks
  | db, db', item :: items => ∃ db₁, Adds P db db₁ item ∧ AddsAll db₁ db' items

variable {P}

/-- There is room for no files. -/
theorem room_nil {db : NodeDb W} : Room P db [] := ⟨SqlTable.fresh_nil _, SqlTable.fresh_nil _⟩

theorem map_fst_chunkRows (mediaId : String) (data : List UInt8) :
    (chunkRows P mediaId data).map Prod.fst = chunkKeys P data := by
  rw [chunkRows, List.map_map]
  rfl

/-- Room for several files is room for the first, and room for the others after it. -/
theorem room_cons_iff {db db' : NodeDb W} {item : String × List UInt8}
    {items : List (String × List UInt8)} (h : Adds P db db' item) :
    Room P db (item :: items) ↔ Room P db [item] ∧ Room P db' items := by
  obtain ⟨a, -, hatt, hchunks⟩ := h
  unfold Room
  rw [List.map_cons, SqlTable.fresh_cons_iff a, List.map_cons, SqlTable.fresh_cons_iff a,
    List.flatMap_cons, List.flatMap_cons, ← map_fst_chunkRows item.1,
    SqlTable.fresh_append_iff, SqlTable.fresh_append_iff, hatt, hchunks]
  simp only [List.map_nil, List.flatMap_nil, SqlTable.fresh_nil, and_true]
  tauto

/-- Room for several files is room for the first. -/
theorem Room.head {db : NodeDb W} {item : String × List UInt8} {items : List (String × List UInt8)}
    (h : Room P db (item :: items)) : Room P db [item] := by
  obtain ⟨⟨hids, hidsNew⟩, hkeys, hkeysNew⟩ := h
  rw [List.flatMap_cons] at hkeys hkeysNew
  refine ⟨⟨by simp, fun k hk => hidsNew k ?_⟩, ?_, fun k hk => hkeysNew k ?_⟩
  · rw [List.mem_singleton.mp hk]
    exact List.mem_cons_self
  · rw [List.flatMap_singleton]
    exact (List.nodup_append.mp hkeys).1
  · rw [List.flatMap_singleton] at hk
    exact List.mem_append_left _ hk

/-! ## The calls -/

theorem exec_insertMediaChunk (chunkHash : String) (chunk : StoredChunk) (s : NodeStore W) :
    exec (insertMediaChunk chunkHash chunk) s
      = if s.db.mediaChunks.get? chunkHash = none then
          (.ok (), { s with db := { s.db with
            mediaChunks := s.db.mediaChunks.insertOrIgnore chunkHash chunk } })
        else (.error
          "store chunk: SQLite error: UNIQUE constraint failed: media_chunks.chunk_hash", s) := by
  unfold insertMediaChunk SqlTable.insert? SqlTable.insertOrIgnore
  rw [exec_bind, exec_get]
  by_cases h : s.db.mediaChunks.get? chunkHash = none
  · simp only [dif_pos h, if_pos h, exec_modify]
  · simp only [dif_neg h, if_neg h, exec_throw]

theorem exec_insertMediaAttachment (id : String) (a : MediaAttachment) (s : NodeStore W) :
    exec (insertMediaAttachment id a) s
      = if s.db.mediaAttachments.get? id = none then
          (.ok (), { s with db := { s.db with
            mediaAttachments := s.db.mediaAttachments.insertOrIgnore id a } })
        else (.error
          "store attachment: SQLite error: UNIQUE constraint failed: media_attachments.id", s) := by
  unfold insertMediaAttachment SqlTable.insert? SqlTable.insertOrIgnore
  rw [exec_bind, exec_get]
  by_cases h : s.db.mediaAttachments.get? id = none
  · simp only [dif_pos h, if_pos h, exec_modify]
  · simp only [dif_neg h, if_neg h, exec_throw]

/-- The chunks of a file are inserted if there is room for them, and the call fails if not. -/
theorem exec_insertChunks (mediaId : String) (chunks : List Chunk) (s : NodeStore W) :
    (s.db.mediaChunks.Fresh (chunks.map (fun chunk => Hex.encode chunk.hash.hash)) →
      exec (insertChunks mediaId chunks) s = (.ok (), { s with
        db := { s.db with
          mediaChunks := s.db.mediaChunks.insertAll (chunks.map (chunkRow mediaId)) } })) ∧
    (¬ s.db.mediaChunks.Fresh (chunks.map (fun chunk => Hex.encode chunk.hash.hash)) →
      ∃ e s', exec (insertChunks mediaId chunks) s = (.error e, s')) := by
  induction chunks generalizing s with
  | nil => exact ⟨fun _ => rfl, fun h => absurd (SqlTable.fresh_nil _) h⟩
  | cons chunk chunks ih =>
    rw [List.map_cons, SqlTable.fresh_cons_iff (chunkRow mediaId chunk).2, insertChunks, exec_bind,
      exec_insertMediaChunk]
    by_cases hget : s.db.mediaChunks.get? (Hex.encode chunk.hash.hash) = none
    · -- the first chunk is in, the others meet the table with it
      obtain ⟨hok, herr⟩ := ih { s with db := { s.db with
        mediaChunks := s.db.mediaChunks.insertOrIgnore (Hex.encode chunk.hash.hash)
          (chunkRow mediaId chunk).2 } }
      rw [if_pos hget]
      exact ⟨fun h => hok h.2, fun h => herr (fun hrest => h ⟨hget, hrest⟩)⟩
    · rw [if_neg hget]
      exact ⟨fun h => absurd h.1 hget, fun _ => ⟨_, _, rfl⟩⟩

/-- The steps of `store_image` and `store_video`, with the id of the attachment. -/
theorem storeProcessed_eq (contentHash : ContentId) (index : ℕ) (thumbnail data : List UInt8)
    (attachment : MediaAttachment) :
    storeProcessed (W := W) P contentHash index thumbnail data attachment = (do
      let thumbHash ← putBlob P thumbnail
      insertMediaAttachment (mediaId contentHash index) { attachment with
        thumbnailHash := some thumbHash
        chunkCount := (UInt64.ofNat (chunkCount P data)).toInt64 }
      insertChunks (mediaId contentHash index) (ContentChunker.chunk P.blake3 data)
      return ⟨mediaId contentHash index, Hex.encode contentHash.hash, attachment.mediaType⟩) := rfl

/-- A file is stored if there is room for it, and the call fails if not. -/
theorem exec_storeProcessed (contentHash : ContentId) (index : ℕ) (thumbnail data : List UInt8)
    (attachment : MediaAttachment) (s : NodeStore W) :
    (Room P s.db [(mediaId contentHash index, data)] →
      ∃ r s', exec (storeProcessed P contentHash index thumbnail data attachment) s = (.ok r, s') ∧
        Adds P s.db s'.db (mediaId contentHash index, data)) ∧
    (¬ Room P s.db [(mediaId contentHash index, data)] →
      ∃ e s', exec (storeProcessed P contentHash index thumbnail data attachment) s
        = (.error e, s')) := by
  have hroom : Room P s.db [(mediaId contentHash index, data)] ↔
      s.db.mediaAttachments.get? (mediaId contentHash index) = none ∧
        s.db.mediaChunks.Fresh (chunkKeys P data) := by
    rw [Room, List.map_singleton, List.flatMap_singleton,
      SqlTable.fresh_cons_iff { attachment with chunkCount := 0 }]
    simp only [SqlTable.fresh_nil, and_true]
  rw [hroom, storeProcessed_eq, putBlob]
  simp only [exec_bind, exec_modify, exec_pure, exec_insertMediaAttachment]
  by_cases hid : s.db.mediaAttachments.get? (mediaId contentHash index) = none
  · obtain ⟨hok, herr⟩ := exec_insertChunks (mediaId contentHash index)
      (ContentChunker.chunk P.blake3 data) { s with
        content := s.content.put P.blake3 thumbnail
        db := { s.db with
          mediaAttachments := s.db.mediaAttachments.insertOrIgnore (mediaId contentHash index)
            { attachment with
              thumbnailHash := some (ContentStore.keyOf P.blake3 thumbnail)
              chunkCount := (UInt64.ofNat (chunkCount P data)).toInt64 } } }
    rw [if_pos hid]
    constructor
    · rintro ⟨-, hfresh⟩
      simp only [hok hfresh]
      exact ⟨_, _, rfl, _, rfl, rfl, rfl⟩
    · intro h
      obtain ⟨e, s', heq⟩ := herr (fun hfresh => h ⟨hid, hfresh⟩)
      simp only [heq]
      exact ⟨_, _, rfl⟩
  · rw [if_neg hid]
    exact ⟨fun h => absurd h.1 hid, fun _ => ⟨_, _, rfl⟩⟩

/-- An accepted file is one of the files to store, and is stored if there is room for it. -/
theorem exec_processAndStore {file : MediaFile} {processed : ProcessedContent}
    (haccepted : P.processAuto file.data = .ok processed) (now : ClockReading)
    (postHash : List UInt8) (index : ℕ) (s : NodeStore W) :
    ∃ item, (∀ files, acceptedMedia P index (file :: files)
        = item :: acceptedMedia P (index + 1) files) ∧
      (Room P s.db [item] → ∃ r s', exec (processAndStore P now file postHash index) s
        = (.ok r, s') ∧ Adds P s.db s'.db item) ∧
      (¬ Room P s.db [item] → ∃ e s', exec (processAndStore P now file postHash index) s
        = (.error e, s')) := by
  unfold processAndStore
  rw [haccepted]
  cases processed with
  | image img =>
    refine ⟨(mediaId img.contentHash index, img.standard), fun files => ?_, ?_⟩
    · rw [acceptedMedia, haccepted]
    · exact exec_storeProcessed _ _ _ _ _ s
  | video vid =>
    refine ⟨(mediaId vid.contentHash index, vid.videoData), fun files => ?_, ?_⟩
    · rw [acceptedMedia, haccepted]
    · exact exec_storeProcessed _ _ _ _ _ s

/-- The loop over the files of a post stores them if there is room for all, and fails if not. -/
theorem exec_storeAll {files : List MediaFile}
    (haccepted : ∀ file ∈ files, ∃ processed, P.processAuto file.data = .ok processed)
    (now : ClockReading) (postHash : List UInt8) (index : ℕ) (s : NodeStore W) :
    (Room P s.db (acceptedMedia P index files) →
      ∃ s', exec (storeAll P now postHash index files) s = (.ok (), s') ∧
        AddsAll P s.db s'.db (acceptedMedia P index files)) ∧
    (¬ Room P s.db (acceptedMedia P index files) →
      ∃ e s', exec (storeAll P now postHash index files) s = (.error e, s')) := by
  induction files generalizing index s with
  | nil =>
    exact ⟨fun _ => ⟨s, rfl, rfl, rfl⟩, fun h => absurd room_nil h⟩
  | cons file files ih =>
    obtain ⟨processed, hfile⟩ := haccepted file List.mem_cons_self
    obtain ⟨item, hitem, hok, herr⟩ := exec_processAndStore hfile now postHash index s
    rw [hitem, storeAll, exec_bind]
    by_cases hfirst : Room P s.db [item]
    · obtain ⟨r, s₁, hexec, hadds⟩ := hok hfirst
      obtain ⟨hok', herr'⟩ := ih (fun f hf => haccepted f (List.mem_cons_of_mem file hf))
        (index + 1) s₁
      rw [room_cons_iff hadds, hexec]
      constructor
      · rintro ⟨-, hrest⟩
        obtain ⟨s', hexec', hadds'⟩ := hok' hrest
        exact ⟨s', hexec', s₁.db, hadds, hadds'⟩
      · exact fun h => herr' (fun hrest => h ⟨hfirst, hrest⟩)
    · obtain ⟨e, s', hexec⟩ := herr hfirst
      rw [hexec]
      refine ⟨fun h => absurd ?_ hfirst, fun _ => ⟨e, s', rfl⟩⟩
      exact h.head

/-! ## Reading back -/

/-- A `u64` below 2^63 is the same number as an `i64`. -/
theorem toInt_toInt64_of_lt {x : UInt64} (h : x.toNat < 2 ^ 63) :
    x.toInt64.toInt = Int.ofNat x.toNat := by
  have hcast : x.toInt64.toInt = x.toBitVec.toInt := rfl
  have hnat : x.toBitVec.toNat = x.toNat := rfl
  rw [hcast, BitVec.toInt_eq_toNat_of_lt (by omega), hnat]
  rfl

/-- The index of a chunk is below 2^32. -/
theorem toInt_index_lt (i : UInt32) : i.toUInt64.toInt64.toInt < 2 ^ 32 := by
  have hlt := UInt32.toNat_lt i
  rw [toInt_toInt64_of_lt (by rw [UInt32.toNat_toUInt64]; omega), UInt32.toNat_toUInt64]
  exact Int.ofNat_lt.mpr hlt

/-- An index that fits is kept by the casts. -/
theorem toInt_index {i : ℕ} (h : i < 2 ^ 32) :
    (UInt32.ofNat i).toUInt64.toInt64.toInt = Int.ofNat i := by
  have hnat : (UInt32.ofNat i).toUInt64.toNat = i := by
    rw [UInt32.toNat_toUInt64, UInt32.toNat_ofNat_of_lt' h]
  rw [toInt_toInt64_of_lt (by omega), hnat]

/-- The chunks of a file in their order make up its bytes. -/
theorem flatten_chunkRows (mediaId : String) (data : List UInt8) :
    ((chunkRows P mediaId data).map (fun r => r.2.data)).flatten = data := by
  have hdata : (chunkRows P mediaId data).map (fun r => r.2.data)
      = data.toChunks defaultChunkSize := by
    rw [chunkRows, ContentChunker.chunk, List.map_map, List.map_map]
    exact List.zipIdx_map_fst 0 _
  rw [hdata, List.flatten_toChunks]

/-- Their indices count from 0 on, as long as they fit. -/
theorem indices_chunkRows (mediaId : String) {data : List UInt8}
    (h : chunkCount P data ≤ 2 ^ 32) :
    (chunkRows P mediaId data).map (fun r => r.2.chunkIndex.toInt)
      = (List.range (chunkCount P data)).map Int.ofNat := by
  have hlen : chunkCount P data = (data.toChunks defaultChunkSize).length := by
    rw [chunkCount, ContentChunker.chunk, List.length_map, List.length_zipIdx]
  have hidx : (chunkRows P mediaId data).map (fun r => r.2.chunkIndex.toInt)
      = ((data.toChunks defaultChunkSize).zipIdx.map Prod.snd).map
        (fun i => (UInt32.ofNat i).toUInt64.toInt64.toInt) := by
    rw [chunkRows, ContentChunker.chunk, List.map_map, List.map_map, List.map_map]
    rfl
  rw [hidx, List.zipIdx_map_snd, ← List.range_eq_range', ← hlen]
  refine List.map_congr_left (fun i hi => toInt_index ?_)
  exact lt_of_lt_of_le (List.mem_range.mp hi) h

/-- Chunks with such indices are listed as they were inserted. -/
theorem listChunksForMedia_eq {db : NodeDb W} {mediaId : String} {data : List UInt8}
    (hrows : chunksOf db mediaId = chunkRows P mediaId data) (h : chunkCount P data ≤ 2 ^ 32) :
    listChunksForMedia db mediaId = chunkRows P mediaId data := by
  rw [listChunksForMedia, hrows]
  refine List.mergeSort_of_pairwise ?_
  have hsorted : ((chunkRows P mediaId data).map (fun r => r.2.chunkIndex.toInt)).Pairwise
      (· ≤ ·) := by
    rw [indices_chunkRows mediaId h, List.pairwise_map]
    exact List.pairwise_le_range.imp (fun hle => Int.ofNat_le.mpr hle)
  rw [List.pairwise_map] at hsorted
  exact hsorted.imp (fun hle => decide_eq_true (Int64.le_iff_toInt_le.mpr hle))

/-- **A stored file can be read back** exactly if the indices of its chunks fit. -/
theorem retrievable_iff {db : NodeDb W} {mediaId : String} {a : MediaAttachment}
    {data : List UInt8} (ha : db.mediaAttachments.get? mediaId = some a)
    (hcount : a.chunkCount = (UInt64.ofNat (chunkCount P data)).toInt64)
    (hrows : chunksOf db mediaId = chunkRows P mediaId data) :
    Retrievable db mediaId data ↔ chunkCount P data ≤ 2 ^ 32 := by
  have hlength : (chunkRows P mediaId data).length = chunkCount P data := List.length_map _
  constructor
  · intro hret
    by_contra hmany
    have hlen : (listChunksForMedia db mediaId).length = chunkCount P data := by
      rw [listChunksForMedia, List.length_mergeSort, hrows, hlength]
    -- the last of the indices that are needed is not one of a chunk
    have hmem : Int.ofNat (2 ^ 32) ∈
        (listChunksForMedia db mediaId).map (fun r => r.2.chunkIndex.toInt) := by
      rw [hret.indices, hlen]
      exact List.mem_map_of_mem (List.mem_range.mpr (not_le.mp hmany))
    obtain ⟨r, hr, hindex⟩ := List.mem_map.mp hmem
    rw [listChunksForMedia, List.mem_mergeSort, hrows, chunkRows] at hr
    obtain ⟨chunk, -, rfl⟩ := List.mem_map.mp hr
    have hlt := toInt_index_lt chunk.index
    rw [show chunk.index.toUInt64.toInt64.toInt = Int.ofNat (2 ^ 32) from hindex] at hlt
    exact absurd hlt (by decide)
  · intro hfits
    have hlist := listChunksForMedia_eq hrows hfits
    refine ⟨⟨a, ha, ?_⟩, ?_, ?_⟩
    · have hnat : (UInt64.ofNat (chunkCount P data)).toNat = chunkCount P data :=
        UInt64.toNat_ofNat_of_lt' (by
          show chunkCount P data < 2 ^ 64
          omega)
      rw [hlist, hlength, hcount, toInt_toInt64_of_lt (by omega), hnat]
      rfl
    · rw [hlist, hlength]
      exact indices_chunkRows mediaId hfits
    · rw [serveMedia, ha, hlist, Option.map_some, Option.map_some, flatten_chunkRows]

/-! ## The creation of a post -/

/-- A post is prepared only if the pipeline accepts its files. -/
theorem accepted_of_mediaHashes {files : List MediaFile} {hashes : List ContentId}
    (h : PostService.mediaHashes P files = .ok hashes) :
    ∀ file ∈ files, ∃ processed, P.processAuto file.data = .ok processed := by
  induction files generalizing hashes with
  | nil => simp
  | cons file files ih =>
    rw [PostService.mediaHashes] at h
    cases hfile : P.processAuto file.data with
    | error e =>
      rw [hfile] at h
      cases h
    | ok processed =>
      rw [hfile] at h
      cases hrest : PostService.mediaHashes P files with
      | error e =>
        rw [hrest] at h
        cases h
      | ok hashes' =>
        intro f hf
        rcases List.mem_cons.mp hf with rfl | hf
        · exact ⟨processed, hfile⟩
        · exact ih hrest f hf

/-- What a sequence answers, its first part answered before. -/
theorem exists_of_bind_eq_ok {ε α β : Type} {m : Except ε α} {f : α → Except ε β} {b : β}
    (h : m >>= f = .ok b) : ∃ a, m = .ok a ∧ f a = .ok b := by
  cases m with
  | error e => cases h
  | ok a => exact ⟨a, rfl, h⟩

theorem accepted_of_prepare {env : PostEnv} {body : String} {files : List MediaFile}
    {ttlSeconds : Option UInt64} {parent : Option String} {prepared : Post × List UInt8}
    (h : PostService.prepare P env body files ttlSeconds parent = .ok prepared) :
    ∀ file ∈ files, ∃ processed, P.processAuto file.data = .ok processed := by
  unfold PostService.prepare at h
  obtain ⟨author, -, h⟩ := exists_of_bind_eq_ok h
  obtain ⟨-, -, h⟩ := exists_of_bind_eq_ok h
  obtain ⟨ttl, -, h⟩ := exists_of_bind_eq_ok h
  cases parent with
  | none =>
    obtain ⟨parent', -, h⟩ := exists_of_bind_eq_ok h
    obtain ⟨hashes, hhashes, -⟩ := exists_of_bind_eq_ok h
    exact accepted_of_mediaHashes hhashes
  | some hex =>
    obtain ⟨parent', -, h⟩ := exists_of_bind_eq_ok h
    obtain ⟨hashes, hhashes, -⟩ := exists_of_bind_eq_ok h
    exact accepted_of_mediaHashes hhashes

/-- The answer of `create` for a prepared post. -/
def answer (P : NodePrimitives) (env : PostEnv) (body : String) (files : List MediaFile)
    (prepared : Post × List UInt8) : PostService.CreatedPost :=
  let row := PostService.createdRow env.now prepared.1 body files.length
    (ContentStore.keyOf P.blake3 prepared.2)
  ⟨Hex.encode prepared.1.id.hash, ContentStore.keyOf P.blake3 prepared.2, row.createdAt,
    row.expiresAt, row.mediaCount⟩

/-- The store once the blob of a prepared post is put. -/
def withBlob (P : NodePrimitives) (s : NodeStore W) (prepared : Post × List UInt8) : NodeStore W :=
  { s with content := s.content.put P.blake3 prepared.2 }

/-- The store once its row is inserted as well. -/
def withPost (P : NodePrimitives) (s : NodeStore W) (env : PostEnv) (body : String)
    (files : List MediaFile) (prepared : Post × List UInt8) : NodeStore W :=
  { withBlob P s prepared with
    db := { s.db with
      posts := s.db.posts.insertOrIgnore prepared.1.id.toWireBytes
        (PostService.createdRow env.now prepared.1 body files.length
          (ContentStore.keyOf P.blake3 prepared.2)) } }

/-- **What `create` does**: nothing for a post that is refused, the blob for one that is stored
already, and all files after the row of a new one. -/
theorem exec_create (env : PostEnv) (body : String) (files : List MediaFile)
    (ttlSeconds : Option UInt64) (parent : Option String) (s : NodeStore W) :
    exec (PostService.create P env body files ttlSeconds parent) s
      = match PostService.prepare P env body files ttlSeconds parent with
        | .error e => (.error e, s)
        | .ok prepared =>
          if s.db.posts.get? prepared.1.id.toWireBytes = none then
            exec (storeAll P env.now prepared.1.id.toWireBytes 0 files >>= fun _ =>
              pure (answer P env body files prepared))
              (withPost P s env body files prepared)
          else (.error "insert post: UNIQUE constraint failed: posts.content_hash",
            withBlob P s prepared) := by
  unfold PostService.create
  rw [exec_bind, exec_lift]
  cases PostService.prepare P env body files ttlSeconds parent with
  | error e => rfl
  | ok prepared =>
    obtain ⟨post, postBytes⟩ := prepared
    simp only [putBlob, exec_bind, exec_modify, exec_pure]
    unfold PostService.insertPost SqlTable.insert?
    simp only [exec_bind, exec_get]
    by_cases h : s.db.posts.get? post.id.toWireBytes = none
    · simp only [dif_pos h, if_pos h, exec_modify, withPost, withBlob, SqlTable.insertOrIgnore]
      rfl
    · simp only [dif_neg h, if_neg h, exec_throw]
      rfl

end MediaService
