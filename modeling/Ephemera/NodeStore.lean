/-
# The store of a node (`ephemera-store`, and `services/post.rs`, `services/media.rs`,
`services/social.rs`, `gossip_ingest.rs`, `lib.rs` of `ephemera-node`)

The store is the metadata database together with the content store, where blobs lie under
the hash of their bytes, and the reports a node has seen.  Posts come in by `create` and by
the gossip ingest; they are marked as tombstones by `delete`, by the moderation ingest and
by `report`; the garbage collector has its own module.

Each call reads the clock once.  File system errors and the broken locks of other threads
are left out, as is the `reports` table, which nothing reads.  Blobs are not encrypted: the
node opens its content store without a key.
-/
import Ephemera.Feed
import Ephemera.HashMap

/-! ## The content store -/

/-- `ContentStore`: blobs under the hexadecimal text of a hash. -/
structure ContentStore where
  blobs : HashMap String (List UInt8)

namespace ContentStore

/-- A store without blobs. -/
def empty : ContentStore := ⟨∅⟩

/-- The key under which `put` files a blob. -/
def keyOf (blake3 : List UInt8 → List UInt8) (data : List UInt8) : String :=
  Hex.encode (blake3 data)

/-- `ContentStore::exists`. -/
def exists? (store : ContentStore) (hexHash : String) : Bool :=
  (store.blobs.lookup hexHash).isSome

/-- `ContentStore::put`: a blob that is there already is not written again. -/
def put (blake3 : List UInt8 → List UInt8) (store : ContentStore) (data : List UInt8) :
    ContentStore :=
  if store.exists? (keyOf blake3 data) then store
  else ⟨store.blobs.insert (keyOf blake3 data) data⟩

/-- `ContentStore::get`. -/
def get (blake3 : List UInt8 → List UInt8) (store : ContentStore) (hexHash : String) :
    Except String (List UInt8) :=
  match store.blobs.lookup hexHash with
  | none => .error ("not found: blob " ++ hexHash)
  | some data =>
    if keyOf blake3 data = hexHash then .ok data
    else .error ("integrity error: hash mismatch: expected " ++ hexHash ++ ", got "
      ++ keyOf blake3 data)

/-- `ContentStore::delete`: whether there was such a blob, and the store without it. -/
def delete (store : ContentStore) (hexHash : String) : Bool × ContentStore :=
  (store.exists? hexHash, ⟨store.blobs.erase hexHash⟩)

end ContentStore

/-! ## Tables -/

/-- A row of `media_attachments`; the key is the id of the attachment. -/
structure MediaAttachment where
  postHash : List UInt8
  contentHash : String
  mediaType : String
  mimeType : String
  fileSize : Int64
  width : Option Int64
  height : Option Int64
  durationMs : Option Int64
  thumbnailHash : Option String
  chunkCount : Int64
  createdAt : Int64

/-- A row of `media_chunks`; the key is the hash of the chunk. -/
structure StoredChunk where
  mediaId : String
  chunkIndex : Int64
  data : List UInt8

/-- A row of `epoch_keys`; the key is the number of the epoch. -/
structure EpochKeyRow where
  expiresAt : Int64
  isDeleted : Int64
  deletedAt : Option Int64

/-- The database of a node. -/
structure NodeDb (W : Wire) where
  metadata : MetadataDb W
  groups : GroupDb
  posts : SqlTable (List UInt8) PostRow
  mutes : SqlTable (IdentityKey × IdentityKey) MuteRow
  topicPosts : SqlTable (String × List UInt8) Int64
  mediaAttachments : SqlTable String MediaAttachment
  mediaChunks : SqlTable String StoredChunk
  epochKeys : SqlTable Int64 EpochKeyRow

namespace NodeDb

variable {W : Wire}

/-- A database without rows. -/
def empty : NodeDb W := ⟨.empty, .empty, .empty, .empty, .empty, .empty, .empty, .empty⟩

/-- The tables the feeds read. -/
def feeds (db : NodeDb W) : FeedDb where
  posts := db.posts
  connections := db.metadata.connections
  blocks := db.metadata.blocks
  mutes := db.mutes
  topicPosts := db.topicPosts
  groupPosts := db.groups.posts

end NodeDb

/-- `ReportReason`. -/
inductive ReportReason where
  | harassment
  | hateSpeech
  | violence
  | spam
  | csam
  | impersonation
  | other (text : String)
  deriving DecidableEq, Repr

/-- The reason named by the caller. -/
def ReportReason.fromStr (reason : String) : ReportReason :=
  if reason = "harassment" then .harassment
  else if reason = "hate_speech" then .hateSpeech
  else if reason = "violence" then .violence
  else if reason = "spam" then .spam
  else if reason = "csam" then .csam
  else if reason = "impersonation" then .impersonation
  else .other reason

/-- `Report`. -/
structure Report where
  reporter : IdentityKey
  contentId : ContentId
  reason : ReportReason
  deriving DecidableEq

/-- The store of a node. -/
structure NodeStore (W : Wire) where
  db : NodeDb W
  content : ContentStore
  reports : List Report

namespace NodeStore

/-- The store of a new node. -/
def empty {W : Wire} : NodeStore W := ⟨.empty, .empty, []⟩

end NodeStore

/-! ## Media -/

/-- `ProcessedMedia`. -/
structure ProcessedMedia where
  standard : List UInt8
  standardWidth : UInt32
  standardHeight : UInt32
  thumbnail : List UInt8
  contentHash : ContentId

/-- `ProcessedVideo`. -/
structure ProcessedVideo where
  videoData : List UInt8
  thumbnail : ProcessedMedia
  contentHash : ContentId
  durationMs : UInt64
  width : UInt32
  height : UInt32
  fileSize : ℕ

/-- `ProcessedContent`. -/
inductive ProcessedContent where
  | image (img : ProcessedMedia)
  | video (vid : ProcessedVideo)

/-- The content hash of either. -/
def ProcessedContent.contentHash : ProcessedContent → ContentId
  | .image img => img.contentHash
  | .video vid => vid.contentHash

/-- `MediaFile`. -/
structure MediaFile where
  data : List UInt8
  filename : String

/-- `Chunk`. -/
structure Chunk where
  index : UInt32
  hash : ContentId
  data : List UInt8

/-- What the services call in other crates: `serde_json`, `blake3`, Ed25519 signatures and
the media pipeline. -/
structure NodePrimitives where
  toVec : CanonicalFields → Except String (List UInt8)
  blake3 : List UInt8 → List UInt8
  verifySignature : List UInt8 → List UInt8 → List UInt8 → Bool
  /-- Sign with the key of an identity of this node. -/
  sign : IdentityKey → List UInt8 → List UInt8
  /-- `serde_json` on `Post`. -/
  postToVec : Post → Except String (List UInt8)
  postFromSlice : List UInt8 → Except String Post
  /-- `serde_json::to_vec` of a `json!` object, and `serde_json::from_slice::<Value>`. -/
  jsonToVec : Json → List UInt8
  jsonFromSlice : List UInt8 → Option Json
  /-- `MediaPipeline::process_auto`. -/
  processAuto : List UInt8 → Except String ProcessedContent

/-- The primitives of the ingest: blobs go to the content store under `keyOf`. -/
def NodePrimitives.post (P : NodePrimitives) : PostPrimitives where
  toVec := P.toVec
  blake3 := P.blake3
  verifySignature := P.verifySignature
  put data := .ok (ContentStore.keyOf P.blake3 data)

/-- `DEFAULT_CHUNK_SIZE`. -/
def defaultChunkSize : ℕ := 256 * 1024

/-- `ContentChunker::chunk`. -/
def ContentChunker.chunk (blake3 : List UInt8 → List UInt8) (data : List UInt8) : List Chunk :=
  (data.toChunks defaultChunkSize).zipIdx.map
    (fun c => ⟨UInt32.ofNat c.2, .fromDigest (blake3 c.1), c.1⟩)

/-! ## Calls -/

/-- What a call finds around it: the active identity (or why there is none), the clock, and
the verdict of the checks against abuse (rate limit, reputation, spam and content filter),
which keep a state of their own and never touch the store. -/
structure PostEnv where
  identity : Except String IdentityKey
  now : ClockReading
  abuse : Except String Unit

/-- The calls of the node on its store. -/
abbrev PostM (W : Wire) := StateExcept String (NodeStore W)

/-- The key in `posts` of a hash given as 64 hexadecimal digits. -/
def postKey (hashHex : String) : Except String (List UInt8) := do
  let bytes ← (Hex.decode hashHex).mapError (fun e => "bad hash: " ++ e)
  if bytes.length = 32 then return (ContentId.fromDigest bytes).toWireBytes
  else throw "content hash must be 32 bytes hex"

theorem postKey_of_decode {hashHex : String} {bytes : List UInt8}
    (hdec : Hex.decode hashHex = .ok bytes) (hlen : bytes.length = 32) :
    postKey hashHex = .ok (ContentId.fromDigest bytes).toWireBytes := by
  simp [postKey, hdec, Except.mapError, bind, Except.bind, hlen, pure, Except.pure]

/-- The row of a post that is marked as a tombstone. -/
def PostRow.tombstoned (now : Int64) (row : PostRow) : PostRow :=
  { row with isTombstone := 1, tombstoneAt := some now }

namespace MediaService

variable {W : Wire} (P : NodePrimitives)

/-- `mime_from_filename`. -/
def mimeFromFilename (filename : String) : String :=
  let lower := filename.toList.map Char.toLower
  if ".png".toList.isSuffixOf lower then "image/png"
  else if ".jpg".toList.isSuffixOf lower || ".jpeg".toList.isSuffixOf lower then "image/jpeg"
  else if ".webp".toList.isSuffixOf lower then "image/webp"
  else if ".mp4".toList.isSuffixOf lower then "video/mp4"
  else "application/octet-stream"

/-- `ContentStore::put`, which answers the key of the blob. -/
def putBlob (data : List UInt8) : PostM W String := do
  modify fun s => { s with content := s.content.put P.blake3 data }
  return ContentStore.keyOf P.blake3 data

/-- `insert_media_attachment`. -/
def insertMediaAttachment (id : String) (attachment : MediaAttachment) : PostM W Unit := do
  match (← get).db.mediaAttachments.insert? id attachment with
  | none =>
    throw "store attachment: SQLite error: UNIQUE constraint failed: media_attachments.id"
  | some table => modify fun s => { s with db := { s.db with mediaAttachments := table } }

/-- `insert_media_chunk`. -/
def insertMediaChunk (chunkHash : String) (chunk : StoredChunk) : PostM W Unit := do
  match (← get).db.mediaChunks.insert? chunkHash chunk with
  | none =>
    throw "store chunk: SQLite error: UNIQUE constraint failed: media_chunks.chunk_hash"
  | some table => modify fun s => { s with db := { s.db with mediaChunks := table } }

/-- The loop over the chunks of one file. -/
def insertChunks (mediaId : String) : List Chunk → PostM W Unit
  | [] => pure ()
  | chunk :: chunks => do
    insertMediaChunk (Hex.encode chunk.hash.hash)
      ⟨mediaId, chunk.index.toUInt64.toInt64, chunk.data⟩
    insertChunks mediaId chunks

/-- `StoredMediaResult`. -/
structure StoredMediaResult where
  mediaId : String
  contentHash : String
  mediaType : String

/-- What the storing of an image and of a video have in common: the thumbnail goes to the
content store, the bytes are cut into chunks, and the attachment is inserted before them.
The row is given up to the hash of the thumbnail and the number of chunks. -/
def storeProcessed (contentHash : ContentId) (index : ℕ) (thumbnail data : List UInt8)
    (attachment : MediaAttachment) : PostM W StoredMediaResult := do
  let mediaId := Hex.encode contentHash.hash ++ "-" ++ toString index
  let thumbHash ← putBlob P thumbnail
  let chunks := ContentChunker.chunk P.blake3 data
  insertMediaAttachment mediaId { attachment with
    thumbnailHash := some thumbHash
    chunkCount := (UInt64.ofNat chunks.length).toInt64 }
  insertChunks mediaId chunks
  return ⟨mediaId, Hex.encode contentHash.hash, attachment.mediaType⟩

/-- `store_image`. -/
def storeImage (now : ClockReading) (img : ProcessedMedia) (file : MediaFile)
    (postHashWire : List UInt8) (index : ℕ) : PostM W StoredMediaResult :=
  storeProcessed P img.contentHash index img.thumbnail img.standard {
    postHash := postHashWire
    contentHash := Hex.encode img.contentHash.hash
    mediaType := "image"
    mimeType := mimeFromFilename file.filename
    fileSize := (UInt64.ofNat img.standard.length).toInt64
    width := some img.standardWidth.toUInt64.toInt64
    height := some img.standardHeight.toUInt64.toInt64
    durationMs := none
    thumbnailHash := none
    chunkCount := 0
    createdAt := now.secs.toInt64 }

/-- `store_video`. -/
def storeVideo (now : ClockReading) (vid : ProcessedVideo) (postHashWire : List UInt8)
    (index : ℕ) : PostM W StoredMediaResult :=
  storeProcessed P vid.contentHash index vid.thumbnail.thumbnail vid.videoData {
    postHash := postHashWire
    contentHash := Hex.encode vid.contentHash.hash
    mediaType := "video"
    mimeType := "video/mp4"
    fileSize := (UInt64.ofNat vid.fileSize).toInt64
    width := some vid.width.toUInt64.toInt64
    height := some vid.height.toUInt64.toInt64
    durationMs := some vid.durationMs.toInt64
    thumbnailHash := none
    chunkCount := 0
    createdAt := now.secs.toInt64 }

/-- `process_and_store`. -/
def processAndStore (now : ClockReading) (file : MediaFile) (postHashWire : List UInt8)
    (index : ℕ) : PostM W StoredMediaResult := do
  let processed ← ((P.processAuto file.data).mapError
    (fun e => "media processing failed: " ++ e) : Except String ProcessedContent)
  match processed with
  | .image img => storeImage P now img file postHashWire index
  | .video vid => storeVideo P now vid postHashWire index

/-- The loop of `create` over the media files, from position `index` on. -/
def storeAll (now : ClockReading) (postHashWire : List UInt8) :
    ℕ → List MediaFile → PostM W Unit
  | _, [] => pure ()
  | index, file :: files => do
    let _ ← processAndStore P now file postHashWire index
    storeAll now postHashWire (index + 1) files

end MediaService

/-! ## Posts -/

/-- `Ttl::from_secs`. -/
def Ttl.fromSecs (secs : UInt64) : Except String Ttl :=
  if minTtlSecs ≤ secs ∧ secs ≤ maxTtlSecs then .ok ⟨secs⟩
  else .error ("invalid TTL: " ++ toString secs ++ "s (must be " ++ toString minTtlSecs
    ++ "s..=" ++ toString maxTtlSecs ++ "s)")

/-- The text of a `PostError`. -/
def PostError.text : PostError → String
  | .build text => "build error: " ++ text
  | .validation text => "validation error: " ++ text

namespace PostService

open MediaService

variable {W : Wire} (P : NodePrimitives)

/-- The TTL of a post that names none. -/
def defaultTtlSecs : UInt64 := 86400

/-- The difficulty of the proof of work. -/
def powDifficulty : Int64 := 8

/-- The hash of the parent of a reply. -/
def parentId (parentHex : String) : Except String ContentId := do
  let bytes ← (Hex.decode parentHex).mapError (fun e => "bad parent hash: " ++ e)
  if bytes.length = 32 then return .fromDigest bytes
  else throw "parent hash must be 32 bytes"

/-- The loop of `create` that hashes the media files for the signature. -/
def mediaHashes : List MediaFile → Except String (List ContentId)
  | [] => .ok []
  | file :: files => do
    let processed ← (P.processAuto file.data).mapError (fun e => "media processing failed: " ++ e)
    let hashes ← mediaHashes files
    return processed.contentHash :: hashes

/-- `PostBuilder::build` of a body with attachments, a TTL and a parent, which is taken to be
the root of the thread as well. -/
def build (author : IdentityKey) (now : ClockReading) (body : String)
    (attachments : List ContentId) (ttl : Ttl) (parent : Option ContentId) :
    Except PostError Post := do
  let post : Post := {
    id := ⟨0, []⟩
    author := author
    content := if attachments.isEmpty then .text body else .combined body attachments
    createdAt := now.secs
    ttl := ttl
    signature := []
    powProof := []
    parent := parent
    root := parent
    depth := if parent.isSome then 1 else 0 }
  let canonical ← PostIngest.canonicalBytes P.post post
  return { post with
    id := .fromDigest (P.blake3 canonical)
    signature := P.sign author canonical }

/-- What `create` answers. -/
structure CreatedPost where
  contentHash : String
  blobHash : String
  createdAt : Int64
  expiresAt : Int64
  mediaCount : Int64

/-- The row `create` inserts. -/
def createdRow (now : ClockReading) (post : Post) (body : String) (mediaCount : ℕ)
    (blobHash : String) : PostRow where
  authorPubkey := post.author
  sequenceNumber := 0
  createdAt := now.secs.toInt64
  expiresAt := now.secs.toInt64 + post.ttl.secs.toInt64
  ttlSeconds := post.ttl.secs.toInt64
  parentHash := post.parent.map ContentId.toWireBytes
  rootHash := post.root.map ContentId.toWireBytes
  depth := post.depth.toUInt64.toInt64
  bodyPreview := some (String.ofList (body.toList.take PostIngest.previewChars))
  mediaCount := (UInt64.ofNat mediaCount).toInt64
  hasMedia := if mediaCount = 0 then 0 else 1
  powDifficulty := powDifficulty
  receivedAt := now.secs.toInt64
  epochNumber := 1
  signature := post.signature
  blobHash := blobHash

/-- `INSERT INTO posts`. -/
def insertPost (key : List UInt8) (row : PostRow) : PostM W Unit := do
  match (← get).db.posts.insert? key row with
  | none => throw "insert post: UNIQUE constraint failed: posts.content_hash"
  | some table => modify fun s => { s with db := { s.db with posts := table } }

/-- `create`, up to the first write: the checks, and the signed post. -/
def prepare (env : PostEnv) (body : String) (mediaFiles : List MediaFile)
    (ttlSeconds : Option UInt64) (parent : Option String) :
    Except String (Post × List UInt8) := do
  let author ← env.identity
  env.abuse
  let ttl ← (Ttl.fromSecs (ttlSeconds.getD defaultTtlSecs)).mapError
    (fun e => "invalid TTL: " ++ e)
  let parent ← match parent with
    | none => pure none
    | some hex => (parentId hex).map some
  let hashes ← mediaHashes P mediaFiles
  let post ← (build P author env.now body hashes ttl parent).mapError
    (fun e => "build post: " ++ e.text)
  let postBytes ← (P.postToVec post).mapError (fun e => "serialize: " ++ e)
  return (post, postBytes)

/-- `PostService::create`.  An error leaves what was written before it. -/
def create (env : PostEnv) (body : String) (mediaFiles : List MediaFile)
    (ttlSeconds : Option UInt64) (parent : Option String) : PostM W CreatedPost := do
  let (post, postBytes) ← prepare P env body mediaFiles ttlSeconds parent
  let blobHash ← putBlob P postBytes
  let row := createdRow env.now post body mediaFiles.length blobHash
  insertPost post.id.toWireBytes row
  storeAll P env.now post.id.toWireBytes 0 mediaFiles
  return ⟨Hex.encode post.id.hash, blobHash, row.createdAt, row.expiresAt, row.mediaCount⟩

/-- What `get` answers. -/
structure PostView where
  contentHash : String
  author : String
  bodyPreview : Option String
  createdAt : Int64
  expiresAt : Int64
  mediaCount : Int64

/-- `PostService::get`. -/
def get (db : NodeDb W) (hashHex : String) : Except String PostView := do
  let key ← postKey hashHex
  match db.posts.get? key with
  | some row =>
    if row.isTombstone = 0 then
      return ⟨hashHex, Hex.encode row.authorPubkey, row.bodyPreview, row.createdAt,
        row.expiresAt, row.mediaCount⟩
    else throw "post not found: Query returned no rows"
  | none => throw "post not found: Query returned no rows"

/-- `PostService::delete`: the row is marked whoever its author is. -/
def delete (now : ClockReading) (hashHex : String) : PostM W Unit := do
  let key ← postKey hashHex
  if (← MonadState.get).db.posts.existsWhere (fun k _ => decide (k = key)) then
    modify fun s => { s with db := { s.db with
      posts := s.db.posts.updateWhere (fun k _ => decide (k = key))
        (PostRow.tombstoned now.secs.toInt64) } }
  else throw ("post not found: " ++ hashHex)

/-- The tombstone message of `delete_and_propagate`. -/
def tombstoneMessage (author : IdentityKey) (now : ClockReading) (hashHex : String) : Json :=
  [("type", .str "tombstone"), ("content_hash", .str hashHex),
    ("author", .str (Hex.encode author)), ("tombstoned_at", .uint now.secs)]

/-- `PostService::delete_and_propagate`: with a network, the answer comes with the payload
published on the moderation topic. -/
def deleteAndPropagate (env : PostEnv) (network : Bool) (hashHex : String) :
    PostM W (Option (List UInt8)) := do
  delete env.now hashHex
  if network then
    let author ← env.identity
    return some (P.jsonToVec (tombstoneMessage author env.now hashHex))
  else return none

end PostService

/-! ## Ingest -/

namespace NodeStore

variable {W : Wire} (P : NodePrimitives)

/-- One payload of the gossip ingest; a payload that fails a check leaves no trace. -/
def gossipIngest (now : ClockReading) (abuse : Except String Unit) (payload : List UInt8)
    (s : NodeStore W) : NodeStore W :=
  match (do
    let post ← P.postFromSlice payload
    (PostIngest.validatePost P.post now post).mapError PostError.text
    abuse
    PostIngest.storeReceivedPost P.post now post payload s.db.posts) with
  | .ok posts => { s with
      db := { s.db with posts := posts }
      content := s.content.put P.blake3 payload }
  | .error _ => s

/-- The key of the post that a payload of the moderation topic names. -/
def tombstoneTarget (payload : List UInt8) : Option (List UInt8) := do
  let tombstone ← P.jsonFromSlice payload
  if tombstone.getStr "type" = some "tombstone" then
    let contentHash ← tombstone.getStr "content_hash"
    (postKey contentHash).toOption
  else none

/-- The row of a post that is not a tombstone. -/
def livePost (s : NodeStore W) (key : List UInt8) : Option PostRow :=
  (s.db.posts.get? key).filter (fun row => decide (row.isTombstone = 0))

/-- One payload of `moderation_ingest_loop`; it reads neither the author in the message nor
the author of the post. -/
def moderationIngest (now : ClockReading) (payload : List UInt8) (s : NodeStore W) :
    NodeStore W :=
  match tombstoneTarget P payload with
  | none => s
  | some key => { s with
      content := match s.livePost key with
        | some row => (s.content.delete row.blobHash).2
        | none => s.content
      db := { s.db with
        posts := s.db.posts.updateWhere
          (fun k row => decide (k = key) && decide (row.isTombstone = 0))
          (PostRow.tombstoned now.secs.toInt64) } }

end NodeStore

/-! ## Reports -/

namespace ModerationService

variable {W : Wire}

/-- `MAX_REPORTS_PER_REPORTER_PER_DAY`. -/
def maxReportsPerReporterPerDay : ℕ := 20

/-- `TOMBSTONE_THRESHOLD`. -/
def tombstoneThreshold : ℕ := 5

/-- `ReportService::reporter_count`: how many distinct identities reported the content. -/
def reporterCount (reports : List Report) (contentId : ContentId) : ℕ :=
  ((reports.filter (fun r => decide (r.contentId = contentId))).map Report.reporter).dedup.length

/-- `ReportService::create_report`, without a description. -/
def createReport (reporter : IdentityKey) (contentId : ContentId) (reason : ReportReason) :
    PostM W Unit := do
  if (← get).reports.any
      (fun r => decide (r.reporter = reporter) && decide (r.contentId = contentId))
  then throw ("duplicate report for content " ++ Hex.encode contentId.hash)
  else modify fun s => { s with reports := s.reports ++ [⟨reporter, contentId, reason⟩] }

/-- What `report` answers. -/
inductive ReportAnswer where
  | queuedForReview
  | reported
  | tombstoned (reportCount : ℕ)
  deriving DecidableEq

/-- `ModerationService::report`.  The error of the deletion is dropped. -/
def report (env : PostEnv) (hash reason : String) : PostM W ReportAnswer := do
  let loc ← env.identity
  let bytes ← ((Hex.decode hash).mapError (fun e => "bad hash: " ++ e) :
    Except String (List UInt8))
  if bytes.length ≠ 32 then throw "content hash must be 32 bytes hex"
  else
    let contentId := ContentId.fromDigest bytes
    let filed := (← get).reports.countP (fun r => decide (r.reporter = loc))
    if maxReportsPerReporterPerDay ≤ filed then return .queuedForReview
    else
      StateExcept.mapErr (fun e => "create report: " ++ e)
        (createReport loc contentId (ReportReason.fromStr reason))
      let reportCount := reporterCount (← get).reports contentId
      if tombstoneThreshold ≤ reportCount then
        modify fun s => (StateExcept.exec (PostService.delete env.now hash) s).2
        return .tombstoned reportCount
      else return .reported

/-- `ModerationService::seed_report`. -/
def seedReport (reporter : IdentityKey) (contentId : ContentId) (reason : ReportReason) :
    PostM W Unit :=
  StateExcept.mapErr (fun e => "seed report: " ++ e) (createReport reporter contentId reason)

end ModerationService
