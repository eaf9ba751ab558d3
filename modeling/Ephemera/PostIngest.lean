/-
# Posts received over gossip (`ephemera-post`, `ephemera-node/src/gossip_ingest.rs`)

A post from the network is deserialised, checked by `validate_post` and written to the
`posts` table by `store_received_post`.  Deserialisation is derived, so it fills every
field with what the sender chose; in particular it makes a `Ttl` of any `u64`, and it
takes the identifier from the wire.

`validate_post` looks at neither the identifier nor the TTL bounds.  For an accepted and
stored post, being content-addressed and bounded is therefore exactly a matter of the
two fields the sender filled in (`ingestSound_iff_honest`); a signed post with a foreign
identifier and the largest possible TTL is stored (`foreign_id_stored`).

Serialisation, hashing, signatures and the blob store are other crates; they are
collected in `PostPrimitives`.
-/
import Ephemera.SqlTable
import Mathlib.Algebra.Group.Nat.Defs
import Mathlib.Data.Set.Function

/-! ## Data -/

/-- `ContentId`: a version byte and a BLAKE3 digest. -/
structure ContentId where
  version : UInt8
  hash : List UInt8
  deriving DecidableEq, Repr

namespace ContentId

/-- `CONTENT_HASH_VERSION`. -/
def contentHashVersion : UInt8 := 0x01

/-- `ContentId::from_digest`. -/
def fromDigest (digest : List UInt8) : ContentId := ⟨contentHashVersion, digest⟩

/-- `ContentId::to_wire_bytes`. -/
def toWireBytes (id : ContentId) : List UInt8 := id.version :: id.hash

end ContentId

/-- `MIN_TTL_SECS`. -/
def minTtlSecs : UInt64 := 3600

/-- `MAX_TTL_SECS`. -/
def maxTtlSecs : UInt64 := 30 * 24 * 3600

/-- `CLOCK_SKEW_TOLERANCE`. -/
def clockSkewTolerance : UInt64 := 300

/-- `Ttl`, as its derived `Deserialize` builds it: a `u64` without a bound. -/
structure Ttl where
  secs : UInt64
  deriving DecidableEq, Repr

/-- `PostContent`. -/
inductive PostContent where
  | text (body : String)
  | photo (blobId : ContentId) (caption : Option String)
  | combined (text : String) (attachments : List ContentId)
  deriving DecidableEq, Repr

namespace PostContent

/-- `PostContent::text_body`. -/
def textBody : PostContent → Option String
  | .text body => some body
  | .photo _ caption => caption
  | .combined body _ => some body

/-- `PostContent::attachment_count`. -/
def attachmentCount : PostContent → ℕ
  | .text _ => 0
  | .photo _ _ => 1
  | .combined _ attachments => attachments.length

end PostContent

/-- `Post`. -/
structure Post where
  id : ContentId
  author : List UInt8
  content : PostContent
  createdAt : UInt64
  ttl : Ttl
  signature : List UInt8
  powProof : List UInt8
  parent : Option ContentId
  root : Option ContentId
  depth : UInt32

/-- The tuple that `canonical_bytes` serialises. -/
structure CanonicalFields where
  content : PostContent
  author : List UInt8
  createdAt : UInt64
  ttlSecs : UInt64
  parent : Option ContentId
  root : Option ContentId
  depth : UInt32

/-- `PostError`. -/
inductive PostError where
  | build (text : String)
  | validation (text : String)
  deriving DecidableEq, Repr

/-- What the ingest calls in other crates: `serde_json::to_vec`, `blake3::hash`, the
Ed25519 verification and `ContentStore::put`. -/
structure PostPrimitives where
  toVec : CanonicalFields → Except String (List UInt8)
  blake3 : List UInt8 → List UInt8
  verifySignature : List UInt8 → List UInt8 → List UInt8 → Bool
  put : List UInt8 → Except String String

/-- A reading of the system clock.  The operating system counts the seconds since the
epoch in a signed 64-bit number. -/
structure ClockReading where
  secs : UInt64
  secs_lt : secs.toNat < 2 ^ 63

/-- A row of `posts`, without its primary key `content_hash`; `is_tombstone` and
`tombstone_at` have defaults, which the insertions leave. -/
structure PostRow where
  authorPubkey : List UInt8
  sequenceNumber : Int64
  createdAt : Int64
  expiresAt : Int64
  ttlSeconds : Int64
  parentHash : Option (List UInt8)
  rootHash : Option (List UInt8)
  depth : Int64
  bodyPreview : Option String
  mediaCount : Int64
  hasMedia : Int64
  powDifficulty : Int64
  isTombstone : Int64 := 0
  tombstoneAt : Option Int64 := none
  receivedAt : Int64
  epochNumber : Int64
  signature : List UInt8
  blobHash : String

/-! ## Validation -/

namespace PostIngest

/-- `MAX_TEXT_GRAPHEMES`. -/
def maxTextGraphemes : ℕ := 2000

/-- `MAX_TEXT_BYTES`. -/
def maxTextBytes : ℕ := 16384

/-- `MAX_ATTACHMENTS`. -/
def maxAttachments : ℕ := 4

/-- `MAX_THREAD_DEPTH`. -/
def maxThreadDepth : UInt32 := 50

variable (P : PostPrimitives)

/-- `canonical_bytes` of the fields of a post. -/
def canonicalBytes (post : Post) : Except PostError (List UInt8) :=
  (P.toVec {
    content := post.content
    author := post.author
    createdAt := post.createdAt
    ttlSecs := post.ttl.secs
    parent := post.parent
    root := post.root
    depth := post.depth }).mapError (fun e => .build ("serialization failed: " ++ e))

/-- `validate_signature`. -/
def validateSignature (post : Post) : Except PostError Unit := do
  let canonical ← canonicalBytes P post
  if P.verifySignature post.author canonical post.signature then return ()
  else throw (.validation "invalid signature")

/-- `validate_not_expired`; the two sums are `u64` sums. -/
def validateNotExpired (now : ClockReading) (post : Post) : Except PostError Unit :=
  let expiresAt := post.createdAt + post.ttl.secs
  if expiresAt + clockSkewTolerance < now.secs then
    throw (.validation ("post expired at " ++ toString expiresAt ++ ", now is "
      ++ toString now.secs))
  else return ()

/-- `validate_not_future`. -/
def validateNotFuture (now : ClockReading) (post : Post) : Except PostError Unit :=
  if now.secs + clockSkewTolerance < post.createdAt then
    throw (.validation "post timestamp is in the future")
  else return ()

/-- `validate_text_length`. -/
def validateTextLength (post : Post) : Except PostError Unit :=
  match post.content.textBody with
  | none => return ()
  | some body =>
    if maxTextBytes < body.utf8ByteSize then
      throw (.validation ("text body is " ++ toString body.utf8ByteSize ++ " bytes, max is "
        ++ toString maxTextBytes))
    else if maxTextGraphemes < body.length then
      throw (.validation ("text body is " ++ toString body.length ++ " characters, max is "
        ++ toString maxTextGraphemes))
    else return ()

/-- `validate_attachment_count`. -/
def validateAttachmentCount (post : Post) : Except PostError Unit :=
  if maxAttachments < post.content.attachmentCount then
    throw (.validation ("post has " ++ toString post.content.attachmentCount
      ++ " attachments, max is " ++ toString maxAttachments))
  else return ()

/-- `validate_thread_depth`. -/
def validateThreadDepth (post : Post) : Except PostError Unit :=
  if maxThreadDepth < post.depth then
    throw (.validation ("thread depth " ++ toString post.depth ++ " exceeds maximum "
      ++ toString maxThreadDepth))
  else return ()

/-- `validate_post`. -/
def validatePost (now : ClockReading) (post : Post) : Except PostError Unit := do
  validateSignature P post
  validateNotExpired now post
  validateNotFuture now post
  validateTextLength post
  validateAttachmentCount post
  validateThreadDepth post

/-! ## Storage -/

/-- The number of characters of a body that the `posts` table keeps. -/
def previewChars : ℕ := 280

/-- The row `store_received_post` writes for a post. -/
def rowOf (now : ClockReading) (post : Post) (blobHash : String) : PostRow :=
  let ttlSecs := post.ttl.secs.toInt64
  let mediaCount := (UInt64.ofNat post.content.attachmentCount).toInt64
  { authorPubkey := post.author
    sequenceNumber := 0
    createdAt := post.createdAt.toInt64
    expiresAt := post.createdAt.toInt64 + ttlSecs
    ttlSeconds := ttlSecs
    parentHash := post.parent.map ContentId.toWireBytes
    rootHash := post.root.map ContentId.toWireBytes
    depth := post.depth.toUInt64.toInt64
    bodyPreview := post.content.textBody.map (fun b => String.ofList (b.toList.take previewChars))
    mediaCount := mediaCount
    hasMedia := if 0 < mediaCount then 1 else 0
    powDifficulty := (UInt64.ofNat post.powProof.length).toInt64
    receivedAt := now.secs.toInt64
    epochNumber := 1
    signature := post.signature
    blobHash := blobHash }

/-- `store_received_post`: the payload goes to the blob store, the row to `posts` with
`INSERT OR IGNORE`. -/
def storeReceivedPost (now : ClockReading) (post : Post) (postBytes : List UInt8)
    (posts : SqlTable (List UInt8) PostRow) : Except String (SqlTable (List UInt8) PostRow) := do
  let blobHash ← (P.put postBytes).mapError (fun e => "content store put: " ++ e)
  return posts.insertOrIgnore post.id.toWireBytes (rowOf now post blobHash)

/-! ## What is asked of an accepted post -/

/-- The identifier of the post is the content id of its canonical bytes. -/
def ContentAddressed (post : Post) : Prop :=
  ∃ canonical, canonicalBytes P post = .ok canonical ∧
    post.id = ContentId.fromDigest (P.blake3 canonical)

/-- The TTL is within the protocol bounds. -/
def TtlInBounds (post : Post) : Prop := minTtlSecs ≤ post.ttl.secs ∧ post.ttl.secs ≤ maxTtlSecs

/-- None of the `u64` sums of the validation overflows. -/
def NoOverflow (now : ClockReading) (post : Post) : Prop :=
  post.createdAt.toNat + post.ttl.secs.toNat < 2 ^ 64 ∧
    (post.createdAt + post.ttl.secs).toNat + clockSkewTolerance.toNat < 2 ^ 64 ∧
    now.secs.toNat + clockSkewTolerance.toNat < 2 ^ 64

/-- **Soundness of the ingest** for a post stored as `row`: the row is content-addressed
and its lifetime is bounded. -/
structure IngestSound (now : ClockReading) (post : Post) (row : PostRow) : Prop where
  contentAddressed : ContentAddressed P post
  ttlInBounds : TtlInBounds post
  expiresAt_le : row.expiresAt.toInt ≤
    now.secs.toNat + clockSkewTolerance.toNat + maxTtlSecs.toNat
  noOverflow : NoOverflow now post

/-! ## What the checks establish -/

variable {P}

/-- `validate_not_future` bounds the creation time. -/
theorem createdAt_le_of_validateNotFuture {now : ClockReading} {post : Post}
    (h : validateNotFuture now post = .ok ()) :
    post.createdAt.toNat ≤ now.secs.toNat + clockSkewTolerance.toNat := by
  unfold validateNotFuture at h
  split at h
  · cases h
  · rename_i hle
    have hnow := now.secs_lt
    have hskew : clockSkewTolerance.toNat = 300 := rfl
    rw [UInt64.lt_iff_toNat_lt, UInt64.toNat_add, Nat.mod_eq_of_lt (by omega)] at hle
    omega

/-- An accepted post has passed `validate_not_future`. -/
theorem validateNotFuture_of_validatePost {now : ClockReading} {post : Post}
    (h : validatePost P now post = .ok ()) : validateNotFuture now post = .ok () := by
  unfold validatePost at h
  cases hsig : validateSignature P post with
  | error e => simp [hsig, bind, Except.bind] at h
  | ok _ =>
    cases hexp : validateNotExpired now post with
    | error e => simp [hsig, hexp, bind, Except.bind] at h
    | ok _ =>
      cases hfut : validateNotFuture now post with
      | error e => simp [hsig, hexp, hfut, bind, Except.bind] at h
      | ok _ => rfl

/-- A post that is stored under a new identifier gets the row computed from it. -/
theorem get?_storeReceivedPost {now : ClockReading} {post : Post} {postBytes : List UInt8}
    {posts posts' : SqlTable (List UInt8) PostRow}
    (h : storeReceivedPost P now post postBytes posts = .ok posts')
    (hnew : posts.get? post.id.toWireBytes = none) :
    ∃ blobHash, posts'.get? post.id.toWireBytes = some (rowOf now post blobHash) := by
  unfold storeReceivedPost at h
  cases hput : P.put postBytes with
  | error e => simp [hput, Except.mapError, bind, Except.bind] at h
  | ok blobHash =>
    simp only [hput, Except.mapError, bind, Except.bind, pure, Except.pure, Except.ok.injEq] at h
    refine ⟨blobHash, ?_⟩
    rw [← h, SqlTable.get?_insertOrIgnore, if_pos rfl, hnew, Option.getD_none]

/-- A `u64` read as an `i64` does not grow. -/
theorem toInt_toInt64_le (x : UInt64) : x.toInt64.toInt ≤ x.toNat := by
  have hcast : x.toInt64.toInt = x.toBitVec.toInt := rfl
  have hnat : x.toBitVec.toNat = x.toNat := rfl
  rw [hcast, BitVec.toInt_eq_toNat_cond, hnat]
  split
  · omega
  · omega

/-- The stored expiry is at most the sum of creation time and TTL, also where the sum
does not fit an `i64`. -/
theorem expiresAt_rowOf_le (now : ClockReading) (post : Post) (blobHash : String) :
    (rowOf now post blobHash).expiresAt.toInt ≤ post.createdAt.toNat + post.ttl.secs.toNat := by
  -- the source adds two `i64` values, which is the wrapped sum of the two `u64` values
  have hsum : (rowOf now post blobHash).expiresAt = (post.createdAt + post.ttl.secs).toInt64 :=
    (UInt64.toInt64_add _ _).symm
  have hle := toInt_toInt64_le (post.createdAt + post.ttl.secs)
  rw [UInt64.toNat_add] at hle
  rw [hsum]
  omega

/-- For a post that is not from the future, a bounded TTL bounds everything else. -/
theorem bounded_of_ttlInBounds {now : ClockReading} {post : Post} (blobHash : String)
    (hfut : validateNotFuture now post = .ok ()) (httl : TtlInBounds post) :
    (rowOf now post blobHash).expiresAt.toInt ≤
        now.secs.toNat + clockSkewTolerance.toNat + maxTtlSecs.toNat ∧
      NoOverflow now post := by
  have hcreated := createdAt_le_of_validateNotFuture hfut
  have hmax : post.ttl.secs.toNat ≤ maxTtlSecs.toNat := UInt64.le_iff_toNat_le.mp httl.2
  have hrow := expiresAt_rowOf_le now post blobHash
  have hnow := now.secs_lt
  -- with the constants as numbers every bound is linear
  have hskew : clockSkewTolerance.toNat = 300 := rfl
  have hmaxTtl : maxTtlSecs.toNat = 2592000 := rfl
  refine ⟨by omega, by omega, ?_, by omega⟩
  rw [UInt64.toNat_add]
  omega

/-- Two posts with the same identifier on the wire have the same identifier. -/
theorem toWireBytes_injective : Function.Injective ContentId.toWireBytes := by
  rintro ⟨v, h⟩ ⟨v', h'⟩ heq
  simp only [ContentId.toWireBytes, List.cons.injEq] at heq
  rw [heq.1, heq.2]

/-- What is hashed for the content ids of two posts. -/
def hashedFor (P : PostPrimitives) (post post' : Post) : Set (List UInt8) :=
  {bytes | canonicalBytes P post = .ok bytes ∨ canonicalBytes P post' = .ok bytes}

/-- Content-addressed posts that meet in one row of `posts` have the same canonical
bytes, when these do not collide. -/
theorem canonicalBytes_eq_of_same_row {post post' : Post}
    (hhash : Set.InjOn P.blake3 (hashedFor P post post')) (h : ContentAddressed P post)
    (h' : ContentAddressed P post')
    (hrow : post.id.toWireBytes = post'.id.toWireBytes) :
    canonicalBytes P post = canonicalBytes P post' := by
  obtain ⟨c, hc, hid⟩ := h
  obtain ⟨c', hc', hid'⟩ := h'
  have heq : post.id = post'.id := toWireBytes_injective hrow
  rw [hid, hid', ContentId.fromDigest, ContentId.fromDigest, ContentId.mk.injEq] at heq
  rw [hc, hc', hhash (Or.inl hc) (Or.inr hc') heq.2]

/-- **Soundness of the ingest, exactly.**  For every post that `validate_post` accepts and
`store_received_post` stores, the row is sound if and only if the sender filled in the
content id of the post and a TTL within the bounds; and accepted posts that are so filled
in, and whose canonical bytes do not collide, compete for one row only with the same ones. -/
theorem ingestSound_iff_honest :
    (∀ now post postBytes posts posts', validatePost P now post = .ok () →
      storeReceivedPost P now post postBytes posts = .ok posts' →
      posts.get? post.id.toWireBytes = none →
      ((∃ row, posts'.get? post.id.toWireBytes = some row ∧ IngestSound P now post row) ↔
        ContentAddressed P post ∧ TtlInBounds post)) ∧
    ∀ now now' post post', validatePost P now post = .ok () → validatePost P now' post' = .ok () →
      Set.InjOn P.blake3 (hashedFor P post post') →
      ContentAddressed P post ∧ TtlInBounds post → ContentAddressed P post' ∧ TtlInBounds post' →
      post.id.toWireBytes = post'.id.toWireBytes →
        canonicalBytes P post = canonicalBytes P post' := by
  constructor
  · intro now post postBytes posts posts' hval hstore hnew
    obtain ⟨blobHash, hrow⟩ := get?_storeReceivedPost hstore hnew
    constructor
    · rintro ⟨row, -, hsound⟩
      exact ⟨hsound.contentAddressed, hsound.ttlInBounds⟩
    · rintro ⟨haddr, httl⟩
      have hfut := validateNotFuture_of_validatePost hval
      obtain ⟨hexp, hover⟩ := bounded_of_ttlInBounds blobHash hfut httl
      exact ⟨_, hrow, haddr, httl, hexp, hover⟩
  · intro now now' post post' _ _ hhash h h' hrow
    exact canonicalBytes_eq_of_same_row hhash h.1 h'.1 hrow

/-! ## Two posts of one sender -/

/-- A byte string as `serde_json` writes it. -/
def renderBytes (bytes : List UInt8) : String :=
  "[" ++ ",".intercalate (bytes.map (fun b => toString b)) ++ "]"

/-- The canonical tuple of a top-level text post as `serde_json` writes it, for a body
without characters that are escaped. -/
def renderTextPost (f : CanonicalFields) (body : String) : String :=
  "[\x7b\"Text\":\x7b\"body\":\"" ++ body ++ "\"\x7d\x7d," ++ renderBytes f.author ++ ","
    ++ toString f.createdAt ++ "," ++ toString f.ttlSecs ++ ",null,null," ++ toString f.depth ++ "]"

/-- Primitives for one sender of text posts: hashing is the identity, and a signature is
the author's key in front of the message. -/
def textPrimitives : PostPrimitives where
  toVec := fun f =>
    match f.content, f.parent, f.root with
    | .text body, none, none => .ok (renderTextPost f body).toUTF8.toList
    | _, _, _ => .error "not a top-level text post"
  blake3 := id
  verifySignature := fun author message signature => decide (signature = author ++ message)
  put := fun _ => .ok "blob"

/-- A time at which both posts are received. -/
def receivedAt : ClockReading := ⟨1700000000, by decide⟩

/-- The canonical bytes of the posts below. -/
def helloBytes (ttl : UInt64) : List UInt8 :=
  (renderTextPost ⟨.text "hello", [7], 1700000000, ttl, none, none, 0⟩ "hello").toUTF8.toList

/-- A text post signed by its author, with an identifier and a TTL as given. -/
def helloPost (id : ContentId) (ttl : UInt64) : Post where
  id := id
  author := [7]
  content := .text "hello"
  createdAt := 1700000000
  ttl := ⟨ttl⟩
  signature := [7] ++ helloBytes ttl
  powProof := []
  parent := none
  root := none
  depth := 0

theorem canonicalBytes_helloPost (id : ContentId) (ttl : UInt64) :
    canonicalBytes textPrimitives (helloPost id ttl) = .ok (helloBytes ttl) := rfl

/-- The checks pass whatever the identifier, as long as the post has not expired. -/
theorem validatePost_helloPost (id : ContentId) (ttl : UInt64)
    (h : ¬ (1700000000 + ttl + clockSkewTolerance < receivedAt.secs)) :
    validatePost textPrimitives receivedAt (helloPost id ttl) = .ok () := by
  have hverify : textPrimitives.verifySignature (helloPost id ttl).author (helloBytes ttl)
      (helloPost id ttl).signature = true := decide_eq_true rfl
  have hsig : validateSignature textPrimitives (helloPost id ttl) = .ok () := by
    unfold validateSignature
    rw [canonicalBytes_helloPost]
    show (if textPrimitives.verifySignature _ _ _ = true then _ else _) = _
    rw [if_pos hverify]
    rfl
  have hexp : validateNotExpired receivedAt (helloPost id ttl) = .ok () := if_neg h
  unfold validatePost
  rw [hsig, hexp]
  rfl

/-- With its own content id and a TTL of one hour the post is stored soundly. -/
theorem ingestSound_iff_honest_oneHour :
    ∃ posts' row,
      validatePost textPrimitives receivedAt
        (helloPost (.fromDigest (helloBytes minTtlSecs)) minTtlSecs) = .ok () ∧
      storeReceivedPost textPrimitives receivedAt
        (helloPost (.fromDigest (helloBytes minTtlSecs)) minTtlSecs) [1] .empty = .ok posts' ∧
      posts'.get? (ContentId.fromDigest (helloBytes minTtlSecs)).toWireBytes = some row ∧
      IngestSound textPrimitives receivedAt
        (helloPost (.fromDigest (helloBytes minTtlSecs)) minTtlSecs) row := by
  have hval := validatePost_helloPost (.fromDigest (helloBytes minTtlSecs)) minTtlSecs (by decide)
  have hhonest : ContentAddressed textPrimitives
      (helloPost (.fromDigest (helloBytes minTtlSecs)) minTtlSecs) ∧
      TtlInBounds (helloPost (.fromDigest (helloBytes minTtlSecs)) minTtlSecs) :=
    ⟨⟨_, canonicalBytes_helloPost _ _, rfl⟩, by unfold TtlInBounds; decide⟩
  obtain ⟨row, hrow, hsound⟩ := ((ingestSound_iff_honest (P := textPrimitives)).1 receivedAt _
    [1] .empty _ hval rfl rfl).mpr hhonest
  exact ⟨_, row, hval, rfl, hrow, hsound⟩

/-- **A foreign identifier and an unbounded TTL are accepted.**  The post carries an
identifier that is not its content id and a TTL of `10 ^ 12` seconds; it is validated and
stored, and it expires long after the bound. -/
theorem foreign_id_stored :
    validatePost textPrimitives receivedAt (helloPost ⟨0, []⟩ 1000000000000) = .ok () ∧
      ∃ posts' row,
        storeReceivedPost textPrimitives receivedAt (helloPost ⟨0, []⟩ 1000000000000) [1] .empty
          = .ok posts' ∧
        posts'.get? (ContentId.toWireBytes ⟨0, []⟩) = some row ∧
        ¬ IngestSound textPrimitives receivedAt (helloPost ⟨0, []⟩ 1000000000000) row ∧
        ¬ ContentAddressed textPrimitives (helloPost ⟨0, []⟩ 1000000000000) ∧
        receivedAt.secs.toNat + clockSkewTolerance.toNat + maxTtlSecs.toNat
          < row.expiresAt.toInt := by
  have haddr : ¬ ContentAddressed textPrimitives (helloPost ⟨0, []⟩ 1000000000000) := by
    rintro ⟨c, -, hid⟩
    have hversion : (0 : UInt8) = 0x01 := congrArg ContentId.version hid
    exact absurd hversion (by decide)
  refine ⟨validatePost_helloPost _ _ (by decide), _, _, rfl, rfl, ?_, haddr, by decide⟩
  exact fun h => haddr h.contentAddressed

end PostIngest
