/-
# Feeds (`ephemera-social/src/feed.rs`, and the queries in `feed.rs`, `feed_discover.rs`,
`topic_room.rs` and `group.rs` of `store/`)

Five functions answer a page of a feed: the posts of one's connections, the posts of one
author, the posts of everyone else, the posts of a topic room and those of a group.  They
differ in the rows they select and in one point more: `connections_feed` drops the posts of
blocked and muted authors after the query, the others leave that to the `WHERE` clause or
do without.  What follows the query is the same text five times; here it is `feedPage`,
and the five functions are that function at their own query.

SQLite leaves the order of rows with equal `created_at` open, so a page takes an order of
the result rows as an argument (`KeysetPaging.DescOrder`).  Storage errors are left out.
-/
import Ephemera.Groups
import Ephemera.Hex
import Ephemera.KeysetPaging
import Ephemera.MetadataDb
import Ephemera.PostIngest

open KeysetPaging

/-! ## Pages -/

/-- `FeedItem`. -/
structure FeedItem where
  contentHash : ContentId
  author : IdentityKey
  createdAt : UInt64
  isReply : Bool
  parent : Option ContentId
  deriving DecidableEq

/-- `FeedCursor`. -/
structure FeedCursor where
  createdAt : UInt64
  contentHash : ContentId
  deriving DecidableEq

/-- `FeedPage`: the items, the next cursor and whether there are more. -/
abbrev FeedPage := Page FeedItem FeedCursor

/-! ## The database -/

/-- A row of `mutes`; the key is the muter and the muted identity. -/
structure MuteRow where
  createdAt : Int64
  expiresAt : Option Int64

/-- The tables the feeds read.  The key of `topicPosts` is the topic and the content hash,
its column the time of posting. -/
structure FeedDb where
  posts : SqlTable (List UInt8) PostRow
  connections : SqlTable (IdentityKey × IdentityKey) ConnectionRow
  blocks : SqlTable (IdentityKey × IdentityKey) BlockRow
  mutes : SqlTable (IdentityKey × IdentityKey) MuteRow
  topicPosts : SqlTable (String × List UInt8) Int64
  groupPosts : SqlTable (String × List UInt8) GroupPostRow

namespace FeedDb

/-- A database without rows. -/
def empty : FeedDb := ⟨.empty, .empty, .empty, .empty, .empty, .empty⟩

/-- The viewer and the peers it is connected to. -/
def connectedKeys (db : FeedDb) (viewer : IdentityKey) : List (List UInt8) :=
  viewer :: (db.connections.selectWhere
    (fun k row => decide (k.1 = viewer) && decide (row.status = .active))).map (fun r => r.1.2)

/-- `get_excluded_keys`: blocked keys, then those muted for good or until after `now`. -/
def getExcludedKeys (db : FeedDb) (viewer : IdentityKey) (now : Int64) : List (List UInt8) :=
  (db.blocks.selectWhere (fun k _ => decide (k.1 = viewer))).map (fun r => r.1.2)
    ++ (db.mutes.selectWhere (fun k row => decide (k.1 = viewer) &&
        match row.expiresAt with
        | none => true
        | some expires => decide (now < expires))).map (fun r => r.1.2)

end FeedDb

/-! ## Result rows -/

/-- `BLAKE3_HASH_LEN`. -/
def blake3HashLen : ℕ := 32

/-- `ContentId::from_wire_bytes`. -/
def ContentId.fromWireBytes (bytes : List UInt8) : Option ContentId :=
  match bytes with
  | [] => none
  | version :: hash =>
    if bytes.length ≠ blake3HashLen + 1 then none
    else if version ≠ contentHashVersion then none
    else some ⟨version, hash⟩

/-- `bytes_to_content_hash`: what cannot be read becomes the id of the zero digest. -/
def bytesToContentHash (bytes : List UInt8) : ContentId :=
  if bytes.length = 33 then
    (ContentId.fromWireBytes bytes).getD (.fromDigest (List.replicate 32 0))
  else if bytes.length = 32 then .fromDigest bytes
  else .fromDigest (List.replicate 32 0)

/-- `bytes_to_identity_key`. -/
def bytesToIdentityKey (bytes : List UInt8) : IdentityKey :=
  if bytes.length = 32 then bytes else List.replicate 32 0

/-- A result row of the queries over `posts`. -/
structure PostResult where
  hash : List UInt8
  author : List UInt8
  createdAt : Int64
  parent : Option (List UInt8)
  deriving DecidableEq

/-- The item made of it. -/
def PostResult.item (row : PostResult) : FeedItem where
  contentHash := bytesToContentHash row.hash
  author := bytesToIdentityKey row.author
  createdAt := row.createdAt.toUInt64
  isReply := (row.parent.map bytesToContentHash).isSome
  parent := row.parent.map bytesToContentHash

/-- A result row of the query over `group_posts`, where keys are hex texts. -/
structure GroupPostResult where
  hash : List UInt8
  author : String
  createdAt : Int64
  deriving DecidableEq

/-- The item made of it. -/
def GroupPostResult.item (row : GroupPostResult) : FeedItem where
  contentHash := bytesToContentHash row.hash
  author := bytesToIdentityKey (match Hex.decode row.author with
    | .ok bytes => bytes
    | .error _ => [])
  createdAt := row.createdAt.toUInt64
  isReply := false
  parent := none

/-! ## Queries and pages -/

/-- What one feed asks for: the rows its `WHERE` clause selects, apart from the cursor, the
rows the loop over the result skips, and the item made of a row. -/
structure FeedQuery (R : Type) where
  rows : List R
  createdAt : R → Int64
  skip : R → Bool
  item : R → FeedItem
  item_createdAt : ∀ r, (item r).createdAt = (createdAt r).toUInt64

namespace FeedQuery

variable {R : Type}

/-- The column of `ORDER BY`. -/
def key (q : FeedQuery R) (r : R) : ℤ := (q.createdAt r).toInt

/-- The posts of the feed. -/
def selected (q : FeedQuery R) : List R := q.rows.filter (fun r => !q.skip r)

/-- The rows of one request: with a cursor, the clause `AND created_at < ?` is added. -/
def matching (q : FeedQuery R) : Option FeedCursor → List R
  | some c => q.rows.filter (fun r => decide (q.createdAt r < c.createdAt.toInt64))
  | none => q.rows

end FeedQuery

/-- The most rows a page asks for, apart from the one that tells whether there are more. -/
def maxPageRows : ℕ := 200

/-- The common text of the five functions: the query, the loop over its rows, `has_more`
and the cursor. -/
def feedPage {R : Type} (q : FeedQuery R) (order : DescOrder q.key) (cursor : Option FeedCursor)
    (pageSize : UInt32) : FeedPage :=
  let limit := min pageSize.toNat maxPageRows + 1
  let items := (((order.sort (q.matching cursor)).take limit).filter (fun r => !q.skip r)).map
    q.item
  let hasMore := decide (pageSize.toNat < items.length)
  let items := if hasMore then items.take pageSize.toNat else items
  { items := items
    nextCursor := if hasMore then items.getLast?.map (fun i => ⟨i.createdAt, i.contentHash⟩)
      else none
    hasMore := hasMore }

/-! ## The five feeds -/

namespace FeedDb

/-- `SELECT content_hash, author_pubkey, created_at, parent_hash FROM posts WHERE` the author
satisfies `p` `AND is_tombstone = 0`. -/
def selectPosts (db : FeedDb) (p : List UInt8 → Bool) : List PostResult :=
  (db.posts.selectWhere (fun _ row => p row.authorPubkey && decide (row.isTombstone = 0))).map
    (fun r => ⟨r.1, r.2.authorPubkey, r.2.createdAt, r.2.parentHash⟩)

/-- A query over `posts`. -/
def postsQuery (rows : List PostResult) (skip : PostResult → Bool) : FeedQuery PostResult :=
  ⟨rows, PostResult.createdAt, skip, PostResult.item, fun _ => rfl⟩

/-- The query of `connections_feed`. -/
def connectionsQuery (db : FeedDb) (now : Int64) (identity : IdentityKey) : FeedQuery PostResult :=
  postsQuery (db.selectPosts (fun author => (db.connectedKeys identity).contains author))
    (fun row => (db.getExcludedKeys identity now).contains row.author)

/-- The query of `profile_feed`. -/
def profileQuery (db : FeedDb) (profileOwner : IdentityKey) : FeedQuery PostResult :=
  postsQuery (db.selectPosts (fun author => decide (author = profileOwner))) (fun _ => false)

/-- The query of `discover_feed`. -/
def discoverQuery (db : FeedDb) (now : Int64) (viewer : IdentityKey) : FeedQuery PostResult :=
  postsQuery (db.selectPosts (fun author =>
      !(db.connectedKeys viewer ++ db.getExcludedKeys viewer now).contains author))
    (fun _ => false)

/-- The query of `get_topic_feed`: the posts of the room, joined with `posts`. -/
def topicQuery (db : FeedDb) (topicId : String) : FeedQuery PostResult :=
  postsQuery ((db.topicPosts.selectWhere (fun k _ => decide (k.1 = topicId))).filterMap (fun r =>
      match db.posts.get? r.1.2 with
      | some post =>
        if post.isTombstone = 0 then some ⟨r.1.2, post.authorPubkey, r.2, post.parentHash⟩
        else none
      | none => none))
    (fun _ => false)

/-- The query of `get_group_feed`. -/
def groupQuery (db : FeedDb) (groupId : String) : FeedQuery GroupPostResult where
  rows := (db.groupPosts.selectWhere (fun k _ => decide (k.1 = groupId))).map
    (fun r => ⟨r.1.2, r.2.authorPubkey, r.2.createdAt⟩)
  createdAt := GroupPostResult.createdAt
  skip _ := false
  item := GroupPostResult.item
  item_createdAt _ := rfl

variable (db : FeedDb) (now : Int64)

/-- `connections_feed`. -/
def connectionsFeed (identity : IdentityKey)
    (order : DescOrder (db.connectionsQuery now identity).key)
    (cursor : Option FeedCursor) (pageSize : UInt32) : FeedPage :=
  feedPage (db.connectionsQuery now identity) order cursor pageSize

/-- `profile_feed`, which does not look at the viewer. -/
def profileFeed (_viewer profileOwner : IdentityKey)
    (order : DescOrder (db.profileQuery profileOwner).key) (cursor : Option FeedCursor)
    (pageSize : UInt32) : FeedPage :=
  feedPage (db.profileQuery profileOwner) order cursor pageSize

/-- `discover_feed`. -/
def discoverFeed (viewer : IdentityKey) (order : DescOrder (db.discoverQuery now viewer).key)
    (cursor : Option FeedCursor) (pageSize : UInt32) : FeedPage :=
  feedPage (db.discoverQuery now viewer) order cursor pageSize

/-- `get_topic_feed`. -/
def getTopicFeed (topicId : String) (order : DescOrder (db.topicQuery topicId).key)
    (cursor : Option FeedCursor) (limit : UInt32) : FeedPage :=
  feedPage (db.topicQuery topicId) order cursor limit

/-- `get_group_feed`. -/
def getGroupFeed (groupId : String) (order : DescOrder (db.groupQuery groupId).key)
    (cursor : Option FeedCursor) (limit : UInt32) : FeedPage :=
  feedPage (db.groupQuery groupId) order cursor limit

end FeedDb

/-- A feed and the arguments that stay the same from page to page. -/
inductive Feed where
  | connections (identity : IdentityKey)
  | profile (viewer profileOwner : IdentityKey)
  | discover (viewer : IdentityKey)
  | topic (topicId : String)
  | group (groupId : String)

namespace Feed

/-- The result rows of its query. -/
def Row : Feed → Type
  | connections _ => PostResult
  | profile _ _ => PostResult
  | discover _ => PostResult
  | topic _ => PostResult
  | group _ => GroupPostResult

/-- Its query. -/
def query (db : FeedDb) (now : Int64) : (feed : Feed) → FeedQuery feed.Row
  | connections identity => db.connectionsQuery now identity
  | profile _ profileOwner => db.profileQuery profileOwner
  | discover viewer => db.discoverQuery now viewer
  | topic topicId => db.topicQuery topicId
  | group groupId => db.groupQuery groupId

/-- One request for a page. -/
def fetch (db : FeedDb) (now : Int64) (pageSize : UInt32) :
    (feed : Feed) → DescOrder (feed.query db now).key → Option FeedCursor → FeedPage
  | connections identity, order, cursor => db.connectionsFeed now identity order cursor pageSize
  | profile viewer owner, order, cursor => db.profileFeed viewer owner order cursor pageSize
  | discover viewer, order, cursor => db.discoverFeed now viewer order cursor pageSize
  | topic topicId, order, cursor => db.getTopicFeed topicId order cursor pageSize
  | group groupId, order, cursor => db.getGroupFeed groupId order cursor pageSize

/-- All five are `feedPage` at their query. -/
theorem fetch_eq (db : FeedDb) (now : Int64) (pageSize : UInt32) (feed : Feed)
    (order : DescOrder (feed.query db now).key) :
    feed.fetch db now pageSize order
      = fun cursor => feedPage (feed.query db now) order cursor pageSize := by
  cases feed with
  | connections identity => rfl
  | profile viewer owner => rfl
  | discover viewer => rfl
  | topic topicId => rfl
  | group groupId => rfl

end Feed
