/-
# Runs of a node on its store

The calls and messages that reach the store of a node as one type of events, with the store
each of them leaves, and what each does to a post that is stored.  Creating and receiving
posts keeps the rows there are; deletion, moderation messages and reports mark rows; the
garbage collector marks and deletes them.
-/
import Ephemera.GarbageCollector
import Ephemera.GuardedRun

/-- What can happen to the store of a node.  A message of the moderation topic comes with
the identity whose node published it, which the node does not see. -/
inductive StoreEvent where
  | create (env : PostEnv) (body : String) (mediaFiles : List MediaFile)
      (ttlSeconds : Option UInt64) (parent : Option String)
  | delete (env : PostEnv) (hashHex : String)
  | deleteAndPropagate (env : PostEnv) (network : Bool) (hashHex : String)
  | gossip (now : ClockReading) (abuse : Except String Unit) (payload : List UInt8)
  | moderation (now : ClockReading) (publisher : IdentityKey) (payload : List UInt8)
  | report (env : PostEnv) (hash reason : String)
  | seedReport (reporter : IdentityKey) (contentId : ContentId) (reason : ReportReason)
  | sweep (config : GcConfig) (order : SweepOrder) (now : ClockReading)

namespace NodeStore

open StateExcept MediaService

variable {W : Wire} (P : NodePrimitives)

/-- The store after an event. -/
def step (s : NodeStore W) : StoreEvent → NodeStore W
  | .create env body mediaFiles ttlSeconds parent =>
    (exec (PostService.create P env body mediaFiles ttlSeconds parent) s).2
  | .delete env hashHex => (exec (PostService.delete env.now hashHex) s).2
  | .deleteAndPropagate env network hashHex =>
    (exec (PostService.deleteAndPropagate P env network hashHex) s).2
  | .gossip now abuse payload => s.gossipIngest P now abuse payload
  | .moderation now _ payload => s.moderationIngest P now payload
  | .report env hash reason => (exec (ModerationService.report env hash reason) s).2
  | .seedReport reporter contentId reason =>
    (exec (ModerationService.seedReport reporter contentId reason) s).2
  | .sweep config order now => (GarbageCollector.sweep config order now.secs.toInt64 s).2

/-- The stores a node can reach. -/
def Reachable (s : NodeStore W) : Prop := ∃ events, s = GuardedRun.run (step P) .empty events

variable {P}

theorem livePost_eq_some_iff {s : NodeStore W} {key : List UInt8} {row : PostRow} :
    s.livePost key = some row ↔ s.db.posts.get? key = some row ∧ row.isTombstone = 0 := by
  rw [livePost, Option.filter_eq_some_iff, decide_eq_true_eq]

/-! ## Posts that come in -/

/-- Storing media leaves the posts. -/
theorem keeps_posts_storeAll (now : ClockReading) (postHash : List UInt8) (index : ℕ)
    (files : List MediaFile) :
    Keeps (fun s : NodeStore W => s.db.posts) (storeAll P now postHash index files) := by
  have hchunks : ∀ (mediaId : String) (chunks : List Chunk),
      Keeps (fun s : NodeStore W => s.db.posts) (insertChunks mediaId chunks) := by
    intro mediaId chunks
    induction chunks with
    | nil => exact keeps_pure _
    | cons chunk chunks ih =>
      refine keeps_bind (keeps_bind keeps_get (fun s => ?_)) (fun _ => ih)
      split
      · exact keeps_throw _
      · exact keeps_modify (fun _ => rfl)
  have hstored : ∀ (id : ContentId) (i : ℕ) (thumbnail data : List UInt8) (a : MediaAttachment),
      Keeps (fun s : NodeStore W => s.db.posts) (storeProcessed P id i thumbnail data a) := by
    intro id i thumbnail data a
    refine keeps_bind (keeps_bind (keeps_modify (fun _ => rfl)) (fun _ => keeps_pure _)) ?_
    refine fun thumb => keeps_bind (keeps_bind keeps_get (fun s => ?_)) ?_
    · split
      · exact keeps_throw _
      · exact keeps_modify (fun _ => rfl)
    · exact fun _ => keeps_bind (hchunks _ _) (fun _ => keeps_pure _)
  induction files generalizing index with
  | nil => exact keeps_pure _
  | cons file files ih =>
    refine keeps_bind (keeps_bind (keeps_lift _) (fun processed => ?_)) (fun _ => ih _)
    cases processed with
    | image img => exact hstored _ _ _ _ _
    | video vid => exact hstored _ _ _ _ _

/-- Creating a post keeps the rows of `posts`, also when it fails. -/
theorem get?_posts_create {s : NodeStore W} {key : List UInt8} {row : PostRow}
    (h : s.db.posts.get? key = some row) (env : PostEnv) (body : String)
    (mediaFiles : List MediaFile) (ttlSeconds : Option UInt64) (parent : Option String) :
    (exec (PostService.create P env body mediaFiles ttlSeconds parent) s).2.db.posts.get? key
      = some row := by
  have htriple : Triple (fun s : NodeStore W => s.db.posts.get? key = some row)
      (PostService.create P env body mediaFiles ttlSeconds parent)
      (fun _ s => s.db.posts.get? key = some row) (fun s => s.db.posts.get? key = some row) := by
    refine triple_bind (triple_lift _ (fun _ h => h)) (fun prepared => ?_)
    refine triple_bind (Q := fun _ s => s.db.posts.get? key = some row) ?_ (fun blobHash => ?_)
    · exact triple_bind (triple_modify (fun _ h => h)) (fun _ => triple_pure _)
    refine triple_bind (Q := fun _ s => s.db.posts.get? key = some row) ?_ (fun _ => ?_)
    · -- the plain `INSERT` fails on the key of a stored row
      refine triple_get (fun s hs => ?_)
      split
      · exact (triple_throw _).known hs
      · rename_i table hins
        refine triple_modify (fun s' _ => ?_)
        obtain ⟨-, rfl⟩ := SqlTable.insert?_eq_some_iff.mp hins
        exact SqlTable.get?_insertOrIgnore_eq_some.mpr (.inl hs)
    · exact triple_bind (triple_of_keeps (keeps_posts_storeAll _ _ _ _) (fun posts =>
        posts.get? key = some row))
        (fun _ => triple_pure (Q := fun _ (s : NodeStore W) => s.db.posts.get? key = some row) _)
  exact htriple.exec_snd h

/-- The gossip ingest drops a payload, or stores a post that `validate_post` accepts. -/
theorem gossipIngest_cases (P : NodePrimitives) (now : ClockReading) (abuse : Except String Unit)
    (payload : List UInt8) (s : NodeStore W) :
    s.gossipIngest P now abuse payload = s ∨
      ∃ post, P.postFromSlice payload = .ok post ∧
        PostIngest.validatePost P.post now post = .ok () ∧
        s.gossipIngest P now abuse payload = { s with
          db := { s.db with
            posts := s.db.posts.insertOrIgnore post.id.toWireBytes
              (PostIngest.rowOf now post (ContentStore.keyOf P.blake3 payload)) }
          content := s.content.put P.blake3 payload } := by
  unfold gossipIngest
  cases hpost : P.postFromSlice payload with
  | error e => exact .inl rfl
  | ok post =>
    cases hval : PostIngest.validatePost P.post now post with
    | error e => exact .inl (by simp [hval, bind, Except.bind, Except.mapError])
    | ok _ =>
      cases abuse with
      | error e => exact .inl (by simp [hval, bind, Except.bind, Except.mapError])
      | ok _ =>
        refine .inr ⟨post, rfl, hval, ?_⟩
        have hput : P.post.put payload = .ok (ContentStore.keyOf P.blake3 payload) := rfl
        simp only [hval, bind, Except.bind, Except.mapError, PostIngest.storeReceivedPost, hput,
          pure, Except.pure]

/-- Receiving a post keeps the rows of `posts`. -/
theorem get?_posts_gossipIngest {s : NodeStore W} {key : List UInt8} {row : PostRow}
    (h : s.db.posts.get? key = some row) (now : ClockReading) (abuse : Except String Unit)
    (payload : List UInt8) :
    (s.gossipIngest P now abuse payload).db.posts.get? key = some row := by
  rcases gossipIngest_cases P now abuse payload s with heq | ⟨post, -, -, heq⟩
  · rw [heq]
    exact h
  · rw [heq]
    exact SqlTable.get?_insertOrIgnore_eq_some.mpr (.inl h)

/-! ## Posts that are marked -/

/-- A deletion marks the post it names, if there is one, and no other. -/
theorem get?_posts_delete (now : ClockReading) (hashHex : String) (s : NodeStore W)
    (key : List UInt8) :
    (exec (PostService.delete now hashHex) s).2.db.posts.get? key
      = (s.db.posts.get? key).map (fun row =>
        if postKey hashHex = .ok key then row.tombstoned now.secs.toInt64 else row) := by
  unfold PostService.delete
  rw [exec_bind, exec_lift]
  cases hkey : postKey hashHex with
  | error e => simp
  | ok named =>
    simp only [exec_bind, exec_get, Except.ok.injEq]
    split
    · rw [exec_modify]
      simp only [SqlTable.get?_updateWhere, decide_eq_true_eq]
      congr 1
      funext row
      by_cases hk : key = named
      · simp [hk]
      · simp [hk, Ne.symm hk]
    · -- without such a row there is nothing to mark
      rename_i hnone
      rw [exec_throw]
      cases hrow : s.db.posts.get? key with
      | none => rfl
      | some row =>
        have hne : named ≠ key := by
          rintro rfl
          exact hnone (SqlTable.existsWhere_iff.mpr ⟨named, row, hrow, decide_eq_true rfl⟩)
        rw [Option.map_some, if_neg hne]

/-- A deletion writes no other table than `posts`. -/
theorem keeps_delete {T : Type} {f : NodeStore W → T}
    (h : ∀ s posts, f { s with db := { s.db with posts := posts } } = f s)
    (now : ClockReading) (hashHex : String) : Keeps f (PostService.delete now hashHex) := by
  refine keeps_bind (keeps_lift _) (fun key => keeps_bind keeps_get (fun s => ?_))
  split
  · exact keeps_modify (fun s => h s _)
  · exact keeps_throw _

/-- Publishing the tombstone does not touch the store. -/
theorem exec_deleteAndPropagate (P : NodePrimitives) (env : PostEnv) (network : Bool)
    (hashHex : String) (s : NodeStore W) :
    (exec (PostService.deleteAndPropagate P env network hashHex) s).2
      = (exec (PostService.delete env.now hashHex) s).2 := by
  unfold PostService.deleteAndPropagate
  rw [exec_bind]
  cases hdel : exec (PostService.delete (W := W) env.now hashHex) s with
  | mk r s' =>
    cases r with
    | error e => rfl
    | ok _ =>
      cases network with
      | false => rfl
      | true =>
        simp only [if_true, exec_bind, exec_lift]
        cases env.identity with
        | error e => rfl
        | ok author => rfl

/-- A moderation message marks the post it names if it is not a tombstone yet. -/
theorem get?_posts_moderationIngest (P : NodePrimitives) (now : ClockReading)
    (payload : List UInt8) (s : NodeStore W) (key : List UInt8) :
    (s.moderationIngest P now payload).db.posts.get? key
      = (s.db.posts.get? key).map (fun row =>
        if tombstoneTarget P payload = some key ∧ row.isTombstone = 0 then
          row.tombstoned now.secs.toInt64 else row) := by
  unfold moderationIngest
  cases tombstoneTarget P payload with
  | none => simp
  | some named =>
    simp only [SqlTable.get?_updateWhere, Bool.and_eq_true, decide_eq_true_eq, Option.some.injEq]
    congr 1
    funext row
    simp only [eq_comm (a := key)]

/-- A new report is recorded unless the same identity reported the content before. -/
theorem exec_createReport (reporter : IdentityKey) (contentId : ContentId)
    (reason : ReportReason) (s : NodeStore W) :
    exec (ModerationService.createReport reporter contentId reason) s
      = if s.reports.any (fun r => decide (r.reporter = reporter) &&
            decide (r.contentId = contentId)) then
          (.error ("duplicate report for content " ++ Hex.encode contentId.hash), s)
        else (.ok (), { s with reports := s.reports ++ [⟨reporter, contentId, reason⟩] }) := by
  unfold ModerationService.createReport
  rw [exec_bind, exec_get]
  simp only
  split
  · rfl
  · rfl

/-- A report leaves the database as it is, or reaches the threshold and deletes the post. -/
theorem report_cases (env : PostEnv) (hash reason : String) (s : NodeStore W) :
    (exec (ModerationService.report env hash reason) s).2.db = s.db ∨
      ∃ contentId reports, postKey hash = .ok contentId.toWireBytes ∧
        ModerationService.tombstoneThreshold ≤ ModerationService.reporterCount reports contentId ∧
        (exec (ModerationService.report env hash reason) s).2
          = (exec (PostService.delete env.now hash) { s with reports := reports }).2 := by
  unfold ModerationService.report
  cases hid : env.identity with
  | error e => exact .inl rfl
  | ok loc =>
    cases hdec : Hex.decode hash with
    | error e => exact .inl rfl
    | ok bytes =>
      simp only [exec_bind, exec_lift, Except.mapError]
      by_cases hlen : bytes.length ≠ 32
      · rw [if_pos hlen]
        exact .inl rfl
      · rw [if_neg hlen]
        simp only [exec_bind, exec_get]
        split
        · exact .inl rfl
        · rw [exec_bind, exec_mapErr, exec_createReport]
          by_cases hdup : (s.reports.any (fun r => decide (r.reporter = loc) &&
            decide (r.contentId = ContentId.fromDigest bytes))) = true
          · rw [if_pos hdup]
            exact .inl rfl
          · rw [if_neg hdup]
            simp only [Except.mapError, exec_bind, exec_get]
            split
            · rename_i hthreshold
              exact .inr ⟨_, _, postKey_of_decode hdec (not_not.mp hlen), hthreshold, rfl⟩
            · exact .inl rfl

/-- A seeded report leaves the database. -/
theorem db_seedReport (reporter : IdentityKey) (contentId : ContentId) (reason : ReportReason)
    (s : NodeStore W) :
    (exec (ModerationService.seedReport reporter contentId reason) s).2.db = s.db := by
  unfold ModerationService.seedReport
  rw [exec_mapErr, exec_createReport]
  split
  · rfl
  · rfl

end NodeStore

/-! ## A concrete node -/

namespace TinyNode

/-- The bytes of an ASCII text. -/
def asciiBytes (text : String) : List UInt8 := text.toList.map (fun c => UInt8.ofNat c.toNat)

/-- A digest that tells short byte strings apart. -/
def digest (data : List UInt8) : List UInt8 := (data ++ List.replicate 32 0).take 32

/-- Primitives over short posts: a signature is the author's key in front of the message, a
tombstone message is the hash it names, and a picture is its own standard version, with its
first byte as the thumbnail. -/
def primitives : NodePrimitives where
  toVec f := .ok (f.author ++ asciiBytes (f.content.textBody.getD ""))
  blake3 := digest
  verifySignature author message signature := decide (signature = author ++ message)
  sign author message := author ++ message
  postToVec post := .ok (0 :: post.author ++ asciiBytes (post.content.textBody.getD ""))
  postFromSlice _ := .error "expected value"
  jsonToVec json :=
    match Hex.decode ((json.getStr "content_hash").getD "") with
    | .ok bytes => bytes
    | .error _ => []
  jsonFromSlice payload :=
    some [("type", .str "tombstone"), ("content_hash", .str (Hex.encode payload))]
  processAuto data := .ok (.image ⟨data, 1, 1, data.take 1, .fromDigest (digest data)⟩)

theorem noon_lt : (1700000000 : UInt64).toNat < 2 ^ 63 := by decide

/-- The time at which the first posts are made. -/
def noon : ClockReading := ⟨1700000000, noon_lt⟩

/-- A call by the identity `key` that passes the checks against abuse. -/
def callBy (key : IdentityKey) (now : ClockReading) : PostEnv := ⟨.ok key, now, .ok ()⟩

/-- The identity that posts. -/
def alice : IdentityKey := [1]

/-- The digest of its post `hi`. -/
def hiDigest : List UInt8 := digest (alice ++ asciiBytes "hi")

/-- The key of that post. -/
def hiKey : List UInt8 := (ContentId.fromDigest hiDigest).toWireBytes

/-- A new node on which `alice` posts `hi` with one picture, for an hour. -/
def afterHi : NodeStore Wire.symbolic :=
  NodeStore.step primitives .empty
    (.create (callBy alice noon) "hi" [⟨[5, 6], "cat.png"⟩] (some 3600) none)

theorem reachable_afterHi : NodeStore.Reachable primitives afterHi :=
  ⟨[.create (callBy alice noon) "hi" [⟨[5, 6], "cat.png"⟩] (some 3600) none], rfl⟩

/-- The row of that post. -/
def hiRow : PostRow := (afterHi.db.posts.get? hiKey).get (by decide +kernel)

theorem get?_hiRow : afterHi.db.posts.get? hiKey = some hiRow := (Option.some_get _).symm

end TinyNode
