/-
# Building a post (`ephemera-post/src/builder.rs`)

A `PostBuilder` gathers a body, a photo, a caption, attachments, a lifetime and the place in a
thread; `build` takes one kind of content from them, stamps the time and signs.

What is built carries its own content id and a signature that verifies.  `build` looks at no
limit, though, so it also signs posts that no node accepts: `validatePost_build_iff` says exactly
which, for every clock of the receiver.
-/
import Ephemera.MediaStorage
import Ephemera.PostCanonical

/-- The parts of a post that its identifier and its signature cover. -/
def Post.fields (post : Post) : CanonicalFields where
  content := post.content
  author := post.author
  createdAt := post.createdAt
  ttlSecs := post.ttl.secs
  parent := post.parent
  root := post.root
  depth := post.depth

/-- A `Ttl` that `Ttl::from_secs` has made. -/
structure CheckedTtl extends Ttl where
  bounds : minTtlSecs ≤ secs ∧ secs ≤ maxTtlSecs

/-- `PostBuilder`. -/
structure PostBuilder where
  text : Option String := none
  photo : Option ContentId := none
  caption : Option String := none
  attachments : List ContentId := []
  ttl : Option CheckedTtl := none
  parent : Option ContentId := none
  root : Option ContentId := none
  depth : UInt32 := 0
  powProof : List UInt8 := []

/-- `SigningKeyPair`, as far as it is used. -/
structure SigningKeyPair where
  publicKey : List UInt8
  sign : List UInt8 → List UInt8

namespace PostBuilder

/-! ## The calls -/

/-- The methods that return the builder. -/
inductive Call where
  | text (body : String)
  | photo (blobId : ContentId)
  | caption (cap : String)
  | attachment (blobId : ContentId)
  | ttl (ttl : CheckedTtl)
  | replyTo (parent root : ContentId) (depth : UInt32)
  | pow (proof : List UInt8)

/-- One method. -/
def call (b : PostBuilder) : Call → PostBuilder
  | .text body => { b with text := some body }
  | .photo blobId => { b with photo := some blobId }
  | .caption cap => { b with caption := some cap }
  | .attachment blobId => { b with attachments := b.attachments ++ [blobId] }
  | .ttl ttl => { b with ttl := some ttl }
  | .replyTo parent root depth =>
    { b with parent := some parent, root := some root, depth := depth }
  | .pow proof => { b with powProof := proof }

/-- `PostBuilder::new()` and a chain of methods. -/
def chain (calls : List Call) : PostBuilder := calls.foldl call {}

/-- `resolve_content`. -/
def resolveContent (b : PostBuilder) : Except PostError PostContent :=
  match b.text, b.photo, b.attachments.isEmpty with
  | some body, none, true => .ok (.text body)
  | none, some blobId, true => .ok (.photo blobId b.caption)
  | some text, some blobId, true => .ok (.combined text [blobId])
  | some text, none, false => .ok (.combined text b.attachments)
  | none, none, true => .error (.build "post has no content")
  | _, _, _ =>
    .error (.build "cannot combine photo() and attachment() — use attachment() only")

/-- The lifetime without a call of `ttl`. -/
def defaultTtl : CheckedTtl := ⟨⟨86400⟩, by decide⟩

variable (P : PostPrimitives)

/-- `build`, at the time `now`. -/
def build (b : PostBuilder) (identity : SigningKeyPair) (now : ClockReading) :
    Except PostError Post := do
  let content ← b.resolveContent
  let ttl := b.ttl.getD defaultTtl
  let author := identity.publicKey
  let canonical ← (P.toVec ⟨content, author, now.secs, ttl.secs, b.parent, b.root,
    b.depth⟩).mapError (fun e => .build ("serialization failed: " ++ e))
  return {
    id := .fromDigest (P.blake3 canonical)
    author := author
    content := content
    createdAt := now.secs
    ttl := ttl.toTtl
    signature := identity.sign canonical
    powProof := b.powProof
    parent := b.parent
    root := b.root
    depth := b.depth }

/-! ## What is built -/

variable {P}

/-- The body of the content: a caption is one when there is nothing else. -/
def body? (b : PostBuilder) : Option String :=
  match b.text with
  | some text => some text
  | none => b.caption

/-- The number of media files of the content. -/
def mediaCount (b : PostBuilder) : ℕ := if b.photo.isSome then 1 else b.attachments.length

/-- There is one kind of content in the builder. -/
def HasContent (b : PostBuilder) : Prop :=
  if b.attachments = [] then b.text.isSome ∨ b.photo.isSome else b.text.isSome ∧ b.photo = none

instance : DecidablePred HasContent := fun _ => inferInstanceAs (Decidable (ite ..))

/-- What `resolve_content` takes from the builder. -/
theorem resolveContent_cases (b : PostBuilder) :
    (b.HasContent ∧ ∃ content, b.resolveContent = .ok content ∧ content.textBody = b.body? ∧
      content.attachmentCount = b.mediaCount) ∨
    (¬ b.HasContent ∧ ∃ e, b.resolveContent = .error e) := by
  obtain ⟨text, photo, caption, attachments, _, _, _, _, _⟩ := b
  cases text with
  | none =>
    cases photo with
    | none =>
      cases attachments with
      | nil => exact .inr ⟨by simp [HasContent], _, rfl⟩
      | cons id ids => exact .inr ⟨by simp [HasContent], _, rfl⟩
    | some blobId =>
      cases attachments with
      | nil => exact .inl ⟨by simp [HasContent], _, rfl, rfl, rfl⟩
      | cons id ids => exact .inr ⟨by simp [HasContent], _, rfl⟩
  | some body =>
    cases photo with
    | none =>
      cases attachments with
      | nil => exact .inl ⟨by simp [HasContent], _, rfl, rfl, rfl⟩
      | cons id ids => exact .inl ⟨by simp [HasContent], _, rfl, rfl, rfl⟩
    | some blobId =>
      cases attachments with
      | nil => exact .inl ⟨by simp [HasContent], _, rfl, rfl, rfl⟩
      | cons id ids => exact .inr ⟨by simp [HasContent], _, rfl⟩

/-- What posts are made with, over the JSON text of `serde_json`. -/
def primitives (blake3 : List UInt8 → List UInt8)
    (verify : List UInt8 → List UInt8 → List UInt8 → Bool)
    (put : List UInt8 → Except String String) : PostPrimitives where
  toVec f := .ok (PostCanonical.canonicalText f)
  blake3 := blake3
  verifySignature := verify
  put := put

section Built

variable {blake3 : List UInt8 → List UInt8} {verify : List UInt8 → List UInt8 → List UInt8 → Bool}
  {put : List UInt8 → Except String String}

open PostCanonical PostIngest

/-- The lifetime of the post. -/
def lifetime (b : PostBuilder) : CheckedTtl := b.ttl.getD defaultTtl

/-- A post that was built from `b`. -/
structure BuiltFrom (blake3 : List UInt8 → List UInt8) (b : PostBuilder)
    (identity : SigningKeyPair) (now : ClockReading) (post : Post) : Prop where
  hasContent : b.HasContent
  author : post.author = identity.publicKey
  createdAt : post.createdAt = now.secs
  ttl : post.ttl = b.lifetime.toTtl
  depth : post.depth = b.depth
  textBody : post.content.textBody = b.body?
  attachmentCount : post.content.attachmentCount = b.mediaCount
  id : post.id = .fromDigest (blake3 (canonicalText post.fields))
  signature : post.signature = identity.sign (canonicalText post.fields)

/-- **`build` succeeds exactly when there is one kind of content.** -/
theorem build_cases (b : PostBuilder) (identity : SigningKeyPair) (now : ClockReading) :
    (b.HasContent ∧ ∃ post, b.build (primitives blake3 verify put) identity now = .ok post ∧
      BuiltFrom blake3 b identity now post) ∨
    (¬ b.HasContent ∧ ∃ e, b.build (primitives blake3 verify put) identity now = .error e) := by
  rcases resolveContent_cases b with ⟨hhas, content, hc, hbody, hcount⟩ | ⟨hhas, e, he⟩
  · refine .inl ⟨hhas, ?_⟩
    unfold build
    rw [hc]
    exact ⟨_, rfl, ⟨hhas, rfl, rfl, rfl, rfl, hbody, hcount, rfl, rfl⟩⟩
  · refine .inr ⟨hhas, e, ?_⟩
    unfold build
    rw [he]
    rfl

theorem builtFrom_of_build {b : PostBuilder} {identity : SigningKeyPair} {now : ClockReading}
    {post : Post} (h : b.build (primitives blake3 verify put) identity now = .ok post) :
    BuiltFrom blake3 b identity now post := by
  rcases @build_cases blake3 verify put b identity now with
    ⟨_, post', hbuild, hpost⟩ | ⟨_, e, he⟩
  · rw [hbuild] at h
    cases h
    exact hpost
  · rw [he] at h
    cases h

/-- The post is within the limits of `validate_post` that do not depend on the time. -/
structure WithinLimits (b : PostBuilder) : Prop where
  bytes : ∀ body ∈ b.body?, body.utf8ByteSize ≤ maxTextBytes
  chars : ∀ body ∈ b.body?, body.length ≤ maxTextGraphemes
  media : b.mediaCount ≤ maxAttachments
  depth : b.depth ≤ maxThreadDepth

/-- The clock of the receiver is not too far from that of the author. -/
def InTime (b : PostBuilder) (created received : ClockReading) : Prop :=
  created.secs.toNat ≤ received.secs.toNat + 300 ∧
    received.secs.toNat ≤ created.secs.toNat + b.lifetime.secs.toNat + 300

/-! ## What is accepted -/

theorem bind_ok_iff {ε : Type} {x y : Except ε Unit} :
    (x >>= fun _ => y) = .ok () ↔ x = .ok () ∧ y = .ok () := by
  cases x with
  | error e => exact ⟨fun h => (by cases h), fun h => (by cases h.1)⟩
  | ok _ => exact ⟨fun h => ⟨rfl, h⟩, fun h => h.2⟩

/-- A check that returns an error under a condition passes when that is false. -/
theorem guard_ok_iff {ε : Type} {p : Prop} [Decidable p] {e : ε} :
    (if p then throw e else return () : Except ε Unit) = .ok () ↔ ¬ p := by
  by_cases hp : p
  · rw [if_pos hp]
    exact ⟨fun h => (by cases h), fun h => absurd hp h⟩
  · rw [if_neg hp]
    exact ⟨fun _ => hp, fun _ => rfl⟩

variable {P : PostPrimitives}

theorem validatePost_ok_iff {now : ClockReading} {post : Post} :
    validatePost P now post = .ok () ↔
      validateSignature P post = .ok () ∧ validateNotExpired now post = .ok () ∧
        validateNotFuture now post = .ok () ∧ validateTextLength post = .ok () ∧
          validateAttachmentCount post = .ok () ∧ validateThreadDepth post = .ok () := by
  unfold validatePost
  rw [bind_ok_iff, bind_ok_iff, bind_ok_iff, bind_ok_iff, bind_ok_iff]

theorem validateSignature_ok_iff {post : Post} :
    validateSignature (primitives blake3 verify put) post = .ok () ↔
      verify post.author (canonicalText post.fields) post.signature = true := by
  show (if verify post.author (canonicalText post.fields) post.signature = true then _ else _) = _
    ↔ _
  split_ifs with h
  · exact ⟨fun _ => h, fun _ => rfl⟩
  · exact ⟨fun hok => (by cases hok), fun hok => absurd hok h⟩

theorem validateTextLength_ok_iff {post : Post} :
    validateTextLength post = .ok () ↔ ∀ body ∈ post.content.textBody,
      body.utf8ByteSize ≤ maxTextBytes ∧ body.length ≤ maxTextGraphemes := by
  unfold validateTextLength
  cases post.content.textBody with
  | none => exact ⟨fun _ _ h => (by cases h), fun _ => rfl⟩
  | some body =>
    simp only [Option.mem_def, Option.some.injEq, forall_eq']
    split_ifs with h1 h2
    · exact ⟨fun h => (by cases h), fun h => absurd h.1 (by omega)⟩
    · exact ⟨fun h => (by cases h), fun h => absurd h.2 (by omega)⟩
    · exact ⟨fun _ => ⟨by omega, by omega⟩, fun _ => rfl⟩

/-- The sum of a clock reading and a checked lifetime does not wrap. -/
theorem validateNotExpired_ok_iff {now : ClockReading} {post : Post} {created : ClockReading}
    {ttl : CheckedTtl} (hcreated : post.createdAt = created.secs) (httl : post.ttl = ttl.toTtl) :
    validateNotExpired now post = .ok () ↔
      now.secs.toNat ≤ created.secs.toNat + ttl.secs.toNat + 300 := by
  have hlt := created.secs_lt
  have hmax : ttl.secs.toNat ≤ 2592000 := UInt64.le_iff_toNat_le.mp ttl.bounds.2
  have hskew : clockSkewTolerance.toNat = 300 := rfl
  show (if _ then _ else _) = _ ↔ _
  rw [guard_ok_iff, hcreated, httl, UInt64.lt_iff_toNat_lt, UInt64.toNat_add, UInt64.toNat_add,
    hskew, Nat.mod_eq_of_lt (by omega : created.secs.toNat + ttl.secs.toNat < 2 ^ 64),
    Nat.mod_eq_of_lt (by omega), Nat.not_lt]

theorem validateNotFuture_ok_iff {now created : ClockReading} {post : Post}
    (hcreated : post.createdAt = created.secs) :
    validateNotFuture now post = .ok () ↔ created.secs.toNat ≤ now.secs.toNat + 300 := by
  have hlt := now.secs_lt
  have hskew : clockSkewTolerance.toNat = 300 := rfl
  show (if _ then _ else _) = _ ↔ _
  rw [guard_ok_iff, hcreated, UInt64.lt_iff_toNat_lt, UInt64.toNat_add, hskew,
    Nat.mod_eq_of_lt (by omega), Nat.not_lt]

/-- What was built is accepted by a node within the limits and in time. -/
theorem BuiltFrom.validatePost_iff {b : PostBuilder} {identity : SigningKeyPair}
    {created : ClockReading} {post : Post} (hpost : BuiltFrom blake3 b identity created post)
    (hkey : ∀ m, verify identity.publicKey m (identity.sign m) = true) (received : ClockReading) :
    validatePost (primitives blake3 verify put) received post = .ok () ↔
      b.WithinLimits ∧ b.InTime created received := by
  have hsig : validateSignature (primitives blake3 verify put) post = .ok () := by
    rw [validateSignature_ok_iff, hpost.author, hpost.signature]
    exact hkey _
  have hmedia : validateAttachmentCount post = .ok () ↔ b.mediaCount ≤ maxAttachments := by
    show (if _ then _ else _) = _ ↔ _
    rw [guard_ok_iff, hpost.attachmentCount, Nat.not_lt]
  have hdepth : validateThreadDepth post = .ok () ↔ b.depth ≤ maxThreadDepth := by
    show (if _ then _ else _) = _ ↔ _
    rw [guard_ok_iff, hpost.depth, UInt32.not_lt]
  rw [validatePost_ok_iff, validateNotExpired_ok_iff hpost.createdAt hpost.ttl,
    validateNotFuture_ok_iff hpost.createdAt, validateTextLength_ok_iff, hmedia, hdepth,
    hpost.textBody]
  constructor
  · rintro ⟨-, hexp, hfut, htext, hm, hd⟩
    exact ⟨⟨fun body hb => (htext body hb).1, fun body hb => (htext body hb).2, hm, hd⟩,
      hfut, hexp⟩
  · rintro ⟨hlimits, hfut, hexp⟩
    exact ⟨hsig, hexp, hfut, fun body hb => ⟨hlimits.bytes body hb, hlimits.chars body hb⟩,
      hlimits.media, hlimits.depth⟩

/-- **Which posts are built and accepted.**  `build` looks at the kind of the content only, so a
post that is too long, or a reply that is too deep, is built and signed and then refused by every
node. -/
theorem build_accepted_iff {identity : SigningKeyPair}
    (hkey : ∀ m, verify identity.publicKey m (identity.sign m) = true) (b : PostBuilder)
    (created received : ClockReading) :
    (∃ post, b.build (primitives blake3 verify put) identity created = .ok post ∧
        validatePost (primitives blake3 verify put) received post = .ok ()) ↔
      b.HasContent ∧ b.WithinLimits ∧ b.InTime created received := by
  constructor
  · rintro ⟨post, hbuild, hvalid⟩
    have hpost := builtFrom_of_build hbuild
    exact ⟨hpost.hasContent, (hpost.validatePost_iff hkey received).mp hvalid⟩
  · rintro ⟨hhas, hok⟩
    rcases @build_cases blake3 verify put b identity created with
      ⟨_, post, hbuild, hpost⟩ | ⟨hnot, _⟩
    · exact ⟨post, hbuild, (hpost.validatePost_iff hkey received).mpr hok⟩
    · exact absurd hhas hnot

/-- A key whose signature is the key in front of the message. -/
def exampleKey : SigningKeyPair := ⟨[7], fun m => [7] ++ m⟩

def exampleVerify (key message signature : List UInt8) : Bool := decide (signature = key ++ message)

theorem build_accepted_iff_example :
    ∃ post, (chain [.text "hello", .replyTo ⟨1, [2]⟩ ⟨1, [3]⟩ 50]).build
        (primitives id exampleVerify (fun _ => .ok "")) exampleKey receivedAt = .ok post ∧
      validatePost (primitives id exampleVerify (fun _ => .ok "")) receivedAt post = .ok () := by
  refine (build_accepted_iff (fun _ => decide_eq_true rfl) _ _ _).mpr ⟨by decide, ?_, ?_⟩
  · refine ⟨fun _ h => ?_, fun _ h => ?_, by decide, by decide⟩
    · cases h
      decide +kernel
    · cases h
      decide +kernel
  · exact ⟨by omega, by omega⟩

/-- **Identifiers name posts.**  Two posts that were built anywhere, and whose canonical texts do
not collide, have the same identifier only if content, author, times and place in the thread are
the same. -/
theorem id_eq_iff {b b' : PostBuilder} {identity identity' : SigningKeyPair}
    {now now' : ClockReading} {post post' : Post}
    (hhash : Set.InjOn blake3 {canonicalText post.fields, canonicalText post'.fields})
    (h : b.build (primitives blake3 verify put) identity now = .ok post)
    (h' : b'.build (primitives blake3 verify put) identity' now' = .ok post') :
    post.id = post'.id ↔ post.fields = post'.fields := by
  rw [(builtFrom_of_build h).id, (builtFrom_of_build h').id]
  constructor
  · intro heq
    exact canonicalText_injective (hhash (Set.mem_insert _ _) (Set.mem_insert_of_mem _ rfl)
      (congrArg ContentId.hash heq))
  · exact fun heq => by rw [heq]

theorem id_eq_iff_example : ∃ post post',
    (chain [.text "a"]).build (primitives id exampleVerify (fun _ => .ok "")) exampleKey
        receivedAt = .ok post ∧
      (chain [.text "b"]).build (primitives id exampleVerify (fun _ => .ok "")) exampleKey
        receivedAt = .ok post' ∧ post.id ≠ post'.id := by
  refine ⟨_, _, rfl, rfl, fun h => ?_⟩
  have hfields := (@id_eq_iff id exampleVerify (fun _ => .ok "")
    (chain [.text "a"]) (chain [.text "b"]) _ _ _ _ _ _ (fun _ _ _ _ heq => heq) rfl rfl).mp h
  have hcontent : PostContent.text "a" = PostContent.text "b" :=
    congrArg CanonicalFields.content hfields
  exact absurd hcontent (by decide)

end Built

/-! ## The posts of a node -/

/-- The calls that `PostService::create` makes. -/
def serviceCalls (body : String) (attachments : List ContentId) (ttl : CheckedTtl)
    (parent : Option ContentId) : List Call :=
  .text body :: .ttl ttl :: (parent.toList.map (fun p => .replyTo p p 1) ++
    attachments.map .attachment)

theorem foldl_attachment (b : PostBuilder) (ids : List ContentId) :
    (ids.map Call.attachment).foldl call b = { b with attachments := b.attachments ++ ids } := by
  induction ids generalizing b with
  | nil =>
    show b = _
    rw [List.append_nil]
  | cons id ids ih =>
    show (ids.map Call.attachment).foldl call { b with attachments := b.attachments ++ [id] } = _
    rw [ih, List.append_assoc, List.singleton_append]

theorem chain_serviceCalls (body : String) (attachments : List ContentId) (ttl : CheckedTtl)
    (parent : Option ContentId) :
    chain (serviceCalls body attachments ttl parent) = {
      text := some body
      attachments := attachments
      ttl := some ttl
      parent := parent
      root := parent
      depth := if parent.isSome then 1 else 0 } := by
  cases parent with
  | none =>
    show (attachments.map Call.attachment).foldl call { text := some body, ttl := some ttl } = _
    rw [foldl_attachment, List.nil_append]
    rfl
  | some p =>
    show (attachments.map Call.attachment).foldl call
      { text := some body, ttl := some ttl, parent := some p, root := some p, depth := 1 } = _
    rw [foldl_attachment, List.nil_append]
    rfl

/-- `PostService` builds its posts with the builder. -/
theorem build_serviceCalls (P : NodePrimitives) (author : IdentityKey) (now : ClockReading)
    (body : String) (attachments : List ContentId) (ttl : CheckedTtl) (parent : Option ContentId) :
    (chain (serviceCalls body attachments ttl parent)).build P.post ⟨author, P.sign author⟩ now =
      PostService.build P author now body attachments ttl.toTtl parent := by
  rw [chain_serviceCalls]
  cases attachments with
  | nil =>
    unfold build PostService.build PostIngest.canonicalBytes
    rfl
  | cons id ids =>
    unfold build PostService.build PostIngest.canonicalBytes
    rfl

open PostCanonical PostIngest MediaService

/-- One content id for each file. -/
theorem length_mediaHashes {P : NodePrimitives} {files : List MediaFile}
    {hashes : List ContentId} (h : PostService.mediaHashes P files = .ok hashes) :
    hashes.length = files.length := by
  induction files generalizing hashes with
  | nil =>
    cases h
    rfl
  | cons file files ih =>
    unfold PostService.mediaHashes at h
    obtain ⟨processed, -, h⟩ := exists_of_bind_eq_ok h
    obtain ⟨rest, hrest, h⟩ := exists_of_bind_eq_ok h
    cases h
    rw [List.length_cons, List.length_cons, ih hrest]

theorem ok_of_mapError {ε ε' α : Type} {m : Except ε α} {f : ε → ε'} {a : α}
    (h : m.mapError f = .ok a) : m = .ok a := by
  cases m with
  | error e => cases h
  | ok b =>
    cases h
    rfl

/-- A lifetime that passes `from_secs` is a checked one. -/
theorem exists_checkedTtl {secs : UInt64} {ttl : Ttl} (h : Ttl.fromSecs secs = .ok ttl) :
    ∃ checked : CheckedTtl, checked.toTtl = ttl ∧ checked.secs = secs := by
  unfold Ttl.fromSecs at h
  split_ifs at h with hb
  cases h
  exact ⟨⟨⟨secs⟩, hb⟩, rfl, rfl⟩

/-- What `prepare` returns was built by the builder. -/
theorem exists_build_of_prepare {P : NodePrimitives} {env : PostEnv} {body : String}
    {files : List MediaFile} {ttlSeconds : Option UInt64} {parent : Option String} {post : Post}
    {bytes : List UInt8}
    (h : PostService.prepare P env body files ttlSeconds parent = .ok (post, bytes)) :
    ∃ author hashes ttl parentId, env.identity = .ok author ∧ hashes.length = files.length ∧
      ttl.secs = ttlSeconds.getD PostService.defaultTtlSecs ∧
      (chain (serviceCalls body hashes ttl parentId)).build P.post ⟨author, P.sign author⟩
        env.now = .ok post := by
  unfold PostService.prepare at h
  obtain ⟨author, hauthor, h⟩ := exists_of_bind_eq_ok h
  obtain ⟨-, -, h⟩ := exists_of_bind_eq_ok h
  obtain ⟨ttl, httl, h⟩ := exists_of_bind_eq_ok h
  obtain ⟨checked, rfl, hsecs⟩ := exists_checkedTtl (ok_of_mapError httl)
  have hrest : ∃ parentId hashes, PostService.mediaHashes P files = .ok hashes ∧
      PostService.build P author env.now body hashes checked.toTtl parentId = .ok post := by
    -- A reply has the identifier of its parent decoded first; what follows is the same.
    cases parent with
    | none | some hex =>
      obtain ⟨parentId, -, h⟩ := exists_of_bind_eq_ok h
      obtain ⟨hashes, hhashes, h⟩ := exists_of_bind_eq_ok h
      obtain ⟨built, hbuilt, h⟩ := exists_of_bind_eq_ok h
      obtain ⟨_, -, h⟩ := exists_of_bind_eq_ok h
      cases h
      exact ⟨parentId, hashes, hhashes, ok_of_mapError hbuilt⟩
  obtain ⟨parentId, hashes, hhashes, hbuilt⟩ := hrest
  refine ⟨author, hashes, checked, parentId, hauthor, length_mediaHashes hhashes, hsecs, ?_⟩
  rw [build_serviceCalls]
  exact hbuilt

/-- **Which posts of a node its peers accept.**  `create` has no limit of its own, so beyond these
the author keeps a post that every peer refuses. -/
theorem prepare_accepted_iff {P : NodePrimitives} (hjson : P.toVec = fun f => .ok (canonicalText f))
    {env : PostEnv} {body : String} {files : List MediaFile} {ttlSeconds : Option UInt64}
    {parent : Option String} {post : Post} {bytes : List UInt8}
    (hkey : ∀ m, P.verifySignature post.author m (P.sign post.author m) = true)
    (h : PostService.prepare P env body files ttlSeconds parent = .ok (post, bytes))
    (received : ClockReading) :
    validatePost P.post received post = .ok () ↔
      (body.utf8ByteSize ≤ maxTextBytes ∧ body.length ≤ maxTextGraphemes ∧
        files.length ≤ maxAttachments) ∧
      env.now.secs.toNat ≤ received.secs.toNat + 300 ∧
        received.secs.toNat ≤ env.now.secs.toNat +
          (ttlSeconds.getD PostService.defaultTtlSecs).toNat + 300 := by
  obtain ⟨author, hashes, ttl, parentId, -, hlen, hsecs, hbuild⟩ := exists_build_of_prepare h
  have hP : P.post = primitives P.blake3 P.verifySignature P.post.put := by
    show PostPrimitives.mk P.toVec _ _ _ = PostPrimitives.mk _ _ _ _
    rw [hjson]
    rfl
  rw [hP] at hbuild ⊢
  have hpost := builtFrom_of_build hbuild
  have hauthor : post.author = author := hpost.author
  rw [hauthor] at hkey
  have hlimits : (chain (serviceCalls body hashes ttl parentId)).WithinLimits ↔
      body.utf8ByteSize ≤ maxTextBytes ∧ body.length ≤ maxTextGraphemes ∧
        files.length ≤ maxAttachments := by
    rw [chain_serviceCalls, ← hlen]
    constructor
    · exact fun h => ⟨h.bytes body rfl, h.chars body rfl, h.media⟩
    · rintro ⟨hbytes, hchars, hmedia⟩
      refine ⟨fun _ hb => ?_, fun _ hb => ?_, hmedia, ?_⟩
      · cases hb
        exact hbytes
      · cases hb
        exact hchars
      · show (if parentId.isSome = true then (1 : UInt32) else 0) ≤ 50
        split_ifs
        · decide
        · decide
  have htime : (chain (serviceCalls body hashes ttl parentId)).InTime env.now received ↔
      env.now.secs.toNat ≤ received.secs.toNat + 300 ∧ received.secs.toNat ≤ env.now.secs.toNat +
        (ttlSeconds.getD PostService.defaultTtlSecs).toNat + 300 := by
    rw [chain_serviceCalls, ← hsecs]
    rfl
  rw [← hlimits, ← htime]
  exact hpost.validatePost_iff hkey received

/-- A node with one key. -/
def examplePrimitives : NodePrimitives where
  toVec f := .ok (canonicalText f)
  blake3 := id
  verifySignature := exampleVerify
  sign key message := key ++ message
  postToVec _ := .ok []
  postFromSlice _ := .error ""
  jsonToVec _ := []
  jsonFromSlice _ := none
  processAuto _ := .error ""

theorem prepare_accepted_iff_example : ∃ post bytes,
    PostService.prepare examplePrimitives ⟨.ok [7], receivedAt, .ok ()⟩ "hello" [] none none =
        .ok (post, bytes) ∧ validatePost examplePrimitives.post receivedAt post = .ok () := by
  refine ⟨_, _, rfl, ?_⟩
  have h := @prepare_accepted_iff examplePrimitives rfl ⟨.ok [7], receivedAt, .ok ()⟩ "hello" []
    none none _ _ (fun _ => decide_eq_true rfl) rfl receivedAt
  exact h.mpr ⟨⟨by decide +kernel, by decide +kernel, by decide⟩, by decide, by decide⟩

end PostBuilder
