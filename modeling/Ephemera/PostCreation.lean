/-
# The creation of a post, with its checks (`services/post.rs`, `fingerprint.rs`)

`create` asks the rate limiter and the reputation of the author, compares the text with those of
recent posts and records it, asks the content filter, and checks the TTL, the parent and the
files; then it writes the content store and three tables one after the other, without a
transaction.  An error leaves what was written before it.  The text is recorded before most of
the checks, so the same text with a corrected TTL is refused as a near-duplicate of itself
(`resubmission_refused`); the gossip ingest validates a post before it records the text.

`atomic_iff` is the exact condition for a call to leave no trace when it fails.
-/
import Ephemera.Identity
import Ephemera.MediaStorage

/-! ## Fingerprints -/

/-- `ContentFingerprint`. -/
structure ContentFingerprint where
  bits : UInt64
  deriving DecidableEq, Repr

namespace ContentFingerprint

/-- `MAX_RECENT_FINGERPRINTS`. -/
def maxRecentFingerprints : ℕ := 10000

/-- `NEAR_DUPLICATE_THRESHOLD`. -/
def nearDuplicateThreshold : ℕ := 3

/-- Whether bit `i` is set. -/
def bit (hash : UInt64) (i : ℕ) : Bool := decide (hash &&& (1 <<< UInt64.ofNat i) ≠ 0)

/-- `str::split_whitespace`. -/
def splitWhitespace (text : String) : List (List Char) :=
  (text.toList.splitOnP Identity.isWhitespace).filter (fun token => !token.isEmpty)

/-- `u64::from_le_bytes` of the first eight bytes. -/
def fromLeBytes (bytes : List UInt8) : UInt64 :=
  (bytes.take 8).foldr (fun b n => n * 256 + b.toUInt64) 0

/-- `hash_token`. -/
def hashToken (blake3 : List UInt8 → List UInt8) (token : List Char) : UInt64 :=
  fromLeBytes (blake3 (String.ofList token).toUTF8.toList)

/-- One round of the loop of `compute`. -/
def countToken (v : List Int32) (hash : UInt64) : List Int32 :=
  v.zipIdx.map (fun slot => if bit hash slot.2 then slot.1 + 1 else slot.1 - 1)

/-- `ContentFingerprint::compute`. -/
def compute (blake3 : List UInt8 → List UInt8) (text : String) : ContentFingerprint :=
  let v := ((splitWhitespace text).map (hashToken blake3)).foldl countToken (List.replicate 64 0)
  ⟨v.zipIdx.foldl (fun (fingerprint : UInt64) (slot : Int32 × ℕ) =>
    if 0 < slot.1 then fingerprint ||| (1 <<< UInt64.ofNat slot.2) else fingerprint) 0⟩

/-- `hamming_distance`. -/
def hammingDistance (a b : ContentFingerprint) : ℕ :=
  (List.range 64).countP (bit (a.bits ^^^ b.bits))

/-- `is_near_duplicate`. -/
def isNearDuplicate (a b : ContentFingerprint) : Bool :=
  decide (hammingDistance a b ≤ nearDuplicateThreshold)

/-- A text is a near-duplicate of itself. -/
theorem isNearDuplicate_self (a : ContentFingerprint) : a.isNearDuplicate a = true := by
  have hzero : a.hammingDistance a = 0 := by
    rw [hammingDistance, UInt64.xor_self, List.countP_eq_zero]
    intro i _
    simp [bit]
  rw [isNearDuplicate, hzero]
  rfl

end ContentFingerprint

/-- `FingerprintStore`: the fingerprints of recent texts, the oldest first. -/
structure FingerprintStore where
  recent : List ContentFingerprint
  maxSize : ℕ := ContentFingerprint.maxRecentFingerprints
  deriving DecidableEq

namespace FingerprintStore

open ContentFingerprint

variable (blake3 : List UInt8 → List UInt8)

/-- `check_duplicate`. -/
def checkDuplicate (store : FingerprintStore) (text : String) : Option ContentFingerprint :=
  store.recent.find? (fun existing => (compute blake3 text).isNearDuplicate existing)

/-- `record`: the oldest one makes room. -/
def record (store : FingerprintStore) (text : String) : FingerprintStore :=
  { store with
    recent := (if store.maxSize ≤ store.recent.length then store.recent.tail else store.recent)
      ++ [compute blake3 text] }

/-- `check_and_record`: the text is recorded whatever the answer. -/
def checkAndRecord (store : FingerprintStore) (text : String) : Bool × FingerprintStore :=
  ((store.checkDuplicate blake3 text).isSome, store.record blake3 text)

/-- The window is full, and every text in it has the fingerprint of this one. -/
def OnlyThis (store : FingerprintStore) (text : String) : Prop :=
  store.maxSize ≤ store.recent.length ∧ store.recent ≠ [] ∧
    ∀ existing ∈ store.recent, existing = compute blake3 text

variable {blake3}

/-- A list moves on by one to itself only if all of it is the new element. -/
theorem tail_append_eq_self_iff {α : Type} {l : List α} {x : α} :
    l.tail ++ [x] = l ↔ l ≠ [] ∧ ∀ y ∈ l, y = x := by
  cases l with
  | nil => simp
  | cons a l =>
    rw [List.tail_cons]
    induction l generalizing a with
    | nil => simp [eq_comm]
    | cons b l ih =>
      rw [List.cons_append, List.cons.injEq, ih]
      simp only [ne_eq, reduceCtorEq, not_false_eq_true, true_and, List.forall_mem_cons]
      constructor
      · rintro ⟨rfl, hb, hl⟩
        exact ⟨hb, hb, hl⟩
      · rintro ⟨rfl, rfl, hl⟩
        exact ⟨rfl, rfl, hl⟩

/-- A text leaves the window as it is only if the window holds nothing else. -/
theorem record_eq_self_iff (store : FingerprintStore) (text : String) :
    store.record blake3 text = store ↔ store.OnlyThis blake3 text := by
  obtain ⟨recent, maxSize⟩ := store
  rw [record, OnlyThis, mk.injEq]
  simp only [and_true]
  by_cases hfull : maxSize ≤ recent.length
  · rw [if_pos hfull, tail_append_eq_self_iff]
    simp only [hfull, true_and]
  · rw [if_neg hfull]
    refine ⟨fun heq => ?_, fun h => absurd h.1 hfull⟩
    have hlen := congrArg List.length heq
    rw [List.length_append, List.length_singleton] at hlen
    omega

/-- A text that is in the window is a duplicate. -/
theorem checkDuplicate_of_mem {store : FingerprintStore} {text : String}
    (h : compute blake3 text ∈ store.recent) : (store.checkDuplicate blake3 text).isSome = true :=
  List.find?_isSome.mpr ⟨_, h, isNearDuplicate_self _⟩

/-- A text that was recorded is in the window. -/
theorem mem_record (store : FingerprintStore) (text : String) :
    compute blake3 text ∈ (store.record blake3 text).recent :=
  List.mem_append_right _ (List.mem_singleton_self _)

end FingerprintStore

/-! ## The call -/

/-- `FilterResult`. -/
inductive FilterResult where
  | allow
  | block (reason : String)
  | requireReview (reason : String)
  deriving DecidableEq, Repr

/-- What `create` finds around it: the active identity, the clock, the verdict of the rate
limiter, whether the reputation has the capability `AttachPhotos`, and the content filter. -/
structure CreateEnv where
  identity : Except String IdentityKey
  now : ClockReading
  rateLimit : Except String Unit
  mayAttachPhotos : Bool
  checkText : String → FilterResult

/-- What `create` works on. -/
structure PostingNode (W : Wire) where
  store : NodeStore W
  fingerprints : FingerprintStore

namespace PostCreation

open StateExcept MediaService

variable {W : Wire} (P : NodePrimitives)

/-- `fps.check_and_record`. -/
def checkAndRecord (body : String) : StateExcept String (PostingNode W) Bool := do
  let (duplicate, fingerprints) := (← get).fingerprints.checkAndRecord P.blake3 body
  modify fun s => { s with fingerprints := fingerprints }
  return duplicate

/-- A call on the store of the node. -/
def onStore {α : Type} (m : PostM W α) : StateExcept String (PostingNode W) α :=
  ExceptT.mk fun s => ((exec m s.store).1, { s with store := (exec m s.store).2 })

/-- `PostService::create`: the checks against abuse, and then what they stand in front of. -/
def create (env : CreateEnv) (body : String) (mediaFiles : List MediaFile)
    (ttlSeconds : Option UInt64) (parent : Option String) :
    StateExcept String (PostingNode W) PostService.CreatedPost := do
  let _ ← env.identity
  env.rateLimit.mapError (fun e => "Rate limited: " ++ e)
  if !mediaFiles.isEmpty && !env.mayAttachPhotos then
    throw "Your account is too new to post media. Text-only for the first 7 days."
  else
    if ← checkAndRecord P body then
      throw "near-duplicate content detected, post rejected"
    else
      match env.checkText body with
      | .block reason => throw ("content blocked: " ++ reason)
      | _ => onStore (PostService.create P ⟨env.identity, env.now, .ok ()⟩ body mediaFiles
          ttlSeconds parent)

/-! ## Atomicity -/

/-- The tables of posts and media, the content store and the fingerprints are as before. -/
structure Unchanged (s s' : PostingNode W) : Prop where
  posts : s'.store.db.posts = s.store.db.posts
  mediaAttachments : s'.store.db.mediaAttachments = s.store.db.mediaAttachments
  mediaChunks : s'.store.db.mediaChunks = s.store.db.mediaChunks
  content : s'.store.content = s.store.content
  fingerprints : s'.fingerprints = s.fingerprints

/-- A call that fails leaves no trace. -/
def Atomic (s : PostingNode W) (env : CreateEnv) (body : String) (mediaFiles : List MediaFile)
    (ttlSeconds : Option UInt64) (parent : Option String) : Prop :=
  ∀ e s', exec (create P env body mediaFiles ttlSeconds parent) s = (.error e, s') →
    Unchanged s s'

/-- The call is refused before it looks at the text. -/
def Refused (env : CreateEnv) (mediaFiles : List MediaFile) : Prop :=
  (∃ e, env.identity = .error e) ∨ (∃ e, env.rateLimit = .error e) ∨
    mediaFiles ≠ [] ∧ env.mayAttachPhotos = false

/-- The post passes the checks, is new, and there is room for its files. -/
def Accepted (s : NodeStore W) (env : CreateEnv) (body : String) (mediaFiles : List MediaFile)
    (ttlSeconds : Option UInt64) (parent : Option String) : Prop :=
  ∃ prepared, PostService.prepare P ⟨env.identity, env.now, .ok ()⟩ body mediaFiles ttlSeconds
      parent = .ok prepared ∧
    s.db.posts.get? prepared.1.id.toWireBytes = none ∧
    Room P s.db (acceptedMedia P 0 mediaFiles)

variable {P}

/-- The store takes the post exactly if it is accepted. -/
theorem exec_create_ok_iff (s : NodeStore W) (env : CreateEnv) (body : String)
    (mediaFiles : List MediaFile) (ttlSeconds : Option UInt64) (parent : Option String) :
    (∃ created s', exec (PostService.create P ⟨env.identity, env.now, .ok ()⟩ body mediaFiles
        ttlSeconds parent) s = (.ok created, s')) ↔
      Accepted P s env body mediaFiles ttlSeconds parent := by
  rw [exec_create, Accepted]
  cases hprep : PostService.prepare P ⟨env.identity, env.now, .ok ()⟩ body mediaFiles ttlSeconds
      parent with
  | error e => simp
  | ok prepared =>
    simp only [Except.ok.injEq, exists_eq_left']
    by_cases hnew : s.db.posts.get? prepared.1.id.toWireBytes = none
    · rw [if_pos hnew]
      obtain ⟨hok, herr⟩ := exec_storeAll (accepted_of_prepare hprep) env.now
        prepared.1.id.toWireBytes 0
        (withPost P s ⟨env.identity, env.now, .ok ()⟩ body mediaFiles prepared)
      rw [exec_bind]
      by_cases hroom : Room P s.db (acceptedMedia P 0 mediaFiles)
      · obtain ⟨s', hexec, -⟩ := hok hroom
        rw [hexec]
        simp [hnew, hroom]
      · obtain ⟨e, s', hexec⟩ := herr hroom
        rw [hexec]
        simp [hroom]
    · rw [if_neg hnew]
      simp [hnew]

/-- The node once the text is recorded. -/
def recorded (P : NodePrimitives) (s : PostingNode W) (body : String) : PostingNode W :=
  { s with fingerprints := s.fingerprints.record P.blake3 body }

/-- A refused call changes nothing. -/
theorem exec_create_of_refused {env : CreateEnv} {mediaFiles : List MediaFile}
    (h : Refused env mediaFiles) (s : PostingNode W) (body : String) (ttlSeconds : Option UInt64)
    (parent : Option String) :
    ∃ e, exec (create P env body mediaFiles ttlSeconds parent) s = (.error e, s) := by
  unfold create
  rw [exec_bind, exec_lift]
  cases hid : env.identity with
  | error e => exact ⟨e, rfl⟩
  | ok author =>
    simp only [exec_bind, exec_lift]
    cases hrate : env.rateLimit with
    | error e => exact ⟨_, rfl⟩
    | ok _ =>
      rcases h with ⟨e, he⟩ | ⟨e, he⟩ | ⟨hfiles, hmay⟩
      · rw [hid] at he
        cases he
      · rw [hrate] at he
        cases he
      · have hgated : (!mediaFiles.isEmpty && !env.mayAttachPhotos) = true := by
          simp [hfiles, hmay]
        simp only [Except.mapError, hgated, if_true, exec_throw]
        exact ⟨_, rfl⟩

/-- Any other call records the text before it goes on. -/
theorem exec_create_of_not_refused {env : CreateEnv} {mediaFiles : List MediaFile}
    (h : ¬ Refused env mediaFiles) (s : PostingNode W) (body : String)
    (ttlSeconds : Option UInt64) (parent : Option String) :
    exec (create P env body mediaFiles ttlSeconds parent) s
      = if (s.fingerprints.checkDuplicate P.blake3 body).isSome then
          (.error "near-duplicate content detected, post rejected", recorded P s body)
        else match env.checkText body with
          | .block reason => (.error ("content blocked: " ++ reason), recorded P s body)
          | _ => exec (onStore (PostService.create P ⟨env.identity, env.now, .ok ()⟩ body mediaFiles
              ttlSeconds parent)) (recorded P s body) := by
  obtain ⟨hid, hrate, hmay⟩ := by simpa only [Refused, not_or] using h
  unfold create
  rw [exec_bind, exec_lift]
  cases hidentity : env.identity with
  | error e => exact absurd ⟨e, hidentity⟩ hid
  | ok author =>
    simp only [exec_bind, exec_lift]
    cases hlimit : env.rateLimit with
    | error e => exact absurd ⟨e, hlimit⟩ hrate
    | ok _ =>
      have hopen : (!mediaFiles.isEmpty && !env.mayAttachPhotos) = false := by
        by_contra hgated
        refine hmay ?_
        simpa using hgated
      have hcheck : exec (checkAndRecord P body) s
          = (.ok (s.fingerprints.checkDuplicate P.blake3 body).isSome, recorded P s body) := rfl
      simp only [Except.mapError, hopen, Bool.false_eq_true, if_false, exec_bind, hcheck]
      split
      · rfl
      · cases env.checkText body <;> rfl

/-- The call on the store succeeds, or fails with the text recorded. -/
theorem exec_onStore_create_cases (s : PostingNode W) (env : CreateEnv) (body : String)
    (mediaFiles : List MediaFile) (ttlSeconds : Option UInt64) (parent : Option String) :
    (Accepted P s.store env body mediaFiles ttlSeconds parent ∧
      ∃ created s', exec (onStore (PostService.create P ⟨env.identity, env.now, .ok ()⟩ body
        mediaFiles ttlSeconds parent)) s = (.ok created, s')) ∨
    (¬ Accepted P s.store env body mediaFiles ttlSeconds parent ∧
      ∃ e s', exec (onStore (PostService.create P ⟨env.identity, env.now, .ok ()⟩ body
        mediaFiles ttlSeconds parent)) s = (.error e, s') ∧ s'.fingerprints = s.fingerprints) := by
  have haccepted := exec_create_ok_iff (P := P) s.store env body mediaFiles ttlSeconds parent
  cases hexec : exec (PostService.create P ⟨env.identity, env.now, .ok ()⟩ body mediaFiles
      ttlSeconds parent) s.store with
  | mk result store' =>
    have honStore : exec (onStore (PostService.create P ⟨env.identity, env.now, .ok ()⟩ body
        mediaFiles ttlSeconds parent)) s = (result, { s with store := store' }) := by
      show ((exec _ s.store).1, { s with store := (exec _ s.store).2 }) = _
      rw [hexec]
    cases result with
    | ok created => exact .inl ⟨haccepted.mp ⟨created, store', hexec⟩, created, _, honStore⟩
    | error e =>
      refine .inr ⟨fun hacc => ?_, e, _, honStore, rfl⟩
      obtain ⟨created, s', heq⟩ := haccepted.mpr hacc
      rw [hexec] at heq
      cases heq

/-- The post is not refused as spam or by the filter, and the store takes it. -/
def Passes (P : NodePrimitives) (s : PostingNode W) (env : CreateEnv) (body : String)
    (mediaFiles : List MediaFile) (ttlSeconds : Option UInt64) (parent : Option String) : Prop :=
  s.fingerprints.checkDuplicate P.blake3 body = none ∧
    (∀ reason, env.checkText body ≠ .block reason) ∧
    Accepted P s.store env body mediaFiles ttlSeconds parent

/-- **What a call does that is not refused at once.**  It succeeds, or it fails after it has
recorded the text; a near-duplicate leaves nothing else behind. -/
theorem create_cases {env : CreateEnv} {mediaFiles : List MediaFile}
    (h : ¬ Refused env mediaFiles) (s : PostingNode W) (body : String)
    (ttlSeconds : Option UInt64) (parent : Option String) :
    (Passes P s env body mediaFiles ttlSeconds parent ∧
      ∃ created s', exec (create P env body mediaFiles ttlSeconds parent) s
        = (.ok created, s')) ∨
    (¬ Passes P s env body mediaFiles ttlSeconds parent ∧
      ∃ e s', exec (create P env body mediaFiles ttlSeconds parent) s = (.error e, s') ∧
        s'.fingerprints = s.fingerprints.record P.blake3 body ∧
        ((s.fingerprints.checkDuplicate P.blake3 body).isSome = true →
          e = "near-duplicate content detected, post rejected" ∧ s' = recorded P s body)) := by
  rw [exec_create_of_not_refused h, Passes]
  by_cases hdup : (s.fingerprints.checkDuplicate P.blake3 body).isSome = true
  · rw [if_pos hdup]
    refine .inr ⟨fun hpasses => ?_, _, _, rfl, rfl, fun _ => ⟨rfl, rfl⟩⟩
    rw [hpasses.1] at hdup
    cases hdup
  rw [if_neg hdup]
  have hnone : s.fingerprints.checkDuplicate P.blake3 body = none := by simpa using hdup
  cases hfilter : env.checkText body with
  | block reason =>
    refine .inr ⟨fun hpasses => hpasses.2.1 reason rfl, _, _, rfl, rfl, ?_⟩
    exact fun hsome => absurd hsome hdup
  | _ =>
    rcases exec_onStore_create_cases (P := P) (recorded P s body) env body mediaFiles ttlSeconds
      parent with ⟨hacc, hok⟩ | ⟨hacc, e, s', hexec, hfps⟩
    · exact .inl ⟨⟨hnone, by simp, hacc⟩, hok⟩
    · refine .inr ⟨fun hpasses => hacc hpasses.2.2, e, s', hexec, hfps, ?_⟩
      exact fun hsome => absurd hsome hdup

/-- **When a failed call leaves no trace.**  Either it is refused before it looks at the text, or
the window of fingerprints is full of this very text, or the call does not fail. -/
theorem atomic_iff (P : NodePrimitives) (s : PostingNode W) (env : CreateEnv) (body : String)
    (mediaFiles : List MediaFile) (ttlSeconds : Option UInt64) (parent : Option String) :
    Atomic P s env body mediaFiles ttlSeconds parent ↔
      Refused env mediaFiles ∨ s.fingerprints.OnlyThis P.blake3 body ∨
        Passes P s env body mediaFiles ttlSeconds parent := by
  by_cases hrefused : Refused env mediaFiles
  · obtain ⟨e, hexec⟩ := exec_create_of_refused (P := P) hrefused s body ttlSeconds parent
    refine ⟨fun _ => .inl hrefused, fun _ e' s' heq => ?_⟩
    rw [hexec, Prod.mk.injEq] at heq
    exact heq.2 ▸ ⟨rfl, rfl, rfl, rfl, rfl⟩
  rcases create_cases (P := P) hrefused s body ttlSeconds parent with
    ⟨hpasses, created, s', hexec⟩ | ⟨hfails, e, s', hexec, hfps, hdup⟩
  · refine ⟨fun _ => .inr (.inr hpasses), fun _ e' s'' heq => ?_⟩
    rw [hexec] at heq
    cases heq
  · constructor
    · intro hatomic
      have hsame := (hatomic e s' hexec).fingerprints
      rw [hfps, FingerprintStore.record_eq_self_iff] at hsame
      exact .inr (.inl hsame)
    · rintro (href | honly | hpasses)
      · exact absurd href hrefused
      · -- the window holds the text already, so the call fails as a near-duplicate
        obtain ⟨existing, hmem⟩ := List.exists_mem_of_ne_nil _ honly.2.1
        have hin : ContentFingerprint.compute P.blake3 body ∈ s.fingerprints.recent :=
          honly.2.2 existing hmem ▸ hmem
        obtain ⟨-, rfl⟩ := hdup (FingerprintStore.checkDuplicate_of_mem hin)
        intro e' s'' heq
        rw [hexec, Prod.mk.injEq] at heq
        refine heq.2 ▸ ⟨rfl, rfl, rfl, rfl, ?_⟩
        exact (FingerprintStore.record_eq_self_iff _ _).mpr honly
      · exact absurd hpasses hfails

/-! ## Trying again -/

/-- **A corrected post is refused.**  Once a call has failed that was not refused at once, every
call with the same text is a near-duplicate of it, whatever else is changed. -/
theorem resubmission_refused {env env' : CreateEnv} {body : String}
    {mediaFiles mediaFiles' : List MediaFile} {ttlSeconds : Option UInt64} {parent : Option String}
    {s s' : PostingNode W} {e : String} (h : ¬ Refused env mediaFiles)
    (hfails : exec (create P env body mediaFiles ttlSeconds parent) s = (.error e, s'))
    (h' : ¬ Refused env' mediaFiles') (ttlSeconds' : Option UInt64) (parent' : Option String) :
    (exec (create P env' body mediaFiles' ttlSeconds' parent') s').1
      = .error "near-duplicate content detected, post rejected" := by
  have hfps : s'.fingerprints = s.fingerprints.record P.blake3 body := by
    rcases create_cases (P := P) h s body ttlSeconds parent with
      ⟨-, created, s'', hexec⟩ | ⟨-, e', s'', hexec, hfps, -⟩
    · rw [hfails] at hexec
      cases hexec
    · rw [hfails, Prod.mk.injEq] at hexec
      exact hexec.2 ▸ hfps
  have hdup : (s'.fingerprints.checkDuplicate P.blake3 body).isSome = true := by
    refine FingerprintStore.checkDuplicate_of_mem ?_
    rw [hfps]
    exact FingerprintStore.mem_record s.fingerprints body
  rw [exec_create_of_not_refused h', if_pos hdup]

open TinyNode

/-- `alice` may post, with pictures. -/
def aliceEnv : CreateEnv := ⟨.ok alice, noon, .ok (), true, fun _ => .allow⟩

/-- **A wrong TTL is remembered.**  `alice` posts `hi` on a new node with a TTL of zero; the call
fails, and the fingerprint of the text stays. -/
theorem zeroTtl_not_atomic :
    ¬ ∀ (s : PostingNode Wire.symbolic) (env : CreateEnv) (body : String)
        (mediaFiles : List MediaFile) (ttlSeconds : Option UInt64) (parent : Option String),
      Atomic primitives s env body mediaFiles ttlSeconds parent := by
  intro h
  have hunchanged := h ⟨.empty, ⟨[], ContentFingerprint.maxRecentFingerprints⟩⟩ aliceEnv "hi" []
    (some 0) none _ _ (Prod.ext (by rfl) rfl)
  have hlen := congrArg (fun store : FingerprintStore => store.recent.length)
    hunchanged.fingerprints
  exact absurd hlen (by decide +kernel)

end PostCreation
