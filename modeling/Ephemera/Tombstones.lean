/-
# Who marks a post as a tombstone (`services/post.rs`, `lib.rs`, `services/social.rs`)

Deletion is meant for the author of a post: by a call on the author's own node, or by the
tombstone message that node publishes.  Besides these, five distinct reporters and the
garbage collector may mark a post.

The code asks for the author nowhere.  `delete` marks the row of whatever post it is given,
and the moderation ingest marks the row a message names without a look at who sent it,
although its documentation promises to verify the author's signature.  So the rule holds
for a run exactly when nobody tries otherwise (`onlyAuthorTurns_iff_meets`), and one
message by a stranger breaks it (`stranger_deletes`).
-/
import Ephemera.NodeRun

namespace NodeStore

variable {W : Wire}

/-- The post under `key`, stored as `row`, turns from `is_tombstone = 0` to `1`. -/
def Turns (s s' : NodeStore W) (key : List UInt8) (row : PostRow) : Prop :=
  s.livePost key = some row ∧ ∃ row', s'.db.posts.get? key = some row' ∧ row'.isTombstone = 1

/-- The event may mark the post: it is a call under the author's identity, a message from
the author's node, a report beyond the threshold, or a sweep after the expiry. -/
def MayTurn (s' : NodeStore W) (key : List UInt8) (row : PostRow) : StoreEvent → Prop
  | .delete env _ => env.identity = .ok row.authorPubkey
  | .deleteAndPropagate env _ _ => env.identity = .ok row.authorPubkey
  | .moderation _ publisher _ => publisher = row.authorPubkey
  | .report _ _ _ => ∃ contentId : ContentId, contentId.toWireBytes = key ∧
      ModerationService.tombstoneThreshold ≤ ModerationService.reporterCount s'.reports contentId
  | .sweep _ _ now => row.expiresAt < now.secs.toInt64
  | .create _ _ _ _ _ => False
  | .gossip _ _ _ => False
  | .seedReport _ _ _ => False

variable (P : NodePrimitives)

/-- Every post the event marks is one it may mark. -/
def OnlyAuthorTurns (s : NodeStore W) (e : StoreEvent) : Prop :=
  ∀ key row, Turns s (step P s e) key row → MayTurn (step P s e) key row e

/-- The calls come from the author of the post they name, and so do the messages, as long as
that post is not a tombstone. -/
def Authorised (s : NodeStore W) : StoreEvent → Prop
  | .delete env hashHex => ∀ key row, postKey hashHex = .ok key → s.livePost key = some row →
      env.identity = .ok row.authorPubkey
  | .deleteAndPropagate env _ hashHex => ∀ key row, postKey hashHex = .ok key →
      s.livePost key = some row → env.identity = .ok row.authorPubkey
  | .moderation _ publisher payload => ∀ key row, tombstoneTarget P payload = some key →
      s.livePost key = some row → publisher = row.authorPubkey
  | _ => True

variable {P}

/-! ## What each event marks -/

/-- A post that is stored as before has not turned. -/
theorem not_turns_of_get? {s s' : NodeStore W} {key : List UInt8} {row : PostRow}
    (h : s.db.posts.get? key = some row → s'.db.posts.get? key = some row) :
    ¬ Turns s s' key row := by
  rintro ⟨hlive, row', hrow', htomb⟩
  obtain ⟨hrow, hzero⟩ := livePost_eq_some_iff.mp hlive
  rw [h hrow, Option.some.injEq] at hrow'
  rw [← hrow', hzero] at htomb
  exact absurd htomb (by decide)

/-- When rows are only marked under a condition, it is met by the rows that turn. -/
theorem turns_iff_of_map {s s' : NodeStore W} {key : List UInt8} {row : PostRow} {now : Int64}
    {c : PostRow → Prop} [DecidablePred c]
    (h : s'.db.posts.get? key
      = (s.db.posts.get? key).map (fun r => if c r then r.tombstoned now else r)) :
    Turns s s' key row ↔ s.livePost key = some row ∧ c row := by
  constructor
  · rintro ⟨hlive, row', hrow', htomb⟩
    obtain ⟨hrow, hzero⟩ := livePost_eq_some_iff.mp hlive
    refine ⟨hlive, ?_⟩
    by_contra hc
    rw [h, hrow, Option.map_some, if_neg hc, Option.some.injEq] at hrow'
    rw [← hrow', hzero] at htomb
    exact absurd htomb (by decide)
  · rintro ⟨hlive, hc⟩
    obtain ⟨hrow, -⟩ := livePost_eq_some_iff.mp hlive
    refine ⟨hlive, row.tombstoned now, ?_, rfl⟩
    rw [h, hrow, Option.map_some, if_pos hc]

/-- A deletion turns the post it names. -/
theorem turns_delete_iff {s : NodeStore W} {now : ClockReading} {hashHex : String}
    {key : List UInt8} {row : PostRow} :
    Turns s (StateExcept.exec (PostService.delete now hashHex) s).2 key row ↔
      s.livePost key = some row ∧ postKey hashHex = .ok key :=
  turns_iff_of_map (c := fun _ => postKey hashHex = .ok key) (get?_posts_delete now hashHex s key)

/-- A moderation message turns the post it names. -/
theorem turns_moderation_iff {s : NodeStore W} {now : ClockReading} {payload : List UInt8}
    {key : List UInt8} {row : PostRow} :
    Turns s (s.moderationIngest P now payload) key row ↔
      s.livePost key = some row ∧ tombstoneTarget P payload = some key := by
  rw [turns_iff_of_map (get?_posts_moderationIngest P now payload s key)]
  constructor
  · rintro ⟨hlive, htarget, -⟩
    exact ⟨hlive, htarget⟩
  · rintro ⟨hlive, htarget⟩
    exact ⟨hlive, htarget, (livePost_eq_some_iff.mp hlive).2⟩

/-- A rule for the posts that turn is one for the live posts that are named. -/
theorem forall_turns_iff {s s' : NodeStore W} {named : List UInt8 → Prop} {rule : PostRow → Prop}
    (h : ∀ key row, Turns s s' key row ↔ s.livePost key = some row ∧ named key) :
    (∀ key row, Turns s s' key row → rule row) ↔
      ∀ key row, named key → s.livePost key = some row → rule row := by
  constructor
  · intro hrule key row hnamed hlive
    exact hrule key row ((h key row).mpr ⟨hlive, hnamed⟩)
  · intro hrule key row hturn
    obtain ⟨hlive, hnamed⟩ := (h key row).mp hturn
    exact hrule key row hnamed hlive

/-- A report turns a post only beyond the threshold. -/
theorem mayTurn_report {s : NodeStore W} {env : PostEnv} {hash reason : String}
    {key : List UInt8} {row : PostRow}
    (h : Turns s (step P s (.report env hash reason)) key row) :
    MayTurn (step P s (.report env hash reason)) key row (.report env hash reason) := by
  rcases report_cases env hash reason s with hdb | ⟨contentId, reports, hkey, hcount, heq⟩
  · refine absurd h (not_turns_of_get? (fun hrow => ?_))
    rw [step, hdb]
    exact hrow
  · have hdel : Turns { s with reports := reports }
        (StateExcept.exec (PostService.delete env.now hash) { s with reports := reports }).2
        key row := by
      rw [← heq]
      exact h
    obtain ⟨-, hnamed⟩ := turns_delete_iff.mp hdel
    rw [hkey, Except.ok.injEq] at hnamed
    refine ⟨contentId, hnamed, ?_⟩
    have hreports : (step P s (.report env hash reason)).reports = reports := by
      rw [step, heq]
      exact keeps_delete (f := NodeStore.reports) (fun _ _ => rfl) env.now hash _
    rw [hreports]
    exact hcount

/-- A sweep turns a post only after its expiry. -/
theorem mayTurn_sweep {s : NodeStore W} {config : GcConfig} {order : SweepOrder} {now : Int64}
    {key : List UInt8} {row : PostRow}
    (h : Turns s (GarbageCollector.sweep config order now s).2 key row) : row.expiresAt < now := by
  obtain ⟨hlive, row', hrow', htomb⟩ := h
  obtain ⟨hrow, hzero⟩ := livePost_eq_some_iff.mp hlive
  obtain ⟨old, hold, hmarked⟩ := GarbageCollector.get?_of_get?_posts_sweep hrow'
  rw [hrow, Option.some.injEq] at hold
  subst hold
  by_cases hbatch : key ∈ GarbageCollector.batch config order now s.db
  · exact (GarbageCollector.isExpired_iff.mp
      (GarbageCollector.expired_of_mem_batch hbatch hrow)).1
  · rw [GarbageCollector.marked, if_neg hbatch, or_self] at hmarked
    rw [hmarked, hzero] at htomb
    exact absurd htomb (by decide)

/-! ## The rule -/

/-- One event obeys the rule exactly when it is authorised. -/
theorem onlyAuthorTurns_iff (s : NodeStore W) (e : StoreEvent) :
    OnlyAuthorTurns P s e ↔ Authorised P s e := by
  cases e with
  | create env body mediaFiles ttlSeconds parent =>
    refine ⟨fun _ => trivial, fun _ key row h => ?_⟩
    exact not_turns_of_get? (fun hrow => get?_posts_create hrow _ _ _ _ _) h
  | delete env hashHex => exact forall_turns_iff (fun key row => turns_delete_iff)
  | deleteAndPropagate env network hashHex =>
    rw [OnlyAuthorTurns, step, exec_deleteAndPropagate]
    exact forall_turns_iff (fun key row => turns_delete_iff)
  | gossip now abuse payload =>
    refine ⟨fun _ => trivial, fun _ key row h => ?_⟩
    exact not_turns_of_get? (fun hrow => get?_posts_gossipIngest hrow _ _ _) h
  | moderation now publisher payload =>
    exact forall_turns_iff (fun key row => turns_moderation_iff)
  | report env hash reason => exact ⟨fun _ => trivial, fun _ key row h => mayTurn_report h⟩
  | seedReport reporter contentId reason =>
    refine ⟨fun _ => trivial, fun _ key row h => ?_⟩
    refine not_turns_of_get? (fun hrow => ?_) h
    rw [step, db_seedReport]
    exact hrow
  | sweep config order now => exact ⟨fun _ => trivial, fun _ key row h => mayTurn_sweep h⟩

/-- **Who marks a post, over whole runs.**  In a run of the node every post turns into a
tombstone only by its author, by the threshold of reports or by expiry, exactly when each
deletion and each moderation message that names a live post comes from the author of that
post. -/
theorem onlyAuthorTurns_iff_meets (s : NodeStore W) (events : List StoreEvent) :
    (∀ l₁ e l₂, events = l₁ ++ e :: l₂ →
      OnlyAuthorTurns P (GuardedRun.run (step P) s l₁) e) ↔
    GuardedRun.Meets (step P) (Authorised P) s events := by
  rw [GuardedRun.meets_iff_forall_split]
  simp only [onlyAuthorTurns_iff]

/-- The message of a stranger that names the post of `alice`. -/
def strangersMessage : StoreEvent := .moderation TinyNode.noon [9] TinyNode.hiDigest

/-- **A stranger deletes a post.**  `alice` posts; a message on the moderation topic, from a
node that is not hers, names the post, and it turns into a tombstone. -/
theorem stranger_deletes :
    ¬ ∀ events l₁ e l₂, events = l₁ ++ e :: l₂ →
      OnlyAuthorTurns TinyNode.primitives
        (GuardedRun.run (step TinyNode.primitives) (empty : NodeStore Wire.symbolic) l₁) e := by
  intro h
  have hrule := (onlyAuthorTurns_iff _ _).mp (h _ [.create
    (TinyNode.callBy TinyNode.alice TinyNode.noon) "hi" [⟨[5, 6], "cat.png"⟩] (some 3600) none]
    strangersMessage [] rfl)
  have htarget : tombstoneTarget TinyNode.primitives TinyNode.hiDigest = some TinyNode.hiKey := by
    decide +kernel
  have hauthor : (TinyNode.afterHi.livePost TinyNode.hiKey).map PostRow.authorPubkey
      = some TinyNode.alice := by decide +kernel
  obtain ⟨row, hlive, hrow⟩ := Option.map_eq_some_iff.mp hauthor
  have hstranger : ([9] : IdentityKey) = row.authorPubkey := hrule _ row htarget hlive
  rw [hrow] at hstranger
  exact absurd hstranger (by decide)

end NodeStore
