/-
# How long a tombstone is kept (`gc.rs`, `services/post.rs`, `gossip_ingest.rs`)

A tombstone is to be "retained for 3x their original TTL", so that a late copy of the deleted
post is recognised.  The second phase of a sweep observes this.  The last phase does not: it
deletes every row of a destroyed epoch.  And while the moderation ingest leaves a tombstone
alone, `delete` sets `tombstone_at` anew, so that with a clock that was set back the time starts
too early.

`retains_of_meets` says that nothing else shortens the time, over any run of the node, and
`keepsTombstones_iff` that each event keeps all tombstones exactly under this condition.
-/
import Ephemera.NodeRun

namespace PostRow

/-- `is_tombstone = 1`, with `t` as `tombstone_at`. -/
def DeletedAt (row : PostRow) (t : Int64) : Prop :=
  row.isTombstone = 1 ∧ row.tombstoneAt = some t

/-- `tombstone_at + ttl_seconds * 3`. -/
def retainedUntil (row : PostRow) (t : Int64) : ℤ := t.toInt + row.ttlSeconds.toInt * 3

end PostRow

namespace NodeStore

open GuardedRun StateExcept GarbageCollector ModerationService

variable {W : Wire}

/-! ## Retention -/

/-- The tombstone of the post is stored, and no payload brings the post back to life. -/
def Recognised (P : NodePrimitives) (s : NodeStore W) (key : List UInt8) : Prop :=
  (∃ row, s.db.posts.get? key = some row ∧ row.isTombstone = 1) ∧
    ∀ now abuse payload, (s.gossipIngest P now abuse payload).livePost key = none

/-- In the run, a tombstone since `t` is recognised for as long as no sweep comes later than
three times its TTL after `t`. -/
def RetainsTombstones (P : NodePrimitives) (s : NodeStore W) (events : List StoreEvent) : Prop :=
  ∀ l₁ l₂ l₃, events = l₁ ++ (l₂ ++ l₃) → ∀ key row t,
    (run (step P) s l₁).db.posts.get? key = some row → row.DeletedAt t →
      (∀ config order now, StoreEvent.sweep config order now ∈ l₂ →
        now.secs.toInt64.toInt ≤ row.retainedUntil t) →
      Recognised P (run (step P) s (l₁ ++ l₂)) key

/-- The event keeps each tombstone that it may not purge, with a window as long. -/
def KeepsTombstones (P : NodePrimitives) (s : NodeStore W) (e : StoreEvent) : Prop :=
  ∀ key row t, s.db.posts.get? key = some row → row.DeletedAt t →
    (∀ config order now, e = .sweep config order now →
      now.secs.toInt64.toInt ≤ row.retainedUntil t) →
    ∃ row' t', (step P s e).db.posts.get? key = some row' ∧ row'.DeletedAt t' ∧ t ≤ t' ∧
      row'.ttlSeconds = row.ttlSeconds

/-- The report names the post, is taken in, and reaches the threshold. -/
def ReportMarks (s : NodeStore W) (env : PostEnv) (hash reason : String) (key : List UInt8) :
    Prop :=
  ∃ loc bytes, env.identity = .ok loc ∧ Hex.decode hash = .ok bytes ∧ bytes.length = 32 ∧
    (ContentId.fromDigest bytes).toWireBytes = key ∧
    s.reports.countP (fun r => decide (r.reporter = loc)) < maxReportsPerReporterPerDay ∧
    s.reports.any (fun r => decide (r.reporter = loc) &&
      decide (r.contentId = ContentId.fromDigest bytes)) = false ∧
    tombstoneThreshold ≤ reporterCount
      (s.reports ++ [⟨loc, ContentId.fromDigest bytes, ReportReason.fromStr reason⟩])
      (ContentId.fromDigest bytes)

/-- No tombstone among the named posts is younger than `now`. -/
def NoneYounger (s : NodeStore W) (now : ClockReading) (named : List UInt8 → Prop) : Prop :=
  ∀ key row t, named key → s.db.posts.get? key = some row → row.DeletedAt t →
    t ≤ now.secs.toInt64

/-- **The condition on an event.**  The clock of a deletion is not behind an earlier one of the
same post, and a sweep that is completed ends no epoch that has a tombstone within its time. -/
def Retaining (s : NodeStore W) : StoreEvent → Prop
  | .delete env hashHex => NoneYounger s env.now (fun key => postKey hashHex = .ok key)
  | .deleteAndPropagate env _ hashHex =>
    NoneYounger s env.now (fun key => postKey hashHex = .ok key)
  | .report env hash reason => NoneYounger s env.now (ReportMarks s env hash reason)
  | .sweep config order now => UpdateFits config order now.secs.toInt64 s.db →
      ∀ key row t, s.db.posts.get? key = some row → row.DeletedAt t →
        now.secs.toInt64.toInt ≤ row.retainedUntil t →
          epochEnds now.secs.toInt64 s.db row.epochNumber = false
  | _ => True

/-! ## What each event does to a tombstone -/

/-- A stored tombstone is recognised. -/
theorem recognised_of_get? (P : NodePrimitives) {s : NodeStore W} {key : List UInt8}
    {row : PostRow} (hrow : s.db.posts.get? key = some row) (htomb : row.isTombstone = 1) :
    Recognised P s key := by
  refine ⟨⟨row, hrow, htomb⟩, fun now abuse payload => ?_⟩
  rw [livePost, get?_posts_gossipIngest hrow now abuse payload]
  simp [Option.filter, htomb]

/-- The event marks the posts that are `named`, also those that are tombstones already, and
leaves the others. -/
def MarksAgain (s s' : NodeStore W) (now : Int64) (named : List UInt8 → Prop) : Prop :=
  ∀ key, named key ∧ s'.db.posts.get? key = (s.db.posts.get? key).map (PostRow.tombstoned now) ∨
    ¬ named key ∧ s'.db.posts.get? key = s.db.posts.get? key

/-- A deletion marks the post it names. -/
theorem marksAgain_delete (now : ClockReading) (hashHex : String) (s : NodeStore W) :
    MarksAgain s (exec (PostService.delete now hashHex) s).2 now.secs.toInt64
      (fun key => postKey hashHex = .ok key) := by
  intro key
  rw [get?_posts_delete]
  by_cases hkey : postKey hashHex = .ok key
  · exact .inl ⟨hkey, by simp [hkey]⟩
  · exact .inr ⟨hkey, by simp [hkey]⟩

/-- What the condition says once the identity and the hash are read. -/
theorem reportMarks_iff {env : PostEnv} {hash reason : String} {s : NodeStore W} {key : List UInt8}
    {loc : IdentityKey} {bytes : List UInt8} (hid : env.identity = .ok loc)
    (hdec : Hex.decode hash = .ok bytes) :
    ReportMarks s env hash reason key ↔ bytes.length = 32 ∧
      (ContentId.fromDigest bytes).toWireBytes = key ∧
      s.reports.countP (fun r => decide (r.reporter = loc)) < maxReportsPerReporterPerDay ∧
      s.reports.any (fun r => decide (r.reporter = loc) &&
        decide (r.contentId = ContentId.fromDigest bytes)) = false ∧
      tombstoneThreshold ≤ reporterCount
        (s.reports ++ [⟨loc, ContentId.fromDigest bytes, ReportReason.fromStr reason⟩])
        (ContentId.fromDigest bytes) := by
  constructor
  · rintro ⟨loc', bytes', hid', hdec', h⟩
    rw [hid, Except.ok.injEq] at hid'
    rw [hdec, Except.ok.injEq] at hdec'
    subst hid' hdec'
    exact h
  · exact fun h => ⟨loc, bytes, hid, hdec, h⟩

/-- A report marks the post it names once it reaches the threshold. -/
theorem marksAgain_report (env : PostEnv) (hash reason : String) (s : NodeStore W) :
    MarksAgain s (exec (ModerationService.report env hash reason) s).2 env.now.secs.toInt64
      (ReportMarks s env hash reason) := by
  intro key
  unfold ModerationService.report
  cases hid : env.identity with
  | error e =>
    refine .inr ⟨?_, rfl⟩
    rintro ⟨loc, -, hloc, -⟩
    rw [hid] at hloc
    cases hloc
  | ok loc =>
    cases hdec : Hex.decode hash with
    | error e =>
      refine .inr ⟨?_, rfl⟩
      rintro ⟨-, bytes, -, hbytes, -⟩
      rw [hdec] at hbytes
      cases hbytes
    | ok bytes =>
      rw [reportMarks_iff hid hdec]
      simp only [exec_bind, exec_lift, Except.mapError]
      by_cases hlen : bytes.length ≠ 32
      · rw [if_pos hlen]
        exact .inr ⟨fun h => hlen h.1, rfl⟩
      · rw [if_neg hlen]
        simp only [exec_bind, exec_get]
        split
        · rename_i hmany
          exact .inr ⟨fun h => absurd h.2.2.1 (not_lt.mpr hmany), rfl⟩
        · rename_i hfew
          rw [exec_bind, exec_mapErr, exec_createReport]
          cases hdup : s.reports.any (fun r => decide (r.reporter = loc) &&
              decide (r.contentId = ContentId.fromDigest bytes)) with
          | true => exact .inr ⟨fun h => (by simpa using h.2.2.2.1 : False), rfl⟩
          | false =>
            simp only [Bool.false_eq_true, if_false, Except.mapError, exec_bind, exec_get]
            split
            · rename_i hthreshold
              have hdel := marksAgain_delete env.now hash { s with
                reports := s.reports ++
                  [⟨loc, ContentId.fromDigest bytes, ReportReason.fromStr reason⟩] } key
              simp only [postKey_of_decode hdec (not_not.mp hlen), Except.ok.injEq] at hdel
              rcases hdel with ⟨hnamed, hget⟩ | ⟨hnamed, hget⟩
              · exact .inl ⟨⟨not_not.mp hlen, hnamed, not_le.mp hfew, trivial, hthreshold⟩, hget⟩
              · exact .inr ⟨fun h => hnamed h.2.1, hget⟩
            · rename_i hthreshold
              exact .inr ⟨fun h => hthreshold h.2.2.2.2, rfl⟩

/-- The tombstone of one post, after a step that leaves its row. -/
theorem kept_of_get? {s' : NodeStore W} {key : List UInt8} {row : PostRow} {t : Int64}
    (hrow : s'.db.posts.get? key = some row) (htomb : row.DeletedAt t) :
    ∃ row' t', s'.db.posts.get? key = some row' ∧ row'.DeletedAt t' ∧ t ≤ t' ∧
      row'.ttlSeconds = row.ttlSeconds :=
  ⟨row, t, hrow, htomb, Int64.le_refl t, rfl⟩

/-- A step that marks posts again keeps the tombstones if its clock is not behind them. -/
theorem keepsTombstones_iff_noneYounger {P : NodePrimitives} {s : NodeStore W} {e : StoreEvent}
    {now : ClockReading} {named : List UInt8 → Prop}
    (h : MarksAgain s (step P s e) now.secs.toInt64 named)
    (hsweep : ∀ config order now, e ≠ .sweep config order now) :
    KeepsTombstones P s e ↔ NoneYounger s now named := by
  constructor
  · intro hkeep key row t hnamed hrow htomb
    obtain ⟨row', t', hrow', htomb', hle, -⟩ := hkeep key row t hrow htomb
      (fun config order now he => absurd he (hsweep config order now))
    rcases h key with ⟨-, hget⟩ | ⟨hnot, -⟩
    · rw [hget, hrow, Option.map_some, Option.some.injEq] at hrow'
      have hnow : t' = now.secs.toInt64 := by
        rw [← hrow'] at htomb'
        exact (Option.some.inj htomb'.2).symm
      exact hnow ▸ hle
    · exact absurd hnamed hnot
  · intro hyoung key row t hrow htomb _
    rcases h key with ⟨hnamed, hget⟩ | ⟨-, hget⟩
    · refine ⟨row.tombstoned now.secs.toInt64, now.secs.toInt64, ?_, ⟨rfl, rfl⟩,
        hyoung key row t hnamed hrow htomb, rfl⟩
      rw [hget, hrow, Option.map_some]
    · exact kept_of_get? (hget.trans hrow) htomb

/-- A tombstone within its time is not purged. -/
theorem isPurgeable_eq_false {row : PostRow} {t now : Int64} (htomb : row.DeletedAt t)
    (hnow : now.toInt ≤ row.retainedUntil t) : isPurgeable now row = false := by
  have hlate : ¬ t.toInt + row.ttlSeconds.toInt * 3 < now.toInt := not_lt.mpr hnow
  rw [isPurgeable, htomb.2, Option.any_some, decide_eq_false hlate, Bool.and_false]

/-- A sweep leaves a tombstone within its time unless it is completed and the epoch ends. -/
theorem get?_posts_sweep_tombstone {config : GcConfig} {order : SweepOrder} {now : Int64}
    {s : NodeStore W} {key : List UInt8} {row : PostRow} {t : Int64}
    (hrow : s.db.posts.get? key = some row) (htomb : row.DeletedAt t)
    (hnow : now.toInt ≤ row.retainedUntil t) :
    (sweep config order now s).2.db.posts.get? key
      = if UpdateFits config order now s.db ∧ epochEnds now s.db row.epochNumber = true then none
        else some row := by
  have hmark : marked config order now s.db key row = row := by
    refine if_neg (fun hmem => ?_)
    have hzero := (isExpired_iff.mp (expired_of_mem_batch hmem hrow)).2
    rw [htomb.1] at hzero
    exact absurd hzero (by decide)
  by_cases hfits : UpdateFits config order now s.db
  · rw [sweep_of_fits hfits, get?_posts_completeSweep, hrow, Option.map_some, hmark]
    cases hends : epochEnds now s.db row.epochNumber <;>
      simp [Option.filter, isPurgeable_eq_false htomb hnow, hends, hfits]
  · rw [sweep_of_not_fits hfits, (sameButMedia_withoutMedia config order now s).posts, hrow,
      if_neg (fun h => hfits h.1)]

/-- **Each event.**  It keeps all tombstones for their time exactly under the condition. -/
theorem keepsTombstones_iff (P : NodePrimitives) (s : NodeStore W) (e : StoreEvent) :
    KeepsTombstones P s e ↔ Retaining s e := by
  cases e with
  | create env body mediaFiles ttlSeconds parent =>
    refine ⟨fun _ => trivial, fun _ key row t hrow htomb _ => ?_⟩
    exact kept_of_get? (get?_posts_create hrow _ _ _ _ _) htomb
  | delete env hashHex =>
    exact keepsTombstones_iff_noneYounger (marksAgain_delete env.now hashHex s) (by simp)
  | deleteAndPropagate env network hashHex =>
    refine keepsTombstones_iff_noneYounger ?_ (by simp)
    rw [step, exec_deleteAndPropagate]
    exact marksAgain_delete env.now hashHex s
  | gossip now abuse payload =>
    refine ⟨fun _ => trivial, fun _ key row t hrow htomb _ => ?_⟩
    exact kept_of_get? (get?_posts_gossipIngest hrow _ _ _) htomb
  | moderation now publisher payload =>
    refine ⟨fun _ => trivial, fun _ key row t hrow htomb _ => ?_⟩
    refine kept_of_get? ?_ htomb
    -- the message marks only posts that are not tombstones
    have hlive : ¬ row.isTombstone = 0 := by
      rw [htomb.1]
      decide
    rw [step, get?_posts_moderationIngest, hrow, Option.map_some,
      if_neg (fun h => hlive h.2)]
  | report env hash reason =>
    exact keepsTombstones_iff_noneYounger (marksAgain_report env hash reason s) (by simp)
  | seedReport reporter contentId reason =>
    refine ⟨fun _ => trivial, fun _ key row t hrow htomb _ => ?_⟩
    refine kept_of_get? ?_ htomb
    rw [step, db_seedReport]
    exact hrow
  | sweep config order now =>
    constructor
    · intro hkeep hfits key row t hrow htomb hnow
      obtain ⟨row', t', hrow', -⟩ := hkeep key row t hrow htomb (by
        rintro _ _ _ ⟨rfl, rfl, rfl⟩
        exact hnow)
      rw [step, get?_posts_sweep_tombstone hrow htomb hnow] at hrow'
      by_contra hends
      rw [if_pos ⟨hfits, by simpa using hends⟩] at hrow'
      cases hrow'
    · intro hends key row t hrow htomb hnow
      have hnow := hnow config order now rfl
      refine kept_of_get? ?_ htomb
      rw [step, get?_posts_sweep_tombstone hrow htomb hnow, if_neg]
      rintro ⟨hfits, hends'⟩
      rw [hends hfits key row t hrow htomb hnow] at hends'
      cases hends'

/-! ## Runs -/

/-- A tombstone stays through a run that meets the condition, and its time only gets longer. -/
theorem kept_run {P : NodePrimitives} {s : NodeStore W} {events : List StoreEvent}
    (hmeets : Meets (step P) Retaining s events) {key : List UInt8} {row : PostRow} {t : Int64}
    (hrow : s.db.posts.get? key = some row) (htomb : row.DeletedAt t)
    (hsweep : ∀ config order now, StoreEvent.sweep config order now ∈ events →
      now.secs.toInt64.toInt ≤ row.retainedUntil t) :
    ∃ row' t', (run (step P) s events).db.posts.get? key = some row' ∧ row'.DeletedAt t' := by
  induction events generalizing s row t with
  | nil => exact ⟨row, t, hrow, htomb⟩
  | cons e events ih =>
    obtain ⟨row', t', hrow', htomb', hle, httl⟩ :=
      (keepsTombstones_iff P s e).mpr hmeets.1 key row t hrow htomb
        (fun config order now he => hsweep config order now (by simp [he]))
    have hlonger : row.retainedUntil t ≤ row'.retainedUntil t' := by
      have hle' : t.toInt ≤ t'.toInt := Int64.le_iff_toInt_le.mp hle
      unfold PostRow.retainedUntil
      rw [httl]
      omega
    exact ih hmeets.2 hrow' htomb' (fun config order now hmem =>
      (hsweep config order now (List.mem_cons_of_mem e hmem)).trans hlonger)

/-- A run that meets the condition keeps the tombstones for their time. -/
theorem retains_of_meets {P : NodePrimitives} {s : NodeStore W} {events : List StoreEvent}
    (hmeets : Meets (step P) Retaining s events) : RetainsTombstones P s events := by
  rintro l₁ l₂ l₃ rfl key row t hrow htomb hsweep
  obtain ⟨-, hrest⟩ := meets_append.mp hmeets
  obtain ⟨row', t', hrow', htomb'⟩ := kept_run (meets_append.mp hrest).1 hrow htomb hsweep
  rw [run_append]
  exact recognised_of_get? P hrow' htomb'.1

/-- **Tombstones are kept for three times their TTL**, in every run whose events meet the
condition; and these are the runs in which no event takes a tombstone or shortens its time. -/
theorem tombstones_retained (P : NodePrimitives) (s : NodeStore W) (events : List StoreEvent) :
    (Meets (step P) Retaining s events → RetainsTombstones P s events) ∧
      (Meets (step P) Retaining s events ↔ ∀ l₁ e l₂, events = l₁ ++ e :: l₂ →
        KeepsTombstones P (run (step P) s l₁) e) := by
  refine ⟨retains_of_meets, ?_⟩
  rw [meets_iff_forall_split]
  simp only [keepsTombstones_iff]

/-- A run that takes a tombstone before its time is over. -/
theorem not_retains_of_gone {P : NodePrimitives} {s : NodeStore W} (l₁ : List StoreEvent)
    {l₂ : List StoreEvent} {key : List UInt8} {row : PostRow} {t : Int64}
    (hrow : (run (step P) s l₁).db.posts.get? key = some row) (htomb : row.DeletedAt t)
    (hsweep : ∀ config order now, StoreEvent.sweep config order now ∈ l₂ →
      now.secs.toInt64.toInt ≤ row.retainedUntil t)
    (hgone : ((run (step P) s (l₁ ++ l₂)).db.posts.get? key).isNone = true) :
    ¬ RetainsTombstones P s (l₁ ++ l₂) := by
  intro h
  obtain ⟨⟨row', hrow', -⟩, -⟩ := h l₁ l₂ [] (by rw [List.append_nil]) key row t hrow htomb hsweep
  rw [Option.isNone_iff_eq_none.mp hgone] at hrow'
  cases hrow'

/-! ## Two tombstones that are lost -/

open TinyNode

theorem afterEpoch_lt : (1700000002 : UInt64).toNat < 2 ^ 63 := by decide

theorem laterThatDay_lt : (1700003000 : UInt64).toNat < 2 ^ 63 := by decide

theorem threeHoursLater_lt : (1700010801 : UInt64).toNat < 2 ^ 63 := by decide

/-- Two seconds after the post. -/
def afterEpoch : ClockReading := ⟨1700000002, afterEpoch_lt⟩

/-- Fifty minutes after the post. -/
def laterThatDay : ClockReading := ⟨1700003000, laterThatDay_lt⟩

/-- Three times its TTL after the post, and a second. -/
def threeHoursLater : ClockReading := ⟨1700010801, threeHoursLater_lt⟩

/-- The post `hi` in a database with the key of its epoch, which expires one second later. -/
def withEpochKey : NodeStore Wire.symbolic :=
  { afterHi with db := { afterHi.db with
      epochKeys := SqlTable.empty.insertOrReplace 1 ⟨1700000001, 0, none⟩ } }

/-- `alice` deletes her post. -/
def deletesHi (now : ClockReading) : StoreEvent := .delete (callBy alice now) (Hex.encode hiDigest)

/-- The post is a tombstone after its deletion. -/
theorem get?_deletesHi {s : NodeStore Wire.symbolic} (hrow : s.db.posts.get? hiKey = some hiRow)
    (now : ClockReading) : (step primitives s (deletesHi now)).db.posts.get? hiKey
      = some (hiRow.tombstoned now.secs.toInt64) := by
  have hkey : postKey (Hex.encode hiDigest) = .ok hiKey := by decide +kernel
  rw [deletesHi, step, get?_posts_delete, hrow, Option.map_some, if_pos hkey]
  rfl

/-- **Two tombstones are lost within their time.**  One belongs to an epoch that ends, two
seconds after the post; the other is deleted again by a clock that was set back by fifty
minutes, and a sweep takes it when the time after the earlier reading is over. -/
theorem tombstones_lost :
    ¬ RetainsTombstones primitives withEpochKey
        [deletesHi noon, .sweep {} .asListed afterEpoch] ∧
      ¬ RetainsTombstones primitives afterHi
        [deletesHi laterThatDay, deletesHi noon, .sweep {} .asListed threeHoursLater] := by
  constructor
  · have hrow : withEpochKey.db.posts.get? hiKey = some hiRow := get?_hiRow
    refine not_retains_of_gone [deletesHi noon] (get?_deletesHi hrow noon) ⟨rfl, rfl⟩ ?_
      (by decide +kernel)
    intro config order now hmem
    rw [List.mem_singleton, StoreEvent.sweep.injEq] at hmem
    obtain ⟨-, -, rfl⟩ := hmem
    decide +kernel
  · refine not_retains_of_gone [deletesHi laterThatDay]
      (get?_deletesHi get?_hiRow laterThatDay) ⟨rfl, rfl⟩ ?_ (by decide +kernel)
    intro config order now hmem
    rw [List.mem_cons, List.mem_singleton, StoreEvent.sweep.injEq] at hmem
    rcases hmem with hdel | ⟨-, -, rfl⟩
    · cases hdel
    · decide +kernel

end NodeStore
