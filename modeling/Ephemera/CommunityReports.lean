/-
# Reports of the community (`services/social.rs`, `ephemera-mod/src/report.rs`)

`ModerationService::report` keeps its reports in memory, and copies them into the table
`reports`, which "survives restart" but which nothing reads.  A reporter with
`MAX_REPORTS_PER_REPORTER_PER_DAY` reports is ignored, counting all reports since the start of
the node.  From `TOMBSTONE_THRESHOLD` distinct reporters on, each further report tombstones the
content and penalises its author again.

`counted_once_iff_meets` is the exact condition on a run for the limit to be one of a day, the
penalty to be given once, and the counts to outlive a restart.
-/
import Ephemera.NodeRun
import Mathlib.Data.Finset.Card

/-- `ReputationEvent`. -/
inductive ReputationEvent where
  | postCreated
  | reactionReceived
  | connectionFormed
  | contentReported
  | rateLimitViolation
  | communityTombstone
  deriving DecidableEq, Repr

/-- The text of a reason in the table `reports`. -/
def ReportReason.text : ReportReason → String
  | .harassment => "harassment"
  | .hateSpeech => "hate_speech"
  | .violence => "violence"
  | .spam => "spam"
  | .csam => "csam"
  | .impersonation => "impersonation"
  | .other text => text

/-- A row of `reports`; the key is the reporter and the content. -/
structure ReportRow where
  reason : String
  createdAt : Int64

/-- What `report` works on: the store with the reports in memory, the table `reports`, and the
events that `record_event` has taken for each identity. -/
structure ModerationNode (W : Wire) where
  store : NodeStore W
  reportRows : SqlTable (IdentityKey × List UInt8) ReportRow
  reputation : List (IdentityKey × ReputationEvent)

namespace CommunityReports

open GuardedRun StateExcept ModerationService

variable {W : Wire}

/-! ## The call -/

/-- The content that a text of 64 hexadecimal digits names. -/
def contentOf (hash : String) : Option ContentId :=
  match Hex.decode hash with
  | .ok bytes => if bytes.length = 32 then some (ContentId.fromDigest bytes) else none
  | .error _ => none

/-- `lookup_post_author`: the author of the row, also when it is a tombstone. -/
def lookupPostAuthor (hash : String) (posts : SqlTable (List UInt8) PostRow) :
    Option IdentityKey :=
  (contentOf hash).bind (fun id =>
    ((posts.get? id.toWireBytes).map PostRow.authorPubkey).filter
      (fun key => decide (key.length = identityKeyLen)))

/-- A call on the store of the node. -/
def onStore {α : Type} (m : PostM W α) : StateExcept String (ModerationNode W) α :=
  ExceptT.mk fun s => ((exec m s.store).1, { s with store := (exec m s.store).2 })

/-- `ModerationService::report`, with the row it stores and the penalty it gives. -/
def report (env : PostEnv) (hash reason : String) :
    StateExcept String (ModerationNode W) ReportAnswer := do
  let loc ← env.identity
  let bytes ← ((Hex.decode hash).mapError (fun e => "bad hash: " ++ e) :
    Except String (List UInt8))
  if bytes.length ≠ 32 then throw "content hash must be 32 bytes hex"
  else
    let contentId := ContentId.fromDigest bytes
    -- all reports since the start of the node, whatever their day
    let filed := (← get).store.reports.countP (fun r => decide (r.reporter = loc))
    if maxReportsPerReporterPerDay ≤ filed then return .queuedForReview
    else
      StateExcept.mapErr (fun e => "create report: " ++ e)
        (onStore (createReport loc contentId (ReportReason.fromStr reason)))
      let reportCount := reporterCount (← get).store.reports contentId
      modify fun s => { s with
        reportRows := s.reportRows.insertOrIgnore (loc, contentId.toWireBytes)
          ⟨(ReportReason.fromStr reason).text, env.now.secs.toInt64⟩ }
      -- at every report from here on, not only at the one that reaches the threshold
      if tombstoneThreshold ≤ reportCount then
        modify fun s => { s with store := (exec (PostService.delete env.now hash) s.store).2 }
        modify fun s => { s with
          reputation := s.reputation ++ (lookupPostAuthor hash s.store.db.posts).toList.map
            (fun author => (author, .communityTombstone)) }
        return .tombstoned reportCount
      else return .reported

/-! ## Runs -/

/-- A report that was taken in, and when. -/
structure Filed where
  reporter : IdentityKey
  contentId : ContentId
  time : UInt64

/-- A node, and a record of all reports that it has taken in, also before a restart. -/
structure Ledger (W : Wire) where
  node : ModerationNode W
  filed : List Filed

/-- A report, a restart, or anything that happens to the posts. -/
inductive Op where
  | report (env : PostEnv) (hash reason : String)
  | restart
  | setPosts (posts : SqlTable (List UInt8) PostRow)

/-- The record of a report: it is taken in unless it fails or is put off. -/
def filing (env : PostEnv) (hash : String) : Except String ReportAnswer → List Filed
  | .ok .reported | .ok (.tombstoned _) =>
    match env.identity, contentOf hash with
    | .ok loc, some contentId => [⟨loc, contentId, env.now.secs⟩]
    | _, _ => []
  | _ => []

namespace Ledger

/-- The node after an operation.  A restart keeps the database and starts with no reports and no
reputation in memory. -/
def step (s : Ledger W) : Op → Ledger W
  | .report env hash reason =>
    { node := (exec (report env hash reason) s.node).2
      filed := s.filed ++ filing env hash (exec (report env hash reason) s.node).1 }
  -- the rows of `reports` stay, and nothing reads them back
  | .restart => { s with
      node := { s.node with store := { s.node.store with reports := [] }, reputation := [] } }
  | .setPosts posts => { s with
      node := { s.node with
        store := { s.node.store with db := { s.node.store.db with posts := posts } } } }

/-- A new node. -/
def new : Ledger W := ⟨⟨.empty, .empty, []⟩, []⟩

/-- The reports in memory. -/
def reports (s : Ledger W) : List Report := s.node.store.reports

/-- How many identities have reported the content, restarts notwithstanding. -/
def reporters (s : Ledger W) (contentId : ContentId) : ℕ :=
  ((s.filed.filter (fun f => decide (f.contentId = contentId))).map Filed.reporter).dedup.length

/-- How many reports of the identity were taken in within the 24 hours before `now`. -/
def recent (s : Ledger W) (reporter : IdentityKey) (now : UInt64) : ℕ :=
  s.filed.countP (fun f => decide (f.reporter = reporter) && decide (f.time.toNat ≤ now.toNat) &&
    decide (now.toNat ≤ f.time.toNat + 86400))

/-- The report is put off. -/
def Ignored (s : Ledger W) (env : PostEnv) (hash reason : String) : Prop :=
  (exec (report env hash reason) s.node).1 = .ok .queuedForReview

/-- **The rules of reporting** for one operation: a report is put off only when the day is used
up, the author is penalised exactly when the threshold is first reached, and a restart keeps the
counts. -/
def CountsOnce (s : Ledger W) : Op → Prop
  | .report env hash reason =>
    (∀ loc, env.identity = .ok loc → s.Ignored env hash reason →
      maxReportsPerReporterPerDay ≤ s.recent loc env.now.secs) ∧
    ∀ contentId, contentOf hash = some contentId →
      (s.step (.report env hash reason)).node.reputation = s.node.reputation ++
        if s.reporters contentId < tombstoneThreshold ∧
            tombstoneThreshold ≤ (s.step (.report env hash reason)).reporters contentId
        then (lookupPostAuthor hash s.node.store.db.posts).toList.map
          (fun author => (author, .communityTombstone))
        else []
  | .restart => ∀ contentId, reporterCount (s.step .restart).reports contentId
      = reporterCount s.reports contentId
  | .setPosts _ => True

/-- The author of the content is penalised by the operation. -/
def Penalises (s : Ledger W) (contentId : ContentId) (op : Op) : Prop :=
  ∃ env hash reason, op = .report env hash reason ∧ contentOf hash = some contentId ∧
    (s.step op).node.reputation ≠ s.node.reputation

/-- The number of reports of an identity in memory. -/
def filedBy (s : Ledger W) (reporter : IdentityKey) : ℕ :=
  s.reports.countP (fun r => decide (r.reporter = reporter))

/-- The identity has a report of the content in memory. -/
def hasReported (s : Ledger W) (reporter : IdentityKey) (contentId : ContentId) : Bool :=
  s.reports.any (fun r => decide (r.reporter = reporter) && decide (r.contentId = contentId))

/-- **The condition on an operation.**  Whoever has used up the limit has done so within a day,
a report that is taken in is for a content without a known author or below the threshold, and a
restart comes when there are no reports. -/
def Within (s : Ledger W) : Op → Prop
  | .report env hash _ => ∀ loc contentId, env.identity = .ok loc →
      contentOf hash = some contentId →
        (maxReportsPerReporterPerDay ≤ s.filedBy loc →
          maxReportsPerReporterPerDay ≤ s.recent loc env.now.secs) ∧
        (s.filedBy loc < maxReportsPerReporterPerDay → s.hasReported loc contentId = false →
          lookupPostAuthor hash s.node.store.db.posts ≠ none →
            reporterCount s.reports contentId < tombstoneThreshold)
  | .restart => s.reports = []
  | .setPosts _ => True

end Ledger

/-! ## What a report does -/

@[simp] theorem exec_onStore {α : Type} (m : PostM W α) (s : ModerationNode W) :
    exec (onStore m) s = ((exec m s.store).1, { s with store := (exec m s.store).2 }) := rfl

/-- The deletion of a post keeps the reports and the authors. -/
theorem reports_delete (now : ClockReading) (hash : String) (s : NodeStore W) :
    (exec (PostService.delete now hash) s).2.reports = s.reports :=
  NodeStore.keeps_delete (f := NodeStore.reports) (fun _ _ => rfl) now hash s

theorem authors_delete (now : ClockReading) (hash : String) (s : NodeStore W) (key : List UInt8) :
    ((exec (PostService.delete now hash) s).2.db.posts.get? key).map PostRow.authorPubkey
      = (s.db.posts.get? key).map PostRow.authorPubkey := by
  rw [NodeStore.get?_posts_delete, Option.map_map]
  congr 1
  funext row
  rw [Function.comp_apply]
  split_ifs <;> rfl

theorem lookupPostAuthor_delete (now : ClockReading) (hash hash' : String) (s : NodeStore W) :
    lookupPostAuthor hash' (exec (PostService.delete now hash) s).2.db.posts
      = lookupPostAuthor hash' s.db.posts := by
  unfold lookupPostAuthor
  congr 1
  funext id
  rw [authors_delete]

/-- A report that is taken in: it is listed, and beyond the threshold the author is penalised. -/
structure TakesIn (s s' : ModerationNode W) (loc : IdentityKey) (contentId : ContentId)
    (reason hash : String) : Prop where
  reports : s'.store.reports
    = s.store.reports ++ [⟨loc, contentId, ReportReason.fromStr reason⟩]
  reputation : s'.reputation = s.reputation ++
    if tombstoneThreshold ≤ reporterCount s'.store.reports contentId
    then (lookupPostAuthor hash s.store.db.posts).toList.map
      (fun author => (author, .communityTombstone))
    else []

/-- **What a report does.**  It fails, is put off, or is taken in. -/
theorem exec_report (env : PostEnv) (hash reason : String) (s : ModerationNode W) :
    (∃ e, exec (report env hash reason) s = (.error e, s) ∧ ∀ loc contentId,
      env.identity = .ok loc → contentOf hash = some contentId →
        s.store.reports.countP (fun r => decide (r.reporter = loc)) < maxReportsPerReporterPerDay ∧
        s.store.reports.any (fun r => decide (r.reporter = loc) &&
          decide (r.contentId = contentId)) = true) ∨
    (exec (report env hash reason) s = (.ok .queuedForReview, s) ∧ ∃ loc contentId,
      env.identity = .ok loc ∧ contentOf hash = some contentId ∧
        maxReportsPerReporterPerDay ≤ s.store.reports.countP (fun r => decide (r.reporter = loc))) ∨
    ∃ answer s' loc contentId, exec (report env hash reason) s = (.ok answer, s') ∧
      answer ≠ .queuedForReview ∧ env.identity = .ok loc ∧ contentOf hash = some contentId ∧
      s.store.reports.countP (fun r => decide (r.reporter = loc)) < maxReportsPerReporterPerDay ∧
      s.store.reports.any (fun r => decide (r.reporter = loc) &&
        decide (r.contentId = contentId)) = false ∧
      TakesIn s s' loc contentId reason hash := by
  unfold report contentOf
  cases hid : env.identity with
  | error e =>
    refine Or.inl ⟨e, rfl, ?_⟩
    intro loc contentId h
    cases h
  | ok loc =>
    cases hdec : Hex.decode hash with
    | error e =>
      refine Or.inl ⟨_, rfl, ?_⟩
      intro _ contentId _ h
      cases h
    | ok bytes =>
      simp only [exec_bind, exec_lift, Except.mapError]
      by_cases hlen : bytes.length ≠ 32
      · rw [if_pos hlen, if_neg hlen]
        refine Or.inl ⟨_, rfl, ?_⟩
        intro _ contentId _ h
        cases h
      · rw [if_neg hlen, if_pos (not_not.mp hlen)]
        simp only [exec_bind, exec_get, Except.ok.injEq, Option.some.injEq]
        by_cases hmany : maxReportsPerReporterPerDay
            ≤ s.store.reports.countP (fun r => decide (r.reporter = loc))
        · rw [if_pos hmany]
          exact Or.inr (Or.inl ⟨rfl, loc, _, rfl, rfl, hmany⟩)
        · rw [if_neg hmany, exec_bind, exec_mapErr, exec_onStore, NodeStore.exec_createReport]
          cases hdup : s.store.reports.any (fun r => decide (r.reporter = loc) &&
              decide (r.contentId = ContentId.fromDigest bytes)) with
          | true =>
            refine Or.inl ⟨_, rfl, ?_⟩
            rintro loc' contentId rfl rfl
            exact ⟨not_le.mp hmany, hdup⟩
          | false =>
            simp only [Bool.false_eq_true, if_false, Except.mapError, exec_bind, exec_get,
              exec_modify]
            refine Or.inr (Or.inr ?_)
            split
            · rename_i hthreshold
              refine ⟨_, _, loc, _, rfl, by simp, rfl, rfl, not_le.mp hmany, hdup, ?_, ?_⟩
              · exact reports_delete _ _ _
              · rw [if_pos]
                · exact congrArg (fun author => s.reputation ++ author.toList.map
                    (fun author => (author, ReputationEvent.communityTombstone)))
                    (lookupPostAuthor_delete env.now hash hash _)
                · rw [reports_delete]
                  exact hthreshold
            · rename_i hthreshold
              refine ⟨_, _, loc, _, rfl, by simp, rfl, rfl, not_le.mp hmany, hdup, rfl, ?_⟩
              rw [if_neg hthreshold, List.append_nil]

/-! ## Counting reporters -/

/-- A report by somebody new is one reporter more. -/
theorem reporterCount_append {reports : List Report} {loc : IdentityKey} {contentId : ContentId}
    (hnew : reports.any (fun r => decide (r.reporter = loc) &&
      decide (r.contentId = contentId)) = false) (reason : ReportReason) :
    reporterCount (reports ++ [⟨loc, contentId, reason⟩]) contentId
      = reporterCount reports contentId + 1 := by
  have hnot : loc ∉ ((reports.filter (fun r => decide (r.contentId = contentId))).map
      Report.reporter).toFinset := by
    rw [List.mem_toFinset, List.mem_map]
    rintro ⟨r, hr, rfl⟩
    obtain ⟨hmem, hcontent⟩ := List.mem_filter.mp hr
    rw [List.any_eq_false] at hnew
    exact hnew r hmem (by simpa using hcontent)
  unfold reporterCount
  rw [← List.card_toFinset, ← List.card_toFinset, List.filter_append, List.map_append,
    List.filter_cons_of_pos (by simp), List.filter_nil, List.map_singleton, List.toFinset_append,
    Finset.union_comm, List.toFinset_cons, List.toFinset_nil, insert_empty_eq,
    Finset.singleton_union, Finset.card_insert_of_notMem hnot]

namespace Ledger

/-- The reports in memory are all that were taken in. -/
def Synced (s : Ledger W) : Prop :=
  s.reports.map (fun r => (r.reporter, r.contentId))
    = s.filed.map (fun f => (f.reporter, f.contentId))

/-- As long as the two agree, the reporters in memory are all reporters. -/
theorem Synced.reporterCount_eq {s : Ledger W} (h : s.Synced) (contentId : ContentId) :
    reporterCount s.reports contentId = s.reporters contentId := by
  have hreports : (s.reports.filter (fun r => decide (r.contentId = contentId))).map Report.reporter
      = ((s.reports.map (fun r => (r.reporter, r.contentId))).filter
          (fun pair => decide (pair.2 = contentId))).map Prod.fst := by
    rw [List.filter_map, List.map_map]
    rfl
  have hfiled : (s.filed.filter (fun f => decide (f.contentId = contentId))).map Filed.reporter
      = ((s.filed.map (fun f => (f.reporter, f.contentId))).filter
          (fun pair => decide (pair.2 = contentId))).map Prod.fst := by
    rw [List.filter_map, List.map_map]
    rfl
  rw [reporterCount, reporters, hreports, hfiled, h]

/-- What a report does to the node and the record. -/
theorem step_report_cases (s : Ledger W) (env : PostEnv) (hash reason : String) :
    (s.step (.report env hash reason) = s ∧ ¬s.Ignored env hash reason ∧ ∀ loc contentId,
      env.identity = .ok loc → contentOf hash = some contentId →
        s.filedBy loc < maxReportsPerReporterPerDay ∧ s.hasReported loc contentId = true) ∨
    (s.step (.report env hash reason) = s ∧ s.Ignored env hash reason ∧ ∃ loc contentId,
      env.identity = .ok loc ∧ contentOf hash = some contentId ∧
        maxReportsPerReporterPerDay ≤ s.filedBy loc) ∨
    (¬s.Ignored env hash reason ∧ ∃ loc contentId,
      env.identity = .ok loc ∧ contentOf hash = some contentId ∧
        s.filedBy loc < maxReportsPerReporterPerDay ∧ s.hasReported loc contentId = false ∧
        TakesIn s.node (s.step (.report env hash reason)).node loc contentId reason hash ∧
        (s.step (.report env hash reason)).filed
          = s.filed ++ [⟨loc, contentId, env.now.secs⟩]) := by
  rcases exec_report env hash reason s.node with ⟨e, hexec, hall⟩ |
    ⟨hexec, loc, contentId, hid, hcontent, hmany⟩ |
    ⟨answer, s', loc, contentId, hexec, hanswer, hid, hcontent, hfew, hnew, htakes⟩
  · refine Or.inl ⟨?_, ?_, hall⟩
    · rw [step, hexec]
      exact congrArg (Ledger.mk s.node) (List.append_nil s.filed)
    · rw [Ignored, hexec]
      simp
  · refine Or.inr (Or.inl ⟨?_, ?_, loc, contentId, hid, hcontent, hmany⟩)
    · rw [step, hexec]
      exact congrArg (Ledger.mk s.node) (List.append_nil s.filed)
    · rw [Ignored, hexec]
  · refine Or.inr (Or.inr ⟨?_, loc, contentId, hid, hcontent, hfew, hnew, ?_, ?_⟩)
    · rw [Ignored, hexec, Except.ok.injEq]
      exact hanswer
    · rw [step, hexec]
      exact htakes
    · rw [step, hexec]
      cases answer with
      | queuedForReview => exact absurd rfl hanswer
      | reported => simp only [filing, hid, hcontent]
      | tombstoned n => simp only [filing, hid, hcontent]

/-- A report that is taken in keeps the two in step. -/
theorem synced_takesIn {s s' : Ledger W} (h : s.Synced) {loc : IdentityKey} {contentId : ContentId}
    {reason hash : String} {time : UInt64}
    (htakes : TakesIn s.node s'.node loc contentId reason hash)
    (hfiled : s'.filed = s.filed ++ [⟨loc, contentId, time⟩]) : s'.Synced := by
  unfold Synced reports at h ⊢
  rw [htakes.reports, hfiled, List.map_append, List.map_append, h]
  rfl

/-- An operation under its condition keeps the two in step. -/
theorem synced_step {s : Ledger W} (h : s.Synced) (op : Op) (hop : s.Within op) :
    (s.step op).Synced := by
  cases op with
  | report env hash reason =>
    rcases s.step_report_cases env hash reason with ⟨heq, -⟩ | ⟨heq, -⟩ |
      ⟨-, loc, contentId, -, -, -, -, htakes, hfiled⟩
    · rw [heq]
      exact h
    · rw [heq]
      exact h
    · exact synced_takesIn h htakes hfiled
  | restart =>
    have hempty : s.reports = [] := hop
    unfold Synced at h ⊢
    rw [hempty] at h
    exact h
  | setPosts posts => exact h

/-- The penalty of a report that is taken in, when the reporters in memory are all there are. -/
theorem penalty_iff {s s' : Ledger W} (h : s.Synced) {loc : IdentityKey} {contentId : ContentId}
    {reason hash : String} {time : UInt64}
    (htakes : TakesIn s.node s'.node loc contentId reason hash)
    (hfiled : s'.filed = s.filed ++ [⟨loc, contentId, time⟩])
    (hnew : s.hasReported loc contentId = false) :
    s'.node.reputation = s.node.reputation ++
        (if s.reporters contentId < tombstoneThreshold ∧
            tombstoneThreshold ≤ s'.reporters contentId
        then (lookupPostAuthor hash s.node.store.db.posts).toList.map
          (fun author => (author, .communityTombstone))
        else []) ↔
      (lookupPostAuthor hash s.node.store.db.posts ≠ none →
        reporterCount s.reports contentId < tombstoneThreshold) := by
  have hcount : reporterCount s'.node.store.reports contentId
      = reporterCount s.reports contentId + 1 := by
    rw [htakes.reports]
    exact reporterCount_append hnew _
  have hafter : s'.reporters contentId = reporterCount s.reports contentId + 1 := by
    rw [← (synced_takesIn h htakes hfiled).reporterCount_eq]
    exact hcount
  rw [htakes.reputation, hcount, hafter, ← h.reporterCount_eq]
  cases lookupPostAuthor hash s.node.store.db.posts with
  | none => simp
  | some author =>
    by_cases hbelow : reporterCount s.reports contentId < tombstoneThreshold
    · simp [hbelow]
    · -- the author has been penalised before, and is penalised again
      have hreached : tombstoneThreshold ≤ reporterCount s.reports contentId + 1 := by omega
      simp [hbelow, hreached]

/-- A restart keeps the counts exactly when there is nothing to count. -/
theorem countsOnce_restart_iff (s : Ledger W) : s.CountsOnce .restart ↔ s.reports = [] := by
  constructor
  · intro h
    by_contra hne
    obtain ⟨r, rest, hcons⟩ := List.exists_cons_of_ne_nil hne
    have hzero : reporterCount s.reports r.contentId = 0 := (h r.contentId).symm
    have hmem : r.reporter ∈ ((s.reports.filter (fun r' => decide (r'.contentId = r.contentId))).map
        Report.reporter).dedup := by
      rw [List.mem_dedup, List.mem_map]
      exact ⟨r, List.mem_filter.mpr ⟨hcons ▸ List.mem_cons_self, by simp⟩, rfl⟩
    exact absurd (List.length_pos_of_mem hmem) (by rw [← reporterCount, hzero]; exact lt_irrefl 0)
  · intro hempty contentId
    rw [hempty]
    rfl

/-- **One operation** keeps the rules exactly under its condition. -/
theorem countsOnce_iff {s : Ledger W} (h : s.Synced) (op : Op) : s.CountsOnce op ↔ s.Within op := by
  cases op with
  | report env hash reason =>
    have hsame : s.step (.report env hash reason) = s →
        ∀ contentId, contentOf hash = some contentId →
        (s.step (.report env hash reason)).node.reputation = s.node.reputation ++
          if s.reporters contentId < tombstoneThreshold ∧
              tombstoneThreshold ≤ (s.step (.report env hash reason)).reporters contentId
          then (lookupPostAuthor hash s.node.store.db.posts).toList.map
            (fun author => (author, .communityTombstone))
          else [] := by
      intro heq contentId _
      rw [heq, if_neg (fun hboth => absurd hboth.2 (not_le.mpr hboth.1)), List.append_nil]
    rcases s.step_report_cases env hash reason with ⟨heq, hnot, hall⟩ |
      ⟨heq, hignored, loc, contentId, hid, hcontent, hmany⟩ |
      ⟨hnot, loc, contentId, hid, hcontent, hfew, hnew, htakes, hfiled⟩
    · -- a report that fails
      refine iff_of_true ⟨fun _ _ hign => absurd hign hnot, hsame heq⟩
        (fun loc contentId hid hc => ?_)
      obtain ⟨hfew, hdup⟩ := hall loc contentId hid hc
      refine ⟨fun hmany => absurd hfew (not_lt.mpr hmany), fun _ hnew => ?_⟩
      rw [hdup] at hnew
      cases hnew
    · -- a report that is put off
      constructor
      · rintro ⟨hday, -⟩ loc' contentId' hid' -
        obtain rfl := Except.ok.inj (hid.symm.trans hid')
        exact ⟨fun _ => hday loc hid hignored, fun hfew => absurd hfew (not_lt.mpr hmany)⟩
      · intro hwithin
        refine ⟨fun loc' hid' _ => ?_, hsame heq⟩
        obtain rfl := Except.ok.inj (hid.symm.trans hid')
        exact (hwithin loc contentId hid hcontent).1 hmany
    · -- a report that is taken in
      have hpenalty := penalty_iff h htakes hfiled hnew
      constructor
      · rintro ⟨-, hpenalised⟩ loc' contentId' hid' hcontent'
        obtain rfl := Except.ok.inj (hid.symm.trans hid')
        obtain rfl := Option.some.inj (hcontent.symm.trans hcontent')
        exact ⟨fun hmany => absurd hfew (not_lt.mpr hmany),
          fun _ _ => hpenalty.mp (hpenalised contentId hcontent)⟩
      · intro hwithin
        refine ⟨fun _ _ hign => absurd hign hnot, fun contentId' hcontent' => ?_⟩
        obtain rfl := Option.some.inj (hcontent.symm.trans hcontent')
        exact hpenalty.mpr ((hwithin loc contentId hid hcontent).2 hfew hnew)
  | restart => exact s.countsOnce_restart_iff
  | setPosts posts => exact Iff.rfl

/-- The record of reporters only grows. -/
theorem reporters_step_le (s : Ledger W) (op : Op) (contentId : ContentId) :
    s.reporters contentId ≤ (s.step op).reporters contentId := by
  cases op with
  | report env hash reason =>
    unfold reporters
    rw [← List.card_toFinset, ← List.card_toFinset]
    refine Finset.card_le_card (fun key hkey => ?_)
    rw [step, List.filter_append, List.map_append, List.toFinset_append]
    exact Finset.mem_union_left _ hkey
  | restart => exact le_refl _
  | setPosts posts => exact le_refl _

theorem reporters_run_le (s : Ledger W) (ops : List Op) (contentId : ContentId) :
    s.reporters contentId ≤ (run step s ops).reporters contentId := by
  have hstep : ∀ (t : Ledger W) (op : Op), s.reporters contentId ≤ t.reporters contentId →
      s.reporters contentId ≤ (t.step op).reporters contentId :=
    fun t op h => le_trans h (t.reporters_step_le op contentId)
  have hrun := run_invariant_of_step hstep (le_refl _) ops
  exact hrun

/-- An author is penalised when the threshold is reached. -/
theorem Penalises.first_reaches {s : Ledger W} {contentId : ContentId} {op : Op}
    (h : s.Penalises contentId op) (hop : s.CountsOnce op) :
    s.reporters contentId < tombstoneThreshold ∧
      tombstoneThreshold ≤ (s.step op).reporters contentId := by
  obtain ⟨env, hash, reason, rfl, hcontent, hchanged⟩ := h
  by_contra hnot
  have hreputation := hop.2 contentId hcontent
  rw [if_neg hnot, List.append_nil] at hreputation
  exact hchanged hreputation

/-- **When reports count once.**  In a run of a new node the three rules hold of every operation,
and no author is penalised twice for one content, exactly when every operation meets the
condition. -/
theorem counted_once_iff_meets (ops : List Op) :
    ((∀ l₁ op l₂, ops = l₁ ++ op :: l₂ → (run step (new : Ledger W) l₁).CountsOnce op) ∧
        ∀ contentId l₁ op l₂ op' l₃, ops = l₁ ++ op :: (l₂ ++ op' :: l₃) →
          (run step (new : Ledger W) l₁).Penalises contentId op →
            ¬(run step (new : Ledger W) (l₁ ++ op :: l₂)).Penalises contentId op') ↔
      Meets step Within (new : Ledger W) ops := by
  have hiff := forall_split_iff_meets (l := ops) (fun s : Ledger W => s.Synced)
    (fun s op _ h => countsOnce_iff h op) (fun s op _ h hop => synced_step h op hop)
    (rfl : (new : Ledger W).Synced)
  rw [← hiff]
  refine ⟨fun h => h.1, fun h => ⟨h, ?_⟩⟩
  intro contentId l₁ op l₂ op' l₃ heq hfirst hsecond
  have hreached := (hfirst.first_reaches (h l₁ op _ heq)).2
  have hbelow := (hsecond.first_reaches (h (l₁ ++ op :: l₂) op' l₃ (by simp [heq]))).1
  rw [run_append, run_cons] at hbelow
  exact absurd (le_trans hreached (reporters_run_le _ l₂ contentId)) (not_le.mpr hbelow)

/-! ## Reports that are miscounted -/

theorem twoDaysLater_lt : (1700172800 : UInt64).toNat < 2 ^ 63 := by decide

/-- Two days after noon. -/
def twoDaysLater : ClockReading := ⟨1700172800, twoDaysLater_lt⟩

/-- The key of a user, and the text of a content. -/
def userKey (i : UInt8) : IdentityKey := List.replicate 32 i

def contentHex (i : UInt8) : String := Hex.encode (List.replicate 32 i)

/-- A report of a content as spam. -/
def reportBy (who content : UInt8) (now : ClockReading) : Op :=
  .report (TinyNode.callBy (userKey who) now) (contentHex content) "spam"

theorem contentOf_contentHex (i : UInt8) :
    contentOf (contentHex i) = some (ContentId.fromDigest (List.replicate 32 i)) := by
  rw [contentOf, contentHex, Hex.decode_encode]
  rfl

/-- A report that is not the twenty-first, of a content that is new to its reporter, is taken in. -/
theorem step_reportBy {s : Ledger W} {who content : UInt8} (now : ClockReading)
    (hfew : s.filedBy (userKey who) < maxReportsPerReporterPerDay)
    (hnew : s.hasReported (userKey who) (ContentId.fromDigest (List.replicate 32 content))
      = false) :
    (s.step (reportBy who content now)).reports = s.reports ++
        [⟨userKey who, ContentId.fromDigest (List.replicate 32 content), .spam⟩] ∧
      (s.step (reportBy who content now)).filed = s.filed ++
        [⟨userKey who, ContentId.fromDigest (List.replicate 32 content), now.secs⟩] := by
  have hcontent := contentOf_contentHex content
  have hspam : ReportReason.fromStr "spam" = .spam := by decide
  unfold reportBy
  rcases s.step_report_cases (TinyNode.callBy (userKey who) now) (contentHex content) "spam" with
    ⟨-, -, hall⟩ | ⟨-, -, loc, contentId, hid, -, hmany⟩ |
    ⟨-, loc, contentId, hid, hcontent', -, -, htakes, hfiled⟩
  · rw [(hall _ _ rfl hcontent).2] at hnew
    cases hnew
  · obtain rfl := Except.ok.inj hid
    exact absurd hfew (not_lt.mpr hmany)
  · obtain rfl := Except.ok.inj hid
    obtain rfl := Option.some.inj (hcontent.symm.trans hcontent')
    have hreports := htakes.reports
    rw [hspam] at hreports
    exact ⟨hreports, hfiled⟩

/-- Reports of user 1 at noon. -/
def manyReports (n : ℕ) : Ledger Wire.symbolic :=
  run step new ((List.range n).map (fun i => reportBy 1 (UInt8.ofNat i) TinyNode.noon))

/-- The content of the `i`th report. -/
def nthContent (i : ℕ) : ContentId := ContentId.fromDigest (List.replicate 32 (UInt8.ofNat i))

theorem nthContent_ne {i n : ℕ} (hi : i < n) (hn : n < 256) : nthContent i ≠ nthContent n := by
  intro h
  have hdigest : List.replicate 32 (UInt8.ofNat i) = List.replicate 32 (UInt8.ofNat n) :=
    congrArg ContentId.hash h
  have hbyte : UInt8.ofNat i = UInt8.ofNat n :=
    List.eq_of_mem_replicate (hdigest ▸ List.mem_replicate.mpr ⟨by decide, rfl⟩)
  have hnat := congrArg UInt8.toNat hbyte
  rw [UInt8.toNat_ofNat', UInt8.toNat_ofNat'] at hnat
  omega

/-- Up to the limit all of them are taken in. -/
theorem manyReports_eq {n : ℕ} (hn : n ≤ maxReportsPerReporterPerDay) :
    (manyReports n).reports
        = (List.range n).map (fun i => ⟨userKey 1, nthContent i, ReportReason.spam⟩) ∧
      (manyReports n).filed
        = (List.range n).map (fun i => ⟨userKey 1, nthContent i, TinyNode.noon.secs⟩) := by
  induction n with
  | zero => exact ⟨rfl, rfl⟩
  | succ n ih =>
    obtain ⟨hreports, hfiled⟩ := ih (Nat.le_of_succ_le hn)
    have hlast : manyReports (n + 1)
        = (manyReports n).step (reportBy 1 (UInt8.ofNat n) TinyNode.noon) := by
      rw [manyReports, List.range_succ, List.map_append, run_append]
      rfl
    have hfew : (manyReports n).filedBy (userKey 1) < maxReportsPerReporterPerDay := by
      rw [filedBy, hreports]
      refine Nat.lt_of_le_of_lt List.countP_le_length ?_
      rw [List.length_map, List.length_range]
      exact hn
    have hnew : (manyReports n).hasReported (userKey 1) (nthContent n) = false := by
      rw [hasReported, hreports, List.any_eq_false]
      intro r hr
      obtain ⟨i, hi, rfl⟩ := List.mem_map.mp hr
      have hsmall : n < 256 := Nat.lt_of_lt_of_le hn (by decide)
      simp [nthContent_ne (List.mem_range.mp hi) hsmall]
    obtain ⟨hreports', hfiled'⟩ := step_reportBy TinyNode.noon hfew hnew
    rw [hlast, hreports', hfiled', hreports, hfiled, List.range_succ, List.map_append,
      List.map_append]
    exact ⟨rfl, rfl⟩

/-- All of them count for the limit, and two days later none is of the last day. -/
theorem filedBy_manyReports {n : ℕ} (hn : n ≤ maxReportsPerReporterPerDay) :
    (manyReports n).filedBy (userKey 1) = n := by
  rw [filedBy, (manyReports_eq hn).1, List.countP_map, List.countP_eq_length.mpr (by simp),
    List.length_range]

theorem recent_manyReports {n : ℕ} (hn : n ≤ maxReportsPerReporterPerDay) (reporter : IdentityKey) :
    (manyReports n).recent reporter twoDaysLater.secs = 0 := by
  have hold : ¬twoDaysLater.secs.toNat ≤ TinyNode.noon.secs.toNat + 86400 := by decide
  rw [recent, (manyReports_eq hn).2, List.countP_map, List.countP_eq_zero]
  simp [hold]

/-- A post of user 9. -/
def postOfNine : SqlTable (List UInt8) PostRow :=
  SqlTable.empty.insertOrIgnore (ContentId.fromDigest (List.replicate 32 7)).toWireBytes
    { TinyNode.hiRow with authorPubkey := userKey 9 }

/-- A post that five users have reported. -/
def fiveReporters : Ledger Wire.symbolic :=
  run step new
    (.setPosts postOfNine :: [1, 2, 3, 4, 5].map (fun i => reportBy i 7 TinyNode.noon))

/-- **Miscounted reports.**  A user with twenty old reports is ignored two days later; the sixth
reporter penalises the author once more; and a restart forgets the reporters. -/
theorem miscounted_reports :
    ¬(manyReports 20).CountsOnce (reportBy 1 200 twoDaysLater) ∧
      ¬fiveReporters.CountsOnce (reportBy 6 7 TinyNode.noon) ∧
      ¬(run step (new : Ledger Wire.symbolic) [reportBy 1 7 TinyNode.noon]).CountsOnce
        .restart := by
  refine ⟨?_, ?_, ?_⟩
  · have hlast : 20 ≤ maxReportsPerReporterPerDay := le_refl 20
    obtain ⟨hreports, hfiled⟩ := manyReports_eq hlast
    have hsynced : (manyReports 20).Synced := by
      rw [Synced, hreports, hfiled, List.map_map, List.map_map]
      rfl
    rw [reportBy, countsOnce_iff hsynced]
    intro hwithin
    have hlimit : maxReportsPerReporterPerDay ≤ (manyReports 20).filedBy (userKey 1) :=
      le_of_eq (filedBy_manyReports hlast).symm
    have hday : maxReportsPerReporterPerDay
        ≤ (manyReports 20).recent (userKey 1) twoDaysLater.secs :=
      (hwithin (userKey 1) _ rfl (contentOf_contentHex 200)).1 hlimit
    rw [recent_manyReports hlast] at hday
    exact absurd hday (by decide)
  · have hsynced : fiveReporters.Synced := by
      unfold Synced
      decide +kernel
    rw [reportBy, countsOnce_iff hsynced]
    intro hwithin
    have hbelow := (hwithin (userKey 6) _ rfl (contentOf_contentHex 7)).2 (by decide +kernel)
      (by decide +kernel) (by decide +kernel)
    exact absurd hbelow (by decide +kernel)
  · rw [countsOnce_restart_iff]
    decide +kernel

end Ledger

end CommunityReports
