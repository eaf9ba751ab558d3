/-
# Schema migrations (`ephemera-store/src/migrations.rs`)

Opening the metadata database reads the highest version in `schema_version` and then applies
what is above it, each script in a transaction of its own together with its row.  A process can
die between any two transactions, a script can fail, and nothing keeps two processes from
opening one database: an opener goes by the version it read, so it may come back to a script
that another one has run meanwhile.

`versions_after` is what holds in spite of all that: the versions recorded are those up to some
point, without a gap.  `sequential_after` is the case of one opener at a time.
-/
import Ephemera.GuardedRun
import Mathlib.Data.List.Sort

namespace Migrations

open GuardedRun

/-- `Migration`, without its script. -/
structure Migration where
  version : ℤ
  description : String
  deriving DecidableEq

/-- `all_migrations`. -/
def allMigrations : List Migration :=
  [⟨1, "Initial schema"⟩,
    ⟨2, "Add message and initiator columns to connections"⟩,
    ⟨3, "Add message_requests table for stranger DM handling"⟩,
    ⟨4, "Add ratchet_sessions table for Double Ratchet state"⟩,
    ⟨5, "Add reactions, topic_rooms, topic_subscriptions, topic_posts"⟩,
    ⟨6, "Add media_attachments and media_chunks tables"⟩,
    ⟨7, "Add dead_drops table for offline message delivery"⟩,
    ⟨8, "Add encrypted message body and epoch-encrypted post columns"⟩,
    ⟨9, "Add groups, group_members, group_bans, group_posts, group_chats, " ++
      "group_chat_members, group_chat_messages"⟩,
    ⟨10, "Add notifications table for notification center"⟩]

/-- The database: `schema_version`, absent until the first opening, and everything else. -/
structure Db (S : Type) where
  schemaVersion : Option (List Migration)
  content : S

/-- The rows of `schema_version`. -/
def Db.rows {S : Type} (db : Db S) : List Migration := db.schemaVersion.getD []

/-- `current_version`: `COALESCE(MAX(version), 0)`. -/
def currentVersion (rows : List Migration) : ℤ :=
  match rows.map Migration.version with
  | [] => 0
  | v :: vs => vs.foldl max v

/-- A call of `run_migrations`. -/
inductive Opener where
  /-- The loop, with the migrations it has yet to come to. -/
  | running (rest : List Migration)
  | returned (result : Except String Unit)
  | died
  deriving DecidableEq

/-- The database and all calls made so far. -/
structure System (S : Type) where
  db : Db S
  openers : List Opener

/-- One step: a call begins, a call applies its next migration or returns, a process dies, or the
content of the database is used. -/
inductive Event (S : Type) where
  | opens
  | advances (i : ℕ)
  | dies (i : ℕ)
  | uses (f : S → S)

variable {S : Type}

/-- The beginning of `run_migrations`: the bootstrap, and the migrations its loop does not pass
over. -/
def System.begin (sys : System S) : System S :=
  let rows := sys.db.rows
  { db := { sys.db with schemaVersion := some rows }
    openers := sys.openers ++
      [.running (allMigrations.filter (fun m => currentVersion rows < m.version))] }

/-- One round of the loop of `run_migrations`: the script and its row are one transaction, which
a failing script takes back. -/
def System.advance (up : ℤ → S → Except String S) (sys : System S) (i : ℕ) : System S :=
  match sys.openers[i]? with
  | some (.running []) => { sys with openers := sys.openers.set i (.returned (.ok ())) }
  | some (.running (m :: rest)) =>
    match up m.version sys.db.content with
    | .ok content =>
      { db := ⟨some (sys.db.rows ++ [m]), content⟩, openers := sys.openers.set i (.running rest) }
    | .error reason => { sys with openers := sys.openers.set i (.returned (.error reason)) }
  | _ => sys

/-- One event; `up` says what the scripts do. -/
def System.step (up : ℤ → S → Except String S) (sys : System S) : Event S → System S
  | .opens => sys.begin
  | .advances i => sys.advance up i
  | .dies i =>
    match sys.openers[i]? with
    | some (.running _) => { sys with openers := sys.openers.set i .died }
    | _ => sys
  | .uses f => { sys with db := { sys.db with content := f sys.db.content } }

/-- A new database. -/
def System.new (content : S) : System S := ⟨⟨none, content⟩, []⟩

/-- The system after a sequence of events. -/
abbrev after (up : ℤ → S → Except String S) (content : S) (events : List (Event S)) : System S :=
  run (System.step up) (System.new content) events

/-! ## The highest version -/

theorem foldl_max_lt {b : ℤ} {l : List ℤ} {a : ℤ} :
    l.foldl max a < b ↔ a < b ∧ ∀ v ∈ l, v < b := by
  induction l generalizing a with
  | nil => simp
  | cons v l ih =>
    rw [List.foldl_cons, ih, show max a v < b ↔ a < b ∧ v < b from by omega, and_assoc,
      List.forall_mem_cons]

/-- The highest version lies below a number exactly when all do. -/
theorem currentVersion_lt_iff {rows : List Migration} {b : ℤ} (hb : 0 < b) :
    currentVersion rows < b ↔ ∀ m ∈ rows, m.version < b := by
  cases rows with
  | nil => simpa [currentVersion] using hb
  | cons r rows =>
    show (rows.map Migration.version).foldl max r.version < b ↔ _
    rw [foldl_max_lt, List.forall_mem_cons, List.forall_mem_map]

/-- The list of migrations is in order, and starts above zero. -/
theorem allMigrations_sorted : allMigrations.Pairwise (fun m m' => m.version < m'.version) := by
  decide

theorem version_pos : ∀ m ∈ allMigrations, 0 < m.version := by decide

theorem version_lt_of_take_drop {k : ℕ} {m m' : Migration} (h : m ∈ allMigrations.take k)
    (h' : m' ∈ allMigrations.drop k) : m.version < m'.version := by
  have hsorted := allMigrations_sorted
  rw [← List.take_append_drop k allMigrations, List.pairwise_append] at hsorted
  exact hsorted.2.2 m h m' h'

/-- **What an opener does not pass over.**  When the rows are those of the first migrations, the
loop is left with the others. -/
theorem filter_pending {rows : List Migration} {k : ℕ}
    (h : ∀ m, m ∈ rows ↔ m ∈ allMigrations.take k) :
    allMigrations.filter (fun m => currentVersion rows < m.version) = allMigrations.drop k := by
  have htake : (allMigrations.take k).filter (fun m => currentVersion rows < m.version) = [] := by
    refine List.filter_eq_nil_iff.mpr (fun m hm hlt => ?_)
    have hall := (currentVersion_lt_iff (version_pos m (List.mem_of_mem_take hm))).mp
      (of_decide_eq_true hlt)
    exact lt_irrefl _ (hall m ((h m).mpr hm))
  have hdrop : (allMigrations.drop k).filter (fun m => currentVersion rows < m.version)
      = allMigrations.drop k := by
    refine List.filter_eq_self.mpr (fun m hm => decide_eq_true ?_)
    refine (currentVersion_lt_iff (version_pos m (List.mem_of_mem_drop hm))).mpr fun m' hm' => ?_
    exact version_lt_of_take_drop ((h m').mp hm') hm
  conv_lhs => rw [← List.take_append_drop k allMigrations]
  rw [List.filter_append, htake, hdrop, List.nil_append]

/-! ## Any openers -/

/-- The rows are the first `k` migrations, some perhaps more than once, and no opener is ahead of
them: those that run are left with all migrations from some place on, and those that returned
without an error have seen all. -/
structure UpTo (k : ℕ) (sys : System S) : Prop where
  bound : k ≤ allMigrations.length
  rows : ∀ m, m ∈ sys.db.rows ↔ m ∈ allMigrations.take k
  running : ∀ rest, .running rest ∈ sys.openers → ∃ j ≤ k, rest = allMigrations.drop j
  returned : .returned (.ok ()) ∈ sys.openers → k = allMigrations.length

variable {up : ℤ → S → Except String S} {sys : System S} {k : ℕ}

theorem UpTo.opens (h : UpTo k sys) : UpTo k sys.begin := by
  refine ⟨h.bound, h.rows, fun rest hrest => ?_, fun hret => ?_⟩
  · rcases List.mem_append.mp hrest with hold | hnew
    · exact h.running rest hold
    · obtain rfl := Opener.running.inj (List.mem_singleton.mp hnew)
      exact ⟨k, le_rfl, filter_pending h.rows⟩
  · rcases List.mem_append.mp hret with hold | hnew
    · exact h.returned hold
    · cases List.mem_singleton.mp hnew

/-- The opener that takes the step is the only one that changes. -/
theorem mem_set {l : List Opener} {i : ℕ} {o o' : Opener} (h : o ∈ l.set i o') :
    o = o' ∨ o ∈ l := (List.mem_or_eq_of_mem_set h).symm

theorem UpTo.advances (h : UpTo k sys) (i : ℕ) :
    UpTo k (sys.advance up i) ∨ UpTo (k + 1) (sys.advance up i) := by
  rw [System.advance]
  split
  · next hi =>
    -- The loop is at its end, which is where all migrations are recorded.
    obtain ⟨j, hj, hnil⟩ := h.running [] (List.mem_of_getElem? hi)
    have hend : k = allMigrations.length := by
      have hlen := List.drop_eq_nil_iff.mp hnil.symm
      have hbound := h.bound
      omega
    refine Or.inl ⟨h.bound, h.rows, fun rest hrest => ?_, fun _ => hend⟩
    rcases mem_set hrest with heq | hold
    · cases heq
    · exact h.running rest hold
  · next m rest hi =>
    obtain ⟨j, hj, hdrop⟩ := h.running _ (List.mem_of_getElem? hi)
    have hlt : j < allMigrations.length := by
      by_contra hge
      rw [List.drop_of_length_le (by omega)] at hdrop
      cases hdrop
    have hm : allMigrations[j] = m ∧ allMigrations.drop (j + 1) = rest := by
      rw [List.drop_eq_getElem_cons hlt] at hdrop
      exact ⟨(List.cons.inj hdrop).1.symm, (List.cons.inj hdrop).2.symm⟩
    split
    · next content hup =>
      have hothers : ∀ rest', .running rest' ∈ sys.openers.set i (.running rest) →
          ∃ j' ≤ max k (j + 1), rest' = allMigrations.drop j' := by
        intro rest' hrest'
        rcases mem_set hrest' with heq | hold
        · exact ⟨j + 1, le_max_right _ _, (Opener.running.inj heq).trans hm.2.symm⟩
        · obtain ⟨j', hj', hr⟩ := h.running rest' hold
          exact ⟨j', hj'.trans (le_max_left _ _), hr⟩
      have hret : .returned (.ok ()) ∈ sys.openers.set i (.running rest) →
          k = allMigrations.length := by
        intro hret
        rcases mem_set hret with heq | hold
        · cases heq
        · exact h.returned hold
      rcases Nat.lt_or_eq_of_le hj with hjk | rfl
      · -- Another opener was here before: the rows name the same migrations as they did.
        have hin : m ∈ allMigrations.take k := by
          rw [← hm.1]
          exact List.mem_take_iff_getElem.mpr ⟨j, by omega, rfl⟩
        refine Or.inl ⟨h.bound, fun m' => ?_, ?_, hret⟩
        · show m' ∈ sys.db.rows ++ [m] ↔ _
          rw [List.mem_append, h.rows, List.mem_singleton]
          exact ⟨fun hor => hor.elim id fun heq => heq ▸ hin, Or.inl⟩
        · rw [max_eq_left (by omega : j + 1 ≤ k)] at hothers
          exact hothers
      · refine Or.inr ⟨hlt, fun m' => ?_, ?_, fun hr => ?_⟩
        · show m' ∈ sys.db.rows ++ [m] ↔ _
          rw [List.mem_append, h.rows, List.mem_singleton, List.take_add_one,
            List.getElem?_eq_getElem hlt, hm.1, Option.toList_some, List.mem_append,
            List.mem_singleton]
        · rw [max_eq_right (by omega : j ≤ j + 1)] at hothers
          exact hothers
        · have hall := hret hr
          omega
    · refine Or.inl ⟨h.bound, h.rows, fun rest' hrest' => ?_, fun hr => ?_⟩
      · rcases mem_set hrest' with heq | hold
        · cases heq
        · exact h.running rest' hold
      · rcases mem_set hr with heq | hold
        · cases heq
        · exact h.returned hold
  · exact Or.inl h

theorem UpTo.dies (h : UpTo k sys) (i : ℕ) : UpTo k (sys.step up (.dies i)) := by
  rw [System.step]
  split
  · refine ⟨h.bound, h.rows, fun rest hrest => ?_, fun hr => ?_⟩
    · rcases mem_set hrest with heq | hold
      · cases heq
      · exact h.running rest hold
    · rcases mem_set hr with heq | hold
      · cases heq
      · exact h.returned hold
  · exact h

theorem UpTo.step (h : UpTo k sys) (event : Event S) :
    UpTo k (sys.step up event) ∨ UpTo (k + 1) (sys.step up event) := by
  cases event with
  | opens => exact Or.inl h.opens
  | advances i => exact h.advances i
  | dies i => exact Or.inl (h.dies i)
  | uses f => exact Or.inl ⟨h.bound, h.rows, h.running, h.returned⟩

theorem upTo_new (content : S) : UpTo 0 (System.new content) :=
  ⟨Nat.zero_le _, fun m => by simp [System.new, Db.rows], fun rest h => by simp [System.new] at h,
    fun h => by simp [System.new] at h⟩

/-- The rows are the first migrations, up to some point. -/
def NoGap (sys : System S) : Prop := ∃ k, UpTo k sys

theorem noGap_after (up : ℤ → S → Except String S) (content : S) (events : List (Event S)) :
    NoGap (after up content events) :=
  run_invariant_of_step
    (fun _ event h => by
      obtain ⟨k, hk⟩ := h
      exact (hk.step event).elim (fun h' => ⟨k, h'⟩) fun h' => ⟨k + 1, h'⟩)
    ⟨0, upTo_new content⟩ events

/-- **The versions recorded have no gap.**  However many processes open the database, in whatever
order their transactions fall, and wherever they die or a script fails, the versions in
`schema_version` are those of the first migrations up to some point; and if a call has returned
without an error, they are all there. -/
theorem versions_after (up : ℤ → S → Except String S) (content : S) (events : List (Event S)) :
    ∃ k, (∀ m, m ∈ (after up content events).db.rows ↔ m ∈ allMigrations.take k) ∧
      (.returned (.ok ()) ∈ (after up content events).openers → k = allMigrations.length) := by
  obtain ⟨k, h⟩ := noGap_after up content events
  exact ⟨k, h.rows, h.returned⟩

/-! ## One opener at a time -/

/-- Whether a call is in its loop. -/
def Opener.isRunning : Opener → Bool
  | .running _ => true
  | _ => false

/-- No call is running. -/
def System.Idle (sys : System S) : Prop := ∀ o ∈ sys.openers, o.isRunning = false

instance (sys : System S) : Decidable sys.Idle := List.decidableBAll _ _

/-- A call begins only when none is running. -/
def OneAtATime (sys : System S) : Event S → Prop
  | .opens => sys.Idle
  | _ => True

instance (sys : System S) (event : Event S) : Decidable (OneAtATime sys event) :=
  match event with
  | .opens => inferInstanceAs (Decidable sys.Idle)
  | .advances _ | .dies _ | .uses _ => isTrue trivial

/-- The rows are the first `k` migrations in order, and the call that runs, if there is one, goes
on where they end. -/
structure Sole (k : ℕ) (sys : System S) : Prop where
  rows : sys.db.rows = allMigrations.take k
  running : ∀ rest, .running rest ∈ sys.openers → rest = allMigrations.drop k
  sole : ∀ (i i' : ℕ) (rest rest' : List Migration), sys.openers[i]? = some (Opener.running rest) →
    sys.openers[i']? = some (Opener.running rest') → i = i'

/-- Once the call that runs has changed, nothing else runs. -/
theorem Sole.set (h : Sole k sys) {i : ℕ} {rest : List Migration}
    (hi : sys.openers[i]? = some (Opener.running rest)) {o : Opener} {i' : ℕ}
    {rest' : List Migration} (hi' : (sys.openers.set i o)[i']? = some (Opener.running rest')) :
    i' = i ∧ o = .running rest' := by
  rw [List.getElem?_set] at hi'
  by_cases hii : i = i'
  · subst hii
    rw [if_pos rfl] at hi'
    split at hi'
    · exact ⟨rfl, Option.some.inj hi'⟩
    · cases hi'
  · rw [if_neg hii] at hi'
    exact absurd (h.sole i i' rest rest' hi hi') hii

/-- A call that ends leaves none running. -/
theorem Sole.ends (h : Sole k sys) {i : ℕ} {rest : List Migration}
    (hi : sys.openers[i]? = some (Opener.running rest)) {o : Opener}
    (ho : ∀ rest', o ≠ .running rest') :
    Sole k { sys with openers := sys.openers.set i o } := by
  refine ⟨h.rows, fun rest' hrest' => ?_, fun i₁ i₂ r₁ r₂ h₁ h₂ => ?_⟩
  · obtain ⟨i', hi'⟩ := List.mem_iff_getElem?.mp hrest'
    exact absurd (h.set hi hi').2 (ho rest')
  · exact absurd (h.set hi h₁).2 (ho r₁)

theorem System.Idle.not_running (h : sys.Idle) (rest : List Migration) :
    .running rest ∉ sys.openers := by
  intro hrest
  cases h _ hrest

theorem Sole.opens (h : Sole k sys) (hidle : sys.Idle) : Sole k sys.begin := by
  have hlast : ∀ i rest, sys.begin.openers[i]? = some (Opener.running rest) →
      i = sys.openers.length := by
    intro i rest hi
    rcases Nat.lt_or_ge i sys.openers.length with hlt | hge
    · rw [System.begin, List.getElem?_append_left hlt] at hi
      exact absurd (List.mem_of_getElem? hi) (hidle.not_running rest)
    · have hbound := (List.getElem?_eq_some_iff.mp hi).1
      rw [System.begin, List.length_append, List.length_singleton] at hbound
      omega
  refine ⟨h.rows, fun rest hrest => ?_, fun i i' rest rest' hi hi' => ?_⟩
  · rcases List.mem_append.mp hrest with hold | hnew
    · exact absurd hold (hidle.not_running rest)
    · obtain rfl := Opener.running.inj (List.mem_singleton.mp hnew)
      exact filter_pending (fun m => by rw [h.rows])
  · rw [hlast i rest hi, hlast i' rest' hi']

theorem Sole.advances (h : Sole k sys) (i : ℕ) :
    Sole k (sys.advance up i) ∨ Sole (k + 1) (sys.advance up i) := by
  rw [System.advance]
  split
  · next hi => exact Or.inl (h.ends hi (fun _ => by simp))
  · next m rest hi =>
    have hdrop := h.running _ (List.mem_of_getElem? hi)
    have hlt : k < allMigrations.length := by
      by_contra hge
      rw [List.drop_of_length_le (by omega)] at hdrop
      cases hdrop
    rw [List.drop_eq_getElem_cons hlt] at hdrop
    obtain ⟨rfl, rfl⟩ := List.cons.inj hdrop
    split
    · refine Or.inr ⟨?_, fun rest' hrest' => ?_, fun i₁ i₂ r₁ r₂ h₁ h₂ => ?_⟩
      · show sys.db.rows ++ [allMigrations[k]] = _
        rw [h.rows, List.take_add_one, List.getElem?_eq_getElem hlt]
        rfl
      · obtain ⟨i', hi'⟩ := List.mem_iff_getElem?.mp hrest'
        exact (Opener.running.inj (h.set hi hi').2).symm
      · rw [(h.set hi h₁).1, (h.set hi h₂).1]
    · exact Or.inl (h.ends hi (fun _ => by simp))
  · exact Or.inl h

theorem Sole.step (h : Sole k sys) (event : Event S) (hone : OneAtATime sys event) :
    Sole k (sys.step up event) ∨ Sole (k + 1) (sys.step up event) := by
  cases event with
  | opens => exact Or.inl (h.opens hone)
  | advances i => exact h.advances i
  | dies i =>
    rw [System.step]
    split
    · next hi => exact Or.inl (h.ends hi (fun _ => by simp))
    · exact Or.inl h
  | uses f => exact Or.inl ⟨h.rows, h.running, h.sole⟩

/-- The rows are the first migrations in order, up to some point. -/
def InStep (sys : System S) : Prop := ∃ k, Sole k sys

/-- **Each script once, in order.**  When no two calls overlap, `schema_version` lists the first
migrations in their order, each once, wherever the calls before were cut short; and after a call
that returned without an error it lists all of them. -/
theorem sequential_after {up : ℤ → S → Except String S} {content : S} {events : List (Event S)}
    (hone : Meets (System.step up) OneAtATime (System.new content) events) :
    ∃ k, (after up content events).db.rows = allMigrations.take k ∧
      (.returned (.ok ()) ∈ (after up content events).openers →
        (after up content events).db.rows = allMigrations) := by
  have hsole : InStep (after up content events) :=
    run_invariant
      (fun _ event h hok => by
        obtain ⟨k, hk⟩ := h
        exact (hk.step event hok).elim (fun h' => ⟨k, h'⟩) fun h' => ⟨k + 1, h'⟩)
      ⟨0, ⟨rfl, fun rest h => by simp [System.new] at h,
        fun i i' rest rest' h => by simp [System.new] at h⟩⟩ hone
  obtain ⟨k, hk⟩ := hsole
  refine ⟨k, hk.rows, fun hret => ?_⟩
  obtain ⟨k', hk'⟩ := noGap_after up content events
  -- The same migrations are the first `k` and all of them.
  have hall : ∀ m ∈ allMigrations, m ∈ allMigrations.take k := by
    intro m hm
    rw [← hk.rows, hk'.rows, hk'.returned hret, List.take_length]
    exact hm
  rcases Nat.lt_or_ge k allMigrations.length with hlt | hge
  · have hdrop : allMigrations[k] ∈ allMigrations.drop k := by
      rw [List.drop_eq_getElem_cons hlt]
      exact List.mem_cons_self
    exact absurd (version_lt_of_take_drop (hall _ (List.getElem_mem hlt)) hdrop) (lt_irrefl _)
  · rw [hk.rows, List.take_of_length_le hge]

/-- The second script fails once and the process dies once, and the third opening goes through. -/
theorem sequential_after_retries :
    let up : ℤ → Bool → Except String Bool := fun version broken =>
      if broken ∧ version = 2 then .error "duplicate column name" else .ok broken
    let events : List (Event Bool) :=
      [.opens, .advances 0, .advances 0, .uses (fun _ => false), .opens, .advances 1, .dies 1,
        .opens] ++ List.replicate 9 (.advances 2)
    (after up true events).db.rows = allMigrations := by
  intro up events
  have hone : Meets (System.step up) OneAtATime (System.new true) events := by
    decide
  obtain ⟨k, -, hall⟩ := sequential_after hone
  exact hall (by decide)

end Migrations
