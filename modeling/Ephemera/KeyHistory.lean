/-
# What a table with `INSERT OR IGNORE` remembers

Under each key the first value stays until the key is deleted.  The history of such a table
is the list of what was offered to it and of what was deleted; `current` replays it, and
`IsFirst` says the same without a replay: the value was put under the key after the last
deletion, and nothing was before it.

`Mirrors` ties a table to its history, and each write of `SqlTable` extends both.
-/
import Ephemera.SqlTable
import Mathlib.Data.List.Induction

/-- An entry of the history: a value is offered under a key, or a key is deleted. -/
inductive KeyEvent (K A : Type) where
  | put (k : K) (a : A)
  | drop (k : K)

namespace KeyHistory

variable {K A V : Type} [DecidableEq K]

/-! ## First values -/

/-- What one event does to the value under `k`. -/
def apply (k : K) (held : Option A) : KeyEvent K A → Option A
  | .put k' a => if k' = k then held.or (some a) else held
  | .drop k' => if k' = k then none else held

/-- The value under `k` after a history. -/
def current (log : List (KeyEvent K A)) (k : K) : Option A := log.foldl (apply k) none

/-- Every value put under `k` was deleted later. -/
def Unheld (log : List (KeyEvent K A)) (k : K) : Prop :=
  ∀ before a after, log = before ++ .put k a :: after → .drop k ∈ after

/-- `a` is the first value put under `k` since `k` was last deleted. -/
def IsFirst (log : List (KeyEvent K A)) (k : K) (a : A) : Prop :=
  ∃ before after, log = before ++ .put k a :: after ∧ .drop k ∉ after ∧ Unheld before k

theorem current_append_singleton (log : List (KeyEvent K A)) (e : KeyEvent K A) (k : K) :
    current (log ++ [e]) k = apply k (current log k) e := by
  rw [current, List.foldl_append]
  rfl

omit [DecidableEq K] in
/-- Where an element of a list with one more at the end can stand. -/
theorem append_singleton_eq_iff {log before after : List (KeyEvent K A)} {e x : KeyEvent K A} :
    log ++ [e] = before ++ x :: after ↔
      (after = [] ∧ log = before ∧ e = x) ∨
        ∃ after', after = after' ++ [e] ∧ log = before ++ x :: after' := by
  constructor
  · intro h
    rcases List.eq_nil_or_concat after with rfl | ⟨after', y, rfl⟩
    · obtain ⟨hlog, hx⟩ := List.append_inj' h rfl
      exact Or.inl ⟨rfl, hlog, List.singleton_inj.mp hx⟩
    · rw [List.concat_eq_append, ← List.cons_append, ← List.append_assoc] at h
      obtain ⟨hlog, hy⟩ := List.append_inj' h rfl
      rw [List.concat_eq_append, ← List.singleton_inj.mp hy]
      exact Or.inr ⟨after', rfl, hlog⟩
  · rintro (⟨rfl, rfl, rfl⟩ | ⟨after', rfl, rfl⟩)
    · rfl
    · simp

omit [DecidableEq K] in
/-- One more event leaves a key without a value if it deletes the key, or if there was none and
it does not put one. -/
theorem unheld_append_singleton {log : List (KeyEvent K A)} {e : KeyEvent K A} {k : K} :
    Unheld (log ++ [e]) k ↔ e = .drop k ∨ (Unheld log k ∧ ∀ a, e ≠ .put k a) := by
  constructor
  · intro h
    by_cases hdrop : e = .drop k
    · exact Or.inl hdrop
    · refine Or.inr ⟨fun before a after hlog => ?_, fun a he => ?_⟩
      · have hmem := h before a (after ++ [e]) (by simp [hlog])
        rcases List.mem_append.mp hmem with hmem | hmem
        · exact hmem
        · exact absurd (List.mem_singleton.mp hmem).symm hdrop
      · have hmem := h log a [] (by rw [he])
        simp at hmem
  · -- Where the value was put decides: at the end, or before it.
    rintro (rfl | ⟨h, hput⟩) before a after hlog
    · rcases append_singleton_eq_iff.mp hlog with ⟨-, -, hx⟩ | ⟨after', rfl, -⟩
      · cases hx
      · simp
    · rcases append_singleton_eq_iff.mp hlog with ⟨-, -, hx⟩ | ⟨after', rfl, hlog'⟩
      · exact absurd hx (hput a)
      · exact List.mem_append_left _ (h before a after' hlog')

omit [DecidableEq K] in
/-- One more event makes `a` the first value if it puts `a` where there was none, or if `a` was
the first and stays. -/
theorem isFirst_append_singleton {log : List (KeyEvent K A)} {e : KeyEvent K A} {k : K} {a : A} :
    IsFirst (log ++ [e]) k a ↔
      (e = .put k a ∧ Unheld log k) ∨ (IsFirst log k a ∧ e ≠ .drop k) := by
  constructor
  · rintro ⟨before, after, hlog, hdrop, hbefore⟩
    rcases append_singleton_eq_iff.mp hlog with ⟨-, rfl, hx⟩ | ⟨after', rfl, hlog'⟩
    · exact Or.inl ⟨hx, hbefore⟩
    · rw [List.mem_append, not_or] at hdrop
      refine Or.inr ⟨⟨before, after', hlog', hdrop.1, hbefore⟩, fun he => hdrop.2 ?_⟩
      rw [he, List.mem_singleton]
  · rintro (⟨rfl, hlog⟩ | ⟨⟨before, after, rfl, hdrop, hbefore⟩, he⟩)
    · exact ⟨log, [], rfl, List.not_mem_nil, hlog⟩
    · refine ⟨before, after ++ [e], by simp, ?_, hbefore⟩
      rw [List.mem_append, List.mem_singleton, not_or]
      exact ⟨hdrop, fun h => he h.symm⟩

/-- **The replay is exact.**  A key has no value if each was deleted, and else it has the first
since the last deletion. -/
theorem current_spec (log : List (KeyEvent K A)) (k : K) :
    (current log k = none ↔ Unheld log k) ∧ ∀ a, current log k = some a ↔ IsFirst log k a := by
  induction log using List.reverseRecOn with
  | nil =>
    refine ⟨⟨fun _ before a after h => ?_, fun _ => rfl⟩, fun a => ⟨fun h => ?_, ?_⟩⟩
    · cases before <;> cases h
    · cases h
    · rintro ⟨before, after, h, -, -⟩
      cases before <;> cases h
  | append_singleton log e ih =>
    obtain ⟨hnone, hsome⟩ := ih
    -- A put is kept only if the key has no value, so both parts need both hypotheses.
    rw [current_append_singleton, unheld_append_singleton]
    simp only [isFirst_append_singleton, ← hnone, ← hsome]
    cases e with
    | put k' b =>
      by_cases hk : k' = k
      · subst hk
        cases current log k' <;> simp [apply]
      · simp [apply, hk]
    | drop k' =>
      by_cases hk : k' = k
      · simp [apply, hk]
      · simp [apply, hk]

theorem current_eq_some_iff {log : List (KeyEvent K A)} {k : K} {a : A} :
    current log k = some a ↔ IsFirst log k a := (current_spec log k).2 a

/-- Deleting several keys. -/
theorem current_append_drops (log : List (KeyEvent K A)) (keys : List K) (k : K) :
    current (log ++ keys.map .drop) k = if k ∈ keys then none else current log k := by
  induction keys using List.reverseRecOn with
  | nil => simp
  | append_singleton keys k' ih =>
    rw [List.map_append, List.map_singleton, ← List.append_assoc, current_append_singleton, ih]
    by_cases hk : k' = k
    · simp [apply, hk]
    · simp [apply, hk, Ne.symm hk]

/-! ## Tables and their histories -/

/-- Under each key the table holds what the history says, as far as `row` keeps it. -/
def Mirrors (row : A → V) (t : SqlTable K V) (log : List (KeyEvent K A)) : Prop :=
  ∀ k, t.get? k = (current log k).map row

variable {row : A → V} {t : SqlTable K V} {log : List (KeyEvent K A)}

theorem mirrors_empty (row : A → V) : Mirrors row (SqlTable.empty : SqlTable K V) [] :=
  fun _ => rfl

/-- A row is listed exactly if it comes from the first value under its key. -/
theorem Mirrors.mem_rows_iff (h : Mirrors row t log) {k : K} {v : V} :
    (k, v) ∈ t.rows ↔ ∃ a, IsFirst log k a ∧ row a = v := by
  rw [SqlTable.mem_rows_iff, h k, Option.map_eq_some_iff]
  simp only [current_eq_some_iff]

/-- `INSERT OR IGNORE` is an offer. -/
theorem Mirrors.insertOrIgnore (h : Mirrors row t log) (k : K) (a : A) :
    Mirrors row (t.insertOrIgnore k (row a)) (log ++ [.put k a]) := by
  intro k'
  rw [SqlTable.get?_insertOrIgnore, current_append_singleton, h k, h k']
  by_cases hk : k = k'
  · subst hk
    cases current log k <;> simp [apply]
  · simp [apply, hk, Ne.symm hk]

/-- The keys that one table has and the other has not. -/
def removed (t t' : SqlTable K V) : List K :=
  (t.rows.map Prod.fst).filter (fun k => (t'.get? k).isNone)

theorem mem_removed_iff {t t' : SqlTable K V} {k : K} :
    k ∈ removed t t' ↔ t.get? k ≠ none ∧ t'.get? k = none := by
  rw [removed, List.mem_filter, Option.isNone_iff_eq_none, Ne, SqlTable.get?_eq_none_iff (t := t),
    not_not]

/-- Rows that are gone were deleted. -/
theorem Mirrors.remove (h : Mirrors row t log) {t' : SqlTable K V}
    (hsub : ∀ k v, t'.get? k = some v → t.get? k = some v) :
    Mirrors row t' (log ++ (removed t t').map .drop) := by
  intro k
  rw [current_append_drops]
  simp only [mem_removed_iff]
  cases hget' : t'.get? k with
  | none =>
    by_cases hget : t.get? k = none
    · simp [hget, ← h k]
    · simp [hget]
  | some v => simp [← h k, hsub k v hget']

/-- Deleting one key, listed or not. -/
theorem Mirrors.deleteKey (h : Mirrors row t log) (key : K) :
    Mirrors row (t.deleteWhere (fun k _ => decide (k = key))) (log ++ [.drop key]) := by
  intro k
  rw [SqlTable.get?_deleteWhere_key, current_append_singleton, h k]
  by_cases hk : k = key
  · simp [apply, hk]
  · simp [apply, hk, Ne.symm hk]

end KeyHistory
