/-
# The value of a `GCounter`

`increment` saturates, so each actor's count stays in `u64`.  `value` adds the counts up with
a plain `u64` sum, which does not: two counts that fit can have a sum that overflows.  A build
with overflow checks panics there, and in a release build the sum wraps.

`displays_iff_fits` says of every run of increments, merges and clones that the value of each
counter is there, and never decreases, exactly if the counts each step brings together still
fit.  `wrappingValue_increment_lt_iff` says that in a release build an increment makes the
displayed count drop exactly if they do not.
-/
import Mathlib.Algebra.Order.BigOperators.Group.Finset
import Mathlib.Algebra.Ring.Nat
import Ephemera.GCounter
import Ephemera.GuardedRun

/-- The addition of `u64`, `none` where it overflows. -/
def checkedAdd (m n : ℕ) : Option ℕ := if m + n ≤ u64Max then some (m + n) else none

namespace GCounter

variable {A : Type*} [LinearOrder A]

/-- `counts.values()`. -/
def values (c : GCounter A) : List ℕ := c.counts.entries.map Prod.snd

/-- `GCounter::value`: `none` where the sum overflows. -/
def value (c : GCounter A) : Option ℕ := c.values.foldlM checkedAdd 0

/-- `GCounter::value` without overflow checks. -/
def wrappingValue (c : GCounter A) : ℕ := c.values.foldl (fun m n => (m + n) % 2 ^ 64) 0

/-! ## The sum of the counts -/

/-- The actors that have a count. -/
def actors (c : GCounter A) : Finset A := c.counts.keys.toFinset

/-- The sum of the counts. -/
def total (c : GCounter A) : ℕ := ∑ a ∈ c.actors, c.actorValue a

theorem mem_actors_iff {c : GCounter A} {a : A} : a ∈ c.actors ↔ (c.counts.get? a).isSome := by
  rw [actors, List.mem_toFinset, SortedMap.mem_keys_iff]

theorem actorValue_of_notMem {c : GCounter A} {a : A} (h : a ∉ c.actors) : c.actorValue a = 0 := by
  rw [mem_actors_iff, Option.isSome_iff_ne_none, not_not] at h
  rw [actorValue, h, Option.getD_none]

/-- Actors without a count add nothing. -/
theorem total_eq_sum {c : GCounter A} {s : Finset A} (h : c.actors ⊆ s) :
    c.total = ∑ a ∈ s, c.actorValue a :=
  Finset.sum_subset h (fun _ _ hnot => actorValue_of_notMem hnot)

theorem sum_values (c : GCounter A) : c.values.sum = c.total := by
  have hread : ∀ p ∈ c.counts.entries, p.2 = c.actorValue p.1 := by
    rintro ⟨a, n⟩ hmem
    rw [actorValue, SortedMap.get?_of_mem hmem, Option.getD_some]
  rw [total, actors, List.sum_toFinset _ c.counts.nodup_keys, SortedMap.keys, List.map_map,
    values, List.map_congr_left hread]
  rfl

/-- A checked sum is the sum if that fits. -/
theorem foldlM_checkedAdd (l : List ℕ) {m : ℕ} (hm : m ≤ u64Max) :
    l.foldlM checkedAdd m = if m + l.sum ≤ u64Max then some (m + l.sum) else none := by
  induction l generalizing m with
  | nil => simp [hm]
  | cons n l ih =>
    rw [List.foldlM_cons, List.sum_cons, checkedAdd]
    by_cases hfits : m + n ≤ u64Max
    · rw [if_pos hfits, ← Nat.add_assoc]
      exact ih hfits
    · rw [if_neg hfits, if_neg (by omega)]
      rfl

theorem foldl_wrapping (l : List ℕ) {m : ℕ} (hm : m < 2 ^ 64) :
    l.foldl (fun m n => (m + n) % 2 ^ 64) m = (m + l.sum) % 2 ^ 64 := by
  induction l generalizing m with
  | nil => rw [List.foldl_nil, List.sum_nil, Nat.add_zero, Nat.mod_eq_of_lt hm]
  | cons n l ih =>
    rw [List.foldl_cons, ih (Nat.mod_lt _ (by decide)), List.sum_cons, ← Nat.add_assoc,
      Nat.mod_add_mod]

/-- The value is the sum of the counts, if that fits. -/
theorem value_eq (c : GCounter A) :
    c.value = if c.total ≤ u64Max then some c.total else none := by
  rw [value, foldlM_checkedAdd _ (Nat.zero_le _), sum_values, Nat.zero_add]

theorem value_ne_none_iff {c : GCounter A} : c.value ≠ none ↔ c.total ≤ u64Max := by
  rw [value_eq]
  split <;> simp_all

theorem wrappingValue_eq (c : GCounter A) : c.wrappingValue = c.total % 2 ^ 64 := by
  rw [wrappingValue, foldl_wrapping _ (by decide), sum_values, Nat.zero_add]

/-! ## The sum after an operation -/

@[simp] theorem total_new : (new : GCounter A).total = 0 := rfl

theorem actors_increment (c : GCounter A) (actor : A) (amount : ℕ) :
    (c.increment actor amount).actors = insert actor c.actors := by
  ext a
  rw [Finset.mem_insert, mem_actors_iff, mem_actors_iff, increment, SortedMap.get?_alter]
  by_cases h : actor = a
  · simp [h]
  · simp [h, Ne.symm h]

theorem actors_merge (c other : GCounter A) :
    (c.merge other).actors = c.actors ∪ other.actors := by
  ext a
  rw [Finset.mem_union, mem_actors_iff, mem_actors_iff, mem_actors_iff, get?_counts_merge]
  cases c.counts.get? a with
  | none => cases other.counts.get? a <;> simp
  | some n => cases other.counts.get? a <;> simp

/-- **An increment** adds its amount, or what is left up to saturation. -/
theorem total_increment (c : GCounter A) {actor : A} (amount : ℕ)
    (hactor : c.actorValue actor ≤ u64Max) :
    (c.increment actor amount).total
      = c.total + min amount (u64Max - c.actorValue actor) := by
  have hbefore : c.total = ∑ a ∈ insert actor c.actors, c.actorValue a :=
    total_eq_sum (Finset.subset_insert _ _)
  have hothers : ∑ a ∈ (insert actor c.actors).erase actor, (c.increment actor amount).actorValue a
      = ∑ a ∈ (insert actor c.actors).erase actor, c.actorValue a := by
    refine Finset.sum_congr rfl (fun a ha => ?_)
    rw [actorValue_increment, if_neg (Ne.symm (Finset.ne_of_mem_erase ha))]
  have hmem := Finset.mem_insert_self actor c.actors
  rw [hbefore, total, actors_increment, ← Finset.add_sum_erase _ _ hmem,
    ← Finset.add_sum_erase _ _ hmem, hothers, actorValue_increment, if_pos rfl, saturatingAdd]
  omega

/-- **A merge** has the larger count of each actor. -/
theorem total_merge (c other : GCounter A) :
    (c.merge other).total
      = ∑ a ∈ c.actors ∪ other.actors, max (c.actorValue a) (other.actorValue a) := by
  rw [total, actors_merge]
  exact Finset.sum_congr rfl (fun a _ => actorValue_merge c other a)

theorem total_le_total_merge (c other : GCounter A) : c.total ≤ (c.merge other).total := by
  rw [total_merge, total_eq_sum (s := c.actors ∪ other.actors) Finset.subset_union_left]
  exact Finset.sum_le_sum (fun a _ => le_max_left _ _)

theorem actorValue_le_total (c : GCounter A) (a : A) : c.actorValue a ≤ c.total := by
  by_cases h : a ∈ c.actors
  · exact Finset.single_le_sum (f := c.actorValue) (fun _ _ => Nat.zero_le _) h
  · rw [actorValue_of_notMem h]
    exact Nat.zero_le _

/-! ## Runs -/

variable {ι : Type*} [DecidableEq ι]

/-- A call on some counters. -/
inductive Call (ι A : Type*) where
  | increment (i : ι) (actor : A) (amount : ℕ)
  | merge (i j : ι)
  | clone (i j : ι)

/-- The counters after a call; `clone` overwrites `i` by `j`. -/
def step (s : ι → GCounter A) : Call ι A → ι → GCounter A
  | .increment i actor amount => Function.update s i ((s i).increment actor amount)
  | .merge i j => Function.update s i ((s i).merge (s j))
  | .clone i j => Function.update s i (s j)

/-- New counters. -/
def start (ι A : Type*) [LinearOrder A] : ι → GCounter A := fun _ => new

/-- The value is there before and after, and does not decrease. -/
def Grows (before after : Option ℕ) : Prop :=
  ∃ v v', before = some v ∧ after = some v' ∧ v ≤ v'

/-- What a call should leave: every counter has a value, and the one it adds to has not less. -/
def Displays (s : ι → GCounter A) (call : Call ι A) : Prop :=
  (∀ i, (step s call i).value ≠ none) ∧
    match call with
    | .increment i _ _ => Grows (s i).value (step s call i).value
    | .merge i _ => Grows (s i).value (step s call i).value
    | .clone _ _ => True

/-- **The condition on a call.**  The counts it brings together fit: what an increment really
adds goes on top of the counts of all actors, and a merge has the larger count of each. -/
def Fits (s : ι → GCounter A) : Call ι A → Prop
  | .increment i actor amount =>
    ∑ a ∈ (s i).actors, (s i).actorValue a + min amount (u64Max - (s i).actorValue actor) ≤ u64Max
  | .merge i j =>
    ∑ a ∈ (s i).actors ∪ (s j).actors, max ((s i).actorValue a) ((s j).actorValue a) ≤ u64Max
  | .clone _ _ => True

/-! ## One call -/

theorem grows_of_le {c d : GCounter A} (hle : c.total ≤ d.total) (hd : d.total ≤ u64Max) :
    Grows c.value d.value := by
  rw [value_eq, value_eq, if_pos (hle.trans hd), if_pos hd]
  exact ⟨c.total, d.total, rfl, rfl, hle⟩

theorem grows_iff {c d : GCounter A} (hle : c.total ≤ d.total) :
    Grows c.value d.value ↔ d.total ≤ u64Max := by
  constructor
  · rintro ⟨-, v', -, hd, -⟩
    exact value_ne_none_iff.mp (by rw [hd]; exact Option.some_ne_none v')
  · exact grows_of_le hle

/-- All counters have values. -/
def AllValued (s : ι → GCounter A) : Prop := ∀ i, (s i).total ≤ u64Max

variable {s : ι → GCounter A} {call : Call ι A}

/-- Writing one counter keeps the values if that one has a value. -/
theorem AllValued.update_iff (h : AllValued s) (i : ι) (c : GCounter A) :
    (∀ j, (Function.update s i c j).value ≠ none) ↔ c.total ≤ u64Max := by
  constructor
  · intro hall
    have hi := hall i
    rw [Function.update_self] at hi
    exact value_ne_none_iff.mp hi
  · intro hc j
    rw [value_ne_none_iff]
    by_cases hj : j = i
    · subst hj
      rw [Function.update_self]
      exact hc
    · rw [Function.update_of_ne hj]
      exact h j

omit [DecidableEq ι] in
theorem AllValued.total_increment (h : AllValued s) (i : ι) (actor : A) (amount : ℕ) :
    ((s i).increment actor amount).total
      = (s i).total + min amount (u64Max - (s i).actorValue actor) :=
  GCounter.total_increment (s i) amount ((actorValue_le_total (s i) actor).trans (h i))

/-- **One call** does what it should exactly if its counts fit. -/
theorem AllValued.displays_iff (h : AllValued s) : Displays s call ↔ Fits s call := by
  cases call with
  | increment i actor amount =>
    have htotal := h.total_increment i actor amount
    have hgrows := grows_iff (c := s i) (d := (s i).increment actor amount) (by omega)
    simp only [Displays, step, Function.update_self, h.update_iff, hgrows, and_self, htotal]
    rfl
  | merge i j =>
    have hgrows := grows_iff (total_le_total_merge (s i) (s j))
    simp only [Displays, step, Function.update_self, h.update_iff, hgrows, and_self, total_merge]
    rfl
  | clone i j =>
    simp only [Displays, step, h.update_iff, and_true]
    exact iff_of_true (h j) trivial

theorem AllValued.step (h : AllValued s) (hfits : Fits s call) : AllValued (step s call) :=
  fun i => value_ne_none_iff.mp ((h.displays_iff.mpr hfits).1 i)

omit [DecidableEq ι] in
theorem allValued_start : AllValued (start ι A) := fun _ => Nat.zero_le _

/-! ## All calls -/

/-- **The value is total and monotone exactly if the counts fit.**  In a run from new counters
every call leaves a value in each counter, and not less in the one it adds to, if and only if
each call brings together counts that fit. -/
theorem displays_iff_fits (calls : List (Call ι A)) :
    (∀ before call after, calls = before ++ call :: after →
      Displays (GuardedRun.run step (start ι A) before) call) ↔
    GuardedRun.Meets step Fits (start ι A) calls :=
  GuardedRun.forall_split_iff_meets AllValued (fun _ _ _ h => h.displays_iff)
    (fun _ _ _ h hfits => h.step hfits) allValued_start

/-- **Two saturated actors.**  The second one leaves the counter without a value, and without
overflow checks with a smaller one. -/
theorem two_saturated_actors :
    let s := GuardedRun.run step (start ℕ ℕ) [.increment 0 1 u64Max]
    ¬Displays s (.increment 0 2 u64Max) ∧
      (step s (.increment 0 2 u64Max) 0).wrappingValue < (s 0).wrappingValue := by
  constructor
  · intro h
    exact h.1 0 (by decide)
  · decide

/-! ## Without overflow checks -/

/-- In a release build, an increment makes the value drop exactly if the sum does not fit. -/
theorem wrappingValue_increment_lt_iff {c : GCounter A} (hc : c.total ≤ u64Max) (actor : A)
    (amount : ℕ) :
    (c.increment actor amount).wrappingValue < c.wrappingValue ↔
      ¬c.total + min amount (u64Max - c.actorValue actor) ≤ u64Max := by
  rw [wrappingValue_eq, wrappingValue_eq,
    total_increment c amount ((actorValue_le_total c actor).trans hc)]
  rw [u64Max] at *
  omega

end GCounter
