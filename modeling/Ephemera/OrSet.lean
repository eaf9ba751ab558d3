/-
# The observed-remove set (`ephemera-crdt/src/orset.rs`)

Each add puts a fresh tag `(actor, seq)` on the value, each remove discards the
tags the replica holds for the value, and a merge takes, value by value, the union
of the two tag sets.  Sequence numbers are `u64`: the increment in `add` wraps,
as it does in a build without overflow checks.
-/
import Mathlib.Algebra.Group.Nat.Defs
import Mathlib.Data.Finset.Basic
import Ephemera.SortedMap

/-- `UniqueTag`: the actor that performed an add and its per-actor sequence number. -/
structure UniqueTag (A : Type*) where
  actor : A
  seq : ℕ
  deriving DecidableEq, Repr

/-- `OrSet`: the live tags of every value, and the last sequence number used by
every actor. -/
structure OrSet (A V : Type*) [LinearOrder A] [LinearOrder V] where
  entries : SortedMap V (Finset (UniqueTag A))
  counters : SortedMap A ℕ

namespace OrSet

variable {A V : Type*} [LinearOrder A] [LinearOrder V]

/-! ## The operations -/

/-- `OrSet::new`. -/
def new : OrSet A V := ⟨SortedMap.empty, SortedMap.empty⟩

/-- The live tags of a value, `∅` when it has no entry. -/
def tags (s : OrSet A V) (value : V) : Finset (UniqueTag A) :=
  (s.entries.get? value).getD ∅

/-- The counter of an actor, `0` when it has no entry. -/
def counter (s : OrSet A V) (actor : A) : ℕ := (s.counters.get? actor).getD 0

/-- `OrSet::add`: bump the actor's counter and add the tag it yields. -/
def add (s : OrSet A V) (actor : A) (value : V) : OrSet A V × UniqueTag A :=
  let seq := (s.counter actor + 1) % 2 ^ 64
  let tag : UniqueTag A := ⟨actor, seq⟩
  (⟨s.entries.insert value (insert tag (s.tags value)), s.counters.insert actor seq⟩, tag)

/-- `OrSet::remove`: discard every tag held for the value; tells whether it had an
entry. -/
def remove (s : OrSet A V) (value : V) : OrSet A V × Bool :=
  (⟨s.entries.erase value, s.counters⟩, (s.entries.get? value).isSome)

/-- `OrSet::contains`: the value has an entry with at least one tag. -/
def contains (s : OrSet A V) (value : V) : Bool :=
  match s.entries.get? value with
  | some tags => decide (tags ≠ ∅)
  | none => false

/-- The values `merge` visits: those with an entry on either side, each once and
in increasing order. -/
def allValues (s other : OrSet A V) : List V :=
  ((s.entries.keys ++ other.entries.keys).foldl (fun m v => m.insert v ())
    (SortedMap.empty : SortedMap V Unit)).keys

/-- One visit of the loop of `merge`: the union of the two tag sets, no entry when
it is empty. -/
def mergeTags (remote : Finset (UniqueTag A)) (local_ : Option (Finset (UniqueTag A))) :
    Option (Finset (UniqueTag A)) :=
  let merged := local_.getD ∅ ∪ remote
  if merged = ∅ then none else some merged

/-- `OrSet::merge`: union of the tag sets, maximum of the counters. -/
def merge (s other : OrSet A V) : OrSet A V :=
  ⟨(allValues s other).foldl (fun m value => m.alter value (mergeTags (other.tags value)))
      s.entries,
    other.counters.entries.foldl
      (fun m p => m.alter p.1 (fun local_ => some (max (local_.getD 0) p.2))) s.counters⟩

/-! ## What the operations do to tags and counters -/

@[simp] theorem tags_new (v : V) : (new : OrSet A V).tags v = ∅ := rfl

@[simp] theorem counter_new (a : A) : (new : OrSet A V).counter a = 0 := rfl

/-- A value is contained exactly when it has a live tag. -/
theorem contains_iff (s : OrSet A V) (v : V) : s.contains v = true ↔ ∃ t, t ∈ s.tags v := by
  rw [contains, tags]
  cases h : s.entries.get? v with
  | none => simp
  | some ts => simp [Finset.eq_empty_iff_forall_notMem]

/-- The tag `add` returns. -/
theorem add_snd (s : OrSet A V) (a : A) (v : V) :
    (s.add a v).2 = ⟨a, (s.counter a + 1) % 2 ^ 64⟩ := rfl

@[simp] theorem tags_add (s : OrSet A V) (a : A) (v v' : V) :
    (s.add a v).1.tags v' = if v = v' then insert (s.add a v).2 (s.tags v) else s.tags v' := by
  rw [tags, add, SortedMap.get?_insert]
  split_ifs <;> rfl

@[simp] theorem counter_add (s : OrSet A V) (a : A) (v : V) (a' : A) :
    (s.add a v).1.counter a' = if a = a' then (s.counter a + 1) % 2 ^ 64 else s.counter a' := by
  rw [counter, add, SortedMap.get?_insert]
  split_ifs <;> rfl

@[simp] theorem tags_remove (s : OrSet A V) (v v' : V) :
    (s.remove v).1.tags v' = if v = v' then ∅ else s.tags v' := by
  rw [tags, remove, SortedMap.get?_erase]
  split_ifs <;> rfl

@[simp] theorem counter_remove (s : OrSet A V) (v : V) (a : A) :
    (s.remove v).1.counter a = s.counter a := rfl

/-- Collecting a list into a set keeps what was there and adds what the list holds. -/
theorem get?_collect_isSome (l : List V) (m : SortedMap V Unit) (v : V) :
    ((l.foldl (fun m v => m.insert v ()) m).get? v).isSome ↔ v ∈ l ∨ (m.get? v).isSome := by
  induction l generalizing m with
  | nil => simp
  | cons w l ih =>
    rw [List.foldl_cons, ih, SortedMap.get?_insert, List.mem_cons]
    by_cases h : w = v
    · simp [h]
    · simp [h, Ne.symm h]

/-- The loop of `merge` visits exactly the values with an entry on some side. -/
theorem mem_allValues (s other : OrSet A V) (v : V) :
    v ∈ allValues s other ↔ (s.entries.get? v).isSome ∨ (other.entries.get? v).isSome := by
  rw [allValues, SortedMap.mem_keys_iff, get?_collect_isSome, List.mem_append,
    SortedMap.mem_keys_iff, SortedMap.mem_keys_iff]
  simp

/-- The entries of a merge: the values with a live tag on some side. -/
theorem get?_entries_merge (s other : OrSet A V) (v : V) :
    (s.merge other).entries.get? v
      = if s.tags v ∪ other.tags v = ∅ then none else some (s.tags v ∪ other.tags v) := by
  rw [merge]
  by_cases hv : v ∈ allValues s other
  · have hnd : ((allValues s other).map id).Nodup := by
      rw [List.map_id]
      exact SortedMap.nodup_keys _
    have hget := SortedMap.get?_foldl_alter id
      (fun value => mergeTags (other.tags value)) (allValues s other) hnd hv s.entries
    simp only [id] at hget
    rw [hget, mergeTags, ← tags]
  · rw [SortedMap.get?_foldl_alter_of_notMem (fun value => value)
      (fun value => mergeTags (other.tags value)) v _ (fun w hw hwv => hv (hwv ▸ hw))]
    rw [mem_allValues, not_or] at hv
    have h1 : s.entries.get? v = none := by simpa using hv.1
    have h2 : other.entries.get? v = none := by simpa using hv.2
    simp [tags, h1, h2]

/-- **Tags of a merge**: the union of both sides. -/
@[simp] theorem tags_merge (s other : OrSet A V) (v : V) :
    (s.merge other).tags v = s.tags v ∪ other.tags v := by
  rw [tags, get?_entries_merge]
  by_cases h : s.tags v ∪ other.tags v = ∅
  · rw [if_pos h, h]
    rfl
  · rw [if_neg h]
    rfl

/-- What a merge stores for an actor: the larger number, where both sides have one. -/
theorem get?_counters_merge (s other : OrSet A V) (a : A) :
    (s.merge other).counters.get? a
      = Option.merge max (s.counters.get? a) (other.counters.get? a) := by
  rw [merge, SortedMap.get?_foldl_alter_max]

/-- **Counters of a merge**: the maximum of both sides. -/
@[simp] theorem counter_merge (s other : OrSet A V) (a : A) :
    (s.merge other).counter a = max (s.counter a) (other.counter a) := by
  rw [counter, get?_counters_merge, counter, counter]
  cases s.counters.get? a with
  | none => cases other.counters.get? a <;> simp
  | some n => cases other.counters.get? a <;> simp

/-! ## Entries without an empty tag set -/

/-- No value has an entry with an empty tag set. -/
def NoEmptyTags (s : OrSet A V) : Prop := ∀ v, s.entries.get? v ≠ some ∅

theorem noEmptyTags_new : NoEmptyTags (new : OrSet A V) := by
  intro v
  simp [new]

/-- `add` leaves no empty tag set. -/
theorem NoEmptyTags.add {s : OrSet A V} (hs : s.NoEmptyTags) (a : A) (v : V) :
    (s.add a v).1.NoEmptyTags := by
  intro v'
  rw [OrSet.add, SortedMap.get?_insert]
  split_ifs
  · rw [Ne, Option.some.injEq]
    exact Finset.insert_ne_empty _ _
  · exact hs v'

/-- `remove` leaves no empty tag set. -/
theorem NoEmptyTags.remove {s : OrSet A V} (hs : s.NoEmptyTags) (v : V) :
    (s.remove v).1.NoEmptyTags := by
  intro v'
  rw [OrSet.remove, SortedMap.get?_erase]
  split_ifs
  · simp
  · exact hs v'

/-- A merge leaves no empty tag set, whatever the two sides hold. -/
theorem noEmptyTags_merge (s other : OrSet A V) : (s.merge other).NoEmptyTags := by
  intro v
  rw [get?_entries_merge]
  by_cases h : s.tags v ∪ other.tags v = ∅
  · simp [h]
  · rw [if_neg h, Ne, Option.some.injEq]
    exact h

/-- Without empty tag sets the entries are read off the live tags. -/
theorem NoEmptyTags.get?_entries {s : OrSet A V} (hs : s.NoEmptyTags) (v : V) :
    s.entries.get? v = if s.tags v = ∅ then none else some (s.tags v) := by
  rw [tags]
  cases h : s.entries.get? v with
  | none => simp
  | some ts =>
    have hne : ts ≠ ∅ := fun he => hs v (he ▸ h)
    simp [hne]

/-- Two states without empty tag sets are equal when they hold the same live tags and the same
counters. -/
theorem NoEmptyTags.ext {s t : OrSet A V} (hs : s.NoEmptyTags) (ht : t.NoEmptyTags)
    (htags : ∀ v, s.tags v = t.tags v) (hcounters : ∀ a, s.counters.get? a = t.counters.get? a) :
    s = t := by
  have he : s.entries = t.entries := SortedMap.ext_get? (fun v => by
    rw [hs.get?_entries, ht.get?_entries, htags])
  have hc : s.counters = t.counters := SortedMap.ext_get? hcounters
  cases s
  cases t
  cases he
  cases hc
  rfl

end OrSet
