/-
# The grow-only counter (`ephemera-crdt/src/gcounter.rs`)

Every actor has a slot of its own, incrementing it saturates at `u64::MAX`, and a merge
takes the larger count slot by slot.
-/
import Ephemera.SortedMap
import Mathlib.Algebra.Group.Nat.Defs

/-- `u64::MAX`. -/
def u64Max : ℕ := 2 ^ 64 - 1

/-- `u64::saturating_add`. -/
def saturatingAdd (m n : ℕ) : ℕ := min (m + n) u64Max

/-- `GCounter`: the count of every actor that has one. -/
structure GCounter (A : Type*) [LinearOrder A] where
  counts : SortedMap A ℕ

namespace GCounter

variable {A : Type*} [LinearOrder A]

/-! ## The operations -/

/-- `GCounter::new`. -/
def new : GCounter A := ⟨SortedMap.empty⟩

/-- `GCounter::increment`: add to the actor's slot, from `0` when it has none. -/
def increment (c : GCounter A) (actor : A) (amount : ℕ) : GCounter A :=
  ⟨c.counts.alter actor (fun entry => some (saturatingAdd (entry.getD 0) amount))⟩

/-- `GCounter::actor_value`: the actor's count, `0` when it has no slot. -/
def actorValue (c : GCounter A) (actor : A) : ℕ := (c.counts.get? actor).getD 0

/-- `GCounter::merge`: raise each slot to the other side's count. -/
def merge (c other : GCounter A) : GCounter A :=
  ⟨other.counts.entries.foldl
    (fun m p => m.alter p.1 (fun entry => some (max (entry.getD 0) p.2))) c.counts⟩

/-! ## What the operations do to the counts -/

@[simp] theorem actorValue_new (a : A) : (new : GCounter A).actorValue a = 0 := rfl

@[simp] theorem actorValue_increment (c : GCounter A) (a : A) (n : ℕ) (x : A) :
    (c.increment a n).actorValue x
      = if a = x then saturatingAdd (c.actorValue a) n else c.actorValue x := by
  rw [actorValue, increment, SortedMap.get?_alter]
  split_ifs <;> rfl

/-- What a merge stores for an actor: the larger count, where both sides have one. -/
theorem get?_counts_merge (c other : GCounter A) (a : A) :
    (c.merge other).counts.get? a
      = Option.merge max (c.counts.get? a) (other.counts.get? a) := by
  rw [merge, SortedMap.get?_foldl_alter_max]

/-- **Counts of a merge**: the larger count of both sides. -/
@[simp] theorem actorValue_merge (c other : GCounter A) (a : A) :
    (c.merge other).actorValue a = max (c.actorValue a) (other.actorValue a) := by
  rw [actorValue, get?_counts_merge, actorValue, actorValue]
  cases c.counts.get? a with
  | none => cases other.counts.get? a <;> simp
  | some n => cases other.counts.get? a <;> simp

/-- Two counters are equal when they store the same for every actor. -/
theorem ext_counts {c d : GCounter A} (h : ∀ a, c.counts.get? a = d.counts.get? a) : c = d := by
  have hc : c.counts = d.counts := SortedMap.ext_get? h
  cases c
  cases d
  cases hc
  rfl

end GCounter
