/-
# `OrSet` and `GCounter` are join semilattices

Both merges are commutative, associative and idempotent as equations on the whole
state: entries and counters, not only what a reader sees.  For `OrSet` this needs that
no value has an empty tag set, which `new`, `add`, `remove` and `merge` guarantee; a
merge drops such an entry, so it is not idempotent on a state that has one
(`not_idem_of_empty_tags`).  What a replica has merged then determines its state.
-/
import Mathlib.Data.Finset.Lattice.Lemmas
import Ephemera.GCounter
import Ephemera.MergeOrder
import Ephemera.OrSet

variable {A V : Type*} [LinearOrder A] [LinearOrder V]

/-! ## The laws of the two merges -/

/-- `OrSet::merge` on the states without empty tag sets. -/
theorem OrSet.mergeLaws : MergeLaws (OrSet.NoEmptyTags (A := A) (V := V)) OrSet.merge where
  closed a b _ _ := OrSet.noEmptyTags_merge a b
  comm a b _ _ := by
    refine (OrSet.noEmptyTags_merge a b).ext (OrSet.noEmptyTags_merge b a) (fun v => ?_)
      (fun x => ?_)
    · rw [OrSet.tags_merge, OrSet.tags_merge, Finset.union_comm]
    · rw [OrSet.get?_counters_merge, OrSet.get?_counters_merge]
      exact Std.Commutative.comm _ _
  assoc a b c _ _ _ := by
    refine (OrSet.noEmptyTags_merge _ c).ext (OrSet.noEmptyTags_merge a _) (fun v => ?_)
      (fun x => ?_)
    · simp only [OrSet.tags_merge, Finset.union_assoc]
    · simp only [OrSet.get?_counters_merge]
      exact Std.Associative.assoc _ _ _
  idem a ha := by
    refine (OrSet.noEmptyTags_merge a a).ext ha (fun v => ?_) (fun x => ?_)
    · rw [OrSet.tags_merge, Finset.union_self]
    · rw [OrSet.get?_counters_merge]
      exact Std.IdempotentOp.idempotent _

/-- `GCounter::merge` on all states. -/
theorem GCounter.mergeLaws : MergeLaws (fun _ : GCounter A => True) GCounter.merge where
  closed _ _ _ _ := trivial
  comm a b _ _ := GCounter.ext_counts (fun x => by
    rw [GCounter.get?_counts_merge, GCounter.get?_counts_merge]
    exact Std.Commutative.comm _ _)
  assoc a b c _ _ _ := GCounter.ext_counts (fun x => by
    simp only [GCounter.get?_counts_merge]
    exact Std.Associative.assoc _ _ _)
  idem a _ := GCounter.ext_counts (fun x => by
    rw [GCounter.get?_counts_merge]
    exact Std.IdempotentOp.idempotent _)

/-- Merging a state with itself gives it back exactly when it has no empty tag set. -/
theorem OrSet.merge_self_iff (s : OrSet A V) : s.merge s = s ↔ s.NoEmptyTags := by
  refine ⟨fun h => ?_, OrSet.mergeLaws.idem s⟩
  rw [← h]
  exact OrSet.noEmptyTags_merge s s

/-! ## Convergence -/

/-- **Join semilattices.**  `OrSet` states without empty tag sets are all that `new`, `add`,
`remove` and `merge` produce; on them, and on all `GCounter` states, `merge` obeys the
semilattice laws on the whole state, and two replicas that have merged the same states in any
order, grouping and multiplicity are equal. -/
theorem merges_are_join_semilattices :
    (OrSet.NoEmptyTags (OrSet.new : OrSet A V)
      ∧ (∀ s : OrSet A V, s.NoEmptyTags → ∀ a v, (s.add a v).1.NoEmptyTags)
      ∧ (∀ s : OrSet A V, s.NoEmptyTags → ∀ v, (s.remove v).1.NoEmptyTags)
      ∧ ∀ s t : OrSet A V, (s.merge t).NoEmptyTags)
    ∧ MergeLaws (OrSet.NoEmptyTags (A := A) (V := V)) OrSet.merge
    ∧ MergeLaws (fun _ : GCounter A => True) GCounter.merge
    ∧ (∀ t t' : MergeTree (OrSet A V), (∀ s ∈ t.leaves, s.NoEmptyTags) →
        (∀ s, s ∈ t.leaves ↔ s ∈ t'.leaves) → t.eval OrSet.merge = t'.eval OrSet.merge)
    ∧ ∀ t t' : MergeTree (GCounter A),
        (∀ s, s ∈ t.leaves ↔ s ∈ t'.leaves) → t.eval GCounter.merge = t'.eval GCounter.merge := by
  refine ⟨⟨OrSet.noEmptyTags_new, fun s hs => hs.add, fun s hs => hs.remove,
    OrSet.noEmptyTags_merge⟩, OrSet.mergeLaws, GCounter.mergeLaws, ?_, ?_⟩
  · intro t t' ht hsame
    exact OrSet.mergeLaws.eval_eq_of_same_leaves ht hsame
  · intro t t' hsame
    exact GCounter.mergeLaws.eval_eq_of_same_leaves (fun _ _ => trivial) hsame

/-- Two replicas that exchange the adds of actors `0` and `1`, one of them receiving a state
twice. -/
theorem merges_are_join_semilattices_two_adds :
    let s : OrSet ℕ ℕ := (OrSet.new.add 0 7).1
    let t : OrSet ℕ ℕ := (OrSet.new.add 1 7).1
    MergeTree.eval OrSet.merge (.node (.leaf s) (.leaf t))
      = MergeTree.eval OrSet.merge (.node (.leaf t) (.node (.leaf s) (.leaf t))) := by
  intro s t
  refine (merges_are_join_semilattices (A := ℕ) (V := ℕ)).2.2.2.1 _ _ (fun u hu => ?_)
    (fun u => ?_)
  · have hu : u = s ∨ u = t := by simpa [MergeTree.leaves] using hu
    rcases hu with rfl | rfl
    · exact OrSet.noEmptyTags_new.add 0 7
    · exact OrSet.noEmptyTags_new.add 1 7
  · simp only [MergeTree.leaves, List.mem_append, List.mem_singleton]
    exact ⟨fun h => h.elim (fun h => Or.inr (Or.inl h)) Or.inl,
      fun h => h.elim Or.inr (fun h => h)⟩
