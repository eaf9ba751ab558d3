/-
# Merging in any order, grouping and multiplicity

A binary merge on the states that satisfy `P` is described by four laws.  A replica
that has merged some states did so along a tree: its leaves are the states, its shape
is the order and the grouping, and a state merged twice is a leaf twice.  Under the
laws the result is the least upper bound of the leaves (`MergeLaws.eval_absorbs`,
`MergeLaws.eval_least`), so it depends on the set of leaves alone
(`MergeLaws.eval_eq_of_same_leaves`).
-/
import Mathlib.Data.List.Basic

/-- The merges a replica has performed, from the states at the leaves up. -/
inductive MergeTree (S : Type*) where
  | leaf (s : S)
  | node (l r : MergeTree S)

namespace MergeTree

variable {S : Type*}

/-- The state the merges lead to. -/
def eval (f : S → S → S) : MergeTree S → S
  | leaf s => s
  | node l r => f (l.eval f) (r.eval f)

/-- The states that were merged, one entry per use. -/
def leaves : MergeTree S → List S
  | leaf s => [s]
  | node l r => l.leaves ++ r.leaves

end MergeTree

/-- On the states that satisfy `P`, which it keeps, the merge `f` is commutative, associative
and idempotent. -/
structure MergeLaws {S : Type*} (P : S → Prop) (f : S → S → S) : Prop where
  closed : ∀ a b, P a → P b → P (f a b)
  comm : ∀ a b, P a → P b → f a b = f b a
  assoc : ∀ a b c, P a → P b → P c → f (f a b) c = f a (f b c)
  idem : ∀ a, P a → f a a = a

namespace MergeLaws

variable {S : Type*} {P : S → Prop} {f : S → S → S}

/-- Merging states that satisfy `P` leads to one that does. -/
theorem eval_closed (h : MergeLaws P f) {t : MergeTree S} (ht : ∀ s ∈ t.leaves, P s) :
    P (t.eval f) := by
  induction t with
  | leaf s => exact ht s (List.mem_singleton.mpr rfl)
  | node l r ihl ihr =>
    refine h.closed _ _ (ihl fun s hs => ht s ?_) (ihr fun s hs => ht s ?_)
    · exact List.mem_append_left _ hs
    · exact List.mem_append_right _ hs

/-- The result absorbs each of the merged states: it is an upper bound of them. -/
theorem eval_absorbs (h : MergeLaws P f) {t : MergeTree S} (ht : ∀ s ∈ t.leaves, P s) {s : S}
    (hs : s ∈ t.leaves) : f s (t.eval f) = t.eval f := by
  induction t with
  | leaf u =>
    rw [MergeTree.leaves, List.mem_singleton] at hs
    subst hs
    exact h.idem s (ht s (List.mem_singleton.mpr rfl))
  | node l r ihl ihr =>
    have hsP := ht s hs
    have hl : ∀ u ∈ l.leaves, P u := fun u hu => ht u (List.mem_append_left _ hu)
    have hr : ∀ u ∈ r.leaves, P u := fun u hu => ht u (List.mem_append_right _ hu)
    have hlP := h.eval_closed hl
    have hrP := h.eval_closed hr
    rw [MergeTree.eval]
    rcases List.mem_append.mp hs with hs | hs
    · rw [← h.assoc _ _ _ hsP hlP hrP, ihl hl hs]
    · calc f s (f (l.eval f) (r.eval f))
          = f s (f (r.eval f) (l.eval f)) := by rw [h.comm _ _ hlP hrP]
        _ = f (f s (r.eval f)) (l.eval f) := (h.assoc _ _ _ hsP hrP hlP).symm
        _ = f (r.eval f) (l.eval f) := by rw [ihr hr hs]
        _ = f (l.eval f) (r.eval f) := h.comm _ _ hrP hlP

/-- A state that absorbs each of the merged states absorbs the result: the result is the least
upper bound. -/
theorem eval_least (h : MergeLaws P f) {t : MergeTree S} (ht : ∀ s ∈ t.leaves, P s) {u : S}
    (hu : P u) (habs : ∀ s ∈ t.leaves, f s u = u) : f (t.eval f) u = u := by
  induction t with
  | leaf s => exact habs s (List.mem_singleton.mpr rfl)
  | node l r ihl ihr =>
    have hl : ∀ s ∈ l.leaves, P s := fun s hs => ht s (List.mem_append_left _ hs)
    have hr : ∀ s ∈ r.leaves, P s := fun s hs => ht s (List.mem_append_right _ hs)
    rw [MergeTree.eval, h.assoc _ _ _ (h.eval_closed hl) (h.eval_closed hr) hu,
      ihr hr (fun s hs => habs s (List.mem_append_right _ hs)),
      ihl hl (fun s hs => habs s (List.mem_append_left _ hs))]

/-- **Convergence.**  Two replicas that have merged the same set of states are equal, whatever
the order, the grouping and the multiplicity of the merges. -/
theorem eval_eq_of_same_leaves (h : MergeLaws P f) {t t' : MergeTree S}
    (ht : ∀ s ∈ t.leaves, P s) (hsame : ∀ s, s ∈ t.leaves ↔ s ∈ t'.leaves) :
    t.eval f = t'.eval f := by
  have ht' : ∀ s ∈ t'.leaves, P s := fun s hs => ht s ((hsame s).mpr hs)
  have h₁ : f (t.eval f) (t'.eval f) = t'.eval f :=
    h.eval_least ht (h.eval_closed ht') (fun s hs => h.eval_absorbs ht' ((hsame s).mp hs))
  have h₂ : f (t'.eval f) (t.eval f) = t.eval f :=
    h.eval_least ht' (h.eval_closed ht) (fun s hs => h.eval_absorbs ht ((hsame s).mpr hs))
  rw [← h₂, h.comm _ _ (h.eval_closed ht') (h.eval_closed ht), h₁]

end MergeLaws
