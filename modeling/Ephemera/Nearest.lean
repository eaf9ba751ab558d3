/-
# The nearest elements of a set

`Nearest key n S r` says that the list `r` consists of the `n` elements of the set `S` with
the smallest keys, in increasing order, or of all of them if there are fewer.  A front part of
a sorted list is nearest in the list (`nearest_take`), and so is a front part of a list that was
sorted by its keys (`nearest_mergeSort`).  Where keys are distinct, an element is among the
nearest exactly if fewer than `n` others are nearer (`mem_iff`).
-/
import Mathlib.Data.List.Nodup
import Mathlib.Data.List.Sort
import Mathlib.Data.Set.Function

variable {α K : Type*} [LinearOrder K]

/-- The list `r` consists of the `n` elements of `S` with the smallest keys. -/
structure Nearest (key : α → K) (n : ℕ) (S : Set α) (r : List α) : Prop where
  mem : ∀ a ∈ r, a ∈ S
  nodup : r.Nodup
  sorted : r.Pairwise (fun a b => key a ≤ key b)
  length_le : r.length ≤ n
  /-- Fewer than `n` are returned only if there are no more. -/
  all : r.length < n → ∀ a ∈ S, a ∈ r
  closest : ∀ a ∈ S, a ∉ r → ∀ b ∈ r, key b ≤ key a

namespace Nearest

variable {key : α → K} {n : ℕ} {S : Set α} {l r : List α}

/-- A front part of a sorted list. -/
theorem nearest_take (hnodup : l.Nodup) (hsorted : l.Pairwise (fun a b => key a ≤ key b)) (n : ℕ) :
    Nearest key n {a | a ∈ l} (l.take n) where
  mem a ha := List.mem_of_mem_take ha
  nodup := hnodup.sublist (List.take_sublist n l)
  sorted := hsorted.sublist (List.take_sublist n l)
  length_le := List.length_take_le n l
  all hlt a ha := by
    rw [List.length_take] at hlt
    rw [List.take_of_length_le (by omega)]
    exact ha
  closest a ha hout b hb := by
    have happ : (l.take n ++ l.drop n).Pairwise (fun a b => key a ≤ key b) := by
      rw [List.take_append_drop]
      exact hsorted
    have ha' : a ∈ l.drop n := by
      have hmem : a ∈ l.take n ++ l.drop n := by
        rw [List.take_append_drop]
        exact ha
      exact (List.mem_append.mp hmem).resolve_left hout
    exact (List.pairwise_append.mp happ).2.2 b hb a ha'

/-- A front part of a list, once it is sorted. -/
theorem nearest_mergeSort (key : α → K) (hnodup : l.Nodup) (n : ℕ) :
    Nearest key n {a | a ∈ l} ((l.mergeSort (fun a b => decide (key a ≤ key b))).take n) := by
  have hsorted : (l.mergeSort (fun a b => decide (key a ≤ key b))).Pairwise
      (fun a b => key a ≤ key b) := by
    refine (List.pairwise_mergeSort ?_ ?_ l).imp (fun h => of_decide_eq_true h)
    · intro a b c hab hbc
      simp only [decide_eq_true_eq] at hab hbc ⊢
      exact hab.trans hbc
    · intro a b
      simp only [Bool.or_eq_true, decide_eq_true_eq]
      exact le_total _ _
  have hnear := nearest_take ((List.mergeSort_perm l _).nodup_iff.mpr hnodup) hsorted n
  have hset : {a | a ∈ l.mergeSort (fun a b => decide (key a ≤ key b))} = {a | a ∈ l} := by
    ext a
    exact List.mem_mergeSort
  rw [hset] at hnear
  exact hnear

/-- How many there are, in a set listed without repetition. -/
theorem length_eq (h : Nearest key n S r) (hl : l.Nodup) (hS : ∀ a, a ∈ S ↔ a ∈ l) :
    r.length = min n l.length := by
  have hle : r.length ≤ l.length :=
    (List.subperm_of_subset h.nodup (fun a ha => (hS a).mp (h.mem a ha))).length_le
  have hn := h.length_le
  by_cases hlt : r.length < n
  · have hge : l.length ≤ r.length :=
      (List.subperm_of_subset hl (fun a ha => h.all hlt a ((hS a).mpr ha))).length_le
    omega
  · omega

/-- **Whether an element is among the nearest**, where keys are distinct: fewer than `n` elements
have smaller keys. -/
theorem mem_iff (h : Nearest key n S r) (hkey : Set.InjOn key S) (hl : l.Nodup)
    (hS : ∀ a, a ∈ S ↔ a ∈ l) {a : α} (ha : a ∈ S) :
    a ∈ r ↔ (l.filter (fun b => decide (key b < key a))).length < n := by
  constructor
  · intro har
    -- whatever is nearer than `a` is returned too, beside `a`
    have hsub : a :: l.filter (fun b => decide (key b < key a)) ⊆ r := by
      intro b hb
      rcases List.mem_cons.mp hb with rfl | hb
      · exact har
      · obtain ⟨hbl, hlt⟩ := List.mem_filter.mp hb
        by_contra hout
        exact absurd (h.closest b ((hS b).mpr hbl) hout a har) (not_le.mpr (of_decide_eq_true hlt))
    have hnodup : (a :: l.filter (fun b => decide (key b < key a))).Nodup := by
      refine List.nodup_cons.mpr ⟨fun hmem => ?_, hl.sublist List.filter_sublist⟩
      exact lt_irrefl _ (of_decide_eq_true (List.mem_filter.mp hmem).2)
    have hle := (List.subperm_of_subset hnodup hsub).length_le
    have hn := h.length_le
    rw [List.length_cons] at hle
    omega
  · intro hlt
    by_contra hout
    have hfull : n ≤ r.length := not_lt.mp (fun hr => hout (h.all hr a ha))
    have hsub : r ⊆ l.filter (fun b => decide (key b < key a)) := by
      intro b hb
      refine List.mem_filter.mpr ⟨(hS b).mp (h.mem b hb), decide_eq_true ?_⟩
      refine lt_of_le_of_ne (h.closest a ha hout b hb) (fun heq => hout ?_)
      exact hkey (h.mem b hb) ha heq ▸ hb
    have hle := (List.subperm_of_subset h.nodup hsub).length_le
    omega

end Nearest
