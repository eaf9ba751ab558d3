/-
# First occurrences

A receiver that remembers the keys it has seen, and drops what comes under a known key,
keeps of each list the first element of every key.  `firstBy` is that list, built from the
left as the receiver does; the lemmas say what it contains.
-/
import Mathlib.Data.List.Induction
import Mathlib.Data.List.Nodup

namespace FirstByKey

variable {α κ : Type} [DecidableEq κ] (key : α → κ)

/-- The first element of each key, in order. -/
def firstBy (l : List α) : List α :=
  l.foldl (fun acc a => if key a ∈ acc.map key then acc else acc ++ [a]) []

variable {key}

/-- No key is lost. -/
theorem mem_map_firstBy {l : List α} {k : κ} : k ∈ (firstBy key l).map key ↔ k ∈ l.map key := by
  induction l using List.reverseRecOn with
  | nil => rfl
  | append_singleton l a ih =>
    rw [firstBy, List.foldl_append, List.foldl_cons, List.foldl_nil]
    change k ∈ (if key a ∈ (firstBy key l).map key then firstBy key l
      else firstBy key l ++ [a]).map key ↔ _
    rw [List.map_append, List.mem_append, List.map_singleton, List.mem_singleton, ← ih]
    split
    · rename_i ha
      constructor
      · exact Or.inl
      · rintro (h | rfl)
        · exact h
        · exact ha
    · rw [List.map_append, List.mem_append, List.map_singleton, List.mem_singleton]

/-- An element at the end is kept if its key is new. -/
theorem firstBy_append_singleton (l : List α) (a : α) :
    firstBy key (l ++ [a]) = if key a ∈ l.map key then firstBy key l else firstBy key l ++ [a] := by
  rw [firstBy, List.foldl_append, List.foldl_cons, List.foldl_nil]
  change (if key a ∈ (firstBy key l).map key then firstBy key l else firstBy key l ++ [a]) = _
  simp only [mem_map_firstBy]

/-- No key is kept twice. -/
theorem nodup_map_firstBy (l : List α) : ((firstBy key l).map key).Nodup := by
  induction l using List.reverseRecOn with
  | nil => exact List.nodup_nil
  | append_singleton l a ih =>
    rw [firstBy_append_singleton]
    split
    · exact ih
    · rename_i ha
      rw [List.map_append, List.nodup_append]
      refine ⟨ih, by simp, ?_⟩
      intro x hx y hy
      rw [List.map_singleton, List.mem_singleton] at hy
      rintro rfl
      exact ha (hy ▸ mem_map_firstBy.mp hx)

/-- What is kept is what a search for its key finds. -/
theorem mem_firstBy_iff {l : List α} {a : α} :
    a ∈ firstBy key l ↔ l.find? (fun b => key b = key a) = some a := by
  induction l using List.reverseRecOn with
  | nil => simp [firstBy]
  | append_singleton l b ih =>
    rw [firstBy_append_singleton, List.find?_append]
    by_cases hb : key b ∈ l.map key
    · rw [if_pos hb, ih]
      obtain ⟨c, hc, hcb⟩ := List.mem_map.mp hb
      cases hfind : l.find? (fun x => key x = key a) with
      | some x => simp
      | none =>
        -- then `b` does not have the key of `a`, as it shares its key with `c`
        have hne : key b ≠ key a := by
          intro hba
          have hnot := List.find?_eq_none.mp hfind c hc
          rw [hcb, hba] at hnot
          simp at hnot
        simp [hne]
    · rw [if_neg hb, List.mem_append, List.mem_singleton, ih]
      cases hfind : l.find? (fun x => key x = key a) with
      | some x =>
        have hx : key x = key a := by simpa using List.find?_some hfind
        have hmem : x ∈ l := List.mem_of_find?_eq_some hfind
        constructor
        · rintro (h | rfl)
          · simpa using h
          · exact absurd (List.mem_map.mpr ⟨x, hmem, hx⟩) hb
        · intro h
          exact Or.inl (by simpa using h)
      | none =>
        constructor
        · rintro (h | rfl)
          · cases h
          · simp
        · intro h
          by_cases hba : key b = key a
          · right
            simpa [hba, eq_comm] using h
          · simp [hba] at h

/-- A property that singles out the key `k` holds of one element of a list without repeated
keys. -/
theorem countP_eq_one {l : List α} (hl : (l.map key).Nodup) {k : κ} (hk : k ∈ l.map key)
    {q : α → Bool} (hq : ∀ a ∈ l, q a = true ↔ key a = k) : l.countP q = 1 := by
  have hcount : l.countP q = (l.map key).count k := by
    rw [List.count, List.countP_map]
    apply List.countP_congr
    intro a ha
    rw [hq a ha]
    simp
  rw [hcount]
  exact List.count_eq_one_of_mem hl hk

end FirstByKey
