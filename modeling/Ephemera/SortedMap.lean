/-
# Sorted maps

A finite map kept as the list of its entries in strictly increasing key order:
the observable content of an ordered tree map.  The order of the entries is a
field of the structure, so that no map with a repeated key can be built, and the
only reads and writes are `get?`, `insert`, `erase` and `alter`.

Each write has one `get?` equation.  `get?_foldl_alter` evaluates a loop that
visits the keys of a duplicate-free list and rewrites one entry per visit.
-/
import Mathlib.Data.List.Nodup
import Mathlib.Data.List.Sort
import Mathlib.Order.Lattice
import Mathlib.Tactic.Cases

/-- A finite map, as the list of its entries in strictly increasing key order. -/
structure SortedMap (K V : Type*) [LinearOrder K] where
  entries : List (K × V)
  /-- The keys increase strictly: no key is listed twice. -/
  sorted : entries.Pairwise (fun p q => p.1 < q.1)

namespace SortedMap

variable {K V : Type*} [LinearOrder K]

instance [DecidableEq V] : DecidableEq (SortedMap K V) := fun m n =>
  decidable_of_iff (m.entries = n.entries) <| by
    cases m
    cases n
    simp

/-! ## Reads -/

/-- The map without entries. -/
def empty : SortedMap K V := ⟨[], List.Pairwise.nil⟩

/-- The value stored under `k`. -/
def get? (m : SortedMap K V) (k : K) : Option V :=
  (m.entries.find? (fun p => p.1 = k)).map Prod.snd

/-- The keys, in increasing order. -/
def keys (m : SortedMap K V) : List K := m.entries.map Prod.fst

/-- The keys are pairwise distinct. -/
theorem nodup_keys (m : SortedMap K V) : m.keys.Nodup := by
  rw [keys, List.Nodup, List.pairwise_map]
  exact m.sorted.imp (fun h => ne_of_lt h)

@[simp] theorem get?_empty (k : K) : (empty : SortedMap K V).get? k = none := rfl

/-- In a list sorted by key, a listed entry is the one a search for its key finds. -/
theorem find?_of_mem {l : List (K × V)} (hl : l.Pairwise (fun p q => p.1 < q.1))
    {k : K} {v : V} (h : (k, v) ∈ l) : l.find? (fun p => p.1 = k) = some (k, v) := by
  induction l with
  | nil => simp at h
  | cons p l ih =>
    rw [List.pairwise_cons] at hl
    rcases List.mem_cons.mp h with rfl | h
    · simp
    · have hne : p.1 ≠ k := ne_of_lt (hl.1 _ h)
      rw [List.find?_cons_of_neg (by simpa using hne)]
      exact ih hl.2 h

/-- A listed entry is what `get?` reads. -/
theorem get?_of_mem {m : SortedMap K V} {k : K} {v : V} (h : (k, v) ∈ m.entries) :
    m.get? k = some v := by
  rw [get?, find?_of_mem m.sorted h]
  rfl

/-- What `get?` reads is a listed entry. -/
theorem mem_of_get? {m : SortedMap K V} {k : K} {v : V} (h : m.get? k = some v) :
    (k, v) ∈ m.entries := by
  rw [get?, Option.map_eq_some_iff] at h
  obtain ⟨⟨k', v'⟩, hf, rfl⟩ := h
  have hk : k' = k := by simpa using List.find?_some hf
  subst hk
  exact List.mem_of_find?_eq_some hf

/-- A key is listed exactly when `get?` finds something under it. -/
theorem mem_keys_iff {m : SortedMap K V} {k : K} : k ∈ m.keys ↔ (m.get? k).isSome := by
  rw [keys, List.mem_map, Option.isSome_iff_exists]
  constructor
  · rintro ⟨⟨k', v⟩, hmem, rfl⟩
    exact ⟨v, get?_of_mem hmem⟩
  · rintro ⟨v, hv⟩
    exact ⟨(k, v), mem_of_get? hv, rfl⟩

/-- A map is what `get?` reads of it. -/
theorem ext_get? {m n : SortedMap K V} (h : ∀ k, m.get? k = n.get? k) : m = n := by
  have hnodup (m : SortedMap K V) : m.entries.Nodup := List.Nodup.of_map _ m.nodup_keys
  have hperm : m.entries.Perm n.entries := by
    refine (List.perm_ext_iff_of_nodup (hnodup m) (hnodup n)).mpr (fun ⟨k, v⟩ => ?_)
    constructor
    · intro hk
      exact mem_of_get? ((h k).symm.trans (get?_of_mem hk))
    · intro hk
      exact mem_of_get? ((h k).trans (get?_of_mem hk))
  have heq : m.entries = n.entries :=
    hperm.eq_of_pairwise (fun p q _ _ hpq hqp => absurd hqp (not_lt_of_gt hpq)) m.sorted n.sorted
  cases m
  cases n
  cases heq
  rfl

/-! ## Writes -/

/-- Place `(k, v)` in a sorted list, over the entry of the same key if there is one. -/
def insertList (k : K) (v : V) : List (K × V) → List (K × V)
  | [] => [(k, v)]
  | p :: l =>
      if k < p.1 then (k, v) :: p :: l
      else if p.1 = k then (k, v) :: l
      else p :: insertList k v l

/-- The entries after an insertion are the new one and old ones of other keys. -/
theorem mem_insertList {k : K} {v : V} {l : List (K × V)} {q : K × V}
    (h : q ∈ insertList k v l) : q = (k, v) ∨ q ∈ l := by
  induction l with
  | nil => simpa [insertList] using h
  | cons p l ih =>
    rw [insertList] at h
    split_ifs at h with h1 h2
    · simpa using h
    · rcases List.mem_cons.mp h with h | h
      · exact Or.inl h
      · exact Or.inr (List.mem_cons_of_mem p h)
    · rcases List.mem_cons.mp h with rfl | h
      · exact Or.inr List.mem_cons_self
      · exact (ih h).imp id (List.mem_cons_of_mem p)

/-- Insertion keeps the key order. -/
theorem pairwise_insertList (k : K) (v : V) {l : List (K × V)}
    (hl : l.Pairwise (fun p q => p.1 < q.1)) :
    (insertList k v l).Pairwise (fun p q => p.1 < q.1) := by
  induction l with
  | nil => simp [insertList]
  | cons p l ih =>
    rw [insertList]
    have hp := List.pairwise_cons.mp hl
    split_ifs with h1 h2
    · refine List.pairwise_cons.mpr ⟨fun q hq => ?_, hl⟩
      rcases List.mem_cons.mp hq with rfl | hq
      · exact h1
      · exact h1.trans (hp.1 q hq)
    · refine List.pairwise_cons.mpr ⟨fun q hq => ?_, hp.2⟩
      exact h2 ▸ hp.1 q hq
    · refine List.pairwise_cons.mpr ⟨fun q hq => ?_, ih hp.2⟩
      rcases mem_insertList hq with rfl | hq
      · exact lt_of_le_of_ne (not_lt.mp h1) h2
      · exact hp.1 q hq

/-- Searching after an insertion. -/
theorem find?_insertList (k : K) (v : V) (k' : K) (l : List (K × V)) :
    (insertList k v l).find? (fun p => p.1 = k')
      = if k = k' then some (k, v) else l.find? (fun p => p.1 = k') := by
  induction l with
  | nil => by_cases h : k = k' <;> simp [insertList, h]
  | cons p l ih =>
    rw [insertList]
    by_cases hk : k = k'
    · subst hk
      by_cases h1 : k < p.1
      · simp [h1]
      · by_cases h2 : p.1 = k
        · simp [h2]
        · rw [if_neg h1, if_neg h2, List.find?_cons_of_neg (by simpa using h2), ih]
          simp
    · by_cases h1 : k < p.1
      · simp [h1, hk]
      · by_cases h2 : p.1 = k
        · simp [h2, hk]
        · rw [if_neg h1, if_neg h2, List.find?_cons, List.find?_cons, ih, if_neg hk,
            if_neg hk]

/-- Store `v` under `k`. -/
def insert (m : SortedMap K V) (k : K) (v : V) : SortedMap K V :=
  ⟨insertList k v m.entries, pairwise_insertList k v m.sorted⟩

/-- Drop the entry of `k`. -/
def erase (m : SortedMap K V) (k : K) : SortedMap K V :=
  ⟨m.entries.filter (fun p => p.1 ≠ k), m.sorted.filter _⟩

/-- Rewrite the entry of `k` as a function of what was there; `none` drops it. -/
def alter (m : SortedMap K V) (k : K) (g : Option V → Option V) : SortedMap K V :=
  match g (m.get? k) with
  | none => m.erase k
  | some v => m.insert k v

@[simp] theorem get?_insert (m : SortedMap K V) (k : K) (v : V) (k' : K) :
    (m.insert k v).get? k' = if k = k' then some v else m.get? k' := by
  rw [get?, insert, find?_insertList]
  split_ifs <;> rfl

@[simp] theorem get?_erase (m : SortedMap K V) (k k' : K) :
    (m.erase k).get? k' = if k = k' then none else m.get? k' := by
  rw [get?, erase, List.find?_filter]
  by_cases h : k = k'
  · subst h
    rw [if_pos rfl, Option.map_eq_none_iff, List.find?_eq_none]
    intro p _
    simp
  · rw [if_neg h, get?]
    congr 2
    funext p
    by_cases hp : p.1 = k'
    · simp [hp, Ne.symm h]
    · simp [hp]

@[simp] theorem get?_alter (m : SortedMap K V) (k : K) (g : Option V → Option V) (k' : K) :
    (m.alter k g).get? k' = if k = k' then g (m.get? k) else m.get? k' := by
  rw [alter]
  split
  · rename_i h
    rw [get?_erase, h]
  · rename_i v h
    rw [get?_insert, h]

/-! ## Loops over keys -/

/-- Visits to keys other than `k` leave the entry of `k` alone. -/
theorem get?_foldl_alter_of_notMem {ι : Type*} (key : ι → K) (g : ι → Option V → Option V)
    (k : K) (l : List ι) (h : ∀ i ∈ l, key i ≠ k) (m : SortedMap K V) :
    (l.foldl (fun m i => m.alter (key i) (g i)) m).get? k = m.get? k := by
  induction l generalizing m with
  | nil => rfl
  | cons i l ih =>
    rw [List.foldl_cons, ih (fun j hj => h j (List.mem_cons_of_mem i hj)), get?_alter,
      if_neg (h i List.mem_cons_self)]

/-- **Loop over distinct keys.**  A loop that rewrites one entry per visit and
visits every key at most once acts on each visited entry as its own rewrite. -/
theorem get?_foldl_alter {ι : Type*} (key : ι → K) (g : ι → Option V → Option V)
    (l : List ι) (hl : (l.map key).Nodup) {i : ι} (hi : i ∈ l) (m : SortedMap K V) :
    (l.foldl (fun m i => m.alter (key i) (g i)) m).get? (key i) = g i (m.get? (key i)) := by
  induction l generalizing m with
  | nil => simp at hi
  | cons j l ih =>
    rw [List.map_cons, List.nodup_cons, List.mem_map] at hl
    rw [List.foldl_cons]
    rcases List.mem_cons.mp hi with rfl | hi
    · rw [get?_foldl_alter_of_notMem key g (key i) l
        (fun j hj hk => hl.1 ⟨j, hj, hk⟩), get?_alter, if_pos rfl]
    · have hne : key j ≠ key i := fun hk => hl.1 ⟨i, hi, hk.symm⟩
      rw [ih hl.2 hi, get?_alter, if_neg hne]

/-- A loop over the entries of a second map that rewrites the entry of the same key acts, at
each key, as the rewrite the second map asks for. -/
theorem get?_foldl_alter_entries {W : Type*} (g : W → Option V → Option V)
    (m : SortedMap K V) (n : SortedMap K W) (k : K) :
    (n.entries.foldl (fun m p => m.alter p.1 (g p.2)) m).get? k
      = match n.get? k with
        | some w => g w (m.get? k)
        | none => m.get? k := by
  cases hk : n.get? k with
  | some w =>
    exact get?_foldl_alter Prod.fst (fun p => g p.2) n.entries n.nodup_keys (mem_of_get? hk) m
  | none =>
    refine get?_foldl_alter_of_notMem Prod.fst (fun p => g p.2) k n.entries ?_ m
    rintro ⟨k', w⟩ hp rfl
    rw [get?_of_mem hp] at hk
    cases hk

/-- A loop that raises each entry to the number a second map holds under its key, from `0` where
there is none. -/
theorem get?_foldl_alter_max (m n : SortedMap K ℕ) (k : K) :
    (n.entries.foldl (fun m p => m.alter p.1 (fun o => some (max (o.getD 0) p.2))) m).get? k
      = Option.merge max (m.get? k) (n.get? k) := by
  rw [get?_foldl_alter_entries (fun w o => some (max (o.getD 0) w))]
  cases m.get? k with
  | none => cases n.get? k <;> simp
  | some a => cases n.get? k <;> simp

end SortedMap
