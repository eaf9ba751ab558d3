/-
# Hash maps

A hash map is Mathlib's association list without repeated keys: `lookup`, `insert` and
`erase` say all that a program sees of it, except for the order in which a loop visits
it.  The standard library does not fix that order, so a loop is given one as a
`VisitOrder`, and what is proved holds for each.
-/
import Mathlib.Data.List.AList

/-- A hash map. -/
abbrev HashMap (K V : Type) := AList (fun _ : K => V)

/-- The order in which a loop over a hash map visits its keys. -/
structure VisitOrder (K : Type) where
  visit : List K → List K
  /-- Every key is visited once. -/
  perm : ∀ keys, (visit keys).Perm keys

/-- The order in which the keys are listed. -/
def VisitOrder.asListed (K : Type) : VisitOrder K := ⟨id, fun _ => List.Perm.rfl⟩

/-- The order that visits `a` first. -/
def VisitOrder.first {K : Type} [DecidableEq K] (a : K) : VisitOrder K where
  visit keys := if a ∈ keys then a :: keys.erase a else keys
  perm keys := by
    split
    · next h => exact (List.perm_cons_erase h).symm
    · rfl

/-- A loop that stops after one element visits that one. -/
theorem VisitOrder.take_one_visit_first {K : Type} [DecidableEq K] {a : K} {keys : List K}
    (h : a ∈ keys) : ((VisitOrder.first a).visit keys).take 1 = [a] := by
  have hvisit : (VisitOrder.first a).visit keys = a :: keys.erase a := if_pos h
  rw [hvisit]
  rfl

namespace HashMap

variable {K V : Type}

/-- `keys()`: the keys, in the order of a visit. -/
def keysIn (order : VisitOrder K) (m : HashMap K V) : List K := order.visit m.keys

theorem mem_keysIn {order : VisitOrder K} {m : HashMap K V} {k : K} :
    k ∈ keysIn order m ↔ k ∈ m := by
  rw [keysIn, (order.perm m.keys).mem_iff, AList.mem_keys]

variable [DecidableEq K]

/-- A key is in the map when something is stored under it. -/
theorem mem_iff_lookup {m : HashMap K V} {k : K} : k ∈ m ↔ ∃ v, m.lookup k = some v := by
  rw [← AList.lookup_isSome, Option.isSome_iff_exists]

/-- Reading after a write. -/
theorem lookup_insert_eq (m : HashMap K V) (k : K) (v : V) (k' : K) :
    (m.insert k v).lookup k' = if k' = k then some v else m.lookup k' := by
  by_cases h : k' = k
  · subst h
    rw [if_pos rfl, AList.lookup_insert]
  · rw [if_neg h, AList.lookup_insert_ne h]

/-- Reading after a removal. -/
theorem lookup_erase_eq (m : HashMap K V) (k k' : K) :
    (m.erase k).lookup k' = if k' = k then none else m.lookup k' := by
  by_cases h : k' = k
  · subst h
    rw [if_pos rfl, AList.lookup_erase]
  · rw [if_neg h, AList.lookup_erase_ne h]

/-- A write over what was there is one over nothing. -/
theorem insert_erase_self (m : HashMap K V) (k : K) (v : V) :
    (m.erase k).insert k v = m.insert k v := by
  apply AList.ext
  rw [AList.entries_insert, AList.entries_insert]
  congr 1
  exact List.kerase_of_notMem_keys (List.notMem_keys_kerase k m.nodupKeys)

/-- `retain`: keep the entries that satisfy `p`. -/
def retain (p : K → V → Bool) (m : HashMap K V) : HashMap K V where
  entries := m.entries.filter (fun e => p e.1 e.2)
  nodupKeys := m.nodupKeys.sublist List.filter_sublist

/-- Reading after `retain`. -/
theorem lookup_retain (p : K → V → Bool) (m : HashMap K V) (k : K) :
    (retain p m).lookup k = (m.lookup k).filter (p k) := by
  ext v
  rw [Option.filter_eq_some_iff, ← Option.mem_def, ← Option.mem_def, AList.mem_lookup_iff,
    AList.mem_lookup_iff, retain, List.mem_filter]

/-! ## A map and the map back -/

variable {O : Type} [DecidableEq O]

/-- `back` is the inverse of reading `owner` off the values of `m`. -/
def Inverse (owner : V → O) (m : HashMap K V) (back : HashMap O K) : Prop :=
  ∀ k o, (m.lookup k).map owner = some o ↔ back.lookup o = some k

variable {owner : V → O} {m : HashMap K V} {back : HashMap O K}

theorem inverse_empty : Inverse owner (∅ : HashMap K V) ∅ := by
  intro k o
  simp

/-- Removing an entry on both sides keeps the maps inverse. -/
theorem Inverse.erase (h : Inverse owner m back) {k : K} {v : V} (hk : m.lookup k = some v) :
    Inverse owner (m.erase k) (back.erase (owner v)) := by
  intro k' o
  have hback : back.lookup (owner v) = some k := (h k (owner v)).mp (by rw [hk]; rfl)
  rw [lookup_erase_eq, lookup_erase_eq]
  by_cases hkk : k' = k
  · subst hkk
    rw [if_pos rfl]
    by_cases ho : o = owner v
    · simp [ho]
    · rw [if_neg ho, ← h k' o, hk]
      simp [Ne.symm ho]
  · rw [if_neg hkk]
    by_cases ho : o = owner v
    · subst ho
      rw [if_pos rfl, h k' (owner v), hback]
      simp [Ne.symm hkk]
    · rw [if_neg ho]
      exact h k' o

/-- Changing a value without its owner keeps the maps inverse. -/
theorem Inverse.replace (h : Inverse owner m back) {k : K} {v v' : V} (hk : m.lookup k = some v)
    (hv : owner v' = owner v) : Inverse owner (m.insert k v') back := by
  intro k' o
  rw [lookup_insert_eq]
  by_cases hkk : k' = k
  · subst hkk
    rw [if_pos rfl, ← h k' o, hk, Option.map_some, Option.map_some, hv]
  · rw [if_neg hkk]
    exact h k' o

/-- A new entry on both sides keeps the maps inverse exactly when its owner had none. -/
theorem Inverse.insert_iff (h : Inverse owner m back) {k : K} (hk : m.lookup k = none) (v : V) :
    Inverse owner (m.insert k v) (back.insert (owner v) k) ↔ back.lookup (owner v) = none := by
  constructor
  · intro h'
    by_contra hne
    obtain ⟨k', hk'⟩ := Option.ne_none_iff_exists'.mp hne
    have hold : (m.lookup k').map owner = some (owner v) := (h k' (owner v)).mpr hk'
    have hkk : k' ≠ k := by
      rintro rfl
      rw [hk] at hold
      cases hold
    have hnew : (back.insert (owner v) k).lookup (owner v) = some k' := by
      rw [← h' k' (owner v), lookup_insert_eq, if_neg hkk]
      exact hold
    rw [lookup_insert_eq, if_pos rfl] at hnew
    exact hkk (Option.some.inj hnew).symm
  · intro hfree k' o
    rw [lookup_insert_eq, lookup_insert_eq]
    by_cases hkk : k' = k
    · subst hkk
      rw [if_pos rfl]
      by_cases ho : o = owner v
      · simp [ho]
      · rw [if_neg ho, ← h k' o, hk]
        simp [Ne.symm ho]
    · rw [if_neg hkk]
      by_cases ho : o = owner v
      · subst ho
        rw [if_pos rfl, h k' (owner v), hfree]
        simp [Ne.symm hkk]
      · rw [if_neg ho]
        exact h k' o

end HashMap
