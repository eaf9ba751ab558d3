/-
# Tables with a primary key

A table is the list of its rows in insertion order, each a primary key with the other
columns.  That no key is listed twice is a field of the structure, so the conflict
clauses of `INSERT` are the only way two rows can meet.

The statements are `INSERT` with its three conflict clauses, `UPDATE` and `DELETE` with a
`WHERE` clause, and searches.  Each write has one equation for `get?`, the search by primary
key.
-/
import Ephemera.FirstByKey
import Mathlib.Data.List.Perm.Basic

/-- A table: its rows in insertion order, with pairwise distinct primary keys. -/
structure SqlTable (K V : Type) where
  rows : List (K × V)
  nodup : (rows.map Prod.fst).Nodup

namespace SqlTable

variable {K V : Type} [DecidableEq K]

/-! ## Reads -/

/-- The table without rows. -/
def empty : SqlTable K V := ⟨[], List.nodup_nil⟩

/-- The row with primary key `k`. -/
def get? (t : SqlTable K V) (k : K) : Option V :=
  (t.rows.find? (fun r => r.1 = k)).map Prod.snd

/-- `SELECT COUNT(*) > 0 … WHERE p`, or `EXISTS`. -/
def existsWhere (t : SqlTable K V) (p : K → V → Bool) : Bool := t.rows.any (fun r => p r.1 r.2)

/-- `SELECT … WHERE p`, in insertion order. -/
def selectWhere (t : SqlTable K V) (p : K → V → Bool) : List (K × V) :=
  t.rows.filter (fun r => p r.1 r.2)

@[simp] theorem get?_empty (k : K) : (empty : SqlTable K V).get? k = none := rfl

/-- In a list with distinct keys, a listed row is the one a search for its key finds. -/
theorem find?_of_mem_nodup {l : List (K × V)} (hl : (l.map Prod.fst).Nodup) {k : K} {v : V}
    (h : (k, v) ∈ l) : l.find? (fun r => r.1 = k) = some (k, v) := by
  induction l with
  | nil => simp at h
  | cons r l ih =>
    rw [List.map_cons, List.nodup_cons] at hl
    rcases List.mem_cons.mp h with rfl | h
    · simp
    · have hne : r.1 ≠ k := by
        rintro rfl
        exact hl.1 (List.mem_map.mpr ⟨_, h, rfl⟩)
      rw [List.find?_cons_of_neg (by simpa using hne)]
      exact ih hl.2 h

/-- A row is listed exactly when the search by its key finds it. -/
theorem mem_rows_iff {t : SqlTable K V} {k : K} {v : V} :
    (k, v) ∈ t.rows ↔ t.get? k = some v := by
  constructor
  · intro h
    rw [get?, find?_of_mem_nodup t.nodup h]
    rfl
  · intro h
    rw [get?, Option.map_eq_some_iff] at h
    obtain ⟨⟨k', v'⟩, hf, rfl⟩ := h
    have hk : k' = k := by simpa using List.find?_some hf
    subst hk
    exact List.mem_of_find?_eq_some hf

/-- A table has a row under `k`, or none of its rows has that key. -/
theorem get?_eq_none_iff {t : SqlTable K V} {k : K} :
    t.get? k = none ↔ k ∉ t.rows.map Prod.fst := by
  constructor
  · intro h hk
    obtain ⟨⟨k', v⟩, hm, rfl⟩ := List.mem_map.mp hk
    rw [mem_rows_iff.mp hm] at h
    cases h
  · intro h
    cases hv : t.get? k with
    | none => rfl
    | some v => exact absurd (List.mem_map.mpr ⟨_, mem_rows_iff.mpr hv, rfl⟩) h

theorem existsWhere_iff {t : SqlTable K V} {p : K → V → Bool} :
    t.existsWhere p = true ↔ ∃ k v, t.get? k = some v ∧ p k v = true := by
  rw [existsWhere, List.any_eq_true]
  constructor
  · rintro ⟨⟨k, v⟩, hm, hp⟩
    exact ⟨k, v, mem_rows_iff.mp hm, hp⟩
  · rintro ⟨k, v, hv, hp⟩
    exact ⟨(k, v), mem_rows_iff.mpr hv, hp⟩

/-- A search under one key looks at its row. -/
theorem existsWhere_key (t : SqlTable K V) (key : K) (p : V → Bool) :
    t.existsWhere (fun k v => decide (k = key) && p v) = (t.get? key).any p := by
  rw [Bool.eq_iff_iff, existsWhere_iff, Option.any_eq_true]
  constructor
  · rintro ⟨k, v, hv, hp⟩
    rw [Bool.and_eq_true, decide_eq_true_eq] at hp
    exact ⟨v, hp.1 ▸ hv, hp.2⟩
  · rintro ⟨v, hv, hp⟩
    exact ⟨key, v, hv, by rw [hp, decide_eq_true rfl]; rfl⟩

/-! ## Writes -/

/-- Add a row under a key that is not listed. -/
def append (t : SqlTable K V) (k : K) (v : V) (h : t.get? k = none) : SqlTable K V where
  rows := t.rows ++ [(k, v)]
  nodup := by
    rw [List.map_append, List.nodup_append]
    refine ⟨t.nodup, by simp, ?_⟩
    rintro a ha b hb rfl
    have hk : a = k := by simpa using hb
    subst hk
    exact get?_eq_none_iff.mp h ha

/-- `DELETE FROM … WHERE p`. -/
def deleteWhere (t : SqlTable K V) (p : K → V → Bool) : SqlTable K V where
  rows := t.rows.filter (fun r => !p r.1 r.2)
  nodup := (List.filter_sublist.map Prod.fst).nodup t.nodup

/-- `UPDATE … SET … WHERE p`, for a `SET` that leaves the primary key. -/
def updateWhere (t : SqlTable K V) (p : K → V → Bool) (f : V → V) : SqlTable K V where
  rows := t.rows.map (fun r => if p r.1 r.2 then (r.1, f r.2) else r)
  nodup := by
    have hkeys : (t.rows.map (fun r => if p r.1 r.2 then (r.1, f r.2) else r)).map Prod.fst
        = t.rows.map Prod.fst := by
      rw [List.map_map]
      apply List.map_congr_left
      intro r _
      by_cases h : p r.1 r.2
      · simp [h]
      · simp [h]
    rw [hkeys]
    exact t.nodup

/-- `DELETE` leaves a row unless it matches. -/
theorem get?_deleteWhere (t : SqlTable K V) (p : K → V → Bool) (k : K) :
    (t.deleteWhere p).get? k = (t.get? k).filter (fun v => !p k v) := by
  apply Option.ext
  intro v
  rw [← mem_rows_iff, deleteWhere, List.mem_filter, mem_rows_iff, Option.filter_eq_some_iff]

/-- `DELETE` with a condition on the key alone. -/
theorem get?_deleteWhere_key (t : SqlTable K V) (p : K → Bool) (k : K) :
    (t.deleteWhere (fun k _ => p k)).get? k = if p k = true then none else t.get? k := by
  rw [get?_deleteWhere]
  by_cases h : p k = true
  · rw [if_pos h]
    cases t.get? k <;> simp [h]
  · rw [if_neg h]
    cases t.get? k <;> simp [h]

/-- `UPDATE` rewrites a row if it matches. -/
theorem get?_updateWhere (t : SqlTable K V) (p : K → V → Bool) (f : V → V) (k : K) :
    (t.updateWhere p f).get? k = (t.get? k).map (fun v => if p k v then f v else v) := by
  apply Option.ext
  intro v
  rw [← mem_rows_iff, updateWhere, List.mem_map, Option.map_eq_some_iff]
  constructor
  · rintro ⟨⟨k', v'⟩, hm, hv⟩
    by_cases h : p k' v'
    · simp only [h, if_true, Prod.mk.injEq] at hv
      obtain ⟨rfl, rfl⟩ := hv
      exact ⟨v', mem_rows_iff.mp hm, by simp [h]⟩
    · simp only [h, Bool.false_eq_true, if_false, Prod.mk.injEq] at hv
      obtain ⟨rfl, rfl⟩ := hv
      exact ⟨v', mem_rows_iff.mp hm, by simp [h]⟩
  · rintro ⟨v', hm, rfl⟩
    refine ⟨(k, v'), mem_rows_iff.mpr hm, ?_⟩
    by_cases h : p k v'
    · simp [h]
    · simp [h]

omit [DecidableEq K] in
/-- A search finds no more after a `DELETE`. -/
theorem length_selectWhere_deleteWhere_le (t : SqlTable K V) (p q : K → V → Bool) :
    ((t.deleteWhere q).selectWhere p).length ≤ (t.selectWhere p).length :=
  (List.filter_sublist.filter _).length_le

omit [DecidableEq K] in
/-- When an `UPDATE` makes rows fail a search, the search finds those that were not
updated. -/
theorem length_selectWhere_updateWhere {t : SqlTable K V} {p q : K → V → Bool} {f : V → V}
    (hf : ∀ k v, p k (f v) = false) :
    ((t.updateWhere q f).selectWhere p).length
      = ((t.selectWhere p).filter (fun r => !q r.1 r.2)).length := by
  rw [selectWhere, selectWhere, updateWhere, List.filter_map, List.length_map, List.filter_filter]
  congr 1
  apply List.filter_congr
  rintro ⟨k, v⟩ _
  by_cases hq : q k v = true
  · simp [hq, hf]
  · simp [hq]

/-- A search that no row matches. -/
theorem selectWhere_eq_nil {t : SqlTable K V} {p : K → V → Bool}
    (h : ∀ k v, t.get? k = some v → p k v = false) : t.selectWhere p = [] := by
  rw [selectWhere, List.filter_eq_nil_iff]
  rintro ⟨k, v⟩ hm
  simp [h k v (mem_rows_iff.mp hm)]

/-- A search that some row matches. -/
theorem length_selectWhere_pos {t : SqlTable K V} {p : K → V → Bool} {k : K} {v : V}
    (h : t.get? k = some v) (hp : p k v = true) : 0 < (t.selectWhere p).length :=
  List.length_pos_of_mem (List.mem_filter.mpr ⟨mem_rows_iff.mpr h, hp⟩)

/-- `DELETE` without a matching row does nothing. -/
theorem deleteWhere_eq_self {t : SqlTable K V} {p : K → V → Bool}
    (h : ∀ k v, t.get? k = some v → p k v = false) : t.deleteWhere p = t := by
  obtain ⟨rows, hrows⟩ := t
  rw [deleteWhere, mk.injEq, List.filter_eq_self]
  rintro ⟨k, v⟩ hm
  have hget : (⟨rows, hrows⟩ : SqlTable K V).get? k = some v := mem_rows_iff.mp hm
  simp [h k v hget]

/-- `UPDATE` without a matching row does nothing. -/
theorem updateWhere_eq_self {t : SqlTable K V} {p : K → V → Bool}
    (h : ∀ k v, t.get? k = some v → p k v = false) (f : V → V) : t.updateWhere p f = t := by
  obtain ⟨rows, hrows⟩ := t
  rw [updateWhere, mk.injEq]
  have hmap : ∀ r ∈ rows, (if p r.1 r.2 then (r.1, f r.2) else r) = r := by
    rintro ⟨k, v⟩ hm
    have hget : (⟨rows, hrows⟩ : SqlTable K V).get? k = some v := mem_rows_iff.mp hm
    simp [h k v hget]
  rw [List.map_congr_left hmap, List.map_id']

theorem get?_append (t : SqlTable K V) (k : K) (v : V) (h : t.get? k = none) (k' : K) :
    (t.append k v h).get? k' = if k' = k then some v else t.get? k' := by
  apply Option.ext
  intro v'
  rw [← mem_rows_iff, append, List.mem_append, mem_rows_iff, List.mem_singleton, Prod.mk.injEq]
  by_cases hk : k' = k
  · subst hk
    rw [h, if_pos rfl]
    simp [eq_comm]
  · simp [hk]

/-- `INSERT OR IGNORE`. -/
def insertOrIgnore (t : SqlTable K V) (k : K) (v : V) : SqlTable K V :=
  if h : t.get? k = none then t.append k v h else t

/-- `INSERT`, which fails when the key is listed. -/
def insert? (t : SqlTable K V) (k : K) (v : V) : Option (SqlTable K V) :=
  if h : t.get? k = none then some (t.append k v h) else none

/-- `INSERT OR REPLACE`: the conflicting row is deleted first. -/
def insertOrReplace (t : SqlTable K V) (k : K) (v : V) : SqlTable K V :=
  (t.deleteWhere (fun k' _ => k' = k)).append k v <| by
    rw [get?_deleteWhere]
    cases t.get? k <;> simp

/-- `INSERT … ON CONFLICT DO UPDATE SET …`, for a `SET` that leaves the primary key. -/
def upsert (t : SqlTable K V) (k : K) (v : V) (f : V → V) : SqlTable K V :=
  if h : t.get? k = none then t.append k v h else t.updateWhere (fun k' _ => k' = k) f

/-- `INSERT OR IGNORE` under a key that is listed does nothing. -/
theorem insertOrIgnore_of_ne_none {t : SqlTable K V} {k : K} (h : t.get? k ≠ none) (v : V) :
    t.insertOrIgnore k v = t := by
  rw [insertOrIgnore, dif_neg h]

/-- `INSERT OR IGNORE` keeps the row that is there. -/
theorem get?_insertOrIgnore (t : SqlTable K V) (k : K) (v : V) (k' : K) :
    (t.insertOrIgnore k v).get? k' = if k' = k then some ((t.get? k).getD v) else t.get? k' := by
  unfold insertOrIgnore
  by_cases h : t.get? k = none
  · rw [dif_pos h, get?_append, h, Option.getD_none]
  · obtain ⟨w, hw⟩ := Option.ne_none_iff_exists'.mp h
    rw [dif_neg h, hw, Option.getD_some]
    by_cases hk : k' = k
    · rw [if_pos hk, hk, hw]
    · rw [if_neg hk]

/-- A row after `INSERT OR IGNORE` was there before, or is the one inserted. -/
theorem get?_insertOrIgnore_eq_some {t : SqlTable K V} {k k' : K} {v w : V} :
    (t.insertOrIgnore k v).get? k' = some w ↔
      t.get? k' = some w ∨ t.get? k' = none ∧ k' = k ∧ w = v := by
  rw [get?_insertOrIgnore]
  by_cases hk : k' = k
  · subst hk
    rw [if_pos rfl]
    cases hold : t.get? k' with
    | none => simp [eq_comm]
    | some u => simp
  · simp [hk]

/-- `INSERT OR REPLACE` overwrites the row that is there. -/
theorem get?_insertOrReplace (t : SqlTable K V) (k : K) (v : V) (k' : K) :
    (t.insertOrReplace k v).get? k' = if k' = k then some v else t.get? k' := by
  unfold insertOrReplace
  rw [get?_append, get?_deleteWhere_key]
  by_cases hk : k' = k
  · rw [if_pos hk, if_pos hk]
  · rw [if_neg hk, if_neg hk, if_neg (by simpa using hk)]

/-- `INSERT OR REPLACE` adds a row only where none is overwritten. -/
theorem length_insertOrReplace_le {t : SqlTable K V} {k : K} {n : ℕ} (hn : t.rows.length ≤ n)
    (hroom : t.get? k ≠ none ∨ t.rows.length < n) (v : V) :
    (t.insertOrReplace k v).rows.length ≤ n := by
  have hlen : (t.insertOrReplace k v).rows.length
      = (t.rows.filter (fun r => !decide (r.1 = k))).length + 1 := by
    rw [insertOrReplace, append, List.length_append, deleteWhere]
    rfl
  rw [hlen]
  rcases hroom with hheld | hroom
  · obtain ⟨w, hw⟩ := Option.ne_none_iff_exists'.mp hheld
    have hlt : (t.rows.filter (fun r => !decide (r.1 = k))).length < t.rows.length :=
      List.length_filter_lt_length_iff_exists.mpr ⟨(k, w), mem_rows_iff.mpr hw, by simp⟩
    omega
  · have hle := List.length_filter_le (fun r : K × V => !decide (r.1 = k)) t.rows
    omega

/-- An upsert writes the new row, or rewrites the one that is there. -/
theorem get?_upsert (t : SqlTable K V) (k : K) (v : V) (f : V → V) (k' : K) :
    (t.upsert k v f).get? k' = if k' = k then some (((t.get? k).map f).getD v) else t.get? k' := by
  unfold upsert
  by_cases h : t.get? k = none
  · rw [dif_pos h, get?_append, h, Option.map_none, Option.getD_none]
  · obtain ⟨w, hw⟩ := Option.ne_none_iff_exists'.mp h
    rw [dif_neg h, get?_updateWhere, hw, Option.map_some, Option.getD_some]
    by_cases hk : k' = k
    · rw [if_pos hk, hk, hw]
      simp
    · rw [if_neg hk]
      cases t.get? k' <;> simp [hk]

/-- A plain `INSERT` succeeds exactly on a new key. -/
theorem insert?_eq_some_iff {t t' : SqlTable K V} {k : K} {v : V} :
    t.insert? k v = some t' ↔ t.get? k = none ∧ t' = t.insertOrIgnore k v := by
  unfold insert? insertOrIgnore
  by_cases h : t.get? k = none
  · rw [dif_pos h, dif_pos h, Option.some.injEq]
    exact ⟨fun h' => ⟨h, h'.symm⟩, fun h' => h'.2.symm⟩
  · rw [dif_neg h]
    simp [h]

/-! ## Several inserts -/

/-- The keys can be inserted one after the other: none is stored, and none comes twice. -/
def Fresh (t : SqlTable K V) (keys : List K) : Prop := keys.Nodup ∧ ∀ k ∈ keys, t.get? k = none

/-- The table after several inserts. -/
def insertAll (t : SqlTable K V) (rows : List (K × V)) : SqlTable K V :=
  rows.foldl (fun t r => t.insertOrIgnore r.1 r.2) t

@[simp] theorem fresh_nil (t : SqlTable K V) : t.Fresh [] := ⟨List.nodup_nil, by simp⟩

/-- A key can be inserted after others exactly if all of them can. -/
theorem fresh_cons_iff {t : SqlTable K V} {k : K} {keys : List K} (v : V) :
    t.Fresh (k :: keys) ↔ t.get? k = none ∧ (t.insertOrIgnore k v).Fresh keys := by
  unfold Fresh
  rw [List.nodup_cons]
  constructor
  · rintro ⟨⟨hk, hnodup⟩, hall⟩
    refine ⟨hall k List.mem_cons_self, hnodup, fun k' hk' => ?_⟩
    have hne : k' ≠ k := fun heq => hk (heq ▸ hk')
    rw [get?_insertOrIgnore, if_neg hne]
    exact hall k' (List.mem_cons_of_mem k hk')
  · rintro ⟨hnone, hnodup, hall⟩
    have hother : ∀ k' ∈ keys, k' ≠ k ∧ t.get? k' = none := by
      intro k' hk'
      have hget := hall k' hk'
      rw [get?_insertOrIgnore] at hget
      split at hget
      · cases hget
      · next hne => exact ⟨hne, hget⟩
    refine ⟨⟨fun hmem => (hother k hmem).1 rfl, hnodup⟩, fun k' hk' => ?_⟩
    rcases List.mem_cons.mp hk' with rfl | hmem
    · exact hnone
    · exact (hother k' hmem).2

theorem fresh_append_iff {t : SqlTable K V} {rows : List (K × V)} {keys : List K} :
    t.Fresh (rows.map Prod.fst ++ keys) ↔
      t.Fresh (rows.map Prod.fst) ∧ (t.insertAll rows).Fresh keys := by
  induction rows generalizing t with
  | nil => simp [insertAll]
  | cons r rows ih =>
    rw [List.map_cons, List.cons_append, fresh_cons_iff r.2, fresh_cons_iff r.2, ih, and_assoc]
    rfl

/-- New rows come after the old ones. -/
theorem rows_insertAll {t : SqlTable K V} {rows : List (K × V)}
    (h : t.Fresh (rows.map Prod.fst)) : (t.insertAll rows).rows = t.rows ++ rows := by
  induction rows generalizing t with
  | nil => exact (List.append_nil t.rows).symm
  | cons r rows ih =>
    obtain ⟨hnone, hrest⟩ := (fresh_cons_iff r.2).mp h
    have hfirst : (t.insertOrIgnore r.1 r.2).rows = t.rows ++ [r] := by
      rw [insertOrIgnore, dif_pos hnone]
      rfl
    show ((t.insertOrIgnore r.1 r.2).insertAll rows).rows = _
    rw [ih hrest, hfirst, List.append_assoc, List.singleton_append]

/-! ## How many rows a search finds -/

/-- A property that holds of the row under `k` and of no other counts one row. -/
theorem countP_rows_eq_one {t : SqlTable K V} {k : K} {p : K × V → Bool} (hk : t.get? k ≠ none)
    (hp : ∀ k' v, t.get? k' = some v → (p (k', v) = true ↔ k' = k)) : t.rows.countP p = 1 := by
  have hmem : k ∈ t.rows.map Prod.fst := by
    by_contra h
    exact hk (get?_eq_none_iff.mpr h)
  refine FirstByKey.countP_eq_one t.nodup hmem ?_
  rintro ⟨k', v⟩ hm
  exact hp k' v (mem_rows_iff.mp hm)

/-- A new row is one more if it matches. -/
theorem length_selectWhere_insertOrIgnore {t : SqlTable K V} {k : K} (h : t.get? k = none) (v : V)
    (p : K → V → Bool) :
    ((t.insertOrIgnore k v).selectWhere p).length
      = (t.selectWhere p).length + if p k v = true then 1 else 0 := by
  rw [insertOrIgnore, dif_pos h, selectWhere, append, List.filter_append, List.length_append,
    selectWhere]
  congr 1
  by_cases hp : p k v = true
  · simp [hp]
  · simp [hp]

/-- A `DELETE` leaves the number of rows a search finds exactly when it deletes none of them. -/
theorem length_selectWhere_deleteWhere_eq_iff {t : SqlTable K V} {p q : K → V → Bool} :
    ((t.deleteWhere q).selectWhere p).length = (t.selectWhere p).length ↔
      ∀ k v, t.get? k = some v → p k v = true → q k v = false := by
  have hcomm : (t.deleteWhere q).selectWhere p
      = (t.selectWhere p).filter (fun r => !q r.1 r.2) := by
    rw [selectWhere, deleteWhere, selectWhere, List.filter_filter, List.filter_filter]
    congr 1
    funext r
    exact Bool.and_comm _ _
  rw [hcomm, List.length_filter_eq_length_iff]
  constructor
  · intro h k v hget hp
    have hr := h (k, v) (List.mem_filter.mpr ⟨mem_rows_iff.mpr hget, hp⟩)
    simpa using hr
  · rintro h ⟨k, v⟩ hr
    obtain ⟨hmem, hp⟩ := List.mem_filter.mp hr
    simp [h k v (mem_rows_iff.mp hmem) hp]

end SqlTable
