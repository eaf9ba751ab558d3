/-
# The last write

Actions that write to a key or remove it, and others.  What a key holds after a history is what
the last write to it wrote (`lastWrite_eq_some_iff`); a store whose steps change the written key
and no other holds that after every run (`get_run`).
-/
import Ephemera.GuardedRun
import Ephemera.SqlTable

open GuardedRun

namespace LastWrite

variable {A K V S : Type} [DecidableEq K]

/-- What is at `k` once `a` was done, `v` before. -/
def after (writes : A → Option (K × Option V)) (k : K) (v : Option V) (a : A) : Option V :=
  match writes a with
  | none => v
  | some (k', v') => if k = k' then v' else v

/-- What a history of writes leaves at a key. -/
def lastWrite (writes : A → Option (K × Option V)) (history : List A) (k : K) : Option V :=
  history.foldl (after writes k) none

variable {writes : A → Option (K × Option V)} {k : K}

theorem after_of_write {a : A} {v' : Option V} (h : writes a = some (k, v')) (v : Option V) :
    after writes k v a = v' := by
  rw [after, h]
  exact if_pos rfl

theorem after_of_other {a : A} (h : ∀ v', writes a ≠ some (k, v')) (v : Option V) :
    after writes k v a = v := by
  rw [after]
  cases hw : writes a with
  | none => rfl
  | some p =>
    obtain ⟨k', v'⟩ := p
    have hne : k ≠ k' := fun heq => h v' (by rw [hw, heq])
    exact if_neg hne

theorem lastWrite_append (history : List A) (a : A) :
    lastWrite writes (history ++ [a]) k = after writes k (lastWrite writes history k) a := by
  rw [lastWrite, List.foldl_append]
  rfl

/-- **What is there was written, and not overwritten since.** -/
theorem lastWrite_eq_some_iff {history : List A} {v : V} :
    lastWrite writes history k = some v ↔ ∃ front a back, history = front ++ a :: back ∧
      writes a = some (k, some v) ∧ ∀ b ∈ back, ∀ v', writes b ≠ some (k, v') := by
  induction history using List.reverseRecOn with
  | nil =>
    refine ⟨fun h => (by cases h), ?_⟩
    rintro ⟨front, a, back, h, -⟩
    exact absurd h.symm (List.append_ne_nil_of_right_ne_nil _ (List.cons_ne_nil _ _))
  | append_singleton history a ih =>
    rw [lastWrite_append]
    by_cases hw : ∃ v', writes a = some (k, v')
    · obtain ⟨v', hv'⟩ := hw
      rw [after_of_write hv']
      constructor
      · rintro rfl
        exact ⟨history, a, [], rfl, hv', fun b hb => (by cases hb)⟩
      · rintro ⟨front, b, back, heq, hb, hback⟩
        -- the last write of the whole history is the one to the right of all others
        rcases List.eq_nil_or_concat back with rfl | ⟨back', c, rfl⟩
        · obtain ⟨-, hab⟩ := List.append_inj' heq rfl
          cases hab
          rw [hv'] at hb
          exact (Prod.mk.inj (Option.some.inj hb)).2
        · have hcons : front ++ b :: back'.concat c = (front ++ b :: back') ++ [c] := by simp
          rw [hcons] at heq
          obtain ⟨-, hac⟩ := List.append_inj' heq rfl
          cases hac
          exact absurd hv' (hback a (by simp) v')
    · rw [not_exists] at hw
      rw [after_of_other hw, ih]
      constructor
      · rintro ⟨front, b, back, rfl, hb, hback⟩
        refine ⟨front, b, back ++ [a], by simp, hb, fun c hc => ?_⟩
        rcases List.mem_append.mp hc with hc | hc
        · exact hback c hc
        · rw [List.mem_singleton.mp hc]
          exact hw
      · rintro ⟨front, b, back, heq, hb, hback⟩
        rcases List.eq_nil_or_concat back with rfl | ⟨back', c, rfl⟩
        · obtain ⟨-, hab⟩ := List.append_inj' heq rfl
          cases hab
          exact absurd hb (hw _)
        · have hcons : front ++ b :: back'.concat c = (front ++ b :: back') ++ [c] := by simp
          rw [hcons] at heq
          obtain ⟨hfront, hac⟩ := List.append_inj' heq rfl
          exact ⟨front, b, back', hfront, hb, fun d hd => hback d (by simp [hd])⟩

/-- A store whose steps do nothing but the writes holds the last write at every key. -/
theorem get_run {step : S → A → S} {get : S → K → Option V}
    (hstep : ∀ s a k, get (step s a) k = after writes k (get s k) a) {s : S}
    (hs : ∀ k, get s k = none) (history : List A) (k : K) :
    get (run step s history) k = lastWrite writes history k := by
  induction history using List.reverseRecOn with
  | nil => exact hs k
  | append_singleton history a ih =>
    rw [run_append, run_cons, run_nil, hstep, ih, lastWrite_append]

end LastWrite

namespace SqlTable

variable {K V : Type} [DecidableEq K]

/-- `SELECT COUNT(*)`, over the keys: as many rows as there are keys with one that is selected. -/
theorem length_selectWhere_eq_countP (t : SqlTable K V) (p : K → V → Bool) {keys : List K}
    (hkeys : keys.Nodup) (hall : ∀ k v, t.get? k = some v → p k v = true → k ∈ keys) :
    (t.selectWhere p).length = keys.countP (fun k => (t.get? k).any (p k)) := by
  have hnodup : ((t.selectWhere p).map Prod.fst).Nodup :=
    (List.filter_sublist.map Prod.fst).nodup t.nodup
  have hperm : ((t.selectWhere p).map Prod.fst).Perm
      (keys.filter (fun k => (t.get? k).any (p k))) := by
    rw [List.perm_ext_iff_of_nodup hnodup (hkeys.filter _)]
    intro k
    rw [List.mem_map, List.mem_filter]
    constructor
    · rintro ⟨⟨k', v⟩, hmem, rfl⟩
      obtain ⟨hrow, hp⟩ := List.mem_filter.mp hmem
      have hget := mem_rows_iff.mp hrow
      refine ⟨hall k' v hget hp, ?_⟩
      rw [hget]
      exact hp
    · rintro ⟨-, hany⟩
      obtain ⟨v, hget, hp⟩ := (Option.any_eq_true _ _).mp hany
      exact ⟨(k, v), List.mem_filter.mpr ⟨mem_rows_iff.mpr hget, hp⟩, rfl⟩
  rw [List.countP_eq_length_filter, ← hperm.length_eq, List.length_map]

end SqlTable
