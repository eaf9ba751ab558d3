/-
# Resolution of handle conflicts

Between two unexpired records of one name `resolve_conflict` keeps the one that was
registered earlier and, of two with the same time, the one with the lower owner bytes.
`Handle.Before` is that order; it is total, so a node that inserts records one after the
other is left with a least one of each name, whatever the order of their arrival.
-/
import Ephemera.HandleRegistry
import Mathlib.Data.List.Induction

open GuardedRun

namespace Handle

/-- The order of precedence: by time of registration, then by the bytes of the owner. -/
def Before (a b : Handle) : Prop :=
  a.registeredAt < b.registeredAt ∨ a.registeredAt = b.registeredAt ∧ a.owner ≤ b.owner

theorem before_refl (a : Handle) : a.Before a := Or.inr ⟨rfl, List.le_refl _⟩

theorem Before.trans {a b c : Handle} (hab : a.Before b) (hbc : b.Before c) : a.Before c := by
  rcases hab with hab | ⟨hab, hab'⟩
  · rcases hbc with hbc | ⟨hbc, _⟩
    · exact Or.inl (UInt64.lt_trans hab hbc)
    · exact Or.inl (hbc ▸ hab)
  · rcases hbc with hbc | ⟨hbc, hbc'⟩
    · exact Or.inl (hab ▸ hbc)
    · exact Or.inr ⟨hab.trans hbc, List.le_trans hab' hbc'⟩

/-- Records that precede each other have one owner. -/
theorem owner_eq_of_before {a b : Handle} (hab : a.Before b) (hba : b.Before a) :
    a.owner = b.owner := by
  rcases hab with hab | ⟨hab, hab'⟩
  · rcases hba with hba | ⟨hba, _⟩
    · exact absurd (UInt64.lt_trans hab hba) (UInt64.lt_irrefl _)
    · exact absurd (hba ▸ hab) (UInt64.lt_irrefl _)
  · rcases hba with hba | ⟨_, hba'⟩
    · exact absurd (hab ▸ hba) (UInt64.lt_irrefl _)
    · exact List.le_antisymm hab' hba'

end Handle

namespace HandleRegistry

/-- Insert records one after the other at one time. -/
def insertAll (r : HandleRegistry) (records : List Handle) (nowSecs : UInt64) : HandleRegistry :=
  records.foldl (fun r handle => (r.insertValidated handle nowSecs).2) r

variable {r : HandleRegistry} {incoming existing : Handle} {nowSecs : UInt64}

/-- The pairwise rule: the record there stays exactly if it comes before the incoming one. -/
theorem resolveConflict_of_unexpired (hl : r.handles.lookup incoming.name = some existing)
    (hexp : existing.isExpiredAt nowSecs = false) :
    (existing.Before incoming ∧ r.resolveConflict incoming nowSecs = .existingWins) ∨
      (incoming.Before existing ∧ r.resolveConflict incoming nowSecs = .incomingWins) := by
  rw [resolveConflict, hl]
  simp only [hexp, Bool.false_eq_true, if_false]
  by_cases hlt : incoming.registeredAt < existing.registeredAt
  · rw [if_pos hlt]
    exact Or.inr ⟨Or.inl hlt, rfl⟩
  · rw [if_neg hlt]
    by_cases heq : incoming.registeredAt = existing.registeredAt
    · rw [if_pos heq]
      by_cases ho : incoming.owner < existing.owner
      · rw [if_pos ho]
        exact Or.inr ⟨Or.inr ⟨heq, List.le_of_lt ho⟩, rfl⟩
      · rw [if_neg ho]
        exact Or.inl ⟨Or.inr ⟨heq.symm, ho⟩, rfl⟩
    · rw [if_neg heq]
      refine Or.inl ⟨Or.inl ?_, rfl⟩
      exact UInt64.lt_of_le_of_ne (UInt64.not_lt.mp hlt) (Ne.symm heq)

/-- The handles after a record is written. -/
theorem lookup_overwrite (r : HandleRegistry) (handle : Handle) (n : String) :
    (r.overwrite handle).handles.lookup n
      = if n = handle.name then some handle else r.handles.lookup n :=
  HashMap.lookup_insert_eq _ _ _ _

/-- What a registry holds after the records of a list: of each name that occurs, one record
of the list that comes before all others. -/
structure Least (records : List Handle) (r : HandleRegistry) : Prop where
  least : ∀ n h, r.handles.lookup n = some h →
    h ∈ records ∧ h.name = n ∧ ∀ h' ∈ records, h'.name = n → h.Before h'
  complete : ∀ h ∈ records, ∃ h', r.handles.lookup h.name = some h'

/-- A record that comes before all others of its name is written. -/
theorem Least.written {records : List Handle} (hr : Least records r) {a : Handle}
    (hbefore : ∀ h' ∈ records, h'.name = a.name → a.Before h') :
    Least (records ++ [a]) (r.overwrite a) := by
  refine ⟨fun n h hh => ?_, fun h hh => ?_⟩
  · rw [lookup_overwrite] at hh
    split at hh
    · rename_i hn
      cases hh
      refine ⟨by simp, hn.symm, fun h' hh' hname => ?_⟩
      rcases List.mem_append.mp hh' with hh' | hh'
      · exact hbefore h' hh' (hname.trans hn)
      · rw [List.mem_singleton.mp hh']
        exact a.before_refl
    · rename_i hn
      obtain ⟨hmem, hname, hleast⟩ := hr.least n h hh
      refine ⟨List.mem_append_left _ hmem, hname, fun h' hh' hname' => ?_⟩
      rcases List.mem_append.mp hh' with hh' | hh'
      · exact hleast h' hh' hname'
      · rw [List.mem_singleton.mp hh'] at hname'
        exact absurd hname'.symm hn
  · rw [lookup_overwrite]
    split
    · exact ⟨a, rfl⟩
    · rename_i hn
      rcases List.mem_append.mp hh with hh | hh
      · exact hr.complete h hh
      · rw [List.mem_singleton.mp hh] at hn
        exact absurd rfl hn

/-- A record that comes after the one there changes nothing. -/
theorem Least.rejected {records : List Handle} (hr : Least records r) {a h : Handle}
    (hl : r.handles.lookup a.name = some h) (hb : h.Before a) : Least (records ++ [a]) r := by
  refine ⟨fun n g hg => ?_, fun g hg => ?_⟩
  · obtain ⟨hmem, hname, hleast⟩ := hr.least n g hg
    refine ⟨List.mem_append_left _ hmem, hname, fun h' hh' hname' => ?_⟩
    rcases List.mem_append.mp hh' with hh' | hh'
    · exact hleast h' hh' hname'
    · rw [List.mem_singleton.mp hh'] at hname' ⊢
      rw [← hname', hl] at hg
      cases hg
      exact hb
  · rcases List.mem_append.mp hg with hg | hg
    · exact hr.complete g hg
    · rw [List.mem_singleton.mp hg]
      exact ⟨h, hl⟩

/-- One more record. -/
theorem Least.insert {records : List Handle} (hr : Least records r)
    (hexp : ∀ h ∈ records, h.isExpiredAt nowSecs = false) (a : Handle) :
    Least (records ++ [a]) (r.insertValidated a nowSecs).2 := by
  rw [insertValidated_snd]
  cases hl : r.handles.lookup a.name with
  | none =>
    have hc : r.resolveConflict a nowSecs = .accept := by rw [resolveConflict, hl]
    rw [hc, if_neg (by decide)]
    refine hr.written (fun h' hh' hname => ?_)
    obtain ⟨h, hh⟩ := hr.complete h' hh'
    rw [hname, hl] at hh
    cases hh
  | some h =>
    obtain ⟨hmem, _, hleast⟩ := hr.least a.name h hl
    rcases resolveConflict_of_unexpired hl (hexp h hmem) with ⟨hb, hc⟩ | ⟨hb, hc⟩
    · rw [hc, if_pos rfl]
      exact hr.rejected hl hb
    · rw [hc, if_neg (by decide)]
      exact hr.written (fun h' hh' hname => hb.trans (hleast h' hh' hname))

/-- All records. -/
theorem least_insertAll {records : List Handle}
    (hexp : ∀ h ∈ records, h.isExpiredAt nowSecs = false) :
    Least records (insertAll new records nowSecs) := by
  induction records using List.reverseRecOn with
  | nil =>
    refine ⟨fun n h hh => ?_, fun h hh => by cases hh⟩
    rw [insertAll, List.foldl_nil, new, AList.lookup_empty] at hh
    cases hh
  | append_singleton records a ih =>
    have hexp' : ∀ h ∈ records, h.isExpiredAt nowSecs = false :=
      fun h hh => hexp h (List.mem_append_left _ hh)
    rw [insertAll, List.foldl_append, List.foldl_cons, List.foldl_nil]
    exact (ih hexp').insert hexp' a

/-- Two least records of one name have one owner. -/
theorem Least.owner_eq {l l' : List Handle} {r' : HandleRegistry} (hr : Least l r)
    (hr' : Least l' r') (hmem : ∀ h, h ∈ l ↔ h ∈ l') (n : String) :
    (r.handles.lookup n).map Handle.owner = (r'.handles.lookup n).map Handle.owner := by
  cases hn : r.handles.lookup n with
  | none =>
    cases hn' : r'.handles.lookup n with
    | none => rfl
    | some h' =>
      obtain ⟨hh', hname, _⟩ := hr'.least n h' hn'
      obtain ⟨h, hh⟩ := hr.complete h' ((hmem h').mpr hh')
      rw [hname, hn] at hh
      cases hh
  | some h =>
    obtain ⟨hh, hname, hleast⟩ := hr.least n h hn
    obtain ⟨h', hh'⟩ := hr'.complete h ((hmem h).mp hh)
    rw [hname] at hh'
    obtain ⟨hmem', hname', hleast'⟩ := hr'.least n h' hh'
    rw [hh', Option.map_some, Option.map_some]
    congr 1
    exact Handle.owner_eq_of_before (hleast h' ((hmem h').mpr hmem') hname')
      (hleast' h ((hmem h).mp hh) hname)

/-- **Conflict resolution converges.**  Records that are unexpired at one time, inserted at that
time into an empty registry in any order and with any repetition, leave of each name a
record with the least time of registration and owner among the records of that name, and
nothing under other names.  Two registries that saw the same records agree on every owner. -/
theorem insertAll_converges (records : List Handle) (nowSecs : UInt64)
    (hexp : ∀ h ∈ records, h.isExpiredAt nowSecs = false) :
    (∀ n, (∃ h ∈ records, h.name = n) →
      ∃ h, (insertAll new records nowSecs).handles.lookup n = some h ∧
        h ∈ records ∧ h.name = n ∧ ∀ h' ∈ records, h'.name = n → h.Before h') ∧
    (∀ n, (∀ h ∈ records, h.name ≠ n) →
      (insertAll new records nowSecs).handles.lookup n = none) ∧
    ∀ records' : List Handle, (∀ h, h ∈ records ↔ h ∈ records') → ∀ n,
      ((insertAll new records nowSecs).handles.lookup n).map Handle.owner
        = ((insertAll new records' nowSecs).handles.lookup n).map Handle.owner := by
  have hr := least_insertAll hexp
  refine ⟨?_, fun n hnone => ?_, fun records' hmem n => ?_⟩
  · rintro n ⟨h₀, hh₀, rfl⟩
    obtain ⟨h, hh⟩ := hr.complete h₀ hh₀
    exact ⟨h, hh, hr.least h₀.name h hh⟩
  · rw [Option.eq_none_iff_forall_ne_some]
    intro h hh
    obtain ⟨hmem, hname, _⟩ := hr.least n h hh
    exact hnone h hmem hname
  · have hr' : Least records' (insertAll new records' nowSecs) :=
      least_insertAll (fun h hh => hexp h ((hmem h).mpr hh))
    exact hr.owner_eq hr' hmem n

/-- Two owners register a name in the same second. -/
def exampleRivals : List Handle :=
  [exampleRecord "alice_one" (List.replicate 32 2) 1704067200,
    exampleRecord "alice_one" exampleOwner 1704067200]

theorem insertAll_converges_rivals :
    (∃ h, (insertAll new exampleRivals 1704067300).handles.lookup "alice_one" = some h ∧
      h ∈ exampleRivals ∧ h.name = "alice_one" ∧
      ∀ h' ∈ exampleRivals, h'.name = "alice_one" → h.Before h') ∧
    ∀ records' : List Handle, (∀ h, h ∈ exampleRivals ↔ h ∈ records') → ∀ n,
      ((insertAll new exampleRivals 1704067300).handles.lookup n).map Handle.owner
        = ((insertAll new records' 1704067300).handles.lookup n).map Handle.owner := by
  have h := insertAll_converges exampleRivals 1704067300 (by decide)
  exact ⟨h.1 "alice_one" ⟨_, List.mem_cons_self, rfl⟩, h.2.2⟩

end HandleRegistry
