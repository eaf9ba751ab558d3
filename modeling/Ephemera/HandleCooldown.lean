/-
# The cooldown of a released handle

`release` frees a name and puts it in the cooldown table for a day.  `register` reads the
table; `insert_validated`, the other way for a name to come in, does not, so a record
that was valid before the release, the releaser's own included, brings the name back at
once (`replay_after_release`).

`cooldownKept_iff_meets` is the exact condition on a run.  It rests on two facts about the
table: while the cooldown of a name runs, nothing but such a record touches the name
(`Resting.step`), and every entry of the table goes back to a release (`released_of_cooldown`).
-/
import Mathlib.Data.List.Induction
import Ephemera.HandleRenewal

open GuardedRun StateExcept

namespace HandleRegistry

variable {P : HandlePrimitives}

/-! ## What each call does to names and cooldowns -/

/-- What survives dropping expired holders, dropping the passed cooldown of the name and, where
the name has no cooldown, storing the new handle, survives `register`. -/
theorem triple_register_rule {I : HandleRegistry → Prop} {name : String} {nowSecs : UInt64}
    (hdrop : ∀ r n o, I r → I (r.drop n o))
    (hpassed : ∀ r d, I r → r.cooldowns.lookup name = some d → d ≤ nowSecs →
      I { r with cooldowns := r.cooldowns.erase name })
    (hstore : ∀ r h, I r → r.cooldowns.lookup name = none → h.name = name →
      h.expiresAt = nowSecs + handleTtlSecs → I (r.store h nowSecs))
    (attempts : ℕ) (identity : PseudonymIdentity) (difficulty : PowDifficulty) :
    Triple I (registerWithDifficulty P attempts name identity difficulty nowSecs)
      (fun _ => I) I := by
  have hone : Triple I (checkOneHandle identity.identityKey nowSecs) (fun _ => I) I := by
    refine triple_get (fun r hr => ?_)
    cases r.ownerToHandle.lookup identity.identityKey with
    | none => exact (triple_pure ()).known hr
    | some existing =>
      cases hh : r.handles.lookup existing with
      | none =>
        simp only [hh]
        exact (triple_pure ()).known hr
      | some h =>
        simp only [hh]
        split
        · exact triple_modify_known (hdrop r _ _ hr)
        · exact (triple_throw _).known hr
  have havail : Triple I (checkAvailable name nowSecs) (fun _ => I) I := by
    refine triple_get (fun r hr => ?_)
    cases r.handles.lookup name with
    | none => exact (triple_pure ()).known hr
    | some existing =>
      simp only
      split
      · exact triple_modify_known (hdrop r _ _ hr)
      · exact (triple_throw _).known hr
  have hcool : Triple I (checkCooldown name nowSecs)
      (fun _ r => I r ∧ r.cooldowns.lookup name = none) I := by
    refine triple_get (fun r hr => ?_)
    cases hd : r.cooldowns.lookup name with
    | none => exact (triple_pure ()).known ⟨hr, hd⟩
    | some cooldownUntil =>
      simp only
      split
      · exact (triple_throw _).known hr
      · rename_i hlt
        exact triple_modify_known
          ⟨hpassed r _ hr hd (UInt64.not_lt.mp hlt), AList.lookup_erase _ _⟩
  refine triple_bind (triple_lift _ (fun _ h => h)) (fun _ => ?_)
  refine triple_bind hone (fun _ => ?_)
  refine triple_get (fun r hr => ?_)
  refine triple_bind (triple_lift _ (fun s hs => by rw [hs]; exact hr)) (fun _ => ?_)
  refine triple_bind (havail.known hr) (fun _ => ?_)
  refine triple_bind hcool (fun _ => ?_)
  refine triple_bind (triple_lift _ (fun _ h => h.1)) (fun stamp => ?_)
  refine triple_bind (triple_modify (R := I) (fun s hs => hstore s _ hs.1 hs.2 rfl rfl))
    (fun _ => ?_)
  exact triple_pure (Q := fun _ => I) _

/-- `renew` leaves the registry, or replaces a handle that is there by one that expires a TTL
from now. -/
theorem renew_snd_cases (attempts : ℕ) (name : String) (identity : PseudonymIdentity)
    (nowSecs : UInt64) (r : HandleRegistry) :
    (exec (renew P attempts name identity nowSecs) r).2 = r
      ∨ ∃ h h', r.handles.lookup name = some h ∧ h'.expiresAt = nowSecs + handleTtlSecs ∧
        (exec (renew P attempts name identity nowSecs) r).2
          = { r with handles := r.handles.insert name h' } := by
  rw [renew, exec_bind, exec_get]
  simp only
  cases hh : r.handles.lookup name with
  | none => exact Or.inl rfl
  | some handle =>
    simp only
    split
    · exact Or.inl rfl
    · split
      · exact Or.inl rfl
      · rw [exec_bind, exec_lift]
        cases generate P attempts (buildPowChallenge name identity.identityKey nowSecs)
          .renewal with
        | error e => exact Or.inl rfl
        | ok stamp =>
          exact Or.inr ⟨handle, renewed handle stamp (identity.sign
            (buildSignatureMessage name identity.identityKey nowSecs)) nowSecs, rfl, rfl, rfl⟩

/-- `release` fails and leaves the registry, or drops a handle that is there and starts the
cooldown of its name. -/
theorem release_cases (name : String) (identity : PseudonymIdentity) (nowSecs : UInt64)
    (r : HandleRegistry) :
    ((exec (release name identity nowSecs) r).1 ≠ .ok ()
        ∧ (exec (release name identity nowSecs) r).2 = r)
      ∨ ∃ h, r.handles.lookup name = some h ∧ exec (release name identity nowSecs) r
        = (.ok (), { r.drop name identity.identityKey with
            cooldowns := r.cooldowns.insert name (nowSecs + handleReleaseCooldownSecs) }) := by
  rw [release, exec_bind, exec_get]
  simp only
  cases hh : r.handles.lookup name with
  | none => exact Or.inl ⟨by simp, rfl⟩
  | some handle =>
    simp only
    split
    · exact Or.inl ⟨by simp, rfl⟩
    · exact Or.inr ⟨handle, rfl, rfl⟩

/-- The collection keeps the cooldowns that still run. -/
theorem cooldowns_gc (r : HandleRegistry) (order : VisitOrder String) (nowSecs : UInt64)
    (n : String) :
    (r.gc order nowSecs).cooldowns.lookup n
      = (r.cooldowns.lookup n).filter (fun deadline => nowSecs < deadline) := by
  have hfold : ∀ (l : List String) (r : HandleRegistry),
      (l.foldl gcName r).cooldowns = r.cooldowns := by
    intro l
    induction l with
    | nil => exact fun _ => rfl
    | cons a l ih =>
      intro r
      rw [List.foldl_cons, ih, gcName]
      cases r.handles.lookup a <;> rfl
  rw [gc, HashMap.lookup_retain, hfold]

/-! ## A name at rest -/

/-- The name is free and its cooldown runs until `d`. -/
structure Resting (n : String) (d : UInt64) (r : HandleRegistry) : Prop where
  free : r.handles.lookup n = none
  cooling : r.cooldowns.lookup n = some d

/-- **The condition on a call.**  A record that `insert_validated` takes is of a name without a
running cooldown. -/
def OutOfCooldown (r : HandleRegistry) : Op → Prop
  | .insertValidated handle nowSecs => r.resolveConflict handle nowSecs ≠ .existingWins →
      ∀ d, r.cooldowns.lookup handle.name = some d → d ≤ nowSecs
  | _ => True

/-- While its cooldown runs, `register` does not bring the name back. -/
theorem resting_register {n : String} {d : UInt64} {nowSecs : UInt64} (hlt : nowSecs < d)
    (attempts : ℕ) (name : String) (identity : PseudonymIdentity) (difficulty : PowDifficulty) :
    Triple (Resting n d) (registerWithDifficulty P attempts name identity difficulty nowSecs)
      (fun _ => Resting n d) (Resting n d) := by
  refine triple_register_rule (fun r m o hr => ?_) (fun r e hr he hle => ?_)
    (fun r h hr hnone hname _ => ?_) attempts identity difficulty
  · refine ⟨?_, hr.cooling⟩
    rw [drop, HashMap.lookup_erase_eq, hr.free, ite_self]
  · have hne : n ≠ name := by
      rintro rfl
      rw [hr.cooling, Option.some.injEq] at he
      exact UInt64.not_lt.mpr hle (he ▸ hlt)
    refine ⟨hr.free, ?_⟩
    rw [HashMap.lookup_erase_eq, if_neg hne]
    exact hr.cooling
  · have hne : n ≠ h.name := by
      rintro rfl
      have hcooling := hr.cooling
      rw [hname, hnone] at hcooling
      cases hcooling
    refine ⟨?_, hr.cooling⟩
    rw [store, HashMap.lookup_insert_eq, if_neg hne]
    exact hr.free

/-- A name at rest is not the name of a record. -/
theorem Resting.ne_of_lookup {n name : String} {d : UInt64} {r : HandleRegistry}
    (h : Resting n d r) {g : Handle} (hg : r.handles.lookup name = some g) : n ≠ name := by
  rintro rfl
  rw [h.free] at hg
  cases hg

/-- **One call.**  While its cooldown runs, a name stays at rest in every call but an
`insert_validated` that takes a record of it. -/
theorem Resting.step {n : String} {d : UInt64} {r : HandleRegistry} (h : Resting n d r) {op : Op}
    (hlt : op.nowSecs < d) (hok : r.OutOfCooldown op) : Resting n d (r.step P op) := by
  cases op with
  | register attempts name identity nowSecs =>
    exact (resting_register hlt attempts _ identity _).exec_snd h
  | renew attempts name identity nowSecs =>
    rw [HandleRegistry.step]
    rcases renew_snd_cases (P := P) attempts name identity nowSecs r with
      heq | ⟨g, g', hg, -, heq⟩
    · rw [heq]
      exact h
    · have hne := h.ne_of_lookup hg
      rw [heq]
      refine ⟨?_, h.cooling⟩
      rw [HashMap.lookup_insert_eq, if_neg hne]
      exact h.free
  | release name identity nowSecs =>
    rw [HandleRegistry.step]
    rcases release_cases name identity nowSecs r with ⟨-, heq⟩ | ⟨g, hg, heq⟩
    · rw [heq]
      exact h
    · have hne := h.ne_of_lookup hg
      rw [heq]
      refine ⟨?_, ?_⟩
      · simp only [drop]
        rw [HashMap.lookup_erase_eq, h.free, ite_self]
      · simp only
        rw [HashMap.lookup_insert_eq, if_neg hne]
        exact h.cooling
  | insertValidated handle nowSecs =>
    rw [HandleRegistry.step, insertValidated_snd]
    split_ifs with htaken
    · exact h
    · have hne : n ≠ handle.name := by
        rintro rfl
        exact UInt64.not_lt.mpr (hok htaken d h.cooling) hlt
      refine ⟨?_, h.cooling⟩
      rw [overwrite, HashMap.lookup_insert_eq, if_neg hne]
      exact h.free
  | gc order nowSecs =>
    refine ⟨?_, ?_⟩
    · rw [Option.eq_none_iff_forall_ne_some]
      intro g hg
      have hbefore := (lookup_gc hg).1
      rw [h.free] at hbefore
      cases hbefore
    · rw [HandleRegistry.step, cooldowns_gc, h.cooling]
      have hrun : nowSecs < d := hlt
      simp [hrun]

/-- A release that succeeds puts the name at rest. -/
theorem resting_release {name : String} {identity : PseudonymIdentity} {t : UInt64}
    {r : HandleRegistry} (hok : (exec (release name identity t) r).1 = .ok ()) :
    Resting name (t + handleReleaseCooldownSecs) (r.step P (.release name identity t)) := by
  rw [HandleRegistry.step]
  rcases release_cases name identity t r with ⟨hfail, -⟩ | ⟨g, -, heq⟩
  · exact absurd hok hfail
  · rw [heq]
    exact ⟨(lookup_drop r name identity.identityKey).1, AList.lookup_insert _⟩

/-! ## Where a cooldown comes from -/

/-- Every cooldown of the second registry is one of the first. -/
def Shrinks (r s : HandleRegistry) : Prop :=
  ∀ n d, s.cooldowns.lookup n = some d → r.cooldowns.lookup n = some d

/-- `register` starts no cooldown. -/
theorem shrinks_register (r : HandleRegistry) (attempts : ℕ) (name : String)
    (identity : PseudonymIdentity) (difficulty : PowDifficulty) (nowSecs : UInt64) :
    Triple (Shrinks r) (registerWithDifficulty P attempts name identity difficulty nowSecs)
      (fun _ => Shrinks r) (Shrinks r) := by
  refine triple_register_rule (fun s m o hs => hs) (fun s c hs _ _ n e he => ?_)
    (fun s h hs _ _ _ => hs) attempts identity difficulty
  rw [HashMap.lookup_erase_eq] at he
  split at he
  · cases he
  · exact hs n e he

/-- A cooldown that is there after a call was there before, unless the call is the release that
starts it. -/
theorem cooldowns_step {n : String} {d : UInt64} {r : HandleRegistry} {op : Op}
    (h : (r.step P op).cooldowns.lookup n = some d) :
    r.cooldowns.lookup n = some d
      ∨ ∃ identity t, op = .release n identity t ∧ (exec (release n identity t) r).1 = .ok ()
        ∧ d = t + handleReleaseCooldownSecs := by
  cases op with
  | register attempts name identity nowSecs =>
    rw [HandleRegistry.step, register] at h
    have hshrinks := (shrinks_register (P := P) r attempts (toAsciiLowercase name) identity
      (calculatePowDifficulty (toAsciiLowercase name)) nowSecs).exec_snd (fun _ _ he => he)
    exact Or.inl (hshrinks n d h)
  | renew attempts name identity nowSecs =>
    rw [HandleRegistry.step] at h
    rcases renew_snd_cases (P := P) attempts name identity nowSecs r with
      heq | ⟨g, g', -, -, heq⟩
    · rw [heq] at h
      exact Or.inl h
    · rw [heq] at h
      exact Or.inl h
  | release name identity nowSecs =>
    rw [HandleRegistry.step] at h
    rcases release_cases name identity nowSecs r with ⟨-, heq⟩ | ⟨g, -, heq⟩
    · rw [heq] at h
      exact Or.inl h
    · rw [heq] at h
      simp only at h
      rw [HashMap.lookup_insert_eq] at h
      split at h
      · rename_i hn
        subst hn
        exact Or.inr ⟨identity, nowSecs, rfl, by rw [heq], (Option.some.inj h).symm⟩
      · exact Or.inl h
  | insertValidated handle nowSecs =>
    rw [HandleRegistry.step, insertValidated_snd] at h
    split at h
    · exact Or.inl h
    · exact Or.inl h
  | gc order nowSecs =>
    rw [HandleRegistry.step, cooldowns_gc, Option.filter_eq_some_iff] at h
    exact Or.inl h.1

/-- **Every cooldown goes back to a release** of the run. -/
theorem released_of_cooldown {l : List Op} {n : String} {d : UInt64}
    (h : (run (step P) new l).cooldowns.lookup n = some d) :
    ∃ l₁ identity t l₂, l = l₁ ++ .release n identity t :: l₂
      ∧ (exec (release n identity t) (run (step P) new l₁)).1 = .ok ()
      ∧ d = t + handleReleaseCooldownSecs := by
  induction l using List.reverseRecOn with
  | nil => cases h
  | append_singleton l op ih =>
    rw [run_append, run_cons, run_nil] at h
    rcases cooldowns_step h with hbefore | ⟨identity, t, rfl, hok, hd⟩
    · obtain ⟨l₁, identity, t, l₂, rfl, hok, hd⟩ := ih hbefore
      exact ⟨l₁, identity, t, l₂ ++ [op], by simp, hok, hd⟩
    · exact ⟨l, identity, t, [], rfl, hok, hd⟩

/-! ## Whole runs -/

/-- **The cooldown is kept**: after a release that succeeds, no call before its end makes the
registry contain the name. -/
def CooldownKept (P : HandlePrimitives) (ops : List Op) : Prop :=
  ∀ l₁ name identity t l₂ l₃, ops = l₁ ++ .release name identity t :: (l₂ ++ l₃) →
    (exec (release name identity t) (run (step P) new l₁)).1 = .ok () →
    (∀ op ∈ l₂, op.nowSecs.toNat < t.toNat + handleReleaseCooldownSecs.toNat) →
    (run (step P) new (l₁ ++ .release name identity t :: l₂)).handles.lookup name = none

/-- A record that is taken is in the registry. -/
theorem lookup_of_taken {r : HandleRegistry} {handle : Handle} {nowSecs : UInt64}
    (h : r.resolveConflict handle nowSecs ≠ .existingWins) :
    (r.step P (.insertValidated handle nowSecs)).handles.lookup handle.name = some handle := by
  rw [HandleRegistry.step, insertValidated_snd, if_neg h]
  exact AList.lookup_insert _

/-- **When the cooldown is kept.**  In a run from the empty registry, at nondecreasing times a
day below the end of `u64`, it is kept exactly when no record that `insert_validated` takes is
of a name whose cooldown runs. -/
theorem cooldownKept_iff_meets (P : HandlePrimitives) (ops : List Op)
    (htimes : ops.Pairwise (fun a b => a.nowSecs ≤ b.nowSecs))
    (hclock : ∀ op ∈ ops, op.nowSecs.toNat + handleReleaseCooldownSecs.toNat < 2 ^ 64) :
    CooldownKept P ops ↔ Meets (step P) OutOfCooldown new ops := by
  have hend : ∀ t : UInt64, t.toNat + handleReleaseCooldownSecs.toNat < 2 ^ 64 →
      (t + handleReleaseCooldownSecs).toNat = t.toNat + handleReleaseCooldownSecs.toNat := by
    intro t ht
    rw [UInt64.toNat_add, Nat.mod_eq_of_lt ht]
  constructor
  · intro h
    rw [meets_iff_forall_split]
    rintro l₁ a l₂ rfl
    cases a with
    | insertValidated handle nowSecs =>
      intro htaken d hd
      rw [← UInt64.not_lt]
      intro hlt
      obtain ⟨m₁, identity, t, m₂, rfl, hok, rfl⟩ := released_of_cooldown hd
      have ht : t.toNat + handleReleaseCooldownSecs.toNat < 2 ^ 64 :=
        hclock (.release handle.name identity t) (by simp)
      have hnone := h m₁ handle.name identity t (m₂ ++ [.insertValidated handle nowSecs]) l₂
        (by simp) hok (fun op hop => ?_)
      · rw [show m₁ ++ Op.release handle.name identity t :: (m₂ ++ [.insertValidated handle nowSecs])
            = (m₁ ++ Op.release handle.name identity t :: m₂) ++ [.insertValidated handle nowSecs]
          by simp, run_append, run_cons, run_nil, lookup_of_taken htaken] at hnone
        cases hnone
      · have hle : op.nowSecs ≤ nowSecs := by
          rcases List.mem_append.mp hop with hop | hop
          · exact (List.pairwise_append.mp htimes).2.2 op (by simp [hop])
              (.insertValidated handle nowSecs) List.mem_cons_self
          · rw [List.mem_singleton.mp hop]
            exact UInt64.le_refl _
        rw [← hend t ht]
        exact Nat.lt_of_le_of_lt (UInt64.le_iff_toNat_le.mp hle) (UInt64.lt_iff_toNat_lt.mp hlt)
    | register _ _ _ _ => trivial
    | renew _ _ _ _ => trivial
    | release _ _ _ => trivial
    | gc _ _ => trivial
  · intro h l₁ name identity t l₂ l₃ hops hok hbefore
    subst hops
    have ht : t.toNat + handleReleaseCooldownSecs.toNat < 2 ^ 64 :=
      hclock (.release name identity t) (by simp)
    have hmeets := (meets_append.mp (meets_append.mp h).2.2).1
    rw [meets_iff_forall_split] at hmeets
    have hl₂ : Meets (step P) (fun r op => op.nowSecs < t + handleReleaseCooldownSecs
        ∧ r.OutOfCooldown op) ((run (step P) new l₁).step P (.release name identity t)) l₂ := by
      rw [meets_iff_forall_split]
      intro m₁ a m₂ hl
      refine ⟨UInt64.lt_iff_toNat_lt.mpr ?_, hmeets m₁ a m₂ hl⟩
      rw [hend t ht]
      exact hbefore a (by simp [hl])
    rw [run_append, run_cons]
    exact (run_invariant (fun r op hr hop => hr.step hop.1 hop.2) (resting_release hok) hl₂).free

/-- A registration and the release of the name after a hundred seconds. -/
def registeredAndReleased : List Op :=
  [.register 1 "alice_one" exampleIdentity 1704067200,
    .release "alice_one" exampleIdentity 1704067300]

/-- The record of the registration, arriving from the network. -/
def recordArrives (nowSecs : UInt64) : Op :=
  .insertValidated (exampleRecord "alice_one" exampleOwner 1704067200) nowSecs

/-- The owner's record, back from the network a day after the release. -/
theorem cooldownKept_iff_meets_example :
    CooldownKept examplePrimitives (registeredAndReleased ++ [recordArrives 1704153700]) := by
  refine (cooldownKept_iff_meets examplePrimitives _ (by decide) (by decide)).mpr
    ⟨trivial, trivial, fun _ d hd => ?_, trivial⟩
  have hlookup : some d = some 1704153700 := by
    rw [← hd]
    decide +kernel
  rw [Option.some.inj hlookup]
  exact UInt64.le_refl _

/-- **The replay.**  A hundred seconds after the release the same record brings the name back:
it is valid, and nothing consults the cooldown. -/
theorem replay_after_release :
    ¬ ∀ (P : HandlePrimitives) (ops : List Op), (∀ op ∈ ops, op.Validated P) →
      ops.Pairwise (fun a b => a.nowSecs ≤ b.nowSecs) →
      (∀ op ∈ ops, op.nowSecs.toNat + handleReleaseCooldownSecs.toNat < 2 ^ 64) →
      CooldownKept P ops := by
  intro h
  have hvalid : (recordArrives 1704067400).Validated examplePrimitives := by
    show validate _ _ _ = _
    decide +kernel
  have hkept := h examplePrimitives (registeredAndReleased ++ [recordArrives 1704067400])
    (fun op hop => ?_) (by decide) (by decide)
  · have hnone := hkept [.register 1 "alice_one" exampleIdentity 1704067200] "alice_one"
      exampleIdentity 1704067300 [recordArrives 1704067400] [] rfl (by decide +kernel) (by decide)
    exact absurd hnone (by decide +kernel)
  · simp only [registeredAndReleased, List.cons_append, List.nil_append, List.mem_cons,
      List.not_mem_nil, or_false] at hop
    rcases hop with rfl | rfl | rfl
    · trivial
    · trivial
    · exact hvalid

end HandleRegistry
