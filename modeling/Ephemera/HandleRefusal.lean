/-
# What a refused registration leaves behind

`register_with_difficulty` removes expired handles between its checks: the caller's own after
the check of one handle per identity, the holder of the name after the check of the name.  A
later check that fails leaves the removals in place.  With an expired handle its owner's
reverse mapping goes, also when it leads to another handle of the owner that is live.

`dropAll` is the registry after such removals and `refused` says which they are.
`liveUnchanged_iff_idle` is the exact condition, in every reachable registry, under which a
refusal changes nothing that is live.
-/
import Ephemera.HandleCooldown

open GuardedRun StateExcept

namespace HandleRegistry

variable {P : HandlePrimitives}

/-! ## What a call removes before it is refused -/

/-- The registry without some handles, given with their owners. -/
def dropAll (r : HandleRegistry) (drops : List (String × IdentityKey)) : HandleRegistry :=
  drops.foldl (fun r d => r.drop d.1 d.2) r

/-- The identity holds a handle that has not expired. -/
def holdsLive (r : HandleRegistry) (owner : IdentityKey) (nowSecs : UInt64) : Bool :=
  (r.lookupByOwner owner).any (fun h => !h.isExpiredAt nowSecs)

/-- The expired handle that an identity is mapped to. -/
def expiredOwn (r : HandleRegistry) (owner : IdentityKey) (nowSecs : UInt64) :
    List (String × IdentityKey) :=
  match r.ownerToHandle.lookup owner with
  | none => []
  | some n => if (r.handles.lookup n).any (fun h => h.isExpiredAt nowSecs) then [(n, owner)] else []

/-- The expired holder of a name. -/
def expiredHolder (r : HandleRegistry) (name : String) (nowSecs : UInt64) :
    List (String × IdentityKey) :=
  match r.handles.lookup name with
  | none => []
  | some h => if h.isExpiredAt nowSecs then [(name, h.owner)] else []

/-- What a registration that is refused has removed: nothing where the name is bad or the
identity holds a live handle, nothing of others where the identity is rate limited. -/
def refusedDrops (r : HandleRegistry) (name : String) (owner : IdentityKey) (nowSecs : UInt64) :
    List (String × IdentityKey) :=
  match validateHandleFormat name with
  | .error _ => []
  | .ok () =>
    if r.holdsLive owner nowSecs then []
    else
      match checkRateLimit r owner nowSecs with
      | .error _ => r.expiredOwn owner nowSecs
      | .ok () => r.expiredOwn owner nowSecs
          ++ (r.dropAll (r.expiredOwn owner nowSecs)).expiredHolder name nowSecs

/-! ## What should hold -/

/-- Nothing that is live at a time differs between two registries: the two searches for a handle
that has not expired, the cooldowns that have not passed, and the last registrations. -/
structure LiveUnchanged (r r' : HandleRegistry) (nowSecs : UInt64) : Prop where
  byName : ∀ n h, r.handles.lookup n = some h → h.isExpiredAt nowSecs = false →
    r'.lookup h.name = r.lookup h.name
  byOwner : ∀ n h, r.handles.lookup n = some h → h.isExpiredAt nowSecs = false →
    r'.lookupByOwner h.owner = r.lookupByOwner h.owner
  cooldowns : ∀ n d, nowSecs < d → (r'.cooldowns.lookup n = some d ↔ r.cooldowns.lookup n = some d)
  lastRegistration : ∀ o, r'.lastRegistration.lookup o = r.lastRegistration.lookup o

/-- **The condition on a handle that is removed**: no live handle is found under its name, and
its owner has no live handle, or is not found by key as it is. -/
def Idle (r : HandleRegistry) (nowSecs : UInt64) (d : String × IdentityKey) : Prop :=
  ∀ n h, r.handles.lookup n = some h → h.isExpiredAt nowSecs = false →
    toAsciiLowercase h.name ≠ d.1 ∧ (h.owner = d.2 → r.lookupByOwner d.2 = none)

/-! ## Reverse mappings -/

/-- An identity is mapped to a handle of its own. -/
def Mapped (r : HandleRegistry) : Prop :=
  ∀ o n, r.ownerToHandle.lookup o = some n → ∃ h, r.handles.lookup n = some h ∧ h.owner = o

variable {r : HandleRegistry}

theorem Mapped.drop (hr : r.Mapped) {n : String} {h : Handle} (hn : r.handles.lookup n = some h) :
    (r.drop n h.owner).Mapped := by
  intro o m hm
  rw [HandleRegistry.drop, HashMap.lookup_erase_eq] at hm
  split at hm
  · cases hm
  · rename_i ho
    obtain ⟨g, hg, hgo⟩ := hr o m hm
    refine ⟨g, ?_, hgo⟩
    have hne : m ≠ n := by
      rintro rfl
      rw [hn] at hg
      exact ho (hgo.symm.trans (congrArg Handle.owner (Option.some.inj hg)).symm)
    rw [HandleRegistry.drop, HashMap.lookup_erase_eq, if_neg hne]
    exact hg

/-- A handle is written under a name, for an owner who is mapped to it then. -/
theorem Mapped.put (hr : r.Mapped) {handle : Handle} (hn : r.handles.lookup handle.name = none) :
    ∀ o n, (r.ownerToHandle.insert handle.owner handle.name).lookup o = some n →
      ∃ h, (r.handles.insert handle.name handle).lookup n = some h ∧ h.owner = o := by
  intro o n ho
  rw [HashMap.lookup_insert_eq] at ho
  split at ho
  · rename_i heq
    rw [← Option.some.inj ho]
    exact ⟨handle, AList.lookup_insert _, heq.symm⟩
  · obtain ⟨g, hg, hgo⟩ := hr o n ho
    have hne : n ≠ handle.name := by
      rintro rfl
      rw [hn] at hg
      cases hg
    rw [HashMap.lookup_insert_eq, if_neg hne]
    exact ⟨g, hg, hgo⟩

theorem mapInvariant_mapped : MapInvariant Mapped where
  mapped hr ho := hr _ _ ho
  drop hr hn := hr.drop hn
  store hr _ hn _ := hr.put hn
  replace := by
    intro r n h h' hr hn ho o m hm
    obtain ⟨g, hg, hgo⟩ := hr o m hm
    rw [HashMap.lookup_insert_eq]
    split
    · rename_i heq
      rw [heq, hn] at hg
      refine ⟨h', rfl, ?_⟩
      rw [ho, Option.some.inj hg, hgo]
    · exact ⟨g, hg, hgo⟩
  cooldowns hr _ := hr

/-- The previous holder of the name is dropped first. -/
theorem Mapped.overwrite (hr : r.Mapped) (handle : Handle) : (r.overwrite handle).Mapped := by
  cases hh : r.handles.lookup handle.name with
  | none =>
    simp only [HandleRegistry.overwrite, hh]
    exact hr.put hh
  | some prev =>
    have hput := (hr.drop hh).put (lookup_drop r handle.name prev.owner).1
    simp only [HandleRegistry.drop, HashMap.insert_erase_self] at hput
    simp only [HandleRegistry.overwrite, hh]
    exact hput

theorem Mapped.step (hr : r.Mapped) (op : Op) : (r.step P op).Mapped := by
  cases op with
  | register attempts name identity nowSecs =>
    exact (triple_registerWithDifficulty mapInvariant_mapped _ _ _ _ _).exec_snd hr
  | renew attempts name identity nowSecs =>
    exact (triple_renew mapInvariant_mapped _ _ _ _).exec_snd hr
  | release name identity nowSecs =>
    exact (triple_release mapInvariant_mapped _ _ _).exec_snd hr
  | insertValidated handle nowSecs =>
    rw [HandleRegistry.step, insertValidated_snd]
    split
    · exact hr
    · exact hr.overwrite handle
  | gc order nowSecs => exact gc_of_mapInvariant mapInvariant_mapped hr order nowSecs

theorem mapped_run (ops : List Op) : (run (step P) new ops).Mapped := by
  have hstep : ∀ (r : HandleRegistry) op, r.Mapped → (r.step P op).Mapped :=
    fun _ op hr => hr.step op
  have hnew : new.Mapped := nofun
  exact run_invariant_of_step hstep hnew ops

/-! ## The state after a refusal -/

/-- Step 2. -/
theorem exec_checkOneHandle (owner : IdentityKey) (nowSecs : UInt64) (r : HandleRegistry) :
    (r.holdsLive owner nowSecs = true ∧ (exec (checkOneHandle owner nowSecs) r).2 = r
        ∧ (exec (checkOneHandle owner nowSecs) r).1 ≠ .ok ())
      ∨ r.holdsLive owner nowSecs = false
        ∧ exec (checkOneHandle owner nowSecs) r
          = (.ok (), r.dropAll (r.expiredOwn owner nowSecs)) := by
  rw [checkOneHandle, exec_bind, exec_get, holdsLive, lookupByOwner, expiredOwn]
  simp only
  cases r.ownerToHandle.lookup owner with
  | none => exact Or.inr ⟨rfl, rfl⟩
  | some existing =>
    simp only [Option.bind_some]
    cases r.handles.lookup existing with
    | none => exact Or.inr ⟨rfl, rfl⟩
    | some h =>
      simp only [Option.any_some]
      by_cases hexp : h.isExpiredAt nowSecs = true
      · rw [if_pos hexp, if_pos hexp, hexp]
        exact Or.inr ⟨rfl, rfl⟩
      · rw [if_neg hexp]
        exact Or.inl ⟨by simp [hexp], rfl, by simp⟩

/-- Step 4. -/
theorem exec_checkAvailable (name : String) (nowSecs : UInt64) (r : HandleRegistry) :
    (exec (checkAvailable name nowSecs) r).2 = r.dropAll (r.expiredHolder name nowSecs) := by
  rw [checkAvailable, exec_bind, exec_get, expiredHolder]
  simp only
  cases r.handles.lookup name with
  | none => rfl
  | some h =>
    simp only
    split
    · rfl
    · rfl

/-- Step 5 writes nothing where it refuses. -/
theorem exec_checkCooldown_error {name : String} {nowSecs : UInt64} {r r' : HandleRegistry}
    {e : NoResult} (h : exec (checkCooldown name nowSecs) r = (.error e, r')) : r' = r := by
  rw [checkCooldown, exec_bind, exec_get] at h
  simp only at h
  split at h
  · cases h
  · split at h
    · cases h
      rfl
    · cases h

theorem dropAll_append (r : HandleRegistry) (ds ds' : List (String × IdentityKey)) :
    r.dropAll (ds ++ ds') = (r.dropAll ds).dropAll ds' := List.foldl_append

/-- Removals touch the two maps only. -/
theorem dropAll_rest (r : HandleRegistry) (ds : List (String × IdentityKey)) :
    (r.dropAll ds).cooldowns = r.cooldowns
      ∧ (r.dropAll ds).lastRegistration = r.lastRegistration := by
  induction ds generalizing r with
  | nil => exact ⟨rfl, rfl⟩
  | cons d ds ih => exact ih (r.drop d.1 d.2)

/-- The last two checks: what step 5 finds is what step 4 leaves, and the rest does not fail. -/
theorem refused_late {attempts : ℕ} {name : String} {identity : PseudonymIdentity}
    {difficulty : PowDifficulty} {nowSecs : UInt64} {r r' : HandleRegistry} {e : HandleError}
    (h : exec (do
        checkAvailable name nowSecs
        checkCooldown name nowSecs
        let powProof ← liftM (generate P attempts
          (buildPowChallenge name identity.identityKey nowSecs) difficulty)
        let signature := identity.sign (buildSignatureMessage name identity.identityKey nowSecs)
        let handle : Handle := ⟨name, identity.identityKey, nowSecs, nowSecs + handleTtlSecs,
          powProof, signature⟩
        modify (fun r => r.store handle nowSecs)
        pure handle : StateExcept NoResult HandleRegistry Handle) r = (.error (.error e), r')) :
    r' = (exec (checkAvailable name nowSecs) r).2 := by
  rw [exec_bind] at h
  cases havail : exec (checkAvailable name nowSecs) r with
  | mk res s =>
    rw [havail] at h
    cases res with
    | error f =>
      cases h
      rfl
    | ok u =>
      simp only at h ⊢
      rw [exec_bind] at h
      cases hcool : exec (checkCooldown name nowSecs) s with
      | mk res s' =>
        rw [hcool] at h
        cases res with
        | error f =>
          cases h
          exact exec_checkCooldown_error hcool
        | ok u =>
          -- the search for a nonce does not fail, it may only go on
          simp only at h
          rw [exec_bind, exec_lift, generate] at h
          cases hpow : P.generatePow attempts (buildPowChallenge name identity.identityKey nowSecs)
              difficulty.bits with
          | none =>
            rw [hpow] at h
            cases h
          | some stamp =>
            rw [hpow] at h
            cases h

/-- **What a refusal leaves**: the removals that came before the check that failed. -/
theorem refused {attempts : ℕ} {name : String} {identity : PseudonymIdentity}
    {difficulty : PowDifficulty} {nowSecs : UInt64} {r r' : HandleRegistry} {e : HandleError}
    (h : exec (registerWithDifficulty P attempts name identity difficulty nowSecs) r
      = (.error (.error e), r')) :
    r' = r.dropAll (r.refusedDrops name identity.identityKey nowSecs) := by
  rw [registerWithDifficulty, exec_bind, exec_lift, checkFormat] at h
  rw [refusedDrops]
  cases hformat : validateHandleFormat name with
  | error f =>
    rw [hformat] at h
    cases h
    rfl
  | ok u =>
    rw [hformat] at h
    simp only [Except.mapError] at h ⊢
    rw [exec_bind] at h
    rcases exec_checkOneHandle identity.identityKey nowSecs r with
      ⟨hlive, hkept, hfail⟩ | ⟨hlive, hone⟩
    · rw [if_pos hlive]
      cases hrun : exec (checkOneHandle identity.identityKey nowSecs) r with
      | mk res s =>
        rw [hrun] at h hkept hfail
        cases res with
        | ok u => exact absurd rfl hfail
        | error f =>
          cases h
          exact hkept
    · rw [hone] at h
      rw [if_neg (ne_true_of_eq_false hlive)]
      simp only at h
      rw [exec_bind, exec_get] at h
      simp only at h
      rw [exec_bind, exec_lift] at h
      -- the rate limit reads what step 2 leaves alone
      have hrate : checkRateLimit (r.dropAll (r.expiredOwn identity.identityKey nowSecs))
          identity.identityKey nowSecs = checkRateLimit r identity.identityKey nowSecs := by
        rw [checkRateLimit, checkRateLimit, (dropAll_rest r _).2]
      rw [hrate] at h
      cases hlimit : checkRateLimit r identity.identityKey nowSecs with
      | error f =>
        rw [hlimit] at h
        cases h
        rfl
      | ok u =>
        rw [hlimit] at h
        simp only at h ⊢
        rw [dropAll_append, ← exec_checkAvailable]
        exact refused_late h

/-! ## What the removals change -/

/-- The handles that remain. -/
theorem lookup_dropAll (r : HandleRegistry) (ds : List (String × IdentityKey)) (n : String) :
    (r.dropAll ds).handles.lookup n
      = if n ∈ ds.map Prod.fst then none else r.handles.lookup n := by
  induction ds generalizing r with
  | nil => rfl
  | cons d ds ih =>
    have hdrop : (r.drop d.1 d.2).handles.lookup n
        = if n = d.1 then none else r.handles.lookup n := HashMap.lookup_erase_eq _ _ _
    rw [dropAll, List.foldl_cons, ← dropAll, ih, hdrop, List.map_cons]
    by_cases hn : n = d.1
    · simp [hn]
    · rw [if_neg hn]
      exact if_congr (by simp [hn]) rfl rfl

/-- The mappings that remain. -/
theorem ownerToHandle_dropAll (r : HandleRegistry) (ds : List (String × IdentityKey))
    (o : IdentityKey) : (r.dropAll ds).ownerToHandle.lookup o
      = if o ∈ ds.map Prod.snd then none else r.ownerToHandle.lookup o := by
  induction ds generalizing r with
  | nil => rfl
  | cons d ds ih =>
    have hdrop : (r.drop d.1 d.2).ownerToHandle.lookup o
        = if o = d.2 then none else r.ownerToHandle.lookup o := HashMap.lookup_erase_eq _ _ _
    rw [dropAll, List.foldl_cons, ← dropAll, ih, hdrop, List.map_cons]
    by_cases ho : o = d.2
    · simp [ho]
    · rw [if_neg ho]
      exact if_congr (by simp [ho]) rfl rfl

/-- Every removal is of a handle that is there, with its owner. -/
def Owned (r : HandleRegistry) (ds : List (String × IdentityKey)) : Prop :=
  ∀ d ∈ ds, ∃ h, r.handles.lookup d.1 = some h ∧ h.owner = d.2

/-- The search by owner loses exactly the owners of the removed handles. -/
theorem lookupByOwner_dropAll (hr : r.Mapped) {ds : List (String × IdentityKey)} (hds : r.Owned ds)
    (o : IdentityKey) : (r.dropAll ds).lookupByOwner o
      = if o ∈ ds.map Prod.snd then none else r.lookupByOwner o := by
  rw [lookupByOwner, ownerToHandle_dropAll]
  by_cases ho : o ∈ ds.map Prod.snd
  · rw [if_pos ho, if_pos ho]
    rfl
  · rw [if_neg ho, if_neg ho, lookupByOwner]
    cases hm : r.ownerToHandle.lookup o with
    | none => rfl
    | some n =>
      -- the handle is the owner's own, so it is not among the removed ones
      obtain ⟨h, hn, hho⟩ := hr o n hm
      have hkept : n ∉ ds.map Prod.fst := by
        intro hmem
        obtain ⟨d, hd, rfl⟩ := List.mem_map.mp hmem
        obtain ⟨g, hg, hgo⟩ := hds d hd
        rw [hn] at hg
        refine ho (List.mem_map.mpr ⟨d, hd, ?_⟩)
        rw [← hgo, ← Option.some.inj hg, hho]
      rw [Option.bind_some, Option.bind_some, lookup_dropAll, if_neg hkept]

/-- **What removals change.**  They leave what is live exactly if each of them is idle. -/
theorem liveUnchanged_dropAll_iff (hr : r.Mapped) {ds : List (String × IdentityKey)}
    (hds : r.Owned ds) (nowSecs : UInt64) :
    LiveUnchanged r (r.dropAll ds) nowSecs ↔ ∀ d ∈ ds, r.Idle nowSecs d := by
  constructor
  · intro h d hd n g hg hlive
    obtain ⟨e, he, -⟩ := hds d hd
    constructor
    · intro hname
      have hbyName := h.byName n g hg hlive
      rw [lookup, lookup, lookup_dropAll, hname, if_pos (List.mem_map_of_mem hd), he] at hbyName
      cases hbyName
    · intro ho
      have hbyOwner := h.byOwner n g hg hlive
      rw [lookupByOwner_dropAll hr hds, ho, if_pos (List.mem_map_of_mem hd)] at hbyOwner
      exact hbyOwner.symm
  · intro h
    refine ⟨fun n g hg hlive => ?_, fun n g hg hlive => ?_, fun n d _ => ?_, fun o => ?_⟩
    · rw [lookup, lookup, lookup_dropAll, if_neg]
      intro hmem
      obtain ⟨d, hd, hname⟩ := List.mem_map.mp hmem
      exact (h d hd n g hg hlive).1 hname.symm
    · rw [lookupByOwner_dropAll hr hds]
      split
      · rename_i hmem
        obtain ⟨d, hd, ho⟩ := List.mem_map.mp hmem
        rw [← ho]
        exact ((h d hd n g hg hlive).2 ho.symm).symm
      · rfl
    · rw [(dropAll_rest r ds).1]
    · rw [(dropAll_rest r ds).2]

theorem owned_expiredOwn (hr : r.Mapped) (owner : IdentityKey) (nowSecs : UInt64) :
    r.Owned (r.expiredOwn owner nowSecs) := by
  intro d hd
  rw [expiredOwn] at hd
  split at hd
  · cases hd
  · rename_i n hn
    split at hd
    · rw [List.mem_singleton.mp hd]
      exact hr owner n hn
    · cases hd

theorem owned_expiredHolder (r : HandleRegistry) (name : String) (nowSecs : UInt64) :
    r.Owned (r.expiredHolder name nowSecs) := by
  intro d hd
  rw [expiredHolder] at hd
  split at hd
  · cases hd
  · rename_i h hh
    split at hd
    · rw [List.mem_singleton.mp hd]
      exact ⟨h, hh, rfl⟩
    · cases hd

/-- What a refusal removes was there. -/
theorem owned_refusedDrops (hr : r.Mapped) (name : String) (owner : IdentityKey)
    (nowSecs : UInt64) : r.Owned (r.refusedDrops name owner nowSecs) := by
  have hown := owned_expiredOwn hr owner nowSecs
  rw [refusedDrops]
  split
  · exact nofun
  · split
    · exact nofun
    · split
      · exact hown
      · intro d hd
        rcases List.mem_append.mp hd with hd | hd
        · exact hown d hd
        · obtain ⟨h, hh, ho⟩ := owned_expiredHolder _ name nowSecs d hd
          rw [lookup_dropAll] at hh
          split at hh
          · cases hh
          · exact ⟨h, hh, ho⟩

/-! ## Refusals -/

/-- **A registration that fails changes nothing that is live**, in a registry that a run from the
empty one has led to, exactly if each handle that it has removed is idle. -/
theorem liveUnchanged_iff_idle (P : HandlePrimitives) (ops : List Op) (attempts : ℕ)
    (name : String) (identity : PseudonymIdentity) (difficulty : PowDifficulty)
    (nowSecs : UInt64) (e : HandleError) (r' : HandleRegistry)
    (hrefused : exec (registerWithDifficulty P attempts name identity difficulty nowSecs)
      (run (step P) new ops) = (.error (.error e), r')) :
    LiveUnchanged (run (step P) new ops) r' nowSecs ↔
      ∀ d ∈ (run (step P) new ops).refusedDrops name identity.identityKey nowSecs,
        (run (step P) new ops).Idle nowSecs d := by
  have hr : (run (step P) new ops).Mapped := mapped_run ops
  rw [refused hrefused]
  exact liveUnchanged_dropAll_iff hr (owned_refusedDrops hr _ _ _) nowSecs

/-- A second identity for the examples. -/
def rivalIdentity : PseudonymIdentity :=
  ⟨List.replicate 32 2, exampleSign (List.replicate 32 2)⟩

/-- A name is registered, released shortly before it expires, and comes back from the network. -/
def oneName : List Op :=
  [.register 1 "alice_one" exampleIdentity 1704067200,
    .release "alice_one" exampleIdentity 1711842200,
    .insertValidated (exampleRecord "alice_one" exampleOwner 1704067200) 1711842201]

/-- Another identity tries to register the name, which is in cooldown, after it has expired. -/
def registerTaken : Except NoResult Handle × HandleRegistry :=
  exec (registerWithDifficulty examplePrimitives 1 "alice_one" rivalIdentity .medium 1711843210)
    (run (step examplePrimitives) new oneName)

/-- It removes the expired handle, whose owner has no other. -/
theorem liveUnchanged_iff_idle_taken :
    LiveUnchanged (run (step examplePrimitives) new oneName) registerTaken.2 1711843210 := by
  have hrefused : registerTaken
      = (.error (.error (.inCooldown "alice_one" 1711928600)), registerTaken.2) :=
    Prod.ext (by decide +kernel) rfl
  have hdrops : (run (step examplePrimitives) new oneName).refusedDrops "alice_one"
      rivalIdentity.identityKey 1711843210 = [("alice_one", exampleOwner)] := by decide +kernel
  refine (liveUnchanged_iff_idle examplePrimitives _ 1 "alice_one" rivalIdentity .medium
    1711843210 _ _ hrefused).mpr (fun d hd n g hg hlive => ?_)
  rw [hdrops] at hd
  -- Nothing is live: the one handle that is stored has expired.
  have honly : (run (step examplePrimitives) new oneName).handles.entries.map Sigma.fst
      = ["alice_one"] := by decide +kernel
  have hmem : n ∈ (run (step examplePrimitives) new oneName).handles.entries.map Sigma.fst :=
    AList.mem_keys.mp (HashMap.mem_iff_lookup.mpr ⟨g, hg⟩)
  rw [honly, List.mem_singleton] at hmem
  subst hmem
  have hexpired : ((run (step examplePrimitives) new oneName).handles.lookup "alice_one").all
      (fun h => h.isExpiredAt 1711843210) = true := by decide +kernel
  rw [hg] at hexpired
  exact absurd hexpired (by simp [hlive])

/-- The same name, and a second one of the same owner that comes from the network. -/
def twoNames : List Op :=
  oneName ++ [.insertValidated (exampleRecord "alice_two" exampleOwner 1711842200) 1711842202]

/-- Another identity tries to register the first name after it has expired. -/
def registerCooling : Except NoResult Handle × HandleRegistry :=
  exec (registerWithDifficulty examplePrimitives 1 "alice_one" rivalIdentity .medium 1711843210)
    (run (step examplePrimitives) new twoNames)

/-- **A refusal unmaps a live handle.**  The name is in cooldown, but by then its expired holder is
removed, and with it the mapping of the owner to the second name. -/
theorem refusal_unmaps_live :
    ¬∀ (P : HandlePrimitives) (ops : List Op) (attempts : ℕ) (name : String)
      (identity : PseudonymIdentity) (difficulty : PowDifficulty) (nowSecs : UInt64)
      (e : HandleError) (r' : HandleRegistry), (∀ op ∈ ops, op.Validated P) →
      ops.Pairwise (fun a b => a.nowSecs ≤ b.nowSecs) →
      exec (registerWithDifficulty P attempts name identity difficulty nowSecs)
        (run (step P) new ops) = (.error (.error e), r') →
      LiveUnchanged (run (step P) new ops) r' nowSecs := by
  intro h
  have hrefused : registerCooling
      = (.error (.error (.inCooldown "alice_one" 1711928600)), registerCooling.2) :=
    Prod.ext (by decide +kernel) rfl
  have hunchanged := h examplePrimitives twoNames 1 "alice_one" rivalIdentity .medium 1711843210
    _ _ (fun op hop => ?_) (by decide) hrefused
  · have hsecond : (run (step examplePrimitives) new twoNames).handles.lookup "alice_two"
        = some (exampleRecord "alice_two" exampleOwner 1711842200) := by decide +kernel
    have hbyOwner := hunchanged.byOwner "alice_two" _ hsecond (by decide)
    exact absurd hbyOwner (by decide +kernel)
  · simp only [twoNames, oneName, List.cons_append, List.nil_append, List.mem_cons,
      List.not_mem_nil, or_false] at hop
    rcases hop with rfl | rfl | rfl | rfl
    · trivial
    · trivial
    · show validate _ _ _ = _
      decide +kernel
    · show validate _ _ _ = _
      decide +kernel

end HandleRegistry
