/-
# The handle registry (`ephemera-social/src/handle.rs`)

`HandleRegistry` keeps the handles by name and, beside them, the name each owner holds.
`register`, `renew` and `release` are calls of the local identity, `insert_validated` takes
records from the network, and `gc` drops what has expired.

The two maps are inverse to each other as long as nobody comes with a second name:
`consistent_iff_meets` is the exact condition on a run.
-/
import Ephemera.GuardedRun
import Ephemera.HandleValidation
import Ephemera.HashMap
import Ephemera.StateExcept

open GuardedRun StateExcept

/-! ## Records and errors -/

/-- `Handle`. -/
structure Handle where
  name : String
  owner : IdentityKey
  registeredAt : UInt64
  expiresAt : UInt64
  powProof : PowStamp
  signature : Vector UInt8 64
  deriving DecidableEq

/-- `is_expired_at`. -/
def Handle.isExpiredAt (h : Handle) (nowSecs : UInt64) : Bool := h.expiresAt ≤ nowSecs

/-- `HandleError`. -/
inductive HandleError where
  | invalidFormat (e : HandleValidationError)
  | alreadyTaken (name : String)
  | identityAlreadyHasHandle (existing : String)
  | registrationRateLimited (remainingSecs : UInt64)
  | inCooldown (name : String) (availableAt : UInt64)
  | invalidPow (reason : String)
  | invalidSignature
  | notOwner (name : String)
  | expired (name : String)
  deriving DecidableEq

/-- `ConflictResult`. -/
inductive ConflictResult where
  | accept
  | incomingWins
  | existingWins
  deriving DecidableEq

/-- `InsertOutcome`. -/
inductive InsertOutcome where
  | inserted
  | replaced (displacedOwner : IdentityKey)
  | rejected
  deriving DecidableEq

/-- `PseudonymIdentity`: its public key and its signing function, which does not fail. -/
structure PseudonymIdentity where
  identityKey : IdentityKey
  sign : List UInt8 → Vector UInt8 64

/-- Why a call has no result: an error, or the search for a nonce goes on. -/
inductive NoResult where
  | error (e : HandleError)
  | searching
  deriving DecidableEq

/-- `HandleRegistry`. -/
structure HandleRegistry where
  handles : HashMap String Handle
  ownerToHandle : HashMap IdentityKey String
  lastRegistration : HashMap IdentityKey UInt64
  cooldowns : HashMap String UInt64

namespace HandleRegistry

/-- `HandleRegistry::new`. -/
def new : HandleRegistry := ⟨∅, ∅, ∅, ∅⟩

/-! ## Registration -/

/-- Remove a name and the mapping of an owner. -/
def drop (r : HandleRegistry) (name : String) (owner : IdentityKey) : HandleRegistry :=
  { r with handles := r.handles.erase name, ownerToHandle := r.ownerToHandle.erase owner }

/-- `register_with_difficulty`, step 2: one handle per identity; an expired one is dropped. -/
def checkOneHandle (owner : IdentityKey) (nowSecs : UInt64) :
    StateExcept NoResult HandleRegistry Unit := do
  let r ← get
  match r.ownerToHandle.lookup owner with
  | none => pure ()
  | some existing =>
    match r.handles.lookup existing with
    | none => pure ()
    | some h =>
      if h.isExpiredAt nowSecs then modify (fun r => r.drop existing owner)
      else throw (.error (.identityAlreadyHasHandle existing))

/-- Step 3: the rate limit. -/
def checkRateLimit (r : HandleRegistry) (owner : IdentityKey) (nowSecs : UInt64) :
    Except NoResult Unit :=
  match r.lastRegistration.lookup owner with
  | none => .ok ()
  | some last =>
    let elapsed := if last ≤ nowSecs then nowSecs - last else 0
    if elapsed < handleRegistrationCooldownSecs then
      .error (.error (.registrationRateLimited (handleRegistrationCooldownSecs - elapsed)))
    else .ok ()

/-- Step 4: the name must be free; an expired holder is dropped. -/
def checkAvailable (name : String) (nowSecs : UInt64) :
    StateExcept NoResult HandleRegistry Unit := do
  let r ← get
  match r.handles.lookup name with
  | none => pure ()
  | some existing =>
    if existing.isExpiredAt nowSecs then modify (fun r => r.drop name existing.owner)
    else throw (.error (.alreadyTaken name))

/-- Step 5: the cooldown after a release. -/
def checkCooldown (name : String) (nowSecs : UInt64) :
    StateExcept NoResult HandleRegistry Unit := do
  let r ← get
  match r.cooldowns.lookup name with
  | none => pure ()
  | some cooldownUntil =>
    if nowSecs < cooldownUntil then throw (.error (.inCooldown name cooldownUntil))
    else modify (fun r => { r with cooldowns := r.cooldowns.erase name })

/-- Step 9: store a new handle. -/
def store (r : HandleRegistry) (handle : Handle) (nowSecs : UInt64) : HandleRegistry :=
  { r with
    handles := r.handles.insert handle.name handle
    ownerToHandle := r.ownerToHandle.insert handle.owner handle.name
    lastRegistration := r.lastRegistration.insert handle.owner nowSecs }

variable (P : HandlePrimitives)

/-- `generate_pow`: after the given number of attempts there is a stamp, or the search goes on. -/
def generate (attempts : ℕ) (challenge : List UInt8) (difficulty : PowDifficulty) :
    Except NoResult PowStamp :=
  match P.generatePow attempts challenge difficulty.bits with
  | some stamp => .ok stamp
  | none => .error .searching

/-- The format check, with the error of the registry. -/
def checkFormat (name : String) : Except NoResult Unit :=
  (validateHandleFormat name).mapError (fun e => .error (.invalidFormat e))

/-- `register_with_difficulty`. -/
def registerWithDifficulty (attempts : ℕ) (name : String) (identity : PseudonymIdentity)
    (difficulty : PowDifficulty) (nowSecs : UInt64) :
    StateExcept NoResult HandleRegistry Handle := do
  liftM (checkFormat name)
  let owner := identity.identityKey
  checkOneHandle owner nowSecs
  liftM (checkRateLimit (← get) owner nowSecs)
  checkAvailable name nowSecs
  checkCooldown name nowSecs
  let powProof ← liftM (generate P attempts (buildPowChallenge name owner nowSecs) difficulty)
  let signature := identity.sign (buildSignatureMessage name owner nowSecs)
  let handle : Handle := ⟨name, owner, nowSecs, nowSecs + handleTtlSecs, powProof, signature⟩
  modify (fun r => r.store handle nowSecs)
  pure handle

/-- `register`. -/
def register (attempts : ℕ) (name : String) (identity : PseudonymIdentity) (nowSecs : UInt64) :
    StateExcept NoResult HandleRegistry Handle :=
  let normalized := toAsciiLowercase name
  registerWithDifficulty P attempts normalized identity (calculatePowDifficulty normalized) nowSecs

/-! ## Renewal and release -/

/-- The handle with a renewed proof and expiry. -/
def renewed (handle : Handle) (powProof : PowStamp) (signature : Vector UInt8 64)
    (nowSecs : UInt64) : Handle :=
  { handle with
    registeredAt := nowSecs
    expiresAt := nowSecs + handleTtlSecs
    powProof := powProof
    signature := signature }

/-- `renew`. -/
def renew (attempts : ℕ) (name : String) (identity : PseudonymIdentity) (nowSecs : UInt64) :
    StateExcept NoResult HandleRegistry Unit := do
  let owner := identity.identityKey
  let r ← get
  match r.handles.lookup name with
  | none => throw (.error (.expired name))
  | some handle =>
    if handle.owner ≠ owner then throw (.error (.notOwner name))
    else if handle.isExpiredAt nowSecs then throw (.error (.expired name))
    else do
      let powProof ← liftM (generate P attempts (buildPowChallenge name owner nowSecs) .renewal)
      let signature := identity.sign (buildSignatureMessage name owner nowSecs)
      modify (fun r =>
        { r with handles := r.handles.insert name (renewed handle powProof signature nowSecs) })

/-- `release`. -/
def release (name : String) (identity : PseudonymIdentity) (nowSecs : UInt64) :
    StateExcept NoResult HandleRegistry Unit := do
  let owner := identity.identityKey
  let r ← get
  match r.handles.lookup name with
  | none => throw (.error (.notOwner name))
  | some handle =>
    if handle.owner ≠ owner then throw (.error (.notOwner name))
    else modify (fun r =>
      { r.drop name owner with
        cooldowns := r.cooldowns.insert name (nowSecs + handleReleaseCooldownSecs) })

/-! ## Records from the network -/

/-- `validate`. -/
def validate (handle : Handle) (nowSecs : UInt64) : Except HandleError Unit :=
  match validateHandleFormat handle.name with
  | .error e => .error (.invalidFormat e)
  | .ok () =>
    if handle.isExpiredAt nowSecs then .error (.expired handle.name)
    else if handle.expiresAt ≠ handle.registeredAt + handleTtlSecs then
      .error (.invalidPow "expires_at does not match registered_at + TTL")
    else if !P.verifyHandleSignature handle.name handle.owner handle.registeredAt
        handle.signature then .error .invalidSignature
    else
      match P.verifyHandlePow handle.name handle.owner handle.registeredAt handle.powProof
          (calculatePowDifficulty handle.name) with
      | .error reason => .error (.invalidPow ("invalid proof of work: " ++ reason))
      | .ok () => .ok ()

/-- `resolve_conflict`. -/
def resolveConflict (r : HandleRegistry) (incoming : Handle) (nowSecs : UInt64) : ConflictResult :=
  match r.handles.lookup incoming.name with
  | none => .accept
  | some existing =>
    if existing.isExpiredAt nowSecs then .accept
    else if incoming.registeredAt < existing.registeredAt then .incomingWins
    else if incoming.registeredAt = existing.registeredAt then
      if incoming.owner < existing.owner then .incomingWins else .existingWins
    else .existingWins

/-- The mapping of the previous holder of a name is removed, and the handle put in. -/
def overwrite (r : HandleRegistry) (handle : Handle) : HandleRegistry :=
  let back := match r.handles.lookup handle.name with
    | some prev => r.ownerToHandle.erase prev.owner
    | none => r.ownerToHandle
  { r with
    handles := r.handles.insert handle.name handle
    ownerToHandle := back.insert handle.owner handle.name }

/-- `insert_validated`. -/
def insertValidated (r : HandleRegistry) (handle : Handle) (nowSecs : UInt64) :
    InsertOutcome × HandleRegistry :=
  match r.resolveConflict handle nowSecs with
  | .existingWins => (.rejected, r)
  | .accept => (.inserted, r.overwrite handle)
  | .incomingWins =>
    match r.handles.lookup handle.name with
    | some existing => (.replaced existing.owner, r.overwrite handle)
    | none => (.rejected, r) -- not reached: the incoming record wins over an existing one

/-! ## Reads and collection -/

/-- `lookup`. -/
def lookup (r : HandleRegistry) (name : String) : Option Handle :=
  r.handles.lookup (toAsciiLowercase name)

/-- `lookup_by_owner`. -/
def lookupByOwner (r : HandleRegistry) (owner : IdentityKey) : Option Handle :=
  (r.ownerToHandle.lookup owner).bind r.handles.lookup

/-- The loop of `gc`: one expired name. -/
def gcName (r : HandleRegistry) (name : String) : HandleRegistry :=
  match r.handles.lookup name with
  | some handle => r.drop name handle.owner
  | none => r

/-- `gc`. -/
def gc (r : HandleRegistry) (order : VisitOrder String) (nowSecs : UInt64) : HandleRegistry :=
  let expiredNames := (HashMap.keysIn order r.handles).filter
    (fun name => (r.handles.lookup name).any (fun h => h.isExpiredAt nowSecs))
  let r := expiredNames.foldl gcName r
  { r with cooldowns := HashMap.retain (fun _ deadline => nowSecs < deadline) r.cooldowns }

/-! ## Runs -/

/-- A call on the registry. -/
inductive Op where
  | register (attempts : ℕ) (name : String) (identity : PseudonymIdentity) (nowSecs : UInt64)
  | renew (attempts : ℕ) (name : String) (identity : PseudonymIdentity) (nowSecs : UInt64)
  | release (name : String) (identity : PseudonymIdentity) (nowSecs : UInt64)
  | insertValidated (handle : Handle) (nowSecs : UInt64)
  | gc (order : VisitOrder String) (nowSecs : UInt64)

/-- The registry after a call. -/
def step (r : HandleRegistry) : Op → HandleRegistry
  | .register attempts name identity nowSecs =>
    (exec (register P attempts name identity nowSecs) r).2
  | .renew attempts name identity nowSecs => (exec (renew P attempts name identity nowSecs) r).2
  | .release name identity nowSecs => (exec (release name identity nowSecs) r).2
  | .insertValidated handle nowSecs => (r.insertValidated handle nowSecs).2
  | .gc order nowSecs => r.gc order nowSecs

/-! ## The two maps -/

/-- What the registry is meant to keep: the maps are inverse to each other, so nobody holds
two names, and the search by owner finds every handle. -/
structure Consistent (r : HandleRegistry) : Prop where
  inverse : ∀ n o, (∃ h, r.handles.lookup n = some h ∧ h.owner = o) ↔
    r.ownerToHandle.lookup o = some n
  oneHandle : ∀ n n' h h', r.handles.lookup n = some h → r.handles.lookup n' = some h' →
    h.owner = h'.owner → n = n'
  found : ∀ n h, r.handles.lookup n = some h → r.lookupByOwner h.owner = some h

/-- The maps are inverse to each other. -/
def Inverse (r : HandleRegistry) : Prop := HashMap.Inverse Handle.owner r.handles r.ownerToHandle

/-- The rest follows. -/
theorem consistent_iff {r : HandleRegistry} : r.Consistent ↔ r.Inverse := by
  constructor
  · intro h n o
    rw [Option.map_eq_some_iff]
    exact h.inverse n o
  · intro h
    have hback : ∀ n v, r.handles.lookup n = some v → r.ownerToHandle.lookup v.owner = some n :=
      fun n v hv => (h n v.owner).mp (by rw [hv]; rfl)
    refine ⟨fun n o => ?_, fun n n' v v' hv hv' ho => ?_, fun n v hv => ?_⟩
    · rw [← h n o, Option.map_eq_some_iff]
    · have hn := hback n v hv
      rw [ho, hback n' v' hv'] at hn
      exact (Option.some.inj hn).symm
    · rw [lookupByOwner, hback n v hv]
      exact hv

/-- A record that `insert_validated` takes brings no second name: its owner holds none, or
this one. -/
def FirstName (r : HandleRegistry) : Op → Prop
  | .insertValidated handle nowSecs => r.resolveConflict handle nowSecs ≠ .existingWins →
      ∀ n, r.ownerToHandle.lookup handle.owner = some n → n = handle.name
  | _ => True

variable {P}

/-- Dropping a handle that is there keeps the maps inverse. -/
theorem inverse_drop {r : HandleRegistry} (h : r.Inverse) {name : String} {handle : Handle}
    (hn : r.handles.lookup name = some handle) : (r.drop name handle.owner).Inverse :=
  HashMap.Inverse.erase h hn

/-- What has no holder after it is dropped. -/
theorem lookup_drop (r : HandleRegistry) (name : String) (owner : IdentityKey) :
    (r.drop name owner).handles.lookup name = none ∧
      (r.drop name owner).ownerToHandle.lookup owner = none :=
  ⟨AList.lookup_erase _ _, AList.lookup_erase _ _⟩

/-- Dropping leaves an owner without a handle without one. -/
theorem lookup_drop_of_none {r : HandleRegistry} {o : IdentityKey}
    (h : r.ownerToHandle.lookup o = none) (name : String) (owner : IdentityKey) :
    (r.drop name owner).ownerToHandle.lookup o = none := by
  rw [drop, HashMap.lookup_erase_eq, h, ite_self]

/-! ## Registration -/

/-- What a relation between the two maps must satisfy for the calls of the local identity and
the collection to keep it. -/
structure MapInvariant (I : HandleRegistry → Prop) : Prop where
  mapped : ∀ {r : HandleRegistry} {o n}, I r → r.ownerToHandle.lookup o = some n →
    ∃ h, r.handles.lookup n = some h ∧ h.owner = o
  drop : ∀ {r : HandleRegistry} {n h}, I r → r.handles.lookup n = some h → I (r.drop n h.owner)
  store : ∀ {r : HandleRegistry} {h : Handle}, I r → r.ownerToHandle.lookup h.owner = none →
    r.handles.lookup h.name = none → ∀ nowSecs, I (r.store h nowSecs)
  replace : ∀ {r : HandleRegistry} {n} {h h' : Handle}, I r → r.handles.lookup n = some h →
    h'.owner = h.owner → I { r with handles := r.handles.insert n h' }
  cooldowns : ∀ {r : HandleRegistry}, I r → ∀ c, I { r with cooldowns := c }

section MapInvariant

variable {I : HandleRegistry → Prop} (hI : MapInvariant I)

include hI

/-- After step 2 the owner holds no handle. -/
theorem triple_checkOneHandle (owner : IdentityKey) (nowSecs : UInt64) :
    Triple I (checkOneHandle owner nowSecs)
      (fun _ r => I r ∧ r.ownerToHandle.lookup owner = none) I := by
  refine triple_get (fun r hr => ?_)
  cases ho : r.ownerToHandle.lookup owner with
  | none => exact (triple_pure ()).known ⟨hr, ho⟩
  | some existing =>
    obtain ⟨h, hh, rfl⟩ := hI.mapped hr ho
    simp only [hh]
    split
    · exact triple_modify_known ⟨hI.drop hr hh, (lookup_drop r existing h.owner).2⟩
    · exact (triple_throw _).known hr

/-- After step 4 the name is free. -/
theorem triple_checkAvailable (name : String) (owner : IdentityKey) (nowSecs : UInt64) :
    Triple (fun r => I r ∧ r.ownerToHandle.lookup owner = none)
      (checkAvailable name nowSecs)
      (fun _ r => I r ∧ r.ownerToHandle.lookup owner = none ∧ r.handles.lookup name = none)
      I := by
  refine triple_get (fun r hr => ?_)
  cases hh : r.handles.lookup name with
  | none => exact (triple_pure ()).known ⟨hr.1, hr.2, hh⟩
  | some existing =>
    simp only
    split
    · exact triple_modify_known ⟨hI.drop hr.1 hh, lookup_drop_of_none hr.2 _ _,
        (lookup_drop r name existing.owner).1⟩
    · exact (triple_throw _).known hr.1

/-- Step 5 only touches the cooldowns. -/
theorem triple_checkCooldown (name : String) (owner : IdentityKey) (nowSecs : UInt64) :
    Triple (fun r => I r ∧ r.ownerToHandle.lookup owner = none ∧
        r.handles.lookup name = none) (checkCooldown name nowSecs)
      (fun _ r => I r ∧ r.ownerToHandle.lookup owner = none ∧ r.handles.lookup name = none)
      I := by
  refine triple_get (fun r hr => ?_)
  cases r.cooldowns.lookup name with
  | none => exact (triple_pure ()).known hr
  | some cooldownUntil =>
    simp only
    split
    · exact (triple_throw _).known hr.1
    · exact triple_modify_known ⟨hI.cooldowns hr.1 _, hr.2⟩

/-- **`register` keeps what the maps satisfy**, whether it succeeds or fails. -/
theorem triple_registerWithDifficulty (attempts : ℕ) (name : String)
    (identity : PseudonymIdentity) (difficulty : PowDifficulty) (nowSecs : UInt64) :
    Triple I (registerWithDifficulty P attempts name identity difficulty nowSecs)
      (fun _ => I) I := by
  refine triple_bind (triple_lift _ (fun _ h => h)) (fun _ => ?_)
  refine triple_bind (triple_checkOneHandle hI _ _) (fun _ => ?_)
  refine triple_get (fun r hr => ?_)
  refine triple_bind (triple_lift _ (fun s hs => by rw [hs]; exact hr.1)) (fun _ => ?_)
  refine triple_bind ((triple_checkAvailable hI name identity.identityKey nowSecs).known hr)
    (fun _ => ?_)
  refine triple_bind (triple_checkCooldown hI name identity.identityKey nowSecs) (fun _ => ?_)
  refine triple_bind (triple_lift _ (fun _ h => h.1)) (fun stamp => ?_)
  exact triple_bind (triple_modify (fun s hs => hI.store hs.1 hs.2.1 hs.2.2 nowSecs))
    (fun _ => triple_pure (Q := fun _ => I) _)

/-! ## The other calls -/

theorem triple_renew (attempts : ℕ) (name : String) (identity : PseudonymIdentity)
    (nowSecs : UInt64) :
    Triple I (renew P attempts name identity nowSecs) (fun _ => I) I := by
  refine triple_get (fun r hr => ?_)
  cases hh : r.handles.lookup name with
  | none => exact (triple_throw _).known hr
  | some handle =>
    simp only
    split
    · exact (triple_throw _).known hr
    · split
      · exact (triple_throw _).known hr
      · have hkeep : ∀ s, s = r → I s := by
          rintro s rfl
          exact hr
        refine triple_bind (triple_lift _ hkeep) (fun stamp => triple_modify_known ?_)
        exact hI.replace hr hh rfl

theorem triple_release (name : String) (identity : PseudonymIdentity) (nowSecs : UInt64) :
    Triple I (release name identity nowSecs) (fun _ => I) I := by
  refine triple_get (fun r hr => ?_)
  cases hh : r.handles.lookup name with
  | none => exact (triple_throw _).known hr
  | some handle =>
    simp only
    split
    · exact (triple_throw _).known hr
    · rename_i ho
      refine triple_modify_known ?_
      rw [← not_not.mp ho]
      exact hI.cooldowns (hI.drop hr hh) _

theorem gc_of_mapInvariant {r : HandleRegistry} (h : I r) (order : VisitOrder String)
    (nowSecs : UInt64) : I (r.gc order nowSecs) := by
  have hname : ∀ (r : HandleRegistry) (name : String), I r → I (r.gcName name) := by
    intro r name hr
    rw [gcName]
    split
    · rename_i handle hh
      exact hI.drop hr hh
    · exact hr
  exact hI.cooldowns (run_invariant_of_step hname h _) _

end MapInvariant

/-- A new handle under a free name, of an owner without one, keeps the maps inverse. -/
theorem inverse_store {r : HandleRegistry} (h : r.Inverse) {handle : Handle}
    (ho : r.ownerToHandle.lookup handle.owner = none) (hn : r.handles.lookup handle.name = none)
    (nowSecs : UInt64) : (r.store handle nowSecs).Inverse :=
  (HashMap.Inverse.insert_iff h hn handle).mpr ho

theorem mapInvariant_inverse : MapInvariant Inverse where
  mapped hr ho := Option.map_eq_some_iff.mp ((hr _ _).mpr ho)
  drop hr hn := inverse_drop hr hn
  store hr ho hn nowSecs := inverse_store hr ho hn nowSecs
  replace hr hn ho := HashMap.Inverse.replace hr hn ho
  cooldowns hr _ := hr

/-- What `overwrite` does to the two maps: the previous holder is dropped, then the handle
comes in as if the name had been free. -/
theorem inverse_overwrite_iff {r : HandleRegistry} (h : r.Inverse) (handle : Handle) :
    (r.overwrite handle).Inverse ↔
      ∀ n, r.ownerToHandle.lookup handle.owner = some n → n = handle.name := by
  cases hh : r.handles.lookup handle.name with
  | none =>
    simp only [overwrite, hh]
    refine (HashMap.Inverse.insert_iff h hh handle).trans ?_
    constructor
    · intro ho n hn
      rw [ho] at hn
      cases hn
    · intro hfirst
      rw [Option.eq_none_iff_forall_ne_some]
      intro n hn
      -- the owner would hold the name, which is free
      have hheld := (h n handle.owner).mpr hn
      rw [hfirst n hn, hh] at hheld
      cases hheld
  | some prev =>
    have hback : r.ownerToHandle.lookup prev.owner = some handle.name :=
      (h handle.name prev.owner).mp (by rw [hh]; rfl)
    have hiff := HashMap.Inverse.insert_iff (inverse_drop h hh)
      (lookup_drop r handle.name prev.owner).1 handle
    simp only [drop, HashMap.insert_erase_self] at hiff
    simp only [overwrite, hh]
    refine hiff.trans ?_
    rw [HashMap.lookup_erase_eq]
    by_cases ho : handle.owner = prev.owner
    · rw [if_pos ho, ho, hback]
      simp
    · rw [if_neg ho]
      constructor
      · intro hfree n hn
        rw [hfree] at hn
        cases hn
      · intro hfirst
        rw [Option.eq_none_iff_forall_ne_some]
        intro n hn
        have hheld := (h n handle.owner).mpr hn
        rw [hfirst n hn, hh] at hheld
        exact ho (Option.some.inj hheld).symm

/-- **A record is valid** when it passes the five checks. -/
theorem validate_eq_ok_iff {h : Handle} {now : UInt64} :
    validate P h now = .ok () ↔
      validateHandleFormat h.name = .ok () ∧ h.isExpiredAt now = false ∧
        h.expiresAt = h.registeredAt + handleTtlSecs ∧
        P.verifyHandleSignature h.name h.owner h.registeredAt h.signature = true ∧
        P.verifyHandlePow h.name h.owner h.registeredAt h.powProof
          (calculatePowDifficulty h.name) = .ok () := by
  unfold validate
  cases validateHandleFormat h.name with
  | error e => simp
  | ok u =>
    cases h.isExpiredAt now with
    | true => simp
    | false =>
      by_cases hexpiry : h.expiresAt = h.registeredAt + handleTtlSecs
      · cases P.verifyHandleSignature h.name h.owner h.registeredAt h.signature with
        | false => simp [hexpiry]
        | true =>
          cases P.verifyHandlePow h.name h.owner h.registeredAt h.powProof
              (calculatePowDifficulty h.name) with
          | error reason => simp [hexpiry]
          | ok u => simp [hexpiry]
      · simp [hexpiry]

/-- `insert_validated` writes unless the record there wins. -/
theorem insertValidated_snd (r : HandleRegistry) (handle : Handle) (nowSecs : UInt64) :
    (r.insertValidated handle nowSecs).2
      = if r.resolveConflict handle nowSecs = .existingWins then r else r.overwrite handle := by
  rw [insertValidated]
  cases hc : r.resolveConflict handle nowSecs with
  | existingWins => rfl
  | accept => rfl
  | incomingWins =>
    cases hh : r.handles.lookup handle.name with
    | some existing => rfl
    | none =>
      rw [resolveConflict, hh] at hc
      cases hc

/-- A call keeps the maps inverse exactly when it brings no second name. -/
theorem inverse_step_iff {r : HandleRegistry} (op : Op) (h : r.Inverse) :
    (r.step P op).Inverse ↔ r.FirstName op := by
  cases op with
  | register attempts name identity nowSecs =>
    exact iff_of_true
      ((triple_registerWithDifficulty mapInvariant_inverse _ _ _ _ _).exec_snd h) trivial
  | renew attempts name identity nowSecs =>
    exact iff_of_true ((triple_renew mapInvariant_inverse _ _ _ _).exec_snd h) trivial
  | release name identity nowSecs =>
    exact iff_of_true ((triple_release mapInvariant_inverse _ _ _).exec_snd h) trivial
  | gc order nowSecs =>
    exact iff_of_true (gc_of_mapInvariant mapInvariant_inverse h order nowSecs) trivial
  | insertValidated handle nowSecs =>
    rw [step, insertValidated_snd, FirstName]
    by_cases hc : r.resolveConflict handle nowSecs = .existingWins
    · rw [if_pos hc]
      exact iff_of_true h (fun hne => absurd hc hne)
    · rw [if_neg hc, inverse_overwrite_iff h]
      exact ⟨fun hf _ => hf, fun hf => hf hc⟩

/-- **When the registry stays consistent.**  In a run from the empty registry the two maps are
inverse to each other in every state exactly when every record that `insert_validated`
takes is of an owner who holds no other name. -/
theorem consistent_iff_meets (P : HandlePrimitives) (ops : List Op) :
    (∀ l₁ l₂, ops = l₁ ++ l₂ → (run (step P) new l₁).Consistent) ↔
      Meets (step P) FirstName new ops := by
  have hnew : new.Inverse := HashMap.inverse_empty
  simp only [consistent_iff]
  exact always_iff_meets (fun r op h => inverse_step_iff op h) hnew ops

/-! ## A second name -/

namespace Op

/-- The time of a call. -/
def nowSecs : Op → UInt64
  | .register _ _ _ nowSecs => nowSecs
  | .renew _ _ _ nowSecs => nowSecs
  | .release _ _ nowSecs => nowSecs
  | .insertValidated _ nowSecs => nowSecs
  | .gc _ nowSecs => nowSecs

/-- A record from the network has passed `validate`. -/
def Validated (P : HandlePrimitives) : Op → Prop
  | .insertValidated handle nowSecs => validate P handle nowSecs = .ok ()
  | _ => True

end Op

/-- An identity key for the examples. -/
def exampleOwner : IdentityKey := List.replicate 32 1

/-- A signature for the examples: the first bytes of the key and the message. -/
def exampleSign (key : IdentityKey) (message : List UInt8) : Vector UInt8 64 :=
  Vector.ofFn (fun i => (key ++ message).getD i 0)

/-- Primitives for the examples: every nonce solves every challenge. -/
def examplePrimitives : HandlePrimitives where
  powHash _ _ := List.replicate 32 0
  verifySignature key message signature := signature = exampleSign key message

/-- A record of the name and owner, as `register` makes it with these primitives. -/
def exampleRecord (name : String) (owner : IdentityKey) (registeredAt : UInt64) : Handle where
  name := name
  owner := owner
  registeredAt := registeredAt
  expiresAt := registeredAt + handleTtlSecs
  powProof :=
    ⟨buildPowChallenge name owner registeredAt, nonceOf 0, (calculatePowDifficulty name).bits⟩
  signature := exampleSign owner (buildSignatureMessage name owner registeredAt)

/-- Two valid records of one owner leave both names with that owner. -/
theorem second_name_breaks_maps :
    ¬ ∀ (P : HandlePrimitives) (ops l₁ l₂ : List Op), (∀ op ∈ ops, op.Validated P) →
      ops.Pairwise (fun a b => a.nowSecs ≤ b.nowSecs) → ops = l₁ ++ l₂ →
      (run (step P) new l₁).Consistent := by
  intro h
  have hc := h examplePrimitives
    [.insertValidated (exampleRecord "alice_one" exampleOwner 1704067200) 1704067300,
      .insertValidated (exampleRecord "alice_two" exampleOwner 1704067200) 1704067300]
    _ [] (by
      intro op hop
      rcases List.mem_cons.mp hop with rfl | hop
      · show validate _ _ _ = _
        decide +kernel
      · rw [List.mem_singleton.mp hop]
        show validate _ _ _ = _
        decide +kernel) (by decide) (List.append_nil _).symm
  have hsame : "alice_one" = "alice_two" :=
    hc.oneHandle _ _ (exampleRecord "alice_one" exampleOwner 1704067200)
      (exampleRecord "alice_two" exampleOwner 1704067200)
      (by decide +kernel) (by decide +kernel) rfl
  exact absurd hsame (by decide)

end HandleRegistry
