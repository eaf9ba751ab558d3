/-
# Renewed handles at other nodes

A handle is renewed by `HandleRegistry::renew` or, in its last week, by `handle_gc_loop`
(`ephemera-node/src/background.rs`).  The first keeps to the rules of a registration except
for the difficulty of the proof of work; the second only moves the expiry.  A node that
receives the record checks it with `validate`, which knows neither kind, and compares it
with the record it has by `resolve_conflict`, which prefers the older one.

`renewal_never_holds` follows an owner's registry from the registration on.
-/
import Ephemera.HandleRegistry

open GuardedRun StateExcept

/-! ## The automatic renewal -/

namespace HandleRegistry

/-- `seven_days`. -/
def sevenDays : UInt64 := 7 * 24 * 3600

/-- `ninety_days`. -/
def ninetyDays : UInt64 := 90 * 24 * 3600

/-- The own handle, if it is due: not expired by a second reading of the clock, and expiring
within seven days. -/
def dueForRenewal (r : HandleRegistry) (ourKey : IdentityKey) (now clock : UInt64) :
    Option Handle :=
  (r.lookupByOwner ourKey).filter
    (fun handle => !handle.isExpiredAt clock && handle.expiresAt ≤ now + sevenDays)

/-- The handle with the expiry that the automatic renewal gives it. -/
def extended (h : Handle) (now : UInt64) : Handle := { h with expiresAt := now + ninetyDays }

theorem extended_name (h : Handle) (now : UInt64) : (extended h now).name = h.name := by
  rw [extended]

theorem extended_owner (h : Handle) (now : UInt64) : (extended h now).owner = h.owner := by
  rw [extended]

theorem extended_registeredAt (h : Handle) (now : UInt64) :
    (extended h now).registeredAt = h.registeredAt := by
  rw [extended]

theorem extended_powProof (h : Handle) (now : UInt64) :
    (extended h now).powProof = h.powProof := by
  rw [extended]

/-- The automatic renewal. -/
def autoRenew (r : HandleRegistry) (ourKey : IdentityKey) (now clock : UInt64) : HandleRegistry :=
  match r.dueForRenewal ourKey now clock with
  | none => r
  | some handle =>
    match r.handles.lookup handle.name with
    | some h => { r with handles := r.handles.insert handle.name (extended h now) }
    | none => r

/-- One tick of `handle_gc_loop`; the key is there while the identity is unlocked. -/
def handleGcTick (r : HandleRegistry) (order : VisitOrder String) (keypair : Option IdentityKey)
    (now clock : UInt64) : HandleRegistry :=
  let r := r.gc order now
  match keypair with
  | some ourKey => r.autoRenew ourKey now clock
  | none => r

/-! ## Renewals of one handle -/

/-- What may renew the owner's handle. -/
inductive Renewal where
  | renew (attempts : ℕ) (now : UInt64)
  | autoRenew (order : VisitOrder String) (now clock : UInt64)

/-- The time of a renewal. -/
def Renewal.now : Renewal → UInt64
  | .renew _ now => now
  | .autoRenew _ now _ => now

/-- A renewed record, with the one it follows and the time it is published. -/
structure Renewed where
  older : Handle
  newer : Handle
  publishedAt : UInt64

variable (P : HandlePrimitives) (name : String) (identity : PseudonymIdentity)

/-- The owner's registry after a renewal. -/
def renewalStep (r : HandleRegistry) : Renewal → HandleRegistry
  | .renew attempts now => (exec (renew P attempts name identity now) r).2
  | .autoRenew order now clock => r.handleGcTick order (some identity.identityKey) now clock

/-- The record that a renewal writes, if it does. -/
def renewedBy (r : HandleRegistry) : Renewal → Option Renewed
  | .renew attempts now =>
    match exec (renew P attempts name identity now) r with
    | (.ok (), r') =>
      (r.handles.lookup name).bind fun older =>
        (r'.handles.lookup name).map fun newer => ⟨older, newer, now⟩
    | (.error _, _) => none
  | .autoRenew order now clock =>
    let r := r.gc order now
    (r.dueForRenewal identity.identityKey now clock).bind fun handle =>
      (r.handles.lookup handle.name).map fun h => ⟨h, extended h now, now⟩

/-- The records that a sequence of renewals writes. -/
def renewals (r : HandleRegistry) : List Renewal → List Renewed
  | [] => []
  | op :: ops =>
    (renewedBy P name identity r op).toList ++
      renewals (renewalStep P name identity r op) ops

/-- What a renewed record should be to other nodes from its publication on: valid until it
expires, preferred to the record it follows, and not displaced by a record of the name
that another owner registered after the original registration. -/
structure HoldsElsewhere (P : HandlePrimitives) (original : Handle) (p : Renewed) : Prop where
  valid : ∀ now, p.publishedAt ≤ now → p.newer.isExpiredAt now = false →
    validate P p.newer now = .ok ()
  accepted : ∀ (r : HandleRegistry) now, p.publishedAt ≤ now →
    r.handles.lookup p.newer.name = some p.older →
    (r.insertValidated p.newer now).1 ≠ .rejected
  kept : ∀ (r : HandleRegistry) now rival, p.publishedAt ≤ now →
    r.handles.lookup p.newer.name = some p.newer → rival.name = p.newer.name →
    rival.owner ≠ p.newer.owner → original.registeredAt < rival.registeredAt →
    (r.insertValidated rival now).1 = .rejected

/-! ## What the collection leaves -/

variable {P} {name} {identity} {r r' : HandleRegistry}

/-- What is left after some names are collected was there before, under another name. -/
theorem lookup_foldl_gcName {l : List String} {n : String} {h : Handle}
    (hl : (l.foldl gcName r).handles.lookup n = some h) : r.handles.lookup n = some h ∧ n ∉ l := by
  induction l generalizing r with
  | nil => exact ⟨hl, List.not_mem_nil⟩
  | cons a l ih =>
    obtain ⟨hn, hnl⟩ := ih (r := r.gcName a) hl
    rw [gcName] at hn
    split at hn
    · rw [drop, HashMap.lookup_erase_eq] at hn
      split at hn
      · cases hn
      · rename_i hne
        exact ⟨hn, List.not_mem_cons_of_ne_of_not_mem hne hnl⟩
    · rename_i hnone
      refine ⟨hn, List.not_mem_cons_of_ne_of_not_mem ?_ hnl⟩
      rintro rfl
      rw [hnone] at hn
      cases hn

/-- A handle that `gc` leaves has not expired. -/
theorem lookup_gc {order : VisitOrder String} {now : UInt64} {n : String} {h : Handle}
    (hl : (r.gc order now).handles.lookup n = some h) :
    r.handles.lookup n = some h ∧ h.isExpiredAt now = false := by
  obtain ⟨hn, hnl⟩ := lookup_foldl_gcName hl
  refine ⟨hn, ?_⟩
  rw [List.mem_filter, HashMap.mem_keysIn, HashMap.mem_iff_lookup] at hnl
  simpa [hn] using hnl

/-- Collection only removes reverse mappings. -/
theorem ownerToHandle_gc {order : VisitOrder String} {now : UInt64} {o : IdentityKey} {n : String}
    (hl : (r.gc order now).ownerToHandle.lookup o = some n) :
    r.ownerToHandle.lookup o = some n := by
  have hfold : ∀ (l : List String) (r : HandleRegistry),
      (l.foldl gcName r).ownerToHandle.lookup o = some n → r.ownerToHandle.lookup o = some n := by
    intro l
    induction l with
    | nil => exact fun _ h => h
    | cons a l ih =>
      intro r h
      have hstep := ih (r.gcName a) h
      rw [gcName] at hstep
      split at hstep
      · rw [drop, HashMap.lookup_erase_eq] at hstep
        split at hstep
        · cases hstep
        · exact hstep
      · exact hstep
  exact hfold _ r hl

/-! ## What registration and renewal write -/

/-- A registration that succeeds is of a valid name, and stores the handle it returns. -/
theorem of_registerWithDifficulty {attempts : ℕ} {difficulty : PowDifficulty} {now : UInt64}
    {h : Handle}
    (hreg : exec (registerWithDifficulty P attempts name identity difficulty now) r = (.ok h, r')) :
    validateHandleFormat name = .ok () ∧ h.name = name ∧ h.owner = identity.identityKey ∧
      h.registeredAt = now ∧ h.expiresAt = now + handleTtlSecs ∧
      r'.handles.lookup h.name = some h ∧ r'.ownerToHandle.lookup h.owner = some h.name := by
  have htriple : Triple (fun _ => True)
      (registerWithDifficulty P attempts name identity difficulty now)
      (fun h r' => h.name = name ∧ h.owner = identity.identityKey ∧
        h.registeredAt = now ∧ h.expiresAt = now + handleTtlSecs ∧
        r'.handles.lookup h.name = some h ∧ r'.ownerToHandle.lookup h.owner = some h.name)
      (fun _ => True) := by
    refine triple_bind (triple_trivial _) (fun _ => triple_bind (triple_trivial _) (fun _ => ?_))
    refine triple_get (fun s _ => Triple.known (P := fun _ => True) ?_ trivial)
    refine triple_bind (triple_trivial _) (fun _ => triple_bind (triple_trivial _) (fun _ => ?_))
    refine triple_bind (triple_trivial _) (fun _ => triple_bind (triple_trivial _) (fun _ => ?_))
    refine triple_bind (triple_modify (fun s _ => ?_)) (fun _ => triple_pure _)
    exact ⟨rfl, rfl, rfl, rfl, AList.lookup_insert _, AList.lookup_insert _⟩
  have hformat : validateHandleFormat name = .ok () := by
    rw [registerWithDifficulty, exec_bind, exec_lift, checkFormat] at hreg
    cases hvalid : validateHandleFormat name with
    | error e =>
      rw [hvalid] at hreg
      cases hreg
    | ok u => rfl
  exact ⟨hformat, (htriple r trivial).1 h r' hreg⟩

theorem of_register {attempts : ℕ} {now : UInt64} {h : Handle}
    (hreg : exec (register P attempts name identity now) r = (.ok h, r')) :
    h.name = toAsciiLowercase name ∧ h.owner = identity.identityKey ∧ h.registeredAt = now ∧
      h.expiresAt = now + handleTtlSecs ∧ r'.handles.lookup h.name = some h ∧
      r'.ownerToHandle.lookup h.owner = some h.name :=
  (of_registerWithDifficulty hreg).2

/-- A renewal that succeeds rewrites the unexpired handle of its owner, with a stamp of the
renewal difficulty; one that fails writes nothing. -/
theorem triple_renew_spec (attempts : ℕ) (now : UInt64) :
    Triple (fun s => s = r) (renew P attempts name identity now)
      (fun _ r' => ∃ older stamp, r.handles.lookup name = some older ∧
        older.owner = identity.identityKey ∧ older.isExpiredAt now = false ∧
        stamp.difficulty = PowDifficulty.renewal.bits ∧
        r' = { r with handles := r.handles.insert name (renewed older stamp
          (identity.sign (buildSignatureMessage name identity.identityKey now)) now) })
      (fun r' => r' = r) := by
  refine triple_get (fun s hs => ?_)
  subst hs
  cases hl : s.handles.lookup name with
  | none => exact triple_throw _
  | some older =>
    simp only
    split
    · exact triple_throw _
    · rename_i ho
      split
      · exact triple_throw _
      · rename_i hexp
        refine triple_bind (triple_lift_eq _ (fun _ h => h)) (fun stamp => triple_modify ?_)
        rintro s' ⟨hstamp, rfl⟩
        rw [generate] at hstamp
        split at hstamp
        · rename_i found hfound
          cases hstamp
          exact ⟨older, _, rfl, not_not.mp ho, by simpa using hexp,
            (HandlePrimitives.of_searchNonce hfound).2.1, rfl⟩
        · cases hstamp

/-! ## Why a renewed record is refused -/

/-- A record whose proof of work is one of a renewal is not valid. -/
theorem validate_ne_ok_of_difficulty {h : Handle}
    (hd : h.powProof.difficulty = PowDifficulty.renewal.bits) (now : UInt64) :
    validate P h now ≠ .ok () := by
  have hpow : P.verifyHandlePow h.name h.owner h.registeredAt h.powProof
      (calculatePowDifficulty h.name) ≠ .ok () :=
    HandlePrimitives.verifyPow_of_lt
      (hd ▸ HandlePrimitives.renewal_lt_calculatePowDifficulty h.name) _
  exact fun hok => hpow (validate_eq_ok_iff.mp hok).2.2.2.2

/-- A record whose expiry does not follow from its registration is not valid. -/
theorem validate_ne_ok_of_expiresAt {h : Handle} (he : h.expiresAt ≠ h.registeredAt + handleTtlSecs)
    (now : UInt64) : validate P h now ≠ .ok () :=
  fun hok => he (validate_eq_ok_iff.mp hok).2.2.1

/-- An unexpired record is not replaced by a later one of its own owner. -/
theorem insertValidated_rejects {older newer : Handle} {now : UInt64}
    (hl : r.handles.lookup newer.name = some older) (hexp : older.isExpiredAt now = false)
    (ho : newer.owner = older.owner) (hle : older.registeredAt ≤ newer.registeredAt) :
    r.insertValidated newer now = (.rejected, r) := by
  have hc : r.resolveConflict newer now = .existingWins := by
    rw [resolveConflict, hl]
    simp only [hexp, Bool.false_eq_true, if_false]
    rw [if_neg (UInt64.not_lt.mpr hle), ho, if_neg (List.lt_irrefl _), ite_self]
  rw [insertValidated, hc]

/-- An expiry that is ninety days from another time. -/
theorem expiresAt_extended_ne (h : Handle) {t now : UInt64} (hne : t ≠ now) :
    (extended h now).expiresAt ≠ t + handleTtlSecs := by
  have hninety : ninetyDays = handleTtlSecs := by decide
  rw [extended, hninety, ne_eq, UInt64.add_left_inj]
  exact Ne.symm hne

/-- The week before its expiry does not begin when a handle is registered. -/
theorem ne_of_due {t now : UInt64} (hexp : now < t + handleTtlSecs)
    (hdue : t + handleTtlSecs ≤ now + sevenDays) : now ≠ t := by
  rintro rfl
  rw [UInt64.lt_iff_toNat_lt] at hexp
  rw [UInt64.le_iff_toNat_le] at hdue
  rw [UInt64.toNat_add] at hexp hdue
  rw [UInt64.toNat_add] at hdue
  have httl : handleTtlSecs.toNat = 7776000 := rfl
  have hweek : sevenDays.toNat = 604800 := rfl
  omega

/-! ## The owner's registry -/

/-- What a record that a renewal writes is to other nodes. -/
structure Refused (P : HandlePrimitives) (p : Renewed) : Prop where
  invalid : ∀ now, validate P p.newer now ≠ .ok ()
  sameName : p.newer.name = p.older.name
  sameOwner : p.newer.owner = p.older.owner
  notEarlier : p.older.registeredAt ≤ p.newer.registeredAt
  unexpired : p.older.isExpiredAt p.publishedAt = false

/-- The owner's registry at a time `last` after the registration at `t₀`: the handle has a
renewal stamp, or the time of its registration and, until a tick has extended it, its expiry. -/
structure Held (name : String) (owner : IdentityKey) (t₀ last : UInt64) (r : HandleRegistry) :
    Prop where
  le : t₀ ≤ last
  sameName : ∀ h, r.handles.lookup name = some h → h.name = name
  sameOwner : ∀ h, r.handles.lookup name = some h → h.owner = owner
  registeredAt : ∀ h, r.handles.lookup name = some h → h.registeredAt ≤ last
  proof : ∀ h, r.handles.lookup name = some h →
    h.powProof.difficulty = PowDifficulty.renewal.bits ∨
      h.registeredAt = t₀ ∧ (h.expiresAt = t₀ + handleTtlSecs ∨ t₀ < last)
  back : ∀ n, r.ownerToHandle.lookup owner = some n → n = name

variable {t₀ last now : UInt64}

/-- Time passes. -/
theorem Held.later {owner : IdentityKey} (h : Held name owner t₀ last r) (hle : last ≤ now) :
    Held name owner t₀ now r where
  le := UInt64.le_trans h.le hle
  sameName := h.sameName
  sameOwner := h.sameOwner
  registeredAt g hg := UInt64.le_trans (h.registeredAt g hg) hle
  proof g hg := by
    rcases h.proof g hg with hd | ⟨hreg, hexp | hlt⟩
    · exact Or.inl hd
    · exact Or.inr ⟨hreg, Or.inl hexp⟩
    · exact Or.inr ⟨hreg, Or.inr (UInt64.lt_of_lt_of_le hlt hle)⟩
  back := h.back

/-- Collection. -/
theorem Held.gc {owner : IdentityKey} (h : Held name owner t₀ last r) (order : VisitOrder String)
    (now : UInt64) : Held name owner t₀ last (r.gc order now) where
  le := h.le
  sameName g hg := h.sameName g (lookup_gc hg).1
  sameOwner g hg := h.sameOwner g (lookup_gc hg).1
  registeredAt g hg := h.registeredAt g (lookup_gc hg).1
  proof g hg := h.proof g (lookup_gc hg).1
  back n hn := h.back n (ownerToHandle_gc hn)

/-- A new record under the name. -/
theorem Held.insert {owner : IdentityKey} (h : Held name owner t₀ last r) {g : Handle}
    (hname : g.name = name) (howner : g.owner = owner) (hreg : g.registeredAt ≤ last)
    (hproof : g.powProof.difficulty = PowDifficulty.renewal.bits ∨
      g.registeredAt = t₀ ∧ (g.expiresAt = t₀ + handleTtlSecs ∨ t₀ < last)) :
    Held name owner t₀ last { r with handles := r.handles.insert name g } := by
  have hlookup : ∀ g', (r.handles.insert name g).lookup name = some g' → g' = g := by
    intro g' hg'
    rw [AList.lookup_insert] at hg'
    exact (Option.some.inj hg').symm
  exact ⟨h.le, fun g' hg' => hlookup g' hg' ▸ hname, fun g' hg' => hlookup g' hg' ▸ howner,
    fun g' hg' => hlookup g' hg' ▸ hreg, fun g' hg' => hlookup g' hg' ▸ hproof, h.back⟩

/-- One call of `renew`. -/
theorem Held.renew (h : Held name identity.identityKey t₀ last r) (attempts : ℕ)
    (hle : last ≤ now) :
    (∀ p ∈ renewedBy P name identity r (.renew attempts now), Refused P p) ∧
      Held name identity.identityKey t₀ now
        (renewalStep P name identity r (.renew attempts now)) := by
  have hlater := h.later hle
  rw [renewedBy, renewalStep]
  have hspec := @triple_renew_spec P name identity r attempts now r rfl
  cases hr : exec (HandleRegistry.renew P attempts name identity now) r with
  | mk res r' =>
    cases res with
    | error e =>
      rw [hspec.2 e r' hr]
      exact ⟨nofun, hlater⟩
    | ok u =>
      obtain ⟨older, stamp, hl, howner, hexp, hstamp, rfl⟩ := hspec.1 u r' hr
      have hnew : Held name identity.identityKey t₀ now
          { r with handles := r.handles.insert name (renewed older stamp
            (identity.sign (buildSignatureMessage name identity.identityKey now)) now) } :=
        hlater.insert (h.sameName older hl) howner (UInt64.le_refl now) (Or.inl hstamp)
      refine ⟨fun p hp => ?_, hnew⟩
      simp only [hl, AList.lookup_insert, Option.bind_some, Option.map_some, Option.mem_def,
        Option.some.injEq] at hp
      subst hp
      exact ⟨validate_ne_ok_of_difficulty hstamp, rfl, rfl, hlater.registeredAt older hl, hexp⟩

/-- The handle that is due is the one under the name. -/
theorem Held.due {owner : IdentityKey} (h : Held name owner t₀ last r) {clock : UInt64}
    {handle : Handle} (hdue : r.dueForRenewal owner now clock = some handle) :
    r.handles.lookup name = some handle ∧ handle.expiresAt ≤ now + sevenDays := by
  rw [dueForRenewal, Option.filter_eq_some_iff, lookupByOwner, Option.bind_eq_some_iff] at hdue
  obtain ⟨⟨n, hn, hl⟩, hdue⟩ := hdue
  rw [h.back n hn] at hl
  rw [Bool.and_eq_true, decide_eq_true_eq] at hdue
  exact ⟨hl, hdue.2⟩

/-- A handle that is due has a renewal stamp, or was registered before `now`. -/
theorem Held.late_of_due {owner : IdentityKey} (h : Held name owner t₀ now r) {handle : Handle}
    (hl : r.handles.lookup name = some handle) (hexp : handle.isExpiredAt now = false)
    (hdue : handle.expiresAt ≤ now + sevenDays) :
    handle.powProof.difficulty = PowDifficulty.renewal.bits ∨
      handle.registeredAt = t₀ ∧ t₀ < now := by
  rcases h.proof handle hl with hstamp | ⟨hreg, hexpiry | hlt⟩
  · exact Or.inl hstamp
  · have hnow : now < t₀ + handleTtlSecs := by
      rw [← hexpiry]
      exact UInt64.not_le.mp (by simpa [Handle.isExpiredAt] using hexp)
    rw [hexpiry] at hdue
    have hne := ne_of_due hnow hdue
    exact Or.inr ⟨hreg, UInt64.lt_of_le_of_ne h.le (Ne.symm hne)⟩
  · exact Or.inr ⟨hreg, hlt⟩

/-- The record of such a handle is not valid once a tick has moved its expiry. -/
theorem validate_extended_ne_ok {handle : Handle}
    (hlate : handle.powProof.difficulty = PowDifficulty.renewal.bits ∨
      handle.registeredAt = t₀ ∧ t₀ < now) (time : UInt64) :
    validate P (extended handle now) time ≠ .ok () := by
  rcases hlate with hstamp | ⟨hreg, hlt⟩
  · refine validate_ne_ok_of_difficulty ?_ time
    rw [extended_powProof]
    exact hstamp
  · refine validate_ne_ok_of_expiresAt ?_ time
    rw [extended_registeredAt, hreg]
    exact expiresAt_extended_ne handle (UInt64.ne_of_lt hlt)

/-- One tick of the loop. -/
theorem Held.autoRenew (h : Held name identity.identityKey t₀ last r) (order : VisitOrder String)
    (clock : UInt64) (hle : last ≤ now) :
    (∀ p ∈ renewedBy P name identity r (.autoRenew order now clock), Refused P p) ∧
      Held name identity.identityKey t₀ now
        (renewalStep P name identity r (.autoRenew order now clock)) := by
  have hgc := (h.gc order now).later hle
  rw [renewedBy, renewalStep, handleGcTick, HandleRegistry.autoRenew]
  cases hd : (r.gc order now).dueForRenewal identity.identityKey now clock with
  | none => exact ⟨nofun, hgc⟩
  | some handle =>
    obtain ⟨hl, hdue⟩ := hgc.due hd
    have hname := hgc.sameName handle hl
    have hexp := (lookup_gc hl).2
    have hlate := hgc.late_of_due hl hexp hdue
    have hl' : (r.gc order now).handles.lookup handle.name = some handle := by rw [hname, hl]
    simp only [hl']
    refine ⟨fun p hp => ?_, ?_⟩
    · rw [Option.bind_some, hl', Option.map_some, Option.mem_def, Option.some.injEq] at hp
      subst hp
      refine ⟨validate_extended_ne_ok hlate, extended_name _ _, extended_owner _ _, ?_, hexp⟩
      rw [extended_registeredAt]
      exact UInt64.le_refl _
    · rw [hname]
      refine hgc.insert ?_ ?_ ?_ ?_
      · rw [extended_name, hname]
      · rw [extended_owner, hgc.sameOwner handle hl]
      · rw [extended_registeredAt]
        exact hgc.registeredAt handle hl
      rw [extended_powProof, extended_registeredAt]
      rcases hlate with hstamp | ⟨hreg, hlt⟩
      · exact Or.inl hstamp
      · exact Or.inr ⟨hreg, Or.inr hlt⟩

/-- All renewals of a sequence. -/
theorem Held.refused {ops : List Renewal} (h : Held name identity.identityKey t₀ last r)
    (htimes : (last :: ops.map Renewal.now).Pairwise (· ≤ ·)) :
    ∀ p ∈ renewals P name identity r ops, Refused P p := by
  induction ops generalizing r last with
  | nil => exact fun p hp => absurd hp List.not_mem_nil
  | cons op ops ih =>
    rw [List.map_cons, List.pairwise_cons] at htimes
    have hle : last ≤ op.now := htimes.1 op.now List.mem_cons_self
    have hstep : (∀ p ∈ renewedBy P name identity r op, Refused P p) ∧
        Held name identity.identityKey t₀ op.now (renewalStep P name identity r op) := by
      cases op with
      | renew attempts now => exact h.renew attempts hle
      | autoRenew order now clock => exact h.autoRenew order clock hle
    intro p hp
    rw [renewals, List.mem_append, Option.mem_toList] at hp
    rcases hp with hp | hp
    · exact hstep.1 p hp
    · exact ih hstep.2 htimes.2 p hp

/-- A refused record holds nowhere. -/
theorem Refused.not_holds {original : Handle} {p : Renewed} (h : Refused P p) :
    ¬ HoldsElsewhere P original p := by
  intro hp
  have hl : (new.overwrite p.older).handles.lookup p.newer.name = some p.older := by
    rw [h.sameName, overwrite]
    exact AList.lookup_insert _
  refine hp.accepted (new.overwrite p.older) p.publishedAt (UInt64.le_refl _) hl ?_
  rw [insertValidated_rejects hl h.unexpired h.sameOwner h.notEarlier]

/-- **No renewal reaches another node.**  After a registration that succeeds, no record that a
later renewal writes is valid to another node at any time, and a node that still has the
record it follows unexpired rejects it; so none holds elsewhere. -/
theorem renewal_never_holds (P : HandlePrimitives) (r r' : HandleRegistry) (attempts : ℕ)
    (name : String) (identity : PseudonymIdentity) (t₀ : UInt64) (h : Handle)
    (ops : List Renewal) (hreg : exec (register P attempts name identity t₀) r = (.ok h, r'))
    (htimes : (t₀ :: ops.map Renewal.now).Pairwise (· ≤ ·)) :
    ∀ p ∈ renewals P h.name identity r' ops,
      (∀ now, validate P p.newer now ≠ .ok ()) ∧
      (∀ (s : HandleRegistry) now, s.handles.lookup p.newer.name = some p.older →
        p.older.isExpiredAt now = false →
        s.insertValidated p.newer now = (.rejected, s)) ∧
      ¬ HoldsElsewhere P h p := by
  obtain ⟨_, howner, hat, hexpiry, hl, hback⟩ := of_register hreg
  have hlookup : ∀ g, r'.handles.lookup h.name = some g → g = h := by
    intro g hg
    rw [hl] at hg
    exact (Option.some.inj hg).symm
  have hheld : Held h.name identity.identityKey t₀ t₀ r' := by
    refine ⟨UInt64.le_refl _, fun g hg => hlookup g hg ▸ rfl, fun g hg => hlookup g hg ▸ howner,
      fun g hg => ?_, fun g hg => ?_, fun n hn => ?_⟩
    · rw [hlookup g hg, hat]
      exact UInt64.le_refl _
    · rw [hlookup g hg]
      exact Or.inr ⟨hat, Or.inl hexpiry⟩
    · rw [← howner, hback] at hn
      exact (Option.some.inj hn).symm
  intro p hp
  have hp := hheld.refused htimes p hp
  exact ⟨hp.invalid,
    fun s now hs hexp => insertValidated_rejects hs hexp hp.sameOwner hp.notEarlier,
    hp.not_holds⟩

/-! ## A renewal after eighty days -/

/-- An identity for the examples. -/
def exampleIdentity : PseudonymIdentity := ⟨exampleOwner, exampleSign exampleOwner⟩

/-- The owner's registry after the registration. -/
def exampleRegistry : HandleRegistry :=
  (exec (register examplePrimitives 1 "alice_one" exampleIdentity 1704067200) new).2

/-- The record that `renew` writes eighty days later. -/
def exampleRenewed : Renewed where
  older := exampleRecord "alice_one" exampleOwner 1704067200
  newer := renewed (exampleRecord "alice_one" exampleOwner 1704067200)
    ⟨buildPowChallenge "alice_one" exampleOwner 1710979200, nonceOf 0,
      PowDifficulty.renewal.bits⟩
    (exampleSign exampleOwner (buildSignatureMessage "alice_one" exampleOwner 1710979200))
    1710979200
  publishedAt := 1710979200

theorem register_example :
    exec (register examplePrimitives 1 "alice_one" exampleIdentity 1704067200) new
      = (.ok (exampleRecord "alice_one" exampleOwner 1704067200), exampleRegistry) := by
  with_unfolding_all rfl

theorem renewals_example :
    renewals examplePrimitives "alice_one" exampleIdentity exampleRegistry [.renew 1 1710979200]
      = [exampleRenewed] := by
  with_unfolding_all rfl

/-- The renewed record is not valid to the others. -/
theorem renewed_record_not_valid :
    ¬ ∀ (P : HandlePrimitives) (r r' : HandleRegistry) (attempts : ℕ) (name : String)
        (identity : PseudonymIdentity) (t₀ : UInt64) (h : Handle) (ops : List Renewal),
      exec (register P attempts name identity t₀) r = (.ok h, r') →
      (t₀ :: ops.map Renewal.now).Pairwise (· ≤ ·) →
      ∀ p ∈ renewals P h.name identity r' ops, HoldsElsewhere P h p := by
  intro h
  have hholds := h _ _ _ _ _ _ _ _ [.renew 1 1710979200] register_example (by decide)
    exampleRenewed (renewals_example ▸ List.mem_singleton_self _)
  have hvalid := hholds.valid 1710979200 (by decide) (by decide +kernel)
  exact absurd hvalid (by decide +kernel)

theorem renewal_never_holds_example :
    ∃ p ∈ renewals examplePrimitives "alice_one" exampleIdentity exampleRegistry
        [.renew 1 1710979200],
      ¬ HoldsElsewhere examplePrimitives (exampleRecord "alice_one" exampleOwner 1704067200) p :=
  ⟨exampleRenewed, renewals_example ▸ List.mem_singleton_self _,
    (renewal_never_holds examplePrimitives new exampleRegistry 1 "alice_one" exampleIdentity
      1704067200 (exampleRecord "alice_one" exampleOwner 1704067200) [.renew 1 1710979200]
      register_example (by decide) exampleRenewed
      (renewals_example ▸ List.mem_singleton_self _)).2.2⟩

end HandleRegistry
