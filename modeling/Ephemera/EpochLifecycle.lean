/-
# Epoch keys over the life of a node

The services hold one `EpochKeyManager` behind a lock.  `init_epoch_key_manager` puts a
new one in its place; `epoch_rotation_loop` calls it on every tick, meaning to do so "if
not yet done", and it does nothing only while the identity is locked.  Locking the
identity leaves the manager.

So what a manager has destroyed lasts until the next tick with an unlocked identity.
`shredding_lasts_iff` is the exact condition on a run under which nothing is lost.
-/
import Ephemera.EpochKeys

open GuardedRun

/-- The parts of the services that the epoch keys depend on: the master secret, which is
there while the identity is unlocked, and the manager. -/
structure EpochServices where
  masterSecret : Option (List UInt8)
  epochKeyManager : Option EpochKeyManager

/-- What happens to them. -/
inductive EpochServicesOp where
  /-- The identity is created, imported or unlocked. -/
  | unlock (master : List UInt8)
  | lock
  | initEpochKeyManager
  /-- A tick of `epoch_rotation_loop`, with its readings of the clock. -/
  | epochRotationTick (rotation destruction : VisitOrder UInt64)
      (clock createdAt nowSecs : UInt64)
  /-- `PostService::create` encrypts under the current key. -/
  | createPost (clock createdAt : UInt64)

namespace EpochServices

variable (H : Hkdf)

/-- The services of a node that has just been started. -/
def new : EpochServices := ⟨none, none⟩

/-- `init_epoch_key_manager`. -/
def initEpochKeyManager (s : EpochServices) : Except String Unit × EpochServices :=
  match s.masterSecret with
  | none => (.error "identity is locked; create or unlock first", s)
  | some master => (.ok (), { s with epochKeyManager := some (.new master) })

/-- One tick of `epoch_rotation_loop`. -/
def epochRotationTick (s : EpochServices) (rotation destruction : VisitOrder UInt64)
    (clock createdAt nowSecs : UInt64) : EpochServices :=
  let s := s.initEpochKeyManager.2
  match s.epochKeyManager with
  | none => s
  | some ekm =>
    let ekm := (ekm.rotate H rotation clock createdAt).2
    { s with epochKeyManager := some (ekm.destroyExpiredKeysAt destruction nowSecs).2 }

/-- The services after an event. -/
def step (s : EpochServices) : EpochServicesOp → EpochServices
  | .unlock master => { s with masterSecret := some master }
  | .lock => { s with masterSecret := none }
  | .initEpochKeyManager => s.initEpochKeyManager.2
  | .epochRotationTick rotation destruction clock createdAt nowSecs =>
    s.epochRotationTick H rotation destruction clock createdAt nowSecs
  | .createPost clock createdAt =>
    { s with
      epochKeyManager := s.epochKeyManager.map
        (fun ekm => (ekm.currentEpochKey H clock createdAt).2) }

/-- The destroyed epochs that the services see. -/
def destroyed (s : EpochServices) : List UInt64 :=
  (s.epochKeyManager.map EpochKeyManager.destroyedEpochs).getD []

/-- Some calls on the manager in place return a key of `e`. -/
def ReturnsKey (s : EpochServices) (e : UInt64) : Prop :=
  ∃ ekm, s.epochKeyManager = some ekm ∧ ∃ ops, ∃ r ∈ ekm.allHandedOut H ops, r.1 = e

/-- The event does not put a new manager in the place of one that has destroyed epochs;
but a tick may, if it destroys the same epochs again: that can only be the epoch of its
own first reading of the clock, when the second is over thirty epochs later. -/
def Keeps (s : EpochServices) : EpochServicesOp → Prop
  | .initEpochKeyManager => s.masterSecret ≠ none → s.destroyed = []
  | .epochRotationTick _ _ clock _ nowSecs => s.masterSecret ≠ none → ∀ e ∈ s.destroyed,
      e = epochIdForTimestamp clock ∧ EpochKeyManager.IsOld nowSecs e
  | _ => True

/-! ## What the events keep -/

variable {H} {s : EpochServices}

/-- The invariant: the manager in place satisfies its own. -/
def Sound (H : Hkdf) (s : EpochServices) : Prop :=
  ∀ ekm, s.epochKeyManager = some ekm → ekm.Sound H

theorem sound_new : Sound H new := fun ekm h => by cases h

theorem sound_initEpochKeyManager (hs : Sound H s) : Sound H s.initEpochKeyManager.2 := by
  rw [initEpochKeyManager]
  split
  · exact hs
  · intro ekm hekm
    cases hekm
    exact EpochKeyManager.sound_new _

/-- The manager after a tick, when there was one before its calls. -/
theorem sound_rotate_destroy {ekm : EpochKeyManager} (h : ekm.Sound H)
    (rotation destruction : VisitOrder UInt64) (clock createdAt nowSecs : UInt64) :
    ((ekm.rotate H rotation clock createdAt).2.destroyExpiredKeysAt destruction
      nowSecs).2.Sound H :=
  EpochKeyManager.sound_run h [.rotate rotation clock createdAt,
    .destroyExpiredKeysAt destruction nowSecs]

/-- Every event keeps the invariant. -/
theorem sound_step (hs : Sound H s) (op : EpochServicesOp) : Sound H (s.step H op) := by
  cases op with
  | unlock master => exact hs
  | lock => exact hs
  | initEpochKeyManager => exact sound_initEpochKeyManager hs
  | epochRotationTick rotation destruction clock createdAt nowSecs =>
    have hinit := sound_initEpochKeyManager hs
    rw [step, epochRotationTick]
    simp only
    split
    · exact hinit
    · rename_i ekm hekm
      intro ekm' hekm'
      cases hekm'
      exact sound_rotate_destroy (hinit ekm hekm) _ _ _ _ _
  | createPost clock createdAt =>
    intro ekm' hekm'
    obtain ⟨ekm, hekm, rfl⟩ := Option.map_eq_some_iff.mp hekm'
    exact (hs ekm hekm).change (EpochKeyManager.change_step (.currentEpochKey clock createdAt))

theorem sound_run (ops : List EpochServicesOp) : Sound H (run (step H) new ops) := by
  have hstep : ∀ (s : EpochServices) (op : EpochServicesOp), Sound H s → Sound H (s.step H op) :=
    fun s op hs => sound_step hs op
  exact run_invariant_of_step hstep sound_new ops

/-! ## What is lost -/

/-- An initialisation while the identity is unlocked loses the list. -/
theorem destroyed_initEpochKeyManager {master : List UInt8} (h : s.masterSecret = some master) :
    s.initEpochKeyManager.2.destroyed = [] := by
  rw [initEpochKeyManager, h]
  rfl

/-- A tick while the identity is unlocked leaves at most the epoch of its own first reading
of the clock on the list. -/
theorem mem_destroyed_tick {master : List UInt8} (h : s.masterSecret = some master)
    {rotation destruction : VisitOrder UInt64} {clock createdAt nowSecs e : UInt64} :
    e ∈ (s.epochRotationTick H rotation destruction clock createdAt nowSecs).destroyed ↔
      e = epochIdForTimestamp clock ∧ EpochKeyManager.IsOld nowSecs e := by
  have hnew : (EpochKeyManager.new master).ensureKey H (epochIdForTimestamp clock) createdAt
      = (.ok (H.epochKey master (epochIdForTimestamp clock)),
        ⟨master, AList.insert (epochIdForTimestamp clock)
          ⟨H.epochKey master (epochIdForTimestamp clock), epochIdForTimestamp clock, createdAt,
            false⟩ ∅, []⟩) := by
    rw [EpochKeyManager.ensureKey, EpochKeyManager.new, AList.lookup_empty]
    simp [H.deriveEpochKey_eq]
  rw [epochRotationTick, initEpochKeyManager, h]
  simp only [destroyed, Option.map_some, Option.getD_some,
    EpochKeyManager.mem_destroyedEpochs_destroyExpiredKeysAt, EpochKeyManager.rotate_snd, hnew,
    AList.mem_insert, AList.notMem_empty, List.not_mem_nil, false_or, or_false]

/-- Without an initialisation the manager stays, and its list grows. -/
theorem destroyed_tick_locked (h : s.masterSecret = none) (rotation destruction : VisitOrder UInt64)
    (clock createdAt nowSecs : UInt64) :
    s.destroyed
      ⊆ (s.epochRotationTick H rotation destruction clock createdAt nowSecs).destroyed := by
  rw [epochRotationTick, initEpochKeyManager, h]
  simp only
  cases hekm : s.epochKeyManager with
  | none =>
    rw [destroyed, hekm]
    exact List.nil_subset _
  | some ekm =>
    simp only [destroyed, hekm, Option.map_some, Option.getD_some]
    exact EpochKeyManager.destroyedEpochs_subset_run (H := H) ekm
      [.rotate rotation clock createdAt, .destroyExpiredKeysAt destruction nowSecs]

/-- A step keeps the list exactly when it meets the condition. -/
theorem destroyed_subset_step_iff (s : EpochServices) (op : EpochServicesOp) :
    s.destroyed ⊆ (s.step H op).destroyed ↔ s.Keeps op := by
  cases op with
  | unlock master => exact iff_of_true (List.Subset.refl _) trivial
  | lock => exact iff_of_true (List.Subset.refl _) trivial
  | initEpochKeyManager =>
    cases hm : s.masterSecret with
    | none =>
      refine iff_of_true ?_ (fun h => absurd hm h)
      rw [step, initEpochKeyManager, hm]
      exact List.Subset.refl _
    | some master =>
      rw [step, destroyed_initEpochKeyManager hm, List.subset_nil, Keeps, hm]
      simp
  | epochRotationTick rotation destruction clock createdAt nowSecs =>
    cases hm : s.masterSecret with
    | none =>
      exact iff_of_true (destroyed_tick_locked hm _ _ _ _ _) (fun h => absurd hm h)
    | some master =>
      rw [step, Keeps, hm]
      constructor
      · intro h _ e he
        exact (mem_destroyed_tick hm).mp (h he)
      · intro h e he
        exact (mem_destroyed_tick hm).mpr (h (by simp) e he)
  | createPost clock createdAt =>
    refine iff_of_true ?_ trivial
    cases hekm : s.epochKeyManager with
    | none =>
      rw [destroyed, hekm]
      exact List.nil_subset _
    | some ekm =>
      simp only [step, destroyed, hekm, Option.map_some, Option.getD_some]
      exact EpochKeyManager.destroyedEpochs_subset_run (H := H) ekm
        [.currentEpochKey clock createdAt]

/-- The key of an epoch is returned exactly if a manager is in place that has not destroyed it. -/
theorem returnsKey_iff (hs : Sound H s) (e : UInt64) :
    s.ReturnsKey H e ↔ s.epochKeyManager ≠ none ∧ e ∉ s.destroyed := by
  constructor
  · rintro ⟨ekm, hekm, ops, r, hr, rfl⟩
    refine ⟨by simp [hekm], fun hd => ?_⟩
    rw [destroyed, hekm] at hd
    exact EpochKeyManager.allHandedOut_ne_of_destroyed (hs ekm hekm) hd ops r hr rfl
  · rintro ⟨hne, hd⟩
    obtain ⟨ekm, hekm⟩ := Option.ne_none_iff_exists'.mp hne
    rw [destroyed, hekm] at hd
    obtain ⟨key, hkey⟩ := EpochKeyManager.handedOut_of_not_destroyed (hs ekm hekm) hd 0
    refine ⟨ekm, hekm, [.epochKeyFor e 0], (e, key), ?_, rfl⟩
    rw [EpochKeyManager.allHandedOut, hkey]
    exact List.mem_append_left _ (Option.mem_toList.mpr rfl)

/-- **What shredding survives.**  In a run of the services, the destroyed epochs stay destroyed
and no later manager returns a key of theirs, exactly when every event meets `Keeps`: no
manager that has destroyed epochs is replaced. -/
theorem shredding_lasts_iff (H : Hkdf) (ops : List EpochServicesOp) :
    (∀ l₁ l₂ l₃, ops = l₁ ++ (l₂ ++ l₃) →
      (run (step H) new l₁).destroyed ⊆ (run (step H) new (l₁ ++ l₂)).destroyed ∧
      ∀ e ∈ (run (step H) new l₁).destroyed, ¬ (run (step H) new (l₁ ++ l₂)).ReturnsKey H e) ↔
    Meets (step H) Keeps new ops := by
  have hstep : ∀ (s : EpochServices) (op : EpochServicesOp),
      s.destroyed ⊆ (step H s op).destroyed ↔ s.Keeps op := destroyed_subset_step_iff
  have hgrows := grows_iff_meets (R := fun s s' => s.destroyed ⊆ s'.destroyed)
    (fun _ => List.Subset.refl _) (fun _ _ _ => List.Subset.trans) hstep new ops
  rw [← hgrows]
  constructor
  · intro h l₁ l₂ l₃ heq
    exact (h l₁ l₂ l₃ heq).1
  · intro h l₁ l₂ l₃ heq
    have hsub := h l₁ l₂ l₃ heq
    refine ⟨hsub, fun e he hret => ?_⟩
    exact ((returnsKey_iff (sound_run _) e).mp hret).2 (hsub he)

/-- The identity is locked for a month; a tick at its end destroys the key of the first
day, and the first tick after the identity is unlocked brings it back. -/
theorem shredding_lost_on_unlock :
    ¬ ∀ (H : Hkdf) (ops l₁ l₂ l₃ : List EpochServicesOp), ops = l₁ ++ (l₂ ++ l₃) →
      (run (step H) new l₁).destroyed ⊆ (run (step H) new (l₁ ++ l₂)).destroyed ∧
      ∀ e ∈ (run (step H) new l₁).destroyed,
        ¬ (run (step H) new (l₁ ++ l₂)).ReturnsKey H e := by
  intro h
  have hsub := (h EpochKeyManager.constHkdf _
    [.unlock [7], .epochRotationTick (.asListed _) (.asListed _) 1704067200 1704067200 1704067200,
      .lock,
      .epochRotationTick (.asListed _) (.asListed _) 1706745600 1706745600 1706745600]
    [.unlock [7],
      .epochRotationTick (.asListed _) (.asListed _) 1706832000 1706832000 1706832000]
    [] rfl).1
  have hlost : (19723 : UInt64) ∈ ([] : List UInt64) := hsub (by decide +kernel)
  cases hlost

end EpochServices
