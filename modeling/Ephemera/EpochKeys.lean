/-
# Epoch keys (`ephemera-crypto/src/epoch.rs`)

`EpochKeyManager` derives one key for each day from the master secret, keeps the keys it
has derived, and lists the days whose keys it has destroyed.  A clock is read in several
places of a call; each reading is an argument.

`Shredded` is what the methods keep: a day on the list is not in the cache, so nothing
derives its key again.  `run_shredded` carries it through every run; from it come the
exact reach of `destroy_expired_keys_at` over days that were never cached, and that no
day is destroyed while content of that day can still be live.
-/
import Ephemera.GuardedRun
import Ephemera.HashMap

open GuardedRun

/-! ## Key derivation -/

/-- A 32-byte symmetric key. -/
abbrev EpochKey := Vector UInt8 32

/-- HKDF-SHA256 with an output of 32 bytes, of `ikm`, `salt` and `info`. -/
structure Hkdf where
  expand : List UInt8 → Option (List UInt8) → List UInt8 → EpochKey

/-- `EphemeraError`, as far as the modelled functions return it. -/
inductive EphemeraError where
  | encryptionError (reason : String)
  | keyDerivationError (reason : String)
  deriving DecidableEq, Repr

/-- The bytes of a `u64`, the least significant one first. -/
def toLeBytes (n : UInt64) : List UInt8 :=
  (List.range 8).map (fun i => (n >>> (8 * i).toUInt64).toUInt8)

namespace Hkdf

variable (H : Hkdf)

/-- The output length `hkdf_derive` asks for. -/
def okmLen : ℕ := 32

/-- The longest output HKDF-SHA256 can expand to: 255 blocks of 32 bytes. -/
def maxOkmLen : ℕ := 255 * 32

/-- `hkdf_derive`: the expansion fails only on outputs that are too long. -/
def hkdfDerive (ikm : List UInt8) (salt : Option (List UInt8)) (info : List UInt8) :
    Except EphemeraError EpochKey :=
  if okmLen ≤ maxOkmLen then .ok (H.expand ikm salt info)
  else .error (.keyDerivationError
    "HKDF expansion failed: invalid number of blocks, too large output")

/-- `derivation::EPOCH_INFO_PREFIX`: the bytes of `ephemera-epoch`. -/
def epochInfoPrefix : List UInt8 := "ephemera-epoch".toUTF8.toList

/-- `derive_epoch_key`. -/
def deriveEpochKey (masterSecret : List UInt8) (epoch : UInt64) : Except EphemeraError EpochKey :=
  H.hkdfDerive masterSecret none (epochInfoPrefix ++ toLeBytes epoch)

/-- The key of an epoch: its derivation does not fail. -/
def epochKey (masterSecret : List UInt8) (epoch : UInt64) : EpochKey :=
  H.expand masterSecret none (epochInfoPrefix ++ toLeBytes epoch)

theorem deriveEpochKey_eq (masterSecret : List UInt8) (epoch : UInt64) :
    H.deriveEpochKey masterSecret epoch = .ok (H.epochKey masterSecret epoch) := by
  rw [deriveEpochKey, hkdfDerive, if_pos (by decide)]
  rfl

end Hkdf

/-! ## The manager -/

/-- `EPOCH_DURATION_SECS`. -/
def epochDurationSecs : UInt64 := 24 * 3600

/-- `MAX_EPOCH_KEY_AGE_SECS`. -/
def maxEpochKeyAgeSecs : UInt64 := 30 * epochDurationSecs

/-- `epoch_id_for_timestamp`. -/
def epochIdForTimestamp (unixSecs : UInt64) : UInt64 := unixSecs / epochDurationSecs

/-- `EpochKeyEntry`. -/
structure EpochKeyEntry where
  key : EpochKey
  epochId : UInt64
  createdAt : UInt64
  destroyed : Bool

/-- `RotationResult`. -/
structure RotationResult where
  newEpochId : UInt64
  markedForDestruction : List UInt64

/-- `DestructionResult`. -/
structure DestructionResult where
  destroyedEpochIds : List UInt64
  count : ℕ

/-- `EpochKeyManager`. -/
structure EpochKeyManager where
  master : List UInt8
  keys : HashMap UInt64 EpochKeyEntry
  destroyedEpochs : List UInt64

namespace EpochKeyManager

variable (H : Hkdf)

/-- `EpochKeyManager::new`. -/
def new (master : List UInt8) : EpochKeyManager := ⟨master, ∅, []⟩

/-- The error of an epoch whose key is gone. -/
def destroyedError (epochId : UInt64) : EphemeraError :=
  .encryptionError s!"epoch key {epochId} has been destroyed"

/-- `ensure_key`; `createdAt` is the clock when the entry is made. -/
def ensureKey (m : EpochKeyManager) (epochId createdAt : UInt64) :
    Except EphemeraError EpochKey × EpochKeyManager :=
  match m.keys.lookup epochId with
  | some entry =>
    if entry.destroyed then (.error (destroyedError epochId), m) else (.ok entry.key, m)
  | none =>
    if epochId ∈ m.destroyedEpochs then (.error (destroyedError epochId), m)
    else
      match H.deriveEpochKey m.master epochId with
      | .error e => (.error e, m)
      | .ok key =>
        (.ok key, { m with keys := m.keys.insert epochId ⟨key, epochId, createdAt, false⟩ })

/-- `current_epoch_key`. -/
def currentEpochKey (m : EpochKeyManager) (clock createdAt : UInt64) :
    Except EphemeraError (UInt64 × EpochKey) × EpochKeyManager :=
  let epochId := epochIdForTimestamp clock
  let r := m.ensureKey H epochId createdAt
  (r.1.map (fun key => (epochId, key)), r.2)

/-- `epoch_key_for`. -/
def epochKeyFor (m : EpochKeyManager) (epochId createdAt : UInt64) :
    Except EphemeraError (Option EpochKey) × EpochKeyManager :=
  if epochId ∈ m.destroyedEpochs then (.ok none, m)
  else
    let r := m.ensureKey H epochId createdAt
    (r.1.map some, r.2)

/-- `saturating_sub`. -/
def saturatingSub (a b : UInt64) : UInt64 := if b ≤ a then a - b else 0

/-- `rotate`. -/
def rotate (m : EpochKeyManager) (order : VisitOrder UInt64) (clock createdAt : UInt64) :
    Except EphemeraError RotationResult × EpochKeyManager :=
  let current := epochIdForTimestamp clock
  match m.ensureKey H current createdAt with
  | (.error e, m) => (.error e, m)
  | (.ok _, m) =>
    let cutoffEpoch := saturatingSub current (maxEpochKeyAgeSecs / epochDurationSecs)
    let marked := (HashMap.keysIn order m.keys).filter
      (fun eid => eid < cutoffEpoch && !m.destroyedEpochs.contains eid)
    (.ok ⟨current, marked⟩, m)

/-- `destroy_key`: whether the key was in the cache, and the manager without it. -/
def destroyKey (m : EpochKeyManager) (epochId : UInt64) : Bool × EpochKeyManager :=
  ((m.keys.lookup epochId).isSome,
    { m with
      keys := m.keys.erase epochId
      destroyedEpochs :=
        if epochId ∈ m.destroyedEpochs then m.destroyedEpochs
        else m.destroyedEpochs ++ [epochId] })

/-- The loop of `destroy_expired_keys_at`: its body is that of `destroy_key`. -/
def destroyAll (m : EpochKeyManager) (epochIds : List UInt64) : EpochKeyManager :=
  epochIds.foldl (fun m eid => (m.destroyKey eid).2) m

/-- `destroy_expired_keys_at`. -/
def destroyExpiredKeysAt (m : EpochKeyManager) (order : VisitOrder UInt64) (nowSecs : UInt64) :
    DestructionResult × EpochKeyManager :=
  let currentEpoch := epochIdForTimestamp nowSecs
  if maxEpochKeyAgeSecs / epochDurationSecs < currentEpoch then
    let cutoffEpoch := currentEpoch - maxEpochKeyAgeSecs / epochDurationSecs
    let toDestroy := (HashMap.keysIn order m.keys).filter (fun eid => eid < cutoffEpoch)
    (⟨toDestroy, toDestroy.length⟩, m.destroyAll toDestroy)
  else (⟨[], 0⟩, m)

end EpochKeyManager

/-! ## Runs -/

/-- A call of a method of the manager, with its readings of the clock. -/
inductive EpochOp where
  | currentEpochKey (clock createdAt : UInt64)
  | epochKeyFor (epochId createdAt : UInt64)
  | rotate (order : VisitOrder UInt64) (clock createdAt : UInt64)
  | destroyKey (epochId : UInt64)
  | destroyExpiredKeysAt (order : VisitOrder UInt64) (nowSecs : UInt64)

namespace EpochOp

/-- `current_epoch_key` is not called with a clock before `now`. -/
def ClockFrom (now : UInt64) : EpochOp → Prop
  | .currentEpochKey clock _ => now ≤ clock
  | _ => True

end EpochOp

namespace EpochKeyManager

variable (H : Hkdf)

/-- The manager after a call. -/
def step (m : EpochKeyManager) : EpochOp → EpochKeyManager
  | .currentEpochKey clock createdAt => (m.currentEpochKey H clock createdAt).2
  | .epochKeyFor epochId createdAt => (m.epochKeyFor H epochId createdAt).2
  | .rotate order clock createdAt => (m.rotate H order clock createdAt).2
  | .destroyKey epochId => (m.destroyKey epochId).2
  | .destroyExpiredKeysAt order nowSecs => (m.destroyExpiredKeysAt order nowSecs).2

/-- The key a call returns, with its epoch. -/
def handedOut (m : EpochKeyManager) : EpochOp → Option (UInt64 × EpochKey)
  | .currentEpochKey clock createdAt => (m.currentEpochKey H clock createdAt).1.toOption
  | .epochKeyFor epochId createdAt =>
    ((m.epochKeyFor H epochId createdAt).1.toOption.join).map (fun key => (epochId, key))
  | _ => none

/-- The keys that a run of calls returns, with their epochs. -/
def allHandedOut (m : EpochKeyManager) : List EpochOp → List (UInt64 × EpochKey)
  | [] => []
  | op :: ops => (m.handedOut H op).toList ++ (m.step H op).allHandedOut ops

/-- What one call can do to the manager: leave it, derive the key of an epoch that is
neither cached nor destroyed, or destroy the keys of some epochs. -/
inductive Change (m : EpochKeyManager) : EpochKeyManager → Prop
  | same : Change m m
  | derive (epochId createdAt : UInt64) (hkeys : epochId ∉ m.keys)
      (hdestroyed : epochId ∉ m.destroyedEpochs) :
      Change m { m with
        keys := m.keys.insert epochId
          ⟨H.epochKey m.master epochId, epochId, createdAt, false⟩ }
  | destroy (epochIds : List UInt64) : Change m (m.destroyAll epochIds)

variable {H} {m m' : EpochKeyManager}

/-- What `ensure_key` does, and that it fails on destroyed epochs only. -/
theorem ensureKey_cases (epochId createdAt : UInt64) :
    (∃ entry, m.keys.lookup epochId = some entry ∧
      m.ensureKey H epochId createdAt
        = (if entry.destroyed then .error (destroyedError epochId) else .ok entry.key, m)) ∨
    (epochId ∉ m.keys ∧ epochId ∈ m.destroyedEpochs ∧
      m.ensureKey H epochId createdAt = (.error (destroyedError epochId), m)) ∨
    (epochId ∉ m.keys ∧ epochId ∉ m.destroyedEpochs ∧
      m.ensureKey H epochId createdAt = (.ok (H.epochKey m.master epochId),
        { m with
          keys := m.keys.insert epochId
            ⟨H.epochKey m.master epochId, epochId, createdAt, false⟩ })) := by
  rw [ensureKey]
  cases hl : m.keys.lookup epochId with
  | some entry =>
    refine Or.inl ⟨entry, rfl, ?_⟩
    by_cases hd : entry.destroyed <;> simp [hd]
  | none =>
    right
    have hk : epochId ∉ m.keys := AList.lookup_eq_none.mp hl
    by_cases hd : epochId ∈ m.destroyedEpochs
    · exact Or.inl ⟨hk, hd, by simp [hd]⟩
    · exact Or.inr ⟨hk, hd, by simp [hd, H.deriveEpochKey_eq]⟩

theorem change_ensureKey (epochId createdAt : UInt64) :
    Change H m (m.ensureKey H epochId createdAt).2 := by
  rcases ensureKey_cases (H := H) (m := m) epochId createdAt with
    ⟨entry, _, h⟩ | ⟨_, _, h⟩ | ⟨hk, hd, h⟩
  · rw [h]
    exact .same
  · rw [h]
    exact .same
  · rw [h]
    exact .derive epochId createdAt hk hd

/-- `rotate` leaves the manager as `ensure_key` does. -/
theorem rotate_snd (order : VisitOrder UInt64) (clock createdAt : UInt64) :
    (m.rotate H order clock createdAt).2
      = (m.ensureKey H (epochIdForTimestamp clock) createdAt).2 := by
  rw [rotate]
  split
  · rename_i heq
    rw [heq]
  · rename_i heq
    rw [heq]

/-- Every call is one such change. -/
theorem change_step (op : EpochOp) : Change H m (m.step H op) := by
  cases op with
  | currentEpochKey clock createdAt => exact change_ensureKey _ _
  | epochKeyFor epochId createdAt =>
    rw [step, epochKeyFor]
    split
    · exact .same
    · exact change_ensureKey _ _
  | rotate order clock createdAt =>
    rw [step, rotate_snd]
    exact change_ensureKey _ _
  | destroyKey epochId => exact .destroy [epochId]
  | destroyExpiredKeysAt order nowSecs =>
    rw [step, destroyExpiredKeysAt]
    split
    · exact .destroy _
    · exact .same

/-! ## Destroying keys -/

/-- What is left in the cache. -/
theorem mem_keys_destroyAll {epochIds : List UInt64} {e : UInt64} :
    e ∈ (m.destroyAll epochIds).keys ↔ e ∈ m.keys ∧ e ∉ epochIds := by
  induction epochIds generalizing m with
  | nil => simp [destroyAll]
  | cons a l ih =>
    rw [destroyAll, List.foldl_cons]
    refine (ih (m := (m.destroyKey a).2)).trans ?_
    rw [destroyKey, AList.mem_erase, List.mem_cons]
    tauto

/-- An entry that is left is the old one. -/
theorem lookup_destroyAll {epochIds : List UInt64} {e : UInt64} {entry : EpochKeyEntry}
    (h : (m.destroyAll epochIds).keys.lookup e = some entry) : m.keys.lookup e = some entry := by
  induction epochIds generalizing m with
  | nil => exact h
  | cons a l ih =>
    have hstep := ih (m := (m.destroyKey a).2) h
    rw [destroyKey, HashMap.lookup_erase_eq] at hstep
    split at hstep
    · cases hstep
    · exact hstep

/-- What is on the list of destroyed epochs. -/
theorem mem_destroyedEpochs_destroyAll {epochIds : List UInt64} {e : UInt64} :
    e ∈ (m.destroyAll epochIds).destroyedEpochs ↔ e ∈ m.destroyedEpochs ∨ e ∈ epochIds := by
  induction epochIds generalizing m with
  | nil => simp [destroyAll]
  | cons a l ih =>
    rw [destroyAll, List.foldl_cons]
    refine (ih (m := (m.destroyKey a).2)).trans ?_
    rw [destroyKey, List.mem_cons]
    by_cases ha : a ∈ m.destroyedEpochs
    · simp only [ha, if_true]
      constructor
      · tauto
      · rintro (h | rfl | h)
        · exact Or.inl h
        · exact Or.inl ha
        · exact Or.inr h
    · simp only [ha, if_false, List.mem_append, List.mem_singleton]
      tauto

/-- No epoch is listed twice. -/
theorem nodup_destroyAll (hm : m.destroyedEpochs.Nodup) (epochIds : List UInt64) :
    (m.destroyAll epochIds).destroyedEpochs.Nodup := by
  induction epochIds generalizing m with
  | nil => exact hm
  | cons a l ih =>
    refine ih (m := (m.destroyKey a).2) ?_
    rw [destroyKey]
    by_cases ha : a ∈ m.destroyedEpochs
    · simpa only [ha, if_true] using hm
    · simp only [ha, if_false]
      exact hm.append (List.nodup_singleton a) (by simpa using ha)

/-! ## What the calls keep -/

/-- The invariant: no destroyed epoch is cached or listed twice, and a cached entry is the
live key of its epoch. -/
structure Sound (H : Hkdf) (m : EpochKeyManager) : Prop where
  disjoint : ∀ e ∈ m.keys, e ∉ m.destroyedEpochs
  nodup : m.destroyedEpochs.Nodup
  live : ∀ e entry, m.keys.lookup e = some entry →
    entry.destroyed = false ∧ entry.key = H.epochKey m.master e

theorem sound_new (master : List UInt8) : Sound H (new master) where
  disjoint e he := absurd he (AList.notMem_empty e)
  nodup := List.nodup_nil
  live e entry he := by
    rw [new, AList.lookup_empty] at he
    cases he

theorem master_destroyAll (epochIds : List UInt64) :
    (m.destroyAll epochIds).master = m.master := by
  induction epochIds generalizing m with
  | nil => rfl
  | cons a l ih => exact ih (m := (m.destroyKey a).2)

/-- Every call keeps the invariant. -/
theorem Sound.change (hm : Sound H m) (h : Change H m m') : Sound H m' := by
  cases h with
  | same => exact hm
  | derive epochId createdAt hkeys hdestroyed =>
    refine ⟨fun e he hd => ?_, hm.nodup, fun e entry he => ?_⟩
    · rcases (AList.mem_insert m.keys).mp he with rfl | he
      · exact hdestroyed hd
      · exact hm.disjoint e he hd
    · rw [HashMap.lookup_insert_eq] at he
      split at he
      · rename_i heq
        subst heq
        cases he
        exact ⟨rfl, rfl⟩
      · exact hm.live e entry he
  | destroy epochIds =>
    refine ⟨fun e he hd => ?_, nodup_destroyAll hm.nodup epochIds, fun e entry he => ?_⟩
    · obtain ⟨hk, hn⟩ := mem_keys_destroyAll.mp he
      rcases mem_destroyedEpochs_destroyAll.mp hd with hd | hd
      · exact hm.disjoint e hk hd
      · exact hn hd
    · have h := hm.live e entry (lookup_destroyAll he)
      exact ⟨h.1, h.2.trans (congrArg (H.epochKey · e) (master_destroyAll epochIds).symm)⟩

/-- No epoch leaves the list of destroyed epochs. -/
theorem destroyedEpochs_subset_of_change (h : Change H m m') :
    m.destroyedEpochs ⊆ m'.destroyedEpochs := by
  cases h with
  | same => exact List.Subset.refl _
  | derive epochId createdAt hkeys hdestroyed => exact List.Subset.refl _
  | destroy epochIds => exact fun e he => mem_destroyedEpochs_destroyAll.mpr (Or.inl he)

/-- The invariant holds after every run. -/
theorem sound_run (hm : Sound H m) (ops : List EpochOp) : Sound H (run (step H) m ops) :=
  run_invariant_of_step (fun _ op h => h.change (change_step op)) hm ops

/-- Over a run the list of destroyed epochs only grows. -/
theorem destroyedEpochs_subset_run (m : EpochKeyManager) (ops : List EpochOp) :
    m.destroyedEpochs ⊆ (run (step H) m ops).destroyedEpochs := by
  induction ops generalizing m with
  | nil => exact List.Subset.refl _
  | cons op ops ih =>
    exact List.Subset.trans (destroyedEpochs_subset_of_change (change_step op)) (ih (m.step H op))

/-! ## What a call returns -/

theorem epochKeyFor_of_not_destroyed {epochId : UInt64} (h : epochId ∉ m.destroyedEpochs)
    (createdAt : UInt64) :
    m.epochKeyFor H epochId createdAt = ((m.ensureKey H epochId createdAt).1.map some,
      (m.ensureKey H epochId createdAt).2) := by
  rw [epochKeyFor, if_neg h]

/-- A key that `ensure_key` returns is in the cache afterwards. -/
theorem mem_keys_of_ensureKey {epochId createdAt : UInt64} {key : EpochKey}
    (h : (m.ensureKey H epochId createdAt).1 = .ok key) :
    epochId ∈ (m.ensureKey H epochId createdAt).2.keys := by
  rcases ensureKey_cases (H := H) (m := m) epochId createdAt with
    ⟨entry, hl, he⟩ | ⟨_, _, he⟩ | ⟨_, _, he⟩
  · rw [he]
    exact HashMap.mem_iff_lookup.mpr ⟨entry, hl⟩
  · rw [he] at h
    cases h
  · rw [he]
    exact (AList.mem_insert _).mpr (Or.inl rfl)

/-- The epoch of a key that a call returns is cached afterwards. -/
theorem mem_keys_of_handedOut {op : EpochOp} {e : UInt64} {key : EpochKey}
    (h : m.handedOut H op = some (e, key)) : e ∈ (m.step H op).keys := by
  cases op with
  | currentEpochKey clock createdAt =>
    rw [handedOut, currentEpochKey] at h
    cases hr : (m.ensureKey H (epochIdForTimestamp clock) createdAt).1 with
    | error err =>
      rw [hr] at h
      cases h
    | ok k =>
      rw [hr] at h
      cases h
      exact mem_keys_of_ensureKey hr
  | epochKeyFor epochId createdAt =>
    by_cases hd : epochId ∈ m.destroyedEpochs
    · rw [handedOut, epochKeyFor, if_pos hd] at h
      cases h
    · rw [handedOut, epochKeyFor_of_not_destroyed hd] at h
      rw [step, epochKeyFor_of_not_destroyed hd]
      cases hr : (m.ensureKey H epochId createdAt).1 with
      | error err =>
        rw [hr] at h
        cases h
      | ok k =>
        rw [hr] at h
        cases h
        exact mem_keys_of_ensureKey hr
  | rotate order clock createdAt => cases h
  | destroyKey epochId => cases h
  | destroyExpiredKeysAt order nowSecs => cases h

/-- No call returns the key of a destroyed epoch. -/
theorem handedOut_ne_of_destroyed (hm : Sound H m) {e : UInt64} (he : e ∈ m.destroyedEpochs)
    (op : EpochOp) (key : EpochKey) : m.handedOut H op ≠ some (e, key) := by
  intro h
  have hcached := mem_keys_of_handedOut h
  have hgone := destroyedEpochs_subset_of_change (change_step (H := H) (m := m) op) he
  exact (hm.change (change_step op)).disjoint e hcached hgone

/-- No run of calls returns the key of a destroyed epoch. -/
theorem allHandedOut_ne_of_destroyed (hm : Sound H m) {e : UInt64}
    (he : e ∈ m.destroyedEpochs) (ops : List EpochOp) :
    ∀ r ∈ m.allHandedOut H ops, r.1 ≠ e := by
  induction ops generalizing m with
  | nil => intro r hr; cases hr
  | cons op ops ih =>
    intro r hr
    rw [allHandedOut, List.mem_append, Option.mem_toList] at hr
    rcases hr with hr | hr
    · rintro rfl
      exact handedOut_ne_of_destroyed hm he op r.2 hr
    · exact ih (hm.change (change_step op))
        (destroyedEpochs_subset_of_change (change_step op) he) r hr

/-- An epoch that is not destroyed gets its key, from the cache or derived on request. -/
theorem handedOut_of_not_destroyed (hm : Sound H m) {e : UInt64} (h : e ∉ m.destroyedEpochs)
    (createdAt : UInt64) : ∃ key, m.handedOut H (.epochKeyFor e createdAt) = some (e, key) := by
  have hens : ∃ key, (m.ensureKey H e createdAt).1 = .ok key := by
    rcases ensureKey_cases (H := H) (m := m) e createdAt with
      ⟨entry, hl, he⟩ | ⟨_, hd, _⟩ | ⟨_, _, he⟩
    · refine ⟨entry.key, ?_⟩
      rw [he, (hm.live e entry hl).1]
      rfl
    · exact absurd hd h
    · exact ⟨_, congrArg Prod.fst he⟩
  obtain ⟨key, hkey⟩ := hens
  refine ⟨key, ?_⟩
  rw [handedOut, epochKeyFor_of_not_destroyed h, hkey]
  rfl

/-! ## The reach of `destroy_expired_keys_at` -/

/-- The epoch lies more than thirty epochs before the one of `now`. -/
def IsOld (now e : UInt64) : Prop :=
  30 < epochIdForTimestamp now ∧ e < epochIdForTimestamp now - 30

/-- The epochs that `destroy_expired_keys_at` destroys are the old ones in the cache. -/
theorem mem_destroyedEpochIds {order : VisitOrder UInt64} {now e : UInt64} :
    e ∈ (m.destroyExpiredKeysAt order now).1.destroyedEpochIds ↔ e ∈ m.keys ∧ IsOld now e := by
  have hage : maxEpochKeyAgeSecs / epochDurationSecs = 30 := by decide
  simp only [destroyExpiredKeysAt, hage, IsOld]
  split
  · rename_i h
    rw [List.mem_filter, HashMap.mem_keysIn]
    simp [h]
  · rename_i h
    simp [h]

/-- They are all that changes. -/
theorem destroyExpiredKeysAt_snd (order : VisitOrder UInt64) (now : UInt64) :
    (m.destroyExpiredKeysAt order now).2
      = m.destroyAll (m.destroyExpiredKeysAt order now).1.destroyedEpochIds := by
  simp only [destroyExpiredKeysAt]
  split
  · rfl
  · rfl

theorem mem_keys_destroyExpiredKeysAt {order : VisitOrder UInt64} {now e : UInt64} :
    e ∈ (m.destroyExpiredKeysAt order now).2.keys ↔ e ∈ m.keys ∧ ¬ IsOld now e := by
  rw [destroyExpiredKeysAt_snd, mem_keys_destroyAll, mem_destroyedEpochIds]
  tauto

theorem mem_destroyedEpochs_destroyExpiredKeysAt {order : VisitOrder UInt64} {now e : UInt64} :
    e ∈ (m.destroyExpiredKeysAt order now).2.destroyedEpochs ↔
      e ∈ m.destroyedEpochs ∨ e ∈ m.keys ∧ IsOld now e := by
  rw [destroyExpiredKeysAt_snd, mem_destroyedEpochs_destroyAll, mem_destroyedEpochIds]

/-- Content of an old epoch has expired, whatever its lifetime. -/
theorem expired_of_isOld {now t ttl : UInt64} (h : IsOld now (epochIdForTimestamp t))
    (httl : ttl ≤ maxEpochKeyAgeSecs) : t.toNat + ttl.toNat < now.toNat := by
  have hnow : (epochIdForTimestamp now).toNat = now.toNat / 86400 := UInt64.toNat_div _ _
  have ht : (epochIdForTimestamp t).toNat = t.toNat / 86400 := UInt64.toNat_div _ _
  have hmax : ttl.toNat ≤ 2592000 := UInt64.le_iff_toNat_le.mp httl
  have hlt : (30 : UInt64).toNat < (epochIdForTimestamp now).toNat :=
    UInt64.lt_iff_toNat_lt.mp h.1
  have hle : (30 : UInt64) ≤ epochIdForTimestamp now :=
    UInt64.le_iff_toNat_le.mpr (Nat.le_of_lt hlt)
  have hold := UInt64.lt_iff_toNat_lt.mp h.2
  rw [UInt64.toNat_sub_of_le _ _ hle, ht, hnow] at hold
  have h30 : (30 : UInt64).toNat = 30 := rfl
  omega

/-- A call of `destroy_expired_keys_at` destroys `e`: it says so, or the key leaves the
cache, or the epoch enters the list. -/
def Destroys (m : EpochKeyManager) (order : VisitOrder UInt64) (now e : UInt64) : Prop :=
  let r := m.destroyExpiredKeysAt order now
  e ∈ r.1.destroyedEpochIds ∨ (e ∈ m.keys ∧ e ∉ r.2.keys) ∨
    (e ∈ r.2.destroyedEpochs ∧ e ∉ m.destroyedEpochs)

theorem isOld_of_destroys {order : VisitOrder UInt64} {now e : UInt64}
    (h : m.Destroys order now e) : IsOld now e := by
  rcases h with h | ⟨hk, h⟩ | ⟨h, hd⟩
  · exact (mem_destroyedEpochIds.mp h).2
  · rw [mem_keys_destroyExpiredKeysAt] at h
    exact not_not.mp (fun hold => h ⟨hk, hold⟩)
  · rcases mem_destroyedEpochs_destroyExpiredKeysAt.mp h with h | h
    · exact absurd h hd
    · exact h.2

/-- **Epoch keys are destroyed in time.**  After every run the cache and the list of destroyed
epochs are disjoint and the list has no duplicates; no later run returns the key of an
epoch on the list; and `destroy_expired_keys_at` destroys no epoch in which something was
made that can still be live. -/
theorem destroyed_in_time (H : Hkdf) (master : List UInt8) (ops : List EpochOp) :
    let m := run (step H) (new master) ops
    (∀ e ∈ m.keys, e ∉ m.destroyedEpochs) ∧
    m.destroyedEpochs.Nodup ∧
    (∀ e ∈ m.destroyedEpochs, ∀ later, ∀ r ∈ m.allHandedOut H later, r.1 ≠ e) ∧
    ∀ order now e, m.Destroys order now e →
      ¬ ∃ t ttl, epochIdForTimestamp t = e ∧ ttl ≤ maxEpochKeyAgeSecs ∧
        now.toNat ≤ t.toNat + ttl.toNat := by
  have hm : Sound H (run (step H) (new master) ops) := sound_run (sound_new master) ops
  refine ⟨hm.disjoint, hm.nodup, fun e he later => allHandedOut_ne_of_destroyed hm he later, ?_⟩
  rintro order now e h ⟨t, ttl, rfl, httl, hlive⟩
  have hexpired := expired_of_isOld (isOld_of_destroys h) httl
  omega

/-- **What `destroy_expired_keys_at` shreds.**  After it, no later run of calls returns the key
of an old epoch, exactly when that key was in the cache or already destroyed. -/
theorem shredded_iff_cached (H : Hkdf) (master : List UInt8) (ops : List EpochOp)
    (order : VisitOrder UInt64) (now e : UInt64) (h30 : 30 < epochIdForTimestamp now)
    (hold : e < epochIdForTimestamp now - 30) :
    let m := run (step H) (new master) ops
    (∀ later : List EpochOp, (∀ op ∈ later, op.ClockFrom now) →
        ∀ r ∈ (m.destroyExpiredKeysAt order now).2.allHandedOut H later, r.1 ≠ e) ↔
      e ∈ m.keys ∨ e ∈ m.destroyedEpochs := by
  intro m
  have hm : Sound H m := sound_run (sound_new master) ops
  have hm' : Sound H (m.destroyExpiredKeysAt order now).2 :=
    hm.change (change_step (.destroyExpiredKeysAt order now))
  constructor
  · intro h
    by_contra hnot
    rw [not_or] at hnot
    -- otherwise the epoch is not on the list afterwards, and asking for its key derives it
    have hd : e ∉ (m.destroyExpiredKeysAt order now).2.destroyedEpochs := by
      intro hd
      rcases mem_destroyedEpochs_destroyExpiredKeysAt.mp hd with hd | hd
      · exact hnot.2 hd
      · exact hnot.1 hd.1
    obtain ⟨key, hget⟩ := handedOut_of_not_destroyed hm' hd now
    refine h [.epochKeyFor e now] (by simp [EpochOp.ClockFrom]) (e, key) ?_ rfl
    rw [allHandedOut, hget]
    exact List.mem_append_left _ (Option.mem_toList.mpr rfl)
  · intro h later _
    refine allHandedOut_ne_of_destroyed hm' ?_ later
    rw [mem_destroyedEpochs_destroyExpiredKeysAt]
    rcases h with h | h
    · exact Or.inr ⟨h, h30, hold⟩
    · exact Or.inl h

/-- A key derivation for the examples. -/
def constHkdf : Hkdf := ⟨fun _ _ _ => Vector.replicate 32 0⟩

/-- The key of an epoch 31 days old is returned after the destruction, because nobody had
asked for it before. -/
theorem shredding_misses_uncached :
    ¬ ∀ (H : Hkdf) (master : List UInt8) (ops : List EpochOp) (order : VisitOrder UInt64)
        (now e : UInt64), 30 < epochIdForTimestamp now → e < epochIdForTimestamp now - 30 →
      ∀ later : List EpochOp, (∀ op ∈ later, op.ClockFrom now) →
        ∀ r ∈ ((run (step H) (new master) ops).destroyExpiredKeysAt order now).2.allHandedOut H
          later, r.1 ≠ e := by
  intro h
  exact h constHkdf [] [] (.asListed _) 1706745600 19723 (by decide) (by decide)
    [.epochKeyFor 19723 1706745600] (by simp [EpochOp.ClockFrom]) (19723, Vector.replicate 32 0)
    (by decide +kernel) rfl

theorem shredded_iff_cached_thirty_one :
    (∀ later : List EpochOp, (∀ op ∈ later, op.ClockFrom 1706745600) →
        ∀ r ∈ ((run (step constHkdf) (new []) [.currentEpochKey 1704067200 1704067200]
          ).destroyExpiredKeysAt (.asListed _) 1706745600).2.allHandedOut constHkdf later,
          r.1 ≠ 19723) ↔
      19723 ∈ (run (step constHkdf) (new []) [.currentEpochKey 1704067200 1704067200]).keys ∨
        19723 ∈ (run (step constHkdf) (new [])
          [.currentEpochKey 1704067200 1704067200]).destroyedEpochs :=
  shredded_iff_cached constHkdf [] [.currentEpochKey 1704067200 1704067200] (.asListed _)
    1706745600 19723 (by decide) (by decide)

end EpochKeyManager
