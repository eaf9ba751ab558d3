/-
# Sealing under epoch keys (`ephemera-crypto/src/epoch_crypto.rs`)

`encrypt_with_current_epoch` seals under the key of the day, and `decrypt_with_epoch_key` opens
with the key of a day that is given, or returns nothing when that key has been destroyed.

Sealing leaves the key in the cache, so the next destruction that is due reaches it: what was
sealed opens up to the first call that destroys the key of its day, and never again
(`decrypt_after`).  For `destroy_expired_keys_at` that is the first call with a clock more than
thirty days past the day of the sealing.
-/
import Ephemera.EpochKeys
import Ephemera.SealedWire

open GuardedRun

namespace EpochKeyManager

open SealedWire

variable (H : Hkdf) (P : Suite)

/-! ## The methods -/

/-- `encrypt_with_current_epoch`, with the nonce that `seal` draws. -/
def encryptWithCurrentEpoch (m : EpochKeyManager) (clock createdAt : UInt64)
    (nonce : Vector UInt8 nonceLen) (plaintext : List UInt8) :
    Except EphemeraError (UInt64 × List UInt8) × EpochKeyManager :=
  let (r, m) := m.currentEpochKey H clock createdAt
  (do
    let (epochId, key) ← r
    let sealed ← (sealBytes P key nonce plaintext).mapError .encryptionError
    return (epochId, sealed), m)

/-- `decrypt_with_epoch_key`. -/
def decryptWithEpochKey (m : EpochKeyManager) (epochId createdAt : UInt64)
    (sealed : List UInt8) : Except EphemeraError (Option (List UInt8)) × EpochKeyManager :=
  let (r, m) := m.epochKeyFor H epochId createdAt
  (do
    match ← r with
    | none => return none
    | some key =>
      let plaintext ← (openBytes P key sealed).mapError .encryptionError
      return some plaintext, m)

/-- A call of a method of the manager. -/
inductive CryptoOp where
  | key (op : EpochOp)
  | encrypt (clock createdAt : UInt64) (nonce : Vector UInt8 nonceLen) (plaintext : List UInt8)
  | decrypt (epochId createdAt : UInt64) (sealed : List UInt8)

/-- The manager after a call. -/
def cryptoStep (m : EpochKeyManager) : CryptoOp → EpochKeyManager
  | .key op => m.step H op
  | .encrypt clock createdAt nonce plaintext =>
    (m.encryptWithCurrentEpoch H P clock createdAt nonce plaintext).2
  | .decrypt epochId createdAt sealed => (m.decryptWithEpochKey H P epochId createdAt sealed).2

/-- The key that a call asks for. -/
def CryptoOp.keyOp : CryptoOp → EpochOp
  | .key op => op
  | .encrypt clock createdAt _ _ => .currentEpochKey clock createdAt
  | .decrypt epochId createdAt _ => .epochKeyFor epochId createdAt

/-- The ciphers do not touch the keys. -/
theorem cryptoStep_eq (m : EpochKeyManager) (op : CryptoOp) :
    m.cryptoStep H P op = m.step H op.keyOp := by
  cases op <;> rfl

theorem run_cryptoStep (m : EpochKeyManager) (ops : List CryptoOp) :
    run (cryptoStep H P) m ops = run (step H) m (ops.map CryptoOp.keyOp) := by
  induction ops generalizing m with
  | nil => rfl
  | cons op ops ih =>
    rw [run_cons, ih, cryptoStep_eq]
    rfl

/-- The call destroys the key of `e` if it is in the cache. -/
def Kills (e : UInt64) : EpochOp → Prop
  | .destroyKey epochId => epochId = e
  | .destroyExpiredKeysAt _ now => IsOld now e
  | _ => False

variable {H P} {m : EpochKeyManager} {e : UInt64}

/-! ## One key -/

theorem mem_keys_ensureKey (he : e ∈ m.keys) (epochId createdAt : UInt64) :
    e ∈ (m.ensureKey H epochId createdAt).2.keys := by
  rcases ensureKey_cases (H := H) (m := m) epochId createdAt with
    ⟨entry, _, h⟩ | ⟨_, _, h⟩ | ⟨_, _, h⟩
  · rw [h]
    exact he
  · rw [h]
    exact he
  · rw [h]
    exact (AList.mem_insert _).mpr (.inr he)

/-- A key stays in the cache until a call destroys it, which lists its epoch. -/
theorem mem_keys_step (he : e ∈ m.keys) (op : EpochOp) :
    (Kills e op → e ∈ (m.step H op).destroyedEpochs) ∧
      (¬ Kills e op → e ∈ (m.step H op).keys) := by
  cases op with
  | currentEpochKey clock createdAt =>
    exact ⟨fun h => h.elim, fun _ => mem_keys_ensureKey he _ _⟩
  | epochKeyFor epochId createdAt =>
    refine ⟨fun h => h.elim, fun _ => ?_⟩
    rw [step, epochKeyFor]
    split_ifs
    · exact he
    · exact mem_keys_ensureKey he _ _
  | rotate order clock createdAt =>
    refine ⟨fun h => h.elim, fun _ => ?_⟩
    rw [step, rotate_snd]
    exact mem_keys_ensureKey he _ _
  | destroyKey epochId =>
    have hall : m.step H (.destroyKey epochId) = m.destroyAll [epochId] := rfl
    rw [hall, mem_destroyedEpochs_destroyAll, mem_keys_destroyAll, List.mem_singleton]
    exact ⟨fun h => .inr h.symm, fun h => ⟨he, fun heq => h heq.symm⟩⟩
  | destroyExpiredKeysAt order now =>
    show (IsOld now e → e ∈ (m.destroyExpiredKeysAt order now).2.destroyedEpochs) ∧
      (¬ IsOld now e → e ∈ (m.destroyExpiredKeysAt order now).2.keys)
    rw [mem_destroyedEpochs_destroyExpiredKeysAt, mem_keys_destroyExpiredKeysAt]
    exact ⟨fun h => .inr ⟨he, h⟩, fun h => ⟨he, h⟩⟩

/-- Over a run, by induction on the calls; once the epoch is listed it stays so. -/
theorem mem_keys_run (he : e ∈ m.keys) (ops : List EpochOp) :
    ((∃ op ∈ ops, Kills e op) → e ∈ (run (step H) m ops).destroyedEpochs) ∧
      ((∀ op ∈ ops, ¬ Kills e op) → e ∈ (run (step H) m ops).keys) := by
  induction ops generalizing m with
  | nil => exact ⟨fun ⟨_, h, _⟩ => (by cases h), fun _ => he⟩
  | cons op ops ih =>
    rw [run_cons]
    by_cases hop : Kills e op
    · have hgone := destroyedEpochs_subset_run (H := H) (m.step H op) ops
        ((mem_keys_step he op).1 hop)
      exact ⟨fun _ => hgone, fun h => absurd hop (h op List.mem_cons_self)⟩
    · obtain ⟨hkill, hkeep⟩ := ih ((mem_keys_step (H := H) he op).2 hop)
      constructor
      · rintro ⟨op', hmem, h⟩
        rcases List.mem_cons.mp hmem with rfl | hmem
        · exact absurd h hop
        · exact hkill ⟨op', hmem, h⟩
      · exact fun h => hkeep (fun op' hmem => h op' (List.mem_cons_of_mem _ hmem))

theorem master_change {m' : EpochKeyManager} (h : Change H m m') : m'.master = m.master := by
  cases h with
  | same => rfl
  | derive epochId createdAt hkeys hdestroyed => rfl
  | destroy epochIds => exact master_destroyAll epochIds

/-- The master secret stays. -/
theorem master_run (m : EpochKeyManager) (ops : List EpochOp) :
    (run (step H) m ops).master = m.master := by
  induction ops generalizing m with
  | nil => rfl
  | cons op ops ih =>
    rw [run_cons, ih]
    exact master_change (change_step op)

/-! ## What was sealed -/

/-- What `seal` made, `open` opens. -/
theorem openBytes_sealBytes (hP : Laws P) {key : Bytes32} {nonce : Vector UInt8 nonceLen}
    {plaintext sealed : List UInt8} (h : sealBytes P key nonce plaintext = .ok sealed) :
    openBytes P key sealed = .ok plaintext := by
  unfold sealBytes at h
  cases hc : P.encrypt key nonce plaintext with
  | error err =>
    rw [hc] at h
    cases h
  | ok ciphertext =>
    rw [hc] at h
    cases h
    have hlen := hP.length_encrypt key nonce plaintext ciphertext hc
    have hnonce : nonce.toList.length = nonceLen := Vector.length_toList ..
    rw [openBytes, if_neg (by rw [List.length_append]; omega), firstBytes_append, drop_append]
    exact hP.decrypt_encrypt key nonce plaintext ciphertext hc

/-- The key of an epoch that is not destroyed. -/
theorem ensureKey_of_sound (hm : Sound H m) (h : e ∉ m.destroyedEpochs) (createdAt : UInt64) :
    (m.ensureKey H e createdAt).1 = .ok (H.epochKey m.master e) := by
  rcases ensureKey_cases (H := H) (m := m) e createdAt with
    ⟨entry, hl, he⟩ | ⟨_, hd, _⟩ | ⟨_, _, he⟩
  · obtain ⟨hlive, hkey⟩ := hm.live e entry hl
    rw [he, hlive, hkey]
    rfl
  · exact absurd hd h
  · rw [he]

/-- What `encrypt_with_current_epoch` returns, and that the key is cached then. -/
theorem encryptWithCurrentEpoch_ok (hm : Sound H m) {clock createdAt : UInt64}
    {nonce : Vector UInt8 nonceLen} {plaintext sealed : List UInt8}
    (h : (m.encryptWithCurrentEpoch H P clock createdAt nonce plaintext).1 = .ok (e, sealed)) :
    e = epochIdForTimestamp clock ∧
      sealBytes P (H.epochKey m.master e) nonce plaintext = .ok sealed ∧
      e ∈ (m.encryptWithCurrentEpoch H P clock createdAt nonce plaintext).2.keys := by
  have hsnd : (m.encryptWithCurrentEpoch H P clock createdAt nonce plaintext).2 =
      (m.ensureKey H (epochIdForTimestamp clock) createdAt).2 := rfl
  have hfst : (m.encryptWithCurrentEpoch H P clock createdAt nonce plaintext).1 = (do
      let (epochId, key) ← (m.ensureKey H (epochIdForTimestamp clock) createdAt).1.map
        (fun key => (epochIdForTimestamp clock, key))
      let sealed ← (sealBytes P key nonce plaintext).mapError .encryptionError
      return (epochId, sealed)) := rfl
  rw [hfst] at h
  rw [hsnd]
  cases hkey : (m.ensureKey H (epochIdForTimestamp clock) createdAt).1 with
  | error err =>
    rw [hkey] at h
    cases h
  | ok key =>
    have hcached := mem_keys_of_ensureKey hkey
    have hd : epochIdForTimestamp clock ∉ m.destroyedEpochs := fun hd =>
      (hm.change (change_ensureKey (epochIdForTimestamp clock) createdAt)).disjoint _ hcached
        (destroyedEpochs_subset_of_change (change_ensureKey (H := H) _ createdAt) hd)
    rw [ensureKey_of_sound hm hd] at hkey
    cases hkey
    rw [ensureKey_of_sound hm hd] at h
    cases hseal : sealBytes P (H.epochKey m.master (epochIdForTimestamp clock)) nonce plaintext with
    | error err =>
      simp only [Except.map, bind, Except.bind, hseal, Except.mapError] at h
      cases h
    | ok bytes =>
      simp only [Except.map, bind, Except.bind, hseal, Except.mapError] at h
      cases h
      exact ⟨rfl, hseal, hcached⟩

theorem decryptWithEpochKey_destroyed (hd : e ∈ m.destroyedEpochs) (createdAt : UInt64)
    (sealed : List UInt8) : (m.decryptWithEpochKey H P e createdAt sealed).1 = .ok none := by
  rw [decryptWithEpochKey, epochKeyFor, if_pos hd]
  rfl

theorem decryptWithEpochKey_live (hP : Laws P) (hm : Sound H m) (hd : e ∉ m.destroyedEpochs)
    {nonce : Vector UInt8 nonceLen} {plaintext sealed : List UInt8}
    (h : sealBytes P (H.epochKey m.master e) nonce plaintext = .ok sealed) (createdAt : UInt64) :
    (m.decryptWithEpochKey H P e createdAt sealed).1 = .ok (some plaintext) := by
  rw [decryptWithEpochKey, epochKeyFor_of_not_destroyed hd, ensureKey_of_sound hm hd]
  simp only [Except.map, bind, Except.bind, openBytes_sealBytes hP h, Except.mapError]
  rfl

/-- **Readable until shredded.**  What `encrypt_with_current_epoch` returned in any run opens after
every further run in which no call destroyed the key of its day, and after one such call nothing
opens it, whatever else was sealed, opened, rotated or destroyed. -/
theorem decrypt_after (hP : Laws P) (master : List UInt8) (before after : List CryptoOp)
    (clock createdAt createdAt' e : UInt64) (nonce : Vector UInt8 nonceLen)
    (plaintext sealed : List UInt8)
    (h : ((run (cryptoStep H P) (new master) before).encryptWithCurrentEpoch H P clock createdAt
      nonce plaintext).1 = .ok (e, sealed)) :
    let m := run (cryptoStep H P) (new master)
      (before ++ .encrypt clock createdAt nonce plaintext :: after)
    e = epochIdForTimestamp clock ∧
    ((∃ op ∈ after, Kills e op.keyOp) →
      (m.decryptWithEpochKey H P e createdAt' sealed).1 = .ok none) ∧
    ((∀ op ∈ after, ¬ Kills e op.keyOp) →
      (m.decryptWithEpochKey H P e createdAt' sealed).1 = .ok (some plaintext)) := by
  intro m
  have hbefore : Sound H (run (cryptoStep H P) (new master) before) := by
    rw [run_cryptoStep]
    exact sound_run (sound_new master) _
  have hmaster : (run (cryptoStep H P) (new master) before).master = master := by
    rw [run_cryptoStep, master_run]
    rfl
  obtain ⟨hday, hseal, hcached⟩ := encryptWithCurrentEpoch_ok hbefore h
  rw [hmaster] at hseal
  -- from the sealing on the key is in the cache
  have hm : m = run (step H) ((run (cryptoStep H P) (new master) before).encryptWithCurrentEpoch H P
      clock createdAt nonce plaintext).2 (after.map CryptoOp.keyOp) := by
    rw [← run_cryptoStep]
    exact run_append _ _ _
  have hall := run_cryptoStep H P (new master)
    (before ++ .encrypt clock createdAt nonce plaintext :: after)
  have hsound : Sound H m := by
    show Sound H (run (cryptoStep H P) _ _)
    rw [hall]
    exact sound_run (sound_new master) _
  have hmaster' : m.master = master := by
    show (run (cryptoStep H P) _ _).master = _
    rw [hall, master_run]
    rfl
  obtain ⟨hkill, hkeep⟩ := mem_keys_run (H := H) hcached (after.map CryptoOp.keyOp)
  rw [← hm] at hkill hkeep
  refine ⟨hday, ?_, ?_⟩
  · rintro ⟨op, hop, hk⟩
    exact decryptWithEpochKey_destroyed (hkill ⟨_, List.mem_map_of_mem hop, hk⟩) _ _
  · intro hlive
    have hin : e ∈ m.keys := hkeep (fun op hop => by
      obtain ⟨op', hop', rfl⟩ := List.mem_map.mp hop
      exact hlive op' hop')
    rw [← hmaster'] at hseal
    exact decryptWithEpochKey_live hP hsound (hsound.disjoint e hin) hseal _

/-- A text sealed on day 40 and read on day 71, before and after the keys are destroyed. -/
theorem decrypt_after_example :
    ((run (cryptoStep constHkdf plainSuite) (new []) [.encrypt 3456000 3456000
        (Vector.replicate 24 0) [104, 105], .key (.destroyExpiredKeysAt (.asListed _) 6048000)]
      ).decryptWithEpochKey constHkdf plainSuite 40 6134400
        (List.replicate 24 0 ++ [104, 105] ++ List.replicate 16 0)).1 = .ok (some [104, 105]) ∧
    ((run (cryptoStep constHkdf plainSuite) (new []) [.encrypt 3456000 3456000
        (Vector.replicate 24 0) [104, 105], .key (.destroyExpiredKeysAt (.asListed _) 6134400)]
      ).decryptWithEpochKey constHkdf plainSuite 40 6134400
        (List.replicate 24 0 ++ [104, 105] ++ List.replicate 16 0)).1 = .ok none := by
  have hseal : ((run (cryptoStep constHkdf plainSuite) (new []) []).encryptWithCurrentEpoch
      constHkdf plainSuite 3456000 3456000 (Vector.replicate 24 0) [104, 105]).1 =
      .ok (40, List.replicate 24 0 ++ [104, 105] ++ List.replicate 16 0) := by decide +kernel
  obtain ⟨-, -, hlive⟩ := decrypt_after laws_plainSuite [] []
    [.key (.destroyExpiredKeysAt (.asListed _) 6048000)] 3456000 3456000 6134400 40 _ _ _ hseal
  obtain ⟨-, hkilled, -⟩ := decrypt_after laws_plainSuite [] []
    [.key (.destroyExpiredKeysAt (.asListed _) 6134400)] 3456000 3456000 6134400 40 _ _ _ hseal
  refine ⟨hlive (fun op hop => ?_), hkilled ⟨_, List.mem_singleton.mpr rfl, ?_⟩⟩
  · rw [List.mem_singleton.mp hop]
    show ¬ (_ ∧ _)
    decide
  · show _ ∧ _
    exact ⟨by decide, by decide⟩

end EpochKeyManager
