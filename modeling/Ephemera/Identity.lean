/-
# Which pseudonym is active (`ephemera-node/src/services/identity.rs`)

`IdentityService` keeps the active key pair, its index, the master secret and the number of
pseudonyms in four separate fields; seven operations write a different subset of them each.
`switch_pseudonym` takes any index and truncates it to 32 bits, and `create` leaves the index
of the identity before it in place.

`step_effect` says once what a call can do to the fields.  `coherent_iff_meets` is the exact
condition on a run under which the fields always fit together.
-/
import Ephemera.GuardedRun
import Ephemera.Keystore
import Ephemera.StateExcept

namespace Identity

open GuardedRun StateExcept Keystore

/-! ## The service -/

/-- `IdentityService` with the two files it keeps; the devices are left out. -/
structure IdentityService where
  keystoreFile : Option (List UInt8)
  sessionFile : Option String
  activeKeypair : Option Seed
  activeIndex : UInt32
  masterSecret : Option Seed
  pseudonymCount : UInt32

/-- The service of a node that starts for the first time. -/
def IdentityService.new : IdentityService := ⟨none, none, none, 0, none, 0⟩

/-- The methods of the service: they keep the writes made before an error. -/
abbrev IdentityM := StateExcept String IdentityService

/-- `NodeServiceError::IdentityLocked`. -/
def identityLocked : String := "identity locked -- create or unlock first"

/-- `NodeServiceError::Crypto`. -/
def cryptoError (e : EphemeraError) : String := "crypto error: " ++ e.text

/-- `NodeServiceError::Keystore`. -/
def keystoreError (reason : String) : String := "keystore error: " ++ reason

/-- `char::is_whitespace`. -/
def isWhitespace (c : Char) : Bool :=
  (9 ≤ c.toNat && c.toNat ≤ 13) || (0x2000 ≤ c.toNat && c.toNat ≤ 0x200A) ||
    [0x20, 0x85, 0xA0, 0x1680, 0x2028, 0x2029, 0x202F, 0x205F, 0x3000].contains c.toNat

/-- `str::trim`. -/
def trim (text : String) : String :=
  String.ofList (((text.toList.dropWhile isWhitespace).reverse.dropWhile isWhitespace).reverse)

variable (K : KeySuite)

/-! ## Saving a new identity -/

/-- Save the keystore of a new identity, with its first pseudonym as the only one. -/
def saveNew (master pseudonym : Seed) (passphrase : List UInt8) (entropy : SaveEntropy) :
    IdentityM Unit := do
  let bytes ← liftM ((saveBytes K passphrase
    ⟨master, entropy.nodeSecret, [⟨0, pseudonym⟩]⟩ entropy).mapError
      (fun e => keystoreError ("save failed: " ++ e)))
  match entropy.writeError with
  | some e => throw (keystoreError ("save failed: I/O error: " ++ e))
  | none => modify fun s => { s with keystoreFile := some bytes }

/-- `IdentityService::create`, with the master secret it draws. -/
def create (passphrase : List UInt8) (master : Seed) (entropy : SaveEntropy) :
    IdentityM (String × UInt32) := do
  let pseudonym ← liftM ((K.derivePseudonymKey master 0).mapError cryptoError)
  saveNew K master pseudonym passphrase entropy
  modify fun s => { s with
    activeKeypair := some pseudonym
    masterSecret := some master
    pseudonymCount := 1 }
  return (Hex.encode (K.ed25519Public pseudonym).toList, 0)

/-- `import_master_secret`. -/
def importMasterSecret (master : Seed) (passphrase : List UInt8) (entropy : SaveEntropy) :
    IdentityM (String × UInt32) := do
  let pseudonym ← liftM ((K.derivePseudonymKey master 0).mapError cryptoError)
  saveNew K master pseudonym passphrase entropy
  modify fun s => { s with
    activeKeypair := some pseudonym
    masterSecret := some master
    activeIndex := 0
    pseudonymCount := 1 }
  return (Hex.encode (K.ed25519Public pseudonym).toList, 0)

/-- `IdentityService::import_mnemonic`. -/
def importMnemonic (words : List String) (passphrase : List UInt8) (entropy : SaveEntropy) :
    IdentityM (String × UInt32) := do
  let master ← liftM ((fromMnemonic K words).mapError (fun e => "crypto error: " ++ e))
  importMasterSecret K master passphrase entropy

/-- `IdentityService::import_backup`. -/
def importBackup (backupHex : String) (backupPassphrase newPassphrase : List UInt8)
    (entropy : SaveEntropy) : IdentityM (String × UInt32) := do
  let data ← liftM ((Hex.decode backupHex).mapError (fun e => "hex decode error: " ++ e))
  let master ← liftM ((fromEncryptedBackup K data backupPassphrase).mapError
    (fun e => "crypto error: " ++ e))
  importMasterSecret K master newPassphrase entropy

/-! ## Loading and locking -/

/-- `load_contents`: the first pseudonym becomes the active one. -/
def loadContents (contents : KeystoreContents) : IdentityM UInt32 := do
  match contents.pseudonymSecrets with
  | [] => throw (keystoreError "keystore has no pseudonyms")
  | entry :: rest =>
    modify fun s => { s with
      activeKeypair := some entry.secret
      activeIndex := entry.index
      masterSecret := some contents.masterSecret
      pseudonymCount := (entry :: rest).length.toUInt32 }
    return (entry :: rest).length.toUInt32

/-- `save_session_key`; a failure to write it is only logged. -/
def saveSessionKey (key : Seed) (written : Bool) : IdentityM Unit :=
  modify fun s => if written then { s with sessionFile := some (Hex.encode key.toList) } else s

/-- The session file is removed, if it is there. -/
def removeSession : IdentityM Unit := modify fun s => { s with sessionFile := none }

/-- `IdentityService::unlock`. -/
def unlock (passphrase : List UInt8) (remember written : Bool) : IdentityM UInt32 := do
  let file := (← get).keystoreFile
  let contents ← liftM ((loadKeystore K file passphrase).mapError
    (fun e => keystoreError ("unlock failed: " ++ e)))
  if remember then
    match deriveKeyForKeystore K file passphrase with
    | .ok key => saveSessionKey key written
    | .error _ => pure ()
  loadContents contents

/-- The reply of `auto_unlock`: the number of pseudonyms, or why nothing was unlocked. -/
inductive AutoUnlock where
  | unlocked (pseudonymCount : UInt32)
  | locked (reason : Option String)

/-- `IdentityService::auto_unlock`: a session key that does not open the keystore is removed. -/
def autoUnlock : IdentityM AutoUnlock := do
  let s ← get
  match s.sessionFile with
  | none => return .locked none
  | some text =>
    match Hex.decode (trim text) with
    | .error e =>
      removeSession
      throw (keystoreError ("bad session key: " ++ e))
    | .ok bytes =>
      if h : bytes.length = 32 then
        match loadKeystoreWithKey K s.keystoreFile ⟨bytes.toArray, h⟩ with
        | .ok contents => return .unlocked (← loadContents contents)
        | .error _ =>
          removeSession
          return .locked (some "session expired")
      else
        removeSession
        throw (keystoreError "session key wrong length")

/-- `IdentityService::lock`: the index and the number of pseudonyms stay. -/
def lock (forget : Bool) : IdentityM Unit := do
  modify fun s => { s with activeKeypair := none, masterSecret := none }
  if forget then removeSession

/-! ## Pseudonyms -/

/-- `IdentityService::get_active`: the public key in hexadecimal, and the index. -/
def getActive (s : IdentityService) : Except String (String × UInt32) :=
  match s.activeKeypair with
  | none => .error identityLocked
  | some keypair => .ok (Hex.encode (K.ed25519Public keypair).toList, s.activeIndex)

/-- `IdentityService::list_pseudonyms`: the indices below the count with their public keys. -/
def listPseudonyms (s : IdentityService) : Except String (List (UInt32 × String)) :=
  match s.masterSecret with
  | none => .error identityLocked
  | some master => (List.range s.pseudonymCount.toNat).mapM fun i => do
    let keypair ← (K.derivePseudonymKey master i.toUInt32).mapError cryptoError
    return (i.toUInt32, Hex.encode (K.ed25519Public keypair).toList)

/-- `IdentityService::switch_pseudonym`: `index as u32`, without a look at the count. -/
def switchPseudonym (index : UInt64) : IdentityM String := do
  match (← get).masterSecret with
  | none => throw identityLocked
  | some master =>
    let keypair ← liftM ((K.derivePseudonymKey master index.toUInt32).mapError cryptoError)
    modify fun s => { s with activeKeypair := some keypair, activeIndex := index.toUInt32 }
    return Hex.encode (K.ed25519Public keypair).toList

/-! ## Runs -/

/-- The calls of the service, and the restart of the node, which keeps the files. -/
inductive Op where
  | create (passphrase : List UInt8) (master : Seed) (entropy : SaveEntropy)
  | unlock (passphrase : List UInt8) (remember written : Bool)
  | autoUnlock
  | lock (forget : Bool)
  | switchPseudonym (index : UInt64)
  | importMnemonic (words : List String) (passphrase : List UInt8) (entropy : SaveEntropy)
  | importBackup (backupHex : String) (backupPassphrase newPassphrase : List UInt8)
      (entropy : SaveEntropy)
  | restart

/-- The service after a call, also after one that fails. -/
def step (s : IdentityService) : Op → IdentityService
  | .create passphrase master entropy => (exec (create K passphrase master entropy) s).2
  | .unlock passphrase remember written => (exec (unlock K passphrase remember written) s).2
  | .autoUnlock => (exec (autoUnlock K) s).2
  | .lock forget => (exec (lock forget) s).2
  | .switchPseudonym index => (exec (switchPseudonym K index) s).2
  | .importMnemonic words passphrase entropy =>
    (exec (importMnemonic K words passphrase entropy) s).2
  | .importBackup backupHex backupPassphrase newPassphrase entropy =>
    (exec (importBackup K backupHex backupPassphrase newPassphrase entropy) s).2
  | .restart => { IdentityService.new with
      keystoreFile := s.keystoreFile, sessionFile := s.sessionFile }

/-- A loaded key pair is the one derived for the active index, which is below the number of
pseudonyms, and the list of pseudonyms shows what `get_active` returns. -/
structure Fits (s : IdentityService) (keypair : Seed) : Prop where
  derived : ∃ master, s.masterSecret = some master ∧
    K.derivePseudonymKey master s.activeIndex = .ok keypair
  inRange : s.activeIndex < s.pseudonymCount
  listed : ∃ pubkey index pseudonyms, getActive K s = .ok (pubkey, index) ∧
    listPseudonyms K s = .ok pseudonyms ∧ (index, pubkey) ∈ pseudonyms

/-- **Coherence**: whatever key pair is loaded fits. -/
def Coherent (s : IdentityService) : Prop :=
  ∀ keypair, s.activeKeypair = some keypair → Fits K s keypair

/-- **The condition**: an unlocked identity switches to an index below the number of
pseudonyms, once the index is truncated. -/
def InRange (s : IdentityService) : Op → Prop
  | .switchPseudonym index => s.masterSecret ≠ none → index.toUInt32 < s.pseudonymCount
  | _ => True

/-- The key with which a call opens the keystore file. -/
def openingKey (s : IdentityService) : Op → Option Seed
  | .unlock passphrase _ _ => (deriveKeyForKeystore K s.keystoreFile passphrase).toOption
  | .autoUnlock => do
    let bytes ← (Hex.decode (trim (← s.sessionFile))).toOption
    if h : bytes.length = 32 then some ⟨bytes.toArray, h⟩ else none
  | _ => none

/-- `opened` holds of the key and the sealed contents that a call tries on each other. -/
def Opens (opened : Seed → List UInt8 → Prop) (s : IdentityService) (op : Op) : Prop :=
  ∀ bytes key, s.keystoreFile = some bytes → openingKey K s op = some key →
    opened key (bytes.drop (4 + saltLen))

/-! ## What a call does -/

/-- What a call can do to the fields and the keystore; the session file does not matter. -/
inductive Effect (s : IdentityService) : Op → IdentityService → Prop
  | unchanged (op : Op) (session : Option String) : Effect s op { s with sessionFile := session }
  | saved (op : Op) {bytes passphrase : List UInt8} {master : Seed} {entropy : SaveEntropy}
      (h : saveBytes K passphrase ⟨master, entropy.nodeSecret, [⟨0, K.pseudonymKey master 0⟩]⟩
        entropy = .ok bytes) {index : UInt32} (hindex : index = 0 ∨ index = s.activeIndex) :
      Effect s op { s with
        keystoreFile := some bytes
        activeKeypair := some (K.pseudonymKey master 0)
        activeIndex := index
        masterSecret := some master
        pseudonymCount := 1 }
  | loaded (op : Op) (session : Option String) {bytes : List UInt8} {key : Seed} {failed : String}
      {contents : KeystoreContents} {entry : PseudonymEntry} {rest : List PseudonymEntry}
      (hfile : s.keystoreFile = some bytes) (hkey : openingKey K s op = some key)
      (h : openContents K bytes key failed = .ok contents)
      (hentries : contents.pseudonymSecrets = entry :: rest) :
      Effect s op { s with
        sessionFile := session
        activeKeypair := some entry.secret
        activeIndex := entry.index
        masterSecret := some contents.masterSecret
        pseudonymCount := (entry :: rest).length.toUInt32 }
  | locked (op : Op) (session : Option String) :
      Effect s op { s with sessionFile := session, activeKeypair := none, masterSecret := none }
  | switched (index : UInt64) {master : Seed} (hmaster : s.masterSecret = some master) :
      Effect s (.switchPseudonym index) { s with
        activeKeypair := some (K.pseudonymKey master index.toUInt32)
        activeIndex := index.toUInt32 }
  | restarted (op : Op) :
      Effect s op { IdentityService.new with
        keystoreFile := s.keystoreFile, sessionFile := s.sessionFile }

variable {K}

/-- A save that fails leaves the file. -/
theorem exec_saveNew_cases (master pseudonym : Seed) (passphrase : List UInt8)
    (entropy : SaveEntropy) (s : IdentityService) :
    (∃ e, exec (saveNew K master pseudonym passphrase entropy) s = (.error e, s)) ∨
      ∃ bytes, saveBytes K passphrase ⟨master, entropy.nodeSecret, [⟨0, pseudonym⟩]⟩ entropy
          = .ok bytes ∧
        exec (saveNew K master pseudonym passphrase entropy) s
          = (.ok (), { s with keystoreFile := some bytes }) := by
  unfold saveNew
  cases hsave : saveBytes K passphrase ⟨master, entropy.nodeSecret, [⟨0, pseudonym⟩]⟩ entropy with
  | error e =>
    refine Or.inl ⟨keystoreError ("save failed: " ++ e), ?_⟩
    rw [exec_bind, exec_lift]
    rfl
  | ok bytes =>
    cases hwrite : entropy.writeError with
    | some e =>
      refine Or.inl ⟨keystoreError ("save failed: I/O error: " ++ e), ?_⟩
      rw [exec_bind, exec_lift]
      rfl
    | none =>
      refine Or.inr ⟨bytes, rfl, ?_⟩
      rw [exec_bind, exec_lift]
      rfl

theorem effect_create (passphrase : List UInt8) (master : Seed) (entropy : SaveEntropy)
    (s : IdentityService) (op : Op) :
    Effect K s op (exec (create K passphrase master entropy) s).2 := by
  rw [create, K.derivePseudonymKey_eq, exec_bind, exec_lift]
  simp only [Except.mapError]
  rw [exec_bind]
  rcases exec_saveNew_cases (K := K) master (K.pseudonymKey master 0) passphrase entropy s with
    ⟨e, he⟩ | ⟨bytes, hsave, hok⟩
  · rw [he]
    exact .unchanged op s.sessionFile
  · rw [hok]
    exact .saved op hsave (Or.inr rfl)

theorem effect_importMasterSecret (master : Seed) (passphrase : List UInt8)
    (entropy : SaveEntropy) (s : IdentityService) (op : Op) :
    Effect K s op (exec (importMasterSecret K master passphrase entropy) s).2 := by
  rw [importMasterSecret, K.derivePseudonymKey_eq, exec_bind, exec_lift]
  simp only [Except.mapError]
  rw [exec_bind]
  rcases exec_saveNew_cases (K := K) master (K.pseudonymKey master 0) passphrase entropy s with
    ⟨e, he⟩ | ⟨bytes, hsave, hok⟩
  · rw [he]
    exact .unchanged op s.sessionFile
  · rw [hok]
    exact .saved op hsave (Or.inl rfl)

/-- Loading contents that a file opens to. -/
theorem effect_loadContents {s : IdentityService} {bytes : List UInt8} {key : Seed}
    {failed : String} {contents : KeystoreContents} {op : Op}
    (hfile : s.keystoreFile = some bytes) (hkey : openingKey K s op = some key)
    (h : openContents K bytes key failed = .ok contents) (session : Option String) :
    Effect K s op (exec (loadContents contents) { s with sessionFile := session }).2 := by
  unfold loadContents
  cases hentries : contents.pseudonymSecrets with
  | nil => exact .unchanged op session
  | cons entry rest => exact .loaded op session hfile hkey h hentries

theorem effect_unlock (passphrase : List UInt8) (remember written : Bool) (s : IdentityService) :
    Effect K s (.unlock passphrase remember written)
      (exec (unlock K passphrase remember written) s).2 := by
  unfold unlock
  rw [exec_bind, exec_get]
  simp only
  rw [exec_bind, exec_lift]
  cases hload : loadKeystore K s.keystoreFile passphrase with
  | error e => exact .unchanged _ s.sessionFile
  | ok contents =>
    obtain ⟨bytes, key, failed, hfile, hderive, hopen⟩ := openContents_of_loadKeystore hload
    have hkey : openingKey K s (.unlock passphrase remember written) = some key := by
      rw [openingKey, hderive]
      rfl
    simp only [Except.mapError]
    cases remember with
    | false => exact effect_loadContents hfile hkey hopen s.sessionFile
    | true =>
      cases deriveKeyForKeystore K s.keystoreFile passphrase with
      | error e => exact effect_loadContents hfile hkey hopen s.sessionFile
      | ok sessionKey =>
        cases written with
        | false => exact effect_loadContents hfile hkey hopen s.sessionFile
        | true =>
          exact effect_loadContents hfile hkey hopen (some (Hex.encode sessionKey.toList))

theorem effect_autoUnlock (s : IdentityService) :
    Effect K s .autoUnlock (exec (autoUnlock K) s).2 := by
  unfold autoUnlock
  rw [exec_bind, exec_get]
  simp only
  cases hsession : s.sessionFile with
  | none => exact .unchanged _ s.sessionFile
  | some text =>
    simp only
    cases hdecode : Hex.decode (trim text) with
    | error e => exact .unchanged _ none
    | ok bytes =>
      simp only
      split
      · rename_i hlen
        cases hload : loadKeystoreWithKey K s.keystoreFile ⟨bytes.toArray, hlen⟩ with
        | error e => exact .unchanged _ none
        | ok contents =>
          obtain ⟨file, failed, hfile, hopen⟩ := openContents_of_loadKeystoreWithKey hload
          have hkey : openingKey K s .autoUnlock = some ⟨bytes.toArray, hlen⟩ := by
            simp [openingKey, hsession, hdecode, Except.toOption, hlen]
          simp only
          rw [exec_bind_pure_snd]
          exact effect_loadContents hfile hkey hopen s.sessionFile
      · exact .unchanged _ none

/-- **What a call does.** -/
theorem step_effect (s : IdentityService) (op : Op) : Effect K s op (step K s op) := by
  cases op with
  | create passphrase master entropy => exact effect_create passphrase master entropy s _
  | unlock passphrase remember written => exact effect_unlock passphrase remember written s
  | autoUnlock => exact effect_autoUnlock s
  | lock forget =>
    cases forget with
    | false => exact .locked _ s.sessionFile
    | true => exact .locked _ none
  | switchPseudonym index =>
    rw [step, switchPseudonym, exec_bind, exec_get]
    simp only
    cases hmaster : s.masterSecret with
    | none => exact .unchanged _ s.sessionFile
    | some master =>
      simp only [K.derivePseudonymKey_eq, Except.mapError, exec_bind, exec_lift, exec_modify,
        exec_pure]
      exact .switched index hmaster
  | importMnemonic words passphrase entropy =>
    rw [step, importMnemonic, exec_bind, exec_lift]
    cases (fromMnemonic K words).mapError (fun e => "crypto error: " ++ e) with
    | error e => exact .unchanged _ s.sessionFile
    | ok master => exact effect_importMasterSecret master passphrase entropy s _
  | importBackup backupHex backupPassphrase newPassphrase entropy =>
    rw [step, importBackup, exec_bind, exec_lift]
    cases (Hex.decode backupHex).mapError (fun e => "hex decode error: " ++ e) with
    | error e => exact .unchanged _ s.sessionFile
    | ok data =>
      simp only [exec_bind, exec_lift]
      cases (fromEncryptedBackup K data backupPassphrase).mapError
          (fun e => "crypto error: " ++ e) with
      | error e => exact .unchanged _ s.sessionFile
      | ok master => exact effect_importMasterSecret master newPassphrase entropy s _
  | restart => exact .restarted _

/-! ## The invariant -/

variable (K) (opened : Seed → List UInt8 → Prop)

/-- What conforming calls keep: the keystore holds one pseudonym, that of index 0, and so does
the memory when it is unlocked. -/
structure Steady (s : IdentityService) : Prop where
  backed : ∀ bytes key failed contents, s.keystoreFile = some bytes →
    opened key (bytes.drop (4 + saltLen)) → openContents K bytes key failed = .ok contents →
      contents.pseudonymSecrets = [⟨0, K.pseudonymKey contents.masterSecret 0⟩]
  index : s.activeIndex = 0
  count : ∀ master, s.masterSecret = some master → s.pseudonymCount = 1
  keypair : ∀ keypair, s.activeKeypair = some keypair →
    ∃ master, s.masterSecret = some master ∧ keypair = K.pseudonymKey master 0

variable {K} {opened}

theorem steady_new : Steady K opened .new := by
  refine ⟨?_, rfl, ?_, ?_⟩
  · intro bytes key failed contents hfile
    cases hfile
  · intro master hmaster
    cases hmaster
  · intro keypair hkeypair
    cases hkeypair

theorem Steady.step (hK : K.Lawful opened) {s : IdentityService} (h : Steady K opened s) {op : Op}
    (hop : InRange s op) (hopens : Opens K opened s op) : Steady K opened (step K s op) := by
  generalize hs' : Identity.step K s op = s'
  have heffect := step_effect (K := K) s op
  rw [hs'] at heffect
  cases heffect with
  | unchanged _ session => exact ⟨h.backed, h.index, h.count, h.keypair⟩
  | saved _ hsave hindex =>
    refine ⟨?_, ?_, fun _ _ => rfl, ?_⟩
    · intro file key failed contents hfile hopened hopen
      cases hfile
      rw [openContents_saveBytes hK hsave hopened hopen]
    · rcases hindex with rfl | rfl
      · rfl
      · exact h.index
    · intro keypair hkeypair
      cases hkeypair
      exact ⟨_, rfl, rfl⟩
  | loaded _ session hfile hkey hopen hentries =>
    rename_i bytes key failed contents entry rest
    have hone := h.backed _ _ _ _ hfile (hopens _ _ hfile hkey) hopen
    rw [hentries, List.cons.injEq] at hone
    obtain ⟨rfl, rfl⟩ := hone
    refine ⟨h.backed, rfl, fun _ _ => rfl, ?_⟩
    intro keypair hkeypair
    cases hkeypair
    exact ⟨_, rfl, rfl⟩
  | locked _ session =>
    refine ⟨h.backed, h.index, ?_, ?_⟩
    · intro master hmaster
      cases hmaster
    · intro keypair hkeypair
      cases hkeypair
  | switched index hmaster =>
    -- the only index below the count is 0
    have hlt : index.toUInt32 < s.pseudonymCount :=
      hop (by rw [hmaster]; exact Option.some_ne_none _)
    have hzero : index.toUInt32 = 0 := by
      rw [h.count _ hmaster, UInt32.lt_iff_toNat_lt] at hlt
      refine UInt32.toNat_inj.mp ?_
      have hone : (1 : UInt32).toNat = 1 := rfl
      have hnil : (0 : UInt32).toNat = 0 := rfl
      omega
    refine ⟨h.backed, hzero, h.count, ?_⟩
    intro keypair hkeypair
    cases hkeypair
    exact ⟨_, hmaster, by rw [hzero]⟩
  | restarted _ =>
    refine ⟨h.backed, rfl, ?_, ?_⟩
    · intro master hmaster
      cases hmaster
    · intro keypair hkeypair
      cases hkeypair

/-! ## The list of pseudonyms -/

/-- The text of a public key. -/
def pubkeyHex (K : KeySuite) (keypair : Seed) : String :=
  Hex.encode (K.ed25519Public keypair).toList

/-- Listing the pseudonyms of an unlocked identity does not fail. -/
theorem listPseudonyms_eq {s : IdentityService} {master : Seed}
    (hmaster : s.masterSecret = some master) :
    listPseudonyms K s = .ok ((List.range s.pseudonymCount.toNat).map
      (fun i => (i.toUInt32, pubkeyHex K (K.pseudonymKey master i.toUInt32)))) := by
  rw [listPseudonyms, hmaster]
  simp only [K.derivePseudonymKey_eq, Except.mapError, bind, Except.bind]
  exact List.mapM_pure

/-- A key pair derived for an index below the count fits. -/
theorem fits_of_derived {s : IdentityService} {master keypair : Seed}
    (hkeypair : s.activeKeypair = some keypair) (hmaster : s.masterSecret = some master)
    (hderived : keypair = K.pseudonymKey master s.activeIndex)
    (hlt : s.activeIndex < s.pseudonymCount) : Fits K s keypair := by
  refine ⟨⟨master, hmaster, ?_⟩, hlt, pubkeyHex K keypair, s.activeIndex, _, ?_,
    listPseudonyms_eq hmaster, ?_⟩
  · rw [K.derivePseudonymKey_eq, hderived]
  · rw [getActive, hkeypair]
    rfl
  · refine List.mem_map.mpr ⟨s.activeIndex.toNat, ?_, ?_⟩
    · exact List.mem_range.mpr (UInt32.lt_iff_toNat_lt.mp hlt)
    · have hback : s.activeIndex.toNat.toUInt32 = s.activeIndex := UInt32.ofNat_toNat
      rw [hback, hderived]

theorem Steady.coherent {s : IdentityService} (h : Steady K opened s) : Coherent K s := by
  intro keypair hkeypair
  obtain ⟨master, hmaster, hderived⟩ := h.keypair keypair hkeypair
  refine fits_of_derived hkeypair hmaster ?_ ?_
  · rw [hderived, h.index]
  · rw [h.index, h.count master hmaster]
    decide

/-! ## The main result -/

/-- A switch that succeeds leaves a coherent state only if its index is in range. -/
theorem inRange_of_coherent {s : IdentityService} {op : Op} (h : Coherent K (step K s op)) :
    InRange s op := by
  cases op with
  | switchPseudonym index =>
    intro hmaster
    obtain ⟨master, hmaster⟩ := Option.ne_none_iff_exists'.mp hmaster
    have hstep : step K s (.switchPseudonym index) = { s with
        activeKeypair := some (K.pseudonymKey master index.toUInt32)
        activeIndex := index.toUInt32 } := by
      rw [step, switchPseudonym, exec_bind, exec_get]
      simp only [hmaster, K.derivePseudonymKey_eq, Except.mapError, exec_bind, exec_lift,
        exec_modify, exec_pure]
    rw [hstep] at h
    exact (h _ rfl).inRange
  | _ => trivial

/-- **Exactly when the identity is coherent.**  Every state of a run is coherent if and only
if every switch of an unlocked identity, in that run, is to an index in range. -/
theorem coherent_iff_meets (hK : K.Lawful opened) (ops : List Op)
    (hopens : Meets (step K) (Opens K opened) .new ops) :
    (∀ l₁ l₂, ops = l₁ ++ l₂ → Coherent K (run (step K) .new l₁)) ↔
      Meets (step K) InRange .new ops := by
  constructor
  · intro h
    refine meets_iff_forall_split.mpr (fun l₁ op l₂ heq => inRange_of_coherent (K := K) ?_)
    have hafter := h (l₁ ++ [op]) l₂ (by rw [heq, List.append_assoc, List.singleton_append])
    rw [run_append, run_cons, run_nil] at hafter
    exact hafter
  · intro h l₁ l₂ heq
    rw [heq, meets_append] at h hopens
    have hsteady : Steady K opened (run (step K) .new l₁) := by
      refine run_invariant ?_ steady_new (h.1.and hopens.1)
      rintro s op hs ⟨hop, hopen⟩
      exact hs.step hK hop hopen
    exact hsteady.coherent

/-! ## Examples -/

/-- A suite for the examples: a box shows its key, and contents are written one after the
other when there is one pseudonym. -/
def plainSuite : KeySuite where
  expand ikm _ info := Vector.ofFn (fun i => ikm.getD i.val 0 + info.getD 18 0)
  argon2id passphrase salt := .ok (Vector.ofFn (fun i => (passphrase ++ salt).getD i.val 0))
  encrypt key _ plaintext := .ok (key.toList ++ plaintext)
  decrypt key _ ciphertext :=
    if ciphertext.take 32 = key.toList then .ok (ciphertext.drop 32) else .error "aead::Error"
  sha256 _ := Vector.replicate 32 0
  ed25519Public seed := seed
  contentsToVec contents :=
    match contents.pseudonymSecrets with
    | [⟨0, secret⟩] =>
      .ok (contents.masterSecret.toList ++ contents.nodeSecret.toList ++ secret.toList)
    | _ => .error "not supported"
  contentsFromSlice bytes :=
    .ok ⟨Vector.ofFn (fun i => bytes.getD i.val 0),
      Vector.ofFn (fun i => bytes.getD (32 + i.val) 0),
      [⟨0, Vector.ofFn (fun i => bytes.getD (64 + i.val) 0)⟩]⟩
  toLowercase := id
  wordlist := []

/-- A seed is read back from its place in a text. -/
theorem ofFn_getD (before after : List UInt8) (seed : Seed) :
    (Vector.ofFn (fun i : Fin 32 =>
      (before ++ (seed.toList ++ after)).getD (before.length + i.val) 0) : Seed) = seed := by
  ext i hi
  have hlen : i < seed.toList.length := by
    rw [Vector.length_toList]
    exact hi
  rw [Vector.getElem_ofFn, List.getD_eq_getElem?_getD,
    List.getElem?_append_right (Nat.le_add_right _ _), Nat.add_sub_cancel_left,
    List.getElem?_append_left hlen, List.getElem?_eq_getElem hlen, Option.getD_some,
    Vector.getElem_toList]

theorem plainSuite_lawful (opened : Seed → List UInt8 → Prop) : plainSuite.Lawful opened := by
  refine ⟨?_, ?_⟩
  · intro key key' nonce plaintext plaintext' ciphertext h _ h'
    simp only [plainSuite] at h h'
    split_ifs at h' with hkey
    rw [← Except.ok.inj h', ← Except.ok.inj h]
    exact List.drop_left' Vector.length_toList
  · intro contents bytes h
    simp only [plainSuite] at h ⊢
    split at h
    · rename_i secret hone
      obtain rfl := Except.ok.inj h
      obtain ⟨master, node, entries⟩ := contents
      simp only at hone ⊢
      have hmaster := ofFn_getD [] (node.toList ++ secret.toList) master
      have hnode := ofFn_getD master.toList secret.toList node
      have hsecret := ofFn_getD (master.toList ++ node.toList) [] secret
      simp only [List.nil_append, List.append_nil, List.length_nil, Nat.zero_add,
        List.length_append,
        Vector.length_toList, List.append_assoc] at hmaster hnode hsecret ⊢
      rw [hmaster, hnode, hsecret, hone]
    · cases h

/-- The randomness of a save, for the examples. -/
def plainEntropy : SaveEntropy where
  salt := List.replicate saltLen 0
  salt_length := List.length_replicate
  nonce := List.replicate nonceLen 0
  nonce_length := List.length_replicate
  nodeSecret := Vector.replicate 32 9
  writeError := none

/-- A new identity. -/
def created : Op := .create [112, 119] (Vector.replicate 32 5) plainEntropy

/-- A new identity that is locked, unlocked and switched to its only pseudonym. -/
theorem coherent_iff_meets_unlocked :
    plainSuite.Lawful (fun _ _ => True) ∧
      ((∀ l₁ l₂, [created, .lock false, .unlock [112, 119] true true, .switchPseudonym 0]
        = l₁ ++ l₂ →
        Coherent plainSuite (run (step plainSuite) .new l₁)) ↔
      Meets (step plainSuite) InRange .new
        [created, .lock false, .unlock [112, 119] true true, .switchPseudonym 0]) :=
  ⟨plainSuite_lawful _, coherent_iff_meets (plainSuite_lawful (fun _ _ => True)) _
    ⟨fun _ _ _ _ => trivial, fun _ _ _ _ => trivial, fun _ _ _ _ => trivial,
      fun _ _ _ _ => trivial, trivial⟩⟩

/-- An index that is not below the count does not fit whatever key pair is loaded. -/
theorem not_coherent_of_index {s : IdentityService}
    (h : s.activeKeypair ≠ none ∧ ¬s.activeIndex < s.pseudonymCount) : ¬Coherent K s := by
  intro hcoherent
  obtain ⟨keypair, hkeypair⟩ := Option.ne_none_iff_exists'.mp h.1
  exact h.2 (hcoherent keypair hkeypair).inRange

/-- **Stale indices.**  A new identity switches to pseudonym 7, which is not in its list; and an
identity created after that one is locked still has index 7, with the key of index 0. -/
theorem stale_index :
    (∀ opened, plainSuite.Lawful opened) ∧
      ¬Coherent plainSuite (run (step plainSuite) .new [created, .switchPseudonym 7]) ∧
      ¬Coherent plainSuite (run (step plainSuite) .new
        [created, .switchPseudonym 7, .lock false, created]) := by
  refine ⟨plainSuite_lawful, ?_, ?_⟩
  · exact not_coherent_of_index (by decide +kernel)
  · exact not_coherent_of_index (by decide +kernel)

end Identity
