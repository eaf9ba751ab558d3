/-
# Publishing to the DHT (`ephemera-node/src/services/dht.rs` and `background_dht.rs`)

A handle and a profile are stored under the hash of a prefix and a name, for thirty days.  The
maintenance loop removes what has expired every minute and stores the node's own records again
every twelve hours, when the identity is unlocked.

`discoverable` is what the two timers are there for: a record that was stored once is found from
then on, however full the storage is and whatever else happens to it, as long as no thirty days
pass between one republication that includes it and the next.
-/
import Ephemera.DhtLifetime
import Ephemera.DhtQuery
import Ephemera.HandleRegistry

namespace DhtMaintenance

open GuardedRun

variable {W : Wire} (V : DhtQuery.ValueCodec W)

/-! ## The records -/

/-- `dht_key`. -/
def dhtKey (W : Wire) (kind identifier : String) : W.Digest :=
  W.blake3 (W.ofStr (kind ++ ":" ++ identifier))

/-- What is hashed for it. -/
def dhtKeyBytes (W : Wire) (kind identifier : String) : W.Bytes :=
  W.ofStr (kind ++ ":" ++ identifier)

/-- The object stored for a handle. -/
def handleJson (name ownerHex : String) (registeredAt expiresAt : UInt64) : Json :=
  [("name", .str name), ("owner", .str ownerHex), ("registered_at", .uint registeredAt),
    ("expires_at", .uint expiresAt)]

/-- `DhtNodeService::store_handle`. -/
def storeHandle (dht : DhtStorage W) (identity : Except String IdentityKey)
    (name ownerHex : String) (registeredAt expiresAt now : UInt64) :
    Except String (DhtStorage W) :=
  DhtQuery.put V dht identity (dhtKey W "handle" name)
    (W.jsonToVec (handleJson name ownerHex registeredAt expiresAt)) DhtStorage.maxTtlSeconds now

/-- `DhtNodeService::store_profile`. -/
def storeProfile (dht : DhtStorage W) (identity : Except String IdentityKey) (pubkeyHex : String)
    (profile : Json) (now : UInt64) : Except String (DhtStorage W) :=
  DhtQuery.put V dht identity (dhtKey W "profile" pubkeyHex) (W.jsonToVec profile)
    DhtStorage.maxTtlSeconds now

/-- `lookup_handle` and `lookup_profile`. -/
def lookupJson (dht : DhtStorage W) (key : W.Digest) (now : UInt64) : Except String (Option Json) :=
  match dht.get key now with
  | some record =>
    match W.jsonFromSlice record.value with
    | some json => .ok (some json)
    | none => .error "deserialize"
  | none => .ok none

/-! ## The loop -/

/-- A row of `profiles`, as far as it is published. -/
structure Profile where
  displayName : Option String
  bio : Option String
  avatarCid : Option (List UInt8)

/-- The object stored for a profile: the avatar only when there is one. -/
def profileJson (pubkeyHex : String) (profile : Profile) : Json :=
  [("pubkey", .str pubkeyHex), ("display_name", .ofOption profile.displayName),
    ("bio", .ofOption profile.bio)] ++
  match profile.avatarCid with
  | some cid => [("avatar_cid", .str (Hex.encode cid))]
  | none => []

/-- `ServiceContainer`, as far as the loop uses it; `identity` is the answer of
`get_signing_keypair`. -/
structure Node (W : Wire) where
  identity : Except String IdentityKey
  registry : HandleRegistry
  profiles : SqlTable IdentityKey Profile
  dht : DhtStorage W

/-- A store that fails is logged and changes nothing. -/
def orKeep (dht : DhtStorage W) : Except String (DhtStorage W) → DhtStorage W
  | .ok dht' => dht'
  | .error _ => dht

/-- The first half of `republish_own_records`. -/
def republishHandle (node : Node W) (pubkey : IdentityKey) (now : UInt64) : DhtStorage W :=
  match node.registry.lookupByOwner pubkey with
  | some handle =>
    if handle.isExpiredAt now then node.dht
    else
      orKeep node.dht (storeHandle V node.dht node.identity handle.name (Hex.encode handle.owner)
        handle.registeredAt handle.expiresAt now)
  | none => node.dht

/-- The second half. -/
def republishProfile (node : Node W) (pubkey : IdentityKey) (now : UInt64) : DhtStorage W :=
  match node.profiles.get? pubkey with
  | some profile =>
    orKeep node.dht (storeProfile V node.dht node.identity (Hex.encode pubkey)
      (profileJson (Hex.encode pubkey) profile) now)
  | none => node.dht

/-- `republish_own_records`. -/
def republishOwnRecords (node : Node W) (now : UInt64) : Node W :=
  match node.identity with
  | .error _ => node
  | .ok pubkey =>
    let node := { node with dht := republishHandle V node pubkey now }
    { node with dht := republishProfile V node pubkey now }

/-- What happens to a node: the two timers, changes to what the loop reads, and records that
other services put. -/
inductive Event (W : Wire) where
  | sweep
  | republish
  | setIdentity (identity : Except String IdentityKey)
  | setRegistry (registry : HandleRegistry)
  | setProfiles (profiles : SqlTable IdentityKey Profile)
  | put (record : DhtRecord W)

/-- The node after an event. -/
def Node.step (node : Node W) (now : UInt64) : Event W → Node W
  | .sweep => { node with dht := node.dht.sweepExpired now }
  | .republish => republishOwnRecords V node now
  | .setIdentity identity => { node with identity := identity }
  | .setRegistry registry => { node with registry := registry }
  | .setProfiles profiles => { node with profiles := profiles }
  | .put record =>
    match node.dht.put record now with
    | .ok dht => { node with dht := dht }
    | .error _ => node

/-! ## Keys -/

/-- Text before the first colon. -/
theorem append_colon_inj {a b x y : List Char} (ha : ':' ∉ a) (hb : ':' ∉ b)
    (h : a ++ ':' :: x = b ++ ':' :: y) : a = b ∧ x = y := by
  induction a generalizing b with
  | nil =>
    cases b with
    | nil => exact ⟨rfl, (List.cons.inj h).2⟩
    | cons c b => exact absurd (by rw [(List.cons.inj h).1]; exact List.mem_cons_self) hb
  | cons c a ih =>
    cases b with
    | nil => exact absurd (by rw [← (List.cons.inj h).1]; exact List.mem_cons_self) ha
    | cons c' b =>
      rw [List.cons_append, List.cons_append, List.cons.injEq] at h
      obtain ⟨rfl, rfl⟩ := ih (fun hm => ha (List.mem_cons_of_mem _ hm))
        (fun hm => hb (List.mem_cons_of_mem _ hm)) h.2
      exact ⟨by rw [h.1], rfl⟩

/-- **Kinds do not meet.**  Keys of kinds without a colon are the same only for the same kind and
the same identifier, whatever characters that has. -/
theorem dhtKey_inj (hW : W.Lawful) {hashed : Set W.Bytes} (hhash : Set.InjOn W.blake3 hashed)
    {k k' i i' : String} (hi : dhtKeyBytes W k i ∈ hashed) (hi' : dhtKeyBytes W k' i' ∈ hashed)
    (hk : ':' ∉ k.toList) (hk' : ':' ∉ k'.toList) (h : dhtKey W k i = dhtKey W k' i') :
    k = k' ∧ i = i' := by
  have hstr := hW.ofStr_injective (hhash hi hi' h)
  have hlist := congrArg String.toList hstr
  simp only [String.toList_append, List.append_assoc] at hlist
  obtain ⟨hkind, hid⟩ := append_colon_inj hk hk' hlist
  exact ⟨String.toList_inj.mp hkind, String.toList_inj.mp hid⟩

theorem hexEncode_injective : Function.Injective Hex.encode := by
  intro a b h
  have hdec := congrArg Hex.decode h
  rw [Hex.decode_encode, Hex.decode_encode] at hdec
  exact Except.ok.inj hdec

/-! ## A record of one's own -/

/-- The records that the loop stores again. -/
inductive Published where
  | handle (name : String)
  | profile (pubkey : IdentityKey)

/-- The key of a record. -/
def Published.key (W : Wire) : Published → W.Digest
  | .handle name => dhtKey W "handle" name
  | .profile pubkey => dhtKey W "profile" (Hex.encode pubkey)

/-- What is hashed for the key. -/
def Published.bytes (W : Wire) : Published → W.Bytes
  | .handle name => dhtKeyBytes W "handle" name
  | .profile pubkey => dhtKeyBytes W "profile" (Hex.encode pubkey)

/-- **Different records have different keys.** -/
theorem Published.key_inj (hW : W.Lawful) {hashed : Set W.Bytes}
    (hhash : Set.InjOn W.blake3 hashed) {p q : Published} (hp : p.bytes W ∈ hashed)
    (hq : q.bytes W ∈ hashed) (h : p.key W = q.key W) : p = q := by
  cases p with
  | handle name =>
    cases q with
    | handle name' => rw [(dhtKey_inj hW hhash hp hq (by decide) (by decide) h).2]
    | profile pubkey' =>
      exact absurd (dhtKey_inj hW hhash hp hq (by decide) (by decide) h).1 (by decide)
  | profile pubkey =>
    cases q with
    | handle name' =>
      exact absurd (dhtKey_inj hW hhash hp hq (by decide) (by decide) h).1 (by decide)
    | profile pubkey' =>
      rw [hexEncode_injective (dhtKey_inj hW hhash hp hq (by decide) (by decide) h).2]

/-- The records that a republication may store: the handle that the registry has for the own key,
and the own profile. -/
def ownRecords (node : Node W) : Set Published :=
  {q | ∃ pubkey, node.identity = .ok pubkey ∧ (q = .profile pubkey ∨
    ∃ handle, node.registry.lookupByOwner pubkey = some handle ∧ q = .handle handle.name)}

/-- The object that `republish_own_records` stores for a record, if it comes to that. -/
def Published.refresh? (p : Published) (node : Node W) (now : UInt64) : Option Json :=
  match node.identity with
  | .error _ => none
  | .ok pubkey =>
    match p with
    | .handle name =>
      match node.registry.lookupByOwner pubkey with
      | some h =>
        if h.isExpiredAt now = false ∧ h.name = name then
          some (handleJson h.name (Hex.encode h.owner) h.registeredAt h.expiresAt)
        else none
      | none => none
    | .profile owner =>
      if pubkey = owner then (node.profiles.get? pubkey).map (profileJson (Hex.encode pubkey))
      else none

/-- The objects have distinct fields. -/
theorem refresh?_nodup {p : Published} {node : Node W} {now : UInt64} {json : Json}
    (h : p.refresh? node now = some json) : (json.map Prod.fst).Nodup := by
  rw [Published.refresh?] at h
  split at h
  · cases h
  · split at h
    · split at h
      · split at h
        · rw [← Option.some.inj h]
          show ["name", "owner", "registered_at", "expires_at"].Nodup
          decide
        · cases h
      · cases h
    · split at h
      · obtain ⟨profile, -, rfl⟩ := Option.map_eq_some_iff.mp h
        rw [profileJson]
        split
        · show ["pubkey", "display_name", "bio", "avatar_cid"].Nodup
          decide
        · show ["pubkey", "display_name", "bio"].Nodup
          decide
      · cases h

/-- A store leaves the other keys, and the bound on the size. -/
theorem orKeep_put_other {dht : DhtStorage W} {identity : Except String IdentityKey}
    {key key' : W.Digest} (hkey : key ≠ key') (value : W.Bytes) (ttl : UInt32) (now : UInt64) :
    (orKeep dht (DhtQuery.put V dht identity key' value ttl now)).records.get? key
      = dht.records.get? key := by
  cases hput : DhtQuery.put V dht identity key' value ttl now with
  | error e => rfl
  | ok dht' =>
    obtain ⟨publisher, -, -, -, -, -, rfl⟩ := DhtQuery.put_eq_ok_iff.mp hput
    rw [orKeep, SqlTable.get?_insertOrReplace, if_neg hkey]

theorem maxRecordSize_orKeep {dht : DhtStorage W} {identity : Except String IdentityKey}
    (key : W.Digest) (value : W.Bytes) (ttl : UInt32) (now : UInt64) :
    (orKeep dht (DhtQuery.put V dht identity key value ttl now)).maxRecordSize
      = dht.maxRecordSize := by
  cases hput : DhtQuery.put V dht identity key value ttl now with
  | error e => rfl
  | ok dht' =>
    obtain ⟨publisher, -, -, -, -, -, rfl⟩ := DhtQuery.put_eq_ok_iff.mp hput
    rfl

/-- The expiry of a record stored now. -/
def expiry (now : UInt64) : UInt64 := now + DhtStorage.maxTtlSeconds.toUInt64

theorem toNat_expiry {now : UInt64} (h : now.toNat + 2592000 < 2 ^ 64) :
    (expiry now).toNat = now.toNat + 2592000 := by
  rw [expiry, UInt64.toNat_add, show DhtStorage.maxTtlSeconds.toUInt64.toNat = 2592000 from rfl,
    Nat.mod_eq_of_lt h]

/-- **A record that is there can be stored again**, also when the storage is full. -/
theorem orKeep_put_same {dht : DhtStorage W} {pubkey : IdentityKey} {key : W.Digest}
    {value : W.Bytes} {now : UInt64} (hthere : dht.records.get? key ≠ none)
    (hsize : W.len value ≤ dht.maxRecordSize) (hfits : now.toNat + 2592000 < 2 ^ 64) :
    ∃ record, (orKeep dht (DhtQuery.put V dht (.ok pubkey) key value DhtStorage.maxTtlSeconds
        now)).records.get? key = some ⟨record, expiry now⟩ ∧ record.value = value := by
  have hlive : ¬expiry now < now := by
    rw [UInt64.lt_iff_toNat_lt, toNat_expiry hfits]
    omega
  have hput := (DhtQuery.put_eq_ok_iff (V := V)).mpr
    ⟨pubkey, rfl, hsize, UInt32.le_refl _, hlive, Or.inl hthere, rfl⟩
  refine ⟨DhtQuery.buildRecord V key value pubkey DhtStorage.maxTtlSeconds now, ?_, rfl⟩
  rw [hput, orKeep, SqlTable.get?_insertOrReplace, if_pos rfl]
  rfl

variable {V} {hashed : Set W.Bytes}

/-- The first half does what it says to the handle's key. -/
theorem get?_republishHandle (hW : W.Lawful) (hhash : Set.InjOn W.blake3 hashed) {node : Node W}
    {pubkey : IdentityKey} {now : UInt64} (hid : node.identity = .ok pubkey)
    (hown : ∀ q ∈ ownRecords node, q.bytes W ∈ hashed) {name : String}
    (hbytes : (Published.handle name).bytes W ∈ hashed) {stored : StoredRecord W}
    (hthere : node.dht.records.get? (Published.key W (.handle name)) = some stored)
    (hfits : now.toNat + 2592000 < 2 ^ 64) :
    match (Published.handle name).refresh? node now with
    | none => (republishHandle V node pubkey now).records.get? (Published.key W (.handle name))
        = some stored
    | some json => W.len (W.jsonToVec json) ≤ node.dht.maxRecordSize →
        ∃ record, (republishHandle V node pubkey now).records.get?
          (Published.key W (.handle name)) = some ⟨record, expiry now⟩ ∧
            record.value = W.jsonToVec json := by
  rw [Published.refresh?, hid, republishHandle]
  dsimp only
  rcases hlookup : node.registry.lookupByOwner pubkey with _ | handle
  · exact hthere
  · dsimp only
    by_cases hexpired : handle.isExpiredAt now = true
    · rw [if_neg (fun h => by rw [h.1] at hexpired; cases hexpired), if_pos hexpired]
      exact hthere
    · rw [if_neg hexpired]
      by_cases hname : handle.name = name
      · rw [if_pos ⟨Bool.eq_false_iff.mpr hexpired, hname⟩]
        intro hsize
        rw [storeHandle, hid, ← hname]
        rw [← hname] at hthere
        exact orKeep_put_same V (by
          rw [show dhtKey W "handle" handle.name = Published.key W (.handle handle.name) from rfl,
            hthere]
          simp) hsize hfits
      · rw [if_neg (fun h => hname h.2)]
        have hmem := hown _ ⟨pubkey, hid, Or.inr ⟨handle, hlookup, rfl⟩⟩
        have hne : Published.key W (.handle name) ≠ Published.key W (.handle handle.name) :=
          fun heq => hname (Published.handle.inj (Published.key_inj hW hhash hbytes hmem heq)).symm
        exact (orKeep_put_other V hne _ _ _).trans hthere

/-- The second half leaves a handle's key, and does what it says to the profile's. -/
theorem get?_republishProfile_handle (hW : W.Lawful) (hhash : Set.InjOn W.blake3 hashed)
    (node : Node W) {pubkey : IdentityKey} (hprofile : (Published.profile pubkey).bytes W ∈ hashed)
    (now : UInt64) {name : String} (hbytes : (Published.handle name).bytes W ∈ hashed) :
    (republishProfile V node pubkey now).records.get? (Published.key W (.handle name))
      = node.dht.records.get? (Published.key W (.handle name)) := by
  rw [republishProfile]
  split
  · have hne : Published.key W (.handle name) ≠ Published.key W (.profile pubkey) := by
      intro heq
      cases Published.key_inj hW hhash hbytes hprofile heq
    exact orKeep_put_other V hne _ _ _
  · rfl

theorem get?_republishHandle_profile (hW : W.Lawful) (hhash : Set.InjOn W.blake3 hashed)
    {node : Node W} {pubkey : IdentityKey} (hid : node.identity = .ok pubkey)
    (hown : ∀ q ∈ ownRecords node, q.bytes W ∈ hashed) (now : UInt64) {owner : IdentityKey}
    (hbytes : (Published.profile owner).bytes W ∈ hashed) :
    (republishHandle V node pubkey now).records.get? (Published.key W (.profile owner))
      = node.dht.records.get? (Published.key W (.profile owner)) := by
  rw [republishHandle]
  split
  · rename_i handle hlookup
    split
    · rfl
    · have hmem := hown _ ⟨pubkey, hid, Or.inr ⟨handle, hlookup, rfl⟩⟩
      have hne : Published.key W (.profile owner) ≠ Published.key W (.handle handle.name) := by
        intro heq
        cases Published.key_inj hW hhash hbytes hmem heq
      exact orKeep_put_other V hne _ _ _
  · rfl

theorem get?_republishProfile (hW : W.Lawful) (hhash : Set.InjOn W.blake3 hashed) {node : Node W}
    {pubkey : IdentityKey} {now : UInt64} (hid : node.identity = .ok pubkey)
    (hprofile : (Published.profile pubkey).bytes W ∈ hashed) {owner : IdentityKey}
    (hbytes : (Published.profile owner).bytes W ∈ hashed) {stored : StoredRecord W}
    (hthere : node.dht.records.get? (Published.key W (.profile owner)) = some stored)
    (hfits : now.toNat + 2592000 < 2 ^ 64) :
    match (Published.profile owner).refresh? node now with
    | none => (republishProfile V node pubkey now).records.get? (Published.key W (.profile owner))
        = some stored
    | some json => W.len (W.jsonToVec json) ≤ node.dht.maxRecordSize →
        ∃ record, (republishProfile V node pubkey now).records.get?
          (Published.key W (.profile owner)) = some ⟨record, expiry now⟩ ∧
            record.value = W.jsonToVec json := by
  rw [Published.refresh?, hid, republishProfile]
  dsimp only
  by_cases howner : pubkey = owner
  · rw [if_pos howner]
    rcases node.profiles.get? pubkey with _ | profile
    · exact hthere
    · dsimp only [Option.map_some]
      intro hsize
      rw [storeProfile, hid, ← howner]
      rw [← howner] at hthere
      exact orKeep_put_same V (by
        rw [show dhtKey W "profile" (Hex.encode pubkey) = Published.key W (.profile pubkey)
          from rfl, hthere]
        simp) hsize hfits
  · rw [if_neg howner]
    rcases node.profiles.get? pubkey with _ | profile
    · exact hthere
    · have hne : Published.key W (.profile owner) ≠ Published.key W (.profile pubkey) := fun heq =>
        howner (Published.profile.inj (Published.key_inj hW hhash hbytes hprofile heq)).symm
      exact (orKeep_put_other V hne _ _ _).trans hthere

/-- A locked identity republishes nothing. -/
theorem republish_locked {node : Node W} {e : String} (hid : node.identity = .error e)
    (now : UInt64) : republishOwnRecords V node now = node := by
  rw [republishOwnRecords]
  split
  · rfl
  · next pubkey h =>
    rw [hid] at h
    cases h

theorem dht_republish {node : Node W} {pubkey : IdentityKey} (hid : node.identity = .ok pubkey)
    (now : UInt64) :
    (republishOwnRecords V node now).dht
      = republishProfile V { node with dht := republishHandle V node pubkey now } pubkey now := by
  rw [republishOwnRecords]
  split
  · next e h =>
    rw [hid] at h
    cases h
  · next pubkey' h =>
    obtain rfl := Except.ok.inj (hid.symm.trans h)
    rfl

/-- **A republication.**  The record of one's own stays as it was, or is stored with the new
object for another thirty days. -/
theorem get?_republish (hW : W.Lawful) (hhash : Set.InjOn W.blake3 hashed) {p : Published}
    (hp : p.bytes W ∈ hashed) {node : Node W} (hown : ∀ q ∈ ownRecords node, q.bytes W ∈ hashed)
    {now : UInt64} {stored : StoredRecord W}
    (hthere : node.dht.records.get? (p.key W) = some stored)
    (hfits : now.toNat + 2592000 < 2 ^ 64) :
    match p.refresh? node now with
    | none => (republishOwnRecords V node now).dht.records.get? (p.key W) = some stored
    | some json => W.len (W.jsonToVec json) ≤ node.dht.maxRecordSize →
        ∃ record, (republishOwnRecords V node now).dht.records.get? (p.key W)
          = some ⟨record, expiry now⟩ ∧ record.value = W.jsonToVec json := by
  cases hid : node.identity with
  | error e =>
    rw [republish_locked hid, show p.refresh? node now = none from by
      rw [Published.refresh?, hid]]
    exact hthere
  | ok pubkey =>
    have hprofile := hown _ ⟨pubkey, hid, Or.inl rfl⟩
    rw [dht_republish hid]
    cases p with
    | handle name =>
      rw [get?_republishProfile_handle hW hhash _ hprofile now hp]
      exact get?_republishHandle hW hhash hid hown hp hthere hfits
    | profile owner =>
      have hsize : (republishHandle V node pubkey now).maxRecordSize = node.dht.maxRecordSize := by
        rw [republishHandle]
        split
        · split
          · rfl
          · exact maxRecordSize_orKeep V ..
        · rfl
      have hfirst := get?_republishProfile (V := V) hW hhash
        (show ({ node with dht := republishHandle V node pubkey now } : Node W).identity
          = .ok pubkey from hid) hprofile hp
        ((get?_republishHandle_profile hW hhash hid hown now hp).trans hthere) hfits
      dsimp only at hfirst
      rw [hsize] at hfirst
      exact hfirst

/-! ## Runs of the loop -/

/-- A node, with the time of the last republication that included a record of its own and the
object that was stored then. -/
structure Tracked (W : Wire) where
  node : Node W
  refreshedAt : UInt64
  json : Json

/-- An event at a time. -/
def Tracked.step (V : DhtQuery.ValueCodec W) (p : Published) (s : Tracked W)
    (at_ : UInt64 × Event W) : Tracked W :=
  let node := s.node.step V at_.1 at_.2
  match at_.2 with
  | .republish =>
    match p.refresh? s.node at_.1 with
    | some json => ⟨node, at_.1, json⟩
    | none => ⟨node, s.refreshedAt, s.json⟩
  | _ => ⟨node, s.refreshedAt, s.json⟩

/-- An event is in time when the record's thirty days have not passed; other services put other
records, and what is published is within the size limit.  `hashed` has what is hashed for the
keys of a republication. -/
structure InTime (hashed : Set W.Bytes) (p : Published) (s : Tracked W) (at_ : UInt64 × Event W) :
    Prop where
  live : at_.1.toNat ≤ s.refreshedAt.toNat + 2592000
  fits : at_.1.toNat + 2592000 < 2 ^ 64
  others : ∀ record, at_.2 = .put record → record.key ≠ p.key W
  size : at_.2 = .republish → ∀ json, p.refresh? s.node at_.1 = some json →
    W.len (W.jsonToVec json) ≤ s.node.dht.maxRecordSize
  keys : at_.2 = .republish → ∀ q ∈ ownRecords s.node, q.bytes W ∈ hashed

/-- The record is stored with the object published last, until thirty days after. -/
structure Alive (p : Published) (s : Tracked W) : Prop where
  stored : ∃ record, s.node.dht.records.get? (p.key W) = some ⟨record, expiry s.refreshedAt⟩ ∧
    record.value = W.jsonToVec s.json
  fits : s.refreshedAt.toNat + 2592000 < 2 ^ 64
  fields : (s.json.map Prod.fst).Nodup

theorem Alive.step (hW : W.Lawful) (hhash : Set.InjOn W.blake3 hashed) {p : Published}
    (hp : p.bytes W ∈ hashed) {s : Tracked W} (h : Alive p s) {at_ : UInt64 × Event W}
    (hok : InTime hashed p s at_) : Alive p (s.step V p at_) := by
  obtain ⟨now, event⟩ := at_
  obtain ⟨record, hstored, hvalue⟩ := h.stored
  cases event with
  | sweep =>
    have hlive : (!decide (expiry s.refreshedAt < now)) = true := by
      have hle := hok.live
      rw [decide_eq_false]
      · rfl
      · rw [UInt64.lt_iff_toNat_lt, toNat_expiry h.fits]
        exact Nat.not_lt.mpr hle
    show Alive p ⟨{ s.node with dht := s.node.dht.sweepExpired now }, s.refreshedAt, s.json⟩
    refine ⟨⟨record, ?_, hvalue⟩, h.fits, h.fields⟩
    dsimp only
    rw [DhtStorage.sweepExpired, SqlTable.get?_deleteWhere, hstored, Option.filter_some,
      if_pos hlive]
  | republish =>
    have hrep := get?_republish (V := V) hW hhash hp (hok.keys rfl) hstored hok.fits
    rw [Tracked.step]
    dsimp only
    split
    · next json hjson =>
      rw [hjson] at hrep
      dsimp only at hrep
      obtain ⟨record', hget, hval⟩ := hrep (hok.size rfl json hjson)
      exact ⟨⟨record', hget, hval⟩, hok.fits, refresh?_nodup hjson⟩
    · next hnone =>
      rw [hnone] at hrep
      exact ⟨⟨record, hrep, hvalue⟩, h.fits, h.fields⟩
  | setIdentity identity =>
    show Alive p ⟨{ s.node with identity := identity }, s.refreshedAt, s.json⟩
    exact ⟨⟨record, hstored, hvalue⟩, h.fits, h.fields⟩
  | setRegistry registry =>
    show Alive p ⟨{ s.node with registry := registry }, s.refreshedAt, s.json⟩
    exact ⟨⟨record, hstored, hvalue⟩, h.fits, h.fields⟩
  | setProfiles profiles =>
    show Alive p ⟨{ s.node with profiles := profiles }, s.refreshedAt, s.json⟩
    exact ⟨⟨record, hstored, hvalue⟩, h.fits, h.fields⟩
  | put other =>
    show Alive p ⟨s.node.step V now (.put other), s.refreshedAt, s.json⟩
    rw [Node.step]
    cases hput : s.node.dht.put other now with
    | error e => exact ⟨⟨record, hstored, hvalue⟩, h.fits, h.fields⟩
    | ok dht =>
      obtain ⟨-, -, rfl⟩ := DhtStorage.put_eq_ok hput
      refine ⟨⟨record, ?_, hvalue⟩, h.fits, h.fields⟩
      dsimp only
      rw [SqlTable.get?_insertOrReplace, if_neg (Ne.symm (hok.others other rfl)), hstored]

theorem Alive.run (hW : W.Lawful) (hhash : Set.InjOn W.blake3 hashed) {p : Published}
    (hp : p.bytes W ∈ hashed) {s : Tracked W} (h : Alive p s) {events : List (UInt64 × Event W)}
    (hok : Meets (Tracked.step V p) (InTime hashed p) s events) :
    Alive p (run (Tracked.step V p) s events) :=
  run_invariant (fun _ _ h hmeets => h.step hW hhash hp hmeets) h hok

/-- What is stored and has not expired is found. -/
theorem Alive.found (hW : W.Lawful) {p : Published} {s : Tracked W} (h : Alive p s) {now : UInt64}
    (hnow : now.toNat ≤ s.refreshedAt.toNat + 2592000) :
    ∃ found, lookupJson s.node.dht (p.key W) now = .ok (some found) ∧
      ∀ field, found.get field = s.json.get field := by
  obtain ⟨record, hstored, hvalue⟩ := h.stored
  obtain ⟨found, hfound, hget⟩ := hW.json s.json h.fields
  refine ⟨found, ?_, hget⟩
  have hlive : now ≤ expiry s.refreshedAt := by
    rw [UInt64.le_iff_toNat_le, toNat_expiry h.fits]
    exact hnow
  have hget' : s.node.dht.get (p.key W) now = some record :=
    DhtStorage.get_eq_some_iff.mpr ⟨_, hstored, hlive, rfl⟩
  rw [lookupJson, hget']
  dsimp only
  rw [hvalue, hfound]

/-- The first store. -/
theorem alive_of_put {p : Published} {node : Node W} {dht : DhtStorage W} {start : UInt64}
    {json : Json} (hfields : (json.map Prod.fst).Nodup)
    (hput : DhtQuery.put V node.dht node.identity (p.key W) (W.jsonToVec json)
      DhtStorage.maxTtlSeconds start = .ok dht)
    (hfits : start.toNat + 2592000 < 2 ^ 64) :
    Alive p (⟨{ node with dht := dht }, start, json⟩ : Tracked W) := by
  obtain ⟨publisher, -, -, -, -, -, rfl⟩ := DhtQuery.put_eq_ok_iff.mp hput
  refine ⟨⟨DhtQuery.buildRecord V (p.key W) (W.jsonToVec json) publisher
    DhtStorage.maxTtlSeconds start, ?_, rfl⟩, hfits, hfields⟩
  dsimp only
  rw [SqlTable.get?_insertOrReplace, if_pos rfl, expiry]

/-- **A record of one's own stays discoverable.**  Once a handle or a profile was stored, it is
found with the object published last at every time up to thirty days after its last
republication, in every run in which no event comes later than that: the sweeps do not take it,
and a storage that others have filled does not refuse it. -/
theorem discoverable (hW : W.Lawful) (hhash : Set.InjOn W.blake3 hashed) {p : Published}
    (hp : p.bytes W ∈ hashed) {node : Node W} {dht : DhtStorage W} {start : UInt64} {json : Json}
    (hfields : (json.map Prod.fst).Nodup)
    (hput : DhtQuery.put V node.dht node.identity (p.key W) (W.jsonToVec json)
      DhtStorage.maxTtlSeconds start = .ok dht)
    (hfits : start.toNat + 2592000 < 2 ^ 64) {events : List (UInt64 × Event W)}
    (hok : Meets (Tracked.step V p) (InTime hashed p)
      ⟨{ node with dht := dht }, start, json⟩ events)
    {now : UInt64}
    (hnow : now.toNat ≤
      (run (Tracked.step V p) ⟨{ node with dht := dht }, start, json⟩ events).refreshedAt.toNat
        + 2592000) :
    ∃ found, lookupJson
        (run (Tracked.step V p) ⟨{ node with dht := dht }, start, json⟩ events).node.dht
        (p.key W) now = .ok (some found) ∧
      ∀ field, found.get field =
        (run (Tracked.step V p) ⟨{ node with dht := dht }, start, json⟩ events).json.get field :=
  ((alive_of_put hfields hput hfits).run hW hhash hp hok).found hW hnow

/-- A node with a profile and room for one record, which the profile takes. -/
def fullNode : Node Wire.symbolic where
  identity := .ok [1]
  registry := .new
  profiles := ⟨[([1], ⟨some "Ada", none, none⟩)], by decide⟩
  dht := .new 1 DhtStorage.defaultMaxRecordSize

/-- What it publishes. -/
def adaJson : Json := profileJson "01" ⟨some "Ada", none, none⟩

/-- Another record does not fit, and the profile is stored again at the end of its thirty days. -/
def fullDays : List (UInt64 × Event Wire.symbolic) :=
  [(200, .put ⟨.str "other", .str "", [2], 200, 60, []⟩), (2592100, .republish), (2592200, .sweep)]

/-- Its storage once the profile is there. -/
def fullDht : DhtStorage Wire.symbolic :=
  { fullNode.dht with
    records := fullNode.dht.records.insertOrReplace (Published.key _ (.profile [1]))
      ⟨DhtQuery.buildRecord DhtQuery.flatCodec (Published.key _ (.profile [1]))
        (Wire.symbolic.jsonToVec adaJson) [1] DhtStorage.maxTtlSeconds 100,
        100 + DhtStorage.maxTtlSeconds.toUInt64⟩ }

theorem put_full : DhtQuery.put DhtQuery.flatCodec fullNode.dht fullNode.identity
    (Published.key _ (.profile [1])) (Wire.symbolic.jsonToVec adaJson) DhtStorage.maxTtlSeconds 100
      = .ok fullDht :=
  DhtQuery.put_eq_ok_iff.mpr ⟨[1], rfl, by decide, by decide, by decide, Or.inr (by decide), rfl⟩

theorem meets_fullDays : Meets (Tracked.step DhtQuery.flatCodec (.profile [1]))
    (InTime Set.univ (.profile [1])) ⟨{ fullNode with dht := fullDht }, 100, adaJson⟩ fullDays := by
  refine ⟨⟨by decide +kernel, by decide +kernel, ?_, (fun h => by cases h), (fun h => by cases h)⟩,
    ⟨by decide +kernel, by decide +kernel, (fun _ h => by cases h), ?_,
      (fun _ _ _ => Set.mem_univ _)⟩,
    ⟨by decide +kernel, by decide +kernel, (fun _ h => by cases h), (fun h => by cases h),
      (fun h => by cases h)⟩,
    trivial⟩
  · intro record h
    obtain rfl := Event.put.inj h
    decide
  · intro _ json h
    obtain rfl : adaJson = json := Option.some.inj h
    decide

theorem discoverable_full :
    ∃ found, lookupJson
        (run (Tracked.step DhtQuery.flatCodec (.profile [1]))
          ⟨{ fullNode with dht := fullDht }, 100, adaJson⟩ fullDays).node.dht
        (Published.key _ (.profile [1])) 5184100 = .ok (some found) ∧
      ∀ field, found.get field =
        (run (Tracked.step DhtQuery.flatCodec (.profile [1]))
          ⟨{ fullNode with dht := fullDht }, 100, adaJson⟩ fullDays).json.get field :=
  discoverable Wire.symbolic_lawful (Wire.symbolic_injOn Set.univ) (Set.mem_univ _) (by decide)
    put_full (by decide +kernel) meets_fullDays (by decide +kernel)

end DhtMaintenance
