/-
# Failed and repeated messages of a session

`decrypt_from_peer` works on a copy of the stored ratchet state and saves it only when the
message opens, so a message that fails leaves the table as it was
(`decryptFromPeer_error`).  And no ciphertext is accepted twice (`accepted_nodup`): every
chain key a message is opened with has a place, the level of its chain and its index on it,
and each accepted message moves the session behind the place it was opened at.  A header can
move the session on as far as it likes, and an old ratchet key starts another chain, but
nothing moves it back.

The level of a chain is the rank of the root key it was derived from; the first one, which
starts at the placeholder `[0u8; 32]`, has level 0.  That a place is met only once rests on the
derivations of the run (`Separated`): they do not collide, and none leads back to a key it
started from.
-/
import Ephemera.KeyDerivations

namespace SessionReplay

open Ratchet StateExcept GuardedRun Session KeyDerivations

variable {S : CryptoSuite} {E : SigningSuite S}

/-! ## Failed messages -/

/-- **A failed decryption is harmless**: the table is the one before the call. -/
theorem decryptFromPeer_error {conversationId : String} {peerPubkey : IdentityKey}
    {ourRatchetKey : Option (X25519KeyPair S)} {sharedSecret : Option S.Key}
    {header : MessageHeader S} {ciphertext : S.Sealed} {fresh : X25519KeyPair S}
    {db db' : SessionDb S} {e : SessionError}
    (h : exec (decryptFromPeer conversationId peerPubkey ourRatchetKey sharedSecret header
      ciphertext fresh) db = (.error e, db')) : db' = db := by
  rw [decryptFromPeer_exec] at h
  split at h
  · exact (congrArg Prod.snd h).symm
  · split at h
    · exact (congrArg Prod.snd h).symm
    · cases h

/-! ## Places of chain keys -/

/-- What is derived and opened does not collide, also not with the placeholder, and no key is
derived from itself, which a rank of the keys bears witness to. -/
structure Separated (S : CryptoSuite) (rank : S.Key → ℕ) (derived : Set (Derivation S))
    (opened : Set S.Sealed) : Prop extends CollisionFree S derived opened where
  key_ne : ∀ d ∈ derived, d.key ≠ S.zeroKey
  rank_lt : ∀ d ∈ derived, ∀ k ∈ d.ikm, rank k < rank d.key

variable {rank : S.Key → ℕ} {derived : Set (Derivation S)} {opened : Set S.Sealed}

/-- Where a receive chain starts: at the placeholder, or below a root key. -/
inductive Base (rank : S.Key → ℕ) (derived : Set (Derivation S)) : ℕ → S.Key → Prop where
  | placeholder : Base rank derived 0 S.zeroKey
  | below (root dhOutput : S.Key) (h : ⟨[root, dhOutput], Info.chain.bytes⟩ ∈ derived) :
    Base rank derived (rank root + 1) (chainOf root dhOutput)

/-- The chain key of index `n` on a chain of a level. -/
def Place (rank : S.Key → ℕ) (derived : Set (Derivation S)) (level n : ℕ) (c : S.Key) : Prop :=
  ∃ b, Base rank derived level b ∧ c = advance^[n] b ∧
    ∀ i < n, ⟨[advance^[i] b], Info.chain.bytes⟩ ∈ derived

/-- No chain starts at a key that the advance of a chain leads to. -/
theorem Base.ne_advance (hS : Separated S rank derived opened) {level : ℕ} {b : S.Key}
    (h : Base rank derived level b) {c : S.Key}
    (hc : (⟨[c], Info.chain.bytes⟩ : Derivation S) ∈ derived) : b ≠ advance c := by
  cases h with
  | placeholder => exact (hS.key_ne _ hc).symm
  | below root dhOutput hroot =>
    intro he
    have hlen := congrArg List.length (hS.eq_of_key_eq hroot hc he).1
    rw [List.length_cons, List.length_singleton, List.length_singleton] at hlen
    exact absurd hlen (by decide)

/-- The start of a chain has one level. -/
theorem Base.level_unique (hS : Separated S rank derived opened) {level level' : ℕ} {b b' : S.Key}
    (h : Base rank derived level b) (h' : Base rank derived level' b') (hb : b = b') :
    level = level' := by
  cases h with
  | placeholder =>
    cases h' with
    | placeholder => rfl
    | below root dhOutput hroot => exact absurd hb.symm (hS.key_ne _ hroot)
  | below root dhOutput hroot =>
    cases h' with
    | placeholder => exact absurd hb (hS.key_ne _ hroot)
    | below root' dhOutput' hroot' =>
      have hsame := (List.cons.inj (hS.eq_of_key_eq hroot hroot' hb).1).1
      rw [hsame]

/-- Chains that meet are the same, and meet at the same index. -/
theorem iterate_advance_inj (hS : Separated S rank derived opened) {level level' : ℕ}
    {b b' : S.Key} (h : Base rank derived level b) (h' : Base rank derived level' b') {n n' : ℕ}
    (hn : ∀ i < n, (⟨[advance^[i] b], Info.chain.bytes⟩ : Derivation S) ∈ derived)
    (hn' : ∀ i < n', (⟨[advance^[i] b'], Info.chain.bytes⟩ : Derivation S) ∈ derived)
    (he : advance^[n] b = advance^[n'] b') : n = n' ∧ b = b' := by
  induction n generalizing n' with
  | zero =>
    cases n' with
    | zero => exact ⟨rfl, he⟩
    | succ n' =>
      rw [Function.iterate_succ_apply'] at he
      exact absurd he (h.ne_advance hS (hn' n' (Nat.lt_succ_self n')))
  | succ n ih =>
    cases n' with
    | zero =>
      rw [Function.iterate_succ_apply'] at he
      exact absurd he.symm (h'.ne_advance hS (hn n (Nat.lt_succ_self n)))
    | succ n' =>
      rw [Function.iterate_succ_apply', Function.iterate_succ_apply'] at he
      have hprev := (List.cons.inj (hS.eq_of_key_eq (hn n (Nat.lt_succ_self n))
        (hn' n' (Nat.lt_succ_self n')) he).1).1
      obtain ⟨rfl, hb⟩ := ih (fun i hi => hn i (Nat.lt_succ_of_lt hi))
        (fun i hi => hn' i (Nat.lt_succ_of_lt hi)) hprev
      exact ⟨rfl, hb⟩

/-- **A chain key has one place.** -/
theorem Place.unique (hS : Separated S rank derived opened) {level level' n n' : ℕ} {c : S.Key}
    (h : Place rank derived level n c) (h' : Place rank derived level' n' c) :
    level = level' ∧ n = n' := by
  obtain ⟨b, hb, rfl, hmem⟩ := h
  obtain ⟨b', hb', he, hmem'⟩ := h'
  obtain ⟨hn, hbb⟩ := iterate_advance_inj hS hb hb' hmem hmem' he
  exact ⟨hb.level_unique hS hb' hbb, hn⟩

/-- The advance of a chain goes to the next place. -/
theorem Place.iterate {level n : ℕ} {c : S.Key} (h : Place rank derived level n c) (k : ℕ)
    (hk : ∀ i < k, ⟨[advance^[i] c], Info.chain.bytes⟩ ∈ derived) :
    Place rank derived level (n + k) (advance^[k] c) := by
  obtain ⟨b, hb, rfl, hmem⟩ := h
  refine ⟨b, hb, by rw [← Function.iterate_add_apply, Nat.add_comm], fun i hi => ?_⟩
  by_cases hin : i < n
  · exact hmem i hin
  · have hlater := hk (i - n) (by omega)
    rwa [← Function.iterate_add_apply, Nat.sub_add_cancel (Nat.le_of_not_lt hin)] at hlater

/-! ## The place of a session -/

/-- The receive chain of a state stands at a place, on a level below its root key. -/
structure Stands (rank : S.Key → ℕ) (derived : Set (Derivation S)) (st : RatchetState S)
    (level n : ℕ) : Prop where
  place : Place rank derived level n st.recvChainKey
  level_le : level ≤ rank st.rootKey

/-- One place comes before another: on an earlier chain, or earlier on the same one. -/
def Before (level n level' n' : ℕ) : Prop := level < level' ∨ (level = level' ∧ n < n')

theorem Before.trans {a b c d e f : ℕ} (h : Before a b c d) (h' : Before c d e f) :
    Before a b e f := by
  unfold Before at h h' ⊢
  omega

/-- A DH step starts a chain on a level above all earlier ones. -/
theorem stands_afterDhStep (hS : Separated S rank derived opened) {st : RatchetState S}
    {theirs : S.Public} {fresh : X25519KeyPair S} (hstep : ofDhStep st theirs fresh ⊆ derived) :
    Stands rank derived (afterDhStep st theirs fresh) (rank st.rootKey + 1) 0 := by
  refine ⟨⟨_, Base.below st.rootKey _ (hstep (Or.inl (Or.inr rfl))), rfl,
    fun i hi => absurd hi (Nat.not_lt_zero i)⟩, ?_⟩
  have h₁ : rank st.rootKey < rank (nextRoot st.rootKey
      (S.diffieHellman st.sendRatchetKey.secret theirs)) :=
    hS.rank_lt _ (hstep (Or.inl (Or.inl rfl))) _ List.mem_cons_self
  have h₂ : rank (nextRoot st.rootKey (S.diffieHellman st.sendRatchetKey.secret theirs)) <
      rank (afterDhStep st theirs fresh).rootKey :=
    hS.rank_lt _ (hstep (Or.inr (Or.inl rfl))) _ List.mem_cons_self
  exact h₁.trans h₂

/-- **The step of a session.**  A message is opened at a place that is not before the one the
session stands at, and leaves the session behind this place. -/
theorem Stands.decrypt (hS : Separated S rank derived opened) {st : RatchetState S} {level n : ℕ}
    (h : Stands rank derived st level n) {header : MessageHeader S} (ciphertext : S.Sealed)
    {fresh : X25519KeyPair S} (hderived : ofDecryptMessage header fresh st ⊆ derived) :
    ∃ level' n', Place rank derived level' n' (openingChain st header fresh) ∧
      ¬ Before level' n' level n ∧
      Stands rank derived (exec (decryptMessage header ciphertext fresh) st).2 level'
        (n' + 1) := by
  -- the place at which the loop starts
  obtain ⟨level', m, hloop, hle⟩ : ∃ level' m,
      Stands rank derived (atLoop st header fresh) level' m ∧ ¬ Before level' m level n := by
    by_cases hkey : st.recvRatchetPubkey = some header.ratchetKey
    · rw [atLoop_of_eq hkey]
      exact ⟨level, n, h, by unfold Before; omega⟩
    · rw [atLoop_of_ne hkey]
      have hstep := (ofDhStep_subset_ofDecryptMessage hkey fresh).trans hderived
      have hlevel := h.level_le
      exact ⟨_, 0, stands_afterDhStep hS hstep, by unfold Before; omega⟩
  have hopening := hloop.place.iterate
    (header.messageNumber - (atLoop st header fresh).recvCount)
    (fun i hi => hderived (advance_mem_ofDecryptMessage header fresh st (Nat.le_of_lt hi)))
  refine ⟨level', _, hopening, by unfold Before at hle ⊢; omega, ?_⟩
  rw [decryptMessage_exec]
  refine ⟨hopening.iterate 1 (fun i hi => ?_), hloop.level_le⟩
  obtain rfl : i = 0 := Nat.lt_one_iff.mp hi
  exact hderived (advance_mem_ofDecryptMessage header fresh st (Nat.le_refl _))

/-- An encryption leaves the place of a session. -/
theorem Stands.encrypt {st : RatchetState S} {level n : ℕ} (h : Stands rank derived st level n)
    (nonce : S.Nonce) (plaintext : List UInt8) :
    Stands rank derived (exec (encryptMessage nonce plaintext) st).2 level n := by
  rw [encryptMessage_exec]
  split
  · exact ⟨h.place, h.level_le⟩
  · exact ⟨h.place, h.level_le⟩

/-- A new session stands at the placeholder. -/
theorem stands_of_zeroKey {st : RatchetState S} (h : st.recvChainKey = S.zeroKey) :
    Stands rank derived st 0 0 :=
  ⟨⟨S.zeroKey, Base.placeholder, h, fun i hi => absurd hi (Nat.not_lt_zero i)⟩, Nat.zero_le _⟩

/-! ## Runs -/

/-- A call of the session manager for one conversation. -/
inductive Call (S : CryptoSuite) (E : SigningSuite S) where
  | encrypt (peerPubkey : IdentityKey) (ourX25519 : X25519KeyPair S) (ourIdentity : IdentityKey)
      (theirBundle : Option (PrekeyBundle E)) (plaintext : List UInt8) (entropy : Entropy S)
  | decrypt (peerPubkey : IdentityKey) (ourRatchetKey : Option (X25519KeyPair S))
      (sharedSecret : Option S.Key) (header : MessageHeader S) (ciphertext : S.Sealed)
      (fresh : X25519KeyPair S)

/-- The table, and the messages that `decrypt_from_peer` has accepted. -/
structure System (S : CryptoSuite) where
  db : SessionDb S
  accepted : List (MessageHeader S × S.Sealed)

/-- One call. -/
def step (conversationId : String) (s : System S) : Call S E → System S
  | .encrypt peerPubkey ourX25519 ourIdentity theirBundle plaintext entropy =>
    { s with
      db := (exec (encryptForPeer conversationId peerPubkey ourX25519 ourIdentity theirBundle
        plaintext entropy) s.db).2 }
  | .decrypt peerPubkey ourRatchetKey sharedSecret header ciphertext fresh =>
    match exec (decryptFromPeer conversationId peerPubkey ourRatchetKey sharedSecret header
        ciphertext fresh) s.db with
    | (.ok _, db) => ⟨db, s.accepted ++ [(header, ciphertext)]⟩
    | (.error _, db) => { s with db := db }

/-- What a call derives. -/
def derivedBy (conversationId : String) (s : System S) : Call S E → Set (Derivation S)
  | .encrypt _ ourX25519 _ theirBundle _ entropy =>
    ofEncryptForPeer (loadSession s.db conversationId) ourX25519 theirBundle entropy
  | .decrypt _ ourRatchetKey sharedSecret header _ fresh =>
    ofDecryptFromPeer (loadSession s.db conversationId) ourRatchetKey sharedSecret header fresh

/-- The ciphertext that a call opens. -/
def openedBy : Call S E → Set S.Sealed
  | .encrypt _ _ _ _ _ _ => ∅
  | .decrypt _ _ _ _ ciphertext _ => {ciphertext}

/-- A message was opened at a place before the given one. -/
def Opened (rank : S.Key → ℕ) (derived : Set (Derivation S)) (level n : ℕ)
    (m : MessageHeader S × S.Sealed) : Prop :=
  ∃ level' n' c p, Place rank derived level' n' c ∧ Before level' n' level n ∧
    ⟨[c], Info.msgKey.bytes⟩ ∈ derived ∧ S.openBytes (messageKey c) m.2 = .ok p

/-- The session stands behind the places at which the accepted messages were opened, and no
ciphertext is among these twice. -/
structure Behind (rank : S.Key → ℕ) (derived : Set (Derivation S)) (conversationId : String)
    (s : System S) : Prop where
  session : (loadSession s.db conversationId = none ∧ s.accepted = []) ∨
    ∃ st level n, loadSession s.db conversationId = some st ∧ Stands rank derived st level n ∧
      ∀ m ∈ s.accepted, Opened rank derived level n m
  nodup : (s.accepted.map Prod.snd).Nodup

/-- A ciphertext that opens at a place is none that was opened before it. -/
theorem not_mem_of_opened (hS : Separated S rank derived opened) {level n level' n' : ℕ}
    {c : S.Key} {accepted : List (MessageHeader S × S.Sealed)}
    (hacc : ∀ m ∈ accepted, Opened rank derived level n m) (hc : Place rank derived level' n' c)
    (hle : ¬ Before level' n' level n)
    (hkey : (⟨[c], Info.msgKey.bytes⟩ : Derivation S) ∈ derived) {ciphertext : S.Sealed}
    (hmem : ciphertext ∈ opened) {p : List UInt8}
    (hp : S.openBytes (messageKey c) ciphertext = .ok p) :
    ciphertext ∉ accepted.map Prod.snd := by
  intro hin
  obtain ⟨m, hm, rfl⟩ := List.mem_map.mp hin
  obtain ⟨level₁, n₁, c₁, p₁, hc₁, hbefore, hkey₁, hp₁⟩ := hacc m hm
  obtain rfl : c = c₁ := hS.chainKey_unique hkey hkey₁ hmem hp hp₁
  obtain ⟨rfl, rfl⟩ := hc.unique hS hc₁
  exact hle hbefore

/-- The state that a call of `encrypt_for_peer` works on stands where the session stands; a
new one stands at the placeholder. -/
theorem stands_sendingState {existing : Option (RatchetState S)} {ourX25519 : X25519KeyPair S}
    {ourIdentity : IdentityKey} {theirBundle : Option (PrekeyBundle E)} {entropy : Entropy S}
    {st : RatchetState S} {x3dhHeader : Option (X3dhInitialMessage S)}
    (h : sendingState existing ourX25519 ourIdentity theirBundle entropy = .ok (st, x3dhHeader)) :
    existing = some st ∨ (existing = none ∧ st.recvChainKey = S.zeroKey) := by
  cases existing with
  | some st' =>
    obtain rfl := (Prod.mk.inj (Except.ok.inj h)).1
    exact Or.inl rfl
  | none =>
    refine Or.inr ⟨rfl, ?_⟩
    cases theirBundle with
    | none => cases h
    | some bundle =>
      obtain ⟨st', hinit, hsend⟩ := sendingState_none ourX25519 ourIdentity bundle entropy
      rw [hsend] at h
      obtain rfl := (Prod.mk.inj (Except.ok.inj h)).1
      rw [initSender_eq] at hinit
      obtain rfl := Except.ok.inj hinit
      rfl

/-- The same of `decrypt_from_peer`. -/
theorem stands_receivingState {existing : Option (RatchetState S)}
    {ourRatchetKey : Option (X25519KeyPair S)} {sharedSecret : Option S.Key} {st : RatchetState S}
    (h : receivingState existing ourRatchetKey sharedSecret = .ok st) :
    existing = some st ∨ (existing = none ∧ st.recvChainKey = S.zeroKey) := by
  cases existing with
  | some st' => exact Or.inl (congrArg some (Except.ok.inj h))
  | none =>
    refine Or.inr ⟨rfl, ?_⟩
    cases sharedSecret with
    | none => cases h
    | some secret =>
      cases ourRatchetKey with
      | none => cases h
      | some ratchetKey =>
        obtain rfl := Except.ok.inj h
        rfl

/-- Whatever state a call works on, it stands behind the places of the accepted messages. -/
theorem Behind.stands {conversationId : String} {s : System S}
    (h : Behind rank derived conversationId s) {st : RatchetState S}
    (hst : loadSession s.db conversationId = some st ∨
      (loadSession s.db conversationId = none ∧ st.recvChainKey = S.zeroKey)) :
    ∃ level n, Stands rank derived st level n ∧
      ∀ m ∈ s.accepted, Opened rank derived level n m := by
  rcases h.session with ⟨hnone, hacc⟩ | ⟨st', level, n, hload, hstands, hacc⟩
  · rcases hst with hsome | ⟨_, hzero⟩
    · rw [hnone] at hsome
      cases hsome
    · refine ⟨0, 0, stands_of_zeroKey hzero, fun m hm => ?_⟩
      rw [hacc] at hm
      cases hm
  · rcases hst with hsome | ⟨hnone, _⟩
    · obtain rfl : st' = st := Option.some.inj (hload.symm.trans hsome)
      exact ⟨level, n, hstands, hacc⟩
    · rw [hload] at hnone
      cases hnone

/-- A method that succeeds on a loaded state. -/
theorem exec_of_onRatchet {α : Type} {m : RatchetM S α} {st st' : RatchetState S} {a : α}
    (h : onRatchet m st = .ok (a, st')) : exec m st = (.ok a, st') := by
  unfold onRatchet at h
  split at h
  · next heq =>
    obtain ⟨rfl, rfl⟩ := Prod.mk.inj (Except.ok.inj h)
    exact heq
  · cases h

/-- A decryption that succeeds has opened the ciphertext with the key of its place. -/
theorem opens_of_decryptMessage {header : MessageHeader S} {ciphertext : S.Sealed}
    {fresh : X25519KeyPair S} {st st' : RatchetState S} {plaintext : List UInt8}
    (h : exec (decryptMessage header ciphertext fresh) st = (.ok plaintext, st')) :
    S.openBytes (messageKey (openingChain st header fresh)) ciphertext = .ok plaintext := by
  rw [decryptMessage_exec] at h
  have hres := congrArg Prod.fst h
  dsimp only at hres
  cases hbytes : S.openBytes (messageKey (openingChain st header fresh)) ciphertext with
  | error e =>
    rw [hbytes] at hres
    cases hres
  | ok p =>
    rw [hbytes] at hres
    exact congrArg Except.ok (Except.ok.inj hres)

/-- **An encryption keeps the invariant.** -/
theorem behind_encrypt {conversationId : String} {s : System S}
    (h : Behind rank derived conversationId s) (peerPubkey : IdentityKey)
    (ourX25519 : X25519KeyPair S) (ourIdentity : IdentityKey)
    (theirBundle : Option (PrekeyBundle E)) (plaintext : List UInt8) (entropy : Entropy S) :
    Behind rank derived conversationId (step conversationId s
      (.encrypt peerPubkey ourX25519 ourIdentity theirBundle plaintext entropy)) := by
  rw [step, encryptForPeer_exec]
  split
  · exact h
  · next st x3dhHeader hst =>
    split
    · exact h
    · next header ciphertext st' henc =>
      obtain ⟨level, n, hstands, hacc⟩ := h.stands (stands_sendingState hst)
      have hst' : (exec (encryptMessage entropy.nonce plaintext) st).2 = st' :=
        congrArg Prod.snd (exec_of_onRatchet henc)
      refine ⟨Or.inr ⟨st', level, n, ?_, ?_, hacc⟩, h.nodup⟩
      · rw [loadSession_saveSession, if_pos rfl]
      · rw [← hst']
        exact hstands.encrypt _ _

/-- **A decryption keeps the invariant**: what it accepts is new, and moves the session on. -/
theorem behind_decrypt (hS : Separated S rank derived opened) {conversationId : String}
    {s : System S} (h : Behind rank derived conversationId s) (peerPubkey : IdentityKey)
    {ourRatchetKey : Option (X25519KeyPair S)} {sharedSecret : Option S.Key}
    {header : MessageHeader S} {ciphertext : S.Sealed} {fresh : X25519KeyPair S}
    (hderived : ofDecryptFromPeer (loadSession s.db conversationId) ourRatchetKey sharedSecret
      header fresh ⊆ derived) (hmem : ciphertext ∈ opened) :
    Behind rank derived conversationId (step (E := E) conversationId s
      (.decrypt peerPubkey ourRatchetKey sharedSecret header ciphertext fresh)) := by
  rw [step, decryptFromPeer_exec]
  unfold ofDecryptFromPeer at hderived
  cases hst : receivingState (loadSession s.db conversationId) ourRatchetKey sharedSecret with
  | error e => exact h
  | ok st =>
    rw [hst] at hderived
    dsimp only at hderived ⊢
    cases hdec : onRatchet (decryptMessage header ciphertext fresh) st with
    | error e => exact h
    | ok r =>
      obtain ⟨plaintext, st'⟩ := r
      dsimp only
      obtain ⟨level, n, hstands, hacc⟩ := h.stands (stands_receivingState hst)
      obtain ⟨level', n', hplace, hle, hstands'⟩ :=
        hstands.decrypt hS ciphertext hderived
      have hexec := exec_of_onRatchet hdec
      rw [hexec] at hstands'
      have hopen := opens_of_decryptMessage hexec
      have hkey := hderived (messageKey_mem_ofDecryptMessage header fresh st)
      have hnew := not_mem_of_opened hS hacc hplace hle hkey hmem hopen
      refine ⟨Or.inr ⟨st', level', n' + 1, ?_, hstands', ?_⟩, ?_⟩
      · rw [loadSession_saveSession, if_pos rfl]
      · intro m hm
        rcases List.mem_append.mp hm with hm | hm
        · obtain ⟨level₁, n₁, c, p, hc, hbefore, hmem₁, hp⟩ := hacc m hm
          exact ⟨level₁, n₁, c, p, hc, by unfold Before at hbefore hle ⊢; omega, hmem₁, hp⟩
        · obtain rfl := List.mem_singleton.mp hm
          exact ⟨level', n', _, plaintext, hplace, Or.inr ⟨rfl, Nat.lt_succ_self n'⟩,
            hkey, hopen⟩
      · rw [List.map_append, List.map_singleton, List.nodup_append]
        refine ⟨h.nodup, List.nodup_singleton _, ?_⟩
        rintro c hc c' hc' rfl
        have hcipher : c = ciphertext := List.mem_singleton.mp hc'
        exact hnew (hcipher ▸ hc)

/-- Every call keeps the record behind the session. -/
theorem behind_step (hS : Separated S rank derived opened) {conversationId : String}
    (s : System S) (c : Call S E) (h : Behind rank derived conversationId s)
    (hc : derivedBy conversationId s c ⊆ derived ∧ openedBy c ⊆ opened) :
    Behind rank derived conversationId (step conversationId s c) := by
  cases c with
  | encrypt peerPubkey ourX25519 ourIdentity theirBundle plaintext entropy =>
    exact behind_encrypt h peerPubkey ourX25519 ourIdentity theirBundle plaintext entropy
  | decrypt peerPubkey ourRatchetKey sharedSecret header ciphertext fresh =>
    exact behind_decrypt hS h peerPubkey hc.1 (hc.2 rfl)

/-- What a run derives. -/
def derivedIn (conversationId : String) (db : SessionDb S) (calls : List (Call S E)) :
    Set (Derivation S) :=
  gathered (step conversationId) (derivedBy conversationId) ⟨db, []⟩ calls

/-- The ciphertexts that a run opens. -/
def openedIn (conversationId : String) (db : SessionDb S) (calls : List (Call S E)) :
    Set S.Sealed :=
  gathered (step conversationId) (fun _ c => openedBy c) ⟨db, []⟩ calls

/-- **No ciphertext is accepted twice**, in any run of the session manager on a conversation
that starts without a session. -/
theorem accepted_nodup {conversationId : String} {db : SessionDb S}
    (hdb : loadSession db conversationId = none) {calls : List (Call S E)}
    (hS : Separated S rank (derivedIn conversationId db calls)
      (openedIn conversationId db calls)) :
    ((run (step conversationId) ⟨db, []⟩ calls).accepted.map Prod.snd).Nodup := by
  have hstart : Behind rank (derivedIn conversationId db calls) conversationId ⟨db, []⟩ :=
    ⟨Or.inl ⟨hdb, rfl⟩, List.nodup_nil⟩
  exact (run_invariant (behind_step hS) hstart (meets_gathered.and meets_gathered)).nodup

/-- **Harmless failures and no replay.**  A call of `decrypt_from_peer` that fails leaves the
table unchanged; and in every run on a conversation no header and ciphertext are accepted
twice, if nothing collides that the run derives and opens. -/
theorem failures_harmless_and_no_replay :
    (∀ (db db' : SessionDb S) (conversationId : String) (peerPubkey : IdentityKey)
        (ourRatchetKey : Option (X25519KeyPair S)) (sharedSecret : Option S.Key)
        (header : MessageHeader S) (ciphertext : S.Sealed) (fresh : X25519KeyPair S)
        (e : SessionError),
      exec (decryptFromPeer conversationId peerPubkey ourRatchetKey sharedSecret header ciphertext
        fresh) db = (.error e, db') → db' = db) ∧
      ∀ (conversationId : String) (db : SessionDb S), loadSession db conversationId = none →
        ∀ (calls : List (Call S E)) (rank : S.Key → ℕ),
          Separated S rank (derivedIn conversationId db calls) (openedIn conversationId db calls) →
            (run (step conversationId) ⟨db, []⟩ calls).accepted.Nodup :=
  ⟨fun _ _ _ _ _ _ _ _ _ _ h => decryptFromPeer_error h,
    fun _ _ hdb _ _ hS => List.Nodup.of_map Prod.snd (accepted_nodup hdb hS)⟩

/-! ## The symbolic primitives -/

open DolevYao in
/-- The number of derivations and list cells in a term. -/
def termRank : Term → ℕ
  | .zero => 0
  | .atom _ => 0
  | .dh _ _ => 0
  | .nil => 0
  | .cons head tail => termRank head + termRank tail + 1
  | .kdf ikm _ => termRank ikm + 1

/-- The members of a list of terms rank below it. -/
theorem termRank_le_of_mem {l : List DolevYao.Term} {t : DolevYao.Term} (h : t ∈ l) :
    termRank t ≤ termRank (.ofList l) := by
  induction l with
  | nil => cases h
  | cons u l ih =>
    rw [DolevYao.Term.ofList, termRank]
    rcases List.mem_cons.mp h with rfl | h
    · omega
    · have := ih h
      omega

/-- The symbolic primitives are separated. -/
theorem separated_symbolicSuite (derived : Set (Derivation symbolicSuite))
    (opened : Set symbolicSuite.Sealed) : Separated symbolicSuite termRank derived opened where
  toCollisionFree := collisionFree_symbolicSuite derived opened
  key_ne := fun _ _ h => by cases h
  rank_lt := fun _ _ _ hk => Nat.lt_succ_of_le (termRank_le_of_mem hk)

/-- The first message of a peer that shares the secret `atom 0`: its ratchet key is that of
secret 2, and it is sealed for the owner of the ratchet key of secret 1. -/
def firstMessage : MessageHeader symbolicSuite × symbolicSuite.Sealed :=
  (⟨.of (.honest 2), 0, 0⟩,
    .enc (messageKey (S := symbolicSuite)
      (chainOf (S := symbolicSuite) (.atom 0) (DolevYao.Term.agree (.honest 2) (.of (.honest 1)))))
      0 [104, 105])

/-- Deliver the first message. -/
def deliverFirst (fresh : ℕ) : Call symbolicSuite symbolicSigning :=
  .decrypt [0xAA] (some (RatchetAgreement.keyPair (.honest 1))) (some (.atom 0)) firstMessage.1
    firstMessage.2 (RatchetAgreement.keyPair (.honest fresh))

/-- The session after the first message. -/
def afterFirst : System symbolicSuite :=
  step (E := symbolicSigning) "ab" ⟨SqlTable.empty, []⟩ (deliverFirst 3)

/-- Delivered once more, the first message fails and leaves the table; delivered three times
with a reply in between, it is accepted once. -/
theorem firstMessage_accepted_once :
    (exec (decryptFromPeer "ab" [0xAA] none none firstMessage.1 firstMessage.2
        (RatchetAgreement.keyPair (.honest 4))) afterFirst.db).2 = afterFirst.db ∧
      (run (step (E := symbolicSigning) "ab") ⟨SqlTable.empty, []⟩
        [deliverFirst 3, deliverFirst 4,
          .encrypt [0xAA] (RatchetAgreement.keyPair (.honest 5)) [0xBB] none [121]
            ⟨RatchetAgreement.keyPair (.honest 6), RatchetAgreement.keyPair (.honest 7), 1⟩,
          deliverFirst 8]).accepted.length = 1 ∧
      (run (step (E := symbolicSigning) "ab") ⟨SqlTable.empty, []⟩
        [deliverFirst 3, deliverFirst 4,
          .encrypt [0xAA] (RatchetAgreement.keyPair (.honest 5)) [0xBB] none [121]
            ⟨RatchetAgreement.keyPair (.honest 6), RatchetAgreement.keyPair (.honest 7), 1⟩,
          deliverFirst 8]).accepted.Nodup := by
  have h := failures_harmless_and_no_replay (E := symbolicSigning)
  refine ⟨?_, by decide +kernel, h.2 "ab" SqlTable.empty rfl _ termRank
    (separated_symbolicSuite _ _)⟩
  exact h.1 afterFirst.db _ "ab" [0xAA] none none firstMessage.1 firstMessage.2
    (RatchetAgreement.keyPair (.honest 4)) (.message (.ratchetError
      "decryption failed: XChaCha20-Poly1305 decryption failed: aead::Error")) rfl

end SessionReplay
