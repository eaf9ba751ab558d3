/-
# What a failed decryption leaves of a ratchet

`decrypt_message` makes its DH step, its turns of the loop and its last advance before it calls
`open`, and none of them is undone when `open` fails: a message that is not genuine always
leaves another state (`clean_decrypt_iff`), from which the genuine message may no longer
decrypt (`forged_header_loses_message`).  The additions on the `u32` counters panic or wrap
around at the limit, depending on the build; they do so for the largest message number.

A run is therefore free of both exactly when each message handed to `decrypt_message` is
genuine for its header and stays below the limit, and no chain is written beyond it
(`clean_iff_meets`).
-/
import Ephemera.RatchetAgreement

namespace RatchetAtomicity

open Ratchet StateExcept GuardedRun

variable {S : CryptoSuite}

/-! ## The operations with their additions -/

/-- What ends a call early: an error, or the panic of an addition. -/
inductive Failure where
  | message (e : MessageError)
  | overflow
  deriving DecidableEq

/-- `n += 1` on a `u32`: in a build with overflow checks it panics at the limit, in another one
it wraps around. -/
def increment (checks : Bool) (n : ℕ) : Except Failure ℕ :=
  if checks = true ∧ 2 ^ 32 ≤ n + 1 then .error .overflow else .ok ((n + 1) % 2 ^ 32)

/-- A computation on a ratchet state that may also panic. -/
abbrev CheckedM (S : CryptoSuite) := StateExcept Failure (RatchetState S)

/-- `RatchetState::encrypt_message` in a build with or without overflow checks. -/
def encryptChecked (checks : Bool) (nonce : S.Nonce) (plaintext : List UInt8) :
    CheckedM S (MessageHeader S × S.Sealed) := do
  let (newChainKey, messageKey) ← (kdfCk (← get).sendChainKey).mapError Failure.message
  modify fun st => { st with sendChainKey := newChainKey }
  let st ← get
  let header : MessageHeader S :=
    { ratchetKey := st.sendRatchetKey.publicKey
      messageNumber := st.sendCount
      previousChainLength := st.previousSendCount }
  let ciphertext ←
    (Ratchet.mapErr "encryption failed: " (S.sealBytes messageKey nonce plaintext)).mapError
      Failure.message
  let sendCount ← increment checks (← get).sendCount
  modify fun st => { st with sendCount := sendCount }
  return (header, ciphertext)

/-- The loop of `decrypt_message`. -/
def skipChecked (checks : Bool) : ℕ → CheckedM S Unit
  | 0 => return ()
  | n + 1 => do
    let (newCk, _) ← (kdfCk (← get).recvChainKey).mapError Failure.message
    modify fun st => { st with recvChainKey := newCk }
    let recvCount ← increment checks (← get).recvCount
    modify fun st => { st with recvCount := recvCount }
    skipChecked checks n

/-- `RatchetState::decrypt_message` in a build with or without overflow checks. -/
def decryptChecked (checks : Bool) (header : MessageHeader S) (ciphertext : S.Sealed)
    (fresh : X25519KeyPair S) : CheckedM S (List UInt8) := do
  if needDhStep (← get) header then
    StateExcept.mapErr Failure.message (dhRatchetStep header.ratchetKey fresh)
  skipChecked checks (header.messageNumber - (← get).recvCount)
  let (newChainKey, messageKey) ← (kdfCk (← get).recvChainKey).mapError Failure.message
  modify fun st => { st with recvChainKey := newChainKey }
  let recvCount ← increment checks (← get).recvCount
  modify fun st => { st with recvCount := recvCount }
  -- by now everything is written, whether the ciphertext opens or not
  ((Ratchet.mapErr "decryption failed: " (S.openBytes messageKey ciphertext)).mapError
    Failure.message : Except Failure _)

/-! ## What they do -/

/-- Short of the limit an addition is exact in every build. -/
theorem increment_of_lt (checks : Bool) {n : ℕ} (h : n + 1 < 2 ^ 32) :
    increment checks n = .ok (n + 1) := by
  rw [increment, if_neg (fun hand => absurd hand.2 (Nat.not_le_of_gt h)), Nat.mod_eq_of_lt h]

/-- At the limit it panics where overflow is checked. -/
theorem increment_of_le {n : ℕ} (h : 2 ^ 32 ≤ n + 1) : increment true n = .error .overflow := by
  rw [increment, if_pos ⟨rfl, h⟩]

/-- An addition wraps around where it is not. -/
theorem increment_false (n : ℕ) : increment false n = .ok ((n + 1) % 2 ^ 32) := by
  rw [increment, if_neg (fun hand => Bool.false_ne_true hand.1)]

/-- A chain key is advanced in every build. -/
theorem kdfCk_mapError (c : S.Key) :
    (kdfCk c).mapError Failure.message = .ok (advance c, messageKey c) := by
  rw [kdfCk_eq]
  rfl

/-- The loop takes the receive chain on when its turns stay below the limit. -/
theorem skipChecked_of_lt (checks : Bool) (n : ℕ) (st : RatchetState S)
    (h : st.recvCount + n < 2 ^ 32) :
    exec (skipChecked checks n) st = (.ok (), { st with
      recvChainKey := advance^[n] st.recvChainKey
      recvCount := st.recvCount + n }) := by
  induction n generalizing st with
  | zero => rfl
  | succ n ih =>
    have hone : increment checks st.recvCount = .ok (st.recvCount + 1) :=
      increment_of_lt checks (by omega)
    have hrest := ih { st with
      recvChainKey := advance st.recvChainKey
      recvCount := st.recvCount + 1 } (by dsimp only; omega)
    simp only [skipChecked, kdfCk_mapError, exec_bind, exec_get, exec_modify, exec_lift, hone,
      hrest, Function.iterate_succ_apply, Nat.add_right_comm st.recvCount 1 n, Nat.add_assoc]

/-- And it panics when one of them does not. -/
theorem skipChecked_of_le (n : ℕ) (st : RatchetState S) (hn : 0 < n)
    (h : 2 ^ 32 ≤ st.recvCount + n) :
    ∃ st', exec (skipChecked true n) st = (.error .overflow, st') := by
  induction n generalizing st with
  | zero => omega
  | succ n ih =>
    by_cases hfirst : st.recvCount + 1 < 2 ^ 32
    · obtain ⟨st', hst'⟩ := ih { st with
        recvChainKey := advance st.recvChainKey
        recvCount := st.recvCount + 1 } (by omega) (by dsimp only; omega)
      refine ⟨st', ?_⟩
      simp only [skipChecked, kdfCk_mapError, exec_bind, exec_get, exec_modify, exec_lift,
        increment_of_lt true hfirst, hst']
    · refine ⟨{ st with recvChainKey := advance st.recvChainKey }, ?_⟩
      simp only [skipChecked, kdfCk_mapError, exec_bind, exec_get, exec_modify, exec_lift,
        increment_of_le (Nat.le_of_not_lt hfirst)]

/-- The first part of `decrypt_message` leads to the loop. -/
theorem decryptChecked_eq (checks : Bool) (header : MessageHeader S) (ciphertext : S.Sealed)
    (fresh : X25519KeyPair S) (st : RatchetState S) :
    exec (decryptChecked checks header ciphertext fresh) st =
      match exec (skipChecked checks (header.messageNumber -
          (atLoop st header fresh).recvCount)) (atLoop st header fresh) with
      | (.error e, st') => (.error e, st')
      | (.ok _, st') =>
        match increment checks st'.recvCount with
        | .error e => (.error e, { st' with recvChainKey := advance st'.recvChainKey })
        | .ok recvCount =>
          ((Ratchet.mapErr "decryption failed: "
              (S.openBytes (messageKey st'.recvChainKey) ciphertext)).mapError Failure.message,
            { st' with recvChainKey := advance st'.recvChainKey, recvCount := recvCount }) := by
  cases hskip : exec (skipChecked checks (header.messageNumber -
      (atLoop st header fresh).recvCount)) (atLoop st header fresh) with
  | mk r st' =>
    by_cases hneed : needDhStep st header = true
    · have hloop : atLoop st header fresh = afterDhStep st header.ratchetKey fresh := if_pos hneed
      have hstep : exec (StateExcept.mapErr Failure.message
          (dhRatchetStep header.ratchetKey fresh)) st =
          (.ok (), afterDhStep st header.ratchetKey fresh) := by
        rw [StateExcept.exec_mapErr, dhRatchetStep_exec]
        rfl
      rw [hloop] at hskip
      simp only [decryptChecked, kdfCk_mapError, exec_bind, exec_get, exec_modify, exec_lift,
        if_pos hneed, hstep, hskip]
      cases r with
      | error e => rfl
      | ok _ =>
        dsimp only
        cases increment checks st'.recvCount <;> rfl
    · have hloop : atLoop st header fresh = st := if_neg hneed
      rw [hloop] at hskip
      simp only [decryptChecked, kdfCk_mapError, exec_bind, exec_get, exec_modify, exec_lift,
        if_neg hneed, hskip]
      cases r with
      | error e => rfl
      | ok _ =>
        dsimp only
        cases increment checks st'.recvCount <;> rfl

/-- The number to which `decrypt_message` counts before its last addition. -/
def lastCount (st : RatchetState S) (header : MessageHeader S) : ℕ :=
  if st.recvRatchetPubkey = some header.ratchetKey then max st.recvCount header.messageNumber
  else header.messageNumber

/-- The chain key at the place that a header names: on the chain that is read, or on the one
that the root key and the header's ratchet key start. -/
def namedChain (st : RatchetState S) (header : MessageHeader S) : S.Key :=
  if st.recvRatchetPubkey = some header.ratchetKey then
    advance^[header.messageNumber - st.recvCount] st.recvChainKey
  else
    advance^[header.messageNumber]
      (chainOf st.rootKey (S.diffieHellman st.sendRatchetKey.secret header.ratchetKey))

/-- The loop ends at the named place, with the count of that place. -/
theorem atLoop_counts (st : RatchetState S) (header : MessageHeader S)
    (fresh : X25519KeyPair S) :
    (atLoop st header fresh).recvCount +
        (header.messageNumber - (atLoop st header fresh).recvCount) = lastCount st header ∧
      openingChain st header fresh = namedChain st header := by
  rw [openingChain, lastCount, namedChain]
  by_cases hkey : st.recvRatchetPubkey = some header.ratchetKey
  · rw [atLoop_of_eq hkey, if_pos hkey, if_pos hkey]
    exact ⟨by omega, rfl⟩
  · rw [atLoop_of_ne hkey, if_neg hkey, if_neg hkey]
    exact ⟨by simp [afterDhStep], rfl⟩

/-- **`decrypt_message` below the limit.**  All writes are made whether the message opens or
not. -/
theorem decryptChecked_of_lt (checks : Bool) (header : MessageHeader S) (ciphertext : S.Sealed)
    (fresh : X25519KeyPair S) (st : RatchetState S) (h : lastCount st header + 1 < 2 ^ 32) :
    exec (decryptChecked checks header ciphertext fresh) st =
      ((Ratchet.mapErr "decryption failed: "
          (S.openBytes (messageKey (namedChain st header)) ciphertext)).mapError Failure.message,
        { atLoop st header fresh with
          recvChainKey := advance (namedChain st header)
          recvCount := lastCount st header + 1 }) := by
  obtain ⟨hcount, hchain⟩ := atLoop_counts st header fresh
  have hopening : advance^[header.messageNumber - (atLoop st header fresh).recvCount]
      (atLoop st header fresh).recvChainKey = namedChain st header := hchain
  rw [decryptChecked_eq, skipChecked_of_lt checks _ _ (by omega), hcount, hopening]
  dsimp only
  rw [increment_of_lt checks h]

/-- **And at the limit**: an addition overflows. -/
theorem decryptChecked_of_le (header : MessageHeader S) (ciphertext : S.Sealed)
    (fresh : X25519KeyPair S) (st : RatchetState S) (h : 2 ^ 32 ≤ lastCount st header + 1) :
    ∃ st', exec (decryptChecked true header ciphertext fresh) st = (.error .overflow, st') := by
  obtain ⟨hcount, -⟩ := atLoop_counts st header fresh
  rw [decryptChecked_eq]
  by_cases hlt : lastCount st header < 2 ^ 32
  · -- the loop ends just below the limit, and the last addition reaches it
    rw [skipChecked_of_lt true _ _ (by omega), hcount]
    dsimp only
    rw [increment_of_le h]
    exact ⟨_, rfl⟩
  · by_cases hskip : 0 < header.messageNumber - (atLoop st header fresh).recvCount
    · obtain ⟨st', hst'⟩ := skipChecked_of_le _ (atLoop st header fresh) hskip (by omega)
      rw [hst']
      exact ⟨st', rfl⟩
    · have hzero : header.messageNumber - (atLoop st header fresh).recvCount = 0 := by omega
      have hlast : 2 ^ 32 ≤ (atLoop st header fresh).recvCount + 1 := by omega
      rw [hzero, skipChecked, exec_pure]
      dsimp only
      rw [increment_of_le hlast]
      exact ⟨_, rfl⟩

/-- **`encrypt_message`** with its addition. -/
theorem encryptChecked_exec (checks : Bool) (nonce : S.Nonce) (plaintext : List UInt8)
    (st : RatchetState S) :
    exec (encryptChecked checks nonce plaintext) st =
      match S.sealBytes (messageKey st.sendChainKey) nonce plaintext with
      | .error e => (.error (.message (.ratchetError ("encryption failed: " ++ e))),
          { st with sendChainKey := advance st.sendChainKey })
      | .ok c =>
        match increment checks st.sendCount with
        | .error e => (.error e, { st with sendChainKey := advance st.sendChainKey })
        | .ok n => (.ok (⟨st.sendRatchetKey.publicKey, st.sendCount, st.previousSendCount⟩, c),
            { st with sendChainKey := advance st.sendChainKey, sendCount := n }) := by
  simp only [encryptChecked, kdfCk_mapError, exec_bind, exec_get, exec_modify, exec_lift, exec_pure]
  cases S.sealBytes (messageKey st.sendChainKey) nonce plaintext with
  | error e => rfl
  | ok c =>
    simp only [Ratchet.mapErr, Except.mapError]
    cases increment checks st.sendCount <;> rfl

/-! ## The build without overflow checks -/

/-- Without checks `encrypt_message` is the one of `Ephemera.Ratchet`. -/
theorem encryptChecked_false (nonce : S.Nonce) (plaintext : List UInt8) (st : RatchetState S) :
    exec (encryptChecked false nonce plaintext) st =
      exec (StateExcept.mapErr Failure.message (encryptMessage nonce plaintext)) st := by
  rw [encryptChecked_exec, StateExcept.exec_mapErr, encryptMessage_exec, increment_false]
  cases S.sealBytes (messageKey st.sendChainKey) nonce plaintext <;> rfl

/-- And so is the loop. -/
theorem skipChecked_false (n : ℕ) (st : RatchetState S) :
    exec (skipChecked false n) st =
      exec (StateExcept.mapErr Failure.message (skipMessages n)) st := by
  induction n generalizing st with
  | zero => rfl
  | succ n ih =>
    have hok : (Except.ok () : Except MessageError Unit).mapError Failure.message = .ok () := rfl
    rw [StateExcept.exec_mapErr, skipMessages_exec]
    simp only [skipChecked, kdfCk_mapError, exec_bind, exec_get, exec_modify, exec_lift,
      increment_false, ih, StateExcept.exec_mapErr, skipMessages_exec, hok,
      Function.iterate_succ_apply, Nat.add_one_ne_zero, if_false, recvCount_turns]

/-- Without checks `decrypt_message` is the one of `Ephemera.Ratchet`. -/
theorem decryptChecked_false (header : MessageHeader S) (ciphertext : S.Sealed)
    (fresh : X25519KeyPair S) (st : RatchetState S) :
    exec (decryptChecked false header ciphertext fresh) st =
      exec (StateExcept.mapErr Failure.message (decryptMessage header ciphertext fresh)) st := by
  have hcount : ∀ a b : ℕ, ((if b - a = 0 then a else (a + (b - a)) % 2 ^ 32) + 1) % 2 ^ 32
      = (max a b + 1) % 2 ^ 32 := by
    intro a b
    split <;> omega
  rw [decryptChecked_eq, skipChecked_false, StateExcept.exec_mapErr, skipMessages_exec,
    StateExcept.exec_mapErr, decryptMessage_exec]
  simp only [Except.mapError, increment_false, hcount]
  rfl

/-! ## Clean calls -/

/-- A call of a ratchet with what it draws. -/
inductive Action (S : CryptoSuite) where
  | encrypt (nonce : S.Nonce) (plaintext : List UInt8)
  | decrypt (header : MessageHeader S) (ciphertext : S.Sealed) (fresh : X25519KeyPair S)

/-- In no build does an addition of the call overflow, and if `decrypt_message` returns an error
it leaves the state as it was. -/
def Clean (st : RatchetState S) : Action S → Prop
  | .encrypt nonce plaintext =>
    ∀ checks st', exec (encryptChecked checks nonce plaintext) st ≠ (.error .overflow, st')
  | .decrypt header ciphertext fresh =>
    (∀ checks st', exec (decryptChecked checks header ciphertext fresh) st ≠
        (.error .overflow, st')) ∧
      ∀ checks e st', exec (decryptChecked checks header ciphertext fresh) st =
        (.error (.message e), st') → st' = st

/-- The ciphertext opens under the message key at the place its header names. -/
def Genuine (st : RatchetState S) (header : MessageHeader S) (ciphertext : S.Sealed) : Prop :=
  ∃ p, S.openBytes (messageKey (namedChain st header)) ciphertext = .ok p

/-- The message handed over is genuine, and the numbers stay below the limit. -/
def WithinLimits (st : RatchetState S) : Action S → Prop
  | .encrypt nonce plaintext =>
    st.sendCount + 1 < 2 ^ 32 ∨
      ∃ e, S.sealBytes (messageKey st.sendChainKey) nonce plaintext = .error e
  | .decrypt header ciphertext _ =>
    Genuine st header ciphertext ∧ header.messageNumber + 1 < 2 ^ 32 ∧
      (st.recvRatchetPubkey = some header.ratchetKey → st.recvCount + 1 < 2 ^ 32)

/-- The last addition of `decrypt_message` is below the limit exactly when the message number
and the count of the chain that is read are. -/
theorem lastCount_lt_iff (st : RatchetState S) (header : MessageHeader S) :
    lastCount st header + 1 < 2 ^ 32 ↔ header.messageNumber + 1 < 2 ^ 32 ∧
      (st.recvRatchetPubkey = some header.ratchetKey → st.recvCount + 1 < 2 ^ 32) := by
  rw [lastCount]
  by_cases hkey : st.recvRatchetPubkey = some header.ratchetKey
  · rw [if_pos hkey, forall_prop_of_true hkey]
    omega
  · rw [if_neg hkey, forall_prop_of_false hkey, and_true]

/-- Below the limit the state always changes: the chain is read on, or another one is. -/
theorem state_ne_of_lt (st : RatchetState S) (header : MessageHeader S)
    (fresh : X25519KeyPair S) (c : S.Key) :
    { atLoop st header fresh with
      recvChainKey := c, recvCount := lastCount st header + 1 } ≠ st := by
  intro h
  by_cases hkey : st.recvRatchetPubkey = some header.ratchetKey
  · have hcount : lastCount st header + 1 = st.recvCount := congrArg RatchetState.recvCount h
    rw [lastCount, if_pos hkey] at hcount
    omega
  · rw [atLoop_of_ne hkey] at h
    exact hkey (congrArg RatchetState.recvRatchetPubkey h).symm

/-- **Atomicity of `decrypt_message`, exactly**: the call is clean exactly when the message is
genuine and its number and the count of its chain stay below the limit. -/
theorem clean_decrypt_iff (st : RatchetState S) (header : MessageHeader S) (ciphertext : S.Sealed)
    (fresh : X25519KeyPair S) :
    Clean st (.decrypt header ciphertext fresh) ↔
      WithinLimits st (.decrypt header ciphertext fresh) := by
  rw [WithinLimits, ← lastCount_lt_iff]
  by_cases hlt : lastCount st header + 1 < 2 ^ 32
  · rw [and_iff_left hlt]
    have hexec := fun checks => decryptChecked_of_lt checks header ciphertext fresh st hlt
    unfold Genuine
    cases hopen : S.openBytes (messageKey (namedChain st header)) ciphertext with
    | ok p =>
      refine iff_of_true ⟨fun checks st' h => ?_, fun checks e st' h => ?_⟩ ⟨p, rfl⟩
      · rw [hexec, hopen] at h
        cases h
      · rw [hexec, hopen] at h
        cases h
    | error e =>
      refine iff_of_false (fun hclean => ?_) (fun ⟨p, hp⟩ => by cases hp)
      have hsame := hclean.2 false (.ratchetError ("decryption failed: " ++ e)) _
        (by rw [hexec, hopen]; rfl)
      exact state_ne_of_lt st header fresh _ hsame
  · refine iff_of_false (fun hclean => ?_) (fun h => hlt h.2)
    obtain ⟨st', hover⟩ :=
      decryptChecked_of_le header ciphertext fresh st (Nat.le_of_not_lt hlt)
    exact hclean.1 true st' hover

/-- An encryption is clean exactly when it does not reach the addition at the limit. -/
theorem clean_encrypt_iff (st : RatchetState S) (nonce : S.Nonce) (plaintext : List UInt8) :
    Clean st (.encrypt nonce plaintext) ↔ WithinLimits st (.encrypt nonce plaintext) := by
  have hexec := fun checks => encryptChecked_exec checks nonce plaintext st
  simp only [Clean, WithinLimits]
  cases hseal : S.sealBytes (messageKey st.sendChainKey) nonce plaintext with
  | error e =>
    refine iff_of_true (fun checks st' h => ?_) (Or.inr ⟨e, rfl⟩)
    rw [hexec, hseal] at h
    cases h
  | ok c =>
    by_cases hlt : st.sendCount + 1 < 2 ^ 32
    · refine iff_of_true (fun checks st' h => ?_) (Or.inl hlt)
      rw [hexec, hseal, increment_of_lt checks hlt] at h
      cases h
    · refine iff_of_false (fun h => ?_) ?_
      · refine h true { st with sendChainKey := advance st.sendChainKey } ?_
        rw [hexec, hseal, increment_of_le (Nat.le_of_not_lt hlt)]
      · rintro (h | ⟨e, h⟩)
        · exact hlt h
        · cases h

/-! ## Runs -/

/-- The state after a call, in the build that wraps around. -/
def step (st : RatchetState S) : Action S → RatchetState S
  | .encrypt nonce plaintext => (exec (encryptMessage nonce plaintext) st).2
  | .decrypt header ciphertext fresh => (exec (decryptMessage header ciphertext fresh) st).2

/-- **Runs of a ratchet.**  From any state, each call of a run is clean exactly when each
message handed to `decrypt_message` is genuine and the numbers stay below the limit. -/
theorem clean_iff_meets (st : RatchetState S) (l : List (Action S)) :
    (∀ l₁ a l₂, l = l₁ ++ a :: l₂ → Clean (run step st l₁) a) ↔ Meets step WithinLimits st l := by
  rw [meets_iff_forall_split]
  refine forall_congr' (fun l₁ => forall_congr' (fun a => forall_congr' (fun l₂ =>
    forall_congr' (fun _ => ?_))))
  cases a with
  | encrypt nonce plaintext => exact clean_encrypt_iff _ nonce plaintext
  | decrypt header ciphertext fresh => exact clean_decrypt_iff _ header ciphertext fresh

/-! ## A forged header -/

/-- Bob after `init_receiver` under the secret `atom 0`. -/
def bob : RatchetState symbolicSuite :=
  initReceiver (.atom 0) (RatchetAgreement.keyPair (.honest 1))

/-- Alice's first message. -/
def aliceHeader : MessageHeader symbolicSuite := ⟨.of (.honest 2), 0, 0⟩

/-- Its ciphertext, of the text "hi". -/
def aliceCiphertext : DolevYao.Ciphertext :=
  .enc (messageKey (S := symbolicSuite) (namedChain bob aliceHeader)) 0 [104, 105]

/-- A header under a key of the adversary, with bytes that no key opens. -/
def forgedHeader : MessageHeader symbolicSuite := ⟨.of (.adversary 0), 7, 0⟩

/-- Before the forged header Bob decrypts Alice's message.  The forged one fails, leaves
another state, and in this state Alice's message fails as well. -/
theorem forged_header_loses_message :
    (exec (decryptMessage (S := symbolicSuite) aliceHeader aliceCiphertext
        (RatchetAgreement.keyPair (.honest 3))) bob).1.toOption = some [104, 105] ∧
      ¬ Clean bob (.decrypt forgedHeader (.junk []) (RatchetAgreement.keyPair (.honest 3))) ∧
      (exec (decryptMessage (S := symbolicSuite) aliceHeader aliceCiphertext
        (RatchetAgreement.keyPair (.honest 4)))
        (step bob (.decrypt forgedHeader (.junk [])
          (RatchetAgreement.keyPair (.honest 3))))).1.toOption = none := by
  refine ⟨by decide +kernel, fun h => ?_, by decide +kernel⟩
  obtain ⟨⟨p, hp⟩, -⟩ := (clean_decrypt_iff _ _ _ _).mp h
  cases hp

end RatchetAtomicity
