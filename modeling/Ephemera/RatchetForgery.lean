/-
# Forged ratchet messages

The adversary of the symbolic model carries the messages: it may hand any header and
any ciphertext it can build to either party, in any order and as often as it likes.
It can build a ciphertext under every key it can derive and replay every ciphertext
either party has sent.

Both constructors leave the placeholder `[0u8; 32]` in a chain key.  A fresh sender
already stores its peer's ratchet key, so a header that repeats that key skips the DH
step and is opened with a key derived from the placeholder (`forged_reply_accepted`).
In every run in which no such header is handed over while the receive chain is the
placeholder, and nobody encrypts under the placeholder, each accepted message was
encrypted by the peer, and every message key in use is secret
(`accepted_of_peer_encrypted`).

The invariant counts the root-key derivations.  A chain of depth `d` starts at the
`d`-th derivation from the shared secret; Alice writes chains of odd depth and reads
chains of even depth, Bob the other way round.  So a key under which a message is
accepted is secret, and it is not a key of the own sending chains.
-/
import Ephemera.SymbolicSuite
import Ephemera.RatchetAgreement

namespace RatchetForgery

open DolevYao Ratchet StateExcept GuardedRun RatchetAgreement

/-! ## The system -/

/-- A ciphertext a party has sent, or accepted, for a plaintext. -/
structure Message where
  side : Side
  ciphertext : Ciphertext
  plaintext : List UInt8

/-- Both parties, the number of key pairs drawn so far, what has been sent and what has
been accepted. -/
structure Session where
  party : Side → RatchetState symbolicSuite
  generated : ℕ
  sent : List Message
  accepted : List Message

/-- A party encrypts, or the adversary hands a header and a ciphertext to a party. -/
inductive Move where
  | encrypt (sender : Side) (nonce : ℕ) (plaintext : List UInt8)
  | feed (receiver : Side) (header : MessageHeader symbolicSuite) (ciphertext : Ciphertext)

/-- One move. -/
def play (s : Session) : Move → Session
  | .encrypt sender nonce plaintext =>
    match exec (encryptMessage nonce plaintext) (s.party sender) with
    | (.ok (_, ciphertext), st) =>
      { s with
        party := Function.update s.party sender st
        sent := s.sent ++ [⟨sender, ciphertext, plaintext⟩] }
    | (.error _, st) => { s with party := Function.update s.party sender st }
  | .feed receiver header ciphertext =>
    match exec (decryptMessage header ciphertext
        (keyPair (SymbolicSuite.honestSecret s.generated))) (s.party receiver) with
    | (.ok plaintext, st) =>
      { s with
        party := Function.update s.party receiver st
        generated := s.generated + 1
        accepted := s.accepted ++ [⟨receiver, ciphertext, plaintext⟩] }
    | (.error _, st) =>
      { s with
        party := Function.update s.party receiver st
        generated := s.generated + 1 }

/-- A session between Alice (`init_sender`) and Bob (`init_receiver`) under the shared
secret `sk`. -/
def session (sk : ℕ) : Except MessageError Session := do
  let s ← start SymbolicSuite.honestSecret (.atom sk)
  return { party := s.party, generated := s.generated, sent := [], accepted := [] }

/-- What the adversary can hand over: any header, with a ciphertext it can build or
replay. -/
def Feasible (s : Session) : Move → Prop
  | .encrypt _ _ _ => True
  | .feed _ _ ciphertext =>
    match ciphertext with
    | .junk _ => True
    | .enc key nonce plaintext =>
      Derivable key ∨ ∃ m ∈ s.sent, m.ciphertext = .enc key nonce plaintext

/-- The placeholder chain keys are not reached: nobody encrypts while its send chain is
the placeholder, and no header that repeats the stored peer key is handed over while the
receive chain is the placeholder. -/
def AvoidsPlaceholder (s : Session) : Move → Prop
  | .encrypt sender _ _ => (s.party sender).sendChainKey ≠ symbolicSuite.zeroKey
  | .feed receiver header _ =>
    (s.party receiver).recvChainKey = symbolicSuite.zeroKey →
      (s.party receiver).recvRatchetPubkey ≠ some header.ratchetKey

instance (s : Session) (a : Move) : Decidable (AvoidsPlaceholder s a) :=
  match a with
  | .encrypt sender _ _ =>
    inferInstanceAs (Decidable ((s.party sender).sendChainKey ≠ Term.zero))
  | .feed receiver header _ =>
    inferInstanceAs (Decidable ((s.party receiver).recvChainKey = Term.zero →
      (s.party receiver).recvRatchetPubkey ≠ some header.ratchetKey))

/-- **No forgery.**  Each accepted message was encrypted by the peer. -/
def NoForgery (s : Session) : Prop :=
  ∀ m ∈ s.accepted, ∃ m' ∈ s.sent, m'.side = m.side.other ∧ m'.ciphertext = m.ciphertext ∧
    m'.plaintext = m.plaintext

/-- **Message keys are secret**, those used for sending and those used for accepting. -/
def KeysSecret (s : Session) : Prop :=
  ∀ m ∈ s.sent ++ s.accepted, ∃ key nonce, m.ciphertext = .enc key nonce m.plaintext ∧
    ¬ Derivable key

/-! ## Depth of a key -/

/-- Root keys, with the number of derivations from the shared secret. -/
inductive IsRoot (sk : ℕ) : ℕ → Term → Prop where
  | start : IsRoot sk 0 (.atom sk)
  | next {d : ℕ} {r : Term} (dhOutput : Term) : IsRoot sk d r →
      IsRoot sk (d + 1) (nextRoot (S := symbolicSuite) r dhOutput)

/-- Chain keys, with the depth at which their chain starts. -/
inductive IsChain (sk : ℕ) : ℕ → Term → Prop where
  | start {d : ℕ} {r : Term} (dhOutput : Term) : IsRoot sk d r →
      IsChain sk (d + 1) (chainOf (S := symbolicSuite) r dhOutput)
  | advance {d : ℕ} {c : Term} : IsChain sk d c →
      IsChain sk d (advance (S := symbolicSuite) c)

variable {sk : ℕ}

theorem IsRoot.not_derivable {d : ℕ} {r : Term} (h : IsRoot sk d r) : ¬ Derivable r := by
  induction h with
  | start => exact not_derivable_atom sk
  | next x _ ih => exact not_derivable_kdf ih _ _

theorem IsChain.not_derivable {d : ℕ} {c : Term} (h : IsChain sk d c) : ¬ Derivable c := by
  induction h with
  | start x hr => exact not_derivable_kdf hr.not_derivable _ _
  | advance _ ih => exact not_derivable_kdf ih _ _

/-- The depth of a root key, read off the term. -/
def rootDepth : Term → ℕ
  | .kdf (.cons r _) _ => rootDepth r + 1
  | _ => 0

/-- The depth of a chain key, read off the term: `advance` has one input block, the start
of a chain has two. -/
def chainDepth : Term → ℕ
  | .kdf (.cons c .nil) _ => chainDepth c
  | .kdf (.cons r _) _ => rootDepth r + 1
  | _ => 0

theorem IsRoot.rootDepth_eq {d : ℕ} {r : Term} (h : IsRoot sk d r) : rootDepth r = d := by
  induction h with
  | start => rfl
  | @next d r x _ ih =>
    show rootDepth r + 1 = d + 1
    rw [ih]

theorem IsChain.chainDepth_eq {d : ℕ} {c : Term} (h : IsChain sk d c) : chainDepth c = d := by
  induction h with
  | @start d r x hr =>
    show rootDepth r + 1 = d + 1
    rw [hr.rootDepth_eq]
  | @advance d c _ ih =>
    show chainDepth c = d
    exact ih

theorem IsChain.iterate {d : ℕ} {c : Term} (h : IsChain sk d c) (n : ℕ) :
    IsChain sk d ((Ratchet.advance (S := symbolicSuite))^[n] c) := by
  induction n with
  | zero => exact h
  | succ n ih =>
    rw [Function.iterate_succ_apply']
    exact ih.advance

/-! ## Which chains a party uses -/

/-- The parity of the depth of the chains a party writes. -/
def parity : Side → ℕ
  | .alice => 1
  | .bob => 0

theorem parity_other (p : Side) : parity p.other = (parity p + 1) % 2 := by
  cases p <;> rfl

theorem side_eq_of_parity {p q : Side} (h : parity p = parity q) : p = q := by
  cases p <;> cases q <;> first | rfl | exact absurd h (by decide)

/-- A key of a chain that `p` writes. -/
def WrittenBy (sk : ℕ) (p : Side) (c : Term) : Prop :=
  ∃ d, d % 2 = parity p ∧ IsChain sk d c

/-- No chain is written by both. -/
theorem WrittenBy.side_eq {p q : Side} {c : Term} (hp : WrittenBy sk p c)
    (hq : WrittenBy sk q c) : p = q := by
  obtain ⟨d, hd, hc⟩ := hp
  obtain ⟨d', hd', hc'⟩ := hq
  apply side_eq_of_parity
  rw [← hd, ← hd', ← hc.chainDepth_eq, ← hc'.chainDepth_eq]

/-- The message keys of a written chain are secret. -/
theorem WrittenBy.not_derivable {p : Side} {c : Term} (h : WrittenBy sk p c) :
    ¬ Derivable (messageKey (S := symbolicSuite) c) := by
  obtain ⟨d, -, hc⟩ := h
  exact not_derivable_kdf hc.not_derivable _ _

/-- A message key belongs to one chain key. -/
theorem messageKey_injective {c c' : Term}
    (h : messageKey (S := symbolicSuite) c = messageKey (S := symbolicSuite) c') : c = c' := by
  have h' : Term.kdf (.cons c .nil) _ = Term.kdf (.cons c' .nil) _ := h
  simpa using h'

/-- The keys of a party: its root key has the depth of the chains it writes, and its
chain keys are placeholders or keys of chains of the right side. -/
structure PartyInv (sk : ℕ) (p : Side) (r : RatchetState symbolicSuite) : Prop where
  root : ∃ d, d % 2 = parity p ∧ IsRoot sk d r.rootKey
  send : r.sendChainKey = Term.zero ∨ WrittenBy sk p r.sendChainKey
  recv : r.recvChainKey = Term.zero ∨ WrittenBy sk p.other r.recvChainKey

/-- After a DH step no chain key is a placeholder. -/
theorem PartyInv.afterDhStep {p : Side} {r : RatchetState symbolicSuite}
    (h : PartyInv sk p r) (theirs : PublicKey) (fresh : X25519KeyPair symbolicSuite) :
    PartyInv sk p (afterDhStep r theirs fresh) ∧
      WrittenBy sk p.other (Ratchet.afterDhStep r theirs fresh).recvChainKey := by
  obtain ⟨d, hd, hr⟩ := h.root
  -- the first derivation starts the chain the peer writes, the second our own
  have hother := parity_other p
  have hrecv : WrittenBy sk p.other (Ratchet.afterDhStep r theirs fresh).recvChainKey :=
    ⟨d + 1, by omega, .start _ hr⟩
  refine ⟨⟨⟨d + 2, by omega, .next _ (.next _ hr)⟩, Or.inr ?_, Or.inr hrecv⟩, hrecv⟩
  exact ⟨d + 2, by omega, .start _ (.next _ hr)⟩

/-- When `decrypt_message` enters its loop, the receive chain is written by the peer:
either a DH step was made, or the placeholder was avoided. -/
theorem PartyInv.atLoop {p : Side} {r : RatchetState symbolicSuite} (h : PartyInv sk p r)
    (header : MessageHeader symbolicSuite) (fresh : X25519KeyPair symbolicSuite)
    (havoid : r.recvChainKey = Term.zero → r.recvRatchetPubkey ≠ some header.ratchetKey) :
    PartyInv sk p (atLoop r header fresh) ∧
      WrittenBy sk p.other (Ratchet.atLoop r header fresh).recvChainKey := by
  by_cases hkey : r.recvRatchetPubkey = some header.ratchetKey
  · -- without a step the header repeats the stored key
    rw [atLoop_of_eq hkey]
    exact ⟨h, h.recv.resolve_left (fun hzero => havoid hzero hkey)⟩
  · rw [atLoop_of_ne hkey]
    exact h.afterDhStep _ _

/-- One call of `decrypt_message`: it opens the ciphertext with a message key of a chain
the peer writes. -/
theorem PartyInv.decrypt {p : Side} {r : RatchetState symbolicSuite} (h : PartyInv sk p r)
    (header : MessageHeader symbolicSuite) (ct : Ciphertext) (fresh : X25519KeyPair symbolicSuite)
    (havoid : r.recvChainKey = Term.zero → r.recvRatchetPubkey ≠ some header.ratchetKey) :
    ∃ c st, exec (decryptMessage header ct fresh) r =
        (mapErr "decryption failed: " (symbolicSuite.openBytes (messageKey c) ct), st) ∧
      WrittenBy sk p.other c ∧ PartyInv sk p st := by
  obtain ⟨hloop, d, hd, hc⟩ := h.atLoop header fresh havoid
  have hopening : IsChain sk d (openingChain r header fresh) := hc.iterate _
  refine ⟨_, _, decryptMessage_exec (S := symbolicSuite) header ct fresh r, ⟨d, hd, hopening⟩, ?_⟩
  exact ⟨hloop.root, hloop.send, Or.inr ⟨d, hd, hopening.advance⟩⟩

/-! ## Runs -/

/-- The invariant of a session under the adversary. -/
structure Inv (sk : ℕ) (s : Session) : Prop where
  party : ∀ p, PartyInv sk p (s.party p)
  sent : ∀ m ∈ s.sent, ∃ c nonce, WrittenBy sk m.side c ∧
    m.ciphertext = .enc (messageKey (S := symbolicSuite) c) nonce m.plaintext
  noForgery : NoForgery s

/-- The placeholder-free moves of honest parties keep the invariant. -/
theorem inv_encrypt {s : Session} (h : Inv sk s) (sender : Side) (nonce : ℕ)
    (plaintext : List UInt8) (havoid : AvoidsPlaceholder s (.encrypt sender nonce plaintext)) :
    Inv sk (play s (.encrypt sender nonce plaintext)) := by
  have hchain : WrittenBy sk sender (s.party sender).sendChainKey :=
    (h.party sender).send.resolve_left havoid
  have hexec := encryptMessage_exec (S := symbolicSuite) nonce plaintext (s.party sender)
  simp only [play, hexec]
  refine ⟨fun p => ?_, fun m hm => ?_, fun m hm => ?_⟩
  · by_cases hp : p = sender
    · subst hp
      simp only [Function.update_self]
      refine ⟨(h.party p).root, Or.inr ?_, (h.party p).recv⟩
      obtain ⟨d, hd, hc⟩ := hchain
      exact ⟨d, hd, hc.advance⟩
    · simpa [hp] using h.party p
  · rcases List.mem_append.mp hm with hm | hm
    · exact h.sent m hm
    · rw [List.mem_singleton.mp hm]
      exact ⟨_, nonce, hchain, rfl⟩
  · obtain ⟨m', hm', hrest⟩ := h.noForgery m hm
    exact ⟨m', List.mem_append_left _ hm', hrest⟩

/-- A ciphertext the adversary can hand over and that opens under a message key of a
chain written by `q` was sent by `q`, for the plaintext it opens to. -/
theorem sent_of_opens {s : Session} (h : Inv sk s) {q : Side} {c : Term}
    {header : MessageHeader symbolicSuite} {ct : Ciphertext} {p : List UInt8} {receiver : Side}
    (hc : WrittenBy sk q c) (hfeas : Feasible s (.feed receiver header ct))
    (hopen : symbolicSuite.openBytes (messageKey (S := symbolicSuite) c) ct = .ok p) :
    ∃ m ∈ s.sent, m.side = q ∧ m.ciphertext = ct ∧ m.plaintext = p := by
  obtain ⟨n, rfl⟩ := SymbolicSuite.openBytes_eq_ok.mp hopen
  -- the adversary cannot seal under a secret key, so it replays; and a chain has one writer
  rcases hfeas with hder | ⟨m, hm, hct⟩
  · exact absurd hder hc.not_derivable
  · obtain ⟨c', n', hc', henc⟩ := h.sent m hm
    rw [hct, Ciphertext.enc.injEq] at henc
    obtain ⟨hkey, -, hp⟩ := henc
    have hcc : c = c' := messageKey_injective hkey
    subst hcc
    exact ⟨m, hm, hc'.side_eq hc, hct, hp.symm⟩

/-- What the adversary hands over keeps the invariant. -/
theorem inv_feed {s : Session} (h : Inv sk s) (receiver : Side)
    (header : MessageHeader symbolicSuite) (ct : Ciphertext)
    (hfeas : Feasible s (.feed receiver header ct))
    (havoid : AvoidsPlaceholder s (.feed receiver header ct)) :
    Inv sk (play s (.feed receiver header ct)) := by
  obtain ⟨c, st, hexec, hc, hst⟩ := (h.party receiver).decrypt header ct
    (keyPair (SymbolicSuite.honestSecret s.generated)) havoid
  have hparty : ∀ p, PartyInv sk p (Function.update s.party receiver st p) := by
    intro p
    by_cases hp : p = receiver
    · subst hp
      simpa using hst
    · simpa [hp] using h.party p
  cases hopen : symbolicSuite.openBytes (messageKey (S := symbolicSuite) c) ct with
  | error e =>
    rw [hopen] at hexec
    have hexec' : exec (decryptMessage header ct _) (s.party receiver) = (.error _, st) := hexec
    simp only [play, hexec']
    exact ⟨hparty, h.sent, h.noForgery⟩
  | ok plaintext =>
    rw [hopen] at hexec
    have hexec' : exec (decryptMessage header ct _) (s.party receiver) = (.ok plaintext, st) :=
      hexec
    simp only [play, hexec']
    refine ⟨hparty, h.sent, fun m hm => ?_⟩
    rcases List.mem_append.mp hm with hm | hm
    · exact h.noForgery m hm
    · rw [List.mem_singleton.mp hm]
      exact sent_of_opens h hc hfeas hopen

/-- Every feasible move that avoids the placeholders keeps the invariant. -/
theorem inv_play (s : Session) (a : Move) (h : Inv sk s)
    (hok : Feasible s a ∧ AvoidsPlaceholder s a) : Inv sk (play s a) := by
  cases a with
  | encrypt sender nonce plaintext => exact inv_encrypt h sender nonce plaintext hok.2
  | feed receiver header ct => exact inv_feed h receiver header ct hok.1 hok.2

/-- The invariant holds in a new session. -/
theorem inv_session {s₀ : Session} (h₀ : session sk = .ok s₀) : Inv sk s₀ := by
  injection h₀ with h₀
  subst h₀
  refine ⟨fun p => ?_, by simp, by simp [NoForgery]⟩
  cases p
  · exact ⟨⟨1, rfl, .next _ .start⟩, Or.inr ⟨1, rfl, .start _ .start⟩, Or.inl rfl⟩
  · exact ⟨⟨0, rfl, .start⟩, Or.inl rfl, Or.inl rfl⟩

/-- The invariant makes the message keys secret. -/
theorem Inv.keysSecret {s : Session} (h : Inv sk s) : KeysSecret s := by
  have hsent : ∀ m ∈ s.sent, ∃ key nonce, m.ciphertext = .enc key nonce m.plaintext ∧
      ¬ Derivable key := by
    intro m hm
    obtain ⟨c, nonce, hc, henc⟩ := h.sent m hm
    exact ⟨_, nonce, henc, hc.not_derivable⟩
  intro m hm
  rcases List.mem_append.mp hm with hm | hm
  · exact hsent m hm
  · obtain ⟨m', hm', -, hct, hp⟩ := h.noForgery m hm
    rw [← hct, ← hp]
    exact hsent m' hm'

/-- **No forgery without the placeholders.**  In every run in which the adversary never
hands over a header repeating the stored peer key while the receive chain is the
placeholder, and nobody encrypts under the placeholder, every accepted message was
encrypted by the peer for that plaintext, and no message key used for sending or
accepting can be derived. -/
theorem accepted_of_peer_encrypted {s₀ : Session} {l : List Move} (h₀ : session sk = .ok s₀)
    (hl : Meets play (fun s a => Feasible s a ∧ AvoidsPlaceholder s a) s₀ l) :
    NoForgery (run play s₀ l) ∧ KeysSecret (run play s₀ l) := by
  have h : Inv sk (run play s₀ l) := run_invariant inv_play (inv_session h₀) hl
  exact ⟨h.noForgery, h.keysSecret⟩

/-- Alice sends, the adversary replays her message to Bob twice, and once under a header
with a key of its own. -/
def replayed : List Move :=
  let ct : Ciphertext := .enc (messageKey (S := symbolicSuite)
    (chainOf (S := symbolicSuite) (.atom 0) (.dh (.honest 0) (.honest 1)))) 0 [1]
  [.encrypt .alice 0 [1],
    .feed .bob ⟨.of (.honest 1), 0, 0⟩ ct,
    .feed .bob ⟨.of (.honest 1), 0, 0⟩ ct,
    .feed .bob ⟨.of (.adversary 0), 0, 0⟩ ct]

/-- The message is accepted once, and the statement applies to the run. -/
theorem accepted_of_peer_encrypted_replayed :
    ∃ s₀, session 0 = .ok s₀ ∧
      Meets play (fun s a => Feasible s a ∧ AvoidsPlaceholder s a) s₀ replayed ∧
      (run play s₀ replayed).accepted.length = 1 ∧
      NoForgery (run play s₀ replayed) ∧ KeysSecret (run play s₀ replayed) := by
  refine ⟨_, rfl, ?meets, rfl, @accepted_of_peer_encrypted 0 _ _ rfl ?meets⟩
  exact ⟨⟨trivial, by decide⟩, ⟨Or.inr ⟨_, List.mem_cons_self, rfl⟩, by decide⟩,
    ⟨Or.inr ⟨_, List.mem_cons_self, rfl⟩, by decide⟩,
    ⟨Or.inr ⟨_, List.mem_cons_self, rfl⟩, by decide⟩, trivial⟩

/-- The adversary answers Alice's new session in Bob's name: it repeats the ratchet key
she has stored and seals under the message key of the placeholder. -/
def forgedReply : Move :=
  .feed .alice ⟨.of (.honest 0), 0, 0⟩
    (.enc (messageKey (S := symbolicSuite) symbolicSuite.zeroKey) 0 [42])

/-- **A forged reply is accepted** although Bob has never encrypted anything. -/
theorem forged_reply_accepted :
    ∃ s₀, session 0 = .ok s₀ ∧ Meets play Feasible s₀ [forgedReply] ∧
      ¬ NoForgery (run play s₀ [forgedReply]) := by
  refine ⟨_, rfl, ⟨Or.inl ?_, trivial⟩, ?_⟩
  · exact Derivable.kdf_ofList (by simpa using Derivable.zero) _
  · intro h
    obtain ⟨m', hm', -⟩ := h ⟨.alice, _, [42]⟩ List.mem_cons_self
    exact absurd hm' List.not_mem_nil

end RatchetForgery
