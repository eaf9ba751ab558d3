/-
# Agreement of the Double Ratchet

Two parties, one made by `init_sender` and one by `init_receiver`, encrypt at will
and receive each other's messages in sending order, any of which may be lost on the
way.  Every message that is delivered is decrypted to its plaintext
(`delivered_decrypts_to_plaintext`).

The invariant is `Ahead`: at every moment one of the parties is one DH step ahead of
the other.  Its root key and its sending chain come from the step that the other one
has still to make; all messages of the other one are on the chain it is reading; and
its own undelivered messages are first the rest of a chain the other one is reading,
then messages of the new chain.  The first of these that is delivered makes the other
party do two steps at once, and the roles are exchanged (`ahead_deliver_new`).
-/
import Ephemera.SymbolicSuite
import Ephemera.GuardedRun

namespace RatchetAgreement

open Ratchet StateExcept GuardedRun

variable {S : CryptoSuite}

/-! ## The system -/

/-- What the agreement needs of the primitives.  `gen` is the sequence of secrets that
`X25519KeyPair::generate` draws, of which a run takes the first `drawn`; `limit` is the length up
to which the cipher seals a plaintext. -/
structure Primitives (S : CryptoSuite) (gen : ℕ → S.Secret) (limit drawn : ℕ) : Prop where
  dh_comm : ∀ a b, S.diffieHellman a (S.publicOf b) = S.diffieHellman b (S.publicOf a)
  seals : ∀ k n p, p.length ≤ limit → ∃ c, S.sealBytes k n p = .ok c
  opens : ∀ k n p c, S.sealBytes k n p = .ok c → S.openBytes k c = .ok p
  fresh : ∀ i j, i < drawn → j < drawn → S.publicOf (gen i) = S.publicOf (gen j) → i = j

/-- The two parties. -/
inductive Side where
  | alice
  | bob
  deriving DecidableEq, Repr

/-- The other party. -/
def Side.other : Side → Side
  | .alice => .bob
  | .bob => .alice

@[simp] theorem Side.other_other (p : Side) : p.other.other = p := by
  cases p <;> rfl

@[simp] theorem Side.other_ne (p : Side) : p.other ≠ p := by
  cases p <;> decide

@[simp] theorem Side.ne_other (p : Side) : p ≠ p.other := by
  cases p <;> decide

theorem Side.eq_or_eq_other (p q : Side) : q = p ∨ q = p.other := by
  cases p <;> cases q <;> decide

/-- A message on its way, with the plaintext it was made from (which no party sees). -/
structure Packet (S : CryptoSuite) where
  header : MessageHeader S
  ciphertext : S.Sealed
  plaintext : List UInt8

/-- A delivered message: the plaintext it was made from and what `decrypt_message`
returned. -/
structure Delivery where
  plaintext : List UInt8
  result : Except MessageError (List UInt8)

/-- Both parties, the undelivered messages of each (oldest first), the number of key
pairs generated so far and what has been delivered. -/
structure System (S : CryptoSuite) where
  party : Side → RatchetState S
  inFlight : Side → List (Packet S)
  generated : ℕ
  log : List Delivery

/-- What can happen: a party encrypts, or the oldest undelivered message of a party is
delivered or lost. -/
inductive Action (S : CryptoSuite) where
  | encrypt (sender : Side) (nonce : S.Nonce) (plaintext : List UInt8)
  | deliver (sender : Side)
  | drop (sender : Side)

/-- The key pair `X25519KeyPair::generate` makes of a secret. -/
def keyPair (secret : S.Secret) : X25519KeyPair S := ⟨secret, S.publicOf secret, rfl⟩

/-- One action. -/
def step (gen : ℕ → S.Secret) (s : System S) : Action S → System S
  | .encrypt sender nonce plaintext =>
    match exec (encryptMessage nonce plaintext) (s.party sender) with
    | (.ok (header, ciphertext), st) =>
      { s with
        party := Function.update s.party sender st
        inFlight := Function.update s.inFlight sender
          (s.inFlight sender ++ [⟨header, ciphertext, plaintext⟩]) }
    | (.error _, st) => { s with party := Function.update s.party sender st }
  | .deliver sender =>
    match s.inFlight sender with
    | [] => s
    | m :: rest =>
      let r := exec (decryptMessage m.header m.ciphertext (keyPair (gen s.generated)))
        (s.party sender.other)
      { party := Function.update s.party sender.other r.2
        inFlight := Function.update s.inFlight sender rest
        generated := s.generated + 1
        log := s.log ++ [⟨m.plaintext, r.1⟩] }
  | .drop sender =>
    { s with inFlight := Function.update s.inFlight sender (s.inFlight sender).tail }

/-- The start of a session: Bob's ratchet key is the first key pair, Alice draws the
second one. -/
def start (gen : ℕ → S.Secret) (sharedSecret : S.Key) : Except MessageError (System S) := do
  let bobKey := keyPair (gen 0)
  let alice ← initSender sharedSecret bobKey.publicKey (keyPair (gen 1))
  let bob := initReceiver sharedSecret bobKey
  return {
    party := fun
      | .alice => alice
      | .bob => bob
    inFlight := fun _ => []
    generated := 2
    log := [] }

/-- Fewer than `2 ^ 32` messages per chain: the counter of the sender stays below. -/
def ChainShort (s : System S) : Action S → Prop
  | .encrypt sender _ _ => (s.party sender).sendCount + 1 < 2 ^ 32
  | .deliver _ => True
  | .drop _ => True

/-- The plaintext, if there is one, is within the limit of the cipher. -/
def Action.Within (limit : ℕ) : Action S → Prop
  | .encrypt _ _ plaintext => plaintext.length ≤ limit
  | .deliver _ => True
  | .drop _ => True

instance (s : System S) (a : Action S) : Decidable (ChainShort s a) :=
  match a with
  | .encrypt sender _ _ => inferInstanceAs (Decidable ((s.party sender).sendCount + 1 < 2 ^ 32))
  | .deliver _ => .isTrue trivial
  | .drop _ => .isTrue trivial

/-! ## Messages of one chain -/

/-- `l` are messages of the chain that starts at `base`, sent under `key` with
increasing numbers from `lo` on and below `hi`. -/
def Chain (key : S.Public) (base : S.Key) (lo hi : ℕ) : List (Packet S) → Prop
  | [] => lo ≤ hi
  | m :: l =>
    m.header.ratchetKey = key ∧ lo ≤ m.header.messageNumber ∧ m.header.messageNumber < hi ∧
      S.openBytes (messageKey (advance^[m.header.messageNumber] base)) m.ciphertext
        = .ok m.plaintext ∧
      Chain key base (m.header.messageNumber + 1) hi l

theorem Chain.le {key : S.Public} {base : S.Key} {lo hi : ℕ} {l : List (Packet S)}
    (h : Chain key base lo hi l) : lo ≤ hi := by
  cases l with
  | nil => exact h
  | cons m l =>
    obtain ⟨-, hlo, hhi, -⟩ := h
    omega

/-- A chain read from an earlier number on. -/
theorem Chain.mono {key : S.Public} {base : S.Key} {lo lo' hi : ℕ} {l : List (Packet S)}
    (h : Chain key base lo hi l) (hle : lo' ≤ lo) : Chain key base lo' hi l := by
  cases l with
  | nil => exact Nat.le_trans hle h
  | cons m l =>
    obtain ⟨hkey, hlo, hrest⟩ := h
    exact ⟨hkey, Nat.le_trans hle hlo, hrest⟩

/-- Losing the oldest message. -/
theorem Chain.tail {key : S.Public} {base : S.Key} {lo hi : ℕ} {l : List (Packet S)}
    (h : Chain key base lo hi l) : Chain key base lo hi l.tail := by
  cases l with
  | nil => exact h
  | cons m l =>
    obtain ⟨-, hlo, -, -, hrest⟩ := h
    exact hrest.mono (by omega)

/-- Sending the next message of the chain. -/
theorem Chain.concat {key : S.Public} {base : S.Key} {lo hi : ℕ} {l : List (Packet S)}
    {m : Packet S} (h : Chain key base lo hi l) (hkey : m.header.ratchetKey = key)
    (hnum : m.header.messageNumber = hi)
    (hopen : S.openBytes (messageKey (advance^[hi] base)) m.ciphertext = .ok m.plaintext) :
    Chain key base lo (hi + 1) (l ++ [m]) := by
  induction l generalizing lo with
  | nil =>
    have hle : lo ≤ hi := h
    refine ⟨hkey, by omega, by omega, ?_, ?_⟩
    · rw [hnum]
      exact hopen
    · show m.header.messageNumber + 1 ≤ hi + 1
      omega
  | cons m' l ih =>
    obtain ⟨hkey', hlo, hhi, hopen', hrest⟩ := h
    exact ⟨hkey', hlo, by omega, hopen', ih hrest⟩

/-! ## One call of `decrypt_message` -/

/-- The party is reading the chain that starts at `base` and is sent under `key`. -/
structure Reads (r : RatchetState S) (key : S.Public) (base : S.Key) : Prop where
  key : r.recvRatchetPubkey = some key
  chain : r.recvChainKey = advance^[r.recvCount] base

/-- The party writes the chain that starts at `base`. -/
def Writes (r : RatchetState S) (base : S.Key) : Prop :=
  r.sendChainKey = advance^[r.sendCount] base

/-- Skipping from one place of a chain to a later one. -/
theorem advance_iterate_sub (base : S.Key) {i n : ℕ} (h : i ≤ n) :
    advance^[n - i] (advance^[i] base) = advance^[n] base := by
  rw [← Function.iterate_add_apply, Nat.sub_add_cancel h]

/-- A message of the chain the party is reading is decrypted, and the party reads on
behind it; nothing else of its state changes. -/
theorem decrypt_read {r : RatchetState S} {key : S.Public} {base : S.Key} {hi : ℕ}
    {m : Packet S} {rest : List (Packet S)} (fresh : X25519KeyPair S) (hr : Reads r key base)
    (hm : Chain key base r.recvCount hi (m :: rest)) (hhi : hi < 2 ^ 32) :
    exec (decryptMessage m.header m.ciphertext fresh) r =
      (.ok m.plaintext, { r with
        recvChainKey := advance^[m.header.messageNumber + 1] base
        recvCount := m.header.messageNumber + 1 }) := by
  obtain ⟨hkey, hlo, hlt, hopen, -⟩ := hm
  have hloop : atLoop r m.header fresh = r := atLoop_of_eq (by rw [hr.key, hkey]) fresh
  have hchain : openingChain r m.header fresh = advance^[m.header.messageNumber] base := by
    rw [openingChain, hloop, hr.chain, advance_iterate_sub base hlo]
  have hcount : (max r.recvCount m.header.messageNumber + 1) % 2 ^ 32
      = m.header.messageNumber + 1 := by
    omega
  rw [decryptMessage_exec, hloop, hchain, hopen, hcount, Function.iterate_succ_apply']
  rfl

/-- A message of the chain that starts at the next DH step is decrypted after that step. -/
theorem decrypt_step {r : RatchetState S} {key : S.Public} {lo hi : ℕ} {m : Packet S}
    {rest : List (Packet S)} (fresh : X25519KeyPair S) (hr : r.recvRatchetPubkey ≠ some key)
    (hm : Chain key (chainOf r.rootKey (S.diffieHellman r.sendRatchetKey.secret key)) lo hi
      (m :: rest)) (hhi : hi < 2 ^ 32) :
    exec (decryptMessage m.header m.ciphertext fresh) r =
      (.ok m.plaintext, { afterDhStep r key fresh with
        recvChainKey := advance^[m.header.messageNumber + 1]
          (chainOf r.rootKey (S.diffieHellman r.sendRatchetKey.secret key))
        recvCount := m.header.messageNumber + 1 }) := by
  obtain ⟨hkey, -, hlt, hopen, -⟩ := hm
  have hloop : atLoop r m.header fresh = afterDhStep r key fresh := by
    rw [atLoop_of_ne (by rwa [hkey]), hkey]
  have hcount : (max (afterDhStep r key fresh).recvCount m.header.messageNumber + 1) % 2 ^ 32
      = m.header.messageNumber + 1 := by
    show (max 0 m.header.messageNumber + 1) % 2 ^ 32 = _
    omega
  rw [decryptMessage_exec, openingChain, hloop, hcount, Function.iterate_succ_apply']
  show (mapErr _ (S.openBytes (messageKey (advance^[m.header.messageNumber]
    (chainOf r.rootKey (S.diffieHellman r.sendRatchetKey.secret key)))) _), _) = _
  rw [hopen]
  rfl

/-! ## One party is one step ahead -/

/-- The DH output of the step the party behind has still to make. -/
def pendingDh (ahead behind : RatchetState S) : S.Key :=
  S.diffieHellman behind.sendRatchetKey.secret ahead.sendRatchetKey.publicKey

/-- The start of the chain that step leads to. -/
def pendingChain (ahead behind : RatchetState S) : S.Key :=
  chainOf behind.rootKey (pendingDh ahead behind)

/-- The undelivered messages of the party that is ahead: the rest of a chain the other
one is reading, then messages of the new chain. -/
def Queued (ahead behind : RatchetState S) (l : List (Packet S)) : Prop :=
  ∃ old new, l = old ++ new ∧
    (old = [] ∨ ∃ key base hi, hi < 2 ^ 32 ∧ Reads behind key base ∧
      Chain key base behind.recvCount hi old) ∧
    Chain ahead.sendRatchetKey.publicKey (pendingChain ahead behind) 0 ahead.sendCount new

/-- **One party is one DH step ahead of the other**, seen from their states and the
messages under way in both directions. -/
structure Ahead (ahead behind : RatchetState S) (fromAhead fromBehind : List (Packet S)) :
    Prop where
  root : ahead.rootKey = nextRoot behind.rootKey (pendingDh ahead behind)
  writes : Writes ahead (pendingChain ahead behind)
  unseen : behind.recvRatchetPubkey ≠ some ahead.sendRatchetKey.publicKey
  shared : ∃ base, Writes behind base ∧ Reads ahead behind.sendRatchetKey.publicKey base ∧
    Chain behind.sendRatchetKey.publicKey base ahead.recvCount behind.sendCount fromBehind
  queued : Queued ahead behind fromAhead

section

variable {a b : RatchetState S} {la lb : List (Packet S)}

/-- The party after an `encrypt_message`. -/
def afterEncrypt (r : RatchetState S) : RatchetState S :=
  { r with sendChainKey := advance r.sendChainKey, sendCount := r.sendCount + 1 }

theorem Writes.encrypt {r : RatchetState S} {base : S.Key} (h : Writes r base) :
    Writes (afterEncrypt r) base := by
  show advance r.sendChainKey = advance^[r.sendCount + 1] base
  rw [h, Function.iterate_succ_apply']

/-- The message a party sends next, as its receiver will see it. -/
def IsNext (r : RatchetState S) (m : Packet S) : Prop :=
  m.header.ratchetKey = r.sendRatchetKey.publicKey ∧ m.header.messageNumber = r.sendCount ∧
    S.openBytes (messageKey r.sendChainKey) m.ciphertext = .ok m.plaintext

theorem Chain.send {r : RatchetState S} {base : S.Key} {lo : ℕ} {l : List (Packet S)}
    {m : Packet S} (h : Chain r.sendRatchetKey.publicKey base lo r.sendCount l)
    (hw : Writes r base) (hm : IsNext r m) :
    Chain r.sendRatchetKey.publicKey base lo (r.sendCount + 1) (l ++ [m]) := by
  obtain ⟨hkey, hnum, hopen⟩ := hm
  rw [hw] at hopen
  exact h.concat hkey hnum hopen

/-- The party ahead encrypts. -/
theorem Ahead.encrypt_ahead {m : Packet S} (h : Ahead a b la lb) (hm : IsNext a m) :
    Ahead (afterEncrypt a) b (la ++ [m]) lb := by
  obtain ⟨old, new, rfl, hold, hnew⟩ := h.queued
  refine ⟨h.root, h.writes.encrypt, h.unseen, ?_, old, new ++ [m], ?_, hold, ?_⟩
  · obtain ⟨base, hw, hr, hc⟩ := h.shared
    exact ⟨base, hw, ⟨hr.key, hr.chain⟩, hc⟩
  · rw [List.append_assoc]
  · exact hnew.send h.writes hm

/-- The party behind encrypts. -/
theorem Ahead.encrypt_behind {m : Packet S} (h : Ahead a b la lb) (hm : IsNext b m) :
    Ahead a (afterEncrypt b) la (lb ++ [m]) := by
  obtain ⟨base, hw, hr, hc⟩ := h.shared
  refine ⟨h.root, h.writes, h.unseen, ⟨base, hw.encrypt, hr, hc.send hw hm⟩, ?_⟩
  obtain ⟨old, new, rfl, hold, hnew⟩ := h.queued
  refine ⟨old, new, rfl, ?_, hnew⟩
  rcases hold with hold | ⟨key, base', hi, hlt, hr', hc'⟩
  · exact Or.inl hold
  · exact Or.inr ⟨key, base', hi, hlt, ⟨hr'.key, hr'.chain⟩, hc'⟩

/-- The oldest message of the party ahead is lost. -/
theorem Ahead.drop_ahead (h : Ahead a b la lb) : Ahead a b la.tail lb := by
  refine ⟨h.root, h.writes, h.unseen, h.shared, ?_⟩
  obtain ⟨old, new, rfl, hold, hnew⟩ := h.queued
  cases old with
  | nil => exact ⟨[], new.tail, rfl, Or.inl rfl, hnew.tail⟩
  | cons m old =>
    refine ⟨old, new, rfl, Or.inr ?_, hnew⟩
    rcases hold with hold | ⟨key, base, hi, hlt, hr, hc⟩
    · simp at hold
    · exact ⟨key, base, hi, hlt, hr, hc.tail⟩

/-- The oldest message of the party behind is lost. -/
theorem Ahead.drop_behind (h : Ahead a b la lb) : Ahead a b la lb.tail := by
  obtain ⟨base, hw, hr, hc⟩ := h.shared
  exact ⟨h.root, h.writes, h.unseen, ⟨base, hw, hr, hc.tail⟩, h.queued⟩

/-- A message of the party behind is delivered. -/
theorem Ahead.deliver_behind {m : Packet S} (fresh : X25519KeyPair S)
    (h : Ahead a b la (m :: lb)) (hb : b.sendCount < 2 ^ 32) :
    ∃ a', exec (decryptMessage m.header m.ciphertext fresh) a = (.ok m.plaintext, a') ∧
      a'.sendRatchetKey = a.sendRatchetKey ∧ a'.sendCount = a.sendCount ∧ Ahead a' b la lb := by
  obtain ⟨base, hw, hr, hc⟩ := h.shared
  refine ⟨_, decrypt_read fresh hr hc hb, rfl, rfl, h.root, h.writes, h.unseen, ?_, h.queued⟩
  obtain ⟨-, -, -, -, hrest⟩ := hc
  exact ⟨base, hw, ⟨hr.key, rfl⟩, hrest⟩

/-- A message of the old chain of the party ahead is delivered. -/
theorem Ahead.deliver_old {m : Packet S} {key : S.Public} {base : S.Key} {hi : ℕ}
    {old new : List (Packet S)} (fresh : X25519KeyPair S) (h : Ahead a b la lb)
    (hlt : hi < 2 ^ 32) (hr : Reads b key base)
    (hold : Chain key base b.recvCount hi (m :: old))
    (hnew : Chain a.sendRatchetKey.publicKey (pendingChain a b) 0 a.sendCount new) :
    ∃ b', exec (decryptMessage m.header m.ciphertext fresh) b = (.ok m.plaintext, b') ∧
      b'.sendRatchetKey = b.sendRatchetKey ∧ b'.sendCount = b.sendCount ∧
      Ahead a b' (old ++ new) lb := by
  refine ⟨_, decrypt_read fresh hr hold hlt, rfl, rfl, h.root, h.writes, h.unseen, h.shared,
    old, new, rfl, Or.inr ⟨key, base, hi, hlt, ⟨hr.key, rfl⟩, ?_⟩, hnew⟩
  obtain ⟨-, -, -, -, hrest⟩ := hold
  exact hrest

/-- **The exchange of roles.**  The first message of the new chain of the party ahead is
delivered: the party behind makes the pending step and one more with a fresh key pair,
and is ahead from then on. -/
theorem Ahead.deliver_new {gen : ℕ → S.Secret} {m : Packet S} {new : List (Packet S)}
    {fresh : X25519KeyPair S} (hS : Primitives S gen limit drawn) (h : Ahead a b la lb)
    (hnew : Chain a.sendRatchetKey.publicKey (pendingChain a b) 0 a.sendCount (m :: new))
    (hfresh : b.sendRatchetKey.publicKey ≠ fresh.publicKey)
    (ha : a.sendCount < 2 ^ 32) (hb : b.sendCount < 2 ^ 32) :
    ∃ b', exec (decryptMessage m.header m.ciphertext fresh) b = (.ok m.plaintext, b') ∧
      b'.sendRatchetKey = fresh ∧ b'.sendCount = 0 ∧ Ahead b' a lb new := by
  refine ⟨_, decrypt_step fresh h.unseen hnew ha, rfl, rfl, ?_⟩
  -- the second DH output, computed with the own fresh secret, is the one the other computes
  have hdh : S.diffieHellman fresh.secret a.sendRatchetKey.publicKey
      = S.diffieHellman a.sendRatchetKey.secret fresh.publicKey := by
    rw [a.sendRatchetKey.publicKey_eq, fresh.publicKey_eq, hS.dh_comm]
  obtain ⟨base, hw, hr, hc⟩ := h.shared
  constructor
  case root =>
    show nextRoot (nextRoot b.rootKey (pendingDh a b)) _ = nextRoot a.rootKey _
    rw [← h.root, hdh]
    rfl
  case writes =>
    show chainOf (nextRoot b.rootKey (pendingDh a b)) _ = chainOf a.rootKey _
    rw [← h.root, hdh]
    rfl
  case unseen =>
    rw [hr.key]
    exact fun he => hfresh (Option.some.inj he)
  case shared =>
    obtain ⟨-, -, -, -, hrest⟩ := hnew
    exact ⟨pendingChain a b, h.writes, ⟨rfl, rfl⟩, hrest⟩
  case queued =>
    exact ⟨lb, [], (List.append_nil lb).symm, Or.inr ⟨_, base, _, hb, hr, hc⟩, Nat.zero_le _⟩

end

/-! ## Runs -/

/-- The invariant of a session. -/
structure Inv (gen : ℕ → S.Secret) (s : System S) : Prop where
  ahead : ∃ p, Ahead (s.party p) (s.party p.other) (s.inFlight p) (s.inFlight p.other)
  short : ∀ p, (s.party p).sendCount < 2 ^ 32
  drawn : ∀ p, ∃ i, i < s.generated ∧ (s.party p).sendRatchetKey.secret = gen i
  delivered : ∀ d ∈ s.log, d.result = .ok d.plaintext

section

variable {gen : ℕ → S.Secret} {limit drawn : ℕ} {s : System S}

/-- `encrypt_message` returns the next message of the chain and moves on. -/
theorem encrypt_next (hS : Primitives S gen limit drawn) (nonce : S.Nonce)
    {plaintext : List UInt8} (hplain : plaintext.length ≤ limit) {r : RatchetState S}
    (hr : r.sendCount + 1 < 2 ^ 32) :
    ∃ header c, exec (encryptMessage nonce plaintext) r = (.ok (header, c), afterEncrypt r) ∧
      IsNext r ⟨header, c, plaintext⟩ := by
  obtain ⟨c, hc⟩ := hS.seals (messageKey r.sendChainKey) nonce plaintext hplain
  have hcount : (r.sendCount + 1) % 2 ^ 32 = r.sendCount + 1 := Nat.mod_eq_of_lt hr
  refine ⟨⟨r.sendRatchetKey.publicKey, r.sendCount, r.previousSendCount⟩, c, ?_, rfl, rfl,
    hS.opens _ _ _ _ hc⟩
  rw [encryptMessage_exec, hc]
  simp only [hcount, afterEncrypt]

/-- Encrypting keeps the invariant. -/
theorem inv_encrypt (hS : Primitives S gen limit drawn) (h : Inv gen s) (sender : Side)
    (nonce : S.Nonce) {plaintext : List UInt8} (hplain : plaintext.length ≤ limit)
    (hok : ChainShort s (.encrypt sender nonce plaintext)) :
    Inv gen (step gen s (.encrypt sender nonce plaintext)) := by
  obtain ⟨header, c, hexec, hnext⟩ := encrypt_next hS nonce hplain hok
  simp only [step, hexec]
  refine ⟨?_, fun p => ?_, fun p => ?_, h.delivered⟩
  · obtain ⟨p, hp⟩ := h.ahead
    refine ⟨p, ?_⟩
    rcases Side.eq_or_eq_other p sender with rfl | rfl
    · simpa using hp.encrypt_ahead hnext
    · simpa using hp.encrypt_behind hnext
  · by_cases hp : p = sender
    · subst hp
      simpa [afterEncrypt, ChainShort] using hok
    · simpa [hp] using h.short p
  · by_cases hp : p = sender
    · subst hp
      simpa [afterEncrypt] using h.drawn p
    · simpa [hp] using h.drawn p

/-- Losing a message keeps the invariant. -/
theorem inv_drop (h : Inv gen s) (sender : Side) : Inv gen (step gen s (.drop sender)) := by
  refine ⟨?_, h.short, h.drawn, h.delivered⟩
  obtain ⟨p, hp⟩ := h.ahead
  refine ⟨p, ?_⟩
  rcases Side.eq_or_eq_other p sender with rfl | rfl
  · simpa [step] using hp.drop_ahead
  · simpa [step] using hp.drop_behind

/-- A fresh key pair is not the one a party holds. -/
theorem Inv.fresh_ne (hS : Primitives S gen limit drawn) (h : Inv gen s)
    (hdrawn : s.generated < drawn) (p : Side) :
    (s.party p).sendRatchetKey.publicKey ≠ (keyPair (gen s.generated)).publicKey := by
  obtain ⟨i, hi, hsec⟩ := h.drawn p
  rw [X25519KeyPair.publicKey_eq, hsec]
  intro he
  have := hS.fresh i s.generated (Nat.lt_trans hi hdrawn) hdrawn he
  omega

/-- What delivering the head of a queue does to one of the two parties: the message is
decrypted, and either the party keeps its key pair and its counter, or it starts a new
chain under the fresh pair.  Some party is ahead afterwards. -/
theorem deliver_head (hS : Primitives S gen limit drawn) (h : Inv gen s)
    (hdrawn : s.generated < drawn) {sender : Side} {m : Packet S} {rest : List (Packet S)}
    (hq : s.inFlight sender = m :: rest) :
    ∃ r, exec (decryptMessage m.header m.ciphertext (keyPair (gen s.generated)))
        (s.party sender.other) = (.ok m.plaintext, r) ∧
      ((r.sendRatchetKey = (s.party sender.other).sendRatchetKey ∧
          r.sendCount = (s.party sender.other).sendCount) ∨
        (r.sendRatchetKey = keyPair (gen s.generated) ∧ r.sendCount = 0)) ∧
      (Ahead (s.party sender) r rest (s.inFlight sender.other) ∨
        Ahead r (s.party sender) (s.inFlight sender.other) rest) := by
  obtain ⟨p, hp⟩ := h.ahead
  rcases Side.eq_or_eq_other p sender with rfl | rfl
  · -- the sender is ahead: its oldest message is on the old or on the new chain
    obtain ⟨old, new, heq, hold, hnew⟩ := hp.queued
    rw [hq] at heq
    cases old with
    | nil =>
      have hnew' : m :: rest = new := heq
      rw [← hnew'] at hnew
      obtain ⟨r, hr, hkey, hcount, hahead⟩ := hp.deliver_new hS hnew (h.fresh_ne hS hdrawn _)
        (h.short _) (h.short _)
      exact ⟨r, hr, Or.inr ⟨hkey, hcount⟩, Or.inr hahead⟩
    | cons m' old =>
      obtain ⟨rfl, rfl⟩ : m = m' ∧ rest = old ++ new := by simpa using heq
      obtain hold | ⟨key, base, hi, hlt, hreads, hchain⟩ := hold
      · simp at hold
      · obtain ⟨r, hr, hkey, hcount, hahead⟩ := hp.deliver_old _ hlt hreads hchain hnew
        exact ⟨r, hr, Or.inl ⟨hkey, hcount⟩, Or.inl hahead⟩
  · -- the sender is behind: all its messages are on the chain the other one reads
    rw [hq] at hp
    obtain ⟨r, hr, hkey, hcount, hahead⟩ :=
      hp.deliver_behind (keyPair (gen s.generated)) (h.short _)
    rw [Side.other_other]
    exact ⟨r, hr, Or.inl ⟨hkey, hcount⟩, Or.inr hahead⟩

/-- Delivering a message keeps the invariant. -/
theorem inv_deliver (hS : Primitives S gen limit drawn) (h : Inv gen s) (sender : Side)
    (hdrawn : (step gen s (.deliver sender)).generated ≤ drawn) :
    Inv gen (step gen s (.deliver sender)) := by
  cases hq : s.inFlight sender with
  | nil => simpa only [step, hq] using h
  | cons m rest =>
    have hlt : s.generated < drawn := by
      simp only [step, hq] at hdrawn
      exact hdrawn
    obtain ⟨r, hexec, hkeep, hahead⟩ := deliver_head hS h hlt hq
    simp only [step, hq, hexec]
    refine ⟨?_, fun p => ?_, fun p => ?_, fun d hd => ?_⟩
    · rcases hahead with hahead | hahead
      · exact ⟨sender, by simpa using hahead⟩
      · exact ⟨sender.other, by simpa using hahead⟩
    · by_cases hp : p = sender.other
      · subst hp
        rcases hkeep with ⟨-, hcount⟩ | ⟨-, hcount⟩
        · simpa [hcount] using h.short sender.other
        · simp [hcount]
      · simpa [hp] using h.short p
    · by_cases hp : p = sender.other
      · subst hp
        rcases hkeep with ⟨hkey, -⟩ | ⟨hkey, -⟩
        · obtain ⟨i, hi, hsec⟩ := h.drawn sender.other
          exact ⟨i, Nat.lt_succ_of_lt hi, by simp [hkey, hsec]⟩
        · exact ⟨s.generated, Nat.lt_succ_self _, by simp [hkey, keyPair]⟩
      · obtain ⟨i, hi, hsec⟩ := h.drawn p
        exact ⟨i, Nat.lt_succ_of_lt hi, by simp [hp, hsec]⟩
    · rcases List.mem_append.mp hd with hd | hd
      · exact h.delivered d hd
      · rw [List.mem_singleton.mp hd]

/-- Every action keeps the invariant. -/
theorem inv_step (hS : Primitives S gen limit drawn) (s : System S) (a : Action S)
    (h : Inv gen s)
    (hok : ChainShort s a ∧ a.Within limit ∧ (step gen s a).generated ≤ drawn) :
    Inv gen (step gen s a) := by
  obtain ⟨hshort, hwithin, hdrawn⟩ := hok
  cases a with
  | encrypt sender nonce plaintext => exact inv_encrypt hS h sender nonce hwithin hshort
  | deliver sender => exact inv_deliver hS h sender hdrawn
  | drop sender => exact inv_drop h sender

/-- Key pairs are only drawn. -/
theorem generated_le_step (s : System S) (a : Action S) :
    s.generated ≤ (step gen s a).generated := by
  cases a with
  | encrypt sender nonce plaintext =>
    simp only [step]
    split <;> exact Nat.le_refl _
  | deliver sender =>
    simp only [step]
    split
    · exact Nat.le_refl _
    · exact Nat.le_succ _
  | drop sender => exact Nat.le_refl _

/-- A session starts with Alice one step ahead: Bob will make that step when he
receives her first message. -/
theorem inv_start (hS : Primitives S gen limit drawn) (sharedSecret : S.Key) :
    ∃ s, start gen sharedSecret = .ok s ∧ Inv gen s := by
  refine ⟨_, by simp only [start, initSender_eq]; rfl, ⟨.alice, ?_⟩, ?_, ?_, by simp⟩
  · have hdh := hS.dh_comm (gen 1) (gen 0)
    constructor
    case root =>
      show nextRoot sharedSecret _ = nextRoot sharedSecret _
      exact congrArg _ hdh
    case writes =>
      show chainOf sharedSecret _ = chainOf sharedSecret _
      exact congrArg _ hdh
    case unseen => simp [Side.other, initReceiver]
    case shared => exact ⟨S.zeroKey, rfl, ⟨rfl, rfl⟩, Nat.le_refl _⟩
    case queued => exact ⟨[], [], rfl, Or.inl rfl, Nat.le_refl _⟩
  · intro p
    cases p <;> simp [initReceiver]
  · intro p
    cases p
    · exact ⟨1, Nat.one_lt_two, rfl⟩
    · exact ⟨0, Nat.two_pos, rfl⟩

/-- **Agreement of the Double Ratchet.**  However encryptions on both sides, deliveries
in sending order and losses interleave, with fewer than `2 ^ 32` messages per chain, every
delivered message is decrypted to its plaintext.  This includes the runs in which Bob
sends before he has received anything.  The key pairs drawn in the run are different, and the
cipher seals its plaintexts. -/
theorem delivered_decrypts_to_plaintext (hS : Primitives S gen limit drawn)
    (sharedSecret : S.Key) :
    ∃ s₀, start gen sharedSecret = .ok s₀ ∧
      ∀ l, (∀ a ∈ l, a.Within limit) → (run (step gen) s₀ l).generated ≤ drawn →
        Meets (step gen) ChainShort s₀ l →
        ∀ d ∈ (run (step gen) s₀ l).log, d.result = .ok d.plaintext := by
  obtain ⟨s₀, hstart, hinv⟩ := inv_start hS sharedSecret
  refine ⟨s₀, hstart, fun l hwithin hdrawn hl => ?_⟩
  have hmeets := hl.and ((meets_of_forall hwithin s₀).and
    (meets_le_of_monotone (f := System.generated) generated_le_step hdrawn))
  exact (run_invariant (inv_step hS) hinv hmeets).delivered

end

/-- The symbolic primitives are as the agreement needs them. -/
theorem primitives_symbolicSuite (limit drawn : ℕ) :
    Primitives symbolicSuite SymbolicSuite.honestSecret limit drawn where
  dh_comm := DolevYao.Term.agree_comm
  seals := fun k n p _ => ⟨.enc k n p, rfl⟩
  opens := by
    intro k n p c hc
    refine SymbolicSuite.openBytes_eq_ok.mpr ⟨n, ?_⟩
    exact (Except.ok.inj hc).symm
  fresh := fun _ _ _ _ h => SymbolicSuite.publicOf_honestSecret_injective h

/-- Alice's first message is lost, her second one reaches Bob, who answers while a third
one of hers is under way; then both are delivered. -/
def lossyExchange : List (Action symbolicSuite) :=
  [.encrypt .alice 0 [1], .encrypt .alice 1 [2], .drop .alice, .deliver .alice,
    .encrypt .bob 2 [3], .encrypt .alice 3 [4], .deliver .bob, .deliver .alice]

/-- The agreement on that exchange. -/
theorem delivered_decrypts_to_plaintext_lossyExchange :
    ∃ s₀, start SymbolicSuite.honestSecret (.atom 0) = .ok s₀ ∧
      Meets (step SymbolicSuite.honestSecret) ChainShort s₀ lossyExchange ∧
      (run (step SymbolicSuite.honestSecret) s₀ lossyExchange).log.map Delivery.plaintext
        = [[2], [3], [4]] ∧
      ∀ d ∈ (run (step SymbolicSuite.honestSecret) s₀ lossyExchange).log,
        d.result = .ok d.plaintext := by
  obtain ⟨s₀, hstart, hall⟩ :=
    delivered_decrypts_to_plaintext (primitives_symbolicSuite 1 5) (.atom 0)
  have hmeets : Meets (step SymbolicSuite.honestSecret) ChainShort s₀ lossyExchange := by
    injection hstart with hstart
    subst hstart
    decide
  have hwithin : ∀ a ∈ lossyExchange, a.Within 1 := by
    simp [lossyExchange, Action.Within]
  have hdrawn : (run (step SymbolicSuite.honestSecret) s₀ lossyExchange).generated ≤ 5 := by
    injection hstart with hstart
    subst hstart
    decide
  refine ⟨s₀, hstart, hmeets, ?_, hall _ hwithin hdrawn hmeets⟩
  injection hstart with hstart
  subst hstart
  rfl

end RatchetAgreement
