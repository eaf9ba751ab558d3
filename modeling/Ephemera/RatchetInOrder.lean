/-
# The Double Ratchet over channels that lose nothing

`RatchetAgreement` bounds the length of a chain, because a receiver that has missed
messages counts up to the `u32` in the header.  Where messages arrive in order and none is
lost, each carries exactly the number its receiver has counted to, also after both
counters have wrapped, and no bound is needed.

The invariant has the shape it has there: one party is one DH step ahead of the other.
What is added are the places: the chains are read and written at an index, the counters
are these indices as `u32`s, and the messages under way fill the gap between them.
-/
import Ephemera.RatchetAgreement

namespace RatchetInOrder

open Ratchet StateExcept
open RatchetAgreement (Packet Primitives IsNext pendingDh pendingChain)

variable {S : CryptoSuite}

/-! ## Messages of one chain -/

/-- `l` are the messages of index `n`, `n + 1`, … of the chain that starts at `base`, sent
under `key`. -/
def Stream (key : S.Public) (base : S.Key) : ℕ → List (Packet S) → Prop
  | _, [] => True
  | n, m :: l =>
    m.header.ratchetKey = key ∧ m.header.messageNumber = n % 2 ^ 32 ∧
      S.openBytes (messageKey (advance^[n] base)) m.ciphertext = .ok m.plaintext ∧
      Stream key base (n + 1) l

/-- The party reads the chain that starts at `base`, sent under `key`, at index `n`. -/
structure Reads (r : RatchetState S) (key : S.Public) (base : S.Key) (n : ℕ) : Prop where
  key : r.recvRatchetPubkey = some key
  chain : r.recvChainKey = advance^[n] base
  count : r.recvCount = n % 2 ^ 32

/-- The party writes the chain that starts at `base` at index `n`. -/
structure Writes (r : RatchetState S) (base : S.Key) (n : ℕ) : Prop where
  chain : r.sendChainKey = advance^[n] base
  count : r.sendCount = n % 2 ^ 32

/-- The party after an `encrypt_message`. -/
def afterEncrypt (r : RatchetState S) : RatchetState S :=
  { r with sendChainKey := advance r.sendChainKey, sendCount := (r.sendCount + 1) % 2 ^ 32 }

section

variable {r : RatchetState S} {key : S.Public} {base : S.Key} {n : ℕ} {m : Packet S}
  {l : List (Packet S)}

/-- `encrypt_message` returns the next message of the chain and moves on. -/
theorem encrypt_next {gen : ℕ → S.Secret} {limit drawn : ℕ} (hS : Primitives S gen limit drawn)
    (nonce : S.Nonce) {plaintext : List UInt8} (hplain : plaintext.length ≤ limit)
    (r : RatchetState S) :
    ∃ header c, exec (encryptMessage nonce plaintext) r = (.ok (header, c), afterEncrypt r) ∧
      IsNext r ⟨header, c, plaintext⟩ := by
  obtain ⟨c, hc⟩ := hS.seals (messageKey r.sendChainKey) nonce plaintext hplain
  refine ⟨⟨r.sendRatchetKey.publicKey, r.sendCount, r.previousSendCount⟩, c, ?_, rfl, rfl,
    hS.opens _ _ _ _ hc⟩
  rw [encryptMessage_exec, hc]
  rfl

/-- The writer moves on by one index. -/
theorem Writes.encrypt (h : Writes r base n) : Writes (afterEncrypt r) base (n + 1) where
  chain := by
    show advance r.sendChainKey = _
    rw [h.chain, Function.iterate_succ_apply']
  count := by
    show (r.sendCount + 1) % 2 ^ 32 = _
    rw [h.count, Nat.mod_add_mod]

/-- The next message of a writer continues its stream. -/
theorem Stream.send (h : Stream r.sendRatchetKey.publicKey base n l)
    (hw : Writes r base (n + l.length)) (hm : IsNext r m) :
    Stream r.sendRatchetKey.publicKey base n (l ++ [m]) := by
  -- the writer stands behind the last message of the stream, so the new one has its index
  induction l generalizing n with
  | nil =>
    obtain ⟨hkey, hnum, hopen⟩ := hm
    rw [hw.count] at hnum
    rw [hw.chain] at hopen
    exact ⟨hkey, hnum, hopen, trivial⟩
  | cons m' l ih =>
    obtain ⟨hkey, hnum, hopen, hrest⟩ := h
    have hidx : n + (m' :: l).length = n + 1 + l.length := by
      rw [List.length_cons]
      omega
    rw [hidx] at hw
    exact ⟨hkey, hnum, hopen, ih hrest hw⟩

/-- The next message of the chain that is being read is decrypted, and nothing but the place
in that chain changes. -/
theorem decrypt_read (fresh : X25519KeyPair S) (hr : Reads r key base n)
    (hm : Stream key base n (m :: l)) :
    exec (decryptMessage m.header m.ciphertext fresh) r =
      (.ok m.plaintext, { r with
        recvChainKey := advance^[n + 1] base
        recvCount := (n + 1) % 2 ^ 32 }) := by
  obtain ⟨hkey, hnum, hopen, -⟩ := hm
  have hloop : atLoop r m.header fresh = r := atLoop_of_eq (by rw [hr.key, hkey]) fresh
  -- the counter of the reader is the number in the header, so the loop makes no turn
  have hchain : openingChain r m.header fresh = advance^[n] base := by
    rw [openingChain, hloop, hr.count, hnum, Nat.sub_self, Function.iterate_zero, id, hr.chain]
  have hcount : (max r.recvCount m.header.messageNumber + 1) % 2 ^ 32 = (n + 1) % 2 ^ 32 := by
    rw [hr.count, hnum, Nat.max_self, Nat.mod_add_mod]
  rw [decryptMessage_exec, hloop, hchain, hopen, hcount, Function.iterate_succ_apply']
  rfl

/-- The first message of the chain of the next DH step is decrypted after that step. -/
theorem decrypt_step (fresh : X25519KeyPair S) (hr : r.recvRatchetPubkey ≠ some key)
    (hm : Stream key (chainOf r.rootKey (S.diffieHellman r.sendRatchetKey.secret key)) 0
      (m :: l)) :
    exec (decryptMessage m.header m.ciphertext fresh) r =
      (.ok m.plaintext, { afterDhStep r key fresh with
        recvChainKey := advance (chainOf r.rootKey (S.diffieHellman r.sendRatchetKey.secret key))
        recvCount := 1 }) := by
  obtain ⟨hkey, hnum, hopen, -⟩ := hm
  have hloop : atLoop r m.header fresh = afterDhStep r key fresh := by
    rw [atLoop_of_ne (by rwa [hkey]), hkey]
  have hchain : openingChain r m.header fresh
      = chainOf r.rootKey (S.diffieHellman r.sendRatchetKey.secret key) := by
    rw [openingChain, hloop, hnum]
    rfl
  have hcount : (max (afterDhStep r key fresh).recvCount m.header.messageNumber + 1) % 2 ^ 32
      = 1 := by
    rw [hnum]
    rfl
  rw [Function.iterate_zero, id] at hopen
  rw [decryptMessage_exec, hloop, hchain, hopen, hcount]
  rfl

end

/-! ## One party is one step ahead -/

/-- The undelivered messages of the party that is ahead: the rest of a chain the other one
is reading, then the messages of the new chain. -/
def Queued (ahead behind : RatchetState S) (l : List (Packet S)) : Prop :=
  ∃ old new, l = old ++ new ∧
    (old = [] ∨ ∃ key base n, Reads behind key base n ∧ Stream key base n old) ∧
    Stream ahead.sendRatchetKey.publicKey (pendingChain ahead behind) 0 new ∧
    Writes ahead (pendingChain ahead behind) new.length

/-- **One party is one DH step ahead of the other**, seen from their states and the messages
under way in both directions. -/
structure Ahead (ahead behind : RatchetState S) (fromAhead fromBehind : List (Packet S)) :
    Prop where
  root : ahead.rootKey = nextRoot behind.rootKey (pendingDh ahead behind)
  unseen : behind.recvRatchetPubkey ≠ some ahead.sendRatchetKey.publicKey
  shared : ∃ base n, Reads ahead behind.sendRatchetKey.publicKey base n ∧
    Stream behind.sendRatchetKey.publicKey base n fromBehind ∧
    Writes behind base (n + fromBehind.length)
  queued : Queued ahead behind fromAhead

section

variable {a b : RatchetState S} {la lb : List (Packet S)} {m : Packet S}

/-- An initiator is ahead of the receiver that has the same secret and the key pair it was
made for. -/
theorem ahead_initSender {gen : ℕ → S.Secret} {limit drawn : ℕ}
    (hS : Primitives S gen limit drawn) {sharedSecret : S.Key} {theirs ours : X25519KeyPair S}
    (ha : initSender sharedSecret theirs.publicKey ours = .ok a) :
    Ahead a (initReceiver sharedSecret theirs) [] [] := by
  rw [initSender_eq, Except.ok.injEq] at ha
  subst ha
  have hdh : S.diffieHellman ours.secret theirs.publicKey
      = S.diffieHellman theirs.secret ours.publicKey := by
    rw [theirs.publicKey_eq, ours.publicKey_eq, hS.dh_comm]
  constructor
  case root => exact congrArg (nextRoot sharedSecret) hdh
  case unseen => simp [initReceiver]
  case shared => exact ⟨S.zeroKey, 0, ⟨rfl, rfl, rfl⟩, trivial, ⟨rfl, rfl⟩⟩
  case queued =>
    exact ⟨[], [], rfl, Or.inl rfl, trivial, congrArg (chainOf sharedSecret) hdh, rfl⟩

/-- The party ahead encrypts. -/
theorem Ahead.encrypt_ahead (h : Ahead a b la lb) (hm : IsNext a m) :
    Ahead (afterEncrypt a) b (la ++ [m]) lb := by
  obtain ⟨old, new, rfl, hold, hnew, hw⟩ := h.queued
  refine ⟨h.root, h.unseen, ?_, old, new ++ [m], ?_, hold, ?_, ?_⟩
  · obtain ⟨base, n, hr, hs, hw'⟩ := h.shared
    exact ⟨base, n, ⟨hr.key, hr.chain, hr.count⟩, hs, hw'⟩
  · rw [List.append_assoc]
  · rw [← Nat.zero_add new.length] at hw
    exact hnew.send hw hm
  · rw [List.length_append]
    exact hw.encrypt

/-- The party behind encrypts. -/
theorem Ahead.encrypt_behind (h : Ahead a b la lb) (hm : IsNext b m) :
    Ahead a (afterEncrypt b) la (lb ++ [m]) := by
  obtain ⟨base, n, hr, hs, hw⟩ := h.shared
  refine ⟨h.root, h.unseen, ⟨base, n, hr, hs.send hw hm, ?_⟩, ?_⟩
  · rw [List.length_append]
    exact hw.encrypt
  · obtain ⟨old, new, rfl, hold, hnew, hw'⟩ := h.queued
    refine ⟨old, new, rfl, ?_, hnew, hw'⟩
    rcases hold with hold | ⟨key, base', n', hr', hs'⟩
    · exact Or.inl hold
    · exact Or.inr ⟨key, base', n', ⟨hr'.key, hr'.chain, hr'.count⟩, hs'⟩

/-- A message of the party behind is delivered. -/
theorem Ahead.deliver_behind (fresh : X25519KeyPair S) (h : Ahead a b la (m :: lb)) :
    ∃ a', exec (decryptMessage m.header m.ciphertext fresh) a = (.ok m.plaintext, a') ∧
      a'.sendRatchetKey = a.sendRatchetKey ∧ Ahead a' b la lb := by
  obtain ⟨base, n, hr, hs, hw⟩ := h.shared
  obtain ⟨old, new, hla, hold, hnew, hw'⟩ := h.queued
  refine ⟨_, decrypt_read fresh hr hs, rfl, h.root, h.unseen, ?_,
    old, new, hla, hold, hnew, ⟨hw'.chain, hw'.count⟩⟩
  obtain ⟨-, -, -, hrest⟩ := hs
  have hidx : n + (m :: lb).length = n + 1 + lb.length := by
    rw [List.length_cons]
    omega
  exact ⟨base, n + 1, ⟨hr.key, rfl, rfl⟩, hrest, hidx ▸ hw⟩

/-- A message of the old chain of the party ahead is delivered. -/
theorem Ahead.deliver_old {key : S.Public} {base : S.Key} {n : ℕ} {old new : List (Packet S)}
    (fresh : X25519KeyPair S) (h : Ahead a b la lb) (hr : Reads b key base n)
    (hold : Stream key base n (m :: old))
    (hnew : Stream a.sendRatchetKey.publicKey (pendingChain a b) 0 new)
    (hw : Writes a (pendingChain a b) new.length) :
    ∃ b', exec (decryptMessage m.header m.ciphertext fresh) b = (.ok m.plaintext, b') ∧
      b'.sendRatchetKey = b.sendRatchetKey ∧ Ahead a b' (old ++ new) lb := by
  refine ⟨_, decrypt_read fresh hr hold, rfl, h.root, h.unseen, ?_, old, new, rfl, ?_, hnew, hw⟩
  · obtain ⟨base', n', hr', hs', hw'⟩ := h.shared
    exact ⟨base', n', hr', hs', ⟨hw'.chain, hw'.count⟩⟩
  · obtain ⟨-, -, -, hrest⟩ := hold
    exact Or.inr ⟨key, base, n + 1, ⟨hr.key, rfl, rfl⟩, hrest⟩

/-- **The exchange of roles.**  The first message of the new chain of the party ahead is
delivered: the party behind makes the pending step and one more with a fresh key pair, and
is ahead from then on. -/
theorem Ahead.deliver_new {gen : ℕ → S.Secret} {limit drawn : ℕ} {new : List (Packet S)}
    {fresh : X25519KeyPair S} (hS : Primitives S gen limit drawn) (h : Ahead a b la lb)
    (hnew : Stream a.sendRatchetKey.publicKey (pendingChain a b) 0 (m :: new))
    (hw : Writes a (pendingChain a b) (m :: new).length)
    (hfresh : b.sendRatchetKey.publicKey ≠ fresh.publicKey) :
    ∃ b', exec (decryptMessage m.header m.ciphertext fresh) b = (.ok m.plaintext, b') ∧
      b'.sendRatchetKey = fresh ∧ Ahead b' a lb new := by
  refine ⟨_, decrypt_step fresh h.unseen hnew, rfl, ?_⟩
  -- the second DH output, computed with the own fresh secret, is the one the other computes
  have hdh : S.diffieHellman fresh.secret a.sendRatchetKey.publicKey
      = S.diffieHellman a.sendRatchetKey.secret fresh.publicKey := by
    rw [a.sendRatchetKey.publicKey_eq, fresh.publicKey_eq, hS.dh_comm]
  obtain ⟨base, n, hr, hs, -⟩ := h.shared
  constructor
  case root =>
    show nextRoot (nextRoot b.rootKey (pendingDh a b)) _ = nextRoot a.rootKey _
    rw [← h.root, hdh]
    rfl
  case unseen =>
    rw [hr.key]
    exact fun he => hfresh (Option.some.inj he)
  case shared =>
    obtain ⟨-, -, -, hrest⟩ := hnew
    have hidx : (m :: new).length = 1 + new.length := by
      rw [List.length_cons, Nat.add_comm]
    exact ⟨pendingChain a b, 1, ⟨rfl, rfl, rfl⟩, hrest, hidx ▸ hw⟩
  case queued =>
    refine ⟨lb, [], (List.append_nil lb).symm, Or.inr ⟨_, base, n, hr, hs⟩, trivial, ?_, rfl⟩
    show chainOf (nextRoot b.rootKey (pendingDh a b)) _ = chainOf a.rootKey _
    rw [← h.root, hdh]
    rfl

/-- A party that has read nothing yet is sent the new chain only. -/
theorem Ahead.stream_of_unread (h : Ahead a b la lb) (hb : b.recvRatchetPubkey = none) :
    Stream a.sendRatchetKey.publicKey (pendingChain a b) 0 la ∧
      Writes a (pendingChain a b) la.length := by
  obtain ⟨old, new, rfl, hold, hnew, hw⟩ := h.queued
  rcases hold with rfl | ⟨key, base, n, hr, -⟩
  · exact ⟨hnew, hw⟩
  · have hkey := hr.key
    rw [hb] at hkey
    cases hkey

/-- **The oldest message of the party ahead is delivered.**  The other one stays behind, or
they exchange roles. -/
theorem Ahead.deliver_ahead {gen : ℕ → S.Secret} {limit drawn : ℕ} {fresh : X25519KeyPair S}
    (hS : Primitives S gen limit drawn) (h : Ahead a b (m :: la) lb)
    (hfresh : b.sendRatchetKey.publicKey ≠ fresh.publicKey) :
    ∃ b', exec (decryptMessage m.header m.ciphertext fresh) b = (.ok m.plaintext, b') ∧
      ((b'.sendRatchetKey = b.sendRatchetKey ∧ Ahead a b' la lb) ∨
        (b'.sendRatchetKey = fresh ∧ Ahead b' a lb la)) := by
  obtain ⟨old, new, heq, hold, hnew, hw⟩ := h.queued
  cases old with
  | nil =>
    rw [List.nil_append] at heq
    subst heq
    obtain ⟨b', hb', hkey, hahead⟩ := h.deliver_new hS hnew hw hfresh
    exact ⟨b', hb', Or.inr ⟨hkey, hahead⟩⟩
  | cons m' old =>
    rw [List.cons_append, List.cons.injEq] at heq
    obtain ⟨rfl, rfl⟩ := heq
    rcases hold with hold | ⟨key, base, n, hr, hs⟩
    · cases hold
    · obtain ⟨b', hb', hkey, hahead⟩ := h.deliver_old fresh hr hs hnew hw
      exact ⟨b', hb', Or.inl ⟨hkey, hahead⟩⟩

end

end RatchetInOrder
