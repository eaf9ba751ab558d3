/-
# Two peers that start a session at the same time

Two honest peers share no session and hold each other's prekey bundles.  They call
`encrypt_for_peer` at will, and each other's messages are delivered to `decrypt_from_peer`
in sending order, none of them lost.

The table has one row per conversation, and the first operation decides the role.  If only
one side has encrypted when the first message arrives, the other becomes its receiver and
every message of the run is decrypted.  If both have, both are initiators, of two secrets,
and the first message that is delivered is not decrypted.  So the runs in which all
messages are decrypted are those in which the first delivery finds a side without a session
(`delivered_iff_oneInitiator`).

Before the first delivery every side is idle or an initiator (`Initiated`), which is ahead
of a receiver that does not exist yet; afterwards one side is ahead of the other.  That two
initiators do not understand each other rests on the derivations of the run (`Begun`), among
which there are no collisions.
-/
import Ephemera.KeyDerivations
import Ephemera.RatchetInOrder

namespace CrossedSessions

open Ratchet StateExcept GuardedRun Session KeyDerivations
open RatchetAgreement (Side Packet Primitives IsNext keyPair)
open RatchetInOrder (afterEncrypt Ahead)

variable {S : CryptoSuite} {E : SigningSuite S} {gen : ℕ → S.Secret} {limit drawn : ℕ}

/-! ## The system -/

/-- What the two peers hold before they talk: identity keys, and the key pairs behind their
bundles.  The signed prekeys are none of the keys that are drawn later. -/
structure Peers (E : SigningSuite S) (gen : ℕ → S.Secret) where
  signingKey : Side → E.SigningKey
  identity : Side → X25519KeyPair S
  signedPrekey : Side → X25519KeyPair S
  oneTime : Side → Option (X25519KeyPair S)
  signedPrekey_ne : ∀ p i, (signedPrekey p).publicKey ≠ S.publicOf (gen i)

/-- The identity key of a side. -/
def Peers.identityKey (peers : Peers E gen) (p : Side) : IdentityKey :=
  E.publicKey (peers.signingKey p)

/-- The bundle a side has published. -/
def Peers.bundle (peers : Peers E gen) (p : Side) : PrekeyBundle E :=
  generatePrekeyBundle (peers.signingKey p) (peers.identity p).publicKey (peers.signedPrekey p)
    (peers.oneTime p)

/-- A message on its way, with the plaintext it was made from. -/
structure Message (S : CryptoSuite) where
  packet : Packet S
  x3dhHeader : Option (X3dhInitialMessage S)

/-- A delivered message: the plaintext it was made from and what `decrypt_from_peer`
returned. -/
structure Delivery where
  plaintext : List UInt8
  result : Except SessionError (List UInt8)

/-- The databases of both sides, the undelivered messages of each (oldest first), the number
of key pairs drawn so far and what has been delivered. -/
structure System (S : CryptoSuite) where
  db : Side → SessionDb S
  channel : Side → List (Message S)
  generated : ℕ
  log : List Delivery

/-- A side encrypts, or the oldest undelivered message of a side is delivered. -/
inductive Action (S : CryptoSuite) where
  | encrypt (sender : Side) (nonce : S.Nonce) (plaintext : List UInt8)
  | deliver (sender : Side)

/-- The plaintext, if there is one, is within the limit of the cipher. -/
def Action.Within (limit : ℕ) : Action S → Prop
  | .encrypt _ _ plaintext => plaintext.length ≤ limit
  | .deliver _ => True

/-- `encrypt_for_peer` as a side calls it.  Two numbers are set aside for the key pairs of a
new session. -/
def send (peers : Peers E gen) (conversationId : String) (sender : Side) (nonce : S.Nonce)
    (plaintext : List UInt8) (generated : ℕ) : SessionM S (EncryptedMessage S) :=
  encryptForPeer conversationId (peers.identityKey sender.other) (peers.identity sender)
    (peers.identityKey sender) (some (peers.bundle sender.other)) plaintext
    ⟨keyPair (gen generated), keyPair (gen (generated + 1)), nonce⟩

/-- `x3dh_respond` as a side calls it. -/
def Peers.respond (peers : Peers E gen) (receiver : Side) (x3dhHeader : X3dhInitialMessage S) :
    Except SessionError S.Key :=
  x3dhRespond (peers.identity receiver).secret (peers.signedPrekey receiver).secret
    ((peers.oneTime receiver).map X25519KeyPair.secret) x3dhHeader

/-- What a side does with a message it receives: when there is an X3DH header, it passes the
secret of `x3dh_respond` and its signed prekey to `decrypt_from_peer`. -/
def receive (peers : Peers E gen) (conversationId : String) (receiver : Side) (m : Message S)
    (generated : ℕ) : SessionM S (List UInt8) :=
  match m.x3dhHeader with
  | some x3dhHeader => do
    let secret ← peers.respond receiver x3dhHeader
    decryptFromPeer conversationId (peers.identityKey receiver.other)
      (some (peers.signedPrekey receiver)) (some secret) m.packet.header m.packet.ciphertext
      (keyPair (gen generated))
  | none =>
    decryptFromPeer conversationId (peers.identityKey receiver.other) none none m.packet.header
      m.packet.ciphertext (keyPair (gen generated))

/-- One action. -/
def step (peers : Peers E gen) (conversationId : String) (s : System S) : Action S → System S
  | .encrypt sender nonce plaintext =>
    match exec (send peers conversationId sender nonce plaintext s.generated) (s.db sender) with
    | (.ok m, db) =>
      { s with
        db := Function.update s.db sender db
        channel := Function.update s.channel sender
          (s.channel sender ++ [⟨⟨m.header, m.ciphertext, plaintext⟩, m.x3dhHeader⟩])
        generated := s.generated + 2 }
    | (.error _, db) =>
      { s with db := Function.update s.db sender db, generated := s.generated + 2 }
  | .deliver sender =>
    match s.channel sender with
    | [] => s
    | m :: rest =>
      let r := exec (receive peers conversationId sender.other m s.generated) (s.db sender.other)
      { db := Function.update s.db sender.other r.2
        channel := Function.update s.channel sender rest
        generated := s.generated + 1
        log := s.log ++ [⟨m.packet.plaintext, r.1⟩] }

/-- Nothing has been sent. -/
def start (db : Side → SessionDb S) : System S := ⟨db, fun _ => [], 0, []⟩

/-- Every delivered message was decrypted to its plaintext. -/
def AllDecrypted (s : System S) : Prop := ∀ d ∈ s.log, d.result = .ok d.plaintext

/-- The first message to be delivered finds a side without a session. -/
def OneInitiator (conversationId : String) (s : System S) : Action S → Prop
  | .encrypt _ _ _ => True
  | .deliver sender => s.log = [] → s.channel sender ≠ [] →
      hasSession (s.db sender.other) conversationId = false

instance (conversationId : String) (s : System S) (a : Action S) :
    Decidable (OneInitiator conversationId s a) :=
  match a with
  | .encrypt _ _ _ => .isTrue trivial
  | .deliver sender =>
    decidable_of_iff (s.log.isEmpty = true → (s.channel sender).isEmpty = false →
        hasSession (s.db sender.other) conversationId = false) <| by
      simp [OneInitiator]

/-- The stored session of a side. -/
def session (conversationId : String) (s : System S) (p : Side) : Option (RatchetState S) :=
  loadSession (s.db p) conversationId

/-- What a side derives when it receives a message. -/
def ofReceive (peers : Peers E gen) (receiver : Side) (m : Message S) (generated : ℕ)
    (existing : Option (RatchetState S)) : Set (Derivation S) :=
  match m.x3dhHeader.map (peers.respond receiver) with
  | some (.ok secret) =>
    ofDecryptFromPeer existing (some (peers.signedPrekey receiver)) (some secret) m.packet.header
      (keyPair (gen generated))
  | some (.error _) => ∅
  | none => ofDecryptFromPeer existing none none m.packet.header (keyPair (gen generated))

/-- What an action derives. -/
def derivedBy (peers : Peers E gen) (conversationId : String) (s : System S) :
    Action S → Set (Derivation S)
  | .encrypt sender nonce _ =>
    ofEncryptForPeer (session conversationId s sender) (peers.identity sender)
      (some (peers.bundle sender.other))
      ⟨keyPair (gen s.generated), keyPair (gen (s.generated + 1)), nonce⟩
  | .deliver sender =>
    {d | ∃ m ∈ (s.channel sender).head?,
      d ∈ ofReceive peers sender.other m s.generated (session conversationId s sender.other)}

/-- The ciphertext that an action opens. -/
def openedBy (s : System S) : Action S → Set S.Sealed
  | .encrypt _ _ _ => ∅
  | .deliver sender => {c | ∃ m ∈ (s.channel sender).head?, m.packet.ciphertext = c}

/-! ## One call -/

/-- On a state to work on, `encrypt_for_peer` sends the next message of its chain. -/
theorem encryptForPeer_ok (hS : Primitives S gen limit drawn) {conversationId : String}
    {ourX25519 : X25519KeyPair S} {ourIdentity : IdentityKey}
    {theirBundle : Option (PrekeyBundle E)} {entropy : Entropy S} {db : SessionDb S}
    {state : RatchetState S} {x3dhHeader : Option (X3dhInitialMessage S)}
    (h : sendingState (loadSession db conversationId) ourX25519 ourIdentity theirBundle entropy
      = .ok (state, x3dhHeader)) (peerPubkey : IdentityKey)
    {plaintext : List UInt8} (hplain : plaintext.length ≤ limit) :
    ∃ header c, exec (encryptForPeer conversationId peerPubkey ourX25519 ourIdentity theirBundle
        plaintext entropy) db = (.ok ⟨header, c, x3dhHeader⟩,
          saveSession db conversationId peerPubkey (afterEncrypt state)) ∧
      IsNext state ⟨header, c, plaintext⟩ := by
  obtain ⟨header, c, hexec, hnext⟩ := RatchetInOrder.encrypt_next hS entropy.nonce hplain state
  refine ⟨header, c, ?_, hnext⟩
  rw [encryptForPeer_exec, h]
  simp only [onRatchet, hexec]

/-- What `decrypt_from_peer` makes of a call of `decrypt_message`: the state is saved when it
succeeds. -/
def decryptOutcome (conversationId : String) (peerPubkey : IdentityKey) (db : SessionDb S)
    (r : Except MessageError (List UInt8) × RatchetState S) :
    Except SessionError (List UInt8) × SessionDb S :=
  match r with
  | (.ok plaintext, state) => (.ok plaintext, saveSession db conversationId peerPubkey state)
  | (.error e, _) => (.error (.message e), db)

/-- `decrypt_from_peer` on a state to work on. -/
theorem decryptFromPeer_of_state {conversationId : String}
    {ourRatchetKey : Option (X25519KeyPair S)} {sharedSecret : Option S.Key} {db : SessionDb S}
    {state : RatchetState S}
    (h : receivingState (loadSession db conversationId) ourRatchetKey sharedSecret = .ok state)
    (peerPubkey : IdentityKey) (header : MessageHeader S) (ciphertext : S.Sealed)
    (fresh : X25519KeyPair S) :
    exec (decryptFromPeer conversationId peerPubkey ourRatchetKey sharedSecret header ciphertext
        fresh) db =
      decryptOutcome conversationId peerPubkey db
        (exec (decryptMessage header ciphertext fresh) state) := by
  rw [decryptFromPeer_exec, h]
  simp only [onRatchet]
  rcases exec (decryptMessage header ciphertext fresh) state with ⟨_ | _, _⟩ <;> rfl

/-- The receiver of a message can answer its X3DH header, if it has one. -/
def Answerable (peers : Peers E gen) (receiver : Side) (m : Message S) : Prop :=
  ∀ x3dhHeader, m.x3dhHeader = some x3dhHeader →
    ∃ secret, peers.respond receiver x3dhHeader = .ok secret

section

variable {peers : Peers E gen} {conversationId : String} {receiver : Side} {m : Message S}
  {db : SessionDb S}

/-- A receiver with a session works on that session, whatever the message carries. -/
theorem receive_of_session {state : RatchetState S} (hm : Answerable peers receiver m)
    (hstate : loadSession db conversationId = some state) (generated : ℕ) :
    exec (receive peers conversationId receiver m generated) db =
      decryptOutcome conversationId (peers.identityKey receiver.other) db
        (exec (decryptMessage m.packet.header m.packet.ciphertext (keyPair (gen generated)))
          state) := by
  unfold receive
  cases hx : m.x3dhHeader with
  | none => exact decryptFromPeer_of_state (by rw [hstate]; rfl) _ _ _ _
  | some x3dhHeader =>
    obtain ⟨secret, hsecret⟩ := hm x3dhHeader hx
    simp only [exec_bind, exec_lift, hsecret]
    exact decryptFromPeer_of_state (by rw [hstate]; rfl) _ _ _ _

/-- A receiver without a session works on the one that the X3DH header gives. -/
theorem receive_first {x3dhHeader : X3dhInitialMessage S} {secret : S.Key}
    (hx : m.x3dhHeader = some x3dhHeader) (hsecret : peers.respond receiver x3dhHeader = .ok secret)
    (hnone : loadSession db conversationId = none) (generated : ℕ) :
    exec (receive peers conversationId receiver m generated) db =
      decryptOutcome conversationId (peers.identityKey receiver.other) db
        (exec (decryptMessage m.packet.header m.packet.ciphertext (keyPair (gen generated)))
          (initReceiver secret (peers.signedPrekey receiver))) := by
  unfold receive
  rw [hx]
  simp only [exec_bind, exec_lift, hsecret]
  exact decryptFromPeer_of_state (by rw [hnone]; rfl) _ _ _ _

end

/-- Saving a session on one side sets the session of that side. -/
theorem session_of_saved {s s' : System S} {p : Side} {conversationId : String}
    {peerPubkey : IdentityKey} {a : RatchetState S}
    (hdb : s'.db = Function.update s.db p (saveSession (s.db p) conversationId peerPubkey a)) :
    session conversationId s' = Function.update (session conversationId s) p (some a) := by
  funext q
  unfold session
  rw [hdb]
  by_cases hq : q = p
  · subst hq
    rw [Function.update_self, Function.update_self, loadSession_saveSession, if_pos rfl]
  · rw [Function.update_of_ne hq, Function.update_of_ne hq]

/-! ## The invariant -/

/-- The packets of a channel. -/
def packets (channel : List (Message S)) : List (Packet S) := channel.map Message.packet

/-- A side that has not encrypted anything. -/
def Idle (state : Option (RatchetState S)) (channel : List (Message S)) : Prop :=
  state = none ∧ channel = []

/-- A side that has encrypted before anything was delivered: it is ahead of the receiver that
its first message will make of the other side. -/
def Initiated (peers : Peers E gen) (p : Side) (state : Option (RatchetState S))
    (channel : List (Message S)) : Prop :=
  ∃ a first rest x3dhHeader secret, state = some a ∧ channel = first :: rest ∧
    first.x3dhHeader = some x3dhHeader ∧ peers.respond p.other x3dhHeader = .ok secret ∧
    Ahead a (initReceiver secret (peers.signedPrekey p.other)) (packets channel) []

/-- Both sides have a session, and one is ahead of the other. -/
def Agreed (state : Side → Option (RatchetState S)) (channel : Side → List (Message S)) : Prop :=
  ∃ p a b, state p = some a ∧ state p.other = some b ∧
    Ahead a b (packets (channel p)) (packets (channel p.other))

/-- The invariant, on the sessions, the channels, the number of key pairs drawn and the log. -/
structure Inv (peers : Peers E gen) (state : Side → Option (RatchetState S))
    (channel : Side → List (Message S)) (generated : ℕ) (log : List Delivery) : Prop where
  answerable : ∀ p, ∀ m ∈ channel p, Answerable peers p.other m
  drawn : ∀ p a, state p = some a → ∃ i, i < generated ∧ a.sendRatchetKey.secret = gen i
  phase : log = [] ∧ (∀ p, Idle (state p) (channel p) ∨ Initiated peers p (state p) (channel p)) ∨
    log ≠ [] ∧ Agreed state channel

/-- The invariant of a system. -/
def Holds (peers : Peers E gen) (conversationId : String) (s : System S) : Prop :=
  Inv peers (session conversationId s) s.channel s.generated s.log

/-- The invariant after a session has been saved on one side. -/
theorem holds_of_saved {peers : Peers E gen} {s s' : System S} {p : Side} {conversationId : String}
    {peerPubkey : IdentityKey} {a : RatchetState S}
    (hdb : s'.db = Function.update s.db p (saveSession (s.db p) conversationId peerPubkey a))
    (h : Inv peers (Function.update (session conversationId s) p (some a)) s'.channel s'.generated
      s'.log) : Holds peers conversationId s' := by
  rw [Holds, session_of_saved hdb]
  exact h

/-! ## Encrypting -/

section

variable {peers : Peers E gen} {state : Side → Option (RatchetState S)}
  {channel : Side → List (Message S)} {generated : ℕ} {log : List Delivery} {p : Side}
  {a : RatchetState S} {m : Packet S}

/-- Without a session, a side becomes the initiator of a session that the other side can
answer. -/
theorem sendingState_initial (hS : Primitives S gen limit drawn) (peers : Peers E gen) (p : Side)
    (entropy : Entropy S) :
    ∃ a x3dhHeader secret,
      sendingState none (peers.identity p) (peers.identityKey p) (some (peers.bundle p.other))
        entropy = .ok (a, some x3dhHeader) ∧
      peers.respond p.other x3dhHeader = .ok secret ∧ a.sendRatchetKey = entropy.ourRatchet ∧
      Ahead a (initReceiver secret (peers.signedPrekey p.other)) [] [] := by
  obtain ⟨a, hinit, hstate⟩ := sendingState_none (peers.identity p) (peers.identityKey p)
    (peers.bundle p.other) entropy
  refine ⟨a, _, _, hstate, x3dhRespond_initialMessageOf hS.dh_comm _ _ _ _ _ _ _, ?_,
    RatchetInOrder.ahead_initSender hS hinit⟩
  rw [initSender_eq, Except.ok.injEq] at hinit
  rw [← hinit]

/-- The keys in use after one side has got a new state. -/
theorem drawn_update {generated' : ℕ} {a' : RatchetState S}
    (h : ∀ q a, state q = some a → ∃ i, i < generated ∧ a.sendRatchetKey.secret = gen i)
    (hle : generated ≤ generated')
    (hnew : ∃ i, i < generated' ∧ a'.sendRatchetKey.secret = gen i) (q : Side)
    (b : RatchetState S) (hb : Function.update state p (some a') q = some b) :
    ∃ i, i < generated' ∧ b.sendRatchetKey.secret = gen i := by
  by_cases hq : q = p
  · subst hq
    rw [Function.update_self, Option.some.injEq] at hb
    rw [← hb]
    exact hnew
  · rw [Function.update_of_ne hq] at hb
    obtain ⟨i, hi, hsecret⟩ := h q b hb
    exact ⟨i, Nat.lt_of_lt_of_le hi hle, hsecret⟩

/-- The messages under way after one side has sent one more. -/
theorem answerable_update {m : Message S}
    (h : ∀ q, ∀ m' ∈ channel q, Answerable peers q.other m') (hm : Answerable peers p.other m)
    (q : Side) (m' : Message S)
    (hm' : m' ∈ Function.update channel p (channel p ++ [m]) q) :
    Answerable peers q.other m' := by
  by_cases hq : q = p
  · subst hq
    rw [Function.update_self, List.mem_append, List.mem_singleton] at hm'
    rcases hm' with hm' | rfl
    · exact h q m' hm'
    · exact hm
  · rw [Function.update_of_ne hq] at hm'
    exact h q m' hm'

theorem packets_concat (channel : List (Message S)) (m : Packet S)
    (x3dhHeader : Option (X3dhInitialMessage S)) :
    packets (channel ++ [⟨m, x3dhHeader⟩]) = packets channel ++ [m] := by
  rw [packets, List.map_append]
  rfl

/-- A side without a session encrypts: nothing has been delivered, and it becomes an
initiator. -/
theorem Inv.encrypt_initial {x3dhHeader : X3dhInitialMessage S} {secret : S.Key}
    (h : Inv peers state channel generated log) (hnone : state p = none)
    (hsecret : peers.respond p.other x3dhHeader = .ok secret)
    (hahead : Ahead a (initReceiver secret (peers.signedPrekey p.other)) [] [])
    (hdrawn : a.sendRatchetKey.secret = gen (generated + 1)) (hm : IsNext a m) :
    Inv peers (Function.update state p (some (afterEncrypt a)))
      (Function.update channel p (channel p ++ [⟨m, some x3dhHeader⟩])) (generated + 2) log where
  answerable := answerable_update h.answerable (fun x hx => ⟨secret, by
    rw [← Option.some.inj hx]
    exact hsecret⟩)
  drawn := drawn_update h.drawn (Nat.le_add_right _ _)
    ⟨generated + 1, Nat.lt_succ_self _, hdrawn⟩
  phase := by
    rcases h.phase with ⟨hlog, hsides⟩ | ⟨-, q, b, c, hb, hc, -⟩
    · refine Or.inl ⟨hlog, fun q => ?_⟩
      by_cases hq : q = p
      · subst hq
        rw [Function.update_self, Function.update_self]
        rcases hsides q with ⟨-, hempty⟩ | ⟨b, _, _, _, _, hb, -⟩
        · rw [hempty]
          exact Or.inr ⟨_, _, [], x3dhHeader, secret, rfl, rfl, rfl, hsecret,
            hahead.encrypt_ahead hm⟩
        · rw [hnone] at hb
          cases hb
      · rw [Function.update_of_ne hq, Function.update_of_ne hq]
        exact hsides q
    · -- after a delivery both sides have a session
      rcases Side.eq_or_eq_other q p with rfl | rfl
      · rw [hnone] at hb
        cases hb
      · rw [hnone] at hc
        cases hc

/-- A side with a session encrypts. -/
theorem Inv.encrypt_session (h : Inv peers state channel generated log) (ha : state p = some a)
    (hm : IsNext a m) :
    Inv peers (Function.update state p (some (afterEncrypt a)))
      (Function.update channel p (channel p ++ [⟨m, none⟩])) (generated + 2) log where
  answerable := answerable_update h.answerable (fun x hx => by cases hx)
  drawn := by
    obtain ⟨i, hi, hsecret⟩ := h.drawn p a ha
    exact drawn_update h.drawn (Nat.le_add_right _ _) ⟨i, by omega, hsecret⟩
  phase := by
    rcases h.phase with ⟨hlog, hsides⟩ | ⟨hlog, q, b, c, hb, hc, hahead⟩
    · refine Or.inl ⟨hlog, fun q => ?_⟩
      by_cases hq : q = p
      · subst hq
        rw [Function.update_self, Function.update_self]
        rcases hsides q with ⟨hnone, -⟩ | ⟨b, first, rest, x, secret, hb, hch, hx, hsecret, hahead⟩
        · rw [ha] at hnone
          cases hnone
        · rw [ha, Option.some.injEq] at hb
          subst hb
          refine Or.inr ⟨_, first, rest ++ [⟨m, none⟩], x, secret, rfl, ?_, hx, hsecret, ?_⟩
          · rw [hch, List.cons_append]
          · rw [packets_concat]
            exact hahead.encrypt_ahead hm
      · rw [Function.update_of_ne hq, Function.update_of_ne hq]
        exact hsides q
    · refine Or.inr ⟨hlog, q, ?_⟩
      rcases Side.eq_or_eq_other q p with rfl | rfl
      · rw [ha, Option.some.injEq] at hb
        subst hb
        refine ⟨_, c, Function.update_self .., ?_, ?_⟩
        · rw [Function.update_of_ne (Side.other_ne p), hc]
        · rw [Function.update_self, Function.update_of_ne (Side.other_ne p), packets_concat]
          exact hahead.encrypt_ahead hm
      · rw [ha, Option.some.injEq] at hc
        subst hc
        refine ⟨b, _, ?_, Function.update_self .., ?_⟩
        · rw [Function.update_of_ne (Side.ne_other q), hb]
        · rw [Function.update_self, Function.update_of_ne (Side.ne_other q), packets_concat]
          exact hahead.encrypt_behind hm

end

/-- Encrypting keeps the invariant and delivers nothing. -/
theorem holds_encrypt (hS : Primitives S gen limit drawn) {peers : Peers E gen}
    {conversationId : String}
    {s : System S} (h : Holds peers conversationId s) (sender : Side) (nonce : S.Nonce)
    {plaintext : List UInt8} (hplain : plaintext.length ≤ limit) :
    Holds peers conversationId (step peers conversationId s (.encrypt sender nonce plaintext)) ∧
      (step peers conversationId s (.encrypt sender nonce plaintext)).log = s.log := by
  cases hstate : loadSession (s.db sender) conversationId with
  | none =>
    -- the message starts a session and carries the header that the other side can answer
    obtain ⟨a, x3dhHeader, secret, hsend, hsecret, hkey, hahead⟩ := sendingState_initial hS peers
      sender ⟨keyPair (gen s.generated), keyPair (gen (s.generated + 1)), nonce⟩
    rw [← hstate] at hsend
    obtain ⟨header, c, hexec, hnext⟩ := encryptForPeer_ok hS hsend
      (peers.identityKey sender.other) hplain
    have hinv := h.encrypt_initial hstate hsecret hahead (by rw [hkey]; rfl) hnext
    simp only [step, send, hexec]
    exact ⟨holds_of_saved rfl hinv, trivial⟩
  | some a =>
    -- the message continues the stored session
    have hsend : sendingState (loadSession (s.db sender) conversationId) (peers.identity sender)
        (peers.identityKey sender) (some (peers.bundle sender.other))
        ⟨keyPair (gen s.generated), keyPair (gen (s.generated + 1)), nonce⟩ = .ok (a, none) := by
      rw [hstate]
      rfl
    obtain ⟨header, c, hexec, hnext⟩ := encryptForPeer_ok hS hsend
      (peers.identityKey sender.other) hplain
    have hinv := h.encrypt_session hstate hnext
    simp only [step, send, hexec]
    exact ⟨holds_of_saved rfl hinv, trivial⟩

/-! ## Delivering -/

section

variable {peers : Peers E gen} {state : Side → Option (RatchetState S)}
  {channel : Side → List (Message S)} {generated : ℕ} {log : List Delivery} {p : Side}
  {m : Message S} {rest : List (Message S)}

/-- The messages under way after the oldest one of a side has left. -/
theorem mem_of_mem_update (hq : channel p = m :: rest) {q : Side} {m' : Message S}
    (hm' : m' ∈ Function.update channel p rest q) : m' ∈ channel q := by
  by_cases hqp : q = p
  · subst hqp
    rw [Function.update_self] at hm'
    rw [hq]
    exact List.mem_cons_of_mem _ hm'
  · rwa [Function.update_of_ne hqp] at hm'

/-- After a delivery the receiver is ahead. -/
theorem agreed_of_receiver_ahead {a b' : RatchetState S} (ha : state p = some a)
    (h : Ahead b' a (packets (channel p.other)) (packets rest)) :
    Agreed (Function.update state p.other (some b')) (Function.update channel p rest) := by
  refine ⟨p.other, b', a, Function.update_self .., ?_, ?_⟩
  · rw [Side.other_other, Function.update_of_ne (Side.ne_other p), ha]
  · rw [Side.other_other, Function.update_self, Function.update_of_ne (Side.other_ne p)]
    exact h

/-- After a delivery the sender is ahead. -/
theorem agreed_of_sender_ahead {a b' : RatchetState S} (ha : state p = some a)
    (h : Ahead a b' (packets rest) (packets (channel p.other))) :
    Agreed (Function.update state p.other (some b')) (Function.update channel p rest) := by
  refine ⟨p, a, b', ?_, Function.update_self .., ?_⟩
  · rw [Function.update_of_ne (Side.ne_other p), ha]
  · rw [Function.update_self, Function.update_of_ne (Side.other_ne p)]
    exact h

/-- The invariant once the receiver of the oldest message has a state that agrees with the
sender's. -/
theorem Inv.of_delivered {b' : RatchetState S} (h : Inv peers state channel generated log)
    (hq : channel p = m :: rest)
    (hdrawn : ∃ i, i < generated + 1 ∧ b'.sendRatchetKey.secret = gen i)
    (hagreed : Agreed (Function.update state p.other (some b')) (Function.update channel p rest))
    (d : Delivery) :
    Inv peers (Function.update state p.other (some b')) (Function.update channel p rest)
      (generated + 1) (log ++ [d]) where
  answerable := fun q m' hm' => h.answerable q m' (mem_of_mem_update hq hm')
  drawn := drawn_update h.drawn (Nat.le_succ _) hdrawn
  phase := Or.inr ⟨by simp, hagreed⟩

/-- The first delivery, to a side without a session: it becomes the receiver of the sender's
session and is ahead from then on. -/
theorem Inv.deliver_first (hS : Primitives S gen limit drawn)
    (h : Inv peers state channel generated log)
    (hlog : log = []) (hq : channel p = m :: rest) (hnone : state p.other = none) :
    ∃ x3dhHeader secret b', m.x3dhHeader = some x3dhHeader ∧
      peers.respond p.other x3dhHeader = .ok secret ∧
      exec (decryptMessage m.packet.header m.packet.ciphertext (keyPair (gen generated)))
        (initReceiver secret (peers.signedPrekey p.other)) = (.ok m.packet.plaintext, b') ∧
      ∀ d, Inv peers (Function.update state p.other (some b')) (Function.update channel p rest)
        (generated + 1) (log ++ [d]) := by
  obtain ⟨-, hsides⟩ := h.phase.resolve_right (fun h' => h'.1 hlog)
  have hother : channel p.other = [] := by
    rcases hsides p.other with ⟨-, hempty⟩ | ⟨b, _, _, _, _, hb, -⟩
    · exact hempty
    · rw [hnone] at hb
      cases hb
  rcases hsides p with ⟨-, hempty⟩ | ⟨a, first, rest', x3dhHeader, secret, ha, hch, hx, hsecret,
    hahead⟩
  · -- an idle side has nothing under way
    rw [hq] at hempty
    cases hempty
  · rw [hq, List.cons.injEq] at hch
    obtain ⟨rfl, rfl⟩ := hch
    rw [hq] at hahead
    obtain ⟨hnew, hw⟩ := hahead.stream_of_unread rfl
    have hfresh : (initReceiver secret (peers.signedPrekey p.other)).sendRatchetKey.publicKey
        ≠ (keyPair (gen generated)).publicKey := peers.signedPrekey_ne p.other generated
    obtain ⟨b', hexec, hkey, hahead'⟩ := hahead.deliver_new hS hnew hw hfresh
    rw [← show packets (channel p.other) = [] from congrArg packets hother] at hahead'
    exact ⟨x3dhHeader, secret, b', hx, hsecret, hexec, h.of_delivered hq
      ⟨generated, Nat.lt_succ_self _, by rw [hkey]; rfl⟩ (agreed_of_receiver_ahead ha hahead')⟩

/-- A later delivery: the receiver has a session that agrees with the sender's. -/
theorem Inv.deliver_session (hS : Primitives S gen limit drawn)
    (h : Inv peers state channel generated log)
    (hdrawn : generated < drawn) (hlog : log ≠ []) (hq : channel p = m :: rest) :
    ∃ b b', state p.other = some b ∧
      exec (decryptMessage m.packet.header m.packet.ciphertext (keyPair (gen generated))) b
        = (.ok m.packet.plaintext, b') ∧
      ∀ d, Inv peers (Function.update state p.other (some b')) (Function.update channel p rest)
        (generated + 1) (log ++ [d]) := by
  obtain ⟨-, q, a, b, ha, hb, hahead⟩ := h.phase.resolve_left (fun h' => hlog h'.1)
  rcases Side.eq_or_eq_other q p with rfl | rfl
  · -- the sender is ahead
    rw [hq] at hahead
    obtain ⟨i, hi, hsecret⟩ := h.drawn p.other b hb
    have hfresh : b.sendRatchetKey.publicKey ≠ (keyPair (gen generated)).publicKey := by
      rw [X25519KeyPair.publicKey_eq, hsecret]
      intro he
      have := hS.fresh i generated (hi.trans hdrawn) hdrawn he
      omega
    obtain ⟨b', hexec, hnext⟩ := hahead.deliver_ahead hS hfresh
    refine ⟨b, b', hb, hexec, ?_⟩
    rcases hnext with ⟨hkey, hahead'⟩ | ⟨hkey, hahead'⟩
    · exact h.of_delivered hq ⟨i, by omega, by rw [hkey, hsecret]⟩
        (agreed_of_sender_ahead ha hahead')
    · exact h.of_delivered hq ⟨generated, Nat.lt_succ_self _, by rw [hkey]; rfl⟩
        (agreed_of_receiver_ahead ha hahead')
  · -- the sender is behind
    rw [hq] at hahead
    obtain ⟨i, hi, hsecret⟩ := h.drawn q a ha
    obtain ⟨a', hexec, hkey, hahead'⟩ := hahead.deliver_behind (keyPair (gen generated))
    rw [← Side.other_other q] at ha hahead'
    exact ⟨a, a', ha, hexec, h.of_delivered hq ⟨i, by omega, by rw [hkey, hsecret]⟩
      (agreed_of_receiver_ahead hb hahead')⟩

end

/-- A delivery that meets the condition is decrypted and keeps the invariant. -/
theorem holds_deliver (hS : Primitives S gen limit drawn) {peers : Peers E gen}
    {conversationId : String}
    {s : System S} (h : Holds peers conversationId s) (sender : Side)
    (hdrawn : (step peers conversationId s (.deliver sender)).generated ≤ drawn)
    (hok : OneInitiator conversationId s (.deliver sender)) (hall : AllDecrypted s) :
    Holds peers conversationId (step peers conversationId s (.deliver sender)) ∧
      AllDecrypted (step peers conversationId s (.deliver sender)) := by
  cases hq : s.channel sender with
  | nil =>
    simp only [step, hq]
    exact ⟨h, hall⟩
  | cons m rest =>
    have hlt : s.generated < drawn := by
      simp only [step, hq] at hdrawn
      exact hdrawn
    obtain ⟨b', hexec, hinv⟩ : ∃ b',
        exec (receive peers conversationId sender.other m s.generated) (s.db sender.other)
          = (.ok m.packet.plaintext, saveSession (s.db sender.other) conversationId
              (peers.identityKey sender.other.other) b') ∧
        ∀ d, Inv peers (Function.update (session conversationId s) sender.other (some b'))
          (Function.update s.channel sender rest) (s.generated + 1) (s.log ++ [d]) := by
      -- the first delivery makes a receiver, the later ones find a session
      by_cases hlog : s.log = []
      · have hnone : loadSession (s.db sender.other) conversationId = none :=
          hasSession_eq_false_iff.mp (hok hlog (by simp [hq]))
        obtain ⟨x3dhHeader, secret, b', hx, hsecret, hdec, hinv⟩ :=
          h.deliver_first hS hlog hq hnone
        refine ⟨b', ?_, hinv⟩
        rw [receive_first hx hsecret hnone, hdec]
        rfl
      · obtain ⟨b, b', hb, hdec, hinv⟩ := h.deliver_session hS hlt hlog hq
        refine ⟨b', ?_, hinv⟩
        have hm : Answerable peers sender.other m := h.answerable sender m (by simp [hq])
        rw [receive_of_session hm hb, hdec]
        rfl
    simp only [step, hq, hexec]
    refine ⟨holds_of_saved rfl (hinv _), fun d hd => ?_⟩
    rcases List.mem_append.mp hd with hd | hd
    · exact hall d hd
    · rw [List.mem_singleton.mp hd]

/-! ## Crossed first messages -/

/-- The state `a` was made by `init_sender` from a secret of X3DH, and `first` is its first
message; the keys on the way are derived in `derived`. -/
structure Opens (derived : Set (Derivation S)) (x3dh : Derivation S) (dhOut : S.Key)
    (a : RatchetState S) (first : Packet S) : Prop where
  info : x3dh.info = x3dhInfo
  secret_mem : x3dh ∈ derived
  rootKey_mem : ⟨[x3dh.key, dhOut], Info.ratchet.bytes⟩ ∈ derived
  chainKey_mem : ⟨[x3dh.key, dhOut], Info.chain.bytes⟩ ∈ derived
  messageKey_mem : ⟨[chainOf x3dh.key dhOut], Info.msgKey.bytes⟩ ∈ derived
  root : a.rootKey = nextRoot x3dh.key dhOut
  opens : S.openBytes (messageKey (chainOf x3dh.key dhOut)) first.ciphertext = .ok first.plaintext

/-- Every side with a session has its first message under way. -/
def Begun (derived : Set (Derivation S)) (state : Side → Option (RatchetState S))
    (channel : Side → List (Message S)) : Prop :=
  ∀ p a, state p = some a → ∃ x3dh dhOut first rest, channel p = first :: rest ∧
    Opens derived x3dh dhOut a first.packet

/-- The first message of a new initiator. -/
theorem opens_of_initSender {derived : Set (Derivation S)} {x3dh : Derivation S}
    {theirs : S.Public} {ours : X25519KeyPair S} {a : RatchetState S} {m : Packet S}
    (hinfo : x3dh.info = x3dhInfo) (hinit : initSender x3dh.key theirs ours = .ok a)
    (hderived : {x3dh} ∪ ofKdfRk x3dh.key (S.diffieHellman ours.secret theirs) ∪
      ofKdfCk (chainOf x3dh.key (S.diffieHellman ours.secret theirs)) ⊆ derived)
    (hm : IsNext a m) :
    Opens derived x3dh (S.diffieHellman ours.secret theirs) (afterEncrypt a) m := by
  rw [initSender_eq, Except.ok.injEq] at hinit
  subst hinit
  refine ⟨hinfo, ?_, ?_, ?_, ?_, rfl, hm.2.2⟩
  · exact hderived (Or.inl (Or.inl rfl))
  · exact hderived (Or.inl (Or.inr (Or.inl rfl)))
  · exact hderived (Or.inl (Or.inr (Or.inr rfl)))
  · exact hderived (Or.inr (Or.inr rfl))

/-- **Two initiators do not understand each other.**  The first message of an initiator is not
decrypted by an initiator of another session. -/
theorem crossed_not_decrypted {derived : Set (Derivation S)} {opened : Set S.Sealed}
    (hC : CollisionFree S derived opened) {a b : RatchetState S} {m m' : Packet S}
    {la lb : List (Packet S)} {secret secret' : S.Key} {theirs ours : X25519KeyPair S}
    (ha : Ahead a (initReceiver secret theirs) (m :: la) [])
    (hb : Ahead b (initReceiver secret' ours) lb []) {x3dh x3dh' : Derivation S}
    {dhOut dhOut' : S.Key} (hfirst : Opens derived x3dh dhOut a m)
    (hfirst' : Opens derived x3dh' dhOut' b m')
    (hne : ours.publicKey ≠ a.sendRatchetKey.publicKey) {fresh : X25519KeyPair S}
    (hderived : ofDecryptMessage m.header fresh b ⊆ derived) (hopened : m.ciphertext ∈ opened)
    (plaintext : List UInt8) :
    (exec (decryptMessage m.header m.ciphertext fresh) b).1 ≠ .ok plaintext := by
  obtain ⟨⟨hkey, hnum, -, -⟩, -⟩ := ha.stream_of_unread rfl
  have hpub : b.recvRatchetPubkey ≠ some m.header.ratchetKey := by
    obtain ⟨base, n, hr, -⟩ := hb.shared
    rw [hr.key, hkey]
    exact fun he => hne (Option.some.inj he)
  have hopening : openingChain b m.header fresh
      = chainOf b.rootKey (S.diffieHellman b.sendRatchetKey.secret m.header.ratchetKey) := by
    rw [openingChain, atLoop_of_ne hpub, hnum]
    rfl
  rw [decryptMessage_exec]
  intro hok
  cases hres : S.openBytes (messageKey (openingChain b m.header fresh)) m.ciphertext with
  | error e =>
    rw [hres] at hok
    cases hok
  | ok plaintext' =>
    -- the chains start at the same key, hence below the same root key
    have hchain := hC.chainKey_unique (hderived (messageKey_mem_ofDecryptMessage _ _ _))
      hfirst.messageKey_mem hopened hres hfirst.opens
    rw [hopening] at hchain
    have hroot : b.rootKey = x3dh.key := by
      have hmem := hderived (ofDhStep_subset_ofDecryptMessage hpub fresh (Or.inl (Or.inr rfl)))
      exact (List.cons.inj (hC.eq_of_key_eq hmem hfirst.chainKey_mem hchain).1).1
    -- but one root key was derived from another, and the other by X3DH
    rw [hfirst'.root] at hroot
    have hinfo : Info.ratchet.bytes = x3dhInfo :=
      (hC.eq_of_key_eq hfirst'.rootKey_mem hfirst.secret_mem hroot).2.trans hfirst.info
    exact absurd hinfo (by decide)

section

variable {peers : Peers E gen} {conversationId : String} {derived : Set (Derivation S)}
  {opened : Set S.Sealed}

/-- After one side has encrypted. -/
theorem Begun.update {state : Side → Option (RatchetState S)} {channel : Side → List (Message S)}
    (h : Begun derived state channel) {p : Side} {a : RatchetState S} {first : Message S}
    {rest : List (Message S)} {x3dh : Derivation S} {dhOut : S.Key}
    (hfirst : Opens derived x3dh dhOut a first.packet) :
    Begun derived (Function.update state p (some a))
      (Function.update channel p (first :: rest)) := by
  intro q b hb
  by_cases hq : q = p
  · subst hq
    rw [Function.update_self, Option.some.injEq] at hb
    subst hb
    exact ⟨x3dh, dhOut, first, rest, Function.update_self .., hfirst⟩
  · rw [Function.update_of_ne hq] at hb
    rw [Function.update_of_ne hq]
    exact h q b hb

/-- The same on the stored sessions. -/
theorem begun_of_saved {s s' : System S} {p : Side} {peerPubkey : IdentityKey}
    {a : RatchetState S}
    (hdb : s'.db = Function.update s.db p (saveSession (s.db p) conversationId peerPubkey a))
    (h : Begun derived (Function.update (session conversationId s) p (some a)) s'.channel) :
    Begun derived (session conversationId s') s'.channel := by
  rw [session_of_saved hdb]
  exact h

/-- Before the first delivery, a side without a session has sent nothing. -/
theorem Holds.channel_eq_nil {s : System S} (h : Holds peers conversationId s) (hlog : s.log = [])
    {p : Side} (hnone : session conversationId s p = none) : s.channel p = [] := by
  obtain ⟨-, hsides⟩ := h.phase.resolve_right (fun h' => h'.1 hlog)
  rcases hsides p with hidle | ⟨a, _, _, _, _, ha, -⟩
  · exact hidle.2
  · rw [hnone] at ha
    cases ha

/-- **An encryption** before the first delivery. -/
theorem begun_encrypt (hS : Primitives S gen limit drawn) {s : System S}
    (h : Holds peers conversationId s) (hlog : s.log = [])
    (hbegun : Begun derived (session conversationId s) s.channel) (sender : Side) (nonce : S.Nonce)
    {plaintext : List UInt8} (hplain : plaintext.length ≤ limit)
    (hderived : derivedBy peers conversationId s (.encrypt sender nonce plaintext) ⊆ derived) :
    Begun derived
      (session conversationId (step peers conversationId s (.encrypt sender nonce plaintext)))
      (step peers conversationId s (.encrypt sender nonce plaintext)).channel := by
  cases hstate : session conversationId s sender with
  | none =>
    -- a new session, and its first message
    obtain ⟨a, hinit, hsend⟩ := sendingState_none (peers.identity sender)
      (peers.identityKey sender) (peers.bundle sender.other)
      ⟨keyPair (gen s.generated), keyPair (gen (s.generated + 1)), nonce⟩
    rw [← hstate] at hsend
    obtain ⟨header, c, hexec, hnext⟩ := encryptForPeer_ok hS hsend
      (peers.identityKey sender.other) hplain
    rw [derivedBy, hstate] at hderived
    rw [← key_ofX3dhInitiate] at hinit
    have hfirst := opens_of_initSender rfl hinit hderived hnext
    simp only [step, send, hexec, h.channel_eq_nil hlog hstate, List.nil_append]
    exact begun_of_saved rfl (hbegun.update hfirst)
  | some a =>
    -- one more message of the session
    obtain ⟨x3dh, dhOut, first, rest, hch, hfirst⟩ := hbegun sender a hstate
    have hsend : sendingState (session conversationId s sender) (peers.identity sender)
        (peers.identityKey sender) (some (peers.bundle sender.other))
        ⟨keyPair (gen s.generated), keyPair (gen (s.generated + 1)), nonce⟩ = .ok (a, none) := by
      rw [hstate]
      rfl
    obtain ⟨header, c, hexec, hnext⟩ := encryptForPeer_ok hS hsend
      (peers.identityKey sender.other) hplain
    simp only [step, send, hexec, hch, List.cons_append]
    exact begun_of_saved rfl (hbegun.update ⟨hfirst.info, hfirst.secret_mem, hfirst.rootKey_mem,
      hfirst.chainKey_mem, hfirst.messageKey_mem, hfirst.root, hfirst.opens⟩)

/-- One action, as long as nothing has been delivered. -/
theorem begun_step (hS : Primitives S gen limit drawn) {s : System S}
    (h : Holds peers conversationId s)
    (hbegun : s.log = [] → Begun derived (session conversationId s) s.channel) {a : Action S}
    (hwithin : a.Within limit) (hderived : derivedBy peers conversationId s a ⊆ derived)
    (hlog : (step peers conversationId s a).log = []) :
    Begun derived (session conversationId (step peers conversationId s a))
      (step peers conversationId s a).channel := by
  cases a with
  | encrypt sender nonce plaintext =>
    have hbefore : s.log = [] := by
      rw [← (holds_encrypt hS h sender nonce hwithin).2, hlog]
    exact begun_encrypt hS h hbefore (hbegun hbefore) sender nonce hwithin hderived
  | deliver sender =>
    cases hq : s.channel sender with
    | nil =>
      simp only [step, hq] at hlog ⊢
      exact hbegun hlog
    | cons m rest =>
      simp [step, hq] at hlog

/-- What a receiver with a session derives. -/
theorem ofReceive_of_session {receiver : Side} {m : Message S} (hm : Answerable peers receiver m)
    (generated : ℕ) (state : RatchetState S) :
    ofReceive peers receiver m generated (some state)
      = ofDecryptMessage m.packet.header (keyPair (gen generated)) state := by
  unfold ofReceive
  cases hx : m.x3dhHeader with
  | none => rfl
  | some x3dhHeader =>
    obtain ⟨secret, hsecret⟩ := hm x3dhHeader hx
    rw [Option.map_some, hsecret]
    rfl

/-- A first delivery to a side that has a session is not decrypted. -/
theorem oneInitiator_of_allDecrypted (hC : CollisionFree S derived opened) {s : System S}
    (h : Holds peers conversationId s)
    (hbegun : s.log = [] → Begun derived (session conversationId s) s.channel) {a : Action S}
    (hderived : derivedBy peers conversationId s a ⊆ derived) (hopened : openedBy s a ⊆ opened)
    (hall : AllDecrypted (step peers conversationId s a)) : OneInitiator conversationId s a := by
  cases a with
  | encrypt sender nonce plaintext => trivial
  | deliver sender =>
    intro hlog hch
    by_contra hsession
    obtain ⟨-, hsides⟩ := h.phase.resolve_right (fun h' => h'.1 hlog)
    -- both sides have encrypted, so both are initiators
    obtain ⟨a, m, rest, x3dhHeader, secret, ha, hq, -, hsecret, hahead⟩ :=
      (hsides sender).resolve_left (fun hidle => hch hidle.2)
    obtain ⟨b, _, _, _, secret', hb, -, -, -, hahead'⟩ :=
      (hsides sender.other).resolve_left
        (fun hidle => hsession (hasSession_eq_false_iff.mpr hidle.1))
    obtain ⟨x3dh, dhOut, first, rest', hq', hfirst⟩ := hbegun hlog sender a ha
    obtain ⟨x3dh', dhOut', _, _, -, hfirst'⟩ := hbegun hlog sender.other b hb
    rw [hq, List.cons.injEq] at hq'
    obtain ⟨rfl, rfl⟩ := hq'
    have hm : Answerable peers sender.other m := h.answerable sender m (by simp [hq])
    have hne : (peers.signedPrekey sender.other.other).publicKey ≠ a.sendRatchetKey.publicKey := by
      obtain ⟨i, -, hi⟩ := h.drawn sender a ha
      rw [a.sendRatchetKey.publicKey_eq, hi]
      exact peers.signedPrekey_ne _ i
    have hhead : m ∈ (s.channel sender).head? := by
      rw [hq]
      rfl
    have hreceived : ofDecryptMessage m.packet.header (keyPair (gen s.generated)) b ⊆ derived := by
      rw [← ofReceive_of_session hm, ← hb]
      exact fun d hd => hderived ⟨m, hhead, hd⟩
    rw [hq] at hahead
    have hnot := crossed_not_decrypted hC hahead hahead' hfirst hfirst' hne hreceived
      (hopened ⟨m, hhead, rfl⟩)
    have hres := hall ⟨m.packet.plaintext,
      (exec (receive peers conversationId sender.other m s.generated) (s.db sender.other)).1⟩
      (by simp only [step, hq]; exact List.mem_append_right _ (List.mem_singleton_self _))
    dsimp only at hres
    rw [receive_of_session hm hb] at hres
    cases hdec : exec (decryptMessage m.packet.header m.packet.ciphertext
        (keyPair (gen s.generated))) b with
    | mk r b' =>
      cases r with
      | error e =>
        rw [hdec] at hres
        cases hres
      | ok plaintext => exact hnot plaintext (by rw [hdec])

end

/-! ## Runs -/

/-- One action, under the condition. -/
theorem holds_step (hS : Primitives S gen limit drawn) {peers : Peers E gen}
    {conversationId : String}
    (s : System S) (a : Action S) (h : Holds peers conversationId s ∧ AllDecrypted s)
    (hok : OneInitiator conversationId s a ∧ a.Within limit ∧
      (step peers conversationId s a).generated ≤ drawn) :
    Holds peers conversationId (step peers conversationId s a) ∧
      AllDecrypted (step peers conversationId s a) := by
  obtain ⟨hone, hwithin, hdrawn⟩ := hok
  cases a with
  | encrypt sender nonce plaintext =>
    obtain ⟨hholds, hlog⟩ := holds_encrypt hS h.1 sender nonce hwithin
    refine ⟨hholds, ?_⟩
    unfold AllDecrypted
    rw [hlog]
    exact h.2
  | deliver sender => exact holds_deliver hS h.1 sender hdrawn hone h.2

/-- At the start both sides are idle. -/
theorem holds_start (peers : Peers E gen) {conversationId : String} {db : Side → SessionDb S}
    (hdb : ∀ p, hasSession (db p) conversationId = false) :
    Holds peers conversationId (start db) where
  answerable := fun _ _ hm => by cases hm
  drawn := fun p a ha => by
    have hnone : loadSession (db p) conversationId = none := hasSession_eq_false_iff.mp (hdb p)
    rw [show session conversationId (start db) p = none from hnone] at ha
    cases ha
  phase := Or.inl ⟨rfl, fun p => Or.inl ⟨hasSession_eq_false_iff.mp (hdb p), rfl⟩⟩

/-- An action only adds to the log. -/
theorem log_prefix_step (peers : Peers E gen) (conversationId : String) (s : System S)
    (a : Action S) : s.log <+: (step peers conversationId s a).log := by
  cases a with
  | encrypt sender nonce plaintext =>
    simp only [step]
    split <;> exact List.prefix_rfl
  | deliver sender =>
    simp only [step]
    split
    · exact List.prefix_rfl
    · exact List.prefix_append _ _

/-- If all messages of a run are decrypted, so are those of its first part. -/
theorem allDecrypted_of_run {peers : Peers E gen} {conversationId : String} {s : System S}
    {l : List (Action S)} (h : AllDecrypted (run (step peers conversationId) s l)) :
    AllDecrypted s := by
  have hstep : ∀ s' a, s.log <+: s'.log → s.log <+: (step peers conversationId s' a).log :=
    fun s' a hs' => hs'.trans (log_prefix_step peers conversationId s' a)
  have hgrow := run_invariant_of_step hstep List.prefix_rfl l
  exact fun d hd => h d (hgrow.subset hd)

/-- Key pairs are only drawn. -/
theorem generated_le_step (peers : Peers E gen) (conversationId : String) (s : System S)
    (a : Action S) : s.generated ≤ (step peers conversationId s a).generated := by
  cases a with
  | encrypt sender nonce plaintext =>
    simp only [step]
    split <;> exact Nat.le_add_right _ _
  | deliver sender =>
    simp only [step]
    split
    · exact le_rfl
    · exact Nat.le_succ _

/-- **Sessions with one initiator.**  Between two peers without a session, in every run whose
first delivery finds a side without a session, every delivered message is decrypted to its
plaintext, however many messages there are. -/
theorem holds_of_oneInitiator (hS : Primitives S gen limit drawn) (peers : Peers E gen)
    {conversationId : String} {db : Side → SessionDb S}
    (hdb : ∀ p, hasSession (db p) conversationId = false) {l : List (Action S)}
    (hwithin : ∀ a ∈ l, a.Within limit)
    (hdrawn : (run (step peers conversationId) (start db) l).generated ≤ drawn)
    (hl : Meets (step peers conversationId) (OneInitiator conversationId) (start db) l) :
    Holds peers conversationId (run (step peers conversationId) (start db) l) ∧
      AllDecrypted (run (step peers conversationId) (start db) l) :=
  run_invariant (holds_step hS) ⟨holds_start peers hdb, fun d hd => by cases hd⟩
    (hl.and ((meets_of_forall hwithin _).and (meets_le_of_monotone (f := System.generated)
      (generated_le_step peers conversationId) hdrawn)))

/-- Before the first delivery of such a run, every session has its first message under way. -/
theorem begun_of_oneInitiator (hS : Primitives S gen limit drawn) (peers : Peers E gen)
    {conversationId : String} {db : Side → SessionDb S}
    (hdb : ∀ p, hasSession (db p) conversationId = false) {l : List (Action S)}
    (hwithin : ∀ a ∈ l, a.Within limit)
    (hdrawn : (run (step peers conversationId) (start db) l).generated ≤ drawn)
    {derived : Set (Derivation S)}
    (hderived : Meets (step peers conversationId)
      (fun s a => derivedBy peers conversationId s a ⊆ derived) (start db) l)
    (hl : Meets (step peers conversationId) (OneInitiator conversationId) (start db) l) :
    (run (step peers conversationId) (start db) l).log = [] →
      Begun derived (session conversationId (run (step peers conversationId) (start db) l))
        (run (step peers conversationId) (start db) l).channel := by
  have hstart : Begun derived (session conversationId (start db)) (start db).channel := by
    intro p a ha
    rw [show session conversationId (start db) p = none from hasSession_eq_false_iff.mp (hdb p)]
      at ha
    cases ha
  have hkeep : ∀ s a, (Holds peers conversationId s ∧ AllDecrypted s) ∧
      (s.log = [] → Begun derived (session conversationId s) s.channel) →
      (OneInitiator conversationId s a ∧ a.Within limit ∧
        (step peers conversationId s a).generated ≤ drawn) ∧
        derivedBy peers conversationId s a ⊆ derived →
      (Holds peers conversationId (step peers conversationId s a) ∧
        AllDecrypted (step peers conversationId s a)) ∧
      ((step peers conversationId s a).log = [] →
        Begun derived (session conversationId (step peers conversationId s a))
          (step peers conversationId s a).channel) := by
    intro s a h hok
    exact ⟨holds_step hS s a h.1 hok.1, begun_step hS h.1.1 h.2 hok.1.2.1 hok.2⟩
  have hmeets := (hl.and ((meets_of_forall hwithin _).and (meets_le_of_monotone
    (f := System.generated) (generated_le_step peers conversationId) hdrawn))).and hderived
  have hinitial : Holds peers conversationId (start db) := holds_start peers hdb
  exact (run_invariant hkeep ⟨⟨hinitial, fun d hd => by cases hd⟩, fun _ => hstart⟩ hmeets).2

/-- **And no others.**  If nothing collides that a run derives and opens, and every delivered
message is decrypted, then its first delivery finds a side without a session. -/
theorem oneInitiator_of_run (hS : Primitives S gen limit drawn) {derived : Set (Derivation S)}
    {opened : Set S.Sealed} (hC : CollisionFree S derived opened) (peers : Peers E gen)
    {conversationId : String} {db : Side → SessionDb S}
    (hdb : ∀ p, hasSession (db p) conversationId = false) {l : List (Action S)}
    (hwithin : ∀ a ∈ l, a.Within limit)
    (hdrawn : (run (step peers conversationId) (start db) l).generated ≤ drawn)
    (hderived : Meets (step peers conversationId)
      (fun s a => derivedBy peers conversationId s a ⊆ derived) (start db) l)
    (hopened : Meets (step peers conversationId) (fun s a => openedBy s a ⊆ opened) (start db) l)
    (hall : AllDecrypted (run (step peers conversationId) (start db) l)) :
    Meets (step peers conversationId) (OneInitiator conversationId) (start db) l := by
  induction l using List.reverseRecOn with
  | nil => trivial
  | append_singleton l a ih =>
    rw [run_append] at hall hdrawn
    rw [meets_append] at hderived hopened
    have hbefore : (run (step peers conversationId) (start db) l).generated ≤ drawn :=
      (generated_le_step peers conversationId _ a).trans hdrawn
    have hwithin' : ∀ b ∈ l, b.Within limit := fun b hb => hwithin b (List.mem_append_left _ hb)
    have hl := ih hwithin' hbefore hderived.1 hopened.1 (allDecrypted_of_run hall)
    have hholds := (holds_of_oneInitiator hS peers hdb hwithin' hbefore hl).1
    have hbegun := begun_of_oneInitiator hS peers hdb hwithin' hbefore hderived.1 hl
    exact meets_append.mpr ⟨hl, oneInitiator_of_allDecrypted hC hholds hbegun hderived.2.1
      hopened.2.1 hall, trivial⟩

/-- What a run derives. -/
def derivedIn (peers : Peers E gen) (conversationId : String) (db : Side → SessionDb S)
    (l : List (Action S)) : Set (Derivation S) :=
  gathered (step peers conversationId) (derivedBy peers conversationId) (start db) l

/-- The ciphertexts that a run opens. -/
def openedIn (peers : Peers E gen) (conversationId : String) (db : Side → SessionDb S)
    (l : List (Action S)) : Set S.Sealed :=
  gathered (step peers conversationId) openedBy (start db) l

/-- **Simultaneous initiation.**  In the runs whose first delivery finds a side without a
session, every delivered message is decrypted; in no others, if nothing collides that the run
derives and opens.  The key pairs drawn in the run are different, and the cipher seals its
plaintexts. -/
theorem delivered_iff_oneInitiator (hS : Primitives S gen limit drawn) (peers : Peers E gen)
    {conversationId : String} {db : Side → SessionDb S}
    (hdb : ∀ p, hasSession (db p) conversationId = false) (l : List (Action S))
    (hwithin : ∀ a ∈ l, a.Within limit)
    (hdrawn : (run (step peers conversationId) (start db) l).generated ≤ drawn) :
    (Meets (step peers conversationId) (OneInitiator conversationId) (start db) l →
        AllDecrypted (run (step peers conversationId) (start db) l)) ∧
      (CollisionFree S (derivedIn peers conversationId db l) (openedIn peers conversationId db l) →
        AllDecrypted (run (step peers conversationId) (start db) l) →
        Meets (step peers conversationId) (OneInitiator conversationId) (start db) l) :=
  ⟨fun hl => (holds_of_oneInitiator hS peers hdb hwithin hdrawn hl).2,
    fun hC => oneInitiator_of_run hS hC peers hdb hwithin hdrawn meets_gathered meets_gathered⟩

/-! ## Two peers -/

/-- The secrets drawn after those of the two peers. -/
def laterSecret (i : ℕ) : symbolicSuite.Secret := SymbolicSuite.honestSecret (i + 5)

theorem primitives_laterSecret (limit drawn : ℕ) :
    Primitives symbolicSuite laterSecret limit drawn where
  dh_comm := (RatchetAgreement.primitives_symbolicSuite limit drawn).dh_comm
  seals := (RatchetAgreement.primitives_symbolicSuite limit drawn).seals
  opens := (RatchetAgreement.primitives_symbolicSuite limit drawn).opens
  fresh := fun _ _ _ _ h =>
    Nat.add_right_cancel (SymbolicSuite.publicOf_honestSecret_injective h)

/-- The signed prekeys of the two peers. -/
def symbolicPrekey : Side → X25519KeyPair symbolicSuite
  | .alice => keyPair (SymbolicSuite.honestSecret 2)
  | .bob => keyPair (SymbolicSuite.honestSecret 3)

theorem symbolicPrekey_ne (p : Side) (i : ℕ) :
    (symbolicPrekey p).publicKey ≠ symbolicSuite.publicOf (laterSecret i) := by
  intro h
  cases p with
  | alice =>
    have hi : 2 = i + 5 := SymbolicSuite.publicOf_honestSecret_injective h
    omega
  | bob =>
    have hi : 3 = i + 5 := SymbolicSuite.publicOf_honestSecret_injective h
    omega

/-- Two peers; only the second one's bundle has a one-time prekey. -/
def symbolicPeers : Peers symbolicSigning laterSecret where
  signingKey := fun
    | .alice => [65]
    | .bob => [66]
  identity := fun
    | .alice => keyPair (SymbolicSuite.honestSecret 0)
    | .bob => keyPair (SymbolicSuite.honestSecret 1)
  signedPrekey := symbolicPrekey
  oneTime := fun
    | .alice => none
    | .bob => some (keyPair (SymbolicSuite.honestSecret 4))
  signedPrekey_ne := symbolicPrekey_ne

/-- Databases without rows. -/
def emptyDb (_ : Side) : SessionDb symbolicSuite := SqlTable.empty

/-- Alice encrypts twice; Bob reads the first message and answers, and both read the rest. -/
def oneSidedExchange : List (Action symbolicSuite) :=
  [.encrypt .alice 0 [1], .encrypt .alice 1 [2], .deliver .alice, .encrypt .bob 2 [3],
    .deliver .alice, .deliver .bob]

theorem delivered_iff_oneInitiator_oneSidedExchange :
    Meets (step symbolicPeers "conversation") (OneInitiator "conversation") (start emptyDb)
        oneSidedExchange ∧
      (run (step symbolicPeers "conversation") (start emptyDb) oneSidedExchange).log.map
        Delivery.plaintext = [[1], [2], [3]] ∧
      AllDecrypted (run (step symbolicPeers "conversation") (start emptyDb) oneSidedExchange) ∧
      CollisionFree symbolicSuite (derivedIn symbolicPeers "conversation" emptyDb oneSidedExchange)
        (openedIn symbolicPeers "conversation" emptyDb oneSidedExchange) := by
  have hmeets : Meets (step symbolicPeers "conversation") (OneInitiator "conversation")
      (start emptyDb) oneSidedExchange := by
    decide +kernel
  have hwithin : ∀ a ∈ oneSidedExchange, a.Within 1 := by
    simp [oneSidedExchange, Action.Within]
  have hdrawn : (run (step symbolicPeers "conversation") (start emptyDb)
      oneSidedExchange).generated ≤ 9 := by
    decide +kernel
  exact ⟨hmeets, by decide +kernel, (delivered_iff_oneInitiator (primitives_laterSecret 1 9)
    symbolicPeers (fun _ => rfl) oneSidedExchange hwithin hdrawn).1 hmeets,
    collisionFree_symbolicSuite _ _⟩

/-- Both encrypt before either has received anything; then a message is delivered. -/
def crossedExchange : List (Action symbolicSuite) :=
  [.encrypt .alice 0 [1], .encrypt .bob 1 [2], .deliver .alice]

/-- Bob does not decrypt the message of Alice: he has made a session of his own. -/
theorem crossed_first_messages :
    (run (step symbolicPeers "conversation") (start emptyDb) crossedExchange).log
        = [⟨[1], .error (.message (.ratchetError
            "decryption failed: XChaCha20-Poly1305 decryption failed: aead::Error"))⟩] ∧
      ¬ AllDecrypted (run (step symbolicPeers "conversation") (start emptyDb)
        crossedExchange) := by
  have hlog : (run (step symbolicPeers "conversation") (start emptyDb) crossedExchange).log
      = [⟨[1], .error (.message (.ratchetError
          "decryption failed: XChaCha20-Poly1305 decryption failed: aead::Error"))⟩] := rfl
  refine ⟨hlog, fun hall => ?_⟩
  rw [AllDecrypted, hlog] at hall
  cases hall _ (List.mem_singleton_self _)

end CrossedSessions
