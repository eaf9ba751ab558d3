/-
# Answering a prekey bundle

`generate_prekey_bundle` draws the key pair of the signed prekey, and that of the one-time
prekey, and returns their public keys only.  `x3dh_respond` asks for both secrets.  The owner
of the bundle, who holds its identity secrets and what `generate_prekey_bundle` gave it, can
therefore answer an initiator exactly when the drawn secrets happen to be its own
(`exists_initiate_answers_iff`); and no other computation leads it to the shared secret
(`computes_sharedSecret_iff`).
-/
import Ephemera.BundleAuthenticity

namespace PrekeyAnswer

open DolevYao Ratchet RatchetAgreement Session BundleAuthenticity

/-- A key pair over the symbolic keys. -/
abbrev KeyPair := X25519KeyPair symbolicSuite

/-- The public keys in an initial message. -/
def messageKeys (msg : X3dhInitialMessage symbolicSuite) : List PublicKey :=
  [msg.identityX25519, msg.ephemeralKey, msg.signedPrekeyUsed] ++ msg.oneTimePrekeyUsed.toList

/-- What the owner of a bundle holds: its long-term X25519 pair, and the public keys of the
bundle and of the initial message.  Its Ed25519 pair and the signature in the bundle take no
part in X3DH. -/
def holdings (identity : KeyPair) (bundle : Bundle) (msg : X3dhInitialMessage symbolicSuite) :
    Value → Prop
  | .secret n => n = identity.secret
  | .publicKey k => k = identity.publicKey ∨ k ∈ x25519Keys bundle ∨ k ∈ messageKeys msg
  | .key _ => False

/-- The owner of the bundle runs `x3dh_respond`, with secrets it can compute, and obtains the
shared secret. -/
def Answers (identity : KeyPair) (bundle : Bundle) (msg : X3dhInitialMessage symbolicSuite)
    (sharedSecret : Term) : Prop :=
  ∃ (signedPrekeySecret : Name) (oneTimePrekeySecret : Option Name),
    Computes (holdings identity bundle msg) (.secret signedPrekeySecret) ∧
      (∀ n, oneTimePrekeySecret = some n →
        Computes (holdings identity bundle msg) (.secret n)) ∧
      x3dhRespond identity.secret signedPrekeySecret oneTimePrekeySecret msg = .ok sharedSecret

/-- The public key of a pair is the one of its secret. -/
theorem publicKey_eq_of (pair : KeyPair) : pair.publicKey = PublicKey.of pair.secret :=
  pair.publicKey_eq

/-! ## One exchange -/

section Exchange

-- `B`'s identity and the pairs that `generate_prekey_bundle` draws for it; the initiator's
-- identity and the pair that `x3dh_initiate` draws.
variable (signingKey : IdentityKey) (identity signedPrekey : KeyPair) (oneTime : Option KeyPair)
  (ours ephemeral : KeyPair) (ourIdentity : IdentityKey)

/-- The bundle. -/
def bundleOf : Bundle :=
  generatePrekeyBundle (E := symbolicSigning) signingKey identity.publicKey signedPrekey oneTime

/-- The initial message. -/
def messageOf : X3dhInitialMessage symbolicSuite :=
  initialMessageOf ours.publicKey ourIdentity
    (bundleOf signingKey identity signedPrekey oneTime) ephemeral

/-- The exchanges that enter the shared secret. -/
def exchanges : List Term :=
  [Term.agree ours.secret (.of signedPrekey.secret),
    Term.agree ephemeral.secret (.of identity.secret),
    Term.agree ephemeral.secret (.of signedPrekey.secret)] ++
      (oneTime.map (fun otp => Term.agree ephemeral.secret (.of otp.secret))).toList

/-- The shared secret is derived from the exchanges. -/
theorem initiatorSecret_bundleOf :
    initiatorSecret ours.secret (bundleOf signingKey identity signedPrekey oneTime) ephemeral =
      .kdf (.ofList (exchanges identity signedPrekey oneTime ours ephemeral)) x3dhInfo := by
  cases oneTime with
  | none =>
    simp only [initiatorSecret, bundleOf, generatePrekeyBundle, publicKey_eq_of,
      Option.map_none]
    rfl
  | some otp =>
    simp only [initiatorSecret, bundleOf, generatePrekeyBundle, publicKey_eq_of,
      Option.map_some]
    rfl

/-- The secret that a responder derives from a bundle without a one-time prekey. -/
theorem x3dhRespond_none (signedPrekeySecret : Name) (oneTimePrekeySecret : Option Name) :
    x3dhRespond identity.secret signedPrekeySecret oneTimePrekeySecret
        (messageOf signingKey identity signedPrekey none ours ephemeral ourIdentity)
      = .ok (.kdf (.ofList [Term.agree signedPrekeySecret (.of ours.secret),
          Term.agree identity.secret (.of ephemeral.secret),
          Term.agree signedPrekeySecret (.of ephemeral.secret)]) x3dhInfo) := by
  simp only [x3dhRespond, messageOf, initialMessageOf, bundleOf, generatePrekeyBundle,
    publicKey_eq_of, Option.map_none, Option.isSome_none, Bool.false_eq_true, if_false]
  exact deriveSharedSecret_eq (S := symbolicSuite) _

/-- The secret that a responder derives from a bundle with one. -/
theorem x3dhRespond_some (otp : KeyPair) (signedPrekeySecret oneTimePrekeySecret : Name) :
    x3dhRespond identity.secret signedPrekeySecret (some oneTimePrekeySecret)
        (messageOf signingKey identity signedPrekey (some otp) ours ephemeral ourIdentity)
      = .ok (.kdf (.ofList [Term.agree signedPrekeySecret (.of ours.secret),
          Term.agree identity.secret (.of ephemeral.secret),
          Term.agree signedPrekeySecret (.of ephemeral.secret),
          Term.agree oneTimePrekeySecret (.of ephemeral.secret)]) x3dhInfo) := by
  simp only [x3dhRespond, messageOf, initialMessageOf, bundleOf, generatePrekeyBundle,
    publicKey_eq_of, Option.map_some, Option.isSome_some, if_true]
  exact deriveSharedSecret_eq (S := symbolicSuite) _

/-- A responder meets an exchange of the initiator exactly with the right secret. -/
theorem agree_eq_agree_comm_iff {x y n : Name} :
    Term.agree x (.of n) = Term.agree n (.of y) ↔ x = y := by
  rw [Term.agree_comm x n, Term.agree_eq_agree_iff]
  constructor
  · rintro (⟨_, h⟩ | ⟨rfl, rfl⟩)
    · exact h
    · rfl
  · rintro rfl
    exact Or.inl ⟨rfl, rfl⟩

/-- Derived keys are equal exactly when their inputs are. -/
theorem ok_kdf_inj {l l' : List Term} :
    (Except.ok (.kdf (.ofList l) x3dhInfo) : Except SessionError Term) =
      .ok (.kdf (.ofList l') x3dhInfo) ↔ l = l' := by
  constructor
  · intro h
    exact Term.ofList_injective (Term.kdf.inj (Except.ok.inj h)).1
  · rintro rfl
    rfl

/-- **The answers of X3DH, exactly**: with its identity secret the responder obtains the
initiator's secret from those of the prekeys, and from no others. -/
theorem x3dhRespond_eq_iff (signedPrekeySecret : Name) (oneTimePrekeySecret : Option Name) :
    x3dhRespond identity.secret signedPrekeySecret oneTimePrekeySecret
        (messageOf signingKey identity signedPrekey oneTime ours ephemeral ourIdentity)
      = .ok (initiatorSecret ours.secret (bundleOf signingKey identity signedPrekey oneTime)
          ephemeral) ↔
      signedPrekeySecret = signedPrekey.secret ∧
        ∀ otp, oneTime = some otp → oneTimePrekeySecret = some otp.secret := by
  rw [initiatorSecret_bundleOf]
  cases oneTime with
  | none =>
    rw [x3dhRespond_none]
    refine ok_kdf_inj.trans ?_
    simp only [exchanges, Option.map_none, Option.toList_none, List.append_nil, List.cons.injEq,
      agree_eq_agree_comm_iff, and_true, true_and]
    exact ⟨fun h => ⟨h.1, fun _ hn => nomatch hn⟩, fun h => ⟨h.1, h.1⟩⟩
  | some otp =>
    cases oneTimePrekeySecret with
    | none => exact iff_of_false (fun h => nomatch h) (fun h => nomatch h.2 otp rfl)
    | some n =>
      rw [x3dhRespond_some]
      refine ok_kdf_inj.trans ?_
      simp only [exchanges, Option.map_some, Option.toList_some, List.cons_append,
        List.nil_append, List.cons.injEq, agree_eq_agree_comm_iff, and_true, true_and,
        Option.some.injEq]
      constructor
      · rintro ⟨hsp, _, hn⟩
        exact ⟨hsp, fun o ho => by rw [← ho, hn]⟩
      · rintro ⟨hsp, hn⟩
        exact ⟨hsp, hsp, hn otp rfl⟩

/-- The owner of a bundle can answer exactly when the drawn secrets are its own. -/
theorem answers_iff :
    Answers identity (bundleOf signingKey identity signedPrekey oneTime)
        (messageOf signingKey identity signedPrekey oneTime ours ephemeral ourIdentity)
        (initiatorSecret ours.secret (bundleOf signingKey identity signedPrekey oneTime)
          ephemeral) ↔
      signedPrekey.secret = identity.secret ∧
        ∀ otp, oneTime = some otp → otp.secret = identity.secret := by
  constructor
  · rintro ⟨sp, ot, hsp, hot, hrespond⟩
    obtain ⟨rfl, hotp⟩ := (x3dhRespond_eq_iff signingKey identity signedPrekey oneTime ours
      ephemeral ourIdentity sp ot).mp hrespond
    exact ⟨computes_secret_iff.mp hsp, fun otp ho =>
      computes_secret_iff.mp (hot otp.secret (hotp otp ho))⟩
  · rintro ⟨hsp, hot⟩
    refine ⟨signedPrekey.secret, oneTime.map X25519KeyPair.secret, .held hsp, ?_, ?_⟩
    · intro n hn
      obtain ⟨otp, ho, rfl⟩ := Option.map_eq_some_iff.mp hn
      exact .held (hot otp ho)
    · refine (x3dhRespond_eq_iff signingKey identity signedPrekey oneTime ours ephemeral
        ourIdentity _ _).mpr ⟨rfl, fun otp ho => ?_⟩
      rw [ho, Option.map_some]

/-- **Answering a bundle.**  Every initiation on a generated bundle succeeds, and the owner of
the bundle can answer it exactly when the drawn prekey secrets are its own long-term secret:
they are in nothing that `generate_prekey_bundle` returns. -/
theorem exists_initiate_answers_iff :
    ∃ r, x3dhInitiate ours.secret ours.publicKey ourIdentity
        (bundleOf signingKey identity signedPrekey oneTime) ephemeral = .ok r ∧
      (Answers identity (bundleOf signingKey identity signedPrekey oneTime) r.initialMessage
          r.sharedSecret ↔
        signedPrekey.secret = identity.secret ∧
          ∀ otp, oneTime = some otp → otp.secret = identity.secret) :=
  ⟨_, x3dhInitiate_eq _ _ _ _ _,
    answers_iff signingKey identity signedPrekey oneTime ours ephemeral ourIdentity⟩

/-- What the owner of the bundle holds after the initiation. -/
abbrev ownerHoldings : Value → Prop :=
  holdings identity (bundleOf signingKey identity signedPrekey oneTime)
    (messageOf signingKey identity signedPrekey oneTime ours ephemeral ourIdentity)

/-- The public keys of all pairs are among the holdings. -/
theorem computes_publicKey {n : Name}
    (h : n = identity.secret ∨ n = signedPrekey.secret ∨ n = ours.secret ∨ n = ephemeral.secret ∨
      ∃ otp, oneTime = some otp ∧ n = otp.secret) :
    Computes (ownerHoldings signingKey identity signedPrekey oneTime ours ephemeral ourIdentity)
      (.publicKey (.of n)) := by
  refine .held ?_
  rcases h with rfl | rfl | rfl | rfl | ⟨otp, rfl, rfl⟩ <;>
    simp [holdings, x25519Keys, messageKeys, bundleOf, messageOf, initialMessageOf,
      generatePrekeyBundle, publicKey_eq_of]

/-- As the public keys are known, an exchange is computed with either secret. -/
theorem computes_exchange_iff {x y : Name}
    (hx : Computes (ownerHoldings signingKey identity signedPrekey oneTime ours ephemeral
      ourIdentity) (.publicKey (.of x)))
    (hy : Computes (ownerHoldings signingKey identity signedPrekey oneTime ours ephemeral
      ourIdentity) (.publicKey (.of y))) :
    Computes (ownerHoldings signingKey identity signedPrekey oneTime ours ephemeral ourIdentity)
      (.key (Term.agree x (.of y))) ↔ x = identity.secret ∨ y = identity.secret := by
  rw [computes_agree_iff (fun _ h => h), and_iff_left hy, and_iff_left hx]
  exact Iff.rfl

/-- **No other way.**  Whatever the owner of the bundle computes from its identity secret and
the public keys it sees, it obtains the shared secret exactly when a secret of its own takes
part in each exchange. -/
theorem computes_sharedSecret_iff :
    Computes (ownerHoldings signingKey identity signedPrekey oneTime ours ephemeral ourIdentity)
      (.key (initiatorSecret ours.secret (bundleOf signingKey identity signedPrekey oneTime)
        ephemeral)) ↔
      (ours.secret = identity.secret ∨ signedPrekey.secret = identity.secret) ∧
        (ephemeral.secret = identity.secret ∨ signedPrekey.secret = identity.secret) ∧
        ∀ otp, oneTime = some otp →
          ephemeral.secret = identity.secret ∨ otp.secret = identity.secret := by
  have hpub := fun n => computes_publicKey signingKey identity signedPrekey oneTime ours ephemeral
    ourIdentity (n := n)
  have hours := hpub ours.secret (by simp)
  have hephemeral := hpub ephemeral.secret (by simp)
  have hidentity := hpub identity.secret (by simp)
  have hsigned := hpub signedPrekey.secret (by simp)
  have hone : ∀ otp, oneTime = some otp →
      (Computes (ownerHoldings signingKey identity signedPrekey oneTime ours ephemeral ourIdentity)
        (.key (Term.agree ephemeral.secret (.of otp.secret))) ↔
          ephemeral.secret = identity.secret ∨ otp.secret = identity.secret) := by
    intro otp hotp
    have hknown := hpub otp.secret (by simp [hotp])
    exact computes_exchange_iff signingKey identity signedPrekey oneTime ours ephemeral
      ourIdentity hephemeral hknown
  rw [initiatorSecret_bundleOf, computes_kdf_iff (fun _ h => h), exchanges]
  simp only [List.cons_append, List.nil_append, List.forall_mem_cons,
    computes_exchange_iff signingKey identity signedPrekey oneTime ours ephemeral ourIdentity
      hours hsigned,
    computes_exchange_iff signingKey identity signedPrekey oneTime ours ephemeral ourIdentity
      hephemeral hidentity,
    computes_exchange_iff signingKey identity signedPrekey oneTime ours ephemeral ourIdentity
      hephemeral hsigned, or_true, true_and]
  refine and_congr_right (fun _ => and_congr_right (fun _ => ?_))
  cases oneTime with
  | none => simp
  | some otp =>
    simp only [Option.map_some, Option.toList_some, List.forall_mem_singleton, Option.some.injEq,
      forall_eq']
    exact hone otp rfl

end Exchange

/-- All key pairs of an exchange are drawn anew, and the owner of the bundle cannot answer. -/
theorem not_answers_fresh :
    ¬ ∀ (signingKey : IdentityKey) (identity signedPrekey : KeyPair) (oneTime : Option KeyPair)
        (ours ephemeral : KeyPair) (ourIdentity : IdentityKey),
      ∃ r, x3dhInitiate ours.secret ours.publicKey ourIdentity
          (bundleOf signingKey identity signedPrekey oneTime) ephemeral = .ok r ∧
        Answers identity (bundleOf signingKey identity signedPrekey oneTime) r.initialMessage
          r.sharedSecret := by
  intro h
  obtain ⟨r, hr, hanswers⟩ := h [0xBB] (honestPair 0) (honestPair 1) none (honestPair 2)
    (honestPair 3) [0xAA]
  rw [x3dhInitiate_eq] at hr
  obtain rfl := Except.ok.inj hr
  have hsecret := ((answers_iff [0xBB] (honestPair 0) (honestPair 1) none (honestPair 2)
    (honestPair 3) [0xAA]).mp hanswers).1
  exact absurd hsecret (by decide)

end PrekeyAnswer
