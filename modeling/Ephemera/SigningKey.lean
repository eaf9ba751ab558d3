/-
# What an identity key signs

One Ed25519 key signs the posts of an identity, its handles, its profile, its prekeys and its
records in the DHT, each as bytes without a common frame.  The bytes of the first four differ
anyway, and those of a post and of a handle say what they are for (`eq_of_message_eq`).

A DHT record is signed as its key and its value, and `dht_put` takes any key.  The Iroh endpoint
of the node is started with the same secret, and signs what its protocols ask for.  So a node can
be sure of what an identity said only up to the DHT records it published and the signatures of its
endpoint (`accepted_signed`): the key of an empty record, for one, verifies as a prekey.
-/
import Ephemera.HandleBinding
import Ephemera.PostBuilder
import Ephemera.Session

/-- Something that is signed with an identity key. -/
inductive Signed where
  | post (fields : CanonicalFields)
  | handle (registration : HandleBinding.Registration)
  | profile
  | avatar
  | prekey (key : Vector UInt8 32)
  | dhtRecord (key : Vector UInt8 32) (value : List UInt8)
  /-- What the endpoint signs, to which `start_network` gives the secret: any bytes. -/
  | endpoint (bytes : List UInt8)

namespace Signed

open PostCanonical ProtocolEnvelope HandleBinding

/-- The bytes that are signed. -/
def message : Signed → List UInt8
  | .post fields => canonicalText fields
  | .handle registration => registration.message
  | .profile => ascii "profile-update"
  | .avatar => ascii "profile-update-avatar"
  | .prekey key => key.toList
  | .dhtRecord key value => key.toList ++ value
  | .endpoint bytes => bytes

/-- The kinds of messages that can be told apart. -/
inductive Kind where
  | post
  | handle
  | profile
  | avatar
  | prekey
  deriving DecidableEq

/-- The kind of a message, if it is neither a DHT record nor the endpoint's. -/
def kind : Signed → Option Kind
  | .post _ => some .post
  | .handle _ => some .handle
  | .profile => some .profile
  | .avatar => some .avatar
  | .prekey _ => some .prekey
  | .dhtRecord _ _ => none
  | .endpoint _ => none

/-- The kind, read off the bytes. -/
def kindOf (bytes : List UInt8) : Option Kind :=
  if bytes.length = 32 then some .prekey
  else if bytes.head? = some 91 then some .post
  else if bytes.head? = some 101 then some .handle
  else if bytes.length = 14 then some .profile
  else some .avatar

/-! ## The bytes -/

/-- The texts that are the same in every message of their kind. -/
theorem fixedTexts : kindOf profile.message = some .profile ∧
    kindOf avatar.message = some .avatar ∧ textFront.length = 16 ∧ photoFront.length = 20 ∧
    combinedFront.length = 20 ∧ (ascii "\x7d\x7d").length = 2 ∧
    (ascii "\x7b\"version\":").length = 11 := by
  decide +kernel

theorem first_post (fields : CanonicalFields) : ∃ l, (post fields).message = 91 :: l := ⟨_, rfl⟩

theorem first_handle (registration : Registration) :
    ∃ l, (handle registration).message = 101 :: l := by
  have hdomain : nameBytes "ephemera-handle-sig-v1" =
      101 :: nameBytes "phemera-handle-sig-v1" := rfl
  show ∃ l, nameBytes "ephemera-handle-sig-v1" ++ 0 :: _ = 101 :: l
  rw [hdomain]
  exact ⟨_, rfl⟩

theorem length_handle (registration : Registration) :
    32 < (handle registration).message.length := by
  have hdomain : (nameBytes "ephemera-handle-sig-v1").length = 22 := rfl
  have howner : registration.owner.toList.length = 32 := Vector.length_toList ..
  show 32 < (nameBytes "ephemera-handle-sig-v1" ++ 0 :: ([_, _] ++ nameBytes registration.name ++
    registration.owner.toList ++ toBeBytes registration.registeredAt)).length
  simp only [List.length_append, List.length_cons, List.length_nil, hdomain, howner,
    length_toBeBytes]
  omega

theorem length_contentText (content : PostContent) : 20 ≤ (contentText content).length := by
  obtain ⟨-, -, htext, hphoto, hcombined, hbraces, -⟩ := fixedTexts
  cases content with
  | text body =>
    rw [contentText, List.length_append, List.length_append, htext, hbraces, stringText,
      List.length_append, List.length_append]
    show 20 ≤ 16 + (1 + (_ + 1) + 2)
    omega
  | photo blobId caption =>
    rw [contentText, List.length_append, hphoto]
    omega
  | combined text attachments =>
    rw [contentText, List.length_append, hcombined]
    omega

theorem length_optionalIdText (id : Option ContentId) : 4 ≤ (optionalIdText id).length := by
  obtain ⟨-, -, -, -, -, -, hversion⟩ := fixedTexts
  cases id with
  | none => decide
  | some id =>
    show 4 ≤ (contentIdText id).length
    rw [contentIdText, List.length_append, hversion]
    omega

theorem length_post (fields : CanonicalFields) : 32 < (post fields).message.length := by
  have hcontent := length_contentText fields.content
  have hparent := length_optionalIdText fields.parent
  have hroot := length_optionalIdText fields.root
  show 32 < (canonicalText fields).length
  simp only [canonicalText, List.length_append, List.length_singleton]
  omega

/-- **The bytes say the kind.** -/
theorem kindOf_message {a : Signed} (ha : a.kind ≠ none) : kindOf a.message = a.kind := by
  cases a with
  | post fields =>
    obtain ⟨l, hl⟩ := first_post fields
    have hlen := length_post fields
    rw [kindOf, if_neg (by omega), if_pos (by rw [hl]; rfl)]
    rfl
  | handle registration =>
    obtain ⟨l, hl⟩ := first_handle registration
    have hlen := length_handle registration
    rw [kindOf, if_neg (by omega), if_neg (by rw [hl]; simp), if_pos (by rw [hl]; rfl)]
    rfl
  | profile => exact fixedTexts.1
  | avatar => exact fixedTexts.2.1
  | prekey key =>
    have hlen : (prekey key).message.length = 32 := Vector.length_toList ..
    rw [kindOf, if_pos hlen]
    rfl
  | dhtRecord key value => exact absurd rfl ha
  | endpoint bytes => exact absurd rfl ha

/-- **Messages that have a kind are the same only if what they say is.** -/
theorem eq_of_message_eq {a b : Signed} (ha : a.kind ≠ none) (hb : b.kind ≠ none)
    (h : a.message = b.message) : a = b := by
  have hkind : a.kind = b.kind := by rw [← kindOf_message ha, h, kindOf_message hb]
  cases a with
  | post fields =>
    cases b <;> cases hkind
    rw [canonicalText_injective h]
  | handle registration =>
    cases b <;> cases hkind
    rw [Registration.message_injective h]
  | profile =>
    cases b <;> cases hkind
    rfl
  | avatar =>
    cases b <;> cases hkind
    rfl
  | prekey key =>
    cases b <;> cases hkind
    rw [Vector.toList_inj.mp h]
  | dhtRecord key value => exact absurd rfl ha
  | endpoint bytes => exact absurd rfl ha

/-- Something without a kind that was signed, and reads like the given bytes. -/
def Confusable (history : List Signed) (bytes : List UInt8) : Prop :=
  (∃ key value, dhtRecord key value ∈ history ∧ key.toList ++ value = bytes) ∨
    endpoint bytes ∈ history

/-- A message that was signed is the one meant, or something without a kind that reads like it. -/
theorem mem_of_message_eq {history : List Signed} {a : Signed} (ha : a.kind ≠ none)
    (h : ∃ e ∈ history, e.message = a.message) : a ∈ history ∨ Confusable history a.message := by
  obtain ⟨e, hmem, heq⟩ := h
  by_cases he : e.kind = none
  · cases e with
    | dhtRecord key value => exact .inr (.inl ⟨key, value, hmem, heq⟩)
    | endpoint bytes =>
      obtain rfl : bytes = a.message := heq
      exact .inr (.inr hmem)
    | _ => cases he
  · rw [eq_of_message_eq he ha heq] at hmem
    exact .inl hmem

/-! ## What nodes accept -/

open PostIngest PostBuilder Session

variable {blake3 : List UInt8 → List UInt8} {verify : List UInt8 → List UInt8 → List UInt8 → Bool}
  {put : List UInt8 → Except String String} {S : CryptoSuite}

/-- `verify_signature` for handles. -/
def handlePrimitives (powHash : List UInt8 → List UInt8 → List UInt8)
    (verify : List UInt8 → List UInt8 → List UInt8 → Bool) : HandlePrimitives where
  powHash := powHash
  verifySignature key message signature := verify key message signature.toList

/-- `verify_signature` for prekeys, whose 32 bytes are signed. -/
def signingSuite (S : CryptoSuite) (asBytes : S.Public → Vector UInt8 32)
    (verify : List UInt8 → List UInt8 → List UInt8 → Bool) (identity : SigningKeyPair) :
    SigningSuite S where
  SigningKey := Unit
  Signature := List UInt8
  publicKey _ := identity.publicKey
  sign _ key := identity.sign (asBytes key).toList
  verify author key signature := verify author (asBytes key).toList signature

/-- **What is accepted was said.**  When no signature of an author verifies but for what the
author's key has signed, then the posts, handles and prekeys that a node accepts from the author
are the author's, up to DHT records whose key and value read like them and to bytes that the
author's endpoint signed; for a prekey the record is an empty one under it. -/
theorem accepted_signed {author : Vector UInt8 32} {history : List Signed}
    (hunforgeable : ∀ m s, verify author.toList m s = true → ∃ e ∈ history, e.message = m)
    (powHash : List UInt8 → List UInt8 → List UInt8) (asBytes : S.Public → Vector UInt8 32)
    (identity : SigningKeyPair) :
    (∀ now post, post.author = author.toList →
      validatePost (primitives blake3 verify put) now post = .ok () →
      .post post.fields ∈ history ∨ Confusable history (canonicalText post.fields)) ∧
    (∀ now h, h.owner = author.toList →
      HandleRegistry.validate (handlePrimitives powHash verify) h now = .ok () →
      .handle ⟨h.name, author, h.registeredAt⟩ ∈ history ∨
        Confusable history (buildSignatureMessage h.name author.toList h.registeredAt)) ∧
    ∀ bundle : PrekeyBundle (signingSuite S asBytes verify identity),
      bundle.identityKey = author.toList → validatePrekeyBundle bundle = .ok () →
      .prekey (asBytes bundle.signedPrekey) ∈ history ∨
        dhtRecord (asBytes bundle.signedPrekey) [] ∈ history ∨
          endpoint (asBytes bundle.signedPrekey).toList ∈ history := by
  refine ⟨fun now post hauthor hval => ?_, fun now h howner hval => ?_, fun bundle hkey hval => ?_⟩
  · have hsig := validateSignature_ok_iff.mp (validatePost_ok_iff.mp hval).1
    rw [hauthor] at hsig
    exact mem_of_message_eq (a := .post post.fields) (fun h => (by cases h)) (hunforgeable _ _ hsig)
  · obtain ⟨-, -, -, hsig, -⟩ := HandleRegistry.validate_eq_ok_iff.mp hval
    rw [howner] at hsig
    exact mem_of_message_eq (a := .handle ⟨h.name, author, h.registeredAt⟩) (fun h => (by cases h))
      (hunforgeable _ _ hsig)
  · have hsig := validatePrekeyBundle_eq_ok_iff.mp hval
    rw [hkey] at hsig
    rcases mem_of_message_eq (a := .prekey (asBytes bundle.signedPrekey)) (fun h => (by cases h))
      (hunforgeable _ _ hsig) with hmem | ⟨key, value, hmem, heq⟩ | hmem
    · exact .inl hmem
    · have hlen := congrArg List.length heq
      have hempty : value = [] := by
        apply List.eq_nil_of_length_eq_zero
        simp only [List.length_append, Vector.length_toList, message] at hlen
        omega
      rw [hempty, List.append_nil] at heq
      rw [hempty, Vector.toList_inj.mp heq] at hmem
      exact .inr (.inl hmem)
    · exact .inr (.inr hmem)

/-- An author with one post. -/
def exampleAuthor : Vector UInt8 32 := Vector.replicate 32 7

def examplePost : Post where
  id := ⟨0, []⟩
  author := exampleAuthor.toList
  content := .text "hello"
  createdAt := receivedAt.secs
  ttl := ⟨86400⟩
  signature := []
  powProof := []
  parent := none
  root := none
  depth := 0

/-- Nothing verifies but the message of the post. -/
def exampleVerify (_ message _ : List UInt8) : Bool :=
  decide (message = canonicalText examplePost.fields)

theorem accepted_signed_example :
    validatePost (primitives id exampleVerify (fun _ => .ok "")) receivedAt examplePost = .ok () ∧
      (.post examplePost.fields ∈ [post examplePost.fields] ∨
        Confusable [post examplePost.fields] (canonicalText examplePost.fields)) := by
  have hval : validatePost (primitives id exampleVerify (fun _ => .ok "")) receivedAt examplePost =
      .ok () := by
    refine validatePost_ok_iff.mpr ⟨validateSignature_ok_iff.mpr (decide_eq_true rfl), rfl, rfl, ?_,
      rfl, rfl⟩
    refine validateTextLength_ok_iff.mpr (fun body hb => ?_)
    cases hb
    decide +kernel
  refine ⟨hval, ?_⟩
  have h := @accepted_signed id exampleVerify (fun _ => .ok "") symbolicSuite exampleAuthor
    [post examplePost.fields]
    (fun m _ hm => ⟨_, List.mem_singleton.mpr rfl, (of_decide_eq_true hm).symm⟩)
    (fun _ _ => []) (fun _ => exampleAuthor) ⟨[], id⟩
  exact h.1 receivedAt examplePost rfl hval

end Signed
