/-
# What the proofs of a handle are bound to (`ephemera-social/src/handle_validation.rs`)

The challenge of the proof of work and the message of the signature are put together in the same
way behind two different domain separators: the length of the name in two bytes, the name, the
owner and the time.  For a name of 65536 bytes or more the length is truncated, but all parts
around the name have a fixed width, so the bytes still determine the record, and the separators,
which are equally long, keep the two kinds apart (`HandleBinding.not_transplantable`).
-/
import Ephemera.HandleRegistry
import Ephemera.ProofOfWork
import Ephemera.Utf8

namespace HandleBinding

/-! ## The parts -/

/-- The bytes of a name determine it. -/
theorem nameBytes_injective : Function.Injective nameBytes :=
  fun _ _ h => String.toList_inj.mp (Utf8.encode_injective h)

@[simp] theorem length_toBeBytes (n : UInt64) : (toBeBytes n).length = 8 := rfl

/-- The bytes of a number are its digits. -/
theorem map_toNat_toBeBytes (n : UInt64) :
    (toBeBytes n).map UInt8.toNat = Digits.expand 256 8 n.toNat := by
  rw [toBeBytes, Digits.expand, List.map_map]
  refine List.map_congr_left (fun i hi => ?_)
  have hlt := List.mem_range.mp hi
  have hshift : (8 * (7 - i)).toUInt64.toNat = 8 * (7 - i) := by
    rw [Nat.toUInt64, UInt64.toNat_ofNat']
    omega
  have hpow : 256 ^ (7 - i) = 2 ^ (8 * (7 - i)) := Nat.pow_mul 2 8 (7 - i) ▸ rfl
  change ((n >>> (8 * (7 - i)).toUInt64).toUInt8).toNat = n.toNat / 256 ^ (7 - i) % 256
  rw [UInt64.toNat_toUInt8, UInt64.toNat_shiftRight, hshift, hpow, Nat.shiftRight_eq_div_pow,
    Nat.mod_eq_of_lt (by omega : 8 * (7 - i) < 64)]

theorem toBeBytes_injective : Function.Injective toBeBytes := by
  intro m n h
  have hdigits := congrArg (List.map UInt8.toNat) h
  rw [map_toNat_toBeBytes, map_toNat_toBeBytes] at hdigits
  have hm : m.toNat < 256 ^ 8 := m.toNat_lt
  have hn : n.toNat < 256 ^ 8 := n.toNat_lt
  exact UInt64.toNat_inj.mp (Digits.expand_inj hm hn hdigits)

/-- **The parts can be read off the bytes**, from the outside in; the bytes of the length are not
needed for that. -/
theorem registrationBytes_inj {name name' : String} {owner owner' : IdentityKey}
    {registeredAt registeredAt' : UInt64} (howner : owner.length = owner'.length)
    (h : registrationBytes name owner registeredAt = registrationBytes name' owner' registeredAt') :
    name = name' ∧ owner = owner' ∧ registeredAt = registeredAt' := by
  obtain ⟨hfront, htime⟩ := List.append_inj' h rfl
  obtain ⟨hlenName, hkey⟩ := List.append_inj' hfront howner
  obtain ⟨_, hname⟩ := List.append_inj hlenName rfl
  exact ⟨nameBytes_injective hname, hkey, toBeBytes_injective htime⟩

/-- The domain separators are equally long and differ. -/
theorem domains_separate :
    (nameBytes "ephemera-handle-pow-v1").length = (nameBytes "ephemera-handle-sig-v1").length ∧
      nameBytes "ephemera-handle-pow-v1" ≠ nameBytes "ephemera-handle-sig-v1" := by
  decide +kernel

/-! ## The record -/

/-- What a challenge and a message are made for. -/
@[ext]
structure Registration where
  name : String
  owner : Vector UInt8 32
  registeredAt : UInt64
  deriving DecidableEq

namespace Registration

/-- The challenge of the proof of work for a record. -/
def challenge (r : Registration) : List UInt8 :=
  buildPowChallenge r.name r.owner.toList r.registeredAt

/-- The message that is signed for a record. -/
def message (r : Registration) : List UInt8 :=
  buildSignatureMessage r.name r.owner.toList r.registeredAt

/-- The bytes behind a domain separator determine the record. -/
theorem eq_of_append {r r' : Registration} {domain : List UInt8}
    (h : domain ++ 0 :: registrationBytes r.name r.owner.toList r.registeredAt =
      domain ++ 0 :: registrationBytes r'.name r'.owner.toList r'.registeredAt) : r = r' := by
  have hbody := (List.cons.inj (List.append_cancel_left h)).2
  have hlen : r.owner.toList.length = r'.owner.toList.length := by
    rw [Vector.length_toList, Vector.length_toList]
  obtain ⟨hname, howner, htime⟩ := registrationBytes_inj hlen hbody
  exact Registration.ext hname (Vector.toList_inj.mp howner) htime

theorem challenge_injective : Function.Injective challenge := fun _ _ h => eq_of_append h

theorem message_injective : Function.Injective message := fun _ _ h => eq_of_append h

/-- **No challenge is a message.** -/
theorem challenge_ne_message (r r' : Registration) : r.challenge ≠ r'.message :=
  fun h => domains_separate.2 (List.append_inj_left h domains_separate.1)

end Registration

/-! ## Stamps -/

open HandlePrimitives

variable {P : HandlePrimitives}

/-- The challenge of a stamp that is accepted is that of the record. -/
theorem challenge_of_verifyHandlePow {name : String} {owner : IdentityKey} {registeredAt : UInt64}
    {stamp : PowStamp} {d : PowDifficulty}
    (h : P.verifyHandlePow name owner registeredAt stamp d = .ok ()) :
    stamp.challenge = buildPowChallenge name owner registeredAt :=
  (verifyPow_eq_ok_iff.mp h).1

/-- A stamp is accepted for one record only. -/
theorem eq_of_verifyHandlePow {r r' : Registration} {stamp : PowStamp} {d d' : PowDifficulty}
    (h : P.verifyHandlePow r.name r.owner.toList r.registeredAt stamp d = .ok ())
    (h' : P.verifyHandlePow r'.name r'.owner.toList r'.registeredAt stamp d' = .ok ()) :
    r = r' := by
  have hch : stamp.challenge = r.challenge := challenge_of_verifyHandlePow h
  have hch' : stamp.challenge = r'.challenge := challenge_of_verifyHandlePow h'
  exact Registration.challenge_injective (hch.symm.trans hch')

/-- **Proofs cannot be transplanted.**  For names of any length the challenge and the message
determine the name, the owner and the time, and no challenge is a message; so a proof of work that
is accepted for one record is refused for every other one, and is not over bytes that are signed
for any. -/
theorem not_transplantable (P : HandlePrimitives) (name name' : String)
    (owner owner' : Vector UInt8 32) (registeredAt registeredAt' : UInt64) :
    (buildPowChallenge name owner.toList registeredAt =
        buildPowChallenge name' owner'.toList registeredAt' →
      name = name' ∧ owner = owner' ∧ registeredAt = registeredAt') ∧
    (buildSignatureMessage name owner.toList registeredAt =
        buildSignatureMessage name' owner'.toList registeredAt' →
      name = name' ∧ owner = owner' ∧ registeredAt = registeredAt') ∧
    buildPowChallenge name owner.toList registeredAt ≠
      buildSignatureMessage name' owner'.toList registeredAt' ∧
    ∀ stamp d, P.verifyHandlePow name owner.toList registeredAt stamp d = .ok () →
      stamp.challenge ≠ buildSignatureMessage name' owner'.toList registeredAt' ∧
        ∀ d', P.verifyHandlePow name' owner'.toList registeredAt' stamp d' = .ok () →
          name = name' ∧ owner = owner' ∧ registeredAt = registeredAt' := by
  let r : Registration := ⟨name, owner, registeredAt⟩
  let r' : Registration := ⟨name', owner', registeredAt'⟩
  have hparts : r = r' → name = name' ∧ owner = owner' ∧ registeredAt = registeredAt' :=
    fun h => Registration.mk.inj h
  have hne : r.challenge ≠ r'.message := Registration.challenge_ne_message r r'
  refine ⟨fun h => hparts (Registration.challenge_injective h),
    fun h => hparts (Registration.message_injective h), hne, fun stamp d h => ⟨?_, ?_⟩⟩
  · rw [challenge_of_verifyHandlePow h]
    exact hne
  · intro d' h'
    have heq : r = r' := eq_of_verifyHandlePow h h'
    exact hparts heq

/-- The third nonce makes a stamp for one name; for another name of the same owner and time it is
refused at every difficulty. -/
theorem refused_for_another_name :
    let P := ofHash thirdNonceHash (fun _ _ _ => true)
    let owner : Vector UInt8 32 := Vector.replicate 32 7
    let stamp : PowStamp := ⟨buildPowChallenge "ada" owner.toList 1000, nonceOf 2, 11⟩
    P.verifyHandlePow "ada" owner.toList 1000 stamp .high = .ok () ∧
      ∀ d, P.verifyHandlePow "adam" owner.toList 1000 stamp d ≠ .ok () := by
  intro P owner stamp
  have hok : P.verifyHandlePow "ada" owner.toList 1000 stamp .high = .ok () := by decide +kernel
  obtain ⟨_, _, _, hstamp⟩ := not_transplantable P "ada" "adam" owner owner 1000 1000
  exact ⟨hok, fun d h => absurd ((hstamp stamp .high hok).2 d h).1 (by decide)⟩

end HandleBinding

namespace HandleRegistry

variable {P : HandlePrimitives}

/-- **Two valid records with one stamp** are for the same name, owner and time. -/
theorem eq_of_validate {h h' : Handle} {now now' : UInt64} (hv : validate P h now = .ok ())
    (hv' : validate P h' now' = .ok ()) (howner : h.owner.length = h'.owner.length)
    (hstamp : h.powProof = h'.powProof) :
    h.name = h'.name ∧ h.owner = h'.owner ∧ h.registeredAt = h'.registeredAt ∧
      h.expiresAt = h'.expiresAt := by
  obtain ⟨_, _, hexp, _, hpow⟩ := validate_eq_ok_iff.mp hv
  obtain ⟨_, _, hexp', _, hpow'⟩ := validate_eq_ok_iff.mp hv'
  have hch := HandleBinding.challenge_of_verifyHandlePow hpow
  have hch' := HandleBinding.challenge_of_verifyHandlePow hpow'
  rw [← hstamp, hch] at hch'
  have hbody := (List.cons.inj (List.append_cancel_left hch')).2
  obtain ⟨hname, hkey, htime⟩ := HandleBinding.registrationBytes_inj howner hbody
  exact ⟨hname, hkey, htime, by rw [hexp, hexp', htime]⟩

end HandleRegistry
