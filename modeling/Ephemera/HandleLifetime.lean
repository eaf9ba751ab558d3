/-
# How far ahead a handle can be claimed

`validate` requires that a record has not expired and that it expires a TTL after it was
registered.  It never compares `registered_at` with the clock, so a record that is dated ahead
holds its name for longer than a TTL, and the sum of the two overflows at the end of `u64`.

`timeBounded_iff_inTime` is the exact condition on a record, for any allowance for clocks that
differ.  It also says what the condition means for the registry: with records that meet it no
name is held longer than a TTL, and the allowance, after it was last written.
-/
import Ephemera.HandleCooldown

open GuardedRun StateExcept

namespace HandleRegistry

variable (P : HandlePrimitives)

/-- The record passes the checks that come before the sum. -/
def ReachesSum (h : Handle) (now : UInt64) : Prop :=
  validateHandleFormat h.name = .ok () ∧ h.isExpiredAt now = false

/-- What should hold of a record that is validated: the sum does not overflow, and a record that
is accepted is live, for at most a TTL and the allowance. -/
structure TimeBounded (skew : ℕ) (h : Handle) (now : UInt64) : Prop where
  noOverflow : ReachesSum h now → h.registeredAt.toNat + handleTtlSecs.toNat < 2 ^ 64
  live : validate P h now = .ok () → now < h.expiresAt
  bounded : validate P h now = .ok () →
    h.expiresAt.toNat ≤ now.toNat + handleTtlSecs.toNat + skew

/-- **The condition on a record** that gets as far as the sum: it was not registered in the last
TTL of `u64`, and if the other checks accept it, not after the allowance either. -/
def InTime (skew : ℕ) (h : Handle) (now : UInt64) : Prop :=
  ReachesSum h now →
    h.registeredAt.toNat + handleTtlSecs.toNat < 2 ^ 64 ∧
    (h.expiresAt = h.registeredAt + handleTtlSecs →
      P.verifyHandleSignature h.name h.owner h.registeredAt h.signature = true →
      P.verifyHandlePow h.name h.owner h.registeredAt h.powProof
        (calculatePowDifficulty h.name) = .ok () →
      h.registeredAt.toNat ≤ now.toNat + skew)

/-- The name that a call may write a handle under. -/
def Op.Writes (n : String) : Op → Prop
  | .register _ name _ _ => toAsciiLowercase name = n
  | .renew _ name _ _ => name = n
  | .insertValidated handle _ => handle.name = n
  | .release _ _ _ => False
  | .gc _ _ => False

/-- A record from the network has passed `validate` and meets the condition. -/
def Op.InTime (skew : ℕ) : Op → Prop
  | .insertValidated handle nowSecs => HandleRegistry.InTime P skew handle nowSecs
  | _ => True

variable {P}

/-! ## One record -/

/-- Where the sum fits, it is a TTL after the registration. -/
theorem toNat_add_ttl {t : UInt64} (h : t.toNat + handleTtlSecs.toNat < 2 ^ 64) :
    (t + handleTtlSecs).toNat = t.toNat + handleTtlSecs.toNat := by
  rw [UInt64.toNat_add, Nat.mod_eq_of_lt h]

theorem isExpiredAt_eq_false_iff {h : Handle} {now : UInt64} :
    h.isExpiredAt now = false ↔ now < h.expiresAt := by
  rw [Handle.isExpiredAt, decide_eq_false_iff_not, UInt64.not_le]

/-- **One record.** -/
theorem timeBounded_iff {skew : ℕ} {h : Handle} {now : UInt64} :
    TimeBounded P skew h now ↔ InTime P skew h now := by
  constructor
  · intro hbound hreach
    have hfits := hbound.noOverflow hreach
    refine ⟨hfits, fun hexp hsig hpow => ?_⟩
    have hle := hbound.bounded (validate_eq_ok_iff.mpr ⟨hreach.1, hreach.2, hexp, hsig, hpow⟩)
    rw [hexp, toNat_add_ttl hfits] at hle
    omega
  · intro hin
    refine ⟨fun hreach => (hin hreach).1, fun hvalid => ?_, fun hvalid => ?_⟩
    · exact isExpiredAt_eq_false_iff.mp (validate_eq_ok_iff.mp hvalid).2.1
    · obtain ⟨hformat, hlive, hexp, hsig, hpow⟩ := validate_eq_ok_iff.mp hvalid
      obtain ⟨hfits, hreg⟩ := hin ⟨hformat, hlive⟩
      have hle := hreg hexp hsig hpow
      rw [hexp, toNat_add_ttl hfits]
      omega

/-! ## The registry -/

/-- A handle expires within a TTL and the allowance of a time. -/
def Expires (skew : ℕ) (h : Handle) (now : UInt64) : Prop :=
  h.expiresAt.toNat ≤ now.toNat + handleTtlSecs.toNat + skew

/-- What is made here expires in time, also at the end of `u64`. -/
theorem expires_of_eq {h : Handle} {now : UInt64} (heq : h.expiresAt = now + handleTtlSecs)
    (skew : ℕ) : Expires skew h now := by
  have hle : (now + handleTtlSecs).toNat ≤ now.toNat + handleTtlSecs.toNat := by
    rw [UInt64.toNat_add]
    exact Nat.mod_le _ _
  rw [Expires, heq]
  omega

/-- `register` writes nothing but the new handle. -/
theorem lookup_register (skew : ℕ) {r : HandleRegistry} {attempts : ℕ} {name : String}
    {identity : PseudonymIdentity} {nowSecs : UInt64} {n : String} {h : Handle}
    (hh : (exec (register P attempts name identity nowSecs) r).2.handles.lookup n = some h) :
    r.handles.lookup n = some h ∨ toAsciiLowercase name = n ∧ Expires skew h nowSecs := by
  let I : HandleRegistry → Prop := fun s => ∀ h, s.handles.lookup n = some h →
    r.handles.lookup n = some h ∨ toAsciiLowercase name = n ∧ Expires skew h nowSecs
  have hrule : Triple I (registerWithDifficulty P attempts (toAsciiLowercase name) identity
      (calculatePowDifficulty (toAsciiLowercase name)) nowSecs) (fun _ => I) I := by
    refine triple_register_rule (fun s m o hs h hm => ?_) (fun _ _ hs _ _ => hs)
      (fun s new hs _ hname hexp h hm => ?_) attempts identity _
    · rw [drop, HashMap.lookup_erase_eq] at hm
      split at hm
      · cases hm
      · exact hs h hm
    · rw [store, HashMap.lookup_insert_eq] at hm
      split at hm
      · rename_i hn
        rw [← Option.some.inj hm]
        exact Or.inr ⟨(hn.trans hname).symm, expires_of_eq hexp skew⟩
      · exact hs h hm
  rw [register] at hh
  exact hrule.exec_snd (fun _ hm => Or.inl hm) h hh

/-- **One call.**  A handle that is there after it was there before, or the call has written it. -/
theorem lookup_step {skew : ℕ} {r : HandleRegistry} {op : Op} (hvalid : op.Validated P)
    (hin : op.InTime P skew) {n : String} {h : Handle}
    (hh : (r.step P op).handles.lookup n = some h) :
    r.handles.lookup n = some h ∨ op.Writes n ∧ Expires skew h op.nowSecs := by
  cases op with
  | register attempts name identity nowSecs =>
    rw [step] at hh
    rcases lookup_register skew hh with hbefore | hwritten
    · exact Or.inl hbefore
    · exact Or.inr hwritten
  | renew attempts name identity nowSecs =>
    rw [step] at hh
    rcases renew_snd_cases (P := P) attempts name identity nowSecs r with
      heq | ⟨g, g', -, hexp, heq⟩
    · rw [heq] at hh
      exact Or.inl hh
    · rw [heq] at hh
      simp only at hh
      rw [HashMap.lookup_insert_eq] at hh
      split at hh
      · rename_i hn
        rw [← Option.some.inj hh]
        exact Or.inr ⟨hn.symm, expires_of_eq hexp skew⟩
      · exact Or.inl hh
  | release name identity nowSecs =>
    rw [step] at hh
    rcases release_cases name identity nowSecs r with ⟨-, heq⟩ | ⟨g, -, heq⟩
    · rw [heq] at hh
      exact Or.inl hh
    · rw [heq] at hh
      simp only [drop] at hh
      rw [HashMap.lookup_erase_eq] at hh
      split at hh
      · cases hh
      · exact Or.inl hh
  | insertValidated handle nowSecs =>
    rw [step, insertValidated_snd] at hh
    split at hh
    · exact Or.inl hh
    · rw [overwrite, HashMap.lookup_insert_eq] at hh
      split at hh
      · rename_i hn
        rw [← Option.some.inj hh]
        exact Or.inr ⟨hn.symm, (timeBounded_iff.mpr hin).bounded hvalid⟩
      · exact Or.inl hh
  | gc order nowSecs => exact Or.inl (lookup_gc hh).1

/-- **Every handle goes back to a call** of the run that wrote it, and expires within a TTL and
the allowance of that call. -/
theorem written_of_lookup {skew : ℕ} {ops : List Op}
    (hops : ∀ op ∈ ops, op.Validated P ∧ op.InTime P skew) {n : String} {h : Handle}
    (hh : (run (step P) new ops).handles.lookup n = some h) :
    ∃ op ∈ ops, op.Writes n ∧ Expires skew h op.nowSecs := by
  induction ops using List.reverseRecOn with
  | nil => cases hh
  | append_singleton ops op ih =>
    rw [run_append, run_cons, run_nil] at hh
    have hlast := hops op (by simp)
    rcases lookup_step hlast.1 hlast.2 hh with hbefore | hwritten
    · obtain ⟨op', hop', h'⟩ := ih (fun op' hop' => hops op' (by simp [hop'])) hbefore
      exact ⟨op', by simp [hop'], h'⟩
    · exact ⟨op, by simp, hwritten⟩

/-- **How far ahead a handle can be claimed.**  A record is bounded in time exactly if it is not
dated ahead; and in every run that takes only such records from the network, a name whose last
call is a TTL and the allowance ago has no live handle. -/
theorem timeBounded_iff_inTime (P : HandlePrimitives) (skew : ℕ) :
    (∀ h now, TimeBounded P skew h now ↔ InTime P skew h now) ∧
      ∀ (ops : List Op) (n : String) (now : UInt64),
        (∀ op ∈ ops, op.Validated P ∧ op.InTime P skew) →
        (∀ op ∈ ops, op.Writes n → op.nowSecs.toNat + handleTtlSecs.toNat + skew ≤ now.toNat) →
        ∀ h, (run (step P) new ops).handles.lookup n = some h → h.isExpiredAt now = true := by
  refine ⟨fun h now => timeBounded_iff, fun ops n now hops hlast h hh => ?_⟩
  obtain ⟨op, hop, hwrites, hexp⟩ := written_of_lookup hops hh
  rw [Handle.isExpiredAt, decide_eq_true_eq, UInt64.le_iff_toNat_le]
  exact le_trans hexp (hlast op hop hwrites)

/-- A record of the same second: it is in time, and a TTL later the name is free. -/
theorem timeBounded_iff_inTime_example :
    TimeBounded examplePrimitives 0 (exampleRecord "alice_one" exampleOwner 1704067200)
        1704067200 ∧
      ∀ h, (run (step examplePrimitives) new [.insertValidated
          (exampleRecord "alice_one" exampleOwner 1704067200) 1704067200]).handles.lookup
            "alice_one" = some h →
        h.isExpiredAt (1704067200 + handleTtlSecs) = true := by
  have hin : InTime examplePrimitives 0 (exampleRecord "alice_one" exampleOwner 1704067200)
      1704067200 := fun _ => ⟨by decide, fun _ _ _ => by decide⟩
  refine ⟨((timeBounded_iff_inTime examplePrimitives 0).1 _ _).mpr hin, fun h hh => ?_⟩
  refine (timeBounded_iff_inTime examplePrimitives 0).2 _ "alice_one" _ (fun op hop => ?_)
    (fun op hop _ => ?_) h hh
  · rw [List.mem_singleton.mp hop]
    refine ⟨?_, hin⟩
    show validate _ _ _ = _
    decide +kernel
  · rw [List.mem_singleton.mp hop]
    decide

/-- A record of the last second of `u64`. -/
def lastSecond : Handle :=
  { exampleRecord "alice_one" exampleOwner 18446744073709551615 with
    expiresAt := 18446744073709551615 }

/-- **Dated ahead.**  No allowance saves the sum, which overflows for a record of the last second.
And a record that is dated ten years ahead is accepted, whose expiry is beyond an allowance
of nine years. -/
theorem dated_ahead_accepted :
    (¬∃ skew, ∀ h now, TimeBounded examplePrimitives skew h now) ∧
      ¬TimeBounded examplePrimitives (9 * 365 * 24 * 60 * 60)
        (exampleRecord "alice_one" exampleOwner 2019427200) 1704067200 := by
  refine ⟨?_, fun h => ?_⟩
  · rintro ⟨skew, h⟩
    have hreach : ReachesSum lastSecond 1704067200 := ⟨by decide +kernel, by decide⟩
    exact absurd ((h lastSecond 1704067200).noOverflow hreach) (by decide)
  · have hvalid : validate examplePrimitives (exampleRecord "alice_one" exampleOwner 2019427200)
        1704067200 = .ok () := by decide +kernel
    exact absurd (h.bounded hvalid) (by decide)

end HandleRegistry
