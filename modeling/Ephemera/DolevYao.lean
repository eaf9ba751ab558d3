/-
# A symbolic model of keys

Keys are terms: a public constant, secret atoms, Diffie–Hellman outputs of two named
secrets, and the outputs of a key-derivation function on a list of terms.  Equality of
terms is equality of keys, so the key-derivation function has no collisions.
`Derivable` is what an adversary can compute who has secrets of its own and sees every
public key, and who knows neither the atoms nor the honest secrets.
-/
import Mathlib.Data.Nat.Notation
import Mathlib.Data.List.Basic

namespace DolevYao

/-- Names of Diffie–Hellman secrets: those of the honest parties and those of the
adversary. -/
inductive Name where
  | honest (i : ℕ)
  | adversary (i : ℕ)
  deriving DecidableEq, Repr

/-- A number for each name. -/
def Name.code : Name → ℕ
  | .honest i => 2 * i
  | .adversary i => 2 * i + 1

theorem Name.code_injective {a b : Name} (h : a.code = b.code) : a = b := by
  cases a <;> cases b <;> simp only [code, honest.injEq, adversary.injEq, reduceCtorEq] at h ⊢
  all_goals omega

/-- Public keys: the one of a name, or a point of low order. -/
inductive PublicKey where
  | of (n : Name)
  | lowOrder
  deriving DecidableEq, Repr

/-- Keys, and lists of keys as the input of the key-derivation function. -/
inductive Term where
  | zero
  | atom (i : ℕ)
  | dh (low high : Name)
  | nil
  | cons (head tail : Term)
  | kdf (ikm : Term) (info : String)
  deriving DecidableEq

namespace Term

/-- A list of keys as a term. -/
def ofList : List Term → Term
  | [] => nil
  | t :: l => cons t (ofList l)

theorem ofList_injective {l l' : List Term} (h : ofList l = ofList l') : l = l' := by
  induction l generalizing l' with
  | nil =>
    cases l' with
    | nil => rfl
    | cons t l' => cases h
  | cons t l ih =>
    cases l' with
    | nil => cases h
    | cons t' l' =>
      obtain ⟨rfl, htail⟩ := cons.inj h
      rw [ih htail]

/-- The Diffie–Hellman output of a secret and a public key, a term of the two names in
order.  Points of low order give the constant, whatever the secret. -/
def agree (a : Name) : PublicKey → Term
  | .of b => if a.code ≤ b.code then dh a b else dh b a
  | .lowOrder => zero

/-- Both sides compute the same output. -/
theorem agree_comm (a b : Name) : agree a (.of b) = agree b (.of a) := by
  simp only [agree]
  by_cases h : a.code ≤ b.code
  · by_cases h' : b.code ≤ a.code
    · rw [Name.code_injective (Nat.le_antisymm h h')]
    · rw [if_pos h, if_neg h']
  · rw [if_neg h, if_pos (Nat.le_of_not_le h)]

end Term

/-- What the adversary can compute. -/
inductive Derivable : Term → Prop where
  | zero : Derivable .zero
  | dhLow (i : ℕ) (n : Name) : Derivable (.dh (.adversary i) n)
  | dhHigh (i : ℕ) (n : Name) : Derivable (.dh n (.adversary i))
  | nil : Derivable .nil
  | cons {head tail : Term} : Derivable head → Derivable tail → Derivable (.cons head tail)
  | kdf {ikm : Term} (info : String) : Derivable ikm → Derivable (.kdf ikm info)

/-- Secret atoms stay secret. -/
theorem not_derivable_atom (i : ℕ) : ¬ Derivable (.atom i) := by
  intro h
  cases h

/-- A derived key is secret when the first key of its input is: its output can only be
computed from its input. -/
theorem not_derivable_kdf {head : Term} (h : ¬ Derivable head) (l : List Term) (info : String) :
    ¬ Derivable (.kdf (.ofList (head :: l)) info) := by
  intro hk
  cases hk with
  | kdf _ hikm =>
    cases hikm with
    | cons hhead _ => exact h hhead

/-- What the adversary derives from a list of keys it can compute. -/
theorem Derivable.kdf_ofList {l : List Term} (h : ∀ t ∈ l, Derivable t) (info : String) :
    Derivable (.kdf (.ofList l) info) := by
  refine .kdf info ?_
  induction l with
  | nil => exact .nil
  | cons t l ih =>
    have ht : Derivable t := h t List.mem_cons_self
    exact .cons ht (ih (fun u hu => h u (List.mem_cons_of_mem _ hu)))

/-- A derived key can be computed exactly when every key of its input can. -/
theorem derivable_kdf_ofList_iff {l : List Term} {info : String} :
    Derivable (.kdf (.ofList l) info) ↔ ∀ t ∈ l, Derivable t := by
  refine ⟨fun h => ?_, fun h => Derivable.kdf_ofList h info⟩
  cases h with
  | kdf _ hikm =>
    induction l with
    | nil => simp
    | cons t l ih =>
      cases hikm with
      | cons hhead htail => exact List.forall_mem_cons.mpr ⟨hhead, ih htail⟩

/-- A Diffie–Hellman output of an honest secret can be computed exactly when the other key is
not honest. -/
theorem derivable_agree_iff (i : ℕ) (k : PublicKey) :
    Derivable (Term.agree (.honest i) k) ↔ ∀ j, k ≠ .of (.honest j) := by
  cases k with
  | lowOrder => exact ⟨fun _ j h => (by cases h), fun _ => .zero⟩
  | of n =>
    cases n with
    | honest j =>
      refine ⟨fun h => ?_, fun h => absurd rfl (h j)⟩
      simp only [Term.agree] at h
      split at h <;> cases h
    | adversary j =>
      refine ⟨fun _ j h => (by cases h), fun _ => ?_⟩
      simp only [Term.agree]
      split
      · exact .dhHigh _ _
      · exact .dhLow _ _

/-- With a public key that has a secret, the output is no constant and no derived key. -/
theorem Term.agree_of (a b : Name) : ∃ low high, agree a (.of b) = .dh low high := by
  simp only [agree]
  split
  · exact ⟨a, b, rfl⟩
  · exact ⟨b, a, rfl⟩

/-- Two Diffie–Hellman outputs are the same exactly when they are of the same two names. -/
theorem Term.agree_eq_agree_iff {a b c d : Name} :
    agree a (.of b) = agree c (.of d) ↔ (a = c ∧ b = d) ∨ (a = d ∧ b = c) := by
  constructor
  · intro h
    simp only [agree] at h
    split at h <;> split at h <;> obtain ⟨rfl, rfl⟩ := Term.dh.inj h
    · exact Or.inl ⟨rfl, rfl⟩
    · exact Or.inr ⟨rfl, rfl⟩
    · exact Or.inr ⟨rfl, rfl⟩
    · exact Or.inl ⟨rfl, rfl⟩
  · rintro (⟨rfl, rfl⟩ | ⟨rfl, rfl⟩)
    · rfl
    · exact agree_comm a b

/-! ## What a party computes from what it holds -/

/-- What a party handles. -/
inductive Value where
  | secret (n : Name)
  | publicKey (k : PublicKey)
  | key (t : Term)
  deriving DecidableEq

/-- What a party can compute that holds the values of `held`. -/
inductive Computes (held : Value → Prop) : Value → Prop where
  | held {v : Value} : held v → Computes held v
  | publicOf {n : Name} : Computes held (.secret n) → Computes held (.publicKey (.of n))
  | zero : Computes held (.key .zero)
  | agree {n : Name} {k : PublicKey} : Computes held (.secret n) → Computes held (.publicKey k) →
      Computes held (.key (.agree n k))
  | kdf {l : List Term} (info : String) : (∀ t ∈ l, Computes held (.key t)) →
      Computes held (.key (.kdf (.ofList l) info))

variable {held : Value → Prop}

/-- No secret can be computed: a party has those it holds. -/
theorem computes_secret_iff {n : Name} : Computes held (.secret n) ↔ held (.secret n) := by
  refine ⟨fun h => ?_, .held⟩
  cases h with
  | held h => exact h

/-- A Diffie–Hellman output of two names is computed with the secret of either one and the
public key of the other. -/
theorem computes_agree_iff (hkey : ∀ t, ¬ held (.key t)) {a b : Name} :
    Computes held (.key (.agree a (.of b))) ↔
      (held (.secret a) ∧ Computes held (.publicKey (.of b))) ∨
        (held (.secret b) ∧ Computes held (.publicKey (.of a))) := by
  constructor
  · intro h
    generalize ht : Value.key (.agree a (.of b)) = v at h
    obtain ⟨low, high, hdh⟩ := Term.agree_of a b
    cases h with
    | held h => exact absurd (ht ▸ h) (hkey _)
    | publicOf _ => cases ht
    | zero => cases hdh.symm.trans (Value.key.inj ht)
    | kdf info _ => cases hdh.symm.trans (Value.key.inj ht)
    | @agree n k hn hk =>
      cases k with
      | lowOrder => cases hdh.symm.trans (Value.key.inj ht)
      | of m =>
        rcases Term.agree_eq_agree_iff.mp (Value.key.inj ht) with ⟨rfl, rfl⟩ | ⟨rfl, rfl⟩
        · exact Or.inl ⟨computes_secret_iff.mp hn, hk⟩
        · exact Or.inr ⟨computes_secret_iff.mp hn, hk⟩
  · rintro (⟨ha, hb⟩ | ⟨hb, ha⟩)
    · exact .agree (.held ha) hb
    · rw [Term.agree_comm]
      exact .agree (.held hb) ha

/-- A derived key is computed exactly from all keys of its input. -/
theorem computes_kdf_iff (hkey : ∀ t, ¬ held (.key t)) {l : List Term} {info : String} :
    Computes held (.key (.kdf (.ofList l) info)) ↔ ∀ t ∈ l, Computes held (.key t) := by
  refine ⟨fun h => ?_, .kdf info⟩
  generalize ht : Value.key (.kdf (.ofList l) info) = v at h
  cases h with
  | held h => exact absurd (ht ▸ h) (hkey _)
  | publicOf _ => cases ht
  | zero => cases ht
  | @agree n k _ _ =>
    cases k with
    | lowOrder => cases ht
    | of m =>
      obtain ⟨low, high, hdh⟩ := Term.agree_of n m
      cases hdh.symm.trans (Value.key.inj ht).symm
  | @kdf l' info' h =>
    obtain ⟨hl, _⟩ := Term.kdf.inj (Value.key.inj ht)
    rw [Term.ofList_injective hl]
    exact h

/-! ## Ciphertexts -/

/-- Authenticated ciphertexts: a plaintext under a key and a nonce, or bytes that no key
opens. -/
inductive Ciphertext where
  | enc (key : Term) (nonce : ℕ) (plaintext : List UInt8)
  | junk (bytes : List UInt8)
  deriving DecidableEq

/-- Opening a ciphertext succeeds under its own key only. -/
def Ciphertext.open? (key : Term) : Ciphertext → Option (List UInt8)
  | .enc k _ p => if k = key then some p else none
  | .junk _ => none

theorem Ciphertext.open?_eq_some {key : Term} {c : Ciphertext} {p : List UInt8} :
    c.open? key = some p ↔ ∃ n, c = .enc key n p := by
  cases c with
  | enc k n q =>
    by_cases hk : k = key
    · simp [open?, hk]
    · simp [open?, hk]
  | junk b => simp [open?]

end DolevYao
