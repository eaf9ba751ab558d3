/-
# Runs of a step function

A system is given by a step function on its states.  A run is a list of actions
performed in order; `Meets` says that each of them satisfies a condition in the
state it starts from.  `run_invariant` is the one induction that every safety
argument about runs goes through: what holds at the start and is kept by each
conforming action holds at the end of each conforming run.
-/
import Mathlib.Data.List.Basic
import Mathlib.Data.List.Induction
import Mathlib.Data.Set.Defs

namespace GuardedRun

variable {S L : Type*}

/-- The state reached by performing the actions of `l` in order from `s`. -/
def run (step : S → L → S) (s : S) (l : List L) : S := l.foldl step s

/-- Every action of `l`, performed in order from `s`, satisfies `ok` in the state
it starts from. -/
def Meets (step : S → L → S) (ok : S → L → Prop) : S → List L → Prop
  | _, [] => True
  | s, a :: l => ok s a ∧ Meets step ok (step s a) l

instance decidableMeets (step : S → L → S) (ok : S → L → Prop)
    [∀ s a, Decidable (ok s a)] : ∀ s l, Decidable (Meets step ok s l)
  | _, [] => isTrue trivial
  | s, a :: l =>
    match inferInstanceAs (Decidable (ok s a)), decidableMeets step ok (step s a) l with
    | isTrue h, isTrue h' => isTrue ⟨h, h'⟩
    | isFalse h, _ => isFalse (fun hc => h hc.1)
    | _, isFalse h => isFalse (fun hc => h hc.2)

variable {step : S → L → S} {ok : S → L → Prop}

@[simp] theorem run_nil (s : S) : run step s [] = s := rfl

@[simp] theorem run_cons (s : S) (a : L) (l : List L) :
    run step s (a :: l) = run step (step s a) l := rfl

/-- A run of a concatenation is the two runs one after the other. -/
theorem run_append (s : S) (l₁ l₂ : List L) :
    run step s (l₁ ++ l₂) = run step (run step s l₁) l₂ := by
  rw [run, run, run, List.foldl_append]

/-- A conforming run of a concatenation splits into two conforming runs. -/
theorem meets_append {s : S} {l₁ l₂ : List L} :
    Meets step ok s (l₁ ++ l₂) ↔ Meets step ok s l₁ ∧ Meets step ok (run step s l₁) l₂ := by
  induction l₁ generalizing s with
  | nil => simp [Meets]
  | cons a l₁ ih => simp only [List.cons_append, Meets, run_cons, ih, and_assoc]

/-- **The run rule.**  What holds at the start, and is kept by every action that
satisfies `ok`, holds at the end of every run whose actions satisfy `ok`. -/
theorem run_invariant {Inv : S → Prop} (hstep : ∀ s a, Inv s → ok s a → Inv (step s a))
    {s : S} {l : List L} (hs : Inv s) (hl : Meets step ok s l) : Inv (run step s l) := by
  induction l generalizing s with
  | nil => exact hs
  | cons a l ih => exact ih (hstep s a hs hl.1) hl.2

/-- The run rule for actions without a condition. -/
theorem run_invariant_of_step {Inv : S → Prop} (hstep : ∀ s a, Inv s → Inv (step s a)) {s : S}
    (hs : Inv s) (l : List L) : Inv (run step s l) := by
  induction l generalizing s with
  | nil => exact hs
  | cons a l ih => exact ih (hstep s a hs)

/-- Two conditions that a run meets. -/
theorem Meets.and {ok' : S → L → Prop} {s : S} {l : List L} (h : Meets step ok s l)
    (h' : Meets step ok' s l) : Meets step (fun s a => ok s a ∧ ok' s a) s l := by
  induction l generalizing s with
  | nil => trivial
  | cons a l ih => exact ⟨⟨h.1, h'.1⟩, ih h.2 h'.2⟩

/-- A condition on the actions alone. -/
theorem meets_of_forall {ok : L → Prop} {l : List L} (h : ∀ a ∈ l, ok a) (s : S) :
    Meets step (fun _ a => ok a) s l := by
  induction l generalizing s with
  | nil => trivial
  | cons a l ih =>
    exact ⟨h a List.mem_cons_self, ih (fun b hb => h b (List.mem_cons_of_mem a hb)) _⟩

/-- A counter that no action lowers is bounded throughout a run by a bound at its end. -/
theorem meets_le_of_monotone {f : S → ℕ} (hf : ∀ s a, f s ≤ f (step s a)) {n : ℕ} {s : S}
    {l : List L} (h : f (run step s l) ≤ n) : Meets step (fun s a => f (step s a) ≤ n) s l := by
  have hgrow : ∀ (s : S) l, f s ≤ f (run step s l) := by
    intro s l
    have hstep : ∀ s' a, f s ≤ f s' → f s ≤ f (step s' a) := fun s' a hs' =>
      Nat.le_trans hs' (hf s' a)
    exact run_invariant_of_step hstep (Nat.le_refl _) l
  induction l generalizing s with
  | nil => trivial
  | cons a l ih => exact ⟨Nat.le_trans (hgrow (step s a) l) h, ih h⟩

/-! ## Exact conditions on runs -/

/-- What every action of a run does is right exactly when each action satisfies `ok`, if the two
agree in the states that satisfy `Inv`, which the actions of the run under `ok` keep. -/
theorem forall_split_iff_meets {P : S → L → Prop} (Inv : S → Prop) {s : S} {l : List L}
    (hP : ∀ s, ∀ a ∈ l, Inv s → (P s a ↔ ok s a))
    (hInv : ∀ s, ∀ a ∈ l, Inv s → ok s a → Inv (step s a)) (hs : Inv s) :
    (∀ l₁ a l₂, l = l₁ ++ a :: l₂ → P (run step s l₁) a) ↔ Meets step ok s l := by
  induction l generalizing s with
  | nil =>
    refine ⟨fun _ => trivial, fun _ l₁ a l₂ h => ?_⟩
    cases l₁ <;> cases h
  | cons b l ih =>
    have hmem : ∀ a ∈ l, a ∈ b :: l := fun a ha => List.mem_cons_of_mem b ha
    have hrest : ok s b → ((∀ l₁ a l₂, l = l₁ ++ a :: l₂ → P (run step (step s b) l₁) a) ↔
        Meets step ok (step s b) l) := fun hb =>
      ih (fun s a ha => hP s a (hmem a ha)) (fun s a ha => hInv s a (hmem a ha))
        (hInv s b List.mem_cons_self hs hb)
    constructor
    · intro h
      have hb : ok s b := (hP s b List.mem_cons_self hs).mp (h [] b l rfl)
      refine ⟨hb, (hrest hb).mp (fun l₁ a l₂ heq => ?_)⟩
      exact h (b :: l₁) a l₂ (by rw [heq, List.cons_append])
    · rintro ⟨hb, hl⟩ l₁ a l₂ heq
      cases l₁ with
      | nil =>
        rw [List.nil_append, List.cons.injEq] at heq
        exact heq.1 ▸ (hP s b List.mem_cons_self hs).mpr hb
      | cons c l₁ =>
        rw [List.cons_append, List.cons.injEq] at heq
        obtain ⟨rfl, heq⟩ := heq
        exact (hrest hb).mpr hl l₁ a l₂ heq

/-- A run meets a condition when each of its actions does, in the state the actions before it
lead to. -/
theorem meets_iff_forall_split {s : S} {l : List L} :
    Meets step ok s l ↔ ∀ l₁ a l₂, l = l₁ ++ a :: l₂ → ok (run step s l₁) a :=
  (forall_split_iff_meets (fun _ => True) (fun _ _ _ _ => Iff.rfl) (fun _ _ _ _ _ => trivial)
    trivial).symm

/-- What `f` gives for the actions of a run, each in the state it starts from. -/
def gathered {α : Type*} (step : S → L → S) (f : S → L → Set α) (s : S) (l : List L) : Set α :=
  {x | ∃ l₁ a l₂, l = l₁ ++ a :: l₂ ∧ x ∈ f (run step s l₁) a}

/-- Each action of a run adds to what is gathered. -/
theorem meets_gathered {α : Type*} {f : S → L → Set α} {s : S} {l : List L} :
    Meets step (fun s' a => f s' a ⊆ gathered step f s l) s l :=
  meets_iff_forall_split.mpr (fun l₁ a l₂ heq _ hx => ⟨l₁, a, l₂, heq, hx⟩)

/-- A property of runs that one more action keeps exactly when it satisfies `ok` after the
actions before it holds of the runs whose actions all satisfy `ok`. -/
theorem iff_forall_split {P : List L → Prop} {ok : List L → L → Prop} (hnil : P [])
    (hconcat : ∀ l a, P (l ++ [a]) ↔ P l ∧ ok l a) (l : List L) :
    P l ↔ ∀ l₁ a l₂, l = l₁ ++ a :: l₂ → ok l₁ a := by
  induction l using List.reverseRecOn with
  | nil =>
    refine iff_of_true hnil (fun l₁ a l₂ h => ?_)
    cases l₁ <;> cases h
  | append_singleton l b ih =>
    rw [hconcat, ih]
    constructor
    · rintro ⟨hl, hb⟩ l₁ a l₂ heq
      cases l₂ using List.reverseRecOn with
      | nil =>
        obtain ⟨rfl, hab⟩ := List.append_inj' heq rfl
        exact (List.cons.inj hab).1 ▸ hb
      | append_singleton l₂ c =>
        rw [← List.cons_append, ← List.append_assoc] at heq
        exact hl l₁ a l₂ (List.append_inj' heq rfl).1
    · intro h
      refine ⟨fun l₁ a l₂ heq => h l₁ a (l₂ ++ [b]) ?_, h l b [] rfl⟩
      rw [heq, List.append_assoc, List.cons_append]

/-- A property that an action keeps exactly when it satisfies `ok` holds in every state of
a run exactly when each action satisfies `ok`. -/
theorem always_iff_meets {P : S → Prop} (hstep : ∀ s a, P s → (P (step s a) ↔ ok s a)) {s : S}
    (hs : P s) (l : List L) :
    (∀ l₁ l₂, l = l₁ ++ l₂ → P (run step s l₁)) ↔ Meets step ok s l := by
  induction l generalizing s with
  | nil =>
    refine ⟨fun _ => trivial, fun _ l₁ l₂ h => ?_⟩
    rw [(List.append_eq_nil_iff.mp h.symm).1]
    exact hs
  | cons a l ih =>
    constructor
    · intro h
      have ha : P (step s a) := h [a] l rfl
      refine ⟨(hstep s a hs).mp ha, (ih ha).mp (fun l₁ l₂ hl => ?_)⟩
      exact h (a :: l₁) l₂ (by rw [hl, List.cons_append])
    · rintro ⟨ha, hl⟩ l₁ l₂ heq
      cases l₁ with
      | nil => exact hs
      | cons b l₁ =>
        rw [List.cons_append, List.cons.injEq] at heq
        obtain ⟨rfl, heq⟩ := heq
        exact (ih ((hstep s a hs).mpr ha)).mpr hl l₁ l₂ heq

/-- The same where the step is understood only in states that also satisfy `Q`, which every
action keeps as long as `P` holds. -/
theorem always_iff_meets_of_keeps {P Q : S → Prop} (hQ : ∀ s a, P s → Q s → Q (step s a))
    (hstep : ∀ s a, P s → Q s → (P (step s a) ↔ ok s a)) {s : S} (hP : P s) (hs : Q s)
    (l : List L) : (∀ l₁ l₂, l = l₁ ++ l₂ → P (run step s l₁)) ↔ Meets step ok s l := by
  have hboth : ∀ s a, P s ∧ Q s → ((P (step s a) ∧ Q (step s a)) ↔ ok s a) := fun s a h =>
    ⟨fun h' => (hstep s a h.1 h.2).mp h'.1, fun h' => ⟨(hstep s a h.1 h.2).mpr h', hQ s a h.1 h.2⟩⟩
  rw [← always_iff_meets (P := fun s => P s ∧ Q s) hboth ⟨hP, hs⟩ l]
  constructor
  · intro h l₁
    induction l₁ using List.reverseRecOn with
    | nil => exact fun _ _ => ⟨hP, hs⟩
    | append_singleton l₁ a ih =>
      intro l₂ heq
      have hbefore := ih (a :: l₂) (by rw [heq, List.append_assoc, List.singleton_append])
      refine ⟨h (l₁ ++ [a]) l₂ heq, ?_⟩
      rw [run_append, run_cons, run_nil]
      exact hQ _ a hbefore.1 hbefore.2
  · exact fun h l₁ l₂ heq => (h l₁ l₂ heq).1

/-- The states of a run grow along a preorder exactly when each action satisfies `ok`, if a
step grows exactly under `ok`. -/
theorem grows_iff_meets {R : S → S → Prop} (hrefl : ∀ s, R s s)
    (htrans : ∀ s₁ s₂ s₃, R s₁ s₂ → R s₂ s₃ → R s₁ s₃) (hstep : ∀ s a, R s (step s a) ↔ ok s a)
    (s : S) (l : List L) :
    (∀ l₁ l₂ l₃, l = l₁ ++ (l₂ ++ l₃) → R (run step s l₁) (run step s (l₁ ++ l₂))) ↔
      Meets step ok s l := by
  induction l generalizing s with
  | nil =>
    refine ⟨fun _ => trivial, fun _ l₁ l₂ l₃ h => ?_⟩
    obtain ⟨h₁, h⟩ := List.append_eq_nil_iff.mp h.symm
    obtain ⟨h₂, _⟩ := List.append_eq_nil_iff.mp h
    rw [h₁, h₂]
    exact hrefl s
  | cons a l ih =>
    constructor
    · intro h
      refine ⟨(hstep s a).mp (h [] [a] l rfl), (ih (step s a)).mp (fun l₁ l₂ l₃ hl => ?_)⟩
      exact h (a :: l₁) l₂ l₃ (by rw [hl, List.cons_append])
    · rintro ⟨ha, hl⟩ l₁ l₂ l₃ heq
      have hgrow := (ih (step s a)).mpr hl
      cases l₁ with
      | nil =>
        cases l₂ with
        | nil => exact hrefl s
        | cons b l₂ =>
          rw [List.nil_append, List.cons_append, List.cons.injEq] at heq
          obtain ⟨rfl, heq⟩ := heq
          exact htrans _ _ _ ((hstep s a).mpr ha) (hgrow [] l₂ l₃ heq)
      | cons b l₁ =>
        rw [List.cons_append, List.cons.injEq] at heq
        obtain ⟨rfl, heq⟩ := heq
        exact hgrow l₁ l₂ l₃ heq

end GuardedRun
