/-
# Computations that fail and keep their writes

A method that takes `&mut self` and returns a `Result` keeps the writes it made before
an error.  `StateExcept ε σ` has exactly that behaviour: running a computation gives its
result together with the state it leaves, also when it fails.  The equations for `exec`
run a `do` block step by step.
-/
import Mathlib.Init

/-- Computations on a state of type `σ` that may fail with an `ε`. -/
abbrev StateExcept (ε σ : Type) := ExceptT ε (StateM σ)

namespace StateExcept

variable {ε σ α β : Type}

/-- Run a computation: its result and the state it leaves. -/
def exec (m : StateExcept ε σ α) (s : σ) : Except ε α × σ := m.run.run s

/-- Running a sequence: the second part runs in the state the first one leaves, unless
that one failed. -/
theorem exec_bind (m : StateExcept ε σ α) (f : α → StateExcept ε σ β) (s : σ) :
    exec (m >>= f) s = match exec m s with
      | (.ok a, s') => exec (f a) s'
      | (.error e, s') => (.error e, s') := by
  show exec (m >>= f) s = match m.run.run s with
    | (.ok a, s') => exec (f a) s'
    | (.error e, s') => (.error e, s')
  simp only [exec, ExceptT.run_bind, StateT.run_bind]
  show (match m.run.run s with | (a, s') => _) = _
  rcases m.run.run s with ⟨_ | a, s'⟩ <;> rfl

@[simp] theorem exec_pure (a : α) (s : σ) : exec (pure a : StateExcept ε σ α) s = (.ok a, s) := rfl

@[simp] theorem exec_throw (e : ε) (s : σ) :
    exec (throw e : StateExcept ε σ α) s = (.error e, s) := rfl

@[simp] theorem exec_get (s : σ) : exec (get : StateExcept ε σ σ) s = (.ok s, s) := rfl

@[simp] theorem exec_modify (f : σ → σ) (s : σ) :
    exec (modify f : StateExcept ε σ PUnit) s = (.ok ⟨⟩, f s) := rfl

@[simp] theorem exec_lift (r : Except ε α) (s : σ) :
    exec (liftM r : StateExcept ε σ α) s = (r, s) := by
  cases r <;> rfl

/-- Renaming the result leaves the same state. -/
theorem exec_bind_pure_snd (m : StateExcept ε σ α) (f : α → β) (s : σ) :
    (exec (m >>= fun a => pure (f a)) s).2 = (exec m s).2 := by
  rw [exec_bind]
  rcases exec m s with ⟨_ | a, s'⟩ <;> rfl

/-- `map_err`: the writes stay, the error is renamed. -/
def mapErr {ε' : Type} (f : ε → ε') (m : StateExcept ε σ α) : StateExcept ε' σ α :=
  ExceptT.mk fun s => ((exec m s).1.mapError f, (exec m s).2)

@[simp] theorem exec_mapErr {ε' : Type} (f : ε → ε') (m : StateExcept ε σ α) (s : σ) :
    exec (mapErr f m) s = ((exec m s).1.mapError f, (exec m s).2) := rfl

/-! ## What a computation leaves alone -/

/-- Every run of the computation, also a failing one, leaves the part `f` of the state as it
was. -/
def Keeps {τ : Type} (f : σ → τ) (m : StateExcept ε σ α) : Prop := ∀ s, f (exec m s).2 = f s

section Keeps

variable {τ : Type} {f : σ → τ}

theorem keeps_bind {m : StateExcept ε σ α} {k : α → StateExcept ε σ β} (hm : Keeps f m)
    (hk : ∀ a, Keeps f (k a)) : Keeps f (m >>= k) := by
  intro s
  have hs := hm s
  rw [exec_bind]
  split
  · rename_i a s' heq
    rw [heq] at hs
    exact (hk a s').trans hs
  · rename_i e s' heq
    rw [heq] at hs
    exact hs

theorem keeps_pure (a : α) : Keeps f (pure a : StateExcept ε σ α) := fun _ => rfl

theorem keeps_throw (e : ε) : Keeps f (throw e : StateExcept ε σ α) := fun _ => rfl

theorem keeps_get : Keeps f (get : StateExcept ε σ σ) := fun _ => rfl

theorem keeps_lift (r : Except ε α) : Keeps f (liftM r : StateExcept ε σ α) := by
  intro s
  rw [exec_lift]

theorem keeps_modify {g : σ → σ} (h : ∀ s, f (g s) = f s) :
    Keeps f (modify g : StateExcept ε σ PUnit) := h

theorem keeps_mapErr {ε' : Type} (g : ε → ε') {m : StateExcept ε σ α} (h : Keeps f m) :
    Keeps f (mapErr g m) := h

end Keeps

/-! ## Pre- and postconditions -/

/-- From a state that satisfies `P`, the computation ends in one that satisfies `Q` with its
result, or fails in one that satisfies `E`. -/
def Triple (P : σ → Prop) (m : StateExcept ε σ α) (Q : α → σ → Prop) (E : σ → Prop) : Prop :=
  ∀ s, P s → (∀ a s', exec m s = (.ok a, s') → Q a s') ∧
    ∀ e s', exec m s = (.error e, s') → E s'

section Triple

variable {P : σ → Prop} {Q : α → σ → Prop} {E : σ → Prop}

theorem triple_bind {R : β → σ → Prop} {m : StateExcept ε σ α} {k : α → StateExcept ε σ β}
    (hm : Triple P m Q E) (hk : ∀ a, Triple (Q a) (k a) R E) : Triple P (m >>= k) R E := by
  intro s hs
  have h := hm s hs
  rw [exec_bind]
  cases hr : exec m s with
  | mk r s' =>
    cases r with
    | error e =>
      refine ⟨fun b s'' heq => (nomatch heq), fun e' s'' heq => ?_⟩
      cases heq
      exact h.2 e s' hr
    | ok a => exact hk a s' (h.1 a s' hr)

/-- What a computation leaves alone still satisfies what it satisfied. -/
theorem triple_of_keeps {τ : Type} {f : σ → τ} {m : StateExcept ε σ α} (h : Keeps f m)
    (R : τ → Prop) :
    Triple (fun s => R (f s)) m (fun _ s => R (f s)) (fun s => R (f s)) := by
  intro s hs
  have hend : R (f (exec m s).2) := by
    rw [h s]
    exact hs
  refine ⟨fun a s' heq => ?_, fun e s' heq => ?_⟩
  · rw [heq] at hend
    exact hend
  · rw [heq] at hend
    exact hend

/-- A triple whose postconditions agree speaks of the state that is left. -/
theorem Triple.exec_snd {m : StateExcept ε σ α} (h : Triple P m (fun _ => E) E) {s : σ}
    (hs : P s) : E (exec m s).2 := by
  obtain ⟨hok, herr⟩ := h s hs
  cases hr : exec m s with
  | mk r s' =>
    cases r with
    | ok a => exact hok a s' hr
    | error e => exact herr e s' hr

theorem triple_pure (a : α) : Triple (Q a) (pure a : StateExcept ε σ α) Q E := by
  intro s hs
  rw [exec_pure]
  refine ⟨fun b s' heq => ?_, fun e s' heq => (nomatch heq)⟩
  cases heq
  exact hs

theorem triple_throw (e : ε) : Triple E (throw e : StateExcept ε σ α) Q E := by
  intro s hs
  rw [exec_throw]
  refine ⟨fun b s' heq => (nomatch heq), fun e' s' heq => ?_⟩
  cases heq
  exact hs

theorem triple_modify {R : σ → Prop} {f : σ → σ} (h : ∀ s, P s → R (f s)) :
    Triple P (modify f : StateExcept ε σ PUnit) (fun _ => R) E := by
  intro s hs
  rw [exec_modify]
  refine ⟨fun b s' heq => ?_, fun e s' heq => (nomatch heq)⟩
  cases heq
  exact h s hs

/-- The rule of consequence. -/
theorem Triple.mono {m : StateExcept ε σ α} {P' : σ → Prop} {Q' : α → σ → Prop}
    (h : Triple P m Q E) (hP : ∀ s, P' s → P s) (hQ : ∀ a s, Q a s → Q' a s) :
    Triple P' m Q' E := by
  intro s hs
  obtain ⟨hok, herr⟩ := h s (hP s hs)
  exact ⟨fun a s' heq => hQ a s' (hok a s' heq), herr⟩

/-- From a state that is known, as it is after a read. -/
theorem Triple.known {m : StateExcept ε σ α} (h : Triple P m Q E) {s : σ} (hs : P s) :
    Triple (fun s' => s' = s) m Q E := by
  refine h.mono (fun s' heq => ?_) (fun _ _ hq => hq)
  rw [heq]
  exact hs

/-- A write to a state that is known. -/
theorem triple_modify_known {R : σ → Prop} {f : σ → σ} {s : σ} (h : R (f s)) :
    Triple (fun s' => s' = s) (modify f : StateExcept ε σ PUnit) (fun _ => R) E :=
  (triple_modify (P := fun s' => R (f s')) (fun _ hs => hs)).known h

/-- What does not touch the state keeps what holds of it, and its result is known. -/
theorem triple_lift_eq (r : Except ε α) (h : ∀ s, P s → E s) :
    Triple P (liftM r : StateExcept ε σ α) (fun a s => r = .ok a ∧ P s) E := by
  intro s hs
  rw [exec_lift]
  refine ⟨fun b s' heq => ?_, fun e s' heq => ?_⟩
  · cases heq
    exact ⟨rfl, hs⟩
  · cases heq
    exact h s hs

theorem triple_lift (r : Except ε α) (h : ∀ s, P s → E s) :
    Triple P (liftM r : StateExcept ε σ α) (fun _ => P) E :=
  (triple_lift_eq r h).mono (fun _ hs => hs) (fun _ _ hq => hq.2)

/-- A read of the state: what follows may depend on it. -/
theorem triple_get {k : σ → StateExcept ε σ α}
    (h : ∀ s, P s → Triple (fun s' => s' = s) (k s) Q E) : Triple P (get >>= k) Q E := by
  intro s hs
  rw [exec_bind, exec_get]
  exact h s hs s rfl

/-- Nothing is asked, nothing is promised. -/
theorem triple_trivial (m : StateExcept ε σ α) :
    Triple (fun _ => True) m (fun _ _ => True) (fun _ => True) :=
  fun _ _ => ⟨fun _ _ _ => trivial, fun _ _ _ => trivial⟩

end Triple

end StateExcept
