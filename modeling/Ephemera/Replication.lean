/-
# Replicas that exchange their states

A state-based replicated data type is given by what an update does to a replica's state
and by the merge of two states.  Any number of replicas perform updates, send out copies
of their state, and merge any copy that has been sent, at any later time and any number
of times.

Next to its state every copy carries its causal history: the updates performed on it or
on a copy merged into it.  Each replica's own updates are performed one after the other,
so of one replica's updates a history holds an initial part (`Sound.closed`), and of two
histories one holds all that the other holds (`Sound.total`).
-/
import Mathlib.Logic.Function.Basic
import Ephemera.GuardedRun

namespace Replication

open GuardedRun

/-- A performed update: its number in the run, the replica that performed it, and what it
was. -/
structure Event (R U : Type*) where
  id : ℕ
  replica : R
  op : U
  deriving DecidableEq

/-- A copy of a replica's state, with its causal history. -/
structure Copy (R U S : Type*) where
  state : S
  history : List (Event R U)

/-- A state-based replicated data type. -/
structure DataType (R U S : Type*) where
  apply : R → U → S → S
  merge : S → S → S

/-- The replicas, the copies sent so far, the oldest first, and the updates performed so far,
the latest first. -/
structure System (R U S : Type*) where
  replica : R → Copy R U S
  sent : List (Copy R U S)
  log : List (Event R U)

/-- What a replica does: perform an update, send its current copy, or merge the `i`-th sent
copy. -/
inductive Act (R U : Type*) where
  | update (r : R) (u : U)
  | send (r : R)
  | receive (r : R) (i : ℕ)

variable {R U S : Type*} (D : DataType R U S)

/-- An update of a copy. -/
def Copy.update (s : Copy R U S) (e : Event R U) : Copy R U S :=
  ⟨D.apply e.replica e.op s.state, e :: s.history⟩

/-- A merge of a second copy into a copy: the states and the histories. -/
def Copy.merge (s t : Copy R U S) : Copy R U S :=
  ⟨D.merge s.state t.state, s.history ++ t.history⟩

/-- Before anything is sent. -/
def System.start (init : R → Copy R U S) : System R U S := ⟨init, [], []⟩

/-- The event of the next update. -/
def System.nextEvent (c : System R U S) (r : R) (u : U) : Event R U := ⟨c.log.length, r, u⟩

/-- One action. -/
def step [DecidableEq R] (c : System R U S) : Act R U → System R U S
  | .update r u =>
    { c with
      replica := Function.update c.replica r ((c.replica r).update D (c.nextEvent r u))
      log := c.nextEvent r u :: c.log }
  | .send r => { c with sent := c.sent ++ [c.replica r] }
  | .receive r i =>
    match c.sent[i]? with
    | some t => { c with replica := Function.update c.replica r ((c.replica r).merge D t) }
    | none => c

/-- The copies around: the replicas' own and those sent. -/
def System.Holds (c : System R U S) (s : Copy R U S) : Prop := (∃ r, c.replica r = s) ∨ s ∈ c.sent

variable {D} [DecidableEq R]

/-- What an action can do to the copies around. -/
theorem holds_step {c : System R U S} {a : Act R U} {s : Copy R U S}
    (h : (step D c a).Holds s) :
    c.Holds s
      ∨ (∃ r u, a = .update r u ∧ s = (c.replica r).update D (c.nextEvent r u))
      ∨ ∃ r t, t ∈ c.sent ∧ (∃ i, a = .receive r i) ∧ s = (c.replica r).merge D t := by
  cases a with
  | update r u =>
    rcases h with ⟨r', rfl⟩ | h
    · by_cases hr : r' = r
      · subst hr
        exact Or.inr (Or.inl ⟨r', u, rfl, by simp [step]⟩)
      · exact Or.inl (Or.inl ⟨r', by simp [step, hr]⟩)
    · exact Or.inl (Or.inr h)
  | send r =>
    rcases h with h | h
    · exact Or.inl (Or.inl h)
    · rcases List.mem_append.mp h with h | h
      · exact Or.inl (Or.inr h)
      · exact Or.inl (Or.inl ⟨r, (List.mem_singleton.mp h).symm⟩)
  | receive r i =>
    rw [step] at h
    cases hi : c.sent[i]? with
    | none =>
      rw [hi] at h
      exact Or.inl h
    | some t =>
      rw [hi] at h
      have ht : t ∈ c.sent := List.mem_of_getElem? hi
      rcases h with ⟨r', rfl⟩ | h
      · by_cases hr : r' = r
        · subst hr
          exact Or.inr (Or.inr ⟨r', t, ht, ⟨i, rfl⟩, by simp⟩)
        · exact Or.inl (Or.inl ⟨r', by simp [hr]⟩)
      · exact Or.inl (Or.inr h)

/-- **The rule for copies.**  What the first copies satisfy, and every update and every merge
that `ok` admits keeps in the systems that `J` describes, all copies of every such run
satisfy. -/
theorem holds_of_meets {J : System R U S → Prop} {P : Copy R U S → Prop}
    {ok : System R U S → Act R U → Prop} (hJ : ∀ c a, J c → ok c a → J (step D c a))
    (hupdate : ∀ c r u, J c → ok c (.update r u) → P (c.replica r) →
      P ((c.replica r).update D (c.nextEvent r u)))
    (hmerge : ∀ c s t, J c → c.Holds s → c.Holds t → P s → P t → P (s.merge D t))
    {init : R → Copy R U S} (hstart : J (System.start init)) (hinit : ∀ r, P (init r))
    {l : List (Act R U)} (hl : Meets (step D) ok (System.start init) l) {s : Copy R U S}
    (hs : (run (step D) (System.start init) l).Holds s) : P s := by
  have hstep : ∀ c a, (J c ∧ ∀ s, c.Holds s → P s) → ok c a →
      J (step D c a) ∧ ∀ s, (step D c a).Holds s → P s := by
    rintro c a ⟨hc, hP⟩ hok
    refine ⟨hJ c a hc hok, fun s hs => ?_⟩
    rcases holds_step hs with hs | ⟨r, u, rfl, rfl⟩ | ⟨r, t, ht, -, rfl⟩
    · exact hP s hs
    · exact hupdate c r u hc hok (hP _ (Or.inl ⟨r, rfl⟩))
    · exact hmerge c _ t hc (Or.inl ⟨r, rfl⟩) (Or.inr ht) (hP _ (Or.inl ⟨r, rfl⟩))
        (hP t (Or.inr ht))
  have hfirst : ∀ s, (System.start init).Holds s → P s := by
    rintro s (⟨r, rfl⟩ | hs)
    · exact hinit r
    · cases hs
  exact (run_invariant hstep ⟨hstart, hfirst⟩ hl).2 s hs

/-- The rule for runs without a condition. -/
theorem holds_run {J : System R U S → Prop} {P : Copy R U S → Prop}
    (hJ : ∀ c a, J c → J (step D c a))
    (hupdate : ∀ c r u, J c → P (c.replica r) → P ((c.replica r).update D (c.nextEvent r u)))
    (hmerge : ∀ c s t, J c → c.Holds s → c.Holds t → P s → P t → P (s.merge D t))
    {init : R → Copy R U S} (hstart : J (System.start init)) (hinit : ∀ r, P (init r))
    (l : List (Act R U)) {s : Copy R U S} (hs : (run (step D) (System.start init) l).Holds s) :
    P s := by
  have hl : Meets (step D) (fun _ _ => True) (System.start init) l :=
    meets_iff_forall_split.mpr (fun _ _ _ _ => trivial)
  exact holds_of_meets (fun c a hc _ => hJ c a hc) (fun c r u hc _ => hupdate c r u hc) hmerge
    hstart hinit hl hs

/-! ## Causal histories -/

/-- The histories of a system whose replicas start with empty ones: the numbers of the
performed updates are distinct, a replica's own history holds all its updates, and every
history holds, with an update, the earlier ones of the same replica. -/
structure Sound (c : System R U S) : Prop where
  bound : ∀ e ∈ c.log, e.id < c.log.length
  unique : ∀ e ∈ c.log, ∀ d ∈ c.log, e.id = d.id → e = d
  issued : ∀ s, c.Holds s → ∀ e ∈ s.history, e ∈ c.log
  own : ∀ e ∈ c.log, e ∈ (c.replica e.replica).history
  closed : ∀ s, c.Holds s → ∀ e ∈ s.history, ∀ d ∈ c.log, d.replica = e.replica → d.id ≤ e.id →
    d ∈ s.history

omit [DecidableEq R] in
/-- Empty histories are sound. -/
theorem sound_start {init : R → Copy R U S} (h : ∀ r, (init r).history = []) :
    Sound (System.start init) := by
  have hempty : ∀ s, (System.start init).Holds s → s.history = [] := by
    rintro s (⟨r, rfl⟩ | hs)
    · exact h r
    · cases hs
  refine ⟨?_, ?_, fun s hs e he => ?_, ?_, fun s hs e he => ?_⟩
  · rintro e ⟨⟩
  · rintro e ⟨⟩
  · rw [hempty s hs] at he
    cases he
  · rintro e ⟨⟩
  · rw [hempty s hs] at he
    cases he

omit [DecidableEq R] in
/-- Of one replica's updates, one of two histories holds all that the other holds. -/
theorem Sound.total {c : System R U S} (hc : Sound c) {s t : Copy R U S} (hs : c.Holds s)
    (ht : c.Holds t) (r : R) :
    (∀ e ∈ s.history, e.replica = r → e ∈ t.history)
      ∨ ∀ e ∈ t.history, e.replica = r → e ∈ s.history := by
  by_cases h : ∀ e ∈ s.history, e.replica = r → e ∈ t.history
  · exact Or.inl h
  · push Not at h
    obtain ⟨e, he, her, het⟩ := h
    refine Or.inr (fun d hd hdr => ?_)
    have hlt : d.id ≤ e.id := by
      by_contra hlt
      exact het (hc.closed t ht d hd e (hc.issued s hs e he) (her.trans hdr.symm) (by omega))
    exact hc.closed s hs e he d (hc.issued t ht d hd) (hdr.trans her.symm) hlt

/-- Performing the next update keeps the histories sound. -/
theorem Sound.update {c : System R U S} (hc : Sound c) (r : R) (u : U) :
    Sound (step D c (.update r u)) := by
  have hfresh : ∀ e ∈ c.log, e.id ≠ (c.nextEvent r u).id := fun e he =>
    Nat.ne_of_lt (hc.bound e he)
  have hcases : ∀ s, (step D c (.update r u)).Holds s →
      c.Holds s ∨ s = (c.replica r).update D (c.nextEvent r u) := by
    intro s hs
    rcases holds_step hs with hs | ⟨r', u', heq, rfl⟩ | ⟨r', t, -, ⟨i, heq⟩, -⟩
    · exact Or.inl hs
    · obtain ⟨rfl, rfl⟩ := Act.update.inj heq
      exact Or.inr rfl
    · cases heq
  refine ⟨fun e he => ?_, fun e he d hd hed => ?_, fun s hs e he => ?_, fun e he => ?_,
    fun s hs e he d hd hr hid => ?_⟩
  · rw [show (step D c (.update r u)).log = c.nextEvent r u :: c.log from rfl,
      List.length_cons]
    rcases List.mem_cons.mp he with rfl | he
    · exact Nat.lt_succ_self _
    · exact Nat.lt_succ_of_lt (hc.bound e he)
  · rcases List.mem_cons.mp he with rfl | he
    · rcases List.mem_cons.mp hd with rfl | hd
      · rfl
      · exact absurd hed.symm (hfresh d hd)
    · rcases List.mem_cons.mp hd with rfl | hd
      · exact absurd hed (hfresh e he)
      · exact hc.unique e he d hd hed
  · rcases hcases s hs with hs | rfl
    · exact List.mem_cons_of_mem _ (hc.issued s hs e he)
    · rcases List.mem_cons.mp he with rfl | he
      · exact List.mem_cons_self
      · exact List.mem_cons_of_mem _ (hc.issued _ (Or.inl ⟨r, rfl⟩) e he)
  · by_cases hr : e.replica = r
    · have hrep : (step D c (.update r u)).replica e.replica
          = (c.replica r).update D (c.nextEvent r u) := by simp [step, hr]
      rw [hrep]
      rcases List.mem_cons.mp he with rfl | he
      · exact List.mem_cons_self
      · exact List.mem_cons_of_mem _ (hr ▸ hc.own e he)
    · have hrep : (step D c (.update r u)).replica e.replica = c.replica e.replica := by
        simp [step, hr]
      rw [hrep]
      rcases List.mem_cons.mp he with rfl | he
      · exact absurd rfl hr
      · exact hc.own e he
  · rcases hcases s hs with hs | rfl
    · rcases List.mem_cons.mp hd with rfl | hd
      · -- an old history holds nothing as late as the new update
        have hlt := hc.bound e (hc.issued s hs e he)
        exact absurd hid (Nat.not_le_of_lt hlt)
      · exact hc.closed s hs e he d hd hr hid
    · rcases List.mem_cons.mp hd with rfl | hd
      · exact List.mem_cons_self
      · refine List.mem_cons_of_mem _ ?_
        rcases List.mem_cons.mp he with rfl | he
        · -- the new update follows all the earlier ones of its replica
          have hdr : d.replica = r := hr
          exact hdr ▸ hc.own d hd
        · exact hc.closed _ (Or.inl ⟨r, rfl⟩) e he d hd hr hid

/-- Every action keeps the histories sound. -/
theorem Sound.step {c : System R U S} (hc : Sound c) (a : Act R U) : Sound (step D c a) := by
  cases a with
  | update r u => exact hc.update r u
  | send r =>
    have hcases : ∀ s, (Replication.step D c (.send r)).Holds s → c.Holds s := by
      intro s hs
      rcases holds_step hs with hs | ⟨r', u', heq, -⟩ | ⟨r', t, -, ⟨i, heq⟩, -⟩
      · exact hs
      · cases heq
      · cases heq
    exact ⟨hc.bound, hc.unique, fun s hs => hc.issued s (hcases s hs), hc.own,
      fun s hs => hc.closed s (hcases s hs)⟩
  | receive r i =>
    have hlog : (Replication.step D c (.receive r i)).log = c.log := by
      rw [Replication.step]
      cases c.sent[i]? <;> rfl
    have hcases : ∀ s, (Replication.step D c (.receive r i)).Holds s →
        c.Holds s ∨ ∃ t, c.Holds t ∧ s = (c.replica r).merge D t := by
      intro s hs
      rcases holds_step hs with hs | ⟨r', u', heq, -⟩ | ⟨r', t, ht, ⟨i', heq⟩, rfl⟩
      · exact Or.inl hs
      · cases heq
      · obtain ⟨rfl, rfl⟩ := Act.receive.inj heq
        exact Or.inr ⟨t, Or.inr ht, rfl⟩
    have hr : c.Holds (c.replica r) := Or.inl ⟨r, rfl⟩
    refine ⟨by rw [hlog]; exact hc.bound, by rw [hlog]; exact hc.unique, fun s hs e he => ?_,
      fun e he => ?_, fun s hs e he d hd hrep hid => ?_⟩
    · rw [hlog]
      rcases hcases s hs with hs | ⟨t, ht, rfl⟩
      · exact hc.issued s hs e he
      · rcases List.mem_append.mp he with he | he
        · exact hc.issued _ hr e he
        · exact hc.issued t ht e he
    · rw [hlog] at he
      rw [Replication.step]
      cases c.sent[i]? with
      | none => exact hc.own e he
      | some t =>
        by_cases heq : e.replica = r
        · simp only [heq, Function.update_self]
          exact List.mem_append_left _ (heq ▸ hc.own e he)
        · simp only [Function.update_of_ne heq]
          exact hc.own e he
    · rw [hlog] at hd
      rcases hcases s hs with hs | ⟨t, ht, rfl⟩
      · exact hc.closed s hs e he d hd hrep hid
      · rcases List.mem_append.mp he with he | he
        · exact List.mem_append_left _ (hc.closed _ hr e he d hd hrep hid)
        · exact List.mem_append_right _ (hc.closed t ht e he d hd hrep hid)

end Replication
