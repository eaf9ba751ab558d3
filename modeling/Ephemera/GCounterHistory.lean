/-
# What a replicated `GCounter` counts

Every actor has a replica and increments its own slot only.  A merge keeps the larger
count of each slot; since the increments of one actor are performed one after the other,
the larger count is the one whose history holds more of them, and the count of an actor
is at every replica the sum of exactly the increments in the replica's history, as far as
`u64` reaches.
-/
import Mathlib.Algebra.Order.BigOperators.Group.Finset
import Ephemera.GCounter
import Ephemera.Replication

namespace GCounterHistory

open GuardedRun Replication

variable {A : Type*} [LinearOrder A]

/-- `GCounter` as a replicated data type: an update increments the slot of the replica that
performs it. -/
def gcounter : DataType A ℕ (GCounter A) where
  apply actor amount c := c.increment actor amount
  merge := GCounter.merge

/-- The sum of the amounts by which `x` has incremented, over a history. -/
def incrementsBy (h : List (Event A ℕ)) (x : A) : ℕ :=
  ∑ e ∈ h.toFinset with e.replica = x, e.op

/-- A copy counts what its history holds. -/
def Exact (s : Copy A ℕ (GCounter A)) : Prop :=
  ∀ x, s.state.actorValue x = min (incrementsBy s.history x) u64Max

/-- An increment that is not in a history adds its amount to the sum of its actor. -/
theorem incrementsBy_cons {h : List (Event A ℕ)} {e : Event A ℕ} (he : e ∉ h) (x : A) :
    incrementsBy (e :: h) x
      = if e.replica = x then incrementsBy h x + e.op else incrementsBy h x := by
  rw [incrementsBy, List.toFinset_cons, Finset.filter_insert]
  split_ifs with hx
  · rw [Finset.sum_insert (by simp [he]), Nat.add_comm]
    rfl
  · rfl

/-- A history that holds all increments of `x` which a second one holds is not changed for `x`
by the second one. -/
theorem incrementsBy_append {h h' : List (Event A ℕ)} {x : A}
    (hsub : ∀ e ∈ h', e.replica = x → e ∈ h) : incrementsBy (h ++ h') x = incrementsBy h x := by
  rw [incrementsBy, incrementsBy]
  congr 1
  ext e
  simp only [Finset.mem_filter, List.mem_toFinset, List.mem_append]
  constructor
  · rintro ⟨he | he, hx⟩
    · exact ⟨he, hx⟩
    · exact ⟨hsub e he hx, hx⟩
  · rintro ⟨he, hx⟩
    exact ⟨Or.inl he, hx⟩

/-- The order of two histories does not matter for what they hold together. -/
theorem incrementsBy_append_comm (h h' : List (Event A ℕ)) (x : A) :
    incrementsBy (h ++ h') x = incrementsBy (h' ++ h) x := by
  rw [incrementsBy, incrementsBy, List.toFinset_append, List.toFinset_append, Finset.union_comm]

/-- A history that holds more increments of `x` has the larger sum. -/
theorem incrementsBy_mono {h h' : List (Event A ℕ)} {x : A}
    (hsub : ∀ e ∈ h, e.replica = x → e ∈ h') : incrementsBy h x ≤ incrementsBy h' x := by
  refine Finset.sum_le_sum_of_subset (fun e he => ?_)
  rw [Finset.mem_filter, List.mem_toFinset] at he ⊢
  exact ⟨hsub e he.1 he.2, he.2⟩

/-! ## One step -/

/-- Incrementing keeps the count exact, at and above saturation. -/
theorem Exact.increment {s : Copy A ℕ (GCounter A)} (hs : Exact s) {e : Event A ℕ}
    (he : e ∉ s.history) : Exact (s.update gcounter e) := by
  intro x
  have hstate : (s.update gcounter e).state.actorValue x
      = if e.replica = x then saturatingAdd (s.state.actorValue e.replica) e.op
        else s.state.actorValue x := GCounter.actorValue_increment s.state e.replica e.op x
  have hhist : incrementsBy (s.update gcounter e).history x
      = if e.replica = x then incrementsBy s.history x + e.op else incrementsBy s.history x :=
    incrementsBy_cons he x
  rw [hstate, hhist]
  split_ifs with hx
  · rw [hx, hs x, saturatingAdd]
    omega
  · exact hs x

/-- Merging keeps the count exact if of each actor's increments one side holds all that the
other holds. -/
theorem Exact.merge {s t : Copy A ℕ (GCounter A)} (hs : Exact s) (ht : Exact t)
    (htotal : ∀ x, (∀ e ∈ s.history, e.replica = x → e ∈ t.history)
      ∨ ∀ e ∈ t.history, e.replica = x → e ∈ s.history) : Exact (s.merge gcounter t) := by
  intro x
  have hstate : (s.merge gcounter t).state.actorValue x
      = max (s.state.actorValue x) (t.state.actorValue x) :=
    GCounter.actorValue_merge s.state t.state x
  have hhist : (s.merge gcounter t).history = s.history ++ t.history := rfl
  rw [hstate, hhist, hs x, ht x]
  rcases htotal x with hsub | hsub
  · have hle := incrementsBy_mono hsub
    rw [incrementsBy_append_comm, incrementsBy_append hsub]
    omega
  · have hle := incrementsBy_mono hsub
    rw [incrementsBy_append hsub]
    omega

/-! ## Whole runs -/

/-- Every replica starts with the empty counter. -/
def start : System A ℕ (GCounter A) := System.start (fun _ => ⟨GCounter.new, []⟩)

/-- **Nothing lost, nothing counted twice.**  After any run the count of `x` at any replica is
the saturating sum of the increments by `x` in the replica's causal history. -/
theorem actorValue_eq_incrementsBy (l : List (Act A ℕ)) (r x : A) :
    let s := (run (step gcounter) start l).replica r
    s.state.actorValue x = min (incrementsBy s.history x) u64Max := by
  have hexact : Exact ((run (step gcounter) start l).replica r) := by
    refine holds_run (fun c a (hc : Sound c) => hc.step a) (fun c a n hc hs => ?_)
      (fun c s t hc hsc htc hs ht => hs.merge ht (hc.total hsc htc)) (sound_start fun _ => rfl)
      (fun a x => ?_) l (Or.inl ⟨r, rfl⟩)
    · refine hs.increment (fun hmem => ?_)
      exact Nat.lt_irrefl _ (hc.bound _ (hc.issued _ (Or.inl ⟨a, rfl⟩) _ hmem))
    · rfl
  exact hexact x

end GCounterHistory
