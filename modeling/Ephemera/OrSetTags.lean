/-
# The tags of `OrSet`

`add` numbers the tags of an actor by the counter that its own replica holds.  Merges carry
copies of that counter to the other replicas and back, by the maximum, so while the counter
counts the adds of the actor no copy is ahead of it (`Numbered`): a tag is new, and its number
is at most the counter of every state it is in.

`*seq += 1` is a plain `u64` increment and wraps in a release build.  The add number `2 ^ 64` of
an actor gets the number `0`, below the tags of the actor that its replica still holds, and the
add after it a number that was given out before.  `tagged_iff_unexhausted` says of every run
that these are the only two ways in which a tag fails to be unique or the counter to bound it.
-/
import Ephemera.OrSetHistory

/-! ## A counter that bounds the tags -/

namespace OrSet

variable {A V : Type*} [LinearOrder A] [LinearOrder V] {s other : OrSet A V}

/-- Each tag of the state is at most the counter of its actor. -/
def Bounds (s : OrSet A V) : Prop := ∀ v, ∀ t ∈ s.tags v, t.seq ≤ s.counter t.actor

theorem bounds_new : (new : OrSet A V).Bounds := by
  intro v t ht
  exact absurd ht (Finset.notMem_empty t)

theorem Bounds.remove (hs : s.Bounds) (v : V) : (s.remove v).1.Bounds := by
  intro v' t ht
  rw [tags_remove] at ht
  split_ifs at ht
  · exact absurd ht (Finset.notMem_empty t)
  · exact hs v' t ht

/-- A merge takes both sides' tags, and the larger counter. -/
theorem Bounds.merge (hs : s.Bounds) (hother : other.Bounds) : (s.merge other).Bounds := by
  intro v t ht
  rw [tags_merge, Finset.mem_union] at ht
  rw [counter_merge]
  rcases ht with ht | ht
  · exact (hs v t ht).trans (le_max_left _ _)
  · exact (hother v t ht).trans (le_max_right _ _)

theorem mem_tags_add_iff {a : A} {v v' : V} {t : UniqueTag A} :
    t ∈ (s.add a v).1.tags v' ↔ v = v' ∧ t = (s.add a v).2 ∨ t ∈ s.tags v' := by
  rw [tags_add]
  by_cases hv : v = v'
  · subst hv
    rw [if_pos rfl, Finset.mem_insert]
    simp only [true_and]
  · rw [if_neg hv]
    simp only [hv, false_and, false_or]

/-- **An add keeps the bound** exactly if the counter does not wrap, or no tag of the actor is
left that the wrapped counter would have to bound. -/
theorem bounds_add_iff (hs : s.Bounds) {a : A} (ha : s.counter a < 2 ^ 64) (v : V) :
    (s.add a v).1.Bounds ↔
      s.counter a + 1 < 2 ^ 64 ∨ ∀ v', ∀ t ∈ s.tags v', t.actor = a → t.seq = 0 := by
  constructor
  · intro h
    by_cases hlt : s.counter a + 1 < 2 ^ 64
    · exact Or.inl hlt
    · refine Or.inr (fun v' t ht hta => ?_)
      have hle := h v' t (mem_tags_add_iff.mpr (Or.inr ht))
      have hzero : (s.counter a + 1) % 2 ^ 64 = 0 := by omega
      rw [hta, counter_add, if_pos rfl, hzero] at hle
      exact Nat.le_zero.mp hle
  · intro h v' t ht
    rcases mem_tags_add_iff.mp ht with ⟨-, rfl⟩ | ht
    · rw [add_snd, counter_add, if_pos rfl]
    · have hle := hs v' t ht
      rw [counter_add]
      by_cases hta : a = t.actor
      · rw [← hta] at hle
        rw [if_pos hta]
        rcases h with h | h
        · rw [Nat.mod_eq_of_lt h]
          exact hle.trans (Nat.le_succ _)
        · rw [h v' t ht hta.symm]
          exact Nat.zero_le _
      · rwa [if_neg hta]

end OrSet

namespace OrSetHistory

open GuardedRun

variable {A V : Type} [LinearOrder A] [LinearOrder V]

/-! ## What the adds return -/

/-- The tag that an action returns, if it is an add. -/
def returnedTag (c : System A V) : Act A V → List (UniqueTag A)
  | .add a v => [((c.replica a).state.add a v).2]
  | .remove _ _ => []
  | .merge _ _ => []

/-- The tags that the adds of a run return, in their order. -/
def returned (c : System A V) : List (Act A V) → List (UniqueTag A)
  | [] => []
  | act :: acts => returnedTag c act ++ returned (step c act) acts

/-- No two adds of the run return one tag, and each tag in a state that some replica has or had
is at most the counter of its actor there. -/
structure Tagged (acts : List (Act A V)) : Prop where
  unique : (returned System.new acts).Nodup
  bounded : ∀ r ∈ (run step System.new acts).snapshots, r.state.Bounds

/-- The action is an add by the actor. -/
def Act.isAddBy (a : A) : Act A V → Bool
  | .add b _ => b = a
  | .remove _ _ => false
  | .merge _ _ => false

/-- How often the actor adds. -/
def adds (a : A) (acts : List (Act A V)) : ℕ := acts.countP (Act.isAddBy a)

/-- An add, after the actions `before`, is not beyond number `2 ^ 64` of its actor, and when it
has that number the actor's replica holds no tag of the actor. -/
def Unexhausted (before : List (Act A V)) : Act A V → Prop
  | .add a _ => adds a before + 1 < 2 ^ 64 ∨
      adds a before + 1 = 2 ^ 64 ∧
        ∀ v, ∀ t ∈ ((run step System.new before).replica a).state.tags v, t.actor ≠ a
  | .remove _ _ => True
  | .merge _ _ => True

/-! ## The counter counts the adds -/

/-- One more action: what it returns comes behind what the run has returned. -/
theorem returned_concat (c : System A V) (acts : List (Act A V)) (act : Act A V) :
    returned c (acts ++ [act]) = returned c acts ++ returnedTag (run step c acts) act := by
  induction acts generalizing c with
  | nil => rw [List.nil_append, returned, returned, returned, List.append_nil, List.nil_append,
      run_nil]
  | cons b acts ih => rw [List.cons_append, returned, ih, returned, run_cons, List.append_assoc]

theorem run_concat (c : System A V) (acts : List (Act A V)) (act : Act A V) :
    run step c (acts ++ [act]) = step (run step c acts) act := by
  rw [run_append, run_cons, run_nil]

theorem mem_snapshots_put {c : System A V} {a : A} {r r' : Replica A V} {next : ℕ} :
    r' ∈ (c.put a r next).snapshots ↔ r' ∈ c.snapshots ∨ r' = r := by
  rw [System.put, List.mem_append, List.mem_singleton]

theorem replica_put_self (c : System A V) (a : A) (r : Replica A V) (next : ℕ) :
    (c.put a r next).replica a = r :=
  if_pos rfl

theorem replica_put_of_ne (c : System A V) {a b : A} (hb : b ≠ a) (r : Replica A V) (next : ℕ) :
    (c.put a r next).replica b = c.replica b :=
  if_neg hb

/-- The number is one of the first `n` of an actor. -/
def GivenOut (n m : ℕ) : Prop := ∃ k, 1 ≤ k ∧ k ≤ n ∧ m = k % 2 ^ 64

theorem givenOut_succ_iff {n m : ℕ} : GivenOut (n + 1) m ↔ GivenOut n m ∨ m = (n + 1) % 2 ^ 64 := by
  constructor
  · rintro ⟨k, hk, hkn, hm⟩
    rcases Nat.lt_or_eq_of_le hkn with hlt | rfl
    · exact Or.inl ⟨k, hk, Nat.le_of_lt_succ hlt, hm⟩
    · exact Or.inr hm
  · rintro (⟨k, hk, hkn, hm⟩ | hm)
    · exact ⟨k, hk, hkn.trans (Nat.le_succ n), hm⟩
    · exact ⟨n + 1, Nat.le_add_left 1 n, le_rfl, hm⟩

/-- After `2 ^ 64` adds every number has been given out. -/
theorem givenOut_iff_lt {n m : ℕ} (hn : 2 ^ 64 ≤ n) : GivenOut n m ↔ m < 2 ^ 64 := by
  constructor
  · rintro ⟨k, -, -, rfl⟩
    exact Nat.mod_lt _ (by decide)
  · intro hm
    by_cases hzero : m = 0
    · exact ⟨2 ^ 64, by decide, hn, by rw [hzero, Nat.mod_self]⟩
    · exact ⟨m, Nat.one_le_iff_ne_zero.mpr hzero, hm.le.trans hn, (Nat.mod_eq_of_lt hm).symm⟩

/-- Before, the next number is new. -/
theorem not_givenOut {n : ℕ} (hn : n < 2 ^ 64) : ¬GivenOut n ((n + 1) % 2 ^ 64) := by
  rintro ⟨k, hk, hkn, hm⟩
  omega

theorem GivenOut.ne_zero {n m : ℕ} (h : GivenOut n m) (hn : n < 2 ^ 64) : m ≠ 0 := by
  obtain ⟨k, hk, hkn, rfl⟩ := h
  rw [Nat.mod_eq_of_lt (hkn.trans_lt hn)]
  exact Nat.one_le_iff_ne_zero.mp hk

/-- The state after `n b` adds of each actor `b`, which have returned the tags `out`.  Until its
number of adds exceeds `u64`, an actor's own counter is that number, and no state has a larger
one; the tags are numbered through, modulo `2 ^ 64`. -/
structure Numbered (c : System A V) (n : A → ℕ) (out : List (UniqueTag A)) : Prop where
  current : ∀ b, c.replica b ∈ c.snapshots
  own : ∀ b, n b < 2 ^ 64 → (c.replica b).state.counter b = n b
  le : ∀ b, n b < 2 ^ 64 → ∀ r ∈ c.snapshots, r.state.counter b ≤ n b
  mem_iff : ∀ b m, ⟨b, m⟩ ∈ out ↔ GivenOut (n b) m
  live : ∀ r ∈ c.snapshots, ∀ v, ∀ t ∈ r.state.tags v, t ∈ out

variable {c : System A V} {n : A → ℕ} {out : List (UniqueTag A)}

theorem numbered_new : Numbered (System.new : System A V) (fun _ => 0) [] where
  current _ := List.mem_singleton_self _
  own _ _ := rfl
  le _ _ r hr := by
    rw [List.mem_singleton.mp hr]
    exact le_rfl
  mem_iff b m := by
    refine iff_of_false List.not_mem_nil ?_
    rintro ⟨k, hk, hk', -⟩
    exact absurd (hk.trans hk') (Nat.not_succ_le_zero 0)
  live r hr v t ht := by
    rw [List.mem_singleton.mp hr] at ht
    exact absurd ht (Finset.notMem_empty t)

/-- A replica takes a new state, which may be that after an add of its actor. -/
theorem Numbered.put (h : Numbered c n out) {a : A} {r : Replica A V} (next : ℕ) {n' : A → ℕ}
    {out' : List (UniqueTag A)} (hn : ∀ b, n b ≤ n' b) (hother : ∀ b, b ≠ a → n' b = n b)
    (hown : n' a < 2 ^ 64 → r.state.counter a = n' a)
    (hle : ∀ b, n' b < 2 ^ 64 → r.state.counter b ≤ n' b) (hsub : out ⊆ out')
    (hmem : ∀ b m, ⟨b, m⟩ ∈ out' ↔ GivenOut (n' b) m)
    (hlive : ∀ v, ∀ t ∈ r.state.tags v, t ∈ out') : Numbered (c.put a r next) n' out' where
  current b := by
    rw [mem_snapshots_put]
    by_cases hb : b = a
    · rw [hb, replica_put_self]
      exact Or.inr rfl
    · rw [replica_put_of_ne c hb]
      exact Or.inl (h.current b)
  own b hb := by
    by_cases hba : b = a
    · subst hba
      rw [replica_put_self]
      exact hown hb
    · rw [replica_put_of_ne c hba, hother b hba]
      exact h.own b ((hn b).trans_lt hb)
  le b hb r' hr' := by
    rcases mem_snapshots_put.mp hr' with hr' | rfl
    · exact (h.le b ((hn b).trans_lt hb) r' hr').trans (hn b)
    · exact hle b hb
  mem_iff := hmem
  live r' hr' v t ht := by
    rcases mem_snapshots_put.mp hr' with hr' | rfl
    · exact hsub (h.live r' hr' v t ht)
    · exact hlive v t ht

/-- The number of adds after one more action. -/
def addsAfter (n : A → ℕ) (act : Act A V) (b : A) : ℕ := if act.isAddBy b then n b + 1 else n b

/-- The next tag of an actor has the next number. -/
theorem Numbered.add_snd (h : Numbered c n out) {a : A} (ha : n a < 2 ^ 64) (v : V) :
    ((c.replica a).state.add a v).2 = ⟨a, (n a + 1) % 2 ^ 64⟩ := by
  rw [OrSet.add_snd, h.own a ha]

/-- What the next add gives out, also when the numbers are used up. -/
theorem Numbered.givenOut_add_iff (h : Numbered c n out) (a : A) (m : ℕ) :
    GivenOut (n a) m ∨ m = ((c.replica a).state.counter a + 1) % 2 ^ 64 ↔
      GivenOut (n a + 1) m := by
  by_cases ha : n a < 2 ^ 64
  · rw [h.own a ha, givenOut_succ_iff]
  · have hle : 2 ^ 64 ≤ n a := Nat.le_of_not_lt ha
    rw [givenOut_iff_lt hle, givenOut_iff_lt (hle.trans (Nat.le_succ _))]
    exact or_iff_left_of_imp (fun hm => hm ▸ Nat.mod_lt _ (by decide))

theorem Numbered.add (h : Numbered c n out) (a : A) (v : V) :
    Numbered (step c (.add a v)) (addsAfter n (.add a v : Act A V))
      (out ++ [((c.replica a).state.add a v).2]) := by
  have hself : addsAfter n (.add a v : Act A V) a = n a + 1 := if_pos (decide_eq_true rfl)
  have hother (b : A) (hb : b ≠ a) : addsAfter n (.add a v : Act A V) b = n b :=
    if_neg (by simpa [Act.isAddBy] using Ne.symm hb)
  refine h.put (c.next + 1) ?_ hother ?_ ?_ (List.subset_append_left _ _) ?_ ?_
  · intro b
    by_cases hb : b = a
    · rw [hb, hself]
      exact Nat.le_succ _
    · rw [hother b hb]
  · intro ha
    rw [hself] at ha ⊢
    rw [Replica.add, OrSet.counter_add, if_pos rfl, h.own a (by omega), Nat.mod_eq_of_lt ha]
  · intro b hb
    rw [Replica.add, OrSet.counter_add]
    by_cases hba : b = a
    · subst hba
      rw [hself] at hb ⊢
      rw [if_pos rfl, h.own b (by omega), Nat.mod_eq_of_lt hb]
    · rw [hother b hba] at hb ⊢
      rw [if_neg (Ne.symm hba)]
      exact h.le b hb _ (h.current a)
  · intro b m
    rw [List.mem_append, List.mem_singleton, h.mem_iff]
    by_cases hba : b = a
    · subst hba
      rw [hself, OrSet.add_snd, UniqueTag.mk.injEq]
      simp only [true_and]
      exact h.givenOut_add_iff b m
    · rw [hother b hba]
      refine or_iff_left (fun heq => hba ?_)
      rw [OrSet.add_snd] at heq
      exact (UniqueTag.mk.inj heq).1
  · intro v' t ht
    rw [List.mem_append, List.mem_singleton]
    rcases OrSet.mem_tags_add_iff.mp ht with ⟨-, ht⟩ | ht
    · exact Or.inr ht
    · exact Or.inl (h.live _ (h.current a) v' t ht)

theorem Numbered.step (h : Numbered c n out) (act : Act A V) :
    Numbered (step c act) (addsAfter n act) (out ++ returnedTag c act) := by
  cases act with
  | add a v => exact h.add a v
  | remove a v =>
    rw [returnedTag, List.append_nil]
    refine h.put (c.next + 1) (fun b => le_rfl) (fun b _ => rfl) (h.own a) ?_ (List.Subset.refl _)
      h.mem_iff ?_
    · exact fun b hb => h.le b hb (c.replica a) (h.current a)
    · intro v' t ht
      rw [Replica.remove, OrSet.tags_remove] at ht
      split_ifs at ht
      · exact absurd ht (Finset.notMem_empty t)
      · exact h.live _ (h.current a) v' t ht
  | merge a i =>
    rw [returnedTag, List.append_nil]
    cases hi : c.snapshots[i]? with
    | none =>
      have hsame : OrSetHistory.step c (.merge a i) = c := by rw [OrSetHistory.step, hi]
      rw [hsame]
      exact h
    | some s =>
      have hs : s ∈ c.snapshots := List.mem_of_getElem? hi
      rw [step_merge hi]
      refine h.put c.next (fun b => le_rfl) (fun b _ => rfl) ?_ ?_ (List.Subset.refl _)
        h.mem_iff ?_
      · -- the copy of the own counter in the snapshot is not ahead of it
        intro ha
        rw [Replica.merge, OrSet.counter_merge, h.own a ha]
        exact max_eq_left (h.le a ha s hs)
      · intro b hb
        rw [Replica.merge, OrSet.counter_merge]
        exact max_le (h.le b hb _ (h.current a)) (h.le b hb s hs)
      · intro v t ht
        rw [Replica.merge, OrSet.tags_merge, Finset.mem_union] at ht
        exact ht.elim (h.live _ (h.current a) v t) (h.live s hs v t)

omit [LinearOrder V] in
theorem adds_concat (acts : List (Act A V)) (act : Act A V) :
    (fun b => adds b (acts ++ [act])) = addsAfter (fun b => adds b acts) act := by
  funext b
  rw [adds, List.countP_append, List.countP_singleton, addsAfter, adds]
  split <;> rfl

/-- **The counter counts the adds**, in every run. -/
theorem numbered_run (acts : List (Act A V)) :
    Numbered (run step System.new acts) (fun b => adds b acts) (returned System.new acts) := by
  induction acts using List.reverseRecOn with
  | nil => exact numbered_new
  | append_singleton acts act ih =>
    rw [run_concat, adds_concat, returned_concat]
    exact ih.step act

/-! ## Unique tags -/

theorem tagged_nil : Tagged ([] : List (Act A V)) where
  unique := List.nodup_nil
  bounded r hr := by
    rw [List.mem_singleton.mp hr]
    exact OrSet.bounds_new

theorem tagged_concat {acts : List (Act A V)} {act : Act A V} :
    Tagged (acts ++ [act]) ↔
      (returned System.new acts ++ returnedTag (run step System.new acts) act).Nodup ∧
        ∀ r ∈ (step (run step System.new acts) act).snapshots, r.state.Bounds := by
  rw [← returned_concat, ← run_concat]
  exact ⟨fun h => ⟨h.unique, h.bounded⟩, fun h => ⟨h.1, h.2⟩⟩

theorem forall_bounds_put_iff {a : A} {r : Replica A V} {next : ℕ} :
    (∀ r' ∈ (c.put a r next).snapshots, r'.state.Bounds) ↔
      (∀ r' ∈ c.snapshots, r'.state.Bounds) ∧ r.state.Bounds := by
  simp only [mem_snapshots_put, or_imp, forall_and, forall_eq]

theorem forall_bounds_step_remove (hc : ∀ b, c.replica b ∈ c.snapshots) (a : A) (v : V) :
    (∀ r ∈ (step c (.remove a v)).snapshots, r.state.Bounds) ↔
      ∀ r ∈ c.snapshots, r.state.Bounds := by
  rw [step, forall_bounds_put_iff]
  exact and_iff_left_of_imp (fun h => (h _ (hc a)).remove v)

theorem forall_bounds_step_merge (hc : ∀ b, c.replica b ∈ c.snapshots) (a : A) (i : ℕ) :
    (∀ r ∈ (step c (.merge a i)).snapshots, r.state.Bounds) ↔
      ∀ r ∈ c.snapshots, r.state.Bounds := by
  cases hi : c.snapshots[i]? with
  | none =>
    have hsame : step c (.merge a i) = c := by rw [step, hi]
    rw [hsame]
  | some s =>
    rw [step_merge hi, forall_bounds_put_iff]
    exact and_iff_left_of_imp (fun h => (h _ (hc a)).merge (h s (List.mem_of_getElem? hi)))

/-- Before the number of an actor's adds exceeds `u64`, its next add keeps the bounds exactly if
the counter does not wrap or the replica holds no tag of the actor. -/
theorem Numbered.forall_bounds_step_add (h : Numbered c n out) {a : A} (ha : n a < 2 ^ 64)
    (hbounds : ∀ r ∈ c.snapshots, r.state.Bounds) (v : V) :
    (∀ r ∈ (OrSetHistory.step c (.add a v)).snapshots, r.state.Bounds) ↔
      n a + 1 < 2 ^ 64 ∨ ∀ v', ∀ t ∈ (c.replica a).state.tags v', t.actor ≠ a := by
  have hcounter := h.own a ha
  rw [OrSetHistory.step, forall_bounds_put_iff, and_iff_right hbounds, Replica.add,
    OrSet.bounds_add_iff (hbounds _ (h.current a)) (by omega), hcounter]
  -- a tag of the actor was returned, so its number is not the one the counter wraps to
  have hne (v' : V) (t : UniqueTag A) (ht : t ∈ (c.replica a).state.tags v') (hta : t.actor = a) :
      t.seq ≠ 0 := by
    subst hta
    exact ((h.mem_iff _ _).mp (h.live _ (h.current _) v' t ht)).ne_zero ha
  refine or_congr Iff.rfl ⟨fun hzero v' t ht hta => ?_, fun hnone v' t ht hta => ?_⟩
  · exact hne v' t ht hta (hzero v' t ht hta)
  · exact absurd hta (hnone v' t ht)

/-- The tag of the next add is new exactly until each number has been given out. -/
theorem Numbered.notMem_iff (h : Numbered c n out) (a : A) (v : V) :
    ((c.replica a).state.add a v).2 ∉ out ↔ n a < 2 ^ 64 := by
  constructor
  · intro hnew
    by_contra hn
    refine hnew ((h.mem_iff a _).mpr ((givenOut_iff_lt (Nat.le_of_not_lt hn)).mpr ?_))
    exact Nat.mod_lt _ (by decide)
  · intro hn
    rw [h.add_snd hn, h.mem_iff]
    exact not_givenOut hn

/-- **One more action keeps a run tagged** exactly if it is not an add beyond the numbers. -/
theorem tagged_concat_iff (acts : List (Act A V)) (act : Act A V) :
    Tagged (acts ++ [act]) ↔ Tagged acts ∧ Unexhausted acts act := by
  have h := numbered_run acts
  rw [tagged_concat]
  cases act with
  | add a v =>
    rw [returnedTag, List.nodup_append_comm, List.singleton_append, List.nodup_cons, h.notMem_iff,
      Unexhausted]
    constructor
    · rintro ⟨⟨hlt, hnodup⟩, hbounds⟩
      have hbefore : ∀ r ∈ (run step System.new acts).snapshots, r.state.Bounds :=
        fun r hr => hbounds r (List.mem_append_left _ hr)
      refine ⟨⟨hnodup, hbefore⟩, ?_⟩
      rcases (h.forall_bounds_step_add hlt hbefore v).mp hbounds with hfits | hnone
      · exact Or.inl hfits
      · by_cases hfits : adds a acts + 1 < 2 ^ 64
        · exact Or.inl hfits
        · exact Or.inr ⟨by omega, hnone⟩
    · rintro ⟨⟨hnodup, hbefore⟩, hfits⟩
      have hlt : adds a acts < 2 ^ 64 := by omega
      refine ⟨⟨hlt, hnodup⟩, (h.forall_bounds_step_add hlt hbefore v).mpr ?_⟩
      exact hfits.imp_right And.right
  | remove a v =>
    rw [returnedTag, List.append_nil, forall_bounds_step_remove h.current]
    exact ⟨fun h => ⟨⟨h.1, h.2⟩, trivial⟩, fun h => ⟨h.1.unique, h.1.bounded⟩⟩
  | merge a i =>
    rw [returnedTag, List.append_nil, forall_bounds_step_merge h.current]
    exact ⟨fun h => ⟨⟨h.1, h.2⟩, trivial⟩, fun h => ⟨h.1.unique, h.1.bounded⟩⟩

/-- **Tags are unique, and the counters bound them, exactly in the runs without an add beyond
the numbers**: each actor adds at most `2 ^ 64` times, and its replica holds none of its tags
when it does so for the last time. -/
theorem tagged_iff_unexhausted (acts : List (Act A V)) :
    Tagged acts ↔
      ∀ before act after, acts = before ++ act :: after → Unexhausted before act :=
  iff_forall_split tagged_nil tagged_concat_iff acts

/-! ## A counter that wraps -/

/-- Two adds in a row: the replica still holds the tag of the first at the second. -/
theorem not_unexhausted {acts : List (Act A V)} {a : A} (hadds : adds a acts + 2 = 2 ^ 64) (v : V) :
    ¬Unexhausted (acts ++ [.add a v]) (.add a v) := by
  have hafter : adds a (acts ++ [.add a v]) = adds a acts + 1 :=
    (congrFun (adds_concat acts (.add a v)) a).trans (if_pos (decide_eq_true rfl))
  rintro (hlt | ⟨-, hnone⟩)
  · omega
  · refine hnone v ((run step System.new acts).replica a |>.state.add a v).2 ?_ rfl
    rw [run_concat, step, replica_put_self]
    exact OrSet.mem_tags_add_iff.mpr (Or.inl ⟨rfl, rfl⟩)

/-- One replica that adds `7` and removes it, `n` times. -/
def addSevens (n : ℕ) : List (Act ℕ ℕ) := (List.replicate n [.add 0 7, .remove 0 7]).flatten

theorem adds_addSevens (n : ℕ) : adds 0 (addSevens n) = n := by
  induction n with
  | zero => rfl
  | succ n ih =>
    rw [adds] at ih ⊢
    rw [addSevens, List.replicate_succ, List.flatten_cons, List.countP_append, ← addSevens, ih,
      Nat.add_comm]
    rfl

/-- With the last of `2 ^ 64` adds the counter is back at `0`, below the one tag of `7` that the
replica still holds. -/
theorem not_tagged_addSevens : ¬Tagged (addSevens (2 ^ 64 - 2) ++ [.add 0 7, .add 0 7]) := by
  obtain ⟨n, hn⟩ : ∃ n, n + 2 = 2 ^ 64 := ⟨2 ^ 64 - 2, Nat.sub_add_cancel (by decide)⟩
  have hsplit : addSevens n ++ [.add 0 7, .add 0 7] =
      (addSevens n ++ [.add 0 7]) ++ [.add 0 7] := by
    rw [List.append_assoc]
    rfl
  rw [← hn, Nat.add_sub_cancel, hsplit, tagged_concat_iff]
  rintro ⟨-, hunexhausted⟩
  exact not_unexhausted (by rw [adds_addSevens, hn]) 7 hunexhausted

end OrSetHistory
