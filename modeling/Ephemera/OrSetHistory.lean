/-
# Observed-remove semantics of `OrSet` over whole runs

Any number of replicas add (each under its own actor id), remove and merge any
state some replica has or had.  Next to its `OrSet`, every replica carries its
causal history: the adds and removes it has performed or received, each with the
operations its replica had observed when performing it.  The abstract set is read
off that history: `Present h v` holds when `h` has an add of `v` that no remove of
`v` in `h` had observed.

`merge` unions the live tags and keeps no trace of removed ones, so a tag that one
side has observed and dropped comes back from the other side.  `StaleFree` says
that this does not happen in a merge.  In a run whose merges are all stale free
(and whose adds do not overflow the counter) the set a replica shows is the one its
history describes (`contains_iff_present`); one stale merge is enough to lose that
(`removed_value_resurrected`).
-/
import Ephemera.OrSet
import Ephemera.GuardedRun

namespace OrSetHistory

open GuardedRun

variable {A V : Type}

/-! ## Histories and the abstract set -/

/-- An update: an add together with the tag it returned, or a remove. -/
inductive Op (A V : Type) where
  | add (value : V) (tag : UniqueTag A)
  | remove (value : V)

/-- A performed update: its place in the run, and the places of the updates its
replica had observed when it performed it. -/
structure Event (A V : Type) where
  id : ℕ
  op : Op A V
  past : List ℕ

/-- `d` removes `v` and was performed at a state that had observed `e`. -/
def Removes (d : Event A V) (v : V) (e : Event A V) : Prop :=
  d.op = .remove v ∧ e.id ∈ d.past

/-- The add that put `t` on `v` is in the history, and no remove of `v` in the
history had observed it. -/
def Live (h : List (Event A V)) (v : V) (t : UniqueTag A) : Prop :=
  ∃ e ∈ h, e.op = .add v t ∧ ∀ d ∈ h, ¬ Removes d v e

/-- **The abstract set.**  The history has an add of `v` that is not followed by a
remove of `v` performed at a state that had observed it. -/
def Present (h : List (Event A V)) (v : V) : Prop := ∃ t, Live h v t

/-- The history has an add that returned the tag `t`. -/
def Observed (h : List (Event A V)) (t : UniqueTag A) : Prop :=
  ∃ e ∈ h, ∃ v, e.op = .add v t

/-- The history contains the past of each of its updates. -/
def Closed (h : List (Event A V)) : Prop := ∀ d ∈ h, ∀ i ∈ d.past, ∃ e ∈ h, e.id = i

/-- In the history a number names one update, and so does a tag. -/
structure Coherent (h : List (Event A V)) : Prop where
  unique : ∀ e ∈ h, ∀ e' ∈ h, e.id = e'.id → e = e'
  tag : ∀ e ∈ h, ∀ e' ∈ h, ∀ v w t, e.op = .add v t → e'.op = .add w t → e = e'

/-- Record an update on top of a history, all of which it has observed. -/
def record (h : List (Event A V)) (n : ℕ) (op : Op A V) : List (Event A V) :=
  ⟨n, op, h.map Event.id⟩ :: h

/-- Recording an update keeps a history closed. -/
theorem Closed.record {h : List (Event A V)} (hc : Closed h) (n : ℕ) (op : Op A V) :
    Closed (record h n op) := by
  intro d hd i hi
  rcases List.mem_cons.mp hd with rfl | hd
  · obtain ⟨e, he, rfl⟩ := List.mem_map.mp hi
    exact ⟨e, List.mem_cons_of_mem _ he, rfl⟩
  · obtain ⟨e, he, hei⟩ := hc d hd i hi
    exact ⟨e, List.mem_cons_of_mem _ he, hei⟩

/-- Two closed histories together are closed. -/
theorem Closed.append {h h' : List (Event A V)} (hc : Closed h) (hc' : Closed h') :
    Closed (h ++ h') := by
  intro d hd i hi
  rcases List.mem_append.mp hd with hd | hd
  · obtain ⟨e, he, hei⟩ := hc d hd i hi
    exact ⟨e, List.mem_append_left _ he, hei⟩
  · obtain ⟨e, he, hei⟩ := hc' d hd i hi
    exact ⟨e, List.mem_append_right _ he, hei⟩

/-- A number above all of a closed history is in no past of it. -/
theorem Closed.notMem_past {h : List (Event A V)} (hc : Closed h) {n : ℕ}
    (hn : ∀ e ∈ h, e.id < n) : ∀ d ∈ h, n ∉ d.past := by
  intro d hd hi
  obtain ⟨e, he, hei⟩ := hc d hd n hi
  have := hn e he
  omega

/-- What a fresh add changes in the live tags of a history. -/
theorem live_record_add {h : List (Event A V)} {n : ℕ} {v : V} {t : UniqueTag A}
    (hc : Closed h) (hn : ∀ e ∈ h, e.id < n) (v' : V) (t' : UniqueTag A) :
    Live (record h n (.add v t)) v' t' ↔ (v = v' ∧ t' = t) ∨ Live h v' t' := by
  constructor
  · rintro ⟨e, he, hop, hlive⟩
    rcases List.mem_cons.mp he with rfl | he
    · simp only [Op.add.injEq] at hop
      exact Or.inl ⟨hop.1, hop.2.symm⟩
    · exact Or.inr ⟨e, he, hop, fun d hd => hlive d (List.mem_cons_of_mem _ hd)⟩
  · rintro (⟨rfl, rfl⟩ | ⟨e, he, hop, hlive⟩)
    · refine ⟨_, List.mem_cons_self, rfl, fun d hd hr => ?_⟩
      rcases List.mem_cons.mp hd with rfl | hd
      · simp [Removes] at hr
      · exact hc.notMem_past hn d hd hr.2
    · refine ⟨e, List.mem_cons_of_mem _ he, hop, fun d hd hr => ?_⟩
      rcases List.mem_cons.mp hd with rfl | hd
      · simp [Removes] at hr
      · exact hlive d hd hr

/-- What a remove changes in the live tags of a history: it had observed every add,
so no tag of the removed value stays live. -/
theorem live_record_remove {h : List (Event A V)} {n : ℕ} {v : V} (v' : V)
    (t : UniqueTag A) : Live (record h n (.remove v)) v' t ↔ v ≠ v' ∧ Live h v' t := by
  constructor
  · rintro ⟨e, he, hop, hlive⟩
    rcases List.mem_cons.mp he with rfl | he
    · simp at hop
    · refine ⟨?_, e, he, hop, fun d hd => hlive d (List.mem_cons_of_mem _ hd)⟩
      rintro rfl
      exact hlive _ List.mem_cons_self ⟨rfl, List.mem_map_of_mem he⟩
  · rintro ⟨hne, e, he, hop, hlive⟩
    refine ⟨e, List.mem_cons_of_mem _ he, hop, fun d hd hr => ?_⟩
    rcases List.mem_cons.mp hd with rfl | hd
    · exact hne (Op.remove.inj hr.1)
    · exact hlive d hd hr

/-- Recording an add adds its tag to the observed ones. -/
theorem observed_record_add {h : List (Event A V)} {n : ℕ} {v : V} {t t' : UniqueTag A} :
    Observed (record h n (.add v t)) t' ↔ t' = t ∨ Observed h t' := by
  constructor
  · rintro ⟨e, he, w, hop⟩
    rcases List.mem_cons.mp he with rfl | he
    · exact Or.inl (Op.add.inj hop).2.symm
    · exact Or.inr ⟨e, he, w, hop⟩
  · rintro (rfl | ⟨e, he, w, hop⟩)
    · exact ⟨_, List.mem_cons_self, v, rfl⟩
    · exact ⟨e, List.mem_cons_of_mem _ he, w, hop⟩

/-- Recording a remove observes no new tag. -/
theorem observed_record_remove {h : List (Event A V)} {n : ℕ} {v : V} {t : UniqueTag A} :
    Observed (record h n (.remove v)) t ↔ Observed h t := by
  simp [Observed, record]

/-- The tags observed by two histories together. -/
theorem observed_append {h h' : List (Event A V)} {t : UniqueTag A} :
    Observed (h ++ h') t ↔ Observed h t ∨ Observed h' t := by
  simp only [Observed, List.mem_append, or_and_right, exists_or]

/-! ## The replicated system -/

section System

variable [LinearOrder A] [LinearOrder V]

/-- A replica's set with its causal history. -/
structure Replica (A V : Type) [LinearOrder A] [LinearOrder V] where
  state : OrSet A V
  history : List (Event A V)

/-- All replicas, every state that some replica has had, and the number of updates
performed so far. -/
structure System (A V : Type) [LinearOrder A] [LinearOrder V] where
  replica : A → Replica A V
  snapshots : List (Replica A V)
  next : ℕ

/-- What a replica does: add or remove a value, or merge the `i`-th snapshot. -/
inductive Act (A V : Type) where
  | add (actor : A) (value : V)
  | remove (actor : A) (value : V)
  | merge (actor : A) (i : ℕ)

/-- The replica that has neither performed nor received anything. -/
def Replica.new : Replica A V := ⟨OrSet.new, []⟩

/-- Every replica starts with the empty set. -/
def System.new : System A V := ⟨fun _ => Replica.new, [Replica.new], 0⟩

/-- An add at a replica, under the actor id `actor`, as update number `n`. -/
def Replica.add (r : Replica A V) (n : ℕ) (actor : A) (v : V) : Replica A V :=
  ⟨(r.state.add actor v).1, record r.history n (.add v (r.state.add actor v).2)⟩

/-- A remove at a replica, as update number `n`. -/
def Replica.remove (r : Replica A V) (n : ℕ) (v : V) : Replica A V :=
  ⟨(r.state.remove v).1, record r.history n (.remove v)⟩

/-- A merge of a snapshot into a replica: the sets and the histories. -/
def Replica.merge (r s : Replica A V) : Replica A V :=
  ⟨r.state.merge s.state, r.history ++ s.history⟩

/-- Install a replica's new state and record it as a snapshot. -/
def System.put (c : System A V) (a : A) (r : Replica A V) (next : ℕ) : System A V :=
  ⟨fun b => if b = a then r else c.replica b, c.snapshots ++ [r], next⟩

/-- One action of the system. -/
def step (c : System A V) : Act A V → System A V
  | .add a v => c.put a ((c.replica a).add c.next a v) (c.next + 1)
  | .remove a v => c.put a ((c.replica a).remove c.next v) (c.next + 1)
  | .merge a i =>
      match c.snapshots[i]? with
      | some s => c.put a ((c.replica a).merge s) c.next
      | none => c

/-- A merge of an existing snapshot. -/
theorem step_merge {c : System A V} {i : ℕ} {s : Replica A V} (hi : c.snapshots[i]? = some s)
    (a : A) : step c (.merge a i) = c.put a ((c.replica a).merge s) c.next := by
  simp only [step, hi]

/-! ## The condition on merges -/

/-- Every tag that `b` holds live and `a` does not is one `a` has not observed: its
number is beyond `a`'s counter of its actor. -/
def Covers (a b : OrSet A V) : Prop :=
  ∀ p ∈ b.entries.entries, ∀ t ∈ p.2, t ∉ a.tags p.1 → a.counter t.actor < t.seq

instance (a b : OrSet A V) : Decidable (Covers a b) :=
  inferInstanceAs (Decidable (∀ p ∈ b.entries.entries, ∀ t ∈ p.2, _))

/-- Neither side of a merge holds a tag that the other has observed and dropped. -/
def StaleFree (a b : OrSet A V) : Prop := Covers a b ∧ Covers b a

instance (a b : OrSet A V) : Decidable (StaleFree a b) :=
  inferInstanceAs (Decidable (_ ∧ _))

/-- The condition on one action: an add does not overflow its actor's counter, and
a merge is stale free. -/
def Clean (c : System A V) : Act A V → Prop
  | .add a _ => (c.replica a).state.counter a + 1 < 2 ^ 64
  | .remove _ _ => True
  | .merge a i => ∀ s ∈ c.snapshots[i]?, StaleFree (c.replica a).state s.state

instance (c : System A V) : ∀ act, Decidable (Clean c act)
  | .add _ _ => inferInstanceAs (Decidable (_ < _))
  | .remove _ _ => inferInstanceAs (Decidable True)
  | .merge _ i => inferInstanceAs (Decidable (∀ s ∈ c.snapshots[i]?, _))

/-- A tag held live by the covered side and not by the covering one is beyond the
latter's counter. -/
theorem Covers.lt_seq {a b : OrSet A V} (h : Covers a b) {v : V} {t : UniqueTag A}
    (hb : t ∈ b.tags v) (ha : t ∉ a.tags v) : a.counter t.actor < t.seq := by
  rw [OrSet.tags] at hb
  cases hv : b.entries.get? v with
  | none => simp [hv] at hb
  | some ts =>
    rw [hv, Option.getD_some] at hb
    exact h (v, ts) (SortedMap.mem_of_get? hv) t hb ha

/-! ## The invariant of one replica -/

/-- A replica agrees with its history: its live tags are the live ones of the
history, its counters number the adds of the history, and the history contains
the past of each of its updates. -/
structure Exact (r : Replica A V) : Prop where
  live : ∀ v t, t ∈ r.state.tags v ↔ Live r.history v t
  count : ∀ t, Observed r.history t ↔ 1 ≤ t.seq ∧ t.seq ≤ r.state.counter t.actor
  closed : Closed r.history

/-- The new replica agrees with its empty history. -/
theorem exact_new : Exact (Replica.new : Replica A V) where
  live := by intro v t; simp [Replica.new, Live]
  count := by
    intro t
    simp only [Replica.new, Observed, OrSet.counter_new, List.not_mem_nil, false_and,
      exists_false, false_iff]
    omega
  closed := by simp [Replica.new, Closed]

/-- An add at a replica keeps it exact. -/
theorem Exact.add {r : Replica A V} (hr : Exact r) {n : ℕ} (hn : ∀ e ∈ r.history, e.id < n)
    {a : A} (hc : r.state.counter a + 1 < 2 ^ 64) (v : V) : Exact (r.add n a v) where
  live := by
    intro v' t
    rw [Replica.add, live_record_add hr.closed hn, OrSet.tags_add]
    by_cases hv : v = v'
    · subst hv
      rw [if_pos rfl, Finset.mem_insert, hr.live]
      simp
    · rw [if_neg hv, hr.live]
      simp [hv]
  count := by
    intro t
    have hseq : (r.state.counter a + 1) % 2 ^ 64 = r.state.counter a + 1 := Nat.mod_eq_of_lt hc
    rw [Replica.add, observed_record_add, hr.count, OrSet.counter_add, OrSet.add_snd, hseq]
    obtain ⟨b, m⟩ := t
    by_cases hb : a = b
    · subst hb
      simp only [UniqueTag.mk.injEq, true_and, if_true]
      omega
    · simp only [UniqueTag.mk.injEq, hb, Ne.symm hb, false_and, false_or, if_false]
  closed := hr.closed.record n _

/-- A remove at a replica keeps it exact. -/
theorem Exact.remove {r : Replica A V} (hr : Exact r) (n : ℕ) (v : V) :
    Exact (r.remove n v) where
  live := by
    intro v' t
    rw [Replica.remove, live_record_remove, OrSet.tags_remove]
    by_cases hv : v = v'
    · simp [hv]
    · simp [hv, hr.live]
  count := by
    intro t
    rw [Replica.remove, observed_record_remove, hr.count, OrSet.counter_remove]
  closed := hr.closed.record n _

/-- In a stale-free merge no remove of one side kills a live tag of the other.
The remove had observed the add, so by closure the removing side has observed the
tag; having dropped it, it would have to hold it live. -/
theorem not_removed_of_covers {r s : Replica A V} (hs : Exact s) {h : List (Event A V)}
    (hh : Coherent h) (hrh : ∀ e ∈ r.history, e ∈ h) (hsh : ∀ e ∈ s.history, e ∈ h)
    (hcov : Covers s.state r.state) {v : V} {t : UniqueTag A} {e : Event A V}
    (he : e ∈ r.history) (hop : e.op = .add v t) (ht : t ∈ r.state.tags v) :
    ∀ d ∈ s.history, ¬ Removes d v e := by
  intro d hd hrem
  obtain ⟨e', he', hid⟩ := hs.closed d hd e.id hrem.2
  have hee : e = e' := hh.unique e (hrh e he) e' (hsh e' he') hid.symm
  subst hee
  by_cases hts : t ∈ s.state.tags v
  · -- the tag is live on the removing side: its add, which is `e`, is not removed there
    obtain ⟨f, hf, hfop, hflive⟩ := (hs.live v t).mp hts
    have hef : e = f := hh.tag e (hrh e he) f (hsh f hf) v v t hop hfop
    exact hflive d hd (hef ▸ hrem)
  · -- the tag is dropped there although it was observed
    have hlt := hcov.lt_seq ht hts
    have hobs := ((hs.count t).mp ⟨e, he', v, hop⟩).2
    omega

/-- **A stale-free merge keeps a replica exact.** -/
theorem Exact.merge {r s : Replica A V} (hr : Exact r) (hs : Exact s)
    (hh : Coherent (r.history ++ s.history)) (hfree : StaleFree r.state s.state) :
    Exact (r.merge s) where
  live := by
    intro v t
    have hrh : ∀ e ∈ r.history, e ∈ r.history ++ s.history := fun _ => List.mem_append_left _
    have hsh : ∀ e ∈ s.history, e ∈ r.history ++ s.history := fun _ => List.mem_append_right _
    rw [Replica.merge, OrSet.tags_merge, Finset.mem_union]
    constructor
    · rintro (ht | ht)
      · obtain ⟨e, he, hop, hlive⟩ := (hr.live v t).mp ht
        refine ⟨e, hrh e he, hop, fun d hd => ?_⟩
        rcases List.mem_append.mp hd with hd | hd
        · exact hlive d hd
        · exact not_removed_of_covers hs hh hrh hsh hfree.2 he hop ht d hd
      · obtain ⟨e, he, hop, hlive⟩ := (hs.live v t).mp ht
        refine ⟨e, hsh e he, hop, fun d hd => ?_⟩
        rcases List.mem_append.mp hd with hd | hd
        · exact not_removed_of_covers hr hh hsh hrh hfree.1 he hop ht d hd
        · exact hlive d hd
    · rintro ⟨e, he, hop, hlive⟩
      rcases List.mem_append.mp he with he | he
      · exact Or.inl ((hr.live v t).mpr ⟨e, he, hop, fun d hd => hlive d (hrh d hd)⟩)
      · exact Or.inr ((hs.live v t).mpr ⟨e, he, hop, fun d hd => hlive d (hsh d hd)⟩)
  count := by
    intro t
    rw [Replica.merge, observed_append, hr.count, hs.count, OrSet.counter_merge]
    omega
  closed := hr.closed.append hs.closed

/-- If the live tags of `s` are live in a larger history than that of `r`, then `r`
has dropped none of them: it either holds the tag or has not observed it. -/
theorem covers_of_live {r s : Replica A V} (hr : Exact r) (hs : Exact s)
    {h : List (Event A V)} (hh : Coherent h) (hrh : ∀ e ∈ r.history, e ∈ h)
    (hlive : ∀ v t, t ∈ s.state.tags v → Live h v t) : Covers r.state s.state := by
  rintro ⟨v, ts⟩ hp t ht hnot
  by_contra hle
  have hts : t ∈ s.state.tags v := by
    rw [OrSet.tags, SortedMap.get?_of_mem hp]
    exact ht
  obtain ⟨e, he, hop, hunremoved⟩ := hlive v t hts
  obtain ⟨f, hf, hfop, -⟩ := (hs.live v t).mp hts
  have hseq := ((hs.count t).mp ⟨f, hf, v, hfop⟩).1
  obtain ⟨g, hg, w, hgop⟩ := (hr.count t).mpr ⟨hseq, not_lt.mp hle⟩
  have heg : e = g := hh.tag e he g (hrh g hg) v w t hop hgop
  subst heg
  exact hnot ((hr.live v t).mpr ⟨e, hg, hop, fun d hd => hunremoved d (hrh d hd)⟩)

/-- **The condition on merges is exact**: a merge of two exact states is exact if
and only if it is stale free. -/
theorem exact_merge_iff {r s : Replica A V} (hr : Exact r) (hs : Exact s)
    (hh : Coherent (r.history ++ s.history)) :
    Exact (r.merge s) ↔ StaleFree r.state s.state := by
  refine ⟨fun hm => ⟨?_, ?_⟩, hr.merge hs hh⟩
  · refine covers_of_live hr hs hh (fun _ => List.mem_append_left _) (fun v t ht => ?_)
    exact (hm.live v t).mp (by simp [Replica.merge, ht])
  · refine covers_of_live hs hr hh (fun _ => List.mem_append_right _) (fun v t ht => ?_)
    exact (hm.live v t).mp (by simp [Replica.merge, ht])

/-! ## The invariant of the system -/

/-- The update is in the history of some state that a replica has or had. -/
def Issued (c : System A V) (e : Event A V) : Prop := ∃ r ∈ c.snapshots, e ∈ r.history

/-- Every state is exact, update numbers and tags name one update each, and an
actor's own replica has every add made under its id. -/
structure Sound (c : System A V) : Prop where
  exact : ∀ r ∈ c.snapshots, Exact r
  current : ∀ a, c.replica a ∈ c.snapshots
  below : ∀ e, Issued c e → e.id < c.next
  unique : ∀ e e', Issued c e → Issued c e' → e.id = e'.id → e = e'
  own : ∀ e v t, Issued c e → e.op = .add v t → e ∈ (c.replica t.actor).history
  tag : ∀ e e' v w t, Issued c e → Issued c e' → e.op = .add v t → e'.op = .add w t → e = e'

theorem sound_new : Sound (System.new : System A V) where
  exact := by
    intro r hr
    rw [List.mem_singleton.mp hr]
    exact exact_new
  current := fun _ => List.mem_singleton.mpr rfl
  below := by simp [Issued, System.new, Replica.new]
  unique := by simp [Issued, System.new, Replica.new]
  own := by simp [Issued, System.new, Replica.new]
  tag := by simp [Issued, System.new, Replica.new]

/-- The updates of a replica are issued. -/
theorem Sound.issued {c : System A V} (hc : Sound c) {a : A} {e : Event A V}
    (he : e ∈ (c.replica a).history) : Issued c e := ⟨_, hc.current a, he⟩

/-- Issued updates are coherent, in whatever history they stand. -/
theorem Sound.coherent {c : System A V} (hc : Sound c) {h : List (Event A V)}
    (hh : ∀ e ∈ h, Issued c e) : Coherent h where
  unique := fun e he e' he' => hc.unique e e' (hh e he) (hh e' he')
  tag := fun e he e' he' v w t => hc.tag e e' v w t (hh e he) (hh e' he')

/-- The updates issued after a replica has taken a new state. -/
theorem issued_put {c : System A V} {a : A} {r : Replica A V} {n : ℕ} {e : Event A V} :
    Issued (c.put a r n) e ↔ Issued c e ∨ e ∈ r.history := by
  simp only [Issued, System.put, List.mem_append, List.mem_singleton, or_and_right, exists_or,
    exists_eq_left]

/-- Taking a new state keeps every state exact and every current state a snapshot. -/
theorem Sound.put_states {c : System A V} (hc : Sound c) {a : A} {r : Replica A V} (n : ℕ)
    (hr : Exact r) : (∀ s ∈ (c.put a r n).snapshots, Exact s)
      ∧ ∀ b, (c.put a r n).replica b ∈ (c.put a r n).snapshots := by
  constructor
  · intro s hs
    rcases List.mem_append.mp hs with hs | hs
    · exact hc.exact s hs
    · exact List.mem_singleton.mp hs ▸ hr
  · intro b
    by_cases hb : b = a
    · simp [System.put, hb]
    · simp [System.put, hb, hc.current b]

/-- An update that was in a replica's own history stays there when the history of
the replica that takes a new state only grows. -/
theorem mem_put_replica {c : System A V} {a b : A} {r : Replica A V} {n : ℕ} {e : Event A V}
    (hmono : ∀ e ∈ (c.replica a).history, e ∈ r.history) (he : e ∈ (c.replica b).history) :
    e ∈ ((c.put a r n).replica b).history := by
  by_cases hb : b = a
  · subst hb
    simpa [System.put] using hmono e he
  · simpa [System.put, hb] using he

/-- Performing an update keeps the system sound; an add must have got a tag that no
issued add has. -/
theorem Sound.put_record {c : System A V} (hc : Sound c) {a : A} {s : OrSet A V}
    {op : Op A V} (hr : Exact ⟨s, record (c.replica a).history c.next op⟩)
    (htag : ∀ v t, op = .add v t →
      t.actor = a ∧ ∀ e w, Issued c e → e.op ≠ .add w t) :
    Sound (c.put a ⟨s, record (c.replica a).history c.next op⟩ (c.next + 1)) := by
  have hiss : ∀ e, Issued (c.put a ⟨s, record (c.replica a).history c.next op⟩ (c.next + 1)) e →
      Issued c e ∨ e = ⟨c.next, op, (c.replica a).history.map Event.id⟩ := by
    intro e he
    rcases issued_put.mp he with he | he
    · exact Or.inl he
    · rcases List.mem_cons.mp he with rfl | he
      · exact Or.inr rfl
      · exact Or.inl (hc.issued he)
  refine ⟨(hc.put_states _ hr).1, (hc.put_states _ hr).2, ?_, ?_, ?_, ?_⟩
  · intro e he
    show e.id < c.next + 1
    rcases hiss e he with he | rfl
    · have := hc.below e he
      omega
    · exact Nat.lt_succ_self _
  · intro e e' he he' hid
    rcases hiss e he with he | rfl <;> rcases hiss e' he' with he' | rfl
    · exact hc.unique e e' he he' hid
    · exact absurd hid (ne_of_lt (hc.below e he))
    · exact absurd hid.symm (ne_of_lt (hc.below e' he'))
    · rfl
  · intro e v t he hop
    rcases hiss e he with he | rfl
    · exact mem_put_replica (fun e he => List.mem_cons_of_mem _ he) (hc.own e v t he hop)
    · rw [(htag v t hop).1]
      simp [System.put, record]
  · intro e e' v w t he he' hop hop'
    rcases hiss e he with he | rfl <;> rcases hiss e' he' with he' | rfl
    · exact hc.tag e e' v w t he he' hop hop'
    · exact absurd hop ((htag w t hop').2 e v he)
    · exact absurd hop' ((htag v t hop).2 e' w he')
    · rfl

/-- One clean action keeps the system sound. -/
theorem Sound.step {c : System A V} (hc : Sound c) (act : Act A V) (hok : Clean c act) :
    Sound (step c act) := by
  cases act with
  | add a v =>
    have hr := hc.exact _ (hc.current a)
    have hn : ∀ e ∈ (c.replica a).history, e.id < c.next :=
      fun e he => hc.below e (hc.issued he)
    refine hc.put_record (hr.add hn hok v) ?_
    intro v' t hop
    obtain ⟨-, rfl⟩ := Op.add.inj hop
    refine ⟨rfl, fun e w he hew => ?_⟩
    -- an issued add with this tag is in the actor's own history, hence counted there
    have hown := hc.own e w _ he hew
    have hcount := ((hr.count _).mp ⟨e, hown, w, hew⟩).2
    have hok' : (c.replica a).state.counter a + 1 < 2 ^ 64 := hok
    simp only [OrSet.add_snd, Nat.mod_eq_of_lt hok'] at hcount
    omega
  | remove a v =>
    exact hc.put_record ((hc.exact _ (hc.current a)).remove c.next v)
      (fun v' t hop => by simp at hop)
  | merge a i =>
    cases hi : c.snapshots[i]? with
    | none => simpa only [OrSetHistory.step, hi] using hc
    | some s =>
      rw [step_merge hi]
      have hs : s ∈ c.snapshots := List.mem_of_getElem? hi
      have hfree : StaleFree (c.replica a).state s.state := hok s (by simp [hi])
      have hsub : ∀ e ∈ (c.replica a).history ++ s.history, Issued c e := by
        intro e he
        rcases List.mem_append.mp he with he | he
        · exact hc.issued he
        · exact ⟨s, hs, he⟩
      have hex : Exact ((c.replica a).merge s) :=
        (hc.exact _ (hc.current a)).merge (hc.exact s hs) (hc.coherent hsub) hfree
      have hiss : ∀ e, Issued (c.put a ((c.replica a).merge s) c.next) e → Issued c e := by
        intro e he
        rcases issued_put.mp he with he | he
        · exact he
        · exact hsub e he
      refine ⟨(hc.put_states _ hex).1, (hc.put_states _ hex).2, ?_, ?_, ?_, ?_⟩
      · exact fun e he => hc.below e (hiss e he)
      · exact fun e e' he he' => hc.unique e e' (hiss e he) (hiss e' he')
      · intro e v t he hop
        exact mem_put_replica (fun e he => List.mem_append_left _ he)
          (hc.own e v t (hiss e he) hop)
      · exact fun e e' v w t he he' => hc.tag e e' v w t (hiss e he) (hiss e' he')

/-- Every clean run keeps the system sound. -/
theorem sound_run {acts : List (Act A V)} (h : Meets step Clean System.new acts) :
    Sound (run step System.new acts) :=
  run_invariant (fun _ act hc hok => hc.step act hok) sound_new h

/-! ## Observed-remove semantics -/

/-- An exact replica contains exactly the values its history has present. -/
theorem Exact.contains_iff {r : Replica A V} (hr : Exact r) (v : V) :
    r.state.contains v = true ↔ Present r.history v := by
  rw [OrSet.contains_iff]
  exact exists_congr (fun t => hr.live v t)

/-- **Observed-remove semantics of clean runs.**  After a run whose merges are all
stale free and whose adds do not overflow, `contains v` at a replica holds exactly
when the replica's causal history has an add of `v` that is not followed by a
remove of `v` performed at a state that had observed it.  In particular, when the
run ends with a remove of `v` and a merge of a state whose tags for `v` the
remover had all observed, `v` is absent. -/
theorem contains_iff_present (acts : List (Act A V)) (h : Meets step Clean System.new acts)
    (a : A) (v : V) :
    (((run step System.new acts).replica a).state.contains v = true
        ↔ Present ((run step System.new acts).replica a).history v)
      ∧ ∀ (pre : List (Act A V)) (i : ℕ) (s : Replica A V),
          acts = pre ++ [.remove a v, .merge a i] →
          (run step System.new (pre ++ [.remove a v])).snapshots[i]? = some s →
          (∀ t ∈ s.state.tags v, Observed ((run step System.new pre).replica a).history t) →
          ((run step System.new acts).replica a).state.contains v = false := by
  have hc := sound_run h
  refine ⟨(hc.exact _ (hc.current a)).contains_iff v, ?_⟩
  intro pre i s hacts hi hseen
  have hsplit : acts = (pre ++ [.remove a v]) ++ [.merge a i] := by
    rw [hacts, List.append_assoc]
    rfl
  rw [hsplit, meets_append] at h
  obtain ⟨hpre, hmerge, -⟩ := h
  have hfree := hmerge s (by simp [hi])
  -- the remover has dropped every tag of `v`, so a live one of `s` would be unobserved
  have hrun : run step System.new (pre ++ [.remove a v])
      = step (run step System.new pre) (.remove a v) := by rw [run_append]; rfl
  rw [hrun] at hi hfree
  have hempty : s.state.tags v = ∅ := by
    rw [Finset.eq_empty_iff_forall_notMem]
    intro t ht
    have hlt := hfree.1.lt_seq ht (by simp [step, System.put, Replica.remove])
    rw [meets_append] at hpre
    have hexact := (sound_run hpre.1).exact _ ((sound_run hpre.1).current a)
    have hle := ((hexact.count t).mp (hseen t ht)).2
    simp only [step, System.put, Replica.remove, if_true, OrSet.counter_remove] at hlt
    omega
  rw [hsplit, run_append, hrun, run_cons, run_nil, step_merge hi, ← Bool.not_eq_true,
    OrSet.contains_iff]
  simp [step, System.put, Replica.remove, Replica.merge, hempty]

/-- Two replicas add `7`, the first removes it and then receives the add of the
second: `7` is present at the first, as its history says. -/
theorem contains_iff_present_concurrent_add :
    Meets step Clean (System.new : System ℕ ℕ) [.add 0 7, .add 1 7, .remove 0 7, .merge 0 2]
      ∧ Present ((run step (System.new : System ℕ ℕ)
          [.add 0 7, .add 1 7, .remove 0 7, .merge 0 2]).replica 0).history 7 := by
  have hmeets : Meets step Clean (System.new : System ℕ ℕ)
      [.add 0 7, .add 1 7, .remove 0 7, .merge 0 2] := by decide
  exact ⟨hmeets, (contains_iff_present _ hmeets 0 7).1.mp (by decide)⟩

end System

/-! ## A stale merge resurrects a removed value -/

/-- Replica `0` adds `7`, removes it, and merges its own state from before the
remove. -/
def staleRun : List (Act ℕ ℕ) := [.add 0 7, .remove 0 7, .merge 0 1]

/-- The remove had observed the only add of `7`, yet the replica contains `7`. -/
theorem removed_value_resurrected :
    ¬ ∀ (acts : List (Act ℕ ℕ)) (a v : ℕ),
      ((run step System.new acts).replica a).state.contains v = true
        ↔ Present ((run step System.new acts).replica a).history v := by
  intro h
  have hcontains : ((run step System.new staleRun).replica 0).state.contains 7 = true := by
    decide
  obtain ⟨t, e, he, hop, hlive⟩ := (h staleRun 0 7).mp hcontains
  have hhist : ((run step System.new staleRun).replica 0).history
      = [⟨1, .remove 7, [0]⟩, ⟨0, .add 7 ⟨0, 1⟩, []⟩, ⟨0, .add 7 ⟨0, 1⟩, []⟩] := rfl
  rw [hhist] at he hlive
  have hid : e.id = 0 := by
    rcases List.mem_cons.mp he with rfl | he
    · simp at hop
    · simp only [List.mem_cons, List.not_mem_nil, or_false, or_self] at he
      rw [he]
  exact hlive _ List.mem_cons_self ⟨rfl, by simp [hid]⟩

end OrSetHistory
