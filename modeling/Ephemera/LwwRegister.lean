/-
# The last-writer-wins register (`ephemera-crdt/src/lwwregister.rs`)

A write or a merged state replaces the value only with a strictly larger timestamp, so
between equal timestamps a replica keeps what it has.  The replicas of a register
therefore agree on what the same writes lead to exactly when no two of the writes carry
one timestamp and different values (`converges_iff_oneValuePerTimestamp`).
-/
import Mathlib.Data.Finset.Basic
import Mathlib.Order.Basic
import Ephemera.MergeOrder
import Ephemera.Replication

/-- `HlcTimestamp`: seconds in the upper 48 bits, a counter in the lower 16. -/
@[ext]
structure HlcTimestamp where
  raw : UInt64
  deriving DecidableEq, Repr

namespace HlcTimestamp

/-- The derived `Ord`: timestamps compare by their packed value. -/
instance : LinearOrder HlcTimestamp :=
  LinearOrder.lift' (fun t => t.raw.toNat) (fun _ _ h => HlcTimestamp.ext (UInt64.toNat_inj.mp h))

/-- `HlcTimestamp::new`. -/
def new (wallSecs : UInt64) (counter : UInt16) : HlcTimestamp :=
  ⟨(wallSecs <<< 16) ||| counter.toUInt64⟩

end HlcTimestamp

/-- `LwwRegister`. -/
structure LwwRegister (V : Type*) where
  value : V
  timestamp : HlcTimestamp
  deriving DecidableEq

namespace LwwRegister

variable {V : Type*}

/-- `LwwRegister::new`. -/
def new (value : V) (timestamp : HlcTimestamp) : LwwRegister V := ⟨value, timestamp⟩

/-- `LwwRegister::set`: replace the value if the timestamp is strictly greater; tells whether
it did. -/
def set (r : LwwRegister V) (value : V) (timestamp : HlcTimestamp) : LwwRegister V × Bool :=
  if timestamp > r.timestamp then (⟨value, timestamp⟩, true) else (r, false)

/-- `LwwRegister::merge`: between equal timestamps `self` stays. -/
def merge (r other : LwwRegister V) : LwwRegister V :=
  if other.timestamp > r.timestamp then ⟨other.value, other.timestamp⟩ else r

/-- A `set` is a merge of the register that the write makes. -/
theorem set_fst (r : LwwRegister V) (v : V) (t : HlcTimestamp) :
    (r.set v t).1 = r.merge (new v t) := by
  rw [set, merge, new]
  split_ifs <;> rfl

/-- A newer register replaces the old one. -/
theorem merge_of_lt {r s : LwwRegister V} (h : r.timestamp < s.timestamp) : r.merge s = s := by
  rw [merge, if_pos h]

/-- Any other one is ignored. -/
theorem merge_of_le {r s : LwwRegister V} (h : s.timestamp ≤ r.timestamp) : r.merge s = r := by
  rw [merge, if_neg (not_lt.mpr h)]

/-- **Commutativity, exactly**: two registers merge to the same in both orders exactly when
equal timestamps carry equal values. -/
theorem merge_comm_iff (r s : LwwRegister V) :
    r.merge s = s.merge r ↔ (r.timestamp = s.timestamp → r.value = s.value) := by
  rcases lt_trichotomy r.timestamp s.timestamp with h | h | h
  · rw [merge_of_lt h, merge_of_le h.le]
    exact iff_of_true rfl (fun he => absurd he h.ne)
  · rw [merge_of_le h.ge, merge_of_le h.le]
    constructor
    · intro heq _
      rw [heq]
    · intro hv
      cases r
      cases s
      obtain rfl := hv h
      obtain rfl := h
      rfl
  · rw [merge_of_le h.le, merge_of_lt h]
    exact iff_of_true rfl (fun he => absurd he.symm h.ne)

/-- Associativity needs no condition: the first of the newest registers wins. -/
theorem merge_assoc (r s t : LwwRegister V) : (r.merge s).merge t = r.merge (s.merge t) := by
  rcases lt_or_ge r.timestamp s.timestamp with hrs | hsr
  · rcases lt_or_ge s.timestamp t.timestamp with hst | hts
    · rw [merge_of_lt hrs, merge_of_lt hst, merge_of_lt (hrs.trans hst)]
    · rw [merge_of_lt hrs, merge_of_le hts, merge_of_lt hrs]
  · rcases lt_or_ge s.timestamp t.timestamp with hst | hts
    · rw [merge_of_le hsr, merge_of_lt hst]
    · rw [merge_of_le hsr, merge_of_le hts, merge_of_le hsr, merge_of_le (hts.trans hsr)]

/-- Idempotence needs no condition. -/
theorem merge_self (r : LwwRegister V) : r.merge r = r := by
  rw [merge, if_neg (lt_irrefl _)]

/-! ## Replicas -/

open GuardedRun Replication

/-- `LwwRegister` as a replicated data type: an update sets the value and timestamp of a
register made by the writer. -/
def lwwRegister {R : Type*} : DataType R (LwwRegister V) (LwwRegister V) where
  apply _ w r := (r.set w.value w.timestamp).1
  merge := LwwRegister.merge

/-- The writes of a history. -/
def writes {R : Type*} (h : List (Event R (LwwRegister V))) (w : LwwRegister V) : Prop :=
  ∃ e ∈ h, e.op = w

/-- Every replica starts with the register that its first write makes. -/
def start {R : Type*} (first : R → LwwRegister V) :
    System R (LwwRegister V) (LwwRegister V) :=
  System.start (fun r => ⟨new (first r).value (first r).timestamp, [⟨0, r, first r⟩]⟩)

/-- The register is a write of the history, and no write of the history is newer. -/
structure Newest {R : Type*} (h : List (Event R (LwwRegister V))) (r : LwwRegister V) : Prop where
  mem : writes h r
  le : ∀ w, writes h w → w.timestamp ≤ r.timestamp

/-- The newest write of two histories together is the merge of the newest writes of both. -/
theorem Newest.merge {R : Type*} {h h' k : List (Event R (LwwRegister V))} {r s : LwwRegister V}
    (hr : Newest h r) (hs : Newest h' s) (hk : ∀ w, writes k w ↔ writes h w ∨ writes h' w) :
    Newest k (r.merge s) := by
  rcases lt_or_ge r.timestamp s.timestamp with hlt | hle
  · rw [merge_of_lt hlt]
    refine ⟨(hk s).mpr (Or.inr hs.mem), fun w hw => ?_⟩
    rcases (hk w).mp hw with hw | hw
    · exact (hr.le w hw).trans hlt.le
    · exact hs.le w hw
  · rw [merge_of_le hle]
    refine ⟨(hk r).mpr (Or.inl hr.mem), fun w hw => ?_⟩
    rcases (hk w).mp hw with hw | hw
    · exact hr.le w hw
    · exact (hs.le w hw).trans hle

/-- The newest write of a single one. -/
theorem newest_singleton {R : Type*} (e : Event R (LwwRegister V)) : Newest [e] e.op := by
  refine ⟨⟨e, List.mem_singleton.mpr rfl, rfl⟩, ?_⟩
  rintro w ⟨d, hd, rfl⟩
  rw [List.mem_singleton.mp hd]

/-- **The register of every copy is the newest write of its history**, and the histories hold
only what is written, in every run whose writes are in `W`. -/
theorem newest_of_meets {R : Type*} [DecidableEq R] {W : Finset (LwwRegister V)}
    {first : R → LwwRegister V} (hfirst : ∀ r, first r ∈ W) {l : List (Act R (LwwRegister V))}
    (hl : ∀ r w, Act.update r w ∈ l → w ∈ W) {s : Copy R (LwwRegister V) (LwwRegister V)}
    (hs : (run (step lwwRegister) (start first) l).Holds s) :
    Newest s.history s.state ∧ ∀ w, writes s.history w → w ∈ W := by
  have hmeets : Meets (step lwwRegister) (fun _ a => ∀ r w, a = Act.update r w → w ∈ W)
      (start first) l := by
    rw [meets_iff_forall_split]
    rintro l₁ a l₂ rfl r w rfl
    exact hl r w (by simp)
  refine holds_of_meets (J := fun _ => True) (P := fun s => Newest s.history s.state ∧
    ∀ w, writes s.history w → w ∈ W) (fun _ _ _ _ => trivial) (fun c r w _ hw hr => ?_)
    (fun c s t _ _ _ hs ht => ?_) trivial (fun r => ?_) hmeets hs
  · have hset : ((c.replica r).update lwwRegister (c.nextEvent r w)).state
        = (c.replica r).state.merge w := set_fst _ _ _
    have hwrites : ∀ v, writes ((c.replica r).update lwwRegister (c.nextEvent r w)).history v
        ↔ writes (c.replica r).history v ∨ writes [c.nextEvent r w] v := by
      intro v
      simp [writes, Copy.update, or_comm]
    rw [hset]
    refine ⟨hr.1.merge (newest_singleton (c.nextEvent r w)) hwrites, fun v hv => ?_⟩
    rcases (hwrites v).mp hv with hv | ⟨e, he, rfl⟩
    · exact hr.2 v hv
    · rw [List.mem_singleton.mp he]
      exact hw r w rfl
  · have hwrites : ∀ v, writes (s.merge lwwRegister t).history v
        ↔ writes s.history v ∨ writes t.history v := by
      intro v
      simp only [writes, Copy.merge, List.mem_append, or_and_right, exists_or]
    refine ⟨hs.1.merge ht.1 hwrites, fun v hv => ?_⟩
    rcases (hwrites v).mp hv with hv | hv
    · exact hs.2 v hv
    · exact ht.2 v hv
  · refine ⟨newest_singleton ⟨0, r, first r⟩, ?_⟩
    rintro w ⟨e, he, rfl⟩
    rw [List.mem_singleton.mp he]
    exact hfirst r

/-! ## Convergence -/

/-- No two of the writes carry one timestamp and different values. -/
def OneValuePerTimestamp (W : Finset (LwwRegister V)) : Prop :=
  ∀ a ∈ W, ∀ b ∈ W, a.timestamp = b.timestamp → a.value = b.value

/-- In every system whose replicas write only what is in `W`, two replicas with the same writes
in their histories read the same value, after every run. -/
def Converges (W : Finset (LwwRegister V)) : Prop :=
  ∀ (R : Type) [DecidableEq R] (first : R → LwwRegister V) (l : List (Act R (LwwRegister V))),
    (∀ r, first r ∈ W) → (∀ r w, Act.update r w ∈ l → w ∈ W) →
    ∀ r s, (∀ w, writes ((run (step lwwRegister) (start first) l).replica r).history w
        ↔ writes ((run (step lwwRegister) (start first) l).replica s).history w) →
      ((run (step lwwRegister) (start first) l).replica r).state.value
        = ((run (step lwwRegister) (start first) l).replica s).state.value

/-- Two newest writes of the same writes carry the same timestamp. -/
theorem Newest.timestamp_eq {R : Type*} {h k : List (Event R (LwwRegister V))}
    {r s : LwwRegister V} (hr : Newest h r) (hs : Newest k s) (hk : ∀ w, writes h w ↔ writes k w) :
    r.timestamp = s.timestamp :=
  le_antisymm (hs.le r ((hk r).mp hr.mem)) (hr.le s ((hk s).mpr hs.mem))

/-- Without ties between different values the replicas converge. -/
theorem OneValuePerTimestamp.converges {W : Finset (LwwRegister V)}
    (hW : OneValuePerTimestamp W) : Converges W := by
  intro R _ first l hfirst hl r s hsame
  obtain ⟨hr, hrW⟩ := newest_of_meets hfirst hl (Or.inl ⟨r, rfl⟩)
  obtain ⟨hs, hsW⟩ := newest_of_meets hfirst hl (Or.inl ⟨s, rfl⟩)
  exact hW _ (hrW _ hr.mem) _ (hsW _ hs.mem) (hr.timestamp_eq hs hsame)

/-- Two replicas exchange their first registers: each sends its own and merges the other's. -/
def exchange : List (Act Bool (LwwRegister V)) :=
  [.send true, .send false, .receive true 1, .receive false 0]

/-- After the exchange both histories hold both writes. -/
theorem writes_exchange (first : Bool → LwwRegister V) (b : Bool) (w : LwwRegister V) :
    writes ((run (step lwwRegister) (start first) exchange).replica b).history w
      ↔ w = first true ∨ w = first false := by
  cases b with
  | true => simp [exchange, run, step, start, System.start, Copy.merge, writes, eq_comm]
  | false =>
    simp [exchange, run, step, start, System.start, Copy.merge, writes, eq_comm, or_comm]

/-- After the exchange each replica holds its own register merged with the other's. -/
theorem state_exchange (first : Bool → LwwRegister V) (b : Bool) :
    ((run (step lwwRegister) (start first) exchange).replica b).state
      = (first b).merge (first !b) := by
  cases b <;> rfl

/-- **Convergence, exactly.**  The replicas that write what is in `W` converge exactly when no
two of the writes carry one timestamp and different values, and so do the semilattice laws
hold of `merge` on the registers they may hold. -/
theorem converges_iff_oneValuePerTimestamp (W : Finset (LwwRegister V)) :
    (Converges W ↔ OneValuePerTimestamp W)
      ∧ (MergeLaws (· ∈ W) LwwRegister.merge ↔ OneValuePerTimestamp W) := by
  refine ⟨⟨fun h a ha b hb hab => ?_, OneValuePerTimestamp.converges⟩,
    ⟨fun h a ha b hb => (merge_comm_iff a b).mp (h.comm a b ha hb), fun h => ?_⟩⟩
  · have hread := h Bool (fun c => if c then a else b) exchange
      (fun c => by cases c <;> simp [ha, hb]) (fun r w hw => by simp [exchange] at hw) true false
      (fun w => by rw [writes_exchange, writes_exchange])
    rw [state_exchange, state_exchange] at hread
    simpa [merge_of_le hab.ge, merge_of_le hab.le] using hread
  · refine ⟨fun a b ha hb => ?_, fun a b ha hb => (merge_comm_iff a b).mpr (h a ha b hb),
      fun a b c _ _ _ => merge_assoc a b c, fun a _ => merge_self a⟩
    rcases lt_or_ge a.timestamp b.timestamp with hlt | hle
    · rwa [merge_of_lt hlt]
    · rwa [merge_of_le hle]

/-- Two writes of one second with different values: after exchanging their states the two
replicas have the same writes in their histories and read different values, and the two
merges differ. -/
theorem equal_timestamps_diverge :
    let a : LwwRegister String := new "a" (HlcTimestamp.new 100 0)
    let b : LwwRegister String := new "b" (HlcTimestamp.new 100 0)
    ¬ Converges {a, b} ∧ a.merge b ≠ b.merge a := by
  intro a b
  have hne : a.merge b ≠ b.merge a := by decide
  refine ⟨fun h => ?_, hne⟩
  have hread := h Bool (fun c => if c then a else b) exchange
    (fun c => by cases c <;> simp) (fun r w hw => by simp [exchange] at hw) true false
    (fun w => by rw [writes_exchange, writes_exchange])
  exact absurd hread (by decide)

end LwwRegister
