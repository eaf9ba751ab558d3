/-
# How long the DHT storage keeps a record

A record is kept until its timestamp plus its TTL.  `put` bounds the TTL, but the timestamp is
the publisher's, and the sum is taken in `u64` as it comes.  `get`, `all_records` and
`sweep_expired` compare the sum with the clock, each in its own words.

The three agree in every state (`Readable`).  `bounded_iff_meets` is the exact condition on a
run under which no sum overflows and no record outlives its put by more than the longest TTL.
-/
import Ephemera.Dht
import Ephemera.GuardedRun

namespace DhtStorage

variable {W : Wire}

/-! ## The rest of `DhtStorage` -/

/-- `DhtStorage::new`. -/
def new (maxRecords maxRecordSize : ℕ) : DhtStorage W := ⟨.empty, maxRecords, maxRecordSize⟩

/-- `DhtStorage::all_records`. -/
def allRecords (dht : DhtStorage W) (now : UInt64) : List (DhtRecord W) :=
  (dht.records.selectWhere (fun _ stored => decide (now ≤ stored.expiresAt))).map
    (fun r => r.2.record)

/-! ## The three comparisons -/

/-- A record can be read at a time: `get` returns it, `all_records` lists it, and it would
survive `sweep_expired`.  All three say the same. -/
structure Readable (dht : DhtStorage W) : Prop where
  listed : ∀ key now record,
    dht.get key now = some record ↔ record ∈ dht.allRecords now ∧ record.key = key
  survives : ∀ key now record,
    dht.get key now = some record ↔
      ∃ stored, (dht.sweepExpired now).records.get? key = some stored ∧ stored.record = record

variable {dht : DhtStorage W}

theorem get_eq_some_iff {key : W.Digest} {now : UInt64} {record : DhtRecord W} :
    dht.get key now = some record ↔
      ∃ stored, dht.records.get? key = some stored ∧ now ≤ stored.expiresAt ∧
        stored.record = record := by
  unfold get
  cases dht.records.get? key with
  | none => simp
  | some stored =>
    simp only [Option.some.injEq, exists_eq_left']
    by_cases h : stored.expiresAt < now
    · rw [if_pos h]
      exact iff_of_false (by simp) (fun h' => UInt64.not_lt.mpr h'.1 h)
    · rw [if_neg h, Option.some.injEq]
      exact ⟨fun h' => ⟨UInt64.not_lt.mp h, h'⟩, fun h' => h'.2⟩

theorem mem_allRecords_iff {now : UInt64} {record : DhtRecord W} :
    record ∈ dht.allRecords now ↔
      ∃ key stored, dht.records.get? key = some stored ∧ now ≤ stored.expiresAt ∧
        stored.record = record := by
  rw [allRecords, List.mem_map]
  constructor
  · rintro ⟨⟨key, stored⟩, hmem, rfl⟩
    obtain ⟨hrow, hlive⟩ := List.mem_filter.mp hmem
    exact ⟨key, stored, SqlTable.mem_rows_iff.mp hrow, of_decide_eq_true hlive, rfl⟩
  · rintro ⟨key, stored, hget, hlive, rfl⟩
    exact ⟨(key, stored),
      List.mem_filter.mpr ⟨SqlTable.mem_rows_iff.mpr hget, decide_eq_true hlive⟩, rfl⟩

theorem get?_sweepExpired_eq_some_iff {key : W.Digest} {now : UInt64} {stored : StoredRecord W} :
    (dht.sweepExpired now).records.get? key = some stored ↔
      dht.records.get? key = some stored ∧ now ≤ stored.expiresAt := by
  rw [sweepExpired, SqlTable.get?_deleteWhere, Option.filter_eq_some_iff, Bool.not_eq_true',
    decide_eq_false_iff_not, UInt64.not_lt]

/-- Each record is stored under its own key, and there are not too many. -/
structure Keyed (dht : DhtStorage W) : Prop where
  key_eq : ∀ key stored, dht.records.get? key = some stored → stored.record.key = key
  size : dht.records.rows.length ≤ dht.maxRecords

/-- **The three reads agree.** -/
theorem Keyed.readable (h : Keyed dht) : Readable dht where
  listed key now record := by
    rw [get_eq_some_iff, mem_allRecords_iff]
    constructor
    · rintro ⟨stored, hget, hlive, rfl⟩
      exact ⟨⟨key, stored, hget, hlive, rfl⟩, h.key_eq key stored hget⟩
    · rintro ⟨⟨key', stored, hget, hlive, rfl⟩, rfl⟩
      have hkey := h.key_eq key' stored hget
      rw [← hkey] at hget
      exact ⟨stored, hget, hlive, rfl⟩
  survives key now record := by
    simp only [get_eq_some_iff, get?_sweepExpired_eq_some_iff, and_assoc]

/-! ## What keeps the keys -/

theorem keyed_new (maxRecords maxRecordSize : ℕ) :
    Keyed (new maxRecords maxRecordSize : DhtStorage W) :=
  ⟨nofun, Nat.zero_le _⟩

/-- Deleting rows keeps the keys and does not add rows. -/
theorem Keyed.deleteWhere (h : Keyed dht) (p : W.Digest → StoredRecord W → Bool) :
    Keyed { dht with records := dht.records.deleteWhere p } where
  key_eq key stored hget := by
    rw [SqlTable.get?_deleteWhere, Option.filter_eq_some_iff] at hget
    exact h.key_eq key stored hget.1
  size := (List.length_filter_le _ _).trans h.size

theorem Keyed.put (h : Keyed dht) {record : DhtRecord W} {now : UInt64} {dht' : DhtStorage W}
    (hput : dht.put record now = .ok dht') : Keyed dht' := by
  obtain ⟨-, -, -, hroom, rfl⟩ := put_eq_ok_iff.mp hput
  refine ⟨fun key stored hget => ?_, ?_⟩
  · rw [SqlTable.get?_insertOrReplace] at hget
    split at hget
    · rename_i hkey
      rw [← Option.some.inj hget, hkey]
    · exact h.key_eq key stored hget
  · exact SqlTable.length_insertOrReplace_le h.size hroom _

/-! ## Runs -/

/-- A call on the storage, with the clock it reads. -/
inductive Op (W : Wire) where
  | put (record : DhtRecord W) (now : UInt64)
  | get (key : W.Digest) (now : UInt64)
  | remove (key : W.Digest)
  | sweepExpired (now : UInt64)
  | allRecords (now : UInt64)

/-- The storage, the time at which the record under a key was put, and the sums that were
taken. -/
structure History (W : Wire) where
  dht : DhtStorage W
  putAt : W.Digest → UInt64
  sums : List (UInt64 × UInt64)

/-- The record passes the checks that come before the sum. -/
def ReachesSum (dht : DhtStorage W) (record : DhtRecord W) : Prop :=
  W.len record.value ≤ dht.maxRecordSize ∧ record.ttlSeconds ≤ maxTtlSeconds

instance (dht : DhtStorage W) (record : DhtRecord W) : Decidable (ReachesSum dht record) :=
  inferInstanceAs (Decidable (_ ∧ _))

namespace History

open GuardedRun

/-- A call of `put`. -/
def applyPut (s : History W) (record : DhtRecord W) (now : UInt64) : History W :=
  let sums := if ReachesSum s.dht record then
      (record.timestamp, record.ttlSeconds.toUInt64) :: s.sums
    else s.sums
  match s.dht.put record now with
  | .ok dht => ⟨dht, Function.update s.putAt record.key now, sums⟩
  | .error _ => { s with sums := sums }

/-- The state after a call. -/
def step (s : History W) : Op W → History W
  | .put record now => s.applyPut record now
  | .remove key => { s with dht := s.dht.remove key }
  | .sweepExpired now => { s with dht := s.dht.sweepExpired now }
  -- the two reads change nothing
  | .get _ _ => s
  | .allRecords _ => s

/-- An empty storage. -/
def start (maxRecords maxRecordSize : ℕ) : History W :=
  ⟨.new maxRecords maxRecordSize, fun _ => 0, []⟩

/-! ## What should hold -/

/-- What should hold of the storage after some calls. -/
structure Bounded (s : History W) : Prop where
  size : s.dht.records.rows.length ≤ s.dht.maxRecords
  readable : Readable s.dht
  noOverflow : ∀ p ∈ s.sums, p.1.toNat + p.2.toNat < 2 ^ 64
  lifetime : ∀ key now record, s.dht.get key now = some record →
    now.toNat ≤ (s.putAt key).toNat + maxTtlSeconds.toNat

/-- **The condition on a call.**  A record of an admissible size and TTL has a timestamp that
leaves room for the TTL in a `u64` and, unless the storage is full, is not so far ahead of the
clock that the two go beyond the longest TTL. -/
def Timely (s : History W) : Op W → Prop
  | .put record now => ReachesSum s.dht record →
      record.timestamp.toNat + record.ttlSeconds.toNat < 2 ^ 64 ∧
      (s.dht.records.get? record.key ≠ none ∨ s.dht.records.rows.length < s.dht.maxRecords →
        record.timestamp.toNat + record.ttlSeconds.toNat ≤ now.toNat + maxTtlSeconds.toNat)
  | _ => True



variable {s : History W} {op : Op W}

/-! ## One call -/

/-- The sums fit, and no record stays too long. -/
structure Timed (s : History W) : Prop where
  noOverflow : ∀ p ∈ s.sums, p.1.toNat + p.2.toNat < 2 ^ 64
  expires : ∀ key stored, s.dht.records.get? key = some stored →
    stored.expiresAt.toNat ≤ (s.putAt key).toNat + maxTtlSeconds.toNat

/-- A record can be read up to the second in which it expires. -/
theorem bounded_iff_timed (hs : Keyed s.dht) : s.Bounded ↔ s.Timed := by
  constructor
  · intro h
    refine ⟨h.noOverflow, fun key stored hget => ?_⟩
    exact h.lifetime key stored.expiresAt stored.record
      (get_eq_some_iff.mpr ⟨stored, hget, UInt64.le_refl _, rfl⟩)
  · intro h
    refine ⟨hs.size, hs.readable, h.noOverflow, fun key now record hget => ?_⟩
    obtain ⟨stored, hstored, hlive, -⟩ := get_eq_some_iff.mp hget
    exact (UInt64.le_iff_toNat_le.mp hlive).trans (h.expires key stored hstored)

/-- A put that fails leaves the records. -/
theorem keyed_step (hs : Keyed s.dht) (op : Op W) : Keyed (s.step op).dht := by
  cases op with
  | put record now =>
    rw [step, applyPut]
    cases hput : s.dht.put record now with
    | error e => exact hs
    | ok dht => exact hs.put hput
  | remove key => exact hs.deleteWhere _
  | sweepExpired now => exact hs.deleteWhere _
  | get key now => exact hs
  | allRecords now => exact hs

/-- Deleting rows shortens no sum and moves no put. -/
theorem Timed.deleteWhere (h : s.Timed) (p : W.Digest → StoredRecord W → Bool) :
    Timed { s with dht := { s.dht with records := s.dht.records.deleteWhere p } } where
  noOverflow := h.noOverflow
  expires key stored hget := by
    rw [SqlTable.get?_deleteWhere, Option.filter_eq_some_iff] at hget
    exact h.expires key stored hget.1

/-- The sum of a timestamp and a TTL, where it fits. -/
theorem toNat_expiresAt {record : DhtRecord W}
    (h : record.timestamp.toNat + record.ttlSeconds.toNat < 2 ^ 64) :
    (record.timestamp + record.ttlSeconds.toUInt64).toNat
      = record.timestamp.toNat + record.ttlSeconds.toNat := by
  rw [UInt64.toNat_add, UInt32.toNat_toUInt64, Nat.mod_eq_of_lt h]

/-- A put that succeeds is in time exactly if the record does not stay too long. -/
theorem timed_ok_iff (h : s.Timed) {record : DhtRecord W} {now : UInt64} {dht : DhtStorage W}
    (hput : s.dht.put record now = .ok dht)
    (hfits : record.timestamp.toNat + record.ttlSeconds.toNat < 2 ^ 64) :
    (∀ key stored, dht.records.get? key = some stored →
      stored.expiresAt.toNat ≤
        (Function.update s.putAt record.key now key).toNat + maxTtlSeconds.toNat) ↔
      record.timestamp.toNat + record.ttlSeconds.toNat ≤ now.toNat + maxTtlSeconds.toNat := by
  obtain ⟨-, -, -, -, rfl⟩ := put_eq_ok_iff.mp hput
  rw [← toNat_expiresAt hfits]
  constructor
  · intro hexp
    have hnew := hexp record.key _ (by rw [SqlTable.get?_insertOrReplace, if_pos rfl])
    rwa [Function.update_self] at hnew
  · intro hle key stored hget
    rw [SqlTable.get?_insertOrReplace] at hget
    split at hget
    · rename_i hkey
      rw [← Option.some.inj hget, hkey, Function.update_self]
      exact hle
    · rename_i hkey
      rw [Function.update_of_ne hkey]
      exact h.expires key stored hget

/-- A put that fails after the sum had no room, or came too late. -/
theorem timely_of_error {record : DhtRecord W} {now : UInt64} {e : DhtError}
    (hput : s.dht.put record now = .error e) (hsum : ReachesSum s.dht record)
    (hfits : record.timestamp.toNat + record.ttlSeconds.toNat < 2 ^ 64)
    (hroom : s.dht.records.get? record.key ≠ none ∨
      s.dht.records.rows.length < s.dht.maxRecords) :
    record.timestamp.toNat + record.ttlSeconds.toNat ≤ now.toNat + maxTtlSeconds.toNat := by
  rw [← toNat_expiresAt hfits]
  by_contra hlate
  have hlive : ¬record.timestamp + record.ttlSeconds.toUInt64 < now := by
    rw [UInt64.lt_iff_toNat_lt]
    omega
  have hok := put_eq_ok_iff.mpr ⟨hsum.1, hsum.2, hlive, hroom, rfl⟩
  rw [hput] at hok
  cases hok

/-- **One put.** -/
theorem timed_applyPut_iff (h : s.Timed) (record : DhtRecord W) (now : UInt64) :
    (s.applyPut record now).Timed ↔ s.Timely (.put record now) := by
  by_cases hsum : ReachesSum s.dht record
  · have hsums : (∀ p ∈ (record.timestamp, record.ttlSeconds.toUInt64) :: s.sums,
        p.1.toNat + p.2.toNat < 2 ^ 64) ↔
        record.timestamp.toNat + record.ttlSeconds.toNat < 2 ^ 64 := by
      rw [List.forall_mem_cons, UInt32.toNat_toUInt64]
      exact and_iff_left h.noOverflow
    rw [applyPut, if_pos hsum]
    cases hput : s.dht.put record now with
    | error e =>
      constructor
      · intro hafter
        have hfits := hsums.mp hafter.noOverflow
        exact fun _ => ⟨hfits, timely_of_error hput hsum hfits⟩
      · intro htimely
        exact ⟨hsums.mpr (htimely hsum).1, h.expires⟩
    | ok dht =>
      have hroom := (put_eq_ok_iff.mp hput).2.2.2.1
      constructor
      · intro hafter
        have hfits := hsums.mp hafter.noOverflow
        exact fun _ => ⟨hfits, fun _ => (timed_ok_iff h hput hfits).mp hafter.expires⟩
      · intro htimely
        obtain ⟨hfits, hle⟩ := htimely hsum
        exact ⟨hsums.mpr hfits, (timed_ok_iff h hput hfits).mpr (hle hroom)⟩
  · -- the record is refused before the sum
    rw [applyPut, if_neg hsum]
    cases hput : s.dht.put record now with
    | error e => exact iff_of_true h (fun hsum' => absurd hsum' hsum)
    | ok dht =>
      obtain ⟨hsize, httl, -⟩ := put_eq_ok_iff.mp hput
      exact absurd ⟨hsize, httl⟩ hsum

theorem timed_step_iff (h : s.Timed) (op : Op W) : (s.step op).Timed ↔ s.Timely op := by
  cases op with
  | put record now => exact timed_applyPut_iff h record now
  | remove key => exact iff_of_true (h.deleteWhere _) trivial
  | sweepExpired now => exact iff_of_true (h.deleteWhere _) trivial
  | get key now => exact iff_of_true h trivial
  | allRecords now => exact iff_of_true h trivial

/-! ## Runs -/

/-- **Bounded in size and time.**  From an empty storage, the bounds hold in every state of a run
exactly if each record that is put is timely. -/
theorem bounded_iff_meets (maxRecords maxRecordSize : ℕ) (ops : List (Op W)) :
    (∀ l₁ l₂, ops = l₁ ++ l₂ → Bounded (run step (start maxRecords maxRecordSize) l₁)) ↔
      Meets step Timely (start maxRecords maxRecordSize) ops := by
  have hkeyed : Keyed (start maxRecords maxRecordSize : History W).dht :=
    keyed_new maxRecords maxRecordSize
  have htimed : Timed (start maxRecords maxRecordSize : History W) := ⟨nofun, nofun⟩
  refine always_iff_meets_of_keeps (P := Bounded) (Q := fun s => Keyed s.dht)
    (fun s op _ hs => keyed_step hs op) (fun s op hb hs => ?_)
    ((bounded_iff_timed hkeyed).mpr htimed) hkeyed ops
  rw [bounded_iff_timed (keyed_step hs op)]
  exact timed_step_iff ((bounded_iff_timed hs).mp hb) op

/-- A record with an empty value. -/
def recordOf (timestamp : UInt64) (ttlSeconds : UInt32) : DhtRecord Wire.symbolic where
  key := .raw []
  value := .raw []
  publisher := []
  timestamp := timestamp
  ttlSeconds := ttlSeconds
  signature := []

/-- A record that is dated three years ahead is still there after them; and the TTL of a record
of the last second overflows. -/
theorem dated_ahead :
    ¬Bounded (run step (start 100000 defaultMaxRecordSize)
        [.put (recordOf 1800000000 3600) 1700000000]) ∧
      ¬Bounded (run step (start 100000 defaultMaxRecordSize)
        [.put (recordOf 18446744073709551615 3600) 1700000000]) := by
  constructor
  · intro h
    have hlate := h.lifetime (.raw []) 1800003600 (recordOf 1800000000 3600) rfl
    exact absurd hlate (by decide)
  · intro h
    have hover := h.noOverflow (18446744073709551615, 3600) (List.mem_singleton.mpr rfl)
    exact absurd hover (by decide)

end History

end DhtStorage
