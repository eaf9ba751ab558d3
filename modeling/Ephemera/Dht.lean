/-
# Local DHT storage (`ephemera-dht/src/storage.rs`)

A map from keys to records, with the checks of `put`.  Records carry a signature field
that no function of the storage reads.
-/
import Ephemera.SqlTable
import Ephemera.Wire

/-- `DhtRecord`, without its record type, which nothing reads. -/
structure DhtRecord (W : Wire) where
  key : W.Digest
  value : W.Bytes
  publisher : IdentityKey
  timestamp : UInt64
  ttlSeconds : UInt32
  signature : List UInt8

/-- `StoredRecord`. -/
structure StoredRecord (W : Wire) where
  record : DhtRecord W
  expiresAt : UInt64

/-- `DhtError`, as far as `put` returns it. -/
inductive DhtError where
  | recordTooLarge (size max : ℕ)
  | ttlTooLarge (ttlSecs maxSecs : UInt32)
  | expired
  | storageFull (count max : ℕ)
  deriving DecidableEq, Repr

/-- `DhtStorage`. -/
structure DhtStorage (W : Wire) where
  records : SqlTable W.Digest (StoredRecord W)
  maxRecords : ℕ
  maxRecordSize : ℕ

namespace DhtStorage

variable {W : Wire}

/-- `MAX_RECORD_SIZE`: 8 KiB. -/
def defaultMaxRecordSize : ℕ := 8 * 1024

/-- `MAX_TTL_SECONDS`: 30 days. -/
def maxTtlSeconds : UInt32 := 30 * 24 * 60 * 60

/-- `DhtStorage::put`. -/
def put (dht : DhtStorage W) (record : DhtRecord W) (now : UInt64) :
    Except DhtError (DhtStorage W) :=
  let expiresAt := record.timestamp + record.ttlSeconds.toUInt64
  if dht.maxRecordSize < W.len record.value then
    .error (.recordTooLarge (W.len record.value) dht.maxRecordSize)
  else if maxTtlSeconds < record.ttlSeconds then
    .error (.ttlTooLarge record.ttlSeconds maxTtlSeconds)
  else if expiresAt < now then .error .expired
  else if (dht.records.get? record.key).isNone ∧ dht.maxRecords ≤ dht.records.rows.length then
    .error (.storageFull dht.records.rows.length dht.maxRecords)
  else .ok { dht with records := dht.records.insertOrReplace record.key ⟨record, expiresAt⟩ }

/-- `DhtStorage::get`. -/
def get (dht : DhtStorage W) (key : W.Digest) (now : UInt64) : Option (DhtRecord W) :=
  match dht.records.get? key with
  | some stored => if stored.expiresAt < now then none else some stored.record
  | none => none

/-- `DhtStorage::remove`. -/
def remove (dht : DhtStorage W) (key : W.Digest) : DhtStorage W :=
  { dht with records := dht.records.deleteWhere (fun k _ => decide (k = key)) }

/-- `DhtStorage::sweep_expired`. -/
def sweepExpired (dht : DhtStorage W) (now : UInt64) : DhtStorage W :=
  { dht with records := dht.records.deleteWhere (fun _ stored => decide (stored.expiresAt < now)) }

/-- A put succeeds when the record passes the checks, and overwrites what was under the key. -/
theorem put_eq_ok_iff {dht dht' : DhtStorage W} {record : DhtRecord W} {now : UInt64} :
    dht.put record now = .ok dht' ↔
      W.len record.value ≤ dht.maxRecordSize ∧ record.ttlSeconds ≤ maxTtlSeconds ∧
      ¬record.timestamp + record.ttlSeconds.toUInt64 < now ∧
      (dht.records.get? record.key ≠ none ∨ dht.records.rows.length < dht.maxRecords) ∧
      dht' = { dht with
        records := dht.records.insertOrReplace record.key
          ⟨record, record.timestamp + record.ttlSeconds.toUInt64⟩ } := by
  have hroom : (dht.records.get? record.key ≠ none ∨ dht.records.rows.length < dht.maxRecords) ↔
      ¬((dht.records.get? record.key).isNone ∧ dht.maxRecords ≤ dht.records.rows.length) := by
    rw [Option.isNone_iff_eq_none, not_and_or, Nat.not_le]
  rw [hroom, ← Nat.not_lt, ← UInt32.not_lt]
  unfold put
  dsimp only
  split_ifs with hsize httl hlive hfull
  · exact iff_of_false (by simp) (fun h => h.1 hsize)
  · exact iff_of_false (by simp) (fun h => h.2.1 httl)
  · exact iff_of_false (by simp) (fun h => h.2.2.1 hlive)
  · exact iff_of_false (by simp) (fun h => h.2.2.2.1 hfull)
  · rw [Except.ok.injEq]
    exact ⟨fun h => ⟨hsize, httl, hlive, hfull, h.symm⟩, fun h => h.2.2.2.2.symm⟩

/-- A put that succeeds has passed the checks, and overwrites what was under the key. -/
theorem put_eq_ok {dht dht' : DhtStorage W} {record : DhtRecord W} {now : UInt64}
    (h : dht.put record now = .ok dht') :
    W.len record.value ≤ dht.maxRecordSize ∧
      ¬record.timestamp + record.ttlSeconds.toUInt64 < now ∧
      dht' = { dht with
        records := dht.records.insertOrReplace record.key
          ⟨record, record.timestamp + record.ttlSeconds.toUInt64⟩ } := by
  obtain ⟨hsize, -, hlive, -, hdht⟩ := put_eq_ok_iff.mp h
  exact ⟨hsize, hlive, hdht⟩

/-- A put adds one record and leaves the others. -/
theorem get?_of_put {dht dht' : DhtStorage W} {record : DhtRecord W} {now : UInt64}
    (h : dht.put record now = .ok dht') {key : W.Digest} {stored : StoredRecord W}
    (hkey : dht'.records.get? key = some stored) :
    dht.records.get? key = some stored ∨ stored.record = record := by
  obtain ⟨-, -, rfl⟩ := put_eq_ok h
  rw [SqlTable.get?_insertOrReplace] at hkey
  split at hkey
  · rw [← Option.some.inj hkey]
    exact Or.inr rfl
  · exact Or.inl hkey

theorem get?_of_remove {dht : DhtStorage W} {key key' : W.Digest} {stored : StoredRecord W}
    (h : (dht.remove key').records.get? key = some stored) :
    dht.records.get? key = some stored := by
  rw [remove, SqlTable.get?_deleteWhere, Option.filter_eq_some_iff] at h
  exact h.1

/-- What `get` returns is stored under its key. -/
theorem get?_of_get {dht : DhtStorage W} {key : W.Digest} {now : UInt64} {record : DhtRecord W}
    (h : dht.get key now = some record) :
    ∃ stored, dht.records.get? key = some stored ∧ stored.record = record := by
  unfold get at h
  cases hget : dht.records.get? key with
  | none => simp [hget] at h
  | some stored =>
    simp only [hget] at h
    split at h
    · cases h
    · exact ⟨stored, rfl, Option.some.inj h⟩

end DhtStorage
