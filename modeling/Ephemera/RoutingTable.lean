/-
# The routing table (`ephemera-dht/src/routing.rs`)

The table has a bucket for each number of leading zero bits that a distance from the local node
can have.  Nothing but `insert` changes it, so the defect of `evict_oldest` (`KBucket.lean`)
does not reach it: the live nodes of all buckets are different (`correct_run`), and `closest`
returns the nearest of them.
-/
import Ephemera.KBucket
import Ephemera.Nearest

namespace Kademlia

/-- `ID_BITS`. -/
def idBits : ℕ := 256

/-- `RoutingTable`. -/
structure RoutingTable where
  localId : NodeId
  buckets : List KBucket
  k : ℕ

namespace RoutingTable

open GuardedRun NodeId

/-- `RoutingTable::new`. -/
def new (localId : NodeId) (k : ℕ) : RoutingTable :=
  ⟨localId, (List.range idBits).map (fun _ => KBucket.new k), k⟩

/-- `RoutingTable::bucket_index`. -/
def bucketIndex (t : RoutingTable) (id : NodeId) : Option ℕ := leadingZerosDistance t.localId id

/-- `RoutingTable::insert`. -/
def insert (t : RoutingTable) (entry : NodeEntry) : RoutingTable × InsertResult :=
  if entry.id = t.localId then (t, .updated)
  else
    match t.bucketIndex entry.id with
    | none => (t, .updated)
    | some idx =>
      match t.buckets[idx]? with
      | some bucket =>
        ({ t with buckets := t.buckets.set idx (bucket.insert entry).1 }, (bucket.insert entry).2)
      -- an index out of bounds would panic; `leadingZerosDistance_lt` excludes it
      | none => (t, .updated)

/-- The live nodes of the table, bucket by bucket. -/
def entries (t : RoutingTable) : List NodeEntry := t.buckets.flatMap KBucket.entries

/-- `RoutingTable::closest`; `sort_by_key` is stable. -/
def closest (t : RoutingTable) (target : NodeId) (count : ℕ) : List NodeEntry :=
  (t.entries.mergeSort (fun a b => decide (xorDistance a.id target ≤ xorDistance b.id target))).take
    count

/-- `RoutingTable::total_entries`. -/
def totalEntries (t : RoutingTable) : ℕ := (t.buckets.map KBucket.len).sum

/-- The table after a node was inserted. -/
def step (t : RoutingTable) (entry : NodeEntry) : RoutingTable := (t.insert entry).1

/-! ## What should hold -/

/-- The table of the node `localId`, with buckets for `k` nodes: a live node or a replacement of
bucket `i` is at a distance with `i` leading zero bits, the local node is none of them, no live
node is listed twice, and no bucket is too long. -/
structure Sound (localId : NodeId) (k : ℕ) (t : RoutingTable) : Prop where
  placed : ∀ i b, t.buckets[i]? = some b → ∀ e, e ∈ b.entries ∨ e ∈ b.replacementCache →
    (xorDistance localId e.id).leadingZeroBits = i
  foreign : ∀ b ∈ t.buckets, ∀ e, e ∈ b.entries ∨ e ∈ b.replacementCache → e.id ≠ localId
  nodup : (t.entries.map NodeEntry.id).Nodup
  length_le : ∀ b ∈ t.buckets, b.entries.length ≤ k

/-- What `closest` should return: as many live nodes as there are, up to `count`, and of all
live nodes the nearest to the target. -/
structure Closest (t : RoutingTable) (target : NodeId) (count : ℕ) (found : List NodeEntry) :
    Prop where
  nearest : Nearest (fun e => xorDistance e.id target) count {e | e ∈ t.entries} found
  distinct : (found.map NodeEntry.id).Nodup
  length : found.length = min count t.totalEntries

/-! ## One bucket -/

/-- What holds of bucket `i`. -/
structure BucketInv (localId : NodeId) (k i : ℕ) (b : KBucket) : Prop where
  k_eq : b.k = k
  placed : ∀ e, e ∈ b.entries ∨ e ∈ b.replacementCache →
    e.id ≠ localId ∧ (xorDistance localId e.id).leadingZeroBits = i
  nodup : (b.entries.map NodeEntry.id).Nodup
  length_le : b.entries.length ≤ k

variable {localId : NodeId} {k : ℕ} {t : RoutingTable}

theorem bucketInv_new (localId : NodeId) (k i : ℕ) : BucketInv localId k i (KBucket.new k) where
  k_eq := rfl
  placed e h := by
    rcases h with h | h
    · cases h
    · cases h
  nodup := List.nodup_nil
  length_le := Nat.zero_le k

/-- A node of the right distance keeps the invariant of the bucket. -/
theorem BucketInv.insert {i : ℕ} {b : KBucket} (hb : BucketInv localId k i b) {entry : NodeEntry}
    (hne : entry.id ≠ localId) (hplace : (xorDistance localId entry.id).leadingZeroBits = i) :
    BucketInv localId k i (b.insert entry).1 := by
  obtain ⟨rfl, hplaced, hnodup, hle⟩ := hb
  by_cases hlists : b.Lists entry.id
  · -- The node moves to the back.
    have hlen : (b.insert entry).1.entries.length = b.entries.length := by
      obtain ⟨pos, hpos, heq⟩ := KBucket.insert_of_lists hlists
      rw [heq]
      exact KBucket.length_eraseIdx_findIdx hpos entry
    rw [KBucket.refresh_of_nodup hnodup hlists] at hlen ⊢
    refine ⟨rfl, fun e he => ?_, ?_, hlen.trans_le hle⟩
    · rcases he with he | he
      · rcases List.mem_append.mp he with hold | hnew
        · exact hplaced e (Or.inl (List.mem_filter.mp hold).1)
        · rw [List.mem_singleton.mp hnew]
          exact ⟨hne, hplace⟩
      · exact hplaced e (Or.inr he)
    · refine KBucket.nodup_map_concat
        (KBucket.nodup_map_sublist List.filter_sublist hnodup) (fun e he => ?_)
      simpa using (List.mem_filter.mp he).2
  · by_cases hroom : b.entries.length < b.k
    · rw [KBucket.insert_of_room hlists hroom]
      refine ⟨rfl, fun e he => ?_, ?_, ?_⟩
      · rcases he with he | he
        · rcases List.mem_append.mp he with hold | hnew
          · exact hplaced e (Or.inl hold)
          · rw [List.mem_singleton.mp hnew]
            exact ⟨hne, hplace⟩
        · exact hplaced e (Or.inr he)
      · exact KBucket.nodup_map_concat hnodup (fun e he hid => hlists ⟨e, he, hid⟩)
      · rw [List.length_append, List.length_singleton]
        omega
    · -- only the cache changes
      rw [KBucket.insert_of_full hlists (by omega)]
      refine ⟨rfl, fun e he => ?_, hnodup, hle⟩
      rcases he with he | he
      · exact hplaced e (Or.inl he)
      · rcases List.mem_append.mp he with hold | hnew
        · exact hplaced e (Or.inr ((BoundedQueue.kept_sublist _).subset hold))
        · rw [List.mem_singleton.mp hnew]
          exact ⟨hne, hplace⟩

/-! ## The table -/

/-- What holds of the table: there is a bucket for each index, and each is as it should be. -/
structure Inv (localId : NodeId) (k : ℕ) (t : RoutingTable) : Prop where
  localId_eq : t.localId = localId
  length : t.buckets.length = idBits
  bucket : ∀ i b, t.buckets[i]? = some b → BucketInv localId k i b

theorem inv_new (localId : NodeId) (k : ℕ) : Inv localId k (new localId k) where
  localId_eq := rfl
  length := by rw [new, List.length_map, List.length_range]
  bucket i b h := by
    obtain ⟨_, _, rfl⟩ := List.mem_map.mp (List.mem_of_getElem? h)
    exact bucketInv_new localId k i

/-- **One insertion** keeps the invariant. -/
theorem Inv.step (h : Inv localId k t) (entry : NodeEntry) : Inv localId k (t.step entry) := by
  show Inv localId k (t.insert entry).1
  unfold RoutingTable.insert
  split
  · exact h
  · rename_i hne
    split
    · exact h
    · rename_i idx hidx
      split
      · rename_i bucket hbucket
        -- Only the bucket with the index of the node is replaced.
        have hplace := (leadingZerosDistance_eq_some_iff.mp hidx).2
        rw [h.localId_eq] at hne hplace
        refine ⟨h.localId_eq, ?_, fun i b hb => ?_⟩
        · show (t.buckets.set idx _).length = idBits
          rw [List.length_set]
          exact h.length
        · change (t.buckets.set idx _)[i]? = some b at hb
          rw [List.getElem?_set] at hb
          split at hb
          · rename_i heq
            subst heq
            split at hb
            · rw [Option.some.injEq] at hb
              subst hb
              exact (h.bucket _ bucket hbucket).insert hne hplace
            · cases hb
          · exact h.bucket i b hb
      · exact h

/-- Nodes of different buckets are different, as they are at different distances. -/
theorem Inv.nodup (h : Inv localId k t) : (t.entries.map NodeEntry.id).Nodup := by
  have hget : ∀ i (hi : i < t.buckets.length), BucketInv localId k i t.buckets[i] :=
    fun i hi => h.bucket i _ (List.getElem?_eq_getElem hi)
  rw [entries, List.map_flatMap, List.nodup_flatMap]
  constructor
  · intro b hb
    obtain ⟨i, hi, rfl⟩ := List.getElem_of_mem hb
    exact (hget i hi).nodup
  · rw [List.pairwise_iff_getElem]
    intro i j hi hj hij
    show List.Disjoint _ _
    intro id hid hid'
    obtain ⟨e, he, rfl⟩ := List.mem_map.mp hid
    obtain ⟨e', he', heq⟩ := List.mem_map.mp hid'
    -- One id has one distance, which puts it into both buckets.
    have hi' := ((hget i hi).placed e (Or.inl he)).2
    have hj' := ((hget j hj).placed e' (Or.inl he')).2
    rw [heq, hi'] at hj'
    omega

theorem Inv.sound (h : Inv localId k t) : Sound localId k t where
  placed i b hb e he := ((h.bucket i b hb).placed e he).2
  foreign b hb e he := by
    obtain ⟨i, hi⟩ := List.mem_iff_getElem?.mp hb
    exact ((h.bucket i b hi).placed e he).1
  nodup := h.nodup
  length_le b hb := by
    obtain ⟨i, hi⟩ := List.mem_iff_getElem?.mp hb
    exact (h.bucket i b hi).length_le

/-! ## The closest nodes -/

theorem totalEntries_eq (t : RoutingTable) : t.totalEntries = t.entries.length := by
  rw [totalEntries, entries, List.length_flatMap]
  rfl

/-- Among distinct nodes `closest` finds the nearest. -/
theorem closest_of_nodup (hnodup : (t.entries.map NodeEntry.id).Nodup) (target : NodeId)
    (count : ℕ) : Closest t target count (t.closest target count) := by
  have hnear := Nearest.nearest_mergeSort (fun e => xorDistance e.id target)
    (List.Nodup.of_map _ hnodup) count
  refine ⟨hnear, ?_, ?_⟩
  · have hids := (List.mergeSort_perm t.entries
      (fun a b => decide (xorDistance a.id target ≤ xorDistance b.id target))).map NodeEntry.id
    exact ((List.take_sublist count _).map NodeEntry.id).nodup (hids.nodup_iff.mpr hnodup)
  · rw [totalEntries_eq]
    exact hnear.length_eq (List.Nodup.of_map _ hnodup) (fun e => Iff.rfl)

/-- **The routing table is correct** after any insertions: each node is in the bucket of its
distance, none is listed twice, no bucket is too long, and `closest` finds the nearest nodes to
any target. -/
theorem correct_run (localId : NodeId) (k : ℕ) (inserted : List NodeEntry) :
    Sound localId k (run step (new localId k) inserted) ∧
      ∀ target count, Closest (run step (new localId k) inserted) target count
        ((run step (new localId k) inserted).closest target count) := by
  have hinv : Inv localId k (run step (new localId k) inserted) :=
    run_invariant_of_step (fun _ entry h => h.step entry) (inv_new localId k) inserted
  exact ⟨hinv.sound, closest_of_nodup hinv.nodup⟩

end RoutingTable

end Kademlia
