/-
# Buckets of the routing table (`ephemera-dht/src/routing.rs`)

A bucket keeps up to `k` live nodes, the most recently seen at the back, and a cache of
replacements for nodes that are found dead.  `insert` looks for a node among the live ones but
not in the cache, so that a node which is seen again while the bucket is full is cached again,
and later promoted more than once.

`sound_iff_meets` is the exact condition on a run under which no node is listed twice.
-/
import Ephemera.BoundedQueue
import Ephemera.GuardedRun
import Ephemera.NodeDistance

namespace Kademlia

/-- `NodeEntry`; times are in nanoseconds. -/
structure NodeEntry where
  id : NodeId
  addresses : List String
  lastSeen : ℕ
  lastRtt : Option ℕ
  failures : UInt32
  deriving DecidableEq

/-- `KBucket`; the front of each queue is its oldest element. -/
structure KBucket where
  entries : List NodeEntry
  replacementCache : List NodeEntry
  k : ℕ
  deriving DecidableEq

/-- `InsertResult`. -/
inductive InsertResult where
  | inserted
  | updated
  | bucketFull (pingTarget : Option NodeId)
  deriving DecidableEq

namespace KBucket

open GuardedRun

/-- `KBucket::new`. -/
def new (k : ℕ) : KBucket := ⟨[], [], k⟩

/-- `KBucket::len`. -/
def len (b : KBucket) : ℕ := b.entries.length

/-- `KBucket::is_full`. -/
def isFull (b : KBucket) : Bool := decide (b.k ≤ b.entries.length)

/-- `KBucket::insert`. -/
def insert (b : KBucket) (entry : NodeEntry) : KBucket × InsertResult :=
  match b.entries.findIdx? (fun e => e.id = entry.id) with
  | some pos => ({ b with entries := b.entries.eraseIdx pos ++ [entry] }, .updated)
  | none =>
    if !b.isFull then ({ b with entries := b.entries ++ [entry] }, .inserted)
    else
      -- the node may be in the cache already
      ({ b with replacementCache := BoundedQueue.push b.k b.replacementCache entry },
        .bucketFull (b.entries.head?.map NodeEntry.id))

/-- `KBucket::evict_oldest`. -/
def evictOldest (b : KBucket) : KBucket × Option NodeEntry :=
  match b.replacementCache.getLast? with
  | some replacement =>
    ({ b with
      entries := b.entries.tail ++ [replacement]
      replacementCache := b.replacementCache.dropLast }, b.entries.head?)
  | none => ({ b with entries := b.entries.tail }, b.entries.head?)

/-- What happens to a bucket. -/
inductive Op where
  | insert (entry : NodeEntry)
  | evictOldest

/-- The bucket after it. -/
def step (b : KBucket) : Op → KBucket
  | .insert entry => (b.insert entry).1
  | .evictOldest => b.evictOldest.1

/-! ## What should hold -/

/-- The node is among the live ones. -/
def Lists (b : KBucket) (id : NodeId) : Prop := ∃ e ∈ b.entries, e.id = id

/-- What should hold of a bucket for up to `k` nodes: none is listed twice, in either queue or
in both, neither queue is too long, and a live node that is seen again moves to the back and
leaves the order of the others as it is. -/
structure Sound (k : ℕ) (b : KBucket) : Prop where
  entries : (b.entries.map NodeEntry.id).Nodup
  cache : (b.replacementCache.map NodeEntry.id).Nodup
  apart : ∀ e ∈ b.entries, ∀ r ∈ b.replacementCache, e.id ≠ r.id
  entries_le : b.entries.length ≤ k
  cache_le : b.replacementCache.length ≤ k
  refresh : ∀ entry, b.Lists entry.id →
    (b.insert entry).1.entries = b.entries.filter (fun e => e.id ≠ entry.id) ++ [entry]

/-- **The condition on a step**: a node that is not live meets a bucket with room, or a cache
that does not hold it, apart from the oldest replacement of a full cache, which goes. -/
def Unseen (b : KBucket) : Op → Prop
  | .insert entry => b.Lists entry.id ∨ b.entries.length < b.k ∨
      ∀ r ∈ BoundedQueue.kept b.k b.replacementCache, r.id ≠ entry.id
  | .evictOldest => True

/-! ## The branches of `insert` -/

variable {b : KBucket} {k : ℕ}

/-- Among distinct nodes, the removal at the position of a node leaves all others. -/
theorem eraseIdx_findIdx {l : List NodeEntry} (hl : (l.map NodeEntry.id).Nodup) {id : NodeId}
    {pos : ℕ} (h : l.findIdx? (fun e => e.id = id) = some pos) :
    l.eraseIdx pos = l.filter (fun e => e.id ≠ id) := by
  induction l generalizing pos with
  | nil => simp at h
  | cons e l ih =>
    rw [List.map_cons, List.nodup_cons] at hl
    rw [List.findIdx?_cons] at h
    by_cases he : e.id = id
    · simp only [he, decide_true, if_true, Option.some.injEq] at h
      subst h
      have hrest : l.filter (fun e => e.id ≠ id) = l := by
        rw [List.filter_eq_self]
        intro e' he'
        have hne : e'.id ≠ id := fun heq => hl.1 (List.mem_map.mpr ⟨e', he', heq.trans he.symm⟩)
        simpa using hne
      rw [List.eraseIdx_cons_zero, List.filter_cons_of_neg (by simp [he]), hrest]
    · simp only [he, decide_false, Bool.false_eq_true, if_false, Option.map_eq_some_iff] at h
      obtain ⟨pos', hpos', rfl⟩ := h
      rw [List.eraseIdx_cons_succ, List.filter_cons_of_pos (by simpa using he), ih hl.2 hpos']

theorem findIdx?_eq_none_iff {id : NodeId} :
    b.entries.findIdx? (fun e => e.id = id) = none ↔ ¬b.Lists id := by
  rw [List.findIdx?_eq_none_iff, Lists]
  simp

/-- The cache is as it was unless a new node meets a full bucket. -/
theorem insert_of_lists {entry : NodeEntry} (h : b.Lists entry.id) :
    ∃ pos, b.entries.findIdx? (fun e => e.id = entry.id) = some pos ∧
      (b.insert entry).1 = { b with entries := b.entries.eraseIdx pos ++ [entry] } := by
  cases hpos : b.entries.findIdx? (fun e => e.id = entry.id) with
  | none => exact absurd h (findIdx?_eq_none_iff.mp hpos)
  | some pos =>
    refine ⟨pos, rfl, ?_⟩
    unfold insert
    rw [hpos]

theorem insert_of_room {entry : NodeEntry} (h : ¬b.Lists entry.id)
    (hroom : b.entries.length < b.k) :
    (b.insert entry).1 = { b with entries := b.entries ++ [entry] } := by
  have hfull : b.isFull = false := decide_eq_false (by omega)
  unfold insert
  rw [findIdx?_eq_none_iff.mpr h]
  simp only [hfull, Bool.not_false, if_true]

theorem insert_of_full {entry : NodeEntry} (h : ¬b.Lists entry.id)
    (hfull : b.k ≤ b.entries.length) :
    (b.insert entry).1
      = { b with replacementCache := BoundedQueue.push b.k b.replacementCache entry } := by
  have hfull' : b.isFull = true := decide_eq_true hfull
  unfold insert
  rw [findIdx?_eq_none_iff.mpr h]
  simp only [hfull', Bool.not_true, Bool.false_eq_true, if_false]

/-- A live node moves to the back. -/
theorem refresh_of_nodup (hnodup : (b.entries.map NodeEntry.id).Nodup) {entry : NodeEntry}
    (h : b.Lists entry.id) :
    (b.insert entry).1
      = { b with entries := b.entries.filter (fun e => e.id ≠ entry.id) ++ [entry] } := by
  obtain ⟨pos, hpos, heq⟩ := insert_of_lists h
  rw [heq, eraseIdx_findIdx hnodup hpos]

/-! ## Full buckets -/

/-- In a bucket for `k` nodes, there are replacements only when it is full. -/
structure Filled (k : ℕ) (b : KBucket) : Prop where
  k_eq : b.k = k
  full : b.replacementCache ≠ [] → k ≤ b.entries.length

theorem filled_new (k : ℕ) : Filled k (new k) := ⟨rfl, fun h => absurd rfl h⟩

/-- The removal at a position that was found makes room for one. -/
theorem length_eraseIdx_findIdx {l : List NodeEntry} {id : NodeId} {pos : ℕ}
    (h : l.findIdx? (fun e => e.id = id) = some pos) (entry : NodeEntry) :
    (l.eraseIdx pos ++ [entry]).length = l.length := by
  obtain ⟨hlt, -⟩ := List.findIdx?_eq_some_iff_getElem.mp h
  rw [List.length_append, List.length_eraseIdx_of_lt hlt, List.length_singleton]
  omega

theorem Filled.step (hk : 0 < k) (hb : Filled k b) (op : Op) : Filled k (b.step op) := by
  obtain ⟨rfl, hfull⟩ := hb
  cases op with
  | insert entry =>
    show Filled b.k (b.insert entry).1
    by_cases hlists : b.Lists entry.id
    · obtain ⟨pos, hpos, heq⟩ := insert_of_lists hlists
      rw [heq]
      exact ⟨rfl, fun h => (length_eraseIdx_findIdx hpos entry).symm ▸ hfull h⟩
    · by_cases hroom : b.entries.length < b.k
      · rw [insert_of_room hlists hroom]
        refine ⟨rfl, fun h => absurd (hfull h) (by omega)⟩
      · rw [insert_of_full hlists (by omega)]
        refine ⟨rfl, fun _ => ?_⟩
        show b.k ≤ b.entries.length
        omega
  | evictOldest =>
    show Filled b.k b.evictOldest.1
    unfold evictOldest
    cases hlast : b.replacementCache.getLast? with
    | none => exact ⟨rfl, fun h => absurd (List.getLast?_eq_none_iff.mp hlast) h⟩
    | some r =>
      -- A replacement takes the place of the node that goes, so the bucket stays full.
      refine ⟨rfl, fun _ => ?_⟩
      have hne : b.replacementCache ≠ [] := by
        rintro heq
        rw [heq] at hlast
        cases hlast
      have hle := hfull hne
      simp only [List.length_append, List.length_tail, List.length_singleton]
      omega

/-! ## One step -/

theorem nodup_map_concat {l : List NodeEntry} (hl : (l.map NodeEntry.id).Nodup) {entry : NodeEntry}
    (h : ∀ e ∈ l, e.id ≠ entry.id) : ((l ++ [entry]).map NodeEntry.id).Nodup := by
  rw [List.map_append, List.map_singleton, List.nodup_append]
  refine ⟨hl, List.pairwise_singleton _ _, ?_⟩
  rintro a ha _ hb rfl
  obtain ⟨e, he, rfl⟩ := List.mem_map.mp ha
  exact h e he (List.mem_singleton.mp hb)

theorem nodup_map_sublist {l l' : List NodeEntry} (h : l'.Sublist l)
    (hl : (l.map NodeEntry.id).Nodup) : (l'.map NodeEntry.id).Nodup :=
  (h.map NodeEntry.id).nodup hl

/-- A bucket is sound when the queues are: a live node then moves to the back. -/
theorem sound_of_queues (hentries : (b.entries.map NodeEntry.id).Nodup)
    (hcache : (b.replacementCache.map NodeEntry.id).Nodup)
    (hapart : ∀ e ∈ b.entries, ∀ r ∈ b.replacementCache, e.id ≠ r.id)
    (hentries_le : b.entries.length ≤ k) (hcache_le : b.replacementCache.length ≤ k) :
    Sound k b :=
  ⟨hentries, hcache, hapart, hentries_le, hcache_le,
    fun _ hlists => by rw [refresh_of_nodup hentries hlists]⟩

theorem sound_new (k : ℕ) : Sound k (new k) :=
  sound_of_queues List.nodup_nil List.nodup_nil (fun _ he => (nomatch he)) (Nat.zero_le k)
    (Nat.zero_le k)

/-- A live node that is seen again does no harm. -/
theorem Sound.refreshed (h : Sound k b) {entry : NodeEntry} (hlists : b.Lists entry.id) :
    Sound k (b.insert entry).1 := by
  have hlen : (b.insert entry).1.entries.length = b.entries.length := by
    obtain ⟨pos, hpos, heq⟩ := insert_of_lists hlists
    rw [heq]
    exact length_eraseIdx_findIdx hpos entry
  rw [refresh_of_nodup h.entries hlists] at hlen ⊢
  refine sound_of_queues ?_ h.cache ?_ (hlen.trans_le h.entries_le) h.cache_le
  · refine nodup_map_concat (nodup_map_sublist List.filter_sublist h.entries) (fun e he => ?_)
    simpa using (List.mem_filter.mp he).2
  · intro e he r hr
    rcases List.mem_append.mp he with hold | hnew
    · exact h.apart e (List.mem_filter.mp hold).1 r hr
    · obtain ⟨e', he', hid⟩ := hlists
      rw [List.mem_singleton.mp hnew, ← hid]
      exact h.apart e' he' r hr

/-- A new node in a bucket with room: there are no replacements yet. -/
theorem Sound.added (h : Sound k b) (hfilled : Filled k b) {entry : NodeEntry}
    (hlists : ¬b.Lists entry.id) (hroom : b.entries.length < k) :
    Sound k (b.insert entry).1 := by
  have hempty : b.replacementCache = [] := by
    by_contra hne
    have hfull := hfilled.full hne
    omega
  rw [insert_of_room hlists (hfilled.k_eq.symm ▸ hroom)]
  refine sound_of_queues (nodup_map_concat h.entries ?_) h.cache ?_ ?_ h.cache_le
  · exact fun e he hid => hlists ⟨e, he, hid⟩
  · intro e _ r hr
    rw [show (({ b with entries := b.entries ++ [entry] } : KBucket)).replacementCache = []
      from hempty] at hr
    cases hr
  · rw [List.length_append, List.length_singleton]
    omega

/-- A new node that meets a full bucket is cached, which keeps the bucket sound exactly if it
is not in the cache. -/
theorem sound_cached_iff (hk : 0 < k) (h : Sound k b) (hfilled : Filled k b) {entry : NodeEntry}
    (hlists : ¬b.Lists entry.id) (hfull : k ≤ b.entries.length) :
    Sound k (b.insert entry).1 ↔
      ∀ r ∈ BoundedQueue.kept k b.replacementCache, r.id ≠ entry.id := by
  rw [insert_of_full hlists (hfilled.k_eq.symm ▸ hfull), hfilled.k_eq]
  have hsub : (BoundedQueue.kept k b.replacementCache).Sublist b.replacementCache :=
    BoundedQueue.kept_sublist b.replacementCache
  constructor
  · -- The new element is at the back of the cache, so its id is not in front of it.
    intro hsound r hr hid
    have hnodup := hsound.cache
    rw [BoundedQueue.push, List.map_append, List.map_singleton, List.nodup_append] at hnodup
    exact hnodup.2.2 r.id (List.mem_map_of_mem hr) entry.id (List.mem_singleton_self _) hid
  · intro hunseen
    refine sound_of_queues h.entries (nodup_map_concat (nodup_map_sublist hsub h.cache) hunseen)
      ?_ h.entries_le (BoundedQueue.length_push_le hk h.cache_le entry)
    intro e he r hr
    rcases List.mem_append.mp hr with hold | hnew
    · exact h.apart e he r (hsub.subset hold)
    · rw [List.mem_singleton.mp hnew]
      exact fun hid => hlists ⟨e, he, hid⟩

/-- The promotion of a replacement keeps the bucket sound. -/
theorem Sound.evicted (h : Sound k b) (hfilled : Filled k b) : Sound k b.evictOldest.1 := by
  unfold evictOldest
  cases hlast : b.replacementCache.getLast? with
  | none =>
    refine sound_of_queues (nodup_map_sublist (List.tail_sublist _) h.entries) h.cache
      (fun e he => h.apart e (List.mem_of_mem_tail he)) ?_ h.cache_le
    exact (List.tail_sublist b.entries).length_le.trans h.entries_le
  | some r =>
    have hmem : r ∈ b.replacementCache := List.mem_of_getLast? hlast
    have hsplit : b.replacementCache.dropLast ++ [r] = b.replacementCache :=
      List.dropLast_append_getLast? r hlast
    have hnodup := h.cache
    rw [← hsplit, List.map_append, List.map_singleton, List.nodup_append] at hnodup
    refine sound_of_queues ?_ hnodup.1 ?_ ?_ ?_
    · exact nodup_map_concat (nodup_map_sublist (List.tail_sublist _) h.entries)
        (fun e he => h.apart e (List.mem_of_mem_tail he) r hmem)
    · intro e he r' hr'
      rcases List.mem_append.mp he with hold | hnew
      · exact h.apart e (List.mem_of_mem_tail hold) r' ((List.dropLast_sublist _).subset hr')
      · rw [List.mem_singleton.mp hnew]
        exact (hnodup.2.2 r'.id (List.mem_map_of_mem hr') r.id (List.mem_singleton_self _)).symm
    · have hne : b.entries.length ≠ 0 ∨ k = 0 := by
        have hfull := hfilled.full (fun heq => by rw [heq] at hmem; cases hmem)
        omega
      have hle := h.entries_le
      have hcache := h.cache_le
      have hpos : 0 < b.replacementCache.length := List.length_pos_of_mem hmem
      rw [List.length_append, List.length_tail, List.length_singleton]
      omega
    · exact (List.dropLast_sublist _).length_le.trans h.cache_le

/-- **One step.**  A sound bucket stays sound exactly under the condition. -/
theorem sound_step_iff (hk : 0 < k) (h : Sound k b) (hfilled : Filled k b) (op : Op) :
    Sound k (b.step op) ↔ b.Unseen op := by
  cases op with
  | insert entry =>
    show Sound k (b.insert entry).1 ↔ b.Lists entry.id ∨ b.entries.length < b.k ∨
      ∀ r ∈ BoundedQueue.kept b.k b.replacementCache, r.id ≠ entry.id
    rw [hfilled.k_eq]
    by_cases hlists : b.Lists entry.id
    · exact iff_of_true (h.refreshed hlists) (Or.inl hlists)
    · by_cases hroom : b.entries.length < k
      · exact iff_of_true (h.added hfilled hlists hroom) (Or.inr (Or.inl hroom))
      · rw [sound_cached_iff hk h hfilled hlists (by omega)]
        simp only [hlists, hroom, false_or]
  | evictOldest => exact iff_of_true (h.evicted hfilled) trivial

/-! ## Runs -/

/-- **No node is listed twice**, in any state of a run from the empty bucket, exactly if no
step caches a node that is in the cache. -/
theorem sound_iff_meets {k : ℕ} (hk : 1 ≤ k) (ops : List Op) :
    (∀ ops₁ ops₂, ops = ops₁ ++ ops₂ → Sound k (run step (new k) ops₁)) ↔
      Meets step Unseen (new k) ops :=
  always_iff_meets_of_keeps (P := Sound k) (Q := Filled k)
    (fun _ op _ hfilled => hfilled.step hk op)
    (fun _ op hsound hfilled => sound_step_iff hk hsound hfilled op) (sound_new k) (filled_new k)
    ops

/-- The entry of the node whose id consists of a byte. -/
def entryOf (b : UInt8) : NodeEntry := ⟨⟨Vector.replicate 32 b⟩, [], 0, none, 0⟩

/-- Three nodes are seen, and the last of them once more. -/
def seenAgain : List Op := [1, 2, 3, 3].map (fun b => .insert (entryOf b))

/-- Three nodes fill a bucket for three and three more its cache; a seventh takes the place of the
fourth there, which then comes again, and the oldest node is evicted. -/
def overfull : List Op :=
  [1, 2, 3, 4, 5, 6, 7, 4].map (fun b => .insert (entryOf b)) ++ [.evictOldest]

theorem sound_iff_meets_three : (1 ≤ 3) ∧
    ∀ ops₁ ops₂, overfull = ops₁ ++ ops₂ → Sound 3 (run step (new 3) ops₁) := by
  refine ⟨by decide, (sound_iff_meets (by decide) overfull).mpr ?_⟩
  refine ⟨?_, ?_, ?_, ?_, ?_, ?_, ?_, ?_, trivial, trivial⟩
  · exact Or.inr (Or.inl (by decide))
  · exact Or.inr (Or.inl (by decide))
  · exact Or.inr (Or.inl (by decide))
  · exact Or.inr (Or.inr (by decide))
  · exact Or.inr (Or.inr (by decide))
  · exact Or.inr (Or.inr (by decide))
  · exact Or.inr (Or.inr (by decide))
  · exact Or.inr (Or.inr (by decide))

/-- In a bucket for two, the third node is cached twice, and after two evictions it is listed
twice among the live nodes. -/
theorem promoted_twice :
    ¬ (∀ ops₁ ops₂, seenAgain ++ [.evictOldest, .evictOldest] = ops₁ ++ ops₂ →
      Sound 2 (run step (new 2) ops₁)) ∧
    (run step (new 2) (seenAgain ++ [.evictOldest, .evictOldest])).entries
      = [entryOf 3, entryOf 3] := by
  have hentries : (run step (new 2) (seenAgain ++ [.evictOldest, .evictOldest])).entries
      = [entryOf 3, entryOf 3] := by decide
  refine ⟨fun h => ?_, hentries⟩
  have hnodup := (h _ [] (List.append_nil _).symm).entries
  rw [hentries] at hnodup
  simp at hnodup

end KBucket

end Kademlia
