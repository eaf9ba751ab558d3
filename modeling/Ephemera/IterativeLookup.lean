/-
# Iterative lookups (`ephemera-dht/src/query.rs`)

A lookup starts from the nodes of the routing table that are closest to its target, asks the
closest candidates that it has not asked, and takes in the nodes that they name.  A node never
names the local one, and a candidate is never dropped.

The flag `finished` is set in one place only: when a response leaves no candidate that was not
asked.  `correct_iff_meets` is the exact condition on a run under which the lookup is finished
in every state in which the `k` closest candidates have been asked.
-/
import Mathlib.Data.List.Dedup
import Mathlib.Tactic.Tauto
import Ephemera.RoutingTable
import Ephemera.SortedMap

namespace Kademlia

/-- `DhtQuery`, apart from the value it may find. -/
structure IterativeQuery where
  target : NodeId
  localId : NodeId
  alpha : ℕ
  k : ℕ
  queried : List NodeId
  candidates : SortedMap Distance NodeId
  finished : Bool

/-- A response to `FIND_NODE`: the node that was asked, and the nodes it names. -/
structure FindNodeResponse where
  sender : NodeId
  closerNodes : List NodeId

namespace IterativeQuery

open GuardedRun NodeId

/-- The candidates, the closest first. -/
def ids (m : SortedMap Distance NodeId) : List NodeId := m.entries.map Prod.snd

/-- `DhtQuery::new`. -/
def new (target : NodeId) (alpha k : ℕ) (table : RoutingTable) : IterativeQuery where
  target := target
  localId := table.localId
  alpha := alpha
  k := k
  queried := []
  candidates := (table.closest target k).foldl
    (fun m entry => m.insert (xorDistance entry.id target) entry.id) .empty
  finished := false

/-- `DhtQuery::next_to_query`. -/
def nextToQuery (q : IterativeQuery) : List NodeId :=
  ((ids q.candidates).filter (fun id => !q.queried.contains id)).take q.alpha

/-- One round of the loop of `process_find_node_response`, with whether a node was new. -/
def learn (target localId : NodeId) (acc : SortedMap Distance NodeId × Bool) (node : NodeId) :
    SortedMap Distance NodeId × Bool :=
  if node = localId then acc
  else
    match acc.1.get? (xorDistance node target) with
    | none => (acc.1.insert (xorDistance node target) node, true)
    | some _ => acc

/-- `DhtQuery::process_find_node_response`; the set `queried` is a list. -/
def processFindNodeResponse (q : IterativeQuery) (r : FindNodeResponse) : IterativeQuery × Bool :=
  let (candidates, learnedCloser) := r.closerNodes.foldl (learn q.target q.localId)
    (q.candidates, false)
  let q := { q with queried := r.sender :: q.queried, candidates := candidates }
  ({ q with finished := if q.nextToQuery.isEmpty then true else q.finished }, learnedCloser)

/-- `DhtQuery::is_finished`. -/
def isFinished (q : IterativeQuery) : Bool := q.finished

/-- `DhtQuery::closest_results`. -/
def closestResults (q : IterativeQuery) : List NodeId := (ids q.candidates).take q.k

/-- The lookup after a response. -/
def step (q : IterativeQuery) (r : FindNodeResponse) : IterativeQuery :=
  (q.processFindNodeResponse r).1

/-! ## What should hold -/

/-- The candidates a lookup has learned of: those it started with, and those it was told. -/
def Learned (table : RoutingTable) (target : NodeId) (k : ℕ) (responses : List FindNodeResponse) :
    Set NodeId :=
  {id | (∃ e ∈ table.closest target k, e.id = id) ∨
    ∃ r ∈ responses, id ∈ r.closerNodes ∧ id ≠ table.localId}

/-- The nodes it has asked. -/
def Asked (responses : List FindNodeResponse) : Set NodeId := {id | ∃ r ∈ responses, r.sender = id}

/-- What should hold of a lookup after some responses: it asks none but the closest candidates
that were not asked, and never the local node; its results are the closest candidates; and it is
finished when those have all been asked. -/
structure Correct (table : RoutingTable) (target : NodeId) (alpha k : ℕ)
    (responses : List FindNodeResponse) (q : IterativeQuery) : Prop where
  foreign : ∀ id ∈ q.nextToQuery, id ≠ table.localId
  unasked : ∀ id ∈ q.nextToQuery, id ∉ Asked responses
  next : Nearest (fun id => xorDistance id target) alpha
    {id | id ∈ Learned table target k responses ∧ id ∉ Asked responses} q.nextToQuery
  results : Nearest (fun id => xorDistance id target) k (Learned table target k responses)
    q.closestResults
  finishes : (∀ id ∈ q.closestResults, id ∈ Asked responses) → q.isFinished = true

/-- The candidates after a response. -/
def known (q : IterativeQuery) (r : FindNodeResponse) : List NodeId :=
  (ids q.candidates ++ r.closerNodes.filter (fun id => decide (id ≠ q.localId))).dedup

/-- **The condition on a response**: the lookup is finished, or there is no candidate left to
ask, or one that has fewer than `k` candidates closer to the target. -/
def Continues (q : IterativeQuery) (r : FindNodeResponse) : Prop :=
  q.finished = true ∨ (∀ id ∈ q.known r, id ∈ r.sender :: q.queried) ∨
    ∃ id ∈ q.known r, id ∉ r.sender :: q.queried ∧
      ((q.known r).filter
        (fun id' => decide (xorDistance id' q.target < xorDistance id q.target))).length < q.k

/-! ## Candidates -/

/-- Each candidate is stored under its distance. -/
def Keyed (target : NodeId) (m : SortedMap Distance NodeId) : Prop :=
  ∀ d id, m.get? d = some id → xorDistance id target = d

variable {target localId : NodeId} {m : SortedMap Distance NodeId}

theorem keyed_empty : Keyed target .empty := fun _ _ h => (nomatch h)

theorem mem_ids_iff (hm : Keyed target m) {id : NodeId} :
    id ∈ ids m ↔ m.get? (xorDistance id target) = some id := by
  rw [ids, List.mem_map]
  constructor
  · rintro ⟨⟨d, id'⟩, hmem, rfl⟩
    have hget := SortedMap.get?_of_mem hmem
    rw [hm d id' hget]
    exact hget
  · intro hget
    exact ⟨_, SortedMap.mem_of_get? hget, rfl⟩

theorem Keyed.insert (hm : Keyed target m) (node : NodeId) :
    Keyed target (m.insert (xorDistance node target) node) := by
  intro d id hget
  rw [SortedMap.get?_insert] at hget
  split at hget
  · rename_i hd
    rw [← Option.some.inj hget]
    exact hd
  · exact hm d id hget

theorem mem_ids_insert (hm : Keyed target m) (node : NodeId) {id : NodeId} :
    id ∈ ids (m.insert (xorDistance node target) node) ↔ id ∈ ids m ∨ id = node := by
  rw [mem_ids_iff (hm.insert node), mem_ids_iff hm, SortedMap.get?_insert]
  by_cases hd : xorDistance node target = xorDistance id target
  · have hid : node = id := xorDistance_injective target hd
    rw [if_pos hd, hid]
    simp
  · have hid : id ≠ node := fun heq => hd (heq ▸ rfl)
    rw [if_neg hd]
    simp [hid]

/-- The candidates are listed by increasing distance. -/
theorem pairwise_ids (hm : Keyed target m) :
    (ids m).Pairwise (fun a b => xorDistance a target < xorDistance b target) := by
  rw [ids, List.pairwise_map]
  refine m.sorted.imp_of_mem (fun {p p'} hp hp' hlt => ?_)
  rw [hm p.1 p.2 (SortedMap.get?_of_mem hp), hm p'.1 p'.2 (SortedMap.get?_of_mem hp')]
  exact hlt

theorem nodup_ids (hm : Keyed target m) : (ids m).Nodup :=
  List.Pairwise.imp (fun hlt => ne_of_apply_ne (xorDistance · target) (ne_of_lt hlt))
    (pairwise_ids hm)

/-- The first candidates that satisfy a condition are the nearest that do. -/
theorem nearest_filter (hm : Keyed target m) (p : NodeId → Bool) (n : ℕ) :
    Nearest (fun id => xorDistance id target) n {id | id ∈ ids m ∧ p id = true}
      (((ids m).filter p).take n) := by
  have hnear := Nearest.nearest_take ((nodup_ids hm).sublist (List.filter_sublist (p := p)))
    (((pairwise_ids hm).imp le_of_lt).sublist List.filter_sublist) n
  have hset : {id | id ∈ (ids m).filter p} = {id | id ∈ ids m ∧ p id = true} := by
    ext id
    exact List.mem_filter
  rwa [hset] at hnear

/-! ## Responses -/

theorem keyed_learn {acc : SortedMap Distance NodeId × Bool} (hm : Keyed target acc.1)
    (node : NodeId) : Keyed target (learn target localId acc node).1 := by
  unfold learn
  split
  · exact hm
  · split
    · exact hm.insert node
    · exact hm

/-- A named node becomes a candidate, unless it is the local one. -/
theorem mem_ids_learn {acc : SortedMap Distance NodeId × Bool} (hm : Keyed target acc.1)
    (node : NodeId) {id : NodeId} :
    id ∈ ids (learn target localId acc node).1 ↔ id ∈ ids acc.1 ∨ id = node ∧ id ≠ localId := by
  unfold learn
  split
  · rename_i hlocal
    subst hlocal
    exact ⟨Or.inl, fun h => h.resolve_right (fun h' => h'.2 h'.1)⟩
  · rename_i hne
    have hnode : id = node ∧ id ≠ localId ↔ id = node :=
      ⟨fun h => h.1, fun h => ⟨h, h ▸ hne⟩⟩
    rw [hnode]
    split
    · exact mem_ids_insert hm node
    · rename_i old hget
      -- the place is taken by the node itself
      have hold : old = node := xorDistance_injective target (hm _ _ hget)
      have hmem : node ∈ ids acc.1 := (mem_ids_iff hm).mpr (hold ▸ hget)
      exact ⟨Or.inl, fun h => h.elim (fun h' => h') (fun h' => h' ▸ hmem)⟩

theorem learnAll {nodes : List NodeId} (acc : SortedMap Distance NodeId × Bool)
    (hm : Keyed target acc.1) :
    Keyed target (nodes.foldl (learn target localId) acc).1 ∧
      ∀ id, id ∈ ids (nodes.foldl (learn target localId) acc).1 ↔
        id ∈ ids acc.1 ∨ id ∈ nodes ∧ id ≠ localId := by
  induction nodes generalizing acc with
  | nil => exact ⟨hm, fun id => by simp⟩
  | cons node nodes ih =>
    obtain ⟨hkeyed, hids⟩ := ih _ (keyed_learn hm node)
    refine ⟨hkeyed, fun id => ?_⟩
    rw [List.foldl_cons, hids id, mem_ids_learn hm node, List.mem_cons]
    tauto

/-- The seeds of a lookup. -/
theorem seeded (target : NodeId) (entries : List NodeEntry) (hm : Keyed target m) :
    Keyed target (entries.foldl (fun m e => m.insert (xorDistance e.id target) e.id) m) ∧
      ∀ id, id ∈ ids (entries.foldl (fun m e => m.insert (xorDistance e.id target) e.id) m) ↔
        id ∈ ids m ∨ ∃ e ∈ entries, e.id = id := by
  induction entries generalizing m with
  | nil => exact ⟨hm, fun id => by simp⟩
  | cons e entries ih =>
    obtain ⟨hkeyed, hids⟩ := ih (hm.insert e.id)
    refine ⟨hkeyed, fun id => ?_⟩
    rw [List.foldl_cons, hids id, mem_ids_insert hm e.id]
    simp only [List.mem_cons, exists_eq_or_imp, eq_comm (a := id)]
    tauto

/-! ## One response -/

/-- What holds of a lookup whatever the responses are. -/
structure Inv (q : IterativeQuery) : Prop where
  keyed : Keyed q.target q.candidates
  foreign : q.localId ∉ ids q.candidates
  alpha_pos : 1 ≤ q.alpha

/-- It is finished when the closest candidates have been asked. -/
def Finishes (q : IterativeQuery) : Prop :=
  (∀ id ∈ q.closestResults, id ∈ q.queried) → q.finished = true

variable {q : IterativeQuery} {r : FindNodeResponse}

/-- The candidates after a response. -/
theorem mem_ids_step (hq : Inv q) {id : NodeId} :
    id ∈ ids (q.step r).candidates ↔ id ∈ ids q.candidates ∨ id ∈ r.closerNodes ∧ id ≠ q.localId :=
  (learnAll (q.candidates, false) hq.keyed).2 id

theorem mem_known_iff (hq : Inv q) {id : NodeId} :
    id ∈ q.known r ↔ id ∈ ids (q.step r).candidates := by
  rw [mem_ids_step hq, known, List.mem_dedup, List.mem_append, List.mem_filter, decide_eq_true_eq]

theorem Inv.step (hq : Inv q) (r : FindNodeResponse) : Inv (q.step r) where
  keyed := (learnAll (q.candidates, false) hq.keyed).1
  foreign hmem := by
    rcases (mem_ids_step hq).mp hmem with h | h
    · exact hq.foreign h
    · exact h.2 rfl
  alpha_pos := hq.alpha_pos

/-- There is nothing to ask exactly if all candidates have been asked. -/
theorem nextToQuery_eq_nil_iff (hα : 1 ≤ q.alpha) :
    q.nextToQuery = [] ↔ ∀ id ∈ ids q.candidates, id ∈ q.queried := by
  rw [nextToQuery, List.take_eq_nil_iff, List.filter_eq_nil_iff]
  constructor
  · rintro (h | h) id hid
    · omega
    · simpa using h id hid
  · intro h
    refine Or.inr (fun id hid => ?_)
    simpa using h id hid

/-- **The flag after a response.** -/
theorem finished_step_iff (hq : Inv q) :
    (q.step r).finished = true ↔
      q.finished = true ∨ ∀ id ∈ ids (q.step r).candidates, id ∈ r.sender :: q.queried := by
  have hflag : (q.step r).finished
      = if (q.step r).nextToQuery.isEmpty then true else q.finished := rfl
  have hempty : (q.step r).nextToQuery = [] ↔
      ∀ id ∈ ids (q.step r).candidates, id ∈ r.sender :: q.queried :=
    nextToQuery_eq_nil_iff hq.alpha_pos
  rw [hflag, ← hempty]
  cases (q.step r).nextToQuery with
  | nil => simp
  | cons id next => simp

/-- The results after a response have not all been asked exactly if a candidate with fewer than
`k` closer ones has not. -/
theorem results_unasked_iff (hq : Inv q) :
    (¬∀ id ∈ (q.step r).closestResults, id ∈ r.sender :: q.queried) ↔
      ∃ id ∈ q.known r, id ∉ r.sender :: q.queried ∧
        ((q.known r).filter (fun id' =>
          decide (xorDistance id' q.target < xorDistance id q.target))).length < q.k := by
  have hnear : Nearest (fun id => xorDistance id q.target) q.k
      {id | id ∈ ids (q.step r).candidates} (q.step r).closestResults :=
    Nearest.nearest_take (nodup_ids (hq.step r).keyed)
      ((pairwise_ids (hq.step r).keyed).imp le_of_lt) q.k
  -- Distances from the target are different, so the nearest are those with few nearer ones.
  have hmem : ∀ {id}, id ∈ q.known r → (id ∈ (q.step r).closestResults ↔
      ((q.known r).filter
        (fun id' => decide (xorDistance id' q.target < xorDistance id q.target))).length < q.k) :=
    fun {id} hid => hnear.mem_iff (xorDistance_injective q.target).injOn (List.nodup_dedup _)
      (fun a => (mem_known_iff hq).symm) ((mem_known_iff hq).mp hid)
  push Not
  constructor
  · rintro ⟨id, hid, hunasked⟩
    have hknown : id ∈ q.known r := (mem_known_iff hq).mpr (hnear.mem id hid)
    exact ⟨id, hknown, hunasked, (hmem hknown).mp hid⟩
  · rintro ⟨id, hknown, hunasked, hlt⟩
    exact ⟨id, (hmem hknown).mpr hlt, hunasked⟩

/-- **One response.**  The lookup is finished in time exactly under the condition. -/
theorem finishes_step_iff (hq : Inv q) : (q.step r).Finishes ↔ q.Continues r := by
  have hall : (∀ id ∈ q.known r, id ∈ r.sender :: q.queried) ↔
      ∀ id ∈ ids (q.step r).candidates, id ∈ r.sender :: q.queried :=
    forall_congr' (fun id => by rw [mem_known_iff hq])
  unfold Continues
  rw [← results_unasked_iff hq, hall, ← or_assoc, ← finished_step_iff hq]
  show ((∀ id ∈ (q.step r).closestResults, id ∈ r.sender :: q.queried) →
    (q.step r).finished = true) ↔ _
  tauto

/-! ## Runs -/

/-- What a lookup knows after some responses. -/
structure Tracks (table : RoutingTable) (target : NodeId) (alpha k : ℕ)
    (responses : List FindNodeResponse) (q : IterativeQuery) : Prop where
  target_eq : q.target = target
  localId_eq : q.localId = table.localId
  alpha_eq : q.alpha = alpha
  k_eq : q.k = k
  learned : ∀ id, id ∈ ids q.candidates ↔ id ∈ Learned table target k responses
  asked : ∀ id, id ∈ q.queried ↔ id ∈ Asked responses

variable {table : RoutingTable} {alpha k : ℕ}

theorem inv_new (target : NodeId) (hα : 1 ≤ alpha) (k : ℕ)
    (hforeign : ∀ e ∈ table.entries, e.id ≠ table.localId) : Inv (new target alpha k table) := by
  obtain ⟨hkeyed, hids⟩ := seeded target (table.closest target k) keyed_empty
  refine ⟨hkeyed, fun hmem => ?_, hα⟩
  rcases (hids _).mp hmem with h | ⟨e, he, hid⟩
  · cases h
  · exact hforeign e (List.mem_mergeSort.mp (List.mem_of_mem_take he)) hid

theorem tracks_new (target : NodeId) (alpha k : ℕ) :
    Tracks table target alpha k [] (new target alpha k table) := by
  obtain ⟨-, hids⟩ := seeded target (table.closest target k) keyed_empty
  refine ⟨rfl, rfl, rfl, rfl, fun id => (hids id).trans ?_, fun id => ?_⟩
  · simp [Learned, ids, SortedMap.empty]
  · simp [new, Asked]

theorem Tracks.step {responses : List FindNodeResponse}
    (h : Tracks table target alpha k responses q) (hq : Inv q) (r : FindNodeResponse) :
    Tracks table target alpha k (responses ++ [r]) (q.step r) := by
  refine ⟨h.target_eq, h.localId_eq, h.alpha_eq, h.k_eq, fun id => ?_, fun id => ?_⟩
  · rw [mem_ids_step hq, h.learned id, h.localId_eq]
    simp only [Learned, Set.mem_ofPred_eq, List.mem_append, List.mem_singleton, or_and_right,
      exists_or, exists_eq_left]
    exact or_assoc
  · show id ∈ r.sender :: q.queried ↔ _
    rw [List.mem_cons, h.asked id]
    simp only [Asked, Set.mem_ofPred_eq, List.mem_append, List.mem_singleton, or_and_right,
      exists_or, exists_eq_left, eq_comm (a := id)]
    exact or_comm

theorem tracks_run {q₀ : IterativeQuery} (h : Tracks table target alpha k [] q₀) (hq : Inv q₀)
    (responses : List FindNodeResponse) :
    Inv (run IterativeQuery.step q₀ responses) ∧
      Tracks table target alpha k responses (run IterativeQuery.step q₀ responses) := by
  induction responses using List.reverseRecOn with
  | nil => exact ⟨hq, h⟩
  | append_singleton responses r ih =>
    rw [run_append, run_cons, run_nil]
    exact ⟨ih.1.step r, ih.2.step ih.1 r⟩

/-- A lookup that knows what it was told is correct exactly if it finishes. -/
theorem correct_iff_finishes {responses : List FindNodeResponse} (hq : Inv q)
    (h : Tracks table target alpha k responses q) :
    Correct table target alpha k responses q ↔ q.Finishes := by
  obtain ⟨rfl, hlocal, rfl, rfl, hlearned, hasked⟩ := h
  have hfinish : q.Finishes ↔
      ((∀ id ∈ q.closestResults, id ∈ Asked responses) → q.isFinished = true) := by
    unfold Finishes
    simp only [hasked]
    rfl
  rw [hfinish]
  refine ⟨fun h => h.finishes, fun hfin => ?_⟩
  have hset : {id | id ∈ ids q.candidates ∧ (!q.queried.contains id) = true}
      = {id | id ∈ Learned table q.target q.k responses ∧ id ∉ Asked responses} := by
    ext id
    simp [hlearned, ← hasked]
  -- `next_to_query` takes the first `alpha` of the sorted candidates that were not asked.
  have hnext := nearest_filter hq.keyed (fun id => !q.queried.contains id) q.alpha
  rw [hset] at hnext
  refine ⟨fun id hid hid' => ?_, fun id hid => (hnext.mem id hid).2, hnext, ?_, hfin⟩
  · have hmem := (hlearned id).mpr (hnext.mem id hid).1
    rw [hid', ← hlocal] at hmem
    exact hq.foreign hmem
  · have hall := Nearest.nearest_take (nodup_ids hq.keyed)
      ((pairwise_ids hq.keyed).imp le_of_lt) q.k
    have hset' : {id | id ∈ ids q.candidates} = Learned table q.target q.k responses := by
      ext id
      exact hlearned id
    rw [hset'] at hall
    exact hall

/-- A new lookup is not finished, which is right exactly if the table is not empty. -/
theorem finishes_new_iff (hnodup : (table.entries.map NodeEntry.id).Nodup) (target : NodeId)
    (alpha : ℕ) (hk : 1 ≤ k) : (new target alpha k table).Finishes ↔ table.totalEntries ≠ 0 := by
  have hlen := (RoutingTable.closest_of_nodup hnodup target k).length
  obtain ⟨-, hids⟩ := seeded target (table.closest target k) keyed_empty
  have hfin : (new target alpha k table).Finishes ↔
      (new target alpha k table).closestResults ≠ [] := by
    unfold Finishes
    rw [show (new target alpha k table).finished = false from rfl,
      show (new target alpha k table).queried = [] from rfl]
    simp [List.eq_nil_iff_forall_not_mem]
  have hresults : (new target alpha k table).closestResults = [] ↔ table.closest target k = [] := by
    rw [closestResults, List.take_eq_nil_iff, or_iff_right (show (new target alpha k table).k ≠ 0 by
      show k ≠ 0
      omega), List.eq_nil_iff_forall_not_mem, List.eq_nil_iff_forall_not_mem]
    constructor
    · intro h e he
      exact h e.id ((hids e.id).mpr (Or.inr ⟨e, he, rfl⟩))
    · intro h id hid
      rcases (hids id).mp hid with hnil | ⟨e, he, -⟩
      · cases hnil
      · exact h e he
  rw [hfin, ne_eq, hresults, ← List.length_eq_zero_iff, hlen]
  omega

/-- **Iterative lookups are correct** after every response, on every routing table, exactly if
the table is not empty and no response leaves the lookup unfinished with candidates to ask, of
which each has `k` closer ones. -/
theorem correct_iff_meets (localId : NodeId) (bucketSize : ℕ) (inserted : List NodeEntry)
    (target : NodeId) {alpha k : ℕ} (hα : 1 ≤ alpha) (hk : 1 ≤ k)
    (responses : List FindNodeResponse) :
    (∀ received later, responses = received ++ later →
      Correct (run RoutingTable.step (.new localId bucketSize) inserted) target alpha k received
        (run step (new target alpha k
          (run RoutingTable.step (.new localId bucketSize) inserted)) received)) ↔
      (run RoutingTable.step (.new localId bucketSize) inserted).totalEntries ≠ 0 ∧
        Meets step Continues (new target alpha k
          (run RoutingTable.step (.new localId bucketSize) inserted)) responses := by
  have htable : RoutingTable.Inv localId bucketSize
      (run RoutingTable.step (.new localId bucketSize) inserted) :=
    run_invariant_of_step (fun _ entry h => h.step entry) (RoutingTable.inv_new localId bucketSize)
      inserted
  generalize run RoutingTable.step (.new localId bucketSize) inserted = table at htable ⊢
  have hforeign : ∀ e ∈ table.entries, e.id ≠ table.localId := by
    intro e he
    obtain ⟨b, hb, heb⟩ := List.mem_flatMap.mp he
    rw [htable.localId_eq]
    exact htable.sound.foreign b hb e (Or.inl heb)
  -- After this, a state is correct exactly if it satisfies `Finishes`.
  have hinv := inv_new target hα k hforeign
  have htracks : ∀ received, _ := tracks_run (tracks_new target alpha k) hinv
  simp only [fun received => correct_iff_finishes (htracks received).1 (htracks received).2]
  rw [← finishes_new_iff htable.nodup target alpha hk]
  constructor
  · intro h
    have hstart := h [] responses rfl
    refine ⟨hstart, (always_iff_meets_of_keeps (P := Finishes) (Q := Inv)
      (fun _ r _ hq => hq.step r) (fun _ _ _ hq => finishes_step_iff hq) hstart hinv _).mp h⟩
  · rintro ⟨hstart, hmeets⟩
    exact (always_iff_meets_of_keeps (P := Finishes) (Q := Inv)
      (fun _ r _ hq => hq.step r) (fun _ _ _ hq => finishes_step_iff hq) hstart hinv _).mpr hmeets

/-- The table of the node `0`, with the node `1` in it. -/
def oneNode : RoutingTable :=
  run RoutingTable.step (.new (KBucket.entryOf 0).id 1) [KBucket.entryOf 1]

/-- A lookup of the local node in that table. -/
def lookup : IterativeQuery where
  target := (KBucket.entryOf 0).id
  localId := (KBucket.entryOf 0).id
  alpha := 1
  k := 1
  queried := []
  candidates := .insert .empty (xorDistance (KBucket.entryOf 1).id (KBucket.entryOf 0).id)
    (KBucket.entryOf 1).id
  finished := false

theorem new_oneNode : new (KBucket.entryOf 0).id 1 1 oneNode = lookup := by
  have hentries : oneNode.entries = [KBucket.entryOf 1] := by decide +kernel
  have hlocal : oneNode.localId = (KBucket.entryOf 0).id := by decide +kernel
  have hclosest : oneNode.closest (KBucket.entryOf 0).id 1 = [KBucket.entryOf 1] := by
    rw [RoutingTable.closest, hentries, List.mergeSort_singleton]
    rfl
  rw [new, hclosest, hlocal]
  rfl

/-- The only node of the table answers that it knows no others. -/
theorem correct_iff_meets_alone : 1 ≤ 1 ∧ 1 ≤ 1 ∧
    ∀ received later, [⟨(KBucket.entryOf 1).id, []⟩] = received ++ later →
      Correct oneNode (KBucket.entryOf 0).id 1 1 received
        (run step (new (KBucket.entryOf 0).id 1 1 oneNode) received) := by
  refine ⟨by decide, by decide, ?_⟩
  refine (correct_iff_meets (KBucket.entryOf 0).id 1 [KBucket.entryOf 1] (KBucket.entryOf 0).id
    (by decide) (by decide) [⟨(KBucket.entryOf 1).id, []⟩]).mpr ⟨?_, ?_, trivial⟩
  · decide +kernel
  · show Continues (new (KBucket.entryOf 0).id 1 1 oneNode) _
    rw [new_oneNode]
    exact Or.inr (Or.inl (by decide +kernel))

/-- The closest node has been asked and has named a node that is farther from the target: the
lookup goes on to ask that one. -/
theorem unfinished : ¬ (∀ received later,
    [⟨(KBucket.entryOf 1).id, [(KBucket.entryOf 2).id]⟩] = received ++ later →
      Correct oneNode (KBucket.entryOf 0).id 1 1 received
        (run step (new (KBucket.entryOf 0).id 1 1 oneNode) received)) ∧
    (run step (new (KBucket.entryOf 0).id 1 1 oneNode)
      [⟨(KBucket.entryOf 1).id, [(KBucket.entryOf 2).id]⟩]).nextToQuery
        = [(KBucket.entryOf 2).id] := by
  rw [new_oneNode]
  refine ⟨fun h => ?_, by decide +kernel⟩
  have hresults : (run step lookup
      [⟨(KBucket.entryOf 1).id, [(KBucket.entryOf 2).id]⟩]).closestResults
    = [(KBucket.entryOf 1).id] := by decide +kernel
  refine absurd ((h _ [] (List.append_nil _).symm).finishes (fun id hid => ?_)) (by decide +kernel)
  rw [hresults] at hid
  exact ⟨_, List.mem_singleton_self _, (List.mem_singleton.mp hid).symm⟩

end IterativeQuery

end Kademlia
