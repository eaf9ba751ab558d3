/-
# Media over runs of a node (`services/media.rs`, `gc.rs`)

A file is refused that repeats one of its chunks, that has a chunk of a file stored before, or
that another post has at the same position, although the hash of a chunk is there to check its
bytes.  The post is stored all the same, with the attachments and chunks inserted before the one
that is refused.

`media_stored_iff_meets` is the exact condition on a run, over all files that `create` is given,
for each of them to be stored and for all of them to be read back.  A `MediaLedger` keeps the
bytes of the files beside the node, to compare them with what is read.
-/
import Ephemera.MediaStorage

namespace MediaService

open StateExcept

variable {W : Wire} {P : NodePrimitives}

/-! ## The files of a run -/

/-- The bytes of the files that were stored under each id, with those of `items` added. -/
def record (originals : String → Option (List UInt8)) (items : List (String × List UInt8)) :
    String → Option (List UInt8) :=
  items.foldl (fun o item => Function.update o item.1 (some item.2)) originals

/-- Every attachment has the chunks of the bytes recorded for it, and every chunk belongs to an
attachment. -/
structure Recorded (P : NodePrimitives) (db : NodeDb W)
    (originals : String → Option (List UInt8)) : Prop where
  owned : ∀ hash chunk, db.mediaChunks.get? hash = some chunk →
    db.mediaAttachments.get? chunk.mediaId ≠ none
  media : ∀ id a, db.mediaAttachments.get? id = some a → ∃ data, originals id = some data ∧
    a.chunkCount = (UInt64.ofNat (chunkCount P data)).toInt64 ∧
    chunksOf db id = chunkRows P id data

/-- No stored file has more chunks than there are indices. -/
def AllFit (P : NodePrimitives) (db : NodeDb W) (originals : String → Option (List UInt8)) :
    Prop :=
  ∀ id data, db.mediaAttachments.get? id ≠ none → originals id = some data →
    chunkCount P data ≤ 2 ^ 32

/-- Every attachment can be read back. -/
def AllRetrievable (db : NodeDb W) (originals : String → Option (List UInt8)) : Prop :=
  ∀ id a, db.mediaAttachments.get? id = some a → ∃ data, originals id = some data ∧
    Retrievable db id data

theorem Recorded.allRetrievable_iff {db : NodeDb W} {originals : String → Option (List UInt8)}
    (h : Recorded P db originals) : AllRetrievable db originals ↔ AllFit P db originals := by
  constructor
  · intro hall id data hsome hdata
    obtain ⟨a, ha⟩ := Option.ne_none_iff_exists'.mp hsome
    obtain ⟨data', hdata', hcount, hrows⟩ := h.media id a ha
    obtain ⟨data'', hdata'', hret⟩ := hall id a ha
    rw [hdata, Option.some.injEq] at hdata' hdata''
    subst hdata' hdata''
    exact (retrievable_iff ha hcount hrows).mp hret
  · intro hfit id a ha
    obtain ⟨data, hdata, hcount, hrows⟩ := h.media id a ha
    refine ⟨data, hdata, (retrievable_iff ha hcount hrows).mpr (hfit id data ?_ hdata)⟩
    rw [ha]
    exact Option.some_ne_none a

/-- The chunks of the other attachments are left by a file that is added. -/
theorem chunksOf_adds {db db' : NodeDb W} {item : String × List UInt8}
    (hroom : Room P db [item]) (hadds : Adds P db db' item) (id : String) :
    chunksOf db' id
      = chunksOf db id ++ if id = item.1 then chunkRows P item.1 item.2 else [] := by
  obtain ⟨a, -, -, hchunks⟩ := hadds
  have hfresh : db.mediaChunks.Fresh ((chunkRows P item.1 item.2).map Prod.fst) := by
    rw [map_fst_chunkRows]
    have hkeys := hroom.2
    rwa [List.flatMap_singleton] at hkeys
  rw [chunksOf, SqlTable.selectWhere, hchunks, SqlTable.rows_insertAll hfresh, List.filter_append]
  congr 1
  have hown : ∀ r ∈ chunkRows P item.1 item.2, r.2.mediaId = item.1 := by
    intro r hr
    obtain ⟨chunk, -, rfl⟩ := List.mem_map.mp hr
    rfl
  split
  · next heq =>
    refine List.filter_eq_self.mpr (fun r hr => ?_)
    rw [hown r hr, heq]
    exact decide_eq_true rfl
  · next hne =>
    refine List.filter_eq_nil_iff.mpr (fun r hr => ?_)
    rw [hown r hr, decide_eq_true_eq]
    exact fun heq => hne heq.symm

/-- A file that is added is recorded with its bytes. -/
theorem Recorded.adds {db db' : NodeDb W} {originals : String → Option (List UInt8)}
    {item : String × List UInt8} (h : Recorded P db originals) (hroom : Room P db [item])
    (hadds : Adds P db db' item) :
    Recorded P db' (Function.update originals item.1 (some item.2)) := by
  have hnew : db.mediaAttachments.get? item.1 = none := hroom.1.2 item.1 (by simp)
  have hchunks := chunksOf_adds hroom hadds
  obtain ⟨a, hcount, hatt, hinsert⟩ := hadds
  have hget := SqlTable.get?_insertOrIgnore db.mediaAttachments item.1 a
  constructor
  · intro hash chunk hchunk
    have hmem : (hash, chunk) ∈ chunksOf db' chunk.mediaId :=
      List.mem_filter.mpr ⟨SqlTable.mem_rows_iff.mpr hchunk, decide_eq_true rfl⟩
    rw [hatt, hget]
    split
    · exact Option.some_ne_none _
    · next hne =>
      rw [hchunks, if_neg hne, List.append_nil] at hmem
      exact h.owned hash chunk (SqlTable.mem_rows_iff.mp (List.mem_filter.mp hmem).1)
  · intro id a' ha'
    rw [hatt, hget] at ha'
    rw [hchunks]
    split at ha'
    · next heq =>
      subst heq
      rw [hnew, Option.getD_none, Option.some.injEq] at ha'
      subst ha'
      -- no chunk had the new id before
      have hnone : chunksOf db item.1 = [] := by
        refine List.eq_nil_iff_forall_not_mem.mpr (fun r hr => ?_)
        obtain ⟨hr, hid⟩ := List.mem_filter.mp hr
        have howned := h.owned r.1 r.2 (SqlTable.mem_rows_iff.mp hr)
        rw [of_decide_eq_true hid] at howned
        exact howned hnew
      refine ⟨item.2, Function.update_self .., hcount, ?_⟩
      rw [hnone, if_pos rfl, List.nil_append]
    · next hne =>
      obtain ⟨data, hdata, hcount', hrows⟩ := h.media id a' ha'
      refine ⟨data, ?_, hcount', ?_⟩
      · rw [Function.update_of_ne hne]
        exact hdata
      · rw [if_neg hne, List.append_nil]
        exact hrows

/-- All stored files fit after one is added exactly if they did and the new one does. -/
theorem allFit_adds_iff {db db' : NodeDb W} {originals : String → Option (List UInt8)}
    {item : String × List UInt8} (hroom : Room P db [item]) (hadds : Adds P db db' item) :
    AllFit P db' (Function.update originals item.1 (some item.2)) ↔
      AllFit P db originals ∧ chunkCount P item.2 ≤ 2 ^ 32 := by
  have hnew : db.mediaAttachments.get? item.1 = none := hroom.1.2 item.1 (by simp)
  obtain ⟨a, -, hatt, -⟩ := hadds
  have hget := SqlTable.get?_insertOrIgnore db.mediaAttachments item.1 a
  constructor
  · intro h
    constructor
    · intro id data hsome hdata
      have hne : id ≠ item.1 := fun heq => hsome (heq ▸ hnew)
      refine h id data ?_ ?_
      · rw [hatt, hget, if_neg hne]
        exact hsome
      · rw [Function.update_of_ne hne]
        exact hdata
    · refine h item.1 item.2 ?_ (Function.update_self ..)
      rw [hatt, hget, if_pos rfl]
      exact Option.some_ne_none _
  · rintro ⟨hall, hfits⟩ id data hsome hdata
    by_cases heq : id = item.1
    · rw [heq, Function.update_self, Option.some.injEq] at hdata
      exact hdata ▸ hfits
    · rw [hatt, hget, if_neg heq] at hsome
      rw [Function.update_of_ne heq] at hdata
      exact hall id data hsome hdata

/-- The same for the files of a post. -/
theorem Recorded.addsAll {db db' : NodeDb W} {originals : String → Option (List UInt8)}
    {items : List (String × List UInt8)} (h : Recorded P db originals) (hroom : Room P db items)
    (hadds : AddsAll P db db' items) :
    Recorded P db' (record originals items) ∧
      (AllFit P db' (record originals items) ↔
        AllFit P db originals ∧ ∀ item ∈ items, chunkCount P item.2 ≤ 2 ^ 32) := by
  induction items generalizing db originals with
  | nil =>
    obtain ⟨hatt, hchunks⟩ := hadds
    have hsame : ∀ id, chunksOf db' id = chunksOf db id := by
      intro id
      rw [chunksOf, chunksOf, hchunks]
    refine ⟨⟨?_, ?_⟩, ?_⟩
    · rw [hchunks, hatt]
      exact h.owned
    · intro id a ha
      rw [hsame]
      exact h.media id a (hatt ▸ ha)
    · simp [AllFit, hatt, record]
  | cons item items ih =>
    obtain ⟨db₁, hfirst, hrest⟩ := hadds
    obtain ⟨hroom₁, hroom'⟩ := (room_cons_iff hfirst).mp hroom
    obtain ⟨hrec, hfit⟩ := ih (h.adds hroom₁ hfirst) hroom' hrest
    refine ⟨hrec, hfit.trans ?_⟩
    rw [allFit_adds_iff hroom₁ hfirst, List.forall_mem_cons, and_assoc]

/-! ## Events -/

/-- A sweep leaves the chunks of the attachments it leaves. -/
theorem chunksOf_sweep {config : GcConfig} {order : SweepOrder} {now : Int64} {s : NodeStore W}
    {id : String} {a : MediaAttachment} (ha : s.db.mediaAttachments.get? id = some a)
    (hpost : a.postHash ∉ GarbageCollector.batch config order now s.db) :
    chunksOf (GarbageCollector.sweep config order now s).2.db id = chunksOf s.db id := by
  have hfold : ∀ (hashes : List (List UInt8)) (s : NodeStore W),
      s.db.mediaAttachments.get? id = some a → a.postHash ∉ hashes →
        chunksOf (hashes.foldl GarbageCollector.expireMedia s).db id = chunksOf s.db id := by
    intro hashes
    induction hashes with
    | nil => exact fun _ _ _ => rfl
    | cons hash hashes ih =>
      intro s ha hnot
      rw [List.mem_cons, not_or] at hnot
      rw [List.foldl_cons, ih _ ?_ hnot.2]
      · -- the chunks of `id` are not among those that are deleted
        unfold chunksOf GarbageCollector.expireMedia
        simp only [SqlTable.existsWhere_key, SqlTable.selectWhere, SqlTable.deleteWhere,
          List.filter_filter]
        refine List.filter_congr (fun r _ => ?_)
        by_cases hid : r.2.mediaId = id
        · simp [hid, ha, hnot.1]
        · simp [hid]
      · show (s.db.mediaAttachments.deleteWhere _).get? id = some a
        rw [SqlTable.get?_deleteWhere, ha]
        simp [Option.filter, hnot.1]
  have hkept : chunksOf (GarbageCollector.completeSweep config order now s).db id
      = chunksOf s.db id :=
    hfold (GarbageCollector.batch config order now s.db) _ ha hpost
  rw [chunksOf, (GarbageCollector.media_sweep config order now s).2]
  exact hkept

/-- A sweep keeps the record of the attachments it leaves. -/
theorem Recorded.sweep {s : NodeStore W} {originals : String → Option (List UInt8)}
    (h : Recorded P s.db originals) (config : GcConfig) (order : SweepOrder) (now : Int64) :
    Recorded P (GarbageCollector.sweep config order now s).2.db originals := by
  constructor
  · intro hash chunk hchunk
    rw [GarbageCollector.get?_mediaChunks_sweep, Option.filter_eq_some_iff] at hchunk
    obtain ⟨hchunk, hkept⟩ := hchunk
    obtain ⟨a, ha⟩ := Option.ne_none_iff_exists'.mp (h.owned hash chunk hchunk)
    rw [ha, Option.any_some] at hkept
    rw [GarbageCollector.get?_mediaAttachments_sweep, ha]
    simp only [Bool.not_eq_true', decide_eq_false_iff_not] at hkept
    simp [Option.filter, hkept]
  · intro id a ha
    rw [GarbageCollector.get?_mediaAttachments_sweep, Option.filter_eq_some_iff,
      decide_eq_true_eq] at ha
    obtain ⟨data, hdata, hcount, hrows⟩ := h.media id a ha.1
    exact ⟨data, hdata, hcount, (chunksOf_sweep ha.1 ha.2).trans hrows⟩

theorem AllFit.sweep {s : NodeStore W} {originals : String → Option (List UInt8)}
    (h : AllFit P s.db originals) (config : GcConfig) (order : SweepOrder) (now : Int64) :
    AllFit P (GarbageCollector.sweep config order now s).2.db originals := by
  intro id data hsome hdata
  refine h id data (fun hnone => hsome ?_) hdata
  rw [GarbageCollector.get?_mediaAttachments_sweep, hnone]
  rfl

/-- The tables of media. -/
def mediaTables (s : NodeStore W) : SqlTable String MediaAttachment × SqlTable String StoredChunk :=
  (s.db.mediaAttachments, s.db.mediaChunks)

/-- Only the creation of posts and the sweeps write the tables of media. -/
theorem mediaTables_step (P : NodePrimitives) (s : NodeStore W) {e : StoreEvent}
    (hcreate : ∀ env body files ttlSeconds parent, e ≠ .create env body files ttlSeconds parent)
    (hsweep : ∀ config order now, e ≠ .sweep config order now) :
    mediaTables (s.step P e) = mediaTables s := by
  have hdelete : ∀ (now : ClockReading) hashHex (s : NodeStore W),
      mediaTables (exec (PostService.delete now hashHex) s).2 = mediaTables s := fun now hashHex =>
    NodeStore.keeps_delete (fun _ _ => rfl) now hashHex
  cases e with
  | create env body files ttlSeconds parent => exact absurd rfl (hcreate _ _ _ _ _)
  | delete env hashHex => exact hdelete _ _ s
  | deleteAndPropagate env network hashHex =>
    rw [NodeStore.step, NodeStore.exec_deleteAndPropagate]
    exact hdelete _ _ s
  | gossip now abuse payload =>
    rcases NodeStore.gossipIngest_cases P now abuse payload s with heq | ⟨post, -, -, heq⟩
    · rw [NodeStore.step, heq]
    · rw [NodeStore.step, heq]
      rfl
  | moderation now publisher payload =>
    rw [NodeStore.step, NodeStore.moderationIngest]
    cases NodeStore.tombstoneTarget P payload <;> rfl
  | report env hash reason =>
    rcases NodeStore.report_cases env hash reason s with hdb | ⟨contentId, reports, -, -, heq⟩
    · rw [NodeStore.step, mediaTables, hdb]
      rfl
    · rw [NodeStore.step, heq]
      exact hdelete env.now hash { s with reports := reports }
  | seedReport reporter contentId reason =>
    rw [NodeStore.step, mediaTables, NodeStore.db_seedReport]
    rfl
  | sweep config order now => exact absurd rfl (hsweep _ _ _)

/-- What is added depends on the tables of media alone. -/
theorem AddsAll.of_eq {s₁ s₂ : NodeStore W} {db' : NodeDb W} {items : List (String × List UInt8)}
    (heq : mediaTables s₁ = mediaTables s₂) (h : AddsAll P s₁.db db' items) :
    AddsAll P s₂.db db' items := by
  obtain ⟨hatt, hchunks⟩ := Prod.mk.inj heq
  cases items with
  | nil => exact ⟨h.1.trans hatt, h.2.trans hchunks⟩
  | cons item items =>
    obtain ⟨db₁, ⟨a, hcount, hatt₁, hchunks₁⟩, hrest⟩ := h
    exact ⟨db₁, ⟨a, hcount, hatt ▸ hatt₁, hchunks ▸ hchunks₁⟩, hrest⟩

end MediaService

/-! ## Runs -/

/-- A node, and the bytes of the files that were stored under each id. -/
structure MediaLedger (W : Wire) where
  store : NodeStore W
  originals : String → Option (List UInt8)

namespace MediaLedger

open StateExcept GuardedRun MediaService

variable {W : Wire} (P : NodePrimitives)

/-- The files that are given to `store_image` and `store_video` by an event: those of a post that
is prepared and not stored yet. -/
def given (s : NodeStore W) : StoreEvent → List (String × List UInt8)
  | .create env body files ttlSeconds parent =>
    match PostService.prepare P env body files ttlSeconds parent with
    | .ok prepared =>
      if s.db.posts.get? prepared.1.id.toWireBytes = none then acceptedMedia P 0 files else []
    | .error _ => []
  | _ => []

/-- The node after an event. -/
def step (l : MediaLedger W) (e : StoreEvent) : MediaLedger W :=
  ⟨l.store.step P e, record l.originals (given P l.store e)⟩

/-- A new node. -/
def new : MediaLedger W := ⟨.empty, fun _ => none⟩

/-- The call, if it is given files, does not fail. -/
def StoresGiven (s : NodeStore W) : StoreEvent → Prop
  | .create env body files ttlSeconds parent =>
    given P s (.create env body files ttlSeconds parent) ≠ [] →
      ∃ created s', exec (PostService.create P env body files ttlSeconds parent) s
        = (.ok created, s')
  | _ => True

/-- **What the event is to do**: store the files it is given, so that they and all others can be
read back. -/
def StoresWell (l : MediaLedger W) (e : StoreEvent) : Prop :=
  StoresGiven P l.store e ∧ AllRetrievable (l.step P e).store.db (l.step P e).originals

/-- **The condition on an event.**  There is room for the files it is given, and none has more
than 2^32 chunks. -/
def Storable (l : MediaLedger W) (e : StoreEvent) : Prop :=
  Room P l.store.db (given P l.store e) ∧
    ∀ item ∈ given P l.store e, chunkCount P item.2 ≤ 2 ^ 32

/-- The tables hold the files that were recorded. -/
def Inv (l : MediaLedger W) : Prop :=
  Recorded P l.store.db l.originals ∧ AllFit P l.store.db l.originals

variable {P}

/-- An event that is given no files and keeps the record meets both sides. -/
theorem storesWell_of_given_nil {l : MediaLedger W} {e : StoreEvent}
    (hnone : given P l.store e = []) (hkept : (l.step P e).Inv P) :
    (StoresWell P l e ↔ Storable P l e) ∧ (l.step P e).Inv P := by
  refine ⟨⟨fun _ => ?_, fun _ => ⟨?_, hkept.1.allRetrievable_iff.mpr hkept.2⟩⟩, hkept⟩
  · rw [Storable, hnone]
    exact ⟨room_nil, by simp⟩
  · cases e with
    | create env body files ttlSeconds parent => exact fun h => absurd hnone h
    | _ => trivial

/-- An event that leaves the tables of media keeps the record. -/
theorem inv_of_mediaTables {l : MediaLedger W} {e : StoreEvent} (h : l.Inv P)
    (hnone : given P l.store e = [])
    (htables : mediaTables (l.store.step P e) = mediaTables l.store) : (l.step P e).Inv P := by
  have hadds : AddsAll P l.store.db (l.store.step P e).db (given P l.store e) := by
    obtain ⟨hatt, hchunks⟩ := Prod.mk.inj htables
    rw [hnone]
    exact ⟨hatt, hchunks⟩
  have hroom : Room P l.store.db (given P l.store e) := by
    rw [hnone]
    exact room_nil
  obtain ⟨hrec, hfit⟩ := h.1.addsAll hroom hadds
  exact ⟨hrec, hfit.mpr ⟨h.2, by rw [hnone]; simp⟩⟩

/-- The creation of a post stores the files it is given if there is room for them. -/
theorem exec_create_given (s : NodeStore W) (env : PostEnv) (body : String)
    (files : List MediaFile) (ttlSeconds : Option UInt64) (parent : Option String) :
    (given P s (.create env body files ttlSeconds parent) = [] ∧
      mediaTables (exec (PostService.create P env body files ttlSeconds parent) s).2
        = mediaTables s) ∨
    ((Room P s.db (given P s (.create env body files ttlSeconds parent)) →
      ∃ created s', exec (PostService.create P env body files ttlSeconds parent) s
        = (.ok created, s') ∧
        AddsAll P s.db s'.db (given P s (.create env body files ttlSeconds parent))) ∧
    (¬ Room P s.db (given P s (.create env body files ttlSeconds parent)) →
      ∃ e s', exec (PostService.create P env body files ttlSeconds parent) s
        = (.error e, s'))) := by
  rw [exec_create, given]
  cases hprep : PostService.prepare P env body files ttlSeconds parent with
  | error e => exact .inl ⟨rfl, rfl⟩
  | ok prepared =>
    by_cases hnew : s.db.posts.get? prepared.1.id.toWireBytes = none
    · simp only [if_pos hnew]
      obtain ⟨hok, herr⟩ := exec_storeAll (accepted_of_prepare hprep) env.now
        prepared.1.id.toWireBytes 0 (withPost P s env body files prepared)
      refine .inr ⟨fun hroom => ?_, fun hroom => ?_⟩
      · obtain ⟨s', hexec, hadds⟩ := hok hroom
        have htables : mediaTables (withPost P s env body files prepared) = mediaTables s := rfl
        rw [exec_bind, hexec]
        exact ⟨_, s', rfl, hadds.of_eq htables⟩
      · obtain ⟨e, s', hexec⟩ := herr hroom
        rw [exec_bind, hexec]
        exact ⟨e, s', rfl⟩
    · simp only [if_neg hnew]
      exact .inl ⟨trivial, rfl⟩

/-- **Each event** stores its files well exactly under the condition, and then keeps the
record. -/
theorem storesWell_iff {l : MediaLedger W} (h : l.Inv P) (e : StoreEvent) :
    (StoresWell P l e ↔ Storable P l e) ∧ (Storable P l e → (l.step P e).Inv P) := by
  have hother : given P l.store e = [] → (l.step P e).Inv P →
      (StoresWell P l e ↔ Storable P l e) ∧ (Storable P l e → (l.step P e).Inv P) := by
    intro hnone hkept
    exact ⟨(storesWell_of_given_nil hnone hkept).1, fun _ => hkept⟩
  cases e with
  | create env body files ttlSeconds parent =>
    rcases exec_create_given l.store env body files ttlSeconds parent with
      ⟨hnone, htables⟩ | ⟨hok, herr⟩
    · exact hother hnone (inv_of_mediaTables h hnone htables)
    by_cases hroom : Room P l.store.db
        (given P l.store (.create env body files ttlSeconds parent))
    · obtain ⟨created, s', hexec, hadds⟩ := hok hroom
      have hstore : l.store.step P (.create env body files ttlSeconds parent) = s' := by
        rw [NodeStore.step, hexec]
      rw [← hstore] at hadds
      obtain ⟨hrec, hfit⟩ := h.1.addsAll hroom hadds
      refine ⟨⟨?_, ?_⟩, ?_⟩
      · rintro ⟨-, hall⟩
        exact ⟨hroom, (hfit.mp (hrec.allRetrievable_iff.mp hall)).2⟩
      · rintro ⟨-, hfits⟩
        exact ⟨fun _ => ⟨created, s', hexec⟩, hrec.allRetrievable_iff.mpr (hfit.mpr ⟨h.2, hfits⟩)⟩
      · rintro ⟨-, hfits⟩
        exact ⟨hrec, hfit.mpr ⟨h.2, hfits⟩⟩
    · obtain ⟨e, s', hexec⟩ := herr hroom
      have hgiven : given P l.store (.create env body files ttlSeconds parent) ≠ [] := by
        intro hnone
        rw [hnone] at hroom
        exact hroom room_nil
      refine ⟨⟨?_, fun hstorable => absurd hstorable.1 hroom⟩,
        fun hstorable => absurd hstorable.1 hroom⟩
      rintro ⟨hstores, -⟩
      obtain ⟨created, s'', hexec'⟩ := hstores hgiven
      rw [hexec] at hexec'
      cases hexec'
  | sweep config order now =>
    exact hother rfl ⟨h.1.sweep config order now.secs.toInt64, h.2.sweep config order _⟩
  | _ =>
    exact hother rfl (inv_of_mediaTables h rfl (mediaTables_step P l.store (by simp) (by simp)))

/-- **Every file is stored and can be read back**, over a whole run of a node from its start,
exactly if each post that is stored finds room for its files: their attachments have new ids, and
no two of their chunks have the same hash, nor one of them the hash of a stored chunk. -/
theorem media_stored_iff_meets (P : NodePrimitives) (events : List StoreEvent) :
    (∀ l₁ e l₂, events = l₁ ++ e :: l₂ →
      StoresWell P (run (step P) (new : MediaLedger W) l₁) e) ↔
    Meets (step P) (Storable P) (new : MediaLedger W) events := by
  have hnew : (new : MediaLedger W).Inv P := by
    refine ⟨⟨fun hash chunk h => ?_, fun id a h => ?_⟩, fun id data _ h => ?_⟩
    · cases h
    · cases h
    · cases h
  exact forall_split_iff_meets (Inv P) (fun l e _ h => (storesWell_iff h e).1)
    (fun l e _ h hok => (storesWell_iff h e).2 hok) hnew

/-! ## One picture in two posts -/

open TinyNode

/-- `alice` posts the picture of her first post again. -/
def samePicture : StoreEvent :=
  .create (callBy alice noon) "yo" [⟨[5, 6], "cat.png"⟩] (some 86400) none

/-- **The same file cannot be in two posts.**  The second post is stored, and its picture is
refused. -/
theorem samePicture_refused :
    ¬ ∀ events l₁ e l₂, events = l₁ ++ e :: l₂ →
      StoresWell primitives
        (run (step primitives) (new : MediaLedger Wire.symbolic) l₁) e := by
  intro h
  have hwell := h _ [.create (callBy alice noon) "hi" [⟨[5, 6], "cat.png"⟩] (some 3600) none]
    samePicture [] rfl
  have hgiven : given primitives afterHi samePicture ≠ [] := by decide +kernel
  obtain ⟨created, s', hexec⟩ := hwell.1 hgiven
  have hfails : (exec (PostService.create primitives (callBy alice noon) "yo"
      [⟨[5, 6], "cat.png"⟩] (some 86400) none) afterHi).1.toOption.isNone = true := by
    decide +kernel
  have hresult : exec (PostService.create primitives (callBy alice noon) "yo"
      [⟨[5, 6], "cat.png"⟩] (some 86400) none) afterHi = (.ok created, s') := hexec
  rw [hresult] at hfails
  cases hfails

end MediaLedger
