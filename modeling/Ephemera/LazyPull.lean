/-
# Lazy pull

A peer that announces content by `IHAVE` is remembered as a source for it.  After a timeout
the source is asked by `IWANT`, and the announcement is forgotten.  The table of announcements
is keyed by the hash alone and `or_insert` keeps the first entry, so a second peer that
announces a hash in the meantime leaves no trace; a request that cannot be sent leaves none
either.

`Remembers` is the property over all announcements of a run; `remembers_run` says that it
holds as long as neither of the two happens.
-/
import Ephemera.Gossip

namespace LazyPull

open GuardedRun Gossip

variable {W : Wire}

/-- The announcement of a step: a hash and the peer that has its content. -/
def announcement : GossipOp W → List (W.Digest × NodeId)
  | .receive _ _ sender (.iHave msg) => [(msg.contentHash, sender)]
  | _ => []

/-- The announcements of a run. -/
def announcements (ops : List (GossipOp W)) : List (W.Digest × NodeId) := ops.flatMap announcement

/-- The peer is recorded as a source to ask for the hash, or has been asked. -/
def Sourced (s : GossipState W) (hash : W.Digest) (peer : NodeId) : Prop :=
  (∃ entry, s.pendingIhaves.get? hash = some entry ∧ entry.source = peer) ∨
    (hash, peer) ∈ s.toRequest ∨ (peer, .iWant ⟨hash⟩) ∈ s.sent

/-- No announcer of content that has not been seen is forgotten. -/
def Remembers (s : GossipState W) (announced : List (W.Digest × NodeId)) : Prop :=
  ∀ hash peer, (hash, peer) ∈ announced → hash ∉ s.seen → Sourced s hash peer

/-- The condition on a step.  An announcement of unseen content finds no announcement of
another peer pending, unless its peer is a source already; and a request is sent, unless its
content has come or its peer is a source otherwise. -/
def Heeded (s : GossipState W) : GossipOp W → Prop
  | .receive _ _ sender (.iHave msg) => msg.contentHash ∈ s.seen ∨
      s.pendingIhaves.get? msg.contentHash = none ∨ Sourced s msg.contentHash sender
  | .requestNext net => ∀ hash peer rest, s.toRequest = (hash, peer) :: rest →
      hash ∈ s.seen ∨ net.sendOk peer (.iWant ⟨hash⟩) = true ∨
        Sourced { s with toRequest := rest } hash peer
  | _ => True

section Steps

variable {s : GossipState W} {announced : List (W.Digest × NodeId)}

/-- A step without an announcement that keeps all sources remembers what it did. -/
theorem Remembers.of_sources {s' : GossipState W} (h : Remembers s announced)
    (hseen : ∀ hash, hash ∉ s'.seen → hash ∉ s.seen)
    (hsources : ∀ hash peer, hash ∉ s'.seen → Sourced s hash peer → Sourced s' hash peer) :
    Remembers s' announced := by
  intro hash peer hmem hnew
  exact hsources hash peer hnew (h hash peer hmem (hseen hash hnew))

/-- Sources are kept when announcements and requests stay and sends only grow. -/
theorem Sourced.of_more {s' : GossipState W} {hash : W.Digest} {peer : NodeId}
    (h : Sourced s hash peer) (hpending : s'.pendingIhaves.get? hash = s.pendingIhaves.get? hash)
    (hrequest : s'.toRequest = s.toRequest) (hsent : s.sent ⊆ s'.sent) : Sourced s' hash peer := by
  rcases h with ⟨entry, hentry, hsource⟩ | hmem | hmem
  · exact Or.inl ⟨entry, hpending.trans hentry, hsource⟩
  · exact Or.inr (Or.inl (hrequest ▸ hmem))
  · exact Or.inr (Or.inr (hsent hmem))

theorem remembers_send (h : Remembers s announced) (net : GossipNet W) (peer : NodeId)
    (envelope : GossipEnvelope W) : Remembers (send s net peer envelope) announced := by
  obtain ⟨more, heq⟩ := send_eq s net peer envelope
  rw [heq]
  refine h.of_sources (fun _ hnew => hnew) (fun hash peer' _ hsourced => ?_)
  exact hsourced.of_more rfl rfl (List.subset_append_left _ _)

theorem remembers_fullMessage (h : Remembers s announced) (net : GossipNet W)
    (msg : GossipWireMessage W) (sender : NodeId) :
    Remembers (handleFullMessage s net msg sender) announced := by
  unfold handleFullMessage
  split
  · exact h
  · simp only
    obtain ⟨more, hforward⟩ := forward_eq (deliver { s with
      seen := msg.contentHash :: s.seen
      pendingIhaves := s.pendingIhaves.deleteWhere (fun h _ => decide (h = msg.contentHash))
      messageCache := s.messageCache.insertOrReplace msg.contentHash msg } msg) net msg sender
    rw [hforward]
    refine h.of_sources (fun hash hnew hold => hnew (List.mem_cons_of_mem _ hold)) ?_
    intro hash peer hnew hsourced
    refine hsourced.of_more ?_ rfl (List.subset_append_left _ _)
    -- the announcement that is removed is for content that has now been seen
    show (s.pendingIhaves.deleteWhere _).get? hash = _
    rw [SqlTable.get?_deleteWhere_key, if_neg]
    intro heq
    exact hnew (List.mem_cons.mpr (Or.inl (of_decide_eq_true heq)))

theorem remembers_ihave (h : Remembers s announced) (msg : IHaveMessage W) (sender : NodeId)
    (now : ℕ)
    (hok : msg.contentHash ∈ s.seen ∨ s.pendingIhaves.get? msg.contentHash = none ∨
      Sourced s msg.contentHash sender) :
    Remembers (handleIhave s msg sender now) (announced ++ [(msg.contentHash, sender)]) := by
  intro hash peer hmem hnew
  unfold handleIhave at hnew ⊢
  by_cases hseen : msg.contentHash ∈ s.seen
  · rw [if_pos hseen] at hnew ⊢
    rcases List.mem_append.mp hmem with hmem | hmem
    · exact h hash peer hmem hnew
    · obtain ⟨rfl, -⟩ := Prod.mk.inj (List.mem_singleton.mp hmem)
      exact absurd hseen hnew
  · rw [if_neg hseen] at hnew ⊢
    -- a source stays one when the announcement is inserted
    have hkeep : ∀ hash peer, Sourced s hash peer → Sourced { s with
        pendingIhaves := s.pendingIhaves.insertOrIgnore msg.contentHash
          ⟨msg.topic, sender, now, msg.origin⟩ } hash peer := by
      rintro hash peer (⟨entry, hentry, hsource⟩ | hrest)
      · exact Or.inl ⟨entry, SqlTable.get?_insertOrIgnore_eq_some.mpr (Or.inl hentry), hsource⟩
      · exact Or.inr hrest
    rcases List.mem_append.mp hmem with hmem | hmem
    · exact hkeep hash peer (h hash peer hmem hnew)
    · obtain ⟨rfl, rfl⟩ := Prod.mk.inj (List.mem_singleton.mp hmem)
      rcases hok with hok | hfree | hsourced
      · exact absurd hok hseen
      · exact Or.inl ⟨_, SqlTable.get?_insertOrIgnore_eq_some.mpr (Or.inr ⟨hfree, rfl, rfl⟩), rfl⟩
      · exact hkeep _ _ hsourced

/-- What the timeout loop takes out, it is about to ask for. -/
theorem remembers_collect (h : Remembers s announced) (lazyTimeout now : ℕ) :
    Remembers (collect lazyTimeout s now) announced := by
  unfold collect
  by_cases hidle : s.toRequest = []
  · rw [if_pos hidle]
    refine h.of_sources (fun _ hnew => hnew) ?_
    rintro hash peer hnew (⟨entry, hentry, rfl⟩ | hmem | hmem)
    · have hnew' : hash ∉ s.seen := hnew
      by_cases hout : timedOut lazyTimeout now entry = true
      · right
        left
        refine List.mem_map.mpr ⟨(hash, entry), ?_, rfl⟩
        rw [SqlTable.selectWhere, List.mem_filter, SqlTable.mem_rows_iff]
        exact ⟨hentry, by simp [hnew', hout]⟩
      · left
        refine ⟨entry, ?_, rfl⟩
        show (s.pendingIhaves.deleteWhere _).get? hash = _
        rw [SqlTable.get?_deleteWhere, hentry, Option.filter_eq_some_iff]
        exact ⟨rfl, by simp [hnew', hout]⟩
    · rw [hidle] at hmem
      cases hmem
    · exact Or.inr (Or.inr hmem)
  · rw [if_neg hidle]
    exact h

theorem remembers_requestNext (h : Remembers s announced) (net : GossipNet W)
    (hok : ∀ hash peer rest, s.toRequest = (hash, peer) :: rest →
      hash ∈ s.seen ∨ net.sendOk peer (.iWant ⟨hash⟩) = true ∨
        Sourced { s with toRequest := rest } hash peer) :
    Remembers (requestNext s net) announced := by
  unfold requestNext
  cases hreq : s.toRequest with
  | nil => exact h
  | cons request rest =>
    obtain ⟨hash₀, peer₀⟩ := request
    simp only
    obtain ⟨more, heq⟩ := send_eq { s with toRequest := rest } net peer₀ (.iWant ⟨hash₀⟩)
    have hkeep : ∀ hash peer, Sourced { s with toRequest := rest } hash peer →
        Sourced (send { s with toRequest := rest } net peer₀ (.iWant ⟨hash₀⟩)) hash peer := by
      intro hash peer hsourced
      rw [heq]
      exact hsourced.of_more rfl rfl (List.subset_append_left _ _)
    refine h.of_sources (fun hash hnew => by rw [heq] at hnew; exact hnew) ?_
    rintro hash peer hnew (hentry | hmem | hmem)
    · exact hkeep hash peer (Or.inl hentry)
    · rw [hreq] at hmem
      rcases List.mem_cons.mp hmem with hhead | hmem
      · obtain ⟨rfl, rfl⟩ := Prod.mk.inj hhead
        rcases hok hash peer rest hreq with hseen | hsend | hsourced
        · rw [heq] at hnew
          exact absurd hseen hnew
        · right
          right
          rw [send, if_pos hsend]
          exact List.mem_append_right _ (List.mem_singleton.mpr rfl)
        · exact hkeep hash peer hsourced
      · exact hkeep hash peer (Or.inr (Or.inl hmem))
    · exact hkeep hash peer (Or.inr (Or.inr hmem))

/-- What announces nothing adds nothing to remember. -/
theorem Remembers.silent {more : List (W.Digest × NodeId)} (h : Remembers s announced)
    (hmore : more = []) : Remembers s (announced ++ more) := by
  rw [hmore, List.append_nil]
  exact h

theorem remembers_receive (h : Remembers s announced) (net : GossipNet W) (now : ℕ)
    (sender : NodeId) (envelope : GossipEnvelope W)
    (hok : Heeded s (.receive net now sender envelope)) :
    Remembers (receive s net now sender envelope)
      (announced ++ announcement (.receive net now sender envelope)) := by
  cases envelope with
  | fullMessage msg => exact (remembers_fullMessage h net msg sender).silent rfl
  | iHave msg => exact remembers_ihave h msg sender now hok
  | iWant msg =>
    refine Remembers.silent ?_ rfl
    show Remembers (handleIwant s net msg sender) announced
    rw [handleIwant]
    split
    · exact remembers_send h net sender _
    · exact h

theorem remembers_step (lazyTimeout : ℕ) (h : Remembers s announced) (op : GossipOp W)
    (hok : Heeded s op) :
    Remembers (step lazyTimeout s op) (announced ++ announcement op) := by
  cases op with
  | receive net now sender envelope => exact remembers_receive h net now sender envelope hok
  | collect now => exact (remembers_collect h lazyTimeout now).silent rfl
  | requestNext net => exact (remembers_requestNext h net hok).silent rfl
  | subscribe topic => exact Remembers.silent (s := subscribe s topic) h rfl
  | unsubscribe topic => exact Remembers.silent (s := unsubscribe s topic) h rfl
  | subscriberRecv topic => exact Remembers.silent (s := subscriberRecv s topic) h rfl

end Steps

/-- **Lazy pull remembers its announcers.**  In every run, from any state, in which each step
meets `Heeded`: each peer that has announced content by `IHAVE` is recorded as a source to ask
or has been asked by `IWANT`, as long as the content has not been seen. -/
theorem remembers_run (lazyTimeout : ℕ) (start : GossipState W) (ops : List (GossipOp W))
    (hok : Meets (step lazyTimeout) Heeded start ops) :
    Remembers (run (step lazyTimeout) start ops) (announcements ops) := by
  have hgen : ∀ (s : GossipState W) (announced : List (W.Digest × NodeId)),
      Remembers s announced → Meets (step lazyTimeout) Heeded s ops →
      Remembers (run (step lazyTimeout) s ops) (announced ++ announcements ops) := by
    clear hok
    induction ops with
    | nil =>
      intro s announced h _
      rwa [announcements, List.flatMap_nil, List.append_nil]
    | cons op ops ih =>
      intro s announced h hok
      have hnext := ih _ _ (remembers_step lazyTimeout h op hok.1) hok.2
      rwa [List.append_assoc] at hnext
  exact hgen start [] (fun _ _ hmem _ => (by cases hmem)) hok

/-! ## Two announcers -/

/-- A transport that sends all it is given. -/
def reliable : GossipNet Wire.symbolic := ⟨[], fun _ _ => true⟩

/-- A peer announces some content. -/
def announces (peer : NodeId) (now : ℕ) : GossipOp Wire.symbolic :=
  .receive reliable now peer (.iHave ⟨[7], .str "content", peer⟩)

/-- A second peer announces the content after the first one was asked for it. -/
theorem remembers_late_announcer :
    Remembers (run (step 2000) (new [0])
        [announces [1] 0, .collect 2000, .requestNext reliable, announces [2] 3000])
      (announcements
        [announces [1] 0, .collect 2000, .requestNext reliable, announces [2] 3000]) := by
  refine remembers_run 2000 (new [0]) _ ?_
  refine ⟨Or.inr (Or.inl rfl), trivial, fun _ _ _ _ => Or.inr (Or.inl rfl), ?_, trivial⟩
  exact Or.inr (Or.inl (by with_unfolding_all rfl))

/-- A second peer announces the content before the timeout of the first one, which never
answers: the second one is not asked. -/
theorem second_announcer_forgotten :
    ¬Remembers (run (step 2000) (new [0])
        [announces [1] 0, announces [2] 100, .collect 2000, .requestNext reliable])
      (announcements
        [announces [1] 0, announces [2] 100, .collect 2000, .requestNext reliable]) := by
  intro h
  have hpending : (run (step 2000) (new [0]) [announces [1] 0, announces [2] 100, .collect 2000,
      .requestNext reliable]).pendingIhaves.get? (.str "content") = none := by
    with_unfolding_all rfl
  have hrequest : (run (step 2000) (new [0]) [announces [1] 0, announces [2] 100, .collect 2000,
      .requestNext reliable]).toRequest = [] := by
    with_unfolding_all rfl
  have hsent : (run (step 2000) (new [0]) [announces [1] 0, announces [2] 100, .collect 2000,
      .requestNext reliable]).sent = [([1], .iWant ⟨.str "content"⟩)] := by
    with_unfolding_all rfl
  have hmem : ((.str "content", [2]) : Wire.symbolic.Digest × NodeId) ∈ announcements
      [announces [1] 0, announces [2] 100, .collect 2000, .requestNext reliable] :=
    List.mem_cons_of_mem _ List.mem_cons_self
  rcases h (.str "content") [2] hmem (by with_unfolding_all exact List.not_mem_nil) with
    ⟨entry, hentry, -⟩ | hreq | hasked
  · rw [hpending] at hentry
    cases hentry
  · rw [hrequest] at hreq
    cases hreq
  · rw [hsent] at hasked
    have hpeer := (Prod.mk.inj (List.mem_singleton.mp hasked)).1
    exact absurd hpeer (by decide)

end LazyPull
