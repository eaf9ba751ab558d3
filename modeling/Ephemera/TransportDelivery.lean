/-
# What the transport delivers (`ephemera-transport/src/iroh_transport.rs`)

`EndView` is what a run has done at one end of a connection, and `EndView.Moves` says once what
an action can change of it (`view_step`).  An account of the messages accepted at an end follows:
each is in the channel, on a stream, with the reader at the other end, on a stream that broke off
under that reader, or lost.

`received_subperm_sent` bounds what arrives by what was sent.  `delivered_while_running` is the
other direction: an end whose writer runs has lost nothing but messages over the frame size and
those whose stream broke off.  `crossed_connections` says what becomes of two nodes that keep
different connections to each other.
-/
import Ephemera.IrohTransport
import Mathlib.Data.List.Perm.Subperm

namespace IrohTransport

open GuardedRun

variable {N : Type} [DecidableEq N]

/-! ## One end -/

/-- The entries of a log that belong to an end. -/
def ofEnd (log : List (End N × List UInt8)) (e : End N) : List (List UInt8) :=
  (log.filter (fun x => x.1 = e)).map Prod.snd

@[simp] theorem ofEnd_nil (e : End N) : ofEnd [] e = [] := rfl

theorem ofEnd_concat (log : List (End N × List UInt8)) (f : End N) (data : List UInt8) (e : End N) :
    ofEnd (log ++ [(f, data)]) e = if f = e then ofEnd log e ++ [data] else ofEnd log e := by
  rw [ofEnd, List.filter_append, List.map_append]
  by_cases h : f = e
  · rw [if_pos h, List.filter_singleton, decide_eq_true h]
    rfl
  · rw [if_neg h, List.filter_singleton, decide_eq_false h]
    exact List.append_nil _

/-- What a run has done at one end: its state, the messages accepted for it, those of them that
the reader at the other end forwarded, the streams that broke off under that reader, and the
messages that its own reader forwarded. -/
structure EndView where
  state : EndState
  accepted : List (List UInt8)
  arrived : List (List UInt8)
  unread : List (List UInt8)
  received : List (List UInt8)

/-- The view of one end. -/
def view (net : Net N) (e : End N) : EndView :=
  ⟨net.ends e, ofEnd net.accepted e, ofEnd net.forwarded e.other, ofEnd net.unread e,
    ofEnd net.forwarded e⟩

/-- What an action can change at one end. -/
inductive EndView.Moves (v : EndView) : EndView → Prop where
  | stays : Moves v v
  | readerStops : Moves v { v with state := { v.state with reading := false } }
  | turnedAway (h : v.state.writer = .pending) :
      Moves v { v with state := { v.state with writer := .turnedAway } }
  | starts (h : v.state.writer = .pending) :
      Moves v { v with state := { v.state with writer := .running, reading := true } }
  | takes (data : List UInt8) (h : v.state.writer = .running)
      (hroom : v.state.queue.length < outboundCapacity) :
      Moves v { v with
        state := { v.state with queue := v.state.queue ++ [data] }
        accepted := v.accepted ++ [data] }
  | writes {data : List UInt8} {rest : List (List UInt8)} (h : v.state.writer = .running)
      (hq : v.state.queue = data :: rest) :
      Moves v { v with
        state := { v.state with queue := rest, streams := v.state.streams ++ [frame data] } }
  | fails {data : List UInt8} {rest : List (List UInt8)} (k : ℕ) (h : v.state.writer = .running)
      (hq : v.state.queue = data :: rest) :
      Moves v { v with state := { v.state with
        writer := .ended, queue := [], streams := v.state.streams ++ [(frame data).take k] } }
  | notOpened (h : v.state.writer = .running) :
      Moves v { v with state := { v.state with writer := .ended, queue := [] } }
  | drained (h : v.state.writer = .running) (hq : v.state.queue = []) :
      Moves v { v with state := { v.state with writer := .ended } }
  | cleanUp (h : v.state.writer = .ended) :
      Moves v { v with state := { v.state with writer := .finished } }
  | skipped {i : ℕ} {stream : List UInt8} (h : v.state.streams[i]? = some stream)
      (hread : readStream stream = none) :
      Moves v { v with state := { v.state with streams := v.state.streams.eraseIdx i } }
  | reads {i : ℕ} {stream payload : List UInt8} (h : v.state.streams[i]? = some stream)
      (hread : readStream stream = some payload) :
      Moves v { v with
        state := { v.state with streams := v.state.streams.eraseIdx i }
        arrived := v.arrived ++ [payload] }
  | breaksOff {i : ℕ} {stream : List UInt8} (h : v.state.streams[i]? = some stream) :
      Moves v { v with
        state := { v.state with streams := v.state.streams.eraseIdx i }
        unread := v.unread ++ [stream] }
  | receives (payload : List UInt8) (h : v.state.reading = true) :
      Moves v { v with received := v.received ++ [payload] }

variable {net : Net N}

/-- The view after a change of one end. -/
theorem view_setEnd (net : Net N) (e : End N) (s : EndState) (f : End N) :
    view (net.setEnd e s) f = if f = e then { view net f with state := s } else view net f := by
  rw [view, Net.ends_setEnd]
  split
  · rfl
  · rfl

/-- A change of one end that is a move there is one everywhere. -/
theorem moves_setEnd {e : End N} {s : EndState}
    (h : (view net e).Moves { view net e with state := s }) (f : End N) :
    (view net f).Moves (view (net.setEnd e s) f) := by
  rw [view_setEnd]
  by_cases hf : f = e
  · rw [if_pos hf, hf]
    exact h
  · rw [if_neg hf]
    exact .stays

theorem view_setup (f e : End N) : (view net f).Moves (view (net.setup e) f) := by
  rw [Net.setup]
  split
  · next hpending =>
    split
    · exact moves_setEnd (.turnedAway hpending.2) f
    · exact moves_setEnd (.starts hpending.2) f
  · exact .stays

theorem view_send (h : Registry net) (a b : N) (data : List UInt8) (f : End N) :
    (view net f).Moves (view (((net.send a b data).map Prod.snd).getD net) f) := by
  rw [Net.send]
  split
  · exact .stays
  · next e he =>
    dsimp only
    split
    · exact .stays
    · next hopen =>
      split
      · next hroom =>
        have hrunning : (net.ends e).writer = .running := by
          rcases (h a b e he).2.2 with hw | hw
          · exact hw
          · rw [hw] at hopen
            exact absurd rfl hopen
        show (view net f).Moves (view { net.setEnd e _ with accepted := _ } f)
        by_cases hf : f = e
        · subst hf
          have hview : view { net.setEnd f { net.ends f with
                queue := (net.ends f).queue ++ [data] } with
              accepted := net.accepted ++ [(f, data)] } f
              = { view net f with
                  state := { net.ends f with queue := (net.ends f).queue ++ [data] }
                  accepted := (view net f).accepted ++ [data] } := by
            simp only [view, Net.ends_setEnd, if_true, ofEnd_concat, Net.forwarded_setEnd,
              Net.unread_setEnd]
          rw [hview]
          exact .takes data hrunning hroom
        · have hview : view { net.setEnd e { net.ends e with
                queue := (net.ends e).queue ++ [data] } with
              accepted := net.accepted ++ [(e, data)] } f = view net f := by
            simp only [view, Net.ends_setEnd, if_neg hf, ofEnd_concat, if_neg (Ne.symm hf),
              Net.forwarded_setEnd, Net.unread_setEnd]
          rw [hview]
          exact .stays
      · exact .stays

theorem view_write (e : End N) (outcome : Write) (f : End N) :
    (view net f).Moves (view (net.write e outcome) f) := by
  rw [Net.write]
  split
  · next hrunning hqueue =>
    cases outcome with
    | finished => exact moves_setEnd (.writes hrunning hqueue) f
    | failed k => exact moves_setEnd (.fails k hrunning hqueue) f
    | notOpened => exact moves_setEnd (.notOpened hrunning) f
  · exact .stays

theorem view_drained (e f : End N) : (view net f).Moves (view (net.drained e) f) := by
  rw [Net.drained]
  split
  · next hidle => exact moves_setEnd (.drained hidle.1 hidle.2.1) f
  · exact .stays

theorem view_cleanUp (e f : End N) : (view net f).Moves (view (net.cleanUp e) f) := by
  rw [Net.cleanUp]
  split
  · next hended =>
    have hone := moves_setEnd (.cleanUp (v := view net e) hended) f
    split
    · split
      · exact hone
      · exact hone
    · exact hone
  · exact .stays

/-- The reader at `e` forwards what is on a stream of the other end. -/
theorem view_forward {e : End N} {i : ℕ} {stream payload : List UInt8}
    (inbound : N → List (N × List UInt8)) (hreading : (net.ends e).reading = true)
    (hstream : (net.ends e.other).streams[i]? = some stream)
    (hread : readStream stream = some payload) (f : End N) :
    (view net f).Moves (view { net.setEnd e.other { net.ends e.other with
        streams := (net.ends e.other).streams.eraseIdx i } with
      inbound := inbound
      forwarded := net.forwarded ++ [(e, payload)] } f) := by
  by_cases hother : f = e.other
  · subst hother
    have hview : view { net.setEnd e.other { net.ends e.other with
          streams := (net.ends e.other).streams.eraseIdx i } with
          inbound := inbound
          forwarded := net.forwarded ++ [(e, payload)] } e.other
        = { view net e.other with
            state := { net.ends e.other with
              streams := (net.ends e.other).streams.eraseIdx i }
            arrived := (view net e.other).arrived ++ [payload] } := by
      simp only [view, Net.ends_setEnd, if_true, ofEnd_concat, End.other_other,
        if_neg (Ne.symm e.other_ne), Net.accepted_setEnd, Net.unread_setEnd]
    rw [hview]
    exact .reads hstream hread
  · by_cases hf : f = e
    · subst hf
      have hview : view { net.setEnd f.other { net.ends f.other with
            streams := (net.ends f.other).streams.eraseIdx i } with
            inbound := inbound
            forwarded := net.forwarded ++ [(f, payload)] } f
          = { view net f with received := (view net f).received ++ [payload] } := by
        simp only [view, Net.ends_setEnd, if_neg hother, ofEnd_concat, if_true,
          Net.accepted_setEnd, Net.unread_setEnd]
      rw [hview]
      exact .receives payload hreading
    · have hview : view { net.setEnd e.other { net.ends e.other with
            streams := (net.ends e.other).streams.eraseIdx i } with
            inbound := inbound
            forwarded := net.forwarded ++ [(e, payload)] } f = view net f := by
        have hne : e ≠ f.other := fun h => hother (End.other_eq_iff.mp h.symm)
        simp only [view, Net.ends_setEnd, if_neg hother, ofEnd_concat, if_neg hne,
          if_neg (Ne.symm hf), Net.accepted_setEnd, Net.unread_setEnd]
      rw [hview]
      exact .stays

/-- A stream of the end `e` breaks off. -/
theorem view_breakOff {e : End N} {i : ℕ} {stream : List UInt8}
    (hstream : (net.ends e).streams[i]? = some stream) (f : End N) :
    (view net f).Moves (view { net.setEnd e { net.ends e with
        streams := (net.ends e).streams.eraseIdx i } with
      unread := net.unread ++ [(e, stream)] } f) := by
  by_cases hf : f = e
  · subst hf
    have hview : view { net.setEnd f { net.ends f with
          streams := (net.ends f).streams.eraseIdx i } with
          unread := net.unread ++ [(f, stream)] } f
        = { view net f with
            state := { net.ends f with streams := (net.ends f).streams.eraseIdx i }
            unread := (view net f).unread ++ [stream] } := by
      simp only [view, Net.ends_setEnd, if_true, ofEnd_concat, Net.accepted_setEnd,
        Net.forwarded_setEnd]
    rw [hview]
    exact .breaksOff hstream
  · have hview : view { net.setEnd e { net.ends e with
          streams := (net.ends e).streams.eraseIdx i } with
          unread := net.unread ++ [(e, stream)] } f = view net f := by
      simp only [view, Net.ends_setEnd, if_neg hf, ofEnd_concat, if_neg (Ne.symm hf),
        Net.accepted_setEnd, Net.forwarded_setEnd]
    rw [hview]
    exact .stays

/-- The reader at `e` takes a stream of the other end. -/
theorem view_accept (e : End N) (i : ℕ) (outcome : Read) (f : End N) :
    (view net f).Moves (view (net.accept e i outcome) f) := by
  rw [Net.accept]
  dsimp only
  split
  · next stream hreading hstream =>
    split
    · exact view_breakOff hstream f
    · split
      · next hread => exact moves_setEnd (.skipped hstream hread) f
      · next payload hread =>
        split
        · exact view_forward _ hreading hstream hread f
        · exact .stays
  · exact .stays

theorem view_recv (a : N) (f : End N) : view (net.recv a) f = view net f := by
  rw [Net.recv]
  split
  · rfl
  · rfl

theorem view_connect (a b : N) (f : End N) : view (net.connect a b) f = view net f := by
  rw [Net.connect]
  split
  · rfl
  · rfl

/-- **What an action does at one end.** -/
theorem view_step (h : Registry net) (act : Action N) (f : End N) :
    (view net f).Moves (view (net.step act) f) := by
  cases act with
  | connect a b => rw [Net.step, view_connect]; exact .stays
  | setup e => exact view_setup f e
  | send a b data => exact view_send h a b data f
  | write e outcome => exact view_write e outcome f
  | drained e => exact view_drained e f
  | cleanUp e => exact view_cleanUp e f
  | accept e i outcome => exact view_accept e i outcome f
  | readerStops e => exact moves_setEnd .readerStops f
  | recv a => rw [Net.step, view_recv]; exact .stays
  | disconnect a b => exact .stays

/-! ## The account of an end -/

/-- Where the messages accepted at an end are: `got` were forwarded at the other end, `flying` are
on streams, each with the number of bytes that got there, `broken` were on streams that broke off
under the reader, and `lost` are gone. -/
structure Account (v : EndView) (got lost : List (List UInt8))
    (flying broken : List (List UInt8 × ℕ)) : Prop where
  perm : v.accepted.Perm
    (got ++ flying.map Prod.fst ++ broken.map Prod.fst ++ lost ++ v.state.queue)
  arrived : v.arrived = got.map announced
  fits : ∀ data ∈ got, Fits data
  streams : v.state.streams = flying.map (fun x => (frame x.1).take x.2)
  unread : v.unread = broken.map (fun x => (frame x.1).take x.2)
  /-- While the writer runs every stream is whole, and only what the reader skips is lost. -/
  running : v.state.writer = .running →
    (∀ x ∈ flying ++ broken, (frame x.1).length ≤ x.2) ∧ ∀ data ∈ lost, ¬Fits data
  /-- Nothing is accepted where no writer was started. -/
  unused : v.state.writer = .pending ∨ v.state.writer = .turnedAway → v.accepted = []

/-- The messages of an end are accounted for. -/
def Accounted (v : EndView) : Prop := ∃ got lost flying broken, Account v got lost flying broken

/-- One stream less. -/
theorem perm_eraseIdx {A : Type} {l : List A} {i : ℕ} {a : A} (h : l[i]? = some a) :
    l.Perm (a :: l.eraseIdx i) := by
  obtain ⟨hi, rfl⟩ := List.getElem?_eq_some_iff.mp h
  exact (List.getElem_cons_eraseIdx_perm hi).symm

/-- The stream the reader gets is one of those accounted for. -/
theorem Account.stream {v : EndView} {got lost : List (List UInt8)}
    {flying broken : List (List UInt8 × ℕ)} (h : Account v got lost flying broken) {i : ℕ}
    {stream : List UInt8} (hstream : v.state.streams[i]? = some stream) :
    ∃ x, flying[i]? = some x ∧ (frame x.1).take x.2 = stream := by
  rw [h.streams, List.getElem?_map] at hstream
  exact Option.map_eq_some_iff.mp hstream

/-- A stream that was taken off is no longer among those on their way. -/
theorem streams_eraseIdx {v : EndView} {got lost : List (List UInt8)}
    {flying broken : List (List UInt8 × ℕ)} (h : Account v got lost flying broken) (i : ℕ) :
    v.state.streams.eraseIdx i
      = (flying.eraseIdx i).map (fun x => (frame x.1).take x.2) := by
  rw [h.streams, List.eraseIdx_map]

/-- What was accepted, when a stream is taken off that carried `data`. -/
theorem Account.perm_eraseIdx {v : EndView} {got lost : List (List UInt8)}
    {flying broken : List (List UInt8 × ℕ)} (h : Account v got lost flying broken) {i : ℕ}
    {data : List UInt8} {k : ℕ} (hx : flying[i]? = some (data, k)) :
    v.accepted.Perm (data ::
      (got ++ (flying.eraseIdx i).map Prod.fst ++ broken.map Prod.fst ++ lost ++
        v.state.queue)) := by
  have hflying : (flying.map Prod.fst).Perm (data :: (flying.eraseIdx i).map Prod.fst) :=
    (IrohTransport.perm_eraseIdx hx).map Prod.fst
  refine h.perm.trans (List.perm_iff_count.mpr fun d => ?_)
  have hcount := hflying.count_eq d
  simp only [List.count_append, List.count_cons] at hcount ⊢
  omega

/-- While the writer runs, the streams that are left are whole. -/
theorem Account.whole_eraseIdx {v : EndView} {got lost : List (List UInt8)}
    {flying broken : List (List UInt8 × ℕ)} (h : Account v got lost flying broken) (i : ℕ)
    (hw : v.state.writer = .running) :
    ∀ x ∈ flying.eraseIdx i ++ broken, (frame x.1).length ≤ x.2 := by
  intro x hx
  refine (h.running hw).1 x ?_
  rcases List.mem_append.mp hx with hx | hx
  · exact List.mem_append_left _ (List.mem_of_mem_eraseIdx hx)
  · exact List.mem_append_right _ hx

/-- The reader skips a stream. -/
theorem Account.skipped {v : EndView} {got lost : List (List UInt8)}
    {flying broken : List (List UInt8 × ℕ)} (h : Account v got lost flying broken) {i : ℕ}
    {stream : List UInt8} (hstream : v.state.streams[i]? = some stream)
    (hread : readStream stream = none) :
    Accounted { v with state := { v.state with streams := v.state.streams.eraseIdx i } } := by
  obtain ⟨⟨data, k⟩, hx, hcut⟩ := h.stream hstream
  refine ⟨got, data :: lost, flying.eraseIdx i, broken, ?_, h.arrived, h.fits,
    streams_eraseIdx h i, h.unread, fun hw => ⟨h.whole_eraseIdx i hw, fun d hd => ?_⟩, h.unused⟩
  · refine (h.perm_eraseIdx hx).trans (List.perm_iff_count.mpr fun d => ?_)
    simp only [List.count_append, List.count_cons]
    omega
  · obtain ⟨hwhole, hlost⟩ := h.running hw
    rcases List.mem_cons.mp hd with rfl | hd
    · -- The stream was whole, so it was skipped for its length.
      intro hfits
      have hlen : (frame d).length ≤ k :=
        hwhole (d, k) (List.mem_append_left _ (List.mem_of_getElem? hx))
      rw [length_frame] at hlen
      have hle : d.length % 2 ^ 32 ≤ d.length := Nat.mod_le _ _
      rw [← hcut, readStream_take_frame, if_pos ⟨hfits, by dsimp only; omega⟩] at hread
      cases hread
    · exact hlost d hd

/-- A stream breaks off under the reader. -/
theorem Account.breaksOff {v : EndView} {got lost : List (List UInt8)}
    {flying broken : List (List UInt8 × ℕ)} (h : Account v got lost flying broken) {i : ℕ}
    {stream : List UInt8} (hstream : v.state.streams[i]? = some stream) :
    Accounted { v with
      state := { v.state with streams := v.state.streams.eraseIdx i }
      unread := v.unread ++ [stream] } := by
  obtain ⟨⟨data, k⟩, hx, hcut⟩ := h.stream hstream
  refine ⟨got, lost, flying.eraseIdx i, broken ++ [(data, k)], ?_, h.arrived, h.fits,
    streams_eraseIdx h i, ?_, fun hw => ⟨fun x hx' => ?_, (h.running hw).2⟩, h.unused⟩
  · refine (h.perm_eraseIdx hx).trans (List.perm_iff_count.mpr fun d => ?_)
    simp only [List.map_append, List.count_append, List.count_cons, List.map_cons, List.map_nil,
      List.count_nil]
    omega
  · rw [List.map_append, ← h.unread, ← hcut]
    rfl
  · rw [← List.append_assoc, List.mem_append, List.mem_singleton] at hx'
    rcases hx' with hx' | rfl
    · exact h.whole_eraseIdx i hw x hx'
    · exact (h.running hw).1 _ (List.mem_append_left _ (List.mem_of_getElem? hx))

/-- The reader takes a message off a stream. -/
theorem Account.reads {v : EndView} {got lost : List (List UInt8)}
    {flying broken : List (List UInt8 × ℕ)} (h : Account v got lost flying broken) {i : ℕ}
    {stream payload : List UInt8} (hstream : v.state.streams[i]? = some stream)
    (hread : readStream stream = some payload) :
    Accounted { v with
      state := { v.state with streams := v.state.streams.eraseIdx i }
      arrived := v.arrived ++ [payload] } := by
  obtain ⟨⟨data, k⟩, hx, hcut⟩ := h.stream hstream
  rw [← hcut, readStream_take_frame] at hread
  split at hread
  · next hfit =>
    obtain rfl : announced data = payload := Option.some.inj hread
    refine ⟨got ++ [data], lost, flying.eraseIdx i, broken, ?_, ?_, ?_, streams_eraseIdx h i,
      h.unread, fun hw => ⟨h.whole_eraseIdx i hw, (h.running hw).2⟩, h.unused⟩
    · refine (h.perm_eraseIdx hx).trans (List.perm_iff_count.mpr fun d => ?_)
      simp only [List.count_append, List.count_cons, List.count_nil]
      omega
    · rw [h.arrived, List.map_append]
      rfl
    · intro d hd
      rcases List.mem_append.mp hd with hd | hd
      · exact h.fits d hd
      · rw [List.mem_singleton.mp hd]
        exact hfit.1
  · cases hread

/-- The writer puts some of a message on a stream, and keeps or drops the rest of the channel. -/
theorem Account.opens {v : EndView} {got lost : List (List UInt8)}
    {flying broken : List (List UInt8 × ℕ)} (h : Account v got lost flying broken)
    {data : List UInt8} {rest kept dropped : List (List UInt8)}
    (hq : v.state.queue = data :: rest) (hrest : rest = dropped ++ kept) (w : Writer) (k : ℕ)
    (hw : w = .running → v.state.writer = .running ∧ (frame data).length ≤ k ∧ dropped = [])
    (hused : w ≠ .pending ∧ w ≠ .turnedAway) :
    Accounted { v with state := { v.state with
      writer := w, queue := kept, streams := v.state.streams ++ [(frame data).take k] } } := by
  refine ⟨got, lost ++ dropped, flying ++ [(data, k)], broken, ?_, h.arrived, h.fits, ?_, h.unread,
    fun hr => ?_, fun hu => absurd hu (by simp [hused])⟩
  · refine h.perm.trans ?_
    rw [hq, hrest, List.map_append, List.perm_iff_count]
    intro d
    simp only [List.count_append, List.count_cons, List.map_cons, List.map_nil, List.count_nil]
    omega
  · rw [List.map_append, ← h.streams]
    rfl
  · obtain ⟨hrun, hk, rfl⟩ := hw hr
    obtain ⟨hwhole, hlost⟩ := h.running hrun
    rw [List.append_nil]
    refine ⟨fun x hx => ?_, hlost⟩
    rcases List.mem_append.mp hx with hx | hx
    · rcases List.mem_append.mp hx with hx | hx
      · exact hwhole x (List.mem_append_left _ hx)
      · rw [List.mem_singleton.mp hx]
        exact hk
    · exact hwhole x (List.mem_append_right _ hx)

/-- The writer returns with its channel. -/
theorem Account.returns {v : EndView} {got lost : List (List UInt8)}
    {flying broken : List (List UInt8 × ℕ)} (h : Account v got lost flying broken) {w : Writer}
    (hw : w = .ended ∨ w = .finished) :
    Accounted { v with state := { v.state with writer := w, queue := [] } } := by
  refine ⟨got, lost ++ v.state.queue, flying, broken, ?_, h.arrived, h.fits, h.streams, h.unread,
    ?_, ?_⟩
  · rw [List.append_nil, ← List.append_assoc]
    exact h.perm
  · rintro rfl
    simp at hw
  · rintro (rfl | rfl)
    · simp at hw
    · simp at hw

/-- A move keeps the account. -/
theorem EndView.Moves.accounted {v v' : EndView} (hmove : v.Moves v') (h : Accounted v) :
    Accounted v' := by
  obtain ⟨got, lost, flying, broken, h⟩ := h
  cases hmove with
  | stays => exact ⟨got, lost, flying, broken, h⟩
  | readerStops =>
    exact ⟨got, lost, flying, broken, h.perm, h.arrived, h.fits, h.streams, h.unread, h.running,
      h.unused⟩
  | turnedAway hw =>
    exact ⟨got, lost, flying, broken, h.perm, h.arrived, h.fits, h.streams, h.unread,
      (fun hr => by cases hr), fun _ => h.unused (Or.inl hw)⟩
  | starts hw =>
    -- Nothing was accepted, so nothing is on its way or lost.
    have hnil := h.perm
    rw [h.unused (Or.inl hw)] at hnil
    have hall := List.perm_nil.mp hnil.symm
    simp only [List.append_eq_nil_iff, List.map_eq_nil_iff] at hall
    obtain ⟨⟨⟨⟨-, hflying⟩, hbroken⟩, hlost⟩, -⟩ := hall
    refine ⟨got, lost, flying, broken, h.perm, h.arrived, h.fits, h.streams, h.unread,
      fun _ => ?_, ?_⟩
    · rw [hflying, hbroken, hlost]
      simp
    · intro hu
      exact h.unused (Or.inl hw)
  | takes data hw hroom =>
    refine ⟨got, lost, flying, broken, ?_, h.arrived, h.fits, h.streams, h.unread, h.running,
      fun hu => ?_⟩
    · show (v.accepted ++ [data]).Perm (_ ++ (v.state.queue ++ [data]))
      rw [← List.append_assoc]
      exact h.perm.append_right [data]
    · rw [show v.state.writer = Writer.running from hw] at hu
      simp at hu
  | @writes data rest hw hq =>
    have hput := h.opens hq (List.nil_append rest).symm .running (frame data).length
      (fun _ => ⟨hw, le_rfl, rfl⟩) (by simp)
    rw [List.take_length] at hput
    rw [← hw] at hput
    exact hput
  | @fails data rest k hw hq =>
    exact h.opens hq (List.append_nil rest).symm .ended k (fun hr => by cases hr) (by simp)
  | notOpened hw => exact h.returns (Or.inl rfl)
  | drained hw hq =>
    have hret := h.returns (Or.inl rfl)
    rw [← hq] at hret
    exact hret
  | cleanUp hw =>
    exact ⟨got, lost, flying, broken, h.perm, h.arrived, h.fits, h.streams, h.unread,
      (fun hr => by cases hr), (fun hu => by simp at hu)⟩
  | skipped hstream hread => exact h.skipped hstream hread
  | reads hstream hread => exact h.reads hstream hread
  | breaksOff hstream => exact h.breaksOff hstream
  | receives payload hr =>
    exact ⟨got, lost, flying, broken, h.perm, h.arrived, h.fits, h.streams, h.unread, h.running,
      h.unused⟩

/-- What a run keeps. -/
def Sound (net : Net N) : Prop := Registry net ∧ ∀ e, Accounted (view net e)

theorem accounted_start (e : End N) : Accounted (view Net.start e) :=
  ⟨[], [], [], [], .refl _, rfl, by simp, rfl, rfl, (fun hr => by cases hr), fun _ => rfl⟩

/-- Every message accepted in a run is accounted for. -/
theorem accounted_after (actions : List (Action N)) (e : End N) :
    Accounted (view (Net.after actions) e) := by
  have hrun : Sound (Net.after actions) :=
    run_invariant_of_step
      (fun net act h => ⟨h.1.step act, fun e => (view_step h.1 act e).accounted (h.2 e)⟩)
      ⟨registry_start, accounted_start⟩ actions
  exact hrun.2 e

/-! ## What arrives -/

/-- The messages a node has taken in, in order, each with the node it is said to come from: those
`recv` returned and those it has yet to return. -/
def receivedAt (net : Net N) (a : N) : List (N × List UInt8) := net.returned a ++ net.inbound a

/-- The messages accepted for a node, each with the node that sent it. -/
def sentTo (net : Net N) (a : N) : List (N × List UInt8) :=
  (net.accepted.filter (fun x => x.1.remote = a)).map (fun x => (x.1.node, x.2))

/-- What the readers of a node forwarded. -/
def forwardedTo (net : Net N) (a : N) : List (N × List UInt8) :=
  (net.forwarded.filter (fun x => x.1.node = a)).map (fun x => (x.1.remote, x.2))

/-- The inbound channels lose nothing and keep the order. -/
def InOrder (net : Net N) : Prop := ∀ a, receivedAt net a = forwardedTo net a

theorem inOrder_send (h : InOrder net) (b c : N) (data : List UInt8) :
    InOrder (((net.send b c data).map Prod.snd).getD net) := by
  rw [Net.send]
  split
  · exact h
  · dsimp only
    split
    · exact h
    · split
      · exact h
      · exact h

theorem inOrder_write (h : InOrder net) (e : End N) (outcome : Write) :
    InOrder (net.write e outcome) := by
  rw [Net.write]
  split
  · cases outcome with
    | finished => exact h
    | failed k => exact h
    | notOpened => exact h
  · exact h

theorem inOrder_cleanUp (h : InOrder net) (e : End N) : InOrder (net.cleanUp e) := by
  rw [Net.cleanUp]
  split
  · split
    · split
      · exact h
      · exact h
    · exact h
  · exact h

/-- What a reader forwards comes last in the inbound channel. -/
theorem inOrder_forward (h : InOrder net) (e : End N) (payload : List UInt8) (s : EndState) :
    InOrder { net.setEnd e.other s with
      inbound := Function.update net.inbound e.node
        (net.inbound e.node ++ [(e.remote, payload)])
      forwarded := net.forwarded ++ [(e, payload)] } := by
  intro a
  rw [receivedAt, forwardedTo]
  dsimp only [Net.setEnd]
  rw [Function.update_apply, List.filter_append, List.map_append, List.filter_singleton]
  by_cases ha : a = e.node
  · rw [if_pos ha, decide_eq_true ha.symm, ← List.append_assoc, ← ha]
    exact congrArg (· ++ [(e.remote, payload)]) (h a)
  · rw [if_neg ha, decide_eq_false (Ne.symm ha)]
    exact (h a).trans (List.append_nil _).symm

theorem inOrder_accept (h : InOrder net) (e : End N) (i : ℕ) (outcome : Read) :
    InOrder (net.accept e i outcome) := by
  rw [Net.accept]
  dsimp only
  split
  · split
    · exact h
    · split
      · exact h
      · next payload hread =>
        split
        · exact inOrder_forward h e payload _
        · exact h
  · exact h

/-- `recv` moves the first message of the inbound channel to the end of those it returned. -/
theorem inOrder_recv (h : InOrder net) (b : N) : InOrder (net.recv b) := by
  intro a
  rw [Net.recv]
  split
  · exact h a
  · next msg rest hin =>
    refine Eq.trans ?_ (h a)
    rw [receivedAt, receivedAt]
    dsimp only
    rw [Function.update_apply, Function.update_apply]
    by_cases hab : a = b
    · rw [if_pos hab, if_pos hab, hab, hin, List.append_assoc]
      rfl
    · rw [if_neg hab, if_neg hab]

theorem receivedAt_step (act : Action N) (h : InOrder net) : InOrder (net.step act) := by
  cases act with
  | connect b c =>
    rw [Net.step, Net.connect]
    split
    · exact h
    · exact h
  | setup e =>
    rw [Net.step, Net.setup]
    split
    · split
      · exact h
      · exact h
    · exact h
  | send b c data => exact inOrder_send h b c data
  | write e outcome => exact inOrder_write h e outcome
  | drained e =>
    rw [Net.step, Net.drained]
    split
    · exact h
    · exact h
  | cleanUp e => exact inOrder_cleanUp h e
  | accept e i outcome => exact inOrder_accept h e i outcome
  | readerStops e => exact h
  | recv b => exact inOrder_recv h b
  | disconnect b c => exact h

theorem receivedAt_after (actions : List (Action N)) (a : N) :
    receivedAt (Net.after actions) a = forwardedTo (Net.after actions) a := by
  have hrun : InOrder (Net.after actions) :=
    run_invariant_of_step (fun _ act h => receivedAt_step act h) (fun _ => rfl) actions
  exact hrun a

theorem count_ofEnd (log : List (End N × List UInt8)) (e : End N) (data : List UInt8) :
    (ofEnd log e).count data = log.count (e, data) := by
  induction log with
  | nil => rfl
  | cons x log ih =>
    rw [List.count_cons, ← ih, ofEnd, ofEnd, List.filter_cons]
    by_cases h : x.1 = e
    · rw [if_pos (decide_eq_true h), List.map_cons, List.count_cons]
      congr 1
      simp [Prod.ext_iff, h]
    · rw [if_neg (by simpa using h), if_neg (by simpa [Prod.ext_iff] using fun h' => absurd h' h)]
      rfl

/-- What was forwarded, at the end it comes from. -/
def arrivedFrom (net : Net N) : List (End N × List UInt8) :=
  net.forwarded.map (fun x => (x.1.other, x.2))

/-- What was accepted, as the reader at the other end gets it. -/
def announcedFrom (net : Net N) : List (End N × List UInt8) :=
  net.accepted.map (fun x => (x.1, announced x.2))

theorem ofEnd_arrivedFrom (e : End N) :
    ofEnd (arrivedFrom net) e = ofEnd net.forwarded e.other := by
  rw [ofEnd, ofEnd, arrivedFrom, List.filter_map, List.map_map]
  have hfilter : ((fun x : End N × List UInt8 => decide (x.1 = e)) ∘
      fun x : End N × List UInt8 => (x.1.other, x.2)) = fun x => decide (x.1 = e.other) := by
    funext x
    exact decide_eq_decide.mpr End.other_eq_iff
  rw [hfilter]
  rfl

theorem ofEnd_announcedFrom (e : End N) :
    ofEnd (announcedFrom net) e = (ofEnd net.accepted e).map announced := by
  rw [ofEnd, ofEnd, announcedFrom, List.filter_map, List.map_map, List.map_map]
  rfl

theorem arrivedFrom_subperm (actions : List (Action N)) :
    (arrivedFrom (Net.after actions)).Subperm (announcedFrom (Net.after actions)) := by
  rw [List.subperm_ext_iff]
  rintro ⟨e, data⟩ -
  obtain ⟨got, lost, flying, broken, h⟩ := accounted_after actions e
  rw [← count_ofEnd, ← count_ofEnd, ofEnd_arrivedFrom, ofEnd_announcedFrom,
    show ofEnd (Net.after actions).forwarded e.other = _ from h.arrived,
    ((show (ofEnd (Net.after actions).accepted e).Perm _ from h.perm).map announced).count_eq,
    List.append_assoc, List.append_assoc, List.append_assoc, List.map_append, List.count_append]
  exact Nat.le_add_right _ _

theorem subperm_map {A B : Type} (f : A → B) {l l' : List A} (h : l.Subperm l') :
    (l.map f).Subperm (l'.map f) := by
  obtain ⟨k, hk, hsub⟩ := h
  exact ⟨k.map f, hk.map f, hsub.map f⟩

/-- **Nothing but what was sent arrives.**  In every run, the messages a node has taken in are
messages that were accepted for it at the nodes they are said to come from, each at most as often
as it was accepted; what arrives of a message is what its prefix announces, which is all of it
unless it has `2 ^ 32` bytes or more. -/
theorem received_subperm_sent (actions : List (Action N)) (a : N) :
    (receivedAt (Net.after actions) a).Subperm
      ((sentTo (Net.after actions) a).map (fun x => (x.1, announced x.2))) := by
  have hsub := subperm_map (fun x : End N × List UInt8 => (x.1.node, x.2))
    ((arrivedFrom_subperm actions).filter (fun x => x.1.remote = a))
  rw [arrivedFrom, announcedFrom, List.filter_map, List.filter_map, List.map_map, List.map_map]
    at hsub
  rw [receivedAt_after, forwardedTo, sentTo, List.map_map]
  have hfilter : ((fun x : End N × List UInt8 => decide (x.1.remote = a)) ∘
      fun x : End N × List UInt8 => (x.1.other, x.2)) = fun x => decide (x.1.node = a) := by
    funext x
    show decide (x.1.other.remote = a) = _
    rw [End.remote_other]
  rw [hfilter] at hsub
  exact hsub

theorem filter_fits_of_all {l : List (List UInt8)} (h : ∀ data ∈ l, Fits data) :
    l.filter (fun data => decide (Fits data)) = l :=
  List.filter_eq_self.mpr (fun data hd => decide_eq_true (h data hd))

theorem filter_fits_of_none {l : List (List UInt8)} (h : ∀ data ∈ l, ¬Fits data) :
    l.filter (fun data => decide (Fits data)) = [] :=
  List.filter_eq_nil_iff.mpr (fun data hd hfits => h data hd (of_decide_eq_true hfits))

/-- **What may be lost while the writer runs.**  The messages accepted at an end that are within
the frame size are, each once, those forwarded at the other end, those on streams that the other
end has not taken, those on streams that broke off under its reader, all whole, and those in the
channel. -/
theorem delivered_while_running (actions : List (Action N)) (e : End N)
    (hw : ((Net.after actions).ends e).writer = .running) :
    ∃ flying broken, ((Net.after actions).ends e).streams = flying.map frame ∧
      ofEnd (Net.after actions).unread e = broken.map frame ∧
      (((ofEnd (Net.after actions).accepted e).filter (fun d => Fits d)).map announced).Perm
        (ofEnd (Net.after actions).forwarded e.other ++
          ((flying ++ broken ++ ((Net.after actions).ends e).queue).filter
            (fun d => Fits d)).map announced) := by
  obtain ⟨got, lost, flying, broken, h⟩ := accounted_after actions e
  obtain ⟨hwhole, hlost⟩ := h.running hw
  have hframes : ∀ l : List (List UInt8 × ℕ), (∀ x ∈ l, x ∈ flying ++ broken) →
      l.map (fun x => (frame x.1).take x.2) = (l.map Prod.fst).map frame := by
    intro l hl
    rw [List.map_map]
    exact List.map_congr_left fun x hx => List.take_of_length_le (hwhole x (hl x hx))
  refine ⟨flying.map Prod.fst, broken.map Prod.fst, ?_, ?_, ?_⟩
  · exact h.streams.trans (hframes flying fun x hx => List.mem_append_left _ hx)
  · exact h.unread.trans (hframes broken fun x hx => List.mem_append_right _ hx)
  · have hperm := (show (ofEnd (Net.after actions).accepted e).Perm _ from h.perm).filter
      (fun d => decide (Fits d))
    rw [List.filter_append, List.filter_append, List.filter_append, List.filter_append,
      filter_fits_of_all h.fits, filter_fits_of_none hlost, List.append_nil] at hperm
    rw [show ofEnd (Net.after actions).forwarded e.other = _ from h.arrived, List.filter_append,
      List.filter_append, ← List.map_append, ← List.append_assoc, ← List.append_assoc]
    exact hperm.map announced

/-- A message that was read, one whose stream broke off, one on a stream and one in the
channel. -/
def underWay : List (Action ℕ) :=
  let e : End ℕ := ⟨⟨0, 1, 0⟩, .dialer⟩
  [.connect 0 1, .setup e, .setup e.other, .send 0 1 [7], .send 0 1 [8], .send 0 1 [9],
    .send 0 1 [10], .write e .finished, .write e .finished, .write e .finished,
    .accept e.other 1 .whole, .accept e.other 0 .failed]

theorem delivered_while_running_underWay :
    ∃ flying broken, ((Net.after underWay).ends ⟨⟨0, 1, 0⟩, .dialer⟩).streams = flying.map frame ∧
      ofEnd (Net.after underWay).unread ⟨⟨0, 1, 0⟩, .dialer⟩ = broken.map frame ∧
      (((ofEnd (Net.after underWay).accepted ⟨⟨0, 1, 0⟩, .dialer⟩).filter (fun d => Fits d)).map
        announced).Perm
        (ofEnd (Net.after underWay).forwarded ⟨⟨0, 1, 0⟩, .acceptor⟩ ++
          ((flying ++ broken ++ ((Net.after underWay).ends ⟨⟨0, 1, 0⟩, .dialer⟩).queue).filter
            (fun d => Fits d)).map announced) :=
  delivered_while_running underWay ⟨⟨0, 1, 0⟩, .dialer⟩ (by decide)

/-! ## Two connections between two nodes -/

/-- An action without `disconnect` and without a failing write. -/
def Action.Quiet : Action N → Prop
  | .disconnect _ _ => False
  | .write _ outcome => outcome = .finished
  | _ => True

/-- An end without a reader task has read nothing. -/
def Silent (v : EndView) : Prop :=
  v.state.writer = .pending ∨ v.state.writer = .turnedAway →
    v.state.reading = false ∧ v.received = []

theorem EndView.Moves.silent {v v' : EndView} (hmove : v.Moves v') (h : Silent v) : Silent v' := by
  cases hmove with
  | stays => exact h
  | readerStops => exact fun hu => ⟨rfl, (h hu).2⟩
  | turnedAway hw => exact fun _ => h (Or.inl hw)
  | receives payload hr =>
    intro hu
    rw [(h hu).1] at hr
    cases hr
  | takes data hw hroom => exact h
  | writes hw hq => exact h
  | skipped hstream hread => exact h
  | reads hstream hread => exact h
  | breaksOff hstream => exact h
  | starts hw => exact fun hu => by simp at hu
  | fails k hw hq => exact fun hu => by simp at hu
  | notOpened hw => exact fun hu => by simp at hu
  | drained hw hq => exact fun hu => by simp at hu
  | cleanUp hw => exact fun hu => by simp at hu

/-- An end that was not set up is silent, in every state. -/
def Quiescent (net : Net N) : Prop := Registry net ∧ ∀ e, Silent (view net e)

theorem silent_after (actions : List (Action N)) (e : End N) :
    Silent (view (Net.after actions) e) := by
  have hrun : Quiescent (Net.after actions) :=
    run_invariant_of_step
      (fun net act h => ⟨h.1.step act, fun e => (view_step h.1 act e).silent (h.2 e)⟩)
      ⟨registry_start, fun _ _ => ⟨rfl, rfl⟩⟩ actions
  exact hrun.2 e

/-- Without failures, an end is untouched, turned away, or the registered one. -/
def Settled (net : Net N) : Prop :=
  ∀ e, (net.ends e).writer = .pending ∨ (net.ends e).writer = .turnedAway ∨
    (net.ends e).writer = .running ∧ (net.peers e.node).lookup e.remote = some e

theorem Settled.setEnd (h : Settled net) {e : End N} {s : EndState}
    (hs : s.writer = (net.ends e).writer ∨ s.writer = .turnedAway) : Settled (net.setEnd e s) := by
  intro f
  rw [Net.ends_setEnd]
  by_cases hf : f = e
  · subst hf
    rw [if_pos rfl]
    rcases hs with hs | hs
    · rw [hs]
      exact h f
    · exact Or.inr (Or.inl hs)
  · rw [if_neg hf]
    exact h f

theorem Settled.setup (h : Settled net) (e : End N) : Settled (net.setup e) := by
  intro f
  have hkept : (net.peers f.node).lookup f.remote = some f →
      ((net.setup e).peers f.node).lookup f.remote = some f := lookup_setup e
  rw [Net.setup] at hkept ⊢
  split
  · next hpending =>
    split
    · exact h.setEnd (Or.inr rfl) f
    · next hfree =>
      rw [if_pos hpending, if_neg hfree] at hkept
      show ((net.setEnd e _).ends f).writer = _ ∨ ((net.setEnd e _).ends f).writer = _ ∨
        ((net.setEnd e _).ends f).writer = _ ∧
          (Function.update net.peers e.node ((net.peers e.node).insert e.remote e) f.node).lookup
            f.remote = some f
      rw [Net.ends_setEnd]
      by_cases hf : f = e
      · subst hf
        rw [if_pos rfl, Net.lookup_insert_peers, if_pos ⟨rfl, rfl⟩]
        exact Or.inr (Or.inr ⟨rfl, rfl⟩)
      · rw [if_neg hf]
        exact (h f).imp_right (Or.imp_right fun hr => ⟨hr.1, hkept hr.2⟩)
  · exact h f

theorem Settled.accept (h : Settled net) (e : End N) (i : ℕ) (outcome : Read) :
    Settled (net.accept e i outcome) := by
  rw [Net.accept]
  dsimp only
  split
  · split
    · exact h.setEnd (Or.inl rfl)
    · split
      · exact h.setEnd (Or.inl rfl)
      · split
        · exact h.setEnd (Or.inl rfl)
        · exact h
  · exact h

theorem Settled.step (h : Settled net) {act : Action N} (hq : act.Quiet) :
    Settled (net.step act) := by
  cases act with
  | connect a b =>
    rw [Net.step, Net.connect]
    split
    · exact h
    · exact h
  | setup e => exact h.setup e
  | send a b data =>
    rw [Net.step, Net.send]
    split
    · exact h
    · dsimp only
      split
      · exact h
      · split
        · exact h.setEnd (Or.inl rfl)
        · exact h
  | write e outcome =>
    obtain rfl : outcome = .finished := hq
    rw [Net.step, Net.write]
    split
    · exact h.setEnd (Or.inl rfl)
    · exact h
  | drained e =>
    rw [Net.step, Net.drained]
    split
    · next hidle =>
      -- The sender of a running writer is in the peers map.
      rcases h e with hw | hw | ⟨-, hlookup⟩
      · rw [hidle.1] at hw
        cases hw
      · rw [hidle.1] at hw
        cases hw
      · exact absurd hlookup hidle.2.2
    · exact h
  | cleanUp e =>
    rw [Net.step, Net.cleanUp]
    split
    · next hended =>
      have hnot := h e
      rw [hended] at hnot
      simp at hnot
    · exact h
  | accept e i outcome => exact h.accept e i outcome
  | readerStops e => exact h.setEnd (Or.inl rfl)
  | recv a =>
    rw [Net.step, Net.recv]
    split
    · exact h
    · exact h
  | disconnect a b => exact hq.elim

theorem settled_after {actions : List (Action N)} (hq : ∀ act ∈ actions, act.Quiet) :
    Settled (Net.after actions) := by
  induction actions using List.reverseRecOn with
  | nil => exact fun _ => Or.inl rfl
  | append_singleton actions act ih =>
    rw [Net.after, run_append]
    exact (ih fun a ha => hq a (List.mem_append_left _ ha)).step (hq act (by simp))

/-- Without failures, an end whose reader has forwarded something is registered. -/
theorem registered_of_forwarded {actions : List (Action N)} (hq : ∀ act ∈ actions, act.Quiet)
    {e : End N} {data : List UInt8} (hin : data ∈ ofEnd (Net.after actions).forwarded e) :
    ((Net.after actions).peers e.node).lookup e.remote = some e := by
  have hsilent := silent_after actions e
  rcases settled_after hq e with hw | hw | ⟨-, hlookup⟩
  · rw [show ofEnd (Net.after actions).forwarded e = [] from (hsilent (Or.inl hw)).2] at hin
    simp at hin
  · rw [show ofEnd (Net.after actions).forwarded e = [] from (hsilent (Or.inr hw)).2] at hin
    simp at hin
  · exact hlookup

/-- The messages of a registered end are accepted as long as its channel has room. -/
theorem send_of_settled (h : Settled net) (hreg : Registry net) {a b : N} {e : End N}
    (he : (net.peers a).lookup b = some e) (hroom : (net.ends e).queue.length < outboundCapacity)
    (data : List UInt8) : (net.send a b data).map Prod.fst = some (.ok ()) := by
  have hrunning : (net.ends e).writer = .running := by
    have hentry := (hreg a b e he).2.2
    rcases h e with hw | hw | ⟨hw, -⟩
    · simp [hw] at hentry
    · simp [hw] at hentry
    · exact hw
  rw [Net.send, he]
  dsimp only
  rw [hrunning, if_neg (by simp [Writer.isClosed]), if_pos hroom]
  rfl

/-- **Two nodes that keep different connections to each other.**  In a run in which nobody
disconnects and no write fails, two nodes that have an entry for each other either have both ends
of one connection, or nothing that either was given for the other has got through: each keeps the
connection it set up first and drops the one on which the other sends.  Both go on taking messages
for the other as long as their channels have room. -/
theorem crossed_connections {actions : List (Action N)} (hq : ∀ act ∈ actions, act.Quiet)
    {a b : N} {e f : End N} (he : ((Net.after actions).peers a).lookup b = some e)
    (hf : ((Net.after actions).peers b).lookup a = some f) :
    (f = e.other ∨ ofEnd (Net.after actions).forwarded e.other = [] ∧
      ofEnd (Net.after actions).forwarded f.other = []) ∧
    (((Net.after actions).ends e).queue.length < outboundCapacity →
      ∀ data, ((Net.after actions).send a b data).map Prod.fst = some (.ok ())) ∧
    (((Net.after actions).ends f).queue.length < outboundCapacity →
      ∀ data, ((Net.after actions).send b a data).map Prod.fst = some (.ok ())) := by
  refine ⟨?_, fun hroom => send_of_settled (settled_after hq) (registry_after actions) he hroom,
    fun hroom => send_of_settled (settled_after hq) (registry_after actions) hf hroom⟩
  obtain ⟨rfl, rfl, -⟩ := registry_after actions a b e he
  obtain ⟨hfnode, hfremote, -⟩ := registry_after actions _ _ f hf
  by_cases hsame : f = e.other
  · exact Or.inl hsame
  · refine Or.inr ⟨?_, ?_⟩
    · refine List.eq_nil_iff_forall_not_mem.mpr (fun data hin => hsame ?_)
      have hreg := registered_of_forwarded hq hin
      rw [End.node_other, End.remote_other, hf] at hreg
      exact Option.some.inj hreg
    · refine List.eq_nil_iff_forall_not_mem.mpr (fun data hin => hsame ?_)
      have hreg := registered_of_forwarded hq hin
      rw [End.node_other, End.remote_other, hfnode, hfremote, he] at hreg
      exact (End.other_eq_iff.mpr (Option.some.inj hreg)).symm

/-- Nodes 0 and 1 dial each other, each sets up its own connection first, and each sends: both
sends are accepted and written, and neither message arrives. -/
def crossing : List (Action ℕ) :=
  let e : End ℕ := ⟨⟨0, 1, 0⟩, .dialer⟩
  let f : End ℕ := ⟨⟨1, 0, 1⟩, .dialer⟩
  [.connect 0 1, .connect 1 0, .setup e, .setup f, .setup e.other, .setup f.other,
    .send 0 1 [7], .send 1 0 [8], .write e .finished, .write f .finished,
    .accept e.other 0 .whole, .accept f.other 0 .whole]

theorem crossed_connections_crossing :
    ofEnd (Net.after crossing).forwarded (⟨⟨0, 1, 0⟩, .acceptor⟩ : End ℕ) = [] ∧
      ((Net.after crossing).send 0 1 [9]).map Prod.fst = some (.ok ()) := by
  have hq : ∀ act ∈ crossing, act.Quiet := by
    simp [crossing, Action.Quiet]
  have he : ((Net.after crossing).peers 0).lookup 1 = some ⟨⟨0, 1, 0⟩, .dialer⟩ := by decide
  have hf : ((Net.after crossing).peers 1).lookup 0 = some ⟨⟨1, 0, 1⟩, .dialer⟩ := by decide
  obtain ⟨harrived, hsend, -⟩ := crossed_connections hq he hf
  refine ⟨?_, hsend (by decide) [9]⟩
  rcases harrived with hsame | ⟨hnone, -⟩
  · exact absurd hsame (by decide)
  · exact hnone

end IrohTransport
