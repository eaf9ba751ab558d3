/-
# Decoders that are fed in chunks

A decoder looks at a buffer, answers, and takes what it has read off the front.  The reader
appends each chunk that arrives and calls the decoder until a call leaves the buffer as it is.

A frame is a stretch of the stream with a fixed answer: the decoder takes it off whatever
follows, and waits while it is incomplete (`Recognises`).  `run_of_frames` says that a stream
of frames gives their answers in order, wherever the chunks are cut.
-/
import Mathlib.Data.List.Basic

namespace ChunkedDecoder

variable {B A R : Type}

/-! ## Calls -/

/-- Call the decoder until the buffer does not get shorter: the answers of all calls, and what
is left. -/
def drain (decode : List B → A × List B) (buf : List B) : List A × List B :=
  let r := decode buf
  if r.2.length < buf.length then
    let d := drain decode r.2
    (r.1 :: d.1, d.2)
  else ([r.1], r.2)
termination_by buf.length

/-- A chunk arrives: it is appended, and the decoder is called. -/
def feed (decode : List B → A × List B) (s : List A × List B) (chunk : List B) :
    List A × List B :=
  let d := drain decode (s.2 ++ chunk)
  (s.1 ++ d.1, d.2)

/-- All chunks arrive, one after the other. -/
def run (decode : List B → A × List B) (chunks : List (List B)) : List A × List B :=
  chunks.foldl (feed decode) ([], [])

variable {decode : List B → A × List B} {idle : A}

/-- A call that takes something is followed by others. -/
theorem drain_of_taken {buf rest : List B} {a : A} (h : decode buf = (a, rest))
    (hlt : rest.length < buf.length) :
    drain decode buf = (a :: (drain decode rest).1, (drain decode rest).2) := by
  rw [drain, h]
  exact if_pos hlt

/-- A call that takes nothing is the last one. -/
theorem drain_of_kept {buf : List B} {a : A} (h : decode buf = (a, buf)) :
    drain decode buf = ([a], buf) := by
  rw [drain, h]
  exact if_neg (Nat.lt_irrefl _)

/-- One chunk is drained. -/
theorem run_singleton (chunk : List B) : run decode [chunk] = drain decode chunk := by
  show ([] ++ (drain decode ([] ++ chunk)).1, (drain decode ([] ++ chunk)).2) = _
  rw [List.nil_append, List.nil_append]

/-! ## Frames -/

/-- `f` is a frame with answer `a`; before it is complete the decoder answers `idle`. -/
structure Recognises (decode : List B → A × List B) (idle : A) (f : List B) (a : A) : Prop where
  ne_nil : f ≠ []
  whole : ∀ more, decode (f ++ more) = (a, more)
  incomplete : ∀ p, p <+: f → p ≠ f → decode p = (idle, p)

/-- A frame is taken off, whatever follows. -/
theorem Recognises.drain_append {f : List B} {a : A} (h : Recognises decode idle f a)
    (more : List B) :
    drain decode (f ++ more) = (a :: (drain decode more).1, (drain decode more).2) := by
  refine drain_of_taken (h.whole more) ?_
  rw [List.length_append]
  have hpos := List.length_pos_iff.mpr h.ne_nil
  omega

/-- The buffer holds a part of the next frame, or nothing when there is none. -/
def Pending (buf : List B) : List (List B × A) → Prop
  | [] => buf = []
  | f :: _ => buf <+: f.1 ∧ buf ≠ f.1

/-- The bytes of a list of frames. -/
def stream (frames : List (List B × A)) : List B := (frames.map Prod.fst).flatten

theorem stream_cons (f : List B × A) (frames : List (List B × A)) :
    stream (f :: frames) = f.1 ++ stream frames := rfl

theorem stream_append (done todo : List (List B × A)) :
    stream (done ++ todo) = stream done ++ stream todo := by
  rw [stream, List.map_append, List.flatten_append]
  rfl

/-- The answers that are reported. -/
def reported (report : A → Option R) (frames : List (List B × A)) : List R :=
  frames.filterMap (fun f => report f.2)

/-- Where a prefix of a concatenation ends. -/
theorem prefix_append_cases {p a b : List B} (h : p <+: a ++ b) :
    (p <+: a ∧ p ≠ a) ∨ ∃ p', p = a ++ p' ∧ p' <+: b := by
  rcases List.prefix_or_prefix_of_prefix h (List.prefix_append a b) with hp | ⟨p', rfl⟩
  · by_cases heq : p = a
    · exact Or.inr ⟨[], by rw [heq, List.append_nil], List.nil_prefix⟩
    · exact Or.inl ⟨hp, heq⟩
  · exact Or.inr ⟨p', rfl, (List.prefix_append_right_inj a).mp h⟩

section Frames

variable {frames : List (List B × A)} {report : A → Option R}

/-- **One call of the reader.**  What is drained from a part of the stream is a number of whole
frames; a part of the next one stays. -/
theorem drain_of_prefix (hnil : decode [] = (idle, []))
    (hframes : ∀ f ∈ frames, Recognises decode idle f.1 f.2) {buf : List B}
    (hbuf : buf <+: stream frames) :
    ∃ done todo left, frames = done ++ todo ∧ Pending left todo ∧ buf = stream done ++ left ∧
      drain decode buf = (done.map Prod.snd ++ [idle], left) := by
  induction frames generalizing buf with
  | nil =>
    obtain rfl : buf = [] := List.prefix_nil.mp hbuf
    exact ⟨[], [], [], rfl, rfl, rfl, drain_of_kept hnil⟩
  | cons f frames ih =>
    have hf := hframes f List.mem_cons_self
    -- The buffer ends inside the first frame, or it holds all of it.
    rcases prefix_append_cases hbuf with ⟨hp, hne⟩ | ⟨buf', rfl, hbuf'⟩
    · exact ⟨[], f :: frames, buf, rfl, ⟨hp, hne⟩, rfl, drain_of_kept (hf.incomplete buf hp hne)⟩
    · obtain ⟨done, todo, left, rfl, hleft, rfl, hdrain⟩ :=
        ih (fun g hg => hframes g (List.mem_cons_of_mem f hg)) hbuf'
      refine ⟨f :: done, todo, left, rfl, hleft, ?_, ?_⟩
      · rw [stream_cons, List.append_assoc]
      · rw [hf.drain_append, hdrain]
        rfl

/-- What is left at the end of the stream. -/
theorem Pending.eq_nil {buf : List B} (h : Pending buf frames) (hbuf : buf = stream frames) :
    frames = [] := by
  cases frames with
  | nil => rfl
  | cons f frames =>
    obtain ⟨hp, hne⟩ := h
    have hlen : buf.length = f.1.length := by
      have hle := hp.length_le
      have hge := congrArg List.length hbuf
      rw [stream_cons, List.length_append] at hge
      omega
    exact absurd (hp.eq_of_length hlen) hne

theorem foldl_feed_of_frames (hnil : decode [] = (idle, [])) (hidle : report idle = none)
    (hframes : ∀ f ∈ frames, Recognises decode idle f.1 f.2) {chunks : List (List B)}
    (answers : List A) {buf : List B} (hpending : Pending buf frames)
    (hstream : buf ++ chunks.flatten = stream frames) :
    ((chunks.foldl (feed decode) (answers, buf)).1.filterMap report
        = answers.filterMap report ++ reported report frames) ∧
      (chunks.foldl (feed decode) (answers, buf)).2 = [] := by
  induction chunks generalizing answers buf frames with
  | nil =>
    rw [List.flatten_nil, List.append_nil] at hstream
    obtain rfl := hpending.eq_nil hstream
    exact ⟨(List.append_nil _).symm, hpending⟩
  | cons chunk chunks ih =>
    rw [List.flatten_cons, ← List.append_assoc] at hstream
    obtain ⟨done, todo, left, rfl, hleft, hbuf, hdrain⟩ :=
      drain_of_prefix hnil hframes ⟨chunks.flatten, hstream⟩
    -- What is left and what is still to come are the frames that were not taken.
    have hrest : left ++ chunks.flatten = stream todo := by
      rw [hbuf, List.append_assoc, stream_append] at hstream
      exact List.append_cancel_left hstream
    have htodo : ∀ f ∈ todo, Recognises decode idle f.1 f.2 :=
      fun f hf => hframes f (List.mem_append_right done hf)
    obtain ⟨hreport, hend⟩ := ih htodo (answers ++ (done.map Prod.snd ++ [idle])) hleft hrest
    rw [List.foldl_cons, feed, hdrain]
    refine ⟨hreport.trans ?_, hend⟩
    simp [reported, List.filterMap_append, List.filterMap_map, hidle]

/-- **Any chunking.**  A stream of frames gives their answers in order, and nothing is left. -/
theorem run_of_frames (hnil : decode [] = (idle, [])) (hidle : report idle = none)
    (hframes : ∀ f ∈ frames, Recognises decode idle f.1 f.2) {chunks : List (List B)}
    (hstream : chunks.flatten = stream frames) :
    (run decode chunks).1.filterMap report = reported report frames ∧
      (run decode chunks).2 = [] := by
  have hpending : Pending [] frames := by
    cases frames with
    | nil => rfl
    | cons f frames => exact ⟨List.nil_prefix, (hframes f List.mem_cons_self).ne_nil.symm⟩
  exact foldl_feed_of_frames hnil hidle hframes [] hpending hstream

end Frames

end ChunkedDecoder
