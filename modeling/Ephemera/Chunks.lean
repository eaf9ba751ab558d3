/-
# Lists in chunks of one length

`List.toChunks` cuts a list into pieces of a given length, the last of which may be shorter.
Putting the pieces together gives the list (`List.flatten_toChunks`), and cutting what was put
together from pieces of that length gives the pieces back (`List.toChunks_flatten`).  Code that
reads one piece after the other takes the `i`-th from its place (`chunk`).
-/
import Mathlib.Data.List.Basic

/-- Cutting a list into chunks loses nothing. -/
theorem List.flatten_toChunks_go {α : Type} (n : ℕ) (l : List α) (acc : Array α)
    (done : Array (List α)) :
    (List.toChunks.go n l acc done).flatten = done.toList.flatten ++ acc.toList ++ l := by
  induction l generalizing acc done with
  | nil => simp [List.toChunks.go]
  | cons a l ih =>
    rw [List.toChunks.go]
    split
    · rw [ih]
      simp
    · rw [ih]
      simp

theorem List.flatten_toChunks {α : Type} (n : ℕ) (l : List α) : (l.toChunks n).flatten = l := by
  cases l with
  | nil => cases n <;> rfl
  | cons a l =>
    cases n with
    | zero => simp [List.toChunks]
    | succ n =>
      show (List.toChunks.go (n + 1) l #[a] #[]).flatten = a :: l
      rw [List.flatten_toChunks_go]
      rfl

/-! ## Lengths -/

/-- All chunks but the last are full, and the last is not empty. -/
theorem List.toChunks_go_lengths {α : Type} {n : ℕ} (l : List α) (acc : Array α)
    (done : Array (List α)) (hacc : 0 < acc.size) (hle : acc.size ≤ n)
    (hdone : ∀ c ∈ done.toList, c.length = n) :
    ∃ full last, List.toChunks.go n l acc done = full ++ [last] ∧
      (∀ c ∈ full, c.length = n) ∧ 0 < last.length ∧ last.length ≤ n := by
  induction l generalizing acc done with
  | nil => exact ⟨done.toList, acc.toList, by simp [List.toChunks.go], hdone, by simpa, by simpa⟩
  | cons a l ih =>
    rw [List.toChunks.go]
    split
    · rename_i hfull
      refine ih _ _ (by simp) (by simp; omega) (fun c hc => ?_)
      rw [Array.toList_push, List.mem_append, List.mem_singleton] at hc
      rcases hc with hc | rfl
      · exact hdone c hc
      · simpa using hfull
    · rename_i hroom
      have hne : acc.size ≠ n := by simpa using hroom
      exact ih _ _ (by simp) (by simp; omega) hdone

theorem List.toChunks_lengths {α : Type} {n : ℕ} (hn : 0 < n) (l : List α) :
    (∀ c ∈ (l.toChunks n).dropLast, c.length = n) ∧
      ∀ c ∈ (l.toChunks n).getLast?, 0 < c.length ∧ c.length ≤ n := by
  cases l with
  | nil => cases n <;> simp [List.toChunks]
  | cons a l =>
    cases n with
    | zero => omega
    | succ n =>
      obtain ⟨full, last, heq, hfull, hpos, hle⟩ :=
        List.toChunks_go_lengths (n := n + 1) l #[a] #[] (by simp) (by simp) (by simp)
      have hchunks : (a :: l).toChunks (n + 1) = full ++ [last] := heq
      rw [hchunks, List.dropLast_concat, List.getLast?_concat]
      refine ⟨hfull, fun c hc => ?_⟩
      rw [← Option.some.inj hc]
      exact ⟨hpos, hle⟩

/-! ## Whole pieces -/

section

variable {α : Type} {n k : ℕ} {l : List α}

/-- What pieces of one length make up. -/
theorem List.length_flatten_pieces {groups : List (List α)} (h : ∀ g ∈ groups, g.length = n) :
    groups.flatten.length = n * groups.length := by
  rw [List.length_flatten, List.map_congr_left h, List.map_const', List.sum_replicate_nat,
    Nat.mul_comm]

/-- A list whose length is a multiple is cut into whole pieces. -/
theorem List.length_of_mem_toChunks (hn : 0 < n) (h : l.length = n * k) {g : List α}
    (hg : g ∈ l.toChunks n) : g.length = n := by
  obtain ⟨hfull, hlast⟩ := List.toChunks_lengths hn l
  have hflat := List.flatten_toChunks n l
  rcases List.eq_nil_or_concat (l.toChunks n) with hnil | ⟨full, last, heq⟩
  · rw [hnil] at hg
    cases hg
  · rw [List.concat_eq_append] at heq
    rw [heq, List.dropLast_concat] at hfull
    rw [heq, List.getLast?_concat] at hlast
    obtain ⟨hpos, hle⟩ := hlast last rfl
    rw [heq, List.flatten_append, List.flatten_singleton] at hflat
    have htotal : n * full.length + last.length = n * k := by
      rw [← List.length_flatten_pieces hfull, ← List.length_append, hflat, h]
    -- The last piece is a multiple of `n` too.
    have hdvd : n ∣ last.length := by
      rw [Nat.dvd_add_right (Nat.dvd_mul_right n full.length) |>.symm, htotal]
      exact Nat.dvd_mul_right n k
    have hwhole : last.length = n := Nat.le_antisymm hle (Nat.le_of_dvd hpos hdvd)
    rw [heq] at hg
    rcases List.mem_append.mp hg with hg | hg
    · exact hfull g hg
    · rw [List.mem_singleton.mp hg, hwhole]

theorem List.length_toChunks (hn : 0 < n) (h : l.length = n * k) : (l.toChunks n).length = k := by
  have hlen := List.length_flatten_pieces (fun g hg => List.length_of_mem_toChunks hn h hg)
  rw [List.flatten_toChunks, h] at hlen
  exact (Nat.eq_of_mul_eq_mul_left hn hlen).symm

/-- Pieces of one length are determined by what they make up. -/
theorem List.eq_of_flatten_eq (hn : 0 < n) {groups groups' : List (List α)}
    (h : ∀ g ∈ groups, g.length = n) (h' : ∀ g ∈ groups', g.length = n)
    (heq : groups.flatten = groups'.flatten) : groups = groups' := by
  have hlen := congrArg List.length heq
  rw [List.length_flatten_pieces h, List.length_flatten_pieces h'] at hlen
  have hcount := Nat.eq_of_mul_eq_mul_left hn hlen
  induction groups generalizing groups' with
  | nil => exact (List.length_eq_zero_iff.mp hcount.symm).symm
  | cons g groups ih =>
    cases groups' with
    | nil => cases hcount
    | cons g' groups' =>
      rw [List.flatten_cons, List.flatten_cons] at heq
      obtain ⟨rfl, hrest⟩ := List.append_inj heq
        ((h g List.mem_cons_self).trans (h' g' List.mem_cons_self).symm)
      have hcount' := Nat.succ.inj hcount
      rw [ih (fun x hx => h x (List.mem_cons_of_mem g hx))
        (fun x hx => h' x (List.mem_cons_of_mem _ hx)) hrest (by rw [hcount']) hcount']

/-- **Cutting what was put together** from pieces of that length. -/
theorem List.toChunks_flatten (hn : 0 < n) {groups : List (List α)}
    (h : ∀ g ∈ groups, g.length = n) : groups.flatten.toChunks n = groups :=
  List.eq_of_flatten_eq hn
    (fun _ hg => List.length_of_mem_toChunks hn (List.length_flatten_pieces h) hg) h
    (List.flatten_toChunks n groups.flatten)

end

/-! ## One piece -/

namespace Chunks

variable {α : Type*}

/-- The `i`-th piece of length `n`. -/
def chunk (n : ℕ) (l : List α) (i : ℕ) : List α := (l.drop (n * i)).take n

theorem length_chunk {n : ℕ} {l : List α} {i : ℕ} (h : n * (i + 1) ≤ l.length) :
    (chunk n l i).length = n := by
  rw [Nat.mul_succ] at h
  rw [chunk, List.length_take, List.length_drop]
  omega

/-- The first `k` pieces are a first part of the list. -/
theorem flatten_map_chunk (n : ℕ) (l : List α) (k : ℕ) :
    ((List.range k).map (chunk n l)).flatten = l.take (n * k) := by
  induction k with
  | zero => simp
  | succ k ih =>
    rw [List.range_succ, List.map_append, List.flatten_append, ih, List.map_singleton,
      List.flatten_singleton, chunk, Nat.mul_succ, List.take_add]

/-- The pieces of what was put together. -/
theorem chunk_flatten {n : ℕ} {groups : List (List α)} (h : ∀ g ∈ groups, g.length = n) {i : ℕ}
    (hi : i < groups.length) : chunk n groups.flatten i = groups[i] := by
  induction groups generalizing i with
  | nil => simp at hi
  | cons g groups ih =>
    have hg : g.length = n := h g List.mem_cons_self
    rw [chunk, List.flatten_cons]
    cases i with
    | zero => rw [Nat.mul_zero, List.drop_zero, List.take_left' hg, List.getElem_cons_zero]
    | succ i =>
      have hrest := ih (fun g' hg' => h g' (List.mem_cons_of_mem g hg')) (Nat.lt_of_succ_lt_succ hi)
      rw [Nat.mul_succ, Nat.add_comm, ← List.drop_drop, List.drop_left' hg,
        List.getElem_cons_succ, ← hrest]
      rfl

end Chunks
