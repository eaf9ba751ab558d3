/-
# Queues of bounded length

A queue that takes a new element at its back, and drops the one at its front first when it is
full.  It never grows past its capacity (`length_push_le`), and after any number of pushes it
holds the last ones (`foldl_push`).
-/
import Mathlib.Data.List.Induction

namespace BoundedQueue

variable {α : Type*} {cap : ℕ}

/-- What a push leaves of the queue: all of it, unless it is full. -/
def kept (cap : ℕ) (q : List α) : List α := if cap ≤ q.length then q.tail else q

/-- Push at the back. -/
def push (cap : ℕ) (q : List α) (a : α) : List α := kept cap q ++ [a]

theorem kept_sublist (q : List α) : (kept cap q).Sublist q := by
  unfold kept
  split
  · exact List.tail_sublist q
  · exact List.Sublist.refl q

/-- There is room after the drop. -/
theorem length_kept_lt (hcap : 0 < cap) {q : List α} (hq : q.length ≤ cap) :
    (kept cap q).length < cap := by
  unfold kept
  split
  · rw [List.length_tail]
    omega
  · omega

/-- The capacity is never exceeded. -/
theorem length_push_le (hcap : 0 < cap) {q : List α} (hq : q.length ≤ cap) (a : α) :
    (push cap q a).length ≤ cap := by
  have hlt := length_kept_lt hcap hq
  rw [push, List.length_append, List.length_singleton]
  omega

/-- **The queue holds what came last.** -/
theorem foldl_push (hcap : 0 < cap) (l : List α) :
    l.foldl (push cap) [] = l.drop (l.length - cap) := by
  induction l using List.reverseRecOn with
  | nil => simp
  | append_singleton l a ih =>
    rw [List.foldl_append, List.foldl_cons, List.foldl_nil, ih, push, kept, List.length_drop,
      List.length_append, List.length_singleton]
    by_cases hfull : cap ≤ l.length
    · -- the queue is full, so the window moves on by one
      rw [if_pos (by omega), List.tail_drop, List.drop_append_of_le_length (by omega),
        show l.length - cap + 1 = l.length + 1 - cap from by omega]
    · rw [if_neg (by omega), show l.length - cap = 0 from by omega,
        show l.length + 1 - cap = 0 from by omega]
      rfl

end BoundedQueue
