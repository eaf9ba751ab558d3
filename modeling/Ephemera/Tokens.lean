/-
# Tokens of a text

A text consists of tokens with separators in front of them, between them and behind them.
`Spells` says so without reference to an algorithm, and `tokens_eq_iff` says that splitting at
the separators and dropping what is empty finds exactly the tokens that spell the text.
-/
import Mathlib.Data.List.TakeWhile

namespace Tokens

variable {α : Type*} {p : α → Bool}

/-- The pieces between the separators that are not empty. -/
def tokens (p : α → Bool) (s : List α) : List (List α) :=
  (s.splitOnP p).filter (fun tok => !tok.isEmpty)

/-- The tokens, with any number of separators around them, and at least one between two. -/
inductive Spells (p : α → Bool) : List (List α) → List α → Prop where
  | nil : Spells p [] []
  | separator {toks : List (List α)} {s : List α} {c : α} (hc : p c = true) (h : Spells p toks s) :
      Spells p toks (c :: s)
  | token {toks : List (List α)} {s tok : List α} (hne : tok ≠ []) (hfree : ∀ c ∈ tok, p c = false)
      (hnext : ∀ c ∈ s.head?, p c = true) (h : Spells p toks s) : Spells p (tok :: toks) (tok ++ s)

theorem tokens_separator {c : α} (hc : p c = true) (s : List α) :
    tokens p (c :: s) = tokens p s := by
  rw [tokens, List.splitOnP_cons_eq_if_modifyHead, if_pos hc, List.filter_cons_of_neg (by simp)]
  rfl

theorem tokens_token {tok s : List α} (hne : tok ≠ []) (hfree : ∀ c ∈ tok, p c = false)
    (hnext : ∀ c ∈ s.head?, p c = true) : tokens p (tok ++ s) = tok :: tokens p s := by
  have hkeep : ∀ l : List (List α), (tok :: l).filter (fun tok => !tok.isEmpty)
      = tok :: l.filter (fun tok => !tok.isEmpty) :=
    fun l => List.filter_cons_of_pos (by simpa using hne)
  cases s with
  | nil =>
    rw [List.append_nil, tokens, List.splitOnP_eq_singleton hfree, hkeep]
    rfl
  | cons c s =>
    have hc : p c = true := hnext c rfl
    rw [tokens_separator hc, tokens, List.splitOnP_append_cons_of_forall_mem hfree c hc, hkeep]
    rfl

/-- The tokens of a text spell it. -/
theorem spells_tokens : (s : List α) → Spells p (tokens p s) s
  | [] => .nil
  | c :: s => by
    by_cases hc : p c = true
    · rw [tokens_separator hc]
      exact .separator hc (spells_tokens s)
    · -- the first token ends where the next separator stands
      have hsplit : c :: s.takeWhile (fun c => !p c) ++ s.dropWhile (fun c => !p c) = c :: s := by
        rw [List.cons_append, List.takeWhile_append_dropWhile]
      have hfree : ∀ c' ∈ c :: s.takeWhile (fun c => !p c), p c' = false := by
        intro c' hc'
        rcases List.mem_cons.mp hc' with rfl | hc'
        · simpa using hc
        · simpa using List.mem_takeWhile_imp hc'
      have hnext : ∀ c' ∈ (s.dropWhile (fun c => !p c)).head?, p c' = true := by
        intro c' hc'
        have hhead := List.head?_dropWhile_not (fun c => !p c) s
        rw [Option.mem_def.mp hc'] at hhead
        simpa using hhead
      rw [← hsplit, tokens_token (List.cons_ne_nil _ _) hfree hnext]
      exact .token (List.cons_ne_nil _ _) hfree hnext (spells_tokens _)
  termination_by s => s.length
  decreasing_by
    · simp
    · exact Nat.lt_succ_of_le (List.dropWhile_sublist _).length_le

/-- **Splitting finds the tokens that spell a text.** -/
theorem tokens_eq_iff {toks : List (List α)} {s : List α} :
    tokens p s = toks ↔ Spells p toks s := by
  constructor
  · rintro rfl
    exact spells_tokens s
  · intro h
    induction h with
    | nil => rfl
    | separator hc _ ih => rw [tokens_separator hc, ih]
    | token hne hfree hnext _ ih => rw [tokens_token hne hfree hnext, ih]

end Tokens
