/-
# Prefix codes

A writer and a reader of texts such that the reader takes what was written off the front of a
longer text, and never changes its mind when the text goes on.  Both laws are fields, so a code
put together from codes has them again; no written text is then the beginning of another, and
a text that is cut short is not read at all (`parse_of_isPrefix`).
-/
import Mathlib.Data.List.Basic

/-- A code for the values of `α`, over the letters `B`. -/
structure PrefixCode (B α : Type) where
  write : α → List B
  read : List B → Option (α × List B)
  read_write : ∀ a more, read (write a ++ more) = some (a, more)
  read_append : ∀ bytes a rest, read bytes = some (a, rest) →
    ∀ more, read (bytes ++ more) = some (a, rest ++ more)

namespace PrefixCode

variable {B α β : Type}

/-! ## Whole texts -/

/-- Read a text that has to end with the value. -/
def parse (c : PrefixCode B α) (bytes : List B) : Option α :=
  match c.read bytes with
  | some (a, []) => some a
  | _ => none

theorem parse_write (c : PrefixCode B α) (a : α) : c.parse (c.write a) = some a := by
  have h := c.read_write a []
  rw [List.append_nil] at h
  rw [parse, h]

/-- **A text that is cut short is not read.** -/
theorem parse_of_isPrefix (c : PrefixCode B α) {a : α} {p : List B} (h : p <+: c.write a)
    (hne : p ≠ c.write a) : c.parse p = none := by
  obtain ⟨more, hmore⟩ := h
  cases hread : c.read p with
  | none => rw [parse, hread]
  | some r =>
    obtain ⟨b, rest⟩ := r
    cases rest with
    | cons x rest => rw [parse, hread]
    | nil =>
      -- If `p` were read to its end, `more` would be left over from the whole text.
      have hlong := c.read_append p b [] hread more
      have hwhole := c.read_write a []
      rw [List.append_nil] at hwhole
      rw [hmore, hwhole] at hlong
      obtain rfl : more = [] := (Prod.mk.inj (Option.some.inj hlong)).2.symm
      rw [List.append_nil] at hmore
      exact absurd hmore hne

/-! ## Putting codes together -/

/-- One value after the other. -/
def pair (c : PrefixCode B α) (d : PrefixCode B β) : PrefixCode B (α × β) where
  write p := c.write p.1 ++ d.write p.2
  read bytes := do
    let (a, rest) ← c.read bytes
    let (b, rest) ← d.read rest
    return ((a, b), rest)
  read_write p more := by
    simp only [List.append_assoc, c.read_write, bind, Option.bind, d.read_write]
    rfl
  read_append bytes p rest h more := by
    simp only [bind, Option.bind_eq_some_iff] at h
    obtain ⟨⟨a, rest₁⟩, ha, ⟨b, rest₂⟩, hb, hp⟩ := h
    cases hp
    simp only [c.read_append bytes a rest₁ ha, bind, Option.bind, d.read_append rest₁ b rest₂ hb]
    rfl

/-- Values that another code writes, if the value read is one of them. -/
def restrict (c : PrefixCode B α) (f : α → Option β) (g : β → α) (h : ∀ b, f (g b) = some b) :
    PrefixCode B β where
  write b := c.write (g b)
  read bytes := do
    let (a, rest) ← c.read bytes
    let b ← f a
    return (b, rest)
  read_write b more := by
    simp only [c.read_write, bind, Option.bind, h]
    rfl
  read_append bytes b rest hread more := by
    simp only [bind, Option.bind_eq_some_iff] at hread
    obtain ⟨⟨a, rest₁⟩, ha, b', hb, hp⟩ := hread
    cases hp
    simp only [c.read_append bytes a rest₁ ha, bind, Option.bind, hb]
    rfl

section Texts

variable [DecidableEq B]

/-- Of texts none of which begins another, at most one begins a longer text. -/
theorem find?_isPrefixOf {text : α → List B} {all : List α} (hall : ∀ a, a ∈ all)
    (hfree : ∀ a a', text a <+: text a' → a = a') (a : α) (more : List B) :
    all.find? (fun a' => (text a').isPrefixOf (text a ++ more)) = some a := by
  cases hf : all.find? (fun a' => (text a').isPrefixOf (text a ++ more)) with
  | none =>
    have hnone := List.find?_eq_none.mp hf a (hall a)
    simp at hnone
  | some a' =>
    have hpre : text a' <+: text a ++ more := by simpa using List.find?_some hf
    rcases List.prefix_or_prefix_of_prefix hpre (List.prefix_append (text a) more) with h | h
    · rw [hfree a' a h]
    · rw [hfree a a' h]

/-- Each value has a text, and no text is the beginning of another. -/
def choose (text : α → List B) (all : List α) (hall : ∀ a, a ∈ all)
    (hfree : ∀ a a', text a <+: text a' → a = a') : PrefixCode B α where
  write := text
  read bytes := (all.find? (fun a => (text a).isPrefixOf bytes)).map
    (fun a => (a, bytes.drop (text a).length))
  read_write a more := by
    rw [find?_isPrefixOf hall hfree a more, Option.map_some, List.drop_left]
  read_append bytes a rest h more := by
    obtain ⟨a', hf, hp⟩ := Option.map_eq_some_iff.mp h
    cases hp
    have hpre : text a <+: bytes := by simpa using List.find?_some hf
    obtain ⟨tail, rfl⟩ := hpre
    rw [List.append_assoc, find?_isPrefixOf hall hfree a (tail ++ more), Option.map_some,
      List.drop_left, List.drop_left]

/-- A fixed text. -/
def text (t : List B) : PrefixCode B Unit := choose (fun _ => t) [()] (by simp) (fun _ _ _ => rfl)

/-- A value behind a fixed text. -/
def after (t : List B) (c : PrefixCode B α) : PrefixCode B α :=
  ((text t).pair c).restrict (fun p => some p.2) (fun a => ((), a)) (fun _ => rfl)

theorem write_after (t : List B) (c : PrefixCode B α) (a : α) :
    (after t c).write a = t ++ c.write a := rfl

/-- A text with another first letter is not read. -/
theorem read_after_eq_none {x y : B} {s t : List B} {c : PrefixCode B α} (hne : x ≠ y)
    {bytes more : List B} (h : y :: t <+: bytes ++ more) :
    (after (x :: s) c).read bytes = none := by
  have hnone : (text (x :: s)).read bytes = none := by
    rw [text, choose, Option.map_eq_none_iff, List.find?_eq_none]
    intro _ _ hpre
    cases bytes with
    | nil => simp at hpre
    | cons b bytes =>
      rw [List.cons_append, List.cons_prefix_cons] at h
      rw [List.isPrefixOf_iff_prefix, List.cons_prefix_cons] at hpre
      exact hne (hpre.1.trans h.1.symm)
  simp only [after, restrict, pair, hnone, bind, Option.bind]

/-- A value that may be missing, which another text says. -/
def optional (t : List B) (c : PrefixCode B α)
    (h : ∀ bytes more, t <+: bytes ++ more → c.read bytes = none) : PrefixCode B (Option α) where
  write
    | none => t
    | some a => c.write a
  read bytes :=
    if t.isPrefixOf bytes then some (none, bytes.drop t.length)
    else (c.read bytes).map (fun r => (some r.1, r.2))
  read_write a more := by
    cases a with
    | none =>
      have hpre : t.isPrefixOf (t ++ more) = true :=
        List.isPrefixOf_iff_prefix.mpr (List.prefix_append t more)
      rw [if_pos hpre, List.drop_left]
    | some a =>
      -- The code reads what it wrote, so the other text does not begin it.
      have hpre : ¬ t.isPrefixOf (c.write a ++ more) = true := by
        intro hpre
        have hnone := h (c.write a ++ more) [] (by
          rw [List.append_nil]
          exact List.isPrefixOf_iff_prefix.mp hpre)
        rw [c.read_write] at hnone
        cases hnone
      rw [if_neg hpre, c.read_write]
      rfl
  read_append bytes a rest hread more := by
    split at hread
    · rename_i hpre
      obtain ⟨tail, rfl⟩ := List.isPrefixOf_iff_prefix.mp hpre
      cases hread
      have hlong : t.isPrefixOf (t ++ tail ++ more) = true := by
        rw [List.append_assoc]
        exact List.isPrefixOf_iff_prefix.mpr (List.prefix_append t _)
      rw [if_pos hlong, List.append_assoc, List.drop_left, List.drop_left]
    · obtain ⟨⟨b, rest'⟩, hb, hp⟩ := Option.map_eq_some_iff.mp hread
      cases hp
      have hlong : ¬ t.isPrefixOf (bytes ++ more) = true := by
        intro hpre
        have hnone := h bytes more (List.isPrefixOf_iff_prefix.mp hpre)
        rw [hb] at hnone
        cases hnone
      rw [if_neg hlong, c.read_append bytes b rest' hb]
      rfl

end Texts

theorem write_pair (c : PrefixCode B α) (d : PrefixCode B β) (p : α × β) :
    (c.pair d).write p = c.write p.1 ++ d.write p.2 := rfl

theorem write_restrict (c : PrefixCode B α) (f : α → Option β) (g : β → α)
    (h : ∀ b, f (g b) = some b) (b : β) : (c.restrict f g h).write b = c.write (g b) := rfl

end PrefixCode
