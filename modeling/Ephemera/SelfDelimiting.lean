/-
# Self-delimiting texts

A way of writing values is self-delimiting when what is written at the front of a longer text
tells the value and the rest apart.  It is what is left of a prefix code without its reader, and
enough to say that texts put together from such parts determine every part
(`SelfDelimiting.injective`).
-/
import Ephemera.PrefixCode

/-- What is written and what follows it are determined by the whole. -/
def SelfDelimiting {B α : Type} (write : α → List B) : Prop :=
  ∀ a b x y, write a ++ x = write b ++ y → a = b ∧ x = y

namespace SelfDelimiting

variable {B α β : Type} {w : α → List B} {v : β → List B}

/-- Different values are written differently. -/
theorem injective (hw : SelfDelimiting w) : Function.Injective w :=
  fun a b h => (hw a b [] [] (by rw [h])).1

/-- A text that is read back off the front of every longer text is self-delimiting. -/
theorem ofReader {read : List B → Option (α × List B)}
    (hread : ∀ a more, read (w a ++ more) = some (a, more)) : SelfDelimiting w := by
  intro a b x y h
  have hpair := hread a x
  rw [h, hread b y] at hpair
  obtain ⟨hab, hxy⟩ := Prod.mk.inj (Option.some.inj hpair)
  exact ⟨hab.symm, hxy.symm⟩

/-- A prefix code is self-delimiting. -/
theorem ofPrefixCode (c : PrefixCode B α) : SelfDelimiting c.write := ofReader c.read_write

/-- One value after the other. -/
theorem pair (hw : SelfDelimiting w) (hv : SelfDelimiting v) :
    SelfDelimiting (fun p : α × β => w p.1 ++ v p.2) := by
  rintro ⟨a, b⟩ ⟨a', b'⟩ x y h
  simp only [List.append_assoc] at h
  obtain ⟨rfl, hrest⟩ := hw a a' _ _ h
  obtain ⟨rfl, rfl⟩ := hv b b' x y hrest
  exact ⟨rfl, rfl⟩

/-- Values that are told apart by what is written for them. -/
theorem comap (hw : SelfDelimiting w) {f : β → α} (hf : Function.Injective f) :
    SelfDelimiting (fun b => w (f b)) := by
  intro a b x y h
  obtain ⟨hab, hxy⟩ := hw _ _ x y h
  exact ⟨hf hab, hxy⟩

/-- A value behind a fixed text. -/
theorem behind (t : List B) (hw : SelfDelimiting w) : SelfDelimiting (fun a => t ++ w a) := by
  intro a b x y h
  simp only [List.append_assoc] at h
  exact hw a b x y (List.append_cancel_left h)

/-- A value in front of a fixed text. -/
theorem before (hw : SelfDelimiting w) (t : List B) : SelfDelimiting (fun a => w a ++ t) := by
  intro a b x y h
  simp only [List.append_assoc] at h
  obtain ⟨rfl, hrest⟩ := hw a b _ _ h
  exact ⟨rfl, List.append_cancel_left hrest⟩

/-- Values behind two texts of which neither begins the other are told apart. -/
theorem behind_ne {t t' : List B} (h : ¬ t <+: t') (h' : ¬ t' <+: t) (a b x y : List B) :
    t ++ a ++ x ≠ t' ++ b ++ y := by
  intro heq
  have hpre : t <+: t ++ a ++ x := List.append_assoc t a x ▸ List.prefix_append t (a ++ x)
  have hpre' : t' <+: t ++ a ++ x :=
    heq ▸ List.append_assoc t' b y ▸ List.prefix_append t' (b ++ y)
  rcases List.prefix_or_prefix_of_prefix hpre hpre' with hp | hp
  · exact h hp
  · exact h' hp

/-- A value that may be missing, which another text says. -/
def optionText (t : List B) (w : α → List B) : Option α → List B
  | none => t
  | some a => w a

theorem optionText_selfDelimiting {t : List B} {c : B} (hw : SelfDelimiting w)
    (hfirst : ∀ a, ∃ d l, w a = d :: l ∧ d ≠ c) : SelfDelimiting (optionText (c :: t) w) := by
  intro o o' x y h
  cases o with
  | none =>
    cases o' with
    | none => exact ⟨rfl, List.append_cancel_left h⟩
    | some a =>
      obtain ⟨d, l, hd, hne⟩ := hfirst a
      rw [optionText, optionText, hd] at h
      exact absurd (List.cons.inj h).1.symm hne
  | some a =>
    cases o' with
    | none =>
      obtain ⟨d, l, hd, hne⟩ := hfirst a
      rw [optionText, optionText, hd] at h
      exact absurd (List.cons.inj h).1 hne
    | some b =>
      obtain ⟨rfl, rfl⟩ := hw a b x y h
      exact ⟨rfl, rfl⟩

/-- Values one after the other, up to a letter that begins none of them. -/
theorem upTo {close : B} (hw : SelfDelimiting w)
    (hfirst : ∀ a, ∃ d l, w a = d :: l ∧ d ≠ close) :
    SelfDelimiting (fun l : List α => l.flatMap w ++ [close]) := by
  intro l
  induction l with
  | nil =>
    intro l' x y h
    cases l' with
    | nil => exact ⟨rfl, List.append_cancel_left h⟩
    | cons b l' =>
      obtain ⟨d, t, hd, hne⟩ := hfirst b
      dsimp only at h
      rw [List.flatMap_cons, hd] at h
      exact absurd (List.cons.inj h).1.symm hne
  | cons a l ih =>
    intro l' x y h
    cases l' with
    | nil =>
      obtain ⟨d, t, hd, hne⟩ := hfirst a
      dsimp only at h
      rw [List.flatMap_cons, hd] at h
      exact absurd (List.cons.inj h).1 hne
    | cons b l' =>
      simp only [List.flatMap_cons, List.append_assoc] at h
      obtain ⟨rfl, hrest⟩ := hw a b _ _ h
      obtain ⟨rfl, rfl⟩ := ih l' x y (by simpa only [List.append_assoc] using hrest)
      exact ⟨rfl, rfl⟩

/-- The rest of a list behind its first element: each element with a separator in front of it. -/
def tailText (sep close : B) (w : α → List B) (l : List α) : List B :=
  l.flatMap (fun a => sep :: w a) ++ [close]

/-- A list with its elements separated, up to a closing letter. -/
def listText (sep close : B) (w : α → List B) : List α → List B
  | [] => [close]
  | a :: l => w a ++ tailText sep close w l

theorem listText_selfDelimiting {sep close : B} (hw : SelfDelimiting w) (hsep : sep ≠ close)
    (hfirst : ∀ a, ∃ d l, w a = d :: l ∧ d ≠ close) :
    SelfDelimiting (listText sep close w) := by
  have htail : SelfDelimiting (tailText sep close w) :=
    upTo (behind [sep] hw) (fun a => ⟨sep, w a, rfl, hsep⟩)
  intro l l' x y h
  cases l with
  | nil =>
    cases l' with
    | nil => exact ⟨rfl, List.append_cancel_left h⟩
    | cons b l' =>
      obtain ⟨d, t, hd, hne⟩ := hfirst b
      rw [listText, listText, hd] at h
      exact absurd (List.cons.inj h).1.symm hne
  | cons a l =>
    cases l' with
    | nil =>
      obtain ⟨d, t, hd, hne⟩ := hfirst a
      rw [listText, listText, hd] at h
      exact absurd (List.cons.inj h).1 hne
    | cons b l' =>
      rw [listText, listText, List.append_assoc, List.append_assoc] at h
      obtain ⟨rfl, hrest⟩ := hw a b _ _ h
      obtain ⟨rfl, rfl⟩ := htail l l' x y hrest
      exact ⟨rfl, rfl⟩

end SelfDelimiting
