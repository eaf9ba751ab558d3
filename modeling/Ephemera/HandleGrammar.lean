/-
# The grammar of handle names

`validate_handle_format` checks a name one rule after the other: its length in bytes, each
character, both ends, doubled underscores, a digit in front, the reserved names.  What passes
is a regular language, `[a-z](_?[a-z0-9])*` of three to twenty characters, without the reserved
names (`validateHandleFormat_eq_ok_iff`).

So there are no capitals in a valid name.  `register` stores only valid names, and as `lookup`
reads under the lower case of what it is given, it finds them in any case.
-/
import Ephemera.HandleRenewal
import Ephemera.Utf8
import Mathlib.Computability.RegularExpressions

/-! ## Ranges of characters -/

namespace RegularExpression

/-- The characters from `lo` to `hi`. -/
def charsBetween (lo hi : Char) : List Char :=
  (List.range' lo.toNat (hi.toNat + 1 - lo.toNat)).map Char.ofNat

/-- One character from `lo` to `hi`. -/
def range (lo hi : Char) : RegularExpression Char :=
  (charsBetween lo hi).foldr (fun c r => char c + r) 0

theorem mem_charsBetween_iff {lo hi c : Char} (hhi : hi.toNat < 0xd800) :
    c ∈ charsBetween lo hi ↔ lo ≤ c ∧ c ≤ hi := by
  have hle (a b : Char) : a ≤ b ↔ a.toNat ≤ b.toNat := Iff.rfl
  rw [charsBetween, List.mem_map, hle, hle]
  constructor
  · rintro ⟨n, hn, rfl⟩
    rw [List.mem_range'_1] at hn
    have hvalid : n.isValidChar := Or.inl (by omega)
    have hval : (Char.ofNat n).toNat = n := by
      rw [Char.ofNat, dif_pos hvalid]
      rfl
    omega
  · rintro ⟨hlo, hhi⟩
    exact ⟨c.toNat, List.mem_range'_1.mpr (by omega), Char.ofNat_toNat c⟩

theorem mem_matches'_range_iff {lo hi : Char} (hhi : hi.toNat < 0xd800) {l : List Char} :
    l ∈ (range lo hi).matches' ↔ ∃ c, (lo ≤ c ∧ c ≤ hi) ∧ l = [c] := by
  have hfoldr (cs : List Char) :
      l ∈ (cs.foldr (fun c r => char c + r) 0 : RegularExpression Char).matches' ↔
        ∃ c ∈ cs, l = [c] := by
    induction cs with
    | nil => simp
    | cons c cs ih =>
      rw [List.foldr_cons, matches'_add, Language.mem_add, ih, matches'_char,
        List.exists_mem_cons_iff]
      rfl
  rw [range, hfoldr]
  simp only [mem_charsBetween_iff hhi]

end RegularExpression

namespace HandleGrammar

open RegularExpression Computability

/-! ## The pattern -/

/-- `[a-z0-9]`. -/
def alnum : RegularExpression Char := range 'a' 'z' + range '0' '9'

/-- `_?[a-z0-9]`. -/
def item : RegularExpression Char := (1 + char '_') * alnum

/-- `[a-z](_?[a-z0-9])*`. -/
def pattern : RegularExpression Char := range 'a' 'z' * item.star

/-- A letter or a digit. -/
def isAlnum (c : Char) : Bool := isAsciiLowercase c || isAsciiDigit c

theorem mem_alnum_iff {l : List Char} :
    l ∈ alnum.matches' ↔ ∃ c, isAlnum c = true ∧ l = [c] := by
  rw [alnum, matches'_add, Language.mem_add, mem_matches'_range_iff (by decide),
    mem_matches'_range_iff (by decide), ← exists_or]
  simp only [isAlnum, isAsciiLowercase, isAsciiDigit, Bool.or_eq_true, Bool.and_eq_true,
    decide_eq_true_eq, or_and_right]

theorem mem_item_iff {l : List Char} :
    l ∈ item.matches' ↔
      ∃ c, isAlnum c = true ∧ (l = [c] ∨ l = ['_', c]) := by
  rw [item, matches'_mul, Language.mem_mul, matches'_add, matches'_epsilon, matches'_char]
  constructor
  · rintro ⟨a, ha, b, hb, rfl⟩
    obtain ⟨c, hc, rfl⟩ := mem_alnum_iff.mp hb
    refine ⟨c, hc, ?_⟩
    obtain rfl | rfl := (Language.mem_add _ _ _).mp ha
    · exact .inl rfl
    · exact .inr rfl
  · rintro ⟨c, hc, rfl | rfl⟩
    · exact ⟨[], .inl rfl, [c], mem_alnum_iff.mpr ⟨c, hc, rfl⟩, rfl⟩
    · exact ⟨['_'], .inr rfl, [c], mem_alnum_iff.mpr ⟨c, hc, rfl⟩, rfl⟩

/-- What follows the first character: nothing, or an item and then again the like. -/
theorem mem_star_iff {l : List Char} :
    l ∈ item.matches'∗ ↔ l = [] ∨ ∃ c l', isAlnum c = true ∧
      l' ∈ item.matches'∗ ∧ (l = c :: l' ∨ l = '_' :: c :: l') := by
  rw [← Language.one_add_self_mul_kstar_eq_kstar, Language.mem_add, Language.mem_one,
    Language.mem_mul, Language.one_add_self_mul_kstar_eq_kstar]
  refine or_congr_right ?_
  constructor
  · rintro ⟨a, ha, l', hl', rfl⟩
    obtain ⟨c, hc, rfl | rfl⟩ := mem_item_iff.mp ha
    · exact ⟨c, l', hc, hl', .inl rfl⟩
    · exact ⟨c, l', hc, hl', .inr rfl⟩
  · rintro ⟨c, l', hc, hl', rfl | rfl⟩
    · exact ⟨[c], mem_item_iff.mpr ⟨c, hc, .inl rfl⟩, l', hl', rfl⟩
    · exact ⟨['_', c], mem_item_iff.mpr ⟨c, hc, .inr rfl⟩, l', hl', rfl⟩

/-! ## The rules on what follows the first character -/

/-- The characters are those of a handle, the last one is no underscore, and no two underscores
stand together. -/
structure TailRules (l : List Char) : Prop where
  chars : ∀ c ∈ l, isHandleChar c = true
  last : l.getLast? ≠ some '_'
  single : hasDoubleUnderscore l = false

theorem isHandleChar_iff {c : Char} : isHandleChar c = true ↔ isAlnum c = true ∨ c = '_' := by
  rw [isHandleChar, ← isAlnum, Bool.or_eq_true, beq_iff_eq]

theorem ne_underscore {c : Char} (h : isAlnum c = true) : c ≠ '_' := by
  rintro rfl
  exact absurd h (by decide)

theorem tailRules_nil : TailRules [] := ⟨nofun, nofun, rfl⟩

/-- A letter or a digit changes nothing. -/
theorem tailRules_cons_iff {c : Char} {l : List Char} (hc : isAlnum c = true) :
    TailRules (c :: l) ↔ TailRules l := by
  have hne := ne_underscore hc
  cases l with
  | nil =>
    refine iff_of_true ⟨fun d hd => ?_, ?_, rfl⟩ tailRules_nil
    · rw [List.mem_singleton.mp hd]
      exact isHandleChar_iff.mpr (.inl hc)
    · simpa using hne
  | cons d l =>
    have hsingle : hasDoubleUnderscore (c :: d :: l) = hasDoubleUnderscore (d :: l) := by
      rw [hasDoubleUnderscore, beq_false_of_ne hne, Bool.false_and, Bool.false_or]
    constructor
    · rintro ⟨hchars, hlast, hdouble⟩
      exact ⟨fun e he => hchars e (List.mem_cons_of_mem c he), hlast, hsingle ▸ hdouble⟩
    · rintro ⟨hchars, hlast, hdouble⟩
      exact ⟨List.forall_mem_cons.mpr ⟨isHandleChar_iff.mpr (.inl hc), hchars⟩, hlast,
        hsingle.trans hdouble⟩

/-- After an underscore there is a letter or a digit. -/
theorem tailRules_underscore_iff {l : List Char} :
    TailRules ('_' :: l) ↔ ∃ d l', l = d :: l' ∧ isAlnum d = true ∧ TailRules l' := by
  cases l with
  | nil => exact iff_of_false (fun h => h.last rfl) (fun ⟨_, _, h, _⟩ => nomatch h)
  | cons d l =>
    constructor
    · rintro ⟨hchars, hlast, hdouble⟩
      rw [hasDoubleUnderscore, beq_self_eq_true, Bool.true_and, Bool.or_eq_false_iff,
        beq_eq_false_iff_ne] at hdouble
      have hrest := (List.forall_mem_cons.mp hchars).2
      have hd : isAlnum d = true :=
        (isHandleChar_iff.mp (hrest d List.mem_cons_self)).resolve_right hdouble.1
      exact ⟨d, l, rfl, hd, (tailRules_cons_iff hd).mp ⟨hrest, hlast, hdouble.2⟩⟩
    · rintro ⟨d, l, heq, hd, hl⟩
      obtain ⟨rfl, rfl⟩ := List.cons.inj heq
      obtain ⟨hchars, hlast, hdouble⟩ := (tailRules_cons_iff hd).mpr hl
      refine ⟨List.forall_mem_cons.mpr ⟨by decide, hchars⟩, hlast, ?_⟩
      rw [hasDoubleUnderscore, beq_self_eq_true, Bool.true_and, beq_false_of_ne (ne_underscore hd),
        Bool.false_or, hdouble]

theorem tailRules_iff {l : List Char} :
    TailRules l ↔ l = [] ∨ ∃ c l', isAlnum c = true ∧ TailRules l' ∧
      (l = c :: l' ∨ l = '_' :: c :: l') := by
  constructor
  · intro h
    cases l with
    | nil => exact .inl rfl
    | cons c l =>
      obtain hc | rfl := isHandleChar_iff.mp (h.chars c List.mem_cons_self)
      · exact .inr ⟨c, l, hc, (tailRules_cons_iff hc).mp h, .inl rfl⟩
      · obtain ⟨d, l', rfl, hd, hl'⟩ := tailRules_underscore_iff.mp h
        exact .inr ⟨d, l', hd, hl', .inr rfl⟩
  · rintro (rfl | ⟨c, l', hc, hl', rfl | rfl⟩)
    · exact tailRules_nil
    · exact (tailRules_cons_iff hc).mpr hl'
    · exact tailRules_underscore_iff.mpr ⟨c, l', rfl, hc, hl'⟩

/-- **The rules are the grammar.**  The induction takes an item at a time, one character or
two. -/
theorem mem_star_iff_tailRules (l : List Char) : l ∈ item.matches'∗ ↔ TailRules l := by
  induction hn : l.length using Nat.strong_induction_on generalizing l with
  | _ n ih =>
    rw [mem_star_iff, tailRules_iff]
    refine or_congr_right (exists_congr (fun c => exists_congr (fun l' =>
      and_congr_right (fun _ => and_congr_left (fun hl => ih l'.length ?_ l' rfl)))))
    rcases hl with rfl | rfl
    · exact hn ▸ Nat.lt_succ_self _
    · exact hn ▸ Nat.lt_succ_of_lt (Nat.lt_succ_self _)

/-- The first character is a lower-case letter, and the rest follows the rules. -/
theorem mem_pattern_iff {l : List Char} :
    l ∈ pattern.matches' ↔ ∃ c l', l = c :: l' ∧ isAsciiLowercase c = true ∧ TailRules l' := by
  rw [pattern, matches'_mul, matches'_star, Language.mem_mul]
  constructor
  · rintro ⟨a, ha, l', hl', rfl⟩
    obtain ⟨c, hc, rfl⟩ := (mem_matches'_range_iff (by decide)).mp ha
    refine ⟨c, l', rfl, ?_, (mem_star_iff_tailRules l').mp hl'⟩
    simpa [isAsciiLowercase] using hc
  · rintro ⟨c, l', rfl, hc, hl'⟩
    refine ⟨[c], (mem_matches'_range_iff (by decide)).mpr ⟨c, ?_, rfl⟩, l',
      (mem_star_iff_tailRules l').mpr hl', rfl⟩
    simpa [isAsciiLowercase] using hc

/-! ## The checks -/

/-- The characters of a handle are ASCII, and not capitals. -/
theorem isAscii_of_isHandleChar {c : Char} (h : isHandleChar c = true) :
    Utf8.IsAscii c ∧ ¬('A' ≤ c ∧ c ≤ 'Z') := by
  simp only [isHandleChar, isAsciiLowercase, isAsciiDigit, Bool.or_eq_true, Bool.and_eq_true,
    decide_eq_true_eq, beq_iff_eq] at h
  rcases h with (⟨hlo, hhi⟩ | ⟨hlo, hhi⟩) | rfl
  · exact ⟨Nat.lt_of_le_of_lt hhi (by decide),
      fun hc => absurd (Char.le_trans hlo hc.2) (by decide)⟩
  · exact ⟨Nat.lt_of_le_of_lt hhi (by decide),
      fun hc => absurd (Char.le_trans hc.1 hhi) (by decide)⟩
  · decide

/-- The rules on the characters, as the checks state them one after the other. -/
theorem mem_pattern_iff_checks {l : List Char} :
    l ∈ pattern.matches' ↔ l ≠ [] ∧ (∀ c ∈ l, isHandleChar c = true) ∧ l.head? ≠ some '_' ∧
      l.getLast? ≠ some '_' ∧ hasDoubleUnderscore l = false ∧
      l.head?.any isAsciiDigit = false := by
  rw [mem_pattern_iff]
  constructor
  · rintro ⟨c, l', rfl, hc, hl'⟩
    have halnum : isAlnum c = true := by rw [isAlnum, hc, Bool.true_or]
    obtain ⟨hchars, hlast, hdouble⟩ := (tailRules_cons_iff halnum).mpr hl'
    have hdigit : isAsciiDigit c = false := by
      simp only [isAsciiLowercase, Bool.and_eq_true, decide_eq_true_eq] at hc
      rw [isAsciiDigit, Bool.and_eq_false_iff, decide_eq_false_iff_not, decide_eq_false_iff_not]
      exact .inr (fun hle => absurd (Char.le_trans hc.1 hle) (by decide))
    refine ⟨List.cons_ne_nil _ _, hchars, fun hhead => ?_, hlast, hdouble, hdigit⟩
    exact ne_underscore halnum (Option.some.inj hhead)
  · rintro ⟨hne, hchars, hhead, hlast, hdouble, hdigit⟩
    obtain ⟨c, l', rfl⟩ := List.exists_cons_of_ne_nil hne
    have halnum : isAlnum c = true :=
      (isHandleChar_iff.mp (hchars c List.mem_cons_self)).resolve_right
        (fun h => hhead (congrArg some h))
    have hlower : isAsciiLowercase c = true := by
      rw [isAlnum, Bool.or_eq_true] at halnum
      exact halnum.resolve_right (fun h => Bool.false_ne_true (hdigit.symm.trans h))
    exact ⟨c, l', rfl, hlower, (tailRules_cons_iff halnum).mp ⟨hchars, hlast, hdouble⟩⟩

/-- The characters of a handle are as many as its bytes. -/
theorem length_nameBytes {s : String} (h : ∀ c ∈ s.toList, isHandleChar c = true) :
    (nameBytes s).length = s.toList.length := by
  have hencode : nameBytes s = s.toList.map Utf8.byteOf :=
    Utf8.encode_of_isAscii (fun c hc => (isAscii_of_isHandleChar (h c hc)).1)
  rw [hencode, List.length_map]

/-- The search for a character that no handle has. -/
theorem find?_zipIdx_eq_none_iff {l : List Char} :
    l.zipIdx.find? (fun c => !isHandleChar c.1) = none ↔ ∀ c ∈ l, isHandleChar c = true := by
  simp only [List.find?_eq_none, Bool.not_eq_true, Bool.not_eq_false']
  constructor
  · intro h c hc
    obtain ⟨i, hi⟩ := List.mem_iff_getElem?.mp hc
    exact h (c, i) (List.mem_zipIdx_iff_getElem?.mpr hi)
  · rintro h ⟨c, i⟩ hc
    exact h c (List.mem_of_getElem? (List.mem_zipIdx_iff_getElem?.mp hc))

theorem ite_error_eq_ok_iff {p : Prop} [Decidable p] {e : HandleValidationError}
    {x : Except HandleValidationError Unit} :
    (if p then .error e else x) = .ok () ↔ ¬p ∧ x = .ok () := by
  split <;> simp_all

/-- The checks, all together. -/
theorem validateHandleFormat_eq_ok_iff_checks {s : String} :
    validateHandleFormat s = .ok () ↔
      (3 ≤ (nameBytes s).length ∧ (nameBytes s).length ≤ 20) ∧
        (∀ c ∈ s.toList, isHandleChar c = true) ∧ s.toList.head? ≠ some '_' ∧
        s.toList.getLast? ≠ some '_' ∧ hasDoubleUnderscore s.toList = false ∧
        s.toList.head?.any isAsciiDigit = false ∧ s ∉ reservedHandles := by
  rw [← find?_zipIdx_eq_none_iff, validateHandleFormat, minHandleLen, maxHandleLen]
  simp only [ite_error_eq_ok_iff, not_lt, and_assoc]
  refine and_congr_right (fun _ => and_congr_right (fun _ => ?_))
  cases s.toList.zipIdx.find? (fun c => !isHandleChar c.1) with
  | some c => simp
  | none => simp only [ite_error_eq_ok_iff, Bool.not_eq_true, and_true, true_and, ne_eq]

/-- **Valid names.**  The checks accept the names of three to twenty characters that match the
pattern and are not reserved. -/
theorem validateHandleFormat_eq_ok_iff {s : String} :
    validateHandleFormat s = .ok () ↔
      (3 ≤ s.toList.length ∧ s.toList.length ≤ 20) ∧ s.toList ∈ pattern.matches' ∧
        s ∉ reservedHandles := by
  rw [validateHandleFormat_eq_ok_iff_checks, mem_pattern_iff_checks]
  constructor
  · rintro ⟨hlen, hchars, hhead, hlast, hdouble, hdigit, hfree⟩
    rw [length_nameBytes hchars] at hlen
    refine ⟨hlen, ⟨?_, hchars, hhead, hlast, hdouble, hdigit⟩, hfree⟩
    exact List.ne_nil_of_length_pos (Nat.lt_of_lt_of_le (by decide) hlen.1)
  · rintro ⟨hlen, ⟨-, hchars, hhead, hlast, hdouble, hdigit⟩, hfree⟩
    rw [← length_nameBytes hchars] at hlen
    exact ⟨hlen, hchars, hhead, hlast, hdouble, hdigit, hfree⟩

/-! ## Names in any case -/

open HandleRegistry StateExcept

/-- A valid name is its own lower case. -/
theorem toAsciiLowercase_of_valid {s : String} (h : validateHandleFormat s = .ok ()) :
    toAsciiLowercase s = s := by
  have hchars := (validateHandleFormat_eq_ok_iff_checks.mp h).2.1
  have hmap : s.toList.map Char.toLower = s.toList.map id :=
    List.map_congr_left (fun c hc =>
      Utf8.toLower_eq_self (isAscii_of_isHandleChar (hchars c hc)).2)
  rw [toAsciiLowercase, hmap, List.map_id, String.ofList_toList]

/-- Two names differ at most in the case of ASCII letters. -/
def IsCaseVariant (variant name : String) : Prop :=
  toAsciiLowercase variant = toAsciiLowercase name

instance (variant name : String) : Decidable (IsCaseVariant variant name) :=
  inferInstanceAs (Decidable (_ = _))

/-- **The grammar of handles.**  The valid names are those of the pattern with three to twenty
characters that are not reserved.  So what a registration stores is its own lower case, and a
lookup finds it in any case: in the registry it leaves, and in any later one as long as
something is stored under the name. -/
theorem handle_grammar :
    (∀ s, validateHandleFormat s = .ok () ↔ (3 ≤ s.toList.length ∧ s.toList.length ≤ 20) ∧
      s.toList ∈ pattern.matches' ∧ s ∉ reservedHandles) ∧
    ∀ (P : HandlePrimitives) (attempts : ℕ) (name : String) (identity : PseudonymIdentity)
      (difficulty : PowDifficulty) (now : UInt64) (r r' : HandleRegistry) (h : Handle),
      exec (registerWithDifficulty P attempts name identity difficulty now) r = (.ok h, r') ∨
          exec (register P attempts name identity now) r = (.ok h, r') →
        toAsciiLowercase h.name = h.name ∧
        ∀ variant, IsCaseVariant variant h.name → r'.lookup variant = some h ∧
          ∀ later : HandleRegistry, later.lookup variant = later.handles.lookup h.name := by
  refine ⟨fun s => validateHandleFormat_eq_ok_iff, ?_⟩
  intro P attempts name identity difficulty now r r' h hreg
  have hstored : validateHandleFormat h.name = .ok () ∧ r'.handles.lookup h.name = some h := by
    rcases hreg with hreg | hreg
    · obtain ⟨hvalid, hname, -, -, -, hlookup, -⟩ := of_registerWithDifficulty hreg
      exact ⟨hname ▸ hvalid, hlookup⟩
    · rw [register] at hreg
      obtain ⟨hvalid, hname, -, -, -, hlookup, -⟩ := of_registerWithDifficulty hreg
      exact ⟨hname ▸ hvalid, hlookup⟩
  have hlower := toAsciiLowercase_of_valid hstored.1
  refine ⟨hlower, fun variant hvariant => ?_⟩
  have hread : toAsciiLowercase variant = h.name := hvariant.trans hlower
  constructor
  · rw [HandleRegistry.lookup, hread]
    exact hstored.2
  · intro later
    rw [HandleRegistry.lookup, hread]

/-- The handle registered as `alice_one` is found as `Alice_One`. -/
theorem handle_grammar_example :
    exampleRegistry.lookup "Alice_One" = some (exampleRecord "alice_one" exampleOwner 1704067200) :=
  ((handle_grammar.2 examplePrimitives 1 "alice_one" exampleIdentity .medium 1704067200 new
    exampleRegistry _ (.inr register_example)).2 "Alice_One" (by decide)).1

end HandleGrammar
