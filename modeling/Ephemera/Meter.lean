/-
# Meters

A meter rises at a fixed rate until it is full, and each event that it admits lowers it by one.
A reading is the level as a function of time, as long as nothing else is taken: a reading that
was capped before is not changed by being capped again (`Steady.law`), so that it does not
matter when, or how often, the level was computed in between.

In any window of length `d` a meter admits at most `cap + rate * d` events
(`countP_found_le`), and an event that was refused is admitted when the missing part has been
restored (`Steady.one_le_after`).
-/
import Mathlib.Algebra.Order.Field.Basic
import Mathlib.Data.Rat.Cast.Order
import Mathlib.Tactic.Linarith
import Mathlib.Tactic.FieldSimp
import Mathlib.Tactic.Ring

/-- A meter that holds up to `cap`, and is restored at `rate`. -/
structure Meter (𝕜 : Type*) [Field 𝕜] [LinearOrder 𝕜] where
  cap : 𝕜
  rate : 𝕜
  /-- A full meter admits an event. -/
  one_le_cap : 1 ≤ cap
  rate_pos : 0 < rate

namespace Meter

variable {𝕜 : Type*} [Field 𝕜] [LinearOrder 𝕜] (M : Meter 𝕜)

/-- The level at time `u`, if it was `level` at time `t`. -/
def rise (level t u : 𝕜) : 𝕜 := min (level + (u - t) * M.rate) M.cap

/-- The reading of a full meter. -/
def full : 𝕜 → 𝕜 := fun _ => M.cap

/-- The reading after an event at time `t`. -/
def take (f : 𝕜 → 𝕜) (t : 𝕜) : 𝕜 → 𝕜 := if 1 ≤ f t then M.rise (f t - 1) t else f

/-- What events at the times `ts` find: for each its time and the level. -/
def found : (𝕜 → 𝕜) → List 𝕜 → List (𝕜 × 𝕜)
  | _, [] => []
  | f, t :: ts => (t, f t) :: found (M.take f t) ts

/-- From `t` on, `f` is a reading of the meter. -/
structure Steady (t : 𝕜) (f : 𝕜 → 𝕜) : Prop where
  nonneg : ∀ u, t ≤ u → 0 ≤ f u
  law : ∀ u v, t ≤ u → u ≤ v → f v = M.rise (f u) u v

/-- Whether an event in the window from `lo` to `hi` was admitted. -/
def admittedIn (lo hi : 𝕜) (event : 𝕜 × 𝕜) : Bool :=
  decide (lo ≤ event.1 ∧ event.1 ≤ hi ∧ 1 ≤ event.2)

variable {M} {f : 𝕜 → 𝕜} {t u v : 𝕜}

theorem rise_le_cap (level : 𝕜) : M.rise level t u ≤ M.cap := min_le_right _ _

theorem Steady.mono (h : M.Steady t f) (htu : t ≤ u) : M.Steady u f where
  nonneg w hw := h.nonneg w (htu.trans hw)
  law w x hw hwx := h.law w x (htu.trans hw) hwx

theorem Steady.le_cap (h : M.Steady t f) (htu : t ≤ u) : f u ≤ M.cap := by
  rw [h.law u u htu le_rfl]
  exact rise_le_cap (f u)

/-- The level rises at most at the rate. -/
theorem Steady.le_add (h : M.Steady t f) (htu : t ≤ u) (huv : u ≤ v) :
    f v ≤ f u + (v - u) * M.rate := by
  rw [h.law u v htu huv]
  exact min_le_left _ _

theorem fst_mem_of_mem_found {ts : List 𝕜} {event : 𝕜 × 𝕜} (h : event ∈ M.found f ts) :
    event.1 ∈ ts := by
  induction ts generalizing f with
  | nil => cases h
  | cons t ts ih =>
    rcases List.mem_cons.mp h with rfl | h
    · exact List.mem_cons_self
    · exact List.mem_cons_of_mem _ (ih h)

/-- Nothing is admitted in a window that is over. -/
theorem countP_found_eq_zero {lo hi : 𝕜} {ts : List 𝕜} (hts : ∀ u ∈ ts, hi < u) :
    (M.found f ts).countP (admittedIn lo hi) = 0 := by
  rw [List.countP_eq_zero]
  intro event hevent hin
  have hle : event.1 ≤ hi := (of_decide_eq_true hin).2.1
  exact absurd hle (not_le_of_gt (hts _ (fst_mem_of_mem_found hevent)))

variable [IsStrictOrderedRing 𝕜]

/-- Capping once is enough. -/
theorem rise_rise (level : 𝕜) (huv : u ≤ v) :
    M.rise (M.rise level t u) u v = M.rise level t v := by
  have hpos : 0 ≤ (v - u) * M.rate := mul_nonneg (sub_nonneg.mpr huv) M.rate_pos.le
  have hsum : level + (u - t) * M.rate + (v - u) * M.rate = level + (v - t) * M.rate := by ring
  rw [rise, rise, rise, ← min_add_add_right, hsum, min_assoc,
    min_eq_right (le_add_of_nonneg_right hpos)]

/-- A level that is not negative rises to one that is not. -/
theorem rise_nonneg {level : 𝕜} (hlevel : 0 ≤ level) (htu : t ≤ u) : 0 ≤ M.rise level t u :=
  le_min (add_nonneg hlevel (mul_nonneg (sub_nonneg.mpr htu) M.rate_pos.le))
    (zero_le_one.trans M.one_le_cap)

theorem steady_rise {level : 𝕜} (hlevel : 0 ≤ level) (t : 𝕜) : M.Steady t (M.rise level t) where
  nonneg _ hu := rise_nonneg hlevel hu
  law _ _ _ huv := (rise_rise level huv).symm

theorem steady_full (t : 𝕜) : M.Steady t M.full where
  nonneg _ _ := zero_le_one.trans M.one_le_cap
  law _ _ _ huv := (min_eq_right
    (le_add_of_nonneg_right (mul_nonneg (sub_nonneg.mpr huv) M.rate_pos.le))).symm

/-- **One event.** -/
theorem Steady.take (h : M.Steady t f) (htu : t ≤ u) : M.Steady u (M.take f u) := by
  unfold Meter.take
  split
  · rename_i hone
    exact steady_rise (sub_nonneg.mpr hone) u
  · exact h.mono htu

/-- **After a refusal**: the level is one when the missing part has been restored. -/
theorem Steady.one_le_after (h : M.Steady t f) (htu : t ≤ u)
    (hafter : u + (1 - f u) / M.rate ≤ v) (huv : u ≤ v) : 1 ≤ f v := by
  have hwait : 1 - f u ≤ (v - u) * M.rate := by
    rw [← div_le_iff₀ M.rate_pos]
    linarith
  rw [h.law u v htu huv]
  exact le_min (by linarith) M.one_le_cap

/-! ## Windows -/

/-- What a window admits from now on is in the meter, or restored before its end. -/
theorem countP_found_le_level {lo hi : 𝕜} {ts : List 𝕜} (h : M.Steady t f)
    (hts : (t :: ts).Pairwise (· ≤ ·)) (hhi : t ≤ hi) :
    ((M.found f ts).countP (admittedIn lo hi) : 𝕜) ≤ f t + M.rate * (hi - t) := by
  induction ts generalizing t f with
  | nil =>
    have hf := h.nonneg t le_rfl
    have hrate := mul_nonneg M.rate_pos.le (sub_nonneg.mpr hhi)
    rw [found, List.countP_nil, Nat.cast_zero]
    linarith
  | cons u ts ih =>
    rw [List.pairwise_cons] at hts
    have htu : t ≤ u := hts.1 u List.mem_cons_self
    have hlevel := h.le_add le_rfl htu
    by_cases hu : u ≤ hi
    · have hrest := ih (h.take htu) hts.2 hu
      rw [found, List.countP_cons, Nat.cast_add]
      by_cases hone : 1 ≤ f u
      · -- the event takes what it is counted for
        have htake : M.take f u u ≤ f u - 1 := by
          rw [Meter.take, if_pos hone, rise, sub_self, zero_mul, add_zero]
          exact min_le_left _ _
        have hcount : ((if admittedIn lo hi (u, f u) = true then 1 else 0 : ℕ) : 𝕜) ≤ 1 := by
          split
          · rw [Nat.cast_one]
          · rw [Nat.cast_zero]
            exact zero_le_one
        linarith
      · -- a refused event neither counts nor takes
        have htake : M.take f u u = f u := by rw [Meter.take, if_neg hone]
        have hcount : admittedIn lo hi (u, f u) = false := by simp [admittedIn, hone]
        rw [hcount, if_neg Bool.false_ne_true, Nat.cast_zero]
        linarith
    · -- all that is left comes after the window
      have hnone : (M.found f (u :: ts)).countP (admittedIn lo hi) = 0 :=
        countP_found_eq_zero (fun w hw => (List.mem_cons.mp hw).elim
          (fun heq => heq ▸ lt_of_not_ge hu)
          (fun hw => lt_of_lt_of_le (lt_of_not_ge hu) ((List.pairwise_cons.mp hts.2).1 w hw)))
      have hf := h.nonneg t le_rfl
      have hrate := mul_nonneg M.rate_pos.le (sub_nonneg.mpr hhi)
      rw [hnone, Nat.cast_zero]
      linarith

/-- **Any window** admits at most a full meter and what is restored meanwhile. -/
theorem countP_found_le {lo hi : 𝕜} {ts : List 𝕜} (h : M.Steady t f)
    (hts : (t :: ts).Pairwise (· ≤ ·)) (hlohi : lo ≤ hi) :
    ((M.found f ts).countP (admittedIn lo hi) : 𝕜) ≤ M.cap + M.rate * (hi - lo) := by
  have hrate := mul_nonneg M.rate_pos.le (sub_nonneg.mpr hlohi)
  have hcap := M.one_le_cap
  induction ts generalizing t f with
  | nil =>
    rw [found, List.countP_nil, Nat.cast_zero]
    linarith
  | cons u ts ih =>
    have hts' := (List.pairwise_cons.mp hts).2
    have htu : t ≤ u := (List.pairwise_cons.mp hts).1 u List.mem_cons_self
    by_cases hlo : lo ≤ u
    · by_cases hhi : u ≤ hi
      · -- the window has begun: the meter is not more than full
        have hlevel : ((M.found f (u :: ts)).countP (admittedIn lo hi) : 𝕜)
            ≤ f u + M.rate * (hi - u) :=
          countP_found_le_level (h.mono htu) (List.pairwise_cons.mpr
            ⟨fun a ha => (List.mem_cons.mp ha).elim (fun heq => heq.ge)
              (fun ha => (List.pairwise_cons.mp hts').1 a ha), hts'⟩) hhi
        have hfull := h.le_cap htu
        have hmono := mul_le_mul_of_nonneg_left (sub_le_sub_left hlo hi) M.rate_pos.le
        linarith
      · -- the window is over
        have hcount : admittedIn lo hi (u, f u) = false := by simp [admittedIn, hhi]
        rw [found, List.countP_cons, hcount, if_neg Bool.false_ne_true, add_zero]
        exact ih (h.take htu) hts'
    · -- the window has not begun
      have hcount : admittedIn lo hi (u, f u) = false := by simp [admittedIn, hlo]
      rw [found, List.countP_cons, hcount, if_neg Bool.false_ne_true, add_zero]
      exact ih (h.take htu) hts'

end Meter
