/-
# The order of the packed timestamps (`ephemera-types/src/timestamp.rs`)

Packing a wall clock of 48 bits and a counter into one `u64` keeps their lexicographic order and
loses nothing.  An update then exceeds both timestamps for every wall clock that fits into the 48
bits; of a greater one the shift drops the upper bits, and what is left over decides
(`HlcTimestamp.lt_update_iff`).
-/
import Mathlib.Data.Prod.Lex
import Ephemera.HybridClock

namespace HlcTimestamp

/-! ## Packing -/

/-- Packing and unpacking a timestamp. -/
theorem new_wallSecs_counter (t : HlcTimestamp) : new t.wallSecs t.counter = t := by
  apply HlcTimestamp.ext
  apply UInt64.toNat_inj.mp
  rw [toNat_raw_new _ t.wallSecs_lt, ← toNat_raw]

/-- The packed values compare like the wall clocks, and on one wall clock like the counters. -/
theorem new_lt_new_iff {w w' : UInt64} (c c' : UInt16) (hw : w.toNat < 2 ^ 48)
    (hw' : w'.toNat < 2 ^ 48) : new w c < new w' c' ↔ toLex (w, c) < toLex (w', c') := by
  have hc := c.toNat_lt
  have hc' := c'.toNat_lt
  rw [lt_iff, toNat_raw_new c hw, toNat_raw_new c' hw', Prod.Lex.toLex_lt_toLex]
  dsimp only
  rw [UInt64.lt_iff_toNat_lt, UInt16.lt_iff_toNat_lt, ← UInt64.toNat_inj]
  omega

/-! ## Wall clocks beyond 48 bits -/

/-- On a wall clock ahead of both timestamps an update starts a new counter. -/
theorem update_of_lt {now : UInt64} {t remote : HlcTimestamp}
    (ht : t.wallSecs.toNat < now.toNat) (hremote : remote.wallSecs.toNat < now.toNat) :
    t.update now remote = new now 0 := by
  have hmax : max (max now t.wallSecs) remote.wallSecs = now := by
    apply UInt64.toNat_inj.mp
    rw [toNat_max, toNat_max]
    omega
  have hne : now ≠ t.wallSecs := fun h => ht.ne' (congrArg UInt64.toNat h)
  have hne' : now ≠ remote.wallSecs := fun h => hremote.ne' (congrArg UInt64.toNat h)
  have hcounter : nextCounter now t remote = some 0 := by
    rw [nextCounter, if_neg (fun h => hne h.1), if_neg hne, if_neg hne']
  rw [update, hmax, hcounter]

/-- A timestamp is below the start of a second exactly when its wall clock is below the lower
bits of that second. -/
theorem lt_new_zero_iff {t : HlcTimestamp} {w : UInt64} :
    t < new w 0 ↔ t.wallSecs.toNat < w.toNat % 2 ^ 48 := by
  have hzero : (0 : UInt16).toNat = 0 := rfl
  have ht := t.counter.toNat_lt
  rw [lt_iff, toNat_raw_new_mod, toNat_raw, hzero]
  omega

/-- **When an update exceeds both timestamps**: on every wall clock of 48 bits, and on a greater
one exactly when its lower 48 bits are ahead of both. -/
theorem lt_update_iff {t remote : HlcTimestamp} (ht : t.wallSecs.toNat < 2 ^ 48 - 1)
    (hremote : remote.wallSecs.toNat < 2 ^ 48 - 1) (now : UInt64) :
    (t < t.update now remote ∧ remote < t.update now remote) ↔
      now.toNat < 2 ^ 48 ∨
        max t.wallSecs.toNat remote.wallSecs.toNat < now.toNat % 2 ^ 48 := by
  by_cases hnow : now.toNat < 2 ^ 48
  · have hne : t ≠ greatest := by
      rintro rfl
      exact absurd ht (by decide)
    exact iff_of_true (lt_update hnow hremote hne) (Or.inl hnow)
  · rw [update_of_lt (by omega) (by omega), lt_new_zero_iff, lt_new_zero_iff, or_iff_right hnow,
      max_lt_iff]

/-- **Timestamps order and advance.**  Packing keeps the lexicographic order of wall clocks and
counters and is undone by unpacking; an update exceeds the local and the remote timestamp,
whatever the wall clock below the limit shows, and beyond it exactly when its lower 48 bits are
ahead of both. -/
theorem packs_in_order_and_advances {w w' : UInt64} (hw : w.toNat < 2 ^ 48 - 1)
    (hw' : w'.toNat < 2 ^ 48 - 1) (c c' : UInt16) {t remote : HlcTimestamp}
    (ht : t.wallSecs.toNat < 2 ^ 48 - 1) (hremote : remote.wallSecs.toNat < 2 ^ 48 - 1) :
    (new w c < new w' c' ↔ toLex (w, c) < toLex (w', c')) ∧
      (new w c).wallSecs = w ∧ (new w c).counter = c ∧ new t.wallSecs t.counter = t ∧
      (∀ now : UInt64, now.toNat < 2 ^ 48 →
        t < t.update now remote ∧ remote < t.update now remote) ∧
      ∀ now : UInt64, (t < t.update now remote ∧ remote < t.update now remote) ↔
        now.toNat < 2 ^ 48 ∨
          max t.wallSecs.toNat remote.wallSecs.toNat < now.toNat % 2 ^ 48 := by
  have hw48 : w.toNat < 2 ^ 48 := Nat.lt_of_lt_pred hw
  have hw48' : w'.toNat < 2 ^ 48 := Nat.lt_of_lt_pred hw'
  refine ⟨new_lt_new_iff c c' hw48 hw48', wallSecs_new c hw48, counter_new c hw48,
    t.new_wallSecs_counter, fun now hnow => ?_, lt_update_iff ht hremote⟩
  exact (lt_update_iff ht hremote now).mpr (Or.inl hnow)

/-- A used-up counter on a wall clock that stands still: the update moves on to the next second,
which is greater than the remote timestamp of that second. -/
theorem advances_from_used_up_counter :
    new 1000 65535 < (new 1000 65535).update 990 (new 1000 7) ∧
      (new 1000 65535).update 990 (new 1000 7) = new 1001 0 ∧
      (new 1000 65535 < new 1001 0 ↔
        toLex ((1000 : UInt64), (65535 : UInt16)) < toLex (1001, 0)) := by
  have hw : (1000 : UInt64).toNat < 2 ^ 48 - 1 := by decide
  have hw' : (1001 : UInt64).toNat < 2 ^ 48 - 1 := by decide
  have ht : (new 1000 65535).wallSecs.toNat < 2 ^ 48 - 1 := by decide
  have hremote : (new 1000 7).wallSecs.toNat < 2 ^ 48 - 1 := by decide
  obtain ⟨hlt, _, _, _, hup, _⟩ := packs_in_order_and_advances hw hw' 65535 0 ht hremote
  exact ⟨(hup 990 (by decide)).1, by decide, hlt⟩

end HlcTimestamp
