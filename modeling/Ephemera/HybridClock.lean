/-
# The hybrid logical clock (`ephemera-crdt/src/clock.rs`, `ephemera-types/src/timestamp.rs`)

A timestamp packs a wall clock of 48 bits and a counter of 16 into one `u64`, and a clock
gives out timestamps on local events (`tick`) and on received ones (`update`).  Both bump the
counter while the wall clock stands still.  `update` moves the wall on by a second when the
counter is used up; `tick` adds one to it whatever it is.

The runs of a clock are strictly increasing exactly when no tick meets a used-up counter on a
standing clock and no update meets the greatest timestamp of all
(`HybridClock.orderly_iff_meets`).
-/
import Mathlib.Algebra.Group.Nat.Defs
import Mathlib.Data.List.Forall2
import Mathlib.Order.Basic
import Ephemera.GuardedRun
import Ephemera.LwwRegister

namespace HlcTimestamp

/-! ## The packed representation -/

/-- `COUNTER_BITS`. -/
def counterBits : UInt64 := 16

/-- `COUNTER_MASK`. -/
def counterMask : UInt64 := (1 <<< counterBits) - 1

/-- `HlcTimestamp::wall_secs`. -/
def wallSecs (t : HlcTimestamp) : UInt64 := t.raw >>> counterBits

/-- `HlcTimestamp::counter`. -/
def counter (t : HlcTimestamp) : UInt16 := (t.raw &&& counterMask).toUInt16

theorem lt_iff {s t : HlcTimestamp} : s < t ↔ s.raw.toNat < t.raw.toNat := Iff.rfl

/-- The wall clock is the upper 48 bits. -/
theorem toNat_wallSecs (t : HlcTimestamp) : t.wallSecs.toNat = t.raw.toNat / 65536 := by
  rw [wallSecs, UInt64.toNat_shiftRight, Nat.shiftRight_eq_div_pow]
  rfl

/-- The counter is the lower 16 bits. -/
theorem toNat_counter (t : HlcTimestamp) : t.counter.toNat = t.raw.toNat % 65536 := by
  have hmask : counterMask.toNat = 2 ^ 16 - 1 := rfl
  rw [counter, UInt64.toNat_toUInt16, UInt64.toNat_and, hmask, Nat.and_two_pow_sub_one_eq_mod]
  exact Nat.mod_mod _ _

/-- Packing keeps the lower 48 bits of a wall clock. -/
theorem toNat_raw_new_mod (wall : UInt64) (counter : UInt16) :
    (new wall counter).raw.toNat = wall.toNat % 2 ^ 48 * 65536 + counter.toNat := by
  have hcounter : counter.toNat < 2 ^ 16 := counter.toNat_lt
  have hshift : (wall <<< 16).toNat = (wall.toNat % 2 ^ 48) <<< 16 := by
    rw [UInt64.toNat_shiftLeft, Nat.shiftLeft_eq, Nat.shiftLeft_eq]
    exact Nat.mul_mod_mul_right 65536 wall.toNat (2 ^ 48)
  rw [new, UInt64.toNat_or, hshift, UInt16.toNat_toUInt64,
    ← Nat.shiftLeft_add_eq_or_of_lt hcounter, Nat.shiftLeft_eq]

/-- Packing a wall clock of 48 bits loses nothing. -/
theorem toNat_raw_new {wall : UInt64} (counter : UInt16) (hwall : wall.toNat < 2 ^ 48) :
    (new wall counter).raw.toNat = wall.toNat * 65536 + counter.toNat := by
  rw [toNat_raw_new_mod, Nat.mod_eq_of_lt hwall]

/-- A timestamp is its wall clock and its counter. -/
theorem toNat_raw (t : HlcTimestamp) :
    t.raw.toNat = t.wallSecs.toNat * 65536 + t.counter.toNat := by
  rw [toNat_wallSecs, toNat_counter]
  omega

/-- The wall clock of every timestamp has 48 bits. -/
theorem wallSecs_lt (t : HlcTimestamp) : t.wallSecs.toNat < 2 ^ 48 := by
  have hraw := t.raw.toNat_lt
  rw [toNat_wallSecs]
  omega

/-- Packing and unpacking the wall clock. -/
theorem wallSecs_new {wall : UInt64} (c : UInt16) (hwall : wall.toNat < 2 ^ 48) :
    (new wall c).wallSecs = wall := by
  have hc := c.toNat_lt
  apply UInt64.toNat_inj.mp
  rw [toNat_wallSecs, toNat_raw_new c hwall]
  omega

/-- Packing and unpacking the counter. -/
theorem counter_new {wall : UInt64} (c : UInt16) (hwall : wall.toNat < 2 ^ 48) :
    (new wall c).counter = c := by
  have hc := c.toNat_lt
  apply UInt16.toNat_inj.mp
  rw [toNat_counter, toNat_raw_new c hwall]
  omega

/-! ## The update rule -/

/-- `u16::checked_add(1)`. -/
def checkedSucc (c : UInt16) : Option UInt16 := if c = 65535 then none else some (c + 1)

/-- `u64::saturating_add(1)`. -/
def saturatingSucc (w : UInt64) : UInt64 := if w = 18446744073709551615 then w else w + 1

/-- The counter that `HlcTimestamp::update` gives the new timestamp, if there is one left. -/
def nextCounter (maxWall : UInt64) (t remote : HlcTimestamp) : Option UInt16 :=
  if maxWall = t.wallSecs ∧ maxWall = remote.wallSecs then
    checkedSucc (max t.counter remote.counter)
  else if maxWall = t.wallSecs then
    checkedSucc t.counter
  else if maxWall = remote.wallSecs then
    checkedSucc remote.counter
  else
    -- The wall clock is ahead of both, so the counter starts again.
    some 0

/-- `HlcTimestamp::update`, at wall clock `now`. -/
def update (now : UInt64) (t remote : HlcTimestamp) : HlcTimestamp :=
  let maxWall := max (max now t.wallSecs) remote.wallSecs
  match nextCounter maxWall t remote with
  | some c => new maxWall c
  | none => new (saturatingSucc maxWall) 0

/-- The greatest timestamp, `u64::MAX`. -/
def greatest : HlcTimestamp := ⟨18446744073709551615⟩

/-- `checked_add(1)` fails exactly at the limit. -/
theorem checkedSucc_cases (c : UInt16) :
    (c.toNat = 65535 ∧ checkedSucc c = none) ∨
      (c.toNat < 65535 ∧ ∃ d, checkedSucc c = some d ∧ d.toNat = c.toNat + 1) := by
  have hc := c.toNat_lt
  by_cases h : c = 65535
  · exact Or.inl ⟨by rw [h]; rfl, if_pos h⟩
  · have hne : c.toNat ≠ 65535 := fun hn => h (UInt16.toNat_inj.mp hn)
    refine Or.inr ⟨by omega, c + 1, if_neg h, ?_⟩
    rw [UInt16.toNat_add]
    exact Nat.mod_eq_of_lt (by change c.toNat + 1 < 65536; omega)

/-- Below the limit, `saturating_add(1)` adds one. -/
theorem toNat_saturatingSucc {w : UInt64} (h : w.toNat < 2 ^ 48) :
    (saturatingSucc w).toNat = w.toNat + 1 := by
  have hne : w ≠ 18446744073709551615 := by
    intro he
    rw [he] at h
    exact absurd h (by decide)
  rw [saturatingSucc, if_neg hne, UInt64.toNat_add]
  exact Nat.mod_eq_of_lt (by change w.toNat + 1 < 2 ^ 64; omega)

/-- The maximum on `u64` is the one of the values. -/
theorem toNat_max (v w : UInt64) : (max v w).toNat = max v.toNat w.toNat := by
  change (if v ≤ w then w else v).toNat = _
  by_cases h : v ≤ w
  · rw [if_pos h, max_eq_right (UInt64.le_iff_toNat_le.mp h)]
  · rw [if_neg h, max_eq_left (le_of_not_ge (fun hle => h (UInt64.le_iff_toNat_le.mpr hle)))]

/-- The maximum on `u16` is the one of the values. -/
theorem toNat_max16 (c d : UInt16) : (max c d).toNat = max c.toNat d.toNat := by
  change (if c ≤ d then d else c).toNat = _
  by_cases h : c ≤ d
  · rw [if_pos h, max_eq_right (UInt16.le_iff_toNat_le.mp h)]
  · rw [if_neg h, max_eq_left (le_of_not_ge (fun hle => h (UInt16.le_iff_toNat_le.mpr hle)))]

/-- The next counter exceeds that of each timestamp on the same wall clock; there is none
only if one of these has used up its counter. -/
theorem nextCounter_cases (maxWall : UInt64) (t remote : HlcTimestamp) :
    (∃ c, nextCounter maxWall t remote = some c ∧
      (maxWall = t.wallSecs → t.counter.toNat < c.toNat) ∧
      (maxWall = remote.wallSecs → remote.counter.toNat < c.toNat)) ∨
    (nextCounter maxWall t remote = none ∧
      ((maxWall = t.wallSecs ∧ t.counter.toNat = 65535) ∨
        (maxWall = remote.wallSecs ∧ remote.counter.toNat = 65535))) := by
  rw [nextCounter]
  split_ifs with hboth ht hr
  · rcases checkedSucc_cases (max t.counter remote.counter) with ⟨hc, hnone⟩ | ⟨_, d, hd, hval⟩
    · rw [toNat_max16] at hc
      refine Or.inr ⟨hnone, ?_⟩
      rcases max_choice t.counter.toNat remote.counter.toNat with hm | hm
      · exact Or.inl ⟨hboth.1, hm ▸ hc⟩
      · exact Or.inr ⟨hboth.2, hm ▸ hc⟩
    · rw [toNat_max16] at hval
      refine Or.inl ⟨d, hd, fun _ => ?_, fun _ => ?_⟩ <;> omega
  · rcases checkedSucc_cases t.counter with ⟨hc, hnone⟩ | ⟨_, d, hd, hval⟩
    · exact Or.inr ⟨hnone, Or.inl ⟨ht, hc⟩⟩
    · exact Or.inl ⟨d, hd, fun _ => by omega, fun h => absurd ⟨ht, h⟩ hboth⟩
  · rcases checkedSucc_cases remote.counter with ⟨hc, hnone⟩ | ⟨_, d, hd, hval⟩
    · exact Or.inr ⟨hnone, Or.inr ⟨hr, hc⟩⟩
    · exact Or.inl ⟨d, hd, fun h => absurd h ht, fun _ => by omega⟩
  · exact Or.inl ⟨0, rfl, fun h => absurd h ht, fun h => absurd h hr⟩

/-- A timestamp on a wall clock at least as late is greater, if on the same one its counter
is. -/
theorem lt_new {t : HlcTimestamp} {wall : UInt64} {c : UInt16} (hwall : wall.toNat < 2 ^ 48)
    (hle : t.wallSecs.toNat ≤ wall.toNat)
    (hcounter : wall = t.wallSecs → t.counter.toNat < c.toNat) : t < new wall c := by
  have ht := t.counter.toNat_lt
  rw [lt_iff, toNat_raw, toNat_raw_new c hwall]
  rcases hle.lt_or_eq with hlt | heq
  · omega
  · have := hcounter (UInt64.toNat_inj.mp heq.symm)
    omega

/-- Only the greatest timestamp has used up its counter on the last wall clock. -/
theorem wallSecs_lt_of_ne_greatest {t : HlcTimestamp} (ht : t ≠ greatest)
    (hcounter : t.counter.toNat = 65535) : t.wallSecs.toNat < 2 ^ 48 - 1 := by
  by_contra hge
  have hwall := t.wallSecs_lt
  apply ht
  have hraw : t.raw.toNat = 18446744073709551615 := by
    rw [toNat_raw]
    omega
  exact HlcTimestamp.ext (UInt64.toNat_inj.mp hraw)

/-- **An update exceeds both timestamps**, unless the clock already stands at the greatest. -/
theorem lt_update {now : UInt64} {t remote : HlcTimestamp} (hnow : now.toNat < 2 ^ 48)
    (hremote : remote.wallSecs.toNat < 2 ^ 48 - 1) (ht : t ≠ greatest) :
    t < t.update now remote ∧ remote < t.update now remote := by
  have hwall := t.wallSecs_lt
  have hmax : (max (max now t.wallSecs) remote.wallSecs).toNat =
      max (max now.toNat t.wallSecs.toNat) remote.wallSecs.toNat := by
    rw [toNat_max, toNat_max]
  rw [update]
  set wall := max (max now t.wallSecs) remote.wallSecs
  have hlt : wall.toNat < 2 ^ 48 := by omega
  rcases nextCounter_cases wall t remote with ⟨c, hc, hct, hcr⟩ | ⟨hnone, hused⟩
  · rw [hc]
    exact ⟨lt_new hlt (by omega) hct, lt_new hlt (by omega) hcr⟩
  · have hbelow : wall.toNat < 2 ^ 48 - 1 := by
      rcases hused with ⟨hw, hc⟩ | ⟨hw, _⟩
      · rw [hw]
        exact wallSecs_lt_of_ne_greatest ht hc
      · rw [hw]
        exact hremote
    rw [hnone]
    -- The second that is added leaves both wall clocks behind.
    have hsucc := toNat_saturatingSucc hlt
    constructor
    · exact lt_new (by omega) (by omega) (fun h => by rw [h] at hsucc; omega)
    · exact lt_new (by omega) (by omega) (fun h => by rw [h] at hsucc; omega)

/-- An update of the greatest timestamp is the least one: the second it adds is shifted out. -/
theorem update_greatest {now : UInt64} {remote : HlcTimestamp} (hnow : now.toNat < 2 ^ 48 - 1)
    (hremote : remote.wallSecs.toNat < 2 ^ 48 - 1) : greatest.update now remote = ⟨0⟩ := by
  have hgreatest : greatest.wallSecs.toNat = 2 ^ 48 - 1 := rfl
  have hmax : max (max now greatest.wallSecs) remote.wallSecs = greatest.wallSecs := by
    apply UInt64.toNat_inj.mp
    rw [toNat_max, toNat_max]
    omega
  have hne : greatest.wallSecs ≠ remote.wallSecs := by
    intro h
    rw [← h] at hremote
    omega
  have hcounter : nextCounter greatest.wallSecs greatest remote = none := by
    rw [nextCounter, if_neg (fun h => hne h.2), if_pos rfl]
    rfl
  rw [update, hmax, hcounter]
  rfl

end HlcTimestamp

/-! ## The clock -/

/-- `HybridClock`. -/
@[ext]
structure HybridClock where
  latest : HlcTimestamp
  deriving DecidableEq, Repr

namespace HybridClock

open GuardedRun HlcTimestamp

/-- The addition `counter() + 1` on `u16`.  A build with overflow checks panics at the limit,
another one wraps around. -/
def addOne (checks : Bool) (c : UInt16) : Option UInt16 :=
  if checks = true ∧ c = 65535 then none else some (c + 1)

/-- `HybridClock::new`, at wall clock `now`. -/
def new (now : UInt64) : HybridClock := ⟨HlcTimestamp.new now 0⟩

/-- `HybridClock::tick`, at wall clock `now`; `none` is a panic. -/
def tick (checks : Bool) (now : UInt64) (clock : HybridClock) :
    Option (HlcTimestamp × HybridClock) :=
  if now > clock.latest.wallSecs then
    let latest := HlcTimestamp.new now 0
    some (latest, ⟨latest⟩)
  else do
    let counter ← addOne checks clock.latest.counter
    let latest := HlcTimestamp.new clock.latest.wallSecs counter
    some (latest, ⟨latest⟩)

/-- `HybridClock::update`, at wall clock `now`. -/
def update (now : UInt64) (remote : HlcTimestamp) (clock : HybridClock) :
    HlcTimestamp × HybridClock :=
  let latest := clock.latest.update now remote
  (latest, ⟨latest⟩)

/-- What a node asks of its clock, with the wall clock of that moment. -/
inductive Event where
  | tick (now : UInt64)
  | update (now : UInt64) (remote : HlcTimestamp)
  deriving DecidableEq, Repr

/-- One call of the clock: the timestamp it returns and the clock after it. -/
def perform (checks : Bool) (clock : HybridClock) : Event → Option (HlcTimestamp × HybridClock)
  | .tick now => clock.tick checks now
  | .update now remote => some (clock.update now remote)

/-- The timestamps that the calls of a run return; `none` is a panic. -/
def issues (checks : Bool) : HybridClock → List Event → Option (List HlcTimestamp)
  | _, [] => some []
  | clock, e :: es => do
    let (t, clock') ← clock.perform checks e
    let ts ← issues checks clock' es
    some (t :: ts)

/-- The clock after a call of a build that wraps around. -/
def after (clock : HybridClock) (e : Event) : HybridClock :=
  match clock.perform false e with
  | some (_, clock') => clock'
  | none => clock

/-! ## What a run of the clock promises -/

/-- The wall clocks of an event are below `2^48 - 1`. -/
def Event.Below : Event → Prop
  | .tick now => now.toNat < 2 ^ 48 - 1
  | .update now remote => now.toNat < 2 ^ 48 - 1 ∧ remote.wallSecs.toNat < 2 ^ 48 - 1

/-- The timestamp returned for an event exceeds the remote one, if there is one. -/
def Event.Exceeded : Event → HlcTimestamp → Prop
  | .tick _, _ => True
  | .update _ remote, t => remote < t

/-- In the given build no call of a run panics, each timestamp exceeds all that were returned
before it, and that of an update also the remote one. -/
def Orderly (checks : Bool) (clock : HybridClock) (es : List Event) : Prop :=
  ∃ ts, issues checks clock es = some ts ∧ ts.Pairwise (· < ·) ∧ es.Forall₂ Event.Exceeded ts

/-- A tick finds the wall clock advanced or a counter that is not used up; an update finds the
clock short of the greatest timestamp. -/
def Advances (clock : HybridClock) : Event → Prop
  | .tick now => clock.latest.wallSecs < now ∨ clock.latest.counter ≠ 65535
  | .update _ _ => clock.latest ≠ greatest

instance (clock : HybridClock) : ∀ e, Decidable (clock.Advances e)
  | .tick now =>
    inferInstanceAs (Decidable (clock.latest.wallSecs < now ∨ clock.latest.counter ≠ 65535))
  | .update _ _ => inferInstanceAs (Decidable (clock.latest ≠ greatest))

instance : DecidablePred Event.Below
  | .tick now => inferInstanceAs (Decidable (now.toNat < 2 ^ 48 - 1))
  | .update now remote =>
    inferInstanceAs (Decidable (now.toNat < 2 ^ 48 - 1 ∧ remote.wallSecs.toNat < 2 ^ 48 - 1))

/-- Short of the limit the addition is exact in every build. -/
theorem addOne_of_ne (checks : Bool) {c : UInt16} (h : c ≠ 65535) :
    ∃ d, addOne checks c = some d ∧ d.toNat = c.toNat + 1 := by
  have hc := c.toNat_lt
  have hne : c.toNat ≠ 65535 := fun hn => h (UInt16.toNat_inj.mp hn)
  refine ⟨c + 1, if_neg (fun hand => h hand.2), ?_⟩
  rw [UInt16.toNat_add]
  exact Nat.mod_eq_of_lt (by change c.toNat + 1 < 65536; omega)

/-- A tick on an advanced wall clock. -/
theorem tick_of_lt (checks : Bool) {now : UInt64} {clock : HybridClock}
    (h : clock.latest.wallSecs < now) :
    clock.tick checks now = some (HlcTimestamp.new now 0, ⟨HlcTimestamp.new now 0⟩) := by
  rw [tick, if_pos h]

/-- A tick on a standing wall clock. -/
theorem tick_of_not_lt (checks : Bool) {now : UInt64} {clock : HybridClock}
    (h : ¬ clock.latest.wallSecs < now) :
    clock.tick checks now = (addOne checks clock.latest.counter).map (fun c =>
      (HlcTimestamp.new clock.latest.wallSecs c, ⟨HlcTimestamp.new clock.latest.wallSecs c⟩)) := by
  rw [tick, if_neg h]
  cases addOne checks clock.latest.counter <;> rfl

/-- **The step.**  A call that advances the clock returns the same in every build: a timestamp
that exceeds the latest one and the remote one, and becomes the latest. -/
theorem perform_of_advances (checks : Bool) {clock : HybridClock} {e : Event} (he : e.Below)
    (h : clock.Advances e) :
    ∃ t, clock.perform checks e = some (t, ⟨t⟩) ∧ clock.after e = ⟨t⟩ ∧ clock.latest < t ∧
      e.Exceeded t := by
  cases e with
  | tick now =>
    by_cases hlt : clock.latest.wallSecs < now
    · refine ⟨HlcTimestamp.new now 0, tick_of_lt checks hlt, ?_, ?_, trivial⟩
      · rw [after, perform, tick_of_lt false hlt]
      · have hval := UInt64.lt_iff_toNat_lt.mp hlt
        change now.toNat < 2 ^ 48 - 1 at he
        exact lt_new (by omega) hval.le (fun heq => absurd hval (by rw [heq]; exact lt_irrefl _))
    · have hcounter := h.resolve_left hlt
      obtain ⟨d, hd, hval⟩ := addOne_of_ne checks hcounter
      obtain ⟨d', hd', hval'⟩ := addOne_of_ne false hcounter
      obtain rfl : d = d' := UInt16.toNat_inj.mp (hval.trans hval'.symm)
      refine ⟨HlcTimestamp.new clock.latest.wallSecs d, ?_, ?_, ?_, trivial⟩
      · rw [perform, tick_of_not_lt checks hlt, hd]
        rfl
      · rw [after, perform, tick_of_not_lt false hlt, hd']
        rfl
      · exact lt_new clock.latest.wallSecs_lt le_rfl (fun _ => by omega)
  | update now remote =>
    have hnow : now.toNat < 2 ^ 48 := Nat.lt_of_lt_pred he.1
    obtain ⟨hlocal, hremote⟩ := lt_update hnow he.2 h
    exact ⟨clock.latest.update now remote, rfl, rfl, hlocal, hremote⟩

/-- A call that does not advance the clock is no orderly one: a tick overflows the counter and
panics where overflow is checked, and an update returns nothing greater than the remote. -/
theorem not_advances {clock : HybridClock} {e : Event} (he : e.Below) (h : ¬ clock.Advances e)
    {t : HlcTimestamp} {clock' : HybridClock} (hp : clock.perform true e = some (t, clock')) :
    ¬ e.Exceeded t := by
  cases e with
  | tick now =>
    exfalso
    obtain ⟨hlt, hcounter⟩ := not_or.mp h
    rw [perform, tick_of_not_lt true hlt, addOne, if_pos ⟨rfl, not_not.mp hcounter⟩] at hp
    cases hp
  | update now remote =>
    rw [perform, HybridClock.update, not_not.mp h, update_greatest he.1 he.2] at hp
    obtain rfl : (⟨0⟩ : HlcTimestamp) = t := congrArg Prod.fst (Option.some.inj hp)
    exact fun hlt => absurd (lt_iff.mp hlt) (Nat.not_lt_zero _)

/-- The timestamps of a run that always advances increase from the latest one on. -/
theorem issues_of_meets (checks : Bool) {clock : HybridClock} {es : List Event}
    (hes : ∀ e ∈ es, e.Below) (h : Meets after Advances clock es) :
    ∃ ts, issues checks clock es = some ts ∧ (clock.latest :: ts).Pairwise (· < ·) ∧
      es.Forall₂ Event.Exceeded ts := by
  induction es generalizing clock with
  | nil => exact ⟨[], rfl, List.pairwise_singleton _ _, List.Forall₂.nil⟩
  | cons e es ih =>
    obtain ⟨t, hp, hafter, hlt, hex⟩ :=
      perform_of_advances checks (hes e List.mem_cons_self) h.1
    have hrest := h.2
    rw [hafter] at hrest
    obtain ⟨ts, hts, hpair, hall⟩ := ih (fun e' he' => hes e' (List.mem_cons_of_mem e he')) hrest
    refine ⟨t :: ts, ?_, ?_, List.Forall₂.cons hex hall⟩
    · have hstep : issues checks clock (e :: es) =
          (issues checks ⟨t⟩ es).bind (fun ts => some (t :: ts)) := by
        rw [issues, hp]
        rfl
      rw [hstep, hts]
      rfl
    · refine List.pairwise_cons.mpr ⟨fun s hs => ?_, hpair⟩
      rcases List.mem_cons.mp hs with rfl | hs
      · exact hlt
      · exact hlt.trans ((List.pairwise_cons.mp hpair).1 s hs)

/-- A run whose calls return exceeding timestamps where overflow is checked always advances. -/
theorem meets_of_issues {clock : HybridClock} {es : List Event} {ts : List HlcTimestamp}
    (hes : ∀ e ∈ es, e.Below) (hts : issues true clock es = some ts)
    (hall : es.Forall₂ Event.Exceeded ts) : Meets after Advances clock es := by
  induction es generalizing clock ts with
  | nil => trivial
  | cons e es ih =>
    have he := hes e List.mem_cons_self
    rw [issues] at hts
    obtain ⟨⟨t, clock'⟩, hp, hrest⟩ := Option.bind_eq_some_iff.mp hts
    obtain ⟨ts', hts', hcons⟩ := Option.bind_eq_some_iff.mp hrest
    obtain rfl : t :: ts' = ts := Option.some.inj hcons
    obtain ⟨hex, hall'⟩ := List.forall₂_cons.mp hall
    have hadv : clock.Advances e := by
      by_contra hn
      exact not_advances he hn hp hex
    obtain ⟨t', hp', hafter, _, _⟩ := perform_of_advances true he hadv
    rw [hp'] at hp
    obtain ⟨rfl, rfl⟩ := Prod.mk.inj (Option.some.inj hp)
    refine ⟨hadv, ?_⟩
    rw [hafter]
    exact ih (fun e' he' => hes e' (List.mem_cons_of_mem e he')) hts' hall'

/-- **The runs of a hybrid clock**, in every build: no call overflows and each timestamp
exceeds all earlier ones and the remote one, exactly when every tick finds the wall clock
advanced or the counter short of its limit and no update finds the clock at the greatest
timestamp. -/
theorem orderly_iff_meets (clock : HybridClock) (es : List Event) (hes : ∀ e ∈ es, e.Below) :
    (∀ checks, Orderly checks clock es) ↔ Meets after Advances clock es := by
  constructor
  · intro h
    obtain ⟨ts, hts, _, hall⟩ := h true
    exact meets_of_issues hes hts hall
  · intro h checks
    obtain ⟨ts, hts, hpair, hall⟩ := issues_of_meets checks hes h
    exact ⟨ts, hts, (List.pairwise_cons.mp hpair).2, hall⟩

/-- A remote with a counter one short of the limit, a tick on the clock that stands still, an
update by a remote with a used-up counter and a tick on a clock that went back. -/
theorem orderly_after_used_up_remote :
    Orderly true ⟨HlcTimestamp.new 1000 7⟩
        [.update 1000 (HlcTimestamp.new 1000 65533), .tick 1000,
          .update 990 (HlcTimestamp.new 1000 65535), .tick 980] ∧
      Orderly false ⟨HlcTimestamp.new 1000 7⟩
        [.update 1000 (HlcTimestamp.new 1000 65533), .tick 1000,
          .update 990 (HlcTimestamp.new 1000 65535), .tick 980] := by
  have horderly := (orderly_iff_meets ⟨HlcTimestamp.new 1000 7⟩
    [.update 1000 (HlcTimestamp.new 1000 65533), .tick 1000,
      .update 990 (HlcTimestamp.new 1000 65535), .tick 980] (by decide +kernel)).mpr
    (by decide +kernel)
  exact ⟨horderly true, horderly false⟩

/-- A remote that uses up the counter, then a local event in the same second: the tick panics
where overflow is checked, and otherwise returns a timestamp below the one before. -/
theorem not_orderly_tick_after_update :
    (∀ e ∈ [Event.update 1000 (HlcTimestamp.new 1000 65534), .tick 1000], e.Below) ∧
      ∀ checks, ¬ Orderly checks (new 1000)
        [.update 1000 (HlcTimestamp.new 1000 65534), .tick 1000] := by
  refine ⟨by decide +kernel, fun checks => ?_⟩
  rintro ⟨ts, hts, hpair, _⟩
  cases checks with
  | true =>
    have hnone : issues true (new 1000)
        [.update 1000 (HlcTimestamp.new 1000 65534), .tick 1000] = none := by decide +kernel
    rw [hnone] at hts
    cases hts
  | false =>
    have hback : issues false (new 1000)
        [.update 1000 (HlcTimestamp.new 1000 65534), .tick 1000] =
          some [HlcTimestamp.new 1000 65535, HlcTimestamp.new 1000 0] := by decide +kernel
    rw [hback] at hts
    obtain rfl := Option.some.inj hts
    have hlt := (List.pairwise_cons.mp hpair).1 _ List.mem_cons_self
    exact absurd (lt_iff.mp hlt) (by decide +kernel)

/-- **Events in one second.**  On a wall clock that stands still the ticks of a run are in order
exactly as long as the counter lasts. -/
theorem orderly_replicate_tick_iff (clock : HybridClock) {now : UInt64}
    (hnow : now.toNat < 2 ^ 48 - 1) (hstill : now ≤ clock.latest.wallSecs) (n : ℕ) :
    (∀ checks, Orderly checks clock (List.replicate n (.tick now))) ↔
      clock.latest.counter.toNat + n ≤ 65535 := by
  rw [orderly_iff_meets clock _ (fun e he => by rw [List.eq_of_mem_replicate he]; exact hnow)]
  induction n generalizing clock with
  | zero => exact iff_of_true trivial (Nat.le_of_lt_succ clock.latest.counter.toNat_lt)
  | succ n ih =>
    have hnot : ¬ clock.latest.wallSecs < now := fun h =>
      absurd (UInt64.lt_iff_toNat_lt.mp h) (not_lt.mpr (UInt64.le_iff_toNat_le.mp hstill))
    rw [List.replicate_succ, Meets, Advances, or_iff_right hnot]
    by_cases hc : clock.latest.counter = 65535
    · have hused : clock.latest.counter.toNat = 65535 := by rw [hc]; rfl
      exact iff_of_false (fun h => h.1 hc) (by omega)
    · obtain ⟨d, hd, hval⟩ := addOne_of_ne false hc
      have hafter : clock.after (.tick now) = ⟨HlcTimestamp.new clock.latest.wallSecs d⟩ := by
        rw [after, perform, tick_of_not_lt false hnot, hd]
        rfl
      have hlatest := clock.latest.wallSecs_lt
      rw [and_iff_right hc, hafter, ih, counter_new d hlatest, hval]
      · omega
      · rw [wallSecs_new d hlatest]
        exact hstill

end HybridClock
