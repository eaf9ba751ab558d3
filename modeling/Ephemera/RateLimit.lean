/-
# The rate limiter (`ephemera-abuse/src/rate_limit.rs`)

The limiter has a token bucket for each identity and action, which is refilled whenever it is
looked at.  Times and tokens are rational numbers here.

`forecast` is what a bucket would hold at a later time if nothing were taken from it.  It is a
reading of a meter (`Meter.lean`), `would_allow` does not change it, and `check` takes from it;
so the answers of `check` are those of a limiter that keeps nothing but a reading for each key
(`checks_replies`), which never sees the calls of `would_allow`.
-/
import Mathlib.Algebra.Order.Floor.Semiring
import Mathlib.Data.Rat.Floor
import Mathlib.Logic.Function.Basic
import Mathlib.Tactic.NormNum
import Ephemera.GuardedRun
import Ephemera.HashMap
import Ephemera.Meter
import Ephemera.Wire

namespace RateLimit

/-- `ActionType`. -/
inductive ActionType where
  | post
  | reply
  | reaction
  | directMessageFriend
  | directMessageMutual
  | messageRequest
  | follow
  | connectionRequest
  | groupCreate
  | groupInvite
  | groupChatMessage
  deriving DecidableEq, Repr

/-- The name that `Debug` prints. -/
def ActionType.debug : ActionType → String
  | .post => "Post"
  | .reply => "Reply"
  | .reaction => "Reaction"
  | .directMessageFriend => "DirectMessageFriend"
  | .directMessageMutual => "DirectMessageMutual"
  | .messageRequest => "MessageRequest"
  | .follow => "Follow"
  | .connectionRequest => "ConnectionRequest"
  | .groupCreate => "GroupCreate"
  | .groupInvite => "GroupInvite"
  | .groupChatMessage => "GroupChatMessage"

/-- `RateLimitConfig`. -/
structure RateLimitConfig where
  capacity : ℕ
  refillRate : ℚ

/-- `RateLimitConfig::for_action`. -/
def RateLimitConfig.forAction : ActionType → RateLimitConfig
  | .post => ⟨10, 10 / 3600⟩
  | .reply => ⟨5, 20 / 3600⟩
  | .reaction => ⟨20, 100 / 3600⟩
  | .directMessageFriend => ⟨10, 60 / 3600⟩
  | .directMessageMutual => ⟨5, 30 / 3600⟩
  | .messageRequest => ⟨1, 5 / 3600⟩
  | .follow => ⟨10, 50 / 3600⟩
  | .connectionRequest => ⟨5, 20 / 3600⟩
  | .groupCreate => ⟨3, 5 / 3600⟩
  | .groupInvite => ⟨10, 20 / 3600⟩
  | .groupChatMessage => ⟨15, 60 / 3600⟩

/-- `AbuseError::RateLimited`. -/
structure RateLimited where
  action : String
  retryAfterSecs : ℕ
  deriving DecidableEq, Repr

/-- `TokenBucket`. -/
structure TokenBucket where
  capacity : ℕ
  tokens : ℚ
  refillRate : ℚ
  lastRefill : ℚ

namespace TokenBucket

/-- `TokenBucket::new`. -/
def new (config : RateLimitConfig) (now : ℚ) : TokenBucket :=
  ⟨config.capacity, config.capacity, config.refillRate, now⟩

/-- `refill`; `elapsed` is never negative. -/
def refill (b : TokenBucket) (now : ℚ) : TokenBucket :=
  let elapsed := max (now - b.lastRefill) 0
  { b with tokens := min (b.tokens + elapsed * b.refillRate) b.capacity, lastRefill := now }

/-- `try_consume`. -/
def tryConsume (b : TokenBucket) (now : ℚ) : Bool × TokenBucket :=
  let b := b.refill now
  if 1 ≤ b.tokens then (true, { b with tokens := b.tokens - 1 }) else (false, b)

/-- `x.ceil() as u64`, which saturates. -/
def ceilAsU64 (x : ℚ) : ℕ := min ⌈x⌉₊ (2 ^ 64 - 1)

/-- `retry_after`. -/
def retryAfter (b : TokenBucket) (now : ℚ) : ℕ × TokenBucket :=
  let b := b.refill now
  if 1 ≤ b.tokens then (0, b)
  else
    let deficit := 1 - b.tokens
    (ceilAsU64 (deficit / b.refillRate), b)

end TokenBucket

/-- The key of a bucket. -/
abbrev Key := IdentityKey × ActionType

/-- `RateLimiter`. -/
structure RateLimiter where
  buckets : HashMap Key TokenBucket

namespace RateLimiter

open TokenBucket RateLimitConfig

/-- `RateLimiter::new`. -/
def new : RateLimiter := ⟨∅⟩

/-- `entry(..).or_insert_with(..)`. -/
def entry (s : RateLimiter) (key : Key) (now : ℚ) : TokenBucket :=
  (s.buckets.lookup key).getD (.new (forAction key.2) now)

/-- The limiter with a bucket put back. -/
def put (s : RateLimiter) (key : Key) (b : TokenBucket) : RateLimiter := ⟨s.buckets.insert key b⟩

/-- `check`. -/
def check (s : RateLimiter) (identity : IdentityKey) (action : ActionType) (now : ℚ) :
    Except RateLimited Unit × RateLimiter :=
  match (s.entry (identity, action) now).tryConsume now with
  | (true, bucket) => (.ok (), s.put (identity, action) bucket)
  | (false, bucket) =>
    let (retryAfter, bucket) := bucket.retryAfter now
    (.error ⟨action.debug, retryAfter⟩, s.put (identity, action) bucket)

/-- `would_allow`. -/
def wouldAllow (s : RateLimiter) (identity : IdentityKey) (action : ActionType) (now : ℚ) :
    Bool × RateLimiter :=
  let bucket := (s.entry (identity, action) now).refill now
  (decide (1 ≤ bucket.tokens), s.put (identity, action) bucket)

end RateLimiter

open RateLimiter RateLimitConfig GuardedRun

/-! ## Calls -/

/-- What is called. -/
inductive Kind where
  | check
  | wouldAllow
  deriving DecidableEq, Repr

/-- A call, with the reading of the clock. -/
structure Call where
  kind : Kind
  identity : IdentityKey
  action : ActionType
  now : ℚ

/-- What a call returns. -/
inductive Reply where
  | checked (result : Except RateLimited Unit)
  | allows (b : Bool)
  deriving DecidableEq

/-- The key that a call is about. -/
def Call.key (c : Call) : Key := (c.identity, c.action)

/-- Whether a call is one of `check`. -/
def Call.isCheck (c : Call) : Bool := decide (c.kind = .check)

/-- A call on the limiter. -/
def Call.perform (c : Call) (s : RateLimiter) : Reply × RateLimiter :=
  match c.kind with
  | .check =>
    let (result, s) := s.check c.identity c.action c.now
    (.checked result, s)
  | .wouldAllow =>
    let (b, s) := s.wouldAllow c.identity c.action c.now
    (.allows b, s)

/-- The limiter after a call. -/
def step (s : RateLimiter) (c : Call) : RateLimiter := (c.perform s).2

/-- The calls of a run, with what they return. -/
def replies : RateLimiter → List Call → List (Call × Reply)
  | _, [] => []
  | s, c :: calls => (c, (c.perform s).1) :: replies (step s c) calls

/-- The calls of `check` among them. -/
def checks (s : RateLimiter) (calls : List Call) : List (Call × Reply) :=
  (replies s calls).filter (fun p => p.1.isCheck)

/-- The clock never goes back. -/
def Monotone (calls : List Call) : Prop := (calls.map Call.now).Pairwise (· ≤ ·)

/-- A `check` of an identity and an action that returned `Ok` at a time from `lo` to `hi`. -/
def okIn (key : Key) (lo hi : ℚ) (p : Call × Reply) : Bool :=
  decide (p.1.key = key ∧ lo ≤ p.1.now ∧ p.1.now ≤ hi) &&
    match p.2 with
    | .checked (.ok ()) => true
    | _ => false

/-! ## Forecasts -/

/-- The meter of an action. -/
def meter (action : ActionType) : Meter ℚ where
  cap := (forAction action).capacity
  rate := (forAction action).refillRate
  one_le_cap := by cases action <;> norm_num [forAction]
  rate_pos := by cases action <;> norm_num [forAction]

/-- What the bucket of a key would hold at time `u`. -/
def forecast (s : RateLimiter) (key : Key) (u : ℚ) : ℚ :=
  match s.buckets.lookup key with
  | none => (forAction key.2).capacity
  | some b => (b.refill u).tokens

/-- What `check` answers, from the tokens it finds. -/
def verdict (action : ActionType) (level : ℚ) : Except RateLimited Unit :=
  if 1 ≤ level then .ok ()
  else .error ⟨action.debug, TokenBucket.ceilAsU64 ((1 - level) / (forAction action).refillRate)⟩

/-- A bucket for an action that was not refilled after `t` and is not overdrawn. -/
structure BucketSound (action : ActionType) (t : ℚ) (b : TokenBucket) : Prop where
  capacity : b.capacity = (forAction action).capacity
  refillRate : b.refillRate = (forAction action).refillRate
  lastRefill : b.lastRefill ≤ t
  nonneg : 0 ≤ b.tokens

/-- Each bucket of the limiter is one for the action of its key. -/
def Sound (t : ℚ) (s : RateLimiter) : Prop :=
  ∀ key b, s.buckets.lookup key = some b → BucketSound key.2 t b

variable {s : RateLimiter} {t now : ℚ}

theorem sound_new (t : ℚ) : Sound t new := by
  intro key b h
  rw [new, AList.lookup_empty] at h
  cases h

theorem forecast_new (key : Key) : forecast new key = (meter key.2).full := rfl

theorem BucketSound.refill_tokens {action : ActionType} {b : TokenBucket}
    (h : BucketSound action t b) {u : ℚ} (hu : t ≤ u) :
    (b.refill u).tokens = (meter action).rise b.tokens b.lastRefill u := by
  show min (b.tokens + max (u - b.lastRefill) 0 * b.refillRate) (b.capacity : ℚ) = _
  rw [max_eq_left (sub_nonneg.mpr (h.lastRefill.trans hu)), h.capacity, h.refillRate]
  rfl

/-- **A forecast is a reading of the meter.** -/
theorem steady_forecast (h : Sound t s) (key : Key) :
    (meter key.2).Steady t (forecast s key) := by
  cases hb : s.buckets.lookup key with
  | none =>
    -- The first call makes a full bucket.
    have heq : forecast s key = (meter key.2).full := by
      funext u
      rw [forecast, hb]
      rfl
    rw [heq]
    exact Meter.steady_full t
  | some b =>
    have hsound := h key b hb
    have heq : ∀ u, t ≤ u → forecast s key u = (meter key.2).rise b.tokens b.lastRefill u := by
      intro u hu
      rw [forecast, hb]
      exact hsound.refill_tokens hu
    have hrise := (Meter.steady_rise (M := meter key.2) hsound.nonneg b.lastRefill).mono
      hsound.lastRefill
    refine ⟨fun u hu => ?_, fun u v hu huv => ?_⟩
    · rw [heq u hu]
      exact hrise.nonneg u hu
    · rw [heq u hu, heq v (hu.trans huv)]
      exact hrise.law u v hu huv

/-! ## One call -/

/-- A bucket that was refilled just now. -/
def bucketAt (action : ActionType) (level now : ℚ) : TokenBucket :=
  ⟨(forAction action).capacity, level, (forAction action).refillRate, now⟩

/-- The bucket that a call finds, once refilled. -/
theorem refill_entry (h : Sound t s) (key : Key) (now : ℚ) :
    (s.entry key now).refill now = bucketAt key.2 (forecast s key now) now := by
  rw [entry, forecast]
  cases hb : s.buckets.lookup key with
  | none => simp [TokenBucket.new, TokenBucket.refill, bucketAt]
  | some b =>
    rw [bucketAt, ← (h key b hb).capacity, ← (h key b hb).refillRate]
    rfl

/-- No time passes between two readings of the clock in one call. -/
theorem refill_bucketAt {action : ActionType} {level : ℚ} (hle : level ≤ (meter action).cap)
    (now : ℚ) : (bucketAt action level now).refill now = bucketAt action level now := by
  have htokens : min (level + max (now - now) 0 * (forAction action).refillRate)
      ((forAction action).capacity : ℚ) = level := by
    rw [sub_self, max_self, zero_mul, add_zero]
    exact min_eq_left hle
  rw [TokenBucket.refill, bucketAt, htokens]

theorem sound_put (h : Sound t s) (hnow : t ≤ now) (key : Key) {level : ℚ} (hlevel : 0 ≤ level) :
    Sound now (s.put key (bucketAt key.2 level now)) := by
  intro key' b hb
  rw [put, HashMap.lookup_insert_eq] at hb
  split at hb
  · rename_i heq
    subst heq
    rw [← Option.some.inj hb]
    exact ⟨rfl, rfl, le_rfl, hlevel⟩
  · have hold := h key' b hb
    exact ⟨hold.capacity, hold.refillRate, hold.lastRefill.trans hnow, hold.nonneg⟩

theorem forecast_put (s : RateLimiter) (key key' : Key) (level : ℚ) {u : ℚ} (hu : now ≤ u) :
    forecast (s.put key (bucketAt key.2 level now)) key' u
      = if key' = key then (meter key.2).rise level now u else forecast s key' u := by
  rw [forecast, put, HashMap.lookup_insert_eq]
  by_cases hkey : key' = key
  · rw [if_pos hkey, if_pos hkey]
    show min (level + max (u - now) 0 * (forAction key.2).refillRate)
      ((forAction key.2).capacity : ℚ) = _
    rw [max_eq_left (sub_nonneg.mpr hu)]
    rfl
  · rw [if_neg hkey, if_neg hkey]
    rfl

/-- **`check`**, from the tokens it finds. -/
theorem check_eq (h : Sound t s) (hnow : t ≤ now) (identity : IdentityKey) (action : ActionType) :
    s.check identity action now =
      (verdict action (forecast s (identity, action) now),
        s.put (identity, action) (bucketAt action
          (if 1 ≤ forecast s (identity, action) now then forecast s (identity, action) now - 1
            else forecast s (identity, action) now) now)) := by
  have hcap := (steady_forecast h (identity, action)).le_cap hnow
  have hentry := refill_entry h (identity, action) now
  generalize forecast s (identity, action) now = level at hcap hentry ⊢
  unfold RateLimiter.check TokenBucket.tryConsume verdict
  rw [hentry]
  by_cases hone : 1 ≤ level
  · rw [if_pos hone, if_pos hone, if_pos (show 1 ≤ (bucketAt action level now).tokens from hone)]
    rfl
  · have htokens : ¬1 ≤ (bucketAt action level now).tokens := hone
    rw [if_neg hone, if_neg hone, if_neg htokens]
    have hretry : (bucketAt action level now).retryAfter now =
        (TokenBucket.ceilAsU64 ((1 - level) / (forAction action).refillRate),
          bucketAt action level now) := by
      unfold TokenBucket.retryAfter
      rw [refill_bucketAt hcap, if_neg htokens]
      rfl
    dsimp only
    rw [hretry]

/-- **`would_allow`** puts back what it finds. -/
theorem wouldAllow_eq (h : Sound t s) (identity : IdentityKey) (action : ActionType) (now : ℚ) :
    s.wouldAllow identity action now =
      (decide (1 ≤ forecast s (identity, action) now),
        s.put (identity, action) (bucketAt action (forecast s (identity, action) now) now)) := by
  unfold RateLimiter.wouldAllow
  rw [refill_entry h (identity, action) now]
  rfl

/-- **One call.**  The clock moves on, the forecasts remain, and `check` takes from its own. -/
theorem step_spec (h : Sound t s) (c : Call) (hnow : t ≤ c.now) :
    Sound c.now (step s c) ∧ ∀ key u, c.now ≤ u → forecast (step s c) key u =
      if c.isCheck = true ∧ key = c.key then (meter key.2).take (forecast s key) c.now u
      else forecast s key u := by
  obtain ⟨kind, identity, action, now⟩ := c
  have hsteady := steady_forecast h (identity, action)
  have hnonneg := hsteady.nonneg now hnow
  cases kind with
  | check =>
    have hstep : step s ⟨.check, identity, action, now⟩ = (s.check identity action now).2 := rfl
    rw [hstep, check_eq h hnow]
    refine ⟨sound_put h hnow (identity, action) ?_, fun key u hu => ?_⟩
    · split
      · rename_i hone
        exact sub_nonneg.mpr hone
      · exact hnonneg
    · rw [forecast_put s (identity, action) key _ hu]
      simp only [Call.isCheck, decide_true, true_and, Call.key]
      by_cases hkey : key = (identity, action)
      · subst hkey
        rw [if_pos rfl, if_pos rfl, Meter.take]
        split
        · rfl
        · -- A refused check puts back what it found, and capping twice is capping once.
          exact (hsteady.law now u hnow hu).symm
      · rw [if_neg hkey, if_neg hkey]
  | wouldAllow =>
    have hstep : step s ⟨.wouldAllow, identity, action, now⟩
      = (s.wouldAllow identity action now).2 := rfl
    rw [hstep, wouldAllow_eq h]
    refine ⟨sound_put h hnow (identity, action) hnonneg, fun key u hu => ?_⟩
    rw [forecast_put s (identity, action) key _ hu]
    simp only [Call.isCheck, reduceCtorEq, decide_false, Bool.false_eq_true, false_and, if_false]
    by_cases hkey : key = (identity, action)
    · subst hkey
      rw [if_pos rfl]
      exact (hsteady.law now u hnow hu).symm
    · rw [if_neg hkey]

/-- What `check` answers. -/
theorem perform_check (h : Sound t s) {c : Call} (hc : c.isCheck = true) (hnow : t ≤ c.now) :
    (c.perform s).1 = .checked (verdict c.action (forecast s c.key c.now)) := by
  obtain ⟨kind, identity, action, now⟩ := c
  cases of_decide_eq_true hc
  show Reply.checked (s.check identity action now).1 = _
  rw [check_eq h hnow]
  rfl

/-! ## A limiter that keeps readings -/

/-- The calls of `check`, with the answers of a limiter that keeps a reading for each key and
does not look at the other calls. -/
def metered : (Key → ℚ → ℚ) → List Call → List (Call × Reply)
  | _, [] => []
  | readings, c :: calls =>
    if c.isCheck then
      (c, .checked (verdict c.action (readings c.key c.now))) ::
        metered (Function.update readings c.key
          ((meter c.action).take (readings c.key) c.now)) calls
    else metered readings calls

theorem checks_cons (s : RateLimiter) (c : Call) (calls : List Call) :
    checks s (c :: calls) =
      if c.isCheck then (c, (c.perform s).1) :: checks (step s c) calls
      else checks (step s c) calls := by
  rw [checks, replies, List.filter_cons]
  rfl

/-- The other calls may as well be left out. -/
theorem metered_filter (readings : Key → ℚ → ℚ) (calls : List Call) :
    metered readings (calls.filter Call.isCheck) = metered readings calls := by
  induction calls generalizing readings with
  | nil => rfl
  | cons c calls ih =>
    by_cases hc : c.isCheck = true
    · rw [List.filter_cons_of_pos hc, metered, metered, if_pos hc, if_pos hc, ih]
    · rw [List.filter_cons_of_neg hc, ih, metered, if_neg hc]

/-- **The rate limiter keeps readings**: as long as the clock does not go back, `check` answers
as if nothing but the readings were kept. -/
theorem checks_eq_metered {calls : List Call} {readings : Key → ℚ → ℚ} (h : Sound t s)
    (hclock : (t :: calls.map Call.now).Pairwise (· ≤ ·))
    (hread : ∀ key u, t ≤ u → forecast s key u = readings key u) :
    checks s calls = metered readings calls := by
  induction calls generalizing s t readings with
  | nil => rfl
  | cons c calls ih =>
    obtain ⟨hle, hclock'⟩ := List.pairwise_cons.mp hclock
    have hnow : t ≤ c.now := hle c.now List.mem_cons_self
    obtain ⟨hsound, hforecast⟩ := step_spec h c hnow
    have hrest : ∀ readings' : Key → ℚ → ℚ,
        (∀ key u, c.now ≤ u → forecast (step s c) key u = readings' key u) →
          checks (step s c) calls = metered readings' calls :=
      fun readings' => ih hsound hclock'
    rw [checks_cons, metered]
    -- The induction is on the calls, and the agreement of the readings carries it.
    by_cases hc : c.isCheck = true
    · rw [if_pos hc, if_pos hc, perform_check h hc hnow, hread c.key c.now hnow]
      congr 1
      refine hrest _ (fun key u hu => ?_)
      rw [hforecast key u hu, Function.update_apply]
      by_cases hkey : key = c.key
      · subst hkey
        rw [if_pos ⟨hc, rfl⟩, if_pos rfl, Meter.take, Meter.take, hread c.key c.now hnow]
        split
        · rfl
        · exact hread c.key u (hnow.trans hu)
      · rw [if_neg (fun hboth => hkey hboth.2), if_neg hkey]
        exact hread key u (hnow.trans hu)
    · rw [if_neg hc, if_neg hc]
      refine hrest _ (fun key u hu => ?_)
      rw [hforecast key u hu, if_neg (fun hboth => hc hboth.1)]
      exact hread key u (hnow.trans hu)

/-! ## Windows -/

/-- The times of the checks of a key. -/
def checkTimes (key : Key) (calls : List Call) : List ℚ :=
  (calls.filter (fun c => c.isCheck && decide (c.key = key))).map Call.now

/-- An answer counts when its event was admitted. -/
theorem okIn_verdict (c : Call) (lo hi level : ℚ) :
    okIn c.key lo hi (c, .checked (verdict c.action level))
      = Meter.admittedIn lo hi (c.now, level) := by
  unfold okIn Meter.admittedIn verdict
  by_cases hone : 1 ≤ level
  · simp [hone]
  · simp [hone]

/-- The answers for a key are those of its meter. -/
theorem countP_metered (key : Key) (lo hi : ℚ) (readings : Key → ℚ → ℚ) (calls : List Call) :
    (metered readings calls).countP (okIn key lo hi) =
      ((meter key.2).found (readings key) (checkTimes key calls)).countP
        (Meter.admittedIn lo hi) := by
  induction calls generalizing readings with
  | nil => rfl
  | cons c calls ih =>
    rw [metered, checkTimes, List.filter_cons]
    by_cases hc : c.isCheck = true
    · by_cases hkey : c.key = key
      · subst hkey
        rw [if_pos hc, if_pos (by simp [hc]), List.map_cons, Meter.found, List.countP_cons,
          List.countP_cons, okIn_verdict, ih, Function.update_self]
        rfl
      · have hnot : okIn key lo hi
            (c, .checked (verdict c.action (readings c.key c.now))) = false := by
          simp [okIn, hkey]
        rw [if_pos hc, if_neg (by simp [hkey]), List.countP_cons_of_neg (by simp [hnot]), ih,
          Function.update_of_ne (Ne.symm hkey)]
        rfl
    · rw [if_neg hc, if_neg (by simp [hc]), ih]
      rfl

/-- There is a time before all calls. -/
theorem Monotone.exists_start {calls : List Call} (h : Monotone calls) :
    ∃ t, (t :: calls.map Call.now).Pairwise (· ≤ ·) := by
  cases hcalls : calls.map Call.now with
  | nil => exact ⟨0, List.pairwise_singleton _ _⟩
  | cons u times =>
    rw [Monotone, hcalls] at h
    refine ⟨u, List.pairwise_cons.mpr ⟨fun v hv => ?_, h⟩⟩
    rcases List.mem_cons.mp hv with rfl | hv
    · exact le_rfl
    · exact (List.pairwise_cons.mp h).1 v hv

/-- A new limiter answers like one with full meters. -/
theorem checks_new {calls : List Call} (hclock : Monotone calls) :
    checks new calls = metered (fun key => (meter key.2).full) calls := by
  obtain ⟨t, ht⟩ := hclock.exists_start
  exact checks_eq_metered (sound_new t) ht (fun key u _ => congrFun (forecast_new key) u)

/-- **Any window.** -/
theorem countP_checks_le {calls : List Call} (hclock : Monotone calls) (key : Key) {lo hi : ℚ}
    (hlohi : lo ≤ hi) :
    ((checks new calls).countP (okIn key lo hi) : ℚ)
      ≤ (meter key.2).cap + (meter key.2).rate * (hi - lo) := by
  obtain ⟨t, ht⟩ := hclock.exists_start
  rw [checks_new hclock, countP_metered]
  refine Meter.countP_found_le (Meter.steady_full t) (ht.sublist ?_) hlohi
  exact (List.filter_sublist.map Call.now).cons_cons t

/-! ## Waiting -/

/-- The limiter stays sound, and the forecast of a key is the same when all calls but its checks
have been made. -/
theorem run_spec {calls : List Call} (h : Sound t s)
    (hclock : (t :: calls.map Call.now).Pairwise (· ≤ ·)) {u : ℚ} (htu : t ≤ u)
    (hu : ∀ c ∈ calls, c.now ≤ u) :
    Sound u (run step s calls) ∧ ∀ key, (∀ c ∈ calls, c.isCheck = true → c.key ≠ key) →
      ∀ v, u ≤ v → forecast (run step s calls) key v = forecast s key v := by
  induction calls generalizing s t with
  | nil =>
    refine ⟨fun key b hb => ?_, fun _ _ _ _ => rfl⟩
    have hold := h key b hb
    exact ⟨hold.capacity, hold.refillRate, hold.lastRefill.trans htu, hold.nonneg⟩
  | cons c calls ih =>
    obtain ⟨hle, hclock'⟩ := List.pairwise_cons.mp hclock
    obtain ⟨hsound, hforecast⟩ := step_spec h c (hle c.now List.mem_cons_self)
    have hcu := hu c List.mem_cons_self
    obtain ⟨hrun, hsame⟩ := ih hsound hclock' hcu (fun c' hc' => hu c' (List.mem_cons_of_mem _ hc'))
    refine ⟨hrun, fun key hother v hv => ?_⟩
    rw [run_cons, hsame key (fun c' hc' => hother c' (List.mem_cons_of_mem _ hc')) v hv,
      hforecast key v (hcu.trans hv), if_neg]
    exact fun hboth => hother c List.mem_cons_self hboth.1 hboth.2.symm

/-- The wait that `check` names is long enough: it does not saturate. -/
theorem div_le_ceilAsU64 (action : ActionType) {level : ℚ} (hlevel : 0 ≤ level) :
    (1 - level) / (meter action).rate
      ≤ (TokenBucket.ceilAsU64 ((1 - level) / (forAction action).refillRate) : ℚ) := by
  have hrate : 1 / 720 ≤ (forAction action).refillRate := by
    cases action <;> norm_num [forAction]
  have hpos : 0 < (forAction action).refillRate := (meter action).rate_pos
  have hsmall : (1 - level) / (forAction action).refillRate ≤ 720 := by
    rw [div_le_iff₀ hpos]
    linarith
  rw [TokenBucket.ceilAsU64, Nat.cast_min]
  exact le_min (Nat.le_ceil _) (hsmall.trans (by norm_num))

/-- What an error says. -/
theorem verdict_eq_error {action : ActionType} {level : ℚ} {e : RateLimited}
    (h : verdict action level = .error e) :
    ¬1 ≤ level ∧
      e = ⟨action.debug, TokenBucket.ceilAsU64 ((1 - level) / (forAction action).refillRate)⟩ := by
  unfold verdict at h
  split at h
  · cases h
  · rename_i hone
    exact ⟨hone, (Except.error.inj h).symm⟩

/-- **After the wait** the next check of the key succeeds. -/
theorem check_after_wait {c c' : Call} {between : List Call} (h : Sound t s)
    (hclock : (t :: (c :: between ++ [c']).map Call.now).Pairwise (· ≤ ·))
    (hc : c.isCheck = true) (hc' : c'.isCheck = true) (hkey : c'.key = c.key)
    (hbetween : ∀ b ∈ between, b.isCheck = true → b.key ≠ c.key) {e : RateLimited}
    (hrefused : (c.perform s).1 = .checked (.error e)) (hwait : c.now + e.retryAfterSecs ≤ c'.now) :
    (c'.perform (run step s (c :: between))).1 = .checked (.ok ()) := by
  rw [List.map_append, ← List.cons_append] at hclock
  obtain ⟨hbefore, -, hlast⟩ := List.pairwise_append.mp hclock
  have hle : ∀ u ∈ t :: (c :: between).map Call.now, u ≤ c'.now :=
    fun u hu => hlast u hu c'.now (List.mem_singleton_self _)
  have hnow : t ≤ c.now := (List.pairwise_cons.mp hbefore).1 c.now List.mem_cons_self
  have hsteady := steady_forecast h c.key
  -- the refused check took nothing
  rw [perform_check h hc hnow, Reply.checked.injEq] at hrefused
  obtain ⟨hone, rfl⟩ := verdict_eq_error hrefused
  obtain ⟨hsound, hforecast⟩ := step_spec h c hnow
  obtain ⟨hrun, hsame⟩ := run_spec hsound (List.pairwise_cons.mp hbefore).2
    (hle c.now (List.mem_cons_of_mem _ List.mem_cons_self)) (fun b hb => hle b.now
      (List.mem_cons_of_mem _ (List.mem_cons_of_mem _ (List.mem_map_of_mem hb))))
  have hcc' : c.now ≤ c'.now := hle c.now (List.mem_cons_of_mem _ List.mem_cons_self)
  have hlevel : forecast (run step (step s c) between) c'.key c'.now
      = forecast s c.key c'.now := by
    rw [hkey, hsame c.key hbetween c'.now le_rfl, hforecast c.key c'.now hcc',
      if_pos ⟨hc, rfl⟩, Meter.take, if_neg hone]
  -- The checks of other keys do not touch this one, so the level is that of the refusal, risen.
  have hrestored : 1 ≤ forecast s c.key c'.now := by
    refine hsteady.one_le_after hnow ?_ hcc'
    have hceil := div_le_ceilAsU64 c.action (hsteady.nonneg c.now hnow)
    exact (add_le_add le_rfl hceil).trans hwait
  rw [run_cons, perform_check hrun hc' le_rfl, hlevel, verdict, if_pos hrestored]

/-- **The token-bucket bound.**  Over every run on a new limiter whose clock does not go back:
in a window of length `len` at most `capacity + refill_rate * len` checks of an identity and an
action succeed; the checks return the same whatever calls of `would_allow` come between them;
and a check that follows a refused one after the time it was told succeeds. -/
theorem rateLimiter_run {calls : List Call} (hclock : Monotone calls) :
    (∀ (key : Key) (lo len : ℚ), 0 ≤ len →
      ((checks new calls).countP (okIn key lo (lo + len)) : ℚ)
        ≤ (forAction key.2).capacity + (forAction key.2).refillRate * len) ∧
    (∀ calls' : List Call, Monotone calls' →
      calls'.filter Call.isCheck = calls.filter Call.isCheck →
        checks new calls' = checks new calls) ∧
    ∀ (before between after : List Call) (c c' : Call) (e : RateLimited),
      calls = before ++ (c :: between ++ [c']) ++ after → c.isCheck = true → c'.isCheck = true →
      c'.key = c.key → (∀ b ∈ between, b.isCheck = true → b.key ≠ c.key) →
      (c.perform (run step new before)).1 = .checked (.error e) →
      c.now + e.retryAfterSecs ≤ c'.now →
      (c'.perform (run step new (before ++ c :: between))).1 = .checked (.ok ()) := by
  refine ⟨fun key lo len hlen => ?_, fun calls' hclock' hsame => ?_, ?_⟩
  · have hwindow := countP_checks_le hclock key (show lo ≤ lo + len by linarith)
    rwa [add_sub_cancel_left] at hwindow
  · rw [checks_new hclock', checks_new hclock, ← metered_filter, hsame, metered_filter]
  · rintro before between after c c' e rfl hc hc' hkey hbetween hrefused hwait
    obtain ⟨t, ht⟩ := hclock.exists_start
    rw [List.map_append, ← List.cons_append, List.map_append, ← List.cons_append] at ht
    obtain ⟨hbefore, hrest, hlast⟩ := List.pairwise_append.mp (List.pairwise_append.mp ht).1
    rw [run_append]
    have hstart : Sound c.now (run step new before) := by
      refine (run_spec (sound_new t) hbefore (hlast t List.mem_cons_self c.now ?_)
        (fun b hb => hlast b.now (List.mem_cons_of_mem _ (List.mem_map_of_mem hb)) c.now ?_)).1
      · exact List.mem_cons_self
      · exact List.mem_cons_self
    refine check_after_wait hstart (List.pairwise_cons.mpr ⟨fun u hu => ?_, hrest⟩) hc hc' hkey
      hbetween hrefused hwait
    rcases List.mem_cons.mp hu with rfl | hu
    · exact le_rfl
    · exact (List.pairwise_cons.mp hrest).1 u hu

/-- A call of `check` for a message request of one identity. -/
def request (now : ℚ) : Call := ⟨.check, [], .messageRequest, now⟩

/-- Two requests at once, a call of `would_allow`, and a request after the wait. -/
theorem rateLimiter_run_wait :
    Monotone [request 0, request 0, ⟨.wouldAllow, [], .messageRequest, 9⟩, request 720] ∧
    ((request 720).perform (run step new
      [request 0, request 0, ⟨.wouldAllow, [], .messageRequest, 9⟩])).1 = .checked (.ok ()) := by
  have hclock : Monotone
      [request 0, request 0, ⟨.wouldAllow, [], .messageRequest, 9⟩, request 720] := by
    unfold Monotone
    decide +kernel
  refine ⟨hclock, (rateLimiter_run hclock).2.2 [request 0]
    [⟨.wouldAllow, [], .messageRequest, 9⟩] [] (request 0) (request 720)
    ⟨"MessageRequest", 720⟩ rfl rfl rfl rfl ?_ ?_ ?_⟩
  · intro b hb hcheck
    rw [List.mem_singleton.mp hb] at hcheck
    cases hcheck
  · decide +kernel
  · decide +kernel

end RateLimit
