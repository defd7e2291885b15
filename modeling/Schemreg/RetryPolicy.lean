import Schemreg.Lib.Checked
import Schemreg.Lib.Saturating

/-
  `src/retry.rs`: the delays between attempts.

  A `Duration` carries its bounds. The draw of `RandomState` is an argument: what is proved
  holds of every draw. `delay_for` has one plain addition, which panics where it overflows;
  every other operation saturates or is checked. The main result is `delayFor_exact`: the
  delay is the one that arithmetic on unbounded integers gives.
-/

namespace Schemreg

open Checked Saturating

/-- `std::time::Duration`. -/
structure Duration where
  secs : Nat
  nanos : Nat
  secs_lt : secs < 2 ^ 64
  nanos_lt : nanos < 1000000000
  deriving DecidableEq, Repr

namespace Duration

/-- The length of a duration, by which durations are ordered. -/
def asNanos (d : Duration) : Nat := d.secs * 1000000000 + d.nanos

/-- `as_millis`, a `u128`. -/
def asMillis (d : Duration) : Nat := d.secs * 1000 + d.nanos / 1000000

/-- `from_millis`. -/
def fromMillis (ms : UInt64) : Duration where
  secs := ms.toNat / 1000
  nanos := ms.toNat % 1000 * 1000000
  secs_lt := by
    have := ms.toNat_lt
    omega
  nanos_lt := by omega

/-- `from_secs`. -/
def fromSecs (secs : UInt64) : Duration := ⟨secs.toNat, 0, secs.toNat_lt, by omega⟩

theorem asMillis_eq (d : Duration) : d.asMillis = d.asNanos / 1000000 := by
  unfold asMillis asNanos
  omega

@[simp] theorem asNanos_fromMillis (ms : UInt64) :
    (fromMillis ms).asNanos = ms.toNat * 1000000 := by
  show ms.toNat / 1000 * 1000000000 + ms.toNat % 1000 * 1000000 = _
  omega

end Duration

/-- `as_millis_u64`: `Duration::as_millis` saturating into `u64`. -/
def asMillisU64 (d : Duration) : UInt64 := saturate d.asMillis

/-- `RetryPolicy`. -/
structure RetryPolicy where
  maxRetries : UInt32
  baseBackoff : Duration
  maxBackoff : Duration
  honorRetryAfter : Bool
  jitter : Bool
  deriving DecidableEq, Repr

def defaultMaxRetries : UInt32 := 3
def defaultBaseBackoff : Duration := .fromMillis 100
def defaultMaxBackoff : Duration := .fromSecs 60

/-- `random_u64_below`: a value below `bound`, or 0 where there is none. -/
def randomU64Below (draw bound : UInt64) : UInt64 := if bound = 0 then 0 else draw % bound

namespace RetryPolicy

/-- `RetryPolicy::new`, the documented defaults. -/
def new : RetryPolicy where
  maxRetries := defaultMaxRetries
  baseBackoff := defaultBaseBackoff
  maxBackoff := defaultMaxBackoff
  honorRetryAfter := true
  jitter := true

/-- `RetryPolicy::none`. -/
def none : RetryPolicy := { new with maxRetries := 0 }

/-- `delay_for`: the delay before the retry that follows attempt `attempt`. -/
def delayFor (policy : RetryPolicy) (draw : UInt64) (attempt : UInt32)
    (retryAfterMs : Option UInt64) : Outcome Empty Duration :=
  let maxMs := asMillisU64 policy.maxBackoff
  match policy.honorRetryAfter, retryAfterMs with
  | true, some serverMs => .ok (.fromMillis (minU64 serverMs maxMs))
  | _, _ =>
    let baseMs := asMillisU64 policy.baseBackoff
    let uncapped := saturatingMul baseMs ((checkedShl 1 attempt).getD u64Max)
    let capped := minU64 uncapped maxMs
    if !policy.jitter || capped = 0 then .ok (.fromMillis capped)
    else do
      let half := capped / 2
      let ms ← addU64 half (randomU64Below draw (saturatingAdd half 1))
      .ok (.fromMillis ms)

/-! ## On unbounded integers -/

/-- The ceiling in milliseconds. -/
def maxMillis (policy : RetryPolicy) : Nat := min policy.maxBackoff.asMillis (2 ^ 64 - 1)

/-- The base in milliseconds. -/
def baseMillis (policy : RetryPolicy) : Nat := min policy.baseBackoff.asMillis (2 ^ 64 - 1)

/-- The doubled and capped back-off after attempt `attempt`. -/
def backoffMillis (policy : RetryPolicy) (attempt : Nat) : Nat :=
  min (policy.baseMillis * 2 ^ attempt) policy.maxMillis

/-- The `Retry-After` that the policy obeys. -/
def honored (policy : RetryPolicy) (retryAfterMs : Option UInt64) : Option UInt64 :=
  if policy.honorRetryAfter then retryAfterMs else Option.none

theorem maxMillis_le (policy : RetryPolicy) :
    policy.maxMillis * 1000000 ≤ policy.maxBackoff.asNanos := by
  have h := policy.maxBackoff.asMillis_eq
  unfold maxMillis
  omega

theorem backoffMillis_mono (policy : RetryPolicy) {i j : Nat} (h : i ≤ j) :
    policy.backoffMillis i ≤ policy.backoffMillis j := by
  have hpow : policy.baseMillis * 2 ^ i ≤ policy.baseMillis * 2 ^ j :=
    Nat.mul_le_mul_left _ (Nat.pow_le_pow_right (by omega) h)
  unfold backoffMillis
  omega

/-- The word that holds the capped back-off. -/
theorem toNat_capped (policy : RetryPolicy) (attempt : UInt32) :
    (minU64 (saturatingMul (asMillisU64 policy.baseBackoff)
      ((checkedShl 1 attempt).getD u64Max)) (asMillisU64 policy.maxBackoff)).toNat =
      policy.backoffMillis attempt.toNat := by
  have hmax : policy.maxMillis ≤ 2 ^ 64 - 1 := by
    unfold maxMillis
    omega
  rw [toNat_minU64, toNat_saturatingMul, toNat_checkedShl_one]
  unfold asMillisU64
  rw [toNat_saturate, toNat_saturate]
  exact min_saturated hmax

end RetryPolicy

/-- A draw below a bound that is not 0. -/
theorem toNat_randomU64Below (draw : UInt64) {bound : UInt64} (h : 0 < bound.toNat) :
    (randomU64Below draw bound).toNat = draw.toNat % bound.toNat := by
  have hne : bound ≠ 0 := by
    rintro rfl
    exact absurd h (by decide)
  rw [randomU64Below, if_neg hne, UInt64.toNat_mod]

/-- The jittered delay: the addition fits, half is kept and at most half is added. -/
theorem jitter_ok (draw capped : UInt64) : ∃ ms : UInt64,
    (addU64 (capped / 2) (randomU64Below draw (saturatingAdd (capped / 2) 1)) :
      Outcome Empty UInt64) = .ok ms ∧
    capped.toNat / 2 ≤ ms.toNat ∧ ms.toNat ≤ capped.toNat := by
  have hlt := capped.toNat_lt
  have hhalf : (capped / 2).toNat = capped.toNat / 2 := UInt64.toNat_div _ _
  have hbound : (saturatingAdd (capped / 2) 1).toNat = capped.toNat / 2 + 1 := by
    rw [toNat_saturatingAdd, hhalf, show (1 : UInt64).toNat = 1 from rfl]
    omega
  have hdraw := toNat_randomU64Below draw (by rw [hbound]; omega :
    0 < (saturatingAdd (capped / 2) 1).toNat)
  have hmod := Nat.mod_lt draw.toNat (by omega : 0 < capped.toNat / 2 + 1)
  rw [hbound] at hdraw
  refine ⟨_, if_pos ?_, ?_⟩
  · rw [hhalf, hdraw]
    omega
  · rw [UInt64.toNat_add, hhalf, hdraw, Nat.mod_eq_of_lt (by omega)]
    omega

namespace RetryPolicy

/-- What `delay_for` returns, in milliseconds. -/
structure Delays (policy : RetryPolicy) (attempt : UInt32) (retryAfterMs : Option UInt64)
    (ms : Nat) : Prop where
  honored : ∀ serverMs, policy.honored retryAfterMs = some serverMs →
    ms = min serverMs.toNat policy.maxMillis
  plain : policy.honored retryAfterMs = Option.none → policy.jitter = false →
    ms = policy.backoffMillis attempt.toNat
  jittered : policy.honored retryAfterMs = Option.none → policy.jitter = true →
    policy.backoffMillis attempt.toNat / 2 ≤ ms ∧ ms ≤ policy.backoffMillis attempt.toNat

variable {policy : RetryPolicy} {attempt : UInt32} {retryAfterMs : Option UInt64}

theorem Delays.le_max {ms : Nat} (h : Delays policy attempt retryAfterMs ms) :
    ms ≤ policy.maxMillis := by
  have hcap : policy.backoffMillis attempt.toNat ≤ policy.maxMillis := Nat.min_le_right _ _
  cases hobeyed : policy.honored retryAfterMs with
  | some serverMs =>
    rw [h.honored serverMs hobeyed]
    exact Nat.min_le_right _ _
  | none =>
    cases hjitter : policy.jitter with
    | false =>
      rw [h.plain hobeyed hjitter]
      exact hcap
    | true => exact Nat.le_trans (h.jittered hobeyed hjitter).2 hcap

theorem delayFor_of_honored (policy : RetryPolicy) (draw : UInt64) (attempt : UInt32)
    {serverMs : UInt64} (hobeyed : policy.honored retryAfterMs = some serverMs) :
    policy.delayFor draw attempt retryAfterMs =
      .ok (.fromMillis (minU64 serverMs (asMillisU64 policy.maxBackoff))) := by
  obtain ⟨hhonor, rfl⟩ : policy.honorRetryAfter = true ∧ retryAfterMs = some serverMs := by
    unfold honored at hobeyed
    split at hobeyed
    · exact ⟨‹_›, hobeyed⟩
    · cases hobeyed
  unfold delayFor
  rw [hhonor]

/-- Neither arm that computes the back-off looks at `Retry-After`. -/
theorem delayFor_of_not_honored (policy : RetryPolicy) (draw : UInt64) (attempt : UInt32)
    (hobeyed : policy.honored retryAfterMs = Option.none) :
    policy.delayFor draw attempt retryAfterMs =
      { policy with honorRetryAfter := false }.delayFor draw attempt retryAfterMs := by
  unfold honored at hobeyed
  unfold delayFor
  cases hhonor : policy.honorRetryAfter with
  | false => rfl
  | true =>
    rw [hhonor, if_pos rfl] at hobeyed
    rw [hobeyed]

/-- Every run of `delay_for` returns whole milliseconds, the ones described. -/
theorem delayFor_eq_ok (policy : RetryPolicy) (draw : UInt64) (attempt : UInt32)
    (retryAfterMs : Option UInt64) : ∃ ms : UInt64,
    policy.delayFor draw attempt retryAfterMs = .ok (.fromMillis ms) ∧
      Delays policy attempt retryAfterMs ms.toNat := by
  have hcapped := policy.toNat_capped attempt
  have hmax : (asMillisU64 policy.maxBackoff).toNat = policy.maxMillis := toNat_saturate _
  cases hobeyed : policy.honored retryAfterMs with
  | some serverMs =>
    refine ⟨_, delayFor_of_honored policy draw attempt hobeyed, ?_, ?_, ?_⟩
    · intro ms h
      rw [hobeyed] at h
      cases h
      rw [toNat_minU64, hmax]
    · intro h
      rw [hobeyed] at h
      cases h
    · intro h
      rw [hobeyed] at h
      cases h
  | none =>
    rw [delayFor_of_not_honored policy draw attempt hobeyed]
    unfold delayFor
    dsimp only
    generalize minU64 (saturatingMul (asMillisU64 policy.baseBackoff)
      ((checkedShl 1 attempt).getD u64Max)) (asMillisU64 policy.maxBackoff) = capped at *
    split
    · rename_i hplain
      refine ⟨capped, rfl, ?_, fun _ _ => hcapped, ?_⟩
      · intro ms h
        rw [hobeyed] at h
        cases h
      · intro _ hjitter
        have hzero : capped = 0 := by simpa [hjitter] using hplain
        have : capped.toNat = 0 := by
          rw [hzero]
          rfl
        omega
    · rename_i hjittered
      obtain ⟨ms, hadd, hlow, hhigh⟩ := jitter_ok draw capped
      rw [hadd, Outcome.bind_ok]
      refine ⟨ms, rfl, ?_, ?_, ?_⟩
      · intro ms h
        rw [hobeyed] at h
        cases h
      · intro _ hjitter
        simp [hjitter] at hjittered
      · intro _ _
        rw [← hcapped]
        exact ⟨hlow, hhigh⟩

/-- `delay_for` computes without overflow what unbounded integers give, and never more than
    the ceiling. Without jitter the back-off never shrinks. -/
theorem delayFor_exact (policy : RetryPolicy) :
    (∀ draw attempt retryAfterMs, ∃ delay : Duration,
      policy.delayFor draw attempt retryAfterMs = .ok delay ∧
      delay.asNanos ≤ policy.maxBackoff.asNanos ∧
      ∃ ms, delay.asNanos = ms * 1000000 ∧ Delays policy attempt retryAfterMs ms) ∧
    (policy.jitter = false → ∀ (i j : UInt32), i ≤ j → ∀ drawI drawJ retryI retryJ,
      policy.honored retryI = Option.none → policy.honored retryJ = Option.none →
      ∀ delayI delayJ, policy.delayFor drawI i retryI = .ok delayI →
        policy.delayFor drawJ j retryJ = .ok delayJ → delayI.asNanos ≤ delayJ.asNanos) := by
  constructor
  · intro draw attempt retryAfterMs
    obtain ⟨ms, hok, hdelays⟩ := delayFor_eq_ok policy draw attempt retryAfterMs
    refine ⟨_, hok, ?_, ms.toNat, Duration.asNanos_fromMillis ms, hdelays⟩
    rw [Duration.asNanos_fromMillis]
    exact Nat.le_trans (Nat.mul_le_mul_right _ hdelays.le_max) policy.maxMillis_le
  · intro hjitter i j hij drawI drawJ retryI retryJ hi hj delayI delayJ hdelayI hdelayJ
    obtain ⟨msI, hokI, hI⟩ := delayFor_eq_ok policy drawI i retryI
    obtain ⟨msJ, hokJ, hJ⟩ := delayFor_eq_ok policy drawJ j retryJ
    rw [hokI] at hdelayI
    rw [hokJ] at hdelayJ
    cases hdelayI
    cases hdelayJ
    have hmono := policy.backoffMillis_mono (UInt32.le_iff_toNat_le.mp hij)
    rw [Duration.asNanos_fromMillis, Duration.asNanos_fromMillis, hI.plain hi hjitter,
      hJ.plain hj hjitter]
    omega

/-- The default policy without jitter, after the first and the third attempt. -/
theorem delayFor_doubled : ({ new with jitter := false }.backoffMillis 0 = 100 ∧
    { new with jitter := false }.backoffMillis 2 = 400) ∧
    ∀ delayI delayJ, { new with jitter := false }.delayFor 0 0 Option.none = .ok delayI →
      { new with jitter := false }.delayFor 0 2 Option.none = .ok delayJ →
      delayI.asNanos ≤ delayJ.asNanos :=
  ⟨by decide, (delayFor_exact { new with jitter := false }).2 rfl 0 2 (by decide) 0 0 Option.none
    Option.none rfl rfl⟩

/-- A retry after attempt 64 saturates, and an odd interval keeps its half rounded down. -/
example : { new with jitter := false }.delayFor 0 64 Option.none = .ok defaultMaxBackoff ∧
    { new with maxBackoff := .fromMillis 5 }.delayFor 7 9 Option.none = .ok (.fromMillis 3) := by
  decide

end RetryPolicy

end Schemreg
