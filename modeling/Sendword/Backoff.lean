import Mathlib.Algebra.Order.Group.Nat
import Mathlib.Order.Monotone.Basic
import Sendword.Executor

/-!
# The delay before a retry

`calculate_backoff` computes on durations that saturate and stops doubling
at the exponent 31.  The saturation is never seen, since the longest delay is
itself a duration; the last exponent is.  An attempt is a `u32`, so there is a
last attempt as well.
-/

namespace Sendword

/-- The backoff as documented, in unbounded arithmetic. -/
def backoffFormula
    (strategy : BackoffStrategy)
    (attempt initialDelay maxDelay : Nat) : Nat :=
  match strategy with
  | .none => 0
  | .linear => min maxDelay (initialDelay * attempt)
  | .exponential => min maxDelay (initialDelay * 2 ^ (attempt - 1))

variable
  {initialDelay maxDelay factor other : Nat}
  {strategy : BackoffStrategy}

/-- A delay that saturates is cut to the longest delay all the same. -/
theorem min_saturatingMul
    (fits : maxDelay ≤ Duration.max) :
    min (Duration.saturatingMul initialDelay factor) maxDelay =
      min maxDelay (initialDelay * factor) := by
  unfold Duration.saturatingMul
  rw [min_assoc, min_eq_right fits, min_comm]

/-- The code's delay, without the saturation. -/
theorem calculateBackoff_eq
    (fits : maxDelay ≤ Duration.max)
    (attempt : Nat) :
    calculateBackoff strategy attempt initialDelay maxDelay =
      match strategy with
      | .none => 0
      | .linear => min maxDelay (initialDelay * attempt)
      | .exponential =>
          min maxDelay (initialDelay * 2 ^ min (attempt - 1) 31) := by
  cases strategy with
  | none => exact Nat.zero_min maxDelay
  | linear => exact min_saturatingMul fits
  | exponential => exact min_saturatingMul fits

/-- Of two factors the lower gives the same capped delay only if the delay
has already come to the cap. -/
theorem capped_eq_iff
    (lower : factor < other) :
    min maxDelay (initialDelay * factor) =
        min maxDelay (initialDelay * other) ↔
      initialDelay = 0 ∨ maxDelay ≤ initialDelay * factor := by
  constructor
  · intro same
    rcases Nat.eq_zero_or_pos initialDelay with zero | positive
    · exact .inl zero
    · right
      have less := Nat.mul_lt_mul_of_pos_left lower positive
      omega
  · intro reached
    rcases reached with zero | reached
    · subst zero
      simp
    · have le := Nat.mul_le_mul_left initialDelay lower.le
      rw [min_eq_left reached, min_eq_left (reached.trans le)]

theorem calculateBackoff_eq_formula_iff
    (fits : maxDelay ≤ Duration.max)
    (attempt : Nat) :
    calculateBackoff strategy attempt initialDelay maxDelay =
        backoffFormula strategy attempt initialDelay maxDelay ↔
      (strategy = .exponential →
        attempt ≤ 32 ∨ initialDelay = 0 ∨ maxDelay ≤ initialDelay * 2 ^ 31) := by
  rw [calculateBackoff_eq fits]
  cases strategy with
  | none => simp [backoffFormula]
  | linear => simp [backoffFormula]
  | exponential =>
      simp only [backoffFormula, forall_const]
      by_cases few : attempt ≤ 32
      · have exponent : min (attempt - 1) 31 = attempt - 1 := by omega
        rw [exponent]
        simp [few]
      · have exponent : min (attempt - 1) 31 = 31 := by omega
        rw [exponent, capped_eq_iff
          (Nat.pow_lt_pow_right (by decide) (by omega))]
        simp [few]

/-- A later retry never waits less. -/
theorem calculateBackoff_monotone
    (fits : maxDelay ≤ Duration.max) :
    Monotone fun attempt =>
      calculateBackoff strategy attempt initialDelay maxDelay := by
  intro attempt later le
  simp only [calculateBackoff_eq fits]
  cases strategy with
  | none => exact le_rfl
  | linear => exact min_le_min_left _ (Nat.mul_le_mul_left _ le)
  | exponential =>
      apply min_le_min_left
      apply Nat.mul_le_mul_left
      apply Nat.pow_le_pow_right (by decide)
      omega

/-- The last attempt that a `u32` can count. -/
def lastAttempt : Nat := 2 ^ 32 - 1

/-- The last attempt waits the longest delay. -/
def ReachesMaxDelay
    (strategy : BackoffStrategy)
    (initialDelay maxDelay : Nat) : Prop :=
  match strategy with
  | .none => maxDelay = 0
  | .linear => maxDelay ≤ initialDelay * lastAttempt
  | .exponential => maxDelay ≤ initialDelay * 2 ^ 31

theorem calculateBackoff_lastAttempt_iff
    (fits : maxDelay ≤ Duration.max) :
    calculateBackoff strategy lastAttempt initialDelay maxDelay = maxDelay ↔
      ReachesMaxDelay strategy initialDelay maxDelay := by
  rw [calculateBackoff_eq fits]
  cases strategy with
  | none => exact eq_comm
  | linear => exact min_eq_left_iff
  | exponential =>
      have exponent : min (lastAttempt - 1) 31 = 31 := by decide
      simp only [exponent]
      exact min_eq_left_iff

/-- Some attempt waits the longest delay, and with it every later one, if the
last attempt does. -/
theorem calculateBackoff_reaches_iff
    (fits : maxDelay ≤ Duration.max) :
    (∃ enough ≤ lastAttempt, ∀ attempt ≤ lastAttempt, enough ≤ attempt →
        calculateBackoff strategy attempt initialDelay maxDelay =
          maxDelay) ↔
      ReachesMaxDelay strategy initialDelay maxDelay := by
  rw [← calculateBackoff_lastAttempt_iff fits]
  constructor
  · rintro ⟨enough, counted, reached⟩
    exact reached lastAttempt le_rfl counted
  · intro reached
    refine ⟨lastAttempt, le_rfl, ?_⟩
    intro attempt counted enough
    rw [le_antisymm counted enough, reached]

/-- The backoff is the documented one up to the last exponent: an exponential
backoff that has not come to the longest delay by then stays below it.  A
linear one that has not come to it by the last attempt does not either. -/
theorem calculateBackoff_exact_iff
    (strategy : BackoffStrategy)
    (initialDelay maxDelay : Duration)
    (fits : maxDelay ≤ Duration.max) :
    (∀ attempt ≤ lastAttempt,
      (calculateBackoff strategy attempt initialDelay maxDelay =
          backoffFormula strategy attempt initialDelay maxDelay ↔
        (strategy = .exponential →
          attempt ≤ 32 ∨ initialDelay = 0 ∨
            maxDelay ≤ initialDelay * 2 ^ 31))) ∧
      (∀ attempt later, attempt ≤ later → later ≤ lastAttempt →
        calculateBackoff strategy attempt initialDelay maxDelay ≤
          calculateBackoff strategy later initialDelay maxDelay) ∧
      ((∃ enough ≤ lastAttempt, ∀ attempt ≤ lastAttempt,
          enough ≤ attempt →
            calculateBackoff strategy attempt initialDelay maxDelay =
              maxDelay) ↔
        ReachesMaxDelay strategy initialDelay maxDelay) := by
  refine ⟨fun attempt _ => calculateBackoff_eq_formula_iff fits attempt,
    ?_, calculateBackoff_reaches_iff fits⟩
  intro attempt later le _
  exact calculateBackoff_monotone fits le

/-- The default delays, of one second and of a minute. -/
theorem calculateBackoff_exact_iff_minute :
    60000000000 ≤ Duration.max ∧
      calculateBackoff .exponential 100 1000000000 60000000000 =
        backoffFormula .exponential 100 1000000000 60000000000 ∧
      ReachesMaxDelay .linear 1000000000 60000000000 ∧
      ¬ ReachesMaxDelay .linear 1 3600000000000 := by
  have exact := calculateBackoff_exact_iff .exponential 1000000000
    60000000000 (by decide)
  refine ⟨by decide, ?_, ?_, ?_⟩
  · apply (exact.1 100 (by decide)).mpr
    intro _
    exact .inr (.inr (by decide))
  · unfold ReachesMaxDelay lastAttempt
    decide
  · unfold ReachesMaxDelay lastAttempt
    decide

/-- From one nanosecond on, thirty-three attempts do not come to an hour,
and no further one does. -/
theorem not_calculateBackoff_exact :
    ¬∀ (strategy : BackoffStrategy) (attempt : Nat)
        (initialDelay maxDelay : Duration),
      1 ≤ attempt → attempt < 2 ^ 32 → initialDelay ≤ maxDelay →
      maxDelay ≤ Duration.max →
      calculateBackoff strategy attempt initialDelay maxDelay =
        backoffFormula strategy attempt initialDelay maxDelay := by
  intro always
  have exact := always .exponential 33 1 3600000000000 (by decide) (by decide)
    (by decide) (by decide)
  revert exact
  decide

end Sendword
