import Mathlib.Algebra.Group.Int.Defs
import Mathlib.Algebra.Group.Nat.Defs
import Sendword.Models

/-!
# Trigger rules

The two rules that read the database, cooldown and rate limit.  Both let a
request pass when the database fails.
-/

namespace Sendword

open Concurrency

inductive EvalOutcome where
  | allow
  | reject (status : TriggerAttemptStatus) (reason : String)
  deriving DecidableEq, Repr

/-- The longest `chrono::Duration`: `i64::MAX` milliseconds. -/
def chronoMax : Duration := (2 ^ 63 - 1) * 1000000

/-- The earliest instant of `chrono`, in seconds since the epoch. -/
def chronoMin : Int := -8334601228800

/-- The latest instant of `chrono`, in seconds since the epoch. -/
def chronoLatest : Int := 8210266876799

/-- `chrono::Duration::from_std`. -/
def chronoDuration (duration : Duration) : Option Int :=
  if duration ≤ chronoMax then some (duration : Int) else none

namespace Cooldown

def evaluate (hookSlug : String) (cooldown : Duration) :
    Async EvalOutcome := do
  let now : Instant ← op .now
  match ← getLatestStartedByHook hookSlug with
  | .error _ => return .allow
  | .ok none => return .allow
  | .ok (some latest) =>
      match latest.startedAt, chronoDuration cooldown with
      | none, _ => return .allow
      | some _, none => return .allow
      | some startedAt, some cooldown =>
          let elapsed : Int := (now : Int) - (startedAt * 1000000 : Nat)
          if elapsed < cooldown then
            let remaining := ((cooldown - elapsed).tdiv 1000000000).toNat
            return .reject .cooldownSkipped
              s!"cooldown active, {remaining}s remaining"
          else
            return .allow

end Cooldown

namespace RateLimit

/-- A `u64` read back as `i64`. -/
def asI64 (value : Nat) : Int :=
  (BitVec.ofNat 64 value).toInt

/-- An `i64` read as `u64`. -/
def asU64 (value : Int) : Nat :=
  (value % 2 ^ 64).toNat

/-- The start of the fixed window, in seconds; a start that `chrono` cannot
represent is replaced by the instant itself. -/
def windowStart (window : Duration) (now : Int) : Int :=
  let windowSecs := max (window / 1000000000) 1
  let nowSecs := now / 1000000000
  let start := asI64 (asU64 nowSecs / windowSecs * windowSecs)
  if chronoMin ≤ start ∧ start ≤ chronoLatest then start else nowSecs

/-- The outcome that the number of changed rows decides. -/
def outcomeOf (outside : Outside) (config : TriggerRateLimit) :
    DbResult Nat → EvalOutcome
  | .error _ => .allow
  | .ok 1 => .allow
  | .ok _ =>
      let windowHuman := outside.formatDuration config.window
      .reject .rateLimited
        s!"rate limit exceeded ({config.maxRequests} per {windowHuman})"

/-- The second half of a check: increment only if under the limit. -/
def increment (outside : Outside) (hookSlug : String)
    (config : TriggerRateLimit) (start : Int) : Async EvalOutcome := do
  let rows ← sql (.counter (.increment hookSlug start
    (asI64 config.maxRequests)))
  return outcomeOf outside config rows

/-- One check at an instant in nanoseconds since the epoch. -/
def evaluateAt (outside : Outside) (hookSlug : String)
    (config : TriggerRateLimit) (now : Int) : Async EvalOutcome := do
  let start := windowStart config.window now
  let _ ← sql (.counter (.insertOrIgnore hookSlug start))
  increment outside hookSlug config start

def evaluate (outside : Outside) (hookSlug : String)
    (config : TriggerRateLimit) : Async EvalOutcome := do
  let now : Instant ← op .now
  evaluateAt outside hookSlug config now

end RateLimit

/-- Convert `HookConfig.rate_limit` (max_per_minute) to a
`TriggerRateLimit`. -/
def hookRateLimitAsTrigger (config : Option RateLimitConfig) :
    Option TriggerRateLimit :=
  match config with
  | none => none
  | some config =>
      if config.maxPerMinute = 0 then none
      else some
        { maxRequests := config.maxPerMinute
          window := Duration.fromSecs 60 }

end Sendword
