import Mathlib.Algebra.Group.Nat.Defs
import Sendword.Models

/-!
# Running a command

The executors, the retry loop and the completion notification.  A command is
run between `mark_running` and `mark_completed`, and the loop puts the record
back to `pending` before each further attempt.
-/

namespace Sendword

open Concurrency

/-! ## `executor` -/

/-- Interpolate a template kept as a `String`. -/
def interpolate (words : WordClass) (template : String) (payload : Json) :
    String :=
  String.ofList (interpolateCommand words template.toList payload)

def resolveExecutor (outside : Outside) (config : ExecutorConfig)
    (payloadJson : String) : ResolvedExecutor :=
  match config with
  | .shell command =>
      match outside.parseJson payloadJson with
      | some payload => .shell (interpolate outside.words command payload)
      | none => .shell command
  | .script path => .script path .direct
  | .javaScript path => .script path .javaScript
  | .python path => .script path .python
  | .http method url headers body followRedirects =>
      let payload := (outside.parseJson payloadJson).getD (.object [])
      .http method (interpolate outside.words url payload) headers
        (body.map fun text => interpolate outside.words text payload)
        followRedirects

/-- The outcome of an execution attempt. -/
structure ExecutionResult where
  status : ExecutionStatus
  exitCode : Option Int
  deriving DecidableEq, Repr

/-- The status and exit code recorded for the end of a child process. -/
def ProcessOutcome.result : ProcessOutcome → ExecutionResult
  | .spawnFailed => { status := .failed, exitCode := none }
  | .exited code =>
      { status := if code = some 0 then .success else .failed
        exitCode := code }
  | .waitFailed => { status := .failed, exitCode := none }
  | .elapsed => { status := .timedOut, exitCode := none }

/-- The status and exit code recorded for the end of a request. -/
def HttpOutcome.result : HttpOutcome → ExecutionResult
  | .responded code =>
      { status := if 200 ≤ code ∧ code < 300 then .success else .failed
        exitCode := some code }
  | .requestFailed => { status := .failed, exitCode := none }
  | .elapsed => { status := .timedOut, exitCode := none }

/-- What `run_shell`, `run_script` and `run_http` share: only the command
between the two database transitions differs. -/
def runCommand (context : ExecutionContext)
    (command : Async ExecutionResult) : Async ExecutionResult := do
  let prepared : Bool ← op (.prepareLogFiles context)
  if prepared then
    match ← markRunning context.executionId with
    | .error _ => return { status := .failed, exitCode := none }
    | .ok () =>
        let result ← command
        let _ ← markCompleted context.executionId result.status
          result.exitCode
        return result
  else
    return { status := .failed, exitCode := none }

/-- Run a shell command via `sh -c`. -/
def runShell (context : ExecutionContext) : Async ExecutionResult :=
  runCommand context do
    let outcome : ProcessOutcome ← op (.runProcess context)
    return outcome.result

/-- Run a script file directly (not via `sh -c`). -/
def runScript (context : ExecutionContext) : Async ExecutionResult :=
  runCommand context do
    let outcome : ProcessOutcome ← op (.runProcess context)
    return outcome.result

/-- Run an HTTP request executor. -/
def runHttp (context : ExecutionContext) : Async ExecutionResult :=
  runCommand context do
    let outcome : HttpOutcome ← op (.sendRequest context)
    return outcome.result

/-- Dispatch to the appropriate executor based on the resolved executor
type. -/
def runExecutor (context : ExecutionContext) : Async ExecutionResult :=
  match context.executor with
  | .shell _ => runShell context
  | .script .. => runScript context
  | .http .. => runHttp context

/-! ## `retry` -/

/-- Resolve the effective retry config for a hook. -/
def resolveRetryConfig (hook : HookConfig) (defaults : RetryConfig) :
    EffectiveRetryConfig :=
  let retry := hook.retries.getD defaults
  { count := retry.count
    backoff := retry.backoff
    initialDelay := retry.initialDelay
    maxDelay := retry.maxDelay }

/-- `Duration::MAX`: the seconds are a `u64`. -/
def Duration.max : Duration := 2 ^ 64 * 1000000000 - 1

def Duration.saturatingMul (duration : Duration) (factor : Nat) : Duration :=
  min (duration * factor) Duration.max

/-- Calculate the delay before the given retry attempt (1-indexed).  Attempts
are counted in a `u32`, as the retries of a hook are. -/
def calculateBackoff (strategy : BackoffStrategy) (attempt : Nat)
    (initialDelay maxDelay : Duration) : Duration :=
  let delay : Duration := match strategy with
    | .none => 0
    | .linear => initialDelay.saturatingMul attempt
    | .exponential => initialDelay.saturatingMul (2 ^ min (attempt - 1) 31)
  min delay maxDelay

/-- Reset an execution record back to pending status so it can be
re-run. -/
def resetToPending (id : String) : Async (DbResult Unit) := do
  let rows ← sql (.execution (.update (.resetToPending id)))
  return match rows with
  | .error error => .error error
  | .ok 0 => .error (.notFound s!"execution {id}")
  | .ok (_ + 1) => .ok ()

/-- Wait before a further attempt. -/
def backOff (context : ExecutionContext) (delay : Duration) : Async Unit :=
  if delay = 0 then return () else op (.sleep context delay)

/-- The attempts `attempt, attempt + 1, …` of the retry loop, as long as
`remaining` of them are left. -/
def retryLoop (context : ExecutionContext) (retries : EffectiveRetryConfig)
    (remaining attempt : Nat) (result : ExecutionResult) :
    Async ExecutionResult :=
  match remaining with
  | 0 => return result
  | remaining + 1 =>
      -- no retry on success, on a timeout or when nothing was run
      if result.status = .failed ∧ result.exitCode.isSome then do
        backOff context (calculateBackoff retries.backoff attempt
          retries.initialDelay retries.maxDelay)
        op (.appendRetryMarker context attempt)
        let _ ← incrementRetryCount context.executionId
        match ← resetToPending context.executionId with
        | .error _ => return result
        | .ok () =>
            let result ← runExecutor context
            retryLoop context retries remaining (attempt + 1) result
      else
        return result

/-- Run a command with automatic retries on non-zero exit codes. -/
def runWithRetries (context : ExecutionContext)
    (retries : EffectiveRetryConfig) : Async ExecutionResult := do
  let result ← runExecutor context
  retryLoop context retries retries.count 1 result

/-! ## `notification` -/

/-- Seconds between two timestamps, cut toward zero. -/
def computeDuration (execution : Execution) : String :=
  match execution.startedAt, execution.completedAt with
  | some started, some completed =>
      let milliseconds : Int := (completed : Int) - (started : Int)
      s!"{milliseconds.tdiv 1000}s"
  | _, _ => "unknown"

/-- Map `ExecutionStatus` to `NotifyOutcome` for filtering. -/
def statusToOutcome : ExecutionStatus → Option NotifyOutcome
  | .success => some .success
  | .failed => some .failure
  | .timedOut => some .timeout
  | _ => none

/-- The JSON context of the notification template. -/
def notificationContext (hook : HookConfig) (result : ExecutionResult)
    (execution : Execution) : Json :=
  .object
    [("hook_name", .string hook.name),
      ("hook_slug", .string hook.slug),
      ("status", .string result.status.text),
      ("exit_code", .string ((result.exitCode.map toString).getD "")),
      ("execution_id", .string execution.id),
      ("duration", .string (computeDuration execution)),
      ("trigger_source", .string execution.triggerSource)]

/-- Send a completion notification if the outcome matches. -/
def sendNotification (outside : Outside) (config : NotificationConfig)
    (hook : HookConfig) (result : ExecutionResult) (execution : Execution) :
    Async Unit :=
  match statusToOutcome result.status with
  | none => return ()
  | some outcome =>
      if outcome ∈ config.on then
        op (.sendNotification config
          (interpolate outside.words config.body
            (notificationContext hook result execution)))
      else
        return ()

/-- What every runner does between the last attempt and the barriers. -/
def notify (outside : Outside) (hook : HookConfig) (id : String)
    (result : ExecutionResult) : Async Unit :=
  match hook.notification with
  | none => return ()
  | some config => do
      match ← getById id with
      | .error _ => return ()
      | .ok execution =>
          sendNotification outside config hook result execution

end Sendword
