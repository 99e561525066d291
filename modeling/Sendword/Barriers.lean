import Sendword.Executor

/-!
# Execution barriers

The concurrency barrier, the completion handler that hands the lock on or
releases it, the task of a dequeued execution, and the recovery pass that
runs before the server accepts requests.
-/

namespace Sendword

open Concurrency

/-- Returns true if the hook config requires human approval before
execution. -/
def requiresApproval (approval : Option ApprovalConfig) : Bool :=
  approval.any (·.required)

/-- Outcome of an execution barrier check. -/
inductive BarrierOutcome where
  /-- Execution proceeds immediately. -/
  | proceed
  /-- Request is rejected -- no execution record created. -/
  | reject (status : TriggerAttemptStatus) (reason : String)
  /-- Execution is deferred -- record created but not run yet. -/
  | defer (executionId : String) (status : ExecutionStatus)
      (reason : String)
  deriving DecidableEq, Repr

def rejectConcurrency (reason : String) : BarrierOutcome :=
  .reject .concurrencyRejected reason

/-- Evaluate concurrency barriers for a hook. -/
def evaluate (hookSlug execId : String) (config : ConcurrencyConfig)
    (newExec : NewExecution) : Async BarrierOutcome := do
  match ← tryAcquire hookSlug execId with
  | .error _ => return rejectConcurrency "internal error acquiring lock"
  | .ok true => return .proceed
  | .ok false =>
  match config.mode with
  | .mutex => return rejectConcurrency "another execution is in progress"
  | .queue =>
  match ← countWaiting hookSlug with
  | .error _ => return rejectConcurrency "internal error checking queue"
  | .ok count =>
  if config.queueDepth ≤ count then
    return rejectConcurrency s!"queue full ({count}/{config.queueDepth})"
  else
  -- the foreign key of the queue requires the record first
  match ← create newExec with
  | .error _ =>
      return rejectConcurrency "internal error creating queued execution"
  | .ok _ =>
  match ← enqueue hookSlug execId with
  | .error _ =>
      return rejectConcurrency "internal error enqueueing execution"
  | .ok position =>
      return .defer execId .pending s!"queued at position {position}"

/-- Called when an execution reaches a terminal state. Hands off the lock to
the next queued execution (if any) or releases it. -/
def onExecutionComplete (hookSlug : String)
    (concurrency : Option ConcurrencyConfig)
    (approval : Option ApprovalConfig) : Async Unit := do
  match concurrency with
  | none => let _ ← release hookSlug
  | some config =>
      if config.mode ≠ .queue then
        let _ ← release hookSlug
      else
        let next ← peekNext hookSlug
        match next.toOption.join with
        | none => let _ ← release hookSlug
        | some queued =>
            match ← handOff hookSlug queued.executionId with
            | .error _ => return ()
            | .ok () =>
                let _ ← markReady queued.id
                if requiresApproval approval then
                  let _ ← markPendingApproval queued.executionId
                else
                  spawn (.runDequeued hookSlug queued.executionId concurrency
                    approval)

/-- The end of `reject_execution` and of an expiry: if this execution held
the lock, hand off or release. -/
def completeHolder (hookSlug id : String)
    (concurrency : Option ConcurrencyConfig)
    (approval : Option ApprovalConfig) : Async Unit := do
  let holder ← getHolder hookSlug
  if holder.toOption.join = some id then
    onExecutionComplete hookSlug concurrency approval

/-- The context of a run of a recorded execution, as `run_dequeued`,
`approve_execution` and `replay_execution` build it. -/
def contextOf (outside : Outside) (config : AppConfig) (hook : HookConfig)
    (executionId hookSlug payload : String) : ExecutionContext :=
  { executionId
    hookSlug
    executor := resolveExecutor outside hook.executor payload
    env := hook.env
    cwd := hook.cwd
    timeout := hook.timeout.getD config.defaults.timeout
    logsDir := config.logs.dir
    payloadJson := payload }

/-- Run a dequeued execution to completion, then hand off to the next queue
item. -/
def runDequeued (outside : Outside) (hookSlug executionId : String)
    (concurrency : Option ConcurrencyConfig)
    (approval : Option ApprovalConfig) : Async Unit := do
  match ← getById executionId with
  | .error _ => let _ ← release hookSlug
  | .ok exec =>
      let config ← loadConfig
      match config.hook? hookSlug with
      | none => let _ ← release hookSlug
      | some hook =>
          let context := contextOf outside config hook exec.id exec.hookSlug
            exec.requestPayload
          let retries := resolveRetryConfig hook config.defaults.retries
          let result ← runWithRetries context retries
          notify outside hook exec.id result
          onExecutionComplete hookSlug concurrency approval

/-- The detached task of `trigger_hook`, `approve_execution` and
`replay_execution`; a replay passes no concurrency and so ends without
touching the barriers. -/
def runExecution (outside : Outside) (context : ExecutionContext)
    (retries : EffectiveRetryConfig) (hook : HookConfig)
    (concurrency : Option ConcurrencyConfig)
    (approval : Option ApprovalConfig) : Async Unit := do
  let result ← runWithRetries context retries
  notify outside hook context.executionId result
  if concurrency.isSome then
    onExecutionComplete context.hookSlug concurrency approval

/-- Clean up stale barrier state on server startup. -/
def recoverBarriers : Async Unit := do
  let now ← nowUtc
  let _ ← sql (.execution (.update (.failRunning now)))
  let _ ← sql (.lock .deleteTerminal)
  let _ ← sql (.queue .expireStale)

end Sendword
