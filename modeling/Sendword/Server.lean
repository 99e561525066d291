import Sendword.Routes

/-!
# The server

The sweep that expires approvals, and the machine whose tasks are the
request handlers, the sweep and the detached runs.
-/

namespace Sendword

open Concurrency

variable (outside : Outside)

/-- The cutoff of the sweep in whole seconds.  A subtraction that falls below
the earliest instant panics and ends the pass. -/
def expiryCutoff (now : Instant) (timeout : Duration) : Option Int :=
  let cutoff := ((now : Int) - (chronoDuration timeout).getD 0) / 1000000000
  if cutoff < chronoMin then none else some cutoff

/-- One overdue execution of a hook. -/
def expireOne (hook : HookConfig) (id : String) : Async Unit := do
  match ← markExpired id with
  | .error _ => return ()
  | .ok () =>
      let _ ← expireForExecution id
      completeHolder hook.slug id hook.concurrency hook.approval

/-- The hooks of the configuration one after another. -/
def expireHooks (now : Instant) : List HookConfig → Async Unit
  | [] => return ()
  | hook :: hooks =>
      match hook.approval.bind (·.timeout) with
      | none => expireHooks now hooks
      | some timeout =>
          match expiryCutoff now timeout with
          | none => return ()
          | some cutoff => do
              let rows : DbResult (List String) ←
                sql (.execution (.selectOverdue hook.slug cutoff))
              Program.forEach (rows.toOption.getD []) (expireOne hook)
              expireHooks now hooks

def expirePendingApprovals : Async Unit := do
  let config ← loadConfig
  let now : Instant ← op .now
  expireHooks now config.hooks

/-- The code of each task. -/
def taskBody : Job → Async Response
  | .trigger request => triggerHook outside request
  | .approve id user => approveExecution outside id user
  | .reject id user => rejectExecution id user
  | .replay id => replayExecution outside id
  | .expirePendingApprovals => do
      expirePendingApprovals
      return .finished
  | .reloadConfig config => do
      op (.storeConfig config)
      return .finished
  | .runExecution context retries hook concurrency approval => do
      runExecution outside context retries hook concurrency approval
      return .finished
  | .runDequeued hookSlug executionId concurrency approval => do
      runDequeued outside hookSlug executionId concurrency approval
      return .finished

def server : Machine World Choice Job Op.Answer Response where
  body := taskBody outside
  perform := perform
  forks := forks

end Sendword
