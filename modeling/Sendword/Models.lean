import Sendword.Async

/-!
# Query functions

The functions of `models::execution` and `models::trigger_attempt`, and of
`barriers::execution_lock` and `barriers::execution_queue`.
-/

namespace Sendword

open Concurrency

/-! ## `models::execution` -/

/-- Parameters for creating a new execution. -/
structure NewExecution where
  id : Option String
  hookSlug : String
  logPath : String
  triggerSource : String
  requestPayload : String
  retryOf : Option String := none
  status : Option ExecutionStatus := none

/-- The row of a new execution. -/
def NewExecution.record (new : NewExecution) (id : String)
    (triggeredAt : Timestamp) : Execution :=
  { id
    hookSlug := new.hookSlug
    triggeredAt
    status := new.status.getD .pending
    logPath := new.logPath
    triggerSource := new.triggerSource
    requestPayload := new.requestPayload
    retryOf := new.retryOf }

/-- Fetch a single execution by primary key. -/
def getById (id : String) : Async (DbResult Execution) := do
  let row ← sql (.execution (.selectById id))
  return match row with
  | .error error => .error error
  | .ok none => .error (.notFound s!"execution {id}")
  | .ok (some execution) => .ok execution

/-- Insert a new execution with `pending` status. Returns the created
record. -/
def create (new : NewExecution) : Async (DbResult Execution) := do
  let id : String ← match new.id with
    | some id => pure id
    | none => newId
  let triggeredAt ← nowUtc
  let inserted ← sql (.execution (.insert (new.record id triggeredAt)))
  match inserted with
  | .error error => return .error error
  | .ok () => getById id

/-- What `create` does once it has an id. -/
def recordAs (new : NewExecution) (id : String) :
    Async (DbResult Execution) := do
  let triggeredAt ← nowUtc
  let inserted ← sql (.execution (.insert (new.record id triggeredAt)))
  match inserted with
  | .error error => return .error error
  | .ok () => getById id

/-- The result of a conditional `UPDATE`: no row is a conflict. -/
def expectRow (id status : String) (rows : DbResult Nat) : DbResult Unit :=
  match rows with
  | .error error => .error error
  | .ok 0 =>
      .error (.conflict s!"execution {id} is not in {status} status")
  | .ok (_ + 1) => .ok ()

/-- Transition an execution from pending to running. -/
def markRunning (id : String) : Async (DbResult Unit) := do
  let startedAt ← nowUtc
  let rows ← sql (.execution (.update (.markRunning id startedAt)))
  return expectRow id "pending" rows

/-- Transition an execution from running to a terminal status. -/
def markCompleted (id : String) (status : ExecutionStatus)
    (exitCode : Option Int) : Async (DbResult Unit) := do
  let completedAt ← nowUtc
  let rows ← sql (.execution (.update
    (.markCompleted id status exitCode completedAt)))
  return expectRow id "running" rows

/-- Get the most recent execution for a hook that has actually started. -/
def getLatestStartedByHook (hookSlug : String) :
    Async (DbResult (Option Execution)) :=
  sql (.execution (.selectLatestStarted hookSlug))

/-- Increment the retry count for an execution. -/
def incrementRetryCount (id : String) : Async (DbResult Unit) := do
  let rows ← sql (.execution (.update (.incrementRetryCount id)))
  return rows.map fun _ => ()

/-- Transition pending_approval -> approved, recording who approved and
when. -/
def markApproved (id approvedBy : String) : Async (DbResult Execution) := do
  let approvedAt ← nowUtc
  let rows ← sql (.execution (.update
    (.markApproved id approvedBy approvedAt)))
  match expectRow id "pending_approval" rows with
  | .error error => return .error error
  | .ok () => getById id

/-- Transition pending_approval -> rejected. -/
def markRejected (id rejectedBy : String) : Async (DbResult Execution) := do
  let completedAt ← nowUtc
  let rows ← sql (.execution (.update
    (.markRejected id rejectedBy completedAt)))
  match expectRow id "pending_approval" rows with
  | .error error => return .error error
  | .ok () => getById id

/-- Transition pending_approval -> expired (for timeout sweep).  Unlike its
siblings it does not look at the number of changed rows. -/
def markExpired (id : String) : Async (DbResult Unit) := do
  let completedAt ← nowUtc
  let rows ← sql (.execution (.update (.markExpired id completedAt)))
  return rows.map fun _ => ()

/-- Transition pending -> pending_approval (for queued items that reach the
front and need approval). -/
def markPendingApproval (id : String) : Async (DbResult Unit) := do
  let rows ← sql (.execution (.update (.markPendingApproval id)))
  return expectRow id "pending" rows

/-! ## `models::trigger_attempt` -/

/-- Parameters for inserting a new trigger attempt. -/
structure NewTriggerAttempt where
  hookSlug : String
  sourceIp : String
  status : TriggerAttemptStatus
  reason : String
  executionId : Option String

/-- Insert a new trigger attempt. Returns the created record. -/
def insertAttempt (new : NewTriggerAttempt) :
    Async (DbResult TriggerAttempt) := do
  let id ← newId
  let attemptedAt ← nowUtc
  let inserted ← sql (.attempt (.insert
    { id
      hookSlug := new.hookSlug
      attemptedAt
      sourceIp := new.sourceIp
      status := new.status
      reason := new.reason
      executionId := new.executionId }))
  match inserted with
  | .error error => return .error error
  | .ok () =>
      let row ← sql (.attempt (.selectById id))
      return match row with
      | .error error => .error error
      | .ok none => .error (.notFound s!"trigger_attempt {id}")
      | .ok (some attempt) => .ok attempt

/-! ## `barriers::execution_lock` -/

/-- Attempt to acquire an execution lock for a hook. Returns true if the
lock was acquired, false if another execution holds it. -/
def tryAcquire (hookSlug executionId : String) : Async (DbResult Bool) := do
  let acquiredAt ← nowUtc
  let rows ← sql (.lock (.insertOrIgnore hookSlug executionId acquiredAt))
  return rows.map fun (affected : Nat) => affected == 1

/-- Release the execution lock for a hook. -/
def release (hookSlug : String) : Async (DbResult Unit) := do
  let rows ← sql (.lock (.delete hookSlug))
  return rows.map fun _ => ()

/-- Hand off the lock atomically to a new execution without releasing it. -/
def handOff (hookSlug nextExecutionId : String) : Async (DbResult Unit) := do
  let acquiredAt ← nowUtc
  let rows ← sql (.lock (.update hookSlug nextExecutionId acquiredAt))
  return rows.map fun _ => ()

/-- Get the execution_id currently holding the lock for a hook, if any. -/
def getHolder (hookSlug : String) : Async (DbResult (Option String)) :=
  sql (.lock (.selectHolder hookSlug))

/-! ## `barriers::execution_queue` -/

/-- Enqueue an execution for a hook. Returns the assigned position. -/
def enqueue (hookSlug executionId : String) : Async (DbResult Nat) := do
  let id ← newId
  let queuedAt ← nowUtc
  let inserted ← sql (.queue (.enqueue id hookSlug executionId queuedAt))
  match inserted with
  | .error error => return .error error
  | .ok () =>
      let row ← sql (.queue (.selectPosition id))
      return match row with
      | .error error => .error error
      | .ok none => .error .sqlx
      | .ok (some position) => .ok position

/-- Peek at the next waiting entry for a hook without changing its
status. -/
def peekNext (hookSlug : String) : Async (DbResult (Option QueueRow)) :=
  sql (.queue (.peekNext hookSlug))

/-- Transition a queue entry from 'waiting' to 'ready'. -/
def markReady (queueEntryId : String) : Async (DbResult Unit) := do
  let rows ← sql (.queue (.update (.markReady queueEntryId)))
  return rows.map fun _ => ()

/-- Count waiting entries for a hook. -/
def countWaiting (hookSlug : String) : Async (DbResult Nat) :=
  sql (.queue (.countWaiting hookSlug))

/-- Expire the queue entry for a specific execution. -/
def expireForExecution (executionId : String) : Async (DbResult Unit) := do
  let rows ← sql (.queue (.update (.expireForExecution executionId)))
  return rows.map fun _ => ()

end Sendword
