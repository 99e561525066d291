import Mathlib.Data.List.MinMax

/-!
# Database tables

The rows of the tables `executions`, `execution_locks`, `execution_queue`,
`trigger_attempts` and `rate_limit_counters`.  A column that holds the text
of `timestamp::now_utc` holds the milliseconds since the epoch instead: the
format has a fixed width, so text order and numeric order agree.
-/

namespace Sendword

/-- Milliseconds since the epoch. -/
abbrev Timestamp := Nat

inductive DbError where
  | sqlx
  | notFound (message : String)
  | conflict (message : String)
  deriving DecidableEq, Repr

abbrev DbResult (α : Type) := Except DbError α

inductive ExecutionStatus where
  | pending
  | pendingApproval
  | approved
  | rejected
  | expired
  | running
  | success
  | failed
  | timedOut
  deriving DecidableEq, Repr

def ExecutionStatus.text : ExecutionStatus → String
  | .pending => "pending"
  | .pendingApproval => "pending_approval"
  | .approved => "approved"
  | .rejected => "rejected"
  | .expired => "expired"
  | .running => "running"
  | .success => "success"
  | .failed => "failed"
  | .timedOut => "timed_out"

/-- Returns true if this status represents a terminal state. -/
def ExecutionStatus.isTerminal : ExecutionStatus → Bool
  | .success | .failed | .timedOut | .rejected | .expired => true
  | .pending | .pendingApproval | .approved | .running => false

structure Execution where
  id : String
  hookSlug : String
  triggeredAt : Timestamp
  startedAt : Option Timestamp := none
  completedAt : Option Timestamp := none
  status : ExecutionStatus := .pending
  exitCode : Option Int := none
  logPath : String
  triggerSource : String
  requestPayload : String
  retryCount : Nat := 0
  retryOf : Option String := none
  approvedAt : Option Timestamp := none
  approvedBy : Option String := none
  deriving DecidableEq, Repr

inductive TriggerAttemptStatus where
  | fired
  | authFailed
  | validationFailed
  | filtered
  | rateLimited
  | scheduleSkipped
  | cooldownSkipped
  | concurrencyRejected
  | pendingApproval
  deriving DecidableEq, Repr

structure TriggerAttempt where
  id : String
  hookSlug : String
  attemptedAt : Timestamp
  sourceIp : String
  status : TriggerAttemptStatus
  reason : String
  executionId : Option String
  deriving DecidableEq, Repr

/-- A row of `execution_locks`; the primary key is the slug. -/
structure LockRow where
  hookSlug : String
  executionId : String
  acquiredAt : Timestamp
  deriving DecidableEq, Repr

inductive QueueStatus where
  | waiting
  | ready
  | expired
  deriving DecidableEq, Repr

structure QueueRow where
  id : String
  hookSlug : String
  executionId : String
  position : Nat
  queuedAt : Timestamp
  status : QueueStatus := .waiting
  deriving DecidableEq, Repr

/-- A row of `rate_limit_counters`; `windowStart` is in whole seconds. -/
structure CounterRow where
  hookSlug : String
  windowStart : Int
  count : Int := 0
  deriving DecidableEq, Repr

structure Db where
  executions : List Execution := []
  locks : List LockRow := []
  queue : List QueueRow := []
  attempts : List TriggerAttempt := []
  counters : List CounterRow := []
  deriving DecidableEq, Repr

namespace Db

/-- The record with a given primary key. -/
def execution? (db : Db) (id : String) : Option Execution :=
  db.executions.find? fun row => row.id == id

/-- The execution that holds the lock of a hook. -/
def holder? (db : Db) (slug : String) : Option String :=
  (db.locks.find? fun row => row.hookSlug == slug).map (·.executionId)

/-- The waiting entries of a hook. -/
def waiting (db : Db) (slug : String) : List QueueRow :=
  db.queue.filter fun row =>
    row.hookSlug == slug && row.status == .waiting

end Db

end Sendword
