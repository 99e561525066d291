import Sendword.Store.Tables

/-!
# SQL statements

Every statement of the pipeline, one constructor each, with its effect on the
tables and the rows it returns.  A statement is atomic.  It fails only on a
violated primary key or foreign key; faults of the database itself are added
where they matter.
-/

namespace Sendword

/-! ## `executions` -/

/-- The conditional `UPDATE` statements on `executions`. -/
inductive ExecutionUpdate where
  | markRunning (id : String) (startedAt : Timestamp)
  | markCompleted (id : String) (status : ExecutionStatus)
      (exitCode : Option Int) (completedAt : Timestamp)
  | incrementRetryCount (id : String)
  | resetToPending (id : String)
  | markApproved (id : String) (approvedBy : String)
      (approvedAt : Timestamp)
  | resetApproved (id : String)
  | markRejected (id : String) (rejectedBy : String)
      (completedAt : Timestamp)
  | markExpired (id : String) (completedAt : Timestamp)
  | markPendingApproval (id : String)
  | failRunning (completedAt : Timestamp)
  deriving DecidableEq, Repr

namespace ExecutionUpdate

/-- The `WHERE` clause. -/
def matches? : ExecutionUpdate → Execution → Bool
  | .markRunning id _, row => row.id == id && row.status == .pending
  | .markCompleted id .., row => row.id == id && row.status == .running
  | .incrementRetryCount id, row => row.id == id
  | .resetToPending id, row => row.id == id
  | .markApproved id .., row =>
      row.id == id && row.status == .pendingApproval
  | .resetApproved id, row => row.id == id && row.status == .approved
  | .markRejected id .., row =>
      row.id == id && row.status == .pendingApproval
  | .markExpired id _, row =>
      row.id == id && row.status == .pendingApproval
  | .markPendingApproval id, row => row.id == id && row.status == .pending
  | .failRunning _, row => row.status == .running

/-- The `SET` clause. -/
def set : ExecutionUpdate → Execution → Execution
  | .markRunning _ startedAt, row =>
      { row with status := .running, startedAt := some startedAt }
  | .markCompleted _ status exitCode completedAt, row =>
      { row with status, exitCode, completedAt := some completedAt }
  | .incrementRetryCount _, row =>
      { row with retryCount := row.retryCount + 1 }
  | .resetToPending _, row =>
      { row with
        status := .pending
        startedAt := none
        completedAt := none
        exitCode := none }
  | .markApproved _ approvedBy approvedAt, row =>
      { row with
        status := .approved
        approvedAt := some approvedAt
        approvedBy := some approvedBy }
  | .resetApproved _, row => { row with status := .pending }
  | .markRejected _ rejectedBy completedAt, row =>
      { row with
        status := .rejected
        completedAt := some completedAt
        approvedAt := some completedAt
        approvedBy := some rejectedBy }
  | .markExpired _ completedAt, row =>
      { row with status := .expired, completedAt := some completedAt }
  | .markPendingApproval _, row => { row with status := .pendingApproval }
  | .failRunning completedAt, row =>
      { row with status := .failed, completedAt := some completedAt }

def apply (update : ExecutionUpdate) (row : Execution) : Execution :=
  if update.matches? row then update.set row else row

theorem apply_of_matches {update : ExecutionUpdate} {row : Execution}
    (matched : update.matches? row = true) :
    update.apply row = update.set row :=
  if_pos matched

@[simp] theorem apply_id (update : ExecutionUpdate) (row : Execution) :
    (update.apply row).id = row.id := by
  unfold apply
  split
  · cases update <;> rfl
  · rfl

@[simp] theorem apply_hookSlug (update : ExecutionUpdate)
    (row : Execution) : (update.apply row).hookSlug = row.hookSlug := by
  unfold apply
  split
  · cases update <;> rfl
  · rfl

end ExecutionUpdate

inductive ExecutionStatement where
  | insert (row : Execution)
  | selectById (id : String)
  | update (change : ExecutionUpdate)
  | selectLatestStarted (slug : String)
  /-- Pending approvals of a hook triggered before a cutoff in seconds. -/
  | selectOverdue (slug : String) (cutoff : Int)
  deriving DecidableEq, Repr

/-- The text comparison `triggered_at < cutoff` of the sweep.  The column has
milliseconds and the cutoff has not, so the texts first differ at `.` against
`Z`, and `.` is the smaller: equal seconds count as before the cutoff. -/
def Timestamp.textBefore (timestamp : Timestamp) (cutoff : Int) : Bool :=
  decide (((timestamp / 1000 : Nat) : Int) ≤ cutoff)

namespace ExecutionStatement

abbrev Row : ExecutionStatement → Type
  | .insert _ => Unit
  | .selectById _ => Option Execution
  | .update _ => Nat
  | .selectLatestStarted _ => Option Execution
  | .selectOverdue .. => List String

def exec (db : Db) :
    (statement : ExecutionStatement) → DbResult statement.Row × Db
  | .insert row =>
      let duplicate := db.executions.any fun other => other.id == row.id
      let dangling := row.retryOf.any fun original =>
        !db.executions.any fun other => other.id == original
      if duplicate || dangling then
        (.error .sqlx, db)
      else
        (.ok (), { db with executions := db.executions ++ [row] })
  | .selectById id => (.ok (db.execution? id), db)
  | .update change =>
      (.ok (db.executions.countP change.matches?),
        { db with executions := db.executions.map change.apply })
  | .selectLatestStarted slug =>
      (.ok ((db.executions.filter fun row =>
          row.hookSlug == slug && row.startedAt.isSome).argmax
            fun row => row.startedAt.getD 0), db)
  | .selectOverdue slug cutoff =>
      (.ok ((db.executions.filter fun row =>
          row.hookSlug == slug && row.status == .pendingApproval &&
            row.triggeredAt.textBefore cutoff).map (·.id)), db)

end ExecutionStatement

/-! ## `execution_locks` -/

inductive LockStatement where
  | insertOrIgnore (slug executionId : String) (acquiredAt : Timestamp)
  | delete (slug : String)
  | update (slug executionId : String) (acquiredAt : Timestamp)
  | selectHolder (slug : String)
  | deleteTerminal
  deriving DecidableEq, Repr

namespace LockStatement

abbrev Row : LockStatement → Type
  | .insertOrIgnore .. => Nat
  | .delete _ => Nat
  | .update .. => Nat
  | .selectHolder _ => Option String
  | .deleteTerminal => Nat

/-- The lock rows `recover_barriers` removes: the holder has ended. -/
def terminalHolder (db : Db) (row : LockRow) : Bool :=
  db.executions.any fun execution =>
    execution.id == row.executionId && execution.status.isTerminal

def exec (db : Db) : (statement : LockStatement) → DbResult statement.Row × Db
  | .insertOrIgnore slug executionId acquiredAt =>
      if db.locks.any fun row => row.hookSlug == slug then
        (.ok (0 : Nat), db)
      else
        (.ok (1 : Nat),
          { db with locks :=
              db.locks ++ [{ hookSlug := slug, executionId, acquiredAt }] })
  | .delete slug =>
      (.ok (db.locks.countP fun row => row.hookSlug == slug),
        { db with locks := db.locks.filter fun row => row.hookSlug != slug })
  | .update slug executionId acquiredAt =>
      (.ok (db.locks.countP fun row => row.hookSlug == slug),
        { db with locks := db.locks.map fun row =>
            if row.hookSlug == slug then
              { row with executionId, acquiredAt }
            else row })
  | .selectHolder slug => (.ok (db.holder? slug), db)
  | .deleteTerminal =>
      (.ok (db.locks.countP (terminalHolder db)),
        { db with locks := db.locks.filter fun row => !terminalHolder db row })

end LockStatement

/-! ## `execution_queue` -/

/-- The conditional `UPDATE` statements on `execution_queue`. -/
inductive QueueUpdate where
  | markReady (id : String)
  | expireForExecution (executionId : String)
  deriving DecidableEq, Repr

namespace QueueUpdate

def matches? : QueueUpdate → QueueRow → Bool
  | .markReady id, row => row.id == id && row.status == .waiting
  | .expireForExecution executionId, row =>
      row.executionId == executionId && row.status == .waiting

def set : QueueUpdate → QueueRow → QueueRow
  | .markReady _, row => { row with status := .ready }
  | .expireForExecution _, row => { row with status := .expired }

def apply (update : QueueUpdate) (row : QueueRow) : QueueRow :=
  if update.matches? row then update.set row else row

end QueueUpdate

inductive QueueStatement where
  | enqueue (id slug executionId : String) (queuedAt : Timestamp)
  | selectPosition (id : String)
  | peekNext (slug : String)
  | countWaiting (slug : String)
  | update (change : QueueUpdate)
  | expireStale
  deriving DecidableEq, Repr

namespace QueueStatement

abbrev Row : QueueStatement → Type
  | .enqueue .. => Unit
  | .selectPosition _ => Option Nat
  | .peekNext _ => Option QueueRow
  | .countWaiting _ => Nat
  | .update _ => Nat
  | .expireStale => Nat

/-- `COALESCE(MAX(position), 0) + 1` over all entries of the hook. -/
def nextPosition (db : Db) (slug : String) : Nat :=
  ((db.queue.filter fun row => row.hookSlug == slug).map
    (·.position)).foldl max 0 + 1

/-- The entries `recover_barriers` expires: waiting for an execution that
was rejected, expired or failed. -/
def stale (db : Db) (row : QueueRow) : Bool :=
  row.status == .waiting && db.executions.any fun execution =>
    execution.id == row.executionId &&
      (execution.status == .rejected || execution.status == .expired ||
        execution.status == .failed)

def exec (db : Db) :
    (statement : QueueStatement) → DbResult statement.Row × Db
  | .enqueue id slug executionId queuedAt =>
      let duplicate := db.queue.any fun row => row.id == id
      let dangling := !db.executions.any fun row => row.id == executionId
      if duplicate || dangling then
        (.error .sqlx, db)
      else
        (.ok (), { db with queue := db.queue ++ [
          { id, hookSlug := slug, executionId
            position := nextPosition db slug
            queuedAt }] })
  | .selectPosition id =>
      (.ok ((db.queue.find? fun row => row.id == id).map (·.position)), db)
  | .peekNext slug =>
      (.ok ((db.waiting slug).argmin fun row => row.position), db)
  | .countWaiting slug => (.ok (db.waiting slug).length, db)
  | .update change =>
      (.ok (db.queue.countP change.matches?),
        { db with queue := db.queue.map change.apply })
  | .expireStale =>
      (.ok (db.queue.countP (stale db)),
        { db with queue := db.queue.map fun row =>
            if stale db row then { row with status := .expired } else row })

end QueueStatement

/-! ## `trigger_attempts` and `rate_limit_counters` -/

inductive AttemptStatement where
  | insert (row : TriggerAttempt)
  | selectById (id : String)
  deriving DecidableEq, Repr

namespace AttemptStatement

abbrev Row : AttemptStatement → Type
  | .insert _ => Unit
  | .selectById _ => Option TriggerAttempt

def exec (db : Db) :
    (statement : AttemptStatement) → DbResult statement.Row × Db
  | .insert row =>
      let duplicate := db.attempts.any fun other => other.id == row.id
      let dangling := row.executionId.any fun execution =>
        !db.executions.any fun other => other.id == execution
      if duplicate || dangling then
        (.error .sqlx, db)
      else
        (.ok (), { db with attempts := db.attempts ++ [row] })
  | .selectById id =>
      (.ok (db.attempts.find? fun row => row.id == id), db)

end AttemptStatement

inductive CounterStatement where
  | insertOrIgnore (slug : String) (windowStart : Int)
  | increment (slug : String) (windowStart limit : Int)
  | deleteBefore (cutoff : Int)
  deriving DecidableEq, Repr

namespace CounterStatement

abbrev Row : CounterStatement → Type := fun _ => Nat

/-- The `WHERE` clause of the conditional increment. -/
def below (slug : String) (windowStart limit : Int)
    (row : CounterRow) : Bool :=
  row.hookSlug == slug && row.windowStart == windowStart &&
    decide (row.count < limit)

def exec (db : Db) :
    (statement : CounterStatement) → DbResult statement.Row × Db
  | .insertOrIgnore slug windowStart =>
      if db.counters.any fun row =>
          row.hookSlug == slug && row.windowStart == windowStart then
        (.ok (0 : Nat), db)
      else
        (.ok (1 : Nat),
          { db with counters :=
              db.counters ++ [{ hookSlug := slug, windowStart }] })
  | .increment slug windowStart limit =>
      (.ok (db.counters.countP (below slug windowStart limit)),
        { db with counters := db.counters.map fun row =>
            if below slug windowStart limit row then
              { row with count := row.count + 1 }
            else row })
  | .deleteBefore cutoff =>
      (.ok (db.counters.countP fun row => decide (row.windowStart < cutoff)),
        { db with counters := db.counters.filter fun row =>
            !decide (row.windowStart < cutoff) })

end CounterStatement

/-! ## All statements -/

inductive Statement where
  | execution (statement : ExecutionStatement)
  | lock (statement : LockStatement)
  | queue (statement : QueueStatement)
  | attempt (statement : AttemptStatement)
  | counter (statement : CounterStatement)
  deriving DecidableEq, Repr

namespace Statement

abbrev Row : Statement → Type
  | .execution statement => statement.Row
  | .lock statement => statement.Row
  | .queue statement => statement.Row
  | .attempt statement => statement.Row
  | .counter statement => statement.Row

def exec (db : Db) : (statement : Statement) → DbResult statement.Row × Db
  | .execution statement => statement.exec db
  | .lock statement => statement.exec db
  | .queue statement => statement.exec db
  | .attempt statement => statement.exec db
  | .counter statement => statement.exec db

end Statement

end Sendword
