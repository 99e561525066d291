import Sendword.Concurrency.Amid
import Sendword.Footprint
import Sendword.Sequential

/-!
# The record of an attempt

What `executor::run` makes of the record of its execution, while other tasks
work on other records.
-/

namespace Sendword

open Concurrency

/-- The records with a given primary key. -/
def recordsOf (id : String) (world : World) : List Execution :=
  world.db.executions.filter fun row => row.id == id

/-- A run among tasks that leave the records of one execution alone. -/
abbrev RunsAmong {α : Type} (id : String) (program : Async α)
    (world : World) (trace : List (Event Op.Answer)) (value : α)
    (after : World) : Prop :=
  Runs (amid (recordsOf id) perform) program world trace value after

variable {id : String} {world after : World}
  {trace : List (Event Op.Answer)} {record : Execution}

/-! ## One operation -/

theorem among_op {operation : Op} {answer : operation.Answer} :
    RunsAmong id (op operation) world trace answer after ↔
      trace = [⟨operation, answer⟩] ∧ ∃ choice,
        amid (recordsOf id) perform operation choice world =
          some (answer, after) :=
  runs_single

theorem among_bind {α β : Type} {program : Async α} {rest : α → Async β}
    {result : β} :
    RunsAmong id (program >>= rest) world trace result after ↔
      ∃ first value middle second, trace = first ++ second ∧
        RunsAmong id program world first value middle ∧
        RunsAmong id (rest value) middle second result after :=
  runs_bind

theorem among_return {α : Type} {value result : α} :
    RunsAmong id (return value) world trace result after ↔
      trace = [] ∧ result = value ∧ after = world :=
  runs_pure

/-- Only statements change records. -/
theorem among_quiet {operation : Op} {answer : operation.Answer}
    (quiet : ∀ db, operation.db db = db)
    (runs : RunsAmong id (op operation) world trace answer after) :
    trace = [⟨operation, answer⟩] ∧ recordsOf id after = recordsOf id world := by
  obtain ⟨rfl, choice, performed⟩ := among_op.mp runs
  refine ⟨rfl, amid_part (fun before _ left => left = before) ?_ performed⟩
  intro choice before answer final performed
  rw [recordsOf, perform_db performed, quiet, recordsOf]

theorem among_nowUtc {time : Timestamp}
    (runs : RunsAmong id nowUtc world trace time after) :
    (∃ instant, trace = [⟨.now, instant⟩]) ∧
      recordsOf id after = recordsOf id world := by
  obtain ⟨_, instant, middle, _, rfl, clock, ended⟩ := among_bind.mp runs
  obtain ⟨rfl, rfl, rfl⟩ := among_return.mp ended
  obtain ⟨rfl, same⟩ := among_quiet (fun _ => rfl) clock
  exact ⟨⟨instant, rfl⟩, same⟩

/-- An `UPDATE` of the records with one key. -/
theorem among_update {change : ExecutionUpdate} {rows : DbResult Nat}
    (about : ∀ row, change.matches? row = true → row.id = id)
    (there : recordsOf id world = [record])
    (runs : RunsAmong id (sql (.execution (.update change))) world trace rows
      after) :
    trace = [⟨.sql (.execution (.update change)), rows⟩] ∧
      rows = .ok (if change.matches? record then 1 else 0) ∧
      recordsOf id after = [change.apply record] := by
  obtain ⟨rfl, choice, performed⟩ := among_op.mp runs
  let follows (before : List Execution) (rows : DbResult Nat)
      (left : List Execution) : Prop :=
    ∀ record, before = [record] →
      rows = .ok (if change.matches? record then 1 else 0) ∧
        left = [change.apply record]
  have acts : follows (recordsOf id world) rows (recordsOf id after) :=
    amid_part follows ?_ performed
  · exact ⟨rfl, acts record there⟩
  intro choice before answer final performed record alone
  cases performed
  have counted : before.db.executions.countP change.matches? =
      [record].countP change.matches? := by
    rw [← alone, recordsOf, List.countP_filter]
    refine List.countP_congr fun row _ => ?_
    have sameKey := about row
    grind
  have mapped : recordsOf id { before with db := { before.db with
      executions := before.db.executions.map change.apply } } =
      [record].map change.apply := by
    rw [← alone, recordsOf, recordsOf, List.filter_map]
    congr 1
    exact List.filter_congr fun row _ => by simp
  refine ⟨?_, mapped⟩
  exact (congrArg Except.ok counted).trans (by simp [List.countP_cons])

/-! ## One attempt -/

/-- What can be seen of the retry loop: the attempts and the waits. -/
inductive Beat where
  | attempt (outcome : ExecutionResult)
  | wait (delay : Duration)
  deriving DecidableEq, Repr

def beat? : Event Op.Answer → Option Beat
  | ⟨.runProcess _, outcome⟩ => some (.attempt (ProcessOutcome.result outcome))
  | ⟨.sendRequest _, outcome⟩ => some (.attempt (HttpOutcome.result outcome))
  | ⟨.sleep _ delay, _⟩ => some (.wait delay)
  | _ => none

def beats (trace : List (Event Op.Answer)) : List Beat :=
  trace.filterMap beat?

@[simp] theorem beats_append (first second : List (Event Op.Answer)) :
    beats (first ++ second) = beats first ++ beats second :=
  List.filterMap_append

/-- The log directory or one of its files could not be made. -/
def logFilesMissing : Event Op.Answer → Bool
  | ⟨.prepareLogFiles _, made⟩ => !made
  | _ => false

/-- All log files could be made. -/
def LogFilesMade (trace : List (Event Op.Answer)) : Prop :=
  ∀ event ∈ trace, logFilesMissing event = false

@[simp] theorem logFilesMade_nil : LogFilesMade [] :=
  fun _ member => (List.not_mem_nil member).elim

@[simp] theorem logFilesMade_cons {event : Event Op.Answer}
    {trace : List (Event Op.Answer)} :
    LogFilesMade (event :: trace) ↔
      logFilesMissing event = false ∧ LogFilesMade trace :=
  List.forall_mem_cons

@[simp] theorem logFilesMade_append {first second : List (Event Op.Answer)} :
    LogFilesMade (first ++ second) ↔
      LogFilesMade first ∧ LogFilesMade second :=
  List.forall_mem_append

/-- The record of an attempt that has ended. -/
def Execution.ended (record : Execution) (result : ExecutionResult)
    (startedAt completedAt : Timestamp) : Execution :=
  { record with
    status := result.status
    exitCode := result.exitCode
    startedAt := some startedAt
    completedAt := some completedAt }

/-- What an attempt on a pending record comes to. -/
inductive Attempted (record : Execution) (trace : List (Event Op.Answer))
    (result : ExecutionResult) (left : List Execution) : Prop where
  | ran (startedAt completedAt : Timestamp) :
      LogFilesMade trace →
      result.status.isTerminal = true →
      beats trace = [.attempt result] →
      left = [record.ended result startedAt completedAt] →
      Attempted record trace result left
  | noLogFiles :
      ¬ LogFilesMade trace →
      beats trace = [] →
      result = { status := .failed, exitCode := none } →
      left = [record] →
      Attempted record trace result left

theorem id_of_recordsOf (there : recordsOf id world = [record]) :
    record.id = id := by
  have member : record ∈ recordsOf id world := by simp [there]
  simpa [recordsOf] using (List.mem_filter.mp member).2

/-- The transitions of a record that note the time. -/
theorem among_transition {status : String}
    {change : Timestamp → ExecutionUpdate} {result : DbResult Unit}
    (about : ∀ time row, (change time).matches? row = true → row.id = id)
    (matched : ∀ time, (change time).matches? record = true)
    (there : recordsOf id world = [record])
    (runs : RunsAmong id (do
      let time ← nowUtc
      let rows ← sql (.execution (.update (change time)))
      return expectRow id status rows) world trace result after) :
    result = .ok () ∧ beats trace = [] ∧ LogFilesMade trace ∧
      ∃ time, recordsOf id after = [(change time).set record] := by
  obtain ⟨_, time, clocked, _, rfl, clock, later⟩ := among_bind.mp runs
  obtain ⟨_, rows, stored, _, rfl, updates, ended⟩ := among_bind.mp later
  obtain ⟨rfl, rfl, rfl⟩ := among_return.mp ended
  obtain ⟨⟨instant, rfl⟩, same⟩ := among_nowUtc clock
  obtain ⟨rfl, answered, left⟩ :=
    among_update (about time) (same.trans there) updates
  rw [if_pos (matched time)] at answered
  rw [ExecutionUpdate.apply_of_matches (matched time)] at left
  refine ⟨by rw [answered]; rfl, rfl, ?_, time, left⟩
  simp [logFilesMissing]

theorem among_markRunning {result : DbResult Unit}
    (there : recordsOf id world = [record])
    (pending : record.status = .pending)
    (runs : RunsAmong id (markRunning id) world trace result after) :
    result = .ok () ∧ beats trace = [] ∧ LogFilesMade trace ∧
      ∃ startedAt, recordsOf id after = [{ record with
        status := .running
        startedAt := some startedAt }] := by
  refine among_transition ?_ ?_ there runs
  · intro time row hit
    simp only [ExecutionUpdate.matches?, Bool.and_eq_true, beq_iff_eq] at hit
    exact hit.1
  · intro time
    simp [ExecutionUpdate.matches?, id_of_recordsOf there, pending]

theorem among_markCompleted {status : ExecutionStatus}
    {exitCode : Option Int} {result : DbResult Unit}
    (there : recordsOf id world = [record])
    (running : record.status = .running)
    (runs : RunsAmong id (markCompleted id status exitCode) world trace result
      after) :
    result = .ok () ∧ beats trace = [] ∧ LogFilesMade trace ∧
      ∃ completedAt, recordsOf id after = [{ record with
        status
        exitCode
        completedAt := some completedAt }] := by
  refine among_transition ?_ ?_ there runs
  · intro time row hit
    simp only [ExecutionUpdate.matches?, Bool.and_eq_true, beq_iff_eq] at hit
    exact hit.1
  · intro time
    simp [ExecutionUpdate.matches?, id_of_recordsOf there, running]

/-- The command of an attempt is one operation, and its answer is the
result. -/
structure Commands (command : Async ExecutionResult) : Prop where
  shown : ∀ id world trace result after,
    RunsAmong id command world trace result after →
    result.status.isTerminal = true ∧ beats trace = [.attempt result] ∧
      LogFilesMade trace ∧ recordsOf id after = recordsOf id world

theorem runProcess_commands (context : ExecutionContext) :
    Commands (do
      let outcome : ProcessOutcome ← op (.runProcess context)
      return outcome.result) where
  shown id world trace result after runs := by
    obtain ⟨_, outcome, middle, _, rfl, command, ended⟩ := among_bind.mp runs
    obtain ⟨rfl, rfl, rfl⟩ := among_return.mp ended
    obtain ⟨rfl, same⟩ := among_quiet (fun _ => rfl) command
    refine ⟨?_, rfl, by simp [logFilesMissing], same⟩
    rcases ProcessOutcome.result_status outcome with is | is | is <;>
      rw [is] <;> rfl

theorem sendRequest_commands (context : ExecutionContext) :
    Commands (do
      let outcome : HttpOutcome ← op (.sendRequest context)
      return outcome.result) where
  shown id world trace result after runs := by
    obtain ⟨_, outcome, middle, _, rfl, command, ended⟩ := among_bind.mp runs
    obtain ⟨rfl, rfl, rfl⟩ := among_return.mp ended
    obtain ⟨rfl, same⟩ := among_quiet (fun _ => rfl) command
    refine ⟨?_, rfl, by simp [logFilesMissing], same⟩
    rcases HttpOutcome.result_status outcome with is | is | is <;>
      rw [is] <;> rfl

theorem among_runCommand {context : ExecutionContext}
    {command : Async ExecutionResult} {result : ExecutionResult}
    (commands : Commands command)
    (there : recordsOf context.executionId world = [record])
    (pending : record.status = .pending)
    (runs : RunsAmong context.executionId (runCommand context command) world
      trace result after) :
    Attempted record trace result
      (recordsOf context.executionId after) := by
  obtain ⟨_, made, prepared, _, rfl, prepares, later⟩ := among_bind.mp runs
  obtain ⟨rfl, same⟩ := among_quiet (fun _ => rfl) prepares
  have there := same.trans there
  cases made with
  | false =>
      obtain ⟨rfl, rfl, rfl⟩ := among_return.mp later
      refine .noLogFiles ?_ rfl rfl there
      simp [logFilesMissing]
  | true =>
      obtain ⟨_, marked, started, _, rfl, marks, rest⟩ :=
        among_bind.mp later
      obtain ⟨rfl, quiet, made, startedAt, there⟩ :=
        among_markRunning there pending marks
      obtain ⟨_, outcome, ran, _, rfl, command, completes⟩ :=
        among_bind.mp rest
      obtain ⟨ends, shown, madeToo, same⟩ := commands.shown _ _ _ _ _ command
      obtain ⟨_, completed, done, _, rfl, stores, ended⟩ :=
        among_bind.mp completes
      obtain ⟨-, silent, madeStill, completedAt, left⟩ :=
        among_markCompleted (same.trans there) rfl stores
      obtain ⟨rfl, rfl, rfl⟩ := among_return.mp ended
      refine .ran startedAt completedAt ?_ ends ?_ left
      · simp [logFilesMissing, made, madeToo, madeStill]
      · simp only [beats_append, quiet, shown, silent]
        rfl

/-- `executor::run` on a pending record, for every kind of executor. -/
theorem among_runExecutor {context : ExecutionContext}
    {result : ExecutionResult}
    (there : recordsOf context.executionId world = [record])
    (pending : record.status = .pending)
    (runs : RunsAmong context.executionId (runExecutor context) world trace
      result after) :
    Attempted record trace result
      (recordsOf context.executionId after) := by
  unfold runExecutor at runs
  cases kind : context.executor with
  | shell command =>
      rw [kind] at runs
      exact among_runCommand (runProcess_commands context) there pending runs
  | script path runtime =>
      rw [kind] at runs
      exact among_runCommand (runProcess_commands context) there pending runs
  | http method url headers body followRedirects =>
      rw [kind] at runs
      exact among_runCommand (sendRequest_commands context) there pending runs

/-! ## The record and the result -/

/-- The record of an execution is that of a run with this result. -/
def RecordedResult (id : String) (result : ExecutionResult) (world : World) :
    Prop :=
  ∃ record, recordsOf id world = [record] ∧
    record.status = result.status ∧ record.status.isTerminal = true ∧
    record.exitCode = result.exitCode ∧ record.completedAt.isSome = true

/-- The record of a pending execution matches what its runner returned,
exactly when the log files could be made. -/
theorem recorded_iff {context : ExecutionContext} {result : ExecutionResult}
    (there : recordsOf context.executionId world = [record])
    (pending : record.status = .pending)
    (runs : RunsAmong context.executionId (runExecutor context) world trace
      result after) :
    RecordedResult context.executionId result after ↔ LogFilesMade trace := by
  constructor
  · rintro ⟨final, alone, status, -⟩
    cases among_runExecutor there pending runs with
    | ran startedAt completedAt made => exact made
    | noLogFiles missing silent isFailed left =>
        obtain rfl : final = record := by
          rw [left] at alone
          exact (List.singleton_inj.mp alone).symm
        rw [pending, isFailed] at status
        cases status
  · intro made
    cases among_runExecutor there pending runs with
    | ran startedAt completedAt _ ends _ left =>
        exact ⟨_, left, rfl, ends, rfl, rfl⟩
    | noLogFiles missing => exact (missing made).elim

def makeContext : ExecutionContext where
  executionId := "first"
  hookSlug := "deploy"
  executor := .shell "make"
  env := []
  cwd := none
  timeout := 1000000000
  logsDir := "data/logs"
  payloadJson := "{}"

def pendingRecord : Execution where
  id := "first"
  hookSlug := "deploy"
  triggeredAt := 0
  logPath := "data/logs/first"
  triggerSource := "127.0.0.1"
  requestPayload := "{}"

/-- One pending execution. -/
def pendingWorld : World where
  db := { executions := [pendingRecord] }
  config := {}

/-- The command runs and succeeds. -/
def completeAttempt : List (Event Op.Answer) × ExecutionResult × World :=
  (play perform (runExecutor makeContext) [{}, {}, {}, {}, {}, {}]
    pendingWorld).get (by decide)

theorem recorded_iff_complete :
    RecordedResult "first" { status := .success, exitCode := some 0 }
        completeAttempt.2.2 ↔
      LogFilesMade completeAttempt.1 := by
  have played : play perform (runExecutor makeContext)
      [{}, {}, {}, {}, {}, {}] pendingWorld = some completeAttempt :=
    (Option.some_get _).symm
  have runs : RunsAmong makeContext.executionId (runExecutor makeContext)
      pendingWorld completeAttempt.1 completeAttempt.2.1
      completeAttempt.2.2 := (Runs.of_play played).amid
  exact recorded_iff rfl rfl runs

/-- The log directory cannot be made. -/
def refusedAttempt : List (Event Op.Answer) × ExecutionResult × World :=
  (play perform (runExecutor makeContext) [{ logFiles := false }]
    pendingWorld).get (by decide)

/-- The runner returns and the record is pending for ever. -/
theorem not_recorded :
    ¬ ∀ (context : ExecutionContext) (world after : World)
      (record : Execution) (trace : List (Event Op.Answer))
      (result : ExecutionResult),
      recordsOf context.executionId world = [record] →
      record.status = .pending →
      RunsAmong context.executionId (runExecutor context) world trace result
        after →
      RecordedResult context.executionId result after := by
  intro claim
  have played : play perform (runExecutor makeContext)
      [{ logFiles := false }] pendingWorld = some refusedAttempt :=
    (Option.some_get _).symm
  obtain ⟨record, alone, status, -⟩ := claim makeContext pendingWorld _ _ _ _
    rfl rfl (Runs.of_play played).amid
  have left : [pendingRecord] = [record] := alone
  obtain rfl := List.singleton_inj.mp left
  exact absurd status (by decide)

end Sendword
