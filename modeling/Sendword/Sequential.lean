import Mathlib.Data.Fintype.EquivFin
import Sendword.Concurrency.Amid
import Sendword.Models

/-!
# Query functions run alone

What each query function returns and what it leaves in the database when
nothing else happens meanwhile.
-/

namespace Sendword

open Concurrency

/-- A program of the server run alone. -/
abbrev RunsAlone {α : Type} (program : Async α) (world : World)
    (trace : List (Event Op.Answer)) (value : α) (after : World) : Prop :=
  Runs perform program world trace value after

/-- The world with another database. -/
def World.withDb (world : World) (db : Db) : World :=
  { world with db }

@[simp] theorem World.withDb_db (world : World) (db : Db) :
    (world.withDb db).db = db := rfl

variable {world after : World} {trace : List (Event Op.Answer)}

theorem runs_bind_eq {α β : Type} {program : Async α} {rest : α → Async β}
    {result : β} :
    RunsAlone (program >>= rest) world trace result after ↔
      ∃ first value middle second, trace = first ++ second ∧
        RunsAlone program world first value middle ∧
        RunsAlone (rest value) middle second result after :=
  runs_bind

theorem runs_return {α : Type} {value result : α} :
    RunsAlone (return value) world trace result after ↔
      trace = [] ∧ result = value ∧ after = world :=
  runs_pure

/-- A single operation. -/
theorem runs_op {operation : Op} {answer : operation.Answer} :
    RunsAlone (op operation) world trace answer after ↔
      trace = [⟨operation, answer⟩] ∧
        ∃ choice, perform operation choice world = some (answer, after) :=
  runs_single

theorem runs_sql {statement : Statement}
    {answer : DbResult statement.Row} :
    RunsAlone (sql statement) world trace answer after ↔
      trace = [⟨.sql statement, answer⟩] ∧
        answer = (statement.exec world.db).1 ∧
        after = world.withDb (statement.exec world.db).2 := by
  unfold sql
  rw [runs_op]
  constructor
  · rintro ⟨rfl, choice, performed⟩
    simp only [perform, Option.some.injEq, Prod.mk.injEq] at performed
    exact ⟨rfl, performed.1.symm, performed.2.symm⟩
  · rintro ⟨rfl, rfl, rfl⟩
    exact ⟨rfl, {}, rfl⟩

/-- A run that leaves the database and the configuration alone. -/
structure Untouched (before after : World) : Prop where
  db : after.db = before.db
  config : after.config = before.config

theorem untouched_of_now {instant : Instant}
    (runs : RunsAlone (op .now) world trace instant after) :
    Untouched world after := by
  obtain ⟨-, choice, performed⟩ := runs_op.mp runs
  simp only [perform] at performed
  split at performed
  · cases performed
    exact ⟨rfl, rfl⟩
  · cases performed

theorem untouched_of_nowUtc {time : Timestamp}
    (runs : RunsAlone nowUtc world trace time after) :
    Untouched world after := by
  obtain ⟨first, instant, middle, second, rfl, clock, ended⟩ :=
    runs_bind_eq.mp runs
  obtain ⟨rfl, rfl, rfl⟩ := runs_return.mp ended
  exact untouched_of_now clock

theorem untouched_of_newId {id : String}
    (runs : RunsAlone newId world trace id after) :
    Untouched world after := by
  obtain ⟨-, choice, performed⟩ := runs_op.mp runs
  simp only [perform] at performed
  split at performed
  · cases performed
  · cases performed
    exact ⟨rfl, rfl⟩

/-- `getById` answers from the table and changes nothing. -/
theorem runs_getById {id : String} {result : DbResult Execution}
    (runs : RunsAlone (getById id) world trace result after) :
    Untouched world after ∧
      result = match world.db.execution? id with
        | none => .error (.notFound s!"execution {id}")
        | some execution => .ok execution := by
  obtain ⟨first, row, middle, second, rfl, query, ended⟩ :=
    runs_bind_eq.mp runs
  obtain ⟨rfl, rfl, rfl⟩ := runs_return.mp ended
  obtain ⟨rfl, rfl, rfl⟩ := runs_sql.mp query
  refine ⟨⟨rfl, rfl⟩, ?_⟩
  simp only [Statement.exec, ExecutionStatement.exec]
  cases world.db.execution? id with
  | none => rfl
  | some execution => rfl

/-- A conditional `UPDATE` of the records. -/
theorem runs_update {change : ExecutionUpdate} {rows : DbResult Nat}
    (runs : RunsAlone (sql (.execution (.update change))) world trace rows
      after) :
    rows = .ok (world.db.executions.countP change.matches?) ∧
      after.db =
        { world.db with
          executions := world.db.executions.map change.apply } ∧
      after.config = world.config := by
  obtain ⟨-, rfl, rfl⟩ := runs_sql.mp runs
  exact ⟨rfl, rfl, rfl⟩

/-- Every operation can be performed. -/
theorem perform_enabled (operation : Op) (world : World) :
    ∃ choice answer after,
      perform operation choice world = some (answer, after) := by
  cases operation with
  | now => exact ⟨{ instant := world.clock }, _, _, if_pos le_rfl⟩
  | newId =>
      obtain ⟨id, unused⟩ := Infinite.exists_notMem_finset
        world.issued.toFinset
      refine ⟨{ id }, _, _, if_neg ?_⟩
      exact fun issued => unused (List.mem_toFinset.mpr issued)
  | sql | loadConfig | storeConfig | prepareLogFiles | runProcess
  | sendRequest | sleep | appendRetryMarker | sendNotification | spawn =>
      exact ⟨{}, _, _, rfl⟩

/-- Every program of the server can be run to its end. -/
theorem runs_amid_exists {α Part : Type} (part : World → Part)
    (program : Async α) (world : World) :
    ∃ trace value after,
      Runs (amid part perform) program world trace value after :=
  Runs.exists_amid part perform_enabled program world

end Sendword
