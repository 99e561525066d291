import Sendword.Concurrency.Trace
import Sendword.Hook.Protocol

/-!
# How a record comes into the table

The record of an execution is added once.  Where it was added as one that
waits for approval, every step of the run may be asked to have added it so.
-/

namespace Sendword.Decision

open Concurrency

/-- Any request, any pass of the sweep and any change of the configuration
may arrive; runs are started by the code. -/
def requests : ServerLabel → Bool
  | .arrive (.runExecution ..) | .arrive (.runDequeued ..) => false
  | .arrive _ | .advance .. => true

/-- The record that an operation has added. -/
def created? : Event Op.Answer → Option Execution
  | ⟨.sql (.execution (.insert row)), answer⟩ =>
      (Except.toOption answer).map fun _ => row
  | _ => none

/-- The records that a task has added. -/
def created (past : Past) : List Execution :=
  past.filterMap created?

/-- If the step adds the record of the execution, it adds it as one that
waits for approval. -/
def parks (target : String) (pool : ServerPool) (label : ServerLabel) :
    Prop :=
  requests label = true ∧
    match label with
    | .arrive _ => True
    | .advance index _ =>
        ∀ job trace row,
          pool.next? index =
            some (job, trace, .sql (.execution (.insert row))) →
          row.id = target →
          ((ExecutionStatement.insert row).exec pool.state.db).1 = .ok () →
          row.status = .pendingApproval

variable {target : String} {outside : Outside} {start pool : ServerPool}

theorem created?_eq_some {event : Event Op.Answer} {row : Execution}
    (added : created? event = some row) :
    event = ⟨.sql (.execution (.insert row)), .ok ()⟩ := by
  obtain ⟨op, answer⟩ := event
  cases op with
  | sql statement =>
      cases statement with
      | execution statement =>
          cases statement with
          | insert other =>
              cases answer with
              | error error => cases added
              | ok value =>
                  cases added
                  rfl
          | selectById | update | selectLatestStarted | selectOverdue =>
              cases added
      | lock | queue | attempt | counter => cases added
  | now | newId | loadConfig | storeConfig | prepareLogFiles | runProcess
  | sendRequest | sleep | appendRetryMarker | sendNotification | spawn =>
      cases added

/-- The identifiers of records stay in the table. -/
theorem ids_perform {op : Op} {choice : Choice} {before after : World}
    {answer : op.Answer}
    (performed : perform op choice before = some (answer, after))
    {id : String}
    (recorded : ∃ row ∈ before.db.executions, row.id = id) :
    ∃ row ∈ after.db.executions, row.id = id := by
  obtain ⟨row, member, sameId⟩ := recorded
  rw [perform_db performed]
  cases op with
  | sql statement =>
      cases statement with
      | execution statement =>
          cases statement with
          | insert other =>
              refine ⟨row, ?_, sameId⟩
              simp only [Op.db, Statement.exec, ExecutionStatement.exec]
              split
              · exact member
              · exact List.mem_append_left _ member
          | update change =>
              exact ⟨change.apply row, List.mem_map_of_mem member,
                by simpa using sameId⟩
          | selectById | selectLatestStarted | selectOverdue =>
              exact ⟨row, member, sameId⟩
      | lock | queue | attempt | counter =>
          refine ⟨row, ?_, sameId⟩
          rw [Op.db, Db.executions_exec (by intro record same; cases same)]
          exact member
  | now | newId | loadConfig | storeConfig | prepareLogFiles | runProcess
  | sendRequest | sleep | appendRetryMarker | sendNotification | spawn =>
      exact ⟨row, member, sameId⟩

/-- A record that some task has added is in the table. -/
theorem recorded_of_created
    {admits : ServerPool → ServerLabel → Prop}
    (empty : start.tasks = [])
    (reached : (server outside).Reaches admits start pool)
    {task : ServerTask} (member : task ∈ pool.tasks) {row : Execution}
    (added : row ∈ created task.trace) :
    ∃ other ∈ pool.state.db.executions, other.id = row.id := by
  obtain ⟨event, inTrace, isAdded⟩ := List.mem_filterMap.mp added
  refine reached.remembers
    (fun event state => ∀ row, created? event = some row →
      ∃ other ∈ state.db.executions, other.id = row.id)
    ?_ ?_ empty task member event inTrace row isAdded
  · intro op choice before answer after performed row isAdded
    cases created?_eq_some isAdded
    obtain ⟨accepted, rfl⟩ : _ ∧ _ := by
      simpa [server, perform, Statement.exec] using performed
    rcases Db.insert_cases before.db row with inserted | refused
    · exact ⟨row, by simp [inserted], rfl⟩
    · rw [refused] at accepted
      cases accepted
  · intro event op choice before answer after performed old row isAdded
    exact ids_perform performed (old row isAdded)

theorem refused_of_recorded {db : Db} {row other : Execution}
    (member : other ∈ db.executions) (sameId : other.id = row.id) :
    ((ExecutionStatement.insert row).exec db).1 = .error .sqlx := by
  have duplicate : (db.executions.any fun old => old.id == row.id) = true :=
    List.any_eq_true.mpr ⟨other, member, by simp [sameId]⟩
  simp [ExecutionStatement.exec, duplicate]

/-- A step adds no record, or is the `INSERT` of it. -/
theorem created_step {pool later : ServerPool} {label : ServerLabel}
    (taken : (server outside).step pool label = some later)
    {task : ServerTask} (member : task ∈ later.tasks) {row : Execution}
    (added : row ∈ created task.trace) :
    (∃ old ∈ pool.tasks, row ∈ created old.trace) ∨
      ∃ index choice job trace, label = .advance index choice ∧
        pool.next? index =
          some (job, trace, .sql (.execution (.insert row))) ∧
        ((ExecutionStatement.insert row).exec pool.state.db).1 = .ok () := by
  cases label with
  | arrive job =>
      obtain rfl : { pool with
          tasks := pool.tasks ++ [(server outside).launch job] } = later := by
        simpa [Machine.step] using taken
      rcases List.mem_append.mp member with old | new
      · exact .inl ⟨task, old, added⟩
      · rw [List.mem_singleton.mp new] at added
        cases added
  | advance index choice =>
      obtain ⟨job, trace, op, next, answer, state, found, performed, rfl⟩ :=
        Machine.step_advance taken
      rcases List.mem_append.mp member with old | new
      · rcases List.mem_or_eq_of_mem_set old with other | rfl
        · exact .inl ⟨task, other, added⟩
        · simp only [created, List.filterMap_append, List.mem_append] at added
          rcases added with before | last
          · exact .inl ⟨_, List.mem_of_getElem? found, before⟩
          · obtain ⟨event, isLast, isAdded⟩ := List.mem_filterMap.mp last
            rw [List.mem_singleton.mp isLast] at isAdded
            cases created?_eq_some isAdded
            refine .inr ⟨index, choice, job, trace, rfl,
              Pool.next?_eq found, ?_⟩
            obtain ⟨accepted, -⟩ : _ ∧ _ := by
              simpa [server, perform, Statement.exec] using performed
            exact accepted
      · simp only [Machine.forked, Option.mem_toList, Option.map_eq_some_iff]
          at new
        obtain ⟨child, -, rfl⟩ := new
        cases added

/-- The execution was added as one that waits for approval. -/
def Parked (target : String) (pool : ServerPool) : Prop :=
  ∃ task ∈ pool.tasks, ∃ row ∈ created task.trace,
    row.id = target ∧ row.status = .pendingApproval

theorem ids_step {pool later : ServerPool} {label : ServerLabel} {id : String}
    (taken : (server outside).step pool label = some later)
    (recorded : ∃ row ∈ pool.state.db.executions, row.id = id) :
    ∃ row ∈ later.state.db.executions, row.id = id := by
  cases label with
  | arrive job =>
      obtain rfl : { pool with
          tasks := pool.tasks ++ [(server outside).launch job] } = later := by
        simpa [Machine.step] using taken
      exact recorded
  | advance index choice =>
      obtain ⟨job, trace, op, next, answer, state, -, performed, rfl⟩ :=
        Machine.step_advance taken
      exact ids_perform performed recorded

theorem recorded_of_insert {pool later : ServerPool} {index : Nat}
    {choice : Choice} {job : Job} {trace : Past} {row : Execution}
    (taken : (server outside).step pool (.advance index choice) = some later)
    (isNext : pool.next? index =
      some (job, trace, .sql (.execution (.insert row))))
    (sameId : row.id = target)
    (accepted :
      ((ExecutionStatement.insert row).exec pool.state.db).1 = .ok ()) :
    ∃ row ∈ later.state.db.executions, row.id = target := by
  obtain ⟨job, trace, op, next, answer, state, found, performed, rfl⟩ :=
    Machine.step_advance taken
  rw [Pool.next?_eq found] at isNext
  cases isNext
  obtain ⟨-, rfl⟩ : _ ∧ _ := by
    simpa [server, perform, Statement.exec] using performed
  rcases Db.insert_cases pool.state.db row with inserted | refused
  · exact ⟨row, by simp [inserted], sameId⟩
  · rw [refused] at accepted
    cases accepted

theorem otherwise_of_not_parks {pool : ServerPool} {label : ServerLabel}
    (admitted : requests label = true) (other : ¬ parks target pool label) :
    ∃ index choice, label = .advance index choice ∧ ∃ job trace row,
      pool.next? index =
        some (job, trace, .sql (.execution (.insert row))) ∧
      row.id = target ∧
      ((ExecutionStatement.insert row).exec pool.state.db).1 = .ok () ∧
      row.status ≠ .pendingApproval := by
  cases label with
  | arrive job => exact (other ⟨admitted, trivial⟩).elim
  | advance index choice =>
      by_contra none
      refine other ⟨admitted, fun job trace row isNext sameId accepted => ?_⟩
      by_contra waits
      exact none ⟨index, choice, rfl, job, trace, row, isNext, sameId,
        accepted, waits⟩

/-- Where the execution was parked when it was added, every step so far may
be asked to have added it so. -/
theorem reaches_parks (empty : start.tasks = [])
    (reached : (server outside).Reaches (fun _ label => requests label = true)
      start pool)
    (parked : Parked target pool) :
    (server outside).Reaches (parks target) start pool := by
  suffices general : (server outside).Reaches (parks target) start pool ∨
      ((∃ row ∈ pool.state.db.executions, row.id = target) ∧
        ¬ Parked target pool) from
    general.resolve_right fun other => other.2 parked
  clear parked
  induction reached with
  | refl => exact .inl .refl
  | @step pool later label before admitted taken induction =>
      rcases induction with reached | ⟨recorded, otherwise⟩
      · by_cases parking : parks target pool label
        · exact .inl (.step reached parking taken)
        · obtain ⟨index, choice, rfl, job, trace, row, isNext, sameId,
            accepted, other⟩ := otherwise_of_not_parks admitted parking
          refine .inr ⟨recorded_of_insert taken isNext sameId accepted, ?_⟩
          rintro ⟨task, member, added, inTrace, addedId, waits⟩
          rcases created_step taken member inTrace with
            ⟨old, inPool, wasAdded⟩ |
              ⟨_, _, _, _, same, isAdded, -⟩
          · obtain ⟨there, inTable, thereId⟩ :=
              recorded_of_created empty before inPool wasAdded
            rw [refused_of_recorded inTable
              (thereId.trans (addedId.trans sameId.symm))] at accepted
            cases accepted
          · cases same
            rw [isNext] at isAdded
            cases isAdded
            exact other waits
      · refine .inr ⟨ids_step taken recorded, ?_⟩
        rintro ⟨task, member, added, inTrace, addedId, waits⟩
        rcases created_step taken member inTrace with
          ⟨old, inPool, wasAdded⟩ | ⟨_, _, _, _, -, -, accepted⟩
        · exact otherwise ⟨old, inPool, added, wasAdded, addedId, waits⟩
        · obtain ⟨there, inTable, thereId⟩ := recorded
          rw [refused_of_recorded inTable (thereId.trans addedId.symm)]
            at accepted
          cases accepted

end Sendword.Decision
