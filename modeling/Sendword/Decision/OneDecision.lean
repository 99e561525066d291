import Sendword.Decision.Invariant
import Sendword.Decision.Parked
import Sendword.Hook.ApprovalGate

/-!
# One decision for each approval request

Any number of approvals, rejections and passes of the sweep compete for an
execution that was parked for approval, while everything else goes on.
-/

namespace Sendword.Decision

open Concurrency

variable {target : String} {outside : Outside} {ghost : Ghost}
  {rest : Multiset Ghost} {start pool : ServerPool}

/-! ## The invariant is kept -/

/-- One statement, whatever it is. -/
theorem Invariant.statement {world : World} {statement : Statement}
    (holds : Invariant target world (ghost ::ₘ rest))
    (allowed : allows target ghost (.sql statement))
    (pending : ∀ row, statement = .execution (.insert row) →
      row.id = target →
      ((ExecutionStatement.insert row).exec world.db).1 = .ok () →
      row.status = .pendingApproval) :
    ∃ after,
      moves target ghost (.sql statement) (statement.exec world.db).1
        after ∧
      Invariant target { world with db := (statement.exec world.db).2 }
        (after ::ₘ rest) := by
  cases statement with
  | execution statement =>
      cases statement with
      | insert row => exact holds.insert allowed (pending row rfl)
      | selectById id =>
          refine ⟨ghost, ⟨fun row found => ?_, rfl⟩, holds⟩
          simp only [Statement.exec, ExecutionStatement.exec,
            Except.ok.injEq] at found
          exact (Db.execution?_some found).2
      | update change => exact holds.update allowed
      | selectLatestStarted | selectOverdue => exact ⟨ghost, rfl, holds⟩
  | queue statement =>
      have kept : Invariant target
          { world with db := (statement.exec world.db).2 }
          (ghost ::ₘ rest) := by
        refine holds.queueStatement fun id slug execution queuedAt same => ?_
        subst same
        exact allowed
      cases statement with
      | peekNext slug =>
          refine ⟨ghost, ⟨fun entry found => ?_, rfl⟩, kept⟩
          have first : (world.db.waiting slug).argmin (·.position) =
              some entry := by
            simpa [Statement.exec, QueueStatement.exec] using found
          have waits := List.argmin_mem (Option.mem_def.mpr first)
          exact holds.unqueued entry (List.mem_filter.mp waits).1
      | enqueue | selectPosition | countWaiting | update | expireStale =>
          exact ⟨ghost, rfl, kept⟩
  | lock statement =>
      exact ⟨ghost, rfl, holds.elsewhere ((by simp)) (by simp)⟩
  | attempt statement =>
      exact ⟨ghost, rfl, holds.elsewhere ((by simp)) (by simp)⟩
  | counter statement =>
      exact ⟨ghost, rfl, holds.elsewhere ((by simp)) (by simp)⟩

theorem preserves :
    (discipline target outside).Preserves (parks target)
      (Invariant target) := by
  intro pool index job trace op next choice answer state ghost rest admitted
    found linked allowed performed holds
  have single (quiet : (server outside).forks op = none)
      {after : Ghost} (kept : Invariant target state (after ::ₘ rest)) :
      Invariant target state
        (after ::ₘ ((discipline target outside).forkedGhosts op + rest)) := by
    simpa [Discipline.forkedGhosts, quiet] using kept
  cases op with
  | sql statement =>
      cases performed
      obtain ⟨after, moved, kept⟩ := holds.statement allowed
        fun row same own accepted =>
          admitted.2 job trace row (by rw [Pool.next?_eq found, same]) own
            accepted
      exact ⟨after, moved, single rfl kept⟩
  | newId =>
      have unused := perform_newId performed
      simp only [server, perform] at performed
      split at performed
      · cases performed
      · cases performed
        obtain ⟨after, moved, kept⟩ := holds.newId unused
        exact ⟨after, moved, single rfl kept⟩
  | now =>
      simp only [server, perform] at performed
      split at performed
      · cases performed
        exact ⟨ghost, rfl, single rfl (holds.keep holds.keys
          (fun _ _ => Iff.rfl) (fun entry member own => ⟨entry, member, own⟩)
          (fun _ old => old) rfl rfl)⟩
      · cases performed
  | storeConfig config =>
      cases performed
      exact ⟨ghost, rfl, single rfl (holds.keep holds.keys
        (fun _ _ => Iff.rfl) (fun entry member own => ⟨entry, member, own⟩)
        (fun _ old => old) rfl rfl)⟩
  | spawn child =>
      cases performed
      obtain ⟨after, moved, kept⟩ := holds.spawn allowed
      exact ⟨after, moved, by
        simpa [Discipline.forkedGhosts, server, forks, discipline]
          using kept⟩
  | loadConfig | prepareLogFiles | runProcess | sendRequest | sleep
  | appendRetryMarker | sendNotification =>
      cases performed
      exact ⟨ghost, rfl, single rfl holds⟩

theorem arrives :
    (discipline target outside).Admits (parks target)
      (Invariant target) := by
  intro pool job ghosts admitted holds
  have joins (noRun : runs target job = false) :
      Invariant target pool.state (Decision.start target job ::ₘ ghosts) := by
    refine holds.keep holds.keys (fun _ _ => Iff.rfl)
      (fun entry member own => ⟨entry, member, own⟩) (fun _ old => old) ?_ ?_
    · exact grips_cons_none (by simp [Decision.start, noRun])
    · simp [Decision.start]
  cases job with
  | trigger | approve | reject | replay | expirePendingApprovals
  | reloadConfig => exact ⟨trivial, joins rfl⟩
  | runExecution | runDequeued => cases admitted.1

/-! ## Calls that decide nothing -/

/-- The task is a request to approve or reject the execution. -/
def judges (target : String) : Job → Bool
  | .approve id _ | .reject id _ => id == target
  | _ => false

/-- An `UPDATE` does not fail. -/
theorem update_answers {admits : ServerPool → ServerLabel → Prop}
    (empty : start.tasks = [])
    (reached : (server outside).Reaches admits start pool)
    {task : ServerTask} (member : task ∈ pool.tasks)
    (change : ExecutionUpdate) (answer : DbResult Nat)
    (event : ⟨.sql (.execution (.update change)), answer⟩ ∈ task.trace) :
    ∃ rows : Nat, answer = .ok rows := by
  refine reached.remembers
    (fun event _ => ∀ (change : ExecutionUpdate) (answer : DbResult Nat),
      event = (⟨.sql (.execution (.update change)), answer⟩ :
        Event Op.Answer) →
      ∃ rows : Nat, answer = .ok rows)
    ?_ (fun _ _ _ _ _ _ _ old => old) empty task member _ event change
      answer rfl
  intro op choice before answer after performed change given same
  cases same
  obtain ⟨rfl, -⟩ : _ ∧ _ := by
    simpa [server, perform, Statement.exec] using performed
  exact ⟨_, rfl⟩

/-- A request that has decided nothing is about to make its `UPDATE`, or it
has ended with a conflict. -/
inductive Undecided (change : Timestamp → ExecutionUpdate) :
    Async Response → Prop where
  | waits (program : Async Response) :
      program.next? = some .now → Undecided change program
  | decides (program : Async Response) (time : Timestamp) :
      program.next? = some (.sql (.execution (.update (change time)))) →
      Undecided change program
  | conflict : Undecided change (.pure (.status 409))

theorem undecided_of_follows {change : Timestamp → ExecutionUpdate}
    {next : (instant : Instant) →
      (Op.sql (.execution (.update (change (instant / 1000000))))).Answer →
      Async Response}
    {trace : Past} {program : Async Response}
    (decides : ∀ time, (change time).decides.isSome = true)
    (aimed : ∀ time, (change time).target? = some target)
    (refused : ∀ instant,
      next instant (.ok (0 : Nat)) = .pure (.status 409))
    (follows : (Program.perform .now fun instant =>
      .perform (.sql (.execution (.update (change (instant / 1000000)))))
        (next instant) : Async Response).Follows trace program)
    (answers : ∀ change (answer : DbResult Nat),
      ⟨.sql (.execution (.update change)), answer⟩ ∈ trace →
      ∃ rows : Nat, answer = .ok rows)
    (nothing : decisions target trace = []) :
    Undecided change program := by
  rcases follows.of_perform with ⟨-, rfl⟩ | ⟨instant, later, rfl, clocked⟩
  · exact .waits _ rfl
  · rcases clocked.of_perform with ⟨-, rfl⟩ | ⟨rows, after, rfl, updated⟩
    · exact .decides _ _ rfl
    · obtain ⟨count, rfl⟩ := answers (change (instant / 1000000)) rows
        (by simp)
      cases count with
      | zero =>
          rw [refused] at updated
          obtain ⟨-, rfl⟩ := updated.of_pure
          exact .conflict
      | succ count =>
          simp [decisions, decision?, decides, aimed, Except.toOption]
            at nothing

theorem undecided_call {admits : ServerPool → ServerLabel → Prop}
    (empty : start.tasks = [])
    (reached : (server outside).Reaches admits start pool)
    {task : ServerTask} (member : task ∈ pool.tasks)
    (call : judges target task.job = true)
    (nothing : decisions target task.trace = []) :
    ∃ change, (∀ time, (change time).decides.isSome = true) ∧
      (∀ time, (change time).target? = some target) ∧
      Undecided change task.program := by
  have follows := reached.follows empty task member
  have answers := update_answers empty reached member
  obtain ⟨job, trace, program⟩ := task
  cases job with
  | approve id user =>
      obtain rfl : id = target := by simpa [judges] using call
      refine ⟨.markApproved id user, fun _ => rfl, fun _ => rfl, ?_⟩
      simp only [server, taskBody, approveExecution, markApproved, nowUtc,
        sql, Sendword.op, Program.bind_eq, Program.op_bind, Program.pure_eq,
        Program.pure_bind, Program.perform_bind] at follows
      refine undecided_of_follows (fun _ => rfl) (fun _ => rfl) ?_ follows
        answers nothing
      exact fun _ => rfl
  | reject id user =>
      obtain rfl : id = target := by simpa [judges] using call
      refine ⟨.markRejected id user, fun _ => rfl, fun _ => rfl, ?_⟩
      simp only [server, taskBody, rejectExecution, markRejected, nowUtc,
        sql, Sendword.op, Program.bind_eq, Program.op_bind, Program.pure_eq,
        Program.pure_bind, Program.perform_bind] at follows
      refine undecided_of_follows (fun _ => rfl) (fun _ => rfl) ?_ follows
        answers nothing
      exact fun _ => rfl
  | trigger | replay | expirePendingApprovals | reloadConfig | runExecution
  | runDequeued => cases call

/-! ## What the invariant says of the tasks -/

section Covers

variable {ghosts : List Ghost}

theorem made_eq (covers : (discipline target outside).Covers pool ghosts) :
    ((pool.tasks.flatMap fun task => decisions target task.trace :
        List ExecutionUpdate) : Multiset ExecutionUpdate) =
      made ghosts := by
  have same := covers.map_eq (fun task => decisions target task.trace)
    (·.decisions) fun task ghost linked _ => linked.decisions.symm
  rw [made, Multiset.coe_bind, List.flatMap_def, List.flatMap_def, same]

theorem Stage.made_le {db : Db} {held : Multiset Grip}
    {decided : Multiset ExecutionUpdate}
    (stage : Stage target db held decided) : decided.card ≤ 1 := by
  cases stage with
  | unrecorded _ _ none => simp [none]
  | recorded row _ _ fits =>
      cases fits with
      | parked _ _ none => simp [none]
      | approved _ _ _ one => simp [one]
      | rejected _ _ one => simp [one]
      | expired _ one => simp [one]

theorem Stage.held_le {db : Db} {held : Multiset Grip}
    {decided : Multiset ExecutionUpdate}
    (stage : Stage target db held decided) : held.card ≤ 1 := by
  cases stage with
  | unrecorded _ few => rcases few with none | one <;> simp [*]
  | recorded row _ _ fits =>
      cases fits with
      | parked _ none => simp [none]
      | approved _ _ _ _ one => simp [one]
      | rejected _ _ _ none => simp [none]
      | expired _ _ none => simp [none]

theorem countP_runs_le
    (covers : (discipline target outside).Covers pool ghosts)
    (few : (grips ghosts).card ≤ 1) :
    pool.tasks.countP (fun task => runs target task.job) ≤ 1 := by
  have same := covers.map_eq (fun task => runs target task.job)
    (fun ghost => (ghost.grip.map (· == Grip.run)).getD false)
    fun task ghost linked _ => by
      rw [Bool.eq_iff_iff, ← linked.running]
      cases ghost.grip <;> simp
  calc pool.tasks.countP (fun task => runs target task.job)
      = (pool.tasks.map fun task => runs target task.job).countP id := by
        rw [List.countP_map]
        rfl
    _ = (ghosts.filterMap (·.grip)).countP (· == Grip.run) := by
        rw [same, List.countP_map, List.countP_filterMap]
        rfl
    _ ≤ (ghosts.filterMap (·.grip)).length := List.countP_le_length
    _ ≤ 1 := by simpa [grips] using few

end Covers

/-- An `UPDATE` that decides on the execution changes its record or nothing:
what it changes is recorded as a decision. -/
theorem decision_step {later : ServerPool} {index : Nat} {choice : Choice}
    {job : Job} {trace : Past} {change : ExecutionUpdate}
    (taken : (server outside).step pool (.advance index choice) = some later)
    (isNext : pool.next? index =
      some (job, trace, .sql (.execution (.update change))))
    (decides : change.decides.isSome = true)
    (aimed : change.target? = some target) :
    later.state.db.executions = pool.state.db.executions ∨
      ∃ moved, later.tasks[index]? = some moved ∧
        change ∈ decisions target moved.trace := by
  obtain ⟨job, trace, op, next, answer, state, found, performed, rfl⟩ :=
    Machine.step_advance taken
  rw [Pool.next?_eq found] at isNext
  cases isNext
  obtain ⟨rfl, rfl⟩ : _ ∧ _ := by
    simpa [server, perform, Statement.exec] using performed
  by_cases matched : ∃ row ∈ pool.state.db.executions,
      change.matches? row = true
  · obtain ⟨row, member, isMatched⟩ := matched
    have positive : 0 < pool.state.db.executions.countP change.matches? :=
      List.countP_pos_iff.mpr ⟨row, member, isMatched⟩
    refine .inr ⟨_, Machine.moved_task found _ _, ?_⟩
    rw [decisions_snoc]
    simp [decision?, decides, aimed, Except.toOption, ExecutionStatement.exec,
      List.countP_pos_iff.mp positive]
  · refine .inl ?_
    have unmatched : ∀ row ∈ pool.state.db.executions,
        change.matches? row = false := by
      intro row member
      rw [← Bool.not_eq_true]
      exact fun isMatched => matched ⟨row, member, isMatched⟩
    simp [ExecutionStatement.update_nothing unmatched]

/-! ## One decision -/

/-- The status in which a decision against the execution leaves it. -/
def refuses? : ExecutionUpdate → Option ExecutionStatus
  | .markRejected .. => some .rejected
  | .markExpired .. => some .expired
  | _ => none

/-- What the tasks have made of the approval request so far. -/
structure DecidedOnce (outside : Outside) (target : String)
    (pool : ServerPool) : Prop where
  /-- One decision at most has taken effect. -/
  once : (pool.tasks.flatMap fun task =>
    decisions target task.trace).length ≤ 1
  /-- A decision that the next step makes takes effect or changes no
  record. -/
  effect : ∀ index choice later job trace change,
    pool.next? index =
      some (job, trace, .sql (.execution (.update change))) →
    change.decides.isSome = true → change.target? = some target →
    (server outside).step pool (.advance index choice) = some later →
    later.state.db.executions = pool.state.db.executions ∨
      ∃ moved, later.tasks[index]? = some moved ∧
        change ∈ decisions target moved.trace
  /-- A call whose decision has not taken effect ends with a conflict. -/
  conflict : ∀ task ∈ pool.tasks, judges target task.job = true →
    decisions target task.trace = [] →
    ∀ response, task.program.result? = some response →
      response = .status 409
  /-- Such a call changes no record. -/
  harmless : ∀ index choice later task, pool.tasks[index]? = some task →
    judges target task.job = true → decisions target task.trace = [] →
    (server outside).step pool (.advance index choice) = some later →
    later.state.db.executions = pool.state.db.executions ∨
      ∃ moved, later.tasks[index]? = some moved ∧
        decisions target moved.trace ≠ []
  /-- One task at most runs the execution. -/
  runs : pool.tasks.countP (fun task => runs target task.job) ≤ 1
  /-- It is started by the approval that has taken effect. -/
  started : ∀ index job trace child,
    pool.next? index = some (job, trace, .spawn child) →
    Decision.runs target child = true →
    ∃ user time, job = .approve target user ∧
      .markApproved target user time ∈ decisions target trace

/-- The execution has the status, and its command is not run. -/
def Closed (target : String) (status : ExecutionStatus) (pool : ServerPool) :
    Prop :=
  (∃ row, pool.state.db.execution? target = some row ∧
      row.status = status) ∧
    ∀ task ∈ pool.tasks, runs target task.job = false ∧
      ∀ event ∈ task.trace, event.op.commandOf? ≠ some target

theorem harmless_step {later : ServerPool} {index : Nat} {choice : Choice}
    {task : ServerTask} {admits : ServerPool → ServerLabel → Prop}
    (empty : start.tasks = [])
    (reached : (server outside).Reaches admits start pool)
    (found : pool.tasks[index]? = some task)
    (call : judges target task.job = true)
    (nothing : decisions target task.trace = [])
    (taken :
      (server outside).step pool (.advance index choice) = some later) :
    later.state.db.executions = pool.state.db.executions ∨
      ∃ moved, later.tasks[index]? = some moved ∧
        decisions target moved.trace ≠ [] := by
  obtain ⟨change, decides, aimed, undecided⟩ :=
    undecided_call empty reached (List.mem_of_getElem? found) call nothing
  obtain ⟨job, trace, op, next, answer, state, same, performed, stepped⟩ :=
    Machine.step_advance taken
  rw [found] at same
  cases same
  generalize whole : Program.perform op next = program at undecided
  cases undecided with
  | waits _ isNow =>
      subst whole
      cases isNow
      left
      have performed : perform .now choice pool.state =
          some (answer, state) := performed
      have same := perform_db performed
      rw [stepped]
      exact congrArg Db.executions same
  | decides _ time isNext =>
      subst whole
      rw [Program.next?_perform, Option.some.injEq] at isNext
      subst isNext
      rcases decision_step taken (Pool.next?_eq found) (decides time)
          (aimed time) with unchanged | ⟨moved, isMoved, made⟩
      · exact .inl unchanged
      · exact .inr ⟨moved, isMoved, List.ne_nil_of_mem made⟩
  | conflict => cases whole

theorem eq_approve {job : Job} {user : String}
    (approver : approver? target job = some user) :
    job = .approve target user := by
  cases job with
  | approve id other =>
      simp only [approver?] at approver
      split at approver
      · rename_i own
        cases approver
        rw [own]
      · cases approver
  | trigger | reject | replay | expirePendingApprovals | reloadConfig
  | runExecution | runDequeued => cases approver

theorem decidedOnce {ghosts : List Ghost}
    {admits : ServerPool → ServerLabel → Prop}
    (empty : start.tasks = [])
    (reached : (server outside).Reaches admits start pool)
    (covers : (discipline target outside).Covers pool ghosts)
    (holds : Invariant target pool.state ghosts) :
    DecidedOnce outside target pool where
  once := by
    have few := holds.stage.made_le
    rwa [← made_eq covers] at few
  effect := by
    intro index choice later job trace change isNext decides aimed taken
    exact decision_step taken isNext decides aimed
  conflict := by
    intro task member call nothing response ended
    obtain ⟨change, -, -, undecided⟩ :=
      undecided_call empty reached member call nothing
    generalize task.program = program at undecided ended
    cases undecided with
    | waits _ isNext | decides _ _ isNext =>
        cases program with
        | pure value => cases isNext
        | perform op next => cases ended
    | conflict => exact (Option.some.inj ended).symm
  harmless := by
    intro index choice later task found call nothing taken
    exact harmless_step empty reached found call nothing taken
  runs := countP_runs_le covers holds.stage.held_le
  started := by
    intro index job trace child isNext starts
    simp only [Pool.next?, Option.bind_eq_some_iff, Option.map_eq_some_iff]
      at isNext
    obtain ⟨task, found, op, isOp, same⟩ := isNext
    cases same
    obtain ⟨ghost, -, -, linked, obeys⟩ := covers.pick found
    generalize task.program = program at isOp obeys
    cases program with
    | pure value => cases isOp
    | perform op next =>
        cases isOp
        have cleared : ghost.grip = some .cleared := by
          have allowed := obeys.1
          cases child with
          | runExecution context retries hook concurrency approval =>
              exact allowed (by simpa [Decision.runs] using starts)
          | runDequeued slug execution concurrency approval =>
              exact (allowed (by simpa [Decision.runs] using starts)).elim
          | trigger | approve | reject | replay | expirePendingApprovals
          | reloadConfig => cases starts
        obtain ⟨user, time, isApprover, made⟩ := linked.approved (.inr cleared)
        rw [linked.decisions] at made
        rw [linked.approver] at isApprover
        exact ⟨user, time, eq_approve isApprover, made⟩

/-- A decision against the execution is the last word. -/
theorem closed_of_refused {ghosts : List Ghost} {task : ServerTask}
    {change : ExecutionUpdate} {status : ExecutionStatus}
    (covers : (discipline target outside).Covers pool ghosts)
    (holds : Invariant target pool.state ghosts)
    (member : task ∈ pool.tasks)
    (made : change ∈ decisions target task.trace)
    (refuses : refuses? change = some status) : Closed target status pool := by
  have inMade : change ∈ Decision.made ghosts := by
    rw [← made_eq covers]
    exact Multiset.mem_coe.mpr (List.mem_flatMap.mpr ⟨task, member, made⟩)
  obtain ⟨row, inTable, sameId, isStatus, nothing⟩ :
      ∃ row ∈ pool.state.db.executions, row.id = target ∧
        row.status = status ∧ grips ghosts = 0 := by
    cases holds.stage with
    | unrecorded _ _ none =>
        rw [none] at inMade
        exact (Multiset.notMem_zero _ inMade).elim
    | recorded row inTable sameId fits =>
        refine ⟨row, inTable, sameId, ?_⟩
        cases fits with
        | parked _ _ none =>
            rw [none] at inMade
            exact (Multiset.notMem_zero _ inMade).elim
        | approved user time grip one =>
            rw [one, Multiset.mem_singleton] at inMade
            subst inMade
            cases refuses
        | rejected user time one nothing isStatus =>
            rw [one, Multiset.mem_singleton] at inMade
            subst inMade
            cases refuses
            exact ⟨isStatus, nothing⟩
        | expired time one nothing isStatus =>
            rw [one, Multiset.mem_singleton] at inMade
            subst inMade
            cases refuses
            exact ⟨isStatus, nothing⟩
  refine ⟨⟨row, sameId ▸ holds.keys.execution?_eq inTable, isStatus⟩, ?_⟩
  intro other otherMember
  obtain ⟨index, found⟩ := List.getElem?_of_mem otherMember
  obtain ⟨ghost, -, parts, linked, -⟩ := covers.pick found
  have noRun : ¬ runs target other.job = true := by
    rw [← linked.running]
    intro running
    rw [parts, grips_cons_some running] at nothing
    exact Multiset.cons_ne_zero nothing
  refine ⟨by simpa using noRun, ?_⟩
  exact fun event inTrace command =>
    noRun (linked.commands ⟨event, inTrace, command⟩)

/-- A server before the execution is triggered. -/
structure Before (target : String) (start : ServerPool) : Prop where
  empty : start.tasks = []
  keys : start.state.db.Keys
  /-- The foreign key of the queue. -/
  references : ∀ entry ∈ start.state.db.queue,
    ∃ row ∈ start.state.db.executions, row.id = entry.executionId
  unrecorded : ∀ row ∈ start.state.db.executions, row.id ≠ target

theorem Before.invariant (before : Before target start) :
    Invariant target start.state 0 where
  keys := before.keys
  recorded := fun row member sameId =>
    (before.unrecorded row member sameId).elim
  handed := fun some => (some rfl).elim
  unqueued := by
    intro entry member own
    obtain ⟨row, inTable, sameId⟩ := before.references entry member
    exact before.unrecorded row inTable (sameId.trans own)
  stage := .unrecorded before.unrecorded (.inl rfl) rfl

theorem reaches_holds (before : Before target start)
    (reached : (server outside).Reaches (fun _ label => requests label = true)
      start pool)
    (parked : Parked target pool) :
    ∃ ghosts : List Ghost, (discipline target outside).Covers pool ghosts ∧
      Invariant target pool.state ghosts :=
  Discipline.reaches_invariant (lawful target outside) arrives preserves
    before.empty before.invariant
    (reaches_parks before.empty reached parked)

theorem parked_grows {admits : ServerPool → ServerLabel → Prop}
    {later : ServerPool}
    (reached : (server outside).Reaches admits pool later)
    (parked : Parked target pool) : Parked target later := by
  obtain ⟨task, member, row, added, sameId, waits⟩ := parked
  obtain ⟨last, inLater, -, longer⟩ := reached.grows task member
  exact ⟨last, inLater, row, (longer.sublist.filterMap _).subset added,
    sameId, waits⟩

/-- Whatever requests, passes of the sweep and changes of the configuration
come in between: at most one decision on a parked execution takes effect,
every other call ends with a conflict and changes no record, at most one task
runs the execution, started by the approval that took effect; and after a
rejection or an expiry the record keeps its status for ever and the command
is never started. -/
theorem one_decision (target : String) (before : Before target start)
    (reached : (server outside).Reaches (fun _ label => requests label = true)
      start pool)
    (parked : Parked target pool) :
    DecidedOnce outside target pool ∧
      ∀ task ∈ pool.tasks, ∀ change ∈ decisions target task.trace,
        ∀ status, refuses? change = some status →
        ∀ later, (server outside).Reaches
            (fun _ label => requests label = true) pool later →
          Closed target status later := by
  constructor
  · obtain ⟨ghosts, covers, holds⟩ := reaches_holds before reached parked
    exact decidedOnce before.empty reached covers holds
  · intro task member change made status refuses later follows
    obtain ⟨last, inLater, -, longer⟩ := follows.grows task member
    obtain ⟨ghosts, covers, holds⟩ := reaches_holds before
      (reached.append follows) (parked_grows follows parked)
    exact closed_of_refused covers holds inLater
      ((longer.sublist.filterMap _).subset made) refuses

/-! ## A rejection and a late approval -/

instance (target : String) (pool : ServerPool) :
    Decidable (Parked target pool) :=
  inferInstanceAs (Decidable (∃ task ∈ pool.tasks,
    ∃ row ∈ created task.trace,
      row.id = target ∧ row.status = .pendingApproval))

/-- An approval and a rejection of the same execution: the rejection is
first. -/
def refusedSchedule : List ServerLabel :=
  parkedSchedule ++ .arrive (.reject "first" "admin") ::
    .arrive (.approve "first" "admin") ::
      (steps 2 1 ++ steps 1 2 ++ steps 2 1)

def refused : ServerPool :=
  ((server .accepting).run (fun _ => requests)
    (Watched.only gatedDeploy).started refusedSchedule).get (by decide)

theorem one_decision_refused :
    DecidedOnce .accepting "first" refused ∧
      (∀ later, (server .accepting).Reaches
          (fun _ label => requests label = true) refused later →
        Closed "first" .rejected later) ∧
      refused.tasks.map (·.program.result?) =
        [some (.pendingApproval "first"), none, some (.status 409)] := by
  have reached : (server .accepting).Reaches
      (fun _ label => requests label = true)
      (Watched.only gatedDeploy).started refused :=
    .of_run .refl (Option.some_get _).symm
  have before : Before "first" (Watched.only gatedDeploy).started :=
    ⟨rfl, (Watched.idle_started _).keys,
      fun _ member => (List.not_mem_nil member).elim,
      fun _ member => (List.not_mem_nil member).elim⟩
  have holds := one_decision "first" before reached (by decide)
  obtain ⟨task, member, made⟩ : ∃ task ∈ refused.tasks,
      .markRejected "first" "admin" 0 ∈ decisions "first" task.trace := by
    decide
  exact ⟨holds.1, fun later follows =>
    holds.2 task member _ made .rejected rfl later follows, by decide⟩

end Sendword.Decision
