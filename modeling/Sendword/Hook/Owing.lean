import Sendword.Concurrency.Monitor
import Sendword.Hook.Reconfigured

/-!
# Approvals that are still to be acted on

An approval makes its record `approved` before it reads the configuration,
and `pending` once it has found the hook there.
-/

namespace Sendword

open Concurrency

/-- The execution that a task was started to approve. -/
def Job.approves? : Job → Option String
  | .approve id _ => some id
  | _ => none

/-- What is remembered of an approval: whether it has changed its record and
not gone on from there. -/
structure Owing where
  approves : Option String
  owed : Bool := false

/-- The answer is a record of the hook. -/
def ownRow (slug : String) : DbResult (Option Execution) → Bool
  | .ok (some row) => row.hookSlug == slug
  | _ => false

def Owing.clear (owing : Owing) : Owing := { owing with owed := false }

/-- How an operation changes what its task owes to a record. -/
def owingStep (slug : String) (owing : Owing) : Event Op.Answer → Owing
  | ⟨.sql (.execution (.update (.markApproved ..))), answer⟩ =>
      if 0 < (Except.toOption answer).getD 0 then { owing with owed := true }
      else owing
  | ⟨.sql (.execution (.update (.resetApproved id))), _⟩ =>
      if owing.approves = some id then owing.clear else owing
  | ⟨.sql (.execution (.selectById id)), answer⟩ =>
      if owing.approves = some id ∧ ownRow slug answer = false then
        owing.clear
      else owing
  | _ => owing

/-- What a task owes after its past. -/
def owingOf (slug : String) (job : Job) (past : Past) : Owing :=
  past.foldl (owingStep slug) { approves := job.approves? }

theorem owingOf_snoc (slug : String) (job : Job) (past : Past)
    (event : Event Op.Answer) :
    owingOf slug job (past ++ [event]) =
      owingStep slug (owingOf slug job past) event := by
  simp [owingOf]

@[simp] theorem owingStep_approves (slug : String) (owing : Owing)
    (event : Event Op.Answer) :
    (owingStep slug owing event).approves = owing.approves := by
  unfold owingStep
  split
  · split <;> rfl
  · split <;> rfl
  · split <;> rfl
  · rfl

theorem owingOf_approves (slug : String) (job : Job) (past : Past) :
    (owingOf slug job past).approves = job.approves? := by
  induction past using List.reverseRecOn with
  | nil => rfl
  | append_singleton past event induction =>
      rw [owingOf_snoc, owingStep_approves, induction]

/-- Only an approval approves. -/
def Owing.allows (owing : Owing) : Op → Prop
  | .sql (.execution (.update (.markApproved id ..))) =>
      owing.approves = some id
  | _ => True

/-- A record is found under its identifier. -/
def FindsById (event : Event Op.Answer) : Prop :=
  ∀ id row, event = ⟨.sql (.execution (.selectById id)), .ok (some row)⟩ →
    row.id = id

/-- An approval ends owing nothing to a record of the hook. -/
def owingMonitor (watched : Watched) : Monitor Job Op.Answer Owing where
  start job := { approves := job.approves? }
  next := owingStep watched.slug
  allows := Owing.allows
  happens event := watched.ReadsBarriers event ∧ FindsById event

namespace Watched

variable {watched : Watched} {outside : Outside}

/-! ## What the programs owe -/

theorem owingStep_of_free {slug : String} {owing : Owing}
    {event : Event Op.Answer} (free : ¬ event.op.approves)
    (settled : owing.owed = false) :
    (owingStep slug owing event).owed = false := by
  unfold owingStep
  split
  · exact (free trivial).elim
  · split
    · rfl
    · exact settled
  · split
    · rfl
    · exact settled
  · exact settled

theorem owing_settled {α : Type} {program : Async α} {owing : Owing}
    (avoids : program.Avoids Op.approves) (settled : owing.owed = false) :
    (owingMonitor watched).Passes program
      (fun after _ => after.owed = false) owing := by
  refine .of_kept avoids (fun op other memory settled => ⟨?_, ?_⟩) settled
  · change memory.allows op
    unfold Owing.allows
    split
    · exact (other trivial).elim
    · trivial
  · exact fun answer => owingStep_of_free other settled

theorem KeepsBarriers.hook? {config : AppConfig}
    (keeps : watched.KeepsBarriers config) :
    (config.hook? watched.slug).isSome := by
  obtain ⟨hook, member, sameSlug, -⟩ := keeps.hook
  refine List.find?_isSome.mpr ⟨hook, member, ?_⟩
  simp [sameSlug]

/-- An approval that has changed a record of the hook resets it. -/
theorem approve_owing (id user : String) :
    (owingMonitor watched).Passes (approveExecution outside id user)
      (fun after _ => after.owed = false) { approves := some id } := by
  have settled (found : DbResult (Option Execution))
      (other : ownRow watched.slug found = false) {owing : Owing}
      (same : owing.approves = some id) :
      (owingStep watched.slug owing
        ⟨.sql (.execution (.selectById id)), found⟩).owed = false := by
    simp [owingStep, same, other, Owing.clear]
  have reset (rows : DbResult Nat) {owing : Owing}
      (same : owing.approves = some id) :
      (owingStep watched.slug owing
        ⟨.sql (.execution (.update (.resetApproved id))), rows⟩).owed =
          false := by
    simp [owingStep, same, Owing.clear]
  refine ⟨trivial, fun time _ => ⟨rfl, fun rows _ => ?_⟩⟩
  cases rows with
  | error error => exact (rfl : false = false)
  | ok rows =>
      cases rows with
      | zero => exact (rfl : false = false)
      | succ rows =>
          refine ⟨trivial, fun found happens => ?_⟩
          cases found with
          | error error => exact settled (.error error) rfl rfl
          | ok found =>
              cases found with
              | none => exact settled (.ok none) rfl rfl
              | some exec =>
                  by_cases own : exec.hookSlug = watched.slug
                  · refine ⟨trivial, fun config reads => ?_⟩
                    have keeps := (reads.1 config rfl).hook?
                    obtain rfl : exec.id = id := happens.2 id exec rfl
                    simp only [Program.pure_bind, own]
                    cases found : config.hook? watched.slug with
                    | none => simp [found] at keeps
                    | some hook =>
                        refine ⟨trivial, fun rows _ => ⟨trivial, fun _ _ => ?_⟩⟩
                        exact reset rows (by simp [owingMonitor])
                  · refine owing_settled ?_
                      (settled (.ok (some exec)) (by simp [ownRow, own])
                        (by simp [owingMonitor]))
                    refine ⟨fun approves => approves, fun config => ?_⟩
                    simp only [Program.pure_bind]
                    split
                    · trivial
                    · exact ⟨fun approves => approves, fun _ =>
                        ⟨fun approves => approves, fun _ => trivial⟩⟩

/-- Every task ends owing nothing to a record of the hook. -/
theorem body_owing (job : Job) :
    (owingMonitor watched).Passes (taskBody outside job)
      (fun after _ => after.owed = false)
      ((owingMonitor watched).start job) := by
  by_cases approval : ∃ id user, job = .approve id user
  · obtain ⟨id, user, rfl⟩ := approval
    exact approve_owing id user
  · refine owing_settled (body_reads fun id user same => ?_).2 rfl
    exact approval ⟨id, user, same⟩

/-! ## The records that are approved -/

/-- The task owes it to the execution to go on. -/
def Owes (owing : Owing) (id : String) : Prop :=
  owing.approves = some id ∧ owing.owed = true

/-- An approved record after an operation: either the operation approved it,
or it was approved before and the task owes it what it owed. -/
def StillOwed (slug : String) (db : Db) (row : Execution)
    (owing after : Owing) : Prop :=
  Owes after row.id ∨
    ∃ old ∈ db.executions, old.id = row.id ∧ old.hookSlug = slug ∧
      old.status = .approved ∧ (Owes owing row.id → Owes after row.id)

section Step

variable {db : Db} {owing : Owing} {row : Execution}

/-- No run of the hook ends as approved. -/
theorem completes_elsewhere {world : World} {ghost : Ghost}
    {rest : Multiset Ghost} {id : String} {exitCode : Option Int}
    {time : Timestamp} (holds : watched.Invariant world (ghost ::ₘ rest))
    (allowed : watched.allowsRecord ghost
      (.update (.markCompleted id .approved exitCode time)))
    (member : row ∈ world.db.executions) (sameId : row.id = id) :
    row.hookSlug ≠ watched.slug := by
  have found := holds.keys.execution?_eq member
  rw [sameId] at found
  simp only [allowsRecord] at allowed
  split at allowed
  · obtain ⟨-, advances⟩ := allowed
    obtain ⟨next?, next⟩ := Option.isSome_iff_exists.mp advances
    rcases watched.advances_cases next with
      ⟨_, time, same, -⟩ | ⟨_, status, exitCode, time, same, -, -, ended⟩ |
      ⟨_, same, -⟩ | ⟨_, same, -⟩ | ⟨_, same, -⟩ | ⟨_, same, -⟩
    · cases same
    · cases same
      simp at ended
    · cases same
    · cases same
    · cases same
    · cases same
  · rcases allowed with ⟨-, decides⟩ | ⟨-, target, known, same⟩
    · cases decides
    · cases same
      obtain ⟨other, isOther, -, different⟩ := holds.elsewhere_record known
      cases found.symm.trans isOther
      exact different
  · exact allowed.elim

theorem stillOwed_update {change : ExecutionUpdate}
    {answer : DbResult Nat}
    (answered : answer = .ok (db.executions.countP change.matches?))
    (allowed : owing.allows (.sql (.execution (.update change))))
    (completes : ∀ id exitCode time,
      change = .markCompleted id .approved exitCode time →
      ∀ row ∈ db.executions, row.id = id → row.hookSlug ≠ watched.slug)
    (member : row ∈ db.executions.map change.apply)
    (own : row.hookSlug = watched.slug) (approved : row.status = .approved) :
    StillOwed watched.slug db row owing (owingStep watched.slug owing
      ⟨.sql (.execution (.update change)), answer⟩) := by
  obtain ⟨old, inDb, rfl⟩ := List.mem_map.mp member
  rw [ExecutionUpdate.apply_hookSlug] at own
  simp only [StillOwed, ExecutionUpdate.apply_id]
  cases matched : change.matches? old with
  | true =>
      rw [ExecutionUpdate.apply_of_matches matched] at approved
      cases change with
      | markApproved id user time =>
          have sameId : old.id = id := by
            simp only [ExecutionUpdate.matches?, Bool.and_eq_true,
              beq_iff_eq] at matched
            exact matched.1
          have changed : 0 < db.executions.countP
              (ExecutionUpdate.markApproved id user time).matches? :=
            List.countP_pos_iff.mpr ⟨old, inDb, matched⟩
          subst answer
          have owing : owingStep watched.slug owing
              ⟨.sql (.execution (.update (.markApproved id user time))),
                .ok (db.executions.countP
                  (ExecutionUpdate.markApproved id user time).matches?)⟩ =
              { owing with owed := true } := if_pos changed
          rw [owing]
          exact .inl ⟨sameId ▸ allowed, rfl⟩
      | incrementRetryCount id =>
          exact .inr ⟨old, inDb, rfl, own, approved, fun owes => owes⟩
      | markRunning | resetToPending | resetApproved | markRejected
      | markExpired | markPendingApproval | failRunning => cases approved
      | markCompleted id status exitCode time =>
          have sameStatus : status = .approved := approved
          subst sameStatus
          have sameId : old.id = id := by
            simp only [ExecutionUpdate.matches?, Bool.and_eq_true,
              beq_iff_eq] at matched
            exact matched.1
          exact (completes id exitCode time rfl old inDb sameId own).elim
  | false =>
      rw [ExecutionUpdate.apply, if_neg (by simp [matched])] at approved
      refine .inr ⟨old, inDb, rfl, own, approved, fun owes => ?_⟩
      cases change with
      | markApproved =>
          simp only [owingStep]
          split
          · exact ⟨owes.1, rfl⟩
          · exact owes
      | resetApproved id =>
          simp only [owingStep]
          split
          · rename_i same
            have sameId : old.id = id := Option.some.inj (owes.1.symm.trans same)
            simp [ExecutionUpdate.matches?, sameId, approved] at matched
          · exact owes
      | markRunning | markCompleted | incrementRetryCount | resetToPending
      | markRejected | markExpired | markPendingApproval | failRunning =>
          exact owes

theorem stillOwed_same {after : Owing} (member : row ∈ db.executions)
    (own : row.hookSlug = watched.slug) (approved : row.status = .approved)
    (same : after = owing) : StillOwed watched.slug db row owing after :=
  .inr ⟨row, member, rfl, own, approved, fun owes => same ▸ owes⟩

/-- No record of the hook is inserted as approved. -/
theorem insert_unapproved {ghost : Ghost}
    (allowed : watched.allowsRecord ghost (.insert row))
    (own : row.hookSlug = watched.slug) : row.status ≠ .approved := by
  rw [allowsRecord, if_pos own] at allowed
  obtain ⟨-, -, -, ⟨-, status⟩ | ⟨-, -, status⟩⟩ := allowed
  · rw [status, initialStatus]
    split <;> simp
  · rw [status, initialStatus]
    split <;> simp

theorem stillOwed_record {world : World} {ghost : Ghost}
    {rest : Multiset Ghost} {statement : ExecutionStatement}
    (holds : watched.Invariant world (ghost ::ₘ rest))
    (permitted : watched.allowsRecord ghost statement)
    (allowed : owing.allows (.sql (.execution statement)))
    (member : row ∈ (statement.exec world.db).2.executions)
    (own : row.hookSlug = watched.slug) (approved : row.status = .approved) :
    StillOwed watched.slug world.db row owing (owingStep watched.slug owing
      ⟨.sql (.execution statement), (statement.exec world.db).1⟩) := by
  cases statement with
  | insert new =>
      have inDb : row ∈ world.db.executions := by
        rcases Db.insert_cases world.db new with accepted | refused
        · rw [accepted] at member
          rcases List.mem_append.mp member with old | last
          · exact old
          · obtain rfl := List.mem_singleton.mp last
            exact (insert_unapproved permitted own approved).elim
        · rwa [refused] at member
      exact stillOwed_same inDb own approved rfl
  | selectById id =>
      refine .inr ⟨row, member, rfl, own, approved, fun owes => ?_⟩
      simp only [owingStep]
      split
      · rename_i other
        have sameId : row.id = id :=
          Option.some.inj (owes.1.symm.trans other.1)
        have found : world.db.execution? id = some row :=
          sameId ▸ holds.keys.execution?_eq member
        have answered := other.2
        simp [ExecutionStatement.exec, found, ownRow, own] at answered
      · exact owes
  | update change =>
      refine stillOwed_update rfl allowed ?_ member own approved
      rintro id exitCode time rfl other inDb sameId
      exact completes_elsewhere holds permitted inDb sameId
  | selectLatestStarted slug => exact stillOwed_same member own approved rfl
  | selectOverdue slug cutoff => exact stillOwed_same member own approved rfl

theorem stillOwed_step {world state : World} {ghost : Ghost}
    {rest : Multiset Ghost} {op : Op} {choice : Choice} {answer : op.Answer}
    (holds : watched.Invariant (watched.configured world) (ghost ::ₘ rest))
    (permitted : ∀ statement, op = .sql (.execution statement) →
      watched.allowsRecord ghost statement)
    (allowed : owing.allows op)
    (performed : perform op choice world = some (answer, state))
    (member : row ∈ state.db.executions)
    (own : row.hookSlug = watched.slug) (approved : row.status = .approved) :
    StillOwed watched.slug world.db row owing
      (owingStep watched.slug owing ⟨op, answer⟩) := by
  rw [perform_db performed] at member
  cases op with
  | sql statement =>
      simp only [perform, Option.some.injEq, Prod.mk.injEq] at performed
      obtain ⟨rfl, -⟩ := performed
      by_cases onRecords : ∃ inner, statement = .execution inner
      · obtain ⟨inner, rfl⟩ := onRecords
        have still := stillOwed_record holds (permitted inner rfl) allowed
          member own approved
        exact still
      · have executions : (statement.exec world.db).2.executions =
            world.db.executions :=
          Db.executions_exec fun inner same => onRecords ⟨inner, same⟩
        refine stillOwed_same (executions ▸ member) own approved ?_
        cases statement with
        | execution inner => exact (onRecords ⟨inner, rfl⟩).elim
        | lock | queue | attempt | counter => rfl
  | now | newId | loadConfig | storeConfig | prepareLogFiles | spawn
  | runProcess | sendRequest | sleep | appendRetryMarker
  | sendNotification => exact stillOwed_same member own approved rfl

end Step

/-- Every approved record of the hook is owed by some task. -/
def ApprovalsOwed (slug : String) (pool : ServerPool) : Prop :=
  ∀ row ∈ pool.state.db.executions, row.hookSlug = slug →
    row.status = .approved → ∃ task ∈ pool.tasks,
      Owes (owingOf slug task.job task.trace) row.id

section Runs

variable {start pool target : ServerPool}

theorem open_finds (empty : start.tasks = [])
    (reached : (server outside).Reaches watched.Orderly start pool) :
    ∀ task ∈ pool.tasks, ∀ event ∈ task.trace, FindsById event := by
  refine Machine.Reaches.happened ?_ empty reached
  intro middle before _ _ _ op choice answer after _ _ performed id row same
  cases same
  simp only [server, perform, Option.some.injEq, Prod.mk.injEq] at performed
  have found : middle.state.db.execution? id = some row :=
    Except.ok.inj performed.1
  exact (Db.execution?_some found).2

/-- From the memory of its past on, every task passes. -/
theorem open_owing (empty : start.tasks = [])
    (reached : (server outside).Reaches watched.Orderly start pool) :
    ∀ task ∈ pool.tasks,
      (owingMonitor watched).Passes task.program
        (fun after _ => after.owed = false)
        (owingOf watched.slug task.job task.trace) := by
  have happened : ∀ task ∈ pool.tasks, ∀ event ∈ task.trace,
      (owingMonitor watched).happens event :=
    fun task member event inTrace =>
      ⟨open_reads empty reached task member event inTrace,
        open_finds empty reached task member event inTrace⟩
  exact Monitor.passes_of_reaches body_owing empty reached happened

theorem approvalsOwed_advance {index : Nat} {choice : Choice}
    (empty : start.tasks = []) (idle : watched.Idle start.state)
    (reached : (server outside).Reaches watched.Orderly start pool)
    (taken : (server outside).step pool (.advance index choice) = some target)
    (owed : ApprovalsOwed watched.slug pool) :
    ApprovalsOwed watched.slug target := by
  obtain ⟨job, trace, op, next, answer, state, found, performed, rfl⟩ :=
    Machine.step_advance taken
  obtain ⟨ghosts, covers, holds⟩ := reaches_open empty idle reached
  obtain ⟨ghost, -, parts, -, obeys⟩ := covers.pick found
  have passes := open_owing empty reached _ (List.mem_of_getElem? found)
  intro row member own approved
  have still := stillOwed_step (parts ▸ holds.1) ?_ passes.1 performed member
    own approved
  · rcases still with owes | ⟨old, inDb, sameId, oldOwn, oldApproved, kept⟩
    · refine ⟨_, List.mem_of_getElem? (Machine.moved_task found
        { job, trace := trace ++ [⟨op, answer⟩], program := next answer } _),
        ?_⟩
      rw [owingOf_snoc]
      exact owes
    · obtain ⟨task, member, owes⟩ := owed old inDb oldOwn oldApproved
      rw [sameId] at owes
      rcases Machine.mem_or_moved found member with rfl | stays
      · refine ⟨_, List.mem_of_getElem? (Machine.moved_task found
          { job, trace := trace ++ [⟨op, answer⟩], program := next answer } _),
          ?_⟩
        rw [owingOf_snoc]
        exact kept owes
      · exact ⟨task, stays _ _, owes⟩
  · rintro statement rfl
    exact obeys.1

theorem reaches_owed (empty : start.tasks = [])
    (idle : watched.Idle start.state)
    (reached : (server outside).Reaches watched.Orderly start pool) :
    ApprovalsOwed watched.slug pool := by
  induction reached with
  | refl =>
      intro row member own approved
      have ended := idle.ended row member own
      rw [approved] at ended
      cases ended
  | @step pool target label before admitted taken induction =>
      cases label with
      | arrive job =>
          obtain rfl : { pool with
              tasks := pool.tasks ++ [(server outside).launch job] } =
              target := by simpa [Machine.step] using taken
          intro row member own approved
          obtain ⟨task, inTasks, owes⟩ := induction row member own approved
          exact ⟨task, List.mem_append_left _ inTasks, owes⟩
      | advance index choice =>
          exact approvalsOwed_advance empty idle before taken induction

/-- An approved record of the hook is in the hands of an approval that has
not returned. -/
theorem approved_unfinished (empty : start.tasks = [])
    (idle : watched.Idle start.state)
    (reached : (server outside).Reaches watched.Orderly start pool)
    {row : Execution} (member : row ∈ pool.state.db.executions)
    (own : row.hookSlug = watched.slug) (approved : row.status = .approved) :
    ∃ task ∈ pool.tasks, task.job.approves? = some row.id ∧
      task.program.next? ≠ none := by
  obtain ⟨task, inTasks, approves, owed⟩ :=
    reaches_owed empty idle reached row member own approved
  have passes := open_owing empty reached task inTasks
  refine ⟨task, inTasks, (owingOf_approves ..).symm.trans approves, ?_⟩
  intro ended
  cases program : task.program with
  | pure response =>
      rw [program] at passes
      have settled : (owingOf watched.slug task.job task.trace).owed =
          false := passes
      rw [owed] at settled
      cases settled
  | perform op next => simp [program] at ended

end Runs

end Watched

end Sendword
