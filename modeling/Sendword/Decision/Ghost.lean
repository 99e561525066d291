import Sendword.Concurrency.Discipline
import Sendword.Footprint
import Sendword.Hook.Ghost

/-!
# The protocol of one approval request

One execution is watched.  A ghost says what its task has in its hands of the
execution: the unused identifier, the approval it has made, the record it has
put back to `pending`, or the run.
-/

namespace Sendword.Decision

open Concurrency

/-- What a task has in its hands of the execution. -/
inductive Grip where
  | fresh
  | approved
  | cleared
  | run
  deriving DecidableEq

structure Ghost where
  grip : Option Grip := none
  /-- The user in whose name the task approves the execution. -/
  approver : Option String := none
  /-- The decisions of the task that changed the record. -/
  decisions : List ExecutionUpdate := []

/-- The task was started to run the execution. -/
def runs (target : String) : Job → Bool
  | .runExecution context .. => context.executionId == target
  | .runDequeued _ execution .. => execution == target
  | _ => false

/-- The event is a decision on the execution that changed its record. -/
def decision? (target : String) : Event Op.Answer → Option ExecutionUpdate
  | ⟨.sql (.execution (.update change)), answer⟩ =>
      if change.decides.isSome ∧ change.target? = some target ∧
          0 < (Except.toOption answer).getD 0 then
        some change
      else none
  | _ => none

/-- The decisions on the execution that a task has made. -/
def decisions (target : String) (past : Past) : List ExecutionUpdate :=
  past.filterMap (decision? target)

section Discipline

variable (target : String)

def allowsUpdate (ghost : Ghost) : ExecutionUpdate → Prop
  | .markApproved id user _ => id = target → ghost.approver = some user
  | .markRejected .. | .markExpired .. => True
  | .resetApproved id => id = target → ghost.grip = some .approved
  | .markRunning id _ | .incrementRetryCount id | .resetToPending id =>
      id = target → ghost.grip = some .run
  | .markCompleted id status _ _ => id = target →
      ghost.grip = some .run ∧
        (status = .success ∨ status = .failed ∨ status = .timedOut)
  | .markPendingApproval id => id ≠ target
  | .failRunning _ => False

def allows (ghost : Ghost) : Op → Prop
  | .sql (.execution (.insert row)) =>
      row.id = target → ghost.grip = some .fresh
  | .sql (.execution (.update change)) => allowsUpdate target ghost change
  | .sql (.queue (.enqueue _ _ execution _)) => execution ≠ target
  | .spawn (.runExecution context ..) =>
      context.executionId = target → ghost.grip = some .cleared
  | .spawn (.runDequeued _ execution ..) => execution ≠ target
  | .spawn _ => False
  | .runProcess context | .sendRequest context =>
      context.executionId = target → ghost.grip = some .run
  | _ => True

/-- What an update leaves in the task's hands. -/
def updated (ghost : Ghost) : ExecutionUpdate → Option Grip
  | .markApproved .. => some .approved
  | .resetApproved id => if id = target then some .cleared else ghost.grip
  | _ => ghost.grip

def moves (ghost : Ghost) (op : Op) (answer : op.Answer) (after : Ghost) :
    Prop :=
  match op, answer with
  | .sql (.execution (.insert row)), answer =>
      if row.id = target then
        (answer = .ok () ∧ row.status = .pendingApproval ∧
            after = { ghost with grip := none }) ∨
          (answer = .error .sqlx ∧ after = ghost)
      else after = ghost
  | .sql (.execution (.selectById id)), answer =>
      (∀ row : Execution, answer = .ok (some row) → row.id = id) ∧
        after = ghost
  | .sql (.execution (.update change)), answer =>
      match decision? target ⟨.sql (.execution (.update change)), answer⟩ with
      | some _ =>
          ghost.grip = none ∧
            after = { ghost with
              grip := updated target ghost change
              decisions := ghost.decisions ++ [change] }
      | none =>
          after = { ghost with
            grip := if change.decides.isSome then ghost.grip
              else updated target ghost change }
  | .sql (.queue (.peekNext _)), answer =>
      (∀ entry : QueueRow, answer = .ok (some entry) →
        entry.executionId ≠ target) ∧ after = ghost
  | .newId, id =>
      if id = target then
        ghost.grip = none ∧ after = { ghost with grip := some .fresh }
      else after = ghost
  | .spawn job, _ =>
      after = if runs target job then { ghost with grip := none } else ghost
  | _, _ => after = ghost

def admits : Job → Prop
  | .runDequeued _ execution .. => execution ≠ target
  | _ => True

/-- The user in whose name a task approves the execution. -/
def approver? : Job → Option String
  | .approve id user => if id = target then some user else none
  | _ => none

def start (job : Job) : Ghost where
  grip := if runs target job then some .run else none
  approver := approver? target job

structure Link (job : Job) (past : Past) (ghost : Ghost) : Prop where
  decisions : ghost.decisions = decisions target past
  approver : ghost.approver = approver? target job
  running : ghost.grip = some .run ↔ runs target job = true
  commands : (∃ event ∈ past, event.op.commandOf? = some target) →
    runs target job = true
  approved : ghost.grip = some .approved ∨ ghost.grip = some .cleared →
    ∃ user time, ghost.approver = some user ∧
      .markApproved target user time ∈ ghost.decisions

variable (outside : Outside)

def discipline : Discipline (server outside) Ghost where
  admits := admits target
  start := start target
  allows := allows target
  moves := moves target
  closes _ := True
  link := Link target

end Discipline

variable {target : String} {job : Job} {past : Past} {ghost after : Ghost}

theorem decisions_snoc (past : Past) (event : Event Op.Answer) :
    decisions target (past ++ [event]) =
      decisions target past ++ (decision? target event).toList := by
  rw [decisions, List.filterMap_append]
  cases found : decision? target event with
  | none => simp [decisions, found]
  | some change => simp [decisions, found]

theorem decision?_eq_some {change decided : ExecutionUpdate}
    {answer : DbResult Nat}
    (found : decision? target ⟨.sql (.execution (.update change)), answer⟩ =
      some decided) :
    decided = change ∧ change.decides.isSome = true ∧
      change.target? = some target ∧
      ∃ rows : Nat, 0 < rows ∧ answer = .ok rows := by
  simp only [decision?] at found
  split at found
  · rename_i decides
    cases found
    refine ⟨rfl, decides.1, decides.2.1, ?_⟩
    cases answer with
    | error error => simp [Except.toOption] at decides
    | ok rows => exact ⟨rows, decides.2.2, rfl⟩
  · cases found

theorem Link.commands_snoc {event : Event Op.Answer}
    (link : Link target job past ghost) (idle : event.op.commandOf? = none) :
    (∃ other ∈ past ++ [event], other.op.commandOf? = some target) →
      runs target job = true := by
  rintro ⟨other, member, command⟩
  rcases List.mem_append.mp member with old | new
  · exact link.commands ⟨other, old, command⟩
  · rw [List.mem_singleton.mp new, idle] at command
    cases command

/-- A move without a decision keeps what the ghost says of the past. -/
theorem Link.keep {event : Event Op.Answer} (link : Link target job past ghost)
    (quiet : decision? target event = none)
    (idle : event.op.commandOf? = none)
    (decisions : after.decisions = ghost.decisions)
    (approver : after.approver = ghost.approver)
    (running : after.grip = some .run ↔ ghost.grip = some .run)
    (approved : after.grip = some .approved ∨ after.grip = some .cleared →
      ghost.grip = some .approved ∨ ghost.grip = some .cleared) :
    Link target job (past ++ [event]) after where
  decisions := by
    rw [decisions_snoc, quiet, decisions, link.decisions]
    simp
  approver := approver.trans link.approver
  running := running.trans link.running
  commands := link.commands_snoc idle
  approved := by
    intro held
    rw [decisions, approver]
    exact link.approved (approved held)

theorem Link.same {event : Event Op.Answer}
    (link : Link target job past ghost)
    (quiet : decision? target event = none)
    (idle : event.op.commandOf? = none) :
    Link target job (past ++ [event]) ghost :=
  link.keep quiet idle rfl rfl Iff.rfl id

/-- The command of the execution is run by the task that has the run. -/
theorem Link.command {event : Event Op.Answer}
    (link : Link target job past ghost)
    (quiet : decision? target event = none)
    (allowed : ∀ id, event.op.commandOf? = some id → id = target →
      ghost.grip = some .run) :
    Link target job (past ++ [event]) ghost where
  decisions := by
    rw [decisions_snoc, quiet, link.decisions]
    simp
  approver := link.approver
  running := link.running
  commands := by
    rintro ⟨other, member, command⟩
    rcases List.mem_append.mp member with old | new
    · exact link.commands ⟨other, old, command⟩
    · rw [List.mem_singleton.mp new] at command
      exact link.running.mp (allowed target command rfl)
  approved := link.approved

theorem link_update {change : ExecutionUpdate} {answer : DbResult Nat}
    (link : Link target job past ghost)
    (allowed : allowsUpdate target ghost change)
    (moved : moves target ghost (.sql (.execution (.update change))) answer
      after) :
    Link target job
      (past ++ [⟨.sql (.execution (.update change)), answer⟩]) after := by
  simp only [moves] at moved
  split at moved
  · rename_i decided found
    obtain ⟨rfl, decides, aimed, rows, positive, rfl⟩ :=
      decision?_eq_some found
    obtain ⟨free, rfl⟩ := moved
    have noRun : ¬ runs target job = true := by
      rw [← link.running, free]
      simp
    cases decided with
    | markApproved id user time =>
        obtain rfl : id = target := by
          simpa [ExecutionUpdate.target?] using aimed
        refine ⟨?_, link.approver, ?_, link.commands_snoc rfl, ?_⟩
        · rw [decisions_snoc, found, link.decisions]
          rfl
        · simpa [updated] using noRun
        · intro _
          exact ⟨user, time, allowed rfl, by simp⟩
    | markRejected id user time =>
        refine ⟨?_, link.approver, ?_, link.commands_snoc rfl, ?_⟩
        · rw [decisions_snoc, found, link.decisions]
          rfl
        · simpa [updated, free] using noRun
        · simp [updated, free]
    | markExpired id time =>
        refine ⟨?_, link.approver, ?_, link.commands_snoc rfl, ?_⟩
        · rw [decisions_snoc, found, link.decisions]
          rfl
        · simpa [updated, free] using noRun
        · simp [updated, free]
    | markRunning | markCompleted | incrementRetryCount | resetToPending
    | resetApproved | markPendingApproval | failRunning => cases decides
  · rename_i quiet
    subst moved
    refine link.keep quiet rfl rfl rfl ?_ ?_
    · cases change with
      | resetApproved id =>
          simp only [ExecutionUpdate.decides, updated]
          by_cases own : id = target
          · simp [own, allowed own]
          · simp [own]
      | markApproved | markRejected | markExpired => rfl
      | markRunning | markCompleted | incrementRetryCount | resetToPending
      | markPendingApproval | failRunning => rfl
    · cases change with
      | resetApproved id =>
          simp only [ExecutionUpdate.decides, updated]
          by_cases own : id = target
          · exact fun _ => .inl (allowed own)
          · simp [own]
      | markApproved | markRejected | markExpired => exact id
      | markRunning | markCompleted | incrementRetryCount | resetToPending
      | markPendingApproval | failRunning => exact id

theorem link_moves {op : Op} {answer : op.Answer}
    (link : Link target job past ghost)
    (allowed : allows target ghost op)
    (moved : moves target ghost op answer after) :
    Link target job (past ++ [⟨op, answer⟩]) after := by
  cases op with
  | sql statement =>
      cases statement with
      | execution statement =>
          cases statement with
          | insert row =>
              simp only [moves] at moved
              split at moved
              · rename_i own
                rcases moved with ⟨-, -, rfl⟩ | ⟨-, rfl⟩
                · refine link.keep rfl rfl rfl rfl ?_ (by simp)
                  simp [allowed own]
                · exact link.same rfl rfl
              · exact moved ▸ link.same rfl rfl
          | selectById id => exact moved.2 ▸ link.same rfl rfl
          | update change => exact link_update link allowed moved
          | selectLatestStarted | selectOverdue => exact moved ▸ link.same rfl rfl
      | queue statement =>
          cases statement with
          | peekNext slug => exact moved.2 ▸ link.same rfl rfl
          | enqueue | selectPosition | countWaiting | update | expireStale =>
              exact moved ▸ link.same rfl rfl
      | lock | attempt | counter => exact moved ▸ link.same rfl rfl
  | newId =>
      simp only [moves] at moved
      split at moved
      · obtain ⟨free, rfl⟩ := moved
        exact link.keep rfl rfl rfl rfl (by simp [free]) (by simp)
      · exact moved ▸ link.same rfl rfl
  | spawn child =>
      simp only [moves] at moved
      split at moved
      · rename_i starts
        subst moved
        refine link.keep rfl rfl rfl rfl ?_ (by simp)
        cases child with
        | runExecution context retries hook concurrency approval =>
            have own : context.executionId = target := by
              simpa [runs] using starts
            simp [allowed own]
        | runDequeued slug execution concurrency approval =>
            exact (allowed (by simpa [runs] using starts)).elim
        | trigger | approve | reject | replay | expirePendingApprovals
        | reloadConfig => cases starts
      · exact moved ▸ link.same rfl rfl
  | runProcess context | sendRequest context =>
      refine moved ▸ link.command rfl fun _ own => ?_
      cases own
      exact allowed
  | now | loadConfig | storeConfig | prepareLogFiles | sleep
  | appendRetryMarker | sendNotification => exact moved ▸ link.same rfl rfl

theorem link_start (target : String) (job : Job) :
    Link target job [] (start target job) where
  decisions := rfl
  approver := rfl
  running := by
    simp only [start]
    split <;> simp_all
  commands := by
    rintro ⟨event, member, -⟩
    cases member
  approved := by
    simp only [start]
    split <;> simp

end Sendword.Decision
