import Sendword.Footprint
import Sendword.Sequential
import Sendword.Store.Keys

/-!
# The pipeline of a trigger

`trigger_hook` asks its stages one after another.  Each of them writes one
part of the database only, so a request that one stage refuses leaves what
the later stages use as it was, and it is audited by one attempt.
-/

namespace Sendword

open Concurrency

/-- The stages that can refuse a request, in their order. -/
inductive Stage where
  | auth
  | body
  | filters
  | windows
  | cooldown
  | rateLimit
  | concurrency
  deriving DecidableEq, Repr

def Stage.rank : Stage → Nat
  | .auth => 0
  | .body => 1
  | .filters => 2
  | .windows => 3
  | .cooldown => 4
  | .rateLimit => 5
  | .concurrency => 6

/-- The stage that refuses a request with this status. -/
def TriggerAttemptStatus.refusedAt : TriggerAttemptStatus → Option Stage
  | .authFailed => some .auth
  | .validationFailed => some .body
  | .filtered => some .filters
  | .scheduleSkipped => some .windows
  | .cooldownSkipped => some .cooldown
  | .rateLimited => some .rateLimit
  | .concurrencyRejected => some .concurrency
  | .fired | .pendingApproval => none

/-- The operation belongs to a stage after this one, or starts the
execution. -/
def Op.after (stage : Stage) : Op → Prop
  | .sql (.execution (.selectLatestStarted _)) =>
      stage.rank < Stage.cooldown.rank
  | .sql (.counter _) => stage.rank < Stage.rateLimit.rank
  | .sql (.lock _) | .sql (.queue _) => stage.rank < Stage.concurrency.rank
  | .sql (.execution (.insert _)) | .sql (.execution (.update _))
  | .spawn _ => True
  | _ => False

variable {stage : Stage} {world middle after : World}
  {trace first second : List (Event Op.Answer)}

/-! ## What a run leaves alone -/

/-- A part of the database that no operation of the trace writes. -/
theorem runs_part {α Part : Type} {program : Async α} {value : α}
    (part : Db → Part) (runs : RunsAlone program world trace value after)
    (kept : ∀ event ∈ trace, ∀ db, part (event.op.db db) = part db) :
    part after.db = part world.db := by
  refine runs.kept (fun now => part now.db) ?_
  intro event member choice before answer final performed
  simp only [perform_db performed]
  exact kept event member before.db

theorem Op.executions_db {op : Op} (early : ¬ op.after stage) (db : Db) :
    (op.db db).executions = db.executions := by
  cases op with
  | sql statement =>
      cases statement with
      | execution statement =>
          cases statement with
          | insert | update => exact (early trivial).elim
          | selectById | selectLatestStarted | selectOverdue => rfl
      | lock | queue | attempt | counter =>
          exact Db.executions_exec (by intro record same; cases same)
  | now | newId | loadConfig | storeConfig | prepareLogFiles | runProcess
  | sendRequest | sleep | appendRetryMarker | sendNotification | spawn => rfl

theorem Op.counters_db {op : Op} (early : ¬ op.after stage)
    (before : stage.rank < Stage.rateLimit.rank) (db : Db) :
    (op.db db).counters = db.counters := by
  cases op with
  | sql statement =>
      cases statement with
      | counter => exact (early before).elim
      | execution | lock | queue | attempt =>
          exact Db.counters_exec (by intro counter same; cases same)
  | now | newId | loadConfig | storeConfig | prepareLogFiles | runProcess
  | sendRequest | sleep | appendRetryMarker | sendNotification | spawn => rfl

/-- The lock and the queue. -/
def Db.barriers (db : Db) : List LockRow × List QueueRow :=
  (db.locks, db.queue)

theorem Op.barriers_db {op : Op} (early : ¬ op.after stage)
    (before : stage.rank < Stage.concurrency.rank) (db : Db) :
    (op.db db).barriers = db.barriers := by
  cases op with
  | sql statement =>
      cases statement with
      | lock | queue => exact (early before).elim
      | execution | attempt | counter =>
          exact Prod.ext (Db.locks_exec (by intro lock same; cases same))
            (Db.queue_exec (by intro queue same; cases same))
  | now | newId | loadConfig | storeConfig | prepareLogFiles | runProcess
  | sendRequest | sleep | appendRetryMarker | sendNotification | spawn => rfl

def Op.audits : Op → Prop
  | .sql (.attempt _) => True
  | _ => False

theorem Op.attempts_db {op : Op} (other : ¬ op.audits) (db : Db) :
    (op.db db).attempts = db.attempts := by
  cases op with
  | sql statement =>
      cases statement with
      | attempt => exact (other trivial).elim
      | execution | lock | queue | counter =>
          exact Db.attempts_exec (by intro attempt same; cases same)
  | now | newId | loadConfig | storeConfig | prepareLogFiles | runProcess
  | sendRequest | sleep | appendRetryMarker | sendNotification | spawn => rfl

/-! ## The trigger rules -/

theorem Op.after_of_le {earlier : Stage} {op : Op}
    (order : earlier.rank ≤ stage.rank) (later : op.after stage) :
    op.after earlier := by
  cases op with
  | sql statement =>
      cases statement with
      | execution statement =>
          cases statement with
          | insert | update => trivial
          | selectLatestStarted => exact lt_of_le_of_lt order later
          | selectById | selectOverdue => exact later
      | lock | queue | counter => exact lt_of_le_of_lt order later
      | attempt => exact later
  | spawn => trivial
  | now | newId | loadConfig | storeConfig | prepareLogFiles | runProcess
  | sendRequest | sleep | appendRetryMarker | sendNotification =>
      exact later

/-- A check of the stage: it does nothing of a later stage, and refuses with
the status of its own. -/
structure ChecksAt (stage : Stage) (check : Async (Option Refusal)) :
    Prop where
  early : check.Avoids (Op.after stage)
  status : ∀ world trace refusal after,
    RunsAlone check world trace (some refusal) after →
    refusal.status.refusedAt = some stage

/-- Checks in the order of their stages: the refusal is that of one stage,
and nothing of a later stage has happened. -/
theorem firstRefusal_refused (checks : List (Stage × Async (Option Refusal)))
    {refusal : Refusal}
    (ordered : checks.Pairwise fun left right =>
      left.1.rank ≤ right.1.rank)
    (each : ∀ check ∈ checks, ChecksAt check.1 check.2)
    (runs : RunsAlone (firstRefusal (checks.map Prod.snd)) world trace
      (some refusal) after) :
    ∃ stage ∈ checks.map Prod.fst, refusal.status.refusedAt = some stage ∧
      ∀ event ∈ trace, ¬ event.op.after stage := by
  induction checks generalizing world trace with
  | nil =>
      obtain ⟨-, same, -⟩ := runs_return.mp runs
      cases same
  | cons check checks induction =>
      obtain ⟨stage, body⟩ := check
      have checksAt := each (stage, body) (by simp)
      obtain ⟨later, ordered⟩ := List.pairwise_cons.mp ordered
      obtain ⟨first, outcome, middle, second, rfl, here, rest⟩ :=
        runs_bind_eq.mp runs
      have early := here.avoids checksAt.early
      cases outcome with
      | some other =>
          obtain ⟨rfl, same, rfl⟩ := runs_return.mp rest
          cases same
          refine ⟨stage, by simp, checksAt.status _ _ _ _ here, ?_⟩
          simpa using early
      | none =>
          obtain ⟨last, member, status, quiet⟩ := induction ordered
            (fun other inRest => each other (List.mem_cons_of_mem _ inRest))
            rest
          obtain ⟨found, inRest, rfl⟩ := List.mem_map.mp member
          refine ⟨found.1, List.mem_cons_of_mem _ member, status, ?_⟩
          intro event inTrace
          rcases List.mem_append.mp inTrace with before | behind
          · exact fun isAfter =>
              early event before (Op.after_of_le (later found inRest) isAfter)
          · exact quiet event behind

variable {outside : Outside}

theorem checkFilters_checks (rules : TriggerRules) (payload : String) :
    ChecksAt .filters (checkFilters outside rules payload) where
  early := by
    unfold checkFilters
    split <;> trivial
  status := by
    intro world trace refusal after runs
    unfold checkFilters at runs
    split at runs
    · cases (runs_return.mp runs).2.1
    · obtain ⟨reason, -, rfl⟩ :=
        Option.map_eq_some_iff.mp (runs_return.mp runs).2.1.symm
      rfl

theorem checkWindows_checks (rules : TriggerRules) :
    ChecksAt .windows (checkWindows outside rules) where
  early := by
    unfold checkWindows
    split
    · trivial
    · simp [Program.op, Op.after]
  status := by
    intro world trace refusal after runs
    unfold checkWindows at runs
    split at runs
    · cases (runs_return.mp runs).2.1
    · obtain ⟨first, now, middle, second, rfl, -, ended⟩ :=
        runs_bind_eq.mp runs
      obtain ⟨reason, -, rfl⟩ :=
        Option.map_eq_some_iff.mp (runs_return.mp ended).2.1.symm
      rfl

theorem refusal_status {outcome : EvalOutcome} {code : Nat}
    {status : TriggerAttemptStatus} {refusal : Refusal}
    (only : ∀ other reason, outcome = .reject other reason → other = status)
    (refused : outcome.refusal code = some refusal) :
    refusal.status = status := by
  cases outcome with
  | allow => cases refused
  | reject other reason =>
      cases refused
      exact only other reason rfl

theorem Cooldown.evaluate_status {slug : String} {cooldown : Duration}
    {outcome : EvalOutcome}
    (runs : RunsAlone (Cooldown.evaluate slug cooldown) world trace outcome
      after) :
    ∀ status reason, outcome = .reject status reason →
      status = .cooldownSkipped := by
  rintro status reason rfl
  unfold Cooldown.evaluate at runs
  obtain ⟨first, now, middle, second, rfl, -, runs⟩ := runs_bind_eq.mp runs
  obtain ⟨third, latest, last, fourth, rfl, -, ended⟩ := runs_bind_eq.mp runs
  split at ended
  · cases (runs_return.mp ended).2.1
  · cases (runs_return.mp ended).2.1
  · split at ended
    · cases (runs_return.mp ended).2.1
    · cases (runs_return.mp ended).2.1
    · dsimp only at ended
      split at ended
      · cases (runs_return.mp ended).2.1
        rfl
      · cases (runs_return.mp ended).2.1

theorem checkCooldown_checks (rules : TriggerRules) (slug : String) :
    ChecksAt .cooldown (checkCooldown rules slug) where
  early := by
    refine (checkCooldown_ofSchedule rules slug).mono fun op isAfter => ?_
    intro scheduled
    cases op with
    | sql statement =>
        cases statement with
        | execution statement =>
            cases statement with
            | selectLatestStarted => exact lt_irrefl _ isAfter
            | insert | selectById | update | selectOverdue => exact scheduled
        | lock | queue | attempt | counter => exact scheduled
    | now => exact isAfter
    | newId | loadConfig | storeConfig | prepareLogFiles | runProcess
    | sendRequest | sleep | appendRetryMarker | sendNotification | spawn =>
        exact scheduled
  status := by
    intro world trace refusal after runs
    unfold checkCooldown at runs
    split at runs
    · cases (runs_return.mp runs).2.1
    · obtain ⟨first, outcome, middle, second, rfl, evaluated, ended⟩ :=
        runs_bind_eq.mp runs
      rw [refusal_status (Cooldown.evaluate_status evaluated)
        (runs_return.mp ended).2.1.symm]
      rfl

theorem RateLimit.outcomeOf_status {config : TriggerRateLimit}
    {rows : DbResult Nat} :
    ∀ status reason,
      RateLimit.outcomeOf outside config rows = .reject status reason →
      status = .rateLimited := by
  intro status reason refused
  unfold RateLimit.outcomeOf at refused
  split at refused
  · cases refused
  · cases refused
  · cases refused
    rfl

theorem checkRateLimit_checks (hook : HookConfig) (rules : TriggerRules)
    (slug : String) :
    ChecksAt .rateLimit (checkRateLimit outside hook rules slug) where
  early := by
    refine (checkRateLimit_ofRateLimit outside hook rules slug).mono
      fun op isAfter => ?_
    intro counts
    cases op with
    | sql statement =>
        cases statement with
        | counter => exact lt_irrefl _ isAfter
        | execution | lock | queue | attempt => exact counts
    | now => exact isAfter
    | newId | loadConfig | storeConfig | prepareLogFiles | runProcess
    | sendRequest | sleep | appendRetryMarker | sendNotification | spawn =>
        exact counts
  status := by
    intro world trace refusal after runs
    unfold checkRateLimit at runs
    split at runs
    · cases (runs_return.mp runs).2.1
    · obtain ⟨first, outcome, middle, second, rfl, evaluated, ended⟩ :=
        runs_bind_eq.mp runs
      unfold RateLimit.evaluate RateLimit.evaluateAt RateLimit.increment
        at evaluated
      obtain ⟨_, _, _, _, rfl, -, evaluated⟩ := runs_bind_eq.mp evaluated
      obtain ⟨_, _, _, _, rfl, -, evaluated⟩ := runs_bind_eq.mp evaluated
      obtain ⟨_, _, _, _, rfl, -, evaluated⟩ := runs_bind_eq.mp evaluated
      obtain ⟨-, rfl, -⟩ := runs_return.mp evaluated
      rw [refusal_status RateLimit.outcomeOf_status
        (runs_return.mp ended).2.1.symm]
      rfl

theorem evaluateRules_refused {hook : HookConfig} {slug payload : String}
    {refusal : Refusal}
    (runs : RunsAlone (evaluateRules outside hook slug payload) world trace
      (some refusal) after) :
    ∃ stage, stage.rank < Stage.concurrency.rank ∧
      refusal.status.refusedAt = some stage ∧
      ∀ event ∈ trace, ¬ event.op.after stage := by
  obtain ⟨stage, member, refused⟩ := firstRefusal_refused
    [(.filters, checkFilters outside (hook.triggerRules.getD {}) payload),
      (.windows, checkWindows outside (hook.triggerRules.getD {})),
      (.cooldown, checkCooldown (hook.triggerRules.getD {}) slug),
      (.rateLimit,
        checkRateLimit outside hook (hook.triggerRules.getD {}) slug)]
    (by simp [Stage.rank])
    (by
      simp only [List.mem_cons, List.not_mem_nil, or_false,
        forall_eq_or_imp, forall_eq]
      exact ⟨checkFilters_checks _ _, checkWindows_checks _,
        checkCooldown_checks _ _, checkRateLimit_checks _ _ _⟩)
    runs
  refine ⟨stage, ?_, refused⟩
  simp only [List.map_cons, List.map_nil, List.mem_cons, List.not_mem_nil,
    or_false] at member
  rcases member with rfl | rfl | rfl | rfl <;> decide

end Sendword
