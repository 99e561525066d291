import Sendword.Decision.Ghost

/-!
# The handlers obey the protocol of an approval request
-/

namespace Sendword.Decision

open Concurrency

attribute [local simp] nowUtc Sendword.newId Sendword.loadConfig
  Sendword.spawn sql Program.op

variable {target : String} {outside : Outside} {ghost : Ghost}
  {α : Type}

/-- What stays the same while a task has nothing to do with the
execution. -/
def Steady (ghost after : Ghost) : Prop :=
  after.grip = ghost.grip ∧ after.approver = ghost.approver

/-- The task has nothing in its hands but perhaps an unused identifier. -/
def Loose (ghost : Ghost) : Prop :=
  ghost.grip = none ∨ ghost.grip = some .fresh

theorem Steady.refl (ghost : Ghost) : Steady ghost ghost := ⟨rfl, rfl⟩

theorem Steady.trans {middle after : Ghost} (first : Steady ghost middle)
    (second : Steady middle after) : Steady ghost after :=
  ⟨second.1.trans first.1, second.2.trans first.2⟩

theorem Steady.loose {after : Ghost} (steady : Steady ghost after)
    (loose : Loose ghost) : Loose after := by
  rw [Loose, steady.1]
  exact loose

/-- The operations that concern the execution in no way. -/
def Plain (target : String) (op : Op) : Prop :=
  ∀ ghost, allows target ghost op ∧ ∀ answer after,
    moves target ghost op answer after → Steady ghost after

/-- A program whose operations all leave the task's hands alone. -/
theorem obeys_of_steady {program : Async α} {good : Op → Prop}
    (only : program.Avoids fun op => ¬ good op)
    (steady : ∀ now, Steady ghost now → ∀ op, good op →
      allows target now op ∧ ∀ answer after,
        moves target now op answer after → Steady now after) :
    (discipline target outside).Obeys program
      (fun after _ => Steady ghost after) ghost := by
  suffices general : ∀ now, Steady ghost now →
      (discipline target outside).Obeys program
        (fun after _ => Steady ghost after) now from
    general ghost (Steady.refl ghost)
  induction program with
  | pure value => exact fun now same => same
  | perform op next induction =>
      intro now same
      obtain ⟨allowed, kept⟩ := steady now same op (not_not.mp only.1)
      refine ⟨allowed, fun answer after moved => ?_⟩
      exact induction answer (only.2 answer) after
        (same.trans (kept answer after moved))

theorem obeys_of_plain {program : Async α} {good : Op → Prop}
    (only : program.Avoids fun op => ¬ good op)
    (plain : ∀ op, good op → Plain target op) :
    (discipline target outside).Obeys program
      (fun after _ => Steady ghost after) ghost :=
  obeys_of_steady only fun now _ op isGood => plain op isGood now

section Plain

theorem plain_now : Plain target .now := fun ghost =>
  ⟨trivial, fun _ _ moved => moved ▸ Steady.refl ghost⟩

theorem plain_lock (statement : LockStatement) :
    Plain target (.sql (.lock statement)) := fun ghost =>
  ⟨trivial, fun _ _ moved => moved ▸ Steady.refl ghost⟩

theorem plain_counter (statement : CounterStatement) :
    Plain target (.sql (.counter statement)) := fun ghost =>
  ⟨trivial, fun _ _ moved => moved ▸ Steady.refl ghost⟩

theorem plain_ofRules {op : Op} (ofRules : op.ofSchedule ∨ op.ofRateLimit) :
    Plain target op := by
  cases op with
  | now => exact plain_now
  | sql statement =>
      cases statement with
      | execution statement =>
          cases statement with
          | selectLatestStarted slug =>
              exact fun ghost =>
                ⟨trivial, fun _ _ moved => moved ▸ Steady.refl ghost⟩
          | insert | selectById | update | selectOverdue =>
              simp [Op.ofSchedule, Op.ofRateLimit] at ofRules
      | counter statement => exact plain_counter statement
      | lock | queue | attempt =>
          simp [Op.ofSchedule, Op.ofRateLimit] at ofRules
  | newId | loadConfig | storeConfig | prepareLogFiles | runProcess
  | sendRequest | sleep | appendRetryMarker | sendNotification | spawn =>
      simp [Op.ofSchedule, Op.ofRateLimit] at ofRules

theorem plain_ofNotification {op : Op} (notifies : op.ofNotification) :
    Plain target op := by
  cases op with
  | sendNotification config body =>
      exact fun ghost => ⟨trivial, fun _ _ moved => moved ▸ Steady.refl ghost⟩
  | sql statement =>
      cases statement with
      | execution statement =>
          cases statement with
          | selectById id =>
              exact fun ghost =>
                ⟨trivial, fun _ _ moved => moved.2 ▸ Steady.refl ghost⟩
          | insert | update | selectLatestStarted | selectOverdue =>
              exact notifies.elim
      | lock | queue | attempt | counter => exact notifies.elim
  | now | newId | loadConfig | storeConfig | prepareLogFiles | runProcess
  | sendRequest | sleep | appendRetryMarker | spawn => exact notifies.elim

/-- An update that is no decision and does not put an approved record back
keeps the task's hands as they are. -/
theorem steady_update {change : ExecutionUpdate} {answer : DbResult Nat}
    {after : Ghost} (pending : change.decides = none)
    (kept : updated target ghost change = ghost.grip)
    (moved : moves target ghost (.sql (.execution (.update change))) answer
      after) : Steady ghost after := by
  have quiet :
      decision? target ⟨.sql (.execution (.update change)), answer⟩ =
        none := by
    simp [decision?, pending]
  simp only [moves, quiet, pending] at moved
  exact moved ▸ ⟨kept, rfl⟩

/-- A run keeps to its own record. -/
theorem steady_ofRun {id : String} {op : Op} (ofRun : op.ofRun id)
    (own : id = target → ghost.grip = some .run) :
    allows target ghost op ∧ ∀ answer after,
      moves target ghost op answer after → Steady ghost after := by
  cases op with
  | sql statement =>
      cases statement with
      | execution statement =>
          cases statement with
          | update change =>
              cases change with
              | markRunning other time =>
                  obtain rfl : other = id := ofRun
                  exact ⟨own, fun _ _ => steady_update rfl rfl⟩
              | incrementRetryCount other =>
                  obtain rfl : other = id := ofRun
                  exact ⟨own, fun _ _ => steady_update rfl rfl⟩
              | resetToPending other =>
                  obtain rfl : other = id := ofRun
                  exact ⟨own, fun _ _ => steady_update rfl rfl⟩
              | markCompleted other status exitCode time =>
                  obtain ⟨rfl, ends⟩ := ofRun
                  exact ⟨fun same => ⟨own same, ends⟩,
                    fun _ _ => steady_update rfl rfl⟩
              | markApproved | resetApproved | markRejected | markExpired
              | markPendingApproval | failRunning => exact ofRun.elim
          | insert | selectById | selectLatestStarted | selectOverdue =>
              exact ofRun.elim
      | lock | queue | attempt | counter => exact ofRun.elim
  | now | prepareLogFiles | sleep | appendRetryMarker =>
      exact ⟨trivial, fun _ _ moved => moved ▸ Steady.refl ghost⟩
  | runProcess context =>
      exact ⟨fun same => own (ofRun.symm.trans same),
        fun _ _ moved => moved ▸ Steady.refl ghost⟩
  | sendRequest context =>
      exact ⟨fun same => own (ofRun.symm.trans same),
        fun _ _ moved => moved ▸ Steady.refl ghost⟩
  | newId | loadConfig | storeConfig | sendNotification | spawn =>
      exact ofRun.elim

end Plain

theorem obeys_evaluateRules (hook : HookConfig) (slug payload : String) :
    (discipline target outside).Obeys
      (evaluateRules outside hook slug payload)
      (fun after _ => Steady ghost after) ghost :=
  obeys_of_plain (evaluateRules_ofRules outside hook slug payload)
    fun _ => plain_ofRules

theorem obeys_notify (hook : HookConfig) (id : String)
    (result : ExecutionResult) :
    (discipline target outside).Obeys (notify outside hook id result)
      (fun after _ => Steady ghost after) ghost :=
  obeys_of_plain (notify_ofNotification outside hook id result)
    fun _ => plain_ofNotification

theorem obeys_runWithRetries (context : ExecutionContext)
    (retries : EffectiveRetryConfig)
    (own : context.executionId = target → ghost.grip = some .run) :
    (discipline target outside).Obeys (runWithRetries context retries)
      (fun after _ => Steady ghost after) ghost := by
  refine obeys_of_steady (runWithRetries_ofRun context retries)
    fun now same op ofRun => ?_
  exact steady_ofRun ofRun fun isTarget => same.1.trans (own isTarget)

/-! ## Statements -/

theorem plain_queueUpdate (change : QueueUpdate) :
    Plain target (.sql (.queue (.update change))) := fun ghost =>
  ⟨trivial, fun _ _ moved => moved ▸ Steady.refl ghost⟩

theorem plain_countWaiting (slug : String) :
    Plain target (.sql (.queue (.countWaiting slug))) := fun ghost =>
  ⟨trivial, fun _ _ moved => moved ▸ Steady.refl ghost⟩

theorem plain_markExpired (id : String) (time : Timestamp) :
    Plain target (.sql (.execution (.update (.markExpired id time)))) := by
  refine fun ghost => ⟨trivial, fun answer after moved => ?_⟩
  simp only [moves] at moved
  split at moved
  · exact moved.2 ▸ ⟨rfl, rfl⟩
  · exact moved ▸ ⟨rfl, rfl⟩

theorem plain_markRejected (id user : String) (time : Timestamp) :
    Plain target
      (.sql (.execution (.update (.markRejected id user time)))) := by
  refine fun ghost => ⟨trivial, fun answer after moved => ?_⟩
  simp only [moves] at moved
  split at moved
  · exact moved.2 ▸ ⟨rfl, rfl⟩
  · exact moved ▸ ⟨rfl, rfl⟩

attribute [local simp] plain_now plain_lock plain_queueUpdate
  plain_countWaiting plain_markExpired plain_markRejected

/-- A function that makes one statement of no concern. -/
theorem obeys_only {program : Async α}
    (only : program.Avoids fun op => ¬ Plain target op) :
    (discipline target outside).Obeys program
      (fun after _ => Steady ghost after) ghost :=
  obeys_of_plain only fun _ plain => plain

theorem obeys_release (slug : String) :
    (discipline target outside).Obeys (release slug)
      (fun after _ => Steady ghost after) ghost :=
  obeys_only (by simp [release])

theorem obeys_getById (id : String) :
    (discipline target outside).Obeys (getById id)
      (fun after found => Steady ghost after ∧
        ∀ row, found = .ok row → row.id = id) ghost := by
  refine ⟨trivial, fun answer after moved => ?_⟩
  obtain ⟨named, rfl⟩ := moved
  refine ⟨Steady.refl _, fun row found => named row ?_⟩
  cases answer with
  | error error => cases found
  | ok value =>
      cases value with
      | none => cases found
      | some value =>
          cases found
          rfl

theorem obeys_peekNext (slug : String) :
    (discipline target outside).Obeys (peekNext slug)
      (fun after found => Steady ghost after ∧ ∀ entry,
        found.toOption.join = some entry → entry.executionId ≠ target)
      ghost := by
  refine ⟨trivial, fun answer after moved => ?_⟩
  obtain ⟨other, rfl⟩ := moved
  refine ⟨Steady.refl _, fun entry found => other entry ?_⟩
  cases answer with
  | error error => cases found
  | ok value =>
      cases value with
      | none => cases found
      | some value =>
          cases found
          rfl

/-- An identifier that is handed out is the execution's, or another. -/
theorem obeys_newId (loose : Loose ghost) {rest : String → Async α}
    {post : Ghost → α → Prop}
    (obeys : ∀ id after, Loose after → after.approver = ghost.approver →
      (id = target → after.grip = some .fresh) →
      (discipline target outside).Obeys (rest id) post after) :
    (discipline target outside).Obeys (Program.perform .newId rest) post
      ghost := by
  refine ⟨trivial, fun id after moved => ?_⟩
  simp only [discipline, moves] at moved
  split at moved
  · obtain ⟨-, rfl⟩ := moved
    exact obeys id _ (.inr rfl) rfl fun _ => rfl
  · rename_i other
    subst moved
    exact obeys id _ loose rfl fun same => (other same).elim

theorem obeys_insertAttempt (new : NewTriggerAttempt) (loose : Loose ghost) :
    (discipline target outside).Obeys (insertAttempt new)
      (fun after _ => Loose after) ghost := by
  simp only [insertAttempt, nowUtc, Sendword.newId, sql, Program.op,
    Program.bind_eq, Program.pure_eq, Program.perform_bind,
    Program.pure_bind]
  refine obeys_newId loose fun id after looseAfter _ _ => ?_
  refine ⟨trivial, fun now _ same => ?_⟩
  obtain rfl := same
  refine ⟨trivial, fun inserted _ same => ?_⟩
  obtain rfl := same
  cases inserted with
  | error error => exact looseAfter
  | ok value =>
      refine ⟨trivial, fun row _ same => ?_⟩
      obtain rfl := same
      exact looseAfter

/-- `create` on a given identifier: only a record that waits for a decision
is created for the execution. -/
theorem obeys_create {new : NewExecution} {id : String}
    (named : new.id = some id) (loose : Loose ghost)
    (fresh : id = target → ghost.grip = some .fresh) :
    (discipline target outside).Obeys (create new)
      (fun after created => Loose after ∧ ∀ row, created = .ok row →
        row.id = id ∧ (id = target → new.status = some .pendingApproval))
      ghost := by
  simp only [create, named, nowUtc, sql, Program.op, Program.bind_eq,
    Program.pure_eq, Program.perform_bind, Program.pure_bind]
  refine ⟨trivial, fun now _ same => ?_⟩
  obtain rfl := same
  refine ⟨fresh, fun inserted after moved => ?_⟩
  have recorded (status : id = target → new.status = some .pendingApproval)
      (looseAfter : Loose after) :
      (discipline target outside).Obeys (getById id)
        (fun after created => Loose after ∧ ∀ row, created = .ok row →
          row.id = id ∧ (id = target → new.status = some .pendingApproval))
        after := by
    refine (obeys_getById id).mono ?_
    rintro last found ⟨steady, isNamed⟩
    exact ⟨steady.loose looseAfter, fun row same =>
      ⟨isNamed row same, status⟩⟩
  simp only [discipline, moves, NewExecution.record] at moved
  split at moved
  · rcases moved with ⟨rfl, status, rfl⟩ | ⟨rfl, rfl⟩
    · refine recorded (fun _ => ?_) (.inl rfl)
      cases given : new.status with
      | none => simp [given] at status
      | some value => simpa [given] using status
    · exact ⟨loose, fun row refused => by cases refused⟩
  · rename_i other
    subst moved
    cases inserted with
    | error error => exact ⟨loose, fun row refused => by cases refused⟩
    | ok value => exact recorded (fun same => (other same).elim) loose

theorem obeys_enqueue {execution : String} (slug : String)
    (loose : Loose ghost) (other : execution ≠ target) :
    (discipline target outside).Obeys (enqueue slug execution)
      (fun after _ => Loose after) ghost := by
  simp only [enqueue, nowUtc, Sendword.newId, sql, Program.op,
    Program.bind_eq, Program.pure_eq, Program.perform_bind,
    Program.pure_bind]
  refine obeys_newId loose fun id after looseAfter _ _ => ?_
  refine ⟨trivial, fun now _ same => ?_⟩
  obtain rfl := same
  refine ⟨other, fun inserted _ same => ?_⟩
  obtain rfl := same
  cases inserted with
  | error error => exact looseAfter
  | ok value =>
      refine ⟨trivial, fun row _ same => ?_⟩
      obtain rfl := same
      exact looseAfter

/-! ## Barriers -/

theorem obeys_onExecutionComplete (slug : String)
    (concurrency : Option ConcurrencyConfig)
    (approval : Option ApprovalConfig) :
    (discipline target outside).Obeys
      (onExecutionComplete slug concurrency approval)
      (fun _ _ => True) ghost := by
  have released {ghost : Ghost} :
      (discipline target outside).Obeys
        ((release slug).bind fun _ => .pure ()) (fun _ _ => True) ghost := by
    rw [Discipline.obeys_bind]
    exact (obeys_release slug).mono fun _ _ _ => trivial
  unfold onExecutionComplete
  split
  · exact released
  · split
    · exact released
    · rw [Program.bind_eq, Discipline.obeys_bind]
      refine (obeys_peekNext slug).mono ?_
      rintro after next ⟨-, other⟩
      split
      · exact released
      · rename_i queued found
        have away := other queued found
        rw [Program.bind_eq, Discipline.obeys_bind]
        refine (obeys_only (by simp [handOff])).mono fun after handed _ => ?_
        cases handed with
        | error error => exact trivial
        | ok _ =>
            rw [Program.bind_eq, Discipline.obeys_bind]
            refine (obeys_only (by simp [markReady])).mono fun after _ _ => ?_
            split
            · exact ⟨away, fun _ _ _ => trivial⟩
            · exact ⟨away, fun _ _ _ => trivial⟩

theorem obeys_completeHolder (slug id : String)
    (concurrency : Option ConcurrencyConfig)
    (approval : Option ApprovalConfig) :
    (discipline target outside).Obeys
      (completeHolder slug id concurrency approval)
      (fun _ _ => True) ghost := by
  rw [completeHolder, Program.bind_eq, Discipline.obeys_bind]
  refine (obeys_only (by simp [getHolder])).mono fun after holder _ => ?_
  split
  · exact obeys_onExecutionComplete ..
  · exact trivial

/-- The barrier proceeds with what it was given, or the identifier is spent
on a record that may run. -/
theorem obeys_evaluate (slug execId : String) (config : ConcurrencyConfig)
    {new : NewExecution} (named : new.id = some execId)
    (pending : new.status = none) (loose : Loose ghost)
    (fresh : execId = target → ghost.grip = some .fresh) :
    (discipline target outside).Obeys (evaluate slug execId config new)
      (fun after outcome => Loose after ∧ (outcome = .proceed →
        execId = target → after.grip = some .fresh)) ghost := by
  have ended {after : Ghost} {outcome : BarrierOutcome}
      (looseAfter : Loose after) (stops : outcome ≠ .proceed) :
      Loose after ∧ (outcome = .proceed →
        execId = target → after.grip = some .fresh) :=
    ⟨looseAfter, fun proceeds => (stops proceeds).elim⟩
  rw [evaluate, Program.bind_eq, Discipline.obeys_bind]
  refine (obeys_only (by simp [tryAcquire])).mono fun after acquired same => ?_
  have looseAfter := same.loose loose
  have freshAfter : execId = target → after.grip = some .fresh :=
    fun own => same.1.trans (fresh own)
  split
  · exact ended looseAfter (by simp [rejectConcurrency])
  · exact ⟨looseAfter, fun _ => freshAfter⟩
  · split
    · exact ended looseAfter (by simp [rejectConcurrency])
    · rw [Program.bind_eq, Discipline.obeys_bind]
      refine (obeys_only (by simp [countWaiting])).mono
        fun last counted kept => ?_
      have looseLast := kept.loose looseAfter
      split
      · exact ended looseLast (by simp [rejectConcurrency])
      · split
        · exact ended looseLast (by simp [rejectConcurrency])
        · rw [Program.bind_eq, Discipline.obeys_bind]
          refine (obeys_create named looseLast fun own =>
            kept.1.trans (freshAfter own)).mono ?_
          rintro final created ⟨looseFinal, facts⟩
          split
          · exact ended looseFinal (by simp [rejectConcurrency])
          · rename_i row
            have other : execId ≠ target := by
              intro own
              have parked := (facts row rfl).2 own
              rw [pending] at parked
              cases parked
            rw [Program.bind_eq, Discipline.obeys_bind]
            refine (obeys_enqueue slug looseFinal other).mono
              fun ending queued looseEnd => ?_
            split
            · exact ended looseEnd (by simp [rejectConcurrency])
            · exact ended looseEnd (by simp)

/-! ## `trigger_hook` -/

theorem obeys_startExecution (config : AppConfig) (hook : HookConfig)
    (slug sourceIp payload : String) {new : NewExecution} {id : String}
    (named : new.id = some id) (pending : new.status = none)
    (loose : Loose ghost) (fresh : id = target → ghost.grip = some .fresh) :
    (discipline target outside).Obeys
      (startExecution outside config hook slug sourceIp payload new)
      (fun _ _ => True) ghost := by
  rw [startExecution, Program.bind_eq, Discipline.obeys_bind]
  refine (obeys_create named loose fresh).mono ?_
  rintro after created ⟨looseAfter, facts⟩
  split
  · exact trivial
  · rename_i exec
    obtain ⟨sameId, status⟩ := facts exec rfl
    have other : exec.id ≠ target := by
      intro own
      have parked := status (sameId.symm.trans own)
      rw [pending] at parked
      cases parked
    rw [Program.bind_eq, Discipline.obeys_bind]
    refine (obeys_insertAttempt _ looseAfter).mono fun last _ _ => ?_
    exact ⟨fun own => (other own).elim, fun _ _ _ => trivial⟩

theorem obeys_passApproval (config : AppConfig) (hook : HookConfig)
    (slug sourceIp payload : String) {new : NewExecution} {id : String}
    (named : new.id = some id) (pending : new.status = none)
    (loose : Loose ghost) (fresh : id = target → ghost.grip = some .fresh) :
    (discipline target outside).Obeys
      (passApproval outside config hook slug sourceIp payload new)
      (fun _ _ => True) ghost := by
  unfold passApproval
  split
  · rw [Program.bind_eq, Discipline.obeys_bind]
    refine (obeys_create (by exact named) loose fresh).mono ?_
    rintro after created ⟨looseAfter, -⟩
    split
    · exact trivial
    · rw [Program.bind_eq, Discipline.obeys_bind]
      exact (obeys_insertAttempt _ looseAfter).mono fun _ _ _ => trivial
  · exact obeys_startExecution config hook slug sourceIp payload named
      pending loose fresh

theorem obeys_passBarriers (config : AppConfig) (hook : HookConfig)
    (slug sourceIp payload : String) (loose : Loose ghost) :
    (discipline target outside).Obeys
      (passBarriers outside config hook slug sourceIp payload)
      (fun _ _ => True) ghost := by
  simp only [passBarriers, Sendword.newId, Program.op, Program.bind_eq,
    Program.pure_eq, Program.perform_bind, Program.pure_bind]
  refine obeys_newId loose fun execId after looseAfter _ fresh => ?_
  split
  · exact obeys_passApproval config hook slug sourceIp payload rfl rfl
      looseAfter fresh
  · rw [Discipline.obeys_bind]
    refine (obeys_evaluate slug execId _ rfl rfl looseAfter fresh).mono ?_
    rintro last outcome ⟨looseLast, freshLast⟩
    cases outcome with
    | proceed =>
        exact obeys_passApproval config hook slug sourceIp payload rfl rfl
          looseLast (freshLast rfl)
    | reject status reason =>
        rw [Discipline.obeys_bind]
        exact (obeys_insertAttempt _ looseLast).mono fun _ _ _ => trivial
    | defer executionId status reason =>
        rw [Discipline.obeys_bind]
        exact (obeys_insertAttempt _ looseLast).mono fun _ _ _ => trivial

theorem obeys_triggerHook (request : TriggerRequest) (loose : Loose ghost) :
    (discipline target outside).Obeys (triggerHook outside request)
      (fun _ _ => True) ghost := by
  have logged (after : Ghost) (looseAfter : Loose after)
      (slug sourceIp : String) (status : TriggerAttemptStatus)
      (reason : String) (response : Response) :
      (discipline target outside).Obeys
        ((logRejection slug sourceIp status reason).bind
          fun _ => Program.pure response) (fun _ _ => True) after := by
    rw [Discipline.obeys_bind, logRejection, Program.bind_eq,
      Discipline.obeys_bind]
    exact (obeys_insertAttempt _ looseAfter).mono fun _ _ _ => trivial
  simp only [triggerHook, Sendword.loadConfig, Program.op, Program.bind_eq,
    Program.pure_eq, Program.perform_bind, Program.pure_bind]
  refine ⟨trivial, fun config after same => ?_⟩
  obtain rfl := same
  dsimp only
  split
  · exact trivial
  · split
    · exact logged _ loose ..
    · split
      · exact logged _ loose ..
      · rw [Discipline.obeys_bind]
        refine (obeys_evaluateRules _ _ _).mono fun last refusal same => ?_
        have looseLast := same.loose loose
        split
        · exact logged _ looseLast ..
        · exact obeys_passBarriers _ _ _ _ _ looseLast

/-! ## Decisions -/

/-- An approval that changes the record of the execution puts it into the
hands of its task. -/
theorem obeys_markApproved (id user : String)
    (approver : id = target → ghost.approver = some user) :
    (discipline target outside).Obeys (markApproved id user)
      (fun after approved => ∀ row, approved = .ok row →
        row.id = id ∧ (id = target → after.grip = some .approved)) ghost := by
  simp only [markApproved, nowUtc, sql, Program.op, Program.bind_eq,
    Program.pure_eq, Program.perform_bind, Program.pure_bind]
  refine ⟨trivial, fun now _ same => ?_⟩
  obtain rfl := same
  refine ⟨approver, fun rows after moved => ?_⟩
  cases rows with
  | error error => exact fun row refused => by cases refused
  | ok count =>
      cases count with
      | zero => exact fun row refused => by cases refused
      | succ count =>
          refine (obeys_getById id).mono ?_
          rintro last found ⟨steady, named⟩ row isRow
          refine ⟨named row isRow, fun own => steady.1.trans ?_⟩
          subst own
          simp only [discipline, moves, decision?, ExecutionUpdate.decides,
            ExecutionUpdate.target?, Except.toOption, Option.isSome_some,
            Option.getD_some, Nat.succ_pos, and_self, if_true] at moved
          rw [moved.2]
          rfl

theorem obeys_approveExecution (id user : String)
    (approver : id = target → ghost.approver = some user) :
    (discipline target outside).Obeys (approveExecution outside id user)
      (fun _ _ => True) ghost := by
  rw [approveExecution, Program.bind_eq, Discipline.obeys_bind]
  refine (obeys_markApproved id user approver).mono
    fun after approved facts => ?_
  split
  · exact trivial
  · rename_i exec
    obtain ⟨sameId, held⟩ := facts exec rfl
    simp only [Sendword.loadConfig, sql, Sendword.spawn, Program.op,
      Program.bind_eq, Program.pure_eq, Program.perform_bind,
      Program.pure_bind]
    refine ⟨trivial, fun config _ same => ?_⟩
    obtain rfl := same
    dsimp only
    split
    · exact trivial
    · refine ⟨fun own => held (sameId.symm.trans own),
        fun rows last moved => ?_⟩
      refine ⟨fun own => ?_, fun _ _ _ => trivial⟩
      change exec.id = target at own
      simp only [discipline, moves, decision?, ExecutionUpdate.decides,
        Option.isSome_none, Bool.false_eq_true, false_and, if_false,
        updated, if_pos own] at moved
      rw [moved]

theorem obeys_markRejected (id user : String) :
    (discipline target outside).Obeys (markRejected id user)
      (fun _ _ => True) ghost := by
  simp only [markRejected, nowUtc, sql, Program.op, Program.bind_eq,
    Program.pure_eq, Program.perform_bind, Program.pure_bind]
  refine ⟨trivial, fun now _ same => ?_⟩
  refine ⟨trivial, fun rows after moved => ?_⟩
  dsimp only
  split
  · exact trivial
  · exact (obeys_getById id).mono fun _ _ _ => trivial

theorem obeys_rejectExecution (id user : String) :
    (discipline target outside).Obeys (rejectExecution id user)
      (fun _ _ => True) ghost := by
  rw [rejectExecution, Program.bind_eq, Discipline.obeys_bind]
  refine (obeys_markRejected id user).mono fun after rejected _ => ?_
  split
  · exact trivial
  · rw [Program.bind_eq, Discipline.obeys_bind]
    refine (obeys_only (by simp [expireForExecution])).mono
      fun last _ _ => ?_
    refine ⟨trivial, fun config _ _ => ?_⟩
    simp only [Program.pure_eq, Program.pure_bind]
    split
    · exact trivial
    · rw [Program.bind_eq, Discipline.obeys_bind]
      exact (obeys_completeHolder ..).mono fun _ _ _ => trivial

theorem obeys_replayExecution (id : String) (loose : Loose ghost) :
    (discipline target outside).Obeys (replayExecution outside id)
      (fun _ _ => True) ghost := by
  simp only [replayExecution, Sendword.loadConfig, Program.op,
    Program.bind_eq, Program.pure_eq, Program.perform_bind,
    Program.pure_bind]
  refine ⟨trivial, fun config _ same => ?_⟩
  obtain rfl := same
  rw [Discipline.obeys_bind]
  refine (obeys_getById id).mono ?_
  rintro after found ⟨steady, -⟩
  split
  · exact trivial
  · split
    · exact trivial
    · simp only [Sendword.newId, Program.op, Program.perform_bind,
        Program.pure_bind]
      refine obeys_newId (steady.loose loose)
        fun execId last looseLast _ fresh => ?_
      rw [Discipline.obeys_bind]
      refine (obeys_create rfl looseLast fresh).mono ?_
      rintro final created ⟨looseFinal, facts⟩
      split
      · exact trivial
      · rename_i exec
        obtain ⟨sameId, status⟩ := facts exec rfl
        refine ⟨fun own => ?_, fun _ _ _ => trivial⟩
        have parked := status (sameId.symm.trans own)
        cases parked

/-! ## The sweep -/

theorem obeys_expireOne (hook : HookConfig) (id : String) :
    (discipline target outside).Obeys (expireOne hook id)
      (fun _ _ => True) ghost := by
  rw [expireOne, Program.bind_eq, Discipline.obeys_bind]
  refine (obeys_only (by simp [markExpired])).mono fun after expired _ => ?_
  split
  · exact trivial
  · rw [Program.bind_eq, Discipline.obeys_bind]
    refine (obeys_only (by simp [expireForExecution])).mono fun last _ _ => ?_
    exact obeys_completeHolder ..

theorem obeys_expireHooks (now : Instant) (hooks : List HookConfig) :
    (discipline target outside).Obeys (expireHooks now hooks)
      (fun _ _ => True) ghost := by
  induction hooks generalizing ghost with
  | nil => exact trivial
  | cons hook hooks induction =>
      unfold expireHooks
      split
      · exact induction
      · split
        · exact trivial
        · refine ⟨trivial, fun rows after _ => ?_⟩
          simp only [Program.bind_eq, Program.pure_bind,
            Discipline.obeys_bind]
          refine (Discipline.obeys_forEach _ _ _ (fun _ => True) _ trivial
            fun id ghost _ _ => obeys_expireOne hook id).mono
            fun last _ _ => ?_
          exact induction

/-! ## The detached tasks -/

theorem obeys_runExecution (context : ExecutionContext)
    (retries : EffectiveRetryConfig) (hook : HookConfig)
    (concurrency : Option ConcurrencyConfig)
    (approval : Option ApprovalConfig)
    (own : context.executionId = target → ghost.grip = some .run) :
    (discipline target outside).Obeys
      (runExecution outside context retries hook concurrency approval)
      (fun _ _ => True) ghost := by
  rw [runExecution, Program.bind_eq, Discipline.obeys_bind]
  refine (obeys_runWithRetries context retries own).mono
    fun after result _ => ?_
  rw [Program.bind_eq, Discipline.obeys_bind]
  refine (obeys_notify hook _ result).mono fun last _ _ => ?_
  split
  · exact obeys_onExecutionComplete ..
  · exact trivial

theorem obeys_runDequeued (slug id : String)
    (concurrency : Option ConcurrencyConfig)
    (approval : Option ApprovalConfig) (other : id ≠ target) :
    (discipline target outside).Obeys
      (runDequeued outside slug id concurrency approval)
      (fun _ _ => True) ghost := by
  have released {ghost : Ghost} :
      (discipline target outside).Obeys
        ((release slug).bind fun _ => .pure ()) (fun _ _ => True) ghost := by
    rw [Discipline.obeys_bind]
    exact (obeys_release slug).mono fun _ _ _ => trivial
  rw [runDequeued, Program.bind_eq, Discipline.obeys_bind]
  refine (obeys_getById id).mono ?_
  rintro after found ⟨-, named⟩
  split
  · exact released
  · rename_i exec
    refine ⟨trivial, fun config _ _ => ?_⟩
    simp only [Program.bind_eq, Program.pure_bind]
    split
    · exact released
    · rw [Discipline.obeys_bind]
      refine (obeys_runWithRetries _ _ fun own => ?_).mono
        fun last result _ => ?_
      · exact (other ((named exec rfl).symm.trans own)).elim
      · rw [Discipline.obeys_bind]
        refine (obeys_notify _ _ result).mono fun final _ _ => ?_
        exact obeys_onExecutionComplete ..

theorem lawful_bodies (job : Job) (admitted : admits target job) :
    (discipline target outside).Obeys ((server outside).body job)
      (fun _ _ => True) (start target job) := by
  change (discipline target outside).Obeys (taskBody outside job) _ _
  cases job with
  | trigger request => exact obeys_triggerHook request (.inl rfl)
  | approve id user =>
      refine obeys_approveExecution id user fun own => ?_
      simp [start, approver?, own]
  | reject id user => exact obeys_rejectExecution id user
  | replay id => exact obeys_replayExecution id (.inl rfl)
  | expirePendingApprovals =>
      refine ⟨trivial, fun config _ _ => ?_⟩
      refine ⟨trivial, fun now _ _ => ?_⟩
      simp only [Program.pure_bind, Discipline.obeys_bind]
      exact (obeys_expireHooks now config.hooks).mono fun _ _ _ => trivial
  | reloadConfig config => exact ⟨trivial, fun _ _ _ => trivial⟩
  | runExecution context retries hook concurrency approval =>
      simp only [taskBody, Program.bind_eq, Discipline.obeys_bind]
      refine (obeys_runExecution context retries hook concurrency approval
        fun own => ?_).mono fun _ _ _ => trivial
      simp [start, runs, own]
  | runDequeued slug execution concurrency approval =>
      simp only [taskBody, Program.bind_eq, Discipline.obeys_bind]
      exact (obeys_runDequeued slug execution concurrency approval
        admitted).mono fun _ _ _ => trivial

theorem lawful (target : String) (outside : Outside) :
    (discipline target outside).Lawful where
  bodies := lawful_bodies
  link_start := fun job _ => link_start target job
  link_moves := fun _ _ _ _ _ _ linked allowed moved =>
    link_moves linked allowed moved
  forks := by
    intro ghost op job allowed forked
    cases op with
    | spawn child =>
        obtain rfl : child = job := by simpa [server, forks] using forked
        cases child with
        | runDequeued => exact allowed
        | runExecution => trivial
        | trigger | approve | reject | replay | expirePendingApprovals
        | reloadConfig => exact allowed.elim
    | sql | now | newId | loadConfig | storeConfig | prepareLogFiles
    | runProcess | sendRequest | sleep | appendRetryMarker
    | sendNotification => cases forked

end Sendword.Decision
