import Sendword.Concurrency.Trace
import Sendword.Server

/-!
# What programs touch

The operations that the trigger rules perform, a run between its first
attempt and its last, and the completion notification.
-/

namespace Sendword

open Concurrency

/-- The updates with which a run takes its record through its attempts. -/
def ExecutionUpdate.ofRun (id : String) : ExecutionUpdate → Prop
  | .markRunning target _ | .incrementRetryCount target
  | .resetToPending target => target = id
  | .markCompleted target status _ _ =>
      target = id ∧
        (status = .success ∨ status = .failed ∨ status = .timedOut)
  | _ => False

/-- The execution whose command the operation runs. -/
def Op.commandOf? : Op → Option String
  | .runProcess context | .sendRequest context => some context.executionId
  | _ => none

/-- The operations of the attempts of a run. -/
def Op.ofRun (id : String) : Op → Prop
  | .sql (.execution (.update change)) => change.ofRun id
  | .runProcess context | .sendRequest context => context.executionId = id
  | .now | .prepareLogFiles _ | .sleep .. | .appendRetryMarker .. => True
  | _ => False

/-- The operations of the notification. -/
def Op.ofNotification : Op → Prop
  | .sql (.execution (.selectById _)) | .sendNotification .. => True
  | _ => False

theorem ProcessOutcome.result_status (outcome : ProcessOutcome) :
    outcome.result.status = .success ∨ outcome.result.status = .failed ∨
      outcome.result.status = .timedOut := by
  cases outcome with
  | exited code =>
      simp only [result]
      split <;> simp
  | spawnFailed | waitFailed | elapsed => simp [result]

theorem HttpOutcome.result_status (outcome : HttpOutcome) :
    outcome.result.status = .success ∨ outcome.result.status = .failed ∨
      outcome.result.status = .timedOut := by
  cases outcome with
  | responded code =>
      simp only [result]
      split <;> simp
  | requestFailed | elapsed => simp [result]

section Runs

attribute [local simp] nowUtc Sendword.newId Sendword.loadConfig
  Sendword.spawn sql Program.op Op.ofRun ExecutionUpdate.ofRun

/-- One attempt, where the command is one operation. -/
theorem runCommand_ofRun (context : ExecutionContext) (command : Op)
    (result : command.Answer → ExecutionResult)
    (ofRun : command.ofRun context.executionId)
    (ends : ∀ outcome, (result outcome).status = .success ∨
      (result outcome).status = .failed ∨
      (result outcome).status = .timedOut) :
    (runCommand context (Program.perform command fun outcome =>
      .pure (result outcome))).Avoids
        fun op => ¬ op.ofRun context.executionId := by
  simp only [runCommand, Program.bind_eq, Program.op_bind,
    Program.avoids_perform]
  refine ⟨by simp, fun prepared => ?_⟩
  cases prepared with
  | false => trivial
  | true =>
      refine Program.Avoids.bind (by simp [markRunning]) fun started => ?_
      cases started with
      | error error => trivial
      | ok _ =>
          refine ⟨not_not.mpr ofRun, fun outcome => ?_⟩
          simp [markCompleted, ends outcome]

theorem runExecutor_ofRun (context : ExecutionContext) :
    (runExecutor context).Avoids
      fun op => ¬ op.ofRun context.executionId := by
  unfold runExecutor
  split
  · exact runCommand_ofRun context (.runProcess context) _ rfl
      ProcessOutcome.result_status
  · exact runCommand_ofRun context (.runProcess context) _ rfl
      ProcessOutcome.result_status
  · exact runCommand_ofRun context (.sendRequest context) _ rfl
      HttpOutcome.result_status

theorem retryLoop_ofRun (context : ExecutionContext)
    (retries : EffectiveRetryConfig) (remaining attempt : Nat)
    (result : ExecutionResult) :
    (retryLoop context retries remaining attempt result).Avoids
      fun op => ¬ op.ofRun context.executionId := by
  induction remaining generalizing attempt result with
  | zero => trivial
  | succ remaining induction =>
      unfold retryLoop
      split
      · refine Program.Avoids.bind ?_ fun _ => ?_
        · unfold backOff
          split <;> simp
        · refine Program.Avoids.bind (by simp) fun _ => ?_
          refine Program.Avoids.bind (by simp [incrementRetryCount])
            fun _ => ?_
          refine Program.Avoids.bind (by simp [resetToPending])
            fun reset => ?_
          cases reset with
          | error error => trivial
          | ok _ =>
              exact (runExecutor_ofRun context).bind fun result =>
                induction (attempt + 1) result
      · trivial

/-- A run only goes on with its own record. -/
theorem runWithRetries_ofRun (context : ExecutionContext)
    (retries : EffectiveRetryConfig) :
    (runWithRetries context retries).Avoids
      fun op => ¬ op.ofRun context.executionId :=
  (runExecutor_ofRun context).bind fun result =>
    retryLoop_ofRun context retries retries.count 1 result

theorem notify_ofNotification (outside : Outside) (hook : HookConfig)
    (id : String) (result : ExecutionResult) :
    (notify outside hook id result).Avoids
      fun op => ¬ op.ofNotification := by
  unfold notify
  split
  · trivial
  · refine Program.Avoids.bind (by simp [getById, Op.ofNotification])
      fun found => ?_
    cases found with
    | error error => trivial
    | ok execution =>
        simp only [sendNotification]
        split
        · trivial
        · split <;> simp [Op.ofNotification]

end Runs

/-! ## The trigger rules -/

/-- The operations of the rules before the rate limit. -/
def Op.ofSchedule : Op → Prop
  | .now | .sql (.execution (.selectLatestStarted _)) => True
  | _ => False

/-- The operations of the rate limit. -/
def Op.ofRateLimit : Op → Prop
  | .now | .sql (.counter _) => True
  | _ => False

section Rules

attribute [local simp] sql Program.op Op.ofSchedule Op.ofRateLimit

theorem checkFilters_ofSchedule (outside : Outside) (rules : TriggerRules)
    (payload : String) :
    (checkFilters outside rules payload).Avoids
      fun op => ¬ op.ofSchedule := by
  unfold checkFilters
  split <;> trivial

theorem checkWindows_ofSchedule (outside : Outside) (rules : TriggerRules) :
    (checkWindows outside rules).Avoids fun op => ¬ op.ofSchedule := by
  unfold checkWindows
  split
  · trivial
  · simp

theorem checkCooldown_ofSchedule (rules : TriggerRules) (slug : String) :
    (checkCooldown rules slug).Avoids fun op => ¬ op.ofSchedule := by
  unfold checkCooldown
  split
  · trivial
  · refine Program.Avoids.bind ?_ fun _ => trivial
    refine Program.Avoids.bind (by simp) fun now => ?_
    refine Program.Avoids.bind (by simp [getLatestStartedByHook])
      fun latest => ?_
    split
    · trivial
    · trivial
    · split
      · trivial
      · trivial
      · dsimp only
        split <;> trivial

theorem checkRateLimit_ofRateLimit (outside : Outside) (hook : HookConfig)
    (rules : TriggerRules) (slug : String) :
    (checkRateLimit outside hook rules slug).Avoids
      fun op => ¬ op.ofRateLimit := by
  unfold checkRateLimit
  split
  · trivial
  · simp [RateLimit.evaluate, RateLimit.evaluateAt, RateLimit.increment]

theorem firstRefusal_avoids {bad : Op → Prop}
    {checks : List (Async (Option Refusal))}
    (avoids : ∀ check ∈ checks, check.Avoids bad) :
    (firstRefusal checks).Avoids bad := by
  induction checks with
  | nil => trivial
  | cons check checks induction =>
      refine (avoids check (by simp)).bind fun refusal => ?_
      cases refusal with
      | some refusal => trivial
      | none =>
          exact induction fun other member =>
            avoids other (List.mem_cons_of_mem _ member)

/-- The rules read the clock and the latest start, and count. -/
theorem evaluateRules_ofRules (outside : Outside) (hook : HookConfig)
    (slug payload : String) :
    (evaluateRules outside hook slug payload).Avoids
      fun op => ¬ (op.ofSchedule ∨ op.ofRateLimit) := by
  have schedule {op : Op} (neither : ¬ (op.ofSchedule ∨ op.ofRateLimit)) :
      ¬ op.ofSchedule := fun scheduled => neither (.inl scheduled)
  have counts {op : Op} (neither : ¬ (op.ofSchedule ∨ op.ofRateLimit)) :
      ¬ op.ofRateLimit := fun counted => neither (.inr counted)
  refine firstRefusal_avoids ?_
  simp only [List.mem_cons, List.not_mem_nil, or_false, forall_eq_or_imp,
    forall_eq]
  refine ⟨?_, ?_, ?_, ?_⟩
  · exact (checkFilters_ofSchedule ..).mono fun _ => schedule
  · exact (checkWindows_ofSchedule ..).mono fun _ => schedule
  · exact (checkCooldown_ofSchedule ..).mono fun _ => schedule
  · exact (checkRateLimit_ofRateLimit ..).mono fun _ => counts

end Rules

/-! ## Attempts -/

/-- The operations with which an attempt is logged. -/
def Op.ofAttempt : Op → Prop
  | .newId | .now | .sql (.attempt _) => True
  | _ => False

theorem insertAttempt_ofAttempt (new : NewTriggerAttempt) :
    (insertAttempt new).Avoids fun op => ¬ op.ofAttempt := by
  refine .bind (by simp [newId, Program.op, Op.ofAttempt]) fun id => ?_
  refine .bind (by simp [nowUtc, Program.op, Op.ofAttempt]) fun time => ?_
  refine .bind (by simp [sql, Program.op, Op.ofAttempt]) fun inserted => ?_
  cases inserted with
  | error error => trivial
  | ok _ => simp [sql, Program.op, Op.ofAttempt]

theorem logRejection_ofAttempt (hookSlug sourceIp : String)
    (status : TriggerAttemptStatus) (reason : String) :
    (logRejection hookSlug sourceIp status reason).Avoids
      fun op => ¬ op.ofAttempt :=
  (insertAttempt_ofAttempt _).bind fun _ => trivial

/-! ## New records -/

/-- The operations with which an execution is recorded and read back. -/
def Op.ofCreate : Op → Prop
  | .newId | .now | .sql (.execution (.insert _))
  | .sql (.execution (.selectById _)) => True
  | _ => False

theorem create_ofCreate (new : NewExecution) :
    (create new).Avoids fun op => ¬ op.ofCreate := by
  have records (id : String) :
      (recordAs new id).Avoids fun op => ¬ op.ofCreate := by
    unfold recordAs
    refine .bind (by simp [nowUtc, Program.op, Op.ofCreate]) fun time => ?_
    refine .bind (by simp [sql, Program.op, Op.ofCreate]) fun inserted => ?_
    cases inserted with
    | error error => trivial
    | ok _ => simp [getById, sql, Program.op, Op.ofCreate]
  unfold create
  cases new.id with
  | none =>
      exact .bind (by simp [newId, Program.op, Op.ofCreate])
        fun id => records id
  | some id => exact records id

/-- Past the concurrency barrier a trigger records its execution, logs the
attempt and starts the run. -/
theorem passApproval_ofCreate (outside : Outside) (config : AppConfig)
    (hook : HookConfig) (slug sourceIp payload : String)
    (new : NewExecution) :
    (passApproval outside config hook slug sourceIp payload new).Avoids
      fun op => ¬ (op.ofCreate ∨ op.ofAttempt ∨ ∃ job, op = .spawn job) := by
  have creates (new : NewExecution) : (create new).Avoids
      fun op => ¬ (op.ofCreate ∨ op.ofAttempt ∨ ∃ job, op = .spawn job) :=
    (create_ofCreate new).mono
      fun _ neither ofCreate => neither (.inl ofCreate)
  have logs (attempt : NewTriggerAttempt) : (insertAttempt attempt).Avoids
      fun op => ¬ (op.ofCreate ∨ op.ofAttempt ∨ ∃ job, op = .spawn job) :=
    (insertAttempt_ofAttempt attempt).mono
      fun _ neither ofAttempt => neither (.inr (.inl ofAttempt))
  unfold passApproval
  split
  · refine (creates _).bind fun created => ?_
    cases created with
    | error error => trivial
    | ok exec => exact (logs _).bind fun _ => trivial
  · refine (creates _).bind fun created => ?_
    cases created with
    | error error => trivial
    | ok exec =>
        refine (logs _).bind fun _ => ?_
        simp [spawn, Program.op]

/-! ## The concurrency barrier -/

/-- The operations of the concurrency barrier of a hook. -/
def Op.ofBarrier (slug : String) : Op → Prop
  | .sql (.lock (.insertOrIgnore target _ _))
  | .sql (.queue (.countWaiting target))
  | .sql (.queue (.enqueue _ target _ _)) => target = slug
  | .sql (.queue (.selectPosition _)) => True
  | op => op.ofCreate

section Barrier

attribute [local simp] nowUtc Sendword.newId sql Program.op Op.ofBarrier
  Op.ofCreate

theorem Op.ofCreate.ofBarrier {op : Op} {slug : String}
    (ofCreate : op.ofCreate) : op.ofBarrier slug := by
  unfold Op.ofBarrier
  split
  · exact ofCreate.elim
  · exact ofCreate.elim
  · exact ofCreate.elim
  · trivial
  · exact ofCreate

theorem evaluate_ofBarrier (slug execId : String) (config : ConcurrencyConfig)
    (new : NewExecution) :
    (evaluate slug execId config new).Avoids fun op => ¬ op.ofBarrier slug := by
  refine .bind (by simp [tryAcquire]) fun acquired => ?_
  split
  · trivial
  · trivial
  · split
    · trivial
    · refine .bind (by simp [countWaiting]) fun count => ?_
      split
      · trivial
      · split
        · trivial
        · refine Program.Avoids.bind ((create_ofCreate new).mono
            fun _ outside ofCreate => outside ofCreate.ofBarrier)
              fun created => ?_
          split
          · trivial
          · refine .bind ?_ fun position => ?_
            · refine .bind (by simp) fun id => .bind (by simp) fun time => ?_
              refine .bind (by simp) fun inserted => ?_
              split <;> simp
            · split <;> trivial

end Barrier

/-- Past its authentication a trigger passes the barriers of its hook, logs
the attempt and starts the run. -/
theorem passBarriers_ofBarrier (outside : Outside) (config : AppConfig)
    (hook : HookConfig) (slug sourceIp payload : String) :
    (passBarriers outside config hook slug sourceIp payload).Avoids
      fun op => ¬ (op.ofBarrier slug ∨ op.ofAttempt ∨
        ∃ job, op = .spawn job) := by
  have approves (new : NewExecution) : (passApproval outside config hook slug
      sourceIp payload new).Avoids fun op => ¬ (op.ofBarrier slug ∨
        op.ofAttempt ∨ ∃ job, op = .spawn job) :=
    (passApproval_ofCreate ..).mono fun _ neither ofCreate =>
      neither (ofCreate.imp_left Op.ofCreate.ofBarrier)
  have logs (new : NewTriggerAttempt) (response : Response) : (do
      let _ ← insertAttempt new
      return response : Async Response).Avoids fun op => ¬ (op.ofBarrier slug ∨
        op.ofAttempt ∨ ∃ job, op = .spawn job) :=
    .bind ((insertAttempt_ofAttempt new).mono
      fun _ neither ofAttempt => neither (.inr (.inl ofAttempt)))
        fun _ => trivial
  refine .bind ?_ fun execId => ?_
  · simp [Sendword.newId, Program.op, Op.ofBarrier, Op.ofCreate]
  · dsimp only
    split
    · exact approves _
    · refine Program.Avoids.bind ((evaluate_ofBarrier ..).mono
        fun _ neither ofBarrier => neither (.inl ofBarrier)) fun outcome => ?_
      split
      · exact approves _
      · exact logs _ _
      · exact logs _ _

/-! ## Completions -/

section Completions

/-- The operations with which a lock is handed on or released. -/
def Op.ofCompletion (slug : String) : Op → Prop
  | .now | .sql (.queue (.update (.markReady _)))
  | .sql (.execution (.update (.markPendingApproval _))) => True
  | .sql (.lock (.delete target)) | .sql (.lock (.update target ..))
  | .sql (.queue (.peekNext target)) | .spawn (.runDequeued target ..) =>
      target = slug
  | _ => False

attribute [local simp] nowUtc Sendword.spawn sql Program.op Op.ofCompletion

theorem onExecutionComplete_ofCompletion (slug : String)
    (concurrency : Option ConcurrencyConfig)
    (approval : Option ApprovalConfig) :
    (onExecutionComplete slug concurrency approval).Avoids
      fun op => ¬ op.ofCompletion slug := by
  unfold onExecutionComplete
  split
  · simp [release]
  · split
    · simp [release]
    · refine .bind (by simp [peekNext]) fun next => ?_
      split
      · simp [release]
      · refine .bind (by simp [handOff]) fun handed => ?_
        split
        · trivial
        · refine .bind (by simp [markReady]) fun _ => ?_
          split
          · simp [markPendingApproval]
          · simp

end Completions

/-! ## Triggers -/

/-- The operations that only a trigger performs. -/
def Op.ofTrigger : Op → Prop
  | .sql (.queue (.enqueue ..)) | .sql (.queue (.countWaiting _))
  | .sql (.queue (.selectPosition _)) | .sql (.lock (.insertOrIgnore ..))
  | .sql (.execution (.selectLatestStarted _)) | .sql (.counter _)
  | .sql (.attempt _) => True
  | _ => False

section Triggers

attribute [local simp] nowUtc Sendword.newId Sendword.loadConfig
  Sendword.spawn sql Program.op Op.ofTrigger

theorem Op.ofTrigger.elsewhere {op : Op} (ofTrigger : op.ofTrigger) :
    (∀ id, ¬ op.ofRun id) ∧ ¬ op.ofNotification ∧
      (∀ slug, ¬ op.ofCompletion slug) ∧ ¬ op.ofCreate := by
  unfold Op.ofTrigger at ofTrigger
  split at ofTrigger
  case h_8 => exact ofTrigger.elim
  all_goals exact ⟨fun _ => id, id, fun _ => id, id⟩

theorem runWithRetries_ofTrigger (context : ExecutionContext)
    (retries : EffectiveRetryConfig) :
    (runWithRetries context retries).Avoids Op.ofTrigger :=
  (runWithRetries_ofRun context retries).mono
    fun _ ofTrigger => ofTrigger.elsewhere.1 _

theorem notify_ofTrigger (outside : Outside) (hook : HookConfig)
    (id : String) (result : ExecutionResult) :
    (notify outside hook id result).Avoids Op.ofTrigger :=
  (notify_ofNotification outside hook id result).mono
    fun _ ofTrigger => ofTrigger.elsewhere.2.1

theorem onExecutionComplete_ofTrigger (slug : String)
    (concurrency : Option ConcurrencyConfig)
    (approval : Option ApprovalConfig) :
    (onExecutionComplete slug concurrency approval).Avoids Op.ofTrigger :=
  (onExecutionComplete_ofCompletion slug concurrency approval).mono
    fun _ ofTrigger => ofTrigger.elsewhere.2.2.1 slug

theorem completeHolder_ofTrigger (slug id : String)
    (concurrency : Option ConcurrencyConfig)
    (approval : Option ApprovalConfig) :
    (completeHolder slug id concurrency approval).Avoids Op.ofTrigger := by
  unfold completeHolder
  refine .bind (by simp [getHolder]) fun holder => ?_
  split
  · exact onExecutionComplete_ofTrigger ..
  · trivial

theorem approveExecution_ofTrigger (outside : Outside) (id user : String) :
    (approveExecution outside id user).Avoids Op.ofTrigger := by
  unfold approveExecution
  refine .bind ?_ fun approved => ?_
  · simp only [markApproved, nowUtc, sql, Program.op, Program.bind_eq,
      Program.perform_bind, Program.pure_bind, Program.avoids_perform]
    refine ⟨by simp, fun time => ⟨by simp, fun rows => ?_⟩⟩
    dsimp only
    split
    · trivial
    · simp [getById]
  · cases approved with
    | error error => trivial
    | ok exec =>
        refine .bind (by simp) fun config => ?_
        split <;> simp

theorem rejectExecution_ofTrigger (id user : String) :
    (rejectExecution id user).Avoids Op.ofTrigger := by
  unfold rejectExecution
  refine .bind ?_ fun rejected => ?_
  · simp only [markRejected, nowUtc, sql, Program.op, Program.bind_eq,
      Program.perform_bind, Program.pure_bind, Program.avoids_perform]
    refine ⟨by simp, fun time => ⟨by simp, fun rows => ?_⟩⟩
    dsimp only
    split
    · trivial
    · simp [getById]
  · cases rejected with
    | error error => trivial
    | ok exec =>
        refine .bind (by simp [expireForExecution]) fun _ => ?_
        refine .bind (by simp) fun config => ?_
        split
        · trivial
        · exact (completeHolder_ofTrigger ..).bind fun _ => trivial

theorem create_ofTrigger (new : NewExecution) :
    (create new).Avoids Op.ofTrigger :=
  (create_ofCreate new).mono fun _ ofTrigger => ofTrigger.elsewhere.2.2.2

theorem replayExecution_ofTrigger (outside : Outside) (id : String) :
    (replayExecution outside id).Avoids Op.ofTrigger := by
  unfold replayExecution
  refine .bind (by simp) fun config => ?_
  refine .bind (by simp [getById]) fun original => ?_
  cases original with
  | error error => trivial
  | ok original =>
      dsimp only
      split
      · trivial
      · refine .bind (by simp) fun execId => ?_
        refine (create_ofTrigger _).bind fun created => ?_
        cases created with
        | error error => trivial
        | ok exec => simp

theorem expireHooks_ofTrigger (now : Instant) (hooks : List HookConfig) :
    (expireHooks now hooks).Avoids Op.ofTrigger := by
  induction hooks with
  | nil => trivial
  | cons hook hooks induction =>
      unfold expireHooks
      split
      · exact induction
      · split
        · trivial
        · refine .bind (by simp) fun rows => ?_
          refine .bind (.forEach fun id member => ?_) fun _ => induction
          refine .bind (by simp [markExpired]) fun expired => ?_
          cases expired with
          | error error => trivial
          | ok _ =>
              exact .bind (by simp [expireForExecution])
                fun _ => completeHolder_ofTrigger ..

/-- The other jobs perform none of these operations. -/
theorem body_ofTrigger {outside : Outside} {job : Job}
    (other : ∀ request, job ≠ .trigger request) :
    (taskBody outside job).Avoids Op.ofTrigger := by
  cases job with
  | trigger request => exact (other request rfl).elim
  | approve id user => exact approveExecution_ofTrigger outside id user
  | reject id user => exact rejectExecution_ofTrigger id user
  | replay id => exact replayExecution_ofTrigger outside id
  | expirePendingApprovals =>
      refine .bind (.bind (by simp) fun config => ?_) fun _ => trivial
      exact .bind (by simp) fun now => expireHooks_ofTrigger now config.hooks
  | reloadConfig config => simp [taskBody]
  | runExecution context retries hook concurrency approval =>
      refine .bind ?_ fun _ => trivial
      refine (runWithRetries_ofTrigger context retries).bind fun result => ?_
      refine (notify_ofTrigger outside hook _ result).bind fun _ => ?_
      split
      · exact onExecutionComplete_ofTrigger ..
      · trivial
  | runDequeued hookSlug executionId concurrency approval =>
      refine .bind ?_ fun _ => trivial
      refine .bind (by simp [getById]) fun found => ?_
      cases found with
      | error error => simp [release]
      | ok exec =>
          refine .bind (by simp) fun config => ?_
          split
          · simp [release]
          · refine (runWithRetries_ofTrigger _ _).bind fun result => ?_
            exact (notify_ofTrigger outside _ _ result).bind
              fun _ => onExecutionComplete_ofTrigger ..

end Triggers

/-! ## Reading the configuration, and approving -/

def Op.readsConfig : Op → Prop
  | .loadConfig => True
  | _ => False

def Op.approves : Op → Prop
  | .sql (.execution (.update (.markApproved ..))) => True
  | _ => False

/-- The operations that only the bodies of tasks perform themselves. -/
def Op.ofBody (op : Op) : Prop := op.readsConfig ∨ op.approves

section Bodies

attribute [local simp] nowUtc Sendword.newId Sendword.loadConfig
  Sendword.spawn sql Program.op Op.readsConfig Op.approves Op.ofBody

theorem Op.ofBody.elsewhere {op : Op} (ofBody : op.ofBody) :
    (∀ id, ¬ op.ofRun id) ∧ ¬ op.ofNotification ∧
      (∀ slug, ¬ op.ofCompletion slug) ∧ ¬ op.ofAttempt ∧
      ¬ (op.ofSchedule ∨ op.ofRateLimit) ∧ ¬ op.ofCreate ∧
      ∀ slug, ¬ op.ofBarrier slug := by
  rcases ofBody with reads | approves
  · unfold Op.readsConfig at reads
    split at reads
    · exact ⟨fun _ => id, id, fun _ => id, id, fun rules => rules.elim id id,
        id, fun _ => id⟩
    · exact reads.elim
  · unfold Op.approves at approves
    split at approves
    · exact ⟨fun _ => id, id, fun _ => id, id, fun rules => rules.elim id id,
        id, fun _ => id⟩
    · exact approves.elim

theorem runWithRetries_apart (context : ExecutionContext)
    (retries : EffectiveRetryConfig) :
    (runWithRetries context retries).Avoids Op.ofBody :=
  (runWithRetries_ofRun context retries).mono
    fun _ ofBody => ofBody.elsewhere.1 _

theorem notify_apart (outside : Outside) (hook : HookConfig) (id : String)
    (result : ExecutionResult) :
    (notify outside hook id result).Avoids Op.ofBody :=
  (notify_ofNotification outside hook id result).mono
    fun _ ofBody => ofBody.elsewhere.2.1

theorem onExecutionComplete_apart (slug : String)
    (concurrency : Option ConcurrencyConfig)
    (approval : Option ApprovalConfig) :
    (onExecutionComplete slug concurrency approval).Avoids
      Op.ofBody :=
  (onExecutionComplete_ofCompletion slug concurrency approval).mono
    fun _ ofBody => ofBody.elsewhere.2.2.1 slug

theorem insertAttempt_apart (new : NewTriggerAttempt) :
    (insertAttempt new).Avoids Op.ofBody :=
  (insertAttempt_ofAttempt new).mono fun _ ofBody => ofBody.elsewhere.2.2.2.1

theorem completeHolder_apart (slug id : String)
    (concurrency : Option ConcurrencyConfig)
    (approval : Option ApprovalConfig) :
    (completeHolder slug id concurrency approval).Avoids
      Op.ofBody := by
  unfold completeHolder
  refine .bind (by simp [getHolder]) fun holder => ?_
  split
  · exact onExecutionComplete_apart ..
  · trivial

theorem create_apart (new : NewExecution) :
    (create new).Avoids Op.ofBody :=
  (create_ofCreate new).mono fun _ ofBody => ofBody.elsewhere.2.2.2.2.2.1

theorem passBarriers_apart (outside : Outside) (config : AppConfig)
    (hook : HookConfig) (slug sourceIp payload : String) :
    (passBarriers outside config hook slug sourceIp payload).Avoids
      Op.ofBody := by
  refine (passBarriers_ofBarrier ..).mono fun op ofBody => ?_
  rintro (ofBarrier | ofAttempt | ⟨job, rfl⟩)
  · exact ofBody.elsewhere.2.2.2.2.2.2 slug ofBarrier
  · exact ofBody.elsewhere.2.2.2.1 ofAttempt
  · exact ofBody.elim id id

theorem expireHooks_apart (now : Instant) (hooks : List HookConfig) :
    (expireHooks now hooks).Avoids Op.ofBody := by
  induction hooks with
  | nil => trivial
  | cons hook hooks induction =>
      unfold expireHooks
      split
      · exact induction
      · split
        · trivial
        · refine .bind (by simp) fun rows => ?_
          refine .bind (.forEach fun id member => ?_) fun _ => induction
          refine .bind (by simp [markExpired]) fun expired => ?_
          cases expired with
          | error error => trivial
          | ok _ =>
              exact .bind (by simp [expireForExecution])
                fun _ => completeHolder_apart ..

/-- The configuration is read at most once, and nothing is approved. -/
def ReadsOnce {α : Type} (program : Async α) : Prop :=
  program.Once Op.readsConfig ∧ program.Avoids Op.approves

section ReadsOnce

variable {α β : Type}

theorem ReadsOnce.of_apart {program : Async α}
    (apart : program.Avoids Op.ofBody) : ReadsOnce program :=
  ⟨(apart.mono fun _ => .inl).once, apart.mono fun _ => .inr⟩

theorem ReadsOnce.load {next : AppConfig → Async α}
    (apart : ∀ config, (next config).Avoids Op.ofBody) :
    ReadsOnce (.perform .loadConfig next) := by
  refine ⟨.perform fun config => (apart config).mono fun _ => .inl, ?_⟩
  exact ⟨id, fun config => (apart config).mono fun _ => .inr⟩

theorem ReadsOnce.after {program : Async α} {rest : α → Async β}
    (apart : program.Avoids Op.ofBody)
    (reads : ∀ value, ReadsOnce (rest value)) :
    ReadsOnce (program.bind rest) :=
  ⟨(apart.mono fun _ => .inl).bind_once fun value => (reads value).1,
    (apart.mono fun _ => .inr).bind fun value => (reads value).2⟩

end ReadsOnce

theorem triggerHook_reads (outside : Outside) (request : TriggerRequest) :
    ReadsOnce (triggerHook outside request) := by
  have rejected (status : TriggerAttemptStatus) (reason : String)
      (response : Response) : (do
        logRejection request.slug request.sourceIp status reason
        return response : Async Response).Avoids Op.ofBody := by
    refine .bind ?_ fun _ => trivial
    exact (insertAttempt_apart _).bind fun _ => trivial
  refine .load fun config => ?_
  simp only [Program.pure_bind]
  split
  · trivial
  · split
    · exact rejected _ _ _
    · split
      · exact rejected _ _ _
      · refine ((evaluateRules_ofRules ..).mono
          fun _ ofBody => ofBody.elsewhere.2.2.2.2.1).bind fun refusal => ?_
        split
        · exact rejected _ _ _
        · exact passBarriers_apart ..

theorem body_reads {outside : Outside} {job : Job}
    (other : ∀ id user, job ≠ .approve id user) :
    ReadsOnce (taskBody outside job) := by
  cases job with
  | trigger request => exact triggerHook_reads outside request
  | approve id user => exact (other id user rfl).elim
  | reject id user =>
      refine .after ?_ fun rejected => ?_
      · refine .bind (by simp) fun time => .bind (by simp) fun rows => ?_
        split
        · trivial
        · simp [getById]
      · cases rejected with
        | error error => exact .of_apart trivial
        | ok exec =>
            refine .after (by simp [expireForExecution])
              fun _ => .load fun config => ?_
            simp only [Program.pure_bind]
            split
            · trivial
            · exact (completeHolder_apart ..).bind fun _ => trivial
  | replay id =>
      refine .load fun config => ?_
      simp only [Program.pure_bind]
      refine .bind (by simp [getById]) fun original => ?_
      cases original with
      | error error => trivial
      | ok original =>
          dsimp only
          split
          · trivial
          · refine .bind (by simp) fun execId => ?_
            refine (create_apart _).bind fun created => ?_
            cases created with
            | error error => trivial
            | ok exec => simp
  | expirePendingApprovals =>
      refine .load fun config => ?_
      simp only [Program.pure_bind]
      refine .bind ?_ fun _ => trivial
      exact .bind (by simp) fun now => expireHooks_apart now config.hooks
  | reloadConfig config => exact .of_apart (by simp [taskBody])
  | runExecution context retries hook concurrency approval =>
      refine .of_apart (.bind ?_ fun _ => trivial)
      refine (runWithRetries_apart context retries).bind fun result => ?_
      refine (notify_apart outside hook _ result).bind fun _ => ?_
      split
      · exact onExecutionComplete_apart ..
      · trivial
  | runDequeued hookSlug executionId concurrency approval =>
      have ends (program : Async Unit) (reads : ReadsOnce program) :
          ReadsOnce (program.bind fun _ => .pure Response.finished) :=
        ⟨reads.1.bind_avoids fun _ => trivial,
          reads.2.bind fun _ => trivial⟩
      refine ends _ (.after (by simp [getById]) fun found => ?_)
      cases found with
      | error error => exact .of_apart (by simp [release])
      | ok exec =>
          refine .load fun config => ?_
          simp only [Program.pure_bind]
          split
          · simp [release]
          · refine (runWithRetries_apart ..).bind fun result => ?_
            refine (notify_apart outside _ _ result).bind fun _ => ?_
            exact onExecutionComplete_apart ..

/-- Every task reads the configuration at most once. -/
theorem body_once (outside : Outside) (job : Job) :
    (taskBody outside job).Once Op.readsConfig := by
  by_cases approval : ∃ id user, job = .approve id user
  · obtain ⟨id, user, rfl⟩ := approval
    refine Program.Avoids.bind_once ?_ fun approved => ?_
    · refine .bind (by simp) fun time => .bind (by simp) fun rows => ?_
      split
      · trivial
      · simp [getById]
    · cases approved with
      | error error => trivial
      | ok exec =>
          refine .perform fun config => ?_
          simp only [Program.pure_bind]
          split
          · trivial
          · exact .bind (by simp) fun _ => by simp
  · exact (body_reads fun id user same => approval ⟨id, user, same⟩).1

end Bodies

end Sendword
