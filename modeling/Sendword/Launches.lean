import Sendword.Concurrency.Monitor
import Sendword.Footprint

/-!
# What tasks leave to others

A task can leave an execution to a run that it starts, or to the queue.  Tasks
start nothing but runs, and only a trigger enqueues, at most once.
-/

namespace Sendword

open Concurrency

/-! ## What tasks start -/

/-- The jobs that are started by other tasks. -/
def Job.isRun : Job → Bool
  | .runExecution .. | .runDequeued .. => true
  | _ => false

/-- A job is started that is not a run. -/
def Op.startsOther : Op → Prop
  | .spawn job => job.isRun = false
  | _ => False

def Op.enqueues : Op → Prop
  | .sql (.queue (.enqueue ..)) => True
  | _ => False

section Starts

attribute [local simp] nowUtc Sendword.newId Sendword.loadConfig
  Sendword.spawn sql Program.op Op.startsOther

theorem Op.startsOther.elsewhere {op : Op} (starts : op.startsOther) :
    (∀ id, ¬ op.ofRun id) ∧ ¬ op.ofNotification ∧ ¬ op.ofAttempt ∧
      ¬ (op.ofSchedule ∨ op.ofRateLimit) ∧ ¬ op.ofCreate ∧
      (∀ slug, ¬ op.ofBarrier slug) ∧ ∀ slug, ¬ op.ofCompletion slug := by
  cases op with
  | spawn job =>
      refine ⟨fun _ => id, id, id, fun rules => rules.elim id id, id,
        fun _ => id, ?_⟩
      intro slug completes
      cases job with
      | runDequeued => cases starts
      | trigger | approve | reject | replay | expirePendingApprovals
      | reloadConfig | runExecution => exact completes
  | sql | now | newId | loadConfig | storeConfig | prepareLogFiles
  | runProcess | sendRequest | sleep | appendRetryMarker
  | sendNotification => exact starts.elim

theorem create_starts (new : NewExecution) :
    (create new).Avoids Op.startsOther :=
  (create_ofCreate new).mono fun _ starts => starts.elsewhere.2.2.2.2.1

theorem insertAttempt_starts (new : NewTriggerAttempt) :
    (insertAttempt new).Avoids Op.startsOther :=
  (insertAttempt_ofAttempt new).mono fun _ starts => starts.elsewhere.2.2.1

theorem onExecutionComplete_starts (slug : String)
    (concurrency : Option ConcurrencyConfig)
    (approval : Option ApprovalConfig) :
    (onExecutionComplete slug concurrency approval).Avoids Op.startsOther :=
  (onExecutionComplete_ofCompletion slug concurrency approval).mono
    fun _ starts => starts.elsewhere.2.2.2.2.2.2 slug

theorem completeHolder_starts (slug id : String)
    (concurrency : Option ConcurrencyConfig)
    (approval : Option ApprovalConfig) :
    (completeHolder slug id concurrency approval).Avoids Op.startsOther := by
  unfold completeHolder
  refine .bind (by simp [getHolder]) fun holder => ?_
  split
  · exact onExecutionComplete_starts ..
  · trivial

theorem run_starts (context : ExecutionContext)
    (retries : EffectiveRetryConfig) :
    (runWithRetries context retries).Avoids Op.startsOther :=
  (runWithRetries_ofRun context retries).mono
    fun _ starts => starts.elsewhere.1 _

theorem notify_starts (outside : Outside) (hook : HookConfig) (id : String)
    (result : ExecutionResult) :
    (notify outside hook id result).Avoids Op.startsOther :=
  (notify_ofNotification outside hook id result).mono
    fun _ starts => starts.elsewhere.2.1

theorem passApproval_starts (outside : Outside) (config : AppConfig)
    (hook : HookConfig) (slug sourceIp payload : String)
    (new : NewExecution) :
    (passApproval outside config hook slug sourceIp payload new).Avoids
      Op.startsOther := by
  unfold passApproval
  split
  · refine (create_starts _).bind fun created => ?_
    cases created with
    | error error => trivial
    | ok exec => exact (insertAttempt_starts _).bind fun _ => trivial
  · refine (create_starts _).bind fun created => ?_
    cases created with
    | error error => trivial
    | ok exec =>
        refine (insertAttempt_starts _).bind fun _ => ?_
        simp [Job.isRun]

theorem evaluate_starts (slug execId : String) (config : ConcurrencyConfig)
    (new : NewExecution) :
    (evaluate slug execId config new).Avoids Op.startsOther :=
  (evaluate_ofBarrier ..).mono
    fun _ starts => starts.elsewhere.2.2.2.2.2.1 slug

theorem triggerHook_starts (outside : Outside) (request : TriggerRequest) :
    (triggerHook outside request).Avoids Op.startsOther := by
  have rejected (status : TriggerAttemptStatus) (reason : String)
      (response : Response) : (do
        logRejection request.slug request.sourceIp status reason
        return response : Async Response).Avoids Op.startsOther := by
    refine .bind ?_ fun _ => trivial
    exact (insertAttempt_starts _).bind fun _ => trivial
  refine .bind (by simp) fun config => ?_
  split
  · trivial
  · split
    · exact rejected _ _ _
    · split
      · exact rejected _ _ _
      · refine ((evaluateRules_ofRules ..).mono
          fun _ starts => starts.elsewhere.2.2.2.1).bind fun refusal => ?_
        split
        · exact rejected _ _ _
        · refine .bind (by simp) fun execId => ?_
          dsimp only
          split
          · exact passApproval_starts ..
          · refine (evaluate_starts ..).bind fun outcome => ?_
            split
            · exact passApproval_starts ..
            · exact (insertAttempt_starts _).bind fun _ => trivial
            · exact (insertAttempt_starts _).bind fun _ => trivial

theorem expireHooks_starts (now : Instant) (hooks : List HookConfig) :
    (expireHooks now hooks).Avoids Op.startsOther := by
  induction hooks with
  | nil => trivial
  | cons hook hooks induction =>
      unfold expireHooks
      split
      · exact induction
      · split
        · trivial
        · refine .bind (by simp) fun rows => ?_
          refine .bind (.forEach fun id member => ?_) fun _ => induction
          refine .bind (by simp [markExpired]) fun expired => ?_
          cases expired with
          | error error => trivial
          | ok _ =>
              exact .bind (by simp [expireForExecution])
                fun _ => completeHolder_starts ..

/-- Tasks only start runs. -/
theorem body_starts (outside : Outside) (job : Job) :
    (taskBody outside job).Avoids Op.startsOther := by
  cases job with
  | trigger request => exact triggerHook_starts outside request
  | approve id user =>
      refine .bind ?_ fun approved => ?_
      · refine .bind (by simp) fun time => .bind (by simp) fun rows => ?_
        split
        · trivial
        · simp [getById]
      · cases approved with
        | error error => trivial
        | ok exec =>
            refine .bind (by simp) fun config => ?_
            split <;> simp [Job.isRun]
  | reject id user =>
      refine .bind ?_ fun rejected => ?_
      · refine .bind (by simp) fun time => .bind (by simp) fun rows => ?_
        split
        · trivial
        · simp [getById]
      · cases rejected with
        | error error => trivial
        | ok exec =>
            refine .bind (by simp [expireForExecution]) fun _ => ?_
            refine .bind (by simp) fun config => ?_
            split
            · trivial
            · exact (completeHolder_starts ..).bind fun _ => trivial
  | replay id =>
      refine .bind (by simp) fun config => ?_
      refine .bind (by simp [getById]) fun original => ?_
      cases original with
      | error error => trivial
      | ok original =>
          dsimp only
          split
          · trivial
          · refine .bind (by simp) fun execId => ?_
            refine (create_starts _).bind fun created => ?_
            cases created with
            | error error => trivial
            | ok exec => simp [Job.isRun]
  | expirePendingApprovals =>
      refine .bind (.bind (by simp) fun config => ?_) fun _ => trivial
      exact .bind (by simp) fun now => expireHooks_starts now config.hooks
  | reloadConfig config => simp [taskBody]
  | runExecution context retries hook concurrency approval =>
      refine .bind ?_ fun _ => trivial
      refine (run_starts context retries).bind fun result => ?_
      refine (notify_starts outside hook _ result).bind fun _ => ?_
      split
      · exact onExecutionComplete_starts ..
      · trivial
  | runDequeued hookSlug executionId concurrency approval =>
      refine .bind ?_ fun _ => trivial
      refine .bind (by simp [getById]) fun found => ?_
      cases found with
      | error error => simp [release]
      | ok exec =>
          refine .bind (by simp) fun config => ?_
          split
          · simp [release]
          · refine (run_starts _ _).bind fun result => ?_
            exact (notify_starts outside _ _ result).bind
              fun _ => onExecutionComplete_starts ..

end Starts

/-! ## A trigger enqueues at most once -/

section Enqueues

attribute [local simp] nowUtc Sendword.newId Sendword.loadConfig
  Sendword.spawn sql Program.op Op.enqueues

theorem Op.enqueues.elsewhere {op : Op} (enqueues : op.enqueues) :
    op.ofTrigger ∧ ¬ op.ofAttempt ∧ ¬ (op.ofSchedule ∨ op.ofRateLimit) ∧
      ¬ op.ofCreate ∧ ∀ job, op ≠ .spawn job := by
  unfold Op.enqueues at enqueues
  split at enqueues
  · refine ⟨trivial, id, fun rules => rules.elim id id, id, ?_⟩
    rintro job ⟨⟩
  · exact enqueues.elim

theorem passApproval_enqueues (outside : Outside) (config : AppConfig)
    (hook : HookConfig) (slug sourceIp payload : String)
    (new : NewExecution) :
    (passApproval outside config hook slug sourceIp payload new).Avoids
      Op.enqueues := by
  refine (passApproval_ofCreate ..).mono fun op enqueues => ?_
  rintro (ofCreate | ofAttempt | ⟨job, spawns⟩)
  · exact enqueues.elsewhere.2.2.2.1 ofCreate
  · exact enqueues.elsewhere.2.1 ofAttempt
  · exact enqueues.elsewhere.2.2.2.2 job spawns

theorem evaluate_enqueues (slug execId : String) (config : ConcurrencyConfig)
    (new : NewExecution) :
    (evaluate slug execId config new).Once Op.enqueues := by
  unfold evaluate
  refine Program.Avoids.bind_once (by simp [tryAcquire]) fun acquired => ?_
  split
  · trivial
  · trivial
  · split
    · trivial
    · refine Program.Avoids.bind_once (by simp [countWaiting]) fun count => ?_
      split
      · trivial
      · split
        · trivial
        · refine Program.Avoids.bind_once ((create_ofCreate _).mono
            fun _ enqueues => enqueues.elsewhere.2.2.2.1) fun created => ?_
          split
          · trivial
          · refine Program.Once.bind_avoids ?_ fun position => ?_
            · refine Program.Avoids.bind_once (by simp) fun id => ?_
              refine Program.Avoids.bind_once (by simp) fun time => ?_
              refine .perform fun inserted => ?_
              simp only [Program.pure_bind]
              split
              · trivial
              · simp
            · split <;> trivial

theorem triggerHook_enqueues (outside : Outside) (request : TriggerRequest) :
    (triggerHook outside request).Once Op.enqueues := by
  have logs (new : NewTriggerAttempt) :
      (insertAttempt new).Avoids Op.enqueues :=
    (insertAttempt_ofAttempt new).mono
      fun _ enqueues => enqueues.elsewhere.2.1
  have rejected (status : TriggerAttemptStatus) (reason : String)
      (response : Response) : (do
        logRejection request.slug request.sourceIp status reason
        return response : Async Response).Once Op.enqueues := by
    refine Program.Avoids.once (.bind ?_ fun _ => trivial)
    exact (logs _).bind fun _ => trivial
  refine Program.Avoids.bind_once (by simp) fun config => ?_
  split
  · trivial
  · split
    · exact rejected _ _ _
    · split
      · exact rejected _ _ _
      · refine ((evaluateRules_ofRules ..).mono
          fun _ enqueues => enqueues.elsewhere.2.2.1).bind_once
            fun refusal => ?_
        split
        · exact rejected _ _ _
        · refine Program.Avoids.bind_once (by simp) fun execId => ?_
          dsimp only
          split
          · exact (passApproval_enqueues ..).once
          · refine (evaluate_enqueues ..).bind_avoids fun outcome => ?_
            split
            · exact passApproval_enqueues ..
            · exact (logs _).bind fun _ => trivial
            · exact (logs _).bind fun _ => trivial

end Enqueues

end Sendword
