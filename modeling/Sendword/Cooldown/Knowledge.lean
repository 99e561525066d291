import Sendword.Concurrency.Monitor
import Sendword.Footprint
import Sendword.Hook.Constant

/-!
# What a cooldown check knows

A trigger reads the clock and the latest start of the hook, then records its
execution; a run reads the clock and marks the execution as running.
-/

namespace Sendword

open Concurrency

/-- What is remembered of a task: the executions it knows to be recorded,
its last look at the clock with those it knew then, what its cooldown check
has read, and what it had read when it recorded an execution. -/
structure Knowledge where
  exempt : Bool
  known : List String
  stamped : Option (Instant × List String) := none
  check : Option (Instant × Option Execution) := none
  born : List (String × Option (Instant × Option Execution)) := []

/-- The latest start is at least the cooldown ago. -/
def Elapsed (cooldown : Duration) (latest : Option Execution)
    (now : Instant) : Prop :=
  ∀ row ∈ latest, ∀ started ∈ row.startedAt,
    started * 1000000 + cooldown ≤ now

/-- The last check of a task lets it record an execution. -/
def Knowledge.Cooled (cooldown : Duration) (knowledge : Knowledge) : Prop :=
  ∃ now latest, knowledge.check = some (now, latest) ∧
    Elapsed cooldown latest now

def startMonitor (watched : Watched) (cooldown : Duration) :
    Monitor Job Op.Answer Knowledge where
  start job :=
    { exempt := match job with
        | .trigger request => decide (request.slug ≠ watched.slug)
        | _ => true
      known := match job with
        | .runExecution context .. => [context.executionId]
        | _ => [] }
  next knowledge event :=
    match event with
    | ⟨.now, time⟩ =>
        { knowledge with stamped := some (time, knowledge.known) }
    | ⟨.sql (.execution (.selectById _)), .ok (some row)⟩ =>
        { knowledge with known := row.id :: knowledge.known }
    | ⟨.sql (.execution (.selectLatestStarted slug)), .ok latest⟩ =>
        if slug = watched.slug then
          { knowledge with
            check := knowledge.stamped.map fun stamp => (stamp.1, latest) }
        else knowledge
    | ⟨.sql (.execution (.insert row)), .ok ()⟩ =>
        { knowledge with
          born := (row.id, knowledge.check) :: knowledge.born }
    | _ => knowledge
  allows knowledge operation :=
    match operation with
    | .spawn (.runExecution context ..) =>
        context.executionId ∈ knowledge.known
    | .spawn (.runDequeued ..) => True
    | .spawn _ => False
    | .sql (.execution (.insert row)) =>
        row.startedAt = none ∧
          (knowledge.exempt = true ∨ knowledge.Cooled cooldown)
    | .sql (.execution (.update (.markRunning id started))) =>
        ∃ time ids, knowledge.stamped = some (time, ids) ∧
          started = time / 1000000 ∧ id ∈ ids
    | _ => True
  happens event := ReadsConfig watched event ∧
    ∀ slug answer,
      event = ⟨.sql (.execution (.selectLatestStarted slug)), answer⟩ →
        answer.toOption.isSome

/-- The operations the monitor does not let pass unseen. -/
def Op.ofStart (slug : String) : Op → Prop
  | .sql (.execution (.insert _))
  | .sql (.execution (.update (.markRunning ..))) | .spawn _ => True
  | .sql (.execution (.selectLatestStarted target)) => target = slug
  | _ => False

/-- Nothing is forgotten, and no check is made. -/
structure Knowledge.Extends (knowledge after : Knowledge) : Prop where
  exempt : after.exempt = knowledge.exempt
  known : knowledge.known ⊆ after.known
  check : after.check = knowledge.check

theorem Knowledge.Extends.refl (knowledge : Knowledge) :
    knowledge.Extends knowledge :=
  ⟨rfl, List.Subset.refl _, rfl⟩

/-- The task may record an execution. -/
def Knowledge.Free (cooldown : Duration) (knowledge : Knowledge) : Prop :=
  knowledge.exempt = true ∨ knowledge.Cooled cooldown

theorem Knowledge.Extends.free {knowledge after : Knowledge}
    {cooldown : Duration} (extended : knowledge.Extends after)
    (free : knowledge.Free cooldown) : after.Free cooldown := by
  rcases free with exempt | ⟨now, latest, check, cooled⟩
  · exact .inl (extended.exempt.trans exempt)
  · exact .inr ⟨now, latest, extended.check.trans check, cooled⟩

namespace Knowledge

variable {watched : Watched} {cooldown : Duration} {outside : Outside}
  {α : Type} {knowledge base : Knowledge}

theorem startMonitor_quiet (operation : Op)
    (other : ¬ operation.ofStart watched.slug) (memory : Knowledge)
    (extended : base.Extends memory) :
    (startMonitor watched cooldown).allows memory operation ∧
      ∀ answer, base.Extends
        ((startMonitor watched cooldown).next memory
          ⟨operation, answer⟩) := by
  constructor
  · simp only [startMonitor]
    split
    · exact (other trivial).elim
    · trivial
    · exact (other trivial).elim
    · exact (other trivial).elim
    · exact (other trivial).elim
    · trivial
  · intro answer
    simp only [startMonitor]
    split
    · exact ⟨extended.exempt, extended.known, extended.check⟩
    · exact ⟨extended.exempt, List.subset_cons_of_subset _ extended.known,
        extended.check⟩
    · rename_i slug latest same
      cases same
      have away : ¬ slug = watched.slug := other
      rw [if_neg away]
      exact extended
    · rename_i same
      cases same
      exact (other trivial).elim
    · exact extended

theorem passes_extends {program : Async α}
    (avoids : program.Avoids (Op.ofStart watched.slug))
    (extended : base.Extends knowledge) :
    (startMonitor watched cooldown).Passes program
      (fun after _ => base.Extends after) knowledge :=
  .of_kept avoids startMonitor_quiet extended

/-- The result of a query for a record. -/
def Found (base : Knowledge) (after : Knowledge)
    (found : DbResult Execution) : Prop :=
  base.Extends after ∧ ∀ exec, found = .ok exec → exec.id ∈ after.known

theorem getById_passes (id : String) (extended : base.Extends knowledge) :
    (startMonitor watched cooldown).Passes (getById id) (Found base)
      knowledge := by
  refine ⟨trivial, fun row _ => ?_⟩
  cases row with
  | error error => exact ⟨extended, fun exec same => (by cases same)⟩
  | ok row =>
      cases row with
      | none => exact ⟨extended, fun exec same => (by cases same)⟩
      | some row =>
          refine ⟨⟨extended.exempt, ?_, extended.check⟩, ?_⟩
          · exact List.subset_cons_of_subset _ extended.known
          · intro exec same
            cases same
            exact List.mem_cons_self

/-- A task that is free to may record an execution. -/
theorem create_passes (new : NewExecution) (free : base.Free cooldown)
    (extended : base.Extends knowledge) :
    (startMonitor watched cooldown).Passes (create new) (Found base)
      knowledge := by
  have recorded (id : String) {knowledge : Knowledge}
      (extended : base.Extends knowledge) :
      (startMonitor watched cooldown).Passes (recordAs new id) (Found base)
        knowledge := by
    refine (passes_extends (by simp [nowUtc, Program.op, Op.ofStart])
      extended).bind fun middle time later => ?_
    refine ⟨⟨rfl, later.free free⟩, fun inserted _ => ?_⟩
    cases inserted with
    | error error => exact ⟨later, fun exec same => (by cases same)⟩
    | ok _ =>
        exact getById_passes id ⟨later.exempt, later.known, later.check⟩
  unfold create
  cases new.id with
  | none =>
      exact (passes_extends (by simp [newId, Program.op, Op.ofStart])
        extended).bind fun middle id later => recorded id later
  | some id => exact recorded id extended

theorem not_ofAttempt_of_start {operation : Op} {slug : String}
    (starts : operation.ofStart slug) : ¬ operation.ofAttempt := by
  intro logs
  unfold Op.ofStart at starts
  split at starts
  all_goals first | exact logs | exact starts

theorem insertAttempt_passes (new : NewTriggerAttempt)
    (extended : base.Extends knowledge) :
    (startMonitor watched cooldown).Passes (insertAttempt new)
      (fun after _ => base.Extends after) knowledge := by
  exact passes_extends ((insertAttempt_ofAttempt new).mono
    fun _ => not_ofAttempt_of_start) extended

/-! ### Runs -/

theorem notify_passes (hook : HookConfig) (id : String)
    (result : ExecutionResult) (extended : base.Extends knowledge) :
    (startMonitor watched cooldown).Passes (notify outside hook id result)
      (fun after _ => base.Extends after) knowledge := by
  refine passes_extends ((notify_ofNotification outside hook id
    result).mono ?_) extended
  intro operation starts notifies
  unfold Op.ofStart at starts
  split at starts
  all_goals first | exact notifies | exact starts

theorem markRunning_passes {id : String} (known : id ∈ base.known)
    (extended : base.Extends knowledge) :
    (startMonitor watched cooldown).Passes (markRunning id)
      (fun after _ => base.Extends after) knowledge := by
  refine ⟨trivial, fun time _ => ⟨?_, fun rows _ => ?_⟩⟩
  · exact ⟨time, knowledge.known, rfl, rfl, extended.known known⟩
  · exact ⟨extended.exempt, extended.known, extended.check⟩

theorem runCommand_passes (context : ExecutionContext) (command : Op)
    (result : command.Answer → ExecutionResult)
    (quiet : ¬ command.ofStart watched.slug)
    (known : context.executionId ∈ base.known)
    (extended : base.Extends knowledge) :
    (startMonitor watched cooldown).Passes
      (runCommand context (Program.perform command fun outcome =>
        .pure (result outcome)))
      (fun after _ => base.Extends after) knowledge := by
  unfold runCommand
  refine (passes_extends (by simp [Program.op, Op.ofStart])
    extended).bind fun middle prepared later => ?_
  cases prepared with
  | false => exact later
  | true =>
      refine (markRunning_passes known later).bind fun after started last => ?_
      cases started with
      | error error => exact last
      | ok _ =>
          have runs : (Program.perform command fun outcome =>
              .pure (result outcome) : Async ExecutionResult).Avoids
                (Op.ofStart watched.slug) := ⟨quiet, fun _ => trivial⟩
          refine (passes_extends runs last).bind fun ran outcome kept => ?_
          exact passes_extends (by simp [markCompleted, nowUtc, sql,
            Program.op, Op.ofStart]) kept

theorem runExecutor_passes (context : ExecutionContext)
    (known : context.executionId ∈ base.known)
    (extended : base.Extends knowledge) :
    (startMonitor watched cooldown).Passes (runExecutor context)
      (fun after _ => base.Extends after) knowledge := by
  unfold runExecutor
  split
  · exact runCommand_passes context (.runProcess context) _ id known extended
  · exact runCommand_passes context (.runProcess context) _ id known extended
  · exact runCommand_passes context (.sendRequest context) _ id known extended

theorem retryLoop_passes (context : ExecutionContext)
    (retries : EffectiveRetryConfig) (remaining attempt : Nat)
    (result : ExecutionResult) (known : context.executionId ∈ base.known)
    (extended : base.Extends knowledge) :
    (startMonitor watched cooldown).Passes
      (retryLoop context retries remaining attempt result)
      (fun after _ => base.Extends after) knowledge := by
  induction remaining generalizing attempt result knowledge with
  | zero => exact extended
  | succ remaining induction =>
      unfold retryLoop
      split
      · refine (passes_extends ?_ extended).bind fun waited _ later => ?_
        · unfold backOff
          split <;> simp [Program.op, Op.ofStart]
        · refine (passes_extends (by simp [Program.op, Op.ofStart])
            later).bind fun marked _ later => ?_
          refine (passes_extends (by simp [incrementRetryCount, sql,
            Program.op, Op.ofStart]) later).bind fun counted _ later => ?_
          refine (passes_extends (by simp [resetToPending, sql, Program.op,
            Op.ofStart]) later).bind fun reset outcome later => ?_
          cases outcome with
          | error error => exact later
          | ok _ =>
              exact (runExecutor_passes context known later).bind
                fun ran result last => induction (attempt + 1) result last
      · exact extended

theorem runWithRetries_passes (context : ExecutionContext)
    (retries : EffectiveRetryConfig)
    (known : context.executionId ∈ base.known)
    (extended : base.Extends knowledge) :
    (startMonitor watched cooldown).Passes (runWithRetries context retries)
      (fun after _ => base.Extends after) knowledge :=
  (runExecutor_passes context known extended).bind fun _ result later =>
    retryLoop_passes context retries retries.count 1 result known later

/-- A completion starts only what it dequeues. -/
theorem onExecutionComplete_passes (slug : String)
    (concurrency : Option ConcurrencyConfig)
    (approval : Option ApprovalConfig) (extended : base.Extends knowledge) :
    (startMonitor watched cooldown).Passes
      (onExecutionComplete slug concurrency approval)
      (fun after _ => base.Extends after) knowledge := by
  refine .of_kept (onExecutionComplete_ofCompletion slug concurrency
    approval) (fun operation touches memory extended => ?_) extended
  have completes := not_not.mp touches
  clear touches
  by_cases starts : operation.ofStart watched.slug
  · unfold Op.ofStart at starts
    split at starts
    · exact completes.elim
    · exact completes.elim
    · rename_i job
      cases job with
      | runDequeued => exact ⟨trivial, fun _ => extended⟩
      | _ => exact completes.elim
    · exact completes.elim
    · exact starts.elim
  · exact startMonitor_quiet operation starts memory extended

theorem completeHolder_passes (slug id : String)
    (concurrency : Option ConcurrencyConfig)
    (approval : Option ApprovalConfig) (extended : base.Extends knowledge) :
    (startMonitor watched cooldown).Passes
      (completeHolder slug id concurrency approval)
      (fun after _ => base.Extends after) knowledge := by
  unfold completeHolder
  refine (passes_extends (by simp [getHolder, sql, Program.op, Op.ofStart])
    extended).bind fun middle holder later => ?_
  split
  · exact onExecutionComplete_passes _ _ _ later
  · exact later

theorem runExecution_passes (context : ExecutionContext)
    (retries : EffectiveRetryConfig) (hook : HookConfig)
    (concurrency : Option ConcurrencyConfig)
    (approval : Option ApprovalConfig)
    (known : context.executionId ∈ base.known)
    (extended : base.Extends knowledge) :
    (startMonitor watched cooldown).Passes
      (runExecution outside context retries hook concurrency approval)
      (fun _ _ => True) knowledge := by
  refine (runWithRetries_passes context retries known extended).bind
    fun ran result later => ?_
  refine (notify_passes hook _ result later).bind fun told _ last => ?_
  split
  · exact (onExecutionComplete_passes _ _ _ last).mono fun _ _ _ => trivial
  · trivial

theorem runDequeued_passes (slug id : String)
    (concurrency : Option ConcurrencyConfig)
    (approval : Option ApprovalConfig) :
    (startMonitor watched cooldown).Passes
      (runDequeued outside slug id concurrency approval)
      (fun _ _ => True) knowledge := by
  refine (getById_passes id (.refl knowledge)).bind fun middle row found => ?_
  have released {middle : Knowledge} :
      (startMonitor watched cooldown).Passes (do
        let _ ← release slug) (fun _ _ => True) middle :=
    (passes_extends (by simp [release, sql, Program.op, Op.ofStart])
      (.refl middle)).mono fun _ _ _ => trivial
  cases row with
  | error error => exact released
  | ok exec =>
      have known := found.2 exec rfl
      refine (passes_extends (by simp [loadConfig, Program.op, Op.ofStart])
        (.refl middle)).bind fun loaded config later => ?_
      split
      · exact released
      · refine (runWithRetries_passes _ _ (by exact known) later).bind
          fun ran result later => ?_
        refine (notify_passes _ _ result later).bind fun told _ last => ?_
        exact (onExecutionComplete_passes _ _ _ last).mono
          fun _ _ _ => trivial

/-! ### Decisions -/

theorem approveExecution_passes (id user : String) :
    (startMonitor watched cooldown).Passes (approveExecution outside id user)
      (fun _ _ => True) knowledge := by
  have approved : (startMonitor watched cooldown).Passes
      (markApproved id user) (Found knowledge) knowledge := by
    refine (passes_extends (by simp [nowUtc, Program.op, Op.ofStart])
      (.refl knowledge)).bind fun middle time later => ?_
    refine ⟨trivial, fun rows _ => ?_⟩
    simp only [Program.pure_bind]
    split
    · exact ⟨later, fun exec same => (by cases same)⟩
    · exact getById_passes id later
  refine approved.bind fun middle exec found => ?_
  cases exec with
  | error error => trivial
  | ok exec =>
      have known := found.2 exec rfl
      refine (passes_extends (by simp [loadConfig, Program.op, Op.ofStart])
        (.refl middle)).bind fun loaded config later => ?_
      split
      · trivial
      · refine (passes_extends (by simp [sql, Program.op, Op.ofStart])
          later).bind fun reset _ last => ?_
        exact ⟨last.known known, fun _ _ => trivial⟩

theorem rejectExecution_passes (id user : String) :
    (startMonitor watched cooldown).Passes (rejectExecution id user)
      (fun _ _ => True) knowledge := by
  have rejected : (startMonitor watched cooldown).Passes
      (markRejected id user) (Found knowledge) knowledge := by
    refine (passes_extends (by simp [nowUtc, Program.op, Op.ofStart])
      (.refl knowledge)).bind fun middle time later => ?_
    refine ⟨trivial, fun rows _ => ?_⟩
    simp only [Program.pure_bind]
    split
    · exact ⟨later, fun exec same => (by cases same)⟩
    · exact getById_passes id later
  refine rejected.bind fun middle exec found => ?_
  cases exec with
  | error error => trivial
  | ok exec =>
      refine (passes_extends (by simp [expireForExecution, sql, Program.op,
        Op.ofStart]) found.1).bind fun expired _ later => ?_
      refine (passes_extends (by simp [loadConfig, Program.op, Op.ofStart])
        later).bind fun loaded config last => ?_
      split
      · trivial
      · exact (completeHolder_passes _ _ _ _ last).bind fun _ _ _ => trivial

theorem expireHooks_passes (now : Instant) (hooks : List HookConfig)
    (extended : base.Extends knowledge) :
    (startMonitor watched cooldown).Passes (expireHooks now hooks)
      (fun after _ => base.Extends after) knowledge := by
  induction hooks generalizing knowledge with
  | nil => exact extended
  | cons hook hooks induction =>
      unfold expireHooks
      split
      · exact induction extended
      · split
        · exact extended
        · refine (passes_extends (by simp [sql, Program.op, Op.ofStart])
            extended).bind fun selected rows later => ?_
          have each : (startMonitor watched cooldown).Passes
              (Program.forEach (rows.toOption.getD []) (expireOne hook))
              (fun after _ => base.Extends after) selected := by
            refine .forEach later fun id member memory extended => ?_
            refine (passes_extends (by simp [markExpired, nowUtc, sql,
              Program.op, Op.ofStart]) extended).bind
                fun marked expired later => ?_
            cases expired with
            | error error => exact later
            | ok _ =>
                refine (passes_extends (by simp [expireForExecution, sql,
                  Program.op, Op.ofStart]) later).bind fun _ _ last => ?_
                exact completeHolder_passes _ _ _ _ last
          exact each.bind fun after _ later => induction later

theorem replayExecution_passes (id : String)
    (exempt : knowledge.exempt = true) :
    (startMonitor watched cooldown).Passes (replayExecution outside id)
      (fun _ _ => True) knowledge := by
  refine (passes_extends (by simp [loadConfig, Program.op, Op.ofStart])
    (.refl knowledge)).bind fun loaded config later => ?_
  refine (getById_passes id later).bind fun middle original found => ?_
  cases original with
  | error error => trivial
  | ok original =>
      dsimp only
      split
      · trivial
      · refine (passes_extends (by simp [newId, Program.op, Op.ofStart])
          found.1).bind fun named execId last => ?_
        refine (create_passes _ (.inl exempt) last).bind
          fun after created recorded => ?_
        cases created with
        | error error => trivial
        | ok exec => exact ⟨recorded.2 exec rfl, fun _ _ => trivial⟩

/-! ### Triggers -/

theorem startExecution_passes (config : AppConfig) (hook : HookConfig)
    (slug sourceIp payload : String) (new : NewExecution)
    (free : base.Free cooldown) (extended : base.Extends knowledge) :
    (startMonitor watched cooldown).Passes
      (startExecution outside config hook slug sourceIp payload new)
      (fun _ _ => True) knowledge := by
  refine (create_passes new free extended).bind fun after created found => ?_
  cases created with
  | error error => trivial
  | ok exec =>
      refine (insertAttempt_passes _ (.refl after)).bind
        fun logged _ later => ?_
      exact ⟨later.known (found.2 exec rfl), fun _ _ => trivial⟩

theorem passApproval_passes (config : AppConfig) (hook : HookConfig)
    (slug sourceIp payload : String) (new : NewExecution)
    (free : base.Free cooldown) (extended : base.Extends knowledge) :
    (startMonitor watched cooldown).Passes
      (passApproval outside config hook slug sourceIp payload new)
      (fun _ _ => True) knowledge := by
  unfold passApproval
  split
  · refine (create_passes _ free extended).bind fun after created found => ?_
    cases created with
    | error error => trivial
    | ok exec =>
        exact (insertAttempt_passes _ (.refl after)).bind
          fun _ _ _ => trivial
  · exact startExecution_passes config hook slug sourceIp payload new free
      extended

theorem evaluate_passes (slug execId : String) (config : ConcurrencyConfig)
    (new : NewExecution) (free : base.Free cooldown)
    (extended : base.Extends knowledge) :
    (startMonitor watched cooldown).Passes
      (evaluate slug execId config new)
      (fun after _ => base.Extends after) knowledge := by
  refine (passes_extends (by simp [tryAcquire, nowUtc, sql, Program.op,
    Op.ofStart]) extended).bind fun locked acquired later => ?_
  split
  · exact later
  · exact later
  · split
    · exact later
    · refine (passes_extends (by simp [countWaiting, sql, Program.op,
        Op.ofStart]) later).bind fun counted count later => ?_
      split
      · exact later
      · split
        · exact later
        · refine (create_passes new free later).bind
            fun recorded created found => ?_
          split
          · exact found.1
          · refine (passes_extends ?_ found.1).bind
              fun queued position last => ?_
            · refine .bind (by simp [newId, Program.op, Op.ofStart])
                fun id => .bind (by simp [nowUtc, Program.op, Op.ofStart])
                  fun time => ?_
              refine .bind (by simp [sql, Program.op, Op.ofStart])
                fun inserted => ?_
              split
              · trivial
              · simp [sql, Program.op, Op.ofStart]
            · split <;> exact last

theorem passBarriers_passes (config : AppConfig) (hook : HookConfig)
    (slug sourceIp payload : String) (free : base.Free cooldown)
    (extended : base.Extends knowledge) :
    (startMonitor watched cooldown).Passes
      (passBarriers outside config hook slug sourceIp payload)
      (fun _ _ => True) knowledge := by
  refine (passes_extends (by simp [newId, Program.op, Op.ofStart])
    extended).bind fun named execId later => ?_
  have logged {knowledge : Knowledge} (attempt : NewTriggerAttempt)
      (response : Response) :
      (startMonitor watched cooldown).Passes (do
        let _ ← insertAttempt attempt
        return response) (fun _ _ => True) knowledge :=
    (insertAttempt_passes attempt (.refl knowledge)).bind
      fun _ _ _ => trivial
  dsimp only
  split
  · exact passApproval_passes _ _ _ _ _ _ free later
  · refine (evaluate_passes slug execId _ _ free later).bind
      fun after outcome last => ?_
    split
    · exact passApproval_passes _ _ _ _ _ _ free last
    · exact logged _ _
    · exact logged _ _

theorem le_of_elapsed {now started elapsing : Nat}
    (elapsed : ¬ (now : Int) - ((started * 1000000 : Nat) : Int) <
      (elapsing : Int)) :
    started * 1000000 + elapsing ≤ now := by
  omega

/-- What the check allows. -/
theorem cooldown_passes (converts : cooldown ≤ chronoMax) :
    (startMonitor watched cooldown).Passes
      (Cooldown.evaluate watched.slug cooldown)
      (fun after outcome => outcome = .allow → after.Cooled cooldown)
      knowledge := by
  refine ⟨trivial, fun now _ => ⟨trivial, fun answer happens => ?_⟩⟩
  have given := happens.2 _ answer rfl
  cases answer with
  | error error => cases given
  | ok latest =>
      have checked : ((startMonitor watched cooldown).next
          ((startMonitor watched cooldown).next knowledge ⟨.now, now⟩)
          ⟨.sql (.execution (.selectLatestStarted watched.slug)),
            .ok latest⟩).check = some (now, latest) := by
        simp [startMonitor]
      have passes (outcome : EvalOutcome)
          (cooled : outcome = .allow → Elapsed cooldown latest now) :
          (startMonitor watched cooldown).Passes (pure outcome)
            (fun after outcome =>
              outcome = .allow → after.Cooled cooldown)
            ((startMonitor watched cooldown).next
              ((startMonitor watched cooldown).next knowledge ⟨.now, now⟩)
              ⟨.sql (.execution (.selectLatestStarted watched.slug)),
                .ok latest⟩) :=
        fun allowed => ⟨now, latest, checked, cooled allowed⟩
      cases latest with
      | none => exact passes .allow fun _ row member => (by cases member)
      | some latest =>
          have known : chronoDuration cooldown = some (cooldown : Int) :=
            if_pos converts
          simp only [Program.pure_bind, known]
          cases started : latest.startedAt with
          | none =>
              refine passes .allow fun _ row member time isStart => ?_
              cases member
              rw [started] at isStart
              cases isStart
          | some time =>
              dsimp only
              split
              · exact passes _ fun allowed => (by cases allowed)
              · rename_i recent
                refine passes .allow fun _ row member start isStart => ?_
                cases member
                cases started.symm.trans isStart
                exact le_of_elapsed recent

theorem checkCooldown_passes {rules : TriggerRules}
    (cools : rules.cooldown = some cooldown)
    (converts : cooldown ≤ chronoMax) :
    (startMonitor watched cooldown).Passes
      (checkCooldown rules watched.slug)
      (fun after refusal => refusal = none → after.Cooled cooldown)
      knowledge := by
  unfold checkCooldown
  rw [cools]
  refine (cooldown_passes converts).bind
    fun after outcome cooled isNone => cooled ?_
  cases outcome with
  | allow => rfl
  | reject status reason => cases isNone

/-- Rules that do not refuse let the task record an execution. -/
theorem evaluateRules_passes {hook : HookConfig} {slug : String}
    (payload : String)
    (cools : slug = watched.slug →
      (hook.triggerRules.getD {}).cooldown = some cooldown)
    (converts : cooldown ≤ chronoMax)
    (exempt : slug ≠ watched.slug → knowledge.exempt = true) :
    (startMonitor watched cooldown).Passes
      (evaluateRules outside hook slug payload)
      (fun after refusal => refusal = none → after.Free cooldown)
      knowledge := by
  let rules := hook.triggerRules.getD {}
  have quiet {check : Async (Option Refusal)} {knowledge : Knowledge}
      {ofRules : Op → Prop}
      (avoids : check.Avoids fun operation => ¬ ofRules operation)
      (apart : ∀ operation, operation.ofStart watched.slug →
        ¬ ofRules operation) :
      (startMonitor watched cooldown).Passes check
        (fun after _ => knowledge.Extends after) knowledge :=
    passes_extends (avoids.mono apart) (.refl knowledge)
  have counted {knowledge : Knowledge} (free : knowledge.Free cooldown) :
      (startMonitor watched cooldown).Passes
        (firstRefusal [checkRateLimit outside hook rules slug])
        (fun after refusal => refusal = none → after.Free cooldown)
        knowledge := by
    refine (quiet (checkRateLimit_ofRateLimit ..) ?_).bind
      fun after refusal later => ?_
    · intro operation starts
      unfold Op.ofStart at starts
      split at starts
      all_goals first | exact id | exact starts.elim
    · cases refusal with
      | some refusal => exact fun isNone => (by cases isNone)
      | none => exact fun _ => later.free free
  have cooled {knowledge : Knowledge}
      (exempt : slug ≠ watched.slug → knowledge.exempt = true) :
      (startMonitor watched cooldown).Passes (checkCooldown rules slug)
        (fun after refusal => refusal = none → after.Free cooldown)
        knowledge := by
    by_cases own : slug = watched.slug
    · subst own
      exact (checkCooldown_passes (cools rfl) converts).mono
        fun after refusal checked isNone => .inr (checked isNone)
    · have avoids : (checkCooldown rules slug).Avoids
          (Op.ofStart watched.slug) := by
        unfold checkCooldown
        split
        · trivial
        · refine .bind ?_ fun _ => trivial
          refine .bind (by simp [Program.op, Op.ofStart]) fun now => ?_
          refine .bind (by simp [getLatestStartedByHook, sql, Program.op,
            Op.ofStart, own]) fun latest => ?_
          split
          · trivial
          · trivial
          · split
            · trivial
            · trivial
            · dsimp only
              split <;> trivial
      exact (passes_extends avoids (.refl knowledge)).mono
        fun after refusal later _ => later.free (.inl (exempt own))
  have windows {knowledge : Knowledge}
      (exempt : slug ≠ watched.slug → knowledge.exempt = true) :
      (startMonitor watched cooldown).Passes
        (firstRefusal [checkWindows outside rules, checkCooldown rules slug,
          checkRateLimit outside hook rules slug])
        (fun after refusal => refusal = none → after.Free cooldown)
        knowledge := by
    have timed : (checkWindows outside rules).Avoids
        (Op.ofStart watched.slug) := by
      unfold checkWindows
      split
      · trivial
      · simp [Program.op, Op.ofStart]
    refine (passes_extends timed (.refl knowledge)).bind
      fun after refusal later => ?_
    cases refusal with
    | some refusal => exact fun isNone => (by cases isNone)
    | none =>
        refine (cooled fun other => later.exempt.trans
          (exempt other)).bind fun checked refusal free => ?_
        cases refusal with
        | some refusal => exact fun isNone => (by cases isNone)
        | none => exact counted (free rfl)
  have filtered : (checkFilters outside rules payload).Avoids
      (Op.ofStart watched.slug) := by
    unfold checkFilters
    split <;> trivial
  refine (passes_extends filtered (.refl knowledge)).bind
    fun after refusal later => ?_
  cases refusal with
  | some refusal => exact fun isNone => (by cases isNone)
  | none => exact windows fun other => later.exempt.trans (exempt other)

theorem triggerHook_passes {rules : TriggerRules} (request : TriggerRequest)
    (ruled : watched.hook.triggerRules = some rules)
    (cools : rules.cooldown = some cooldown)
    (converts : cooldown ≤ chronoMax)
    (exempt : request.slug ≠ watched.slug → knowledge.exempt = true) :
    (startMonitor watched cooldown).Passes (triggerHook outside request)
      (fun _ _ => True) knowledge := by
  have rejected {knowledge : Knowledge} (status : TriggerAttemptStatus)
      (reason : String) (response : Response) :
      (startMonitor watched cooldown).Passes (do
        logRejection request.slug request.sourceIp status reason
        return response) (fun _ _ => True) knowledge := by
    refine (passes_extends ((logRejection_ofAttempt ..).mono ?_)
      (.refl knowledge)).bind fun _ _ _ => trivial
    exact fun operation starts => not_ofAttempt_of_start starts
  refine ⟨trivial, fun config happens => ?_⟩
  obtain rfl : config = watched.config := happens.1 config rfl
  change (startMonitor watched cooldown).Passes _ _ knowledge
  simp only [Program.pure_bind]
  split
  · trivial
  · rename_i hook found
    have member := List.mem_of_find?_eq_some found
    have enabled := List.find?_some found
    simp only [Bool.and_eq_true, beq_iff_eq] at enabled
    have cools (own : request.slug = watched.slug) :
        (hook.triggerRules.getD {}).cooldown = some cooldown := by
      rw [watched.eq_hook member (enabled.1.trans own), ruled]
      exact cools
    split
    · exact rejected _ _ _
    · split
      · exact rejected _ _ _
      · refine (evaluateRules_passes _ cools converts exempt).bind
          fun after refusal free => ?_
        split
        · exact rejected _ _ _
        · exact passBarriers_passes _ _ _ _ _ (free rfl) (.refl after)

theorem body_passes {rules : TriggerRules}
    (ruled : watched.hook.triggerRules = some rules)
    (cools : rules.cooldown = some cooldown)
    (converts : cooldown ≤ chronoMax) (job : Job) :
    (startMonitor watched cooldown).Passes (taskBody outside job)
      (fun _ _ => True) ((startMonitor watched cooldown).start job) := by
  cases job with
  | trigger request =>
      exact triggerHook_passes request ruled cools converts
        fun other => decide_eq_true other
  | approve id user => exact approveExecution_passes id user
  | reject id user => exact rejectExecution_passes id user
  | replay id => exact replayExecution_passes id rfl
  | expirePendingApprovals =>
      refine ⟨trivial, fun config _ => ⟨trivial, fun now _ => ?_⟩⟩
      exact (expireHooks_passes now config.hooks (.refl _)).bind
        fun _ _ _ => trivial
  | reloadConfig config => exact ⟨trivial, fun _ _ => trivial⟩
  | runExecution context retries hook concurrency approval =>
      refine (runExecution_passes context retries hook concurrency approval
        ?_ (.refl _)).bind fun _ _ _ => trivial
      exact List.mem_cons_self
  | runDequeued hookSlug executionId concurrency approval =>
      exact (runDequeued_passes hookSlug executionId concurrency
        approval).bind fun _ _ _ => trivial

end Knowledge

end Sendword
