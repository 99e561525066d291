import Sendword.Concurrency.Monitor
import Sendword.Footprint
import Sendword.Hook.Constant
import Sendword.Hook.LockSafety

/-!
# The depth of a queue

A trigger counts the waiting entries, records its execution and enqueues it
in three statements.  From its count on it holds a place in the queue, as
long as the others leave room for it.
-/

namespace Sendword

open Concurrency

/-- The operation counts or lengthens the queue of the hook. -/
def Op.ofQueueing (slug : String) : Op → Prop
  | .sql (.queue (.countWaiting target))
  | .sql (.queue (.enqueue _ target _ _)) => target = slug
  | _ => False

theorem Op.ofQueueing.ofTrigger {operation : Op} {slug : String}
    (ofQueueing : operation.ofQueueing slug) : operation.ofTrigger := by
  unfold Op.ofQueueing at ofQueueing
  split at ofQueueing
  · trivial
  · trivial
  · exact ofQueueing.elim

/-- The barrier of a hook queues for its own hook only. -/
theorem Op.ofQueueing.ofBarrier {operation : Op} {slug target : String}
    (ofQueueing : operation.ofQueueing target)
    (ofBarrier : operation.ofBarrier slug) : target = slug := by
  unfold Op.ofQueueing at ofQueueing
  split at ofQueueing
  · exact ofQueueing.symm.trans ofBarrier
  · exact ofQueueing.symm.trans ofBarrier
  · exact ofQueueing.elim

theorem Op.ofQueueing.not_ofAttempt {operation : Op} {slug : String}
    (ofQueueing : operation.ofQueueing slug) : ¬ operation.ofAttempt := by
  unfold Op.ofQueueing at ofQueueing
  split at ofQueueing
  · exact id
  · exact id
  · exact ofQueueing.elim

theorem not_ofQueueing_of_rules {operation : Op} {slug : String}
    (ofQueueing : operation.ofQueueing slug) :
    ¬ (operation.ofSchedule ∨ operation.ofRateLimit) := by
  unfold Op.ofQueueing at ofQueueing
  split at ofQueueing
  · rintro (scheduled | counted)
    · exact scheduled
    · exact counted
  · rintro (scheduled | counted)
    · exact scheduled
    · exact counted
  · exact ofQueueing.elim

/-- What a task knows of the queue.  It holds a place when it has counted
fewer entries than the depth, and has neither enqueued since nor failed to
record its execution. -/
inductive Place where
  | unknown
  | held
  | full
  deriving DecidableEq

def Place.isHeld (place : Place) : Bool := place == .held

def placeMonitor (watched : Watched) (depth : Nat) :
    Monitor Job Op.Answer Place where
  start _ := .unknown
  next place event :=
    match event with
    | ⟨.sql (.queue (.countWaiting slug)), .ok count⟩ =>
        if slug = watched.slug then
          if count < depth then .held else .full
        else place
    | ⟨.sql (.queue (.enqueue _ slug _ _)), _⟩ =>
        if slug = watched.slug then .unknown else place
    | ⟨.sql (.execution (.insert _)), .error _⟩ => .unknown
    | _ => place
  allows place operation := ∀ id executionId queuedAt,
    operation = .sql (.queue (.enqueue id watched.slug executionId
      queuedAt)) → place = .held
  happens := ReadsConfig watched

/-- The triggers that hold a place. -/
def places (watched : Watched) (depth : Nat) (pool : ServerPool) : Nat :=
  (placeMonitor watched depth).count Place.isHeld pool.tasks

/-- The reason of a rejection by a full queue. -/
def queueFull (count depth : Nat) : String :=
  s!"queue full ({count}/{depth})"

/-- A trigger is rejected because the queue is full. -/
def Response.IsQueueFull (response : Response) : Prop :=
  ∃ count depth,
    response = .rejected 503 .concurrencyRejected (queueFull count depth)

/-- A trigger that finds room when it counts the waiting entries finds it for
the others that hold a place as well. -/
def LeavesRoom (watched : Watched) (depth : Nat) (pool : ServerPool) :
    ServerLabel → Prop
  | .arrive _ => True
  | .advance index _ =>
      match pool.next? index with
      | some (_, _, .sql (.queue (.countWaiting slug))) =>
          slug = watched.slug →
            (pool.state.db.waiting slug).length < depth →
            (pool.state.db.waiting slug).length +
              places watched depth pool < depth
      | _ => True

/-- What a job leaves its response with. -/
def Answered (watched : Watched) (job : Job) (place : Place)
    (response : Response) : Prop :=
  ∀ request, job = .trigger request → request.slug = watched.slug →
    response.IsQueueFull → place = .full

namespace Place

variable {watched : Watched} {depth : Nat} {outside : Outside} {α : Type}

theorem placeMonitor_ignores {place : Place} {operation : Op}
    (other : ¬ operation.ofQueueing watched.slug)
    (keeps : place = .unknown ∨
      ∀ row, operation ≠ .sql (.execution (.insert row))) :
    (placeMonitor watched depth).Ignores place operation := by
  refine ⟨fun id executionId queuedAt same => ?_, fun answer => ?_⟩
  · exact (other (same ▸ rfl)).elim
  · simp only [placeMonitor]
    split
    · rename_i same
      cases same
      exact if_neg other
    · rename_i same
      cases same
      exact if_neg other
    · rename_i same
      cases same
      exact (keeps.resolve_right fun away => away _ rfl).symm
    · rfl

theorem passes_quiet {program : Async α}
    (avoids : program.Avoids (Op.ofQueueing watched.slug)) :
    (placeMonitor watched depth).Passes program
      (fun place _ => place = .unknown) .unknown :=
  .of_ignored avoids fun _ other => placeMonitor_ignores other (.inl rfl)

/-- Logging an attempt leaves a place alone. -/
theorem passes_attempt {program : Async α} {place : Place}
    (avoids : program.Avoids fun operation => ¬ operation.ofAttempt) :
    (placeMonitor watched depth).Passes program
      (fun after _ => after = place) place := by
  refine .of_ignored avoids fun operation logs => ?_
  have ofAttempt := not_not.mp logs
  refine placeMonitor_ignores
    (fun ofQueueing => ofQueueing.not_ofAttempt ofAttempt)
    (.inr fun row same => ?_)
  subst same
  exact ofAttempt

section

attribute [local simp] nowUtc Sendword.newId Sendword.loadConfig
  Sendword.spawn sql Program.op Op.ofQueueing

theorem passApproval_unqueued (config : AppConfig) (hook : HookConfig)
    (slug sourceIp payload : String) (new : NewExecution)
    (target : String) :
    (passApproval outside config hook slug sourceIp payload new).Avoids
      (Op.ofQueueing target) := by
  refine (passApproval_ofCreate ..).mono fun op ofQueueing => ?_
  rintro (ofCreate | ofAttempt | ⟨job, rfl⟩)
  · exact ofQueueing.ofTrigger.elsewhere.2.2.2 ofCreate
  · exact ofQueueing.not_ofAttempt ofAttempt
  · exact ofQueueing

/-- The barrier of another hook leaves the queue alone. -/
theorem evaluate_unqueued {slug target : String} (other : slug ≠ target)
    (execId : String) (config : ConcurrencyConfig) (new : NewExecution) :
    (evaluate slug execId config new).Avoids (Op.ofQueueing target) :=
  (evaluate_ofBarrier ..).mono fun _ ofQueueing ofBarrier =>
    other (ofQueueing.ofBarrier ofBarrier).symm

/-- What a trigger knows after its count. -/
theorem countWaiting_passes :
    (placeMonitor watched depth).Passes (countWaiting watched.slug)
      (fun place answer => ∀ count, answer = .ok count →
        place = if count < depth then .held else .full) .unknown := by
  refine ⟨fun id executionId queuedAt same => (by cases same),
    fun answer _ count same => ?_⟩
  subst same
  exact if_pos rfl

/-- A trigger keeps its place while it records its execution. -/
theorem create_passes {new : NewExecution} {execId : String}
    (named : new.id = some execId) (place : Place) :
    (placeMonitor watched depth).Passes (create new)
      (fun after created => created.toOption.isSome → after = place)
      place := by
  unfold create
  rw [named]
  refine ⟨fun id executionId queuedAt same => (by cases same),
    fun time _ => ?_⟩
  refine ⟨fun id executionId queuedAt same => (by cases same),
    fun inserted _ => ?_⟩
  cases inserted with
  | error error =>
      intro created
      cases created
  | ok _ =>
      refine ⟨fun id executionId queuedAt same => (by cases same),
        fun row _ _ => rfl⟩

theorem enqueue_passes (execId : String) :
    (placeMonitor watched depth).Passes (enqueue watched.slug execId)
      (fun _ _ => True) .held := by
  refine ⟨fun id executionId queuedAt same => rfl, fun id _ => ?_⟩
  refine ⟨fun id executionId queuedAt same => rfl, fun time _ => ?_⟩
  refine ⟨fun id executionId queuedAt same => rfl, fun inserted _ => ?_⟩
  cases inserted with
  | error error => trivial
  | ok _ =>
      exact ⟨fun id executionId queuedAt same => (by cases same),
        fun row _ => trivial⟩

/-- What a barrier leaves a trigger with. -/
def Barred (place : Place) (outcome : BarrierOutcome) : Prop :=
  (outcome = .proceed → place = .unknown) ∧
    ∀ count depth, outcome = rejectConcurrency (queueFull count depth) →
      place = .full

/-- No other rejection has this reason. -/
theorem barred_of_reason {place : Place} {reason : String}
    (other : reason.toList.head? ≠ some 'q') :
    Barred place (rejectConcurrency reason) := by
  refine ⟨fun proceeds => (by cases proceeds), fun count depth same => ?_⟩
  obtain rfl : reason = queueFull count depth :=
    (BarrierOutcome.reject.inj same).2
  refine (other ?_).elim
  simp only [queueFull, String.toList_append]
  rfl

/-- The barrier of the hook counts before it enqueues. -/
theorem evaluate_passes {concurrency : ConcurrencyConfig} (execId : String)
    {new : NewExecution} (named : new.id = some execId) :
    (placeMonitor watched concurrency.queueDepth).Passes
      (evaluate watched.slug execId concurrency new) Barred .unknown := by
  unfold evaluate
  refine Monitor.Passes.bind (passes_quiet (by simp [tryAcquire]))
    fun place acquired free => ?_
  subst free
  split
  · exact barred_of_reason (by decide)
  · exact ⟨fun _ => rfl, fun count depth same => (by cases same)⟩
  · split
    · exact barred_of_reason (by decide)
    · refine countWaiting_passes.bind fun place count isPlace => ?_
      split
      · exact barred_of_reason (by decide)
      · rename_i count
        split
        · rename_i full
          refine ⟨fun proceeds => (by cases proceeds), fun _ _ _ => ?_⟩
          rw [isPlace count rfl]
          exact if_neg (Nat.not_lt_of_le full)
        · rename_i room
          have reserved : place = .held := by
            rw [isPlace count rfl]
            exact if_pos (Nat.lt_of_not_le room)
          refine (create_passes named place).bind fun after created kept => ?_
          split
          · exact barred_of_reason (by decide)
          · rw [kept rfl, reserved]
            refine (enqueue_passes execId).bind fun last position _ => ?_
            split
            · exact barred_of_reason (by decide)
            · exact ⟨fun proceeds => (by cases proceeds),
                fun count depth same => (by cases same)⟩

end

theorem evaluateRules_unqueued (hook : HookConfig) (slug payload : String)
    (target : String) :
    (evaluateRules outside hook slug payload).Avoids
      (Op.ofQueueing target) :=
  (evaluateRules_ofRules outside hook slug payload).mono
    fun _ => not_ofQueueing_of_rules

/-- The rules refuse with other status codes than the barriers. -/
theorem evaluateRules_returns (hook : HookConfig) (slug payload : String) :
    (evaluateRules outside hook slug payload).Returns
      fun refusal => ∀ refused ∈ refusal, refused.code ≠ 503 := by
  have checked {checks : List (Async (Option Refusal))}
      (each : ∀ check ∈ checks, check.Returns
        fun refusal => ∀ refused ∈ refusal, refused.code ≠ 503) :
      (firstRefusal checks).Returns
        fun refusal => ∀ refused ∈ refusal, refused.code ≠ 503 := by
    induction checks with
    | nil => simp [firstRefusal, Program.Returns]
    | cons check checks induction =>
        refine (each check (by simp)).bind fun refusal coded => ?_
        cases refusal with
        | some refused => exact coded
        | none =>
            exact induction fun other member =>
              each other (List.mem_cons_of_mem _ member)
  have coded (code : Nat) (other : code ≠ 503) (outcome : EvalOutcome) :
      ∀ refused ∈ outcome.refusal code, refused.code ≠ 503 := by
    cases outcome with
    | allow => simp [EvalOutcome.refusal]
    | reject status reason => simp [EvalOutcome.refusal, other]
  refine checked ?_
  simp only [List.mem_cons, List.not_mem_nil, or_false, forall_eq_or_imp,
    forall_eq]
  refine ⟨?_, ?_, ?_, ?_⟩
  · unfold checkFilters
    split
    · simp [Program.Returns]
    · simp [Program.Returns]
  · unfold checkWindows
    split
    · simp [Program.Returns]
    · simp [Program.Returns, Program.op]
  · unfold checkCooldown
    split
    · simp [Program.Returns]
    · exact (Program.Returns.of_all (fun _ => trivial) _).bind
        fun outcome _ => coded 200 (by decide) outcome
  · unfold checkRateLimit
    split
    · simp [Program.Returns]
    · exact (Program.Returns.of_all (fun _ => trivial) _).bind
        fun outcome _ => coded 429 (by decide) outcome

theorem passApproval_returns (config : AppConfig) (hook : HookConfig)
    (slug sourceIp payload : String) (new : NewExecution) :
    (passApproval outside config hook slug sourceIp payload new).Returns
      fun response => ¬ response.IsQueueFull := by
  have other {response : Response}
      (answers : ∀ count depth, response ≠
        .rejected 503 .concurrencyRejected (queueFull count depth)) :
      ¬ response.IsQueueFull :=
    fun ⟨count, depth, same⟩ => answers count depth same
  unfold passApproval
  split
  · refine (Program.Returns.of_all (fun _ => trivial) _).bind
      fun created _ => ?_
    split
    · exact other (by simp)
    · exact (Program.Returns.of_all (fun _ => trivial) _).bind
        fun _ _ => other (by simp)
  · refine (Program.Returns.of_all (fun _ => trivial) _).bind
      fun created _ => ?_
    split
    · exact other (by simp)
    · exact (Program.Returns.of_all (fun _ => trivial) _).bind
        fun _ _ => fun _ => other (by simp)

theorem passBarriers_passes {concurrency : ConcurrencyConfig}
    (limited : watched.hook.concurrency = some concurrency)
    {hook : HookConfig} (member : hook ∈ watched.config.hooks)
    (config : AppConfig) (sourceIp payload : String) :
    (placeMonitor watched concurrency.queueDepth).Passes
      (passBarriers outside config hook hook.slug sourceIp payload)
      (fun place response => hook.slug = watched.slug →
        response.IsQueueFull → place = .full) .unknown := by
  have approved (new : NewExecution) :
      (placeMonitor watched concurrency.queueDepth).Passes
        (passApproval outside config hook hook.slug sourceIp payload new)
        (fun place response => hook.slug = watched.slug →
          response.IsQueueFull → place = .full) .unknown :=
    ((passes_quiet (passApproval_unqueued ..)).returns
      (passApproval_returns ..)).mono
        fun _ _ passed _ isFull => (passed.2 isFull).elim
  have logged (place : Place) (attempt : NewTriggerAttempt)
      (response : Response) (answered : hook.slug = watched.slug →
        response.IsQueueFull → place = .full) :
      (placeMonitor watched concurrency.queueDepth).Passes (do
        let _ ← insertAttempt attempt
        return response)
        (fun place response => hook.slug = watched.slug →
          response.IsQueueFull → place = .full) place := by
    refine (passes_attempt (insertAttempt_ofAttempt attempt)).bind
      fun after _ same => ?_
    rw [same]
    exact answered
  refine ⟨fun id executionId queuedAt same => (by cases same),
    fun execId _ => ?_⟩
  change (placeMonitor watched concurrency.queueDepth).Passes _ _ .unknown
  dsimp only
  split
  · exact approved _
  · rename_i own isOwn
    have evaluated : (placeMonitor watched concurrency.queueDepth).Passes
        (evaluate hook.slug execId own
          { id := some execId
            hookSlug := hook.slug
            logPath := s!"{config.logs.dir}/{execId}"
            triggerSource := sourceIp
            requestPayload := payload })
        (fun place outcome => (outcome = .proceed → place = .unknown) ∧
          (hook.slug = watched.slug → Barred place outcome)) .unknown := by
      by_cases same : hook.slug = watched.slug
      · have isHook : hook = watched.hook := watched.eq_hook member same
        rw [isHook, limited] at isOwn
        cases isOwn
        rw [same]
        exact (evaluate_passes execId rfl).mono
          fun _ _ barred => ⟨barred.1, fun _ => barred⟩
      · exact (passes_quiet (evaluate_unqueued same ..)).mono
          fun _ _ free => ⟨fun _ => free, fun own => (same own).elim⟩
    refine evaluated.bind fun place outcome known => ?_
    split
    · rw [known.1 rfl]
      exact approved _
    · refine logged _ _ _ ?_
      rintro own ⟨count, depth, same⟩
      obtain ⟨-, rfl, rfl⟩ := Response.rejected.inj same
      exact (known.2 own).2 count depth rfl
    · refine logged _ _ _ ?_
      rintro own ⟨count, depth, same⟩
      cases same

theorem triggerHook_passes {concurrency : ConcurrencyConfig}
    (limited : watched.hook.concurrency = some concurrency)
    (request : TriggerRequest) :
    (placeMonitor watched concurrency.queueDepth).Passes
      (triggerHook outside request)
      (fun place response => request.slug = watched.slug →
        response.IsQueueFull → place = .full) .unknown := by
  have rejected (status : TriggerAttemptStatus) (reason : String)
      (response : Response) (other : ¬ response.IsQueueFull) :
      (placeMonitor watched concurrency.queueDepth).Passes (do
        logRejection request.slug request.sourceIp status reason
        return response)
        (fun place response => request.slug = watched.slug →
          response.IsQueueFull → place = .full) .unknown :=
    (passes_attempt (logRejection_ofAttempt ..)).bind
      fun _ _ _ _ isFull => (other isFull).elim
  refine ⟨fun id executionId queuedAt same => (by cases same),
    fun config stays => ?_⟩
  obtain rfl : config = watched.config := stays config rfl
  change (placeMonitor watched concurrency.queueDepth).Passes _ _ .unknown
  simp only [Program.pure_bind]
  split
  · rintro - ⟨count, depth, same⟩
    cases same
  · rename_i hook found
    have member := List.mem_of_find?_eq_some found
    have enabled := List.find?_some found
    simp only [Bool.and_eq_true, beq_iff_eq] at enabled
    split
    · exact rejected _ _ _ fun ⟨count, depth, same⟩ => (by cases same)
    · split
      · exact rejected _ _ _ fun ⟨count, depth, same⟩ => (by cases same)
      · refine ((passes_quiet (evaluateRules_unqueued ..)).returns
          (evaluateRules_returns ..)).bind fun place refusal passed => ?_
        rw [passed.1]
        split
        · rename_i refusal
          refine rejected _ _ _ fun ⟨count, depth, same⟩ => ?_
          exact passed.2 refusal rfl (Response.rejected.inj same).1
        · rw [← enabled.1]
          exact passBarriers_passes limited member ..

theorem body_passes {concurrency : ConcurrencyConfig}
    (limited : watched.hook.concurrency = some concurrency) (job : Job) :
    (placeMonitor watched concurrency.queueDepth).Passes
      (taskBody outside job) (Answered watched job) .unknown := by
  by_cases triggers : ∃ request, job = .trigger request
  · obtain ⟨request, rfl⟩ := triggers
    refine (triggerHook_passes limited request).mono ?_
    intro place response known other same
    cases same
    exact known
  · have avoids : (taskBody outside job).Avoids Op.ofTrigger :=
      body_ofTrigger fun request same => triggers ⟨request, same⟩
    refine (passes_quiet (avoids.mono fun operation ofQueueing => ?_)).mono
      fun _ _ _ request same => (triggers ⟨request, same⟩).elim
    exact ofQueueing.ofTrigger

end Place

/-! ## The waiting entries -/

section Entries

variable {db : Db} {slug : String}

theorem Db.waiting_length (db : Db) (slug : String) :
    (db.waiting slug).length = db.queue.countP fun row =>
      row.hookSlug == slug && row.status == .waiting :=
  List.countP_eq_length_filter.symm

theorem Db.waiting_enqueue (id executionId : String) (queuedAt : Timestamp) :
    (((Statement.queue (.enqueue id slug executionId queuedAt)).exec
        db).2.waiting slug).length ≤ (db.waiting slug).length + 1 := by
  simp only [Statement.exec]
  rcases enqueue_cases db id slug executionId queuedAt with
    ⟨position, added⟩ | refused
  · rw [added, waiting_length, waiting_length, List.countP_append]
    refine Nat.add_le_add_left ?_ _
    exact List.countP_le_length
  · rw [refused]
    exact Nat.le_succ _

/-- Only `enqueue` lengthens the queue of a hook. -/
theorem Db.waiting_exec {statement : Statement}
    (other : ∀ id executionId queuedAt,
      statement ≠ .queue (.enqueue id slug executionId queuedAt)) :
    ((statement.exec db).2.waiting slug).length ≤
      (db.waiting slug).length := by
  have mapped (change : QueueRow → QueueRow)
      (sameSlug : ∀ row, (change row).hookSlug = row.hookSlug)
      (waits : ∀ row, (change row).status = .waiting →
        row.status = .waiting) :
      (({ db with queue := db.queue.map change } : Db).waiting slug).length ≤
        (db.waiting slug).length := by
    rw [waiting_length, waiting_length, List.countP_map]
    refine List.countP_mono_left fun row _ fits => ?_
    simp only [Function.comp_apply, Bool.and_eq_true, beq_iff_eq,
      sameSlug] at fits ⊢
    exact ⟨fits.1, waits row fits.2⟩
  cases statement with
  | queue statement =>
      cases statement with
      | enqueue id target executionId queuedAt =>
          simp only [Statement.exec]
          rcases enqueue_cases db id target executionId queuedAt with
            ⟨position, added⟩ | refused
          · have away : target ≠ slug :=
              fun same => other id executionId queuedAt (same ▸ rfl)
            rw [added, waiting_length, waiting_length, List.countP_append]
            simp [away]
          · rw [refused]
      | update change =>
          refine mapped change.apply change.apply_hookSlug fun row waits => ?_
          unfold QueueUpdate.apply at waits
          split at waits
          · cases change <;> cases waits
          · exact waits
      | expireStale =>
          refine mapped _ (fun row => ?_) fun row waits => ?_
          · split <;> rfl
          · split at waits
            · cases waits
            · exact waits
      | selectPosition | peekNext | countWaiting => exact Nat.le_refl _
  | execution | lock | attempt | counter =>
      unfold waiting
      rw [queue_exec (by simp)]

end Entries

/-! ## Runs -/

section Runs

variable {watched : Watched} {concurrency : ConcurrencyConfig}
  {outside : Outside} {start pool target : ServerPool}

/-- Other operations give no place and lengthen no queue. -/
theorem room_quiet {depth : Nat} {place : Place} {operation : Op}
    {answer : operation.Answer} {db : Db}
    (other : ¬ operation.ofQueueing watched.slug) :
    ((placeMonitor watched depth).next place
        ⟨operation, answer⟩).isHeld.toNat ≤ place.isHeld.toNat ∧
      ((operation.db db).waiting watched.slug).length ≤
        (db.waiting watched.slug).length := by
  constructor
  · simp only [placeMonitor]
    split
    · rename_i slug count same
      cases same
      have away : ¬ slug = watched.slug := other
      rw [if_neg away]
    · rename_i slug executionId queuedAt answer same
      cases same
      have away : ¬ slug = watched.slug := other
      rw [if_neg away]
    · exact Nat.zero_le _
    · exact Nat.le_refl _
  · cases operation with
    | sql statement =>
        refine Db.waiting_exec fun id executionId queuedAt same => ?_
        subst same
        exact other rfl
    | _ => exact Nat.le_refl _

theorem places_advance {depth index : Nat} {job : Job}
    {trace : List (Event Op.Answer)} {operation : Op}
    {next : operation.Answer → Async Response} (answer : operation.Answer)
    (state : World)
    (found : pool.tasks[index]? =
      some { job, trace, program := .perform operation next }) :
    places watched depth
        { state
          tasks :=
            pool.tasks.set index
              { job
                trace := trace ++ [⟨operation, answer⟩]
                program := next answer }
            ++ (server outside).forked operation } +
        ((placeMonitor watched depth).memory job trace).isHeld.toNat =
      places watched depth pool +
        ((placeMonitor watched depth).next
          ((placeMonitor watched depth).memory job trace)
          ⟨operation, answer⟩).isHeld.toNat :=
  Monitor.count_advance (fun _ => rfl) found ⟨operation, answer⟩
    (next answer) operation

/-- The waiting entries and the places that are held fit in the queue. -/
def Fits (watched : Watched) (depth : Nat) (pool : ServerPool) : Prop :=
  (pool.state.db.waiting watched.slug).length + places watched depth pool ≤
    depth

theorem Fits.step {label : ServerLabel} {depth : Nat}
    (fits : Fits watched depth pool)
    (passes : ∀ task ∈ pool.tasks, (placeMonitor watched depth).Passes
      task.program (Answered watched task.job)
      ((placeMonitor watched depth).memory task.job task.trace))
    (leaves : LeavesRoom watched depth pool label)
    (taken : (server outside).step pool label = some target) :
    Fits watched depth target := by
  cases label with
  | arrive job =>
      cases taken
      have same : places watched depth
          { pool with tasks := pool.tasks ++ [(server outside).launch job] } =
            places watched depth pool :=
        Monitor.count_launch (fun _ => rfl) job
      unfold Fits at fits ⊢
      rw [same]
      exact fits
  | advance index choice =>
      obtain ⟨job, trace, operation, next, answer, state, found, performed,
        rfl⟩ := Machine.step_advance taken
      have allowed := (passes _ (List.mem_of_getElem? found)).1
      simp only [LeavesRoom, Pool.next?_eq found] at leaves
      have db := perform_db performed
      have counted := @places_advance watched outside pool depth index job
        trace operation next answer state found
      unfold Fits at fits
      change (state.db.waiting watched.slug).length + _ ≤ depth
      by_cases touches : operation.ofQueueing watched.slug
      · unfold Op.ofQueueing at touches
        split at touches
        · subst touches
          cases performed
          have next : (placeMonitor watched depth).next
              ((placeMonitor watched depth).memory job trace)
              ⟨.sql (.queue (.countWaiting watched.slug)),
                .ok (pool.state.db.waiting watched.slug).length⟩ =
              if (pool.state.db.waiting watched.slug).length < depth then
                .held else .full := if_pos rfl
          rw [next] at counted
          change (pool.state.db.waiting watched.slug).length + _ ≤ depth
          by_cases room :
              (pool.state.db.waiting watched.slug).length < depth
          · have left := leaves rfl room
            rw [if_pos room] at counted
            change _ = _ + 1 at counted
            omega
          · rw [if_neg room] at counted
            change _ = _ + 0 at counted
            omega
        · subst touches
          rename_i id executionId queuedAt
          have held := allowed _ _ _ rfl
          have next : (placeMonitor watched depth).next
              ((placeMonitor watched depth).memory job trace)
              ⟨.sql (.queue (.enqueue id watched.slug executionId
                queuedAt)), answer⟩ = .unknown := if_pos rfl
          rw [next, held] at counted
          change _ + 1 = _ + 0 at counted
          have longer := @Db.waiting_enqueue pool.state.db watched.slug id
            executionId queuedAt
          rw [db]
          change ((Statement.exec _ _).2.waiting _).length + _ ≤ depth
          omega
        · exact touches.elim
      · have quiet := @room_quiet watched depth
          ((placeMonitor watched depth).memory job trace) operation answer
          pool.state.db touches
        rw [← db] at quiet
        omega

theorem Fits.reached
    (limited : watched.hook.concurrency = some concurrency)
    (empty : start.tasks = [])
    (config : start.state.config = watched.config)
    (fits : Fits watched concurrency.queueDepth start)
    (run : (server outside).Reaches (fun pool label =>
      KeepsConfig watched pool label ∧
        LeavesRoom watched concurrency.queueDepth pool label) start pool) :
    Fits watched concurrency.queueDepth pool := by
  induction run with
  | refl => exact fits
  | step before admitted taken induction =>
      have read := read_config empty config (fun _ _ => And.left) before
      exact induction.step
        (Monitor.passes_of_reaches (Place.body_passes limited) empty before read)
        admitted.2 taken

/-- What a task that knows the queue to be full has counted. -/
theorem counted_of_full {depth : Nat} {job : Job}
    {trace : List (Event Op.Answer)}
    (full : (placeMonitor watched depth).memory job trace = .full) :
    ∃ count, depth ≤ count ∧
      (⟨.sql (.queue (.countWaiting watched.slug)), .ok count⟩ :
        Event Op.Answer) ∈ trace := by
  induction trace using List.reverseRecOn with
  | nil => cases full
  | append_singleton trace event induction =>
      rw [Monitor.memory_snoc] at full
      have earlier
          (same : (placeMonitor watched depth).memory job trace = .full) :
          ∃ count, depth ≤ count ∧
            (⟨.sql (.queue (.countWaiting watched.slug)), .ok count⟩ :
              Event Op.Answer) ∈ trace ++ [event] := by
        obtain ⟨count, most, member⟩ := induction same
        exact ⟨count, most, List.mem_append_left _ member⟩
      simp only [placeMonitor] at full earlier
      split at full
      · rename_i slug count
        split at full
        · rename_i own
          split at full
          · cases full
          · rename_i most
            exact ⟨count, Nat.le_of_not_lt most, by simp [own]⟩
        · exact earlier full
      · split at full
        · cases full
        · exact earlier full
      · cases full
      · exact earlier full

/-- A trigger of the hook that is rejected because the queue is full has
counted, at a pool on the way, as many waiting entries as the depth. -/
def RejectsFull (outside : Outside) (watched : Watched) (depth : Nat)
    (start pool : ServerPool) : Prop :=
  ∀ (index : Nat) task request response, pool.tasks[index]? = some task →
    task.job = .trigger request → request.slug = watched.slug →
    task.program.result? = some response → response.IsQueueFull →
    ∃ middle past,
      (server outside).Reaches (KeepsConfig watched) start middle ∧
        (server outside).Reaches (KeepsConfig watched) middle pool ∧
        middle.next? index = some (task.job, past,
          .sql (.queue (.countWaiting watched.slug))) ∧
        depth ≤ (middle.state.db.waiting watched.slug).length

theorem rejectsFull
    (limited : watched.hook.concurrency = some concurrency)
    (empty : start.tasks = [])
    (config : start.state.config = watched.config)
    (run : (server outside).Reaches (KeepsConfig watched) start pool) :
    RejectsFull outside watched concurrency.queueDepth start pool := by
  intro index task request response found triggers own ended isFull
  have read := read_config empty config (fun _ _ => id) run
  have passes := Monitor.passes_of_reaches (Place.body_passes limited) empty run
    read task (List.mem_of_getElem? found)
  cases rest : task.program with
  | perform op next => simp [rest] at ended
  | pure value =>
      rw [rest] at passes ended
      cases ended
      have full := passes request triggers own isFull
      obtain ⟨count, most, inTrace⟩ := counted_of_full full
      obtain ⟨middle, past, choice, after, first, later, -, isNext,
        performed⟩ := run.performed empty index task found _ inTrace
      refine ⟨middle, past, first, later, isNext, ?_⟩
      cases performed
      exact most

/-- A queue whose triggers leave room for each other never holds more than
its depth, and rejects as full only when it is. -/
theorem queue_depth
    (limited : watched.hook.concurrency = some concurrency)
    (empty : start.tasks = [])
    (config : start.state.config = watched.config)
    (initially : (start.state.db.waiting watched.slug).length ≤
      concurrency.queueDepth)
    (run : (server outside).Reaches (fun pool label =>
      KeepsConfig watched pool label ∧
        LeavesRoom watched concurrency.queueDepth pool label) start pool) :
    (pool.state.db.waiting watched.slug).length ≤ concurrency.queueDepth ∧
      RejectsFull outside watched concurrency.queueDepth start pool := by
  have nobody : places watched concurrency.queueDepth start = 0 := by
    simp [places, Monitor.count, empty]
  have fits : Fits watched concurrency.queueDepth start := by
    unfold Fits
    omega
  refine ⟨?_, rejectsFull limited empty config
    (run.mono fun _ _ => And.left)⟩
  have room := fits.reached limited empty config run
  unfold Fits at room
  omega

end Runs

/-! ## Two triggers for one place -/

def singleDeploy : HookConfig :=
  { name := "deploy"
    slug := "deploy"
    executor := .shell "true"
    concurrency := some { mode := .queue, queueDepth := 1 } }

/-- A trigger takes the lock, and the next one counts no entry. -/
def firstCount : List ServerLabel :=
  .arrive (.trigger { slug := "deploy" }) ::
  .arrive (.trigger { slug := "deploy" }) ::
  .arrive (.trigger { slug := "deploy" }) ::
    steps 0 1 ++ stepWithId 0 "first" ++ steps 0 2 ++
    steps 1 1 ++ stepWithId 1 "second" ++ steps 1 3

/-- It enqueues before the third trigger counts. -/
def countsAfter : List ServerLabel :=
  firstCount ++ steps 1 3 ++ stepWithId 1 "entry" ++ steps 1 2 ++
    steps 2 1 ++ stepWithId 2 "third" ++ steps 2 3 ++
    stepWithId 2 "attempt" ++ steps 2 3

/-- The third trigger counts first. -/
def countsBefore : List ServerLabel :=
  firstCount ++ steps 2 1 ++ stepWithId 2 "third" ++ steps 2 3 ++
    steps 1 3 ++ stepWithId 1 "entry" ++ steps 1 2 ++
    steps 2 3 ++ stepWithId 2 "another" ++ steps 2 2

/-- Triggers of a hook whose steps leave room. -/
def roomy (depth : Nat) (pool : ServerPool) (label : ServerLabel) : Bool :=
  triggersAndDecisions label &&
    match label with
    | .arrive _ => true
    | .advance index _ =>
        match pool.next? index with
        | some (_, _, .storeConfig _) => false
        | some (_, _, .sql (.queue (.countWaiting slug))) =>
            depth ≤ (pool.state.db.waiting slug).length ||
              (pool.state.db.waiting slug).length +
                places (.only singleDeploy) depth pool < depth
        | _ => true

theorem leavesRoom_of_roomy {depth : Nat} {pool : ServerPool}
    {label : ServerLabel} (room : roomy depth pool label = true) :
    KeepsConfig (.only singleDeploy) pool label ∧
      LeavesRoom (.only singleDeploy) depth pool label := by
  cases label with
  | arrive job => exact ⟨trivial, trivial⟩
  | advance index choice =>
      simp only [roomy, triggersAndDecisions, Bool.true_and] at room
      simp only [KeepsConfig, LeavesRoom]
      split at room
      · cases room
      · rename_i found
        simp only [Bool.or_eq_true, decide_eq_true_eq] at room
        simp only [found, true_and]
        intro _ below
        exact room.resolve_left (Nat.not_le_of_lt below)
      · rename_i noStore noCount
        constructor
        · split
          · rename_i found
            exact (noStore _ _ _ found).elim
          · trivial
        · split
          · rename_i found
            exact (noCount _ _ _ found).elim
          · trivial

def rejectedThird : ServerPool :=
  ((server .accepting).run (roomy 1) (Watched.only singleDeploy).started
    countsAfter).get (by decide)

theorem queue_depth_single :
    ((rejectedThird.state.db.waiting "deploy").length ≤ 1 ∧
      RejectsFull .accepting (.only singleDeploy) 1
        (Watched.only singleDeploy).started rejectedThird) ∧
    rejectedThird.tasks[2]?.bind (·.program.result?) =
      some (.rejected 503 .concurrencyRejected "queue full (1/1)") := by
  have reached : (server .accepting).Reaches
      (fun pool label => roomy 1 pool label = true)
      (Watched.only singleDeploy).started rejectedThird :=
    .of_run .refl (Option.some_get _).symm
  have depth := @queue_depth (.only singleDeploy)
    { mode := .queue, queueDepth := 1 } .accepting
    (Watched.only singleDeploy).started rejectedThird rfl rfl rfl (by decide)
    (reached.mono fun _ _ => leavesRoom_of_roomy)
  exact ⟨depth, by decide⟩

def overfull : ServerPool :=
  ((server .accepting).run (fun _ => triggersAndDecisions)
    (Watched.only singleDeploy).started countsBefore).get (by decide)

/-- Two entries wait in a queue of depth 1. -/
theorem not_queue_depth :
    ¬ ∀ pool, (server .accepting).Reaches
        (fun _ label => triggersAndDecisions label = true)
        (Watched.only singleDeploy).started pool →
      (pool.state.db.waiting "deploy").length ≤ 1 := by
  intro bounded
  have room := bounded overfull (.of_run .refl (Option.some_get _).symm)
  exact absurd room (by decide)

end Sendword
