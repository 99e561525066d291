import Sendword.Footprint
import Sendword.Hook.Heads
import Sendword.Hook.SingleToken

/-!
# Triggers on their way into the queue

A trigger that is told that the lock is held goes on to queue its execution,
unless it finds the queue full.  Only such a trigger queues anything.
-/

namespace Sendword

open Concurrency

namespace Watched

/-- The depth of the hook's queue. -/
def depth (watched : Watched) : Nat :=
  (watched.hook.concurrency.map (·.queueDepth)).getD 0

end Watched

/-- A trigger remembers that it was told that the lock is held, until it
finds the queue full or queues its execution. -/
def turnMonitor (watched : Watched) : Monitor Job Op.Answer Bool where
  start _ := false
  next told event :=
    match event with
    | ⟨.sql (.lock (.insertOrIgnore slug _ _)), .ok rows⟩ =>
        if slug = watched.slug then rows != (1 : Nat) else told
    | ⟨.sql (.queue (.countWaiting slug)), .ok count⟩ =>
        if slug = watched.slug then told && decide (count < watched.depth)
        else told
    | ⟨.sql (.queue (.enqueue _ slug _ _)), _⟩ =>
        if slug = watched.slug then false else told
    | _ => told
  allows told op := ∀ id executionId queuedAt,
    op = .sql (.queue (.enqueue id watched.slug executionId queuedAt)) →
      told = true
  happens := watched.ReadsBarriers

/-- The task was told that the lock is held and is to queue its execution. -/
def Watched.takesTurn (watched : Watched) (task : ServerTask) : Bool :=
  task.program.next?.isSome &&
    (turnMonitor watched).memory task.job task.trace

/-- A lock that a trigger of the hook has seen held is released before that
trigger has queued its execution. -/
def releasesEarly (watched : Watched) (pool : ServerPool) (index : Nat) :
    Bool :=
  match pool.next? index with
  | some (_, _, .sql (.lock (.delete slug))) =>
      slug == watched.slug && pool.tasks.any watched.takesTurn
  | _ => false

/-- Triggers arrive; no release comes between a trigger's look at the lock
and its entry, and no entry between a completion's look at the queue and its
release. -/
def Watched.inTurn (watched : Watched) (pool : ServerPool) :
    ServerLabel → Bool
  | .arrive job => onlyTriggers (.arrive job)
  | .advance index _ =>
      !releasesEarly watched pool index &&
        !queuesLate watched.slug pool index

/-- The operations that a trigger's turn depends on. -/
def Op.ofTurn (slug : String) : Op → Prop
  | .sql (.lock (.insertOrIgnore target _ _))
  | .sql (.queue (.countWaiting target))
  | .sql (.queue (.enqueue _ target _ _)) => target = slug
  | _ => False

theorem Op.ofTurn.ofTrigger {op : Op} {slug : String}
    (ofTurn : op.ofTurn slug) : op.ofTrigger := by
  unfold Op.ofTurn at ofTurn
  split at ofTurn
  · trivial
  · trivial
  · trivial
  · exact ofTurn.elim

/-- The barrier of a hook takes a turn of its own hook only. -/
theorem Op.ofTurn.ofBarrier {op : Op} {slug target : String}
    (ofTurn : op.ofTurn target) (ofBarrier : op.ofBarrier slug) :
    target = slug := by
  unfold Op.ofTurn at ofTurn
  split at ofTurn
  · exact ofTurn.symm.trans ofBarrier
  · exact ofTurn.symm.trans ofBarrier
  · exact ofTurn.symm.trans ofBarrier
  · exact ofTurn.elim

theorem Op.ofTurn.elsewhere {op : Op} {slug : String}
    (ofTurn : op.ofTurn slug) :
    ¬ op.ofAttempt ∧ ¬ (op.ofSchedule ∨ op.ofRateLimit) := by
  unfold Op.ofTurn at ofTurn
  split at ofTurn
  · exact ⟨id, fun rules => rules.elim id id⟩
  · exact ⟨id, fun rules => rules.elim id id⟩
  · exact ⟨id, fun rules => rules.elim id id⟩
  · exact ofTurn.elim

namespace Watched

variable {watched : Watched} {outside : Outside} {told : Bool} {α : Type}

/-! ## The programs take their turns -/

/-- Whatever comes after. -/
abbrev Turns (watched : Watched) (program : Async α) (told : Bool) : Prop :=
  (turnMonitor watched).Passes program (fun _ _ => True) told

theorem turnMonitor_ignores {op : Op} (other : ¬ op.ofTurn watched.slug) :
    (turnMonitor watched).Ignores told op := by
  refine ⟨fun id executionId queuedAt same => ?_, fun answer => ?_⟩
  · exact (other (same ▸ rfl)).elim
  · simp only [turnMonitor]
    split
    · rename_i same
      cases same
      exact if_neg other
    · rename_i same
      cases same
      exact if_neg other
    · rename_i same
      cases same
      exact if_neg other
    · rfl

theorem turns_quiet {program : Async α}
    (avoids : program.Avoids (Op.ofTurn watched.slug)) :
    (turnMonitor watched).Passes program (fun after _ => after = told) told :=
  .of_ignored avoids fun _ => turnMonitor_ignores

theorem Turns.quiet {program : Async α}
    (avoids : program.Avoids (Op.ofTurn watched.slug)) :
    watched.Turns program told :=
  (turns_quiet avoids).mono fun _ _ _ => trivial

theorem Turns.after {β : Type} {program : Async α} {rest : α → Async β}
    (first : watched.Turns program told)
    (later : ∀ value told, watched.Turns (rest value) told) :
    watched.Turns (program.bind rest) told :=
  first.bind fun memory value _ => later value memory

section Programs

attribute [local simp] nowUtc Sendword.newId Sendword.loadConfig
  Sendword.spawn sql Program.op Op.ofTurn

theorem insertAttempt_turns (new : NewTriggerAttempt) :
    watched.Turns (insertAttempt new) told :=
  .quiet ((insertAttempt_ofAttempt new).mono
    fun _ ofTurn => ofTurn.elsewhere.1)

theorem passApproval_turns (config : AppConfig) (hook : HookConfig)
    (slug sourceIp payload : String) (new : NewExecution) :
    watched.Turns
      (passApproval outside config hook slug sourceIp payload new) told := by
  refine .quiet ((passApproval_ofCreate ..).mono fun op ofTurn => ?_)
  rintro (ofCreate | ofAttempt | ⟨job, rfl⟩)
  · exact ofTurn.ofTrigger.elsewhere.2.2.2 ofCreate
  · exact ofTurn.elsewhere.1 ofAttempt
  · exact ofTurn

theorem create_unturned (new : NewExecution) (slug : String) :
    (create new).Avoids (Op.ofTurn slug) :=
  (create_ofTrigger new).mono fun _ => Op.ofTurn.ofTrigger

/-- The barrier of another hook. -/
theorem evaluate_unturned {slug target : String} (other : slug ≠ target)
    (execId : String) (config : ConcurrencyConfig) (new : NewExecution) :
    (evaluate slug execId config new).Avoids (Op.ofTurn target) :=
  (evaluate_ofBarrier ..).mono fun _ ofTurn ofBarrier =>
    other (ofTurn.ofBarrier ofBarrier).symm

/-- What a trigger is told about the lock. -/
theorem tryAcquire_turns (execId : String) :
    (turnMonitor watched).Passes (tryAcquire watched.slug execId)
      (fun after acquired => acquired = .ok false → after = true) told := by
  refine ⟨fun id executionId queuedAt same => (by cases same),
    fun time _ => ?_⟩
  refine ⟨fun id executionId queuedAt same => (by cases same),
    fun rows _ => ?_⟩
  cases rows with
  | error error =>
      intro refused
      cases refused
  | ok rows =>
      intro refused
      have other : (rows == (1 : Nat)) = false := Except.ok.inj refused
      simp [turnMonitor, bne, other]

/-- What a trigger keeps of its turn when it counts. -/
theorem countWaiting_turns :
    (turnMonitor watched).Passes (countWaiting watched.slug)
      (fun after answer => ∀ count, answer = .ok count →
        count < watched.depth → after = true) true := by
  refine ⟨fun id executionId queuedAt same => (by cases same),
    fun answer _ count same room => ?_⟩
  subst same
  simp [turnMonitor, room]

theorem enqueue_turns (execId : String) :
    watched.Turns (enqueue watched.slug execId) true := by
  refine ⟨fun id executionId queuedAt same => (by cases same),
    fun id _ => ?_⟩
  refine ⟨fun id executionId queuedAt same => (by cases same),
    fun time _ => ?_⟩
  refine ⟨fun _ _ _ _ => rfl, fun inserted _ => ?_⟩
  cases inserted with
  | error error => trivial
  | ok _ =>
      exact ⟨fun id executionId queuedAt same => (by cases same),
        fun row _ => trivial⟩

theorem evaluate_turns {slug : String} {config : ConcurrencyConfig}
    (same : slug = watched.slug → watched.hook.concurrency = some config)
    (queues : watched.queues = true) (execId : String)
    (new : NewExecution) (told : Bool) :
    watched.Turns (evaluate slug execId config new) told := by
  by_cases own : slug = watched.slug
  · subst own
    have limited := same rfl
    have mode : config.mode = .queue := by
      simpa [Watched.queues, limited] using queues
    have depth : watched.depth = config.queueDepth := by
      simp [Watched.depth, limited]
    unfold evaluate
    refine (tryAcquire_turns execId).bind fun told acquired refused => ?_
    split
    · trivial
    · trivial
    · obtain rfl : told = true := refused rfl
      rw [mode]
      refine countWaiting_turns.bind fun told count room => ?_
      split
      · trivial
      · rename_i count
        split
        · trivial
        · rename_i free
          obtain rfl : told = true :=
            room count rfl (depth ▸ Nat.lt_of_not_le free)
          refine (turns_quiet (create_unturned new _)).bind
            fun told created kept => ?_
          subst kept
          split
          · trivial
          · refine (enqueue_turns execId).after fun position told => ?_
            split <;> trivial
  · exact .quiet (evaluate_unturned own ..)

theorem passBarriers_turns {config : AppConfig} {hook : HookConfig}
    {slug : String} (queues : watched.queues = true)
    (same : slug = watched.slug →
      hook.concurrency = watched.hook.concurrency)
    (sourceIp payload : String) :
    watched.Turns (passBarriers outside config hook slug sourceIp payload)
      told := by
  refine ⟨fun id executionId queuedAt same => (by cases same),
    fun execId _ => ?_⟩
  simp only [Program.pure_bind]
  split
  · exact passApproval_turns ..
  · rename_i concurrency isSome
    refine Turns.after (evaluate_turns (fun own => ?_) queues _ _ _)
      fun outcome told => ?_
    · rw [← same own, isSome]
    · split
      · exact passApproval_turns ..
      · exact (insertAttempt_turns _).after fun _ _ => trivial
      · exact (insertAttempt_turns _).after fun _ _ => trivial

theorem triggerHook_turns (queues : watched.queues = true)
    (request : TriggerRequest) :
    watched.Turns (triggerHook outside request) told := by
  have rejected (status : TriggerAttemptStatus) (reason : String)
      (response : Response) (told : Bool) : watched.Turns (do
        logRejection request.slug request.sourceIp status reason
        return response) told := by
    refine Turns.after ?_ fun _ _ => trivial
    exact (insertAttempt_turns _).after fun _ _ => trivial
  refine ⟨fun id executionId queuedAt same => (by cases same),
    fun config reads => ?_⟩
  have keeps := reads config rfl
  simp only [Program.pure_bind]
  split
  · trivial
  · rename_i hook found
    split
    · exact rejected ..
    · split
      · exact rejected ..
      · refine Turns.after (.quiet ((evaluateRules_ofRules ..).mono
          fun _ ofTurn => ofTurn.elsewhere.2)) fun refusal told => ?_
        split
        · exact rejected ..
        · refine passBarriers_turns queues (fun own => ?_) _ _
          have sameSlug : hook.slug = request.slug := by
            have matched := List.find?_some found
            simp only [Bool.and_eq_true, beq_iff_eq] at matched
            exact matched.1
          exact (keeps.same (List.mem_of_find?_eq_some found)
            (sameSlug.trans own)).1

theorem body_turns (queues : watched.queues = true) (job : Job) :
    watched.Turns (taskBody outside job) false := by
  by_cases triggers : ∃ request, job = .trigger request
  · obtain ⟨request, rfl⟩ := triggers
    exact triggerHook_turns queues request
  · have avoids : (taskBody outside job).Avoids Op.ofTrigger :=
      body_ofTrigger fun request same => triggers ⟨request, same⟩
    exact .quiet (avoids.mono fun _ => Op.ofTurn.ofTrigger)

end Programs

end Watched

/-! ## No decisions -/

/-- Only decisions and the sweep ask who holds a lock. -/
def Op.asksHolder : Op → Prop
  | .sql (.lock (.selectHolder _)) => True
  | _ => False

theorem Op.asksHolder.elsewhere {op : Op} (asks : op.asksHolder) :
    (∀ id, ¬ op.ofRun id) ∧ ¬ op.ofNotification ∧
      (∀ slug, ¬ op.ofCompletion slug) ∧ ¬ op.ofAttempt ∧
      ¬ (op.ofSchedule ∨ op.ofRateLimit) ∧ ∀ slug, ¬ op.ofBarrier slug := by
  unfold Op.asksHolder at asks
  split at asks
  · exact ⟨fun _ => id, id, fun _ => id, id, fun rules => rules.elim id id,
      fun _ => id⟩
  · exact asks.elim

section Undecided

variable {outside : Outside}

attribute [local simp] nowUtc Sendword.newId Sendword.loadConfig
  Sendword.spawn sql Program.op Op.asksHolder

theorem passBarriers_undecided (config : AppConfig) (hook : HookConfig)
    (slug sourceIp payload : String) :
    (passBarriers outside config hook slug sourceIp payload).Avoids
      Op.asksHolder := by
  refine (passBarriers_ofBarrier ..).mono fun op asks => ?_
  rintro (ofBarrier | ofAttempt | ⟨job, rfl⟩)
  · exact asks.elsewhere.2.2.2.2.2 slug ofBarrier
  · exact asks.elsewhere.2.2.2.1 ofAttempt
  · exact asks

theorem triggerHook_undecided (request : TriggerRequest) :
    (triggerHook outside request).Avoids Op.asksHolder := by
  have rejected (status : TriggerAttemptStatus) (reason : String)
      (response : Response) : (do
        logRejection request.slug request.sourceIp status reason
        return response : Async Response).Avoids Op.asksHolder :=
    .bind ((logRejection_ofAttempt ..).mono
      fun _ asks => asks.elsewhere.2.2.2.1) fun _ => trivial
  refine ⟨id, fun config => ?_⟩
  simp only [Program.pure_bind]
  split
  · trivial
  · split
    · exact rejected _ _ _
    · split
      · exact rejected _ _ _
      · refine ((evaluateRules_ofRules ..).mono
          fun _ asks => asks.elsewhere.2.2.2.2.1).bind fun refusal => ?_
        split
        · exact rejected _ _ _
        · exact passBarriers_undecided ..

theorem run_undecided (context : ExecutionContext)
    (retries : EffectiveRetryConfig) (hook : HookConfig) {rest : Async Unit}
    (avoids : rest.Avoids Op.asksHolder) :
    (do
      let result ← runWithRetries context retries
      notify outside hook context.executionId result
      rest).Avoids Op.asksHolder := by
  refine .bind ((runWithRetries_ofRun context retries).mono
    fun _ asks => asks.elsewhere.1 _) fun result => ?_
  exact .bind ((notify_ofNotification ..).mono
    fun _ asks => asks.elsewhere.2.1) fun _ => avoids

theorem onExecutionComplete_undecided (slug : String)
    (concurrency : Option ConcurrencyConfig)
    (approval : Option ApprovalConfig) :
    (onExecutionComplete slug concurrency approval).Avoids Op.asksHolder :=
  (onExecutionComplete_ofCompletion slug concurrency approval).mono
    fun _ asks => asks.elsewhere.2.2.1 slug

/-- Triggers, runs and completions do not ask. -/
theorem body_undecided {job : Job} (works : job.slug? ≠ none) :
    (taskBody outside job).Avoids Op.asksHolder := by
  cases job with
  | trigger request => exact triggerHook_undecided request
  | runExecution context retries hook concurrency approval =>
      refine .bind (run_undecided context retries hook ?_) fun _ => trivial
      split
      · exact onExecutionComplete_undecided ..
      · trivial
  | runDequeued slug id concurrency approval =>
      refine .bind (.bind (by simp [getById]) fun found => ?_)
        fun _ => trivial
      cases found with
      | error error => simp [release]
      | ok exec =>
          refine .bind (by simp) fun config => ?_
          split
          · simp [release]
          · exact run_undecided _ _ _ (onExecutionComplete_undecided ..)
  | approve | reject | replay | expirePendingApprovals | reloadConfig =>
      exact (works rfl).elim

end Undecided

namespace Watched

variable {watched : Watched} {outside : Outside} {start pool : ServerPool}

theorem onlyTriggers_of_inTurn {label : ServerLabel}
    (admitted : watched.inTurn pool label = true) :
    onlyTriggers label = true := by
  cases label with
  | arrive job => exact admitted
  | advance index choice => rfl

/-- Without decisions nobody asks for the holder of a lock, and the
configuration is the watched one. -/
theorem holder_unasked (empty : start.tasks = [])
    (idle : watched.Idle start.state)
    (reached : (server outside).Reaches
      (fun _ label => onlyTriggers label = true) start pool) (index : Nat) :
    missesHolder watched.slug pool index = false ∧
      watched.KeepsBarriers pool.state.config := by
  obtain ⟨ghosts, covers, holds⟩ :=
    reaches_holds onlyTriggers_conduct empty idle reached
  have keeps : watched.KeepsBarriers pool.state.config := by
    rw [holds.1.config]
    exact Alike.refl.keeps
  refine ⟨?_, keeps⟩
  cases found : pool.tasks[index]? with
  | none => simp [missesHolder, Pool.next?, found]
  | some task =>
      obtain ⟨job, trace, program⟩ := task
      cases program with
      | pure response => simp [missesHolder, Pool.next?, found]
      | perform op next =>
          obtain ⟨ghost, -, parts, linked, obeys⟩ := covers.pick found
          have follows := reached.follows empty _ (List.mem_of_getElem? found)
          have inGhosts : ghost ∈ (ghosts : Multiset Ghost) := by
            rw [parts]
            exact Multiset.mem_cons_self _ _
          obtain ⟨⟨undecided, unreplayed⟩, -⟩ := holds.2 ghost inGhosts
          rw [linked.role] at undecided unreplayed
          have unasked : ¬ op.asksHolder := by
            intro asks
            have works : job.slug? ≠ none := by
              cases job with
              | trigger | runExecution | runDequeued => simp [Job.slug?]
              | approve | reject | expirePendingApprovals =>
                  exact (undecided rfl).elim
              | replay => exact (unreplayed rfl).elim
              | reloadConfig config =>
                  have body : (taskBody outside (.reloadConfig config)).Follows
                      trace (.perform op next) := follows
                  rw [stores_of_reload body] at asks
                  exact asks.elim
            exact (follows.avoids (body_undecided works)).1.1 asks
          simp only [missesHolder, Pool.next?_eq found]
          split
          · rename_i same
            cases same
            exact (unasked trivial).elim
          · rfl

theorem steady_of_inTurn (empty : start.tasks = [])
    (idle : watched.Idle start.state)
    (reached : (server outside).Reaches
      (fun pool label => watched.inTurn pool label = true) start pool) :
    (server outside).Reaches
      (fun pool label => watched.Steady pool label ∧
        watched.inTurn pool label = true) start pool := by
  refine reached.strengthen fun middle label before admitted =>
    ⟨?_, admitted⟩
  cases label with
  | arrive job =>
      refine ⟨?_, fun _ _ same => (by cases same)⟩
      cases job with
      | trigger request => exact rfl
      | approve | reject | replay | expirePendingApprovals | reloadConfig
      | runExecution | runDequeued => cases admitted
  | advance index choice =>
      have triggers := before.mono fun _ _ => onlyTriggers_of_inTurn
      obtain ⟨unasked, keeps⟩ := holder_unasked empty idle triggers index
      simp only [inTurn, Bool.and_eq_true, Bool.not_eq_true'] at admitted
      refine ⟨⟨unasked, fun config loads => ?_⟩, fun other _ same => ?_⟩
      · rw [eq_of_loads? loads]
        exact keeps
      · cases same
        exact admitted.2

/-- From what it was told on, every task takes its turn. -/
theorem steady_turns (queues : watched.queues = true)
    (empty : start.tasks = [])
    (reached : (server outside).Reaches watched.Orderly start pool) :
    ∀ task ∈ pool.tasks, watched.Turns task.program
      ((turnMonitor watched).memory task.job task.trace) :=
  fun task member =>
    (body_turns queues task.job).follows
      (reached.follows empty task member)
      (open_reads empty reached task member)

end Watched

end Sendword
