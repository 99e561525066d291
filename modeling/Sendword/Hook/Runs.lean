import Sendword.Hook.Rules

/-!
# Runs obey the protocol

The executors, the retry loop, the completion handler and the two detached
tasks, each verified on its own: for the owner of an execution of the watched
hook, and for a task of another hook.
-/

namespace Sendword

open Concurrency

namespace Watched

attribute [local simp] nowUtc Sendword.newId Sendword.loadConfig
  Sendword.spawn sql Program.op

variable {watched : Watched} {reliable : Prop} {outside : Outside}
  {ghost : Ghost}

/-- The statuses with which an executor ends a run. -/
def endsRun (result : ExecutionResult) : Prop :=
  result.status = .success ∨ result.status = .failed ∨
    result.status = .timedOut

theorem ProcessOutcome.result_endsRun (outcome : ProcessOutcome) :
    endsRun outcome.result := by
  cases outcome with
  | exited code =>
      simp only [endsRun, ProcessOutcome.result]
      split <;> simp
  | spawnFailed | waitFailed | elapsed =>
      simp [endsRun, ProcessOutcome.result]

theorem HttpOutcome.result_endsRun (outcome : HttpOutcome) :
    endsRun outcome.result := by
  cases outcome with
  | responded code =>
      simp only [endsRun, HttpOutcome.result]
      split <;> simp
  | requestFailed | elapsed => simp [endsRun, HttpOutcome.result]

theorem obeys_backOff {context : ExecutionContext} (delay : Duration) :
    (watched.discipline reliable outside).Obeys (backOff context delay)
      (fun after _ => after = ghost) ghost := by
  unfold backOff
  split
  · exact rfl
  · simp

/-! ## The owner of an execution -/

section Own

variable {locked : Bool} {context : ExecutionContext}

/-- What the owner of an execution knows after an attempt to run it. -/
def Attempted (reliable : Prop) (ghost : Ghost) (locked : Bool) (id : String)
    (after : Ghost) (result : ExecutionResult) : Prop :=
  after = ghost.hold (.claim locked id .finished) ∨
    ¬ reliable ∧ result.exitCode = none ∧
      after = ghost.hold (.claim locked id .abandoned)

theorem obeys_runCommand (command : Async ExecutionResult)
    (hook : context.hookSlug = watched.slug)
    (role : ghost.role = .runner context.executionId)
    (token : ghost.token = .claim locked context.executionId .ready)
    (commandObeys : ∀ ghost : Ghost, ghost.MayRun →
      (watched.discipline reliable outside).Obeys command
        (fun after result => after = ghost ∧ endsRun result) ghost) :
    (watched.discipline reliable outside).Obeys
      (runCommand context command)
      (Attempted reliable ghost locked context.executionId) ghost := by
  simp only [runCommand, Program.bind_eq, Program.op, Program.perform_bind,
    Program.pure_bind]
  refine ⟨.inr ⟨hook, role, locked, token⟩, ?_⟩
  intro prepared after moved
  cases prepared with
  | false =>
      simp only [discipline, moves, token] at moved
      obtain ⟨unreliable, rfl⟩ := moved
      exact .inr ⟨unreliable, rfl, rfl⟩
  | true =>
      simp only [discipline, moves, token] at moved
      subst after
      simp only [markRunning, Program.bind_eq, nowUtc, sql, Program.op,
        Program.perform_bind, Program.pure_bind, Program.pure_eq, if_true,
        obeys_now]
      intro startedAt
      refine obeys_ownUpdate (some .running) _ token rfl
        (by simp [advances, role]) ?_
      simp only [expectRow, Discipline.obeys_bind]
      refine (commandObeys _ (.inr ⟨locked, _, rfl⟩)).mono ?_
      rintro after result ⟨rfl, ends⟩
      simp only [markCompleted, Program.bind_eq, nowUtc, sql, Program.op,
        Program.perform_bind, Program.pure_bind, Program.pure_eq, obeys_now]
      intro completedAt
      refine obeys_ownUpdate (some .finished) _ rfl rfl
        (by simp_all [advances, endsRun]) ?_
      exact .inl rfl

theorem obeys_runExecutor
    (hook : context.hookSlug = watched.slug)
    (role : ghost.role = .runner context.executionId)
    (token : ghost.token = .claim locked context.executionId .ready) :
    (watched.discipline reliable outside).Obeys (runExecutor context)
      (Attempted reliable ghost locked context.executionId) ghost := by
  have process : ∀ ghost : Ghost, ghost.MayRun →
      (watched.discipline reliable outside).Obeys
        (do
          let outcome : ProcessOutcome ← op (.runProcess context)
          return outcome.result)
        (fun after result => after = ghost ∧ endsRun result) ghost := by
    intro ghost mayRun
    simp [obeys_runProcess _ _ mayRun, ProcessOutcome.result_endsRun]
  have request : ∀ ghost : Ghost, ghost.MayRun →
      (watched.discipline reliable outside).Obeys
        (do
          let outcome : HttpOutcome ← op (.sendRequest context)
          return outcome.result)
        (fun after result => after = ghost ∧ endsRun result) ghost := by
    intro ghost mayRun
    simp [obeys_sendRequest _ _ mayRun, HttpOutcome.result_endsRun]
  unfold runExecutor
  split
  · exact obeys_runCommand _ hook role token process
  · exact obeys_runCommand _ hook role token process
  · exact obeys_runCommand _ hook role token request

theorem obeys_retryLoop (retries : EffectiveRetryConfig)
    (hook : context.hookSlug = watched.slug)
    (role : ghost.role = .runner context.executionId)
    (remaining attempt : Nat) (result : ExecutionResult) (current : Ghost)
    (attempted : Attempted reliable ghost locked context.executionId current
      result) :
    (watched.discipline reliable outside).Obeys
      (retryLoop context retries remaining attempt result)
      (Attempted reliable ghost locked context.executionId) current := by
  induction remaining generalizing attempt result current with
  | zero => exact attempted
  | succ remaining induction =>
      unfold retryLoop
      split
      · rename_i again
        -- a run that never began has no exit code and is not retried
        have finished : current =
            ghost.hold (.claim locked context.executionId .finished) := by
          rcases attempted with finished | ⟨-, noCode, -⟩
          · exact finished
          · simp [noCode] at again
        subst finished
        simp only [Program.bind_eq, Discipline.obeys_bind]
        refine (obeys_backOff _).mono ?_
        rintro after _ rfl
        simp only [Program.op, Program.perform_bind, Program.pure_bind,
          incrementRetryCount, resetToPending, sql, Program.bind_eq,
          Program.pure_eq, obeys_appendRetryMarker]
        refine obeys_ownUpdate (some .finished) _ rfl rfl rfl ?_
        refine obeys_ownUpdate (some .ready) _ rfl rfl rfl ?_
        simp only [Discipline.obeys_pure, Discipline.obeys_bind]
        have ready : (ghost.hold
            (.claim locked context.executionId .ready)).role =
            .runner context.executionId := role
        refine (obeys_runExecutor hook ready rfl).mono ?_
        intro after result attempted
        exact induction (attempt + 1) result after attempted
      · exact attempted

/-- A run ends with the record in a final status, or was abandoned before
its first command. -/
theorem obeys_runWithRetries (retries : EffectiveRetryConfig)
    (hook : context.hookSlug = watched.slug)
    (role : ghost.role = .runner context.executionId)
    (token : ghost.token = .claim locked context.executionId .ready) :
    (watched.discipline reliable outside).Obeys
      (runWithRetries context retries)
      (Attempted reliable ghost locked context.executionId) ghost := by
  simp only [runWithRetries, Program.bind_eq, Discipline.obeys_bind]
  refine (obeys_runExecutor hook role token).mono ?_
  intro after result attempted
  exact obeys_retryLoop retries hook role retries.count 1 result after
    attempted

theorem obeys_notify (hook : HookConfig) (id : String)
    (result : ExecutionResult) (role : ghost.role ≠ .replay) :
    (watched.discipline reliable outside).Obeys
      (notify outside hook id result) (fun after _ => after = ghost)
      ghost := by
  unfold notify
  split
  · exact rfl
  · simp only [Program.bind_eq, Discipline.obeys_bind]
    refine obeys_getById id role ?_
    intro found
    split
    · exact rfl
    · unfold sendNotification
      split
      · exact rfl
      · split
        · simp
        · exact rfl

/-! ## Completion -/

/-- The owner of the lock releases it or hands it to the entry it takes from
the queue. -/
theorem obeys_onExecutionComplete {id : String} {phase : Phase}
    (token : ghost.token = .claim true id phase)
    (done : phase.done = true) (exclusive : watched.exclusive = true) :
    (watched.discipline reliable outside).Obeys
      (onExecutionComplete watched.slug watched.hook.concurrency
        watched.hook.approval)
      (fun after _ => after = ghost.hold .none) ghost := by
  have release : (watched.discipline reliable outside).Obeys
      (release watched.slug) (fun after _ => after = ghost.hold .none)
      ghost := by
    simp only [release, sql, Program.op, Program.bind_eq, Program.pure_eq,
      Program.perform_bind, Program.pure_bind]
    exact obeys_ownDelete _ token done fun _ => rfl
  unfold onExecutionComplete
  split
  · simpa using release
  · split
    · simpa using release
    · simp only [peekNext, sql, Program.op, Program.bind_eq,
        Program.perform_bind, Program.pure_bind, obeys_queue]
      refine ⟨by simp [allowsQueue, token, done], ?_⟩
      intro answer after moved
      simp only [movesQueue, if_true] at moved
      rcases moved with ⟨rfl, rfl⟩ | ⟨entry, rfl, old, oldPhase, same, rfl⟩
      · simpa [Except.toOption] using release
      · simp only [Except.toOption, Option.join_some, handOff, nowUtc, sql,
          Program.op, Program.bind_eq, Program.pure_eq, Program.perform_bind,
          Program.pure_bind, obeys_now, obeys_lock]
        intro acquiredAt
        refine ⟨fun _ => ⟨old, oldPhase, entry.id, rfl⟩, ?_⟩
        intro answer after moved
        simp only [movesLock, if_true] at moved
        obtain ⟨⟨rows, rfl⟩, _, _, _, _, taking, rfl⟩ := moved
        cases taking
        simp only [Except.map, markReady, sql, Program.op, Program.bind_eq,
          Program.pure_eq, Program.perform_bind, Program.pure_bind,
          obeys_queue]
        refine ⟨.inl ⟨_, rfl⟩, ?_⟩
        intro answer after moved
        simp only [movesQueue, Ghost.hold] at moved
        subst after
        split
        · rename_i gated
          simp only [markPendingApproval, sql, Program.op, Program.bind_eq,
            Program.pure_eq, Program.perform_bind, Program.pure_bind]
          refine obeys_ownUpdate none _ rfl rfl ?_ rfl
          simp [advances, Watched.gated, gated]
        · rename_i ungated
          simp only [spawn, Program.op]
          refine ⟨⟨fun _ => ⟨exclusive, rfl, rfl⟩, ?_⟩, ?_⟩
          · simp [Watched.gated, ungated]
          · rintro _ _ rfl
            rfl

/-- The task of a dequeued execution of the hook. -/
theorem obeys_runDequeued {id : String}
    (role : ghost.role = .runner id)
    (token : ghost.token = .claim true id .ready)
    (exclusive : watched.exclusive = true) :
    (watched.discipline reliable outside).Obeys
      (runDequeued outside watched.slug id watched.hook.concurrency
        watched.hook.approval)
      (fun after _ => after.token.lock = none) ghost := by
  simp only [runDequeued, getById, loadConfig, sql, Program.op,
    Program.bind_eq, Program.pure_eq, Program.perform_bind,
    Program.pure_bind]
  refine obeys_ownRecord _ token ?_
  rintro row rfl sameHook
  simp only [obeys_loadConfig, watched.hook?_slug, Discipline.obeys_bind]
  have context : (contextOf outside watched.config watched.hook row.id
      row.hookSlug row.requestPayload).hookSlug = watched.slug := sameHook
  refine (obeys_runWithRetries _ context role token).mono ?_
  rintro after result attempted
  have known : ∃ phase, phase.done = true ∧
      after = ghost.hold (.claim true row.id phase) := by
    rcases attempted with rfl | ⟨-, -, rfl⟩
    · exact ⟨.finished, rfl, rfl⟩
    · exact ⟨.abandoned, rfl, rfl⟩
  obtain ⟨phase, done, rfl⟩ := known
  refine (obeys_notify _ _ _ (by simp [Ghost.hold, role])).mono ?_
  rintro after _ rfl
  refine (obeys_onExecutionComplete rfl done exclusive).mono ?_
  rintro after _ rfl
  rfl

/-- The detached task of an execution of the hook. -/
theorem obeys_runExecution {context : ExecutionContext}
    (retries : EffectiveRetryConfig) (hook : HookConfig)
    (sameHook : context.hookSlug = watched.slug)
    (role : ghost.role = .runner context.executionId)
    (token : ghost.token =
      .claim watched.exclusive context.executionId .ready) :
    (watched.discipline reliable outside).Obeys
      (runExecution outside context retries hook watched.hook.concurrency
        watched.hook.approval)
      (fun after _ => after.token.lock = none) ghost := by
  simp only [runExecution, Program.bind_eq, Discipline.obeys_bind]
  refine (obeys_runWithRetries retries sameHook role token).mono ?_
  rintro after result attempted
  have known : ∃ phase, phase.done = true ∧ after = ghost.hold
      (.claim watched.exclusive context.executionId phase) := by
    rcases attempted with rfl | ⟨-, -, rfl⟩
    · exact ⟨.finished, rfl, rfl⟩
    · exact ⟨.abandoned, rfl, rfl⟩
  obtain ⟨phase, done, rfl⟩ := known
  refine (obeys_notify _ _ _ (by simp [Ghost.hold, role])).mono ?_
  rintro after _ rfl
  split
  · rename_i exclusive
    have held : watched.exclusive = true := exclusive
    rw [sameHook]
    have locked : (ghost.hold (.claim watched.exclusive context.executionId
        phase)).token = .claim true context.executionId phase := by
      simp [Ghost.hold, held]
    refine (obeys_onExecutionComplete locked done held).mono ?_
    rintro after _ rfl
    rfl
  · rename_i free
    have unlocked : watched.exclusive = false := by
      simpa [exclusive] using free
    simp [Ghost.hold, Token.lock, unlocked]

end Own

/-! ## Tasks of other hooks -/

section Other

variable {context : ExecutionContext}

theorem obeys_otherCommand (command : Async ExecutionResult)
    (token : ghost.token = .none)
    (known : context.executionId ∈ ghost.elsewhere)
    (commandObeys :
      (watched.discipline reliable outside).Obeys command
        (fun after _ => after = ghost) ghost) :
    (watched.discipline reliable outside).Obeys
      (runCommand context command) (fun after _ => after = ghost) ghost := by
  simp only [runCommand, Program.bind_eq, Program.op, Program.perform_bind,
    Program.pure_bind]
  refine ⟨.inl token, ?_⟩
  intro prepared after moved
  obtain rfl : after = ghost := by
    simpa [discipline, moves, token] using moved
  cases prepared with
  | false => exact rfl
  | true =>
      simp only [markRunning, Program.bind_eq, nowUtc, sql, Program.op,
        Program.perform_bind, Program.pure_bind, Program.pure_eq, if_true,
        obeys_now]
      intro startedAt
      refine obeys_otherUpdate _ token known rfl rfl ?_
      intro rows
      split
      · exact rfl
      · simp only [Discipline.obeys_bind]
        refine commandObeys.mono ?_
        rintro after result rfl
        simp only [markCompleted, Program.bind_eq, nowUtc, sql, Program.op,
          Program.perform_bind, Program.pure_bind, Program.pure_eq,
          obeys_now]
        intro completedAt
        exact obeys_otherUpdate _ token known rfl rfl fun _ => rfl

theorem obeys_otherExecutor (token : ghost.token = .none)
    (known : context.executionId ∈ ghost.elsewhere) :
    (watched.discipline reliable outside).Obeys (runExecutor context)
      (fun after _ => after = ghost) ghost := by
  have mayRun : ghost.MayRun := .inl token
  unfold runExecutor
  split
  · exact obeys_otherCommand _ token known
      (by simp [obeys_runProcess _ _ mayRun])
  · exact obeys_otherCommand _ token known
      (by simp [obeys_runProcess _ _ mayRun])
  · exact obeys_otherCommand _ token known
      (by simp [obeys_sendRequest _ _ mayRun])

theorem obeys_otherRetryLoop (retries : EffectiveRetryConfig)
    (token : ghost.token = .none)
    (known : context.executionId ∈ ghost.elsewhere)
    (remaining attempt : Nat) (result : ExecutionResult) :
    (watched.discipline reliable outside).Obeys
      (retryLoop context retries remaining attempt result)
      (fun after _ => after = ghost) ghost := by
  induction remaining generalizing attempt result with
  | zero => exact rfl
  | succ remaining induction =>
      unfold retryLoop
      split
      · simp only [Program.bind_eq, Discipline.obeys_bind]
        refine (obeys_backOff _).mono ?_
        rintro after _ rfl
        simp only [Program.op, Program.perform_bind, Program.pure_bind,
          incrementRetryCount, resetToPending, sql, Program.bind_eq,
          Program.pure_eq, obeys_appendRetryMarker]
        refine obeys_otherUpdate _ token known rfl rfl fun _ => ?_
        refine obeys_otherUpdate _ token known rfl rfl fun rows => ?_
        split
        · exact rfl
        · exact rfl
        · simp only [Discipline.obeys_pure, Discipline.obeys_bind]
          refine (obeys_otherExecutor token known).mono ?_
          rintro after result rfl
          exact induction (attempt + 1) result
      · exact rfl

theorem obeys_otherRunWithRetries (retries : EffectiveRetryConfig)
    (token : ghost.token = .none)
    (known : context.executionId ∈ ghost.elsewhere) :
    (watched.discipline reliable outside).Obeys
      (runWithRetries context retries) (fun after _ => after = ghost)
      ghost := by
  simp only [runWithRetries, Program.bind_eq, Discipline.obeys_bind]
  refine (obeys_otherExecutor token known).mono ?_
  rintro after result rfl
  exact obeys_otherRetryLoop retries token known retries.count 1 result

/-- A task that owns nothing of the hook and has only learnt more about
other hooks. -/
structure Grown (ghost after : Ghost) : Prop where
  role : after.role = ghost.role
  token : after.token = .none
  settled : after.settled = ghost.settled
  elsewhere : ghost.elsewhere ⊆ after.elsewhere

theorem Grown.trans {ghost middle after : Ghost}
    (first : Grown ghost middle) (second : Grown middle after) :
    Grown ghost after where
  role := second.role.trans first.role
  token := second.token
  settled := second.settled.trans first.settled
  elsewhere := fun _ known => second.elsewhere (first.elsewhere known)

theorem obeys_otherComplete {slug : String}
    (concurrency : Option ConcurrencyConfig)
    (approval : Option ApprovalConfig)
    (other : slug ≠ watched.slug) (token : ghost.token = .none) :
    (watched.discipline reliable outside).Obeys
      (onExecutionComplete slug concurrency approval)
      (fun after _ => Grown ghost after) ghost := by
  have same : Grown ghost ghost :=
    ⟨rfl, token, rfl, List.Subset.refl _⟩
  have release : (watched.discipline reliable outside).Obeys
      (release slug) (fun after _ => Grown ghost after) ghost := by
    simp only [release, sql, Program.op, Program.bind_eq, Program.pure_eq,
      Program.perform_bind, Program.pure_bind]
    exact obeys_otherDelete _ other fun _ => same
  unfold onExecutionComplete
  split
  · simpa using release
  · split
    · simpa using release
    · simp only [peekNext, sql, Program.op, Program.bind_eq,
        Program.perform_bind, Program.pure_bind, obeys_queue]
      refine ⟨by simp [allowsQueue, other, token], ?_⟩
      intro answer after moved
      simp only [movesQueue, if_neg other] at moved
      rcases moved with ⟨rfl, rfl⟩ | ⟨entry, rfl, rfl⟩
      · simpa [Except.toOption] using release
      · simp only [Except.toOption, Option.join_some, handOff, nowUtc, sql,
          Program.op, Program.bind_eq, Program.pure_eq, Program.perform_bind,
          Program.pure_bind, obeys_now, obeys_lock]
        intro acquiredAt
        refine ⟨fun same => (other same).elim, ?_⟩
        intro answer after moved
        simp only [movesLock, if_neg other] at moved
        subst after
        have grown : Grown ghost { ghost.learn [entry.executionId] with
            otherEntries := entry.id :: ghost.otherEntries } :=
          ⟨rfl, token, rfl, by simp [Ghost.learn]⟩
        split
        · exact grown
        · simp only [markReady, sql, Program.op, Program.bind_eq,
            Program.pure_eq, Program.perform_bind, Program.pure_bind,
            obeys_queue]
          refine ⟨.inr ⟨token, by simp⟩, ?_⟩
          intro answer after moved
          simp only [movesQueue, Ghost.learn, token] at moved
          subst after
          split
          · simp only [markPendingApproval, sql, Program.op,
              Program.bind_eq, Program.pure_eq, Program.perform_bind,
              Program.pure_bind]
            exact obeys_otherUpdate _ rfl (by simp) rfl rfl
              fun _ => ⟨rfl, rfl, rfl, by simp⟩
          · simp only [spawn, Program.op]
            refine ⟨⟨fun same => (other same).elim, ?_⟩, ?_⟩
            · simp [other]
            · rintro _ _ rfl
              exact ⟨rfl, rfl, rfl, by simp [Ghost.hold]⟩

theorem obeys_otherDequeued {slug id : String}
    (concurrency : Option ConcurrencyConfig)
    (approval : Option ApprovalConfig)
    (other : slug ≠ watched.slug) (token : ghost.token = .none)
    (role : ghost.role = .foreign) (known : id ∈ ghost.elsewhere) :
    (watched.discipline reliable outside).Obeys
      (runDequeued outside slug id concurrency approval)
      (fun after _ => after.token.lock = none) ghost := by
  have notReplay : ghost.role ≠ .replay := by simp [role]
  simp only [runDequeued, getById, loadConfig, sql, Program.op,
    Program.bind_eq, Program.pure_eq, Program.perform_bind,
    Program.pure_bind]
  refine obeys_otherRecord _ token known notReplay ?_
  rintro row rfl otherHook
  simp only [obeys_loadConfig]
  split
  · simp only [release, sql, Program.op, Program.bind_eq, Program.pure_eq,
      Program.perform_bind, Program.pure_bind]
    exact obeys_otherDelete _ other fun _ => by simp [token, Token.lock]
  · simp only [Discipline.obeys_bind]
    refine (obeys_otherRunWithRetries _ token known).mono ?_
    rintro after result rfl
    refine (obeys_notify _ _ _ notReplay).mono ?_
    rintro after _ rfl
    refine (obeys_otherComplete _ _ other token).mono ?_
    rintro after _ grown
    simp [grown.token, Token.lock]

theorem obeys_otherExecution (retries : EffectiveRetryConfig)
    (hook : HookConfig) (concurrency : Option ConcurrencyConfig)
    (approval : Option ApprovalConfig)
    (other : context.hookSlug ≠ watched.slug)
    (token : ghost.token = .none) (role : ghost.role = .foreign)
    (known : context.executionId ∈ ghost.elsewhere) :
    (watched.discipline reliable outside).Obeys
      (runExecution outside context retries hook concurrency approval)
      (fun after _ => after.token.lock = none) ghost := by
  simp only [runExecution, Program.bind_eq, Discipline.obeys_bind]
  refine (obeys_otherRunWithRetries retries token known).mono ?_
  rintro after result rfl
  refine (obeys_notify _ _ _ (by simp [role])).mono ?_
  rintro after _ rfl
  split
  · refine (obeys_otherComplete _ _ other token).mono ?_
    rintro after _ grown
    simp [grown.token, Token.lock]
  · simp [token, Token.lock]

end Other

end Watched

end Sendword
