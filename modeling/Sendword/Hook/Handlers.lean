import Sendword.Hook.Runs

/-!
# Handlers obey the protocol

The trigger, the decisions on an approval, the replay and the sweep.
-/

namespace Sendword

open Concurrency

namespace Watched

attribute [local simp] nowUtc Sendword.newId Sendword.loadConfig
  Sendword.spawn sql Program.op

variable {watched : Watched} {reliable : Prop} {outside : Outside}
  {ghost : Ghost} {α : Type}

theorem obeys_insertAttempt (new : NewTriggerAttempt) :
    (watched.discipline reliable outside).Obeys (insertAttempt new)
      (fun after _ => ∃ fresh, after = { ghost with fresh }) ghost := by
  simp only [insertAttempt, newId, nowUtc, sql, Program.op, Program.bind_eq,
    Program.pure_eq, Program.pure_bind, Program.perform_bind, obeys_newId,
    obeys_now, obeys_attempt]
  intro id attemptedAt inserted
  cases inserted with
  | error error => exact ⟨_, rfl⟩
  | ok _ =>
      simp only [obeys_attempt]
      exact fun _ => ⟨_, rfl⟩

theorem obeys_logRejection (hookSlug sourceIp : String)
    (status : TriggerAttemptStatus) (reason : String) :
    (watched.discipline reliable outside).Obeys
      (logRejection hookSlug sourceIp status reason)
      (fun after _ => ∃ fresh, after = { ghost with fresh }) ghost := by
  simp only [logRejection, Program.bind_eq, Discipline.obeys_bind,
    Program.pure_eq, Discipline.obeys_pure]
  exact obeys_insertAttempt _

theorem obeys_cooldown (hookSlug : String) (cooldown : Duration) :
    (watched.discipline reliable outside).Obeys
      (Cooldown.evaluate hookSlug cooldown) (fun after _ => after = ghost)
      ghost := by
  simp only [Cooldown.evaluate, getLatestStartedByHook, sql, Program.op,
    Program.bind_eq, Program.pure_eq, Program.pure_bind,
    Program.perform_bind, obeys_now, obeys_selectLatestStarted]
  intro now latest
  split
  · exact rfl
  · exact rfl
  · split
    · exact rfl
    · exact rfl
    · split <;> exact rfl

theorem obeys_rateLimit (hookSlug : String) (limit : TriggerRateLimit) :
    (watched.discipline reliable outside).Obeys
      (RateLimit.evaluate outside hookSlug limit)
      (fun after _ => after = ghost) ghost := by
  simp only [RateLimit.evaluate, RateLimit.evaluateAt, RateLimit.increment,
    sql, Program.op, Program.bind_eq, Program.pure_eq, Program.pure_bind,
    Program.perform_bind, obeys_now, obeys_counter]
  intro now inserted incremented
  exact rfl

theorem obeys_firstRefusal (checks : List (Async (Option Refusal)))
    (neutral : ∀ check ∈ checks,
      (watched.discipline reliable outside).Obeys check
        (fun after _ => after = ghost) ghost) :
    (watched.discipline reliable outside).Obeys (firstRefusal checks)
      (fun after _ => after = ghost) ghost := by
  induction checks with
  | nil => exact rfl
  | cons check checks induction =>
      simp only [firstRefusal, Program.bind_eq, Discipline.obeys_bind]
      refine (neutral check (by simp)).mono ?_
      rintro after refusal rfl
      cases refusal with
      | some refusal => exact rfl
      | none =>
          exact induction fun check member =>
            neutral check (List.mem_cons_of_mem _ member)

/-- The trigger rules do not touch the barriers. -/
theorem obeys_evaluateRules (hook : HookConfig) (slug payload : String) :
    (watched.discipline reliable outside).Obeys
      (evaluateRules outside hook slug payload)
      (fun after _ => after = ghost) ghost := by
  refine obeys_firstRefusal _ ?_
  simp only [List.mem_cons, List.not_mem_nil, or_false, forall_eq_or_imp,
    forall_eq]
  refine ⟨?filters, ?windows, ?cooldown, ?rateLimit⟩
  case filters =>
    unfold checkFilters
    split <;> exact rfl
  case windows =>
    unfold checkWindows
    split
    · exact rfl
    · simp
  case cooldown =>
    unfold checkCooldown
    split
    · exact rfl
    · simp only [Program.bind_eq, Discipline.obeys_bind]
      exact (obeys_cooldown slug _).mono fun _ _ same => same
  case rateLimit =>
    unfold checkRateLimit
    split
    · exact rfl
    · simp only [Program.bind_eq, Discipline.obeys_bind]
      exact (obeys_rateLimit slug _).mono fun _ _ same => same

/-! ## The barriers of the hook -/

section Own

variable {id : String}

/-- What a trigger holds when it passed the concurrency barrier. -/
structure Passed (watched : Watched) (ghost : Ghost) (id : String) :
    Prop where
  role : ghost.role = .trigger
  token : (ghost.token = .unborn id ∧ watched.exclusive = true) ∨
    (ghost.token = .none ∧ ghost.fresh = some id ∧
      watched.exclusive = false)

/-- The record a trigger offers to the barriers. -/
structure Offers (watched : Watched) (new : NewExecution) (id : String) :
    Prop where
  id : new.id = some id
  hook : new.hookSlug = watched.slug
  original : new.retryOf = none
  status : new.status = none

theorem obeys_enqueue (role : ghost.role = .trigger)
    (token : ghost.token = .claim false id .queued) :
    (watched.discipline reliable outside).Obeys (enqueue watched.slug id)
      (fun after _ => after.token.lock = none) ghost := by
  simp only [enqueue, newId, nowUtc, sql, Program.op, Program.bind_eq,
    Program.pure_eq, Program.pure_bind, Program.perform_bind, obeys_newId,
    obeys_now, obeys_queue]
  intro entry queuedAt
  refine ⟨by simp [allowsQueue, token, role], ?_⟩
  intro answer after moved
  simp only [movesQueue, if_true] at moved
  rcases moved with ⟨rfl, rfl⟩ | ⟨rfl, rfl⟩
  · exact ⟨trivial, fun _ _ same => same ▸ rfl⟩
  · simp [token, Token.lock]

theorem obeys_evaluate (config : ConcurrencyConfig) {new : NewExecution}
    (role : ghost.role = .trigger) (token : ghost.token = .none)
    (fresh : ghost.fresh = some id) (exclusive : watched.exclusive = true)
    (offers : Offers watched new id) :
    (watched.discipline reliable outside).Obeys
      (evaluate watched.slug id config new)
      (fun after outcome => match outcome with
        | .proceed => Passed watched after id
        | _ => after.token.lock = none) ghost := by
  have rejected (reason : String) (ghost : Ghost)
      (unlocked : ghost.token.lock = none) :
      (watched.discipline reliable outside).Obeys
        (Program.pure (rejectConcurrency reason))
        (fun after outcome => match outcome with
          | .proceed => Passed watched after id
          | _ => after.token.lock = none) ghost := by
    simpa [rejectConcurrency] using unlocked
  have unlocked : ghost.token.lock = none := by simp [token, Token.lock]
  simp only [evaluate, tryAcquire, nowUtc, sql, Program.op, Program.bind_eq,
    Program.pure_eq, Program.pure_bind, Program.perform_bind, obeys_now,
    obeys_lock]
  intro acquiredAt
  refine ⟨fun _ => ⟨role, exclusive, token, fresh⟩, ?_⟩
  intro answer after moved
  simp only [movesLock, if_true] at moved
  rcases moved with ⟨rfl, rfl⟩ | ⟨rfl, rfl⟩
  · exact ⟨role, .inl ⟨rfl, exclusive⟩⟩
  simp only [Except.map, Nat.reduceBEq]
  split
  · exact rejected _ _ unlocked
  simp only [countWaiting, sql, Program.op, Program.perform_bind,
    Program.pure_bind, obeys_countWaiting]
  intro count
  split
  · exact rejected _ _ unlocked
  split
  · exact rejected _ _ unlocked
  -- the lock is held: the record is only queued
  rw [Discipline.obeys_bind]
  refine obeys_ownCreate offers.id offers.hook role offers.original
    (.inr ⟨token, fresh, by simp [offers.status, initialStatus, exclusive]⟩)
    ?_
  intro triggeredAt
  have queued : (after.use.hold (watched.inserted
      (new.record id triggeredAt) after.token)).token =
      .claim false id .queued := by
    simp [Ghost.hold, inserted, token, exclusive, NewExecution.record,
      offers.status]
  refine obeys_ownGetById queued ?_
  intro row _ _
  simp only [Discipline.obeys_bind]
  have trigger : (after.use.hold (watched.inserted
      (new.record id triggeredAt) after.token)).role = .trigger := role
  refine (obeys_enqueue trigger queued).mono ?_
  intro after position unlocked
  split
  · exact rejected _ _ unlocked
  · exact unlocked

theorem obeys_startExecution {new : NewExecution} (sourceIp payload : String)
    (passed : Passed watched ghost id) (offers : Offers watched new id)
    (ungated : watched.gated = false) :
    (watched.discipline reliable outside).Obeys
      (startExecution outside watched.config watched.hook watched.slug
        sourceIp payload new)
      (fun after _ => after.token.lock = none) ghost := by
  simp only [startExecution, Program.bind_eq, Discipline.obeys_bind]
  have status (locked : Bool) :
      new.status.getD .pending = watched.initialStatus locked := by
    simp [offers.status, initialStatus, ungated]
  refine obeys_ownCreate offers.id offers.hook passed.role offers.original
    (passed.token.imp (fun held => ⟨held.1, status _⟩)
      fun free => ⟨free.1, free.2.1, status _⟩) ?_
  intro triggeredAt
  have ready : (ghost.use.hold (watched.inserted
      (new.record id triggeredAt) ghost.token)).token =
      .claim watched.exclusive id .ready := by
    rcases passed.token with ⟨token, exclusive⟩ | ⟨token, -, exclusive⟩
    · simp [Ghost.hold, inserted, token, exclusive, NewExecution.record,
        offers.status]
    · simp [Ghost.hold, inserted, token, exclusive, NewExecution.record,
        offers.status]
  refine obeys_ownGetById ready ?_
  rintro row rfl sameHook
  simp only [Discipline.obeys_bind]
  refine (obeys_insertAttempt _).mono ?_
  rintro after _ ⟨fresh, rfl⟩
  simp only [spawn, Program.op, Program.pure_eq, obeys_spawn]
  refine ⟨⟨fun _ => ⟨rfl, rfl⟩, ?_⟩, rfl⟩
  simpa [contextOf] using ready

theorem obeys_passApproval {new : NewExecution} (sourceIp payload : String)
    (passed : Passed watched ghost id) (offers : Offers watched new id) :
    (watched.discipline reliable outside).Obeys
      (passApproval outside watched.config watched.hook watched.slug
        sourceIp payload new)
      (fun after _ => after.token.lock = none) ghost := by
  unfold passApproval
  split
  · rename_i required
    have gated : watched.gated = true := required
    simp only [Program.bind_eq, Discipline.obeys_bind]
    refine obeys_ownCreate offers.id offers.hook passed.role offers.original
      (passed.token.imp (fun held => ⟨held.1, ?_⟩)
        fun free => ⟨free.1, free.2.1, ?_⟩) ?_
    · simp [initialStatus, gated]
    · simp [initialStatus, gated, free.2.2]
    · intro triggeredAt
      have parked : (ghost.use.hold (watched.inserted
          ({ new with status := some .pendingApproval }.record id
            triggeredAt) ghost.token)).token = .none := by
        rcases passed.token with ⟨token, -⟩ | ⟨token, -⟩ <;>
          simp [Ghost.hold, inserted, token, NewExecution.record]
      have notReplay : (ghost.use.hold (watched.inserted
          ({ new with status := some .pendingApproval }.record id
            triggeredAt) ghost.token)).role ≠ .replay := by
        simp [Ghost.hold, Ghost.use, passed.role]
      refine obeys_getById id notReplay ?_
      intro found
      split
      · simp [parked, Token.lock]
      · simp only [Discipline.obeys_bind]
        refine (obeys_insertAttempt _).mono ?_
        rintro after _ ⟨fresh, rfl⟩
        simp [parked, Token.lock]
  · rename_i free
    exact obeys_startExecution sourceIp payload passed offers
      (by simpa [gated] using free)

theorem obeys_passBarriers (sourceIp payload : String)
    (role : ghost.role = .trigger) (token : ghost.token = .none) :
    (watched.discipline reliable outside).Obeys
      (passBarriers outside watched.config watched.hook watched.slug
        sourceIp payload)
      (fun after _ => after.token.lock = none) ghost := by
  simp only [passBarriers, newId, Program.op, Program.bind_eq,
    Program.perform_bind, Program.pure_bind, obeys_newId]
  intro id
  have offers : Offers watched
      { id := some id
        hookSlug := watched.slug
        logPath := s!"{watched.config.logs.dir}/{id}"
        triggerSource := sourceIp
        requestPayload := payload } id :=
    ⟨rfl, rfl, rfl, rfl⟩
  split
  · rename_i concurrency
    exact obeys_passApproval sourceIp payload
      ⟨role, .inr ⟨token, rfl, by simp [exclusive, concurrency]⟩⟩ offers
  · rename_i config concurrency
    simp only [Discipline.obeys_bind]
    have trigger : ({ ghost with fresh := some id } : Ghost).role =
        .trigger := role
    refine (obeys_evaluate config trigger token rfl
      (by simp [exclusive, concurrency]) offers).mono ?_
    intro after outcome passed
    split
    · exact obeys_passApproval sourceIp payload passed offers
    · simp only [Discipline.obeys_bind]
      refine (obeys_insertAttempt _).mono ?_
      rintro after _ ⟨fresh, rfl⟩
      exact passed
    · simp only [Discipline.obeys_bind]
      refine (obeys_insertAttempt _).mono ?_
      rintro after _ ⟨fresh, rfl⟩
      exact passed

end Own

/-! ## The barriers of other hooks -/

section Other

variable {config : AppConfig} {hook : HookConfig} {slug id : String}

theorem obeys_otherEnqueue (other : slug ≠ watched.slug)
    (token : ghost.token = .none)
    (known : id ∈ ghost.elsewhere) :
    (watched.discipline reliable outside).Obeys (enqueue slug id)
      (fun after _ => after.token = .none) ghost := by
  simp only [enqueue, newId, nowUtc, sql, Program.op, Program.bind_eq,
    Program.pure_eq, Program.pure_bind, Program.perform_bind, obeys_newId,
    obeys_now, obeys_queue]
  intro entry queuedAt
  refine ⟨by simp [allowsQueue, other, token, known], ?_⟩
  intro answer after moved
  simp only [movesQueue, if_neg other] at moved
  subst after
  split
  · exact token
  · exact ⟨trivial, fun _ _ same => same ▸ token⟩

theorem obeys_otherEvaluate (concurrency : ConcurrencyConfig)
    {new : NewExecution} (other : slug ≠ watched.slug)
    (role : ghost.role = .foreign) (token : ghost.token = .none)
    (fresh : ghost.fresh = some id)
    (sameId : new.id = some id) (sameHook : new.hookSlug = slug) :
    (watched.discipline reliable outside).Obeys
      (evaluate slug id concurrency new)
      (fun after outcome => after.token = .none ∧
        (outcome = .proceed → after = ghost)) ghost := by
  simp only [evaluate, tryAcquire, nowUtc, sql, Program.op, Program.bind_eq,
    Program.pure_eq, Program.pure_bind, Program.perform_bind, obeys_now,
    obeys_lock]
  intro acquiredAt
  refine ⟨fun same => (other same).elim, ?_⟩
  intro answer after moved
  simp only [movesLock, if_neg other] at moved
  subst after
  have rejected (reason : String) :
      (watched.discipline reliable outside).Obeys
        (Program.pure (rejectConcurrency reason))
        (fun after outcome => after.token = .none ∧
          (outcome = .proceed → after = ghost)) ghost := by
    simp [token]
  split
  · exact rejected _
  · simp [token]
  split
  · exact rejected _
  simp only [countWaiting, sql, Program.op, Program.perform_bind,
    Program.pure_bind, obeys_countWaiting]
  intro count
  split
  · exact rejected _
  split
  · exact rejected _
  rw [Discipline.obeys_bind]
  refine obeys_otherCreate sameId (sameHook ▸ other) token fresh
    (fun error => rejected _) ?_
  have notReplay : (ghost.use.learn [id]).role ≠ .replay := by
    simp [Ghost.learn, Ghost.use, role]
  refine obeys_otherGetById token (by simp [Ghost.learn]) notReplay ?_
  intro row _ _
  simp only [Discipline.obeys_bind]
  have free : (ghost.use.learn [id]).token = .none := token
  refine (obeys_otherEnqueue other free (by simp [Ghost.learn])).mono ?_
  intro after position free
  split
  · simp [rejectConcurrency, free]
  · simp [free]

theorem obeys_otherStart {new : NewExecution} (sourceIp payload : String)
    (other : slug ≠ watched.slug)
    (role : ghost.role = .foreign) (token : ghost.token = .none)
    (fresh : ghost.fresh = some id)
    (sameId : new.id = some id) (sameHook : new.hookSlug = slug) :
    (watched.discipline reliable outside).Obeys
      (startExecution outside config hook slug sourceIp payload new)
      (fun after _ => after.token = .none) ghost := by
  simp only [startExecution, Program.bind_eq, Discipline.obeys_bind]
  refine obeys_otherCreate sameId (sameHook ▸ other) token fresh
    (fun error => token) ?_
  have notReplay : (ghost.use.learn [id]).role ≠ .replay := by
    simp [Ghost.learn, Ghost.use, role]
  refine obeys_otherGetById token (by simp [Ghost.learn]) notReplay ?_
  rintro row rfl _
  simp only [Discipline.obeys_bind]
  refine (obeys_insertAttempt _).mono ?_
  rintro after _ ⟨fresh, rfl⟩
  simp only [spawn, Program.op, Program.pure_eq, obeys_spawn]
  refine ⟨⟨fun same => (other same).elim, ?_⟩, rfl⟩
  simp [contextOf, other, token, Ghost.learn, Ghost.use]

theorem obeys_otherApproval {new : NewExecution} (sourceIp payload : String)
    (other : slug ≠ watched.slug)
    (role : ghost.role = .foreign) (token : ghost.token = .none)
    (fresh : ghost.fresh = some id)
    (sameId : new.id = some id) (sameHook : new.hookSlug = slug) :
    (watched.discipline reliable outside).Obeys
      (passApproval outside config hook slug sourceIp payload new)
      (fun after _ => after.token = .none) ghost := by
  unfold passApproval
  split
  · simp only [Program.bind_eq, Discipline.obeys_bind]
    refine obeys_otherCreate sameId (sameHook ▸ other) token fresh
      (fun error => token) ?_
    have notReplay : (ghost.use.learn [id]).role ≠ .replay := by
      simp [Ghost.learn, Ghost.use, role]
    refine obeys_otherGetById token (by simp [Ghost.learn]) notReplay ?_
    rintro row rfl _
    simp only [Discipline.obeys_bind]
    refine (obeys_insertAttempt _).mono ?_
    rintro after _ ⟨fresh, rfl⟩
    exact token
  · exact obeys_otherStart sourceIp payload other role token fresh sameId
      sameHook

theorem obeys_otherBarriers (sourceIp payload : String)
    (other : slug ≠ watched.slug)
    (role : ghost.role = .foreign) (token : ghost.token = .none) :
    (watched.discipline reliable outside).Obeys
      (passBarriers outside config hook slug sourceIp payload)
      (fun after _ => after.token = .none) ghost := by
  simp only [passBarriers, newId, Program.op, Program.bind_eq,
    Program.perform_bind, Program.pure_bind, obeys_newId]
  intro id
  have foreign : ({ ghost with fresh := some id } : Ghost).role =
      .foreign := role
  split
  · exact obeys_otherApproval sourceIp payload other foreign token rfl rfl
      rfl
  · simp only [Discipline.obeys_bind]
    refine (obeys_otherEvaluate _ other foreign token rfl rfl rfl).mono ?_
    rintro after outcome ⟨free, proceeds⟩
    split
    · rw [proceeds rfl]
      exact obeys_otherApproval sourceIp payload other foreign token rfl rfl
        rfl
    · simp only [Discipline.obeys_bind]
      refine (obeys_insertAttempt _).mono ?_
      rintro after _ ⟨fresh, rfl⟩
      exact free
    · simp only [Discipline.obeys_bind]
      refine (obeys_insertAttempt _).mono ?_
      rintro after _ ⟨fresh, rfl⟩
      exact free

end Other

/-! ## The handlers -/

theorem obeys_triggerHook (request : TriggerRequest)
    (token : ghost.token = .none)
    (role : ghost.role =
      if request.slug = watched.slug then .trigger else .foreign) :
    (watched.discipline reliable outside).Obeys
      (triggerHook outside request)
      (fun after _ => after.token.lock = none) ghost := by
  have unlocked : ghost.token.lock = none := by simp [token, Token.lock]
  have logged (hookSlug sourceIp reason : String)
      (status : TriggerAttemptStatus) (response : Response) :
      (watched.discipline reliable outside).Obeys
        ((logRejection hookSlug sourceIp status reason).bind
          fun _ => Program.pure response)
        (fun after _ => after.token.lock = none) ghost := by
    rw [Discipline.obeys_bind]
    refine (obeys_logRejection _ _ _ _).mono ?_
    rintro after _ ⟨fresh, rfl⟩
    exact unlocked
  simp only [triggerHook, loadConfig, Program.op, Program.bind_eq,
    Program.pure_eq, Program.perform_bind, Program.pure_bind,
    obeys_loadConfig]
  split
  · exact unlocked
  rename_i hook found
  split
  · exact logged _ _ _ _ _
  split
  · exact logged _ _ _ _ _
  rw [Discipline.obeys_bind]
  refine (obeys_evaluateRules _ _ _).mono ?_
  rintro after refusal rfl
  split
  · exact logged _ _ _ _ _
  by_cases own : request.slug = watched.slug
  · have sameSlug : hook.slug = watched.slug := by
      have := List.find?_some found
      simp_all
    rw [watched.eq_hook (List.mem_of_find?_eq_some found) sameSlug, own]
    exact obeys_passBarriers _ _ (by simpa [own] using role) token
  · refine (obeys_otherBarriers _ _ own (by simpa [own] using role)
      token).mono ?_
    intro after _ free
    simp [free, Token.lock]

/-- A decision finds the record it changed: a record of the hook, which the
task now owns, or a record of another hook. -/
theorem obeys_decision {change : ExecutionUpdate} {id : String}
    {phase : Phase} (next : DbResult Nat → Async α)
    {post : Ghost → α → Prop}
    (role : ghost.role = .decider) (token : ghost.token = .none)
    (target : change.target? = some id)
    (decides : change.decides = some phase)
    (missed : (watched.discipline reliable outside).Obeys (next (.ok 0))
      post (change.note false ghost))
    (own : ∀ rows, 0 < rows → watched.gated = true →
      id ∉ (change.note true ghost).elsewhere →
      (watched.discipline reliable outside).Obeys (next (.ok rows)) post
        ((change.note true ghost).hold
          (.claim watched.exclusive id phase)))
    (other : ∀ rows, 0 < rows → id ∉ (change.note true ghost).settled →
      (watched.discipline reliable outside).Obeys (next (.ok rows)) post
        ((change.note true ghost).learn [id])) :
    (watched.discipline reliable outside).Obeys
      (.perform (.sql (.execution (.update change))) next) post ghost := by
  rw [obeys_record]
  refine ⟨?_, ?_⟩
  · simp only [allowsRecord, token]
    exact .inl ⟨role, by simp [decides]⟩
  · intro answer after moved
    simp only [movesRecord, token, decides] at moved
    rcases moved with ⟨rows, rfl, positive, found, same, decided⟩ | moved
    · obtain rfl : id = found := by
        rw [target] at same
        exact Option.some.inj same
      rcases decided with ⟨gated, unknown, rfl⟩ | ⟨unsettled, rfl⟩
      · exact own rows positive gated unknown
      · exact other rows positive unsettled
    · obtain ⟨rfl, rfl⟩ := moved
      exact missed

theorem obeys_approveExecution (id user : String)
    (role : ghost.role = .decider) (token : ghost.token = .none) :
    (watched.discipline reliable outside).Obeys
      (approveExecution outside id user)
      (fun after _ => after.token.lock = none) ghost := by
  simp only [approveExecution, markApproved, nowUtc, sql, Program.op,
    Program.bind_eq, Program.pure_eq, Program.perform_bind,
    Program.pure_bind, obeys_now]
  intro approvedAt
  refine obeys_decision _ role token rfl rfl ?missed ?own ?other
  case missed =>
    simp [expectRow, ExecutionUpdate.note, token, Token.lock]
  case own =>
    intro rows positive gated _
    obtain ⟨rows, rfl⟩ := Nat.exists_eq_add_of_lt positive
    simp only [expectRow, Discipline.obeys_bind]
    refine obeys_ownGetById rfl ?_
    rintro row rfl sameHook
    simp only [loadConfig, Program.op, Program.perform_bind,
      Program.pure_bind, obeys_loadConfig, sameHook, watched.hook?_slug]
    refine obeys_ownUpdate (some .ready) _ rfl rfl rfl ?_
    simp only [spawn, Program.op, Program.perform_bind, Program.pure_bind,
      obeys_spawn]
    refine ⟨⟨fun _ => ⟨rfl, rfl⟩, ?_⟩, rfl⟩
    simp [contextOf, Ghost.hold, Token.become]
  case other =>
    intro rows positive _
    obtain ⟨rows, rfl⟩ := Nat.exists_eq_add_of_lt positive
    simp only [expectRow, Discipline.obeys_bind]
    have notReplay : ((ExecutionUpdate.note (.markApproved id user
        (approvedAt / 1000000)) true ghost).learn [id]).role ≠ .replay := by
      simp [ExecutionUpdate.note, Ghost.learn, role]
    refine obeys_otherGetById token (by simp [Ghost.learn]) notReplay ?_
    rintro row rfl otherHook
    simp only [loadConfig, Program.op, Program.perform_bind,
      Program.pure_bind, obeys_loadConfig]
    split
    · simp [ExecutionUpdate.note, Ghost.learn, token, Token.lock]
    · refine obeys_otherUpdate _ token (by simp [Ghost.learn]) rfl rfl ?_
      intro rows
      simp only [spawn, Program.op, Program.perform_bind, Program.pure_bind,
        obeys_spawn]
      refine ⟨⟨fun same => (otherHook same).elim, ?_⟩, rfl⟩
      simp [contextOf, otherHook, ExecutionUpdate.note, Ghost.learn, token]

theorem obeys_expireForExecution {id : String}
    (allowed : (∃ locked, ghost.token = .claim locked id .ended) ∨
      (ghost.token = .none ∧ (id ∈ ghost.elsewhere ∨ id ∈ ghost.settled))) :
    (watched.discipline reliable outside).Obeys (expireForExecution id)
      (fun after _ => after = ghost) ghost := by
  simp only [expireForExecution, sql, Program.op, Program.bind_eq,
    Program.pure_eq, Program.perform_bind, Program.pure_bind, obeys_queue]
  refine ⟨allowed, ?_⟩
  intro answer after moved
  exact moved

/-- The end of a rejection and of an expiry that ended the execution. -/
theorem obeys_completeEnded {id : String}
    (token : ghost.token = .claim watched.exclusive id .ended) :
    (watched.discipline reliable outside).Obeys
      (completeHolder watched.slug id watched.hook.concurrency
        watched.hook.approval)
      (fun after _ => after = ghost.hold .none) ghost := by
  simp only [completeHolder, getHolder, sql, Program.op, Program.bind_eq,
    Program.perform_bind, Program.pure_bind, obeys_lock]
  refine ⟨trivial, ?_⟩
  intro answer after moved
  simp only [movesLock, if_true, token] at moved
  cases exclusive : watched.exclusive with
  | true =>
      simp only [exclusive] at moved token
      obtain ⟨rfl, rfl⟩ := moved
      simp only [Except.toOption, Option.join_some, if_true]
      exact obeys_onExecutionComplete token rfl exclusive
  | false =>
      simp only [exclusive] at moved
      obtain ⟨rfl, rfl⟩ := moved
      simp [Except.toOption]

/-- The end of an expiry that came too late. -/
theorem obeys_completeMissed {id : String}
    (concurrency : Option ConcurrencyConfig)
    (approval : Option ApprovalConfig)
    (token : ghost.token = .none) (missed : ghost.missed = some id) :
    (watched.discipline reliable outside).Obeys
      (completeHolder watched.slug id concurrency approval)
      (fun after _ => after = ghost) ghost := by
  simp only [completeHolder, getHolder, sql, Program.op, Program.bind_eq,
    Program.perform_bind, Program.pure_bind, obeys_lock]
  refine ⟨trivial, ?_⟩
  intro answer after moved
  simp only [movesLock, if_true, token] at moved
  obtain ⟨notHolder, rfl⟩ := moved
  have away : answer ≠ .ok (some id) := notHolder id missed
  have different : answer.toOption.join ≠ some id := by
    intro same
    cases answer with
    | error error => cases same
    | ok holder => exact away (congrArg Except.ok same)
  simp [different]

theorem obeys_completeOther {slug id : String}
    (concurrency : Option ConcurrencyConfig)
    (approval : Option ApprovalConfig)
    (other : slug ≠ watched.slug) (token : ghost.token = .none) :
    (watched.discipline reliable outside).Obeys
      (completeHolder slug id concurrency approval)
      (fun after _ => Grown ghost after) ghost := by
  simp only [completeHolder, getHolder, sql, Program.op, Program.bind_eq,
    Program.perform_bind, Program.pure_bind, obeys_lock]
  refine ⟨trivial, ?_⟩
  intro answer after moved
  simp only [movesLock, if_neg other] at moved
  subst after
  split
  · exact obeys_otherComplete _ _ other token
  · exact ⟨rfl, token, rfl, List.Subset.refl _⟩

theorem obeys_rejectExecution (id user : String)
    (role : ghost.role = .decider) (token : ghost.token = .none) :
    (watched.discipline reliable outside).Obeys (rejectExecution id user)
      (fun after _ => after.token.lock = none) ghost := by
  simp only [rejectExecution, markRejected, nowUtc, sql, Program.op,
    Program.bind_eq, Program.pure_eq, Program.perform_bind,
    Program.pure_bind, obeys_now]
  intro completedAt
  refine obeys_decision _ role token rfl rfl ?missed ?own ?other
  case missed =>
    simp [expectRow, ExecutionUpdate.note, token, Token.lock]
  case own =>
    intro rows positive gated _
    obtain ⟨rows, rfl⟩ := Nat.exists_eq_add_of_lt positive
    simp only [expectRow, Discipline.obeys_bind]
    refine obeys_ownGetById rfl ?_
    rintro row rfl sameHook
    simp only [Discipline.obeys_bind]
    refine (obeys_expireForExecution (.inl ⟨_, rfl⟩)).mono ?_
    rintro after _ rfl
    simp only [loadConfig, Program.op, obeys_loadConfig,
      Discipline.obeys_pure, sameHook, watched.hook?_slug,
      Discipline.obeys_bind]
    refine (obeys_completeEnded rfl).mono ?_
    rintro after _ rfl
    rfl
  case other =>
    intro rows positive _
    obtain ⟨rows, rfl⟩ := Nat.exists_eq_add_of_lt positive
    simp only [expectRow, Discipline.obeys_bind]
    have notReplay : ((ExecutionUpdate.note (.markRejected id user
        (completedAt / 1000000)) true ghost).learn [id]).role ≠
        .replay := by
      simp [ExecutionUpdate.note, Ghost.learn, role]
    refine obeys_otherGetById token (by simp [Ghost.learn]) notReplay ?_
    rintro row rfl otherHook
    have free : ((ExecutionUpdate.note (.markRejected row.id user
        (completedAt / 1000000)) true ghost).learn [row.id]).token =
        .none := token
    simp only [Discipline.obeys_bind]
    refine (obeys_expireForExecution
      (.inr ⟨free, .inl (by simp [Ghost.learn])⟩)).mono ?_
    rintro after _ rfl
    simp only [loadConfig, Program.op, obeys_loadConfig,
      Discipline.obeys_pure]
    split
    · simp [free, Token.lock]
    · simp only [Discipline.obeys_bind]
      refine (obeys_completeOther _ _ otherHook free).mono ?_
      intro after _ grown
      simp [grown.token, Token.lock]

/-! ## The sweep -/

theorem obeys_expireOne {id : String} (role : ghost.role = .decider)
    (token : ghost.token = .none) (settled : id ∈ ghost.settled) :
    (watched.discipline reliable outside).Obeys (expireOne watched.hook id)
      (fun after _ => Grown ghost after) ghost := by
  simp only [expireOne, markExpired, nowUtc, sql, Program.op,
    Program.bind_eq, Program.pure_eq, Program.perform_bind,
    Program.pure_bind, obeys_now]
  intro completedAt
  refine obeys_decision _ role token rfl rfl ?missed ?own ?other
  case missed =>
    simp only [Except.map, Discipline.obeys_bind]
    have free : (ExecutionUpdate.note (.markExpired id
        (completedAt / 1000000)) false ghost).token = .none := token
    refine (obeys_expireForExecution (.inr ⟨free, .inr settled⟩)).mono ?_
    rintro after _ rfl
    refine (obeys_completeMissed _ _ free rfl).mono ?_
    rintro after _ rfl
    exact ⟨rfl, token, rfl, List.Subset.refl _⟩
  case own =>
    intro rows positive gated _
    simp only [Except.map, Discipline.obeys_bind]
    refine (obeys_expireForExecution (.inl ⟨_, rfl⟩)).mono ?_
    rintro after _ rfl
    refine (obeys_completeEnded rfl).mono ?_
    rintro after _ rfl
    exact ⟨rfl, rfl, rfl, List.Subset.refl _⟩
  case other =>
    intro rows positive unsettled
    exact (unsettled settled).elim

theorem obeys_expireOther {hook : HookConfig} {id : String}
    (other : hook.slug ≠ watched.slug) (role : ghost.role = .decider)
    (token : ghost.token = .none) (known : id ∈ ghost.elsewhere) :
    (watched.discipline reliable outside).Obeys (expireOne hook id)
      (fun after _ => Grown ghost after) ghost := by
  simp only [expireOne, markExpired, nowUtc, sql, Program.op,
    Program.bind_eq, Program.pure_eq, Program.perform_bind,
    Program.pure_bind, obeys_now]
  intro completedAt
  have rest (after : Ghost) (grown : Grown ghost after) :
      (watched.discipline reliable outside).Obeys
        ((expireForExecution id).bind fun _ =>
          completeHolder hook.slug id hook.concurrency hook.approval)
        (fun after _ => Grown ghost after) after := by
    rw [Discipline.obeys_bind]
    refine (obeys_expireForExecution
      (.inr ⟨grown.token, .inl (grown.elsewhere known)⟩)).mono ?_
    rintro after _ rfl
    exact (obeys_completeOther _ _ other grown.token).mono
      fun _ _ more => grown.trans more
  refine obeys_decision _ role token rfl rfl ?missed ?own ?other
  case missed =>
    exact rest _ ⟨rfl, token, rfl, List.Subset.refl _⟩
  case own =>
    intro rows positive gated unknown
    exact (unknown known).elim
  case other =>
    intro rows positive _
    exact rest _ ⟨rfl, token, rfl, by simp [Ghost.learn,
      ExecutionUpdate.note]⟩

theorem obeys_expireHooks (now : Instant) (hooks : List HookConfig)
    (configured : hooks ⊆ watched.config.hooks)
    (role : ghost.role = .decider) (token : ghost.token = .none) :
    (watched.discipline reliable outside).Obeys (expireHooks now hooks)
      (fun after _ => after.token.lock = none) ghost := by
  have unlocked : ghost.token.lock = none := by simp [token, Token.lock]
  induction hooks generalizing ghost with
  | nil => exact unlocked
  | cons hook hooks induction =>
      have rest : hooks ⊆ watched.config.hooks := fun other member =>
        configured (List.mem_cons_of_mem hook member)
      unfold expireHooks
      split
      · exact induction rest role token unlocked
      split
      · exact unlocked
      simp only [sql, Program.op, Program.bind_eq, Program.perform_bind,
        Program.pure_bind, obeys_record]
      refine ⟨trivial, ?_⟩
      rintro answer after ⟨ids, rfl, rfl⟩
      simp only [Except.toOption, Option.getD_some, Discipline.obeys_bind]
      -- every overdue execution is expired by a task that owns nothing
      let listed := if hook.slug = watched.slug then
        { ghost with settled := ids ++ ghost.settled } else ghost.learn ids
      have start : Grown listed listed := by
        refine ⟨rfl, ?_, rfl, List.Subset.refl _⟩
        simp only [listed]
        split <;> exact token
      have decider : listed.role = .decider := by
        simp only [listed]
        split <;> exact role
      refine (Discipline.obeys_forEach _ ids (expireOne hook) (Grown listed)
        listed start ?_).mono ?_
      · intro id after member grown
        by_cases own : hook.slug = watched.slug
        · have same := watched.eq_hook (configured (by simp)) own
          have settled : id ∈ after.settled := by
            simp [grown.settled, listed, own, member]
          rw [same]
          exact (obeys_expireOne (grown.role.trans decider) grown.token
            settled).mono fun _ _ more => grown.trans more
        · have known : id ∈ after.elsewhere :=
            grown.elsewhere (by simp [listed, own, Ghost.learn, member])
          exact (obeys_expireOther own (grown.role.trans decider) grown.token
            known).mono fun _ _ more => grown.trans more
      · intro after _ grown
        exact induction rest (grown.role.trans decider) grown.token
          (by simp [grown.token, Token.lock])

theorem obeys_expirePendingApprovals (role : ghost.role = .decider)
    (token : ghost.token = .none) :
    (watched.discipline reliable outside).Obeys expirePendingApprovals
      (fun after _ => after.token.lock = none) ghost := by
  simp only [expirePendingApprovals, loadConfig, Program.op,
    Program.bind_eq, Program.perform_bind, Program.pure_bind,
    obeys_loadConfig, obeys_now]
  intro now
  exact obeys_expireHooks now _ (List.Subset.refl _) role token

/-- A replay, of an execution of another hook. -/
theorem obeys_replayExecution (id : String)
    (role : ghost.role = .replay) (token : ghost.token = .none) :
    (watched.discipline reliable outside).Obeys (replayExecution outside id)
      (fun after _ => after.token.lock = none) ghost := by
  have unlocked : ghost.token.lock = none := by simp [token, Token.lock]
  simp only [replayExecution, loadConfig, Program.op, Program.bind_eq,
    Program.pure_eq, Program.perform_bind, Program.pure_bind,
    obeys_loadConfig, Discipline.obeys_bind]
  refine obeys_replayGetById token role (fun error => unlocked) ?_
  rintro original rfl other
  simp only
  split
  · exact unlocked
  simp only [newId, Program.op, Program.perform_bind, Program.pure_bind,
    obeys_newId, Discipline.obeys_bind]
  intro execId
  refine obeys_otherCreate rfl other token rfl (fun error => unlocked) ?_
  refine obeys_replayGetById token role (fun error => unlocked) ?_
  rintro row rfl _
  simp only [spawn, Program.op, Program.perform_bind, Program.pure_bind,
    obeys_spawn]
  refine ⟨⟨fun same => (other same).elim, ?_⟩, rfl⟩
  simp [contextOf, other, token, Ghost.learn, Ghost.use]

theorem lawful_bodies (job : Job) (admitted : watched.admits job) :
    (watched.discipline reliable outside).Obeys ((server outside).body job)
      (fun after _ => after.token.lock = none) (watched.start job) := by
  change (watched.discipline reliable outside).Obeys (taskBody outside job)
    _ _
  cases job with
  | trigger request => exact obeys_triggerHook request rfl rfl
  | approve id user => exact obeys_approveExecution id user rfl rfl
  | reject id user => exact obeys_rejectExecution id user rfl rfl
  | replay id => exact obeys_replayExecution id rfl rfl
  | expirePendingApprovals =>
      simp only [taskBody, Program.bind_eq, Discipline.obeys_bind]
      refine (obeys_expirePendingApprovals ?_ ?_).mono
        fun _ _ closed => closed
      · exact rfl
      · exact rfl
  | reloadConfig config => exact admitted.elim
  | runExecution context retries hook concurrency approval =>
      simp only [taskBody, Program.bind_eq, Discipline.obeys_bind]
      by_cases own : context.hookSlug = watched.slug
      · obtain ⟨rfl, rfl⟩ := admitted own
        simp only [start, if_pos own]
        refine (obeys_runExecution retries hook own ?_ ?_).mono
          fun _ _ closed => closed
        · exact rfl
        · exact rfl
      · simp only [start, if_neg own]
        refine (obeys_otherExecution retries hook concurrency approval own
          ?_ ?_ ?_).mono fun _ _ closed => closed
        · exact rfl
        · exact rfl
        · simp
  | runDequeued slug id concurrency approval =>
      simp only [taskBody, Program.bind_eq, Discipline.obeys_bind]
      by_cases own : slug = watched.slug
      · obtain ⟨exclusive, rfl, rfl⟩ := admitted own
        simp only [start, if_pos own]
        subst own
        refine (obeys_runDequeued ?_ ?_ exclusive).mono
          fun _ _ closed => closed
        · exact rfl
        · exact rfl
      · simp only [start, if_neg own]
        refine (obeys_otherDequeued concurrency approval own ?_ ?_ ?_).mono
          fun _ _ closed => closed
        · exact rfl
        · exact rfl
        · simp

end Watched

end Sendword
