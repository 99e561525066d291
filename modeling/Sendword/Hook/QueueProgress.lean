import Sendword.Hook.StuckHolder
import Sendword.Hook.Turns

/-!
# No stranded queue entry

An entry is queued because the lock was seen held, and the lock is released
because the queue was seen empty.  Where neither happens between the other's
look and its act, whatever waits is waiting for a live execution.
-/

namespace Sendword

open Concurrency

/-- The task has ended, or waits for the command it runs. -/
def resting (task : ServerTask) : Bool :=
  match task.program.next? with
  | none | some (.runProcess _) | some (.sendRequest _) => true
  | _ => false

/-- No handler and no run of the hook is in the middle of its steps. -/
def AtRest (slug : String) (pool : ServerPool) : Prop :=
  ∀ task ∈ pool.tasks, task.job.slug? = some slug → resting task = true

instance (slug : String) (pool : ServerPool) : Decidable (AtRest slug pool) :=
  inferInstanceAs (Decidable (∀ task ∈ pool.tasks,
    task.job.slug? = some slug → resting task = true))

/-- The lock of the hook is held by an execution that has not ended. -/
def HeldAlive (slug : String) (db : Db) : Prop :=
  ∃ id, db.holder? slug = some id ∧
    ∃ row ∈ db.executions, row.id = id ∧ row.status.isTerminal = false

namespace Watched

variable {watched : Watched} {outside : Outside}
  {start pool target : ServerPool}

/-! ## What waits is covered by the lock -/

/-- While entries of the hook wait or a trigger is to add one, the lock of
the hook is held. -/
structure Attended (watched : Watched) (pool : ServerPool) : Prop where
  waiting : pool.state.db.holder? watched.slug = none →
    (pool.state.db.rowsOf watched.slug).waiting = []
  told : pool.state.db.holder? watched.slug = none →
    ∀ task ∈ pool.tasks, watched.takesTurn task = false

section Step

variable {world state : World} {op : Op} {choice : Choice}
  {answer : op.Answer}

/-- Only a release frees the lock. -/
theorem released_of_freed {id : String}
    (started : op ≠ .sql (.lock .deleteTerminal))
    (performed : perform op choice world = some (answer, state))
    (held : world.db.holder? watched.slug = some id)
    (freed : state.db.holder? watched.slug = none) :
    op = .sql (.lock (.delete watched.slug)) := by
  rw [perform_db performed] at freed
  have unmoved (locks : (op.db world.db).locks = world.db.locks) : False := by
    have same : (op.db world.db).holder? watched.slug =
        world.db.holder? watched.slug := by
      rw [Db.holder?, Db.holder?, locks]
    rw [same, held] at freed
    cases freed
  rw [← Db.rowsOf_holder] at held freed
  cases op with
  | sql statement =>
      cases statement with
      | lock statement =>
          have other {slug : String} (about : statement.slug? = some slug)
              (away : slug ≠ watched.slug) : False := by
            have kept : ((statement.exec world.db).2.rowsOf
                watched.slug).holder = none := freed
            rw [Db.rowsOf_lock_other about away, held] at kept
            cases kept
          cases statement with
          | insertOrIgnore slug execution acquiredAt =>
              by_cases own : slug = watched.slug
              · subst own
                have ignored := congrArg Prod.snd (@Db.acquire_held world.db
                  watched.slug execution id acquiredAt held)
                exact (unmoved (congrArg Db.locks ignored)).elim
              · exact (other rfl own).elim
          | delete slug =>
              by_cases own : slug = watched.slug
              · rw [own]
              · exact (other rfl own).elim
          | update slug next acquiredAt =>
              by_cases own : slug = watched.slug
              · subst own
                obtain ⟨locks, rows, head⟩ :=
                  Db.rowsOf_handOff world.db watched.slug next acquiredAt
                have handed : (((LockStatement.update watched.slug next
                    acquiredAt).exec world.db).2.rowsOf
                      watched.slug).holder = some next := by
                  rw [rows]
                  refine head.trans ?_
                  rw [held]
                  rfl
                have kept : (((LockStatement.update watched.slug next
                    acquiredAt).exec world.db).2.rowsOf
                      watched.slug).holder = none := freed
                rw [handed] at kept
                cases kept
              · exact (other rfl own).elim
          | selectHolder slug => exact (unmoved rfl).elim
          | deleteTerminal => exact (started rfl).elim
      | execution | queue | attempt | counter =>
          exact (unmoved (Db.locks_exec (by simp))).elim
  | now | newId | loadConfig | storeConfig | prepareLogFiles | spawn
  | runProcess | sendRequest | sleep | appendRetryMarker
  | sendNotification => exact (unmoved rfl).elim

/-- Whoever is told that it did not get the lock is told so while the lock
is held. -/
theorem held_of_told
    (performed : perform op choice world = some (answer, state))
    (told : (turnMonitor watched).next false ⟨op, answer⟩ = true) :
    state.db.holder? watched.slug ≠ none := by
  simp only [turnMonitor] at told
  split at told
  · rename_i slug id acquiredAt rows same
    split at told
    · rename_i own
      subst own
      cases same
      obtain ⟨answered, rfl⟩ := Prod.mk.inj (Option.some.inj performed)
      intro free
      rw [← Db.rowsOf_holder] at free
      cases held : (world.db.rowsOf watched.slug).holder with
      | none =>
          obtain ⟨after, executed, -⟩ :=
            Db.acquire_free id acquiredAt held
          have first := congrArg Prod.fst executed
          have got : Except.ok rows = (.ok (1 : Nat) : DbResult Nat) :=
            answered.symm.trans first
          cases got
          cases told
      | some holder =>
          have ignored := congrArg Prod.snd (@Db.acquire_held world.db
            watched.slug id holder acquiredAt held)
          have kept : (((LockStatement.insertOrIgnore watched.slug id
              acquiredAt).exec world.db).2.rowsOf watched.slug).holder =
                none := free
          rw [ignored] at kept
          exact Option.some_ne_none holder (held.symm.trans kept)
    · cases told
  · split at told
    · cases told
    · cases told
  · split at told
    · cases told
    · cases told
  · cases told

end Step

namespace Attended

variable {index : Nat} {choice : Choice}

/-- Where the lock is free after a step, no trigger was to add an entry
before it. -/
theorem untold (attended : watched.Attended pool)
    (early : releasesEarly watched pool index = false)
    (taken : (server outside).step pool (.advance index choice) = some target)
    (started : ∀ task op next, pool.tasks[index]? = some task →
      task.program = .perform op next →
      op ≠ .sql (.lock .deleteTerminal))
    (freed : target.state.db.holder? watched.slug = none) :
    ∀ task ∈ pool.tasks, watched.takesTurn task = false := by
  cases held : pool.state.db.holder? watched.slug with
  | none => exact attended.told held
  | some id =>
      obtain ⟨job, trace, op, next, answer, state, found, performed, rfl⟩ :=
        Machine.step_advance taken
      have released := released_of_freed (started _ _ _ found rfl) performed
        held freed
      subst released
      simpa [releasesEarly, Pool.next?_eq found] using early

theorem told_step (attended : watched.Attended pool)
    (early : releasesEarly watched pool index = false)
    (taken : (server outside).step pool (.advance index choice) = some target)
    (started : ∀ task op next, pool.tasks[index]? = some task →
      task.program = .perform op next →
      op ≠ .sql (.lock .deleteTerminal))
    (freed : target.state.db.holder? watched.slug = none) :
    ∀ task ∈ target.tasks, watched.takesTurn task = false := by
  have none := attended.untold early taken started freed
  obtain ⟨job, trace, op, next, answer, state, found, performed, rfl⟩ :=
    Machine.step_advance taken
  intro task member
  rcases List.mem_append.mp member with old | new
  · rcases List.mem_or_eq_of_mem_set old with other | rfl
    · exact none task other
    · have before : (turnMonitor watched).memory job trace = false := by
        simpa [takesTurn] using none _ (List.mem_of_getElem? found)
      refine Bool.and_eq_false_iff.mpr (.inr ?_)
      rw [Monitor.memory_snoc, before]
      by_contra told
      exact held_of_told performed (Bool.not_eq_false _ ▸ told) freed
  · simp only [Machine.forked, Option.mem_toList, Option.map_eq_some_iff]
      at new
    obtain ⟨child, -, rfl⟩ := new
    exact Bool.and_eq_false_iff.mpr (.inr rfl)

theorem waiting_step (queues : watched.queues = true)
    (empty : start.tasks = []) (idle : watched.Idle start.state)
    (reached : (server outside).Reaches watched.Steady start pool)
    (attended : watched.Attended pool)
    (taken : (server outside).step pool (.advance index choice) = some target)
    (freed : target.state.db.holder? watched.slug = none) :
    (target.state.db.rowsOf watched.slug).waiting = [] := by
  obtain ⟨task, found⟩ : ∃ task, pool.tasks[index]? = some task := by
    obtain ⟨job, trace, op, next, -, -, found, -⟩ := Machine.step_advance taken
    exact ⟨_, found⟩
  cases held : pool.state.db.holder? watched.slug with
  | some id =>
      have passed := (steady_passed empty idle reached found taken held
        (by simp [freed])).2
      rw [PassedOn, freed] at passed
      exact (Db.rowsOf_waiting ..).trans passed
  | none =>
      have orderly := reached.mono fun _ _ steady => steady.1
      obtain ⟨job, trace, op, next, answer, state, stepFound, performed,
        rfl⟩ := Machine.step_advance taken
      have inTasks := List.mem_of_getElem? stepFound
      obtain ⟨ghosts, covers, -⟩ := reaches_open empty idle orderly
      obtain ⟨ghost, -, -, -, obeys⟩ := covers.pick stepFound
      have started : op ≠ .sql (.queue .expireStale) := by
        rintro rfl
        exact obeys.1
      have nothing := attended.waiting held
      change (state.db.rowsOf watched.slug).waiting = []
      rw [perform_db performed]
      rcases op.entries_after pool.state.db watched.slug started with
        same | ⟨id, execution, queuedAt, entry, rfl, -⟩ | ⟨change, changed⟩
      · simpa only [HookRows.waiting, same] using nothing
      · -- whoever queues was told that the lock is held
        have told := (steady_turns queues empty orderly _ inTasks).1
          id execution queuedAt rfl
        have untold := attended.told held _ inTasks
        rw [takesTurn, told] at untold
        simp at untold
      · have left := change.waiting_map
          (pool.state.db.rowsOf watched.slug).entries
        rw [HookRows.waiting, changed, left]
        rw [HookRows.waiting] at nothing
        rw [nothing]
        rfl

end Attended

theorem reaches_attended (queues : watched.queues = true)
    (empty : start.tasks = []) (idle : watched.Idle start.state)
    (reached : (server outside).Reaches
      (fun pool label => watched.Steady pool label ∧
        watched.inTurn pool label = true) start pool) :
    watched.Attended pool := by
  induction reached with
  | refl =>
      refine ⟨fun _ => ?_, fun _ => by simp [empty]⟩
      exact (Db.rowsOf_waiting ..).trans idle.nothingWaits
  | @step pool target label before admitted taken induction =>
      have steady := before.mono fun _ _ both => both.1
      cases label with
      | arrive job =>
          obtain rfl : { pool with
              tasks := pool.tasks ++ [(server outside).launch job] } =
              target := by simpa [Machine.step] using taken
          refine ⟨induction.waiting, fun free task member => ?_⟩
          rcases List.mem_append.mp member with old | new
          · exact induction.told free task old
          · rw [List.mem_singleton.mp new]
            exact Bool.and_eq_false_iff.mpr (.inr rfl)
      | advance index choice =>
          have early : releasesEarly watched pool index = false := by
            have apart := admitted.2
            simp only [inTurn, Bool.and_eq_true, Bool.not_eq_true'] at apart
            exact apart.1
          have started : ∀ task op next, pool.tasks[index]? = some task →
              task.program = .perform op next →
              op ≠ .sql (.lock .deleteTerminal) := by
            rintro task op next found program rfl
            obtain ⟨ghosts, covers, -⟩ := reaches_open empty idle
              (steady.mono fun _ _ steady => steady.1)
            obtain ⟨ghost, -, -, -, obeys⟩ := covers.pick found
            rw [program] at obeys
            exact obeys.1
          exact ⟨induction.waiting_step queues empty idle steady taken,
            induction.told_step early taken started⟩

/-! ## The holder at rest -/

theorem slug?_of_role {job : Job}
    (role : (watched.start job).role = .trigger ∨
      ∃ id, (watched.start job).role = .runner id) :
    job.slug? = some watched.slug := by
  cases job with
  | trigger request =>
      by_cases own : request.slug = watched.slug
      · exact congrArg some own
      · simp [start, own] at role
  | runExecution context retries hook concurrency approval =>
      by_cases own : context.hookSlug = watched.slug
      · exact congrArg some own
      · simp [start, own] at role
  | runDequeued slug execution concurrency approval =>
      by_cases own : slug = watched.slug
      · exact congrArg some own
      · simp [start, own] at role
  | approve | reject | replay | expirePendingApprovals | reloadConfig =>
      simp [start] at role

/-- A task at rest that owns the lock has marked its record as running. -/
theorem running_of_resting {task : ServerTask} {ghost : Ghost} {id : String}
    (rests : resting task = true)
    (obeys : (watched.discipline False outside).Obeys task.program
      (fun after _ => after.token.lock = none) ghost)
    (lock : ghost.token.lock = some id) :
    ghost.token = .claim true id .running := by
  have claims (mayRun : ghost.MayRun) :
      ghost.token = .claim true id .running := by
    rcases mayRun with token | ⟨locked, own, token⟩
    · simp [token] at lock
    · cases locked with
      | false => simp [token] at lock
      | true =>
          obtain rfl : own = id := by simpa [token] using lock
          exact token
  unfold resting at rests
  cases program : task.program with
  | pure value =>
      rw [program] at obeys
      have ended : ghost.token.lock = none := obeys
      rw [lock] at ended
      cases ended
  | perform op next =>
      rw [program] at obeys rests
      cases op with
      | runProcess context => exact claims obeys.1
      | sendRequest context => exact claims obeys.1
      | sql | now | newId | loadConfig | storeConfig | prepareLogFiles
      | spawn | sleep | appendRetryMarker | sendNotification => cases rests

theorem holder_alive {ghosts : List Ghost} {id : String}
    (covers : (watched.discipline False outside).Covers pool ghosts)
    (holds : watched.Holds (fun role => role ≠ .decider ∧ role ≠ .replay)
      pool.state ghosts)
    (exclusive : watched.exclusive = true)
    (rest : AtRest watched.slug pool)
    (held : pool.state.db.holder? watched.slug = some id) :
    HeldAlive watched.slug pool.state.db := by
  refine ⟨id, held, ?_⟩
  have locked := holds.1.owned.locked exclusive
  rw [Db.rowsOf_holder, held] at locked
  have member : id ∈ lockIds ghosts +
      (pool.state.db.rowsOf watched.slug).parkedIds := by
    rw [locked]
    simp
  rcases Multiset.mem_add.mp member with owner | parked
  · obtain ⟨ghost, inGhosts, lock⟩ := Multiset.mem_bind.mp owner
    have lock : ghost.token.lock = some id := by simpa using lock
    obtain ⟨task, inTasks, linked, obeys⟩ :=
      covers.task_of_mem (Multiset.mem_coe.mp inGhosts)
    obtain ⟨⟨noDecider, noReplay⟩, foreign⟩ := holds.2 ghost inGhosts
    have own : task.job.slug? = some watched.slug := by
      apply slug?_of_role
      rw [← linked.role]
      cases role : ghost.role with
      | trigger => exact .inl rfl
      | runner id => exact .inr ⟨id, rfl⟩
      | decider => exact (noDecider role).elim
      | replay => exact (noReplay role).elim
      | foreign => simp [foreign role] at lock
    have running := running_of_resting (rest task inTasks own) obeys lock
    have described := holds.1.owned.tokens ghost inGhosts
    rw [running] at described
    obtain ⟨⟨row, inRows, sameId, status, -⟩, -⟩ := described
    refine ⟨row, (Db.mem_records.mp inRows).1, sameId, ?_⟩
    rw [status]
    rfl
  · obtain ⟨row, inRows, sameId⟩ := Multiset.mem_map.mp parked
    obtain ⟨inRecords, status⟩ := Multiset.mem_filter.mp inRows
    refine ⟨row, (Db.mem_records.mp (Multiset.mem_coe.mp inRecords)).1,
      sameId, ?_⟩
    rw [status]
    rfl

/-- Where no release comes between a trigger's look at the lock and its
entry, and no entry between a completion's look at the queue and its release:
whenever no task of the hook is in the middle of its steps, what waits is
waiting for a live execution that holds the lock. -/
theorem no_stranded_entry (watched : Watched)
    (queues : watched.queues = true) (empty : start.tasks = [])
    (idle : watched.Idle start.state)
    (reached : (server outside).Reaches
      (fun pool label => watched.inTurn pool label = true) start pool)
    (rest : AtRest watched.slug pool)
    (waits : pool.state.db.waiting watched.slug ≠ []) :
    HeldAlive watched.slug pool.state.db := by
  obtain ⟨ghosts, covers, holds⟩ := reaches_holds onlyTriggers_conduct empty
    idle (reached.mono fun _ _ => onlyTriggers_of_inTurn)
  have exclusive : watched.exclusive = true := by
    unfold Watched.queues at queues
    unfold Watched.exclusive
    cases concurrency : watched.hook.concurrency with
    | none => simp [concurrency] at queues
    | some config => rfl
  have attended := reaches_attended queues empty idle
    (steady_of_inTurn empty idle reached)
  cases held : pool.state.db.holder? watched.slug with
  | none =>
      have nothing := attended.waiting held
      rw [Db.rowsOf_waiting] at nothing
      exact (waits nothing).elim
  | some id => exact holder_alive covers holds exclusive rest held

end Watched

/-! ## An entry queued too late -/

/-- The run of the first trigger waits for its command, and the second
trigger has queued its execution. -/
def queuedSchedule : List ServerLabel :=
  .arrive (.trigger { slug := "deploy" }) ::
  .arrive (.trigger { slug := "deploy" }) ::
    steps 0 1 ++ stepWithId 0 "first" ++ steps 0 5 ++ stepWithId 0 "fired" ++
      steps 0 4 ++ steps 2 3 ++
    steps 1 1 ++ stepWithId 1 "second" ++ steps 1 6 ++
      stepWithId 1 "entry" ++ steps 1 3 ++ stepWithId 1 "queued" ++ steps 1 3

def queuedSecond : ServerPool :=
  ((server .accepting).run (Watched.only queuedDeploy).inTurn
    (Watched.only queuedDeploy).started queuedSchedule).get (by decide)

theorem no_stranded_entry_queued :
    HeldAlive "deploy" queuedSecond.state.db ∧
      (queuedSecond.state.db.waiting "deploy").map (·.executionId) =
        ["second"] := by
  have reached : (server .accepting).Reaches
      (fun pool label =>
        (Watched.only queuedDeploy).inTurn pool label = true)
      (Watched.only queuedDeploy).started queuedSecond :=
    .of_run .refl (Option.some_get _).symm
  exact ⟨Watched.no_stranded_entry (.only queuedDeploy) rfl rfl
    (Watched.idle_started _) reached (by decide) (by decide), by decide⟩

/-- The second trigger sees the lock held; before it queues its execution the
first run ends, sees nothing waiting and releases the lock. -/
def strandedSchedule : List ServerLabel :=
  .arrive (.trigger { slug := "deploy" }) ::
  .arrive (.trigger { slug := "deploy" }) ::
    steps 0 1 ++ stepWithId 0 "first" ++ steps 0 5 ++ stepWithId 0 "fired" ++
      steps 0 4 ++
    steps 1 1 ++ stepWithId 1 "second" ++ steps 1 6 ++
      stepWithId 1 "entry" ++ steps 2 8 ++ steps 1 3 ++
      stepWithId 1 "queued" ++ steps 1 3

def stranded : ServerPool :=
  ((server .accepting).run (fun _ => onlyTriggers)
    (Watched.only queuedDeploy).started strandedSchedule).get (by decide)

/-- Every task has ended, an entry waits, and nobody holds the lock. -/
theorem no_stranded_entry_late :
    ¬ ∀ pool, (server .accepting).Reaches
        (fun _ label => onlyTriggers label = true)
        (Watched.only queuedDeploy).started pool →
      AtRest "deploy" pool →
      pool.state.db.waiting "deploy" ≠ [] →
      HeldAlive "deploy" pool.state.db := by
  intro served
  obtain ⟨id, held, -⟩ := served stranded
    (.of_run .refl (Option.some_get _).symm) (by decide) (by decide)
  have free : stranded.state.db.holder? "deploy" = none := by decide
  rw [free] at held
  cases held

end Sendword
