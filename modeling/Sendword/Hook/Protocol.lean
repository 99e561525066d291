import Sendword.Hook.Handlers
import Sendword.Hook.Handovers
import Sendword.Hook.Past

/-!
# Every run of the server keeps the invariant

The statements keep the invariant one by one, every program obeys the
discipline, so every interleaving of them keeps it.
-/

namespace Sendword

open Concurrency

abbrev ServerTask := Task Job Op.Answer Response

abbrev ServerPool := Pool World Job Op.Answer Response

abbrev ServerLabel := Label Choice Job

/-- Requests and passes of the sweep; the detached tasks are only started by
others. -/
def Job.external : Job → Prop
  | .trigger _ | .approve .. | .reject .. | .replay _
  | .expirePendingApprovals => True
  | .reloadConfig _ | .runExecution .. | .runDequeued .. => False

/-- A task that has just expired an execution, changing no row, finds that
execution as the holder of the hook's lock. -/
def missesHolder (slug : String) (pool : ServerPool) (index : Nat) : Bool :=
  match pool.next? index with
  | some (_, trace, .sql (.lock (.selectHolder target))) =>
      match lastExpiry trace with
      | some (id, 0) =>
          target == slug && pool.state.db.holder? slug == some id
      | _ => false
  | _ => false

/-- A replay reads a record of the hook. -/
def replaysHook (slug : String) (pool : ServerPool) (index : Nat) : Bool :=
  match pool.next? index with
  | some (.replay _, _, .sql (.execution (.selectById id))) =>
      pool.state.db.executions.any fun row =>
        row.id == id && row.hookSlug == slug
  | _ => false

/-- The log files of a run of the hook cannot be created. -/
def failsLogs (slug : String) (pool : ServerPool) (index : Nat)
    (choice : Choice) : Bool :=
  match pool.next? index with
  | some (_, _, .prepareLogFiles context) =>
      context.hookSlug == slug && !choice.logFiles
  | _ => false

namespace Watched

/-- What is asked of a run: who takes part in it, and which steps do not
occur. -/
structure Conduct (watched : Watched) (reliable : Prop) (crew : Role → Prop)
    (good : ServerPool → ServerLabel → Bool) : Prop where
  external : ∀ pool job, good pool (.arrive job) = true → job.external
  arrivals : ∀ pool job, good pool (.arrive job) = true →
    crew (watched.start job).role
  runners : ∀ id, crew (.runner id)
  foreigners : crew .foreign
  sweeps : crew .decider → ∀ pool index choice,
    good pool (.advance index choice) = true →
    missesHolder watched.slug pool index = false
  replays : crew .replay → ∀ pool index choice,
    good pool (.advance index choice) = true →
    replaysHook watched.slug pool index = false
  logs : reliable → ∀ pool index choice,
    good pool (.advance index choice) = true →
    failsLogs watched.slug pool index choice = false

/-- The invariant of a run. -/
def Holds (watched : Watched) (crew : Role → Prop) (world : World)
    (ghosts : Multiset Ghost) : Prop :=
  watched.Invariant world ghosts ∧
    ∀ ghost ∈ ghosts, crew ghost.role ∧
      (ghost.role = .foreign → ghost.token = .none)

variable {watched : Watched} {reliable : Prop} {crew : Role → Prop}
  {good : ServerPool → ServerLabel → Bool} {outside : Outside}

/-- A task of another hook never owns anything of this one. -/
theorem foreign_moves {ghost after : Ghost} {op : Op} {answer : op.Answer}
    (foreign : ghost.role = .foreign) (token : ghost.token = .none)
    (allowed : watched.allows ghost op)
    (moved : watched.moves reliable ghost op answer after) :
    after.token = .none := by
  cases op with
  | sql statement =>
      cases statement with
      | execution statement =>
          simp only [moves] at moved
          cases statement with
          | insert row =>
              by_cases own : row.hookSlug = watched.slug
              · simp [allows, allowsRecord, own, foreign] at allowed
              · simp only [movesRecord, if_neg own] at moved
                rcases moved with ⟨-, rfl⟩ | ⟨-, rfl⟩
                · exact token
                · exact token
          | selectById id =>
              simp only [movesRecord, token, foreign] at moved
              obtain ⟨-, rfl⟩ := moved
              exact token
          | update change =>
              simp only [allows, allowsRecord, token, foreign] at allowed
              rcases allowed with ⟨decider, -⟩ | ⟨undecided, -⟩
              · cases decider
              · simp only [movesRecord, token, undecided] at moved
                exact moved ▸ token
          | selectLatestStarted slug => exact moved ▸ token
          | selectOverdue slug cutoff =>
              obtain ⟨ids, -, rfl⟩ := moved
              split <;> exact token
      | lock statement =>
          simp only [moves] at moved
          cases statement with
          | insertOrIgnore slug id acquiredAt =>
              by_cases own : slug = watched.slug
              · simp [allows, allowsLock, own, foreign] at allowed
              · simp only [movesLock, if_neg own] at moved
                exact moved ▸ token
          | delete slug =>
              by_cases own : slug = watched.slug
              · simp [allows, allowsLock, own, token] at allowed
              · simp only [movesLock, if_neg own] at moved
                exact moved ▸ token
          | update slug id acquiredAt =>
              by_cases own : slug = watched.slug
              · simp [allows, allowsLock, own, token] at allowed
              · simp only [movesLock, if_neg own] at moved
                exact moved ▸ token
          | selectHolder slug =>
              simp only [movesLock, token] at moved
              split at moved
              · exact moved.2 ▸ token
              · exact moved ▸ token
          | deleteTerminal => exact allowed.elim
      | queue statement =>
          simp only [moves] at moved
          cases statement with
          | enqueue id slug execution queuedAt =>
              by_cases own : slug = watched.slug
              · simp [allows, allowsQueue, own, token] at allowed
              · simp only [movesQueue, if_neg own] at moved
                exact moved ▸ token
          | peekNext slug =>
              by_cases own : slug = watched.slug
              · simp [allows, allowsQueue, own, token] at allowed
              · simp only [movesQueue, if_neg own] at moved
                rcases moved with ⟨-, rfl⟩ | ⟨entry, -, rfl⟩
                · exact token
                · exact token
          | update change =>
              cases change with
              | markReady entry =>
                  simp only [movesQueue, token] at moved
                  exact moved ▸ token
              | expireForExecution execution => exact moved ▸ token
          | selectPosition | countWaiting => exact moved ▸ token
          | expireStale => exact allowed.elim
      | attempt | counter => exact moved ▸ token
  | newId =>
      obtain rfl : after = { ghost with fresh := some answer } := moved
      exact token
  | loadConfig => exact moved.2 ▸ token
  | storeConfig config => exact allowed.elim
  | prepareLogFiles context =>
      simp only [moves, token] at moved
      exact moved ▸ token
  | spawn job =>
      obtain rfl : after = ghost.hold .none := moved
      rfl
  | now | runProcess | sendRequest | sleep | appendRetryMarker
  | sendNotification =>
      obtain rfl : after = ghost := moved
      exact token

theorem forkedGhosts_none {op : Op} (alone : forks op = none)
    (rest : Multiset Ghost) :
    (((watched.discipline reliable outside).forkedGhosts op : List Ghost) :
      Multiset Ghost) + rest = rest := by
  have nothing : (server outside).forks op = none := alone
  simp [Discipline.forkedGhosts, nothing]

section Step

variable {pool : ServerPool} {index : Nat} {job : Job} {trace : Past}
  {choice : Choice} {ghost : Ghost} {rest : Multiset Ghost}

theorem statement_step {statement : Statement}
    (conduct : watched.Conduct reliable crew good)
    (member : crew ghost.role)
    (admitted : good pool (.advance index choice) = true)
    (found : pool.next? index = some (job, trace, .sql statement))
    (linked : watched.Link reliable job trace ghost)
    (allowed : watched.allows ghost (.sql statement))
    (holds : watched.Invariant pool.state (ghost ::ₘ rest)) :
    ∃ after,
      watched.moves reliable ghost (.sql statement)
        (statement.exec pool.state.db).1 after ∧
      watched.Invariant
        { pool.state with db := (statement.exec pool.state.db).2 }
        (after ::ₘ rest) := by
  cases statement with
  | execution statement =>
      refine holds.record allowed ?_
      rintro replays id rfl
      obtain ⟨original, rfl⟩ :=
        watched.replay_of_role (linked.role ▸ replays)
      have unread := conduct.replays (replays ▸ member) pool index choice
        admitted
      simpa [replaysHook, found] using unread
  | lock statement =>
      refine holds.lock allowed ?_ ?_
      · intro id phase entry execution token
        have own := linked.token
        rw [token] at own
        exact own.1
      · rintro rfl id missed
        obtain ⟨decider, expiry⟩ := linked.missed id missed
        have unmissed := conduct.sweeps (decider ▸ member) pool index choice
          admitted
        simpa [missesHolder, found, expiry] using unmissed
  | queue statement => exact holds.queue allowed
  | attempt statement =>
      obtain ⟨executions, locks, queue⟩ :=
        Db.attempt_exec pool.state.db statement
      exact ⟨ghost, rfl, holds.quiet rfl executions locks queue rfl⟩
  | counter statement =>
      obtain ⟨executions, locks, queue⟩ :=
        Db.counter_exec pool.state.db statement
      exact ⟨ghost, rfl, holds.quiet rfl executions locks queue rfl⟩

theorem prepare_step {context : ExecutionContext} (prepared : Bool)
    (allowed : watched.allows ghost (.prepareLogFiles context))
    (logs : reliable → context.hookSlug = watched.slug → prepared = true)
    (holds : watched.Invariant pool.state (ghost ::ₘ rest)) :
    ∃ after,
      watched.moves reliable ghost (.prepareLogFiles context) prepared
        after ∧
      watched.Invariant pool.state (after ::ₘ rest) := by
  rcases allowed with token | ⟨own, role, locked, token⟩
  · refine ⟨ghost, ?_, holds⟩
    simp only [moves, token]
  · cases prepared with
    | true =>
        refine ⟨ghost, ?_, holds⟩
        simp only [moves, token]
    | false =>
        refine ⟨ghost.hold (.claim locked context.executionId .abandoned),
          ?_, holds.abandon token⟩
        simp only [moves, token, and_true]
        intro kept
        cases logs kept own

/-- One operation keeps the ownership invariant, and the discipline has a
move for it. -/
theorem invariant_step (outside : Outside) {op : Op} {answer : op.Answer}
    {state : World}
    (conduct : watched.Conduct reliable crew good)
    (member : crew ghost.role)
    (admitted : good pool (.advance index choice) = true)
    (found : pool.next? index = some (job, trace, op))
    (linked : watched.Link reliable job trace ghost)
    (allowed : watched.allows ghost op)
    (performed : perform op choice pool.state = some (answer, state))
    (holds : watched.Invariant pool.state (ghost ::ₘ rest)) :
    ∃ after, watched.moves reliable ghost op answer after ∧
      watched.Invariant state
        (after ::ₘ (((watched.discipline reliable outside).forkedGhosts op :
          List Ghost) + rest)) := by
  cases op with
  | sql statement =>
      simp only [perform, Option.some.injEq, Prod.mk.injEq] at performed
      obtain ⟨rfl, rfl⟩ := performed
      rw [forkedGhosts_none rfl]
      exact statement_step conduct member admitted found linked allowed holds
  | now =>
      simp only [perform] at performed
      split at performed
      · simp only [Option.some.injEq, Prod.mk.injEq] at performed
        obtain ⟨-, rfl⟩ := performed
        rw [forkedGhosts_none rfl]
        exact ⟨ghost, rfl, holds.quiet rfl rfl rfl rfl rfl⟩
      · cases performed
  | newId =>
      simp only [perform] at performed
      split at performed
      · cases performed
      · rename_i unused
        simp only [Option.some.injEq, Prod.mk.injEq] at performed
        obtain ⟨rfl, rfl⟩ := performed
        rw [forkedGhosts_none rfl]
        exact ⟨_, rfl, holds.newId unused⟩
  | loadConfig =>
      simp only [perform, Option.some.injEq, Prod.mk.injEq] at performed
      obtain ⟨rfl, rfl⟩ := performed
      rw [forkedGhosts_none rfl]
      exact ⟨ghost, ⟨holds.config, rfl⟩, holds⟩
  | storeConfig config => exact allowed.elim
  | prepareLogFiles context =>
      simp only [perform, Option.some.injEq, Prod.mk.injEq] at performed
      obtain ⟨rfl, rfl⟩ := performed
      rw [forkedGhosts_none rfl]
      refine prepare_step _ allowed ?_ holds
      intro kept own
      have created := conduct.logs kept pool index choice admitted
      simpa [failsLogs, found, own] using created
  | spawn child =>
      simp only [perform, Option.some.injEq, Prod.mk.injEq] at performed
      obtain ⟨-, rfl⟩ := performed
      exact ⟨_, rfl, holds.spawn allowed⟩
  | runProcess | sendRequest | sleep | appendRetryMarker
  | sendNotification =>
      simp only [perform, Option.some.injEq, Prod.mk.injEq] at performed
      obtain ⟨-, rfl⟩ := performed
      rw [forkedGhosts_none rfl]
      exact ⟨ghost, rfl, holds⟩

end Step

/-! ## Whole runs -/

/-- A world in which nothing of the hook is under way. -/
structure Idle (watched : Watched) (world : World) : Prop where
  config : world.config = watched.config
  keys : world.db.Keys
  issued : ∀ row ∈ world.db.executions, row.id ∈ world.issued
  queued : ∀ entry ∈ world.db.queue, ∃ row ∈ world.db.executions,
    row.id = entry.executionId ∧ row.hookSlug = entry.hookSlug
  ended : ∀ row ∈ world.db.executions, row.hookSlug = watched.slug →
    row.status.isTerminal = true
  nothingWaits : world.db.waiting watched.slug = []
  unlocked : world.db.holder? watched.slug = none

theorem Idle.owned {world : World} (idle : watched.Idle world)
    (approvals : Approvals) :
    watched.Owned approvals (world.db.rowsOf watched.slug) 0 := by
  have holder : (world.db.rowsOf watched.slug).holder = none :=
    (Db.rowsOf_holder ..).trans idle.unlocked
  have waiting : (world.db.rowsOf watched.slug).waiting = [] :=
    (Db.rowsOf_waiting ..).trans idle.nothingWaits
  have ended : ∀ row ∈ (world.db.rowsOf watched.slug).records,
      row.status.isTerminal = true := by
    intro row member
    obtain ⟨inDb, own⟩ := Db.mem_records.mp member
    exact idle.ended row inDb own
  have parked : (world.db.rowsOf watched.slug).parkedIds = 0 := by
    rw [HookRows.parkedIds, Multiset.map_eq_zero, Multiset.filter_eq_nil]
    intro row member isParked
    have terminal := ended row (Multiset.mem_coe.mp member)
    rw [isParked] at terminal
    cases terminal
  have waitingIds : (world.db.rowsOf watched.slug).waitingIds = 0 := by
    simp [HookRows.waitingIds, waiting]
  refine
    { keys := ?keys
      distinct := by simp [parked, waitingIds]
      locked := fun _ => by simp [parked, holder]
      free := fun _ => ⟨rfl, holder⟩
      tokens := by simp
      settled := by simp
      waiting := by simp [waiting]
      running := ?running
      ungated := fun _ => parked }
  case keys =>
    exact idle.keys.executions.sublist (List.filter_sublist.map _)
  case running =>
    intro _ row member isRunning
    have terminal := ended row member
    rw [isRunning] at terminal
    cases terminal

theorem Idle.invariant {world : World} (idle : watched.Idle world) :
    watched.Invariant world 0 where
  config := idle.config
  keys := idle.keys
  issued := idle.issued
  handedOut := by simp
  queued := by
    intro entry member other
    obtain ⟨row, inDb, sameId, sameSlug⟩ := idle.queued entry member
    exact ⟨row, inDb, sameId, sameSlug ▸ other⟩
  informed := by simp
  owned := idle.owned _

theorem start_foreign {job : Job}
    (foreign : (watched.start job).role = .foreign) :
    (watched.start job).token = .none := by
  cases job with
  | runExecution context retries hook concurrency approval =>
      simp only [start] at foreign ⊢
      split at foreign
      · cases foreign
      · rename_i other
        rw [if_neg other]
  | runDequeued slug execution concurrency approval =>
      simp only [start] at foreign ⊢
      split at foreign
      · cases foreign
      · rename_i other
        rw [if_neg other]
  | trigger | approve | reject | replay | expirePendingApprovals
  | reloadConfig => rfl

/-- Only runs are started by other tasks. -/
theorem start_spawned {ghost : Ghost} {job : Job}
    (conduct : watched.Conduct reliable crew good)
    (allowed : watched.allowsSpawn ghost job) :
    crew (watched.start job).role := by
  cases job with
  | runExecution context retries hook concurrency approval =>
      simp only [start]
      split
      · exact conduct.runners _
      · exact conduct.foreigners
  | runDequeued slug execution concurrency approval =>
      simp only [start]
      split
      · exact conduct.runners _
      · exact conduct.foreigners
  | trigger | approve | reject | replay | expirePendingApprovals
  | reloadConfig => exact allowed.2.elim

theorem preserves (conduct : watched.Conduct reliable crew good) :
    (watched.discipline reliable outside).Preserves
      (fun pool label => good pool label = true) (watched.Holds crew) := by
  intro pool index job trace op next choice answer state ghost rest admitted
    found linked allowed performed holds
  have own := holds.2 ghost (Multiset.mem_cons_self _ _)
  obtain ⟨after, moved, kept⟩ := invariant_step outside conduct
    own.1 admitted (Pool.next?_eq found) linked allowed performed holds.1
  have relinked := link_moves linked allowed moved
  have sameRole : after.role = ghost.role :=
    relinked.role.trans linked.role.symm
  refine ⟨after, moved, kept, ?_⟩
  intro task member
  rcases Multiset.mem_cons.mp member with rfl | others
  · refine ⟨sameRole ▸ own.1, fun foreign => ?_⟩
    have wasForeign : ghost.role = .foreign := sameRole.symm.trans foreign
    exact foreign_moves wasForeign (own.2 wasForeign) allowed moved
  · rcases Multiset.mem_add.mp others with forked | old
    · cases op with
      | spawn child =>
          have isChild : task = watched.start child := by
            simpa [Discipline.forkedGhosts, server, forks, discipline]
              using forked
          subst isChild
          exact ⟨start_spawned conduct allowed, start_foreign⟩
      | sql | now | newId | loadConfig | storeConfig | prepareLogFiles
      | runProcess | sendRequest | sleep | appendRetryMarker
      | sendNotification =>
          simp [Discipline.forkedGhosts, server, forks] at forked
    · exact holds.2 task (Multiset.mem_cons_of_mem old)

/-- A task that has done nothing yet joins. -/
theorem Invariant.join {world : World} {ghosts : Multiset Ghost}
    {role : Role} (holds : watched.Invariant world ghosts) :
    watched.Invariant world ({ role } ::ₘ ghosts) where
  config := holds.config
  keys := holds.keys
  issued := holds.issued
  handedOut := by
    intro id member
    exact holds.handedOut id (by simpa [Ghost.owned, Token.owned] using member)
  queued := holds.queued
  informed := by
    intro ghost member
    rcases Multiset.mem_cons.mp member with rfl | old
    · exact ⟨by simp [Ghost.Unwritten], by simp, by simp⟩
    · exact holds.informed ghost old
  owned := by
    have grown := holds.owned.join role
    refine grown.mono ?_
    intro id user time approved
    obtain ⟨maker, member, made⟩ := approved
    exact ⟨maker, Multiset.mem_cons_of_mem member, made⟩

theorem arrives (conduct : watched.Conduct reliable crew good) :
    (watched.discipline reliable outside).Admits
      (fun pool label => good pool label = true) (watched.Holds crew) := by
  intro pool job ghosts admitted holds
  have joins := conduct.arrivals pool job admitted
  have external := conduct.external pool job admitted
  cases job with
  | trigger | approve | reject | replay | expirePendingApprovals =>
      refine ⟨trivial, holds.1.join, ?_⟩
      intro task member
      rcases Multiset.mem_cons.mp member with rfl | old
      · exact ⟨joins, fun _ => rfl⟩
      · exact holds.2 task old
  | reloadConfig | runExecution | runDequeued => exact external.elim

theorem lawful :
    (watched.discipline reliable outside).Lawful where
  bodies := lawful_bodies
  link_start := fun _ admitted => link_start admitted
  link_moves := fun _ _ _ _ _ _ linked allowed moved =>
    link_moves linked allowed moved
  forks := by
    intro ghost op job allowed forked
    cases op with
    | spawn child =>
        obtain rfl : child = job := by
          simpa [server, forks] using forked
        exact allowed.1
    | sql | now | newId | loadConfig | storeConfig | prepareLogFiles
    | runProcess | sendRequest | sleep | appendRetryMarker
    | sendNotification => cases forked

/-- Every run from an idle world: the tasks have ghosts with which the
invariant holds. -/
theorem reaches_holds (conduct : watched.Conduct reliable crew good)
    {start pool : ServerPool} (empty : start.tasks = [])
    (idle : watched.Idle start.state)
    (reached : (server outside).Reaches
      (fun pool label => good pool label = true) start pool) :
    ∃ ghosts : List Ghost,
      (watched.discipline reliable outside).Covers pool ghosts ∧
        watched.Holds crew pool.state ghosts := by
  exact Discipline.reaches_invariant lawful (arrives conduct)
    (preserves conduct) empty ⟨idle.invariant, by simp⟩ reached

/-! ## Servers that have just started -/

/-- The only hook of a configuration. -/
def only (hook : HookConfig) : Watched where
  config := { hooks := [hook] }
  hook := hook
  member := by simp
  distinct := by simp

/-- The server on an empty database. -/
def started (watched : Watched) : ServerPool :=
  { state := { config := watched.config }, tasks := [] }

theorem idle_started (watched : Watched) :
    watched.Idle watched.started.state where
  config := rfl
  keys := ⟨List.nodup_nil, List.nodup_nil, List.nodup_nil⟩
  issued := by simp [started]
  queued := by simp [started]
  ended := by simp [started]
  nothingWaits := rfl
  unlocked := rfl

end Watched

/-- Steps of one task in which the environment decides nothing. -/
def steps (index count : Nat) : List ServerLabel :=
  List.replicate count (.advance index {})

/-- Steps of one task at a given time. -/
def stepsAt (instant : Instant) (index count : Nat) : List ServerLabel :=
  List.replicate count (.advance index { instant })

/-- A step of one task that is handed an identifier. -/
def stepWithId (index : Nat) (id : String) : List ServerLabel :=
  [.advance index { id }]

end Sendword
