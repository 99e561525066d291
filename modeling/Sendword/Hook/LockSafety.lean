import Sendword.Hook.Protocol

/-!
# Lock safety across approval decisions

Triggers, approvals, rejections, passes of the expiry sweep, runs and
completions compete for the lock of one hook.
-/

namespace Sendword

open Concurrency

/-- Triggers, decisions on approvals and passes of the sweep arrive. -/
def triggersAndDecisions : ServerLabel → Bool
  | .arrive job =>
      match job with
      | .trigger _ | .approve .. | .reject .. | .expirePendingApprovals =>
          true
      | _ => false
  | .advance .. => true

/-- The lock row of the hook only changes by a task that has ended its
holder. -/
def ReleasedByEnder (outside : Outside) (slug : String) (pool : ServerPool) :
    Prop :=
  ∀ (index : Nat) choice task target id,
    pool.tasks[index]? = some task →
    (server outside).step pool (.advance index choice) = some target →
    pool.state.db.holder? slug = some id →
    target.state.db.holder? slug ≠ some id →
    EndedBy slug id task.job task.trace ∧
      ∃ row ∈ pool.state.db.executions, row.id = id ∧
        row.status.isTerminal = true

/-- No two executions of the hook run at once. -/
def OneRuns (slug : String) (db : Db) : Prop :=
  ∀ first ∈ db.executions, ∀ second ∈ db.executions,
    first.hookSlug = slug → second.hookSlug = slug →
    first.status = .running → second.status = .running → first = second

instance (slug : String) (db : Db) : Decidable (OneRuns slug db) :=
  inferInstanceAs (Decidable (∀ first ∈ db.executions,
    ∀ second ∈ db.executions, first.hookSlug = slug →
      second.hookSlug = slug → first.status = .running →
      second.status = .running → first = second))

/-- No pass of the sweep goes on to the lock of an execution that was decided
before it, and the log files of the hook's runs can be created. -/
def undisturbed (slug : String) (pool : ServerPool) :
    ServerLabel → Bool
  | .arrive job => triggersAndDecisions (.arrive job)
  | .advance index choice =>
      !missesHolder slug pool index && !failsLogs slug pool index choice

namespace Watched

variable {watched : Watched} {outside : Outside} {start pool : ServerPool}

theorem undisturbed_conduct :
    watched.Conduct True (· ≠ .replay) (undisturbed watched.slug) where
  external := by
    intro pool job admitted
    cases job <;> trivial
  arrivals := by
    intro pool job admitted
    cases job with
    | trigger request =>
        simp only [Watched.start]
        split <;> simp
    | approve | reject | expirePendingApprovals => simp [Watched.start]
    | replay | reloadConfig | runExecution | runDequeued => cases admitted
  runners := by simp
  foreigners := by simp
  sweeps := by
    intro _ pool index choice admitted
    simp only [undisturbed, Bool.and_eq_true, Bool.not_eq_true'] at admitted
    exact admitted.1
  replays := fun excluded => (excluded rfl).elim
  logs := by
    intro _ pool index choice admitted
    simp only [undisturbed, Bool.and_eq_true, Bool.not_eq_true'] at admitted
    exact admitted.2

theorem PhaseHolds.terminal {approvals : Approvals} {phase : Phase}
    {row : Execution} (holds : watched.PhaseHolds approvals phase row)
    (done : phase.done = true) (kept : phase ≠ .abandoned) :
    row.status.isTerminal = true := by
  cases phase with
  | queued | taken | approved | ready | running => cases done
  | finished => rcases holds.1 with same | same | same <;> rw [same] <;> rfl
  | abandoned => exact (kept rfl).elim
  | ended => rcases holds with same | same <;> rw [same] <;> rfl

section Step

variable {world state : World} {ghost : Ghost} {rest : Multiset Ghost}
  {job : Job} {trace : Past} {id : String}

/-- Only a task that has ended the holder deletes or changes the lock
row. -/
theorem ended_of_lock {statement : LockStatement}
    (linked : watched.Link True job trace ghost)
    (allowed : watched.allowsLock ghost statement)
    (holds : watched.Invariant world (ghost ::ₘ rest))
    (held : (world.db.rowsOf watched.slug).holder = some id)
    (changed : ((statement.exec world.db).2.rowsOf watched.slug).holder ≠
      some id) :
    EndedBy watched.slug id job trace ∧
      ∃ row ∈ world.db.executions, row.id = id ∧
        row.status.isTerminal = true := by
  have same {slug : String} (about : statement.slug? = some slug)
      (other : slug ≠ watched.slug) : False :=
    changed (by rw [Db.rowsOf_lock_other about other, held])
  have ended {own : String} {phase : Phase}
      (lock : ghost.token.lock = some own)
      (has : (world.db.rowsOf watched.slug).Has own
        (watched.PhaseHolds (approvalsOf (ghost ::ₘ rest)) phase))
      (done : phase.done = true) (kept : phase ≠ .abandoned)
      (by_task : EndedBy watched.slug own job trace) :
      EndedBy watched.slug id job trace ∧
        ∃ row ∈ world.db.executions, row.id = id ∧
          row.status.isTerminal = true := by
    have holder := (holds.owned.of_lock own lock).2.1
    obtain rfl : own = id := by simpa [held] using holder.symm
    obtain ⟨row, member, sameId, described⟩ := has
    exact ⟨by_task, row, (Db.mem_records.mp member).1, sameId,
      described.terminal done kept⟩
  have token := linked.token
  cases statement with
  | insertOrIgnore slug other acquiredAt =>
      by_cases own : slug = watched.slug
      · subst own
        rw [Db.acquire_held held] at changed
        exact (changed held).elim
      · exact (same rfl own).elim
  | delete slug =>
      by_cases own : slug = watched.slug
      · obtain ⟨claimed, phase, claim, done⟩ := allowed own
        rw [claim] at token
        have kept := token.2.2 trivial
        exact ended (by simp [claim]) (holds.owned.claimed claim).1 done
          kept (token.2.1 done kept)
      · exact (same rfl own).elim
  | update slug other acquiredAt =>
      by_cases own : slug = watched.slug
      · obtain ⟨claimed, phase, entry, taking⟩ := allowed own
        have has := holds.owned.tokens ghost (Multiset.mem_cons_self _ _)
        rw [taking] at token has
        have kept := token.2.2 trivial
        exact ended (by simp [taking]) has.1 token.1 kept (token.2.1 kept)
      · exact (same rfl own).elim
  | selectHolder slug => exact (changed held).elim
  | deleteTerminal => exact allowed.elim

theorem ended_of_step {op : Op} {choice : Choice} {answer : op.Answer}
    (linked : watched.Link True job trace ghost)
    (allowed : watched.allows ghost op)
    (performed : perform op choice world = some (answer, state))
    (holds : watched.Invariant world (ghost ::ₘ rest))
    (held : world.db.holder? watched.slug = some id)
    (changed : state.db.holder? watched.slug ≠ some id) :
    EndedBy watched.slug id job trace ∧
      ∃ row ∈ world.db.executions, row.id = id ∧
        row.status.isTerminal = true := by
  cases op with
  | sql statement =>
      simp only [perform, Option.some.injEq, Prod.mk.injEq] at performed
      obtain ⟨-, rfl⟩ := performed
      by_cases onLock : ∃ lock, statement = .lock lock
      · obtain ⟨lock, rfl⟩ := onLock
        rw [← Db.rowsOf_holder] at held changed
        exact ended_of_lock linked allowed holds held changed
      · have locks : (statement.exec world.db).2.locks = world.db.locks :=
          Db.locks_exec fun lock same => onLock ⟨lock, same⟩
        refine (changed ?_).elim
        rw [← held, Db.holder?, Db.holder?, locks]
  | now | newId =>
      simp only [perform] at performed
      split at performed
      · cases performed <;> exact (changed held).elim
      · cases performed <;> exact (changed held).elim
  | loadConfig | storeConfig | prepareLogFiles | spawn | runProcess
  | sendRequest | sleep | appendRetryMarker | sendNotification =>
      simp only [perform, Option.some.injEq, Prod.mk.injEq] at performed
      obtain ⟨-, rfl⟩ := performed
      exact (changed held).elim

end Step

/-- Where the sweep does not go on after a decision made before it, and log
files can be created: in every state the lock row only changes by the task
that ended its holder, and no two executions of the hook run at once. -/
theorem lock_safety (watched : Watched)
    (exclusive : watched.exclusive = true) (empty : start.tasks = [])
    (idle : watched.Idle start.state)
    (reached : (server outside).Reaches
      (fun pool label => undisturbed watched.slug pool label = true)
      start pool) :
    ReleasedByEnder outside watched.slug pool ∧
      OneRuns watched.slug pool.state.db := by
  obtain ⟨ghosts, covers, holds⟩ :=
    reaches_holds undisturbed_conduct empty idle reached
  constructor
  · intro index choice task target id found taken held changed
    obtain ⟨job, trace, op, next, answer, state, stepFound, performed, rfl⟩ :=
      Machine.step_advance taken
    obtain rfl : task = ⟨job, trace, .perform op next⟩ :=
      Option.some.inj (found.symm.trans stepFound)
    obtain ⟨ghost, ghostFound, parts, linked, obeys⟩ := covers.pick found
    exact ended_of_step linked obeys.1 performed (parts ▸ holds.1) held
      changed
  · intro first firstIn second secondIn firstOwn secondOwn firstRuns
      secondRuns
    have firstHolds := holds.1.owned.running exclusive first
      (Db.mem_records.mpr ⟨firstIn, firstOwn⟩) firstRuns
    have secondHolds := holds.1.owned.running exclusive second
      (Db.mem_records.mpr ⟨secondIn, secondOwn⟩) secondRuns
    have sameId : first.id = second.id :=
      Option.some.inj (firstHolds.symm.trans secondHolds)
    exact holds.1.keys.execution_unique firstIn secondIn sameId

end Watched

/-! ## The sweep and an approval -/

def gatedDeploy : HookConfig :=
  { name := "deploy"
    slug := "deploy"
    executor := .shell "true"
    concurrency := some { mode := .mutex }
    approval := some
      { required := true, timeout := some (Duration.fromSecs 1) } }

/-- A time at which the approval of a record from the start is overdue. -/
def overdue : Instant := 2000000000

/-- The sweep expires one execution and releases its lock; a second one is
triggered, approved and run. -/
def expiredSchedule : List ServerLabel :=
  .arrive (.trigger { slug := "deploy" }) ::
    steps 0 1 ++ stepWithId 0 "first" ++ steps 0 5 ++ stepWithId 0 "fired" ++
      steps 0 3 ++
  .arrive .expirePendingApprovals :: steps 1 1 ++ stepsAt overdue 1 7 ++
  .arrive (.trigger { slug := "deploy" }) ::
    stepsAt overdue 2 1 ++ stepWithId 2 "second" ++ stepsAt overdue 2 5 ++
      stepWithId 2 "fired again" ++ stepsAt overdue 2 3 ++
  .arrive (.approve "second" "admin") ::
    stepsAt overdue 3 6 ++ stepsAt overdue 4 6

def expiredFirst : ServerPool :=
  ((server .accepting).run (undisturbed "deploy")
    (Watched.only gatedDeploy).started expiredSchedule).get (by decide)

theorem lock_safety_expired :
    (ReleasedByEnder .accepting "deploy" expiredFirst ∧
      OneRuns "deploy" expiredFirst.state.db) ∧
    expiredFirst.state.db.executions.map (·.status) =
      [.expired, .success] := by
  have reached : (server .accepting).Reaches
      (fun pool label => undisturbed "deploy" pool label = true)
      (Watched.only gatedDeploy).started expiredFirst :=
    .of_run .refl (Option.some_get _).symm
  exact ⟨Watched.lock_safety (.only gatedDeploy) rfl rfl
    (Watched.idle_started _) reached, by decide⟩

/-- The sweep selects the execution, an approval starts it, and the sweep
goes on: its expiry changes no row, and it finds the execution as the
holder. -/
def sweptSchedule : List ServerLabel :=
  .arrive (.trigger { slug := "deploy" }) ::
    steps 0 1 ++ stepWithId 0 "first" ++ steps 0 5 ++ stepWithId 0 "fired" ++
      steps 0 3 ++
  .arrive .expirePendingApprovals ::
    steps 1 1 ++ stepsAt overdue 1 2 ++
  .arrive (.approve "first" "admin") ::
    stepsAt overdue 2 6 ++ stepsAt overdue 3 3 ++ stepsAt overdue 1 4

/-- It releases the lock, and a second trigger gets it. -/
def overtakenSchedule : List ServerLabel :=
  sweptSchedule ++ stepsAt overdue 1 1 ++
  .arrive (.trigger { slug := "deploy" }) ::
    stepsAt overdue 4 1 ++ stepWithId 4 "second" ++ stepsAt overdue 4 5 ++
      stepWithId 4 "fired again" ++ stepsAt overdue 4 3 ++
  .arrive (.approve "second" "admin") ::
    stepsAt overdue 5 6 ++ stepsAt overdue 6 3

def swept : ServerPool :=
  ((server .accepting).run (fun _ => triggersAndDecisions)
    (Watched.only gatedDeploy).started sweptSchedule).get (by decide)

def overtaken : ServerPool :=
  ((server .accepting).run (fun _ => triggersAndDecisions)
    (Watched.only gatedDeploy).started overtakenSchedule).get (by decide)

/-- The sweep releases the lock of a running execution, and then two run at
once. -/
theorem lock_safety_overtaken :
    (¬ ∀ pool, (server .accepting).Reaches
        (fun _ label => triggersAndDecisions label = true)
        (Watched.only gatedDeploy).started pool →
      ReleasedByEnder .accepting "deploy" pool) ∧
    ¬ ∀ pool, (server .accepting).Reaches
        (fun _ label => triggersAndDecisions label = true)
        (Watched.only gatedDeploy).started pool →
      OneRuns "deploy" pool.state.db := by
  constructor
  · intro safe
    have released := safe swept (.of_run .refl (Option.some_get _).symm)
    have inside : 1 < swept.tasks.length := by decide
    have ended := released 1 { instant := overdue } swept.tasks[1]
      (((server .accepting).step swept
        (.advance 1 { instant := overdue })).get (by decide))
      "first" (List.getElem?_eq_getElem inside) (Option.some_get _).symm
      (by decide) (by decide)
    exact absurd ended.2 (by decide)
  · intro safe
    have alone := safe overtaken (.of_run .refl (Option.some_get _).symm)
    exact absurd alone (by decide)

end Sendword
