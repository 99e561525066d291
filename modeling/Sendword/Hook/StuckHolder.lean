import Sendword.Hook.Heads
import Sendword.Hook.Owing
import Sendword.Validation

/-!
# Holders of the lock while the configuration changes

Whoever ends an execution passes its lock on, whatever configuration it finds
when it gets there.
-/

namespace Sendword

open Concurrency

/-- The holder of the lock waits for a decision, or some task that has not
ended acts for it. -/
def HeldInHand (slug : String) (pool : ServerPool) : Prop :=
  ∀ id, pool.state.db.holder? slug = some id →
    (∃ row ∈ pool.state.db.executions, row.id = id ∧
      row.hookSlug = slug ∧ row.status = .pendingApproval) ∨
    ∃ task ∈ pool.tasks, task.program.next? ≠ none ∧
      dutyOf slug task.job task.trace = some id

/-- The lock goes to the entry that waits first, or is free and nothing
waits. -/
def PassedOn (slug : String) (db after : Db) : Prop :=
  match after.holder? slug with
  | none => after.waiting slug = []
  | some next => ∃ entry ∈ db.waiting slug, entry.executionId = next ∧
      ∀ other ∈ db.waiting slug, entry.position ≤ other.position

/-- Nothing of the hook is left behind. -/
structure Unstuck (outside : Outside) (slug : String) (pool : ServerPool) :
    Prop where
  held : HeldInHand slug pool
  passed : ∀ (index : Nat) choice task target id,
    pool.tasks[index]? = some task →
    (server outside).step pool (.advance index choice) = some target →
    pool.state.db.holder? slug = some id →
    target.state.db.holder? slug ≠ some id →
    dutyOf slug task.job task.trace = some id ∧
      PassedOn slug pool.state.db target.state.db
  approved : ∀ row ∈ pool.state.db.executions, row.hookSlug = slug →
    row.status = .approved → ∃ task ∈ pool.tasks,
      task.job.approves? = some row.id ∧ task.program.next? ≠ none

namespace Watched

variable {watched : Watched} {outside : Outside}
  {start pool : ServerPool}

theorem heldInHand {ghosts : List Ghost}
    (covers : (watched.openDiscipline False outside).Covers pool ghosts)
    (holds : watched.HoldsOpen pool.state ghosts) :
    HeldInHand watched.slug pool := by
  intro id held
  have owned : watched.Owned _ (pool.state.db.rowsOf watched.slug) ghosts :=
    holds.1.owned
  have held : (pool.state.db.rowsOf watched.slug).holder = some id := by
    rw [Db.rowsOf_holder, held]
  cases exclusive : watched.exclusive with
  | false =>
      have free := (owned.free exclusive).2
      rw [held] at free
      cases free
  | true =>
      have member : id ∈ lockIds ghosts +
          (pool.state.db.rowsOf watched.slug).parkedIds := by
        rw [owned.locked exclusive, held]
        simp
      rcases Multiset.mem_add.mp member with owner | parked
      · right
        obtain ⟨ghost, inGhosts, lock⟩ := Multiset.mem_bind.mp owner
        have lock : ghost.token.lock = some id := by simpa using lock
        obtain ⟨task, inTasks, linked, obeys⟩ :=
          covers.task_of_mem (Multiset.mem_coe.mp inGhosts)
        refine ⟨task, inTasks, fun ended => ?_, ?_⟩
        · cases program : task.program with
          | pure response =>
              rw [program] at obeys
              have free : ghost.token.lock = none := obeys
              rw [lock] at free
              cases free
          | perform op next => simp [program] at ended
        · rw [← dutyOf_standIn]
          exact linked.2.duty id lock
      · left
        obtain ⟨row, inRows, sameId⟩ := Multiset.mem_map.mp parked
        obtain ⟨inRecords, status⟩ := Multiset.mem_filter.mp inRows
        obtain ⟨inDb, own⟩ := Db.mem_records.mp (Multiset.mem_coe.mp inRecords)
        exact ⟨row, inDb, sameId, own, status⟩

/-! ## Who changes the lock -/

section Step

variable {world state : World} {ghost : Ghost} {rest : Multiset Ghost}
  {approvals : Approvals} {job : Job} {trace : Past} {id : String}

theorem passed_lock {statement : LockStatement}
    (trail : Trail watched.slug job trace ghost.token)
    (allowed : watched.allowsLock ghost statement)
    (keys : world.db.Keys)
    (owned : watched.Owned approvals (world.db.rowsOf watched.slug)
      (ghost ::ₘ rest))
    (permitted : (releaseMonitor watched).allows trace
      (.sql (.lock statement)))
    (known : HeadKnown (world.db.rowsOf watched.slug)
      (lastPeek watched.slug trace))
    (unqueued : watched.queues = false →
      (world.db.rowsOf watched.slug).waiting = [])
    (held : (world.db.rowsOf watched.slug).holder = some id)
    (changed : ((statement.exec world.db).2.rowsOf watched.slug).holder ≠
      some id) :
    dutyOf watched.slug job trace = some id ∧
      PassedOn watched.slug world.db (statement.exec world.db).2 := by
  have same {slug : String} (about : statement.slug? = some slug)
      (other : slug ≠ watched.slug) : False :=
    changed (by rw [Db.rowsOf_lock_other about other, held])
  have duty {own : String} (lock : ghost.token.lock = some own) :
      dutyOf watched.slug job trace = some id := by
    have holder := (owned.of_lock own lock).2.1
    obtain rfl : own = id := by simpa [held] using holder.symm
    exact trail.duty own lock
  cases statement with
  | insertOrIgnore slug other acquiredAt =>
      by_cases own : slug = watched.slug
      · subst own
        rw [Db.acquire_held held] at changed
        exact (changed held).elim
      · exact (same rfl own).elim
  | delete slug =>
      by_cases own : slug = watched.slug
      · subst own
        obtain ⟨claimed, phase, claim, done⟩ := allowed rfl
        have lock : ghost.token.lock = some claimed := by simp [claim]
        refine ⟨duty lock, ?_⟩
        have begun := trail.begun (by rw [claim]; exact done)
        have nothing : (world.db.rowsOf watched.slug).waiting = [] := by
          cases queues : watched.queues with
          | true => exact known.empty (permitted rfl queues begun)
          | false => exact unqueued queues
        have free : ((LockStatement.delete watched.slug).exec
            world.db).2.holder? watched.slug = none := by
          rw [← Db.rowsOf_holder, Db.rowsOf_delete]
          rfl
        rw [PassedOn, free]
        exact (Db.rowsOf_waiting ..).symm.trans nothing
      · exact (same rfl own).elim
  | update slug next acquiredAt =>
      by_cases own : slug = watched.slug
      · subst own
        obtain ⟨claimed, phase, entry, taking⟩ := allowed rfl
        have lock : ghost.token.lock = some claimed := by simp [taking]
        refine ⟨duty lock, ?_⟩
        have waits := owned.tokens ghost (Multiset.mem_cons_self _ _)
        rw [taking] at waits
        obtain ⟨queued, inWaiting, sameEntry, sameExecution⟩ := waits.2
        obtain ⟨row, read, rowId, -⟩ :=
          trail.peeked entry next ⟨claimed, phase, taking⟩
        obtain ⟨⟨old, inEntries, oldId, position⟩, least⟩ :=
          known.first row read
        have distinct : ((world.db.rowsOf watched.slug).entries.map
            (·.id)).Nodup :=
          keys.queue.sublist (List.filter_sublist.map _)
        obtain rfl : old = queued :=
          List.inj_on_of_nodup_map distinct inEntries
            (List.mem_filter.mp inWaiting).1
            (oldId.trans (rowId.trans sameEntry.symm))
        have handed : ((LockStatement.update watched.slug next
            acquiredAt).exec world.db).2.holder? watched.slug =
              some next := by
          obtain ⟨locks, rows, head⟩ :=
            Db.rowsOf_handOff world.db watched.slug next acquiredAt
          rw [← Db.rowsOf_holder, rows]
          refine head.trans ?_
          rw [held]
          rfl
        have waiting := Db.rowsOf_waiting world.db watched.slug
        rw [PassedOn, handed]
        refine ⟨old, waiting ▸ inWaiting, sameExecution,
          fun other otherWaits => ?_⟩
        rw [position]
        exact least other (waiting ▸ otherWaits)
      · exact (same rfl own).elim
  | selectHolder slug => exact (changed held).elim
  | deleteTerminal => exact allowed.elim

theorem passed_step {op : Op} {choice : Choice} {answer : op.Answer}
    (trail : Trail watched.slug job trace ghost.token)
    (allowed : ∀ statement, op = .sql (.lock statement) →
      watched.allowsLock ghost statement)
    (keys : world.db.Keys)
    (owned : watched.Owned approvals (world.db.rowsOf watched.slug)
      (ghost ::ₘ rest))
    (permitted : (releaseMonitor watched).allows trace op)
    (known : HeadKnown (world.db.rowsOf watched.slug)
      (lastPeek watched.slug trace))
    (unqueued : watched.queues = false →
      (world.db.rowsOf watched.slug).waiting = [])
    (performed : perform op choice world = some (answer, state))
    (held : world.db.holder? watched.slug = some id)
    (changed : state.db.holder? watched.slug ≠ some id) :
    dutyOf watched.slug job trace = some id ∧
      PassedOn watched.slug world.db state.db := by
  rw [perform_db performed] at changed ⊢
  have unmoved (locks : (op.db world.db).locks = world.db.locks) : False := by
    refine changed ?_
    rw [← held, Db.holder?, Db.holder?, locks]
  cases op with
  | sql statement =>
      by_cases onLock : ∃ inner, statement = .lock inner
      · obtain ⟨inner, rfl⟩ := onLock
        rw [← Db.rowsOf_holder] at held changed
        exact passed_lock trail (allowed inner rfl) keys owned permitted known
          unqueued held changed
      · exact (unmoved (Db.locks_exec fun inner same =>
          onLock ⟨inner, same⟩)).elim
  | now | newId | loadConfig | storeConfig | prepareLogFiles | spawn
  | runProcess | sendRequest | sleep | appendRetryMarker
  | sendNotification => exact (unmoved rfl).elim

end Step

/-- In a steady run the lock row changes by a task that acts for the
holder, and goes to the entry that waits first or is free with nothing
waiting. -/
theorem steady_passed (empty : start.tasks = [])
    (idle : watched.Idle start.state)
    (reached : (server outside).Reaches watched.Steady start pool)
    {index : Nat} {choice : Choice} {task : ServerTask}
    {target : ServerPool} {id : String}
    (found : pool.tasks[index]? = some task)
    (taken : (server outside).step pool (.advance index choice) =
      some target)
    (held : pool.state.db.holder? watched.slug = some id)
    (changed : target.state.db.holder? watched.slug ≠ some id) :
    dutyOf watched.slug task.job task.trace = some id ∧
      PassedOn watched.slug pool.state.db target.state.db := by
  have run : (server outside).Reaches watched.Orderly start pool :=
    reached.mono fun _ _ steady => steady.1
  obtain ⟨ghosts, covers, holds⟩ := reaches_open empty idle run
  have heads := reaches_headsKnown empty idle reached
  obtain ⟨job, trace, op, next, answer, state, stepFound, performed, rfl⟩ :=
    Machine.step_advance taken
  obtain rfl : task = ⟨job, trace, .perform op next⟩ :=
    Option.some.inj (found.symm.trans stepFound)
  have inTasks := List.mem_of_getElem? found
  obtain ⟨ghost, ghostFound, parts, linked, obeys⟩ := covers.pick found
  have owned : watched.Owned _ (pool.state.db.rowsOf watched.slug)
      (ghost ::ₘ _) := parts ▸ holds.1.owned
  have keys : pool.state.db.Keys := holds.1.keys
  have passed := passed_step linked.2 ?_ keys owned
    (steady_releases empty idle run _ inTasks).1
    (heads.known _ inTasks) heads.unqueued performed held changed
  · rwa [dutyOf_standIn] at passed
  · rintro statement rfl
    exact obeys.1

/-- While every task that reads the configuration finds the barriers of the
hook as they are, no pass of the sweep goes on after a decision made before
it, and nothing is queued behind a queue that was read as empty: in every
state nothing of the hook is left behind. -/
theorem unstuck_of_steady (watched : Watched) (empty : start.tasks = [])
    (idle : watched.Idle start.state)
    (reached : (server outside).Reaches watched.Steady start pool) :
    Unstuck outside watched.slug pool := by
  have run : (server outside).Reaches watched.Orderly start pool :=
    reached.mono fun _ _ steady => steady.1
  obtain ⟨ghosts, covers, holds⟩ := reaches_open empty idle run
  exact
    { held := heldInHand covers holds
      passed := fun index choice task target id found taken held changed =>
        steady_passed empty idle reached found taken held changed
      approved := fun row member own approved =>
        approved_unfinished empty idle run member own approved }

end Watched

/-! ## An approval of a hook that is gone -/

/-- The parsers that accept everything. -/
def Checkers.lenient : Checkers where
  regexError _ := none
  parseTime _ := some 0
  cronIsValid _ := true

/-- Triggers, decisions on approvals and passes of the sweep arrive, and
reloads of valid configurations. -/
def reconfigures : ServerLabel → Bool
  | .arrive (.reloadConfig config) => (config.validate .lenient).isOk
  | label => triggersAndDecisions label

instance (watched : Watched) (config : AppConfig) :
    Decidable (watched.KeepsBarriers config) :=
  decidable_of_iff
    ((config.hooks.map (·.slug)).Nodup ∧
      ∃ hook ∈ config.hooks, hook.slug = watched.slug ∧
        hook.concurrency = watched.hook.concurrency ∧
        hook.approval = watched.hook.approval)
    ⟨fun ⟨distinct, hook⟩ => ⟨distinct, hook⟩,
      fun keeps => ⟨keeps.distinct, keeps.hook⟩⟩

/-- The steps that find the barriers of the hook as they are where they read
them, and neither go on after a decision made before them nor queue anything
late. -/
def steadily (watched : Watched) (pool : ServerPool) : ServerLabel → Bool
  | .arrive (.reloadConfig _) => true
  | .arrive job => triggersAndDecisions (.arrive job)
  | .advance index _ =>
      !missesHolder watched.slug pool index &&
        !queuesLate watched.slug pool index &&
        (Watched.loads? pool index).all fun config =>
          decide (watched.KeepsBarriers config)

theorem steady_of_steadily {watched : Watched} {pool : ServerPool}
    {label : ServerLabel} (admitted : steadily watched pool label = true) :
    watched.Steady pool label := by
  cases label with
  | arrive job =>
      refine ⟨?_, fun _ _ same => (by cases same)⟩
      cases job with
      | reloadConfig config => trivial
      | trigger | approve | reject | replay | expirePendingApprovals
      | runExecution | runDequeued => exact admitted
  | advance index choice =>
      simp only [steadily, Bool.and_eq_true, Bool.not_eq_true'] at admitted
      obtain ⟨⟨unmissed, inTime⟩, keeps⟩ := admitted
      refine ⟨⟨unmissed, fun config loads => ?_⟩, fun other _ same => ?_⟩
      · rw [loads] at keeps
        exact of_decide_eq_true keeps
      · cases same
        exact inTime

/-- The hook under another name, beside a new one. -/
def renamedDeploy : AppConfig :=
  { hooks :=
      [{ gatedDeploy with name := "Deploy the site" },
        { name := "build", slug := "build", executor := .shell "make" }] }

/-- An execution is parked with the lock, and then the hook is gone. -/
def parkedGone : List ServerLabel :=
  .arrive (.trigger { slug := "deploy" }) ::
    steps 0 1 ++ stepWithId 0 "first" ++ steps 0 5 ++ stepWithId 0 "fired" ++
      steps 0 3 ++
  .arrive (.reloadConfig { hooks := [] }) :: steps 1 1

/-- The execution is approved and run when the hook is back under another
name. -/
def approvedRenamed : ServerPool :=
  ((server .accepting).run (steadily (.only gatedDeploy))
    (Watched.only gatedDeploy).started
    (parkedGone ++
      .arrive (.reloadConfig renamedDeploy) :: steps 2 1 ++
      .arrive (.approve "first" "admin") :: steps 3 6 ++ steps 4 7)).get
        (by decide)

/-- Where nobody reads other barriers: nothing is left behind, and the lock
is free again. -/
theorem unstuck_of_steady_renamed :
    Unstuck .accepting "deploy" approvedRenamed ∧
      approvedRenamed.state.db.holder? "deploy" = none ∧
      approvedRenamed.state.db.executions.map (·.status) = [.success] := by
  have reached : (server .accepting).Reaches
      (Watched.only gatedDeploy).Steady (Watched.only gatedDeploy).started
      approvedRenamed :=
    (Machine.Reaches.of_run .refl (Option.some_get _).symm).mono
      fun _ _ => steady_of_steadily
  exact ⟨Watched.unstuck_of_steady (.only gatedDeploy) rfl
    (Watched.idle_started _) reached, by decide, by decide⟩

/-- The execution is approved before the hook is back. -/
def approvedGone : ServerPool :=
  ((server .accepting).run (fun _ => reconfigures)
    (Watched.only gatedDeploy).started
    (parkedGone ++
      .arrive (.approve "first" "admin") :: steps 2 4)).get (by decide)

/-- The hook is gone when its execution is approved: every task has ended,
the record stays approved, and the lock stays with it. -/
theorem not_unstuck :
    ¬ ∀ pool, (server .accepting).Reaches
        (fun _ label => reconfigures label = true)
        (Watched.only gatedDeploy).started pool →
      Unstuck .accepting "deploy" pool := by
  intro unstuck
  have left := unstuck approvedGone (.of_run .refl (Option.some_get _).symm)
  have ended : ∀ task ∈ approvedGone.tasks, task.program.next? = none := by
    decide
  rcases left.held "first" (by decide) with parked | ⟨task, member, going, -⟩
  · revert parked
    decide
  · exact going (ended task member)

end Sendword
