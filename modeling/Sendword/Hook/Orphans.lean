import Sendword.Hook.Recovery
import Sendword.Hook.SingleToken

/-!
# Hooks after a crash

The recovery gives the lock of a running or ended execution back.  A lock
whose execution was not recorded yet, or was about to start, stays: no task is
left that acts for it, and no task will be.
-/

namespace Sendword

open Concurrency

/-- The lock is held for an execution that is not recorded, or that is neither
running nor open for a decision nor ended. -/
structure Orphaned (slug : String) (db : Db) (id : String) : Prop where
  held : db.holder? slug = some id
  dormant : ∀ row ∈ db.executions, row.id = id →
    row.status = .pending ∨ row.status = .approved

instance (slug : String) (db : Db) (id : String) :
    Decidable (Orphaned slug db id) :=
  decidable_of_iff
    (db.holder? slug = some id ∧ ∀ row ∈ db.executions, row.id = id →
      row.status = .pending ∨ row.status = .approved)
    ⟨fun ⟨held, dormant⟩ => ⟨held, dormant⟩,
      fun orphaned => ⟨orphaned.held, orphaned.dormant⟩⟩

/-! ## What is left of a token -/

def Phase.dormant : Phase → Bool
  | .queued | .taken | .approved | .ready | .abandoned => true
  | .running | .finished | .ended => false

/-- The record of the token, where it has one, is pending or approved. -/
def Token.dormant : Token → Bool
  | .claim _ _ phase | .taking _ phase .. => phase.dormant
  | .none | .unborn _ | .succeeding .. => true

/-- What the recovery leaves of a token. -/
def Token.left (token : Token) : Token := token.interrupted.released

theorem Token.left_eq (token : Token) :
    token.left = if token.dormant then token else .none := by
  cases token with
  | none | unborn | succeeding => rfl
  | claim locked id phase => cases phase <;> rfl
  | taking id phase entry execution => cases phase <;> rfl

def Ghost.left (ghost : Ghost) : Ghost := ghost.interrupted.released

@[simp] theorem Ghost.left_token (ghost : Ghost) :
    ghost.left.token = ghost.token.left := rfl

theorem Ghost.left_dormant (ghost : Ghost) :
    ghost.left.token.dormant = true := by
  rw [left_token, Token.left_eq]
  split
  · assumption
  · rfl

namespace Watched

variable {watched : Watched} {world : World} {ghost : Ghost}
  {rest : Multiset Ghost} {id : String}

theorem PhaseHolds.dormant {approvals : Approvals} {phase : Phase}
    {row : Execution} (holds : watched.PhaseHolds approvals phase row) :
    (row.status = .pending ∨ row.status = .approved) ↔
      phase.dormant = true := by
  cases phase with
  | queued | taken | approved | ready | abandoned | running =>
      simp [holds.1, Phase.dormant]
  | finished =>
      rcases holds.1 with same | same | same <;> simp [same, Phase.dormant]
  | ended => rcases holds with same | same <;> simp [same, Phase.dormant]

/-- The records of an identifier are one record. -/
theorem record_iff {described : Execution → Prop} {property : Execution → Prop}
    {answer : Bool} (keys : world.db.Keys)
    (has : (world.db.rowsOf watched.slug).Has id described)
    (decides : ∀ row, described row → (property row ↔ answer = true)) :
    (∀ row ∈ world.db.executions, row.id = id → property row) ↔
      answer = true := by
  obtain ⟨row, inRecords, rfl, holds⟩ := has
  have member := (Db.mem_records.mp inRecords).1
  constructor
  · intro all
    exact (decides row holds).mp (all row member rfl)
  · intro isTrue other otherMember sameId
    rw [keys.execution_unique otherMember member sameId]
    exact (decides row holds).mpr isTrue

/-- The owner of the lock is at a point where a crash orphans the lock, or at
one where the recovery gives it back. -/
theorem orphaned_iff (holds : watched.Invariant world (ghost ::ₘ rest))
    (lock : ghost.token.lock = some id) :
    Orphaned watched.slug world.db id ↔ ghost.token.dormant = true := by
  have held : world.db.holder? watched.slug = some id := by
    rw [← Db.rowsOf_holder]
    exact (holds.owned.of_lock id lock).2.1
  have record : (∀ row ∈ world.db.executions, row.id = id →
      row.status = .pending ∨ row.status = .approved) ↔
        ghost.token.dormant = true := by
    have token := holds.owned.tokens ghost (Multiset.mem_cons_self _ _)
    have informed := holds.informed ghost (Multiset.mem_cons_self _ _)
    cases isToken : ghost.token with
    | none => simp [isToken] at lock
    | unborn own =>
        obtain rfl : own = id := by simpa [isToken] using lock
        have absent := informed.unwritten own (.inr isToken)
        refine ⟨fun _ => rfl, fun _ row member sameId => ?_⟩
        exact (absent row member sameId).elim
    | claim locked own phase =>
        rw [isToken] at token lock
        obtain rfl : own = id := by
          cases locked <;> simp at lock
          exact lock
        exact record_iff holds.keys token.1 fun row described =>
          described.dormant
    | taking own phase entry execution =>
        rw [isToken] at token lock
        obtain rfl : own = id := by simpa using lock
        exact record_iff holds.keys token.1 fun row described =>
          described.dormant
    | succeeding entry execution =>
        rw [isToken] at token lock
        obtain rfl : execution = id := by simpa using lock
        obtain ⟨queued, waits, -, rfl⟩ := token
        exact record_iff holds.keys (holds.owned.waiting queued waits)
          fun row described => by simp [described.1, Token.dormant]
  exact ⟨fun orphaned => record.mp orphaned.dormant, fun dormant =>
    ⟨held, record.mpr dormant⟩⟩

end Watched

/-! ## Restarts -/

/-- The server starts again: it loads a configuration, whatever it is, and
cleans up. -/
def Restarts (stopped fresh : World) : Prop :=
  ∃ trace, RunsAlone recoverBarriers
    { stopped with config := fresh.config } trace () fresh

namespace Watched

variable {watched : Watched} {outside : Outside} {world after : World}
  {ghosts : Multiset Ghost} {trace : Past}

theorem runs_nowUtc {time : Timestamp}
    (runs : RunsAlone nowUtc world trace time after) :
    ∃ clock, after = { world with clock } := by
  obtain ⟨first, instant, middle, second, rfl, ticks, ended⟩ :=
    runs_bind_eq.mp runs
  obtain ⟨rfl, rfl, rfl⟩ := runs_return.mp ended
  obtain ⟨-, choice, performed⟩ := runs_op.mp ticks
  simp only [perform] at performed
  split at performed
  · cases performed
    exact ⟨_, rfl⟩
  · cases performed

/-- The recovery keeps the invariant, with what it leaves of the tokens. -/
theorem Invariant.recovered
    (runs : RunsAlone recoverBarriers world trace () after)
    (holds : watched.Invariant (watched.configured world) ghosts) :
    watched.Invariant (watched.configured after)
      (ghosts.map Ghost.left) := by
  obtain ⟨_, time, ticked, _, -, clock, fails⟩ := runs_bind_eq.mp runs
  obtain ⟨_, rows, failed, _, -, updates, unlocks⟩ := runs_bind_eq.mp fails
  obtain ⟨_, locks, unlocked, _, -, deletes, expires⟩ :=
    runs_bind_eq.mp unlocks
  obtain ⟨_, entries, expired, _, -, drops, ends⟩ :=
    runs_bind_eq.mp expires
  obtain ⟨instant, rfl⟩ := runs_nowUtc clock
  obtain ⟨-, -, rfl⟩ := runs_sql.mp updates
  obtain ⟨-, -, rfl⟩ := runs_sql.mp deletes
  obtain ⟨-, -, rfl⟩ := runs_sql.mp drops
  obtain ⟨-, -, rfl⟩ := runs_return.mp ends
  have ticked : watched.Invariant
      { watched.configured world with clock := instant } ghosts :=
    holds.quiet rfl rfl rfl rfl rfl
  have recovered :=
    ((ticked.failRunning time).deleteTerminal).expireStale
  rw [Multiset.map_map] at recovered
  exact recovered

theorem HoldsOpen.restarted {stopped fresh : World}
    (restarts : Restarts stopped fresh)
    (holds : watched.HoldsOpen stopped ghosts) :
    watched.HoldsOpen fresh (ghosts.map Ghost.left) := by
  obtain ⟨invariant, crew⟩ := holds
  obtain ⟨trace, runs⟩ := restarts
  refine ⟨Invariant.recovered runs invariant, ?_⟩
  intro left member
  obtain ⟨ghost, old, rfl⟩ := Multiset.mem_map.mp member
  refine ⟨(crew ghost old).1, fun foreign => ?_⟩
  rw [Ghost.left_token, (crew ghost old).2 foreign]
  rfl

/-- The pools of all lifetimes of the server. -/
abbrev Lives (watched : Watched) (outside : Outside)
    (start pool : ServerPool) : Prop :=
  (server outside).Lifetimes watched.Orderly Restarts start pool

variable {start pool : ServerPool}

theorem lives_open (empty : start.tasks = [])
    (idle : watched.Idle start.state)
    (lives : watched.Lives outside start pool) :
    ∃ (ghosts : List Ghost) (gone : Multiset Ghost),
      (watched.openDiscipline False outside).Covers pool ghosts ∧
        watched.HoldsOpen pool.state (ghosts + gone) := by
  have strong : (server outside).Lifetimes (watched.OrderlyStep outside)
      Restarts start pool :=
    lives.strengthen empty fun _ _ _ empty before admitted =>
      ⟨admitted, before.follows empty⟩
  exact Discipline.lifetimes_invariant openDiscipline_lawful open_admits
    open_preserves (fun _ _ ghosts restarts holds =>
      ⟨ghosts.map Ghost.left, HoldsOpen.restarted restarts holds⟩)
    empty idle.holdsOpen strong

/-- One lifetime, beside what the earlier ones left. -/
theorem reaches_left {fresh : World} {gone : Multiset Ghost}
    (holds : watched.HoldsOpen fresh gone)
    (reached : (server outside).Reaches watched.Orderly
      { state := fresh, tasks := [] } pool) :
    ∃ ghosts : List Ghost,
      (watched.openDiscipline False outside).Covers pool ghosts ∧
        watched.HoldsOpen pool.state (ghosts + gone) := by
  have strong : (server outside).Reaches (watched.OrderlyStep outside)
      { state := fresh, tasks := [] } pool :=
    reached.strengthen fun _ _ before admitted =>
      ⟨admitted, before.follows rfl⟩
  exact Discipline.reaches_beside openDiscipline_lawful open_admits
    open_preserves rfl holds strong

/-! ## Holders after a restart -/

theorem HoldsOpen.orphaned_iff {world : World} {ghost : Ghost}
    {ghosts : Multiset Ghost} {id : String}
    (holds : watched.HoldsOpen world ghosts) (member : ghost ∈ ghosts)
    (lock : ghost.token.lock = some id) :
    Orphaned watched.slug world.db id ↔ ghost.token.dormant = true := by
  obtain ⟨rest, rfl⟩ := Multiset.exists_cons_of_mem member
  have same := Watched.orphaned_iff holds.1 lock
  exact same

/-- The lock is held for the owner of a token, or for an open decision. -/
theorem HoldsOpen.holder_cases {world : World} {ghosts : Multiset Ghost}
    {id : String} (holds : watched.HoldsOpen world ghosts)
    (held : world.db.holder? watched.slug = some id) :
    watched.exclusive = true ∧
      ((∃ ghost ∈ ghosts, ghost.token.lock = some id) ∨
        ∃ row ∈ world.db.executions, row.id = id ∧
          row.hookSlug = watched.slug ∧ row.status = .pendingApproval) := by
  have owned : watched.Owned _ (world.db.rowsOf watched.slug) ghosts :=
    holds.1.owned
  have holder : (world.db.rowsOf watched.slug).holder = some id := by
    rw [Db.rowsOf_holder, held]
  cases exclusive : watched.exclusive with
  | false =>
      have free := (owned.free exclusive).2
      rw [holder] at free
      cases free
  | true =>
      refine ⟨rfl, ?_⟩
      have member : id ∈ lockIds ghosts +
          (world.db.rowsOf watched.slug).parkedIds := by
        rw [owned.locked exclusive, holder]
        simp
      rcases Multiset.mem_add.mp member with owner | parked
      · obtain ⟨ghost, inGhosts, lock⟩ := Multiset.mem_bind.mp owner
        exact .inl ⟨ghost, inGhosts, by simpa using lock⟩
      · right
        obtain ⟨row, inRows, sameId⟩ := Multiset.mem_map.mp parked
        obtain ⟨inRecords, status⟩ := Multiset.mem_filter.mp inRows
        obtain ⟨inDb, own⟩ := Db.mem_records.mp (Multiset.mem_coe.mp inRecords)
        exact ⟨row, inDb, sameId, own, status⟩

/-- A task that owns the lock has not ended, and acts for the holder. -/
theorem inHand_of_owner {covered : List Ghost} {ghost : Ghost} {id : String}
    (covers : (watched.openDiscipline False outside).Covers pool covered)
    (member : ghost ∈ covered) (lock : ghost.token.lock = some id) :
    ∃ task ∈ pool.tasks, task.program.next? ≠ none ∧
      dutyOf watched.slug task.job task.trace = some id := by
  obtain ⟨task, inTasks, linked, obeys⟩ := covers.task_of_mem member
  refine ⟨task, inTasks, fun ended => ?_, ?_⟩
  · cases program : task.program with
    | pure response =>
        rw [program] at obeys
        have free : ghost.token.lock = none := obeys
        rw [lock] at free
        cases free
    | perform op next => simp [program] at ended
  · rw [← dutyOf_standIn]
    exact linked.2.duty id lock

theorem oneRuns_of_holds {world : World} {ghosts : Multiset Ghost}
    (holds : watched.HoldsOpen world ghosts)
    (exclusive : watched.exclusive = true) :
    OneRuns watched.slug world.db := by
  have owned : watched.Owned _ (world.db.rowsOf watched.slug) ghosts :=
    holds.1.owned
  intro first firstIn second secondIn firstOwn secondOwn firstRuns secondRuns
  have firstHolds := owned.running exclusive first
    (Db.mem_records.mpr ⟨firstIn, firstOwn⟩) firstRuns
  have secondHolds := owned.running exclusive second
    (Db.mem_records.mpr ⟨secondIn, secondOwn⟩) secondRuns
  have sameId : first.id = second.id :=
    Option.some.inj (firstHolds.symm.trans secondHolds)
  exact holds.1.keys.execution_unique firstIn secondIn sameId

/-- A hook whose lock is orphaned runs nothing. -/
theorem nothing_runs {world : World} {ghosts : Multiset Ghost} {id : String}
    (holds : watched.HoldsOpen world ghosts)
    (orphaned : Orphaned watched.slug world.db id) {row : Execution}
    (member : row ∈ world.db.executions)
    (own : row.hookSlug = watched.slug) : row.status ≠ .running := by
  intro running
  have exclusive := (holds.holder_cases orphaned.held).1
  have owned : watched.Owned _ (world.db.rowsOf watched.slug) ghosts :=
    holds.1.owned
  have holder := owned.running exclusive row
    (Db.mem_records.mpr ⟨member, own⟩) running
  rw [Db.rowsOf_holder, orphaned.held] at holder
  rcases orphaned.dormant row member (Option.some.inj holder.symm) with
    same | same <;> simp [running] at same

end Watched

/-- The lock stays with an execution that is never run, and nothing of the
hook runs. -/
structure Blocked (slug id : String) (db : Db) : Prop where
  orphaned : Orphaned slug db id
  idle : ∀ row ∈ db.executions, row.hookSlug = slug → row.status ≠ .running

instance (slug id : String) (db : Db) : Decidable (Blocked slug id db) :=
  decidable_of_iff
    (Orphaned slug db id ∧ ∀ row ∈ db.executions, row.hookSlug = slug →
      row.status ≠ .running)
    ⟨fun ⟨orphaned, idle⟩ => ⟨orphaned, idle⟩,
      fun blocked => ⟨blocked.orphaned, blocked.idle⟩⟩

namespace Watched

variable {watched : Watched} {outside : Outside}
  {start stopped pool : ServerPool} {fresh : World}

/-- Crashes, however many, and what becomes of a hook after the last of them:
if its lock was orphaned there, the hook is blocked in every later state, and
else every later holder of its lock is in somebody's hand.  In no state two
executions of the hook run at once. -/
theorem recovery (watched : Watched) (empty : start.tasks = [])
    (idle : watched.Idle start.state)
    (lives : watched.Lives outside start stopped)
    (restarts : Restarts stopped.state fresh)
    (reached : (server outside).Reaches watched.Orderly
      { state := fresh, tasks := [] } pool) :
    (watched.exclusive = true → OneRuns watched.slug pool.state.db) ∧
      ((∀ id, ¬ Orphaned watched.slug stopped.state.db id) →
        HeldInHand watched.slug pool) ∧
      ∀ id, Orphaned watched.slug stopped.state.db id →
        Blocked watched.slug id pool.state.db := by
  obtain ⟨ghosts, gone, -, before⟩ := lives_open empty idle lives
  obtain ⟨later, covers, holds⟩ := reaches_left (before.restarted restarts)
    reached
  refine ⟨oneRuns_of_holds holds, ?_, ?_⟩
  · intro unorphaned id held
    rcases (holds.holder_cases held).2 with ⟨owner, member, lock⟩ | parked
    · rcases Multiset.mem_add.mp member with alive | left
      · exact .inr
          (inHand_of_owner covers (Multiset.mem_coe.mp alive) lock)
      · obtain ⟨ghost, old, rfl⟩ := Multiset.mem_map.mp left
        rw [Ghost.left_token, Token.left_eq] at lock
        split at lock
        · rename_i dormant
          exact (unorphaned id
            ((before.orphaned_iff old lock).mpr dormant)).elim
        · cases lock
    · exact .inl parked
  · intro id orphaned
    have still : Orphaned watched.slug pool.state.db id := by
      rcases (before.holder_cases orphaned.held).2 with
        ⟨ghost, member, lock⟩ | ⟨row, inDb, sameId, -, parked⟩
      · have dormant := (before.orphaned_iff member lock).mp orphaned
        have left : ghost.left ∈
            (later : Multiset Ghost) + (ghosts + gone).map Ghost.left :=
          Multiset.mem_add.mpr
            (.inr (Multiset.mem_map_of_mem Ghost.left member))
        refine (holds.orphaned_iff left ?_).mpr ghost.left_dormant
        rw [Ghost.left_token, Token.left_eq, if_pos dormant, lock]
      · rcases orphaned.dormant row inDb sameId with same | same <;>
          simp [parked] at same
    exact ⟨still, fun row member own => nothing_runs holds still member own⟩

end Watched

/-! ## A crash between the lock and the record -/

/-- The server stops when a trigger has acquired the lock and not recorded its
execution. -/
def stoppedAcquired : ServerPool :=
  ((server .accepting).run (steadily (.only queuedDeploy))
    (Watched.only queuedDeploy).started
    (.arrive (.trigger { slug := "deploy" }) ::
      steps 0 1 ++ stepWithId 0 "first" ++ steps 0 2)).get (by decide)

def recoveredAcquired : Past × Unit × World :=
  (play perform recoverBarriers (List.replicate 4 {})
    stoppedAcquired.state).get (by decide)

def freshAcquired : World := recoveredAcquired.2.2

/-- The next trigger is queued behind the lock. -/
def blockedAcquired : ServerPool :=
  ((server .accepting).run (steadily (.only queuedDeploy))
    { state := freshAcquired, tasks := [] }
    (.arrive (.trigger { slug := "deploy" }) ::
      steps 0 1 ++ stepWithId 0 "second" ++ steps 0 6 ++
        stepWithId 0 "entry" ++ steps 0 3)).get (by decide)

theorem recovery_acquired :
    Blocked "deploy" "first" blockedAcquired.state.db ∧
      blockedAcquired.state.db.executions.map (·.id) = ["second"] ∧
      (blockedAcquired.state.db.waiting "deploy").length = 1 := by
  have lives : (Watched.only queuedDeploy).Lives .accepting
      (Watched.only queuedDeploy).started stoppedAcquired :=
    .first ((Machine.Reaches.of_run .refl (Option.some_get _).symm).mono
      fun _ _ admitted => (steady_of_steadily admitted).1)
  have recovers : play perform recoverBarriers (List.replicate 4 {})
      stoppedAcquired.state = some recoveredAcquired :=
    (Option.some_get _).symm
  have restarts : Restarts stoppedAcquired.state freshAcquired :=
    ⟨recoveredAcquired.1, .of_play recovers⟩
  have reached : (server .accepting).Reaches
      (Watched.only queuedDeploy).Orderly
      { state := freshAcquired, tasks := [] } blockedAcquired :=
    (Machine.Reaches.of_run .refl (Option.some_get _).symm).mono
      fun _ _ admitted => (steady_of_steadily admitted).1
  have outcome := Watched.recovery (.only queuedDeploy) rfl
    (Watched.idle_started _) lives restarts reached
  exact ⟨outcome.2.2 "first" (by decide), by decide, by decide⟩

end Sendword
