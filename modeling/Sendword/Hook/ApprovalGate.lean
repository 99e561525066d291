import Sendword.Hook.LockSafety

/-!
# The approval gate on every start path

Triggers, hand-offs, decisions, the retry loop and replays start executions.
For a hook that requires approval, all but a replay of the hook's own
executions go through the barriers.
-/

namespace Sendword

open Concurrency

/-- Every request and every pass of the sweep arrives. -/
def requestsOnly : ServerLabel → Bool
  | .arrive job =>
      match job with
      | .trigger _ | .approve .. | .reject .. | .replay _
      | .expirePendingApprovals => true
      | _ => false
  | .advance .. => true

/-- A step starts the record: it is running after it, and was not before. -/
def Starts (before after : Db) (row : Execution) : Prop :=
  row ∈ after.executions ∧ row.status = .running ∧
    ∀ old ∈ before.executions, old.id = row.id → old.status ≠ .running

/-- The record carries an approval that some task has made. -/
def Approved (tasks : List ServerTask) (row : Execution) : Prop :=
  ∃ user time, row.approvedBy = some user ∧ row.approvedAt = some time ∧
    ∃ task ∈ tasks, Effective task.trace (.markApproved row.id user time)

/-- No step from here starts a record of the hook that is not approved. -/
def ApprovedStarts (outside : Outside) (slug : String) (pool : ServerPool) :
    Prop :=
  ∀ label target row, (server outside).step pool label = some target →
    Starts pool.state.db target.state.db row → row.hookSlug = slug →
    Approved pool.tasks row

/-- No step from here starts a record of the hook that does not hold the
hook's lock. -/
def LockedStarts (outside : Outside) (slug : String) (pool : ServerPool) :
    Prop :=
  ∀ label target row, (server outside).step pool label = some target →
    Starts pool.state.db target.state.db row → row.hookSlug = slug →
    pool.state.db.holder? slug = some row.id

/-- No execution of the hook is replayed, and no pass of the sweep goes on to
the lock of an execution that was decided before it. -/
def barred (slug : String) (pool : ServerPool) : ServerLabel → Bool
  | .arrive job => requestsOnly (.arrive job)
  | .advance index _ =>
      !replaysHook slug pool index && !missesHolder slug pool index

/-- Only `mark_running` starts a record. -/
theorem ExecutionUpdate.starts {change : ExecutionUpdate} {row : Execution}
    (waits : row.status ≠ .running)
    (runs : (change.apply row).status = .running) :
    row.status = .pending ∧ ∃ time, change = .markRunning row.id time := by
  unfold apply at runs
  split at runs
  · rename_i matched
    cases change with
    | markRunning id time =>
        simp only [matches?, Bool.and_eq_true, beq_iff_eq] at matched
        obtain ⟨rfl, pending⟩ := matched
        exact ⟨pending, time, rfl⟩
    | markCompleted id status exitCode time =>
        simp only [matches?, Bool.and_eq_true, beq_iff_eq] at matched
        exact (waits matched.2).elim
    | incrementRetryCount id => exact (waits runs).elim
    | resetToPending | markApproved | resetApproved | markRejected
    | markExpired | markPendingApproval | failRunning => cases runs
  · exact (waits runs).elim

theorem Starts.not_refl {db : Db} {row : Execution} (starts : Starts db db row) :
    False :=
  starts.2.2 row starts.1 rfl starts.2.1

namespace Watched

variable {watched : Watched} {outside : Outside} {start pool : ServerPool}

theorem barred_conduct :
    watched.Conduct False (fun _ => True) (barred watched.slug) where
  external := by
    intro pool job admitted
    cases job with
    | trigger | approve | reject | replay | expirePendingApprovals => trivial
    | reloadConfig | runExecution | runDequeued => cases admitted
  arrivals := fun _ _ _ => trivial
  runners := fun _ => trivial
  foreigners := trivial
  sweeps := by
    intro _ pool index choice admitted
    simp only [barred, Bool.and_eq_true, Bool.not_eq_true'] at admitted
    exact admitted.2
  replays := by
    intro _ pool index choice admitted
    simp only [barred, Bool.and_eq_true, Bool.not_eq_true'] at admitted
    exact admitted.1
  logs := False.elim

section Step

variable {world state : World} {ghost : Ghost} {rest : Multiset Ghost}
  {row : Execution}

/-- A task starts a record of the hook only as the owner of a record that was
cleared, and with the lock if there is one. -/
theorem starts_record {statement : ExecutionStatement}
    (allowed : watched.allowsRecord ghost statement)
    (holds : watched.Invariant world (ghost ::ₘ rest))
    (starts : Starts world.db (statement.exec world.db).2 row)
    (own : row.hookSlug = watched.slug) :
    watched.Cleared (approvalsOf (ghost ::ₘ rest)) row ∧
      ghost.token = .claim watched.exclusive row.id .ready := by
  cases statement with
  | insert new =>
      rcases Db.insert_cases world.db new with accepted | refused
      · rw [accepted] at starts
        obtain ⟨member, running, before⟩ := starts
        rcases List.mem_append.mp member with old | added
        · exact (before row old rfl running).elim
        · obtain rfl : row = new := by simpa using added
          rw [allowsRecord, if_pos own] at allowed
          rcases allowed.2.2.2 with ⟨-, status⟩ | ⟨-, -, status⟩
          · rw [running, initialStatus] at status
            split at status <;> cases status
          · rw [running, initialStatus] at status
            split at status <;> cases status
      · rw [refused] at starts
        exact starts.not_refl.elim
  | update change =>
      obtain ⟨member, running, before⟩ := starts
      obtain ⟨old, oldMember, rfl⟩ := List.mem_map.mp member
      have waits := before old oldMember (by simp)
      obtain ⟨-, time, rfl⟩ := change.starts waits running
      have oldOwn : old.hookSlug = watched.slug := by simpa using own
      have inRows : old ∈ (world.db.rowsOf watched.slug).records :=
        Db.mem_records.mpr ⟨oldMember, oldOwn⟩
      cases token : ghost.token with
      | none =>
          simp only [allowsRecord, token] at allowed
          rcases allowed with ⟨-, decides⟩ | ⟨-, id, known, target⟩
          · cases decides
          · obtain rfl : old.id = id := by
              simpa [ExecutionUpdate.target?] using target
            exact (holds.elsewhere_absent
              (holds.own_informed.elsewhere _ known) old inRows rfl).elim
      | claim locked id phase =>
          simp only [allowsRecord, token] at allowed
          obtain ⟨target, advances⟩ := allowed
          obtain rfl : old.id = id := by
            simpa [ExecutionUpdate.target?] using target
          obtain ⟨next?, advances⟩ := Option.isSome_iff_exists.mp advances
          have ready : phase = .ready := by
            rcases watched.advances_cases advances with
              ⟨_, _, -, phase, -⟩ | ⟨_, _, _, _, other, -⟩ |
              ⟨_, other, -⟩ | ⟨_, other, -⟩ | ⟨_, other, -⟩ |
              ⟨_, other, -⟩
            · exact phase
            all_goals cases other
          subst ready
          obtain ⟨⟨found, foundIn, sameId, -, cleared⟩, exclusive⟩ :=
            holds.owned.claimed token
          obtain rfl : found = old := holds.keys.execution_unique
            (Db.mem_records.mp foundIn).1 oldMember sameId
          refine ⟨?_, ?_⟩
          · intro gated
            obtain ⟨user, at', approved, byUser, atTime⟩ := cleared gated
            refine ⟨user, at', by simpa using approved, ?_, ?_⟩
            · rw [← byUser]
              unfold ExecutionUpdate.apply
              split <;> rfl
            · rw [← atTime]
              unfold ExecutionUpdate.apply
              split <;> rfl
          · rw [exclusive (by simp), ExecutionUpdate.apply_id]
      | unborn | taking | succeeding =>
          simp [allowsRecord, token] at allowed
  | selectById | selectLatestStarted | selectOverdue =>
      exact starts.not_refl.elim

theorem starts_step {op : Op} {choice : Choice} {answer : op.Answer}
    (allowed : watched.allows ghost op)
    (performed : perform op choice world = some (answer, state))
    (holds : watched.Invariant world (ghost ::ₘ rest))
    (starts : Starts world.db state.db row)
    (own : row.hookSlug = watched.slug) :
    watched.Cleared (approvalsOf (ghost ::ₘ rest)) row ∧
      ghost.token = .claim watched.exclusive row.id .ready := by
  cases op with
  | sql statement =>
      simp only [perform, Option.some.injEq, Prod.mk.injEq] at performed
      obtain ⟨-, rfl⟩ := performed
      by_cases onRecords : ∃ record, statement = .execution record
      · obtain ⟨record, rfl⟩ := onRecords
        exact starts_record allowed holds starts own
      · have same : (statement.exec world.db).2.executions =
            world.db.executions :=
          Db.executions_exec fun record same => onRecords ⟨record, same⟩
        obtain ⟨member, running, before⟩ := starts
        exact (before row (same ▸ member) rfl running).elim
  | now | newId =>
      simp only [perform] at performed
      split at performed
      · cases performed <;> exact starts.not_refl.elim
      · cases performed <;> exact starts.not_refl.elim
  | loadConfig | storeConfig | prepareLogFiles | spawn | runProcess
  | sendRequest | sleep | appendRetryMarker | sendNotification =>
      simp only [perform, Option.some.injEq, Prod.mk.injEq] at performed
      obtain ⟨-, rfl⟩ := performed
      exact starts.not_refl.elim

end Step

/-- Where no execution of the hook is replayed and the sweep does not go on
after a decision made before it: in every state, whatever step comes next, a
record of the hook only enters `running` with an approval that was made, and
as the holder of the lock if the hook has one. -/
theorem approval_gate (watched : Watched) (gated : watched.gated = true)
    (empty : start.tasks = []) (idle : watched.Idle start.state)
    (reached : (server outside).Reaches
      (fun pool label => barred watched.slug pool label = true)
      start pool) :
    ApprovedStarts outside watched.slug pool ∧
      (watched.exclusive = true →
        LockedStarts outside watched.slug pool) := by
  obtain ⟨ghosts, covers, holds⟩ :=
    reaches_holds barred_conduct empty idle reached
  have started (label : ServerLabel) (target : ServerPool) (row : Execution)
      (taken : (server outside).step pool label = some target)
      (starts : Starts pool.state.db target.state.db row)
      (own : row.hookSlug = watched.slug) :
      watched.Cleared (approvalsOf ghosts) row ∧
        ∃ ghost rest, (ghosts : Multiset Ghost) = ghost ::ₘ rest ∧
          ghost.token = .claim watched.exclusive row.id .ready := by
    cases label with
    | arrive job =>
        obtain rfl : { pool with
            tasks := pool.tasks ++ [(server outside).launch job] } =
            target := by simpa [Machine.step] using taken
        exact starts.not_refl.elim
    | advance index choice =>
        obtain ⟨job, trace, op, next, answer, state, found, performed, rfl⟩ :=
          Machine.step_advance taken
        obtain ⟨ghost, -, parts, -, obeys⟩ := covers.pick found
        have ready := starts_step obeys.1 performed (parts ▸ holds.1) starts
          own
        exact ⟨parts ▸ ready.1, ghost, _, parts, ready.2⟩
  constructor
  · intro label target row taken starts own
    obtain ⟨user, time, ⟨ghost, member, made⟩, byUser, atTime⟩ :=
      (started label target row taken starts own).1 gated
    refine ⟨user, time, byUser, atTime, ?_⟩
    obtain ⟨index, ghostFound⟩ :=
      List.mem_iff_getElem?.mp (Multiset.mem_coe.mp member)
    have inside : index < pool.tasks.length := by
      rw [← covers.length_eq]
      exact (List.getElem?_eq_some_iff.mp ghostFound).1
    have linked := covers.linked index _ ghost
      (List.getElem?_eq_getElem inside) ghostFound
    exact ⟨_, List.getElem_mem inside, linked.approvals _ _ _ made⟩
  · intro exclusive label target row taken starts own
    obtain ⟨-, ghost, rest, parts, ready⟩ :=
      started label target row taken starts own
    have owned := holds.1.owned
    rw [parts] at owned
    rw [← Db.rowsOf_holder]
    exact (owned.of_lock row.id (by simp [ready, exclusive])).2.1

end Watched

/-! ## A run after an approval, and a replay -/

/-- A trigger leaves an execution that waits for approval. -/
def parkedSchedule : List ServerLabel :=
  .arrive (.trigger { slug := "deploy" }) ::
    steps 0 1 ++ stepWithId 0 "first" ++ steps 0 5 ++ stepWithId 0 "fired" ++
      steps 0 3

/-- It is approved, and its run is about to mark it as running. -/
def approvedSchedule : List ServerLabel :=
  parkedSchedule ++ .arrive (.approve "first" "admin") ::
    steps 1 6 ++ steps 2 2

def approvedFirst : ServerPool :=
  ((server .accepting).run (barred "deploy")
    (Watched.only gatedDeploy).started approvedSchedule).get (by decide)

theorem approval_gate_approved :
    (ApprovedStarts .accepting "deploy" approvedFirst ∧
      ((Watched.only gatedDeploy).exclusive = true →
        LockedStarts .accepting "deploy" approvedFirst)) ∧
    ((server .accepting).step approvedFirst (.advance 2 {})).map
        (fun target => target.state.db.executions.map (·.status)) =
      some [.running] := by
  have reached : (server .accepting).Reaches
      (fun pool label => barred "deploy" pool label = true)
      (Watched.only gatedDeploy).started approvedFirst :=
    .of_run .refl (Option.some_get _).symm
  exact ⟨Watched.approval_gate (.only gatedDeploy) rfl rfl
    (Watched.idle_started _) reached, by decide⟩

/-- It is replayed instead, and the run of the replay is about to mark its
own record as running. -/
def replayedSchedule : List ServerLabel :=
  parkedSchedule ++ .arrive (.replay "first") ::
    steps 1 2 ++ stepWithId 1 "again" ++ steps 1 4 ++ steps 2 2

def replayed : ServerPool :=
  ((server .accepting).run (fun _ => requestsOnly)
    (Watched.only gatedDeploy).started replayedSchedule).get (by decide)

def replayStarted : ServerPool :=
  ((server .accepting).step replayed (.advance 2 {})).get (by decide)

def replayRecord : Execution :=
  replayStarted.state.db.executions.getLast (by decide)

/-- The replay of an execution that still waits for approval starts without
one, and while the lock names the waiting execution. -/
theorem approval_gate_replayed :
    (¬ ∀ pool, (server .accepting).Reaches
        (fun _ label => requestsOnly label = true)
        (Watched.only gatedDeploy).started pool →
      ApprovedStarts .accepting "deploy" pool) ∧
    ¬ ∀ pool, (server .accepting).Reaches
        (fun _ label => requestsOnly label = true)
        (Watched.only gatedDeploy).started pool →
      LockedStarts .accepting "deploy" pool := by
  have reached : (server .accepting).Reaches
      (fun _ label => requestsOnly label = true)
      (Watched.only gatedDeploy).started replayed :=
    .of_run .refl (Option.some_get _).symm
  have taken : (server .accepting).step replayed (.advance 2 {}) =
      some replayStarted := (Option.some_get _).symm
  have starts : Starts replayed.state.db replayStarted.state.db
      replayRecord := ⟨List.getLast_mem _, by decide, by decide⟩
  constructor
  · intro approved
    obtain ⟨user, time, byUser, -⟩ :=
      approved replayed reached _ _ _ taken starts (by decide)
    have unapproved : replayRecord.approvedBy = none := by decide
    rw [unapproved] at byUser
    cases byUser
  · intro locked
    have held := locked replayed reached _ _ _ taken starts (by decide)
    exact absurd held (by decide)

end Sendword
