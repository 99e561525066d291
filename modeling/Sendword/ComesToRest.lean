import Sendword.Concurrency.Rest
import Sendword.Hook.QueueProgress
import Sendword.Hook.StuckHolder
import Sendword.Launches
import Sendword.Sequential

/-!
# The server comes to rest

A completion starts the execution that waits first, whose completion starts
the next one.  While nothing arrives every such start uses up a queue entry,
so the chain ends.
-/

namespace Sendword

open Concurrency

/-! ## A completion takes an entry before it starts an execution -/

/-- How far a completion is with the queue. -/
inductive Head where
  | unseen
  /-- The entry was found waiting. -/
  | seen (entry : String)
  /-- The entry was marked as ready. -/
  | passed
  deriving DecidableEq

def headStep (head : Head) : Event Op.Answer → Head
  | ⟨.sql (.queue (.peekNext _)), .ok (some row)⟩ =>
      .seen (row : QueueRow).id
  | ⟨.sql (.queue (.update (.markReady entry))), _⟩ =>
      if head = .seen entry then .passed else head
  | _ => head

def headMonitor : Monitor Job Op.Answer Head where
  start _ := .unseen
  next := headStep
  allows head
    | .spawn _ => head = .passed
    | _ => True

/-- The operations before the completion. -/
theorem head_ignores {op : Op} (head : Head)
    (other : op.ofNotification ∨ (∃ id, op.ofRun id) ∨
      op = .loadConfig) : headMonitor.Ignores head op := by
  rcases other with notifies | ⟨id, runs⟩ | rfl
  · unfold Op.ofNotification at notifies
    split at notifies
    · exact ⟨trivial, fun _ => rfl⟩
    · exact ⟨trivial, fun _ => rfl⟩
    · exact notifies.elim
  · unfold Op.ofRun at runs
    split at runs
    case h_8 => exact runs.elim
    all_goals exact ⟨trivial, fun _ => rfl⟩
  · exact ⟨trivial, fun _ => rfl⟩

theorem onExecutionComplete_head (slug : String)
    (concurrency : Option ConcurrencyConfig)
    (approval : Option ApprovalConfig) (head : Head) :
    headMonitor.Passes (onExecutionComplete slug concurrency approval)
      (fun _ _ => True) head := by
  unfold onExecutionComplete
  split
  · exact ⟨trivial, fun _ _ => trivial⟩
  · split
    · exact ⟨trivial, fun _ _ => trivial⟩
    · refine ⟨trivial, fun next _ => ?_⟩
      simp only [Program.pure_bind]
      split
      · exact ⟨trivial, fun _ _ => trivial⟩
      · rename_i queued found
        have peeked : next = .ok (some queued) := by
          cases next with
          | error error => cases found
          | ok row => exact congrArg _ found
        subst peeked
        refine ⟨trivial, fun time _ => ⟨trivial, fun handed _ => ?_⟩⟩
        cases handed with
        | error error => trivial
        | ok rows =>
            refine ⟨trivial, fun marked _ => ?_⟩
            simp only [Program.pure_bind]
            split
            · exact ⟨trivial, fun _ _ => trivial⟩
            · exact ⟨if_pos rfl, fun _ _ => trivial⟩

theorem release_head (slug : String) (head : Head) :
    headMonitor.Passes (release slug) (fun _ _ => True) head :=
  ⟨trivial, fun _ _ => trivial⟩

theorem run_head (context : ExecutionContext)
    (retries : EffectiveRetryConfig) (head : Head) :
    headMonitor.Passes (runWithRetries context retries)
      (fun after _ => after = head) head :=
  .of_ignored (runWithRetries_ofRun context retries) fun _ runs =>
    head_ignores head (.inr (.inl ⟨_, not_not.mp runs⟩))

theorem notify_head (outside : Outside) (hook : HookConfig) (id : String)
    (result : ExecutionResult) (head : Head) :
    headMonitor.Passes (notify outside hook id result)
      (fun after _ => after = head) head :=
  .of_ignored (notify_ofNotification outside hook id result)
    fun _ notifies => head_ignores head (.inl (not_not.mp notifies))

/-- A run starts another one only for an entry that it found waiting and has
marked as ready. -/
theorem body_head {outside : Outside} {job : Job} (isRun : job.isRun = true) :
    headMonitor.Passes (taskBody outside job) (fun _ _ => True) .unseen := by
  cases job with
  | runExecution context retries hook concurrency approval =>
      refine Monitor.Passes.bind
        (?_ : headMonitor.Passes _ (fun _ _ => True) _) fun _ _ _ => trivial
      refine (run_head context retries .unseen).bind fun head result _ => ?_
      refine (notify_head outside hook _ result head).bind
        fun head _ _ => ?_
      split
      · exact onExecutionComplete_head ..
      · trivial
  | runDequeued slug id concurrency approval =>
      refine Monitor.Passes.bind
        (?_ : headMonitor.Passes _ (fun _ _ => True) _) fun _ _ _ => trivial
      refine ⟨trivial, fun found _ => ?_⟩
      rcases found with error | _ | exec
      · exact release_head slug _
      · exact release_head slug _
      · refine ⟨trivial, fun config _ => ?_⟩
        simp only [Program.pure_bind]
        split
        · exact release_head slug _
        · refine (run_head _ _ _).bind fun head result _ => ?_
          exact (notify_head outside _ _ result head).bind
            fun head _ _ => onExecutionComplete_head ..
  | trigger | approve | reject | replay | expirePendingApprovals
  | reloadConfig => cases isRun

/-! ## The queue only runs down -/

/-- The entry is in the queue and waits. -/
def Db.Waits (db : Db) (entry : String) : Prop :=
  ∃ row ∈ db.queue, row.id = entry ∧ row.status = .waiting

def Db.waitingCount (db : Db) : Nat :=
  db.queue.countP (·.status == .waiting)

section Changes

variable {change : QueueRow → QueueRow}

theorem countP_map_waiting_le
    (only : ∀ row, (change row).status = .waiting → change row = row)
    (rows : List QueueRow) :
    (rows.map change).countP (·.status == .waiting) ≤
      rows.countP (·.status == .waiting) := by
  rw [List.countP_map]
  refine List.countP_mono_left fun row _ waits => ?_
  have waits : (change row).status = .waiting := by simpa using waits
  simpa [only row waits] using waits

/-- Entries that are changed do not wait any more. -/
theorem countP_map_waiting_lt {row : QueueRow} {rows : List QueueRow}
    (only : ∀ row, (change row).status = .waiting → change row = row)
    (member : row ∈ rows) (waits : row.status = .waiting)
    (changed : change row ≠ row) :
    (rows.map change).countP (·.status == .waiting) <
      rows.countP (·.status == .waiting) := by
  obtain ⟨before, after, rfl⟩ := List.append_of_mem member
  have first := countP_map_waiting_le only before
  have last := countP_map_waiting_le only after
  have served : (change row).status ≠ .waiting :=
    fun still => changed (only row still)
  simp only [List.map_append, List.map_cons, List.countP_append,
    List.countP_cons, beq_iff_eq, if_neg served, if_pos waits]
  omega

end Changes

/-- Only an enqueue adds to the waiting entries. -/
theorem queue_map {db : Db} {statement : Statement}
    (other : ¬ (Op.sql statement).enqueues) :
    ∃ change : QueueRow → QueueRow,
      (∀ row, (change row).status = .waiting → change row = row) ∧
        (statement.exec db).2.queue = db.queue.map change := by
  have unchanged (same : (statement.exec db).2.queue = db.queue) :
      ∃ change : QueueRow → QueueRow,
        (∀ row, (change row).status = .waiting → change row = row) ∧
          (statement.exec db).2.queue = db.queue.map change :=
    ⟨id, fun _ _ => rfl, by simpa using same⟩
  cases statement with
  | execution | lock | attempt | counter =>
      exact unchanged (Db.queue_exec (by simp))
  | queue statement =>
      cases statement with
      | enqueue => exact (other trivial).elim
      | selectPosition | peekNext | countWaiting => exact unchanged rfl
      | update change =>
          refine ⟨change.apply, fun row waits => ?_, rfl⟩
          unfold QueueUpdate.apply at waits ⊢
          split
          · rename_i matched
            rw [if_pos matched] at waits
            cases change <;> cases waits
          · rfl
      | expireStale =>
          refine ⟨_, fun row waits => ?_, rfl⟩
          split
          · rename_i stale
            rw [if_pos stale] at waits
            cases waits
          · rfl

/-- Other operations than an enqueue leave an entry waiting or serve one. -/
theorem waits_quiet {op : Op} (other : ¬ op.enqueues) (db : Db) :
    (op.db db).waitingCount ≤ db.waitingCount ∧
      ∀ entry, db.Waits entry →
        (op.db db).Waits entry ∨ (op.db db).waitingCount < db.waitingCount := by
  cases op with
  | sql statement =>
      obtain ⟨change, only, mapped⟩ := queue_map other
      unfold Op.db Db.waitingCount Db.Waits
      rw [mapped]
      refine ⟨countP_map_waiting_le only _, ?_⟩
      rintro entry ⟨row, member, sameId, waits⟩
      by_cases same : change row = row
      · exact .inl ⟨row, List.mem_map.mpr ⟨row, member, same⟩, sameId, waits⟩
      · exact .inr (countP_map_waiting_lt only member waits same)
  | now | newId | loadConfig | storeConfig | prepareLogFiles | spawn
  | runProcess | sendRequest | sleep | appendRetryMarker
  | sendNotification => exact ⟨le_rfl, fun _ waits => .inl waits⟩

/-- An enqueue adds one entry or nothing. -/
theorem waits_enqueue {op : Op} (enqueues : op.enqueues) (db : Db) :
    (op.db db).waitingCount ≤ db.waitingCount + 1 ∧
      ∀ entry, db.Waits entry → (op.db db).Waits entry := by
  unfold Op.enqueues at enqueues
  split at enqueues
  · simp only [Op.db, Statement.exec, QueueStatement.exec]
    split
    · exact ⟨Nat.le_succ _, fun _ waits => waits⟩
    · refine ⟨by simp [Db.waitingCount, List.countP_append], ?_⟩
      rintro entry ⟨row, member, sameId, waits⟩
      exact ⟨row, List.mem_append_left _ member, sameId, waits⟩
  · exact enqueues.elim

/-- An entry that is marked as ready does not wait any more. -/
theorem not_waits_markReady (db : Db) (entry : String) :
    ¬ ((QueueStatement.update (.markReady entry)).exec db).2.Waits entry := by
  rintro ⟨row, member, sameId, waits⟩
  obtain ⟨old, -, rfl⟩ := List.mem_map.mp member
  unfold QueueUpdate.apply at sameId waits
  split at waits
  · cases waits
  · rename_i unmatched
    rw [if_neg unmatched] at sameId
    simp [QueueUpdate.matches?, sameId, waits] at unmatched

/-! ## The budget of a pool -/

def Job.isTrigger : Job → Bool
  | .trigger _ => true
  | _ => false

/-- A trigger that has not enqueued yet. -/
def MayEnqueue (task : ServerTask) : Prop :=
  task.job.isTrigger = true ∧ ∀ event ∈ task.trace, ¬ event.op.enqueues

open Classical in
/-- How often an entry of the queue can still be served. -/
noncomputable def budget (pool : ServerPool) : Nat :=
  pool.state.db.waitingCount +
    pool.tasks.countP fun task => decide (MayEnqueue task)

variable {outside : Outside} {start pool target : ServerPool}

/-- Only triggers enqueue, and each of them once. -/
theorem mayEnqueue_of_enqueues {job : Job} {trace : Past} {op : Op}
    {next : op.Answer → Async Response}
    (follows : (taskBody outside job).Follows trace (.perform op next))
    (enqueues : op.enqueues) : MayEnqueue ⟨job, trace, .perform op next⟩ := by
  by_cases isTrigger : ∃ request, job = .trigger request
  · obtain ⟨request, rfl⟩ := isTrigger
    refine ⟨rfl, fun event member already => ?_⟩
    have rest := (follows.once (triggerHook_enqueues outside request)).2
      ⟨event, member, already⟩
    exact rest.1 enqueues
  · have avoids : (taskBody outside job).Avoids Op.ofTrigger :=
      body_ofTrigger fun request same => isTrigger ⟨request, same⟩
    exact ((follows.avoids avoids).1.1 enqueues.elsewhere.1).elim

/-- The budget of the tasks after one of them has moved and started runs. -/
theorem countP_moved {tasks others : List ServerTask} {index : Nat}
    {task : ServerTask} (moved : ServerTask) (counts : ServerTask → Bool)
    (found : tasks[index]? = some task)
    (none : ∀ other ∈ others, counts other = false) :
    (tasks.set index moved ++ others).countP counts + (counts task).toNat =
      tasks.countP counts + (counts moved).toNat := by
  obtain ⟨inside, isTask⟩ := List.getElem?_eq_some_iff.mp found
  have counted (held : counts task = true) : 0 < tasks.countP counts :=
    List.countP_pos_iff.mpr ⟨task, List.mem_of_getElem? found, held⟩
  have nothing : others.countP counts = 0 :=
    List.countP_eq_zero.mpr fun other member => by simp [none other member]
  rw [List.countP_append, nothing, List.countP_set inside, isTask]
  cases held : counts task with
  | false => cases counts moved <;> simp
  | true =>
      have positive := counted held
      cases counts moved <;> simp <;> omega

/-- Tasks that are started are runs. -/
theorem forked_isRun {job : Job} {trace : Past} {op : Op}
    {next : op.Answer → Async Response}
    (follows : (taskBody outside job).Follows trace (.perform op next)) :
    ∀ other ∈ (server outside).forked op, other.job.isRun = true := by
  intro other member
  simp only [Machine.forked, Option.mem_toList, Option.map_eq_some_iff]
    at member
  obtain ⟨child, spawned, rfl⟩ := member
  have starts := (follows.avoids (body_starts outside job)).1.1
  cases op with
  | spawn started =>
      obtain rfl : started = child := Option.some.inj spawned
      simpa [Op.startsOther, Machine.launch] using starts
  | sql | now | newId | loadConfig | storeConfig | prepareLogFiles
  | runProcess | sendRequest | sleep | appendRetryMarker
  | sendNotification => cases spawned

/-- While nothing arrives the budget does not grow, and an entry waits until
the budget is less. -/
theorem budget_advance {index : Nat} {choice : Choice}
    (follows : ∀ task ∈ pool.tasks,
      (taskBody outside task.job).Follows task.trace task.program)
    (taken : (server outside).step pool (.advance index choice) =
      some target) :
    budget target ≤ budget pool ∧
      ∀ entry, pool.state.db.Waits entry →
        target.state.db.Waits entry ∨ budget target < budget pool := by
  classical
  obtain ⟨job, trace, op, next, answer, state, found, performed, rfl⟩ :=
    Machine.step_advance taken
  have path := follows _ (List.mem_of_getElem? found)
  have noChild (other : ServerTask)
      (member : other ∈ (server outside).forked op) :
      decide (MayEnqueue other) = false := by
    have isRun := forked_isRun path other member
    refine decide_eq_false fun may => ?_
    cases isJob : other.job <;> simp [isJob, Job.isRun] at isRun <;>
      simp [MayEnqueue, isJob, Job.isTrigger] at may
  have tasks := countP_moved ⟨job, trace ++ [⟨op, answer⟩], next answer⟩
    (fun task => decide (MayEnqueue task)) found noChild
  have keeps (may : MayEnqueue ⟨job, trace ++ [⟨op, answer⟩], next answer⟩) :
      MayEnqueue ⟨job, trace, .perform op next⟩ ∧ ¬ op.enqueues :=
    ⟨⟨may.1, fun event member => may.2 event (List.mem_append_left _ member)⟩,
      may.2 _ (List.mem_append_right _ (List.mem_singleton_self _))⟩
  have fewer : (decide (MayEnqueue
      ⟨job, trace ++ [⟨op, answer⟩], next answer⟩)).toNat ≤
        (decide (MayEnqueue ⟨job, trace, .perform op next⟩)).toNat := by
    by_cases may : MayEnqueue ⟨job, trace ++ [⟨op, answer⟩], next answer⟩
    · simp [may, (keeps may).1]
    · simp [may]
  unfold budget
  dsimp only
  rw [perform_db performed]
  by_cases enqueues : op.enqueues
  · have may := mayEnqueue_of_enqueues path enqueues
    have mayNot : ¬ MayEnqueue ⟨job, trace ++ [⟨op, answer⟩], next answer⟩ :=
      fun may => (keeps may).2 enqueues
    simp only [may, mayNot, decide_true, decide_false, Bool.toNat_true,
      Bool.toNat_false] at tasks
    obtain ⟨more, waits⟩ := waits_enqueue enqueues pool.state.db
    refine ⟨by omega, fun entry waited => .inl (waits entry waited)⟩
  · obtain ⟨most, waits⟩ := waits_quiet enqueues pool.state.db
    refine ⟨by omega, fun entry waited => ?_⟩
    exact (waits entry waited).imp_right fun less => by omega

/-! ## Stages -/

/-- What a run that may still start another one has to do with the queue. -/
def Head.Open (db : Db) : Head → Prop
  | .unseen => True
  | .seen entry => db.Waits entry
  | .passed => False

/-- The budget has got less than the stage of the task, or the task has an
entry to serve before it starts another one. -/
def Bounded (pool : ServerPool) (program : Async Response) (stage : Nat) :
    Prop :=
  budget pool < stage ∨
    budget pool ≤ stage ∧ ∃ head : Head, head.Open pool.state.db ∧
      headMonitor.Passes program (fun _ _ => True) head

/-- A reached pool, with stages that bound its tasks. -/
structure StagedPool (outside : Outside) (start pool : ServerPool)
    (stages : List Nat) : Prop where
  reached : (server outside).Reaches (fun _ _ => True) start pool
  aligned : stages.length = pool.tasks.length
  bounded : ∀ (index : Nat) task stage, pool.tasks[index]? = some task →
    stages[index]? = some stage → Bounded pool task.program stage

/-- Other tasks keep a task bounded. -/
theorem Bounded.advance {program : Async Response} {stage : Nat}
    (bounded : Bounded pool program stage)
    (most : budget target ≤ budget pool)
    (waits : ∀ entry, pool.state.db.Waits entry →
      target.state.db.Waits entry ∨ budget target < budget pool) :
    Bounded target program stage := by
  rcases bounded with less | ⟨within, head, isOpen, passes⟩
  · exact .inl (lt_of_le_of_lt most less)
  · cases head with
    | unseen => exact .inr ⟨most.trans within, .unseen, trivial, passes⟩
    | seen entry =>
        rcases waits entry isOpen with still | less
        · exact .inr ⟨most.trans within, .seen entry, still, passes⟩
        · exact .inl (less.trans_le within)
    | passed => exact isOpen.elim

/-- What an operation of the task itself makes of its head. -/
theorem Head.Open.advance {op : Op} {choice : Choice} {answer : op.Answer}
    {world state : World} {head : Head} (isOpen : head.Open world.db)
    (performed : perform op choice world = some (answer, state)) :
    (headStep head ⟨op, answer⟩).Open state.db ∨
      headStep head ⟨op, answer⟩ = head ∨
      ∃ entry, world.db.Waits entry ∧ ¬ state.db.Waits entry := by
  unfold headStep
  split
  · rename_i slug row same
    cases same
    simp only [perform, Option.some.injEq, Prod.mk.injEq] at performed
    obtain ⟨peeked, rfl⟩ := performed
    have first : (world.db.waiting slug).argmin (fun row => row.position) =
        some row := Except.ok.inj peeked
    obtain ⟨member, waits⟩ :=
      List.mem_filter.mp (List.argmin_mem (Option.mem_def.mpr first))
    have waits : row.hookSlug = slug ∧ row.status = .waiting := by
      simpa using waits
    exact .inl ⟨row, member, rfl, waits.2⟩
  · rename_i entry reply same
    cases same
    split
    · rename_i seen
      subst seen
      simp only [perform, Option.some.injEq, Prod.mk.injEq] at performed
      obtain ⟨-, rfl⟩ := performed
      exact .inr (.inr ⟨entry, isOpen, not_waits_markReady world.db entry⟩)
    · exact .inr (.inl rfl)
  · exact .inr (.inl rfl)

/-- The task that moves stays bounded. -/
theorem Bounded.moved {op : Op} {next : op.Answer → Async Response}
    {choice : Choice} {answer : op.Answer} {stage : Nat}
    (bounded : Bounded pool (.perform op next) stage)
    (performed : perform op choice pool.state =
      some (answer, target.state))
    (most : budget target ≤ budget pool)
    (waits : ∀ entry, pool.state.db.Waits entry →
      target.state.db.Waits entry ∨ budget target < budget pool) :
    Bounded target (next answer) stage := by
  rcases bounded with less | ⟨within, head, isOpen, passes⟩
  · exact .inl (lt_of_le_of_lt most less)
  · have later := passes.2 answer trivial
    rcases isOpen.advance performed with stays | same | ⟨entry, waited, served⟩
    · exact .inr ⟨most.trans within, _, stays, later⟩
    · exact Bounded.advance
        (.inr ⟨within, head, isOpen, same ▸ later⟩) most waits
    · have less := (waits entry waited).resolve_left served
      exact .inl (less.trans_le within)

/-- A task only starts another one after the budget has got less. -/
theorem Bounded.spawns {job : Job} {next : Unit → Async Response}
    {stage : Nat} (bounded : Bounded pool (.perform (.spawn job) next) stage) :
    budget pool < stage := by
  rcases bounded with less | ⟨-, head, isOpen, passes⟩
  · exact less
  · have passed : head = .passed := passes.1
    subst passed
    exact isOpen.elim

theorem StagedPool.advance {stages : List Nat} {index : Nat} {choice : Choice}
    (empty : start.tasks = []) (staged : StagedPool outside start pool stages)
    (taken : (server outside).step pool (.advance index choice) =
      some target) :
    ∃ stage news, stages[index]? = some stage ∧
      (∀ other ∈ news, other < stage) ∧
        StagedPool outside start target (stages ++ news) := by
  have follows := staged.reached.follows empty
  obtain ⟨most, waits⟩ := budget_advance follows taken
  have reached := staged.reached.step trivial taken
  obtain ⟨job, trace, op, next, answer, state, found, performed, isTarget⟩ :=
    Machine.step_advance taken
  have tasks := congrArg Pool.tasks isTarget
  have performed : perform op choice pool.state =
      some (answer, target.state) := by rw [isTarget]; exact performed
  have runs := forked_isRun (follows _ (List.mem_of_getElem? found))
  have inside := (List.getElem?_eq_some_iff.mp found).1
  obtain ⟨stage, isStage⟩ : ∃ stage, stages[index]? = some stage :=
    ⟨_, List.getElem?_eq_getElem (by rwa [staged.aligned])⟩
  have bounded := staged.bounded index _ _ found isStage
  refine ⟨stage, List.replicate ((server outside).forked op).length
    (budget target), isStage, ?_, reached, by simp [tasks, staged.aligned],
    ?_⟩
  · intro other member
    obtain ⟨some, rfl⟩ := List.mem_replicate.mp member
    cases op with
    | spawn child => exact most.trans_lt bounded.spawns
    | sql | now | newId | loadConfig | storeConfig | prepareLogFiles
    | runProcess | sendRequest | sleep | appendRetryMarker
    | sendNotification => exact (some rfl).elim
  · intro position task other taskFound stageFound
    by_cases old : position < pool.tasks.length
    · rw [List.getElem?_append_left (by rwa [staged.aligned])] at stageFound
      rw [tasks, List.getElem?_append_left (by simpa using old)] at taskFound
      by_cases same : index = position
      · subst same
        rw [List.getElem?_set_self inside] at taskFound
        cases taskFound
        obtain rfl : stage = other :=
          Option.some.inj (isStage.symm.trans stageFound)
        exact bounded.moved performed most waits
      · rw [List.getElem?_set_ne same] at taskFound
        exact (staged.bounded position task other taskFound
          stageFound).advance most waits
    · rw [List.getElem?_append_right (by rw [staged.aligned]; omega)]
        at stageFound
      rw [tasks, List.getElem?_append_right (by simp; omega)] at taskFound
      obtain ⟨-, rfl⟩ :=
        List.mem_replicate.mp (List.mem_of_getElem? stageFound)
      have member := List.mem_of_getElem? taskFound
      refine .inr ⟨le_rfl, .unseen, trivial, ?_⟩
      have isRun := runs task member
      simp only [Machine.forked, Option.mem_toList, Option.map_eq_some_iff]
        at member
      obtain ⟨child, -, rfl⟩ := member
      exact body_head isRun

/-- Where nothing arrives, every pool runs down. -/
theorem acc_works {admits : ServerPool → ServerLabel → Prop}
    (empty : start.tasks = [])
    (reached : (server outside).Reaches admits start pool) :
    Acc (server outside).Works pool := by
  refine Machine.acc_of_stages (fun pool stages staged => staged.aligned)
    (fun pool stages index choice target staged taken =>
      StagedPool.advance empty staged taken)
    (⟨reached.mono fun _ _ _ => trivial, List.length_replicate, ?_⟩ :
      StagedPool outside start pool
        (List.replicate pool.tasks.length (budget pool + 1)))
  intro index task stage _ isStage
  obtain ⟨-, rfl⟩ := List.getElem?_eq_some_iff.mp isStage
  rw [List.getElem_replicate]
  exact .inl (Nat.lt_succ_self _)

/-- Without arrivals no run of the server goes on for ever, and from every
reached pool some run leads to one in which all tasks have ended. -/
theorem comes_to_rest {admits : ServerPool → ServerLabel → Prop}
    (empty : start.tasks = [])
    (reached : (server outside).Reaches admits start pool) :
    (¬ ∃ pools : Nat → ServerPool, pools 0 = pool ∧
      ∀ count, (server outside).Works (pools (count + 1)) (pools count)) ∧
    ∃ rested, (server outside).Reaches Machine.Advances pool rested ∧
      Machine.AtRest rested :=
  have acc := acc_works empty reached
  ⟨Machine.not_endless acc, Machine.exists_atRest perform_enabled acc⟩

theorem comes_to_rest_queued :
    (¬ ∃ pools : Nat → ServerPool, pools 0 = queuedSecond ∧
      ∀ count, (server .accepting).Works (pools (count + 1)) (pools count)) ∧
    ∃ rested, (server .accepting).Reaches Machine.Advances queuedSecond
      rested ∧ Machine.AtRest rested := by
  have reached : (server .accepting).Reaches
      (fun pool label =>
        (Watched.only queuedDeploy).inTurn pool label = true)
      (Watched.only queuedDeploy).started queuedSecond :=
    .of_run .refl (Option.some_get _).symm
  exact comes_to_rest rfl reached

/-! ## At rest -/

/-- The lock of the hook is free or kept for an open decision, and no
execution of the hook is running or on the way from its approval to its
run. -/
structure HookAtRest (slug : String) (db : Db) : Prop where
  held : ∀ id, db.holder? slug = some id →
    ∃ row ∈ db.executions, row.id = id ∧ row.hookSlug = slug ∧
      row.status = .pendingApproval
  idle : ∀ row ∈ db.executions, row.hookSlug = slug →
    row.status ≠ .running ∧ row.status ≠ .approved

namespace Watched

variable {watched : Watched}

/-- At the end of every orderly run an exclusive hook is settled. -/
theorem settled_at_rest (watched : Watched)
    (exclusive : watched.exclusive = true) (empty : start.tasks = [])
    (idle : watched.Idle start.state)
    (reached : (server outside).Reaches watched.Orderly start pool)
    (rests : Machine.AtRest pool) : HookAtRest watched.slug pool.state.db := by
  obtain ⟨ghosts, covers, holds⟩ := reaches_open empty idle reached
  have held (id : String)
      (isHolder : pool.state.db.holder? watched.slug = some id) :
      ∃ row ∈ pool.state.db.executions, row.id = id ∧
        row.hookSlug = watched.slug ∧ row.status = .pendingApproval := by
    rcases heldInHand covers holds id isHolder with
      parked | ⟨task, member, unfinished, -⟩
    · exact parked
    · exact (unfinished (rests task member)).elim
  refine ⟨held, fun row member own => ⟨fun running => ?_, fun approved => ?_⟩⟩
  · have owned : watched.Owned _ (pool.state.db.rowsOf watched.slug) ghosts :=
      holds.1.owned
    have holder := owned.running exclusive row
      (Db.mem_records.mpr ⟨member, own⟩) running
    obtain ⟨parked, inDb, sameId, -, pending⟩ :=
      held row.id (by rw [← Db.rowsOf_holder, holder])
    obtain rfl := holds.1.keys.execution_unique inDb member sameId
    simp [running] at pending
  · obtain ⟨task, inTasks, -, unfinished⟩ :=
      approved_unfinished empty idle reached member own approved
    exact unfinished (rests task inTasks)

end Watched

/-- One trigger and its run, up to the end. -/
def deployedOnce : ServerPool :=
  ((server .accepting).run (steadily (.only queuedDeploy))
    (Watched.only queuedDeploy).started
    (.arrive (.trigger { slug := "deploy" }) ::
      steps 0 1 ++ stepWithId 0 "first" ++ steps 0 5 ++
        stepWithId 0 "fired" ++ steps 0 4 ++ steps 1 8)).get (by decide)

theorem settled_at_rest_once :
    HookAtRest "deploy" deployedOnce.state.db ∧
      deployedOnce.state.db.executions.map (·.status) = [.success] := by
  have reached : (server .accepting).Reaches
      (Watched.only queuedDeploy).Orderly
      (Watched.only queuedDeploy).started deployedOnce :=
    (Machine.Reaches.of_run .refl (Option.some_get _).symm).mono
      fun _ _ admitted => (steady_of_steadily admitted).1
  have settled := Watched.settled_at_rest (.only queuedDeploy) (by decide)
    rfl (Watched.idle_started _) reached (by decide)
  exact ⟨settled, by decide⟩

end Sendword
