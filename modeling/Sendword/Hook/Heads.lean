import Sendword.Concurrency.Monitor
import Sendword.Hook.QueueOrder
import Sendword.Hook.Reconfigured

/-!
# The head of the queue, as completions see it

A completion reads the head of the queue and then hands the lock on or
releases it.  What it has read stays true as long as nobody queues an
execution behind a queue that was read as empty.
-/

namespace Sendword

open Concurrency

namespace Watched

variable {watched : Watched} {outside : Outside}

/-- The hook queues what finds its lock held. -/
def queues (watched : Watched) : Bool :=
  watched.hook.concurrency.any fun config => config.mode == .queue

theorem KeepsBarriers.same {config : AppConfig} {hook : HookConfig}
    (keeps : watched.KeepsBarriers config) (member : hook ∈ config.hooks)
    (own : hook.slug = watched.slug) :
    hook.concurrency = watched.hook.concurrency ∧
      hook.approval = watched.hook.approval := by
  obtain ⟨other, otherMember, otherOwn, concurrency, approval⟩ := keeps.hook
  obtain rfl : hook = other :=
    List.inj_on_of_nodup_map keeps.distinct member otherMember
      (own.trans otherOwn.symm)
  exact ⟨concurrency, approval⟩

end Watched

/-- The operations that add to the queue of the hook or release its lock. -/
def Op.atQueue (slug : String) : Op → Prop
  | .sql (.lock (.delete target)) => target = slug
  | .sql (.queue (.enqueue _ target ..)) => target = slug
  | _ => False

/-- What a completion of a begun execution has read before it releases the
lock; and that only a hook with a queue adds to it. -/
def releaseMonitor (watched : Watched) : Monitor Job Op.Answer Past where
  start _ := []
  next past event := past ++ [event]
  allows past op :=
    match op with
    | .sql (.lock (.delete target)) =>
        target = watched.slug → watched.queues = true →
          (∃ event ∈ past, event.op.begins) →
          lastPeek watched.slug past = some none
    | .sql (.queue (.enqueue _ target ..)) =>
        target = watched.slug → watched.queues = true
    | _ => True
  happens := watched.ReadsBarriers

theorem releaseMonitor_memory (watched : Watched) (job : Job) (past : Past) :
    (releaseMonitor watched).memory job past = past := by
  induction past using List.reverseRecOn with
  | nil => rfl
  | append_singleton past event induction =>
      rw [Monitor.memory_snoc, induction]
      rfl

namespace Watched

variable {watched : Watched} {outside : Outside} {past : Past} {α : Type}

/-- Any past will do. -/
abbrev Releases (watched : Watched) (program : Async α) (past : Past) :
    Prop :=
  (releaseMonitor watched).Passes program (fun _ _ => True) past

theorem releases_quiet {program : Async α}
    (avoids : program.Avoids (Op.atQueue watched.slug)) :
    watched.Releases program past := by
  refine .of_kept avoids (fun op other memory _ => ⟨?_, fun _ => trivial⟩)
    trivial
  simp only [releaseMonitor]
  split
  · exact fun own => (other own).elim
  · exact fun own => (other own).elim
  · trivial

theorem Releases.after {β : Type} {program : Async α} {rest : α → Async β}
    (first : ∀ past, watched.Releases program past)
    (later : ∀ value past, watched.Releases (rest value) past) :
    watched.Releases (program.bind rest) past :=
  (first past).bind fun memory value _ => later value memory

section Programs

attribute [local simp] nowUtc Sendword.newId Sendword.loadConfig
  Sendword.spawn sql Program.op Op.atQueue

theorem release_unqueued {slug : String}
    (unqueued : slug = watched.slug → watched.queues = false) :
    watched.Releases (release slug) past := by
  refine ⟨fun own queues => ?_, fun _ _ => trivial⟩
  rw [unqueued own] at queues
  cases queues

theorem onExecutionComplete_releases {slug : String}
    {concurrency : Option ConcurrencyConfig}
    {approval : Option ApprovalConfig}
    (same : slug = watched.slug → concurrency = watched.hook.concurrency) :
    watched.Releases (onExecutionComplete slug concurrency approval)
      past := by
  unfold onExecutionComplete
  split
  · refine (release_unqueued fun own => ?_).bind fun _ _ _ => trivial
    simp [queues, ← same own]
  · rename_i config
    split
    · rename_i mode
      refine (release_unqueued fun own => ?_).bind fun _ _ _ => trivial
      simpa [queues, ← same own] using mode
    · refine ⟨trivial, fun next _ => ?_⟩
      simp only [Program.pure_bind]
      split
      · rename_i nothing
        refine ⟨fun own _ _ => ?_, fun _ _ => trivial⟩
        simp [lastPeek, releaseMonitor, peekStep, own, nothing]
      · refine releases_quiet (.bind (by simp [handOff]) fun handed => ?_)
        split
        · trivial
        · refine .bind (by simp [markReady]) fun _ => ?_
          split
          · simp [markPendingApproval]
          · simp

theorem completeHolder_releases {slug id : String}
    {concurrency : Option ConcurrencyConfig}
    {approval : Option ApprovalConfig}
    (same : slug = watched.slug → concurrency = watched.hook.concurrency) :
    watched.Releases (completeHolder slug id concurrency approval) past := by
  refine ⟨trivial, fun holder _ => ?_⟩
  simp only [Program.pure_bind]
  split
  · exact onExecutionComplete_releases same
  · trivial

/-- The operations of a run, of its notification and of the log of attempts
do not concern the queue. -/
theorem Op.atQueue.elsewhere {slug : String} {op : Op}
    (atQueue : op.atQueue slug) :
    (∀ id, ¬ op.ofRun id) ∧ ¬ op.ofNotification ∧ ¬ op.ofAttempt ∧
      ¬ (op.ofSchedule ∨ op.ofRateLimit) ∧ ¬ op.ofCreate := by
  unfold Op.atQueue at atQueue
  split at atQueue
  · exact ⟨fun _ => id, id, id, fun rules => rules.elim id id, id⟩
  · exact ⟨fun _ => id, id, id, fun rules => rules.elim id id, id⟩
  · exact atQueue.elim

theorem runWithRetries_releases (context : ExecutionContext)
    (retries : EffectiveRetryConfig) (past : Past) :
    watched.Releases (runWithRetries context retries) past :=
  releases_quiet ((runWithRetries_ofRun context retries).mono
    fun _ atQueue => (Op.atQueue.elsewhere atQueue).1 _)

theorem notify_releases (hook : HookConfig) (id : String)
    (result : ExecutionResult) (past : Past) :
    watched.Releases (notify outside hook id result) past :=
  releases_quiet ((notify_ofNotification outside hook id result).mono
    fun _ atQueue => (Op.atQueue.elsewhere atQueue).2.1)

theorem insertAttempt_releases (new : NewTriggerAttempt) (past : Past) :
    watched.Releases (insertAttempt new) past :=
  releases_quiet ((insertAttempt_ofAttempt new).mono
    fun _ atQueue => (Op.atQueue.elsewhere atQueue).2.2.1)

theorem create_releases (new : NewExecution) (past : Past) :
    watched.Releases (create new) past :=
  releases_quiet ((create_ofCreate new).mono
    fun _ atQueue => (Op.atQueue.elsewhere atQueue).2.2.2.2)

theorem passApproval_releases (config : AppConfig) (hook : HookConfig)
    (slug sourceIp payload : String) (new : NewExecution) (past : Past) :
    watched.Releases
      (passApproval outside config hook slug sourceIp payload new) past := by
  refine releases_quiet ((passApproval_ofCreate ..).mono
    fun op atQueue => ?_)
  rintro (ofCreate | ofAttempt | ⟨job, rfl⟩)
  · exact (Op.atQueue.elsewhere atQueue).2.2.2.2 ofCreate
  · exact (Op.atQueue.elsewhere atQueue).2.2.1 ofAttempt
  · exact atQueue

theorem evaluate_releases {slug : String} {config : ConcurrencyConfig}
    (same : slug = watched.slug → watched.hook.concurrency = some config)
    (execId : String) (new : NewExecution) (past : Past) :
    watched.Releases (evaluate slug execId config new) past := by
  unfold evaluate
  refine .after (fun _ => releases_quiet (by simp [tryAcquire]))
    fun acquired past => ?_
  split
  · trivial
  · trivial
  · split
    · trivial
    · rename_i mode
      refine .after (fun _ => releases_quiet (by simp [countWaiting]))
        fun count past => ?_
      split
      · trivial
      · split
        · trivial
        · refine .after (create_releases new) fun created past => ?_
          split
          · trivial
          · refine .after (fun past => ?_) fun position past => ?_
            · refine ⟨trivial, fun id _ => ⟨trivial, fun time _ => ?_⟩⟩
              refine ⟨fun own => ?_, fun inserted _ => ?_⟩
              · simp [queues, same own, mode]
              · simp only [Program.pure_bind]
                split
                · trivial
                · exact releases_quiet (by simp)
            · split <;> trivial

theorem passBarriers_releases {config : AppConfig} {hook : HookConfig}
    {slug : String}
    (same : slug = watched.slug →
      hook.concurrency = watched.hook.concurrency)
    (sourceIp payload : String) (past : Past) :
    watched.Releases
      (passBarriers outside config hook slug sourceIp payload) past := by
  refine ⟨trivial, fun execId _ => ?_⟩
  simp only [Program.pure_bind]
  split
  · exact passApproval_releases ..
  · rename_i concurrency isSome
    refine Releases.after (evaluate_releases (fun own => ?_) _ _)
      fun outcome past => ?_
    · rw [← same own, isSome]
    · split
      · exact passApproval_releases ..
      · exact .after (insertAttempt_releases _) fun _ _ => trivial
      · exact .after (insertAttempt_releases _) fun _ _ => trivial

theorem triggerHook_releases (request : TriggerRequest) (past : Past) :
    watched.Releases (triggerHook outside request) past := by
  have rejected (status : TriggerAttemptStatus) (reason : String)
      (response : Response) (past : Past) : watched.Releases (do
        logRejection request.slug request.sourceIp status reason
        return response) past := by
    refine .after (fun past => ?_) fun _ _ => trivial
    exact .after (insertAttempt_releases _) fun _ _ => trivial
  refine ⟨trivial, fun config reads => ?_⟩
  have keeps := reads config rfl
  simp only [Program.pure_bind]
  split
  · trivial
  · rename_i hook found
    split
    · exact rejected ..
    · split
      · exact rejected ..
      · refine Releases.after (fun past => ?_) fun refusal past => ?_
        · exact releases_quiet ((evaluateRules_ofRules ..).mono
            fun _ atQueue => (Op.atQueue.elsewhere atQueue).2.2.2.1)
        · split
          · exact rejected ..
          · refine passBarriers_releases (fun own => ?_) _ _ _
            have sameSlug : hook.slug = request.slug := by
              have matched := List.find?_some found
              simp only [Bool.and_eq_true, beq_iff_eq] at matched
              exact matched.1
            exact (keeps.same (List.mem_of_find?_eq_some found)
              (sameSlug.trans own)).1

theorem rejectExecution_releases (id user : String) (past : Past) :
    watched.Releases (rejectExecution id user) past := by
  refine .after (fun past => releases_quiet ?_) fun rejected past => ?_
  · refine .bind (by simp) fun time => .bind (by simp) fun rows => ?_
    split
    · trivial
    · simp [getById]
  · cases rejected with
    | error error => trivial
    | ok exec =>
        refine .after
          (fun past => releases_quiet (by simp [expireForExecution]))
          fun _ past => ?_
        refine ⟨trivial, fun config reads => ?_⟩
        have keeps := reads config rfl
        simp only [Program.pure_bind]
        split
        · trivial
        · rename_i hook found
          refine Releases.after
            (fun past => completeHolder_releases fun own => ?_)
            fun _ _ => trivial
          have sameSlug : hook.slug = exec.hookSlug := by
            simpa using List.find?_some found
          exact (keeps.same (List.mem_of_find?_eq_some found)
            (sameSlug.trans own)).1

theorem expireHooks_releases {config : AppConfig}
    (keeps : watched.KeepsBarriers config) (now : Instant)
    {hooks : List HookConfig} (members : ∀ hook ∈ hooks, hook ∈ config.hooks)
    (past : Past) : watched.Releases (expireHooks now hooks) past := by
  induction hooks generalizing past with
  | nil => trivial
  | cons hook hooks induction =>
      have later := induction fun other member =>
        members other (List.mem_cons_of_mem _ member)
      unfold expireHooks
      split
      · exact later past
      · split
        · trivial
        · refine .after (fun past => releases_quiet (by simp))
            fun rows past => ?_
          refine .after (fun past => ?_) fun _ past => later past
          refine (@Monitor.Passes.forEach _ _ _ _ _ _ _ _ (fun _ => True) _
            trivial fun id member past _ => ?_).mono fun _ _ _ => trivial
          refine Releases.after
            (fun past => releases_quiet (by simp [markExpired]))
            fun expired past => ?_
          cases expired with
          | error error => trivial
          | ok _ =>
              refine Releases.after
                (fun past => releases_quiet (by simp [expireForExecution]))
                fun _ past => ?_
              exact completeHolder_releases fun own =>
                (keeps.same (members hook List.mem_cons_self) own).1

theorem runDequeued_releases {slug : String}
    {concurrency : Option ConcurrencyConfig}
    (same : slug = watched.slug → concurrency = watched.hook.concurrency)
    (id : String) (approval : Option ApprovalConfig) :
    watched.Releases (runDequeued outside slug id concurrency approval)
      [] := by
  -- the execution has not begun, so a missing hook may release the lock
  refine ⟨trivial, fun found _ => ?_⟩
  have unbegun : ¬ ∃ event ∈ [(⟨.sql (.execution (.selectById id)), found⟩ :
      Event Op.Answer)], event.op.begins := by
    simp [Op.begins]
  have released : watched.Releases (do
      let _ ← release slug
      return ()) [⟨.sql (.execution (.selectById id)), found⟩] :=
    ⟨fun _ _ begun => (unbegun begun).elim, fun _ _ => trivial⟩
  cases found with
  | error error => exact released
  | ok found =>
      cases found with
      | none => exact released
      | some exec =>
          refine ⟨trivial, fun config reads => ?_⟩
          simp only [Program.pure_bind]
          split
          · refine ⟨fun _ _ begun => ?_, fun _ _ => trivial⟩
            simp [releaseMonitor, Op.begins] at begun
          · refine Releases.after (runWithRetries_releases _ _)
              fun result past => ?_
            refine .after (notify_releases _ _ _) fun _ past => ?_
            exact onExecutionComplete_releases same

theorem body_releases {job : Job}
    (admitted : watched.admits (watched.standIn job)) :
    watched.Releases (taskBody outside job) [] := by
  have finished (program : Async Unit) (past : Past)
      (releases : watched.Releases program past) :
      watched.Releases (program.bind fun _ => .pure Response.finished) past :=
    releases.bind fun _ _ _ => trivial
  cases job with
  | trigger request => exact triggerHook_releases request []
  | approve id user =>
      refine releases_quiet (.bind ?_ fun approved => ?_)
      · refine .bind (by simp) fun time => .bind (by simp) fun rows => ?_
        split
        · trivial
        · simp [getById]
      · cases approved with
        | error error => trivial
        | ok exec =>
            refine .bind (by simp) fun config => ?_
            split <;> simp
  | reject id user => exact rejectExecution_releases id user []
  | replay id =>
      refine releases_quiet (.bind (by simp) fun config => ?_)
      refine .bind (by simp [getById]) fun original => ?_
      cases original with
      | error error => trivial
      | ok original =>
          dsimp only
          split
          · trivial
          · refine .bind (by simp) fun execId => ?_
            refine .bind ((create_ofCreate _).mono fun _ atQueue =>
              (Op.atQueue.elsewhere atQueue).2.2.2.2) fun created => ?_
            cases created with
            | error error => trivial
            | ok exec => simp
  | expirePendingApprovals =>
      refine ⟨trivial, fun config reads => ?_⟩
      simp only [Program.pure_bind]
      refine finished _ _ ⟨trivial, fun now _ => ?_⟩
      exact expireHooks_releases (reads config rfl) now (fun _ => id) _
  | reloadConfig config => exact ⟨trivial, fun _ _ => trivial⟩
  | runExecution context retries hook concurrency approval =>
      refine finished _ _ ?_
      refine .after (runWithRetries_releases context retries)
        fun result past => ?_
      refine .after (notify_releases _ _ _) fun _ past => ?_
      split
      · exact onExecutionComplete_releases fun own => (admitted own).1
      · trivial
  | runDequeued slug id concurrency approval =>
      exact finished _ _ (runDequeued_releases (fun own => (admitted own).2.1)
        id approval)

end Programs

end Watched

/-! ## What was read stays true -/

/-- What an operation does to the entries of a hook. -/
theorem Op.entries_after (db : Db) (slug : String) {op : Op}
    (started : op ≠ .sql (.queue .expireStale)) :
    ((op.db db).rowsOf slug).entries = (db.rowsOf slug).entries ∨
      (∃ id execution queuedAt entry,
        op = .sql (.queue (.enqueue id slug execution queuedAt)) ∧
          entry.position = QueueStatement.nextPosition db slug ∧
          ((op.db db).rowsOf slug).entries =
            (db.rowsOf slug).entries ++ [entry]) ∨
      ∃ change : QueueUpdate, ((op.db db).rowsOf slug).entries =
        (db.rowsOf slug).entries.map change.apply := by
  have unchanged (same : (op.db db).queue = db.queue) :
      ((op.db db).rowsOf slug).entries = (db.rowsOf slug).entries := by
    simp only [Db.rowsOf, same]
  cases op with
  | sql statement =>
      cases statement with
      | queue statement =>
          cases statement with
          | enqueue id target execution queuedAt =>
              simp only [Op.db, Statement.exec, QueueStatement.exec]
              split
              · exact .inl rfl
              · by_cases own : target = slug
                · subst own
                  refine .inr (.inl ⟨id, execution, queuedAt,
                    { id, hookSlug := target, executionId := execution
                      position := QueueStatement.nextPosition db target
                      queuedAt }, rfl, rfl, ?_⟩)
                  simp [Db.rowsOf]
                · left
                  simp [Db.rowsOf, own]
          | update change =>
              refine .inr (.inr ⟨change, ?_⟩)
              exact congrArg HookRows.entries
                (Db.rowsOf_queueUpdate db slug change)
          | selectPosition | peekNext | countWaiting => exact .inl rfl
          | expireStale => exact (started rfl).elim
      | execution | lock | attempt | counter =>
          exact .inl (unchanged (Db.queue_exec (by simp)))
  | now | newId | loadConfig | storeConfig | prepareLogFiles | spawn
  | runProcess | sendRequest | sleep | appendRetryMarker
  | sendNotification => exact .inl rfl

@[simp] theorem QueueUpdate.apply_key (change : QueueUpdate)
    (entry : QueueRow) :
    (change.apply entry).id = entry.id ∧
      (change.apply entry).position = entry.position := by
  unfold apply
  split
  · cases change <;> exact ⟨rfl, rfl⟩
  · exact ⟨rfl, rfl⟩

/-- What the task has read of the queue is true of it. -/
structure HeadKnown (rows : HookRows) (last : Option (Option QueueRow)) :
    Prop where
  empty : last = some none → rows.waiting = []
  first : ∀ row, last = some (some row) →
    (∃ entry ∈ rows.entries,
      entry.id = row.id ∧ entry.position = row.position) ∧
      ∀ other ∈ rows.waiting, row.position ≤ other.position

namespace HeadKnown

variable {db : Db} {slug : String} {op : Op}
  {last : Option (Option QueueRow)}

/-- Nobody queues an execution of the hook where the task has read that
nothing waits. -/
theorem of_op (known : HeadKnown (db.rowsOf slug) last)
    (started : op ≠ .sql (.queue .expireStale))
    (inTime : ∀ id execution queuedAt,
      op = .sql (.queue (.enqueue id slug execution queuedAt)) →
      last ≠ some none) :
    HeadKnown ((op.db db).rowsOf slug) last := by
  rcases op.entries_after db slug started with
    same | ⟨id, execution, queuedAt, entry, rfl, position, added⟩ |
    ⟨change, changed⟩
  · exact
      { empty := by simpa only [HookRows.waiting, same] using known.empty
        first := by
          simpa only [HookRows.waiting, same] using known.first }
  · constructor
    · exact fun nothing => (inTime _ _ _ rfl nothing).elim
    · intro row read
      obtain ⟨⟨old, member, sameId, samePosition⟩, least⟩ :=
        known.first row read
      refine ⟨⟨old, ?_, sameId, samePosition⟩, fun other waits => ?_⟩
      · rw [added]
        exact List.mem_append_left _ member
      · rw [HookRows.waiting, added, List.filter_append] at waits
        rcases List.mem_append.mp waits with before | last
        · exact least other before
        · obtain rfl := List.mem_singleton.mp (List.mem_filter.mp last).1
          rw [position, ← samePosition]
          exact (QueueStatement.position_lt_next member).le
  · have waiting : ((op.db db).rowsOf slug).waiting =
        (db.rowsOf slug).waiting.filter fun entry =>
          !change.matches? entry := by
      simp only [HookRows.waiting, changed]
      exact change.waiting_map _
    constructor
    · intro nothing
      rw [waiting, known.empty nothing]
      rfl
    · intro row read
      obtain ⟨⟨old, member, sameId, samePosition⟩, least⟩ :=
        known.first row read
      refine ⟨⟨change.apply old, ?_, ?_, ?_⟩, fun other waits => ?_⟩
      · rw [changed]
        exact List.mem_map_of_mem member
      · exact (change.apply_key old).1.trans sameId
      · exact (change.apply_key old).2.trans samePosition
      · rw [waiting] at waits
        exact least other (List.mem_filter.mp waits).1

/-- What the task reads next is true when it reads it. -/
theorem of_peek {world state : World} {choice : Choice} {answer : op.Answer}
    (known : HeadKnown (state.db.rowsOf slug) last)
    (performed : perform op choice world = some (answer, state)) :
    HeadKnown (state.db.rowsOf slug) (peekStep slug last ⟨op, answer⟩) := by
  have forgotten : HeadKnown (state.db.rowsOf slug) none :=
    ⟨fun same => (by cases same), fun _ same => (by cases same)⟩
  cases op with
  | sql statement =>
      simp only [perform, Option.some.injEq, Prod.mk.injEq] at performed
      obtain ⟨rfl, rfl⟩ := performed
      cases statement with
      | queue statement =>
          cases statement with
          | peekNext target =>
              simp only [peekStep]
              split
              · rename_i own
                subst own
                have waits : (world.db.rowsOf target).waiting =
                    world.db.waiting target := Db.rowsOf_waiting ..
                constructor
                · intro nothing
                  have least : (world.db.waiting target).argmin
                      (fun entry => entry.position) = none :=
                    Option.some.inj nothing
                  exact waits.trans (List.argmin_eq_none.mp least)
                · intro row read
                  have least : row ∈ (world.db.waiting target).argmin
                      fun entry => entry.position := Option.some.inj read
                  have member := List.argmin_mem least
                  rw [← waits] at member
                  refine ⟨⟨row, (List.mem_filter.mp member).1, rfl, rfl⟩, ?_⟩
                  intro other otherWaits
                  have inDb : other ∈ world.db.waiting target :=
                    waits ▸ otherWaits
                  exact List.le_of_mem_argmin inDb least
              · exact known
          | enqueue | selectPosition | countWaiting | update | expireStale =>
              exact known
      | lock statement =>
          cases statement with
          | delete | update =>
              simp only [peekStep]
              split
              · exact forgotten
              · exact known
          | insertOrIgnore | selectHolder | deleteTerminal => exact known
      | execution | attempt | counter => exact known
  | now | newId | loadConfig | storeConfig | prepareLogFiles | spawn
  | runProcess | sendRequest | sleep | appendRetryMarker
  | sendNotification => exact known

end HeadKnown

/-! ## Runs -/

/-- A task queues an execution of the hook after another one has read that
nothing waits. -/
def queuesLate (slug : String) (pool : ServerPool) (index : Nat) : Bool :=
  match pool.next? index with
  | some (_, _, .sql (.queue (.enqueue _ target ..))) =>
      target == slug && pool.tasks.any fun task =>
        (lastPeek slug task.trace).any (·.isNone)
  | _ => false

namespace Watched

/-- An orderly step that queues nothing late. -/
def Steady (watched : Watched) (pool : ServerPool) (label : ServerLabel) :
    Prop :=
  watched.Orderly pool label ∧ ∀ index choice,
    label = .advance index choice →
    queuesLate watched.slug pool index = false

/-- What the tasks have read of the queue of the hook is true, and without a
queue nothing waits. -/
structure HeadsKnown (watched : Watched) (pool : ServerPool) : Prop where
  known : ∀ task ∈ pool.tasks,
    HeadKnown (pool.state.db.rowsOf watched.slug)
      (lastPeek watched.slug task.trace)
  unqueued : watched.queues = false →
    (pool.state.db.rowsOf watched.slug).waiting = []

variable {watched : Watched} {outside : Outside}
  {start pool target : ServerPool}

/-- From its past on, every task passes. -/
theorem steady_releases (empty : start.tasks = [])
    (idle : watched.Idle start.state)
    (reached : (server outside).Reaches watched.Orderly start pool) :
    ∀ task ∈ pool.tasks, watched.Releases task.program task.trace := by
  intro task member
  obtain ⟨index, found⟩ := List.getElem?_of_mem member
  obtain ⟨ghosts, covers, -⟩ := reaches_open empty idle reached
  obtain ⟨ghost, -, -, linked, -⟩ := covers.pick found
  have body : (releaseMonitor watched).Passes (taskBody outside task.job)
      (fun _ _ => True) ((releaseMonitor watched).start task.job) :=
    body_releases linked.1.admitted
  have passes := body.follows (reached.follows empty task member)
    (open_reads empty reached task member)
  rwa [releaseMonitor_memory] at passes

theorem headKnown_nothing {rows : HookRows} : HeadKnown rows none :=
  ⟨fun same => (by cases same), fun _ same => (by cases same)⟩

theorem headsKnown_advance {index : Nat} {choice : Choice}
    (empty : start.tasks = []) (idle : watched.Idle start.state)
    (reached : (server outside).Reaches watched.Orderly start pool)
    (inTime : queuesLate watched.slug pool index = false)
    (taken : (server outside).step pool (.advance index choice) = some target)
    (heads : watched.HeadsKnown pool) : watched.HeadsKnown target := by
  obtain ⟨job, trace, op, next, answer, state, found, performed, rfl⟩ :=
    Machine.step_advance taken
  obtain ⟨ghosts, covers, -⟩ := reaches_open empty idle reached
  obtain ⟨ghost, -, -, -, obeys⟩ := covers.pick found
  have db := perform_db performed
  have started : op ≠ .sql (.queue .expireStale) := by
    rintro rfl
    exact obeys.1
  have kept (task : ServerTask) (member : task ∈ pool.tasks) :
      HeadKnown (state.db.rowsOf watched.slug)
        (lastPeek watched.slug task.trace) := by
    rw [db]
    refine (heads.known task member).of_op started ?_
    rintro id execution queuedAt rfl nothing
    simp only [queuesLate, Pool.next?_eq found, beq_self_eq_true,
      Bool.true_and, List.any_eq_false] at inTime
    exact inTime task member (by simp [nothing])
  constructor
  · intro task member
    rcases List.mem_append.mp member with old | new
    · rcases List.mem_or_eq_of_mem_set old with other | rfl
      · exact kept task other
      · rw [lastPeek_snoc]
        exact (kept _ (List.mem_of_getElem? found)).of_peek performed
    · simp only [Machine.forked, Option.mem_toList, Option.map_eq_some_iff]
        at new
      obtain ⟨child, -, rfl⟩ := new
      exact headKnown_nothing
  · intro without
    have nothing := heads.unqueued without
    have passes := steady_releases empty idle reached _
      (List.mem_of_getElem? found)
    change (state.db.rowsOf watched.slug).waiting = []
    rw [db]
    rcases op.entries_after pool.state.db watched.slug started with
      same | ⟨id, execution, queuedAt, entry, rfl, -⟩ | ⟨change, changed⟩
    · simpa only [HookRows.waiting, same] using nothing
    · have queues : watched.queues = true := passes.1 rfl
      rw [without] at queues
      cases queues
    · have waiting := change.waiting_map
        (pool.state.db.rowsOf watched.slug).entries
      rw [HookRows.waiting, changed, waiting]
      rw [HookRows.waiting] at nothing
      rw [nothing]
      rfl

theorem reaches_headsKnown (empty : start.tasks = [])
    (idle : watched.Idle start.state)
    (reached : (server outside).Reaches watched.Steady start pool) :
    watched.HeadsKnown pool := by
  induction reached with
  | refl =>
      refine ⟨by simp [empty], fun _ => ?_⟩
      exact (Db.rowsOf_waiting ..).trans idle.nothingWaits
  | @step pool target label before admitted taken induction =>
      cases label with
      | arrive job =>
          obtain rfl : { pool with
              tasks := pool.tasks ++ [(server outside).launch job] } =
              target := by simpa [Machine.step] using taken
          refine ⟨fun task member => ?_, induction.unqueued⟩
          rcases List.mem_append.mp member with old | new
          · exact induction.known task old
          · rw [List.mem_singleton.mp new]
            exact headKnown_nothing
      | advance index choice =>
          exact headsKnown_advance empty idle
            (before.mono fun _ _ steady => steady.1)
            (admitted.2 index choice rfl) taken induction

end Watched

end Sendword
