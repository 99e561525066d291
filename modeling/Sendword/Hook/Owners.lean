import Sendword.Footprint
import Sendword.Hook.Protocol

/-!
# Live owners of the lock

The tasks that own the lock of a hook, read off from what they have done, and
the row of the hook in `execution_locks`.
-/

namespace Sendword

open Concurrency

/-- The execution for which a task that has not ended owns the lock. -/
def liveOwner? (slug : String) (task : ServerTask) : Option String :=
  if task.program.next?.isSome then lockOwned slug task.job task.trace
  else none

/-- The executions for which live tasks own the lock: a handler that acquired
it and has not spawned, the task it spawned, or a dequeued successor. -/
def liveOwners (slug : String) (tasks : List ServerTask) : List String :=
  tasks.filterMap (liveOwner? slug)

/-! ## Runs end when they give the lock up -/

/-- The operations with which a run gives the lock up. -/
def Op.givesUp : Op → Prop
  | .sql (.lock (.delete _)) | .spawn _ => True
  | _ => False

section Runs

attribute [local simp] nowUtc Sendword.newId Sendword.loadConfig
  Sendword.spawn sql Program.op Op.givesUp

theorem avoids_runWithRetries (context : ExecutionContext)
    (retries : EffectiveRetryConfig) :
    (runWithRetries context retries).Avoids Op.givesUp := by
  refine (runWithRetries_ofRun context retries).mono fun op gives => ?_
  cases op with
  | sql statement =>
      cases statement with
      | execution => exact gives.elim
      | lock | queue | attempt | counter => exact id
  | spawn => exact id
  | now | newId | loadConfig | storeConfig | prepareLogFiles | runProcess
  | sendRequest | sleep | appendRetryMarker | sendNotification =>
      exact gives.elim

theorem avoids_notify (outside : Outside) (hook : HookConfig) (id : String)
    (result : ExecutionResult) :
    (notify outside hook id result).Avoids Op.givesUp := by
  refine (notify_ofNotification outside hook id result).mono
    fun op gives => ?_
  cases op with
  | sql statement =>
      cases statement with
      | execution => exact gives.elim
      | lock | queue | attempt | counter => exact fun same => same
  | spawn => exact fun same => same
  | now | newId | loadConfig | storeConfig | prepareLogFiles | runProcess
  | sendRequest | sleep | appendRetryMarker | sendNotification =>
      exact gives.elim

theorem endsWith_release (slug : String) :
    (release slug).EndsWith Op.givesUp := by
  simp [release]

theorem endsWith_onExecutionComplete (slug : String)
    (concurrency : Option ConcurrencyConfig)
    (approval : Option ApprovalConfig) :
    (onExecutionComplete slug concurrency approval).EndsWith
      Op.givesUp := by
  have releases : ((release slug).bind fun _ =>
      (.pure () : Async Unit)).EndsWith Op.givesUp :=
    (endsWith_release slug).map fun _ => ()
  unfold onExecutionComplete
  split
  · exact releases
  · split
    · exact releases
    · refine Program.EndsWith.after (by simp [peekNext]) fun next => ?_
      split
      · exact releases
      · refine Program.EndsWith.after (by simp [handOff]) fun handed => ?_
        cases handed with
        | error error => trivial
        | ok _ =>
            refine Program.EndsWith.after (by simp [markReady]) fun _ => ?_
            split
            · simp [markPendingApproval]
            · simp

/-- A run of the hook ends with the operation that gives the lock up. -/
theorem endsWith_body {outside : Outside} {job : Job} {slug id : String}
    (runs : job.runs? slug = some id) :
    (taskBody outside job).EndsWith Op.givesUp := by
  cases job with
  | runExecution context retries hook concurrency approval =>
      refine Program.EndsWith.map (fun _ => Response.finished) ?_
      refine Program.EndsWith.after (avoids_runWithRetries context retries)
        fun result => ?_
      refine Program.EndsWith.after (avoids_notify outside hook _ result)
        fun _ => ?_
      split
      · exact endsWith_onExecutionComplete _ _ _
      · trivial
  | runDequeued hookSlug id concurrency approval =>
      have releases : ((release hookSlug).bind fun _ =>
          (.pure () : Async Unit)).EndsWith Op.givesUp :=
        (endsWith_release hookSlug).map fun _ => ()
      refine Program.EndsWith.map (fun _ => Response.finished) ?_
      refine Program.EndsWith.after (by simp [getById]) fun found => ?_
      cases found with
      | error error => exact releases
      | ok exec =>
          refine Program.EndsWith.after (by simp) fun config => ?_
          split
          · exact releases
          · refine Program.EndsWith.after (avoids_runWithRetries _ _)
              fun result => ?_
            refine Program.EndsWith.after (avoids_notify outside _ _ result)
              fun _ => ?_
            exact endsWith_onExecutionComplete _ _ _
  | trigger | approve | reject | replay | expirePendingApprovals
  | reloadConfig => cases runs

end Runs

/-! ## The owners and the lock row -/

/-- Until it gives the lock up, a task that started out with it keeps it. -/
theorem lockOwned_of_kept {slug : String} {job : Job} {past : Past}
    (held : (job.locks? slug).isSome = true)
    (kept : ∀ event ∈ past, ¬ event.op.givesUp) :
    (lockOwned slug job past).isSome = true := by
  induction past using List.reverseRecOn with
  | nil => exact held
  | append_singleton past event induction =>
      have before := induction fun other member =>
        kept other (List.mem_append_left _ member)
      have notLast := kept event (by simp)
      rw [lockOwned_snoc]
      unfold lockStep
      split
      · split
        · rfl
        · exact before
      · exact (notLast trivial).elim
      · split
        · rfl
        · exact before
      · exact (notLast trivial).elim
      · exact before

theorem lockIds_coe (ghosts : List Ghost) :
    lockIds ghosts = (ghosts.filterMap (·.token.lock) : List String) := by
  induction ghosts with
  | nil => rfl
  | cons ghost ghosts induction =>
      rw [← Multiset.cons_coe, lockIds_cons, induction, Multiset.coe_add]
      cases lock : ghost.token.lock with
      | none => simp [lock]
      | some id => simp [lock]

/-- A hook has at most one lock row. -/
theorem Db.locks_holder {db : Db} (keys : db.Keys) (slug : String) :
    (db.rowsOf slug).locks.map (·.executionId) =
      (db.holder? slug).toList := by
  have distinct := keys.locks.sublist
    ((List.filter_sublist (p := fun row => row.hookSlug == slug)).map _)
  have own : ∀ row ∈ (db.rowsOf slug).locks, row.hookSlug = slug := by
    intro row member
    simpa using (List.mem_filter.mp member).2
  rw [← Db.rowsOf_holder, HookRows.holder]
  change ((db.rowsOf slug).locks.map (·.hookSlug)).Nodup at distinct
  cases locks : (db.rowsOf slug).locks with
  | nil => rfl
  | cons first others =>
      cases others with
      | nil => rfl
      | cons second others =>
          rw [locks] at own distinct
          have same := (own first (by simp)).trans
            (own second (by simp)).symm
          simp [same] at distinct

namespace Watched

variable {watched : Watched} {reliable : Prop} {outside : Outside}
  {pool : ServerPool} {ghosts : List Ghost}

theorem liveOwners_eq
    (covers : (watched.discipline reliable outside).Covers pool ghosts)
    (ungated : watched.gated = false) :
    liveOwners watched.slug pool.tasks =
      ghosts.filterMap (·.token.lock) := by
  have pointwise : pool.tasks.map (liveOwner? watched.slug) =
      ghosts.map (·.token.lock) := by
    refine covers.map_eq _ _ fun task ghost linked obeys => ?_
    unfold liveOwner?
    cases program : task.program with
    | pure value =>
        rw [program] at obeys
        exact (obeys : ghost.token.lock = none).symm
    | perform op next => exact (linked.lock ungated).symm
  have filtered := congrArg (List.filterMap id) pointwise
  simpa [List.filterMap_map, liveOwners] using filtered

/-- The lock rows of the hook are the live owners of the lock. -/
theorem locks_liveOwners {crew : Role → Prop}
    (covers : (watched.discipline reliable outside).Covers pool ghosts)
    (holds : watched.Holds crew pool.state ghosts)
    (exclusive : watched.exclusive = true)
    (ungated : watched.gated = false) :
    liveOwners watched.slug pool.tasks =
      (pool.state.db.holder? watched.slug).toList := by
  have locked := holds.1.owned.locked exclusive
  rw [holds.1.owned.ungated ungated, add_zero, lockIds_coe,
    ← liveOwners_eq covers ungated, Db.rowsOf_holder] at locked
  have perm := Multiset.coe_eq_coe.mp locked
  cases held : pool.state.db.holder? watched.slug with
  | none =>
      rw [held] at perm
      exact List.perm_nil.mp perm
  | some id =>
      rw [held] at perm
      exact List.perm_singleton.mp perm

/-- A run of the hook that has not ended owns the lock. -/
theorem liveOwner_of_runs {task : ServerTask} {id : String}
    (follows : (taskBody outside task.job).Follows task.trace task.program)
    (exclusive : watched.exclusive = true)
    (admitted : watched.admits task.job)
    (runs : task.job.runs? watched.slug = some id)
    (unfinished : task.program.next? ≠ none) :
    (liveOwner? watched.slug task).isSome = true := by
  have held : (task.job.locks? watched.slug).isSome = true := by
    cases job : task.job with
    | runExecution context retries hook concurrency approval =>
        rw [job] at runs admitted
        simp only [Job.runs?] at runs
        split at runs
        · rename_i own
          have some : concurrency.isSome = true :=
            (admitted own).1 ▸ exclusive
          simp [Job.locks?, own, some]
        · cases runs
    | runDequeued slug execution concurrency approval =>
        rw [job] at runs
        simp only [Job.runs?] at runs
        split at runs
        · rename_i own
          simp [Job.locks?, own]
        · cases runs
    | trigger | approve | reject | replay | expirePendingApprovals
    | reloadConfig =>
        rw [job] at runs
        cases runs
  have kept := (follows.endsWith (endsWith_body runs)).2 unfinished
  unfold liveOwner?
  rw [if_pos (Option.isSome_iff_ne_none.mpr unfinished)]
  exact lockOwned_of_kept held kept

/-! ## Tasks of other hooks -/

section Frame

variable {world state : World} {ghost : Ghost} {rest : Multiset Ghost}

theorem foreign_record {statement : ExecutionStatement}
    (foreign : ghost.role = .foreign) (token : ghost.token = .none)
    (allowed : watched.allowsRecord ghost statement)
    (holds : watched.Invariant world (ghost ::ₘ rest)) :
    (statement.exec world.db).2.rowsOf watched.slug =
      world.db.rowsOf watched.slug := by
  cases statement with
  | insert row =>
      by_cases own : row.hookSlug = watched.slug
      · simp [allowsRecord, own, foreign] at allowed
      · rcases Db.insert_cases world.db row with accepted | refused
        · rw [accepted]
          exact Db.rowsOf_insert_other own
        · rw [refused]
  | update change =>
      simp only [allowsRecord, token, foreign] at allowed
      rcases allowed with ⟨decider, -⟩ | ⟨-, id, known, target⟩
      · cases decider
      · exact Db.rowsOf_update_other target (holds.elsewhere_absent
          (holds.own_informed.elsewhere id known))
  | selectById | selectLatestStarted | selectOverdue => rfl

theorem foreign_lock {statement : LockStatement}
    (foreign : ghost.role = .foreign) (token : ghost.token = .none)
    (allowed : watched.allowsLock ghost statement) :
    (statement.exec world.db).2.rowsOf watched.slug =
      world.db.rowsOf watched.slug := by
  cases statement with
  | insertOrIgnore slug id acquiredAt =>
      by_cases own : slug = watched.slug
      · simp [allowsLock, own, foreign] at allowed
      · exact Db.rowsOf_lock_other rfl own
  | delete slug =>
      by_cases own : slug = watched.slug
      · simp [allowsLock, own, token] at allowed
      · exact Db.rowsOf_lock_other rfl own
  | update slug id acquiredAt =>
      by_cases own : slug = watched.slug
      · simp [allowsLock, own, token] at allowed
      · exact Db.rowsOf_lock_other rfl own
  | selectHolder slug => rfl
  | deleteTerminal => exact allowed.elim

theorem foreign_queue {statement : QueueStatement}
    (token : ghost.token = .none)
    (allowed : watched.allowsQueue ghost statement)
    (holds : watched.Invariant world (ghost ::ₘ rest)) :
    (statement.exec world.db).2.rowsOf watched.slug =
      world.db.rowsOf watched.slug := by
  cases statement with
  | enqueue id slug execution queuedAt =>
      by_cases own : slug = watched.slug
      · simp [allowsQueue, own, token] at allowed
      · rcases Db.enqueue_cases world.db id slug execution queuedAt with
          ⟨position, accepted⟩ | refused
        · rw [accepted]
          exact Db.rowsOf_enqueue_other own
        · rw [refused]
  | update change =>
      have unmatched := holds.unmatched allowed (by simp [token])
      rw [Db.rowsOf_queueUpdate]
      have same : (world.db.rowsOf watched.slug).entries.map change.apply =
          (world.db.rowsOf watched.slug).entries := by
        refine (List.map_congr_left fun entry member => ?_).trans
          (List.map_id _)
        have missed : change.matches? entry = false := by
          by_cases waits : entry.status = .waiting
          · exact unmatched entry
              (List.mem_filter.mpr ⟨member, by simp [waits]⟩)
          · cases change <;> simp [QueueUpdate.matches?, waits]
        simp [QueueUpdate.apply, missed]
      rw [same]
  | selectPosition | peekNext | countWaiting => rfl
  | expireStale => exact allowed.elim

/-- A task of another hook leaves the rows of the hook as they are. -/
theorem foreign_frame {op : Op} {choice : Choice} {answer : op.Answer}
    (foreign : ghost.role = .foreign) (token : ghost.token = .none)
    (allowed : watched.allows ghost op)
    (performed : perform op choice world = some (answer, state))
    (holds : watched.Invariant world (ghost ::ₘ rest)) :
    state.db.rowsOf watched.slug = world.db.rowsOf watched.slug := by
  cases op with
  | sql statement =>
      simp only [perform, Option.some.injEq, Prod.mk.injEq] at performed
      obtain ⟨-, rfl⟩ := performed
      cases statement with
      | execution statement =>
          exact foreign_record foreign token allowed holds
      | lock statement => exact foreign_lock foreign token allowed
      | queue statement => exact foreign_queue token allowed holds
      | attempt statement =>
          obtain ⟨executions, locks, queue⟩ :=
            Db.attempt_exec world.db statement
          exact Db.rowsOf_congr _ executions locks queue
      | counter statement =>
          obtain ⟨executions, locks, queue⟩ :=
            Db.counter_exec world.db statement
          exact Db.rowsOf_congr _ executions locks queue
  | now | newId =>
      simp only [perform] at performed
      split at performed
      · cases performed <;> rfl
      · cases performed <;> rfl
  | loadConfig | storeConfig | prepareLogFiles | spawn | runProcess
  | sendRequest | sleep | appendRetryMarker | sendNotification =>
      simp only [perform, Option.some.injEq, Prod.mk.injEq] at performed
      obtain ⟨-, rfl⟩ := performed
      rfl

end Frame

end Watched

end Sendword
