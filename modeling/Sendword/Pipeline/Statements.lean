import Sendword.Pipeline.Stages

/-!
# The writes of a trigger

Attempts, records and the concurrency barrier, run alone and without a
failing statement.
-/

namespace Sendword

open Concurrency

/-- The operation is a statement that failed. -/
def failed : Event Op.Answer → Bool
  | ⟨.sql _, answer⟩ => (Except.toOption answer).isNone
  | _ => false

/-- No statement fails. -/
def Sound (trace : List (Event Op.Answer)) : Prop :=
  ∀ event ∈ trace, failed event = false

variable {stage : Stage} {world middle after : World}
  {trace first second : List (Event Op.Answer)}

theorem Sound.append (sound : Sound (first ++ second)) :
    Sound first ∧ Sound second :=
  ⟨fun event member => sound event (List.mem_append_left _ member),
    fun event member => sound event (List.mem_append_right _ member)⟩

/-! ## Attempts and records -/

/-- The row that a new attempt becomes. -/
def NewTriggerAttempt.row (new : NewTriggerAttempt) (id : String)
    (attemptedAt : Timestamp) : TriggerAttempt :=
  { id
    hookSlug := new.hookSlug
    attemptedAt
    sourceIp := new.sourceIp
    status := new.status
    reason := new.reason
    executionId := new.executionId }

theorem Sound.statement {statement : Statement}
    {answer : DbResult statement.Row} {error : DbError}
    (sound : Sound [⟨.sql statement, answer⟩])
    (isError : answer = .error error) : False := by
  have fine := sound _ (List.mem_singleton.mpr rfl)
  rw [isError] at fine
  cases fine

theorem runs_insertAttempt {new : NewTriggerAttempt}
    {result : DbResult TriggerAttempt}
    (runs : RunsAlone (insertAttempt new) world trace result after)
    (sound : Sound trace) :
    ∃ id time, after.db =
      { world.db with attempts := world.db.attempts ++ [new.row id time] } := by
  obtain ⟨_, id, named, _, rfl, draws, later⟩ := runs_bind_eq.mp runs
  obtain ⟨_, time, clocked, _, rfl, clock, stores⟩ := runs_bind_eq.mp later
  obtain ⟨_, inserted, stored, _, rfl, inserts, reads⟩ :=
    runs_bind_eq.mp stores
  have same : clocked.db = world.db :=
    (untouched_of_nowUtc clock).db.trans (untouched_of_newId draws).db
  obtain ⟨rfl, answer, written⟩ := runs_sql.mp inserts
  rw [same] at answer written
  refine ⟨id, time, ?_⟩
  simp only [Statement.exec, AttemptStatement.exec] at answer written
  split at answer
  · exact (sound.append.2.append.2.append.1.statement answer).elim
  · rename_i fresh
    rw [if_neg fresh] at written
    rw [answer] at reads
    obtain ⟨_, row, _, _, rfl, selects, ended⟩ := runs_bind_eq.mp reads
    obtain ⟨-, -, rfl⟩ := runs_return.mp ended
    obtain ⟨-, -, rfl⟩ := runs_sql.mp selects
    rw [written]
    rfl

theorem insertAttempt_early (new : NewTriggerAttempt) :
    (insertAttempt new).Avoids (Op.after stage) := by
  simp only [insertAttempt, Sendword.newId, nowUtc, sql, Sendword.op,
    Program.op, Program.bind_eq, Program.perform_bind, Program.pure_eq,
    Program.pure_bind, Program.avoids_perform]
  refine ⟨id, fun named => ⟨id, fun time => ⟨id, fun inserted => ?_⟩⟩⟩
  cases inserted with
  | error error => trivial
  | ok _ => exact ⟨id, fun _ => trivial⟩

/-- `log_rejection`. -/
theorem runs_logRejection {slug sourceIp reason : String}
    {status : TriggerAttemptStatus} {result : Unit}
    (runs : RunsAlone (logRejection slug sourceIp status reason) world trace
      result after)
    (sound : Sound trace) :
    ∃ attempt : TriggerAttempt, attempt.status = status ∧
      attempt.hookSlug = slug ∧ attempt.sourceIp = sourceIp ∧
      attempt.executionId = none ∧
      after.db =
        { world.db with attempts := world.db.attempts ++ [attempt] } := by
  obtain ⟨_, _, _, _, rfl, inserts, ended⟩ := runs_bind_eq.mp runs
  obtain ⟨rfl, -, rfl⟩ := runs_return.mp ended
  obtain ⟨id, time, written⟩ := runs_insertAttempt inserts sound.append.1
  exact ⟨_, rfl, rfl, rfl, rfl, written⟩

theorem logRejection_early (slug sourceIp reason : String)
    (status : TriggerAttemptStatus) :
    (logRejection slug sourceIp status reason).Avoids (Op.after stage) :=
  (insertAttempt_early _).bind fun _ => trivial

/-- A new record is stored and read back. -/
theorem runs_create {new : NewExecution} {id : String}
    {result : DbResult Execution} (named : new.id = some id)
    (runs : RunsAlone (create new) world trace result after)
    (sound : Sound trace) :
    ∃ time exec, result = .ok exec ∧ exec.id = id ∧
      after.db = { world.db with
        executions := world.db.executions ++ [new.record id time] } := by
  unfold create at runs
  rw [named] at runs
  obtain ⟨_, _, _, _, rfl, known, later⟩ := runs_bind_eq.mp runs
  obtain ⟨rfl, sameId, still⟩ := runs_return.mp known
  rw [sameId, still] at later
  obtain ⟨_, time, clocked, _, rfl, clock, stores⟩ := runs_bind_eq.mp later
  obtain ⟨_, inserted, stored, _, rfl, inserts, reads⟩ :=
    runs_bind_eq.mp stores
  obtain ⟨rfl, answer, written⟩ := runs_sql.mp inserts
  rw [(untouched_of_nowUtc clock).db] at answer written
  refine ⟨time, ?_⟩
  rcases Db.insert_cases world.db (new.record id time) with accepted | refused
  · rw [Statement.exec, accepted] at answer written
    rw [answer] at reads
    obtain ⟨untouched, found⟩ := runs_getById reads
    have row : stored.db = { world.db with
        executions := world.db.executions ++ [new.record id time] } := by
      rw [written]
      rfl
    rw [row] at found
    have isSome : (({ world.db with
        executions := world.db.executions ++ [new.record id time] } :
          Db).execution? id).isSome = true := by
      rw [Db.execution?, List.find?_isSome]
      exact ⟨new.record id time, by simp, by simp [NewExecution.record]⟩
    obtain ⟨exec, isExec⟩ := Option.isSome_iff_exists.mp isSome
    rw [isExec] at found
    exact ⟨exec, found, (Db.execution?_some isExec).2,
      untouched.db.trans row⟩
  · rw [Statement.exec, refused] at answer
    exact (sound.append.2.append.2.append.1.statement answer).elim

/-! ## The barriers -/

/-- The lock is taken, or somebody holds it and nothing changes. -/
theorem runs_tryAcquire {slug id : String} {result : DbResult Bool}
    (runs : RunsAlone (tryAcquire slug id) world trace result after) :
    (result = .ok false ∧ after.db = world.db) ∨
      result = .ok true ∧ ∃ locks, after.db = { world.db with locks } := by
  obtain ⟨_, time, clocked, _, rfl, clock, later⟩ := runs_bind_eq.mp runs
  obtain ⟨_, rows, stored, _, rfl, inserts, ended⟩ := runs_bind_eq.mp later
  obtain ⟨rfl, rfl, rfl⟩ := runs_return.mp ended
  obtain ⟨rfl, rfl, rfl⟩ := runs_sql.mp inserts
  have same := (untouched_of_nowUtc clock).db
  simp only [Statement.exec, LockStatement.exec, same, World.withDb_db]
  split
  · exact .inl ⟨rfl, rfl⟩
  · exact .inr ⟨rfl, _, rfl⟩

theorem runs_countWaiting {slug : String} {result : DbResult Nat}
    (runs : RunsAlone (countWaiting slug) world trace result after) :
    (∃ count, result = .ok count) ∧ after.db = world.db := by
  obtain ⟨rfl, rfl, rfl⟩ := runs_sql.mp runs
  exact ⟨⟨_, rfl⟩, rfl⟩

theorem runs_enqueue {slug id : String} {result : DbResult Nat}
    (runs : RunsAlone (enqueue slug id) world trace result after)
    (sound : Sound trace) :
    (∃ position, result = .ok position) ∧
      ∃ queue, after.db = { world.db with queue } := by
  obtain ⟨_, entry, named, _, rfl, draws, later⟩ := runs_bind_eq.mp runs
  obtain ⟨_, time, clocked, _, rfl, clock, stores⟩ := runs_bind_eq.mp later
  obtain ⟨_, inserted, stored, _, rfl, inserts, reads⟩ :=
    runs_bind_eq.mp stores
  have same : clocked.db = world.db :=
    (untouched_of_nowUtc clock).db.trans (untouched_of_newId draws).db
  obtain ⟨rfl, answer, written⟩ := runs_sql.mp inserts
  rw [same] at answer written
  rcases Db.enqueue_cases world.db entry slug id time with
    ⟨position, accepted⟩ | refused
  · rw [Statement.exec, accepted] at answer written
    rw [answer] at reads
    obtain ⟨_, row, _, _, rfl, selects, ended⟩ := runs_bind_eq.mp reads
    obtain ⟨-, rfl, rfl⟩ := runs_return.mp ended
    obtain ⟨-, rfl, rfl⟩ := runs_sql.mp selects
    refine ⟨?_, _, by rw [written]; rfl⟩
    have found : ((world.db.queue ++ [({
        id := entry, hookSlug := slug, executionId := id, position
        queuedAt := time } : QueueRow)]).find?
          fun row => row.id == entry).isSome = true := by
      rw [List.find?_isSome]
      exact ⟨_, List.mem_append_right _ (List.mem_singleton.mpr rfl),
        by simp⟩
    obtain ⟨row, isRow⟩ := Option.isSome_iff_exists.mp found
    refine ⟨row.position, ?_⟩
    simp [Statement.exec, QueueStatement.exec, written, isRow]
  · rw [Statement.exec, refused] at answer
    exact (sound.append.2.append.2.append.1.statement answer).elim

/-- What the concurrency barrier leaves behind. -/
inductive Evaluated (execId : String) (new : NewExecution)
    (trace : List (Event Op.Answer)) (before after : Db) :
    BarrierOutcome → Prop where
  | proceed (locks : List LockRow) :
      after = { before with locks } →
      Evaluated execId new trace before after .proceed
  | reject (reason : String) :
      after = before →
      (∀ event ∈ trace, ¬ event.op.after .concurrency) →
      Evaluated execId new trace before after
        (.reject .concurrencyRejected reason)
  | defer (queue : List QueueRow) (time : Timestamp) (reason : String) :
      after = { before with
        executions := before.executions ++ [new.record execId time]
        queue } →
      Evaluated execId new trace before after
        (.defer execId .pending reason)

theorem tryAcquire_early (slug id : String) :
    (tryAcquire slug id).Avoids (Op.after .concurrency) := by
  simp [tryAcquire, nowUtc, sql, Sendword.op, Program.op, Op.after]

theorem countWaiting_early (slug : String) :
    (countWaiting slug).Avoids (Op.after .concurrency) := by
  simp [countWaiting, sql, Sendword.op, Program.op, Op.after]

theorem runs_evaluate {slug execId : String} {config : ConcurrencyConfig}
    {new : NewExecution} {outcome : BarrierOutcome}
    (named : new.id = some execId)
    (runs : RunsAlone (evaluate slug execId config new) world trace outcome
      after)
    (sound : Sound trace) :
    Evaluated execId new trace world.db after.db outcome := by
  obtain ⟨_, acquired, locked, _, rfl, acquires, later⟩ :=
    runs_bind_eq.mp runs
  have sound := sound.append.2
  have early := acquires.avoids (tryAcquire_early slug execId)
  rcases runs_tryAcquire acquires with ⟨rfl, same⟩ | ⟨rfl, locks, written⟩
  · dsimp only at later
    split at later
    · obtain ⟨rfl, rfl, rfl⟩ := runs_return.mp later
      exact .reject _ same (by simpa using early)
    · obtain ⟨_, counted, read, _, rfl, counts, joins⟩ :=
        runs_bind_eq.mp later
      obtain ⟨⟨count, rfl⟩, unread⟩ := runs_countWaiting counts
      have sound := sound.append.2
      dsimp only at joins
      split at joins
      · obtain ⟨rfl, rfl, rfl⟩ := runs_return.mp joins
        refine .reject _ (unread.trans same) fun event member => ?_
        rcases List.mem_append.mp member with first | second
        · exact early event first
        · rw [List.append_nil] at second
          exact counts.avoids (countWaiting_early slug) event second
      · obtain ⟨_, created, stored, _, rfl, creates, queues⟩ :=
          runs_bind_eq.mp joins
        obtain ⟨time, exec, rfl, -, inserted⟩ :=
          runs_create named creates sound.append.1
        have sound := sound.append.2
        obtain ⟨_, queued, last, _, rfl, enqueues, ended⟩ :=
          runs_bind_eq.mp queues
        obtain ⟨⟨position, rfl⟩, queue, joined⟩ :=
          runs_enqueue enqueues sound.append.1
        obtain ⟨rfl, rfl, rfl⟩ := runs_return.mp ended
        refine .defer queue time _ ?_
        rw [joined, inserted, unread, same]
  · obtain ⟨rfl, rfl, rfl⟩ := runs_return.mp later
    exact .proceed locks written

end Sendword
