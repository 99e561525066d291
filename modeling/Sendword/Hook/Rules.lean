import Sendword.Hook.Ghost

/-!
# Rules of the protocol

One rule for each operation: what has to hold before it, and from which
ghost values the rest of the program must go on.
-/

namespace Sendword

open Concurrency

namespace Watched

variable {watched : Watched} {reliable : Prop} {outside : Outside}
  {α : Type} {post : Ghost → α → Prop} {ghost : Ghost}

/-- An operation that is always allowed and leaves the ghost as it is. -/
private theorem obeys_neutral (operation : Op)
    (next : operation.Answer → Async α)
    (allowed : watched.allows ghost operation)
    (moved : ∀ answer after,
      watched.moves reliable ghost operation answer after ↔ after = ghost) :
    (watched.discipline reliable outside).Obeys (.perform operation next)
        post ghost ↔
      ∀ answer, (watched.discipline reliable outside).Obeys (next answer)
        post ghost := by
  rw [Discipline.obeys_perform]
  constructor
  · intro obeys answer
    exact obeys.2 answer ghost ((moved answer ghost).mpr rfl)
  · intro continues
    refine ⟨allowed, ?_⟩
    intro answer after step
    rw [(moved answer after).mp step]
    exact continues answer

@[simp] theorem obeys_now (next : Instant → Async α) :
    (watched.discipline reliable outside).Obeys (.perform .now next)
        post ghost ↔
      ∀ instant, (watched.discipline reliable outside).Obeys (next instant)
        post ghost := by
  exact obeys_neutral .now next trivial fun _ _ => Iff.rfl

@[simp] theorem obeys_newId (next : String → Async α) :
    (watched.discipline reliable outside).Obeys (.perform .newId next)
        post ghost ↔
      ∀ id, (watched.discipline reliable outside).Obeys (next id)
        post { ghost with fresh := some id } := by
  simp [Discipline.obeys_perform, discipline, allows, moves]

@[simp] theorem obeys_loadConfig (next : AppConfig → Async α) :
    (watched.discipline reliable outside).Obeys (.perform .loadConfig next)
        post ghost ↔
      (watched.discipline reliable outside).Obeys (next watched.config)
        post ghost := by
  simp [Discipline.obeys_perform, discipline, allows, moves]

theorem obeys_runProcess (context : ExecutionContext)
    (next : ProcessOutcome → Async α) (mayRun : ghost.MayRun) :
    (watched.discipline reliable outside).Obeys
        (.perform (.runProcess context) next) post ghost ↔
      ∀ outcome, (watched.discipline reliable outside).Obeys (next outcome)
        post ghost := by
  exact obeys_neutral (.runProcess context) next mayRun fun _ _ => Iff.rfl

theorem obeys_sendRequest (context : ExecutionContext)
    (next : HttpOutcome → Async α) (mayRun : ghost.MayRun) :
    (watched.discipline reliable outside).Obeys
        (.perform (.sendRequest context) next) post ghost ↔
      ∀ outcome, (watched.discipline reliable outside).Obeys (next outcome)
        post ghost := by
  exact obeys_neutral (.sendRequest context) next mayRun fun _ _ => Iff.rfl

@[simp] theorem obeys_sleep (context : ExecutionContext) (delay : Duration)
    (next : Unit → Async α) :
    (watched.discipline reliable outside).Obeys
        (.perform (.sleep context delay) next) post ghost ↔
      (watched.discipline reliable outside).Obeys (next ()) post ghost := by
  refine (obeys_neutral (.sleep context delay) next trivial
    fun _ _ => Iff.rfl).trans ?_
  exact ⟨fun continues => continues (), fun continues _ => continues⟩

@[simp] theorem obeys_appendRetryMarker (context : ExecutionContext)
    (attempt : Nat) (next : Unit → Async α) :
    (watched.discipline reliable outside).Obeys
        (.perform (.appendRetryMarker context attempt) next) post ghost ↔
      (watched.discipline reliable outside).Obeys (next ()) post ghost := by
  refine (obeys_neutral (.appendRetryMarker context attempt) next trivial
    fun _ _ => Iff.rfl).trans ?_
  exact ⟨fun continues => continues (), fun continues _ => continues⟩

@[simp] theorem obeys_sendNotification (config : NotificationConfig)
    (body : String) (next : Unit → Async α) :
    (watched.discipline reliable outside).Obeys
        (.perform (.sendNotification config body) next) post ghost ↔
      (watched.discipline reliable outside).Obeys (next ()) post ghost := by
  refine (obeys_neutral (.sendNotification config body) next trivial
    fun _ _ => Iff.rfl).trans ?_
  exact ⟨fun continues => continues (), fun continues _ => continues⟩

@[simp] theorem obeys_attempt (statement : AttemptStatement)
    (next : DbResult statement.Row → Async α) :
    (watched.discipline reliable outside).Obeys
        (.perform (.sql (.attempt statement)) next) post ghost ↔
      ∀ answer, (watched.discipline reliable outside).Obeys (next answer)
        post ghost := by
  exact obeys_neutral (.sql (.attempt statement)) next trivial fun _ _ => Iff.rfl

@[simp] theorem obeys_counter (statement : CounterStatement)
    (next : DbResult statement.Row → Async α) :
    (watched.discipline reliable outside).Obeys
        (.perform (.sql (.counter statement)) next) post ghost ↔
      ∀ answer, (watched.discipline reliable outside).Obeys (next answer)
        post ghost := by
  exact obeys_neutral (.sql (.counter statement)) next trivial fun _ _ => Iff.rfl

@[simp] theorem obeys_spawn (job : Job) (next : Unit → Async α) :
    (watched.discipline reliable outside).Obeys (.perform (.spawn job) next)
        post ghost ↔
      watched.allowsSpawn ghost job ∧
        (watched.discipline reliable outside).Obeys (next ()) post
          (ghost.hold .none) := by
  constructor
  · rintro ⟨allowed, continues⟩
    exact ⟨allowed, continues () _ rfl⟩
  · rintro ⟨allowed, continues⟩
    refine ⟨allowed, ?_⟩
    rintro answer after rfl
    exact continues

theorem obeys_record (statement : ExecutionStatement)
    (next : DbResult statement.Row → Async α) :
    (watched.discipline reliable outside).Obeys
        (.perform (.sql (.execution statement)) next) post ghost ↔
      watched.allowsRecord ghost statement ∧
        ∀ answer after, watched.movesRecord ghost after statement answer →
          (watched.discipline reliable outside).Obeys (next answer)
            post after :=
  Iff.rfl

theorem obeys_lock (statement : LockStatement)
    (next : DbResult statement.Row → Async α) :
    (watched.discipline reliable outside).Obeys
        (.perform (.sql (.lock statement)) next) post ghost ↔
      watched.allowsLock ghost statement ∧
        ∀ answer after, watched.movesLock ghost after statement answer →
          (watched.discipline reliable outside).Obeys (next answer)
            post after :=
  Iff.rfl

theorem obeys_queue (statement : QueueStatement)
    (next : DbResult statement.Row → Async α) :
    (watched.discipline reliable outside).Obeys
        (.perform (.sql (.queue statement)) next) post ghost ↔
      watched.allowsQueue ghost statement ∧
        ∀ answer after, watched.movesQueue ghost after statement answer →
          (watched.discipline reliable outside).Obeys (next answer)
            post after :=
  Iff.rfl

@[simp] theorem obeys_selectLatestStarted (slug : String)
    (next : DbResult (Option Execution) → Async α) :
    (watched.discipline reliable outside).Obeys
        (.perform (.sql (.execution (.selectLatestStarted slug))) next)
        post ghost ↔
      ∀ answer, (watched.discipline reliable outside).Obeys (next answer)
        post ghost := by
  simp [obeys_record, allowsRecord, movesRecord]

@[simp] theorem obeys_countWaiting (slug : String)
    (next : DbResult Nat → Async α) :
    (watched.discipline reliable outside).Obeys
        (.perform (.sql (.queue (.countWaiting slug))) next) post ghost ↔
      ∀ answer, (watched.discipline reliable outside).Obeys (next answer)
        post ghost := by
  simp [obeys_queue, allowsQueue, movesQueue]

@[simp] theorem obeys_selectPosition (id : String)
    (next : DbResult (Option Nat) → Async α) :
    (watched.discipline reliable outside).Obeys
        (.perform (.sql (.queue (.selectPosition id))) next) post ghost ↔
      ∀ answer, (watched.discipline reliable outside).Obeys (next answer)
        post ghost := by
  simp [obeys_queue, allowsQueue, movesQueue]

/-- A lookup that may find anything. -/
theorem obeys_getById {post : Ghost → DbResult Execution → Prop}
    (id : String) (role : ghost.role ≠ .replay)
    (continues : ∀ result, post ghost result) :
    (watched.discipline reliable outside).Obeys (getById id) post ghost := by
  simp only [getById, sql, Program.op, Program.bind_eq, Program.pure_eq,
    Program.perform_bind, Program.pure_bind, obeys_record]
  refine ⟨trivial, ?_⟩
  intro answer after moved
  have same : after = ghost := by
    simp only [movesRecord, if_neg role] at moved
    split at moved
    · exact moved.1
    · exact moved.2
  exact same ▸ continues _

/-! ## Owners -/

section Own

variable {locked : Bool} {id : String} {phase : Phase}

/-- An owner's update always finds its record. -/
theorem obeys_ownUpdate {change : ExecutionUpdate}
    (next? : Option Phase) (next : DbResult Nat → Async α)
    (token : ghost.token = .claim locked id phase)
    (target : change.target? = some id)
    (advances : watched.advances ghost.role change phase = some next?)
    (continues : (watched.discipline reliable outside).Obeys (next (.ok 1))
      post (ghost.hold (.become locked id next?))) :
    (watched.discipline reliable outside).Obeys
      (.perform (.sql (.execution (.update change))) next) post ghost := by
  rw [obeys_record]
  refine ⟨by simp [allowsRecord, token, target, advances], ?_⟩
  intro answer after moved
  simp only [movesRecord, token, advances] at moved
  obtain ⟨rfl, rfl⟩ := moved
  exact continues

/-- An owner finds its record. -/
theorem obeys_ownRecord (next : DbResult (Option Execution) → Async α)
    (token : ghost.token = .claim locked id phase)
    (continues : ∀ row : Execution, row.id = id →
      row.hookSlug = watched.slug →
      (watched.discipline reliable outside).Obeys (next (.ok (some row)))
        post ghost) :
    (watched.discipline reliable outside).Obeys
      (.perform (.sql (.execution (.selectById id))) next) post ghost := by
  rw [obeys_record]
  refine ⟨trivial, ?_⟩
  intro answer after moved
  simp only [movesRecord, token, forall_const] at moved
  obtain ⟨rfl, row, rfl, sameId, sameHook⟩ := moved
  exact continues row sameId sameHook

theorem obeys_ownGetById {post : Ghost → DbResult Execution → Prop}
    (token : ghost.token = .claim locked id phase)
    (continues : ∀ row : Execution, row.id = id →
      row.hookSlug = watched.slug → post ghost (.ok row)) :
    (watched.discipline reliable outside).Obeys (getById id) post ghost := by
  simp only [getById, sql, Program.op, Program.bind_eq, Program.pure_eq,
    Program.perform_bind, Program.pure_bind]
  exact obeys_ownRecord _ token continues

/-- The insertion of a record of the hook. -/
theorem obeys_ownCreate {post : Ghost → DbResult Execution → Prop}
    {new : NewExecution} (sameId : new.id = some id)
    (sameHook : new.hookSlug = watched.slug)
    (role : ghost.role = .trigger) (original : new.retryOf = none)
    (allowed : (ghost.token = .unborn id ∧
        new.status.getD .pending = watched.initialStatus true) ∨
      (ghost.token = .none ∧ ghost.fresh = some id ∧
        new.status.getD .pending = watched.initialStatus false))
    (continues : ∀ triggeredAt,
      (watched.discipline reliable outside).Obeys (getById id) post
        (ghost.use.hold
          (watched.inserted (new.record id triggeredAt) ghost.token))) :
    (watched.discipline reliable outside).Obeys (create new) post ghost := by
  simp only [create, sameId, nowUtc, sql, Program.op, Program.bind_eq,
    Program.pure_eq, Program.pure_bind, Program.perform_bind, obeys_now,
    obeys_record]
  intro triggeredAt
  refine ⟨?_, ?_⟩
  · rw [allowsRecord, if_pos (show
      (new.record id (triggeredAt / 1000000)).hookSlug = watched.slug from
        sameHook)]
    exact ⟨role, rfl, original, allowed⟩
  · intro answer after moved
    rw [movesRecord, if_pos (show
      (new.record id (triggeredAt / 1000000)).hookSlug = watched.slug from
        sameHook)] at moved
    obtain ⟨rfl, rfl⟩ := moved
    exact continues (triggeredAt / 1000000)

theorem obeys_ownDelete (next : DbResult Nat → Async α)
    (token : ghost.token = .claim true id phase)
    (done : phase.done = true)
    (continues : ∀ answer,
      (watched.discipline reliable outside).Obeys (next answer)
        post (ghost.hold .none)) :
    (watched.discipline reliable outside).Obeys
      (.perform (.sql (.lock (.delete watched.slug))) next) post ghost := by
  rw [obeys_lock]
  refine ⟨fun _ => ⟨id, phase, token, done⟩, ?_⟩
  intro answer after moved
  simp only [movesLock, if_true] at moved
  exact moved ▸ continues answer

end Own

/-! ## Tasks of other hooks -/

section Other

variable {id slug : String}

theorem obeys_otherUpdate {change : ExecutionUpdate}
    (next : DbResult Nat → Async α)
    (token : ghost.token = .none)
    (known : id ∈ ghost.elsewhere)
    (target : change.target? = some id)
    (undecided : change.decides = none)
    (continues : ∀ answer,
      (watched.discipline reliable outside).Obeys (next answer)
        post ghost) :
    (watched.discipline reliable outside).Obeys
      (.perform (.sql (.execution (.update change))) next) post ghost := by
  rw [obeys_record]
  refine ⟨?_, ?_⟩
  · simp only [allowsRecord, token]
    exact .inr ⟨undecided, id, known, target⟩
  · intro answer after moved
    simp only [movesRecord, token, undecided] at moved
    exact moved ▸ continues answer

theorem obeys_otherRecord (next : DbResult (Option Execution) → Async α)
    (token : ghost.token = .none)
    (known : id ∈ ghost.elsewhere)
    (role : ghost.role ≠ .replay)
    (continues : ∀ row : Execution, row.id = id →
      row.hookSlug ≠ watched.slug →
      (watched.discipline reliable outside).Obeys (next (.ok (some row)))
        post ghost) :
    (watched.discipline reliable outside).Obeys
      (.perform (.sql (.execution (.selectById id))) next) post ghost := by
  rw [obeys_record]
  refine ⟨trivial, ?_⟩
  intro answer after moved
  simp only [movesRecord, token, if_neg role] at moved
  obtain ⟨found, rfl⟩ := moved
  obtain ⟨row, rfl, sameId, otherHook⟩ := found known
  exact continues row sameId otherHook

theorem obeys_otherGetById {post : Ghost → DbResult Execution → Prop}
    (token : ghost.token = .none) (known : id ∈ ghost.elsewhere)
    (role : ghost.role ≠ .replay)
    (continues : ∀ row : Execution, row.id = id →
      row.hookSlug ≠ watched.slug → post ghost (.ok row)) :
    (watched.discipline reliable outside).Obeys (getById id) post ghost := by
  simp only [getById, sql, Program.op, Program.bind_eq, Program.pure_eq,
    Program.perform_bind, Program.pure_bind]
  exact obeys_otherRecord _ token known role continues

/-- A replay only looks up executions of other hooks. -/
theorem obeys_replayGetById {post : Ghost → DbResult Execution → Prop}
    (token : ghost.token = .none) (role : ghost.role = .replay)
    (fails : ∀ error, post ghost (.error error))
    (continues : ∀ row : Execution, row.id = id →
      row.hookSlug ≠ watched.slug → post (ghost.learn [id]) (.ok row)) :
    (watched.discipline reliable outside).Obeys (getById id) post ghost := by
  simp only [getById, sql, Program.op, Program.bind_eq, Program.pure_eq,
    Program.perform_bind, Program.pure_bind, obeys_record]
  refine ⟨trivial, ?_⟩
  intro answer after moved
  simp only [movesRecord, token, if_pos role] at moved
  rcases moved.2 with ⟨row, rfl, sameId, other, rfl⟩ | ⟨rfl, rfl⟩
  · exact continues row sameId other
  · exact fails _

/-- The insertion of a record of another hook. -/
theorem obeys_otherCreate {post : Ghost → DbResult Execution → Prop}
    {new : NewExecution} (sameId : new.id = some id)
    (other : new.hookSlug ≠ watched.slug)
    (token : ghost.token = .none) (fresh : ghost.fresh = some id)
    (fails : ∀ error, post ghost (.error error))
    (continues : (watched.discipline reliable outside).Obeys (getById id)
      post (ghost.use.learn [id])) :
    (watched.discipline reliable outside).Obeys (create new) post ghost := by
  simp only [create, sameId, nowUtc, sql, Program.op, Program.bind_eq,
    Program.pure_eq, Program.pure_bind, Program.perform_bind, obeys_now,
    obeys_record]
  intro triggeredAt
  refine ⟨?_, ?_⟩
  · rw [allowsRecord, if_neg (show
      (new.record id (triggeredAt / 1000000)).hookSlug ≠ watched.slug from
        other)]
    exact ⟨token, fresh⟩
  · intro answer after moved
    rw [movesRecord, if_neg (show
      (new.record id (triggeredAt / 1000000)).hookSlug ≠ watched.slug from
        other)] at moved
    rcases moved with ⟨rfl, rfl⟩ | ⟨rfl, rfl⟩
    · exact continues
    · exact fails _

theorem obeys_otherDelete (next : DbResult Nat → Async α)
    (other : slug ≠ watched.slug)
    (continues : ∀ answer,
      (watched.discipline reliable outside).Obeys (next answer)
        post ghost) :
    (watched.discipline reliable outside).Obeys
      (.perform (.sql (.lock (.delete slug))) next) post ghost := by
  rw [obeys_lock]
  refine ⟨fun same => (other same).elim, ?_⟩
  intro answer after moved
  simp only [movesLock, if_neg other] at moved
  exact moved ▸ continues answer

end Other

end Watched

end Sendword
