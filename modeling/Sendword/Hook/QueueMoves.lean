import Sendword.Hook.Protocol

/-!
# What a step does with the queue

Every step of every task, seen from the queue of the hook: which entry it
adds, reads or serves, and which execution its task owns afterwards.
-/

namespace Sendword

open Concurrency

/-- The entry that a task has read and not served yet. -/
def Token.serves : Token → Option String
  | .taking _ _ entry _ | .succeeding entry _ => some entry
  | .none | .unborn _ | .claim .. => Option.none

/-- The execution that a task was started to run. -/
def Role.runs? : Role → Option String
  | .runner id => some id
  | .trigger | .decider | .foreign | .replay => none

theorem Role.runs?_eq {role : Role} {id : String} :
    role.runs? = some id ↔ role = .runner id := by
  cases role <;> simp [Role.runs?]

namespace Watched

variable {watched : Watched} {reliable : Prop}

/-- The ways in which a step touches the queue of the hook. -/
inductive QueueMove (watched : Watched) (db other : Db)
    (ghost after : Ghost) : Prop where
  | quiet :
      (other.rowsOf watched.slug).entries =
        (db.rowsOf watched.slug).entries →
      (after.token.serves = none ∨
        after.token.serves = ghost.token.serves) →
      QueueMove watched db other ghost after
  | peeked (entry : QueueRow) :
      other = db →
      (db.waiting watched.slug).argmin (fun row => row.position) =
        some entry →
      after.token.serves = some entry.id →
      QueueMove watched db other ghost after
  | enqueued (entry : QueueRow) :
      entry.status = .waiting →
      entry.position = QueueStatement.nextPosition db watched.slug →
      ghost.token = .claim false entry.executionId .queued →
      after = ghost.hold .none →
      (other.rowsOf watched.slug).entries =
        (db.rowsOf watched.slug).entries ++ [entry] →
      QueueMove watched db other ghost after
  | served (entry execution : String) :
      ghost.token = .succeeding entry execution →
      after = ghost.hold (.claim true execution .taken) →
      (other.rowsOf watched.slug).entries =
        (db.rowsOf watched.slug).entries.map
          (QueueUpdate.markReady entry).apply →
      QueueMove watched db other ghost after

section Step

variable {world state : World} {ghost after : Ghost} {rest : Multiset Ghost}

/-- Statements about records leave the entries being served alone. -/
theorem serves_record {statement : ExecutionStatement}
    {answer : DbResult statement.Row}
    (allowed : watched.allowsRecord ghost statement)
    (moved : watched.movesRecord ghost after statement answer) :
    after.token.serves = none ∨
      after.token.serves = ghost.token.serves := by
  cases statement with
  | insert row =>
      simp only [movesRecord] at moved
      split at moved
      · obtain ⟨-, rfl⟩ := moved
        left
        simp only [Ghost.hold, inserted]
        split <;> split <;> rfl
      · rcases moved with ⟨-, rfl⟩ | ⟨-, rfl⟩ <;> exact .inr rfl
  | selectById id =>
      simp only [movesRecord] at moved
      split at moved
      · exact .inr (moved.1 ▸ rfl)
      · rcases moved with ⟨-, moved⟩
        split at moved
        · rcases moved with ⟨row, -, -, -, rfl⟩ | ⟨-, rfl⟩ <;> exact .inr rfl
        · exact .inr (moved ▸ rfl)
  | update change =>
      simp only [movesRecord] at moved
      split at moved
      · rw [moved.2]
        left
        simp only [Ghost.hold]
        cases (watched.advances ghost.role change _).join <;> rfl
      · rcases moved with ⟨rows, -, -, id, -, decided⟩ | ⟨-, rfl⟩
        · rcases decided with ⟨-, -, rfl⟩ | ⟨-, rfl⟩
          · exact .inl rfl
          · refine .inr ?_
            cases change <;> rfl
        · refine .inr ?_
          cases change <;> rfl
      · exact .inr (moved ▸ rfl)
  | selectLatestStarted slug => exact .inr (moved ▸ rfl)
  | selectOverdue slug cutoff =>
      obtain ⟨ids, -, rfl⟩ := moved
      split <;> exact .inr rfl

theorem serves_lock {statement : LockStatement}
    {answer : DbResult statement.Row}
    (moved : watched.movesLock ghost after statement answer) :
    after.token.serves = none ∨
      after.token.serves = ghost.token.serves := by
  cases statement with
  | insertOrIgnore slug id acquiredAt =>
      simp only [movesLock] at moved
      split at moved
      · rcases moved with ⟨-, rfl⟩ | ⟨-, rfl⟩
        · exact .inl rfl
        · exact .inr rfl
      · exact .inr (moved ▸ rfl)
  | delete slug =>
      simp only [movesLock] at moved
      split at moved
      · exact .inl (moved ▸ rfl)
      · exact .inr (moved ▸ rfl)
  | update slug id acquiredAt =>
      simp only [movesLock] at moved
      split at moved
      · obtain ⟨-, old, phase, entry, execution, token, rfl⟩ := moved
        rw [token]
        exact .inr rfl
      · exact .inr (moved ▸ rfl)
  | selectHolder slug =>
      simp only [movesLock] at moved
      split at moved
      · split at moved
        · exact .inr (moved.2 ▸ rfl)
        · exact .inl (moved.2 ▸ rfl)
        · exact .inr (moved.2 ▸ rfl)
      · exact .inr (moved ▸ rfl)
  | deleteTerminal => exact moved.elim

/-- An update that matches no waiting entry of the hook keeps its
entries. -/
theorem entries_unmatched {db : Db} {change : QueueUpdate}
    (unmatched : ∀ entry ∈ (db.rowsOf watched.slug).waiting,
      change.matches? entry = false) :
    (((QueueStatement.update change).exec db).2.rowsOf
        watched.slug).entries =
      (db.rowsOf watched.slug).entries := by
  rw [Db.rowsOf_queueUpdate]
  refine (List.map_congr_left fun entry member => ?_).trans (List.map_id _)
  by_cases waits : entry.status = .waiting
  · have inWaiting : entry ∈ (db.rowsOf watched.slug).waiting :=
      List.mem_filter.mpr ⟨member, by simp [waits]⟩
    simp [QueueUpdate.apply, unmatched entry inWaiting]
  · cases change <;> simp [QueueUpdate.apply, QueueUpdate.matches?, waits]

theorem queueMove_queue {statement : QueueStatement}
    (holds : watched.Invariant world (ghost ::ₘ rest))
    (allowed : watched.allowsQueue ghost statement)
    (moved : watched.movesQueue ghost after statement
      (statement.exec world.db).1) :
    QueueMove watched world.db (statement.exec world.db).2 ghost after := by
  cases statement with
  | enqueue id slug execution queuedAt =>
      by_cases own : slug = watched.slug
      · simp only [allowsQueue, movesQueue, if_pos own] at allowed moved
        subst own
        simp only [QueueStatement.exec] at moved ⊢
        split at moved
        · rename_i refused
          rw [if_pos refused]
          have same : after = ghost := by
            rcases moved with ⟨accepted, -⟩ | ⟨-, same⟩
            · cases accepted
            · exact same
          exact .quiet rfl (.inr (same ▸ rfl))
        · rename_i accepted
          rw [if_neg accepted]
          have released : after = ghost.hold .none := by
            rcases moved with ⟨-, released⟩ | ⟨refused, -⟩
            · exact released
            · cases refused
          refine .enqueued
            { id, hookSlug := watched.slug, executionId := execution
              position := QueueStatement.nextPosition world.db watched.slug
              queuedAt } rfl rfl allowed.1 released ?_
          simp only [Db.rowsOf, List.filter_append, List.filter_cons,
            beq_self_eq_true, if_true, List.filter_nil]
      · simp only [movesQueue, if_neg own] at moved
        refine .quiet ?_ (.inr (moved ▸ rfl))
        rcases Db.enqueue_cases world.db id slug execution queuedAt with
          ⟨position, accepted⟩ | refused
        · rw [accepted, Db.rowsOf_enqueue_other own]
        · rw [refused]
  | selectPosition id => exact .quiet rfl (.inr (moved ▸ rfl))
  | peekNext slug =>
      simp only [movesQueue, QueueStatement.exec] at moved
      rcases moved with ⟨-, rfl⟩ | ⟨entry, found, moved⟩
      · exact .quiet rfl (.inr rfl)
      · split at moved
        · rename_i own
          obtain ⟨id, phase, token, rfl⟩ := moved
          refine .peeked entry rfl ?_ rfl
          simpa [own] using found
        · exact .quiet rfl (.inr (moved ▸ rfl))
  | countWaiting slug => exact .quiet rfl (.inr (moved ▸ rfl))
  | update change =>
      cases change with
      | markReady entry =>
          by_cases serving : ∃ execution,
              ghost.token = .succeeding entry execution
          · obtain ⟨execution, token⟩ := serving
            simp only [movesQueue, token] at moved
            exact .served entry execution token moved
              (by rw [Db.rowsOf_queueUpdate])
          · have token := (allowed.resolve_left serving).1
            simp only [movesQueue, token] at moved
            exact .quiet (entries_unmatched
              (holds.unmatched allowed (by simp [token])))
              (.inr (moved ▸ rfl))
      | expireForExecution execution =>
          have idle : ∀ entry next,
              ghost.token ≠ .succeeding entry next := by
            intro entry next token
            rcases allowed with ⟨locked, claim⟩ | ⟨none, -⟩
            · simp [token] at claim
            · simp [token] at none
          exact .quiet (entries_unmatched (holds.unmatched allowed idle))
            (.inr (moved ▸ rfl))
  | expireStale => exact allowed.elim

theorem queueMove_of_step {op : Op} {choice : Choice} {answer : op.Answer}
    (holds : watched.Invariant world (ghost ::ₘ rest))
    (allowed : watched.allows ghost op)
    (performed : perform op choice world = some (answer, state))
    (moved : watched.moves reliable ghost op answer after) :
    QueueMove watched world.db state.db ghost after := by
  rw [perform_db performed]
  cases op with
  | sql statement =>
      simp only [perform, Option.some.injEq, Prod.mk.injEq] at performed
      obtain ⟨rfl, -⟩ := performed
      cases statement with
      | execution statement =>
          refine .quiet ?_ (serves_record allowed moved)
          have queue : ((Statement.execution statement).exec
              world.db).2.queue = _ := Db.queue_exec (by simp)
          simp only [Op.db, Db.rowsOf, queue]
      | lock statement =>
          refine .quiet ?_ (serves_lock moved)
          simp only [Op.db, Db.rowsOf, Statement.exec,
            (statement.exec_frame world.db).2]
      | queue statement => exact queueMove_queue holds allowed moved
      | attempt statement =>
          have queue : ((Statement.attempt statement).exec
              world.db).2.queue = _ := Db.queue_exec (by simp)
          refine .quiet ?_ (.inr (moved ▸ rfl))
          simp only [Op.db, Db.rowsOf, queue]
      | counter statement =>
          have queue : ((Statement.counter statement).exec
              world.db).2.queue = _ := Db.queue_exec (by simp)
          refine .quiet ?_ (.inr (moved ▸ rfl))
          simp only [Op.db, Db.rowsOf, queue]
  | newId =>
      obtain rfl : after = { ghost with fresh := some answer } := moved
      exact .quiet rfl (.inr rfl)
  | loadConfig => exact .quiet rfl (.inr (moved.2 ▸ rfl))
  | storeConfig config => exact allowed.elim
  | prepareLogFiles context =>
      refine .quiet rfl ?_
      simp only [moves] at moved
      split at moved
      · exact .inl (moved.2 ▸ rfl)
      · exact .inr (moved ▸ rfl)
  | spawn job =>
      obtain rfl : after = ghost.hold .none := moved
      exact .quiet rfl (.inl rfl)
  | now | runProcess | sendRequest | sleep | appendRetryMarker
  | sendNotification =>
      obtain rfl : after = ghost := moved
      exact .quiet rfl (.inr rfl)

end Step

/-! ## Who runs an execution -/

/-- The token of a task that still runs the execution, or is about to pass
its lock on. -/
def Running (id : String) : Token → Prop
  | .claim _ own phase => own = id ∧
      (phase = .ready ∨ phase = .running ∨ phase = .finished ∨
        phase = .abandoned)
  | .taking own .. => own = id
  | .none | .unborn _ | .succeeding .. => False

section Moves

variable {world state : World} {ghost after : Ghost} {rest : Multiset Ghost}

theorem owned_of_running {id : String} {token : Token}
    (running : Running id token) : token.owned = some id := by
  cases token with
  | none | unborn | succeeding => exact running.elim
  | claim locked own phase => exact congrArg some running.1
  | taking own phase entry execution => exact congrArg some running

/-- The update of an owner takes it on in the life of its run. -/
theorem running_advance {role : Role} {change : ExecutionUpdate}
    {locked : Bool} {id own : String} {phase : Phase}
    {next? : Option Phase}
    (running : Running id (.claim locked own phase))
    (advances : watched.advances role change phase = some next?) :
    Running id (.become locked own next?) := by
  obtain ⟨rfl, phases⟩ := running
  rcases watched.advances_cases advances with
    ⟨_, time, -, rfl, rfl, -⟩ | ⟨_, status, exitCode, time, -, rfl, rfl, -⟩ |
    ⟨_, -, rfl, rfl⟩ | ⟨_, -, rfl, rfl⟩ | ⟨_, -, rfl, rfl⟩ |
    ⟨_, -, rfl, rfl, -⟩
  · exact ⟨rfl, by simp⟩
  · exact ⟨rfl, by simp⟩
  · exact ⟨rfl, by simp⟩
  · exact ⟨rfl, by simp⟩
  · simp at phases
  · simp at phases

/-- Where a move takes the execution of a run: it stays with the task, or
the task gives it up. -/
def GivesUp (ghost after : Ghost) : Prop :=
  after.token.owned = none ∧ after.fresh = ghost.fresh

theorem running_record {statement : ExecutionStatement}
    {answer : DbResult statement.Row} {id : String}
    (running : Running id ghost.token)
    (allowed : watched.allowsRecord ghost statement)
    (moved : watched.movesRecord ghost after statement answer) :
    Running id after.token := by
  cases statement with
  | insert row =>
      simp only [allowsRecord] at allowed
      split at allowed
      · rcases allowed.2.2.2 with ⟨token, -⟩ | ⟨token, -⟩
        · rw [token] at running
          exact running.elim
        · rw [token] at running
          exact running.elim
      · rw [allowed.1] at running
        exact running.elim
  | selectById other =>
      simp only [movesRecord] at moved
      split at moved
      · exact moved.1 ▸ running
      · obtain ⟨-, moved⟩ := moved
        split at moved
        · rcases moved with ⟨row, -, -, -, rfl⟩ | ⟨-, rfl⟩ <;> exact running
        · exact moved ▸ running
  | update change =>
      cases token : ghost.token with
      | none | unborn | succeeding =>
          rw [token] at running
          exact running.elim
      | taking own phase entry execution =>
          simp only [allowsRecord, token] at allowed
      | claim locked own phase =>
          simp only [allowsRecord, token] at allowed
          simp only [movesRecord, token] at moved
          obtain ⟨next?, advances⟩ := Option.isSome_iff_exists.mp allowed.2
          rw [moved.2, advances]
          exact running_advance (token ▸ running) advances
  | selectLatestStarted slug => exact moved ▸ running
  | selectOverdue slug cutoff =>
      obtain ⟨ids, -, rfl⟩ := moved
      split <;> exact running

theorem running_lock {statement : LockStatement}
    {answer : DbResult statement.Row} {id : String}
    (running : Running id ghost.token)
    (allowed : watched.allowsLock ghost statement)
    (moved : watched.movesLock ghost after statement answer) :
    Running id after.token ∨ GivesUp ghost after := by
  cases statement with
  | insertOrIgnore slug other acquiredAt =>
      simp only [movesLock] at moved
      split at moved
      · rename_i own
        rw [(allowed own).2.2.1] at running
        exact running.elim
      · exact .inl (moved ▸ running)
  | delete slug =>
      simp only [movesLock] at moved
      split at moved
      · exact .inr (moved ▸ ⟨rfl, rfl⟩)
      · exact .inl (moved ▸ running)
  | update slug other acquiredAt =>
      simp only [movesLock] at moved
      split at moved
      · obtain ⟨-, old, phase, entry, execution, -, rfl⟩ := moved
        exact .inr ⟨rfl, rfl⟩
      · exact .inl (moved ▸ running)
  | selectHolder slug =>
      simp only [movesLock] at moved
      split at moved
      · split at moved
        · exact .inl (moved.2 ▸ running)
        · exact .inr (moved.2 ▸ ⟨rfl, rfl⟩)
        · exact .inl (moved.2 ▸ running)
      · exact .inl (moved ▸ running)
  | deleteTerminal => exact moved.elim

theorem running_queue {statement : QueueStatement}
    {answer : DbResult statement.Row} {id : String}
    (running : Running id ghost.token)
    (allowed : watched.allowsQueue ghost statement)
    (moved : watched.movesQueue ghost after statement answer) :
    Running id after.token := by
  cases statement with
  | enqueue entry slug execution queuedAt =>
      simp only [allowsQueue] at allowed
      split at allowed
      · rw [allowed.1] at running
        simp [Running] at running
      · rw [allowed.1] at running
        exact running.elim
  | selectPosition entry => exact moved ▸ running
  | peekNext slug =>
      rcases moved with ⟨-, rfl⟩ | ⟨entry, -, moved⟩
      · exact running
      · split at moved
        · obtain ⟨own, phase, token, rfl⟩ := moved
          rw [token] at running
          exact running.1
        · exact moved ▸ running
  | countWaiting slug => exact moved ▸ running
  | update change =>
      cases change with
      | markReady entry =>
          cases token : ghost.token with
          | succeeding =>
              rw [token] at running
              exact running.elim
          | none | unborn | claim | taking =>
              simp only [movesQueue, token] at moved
              exact moved ▸ running
      | expireForExecution execution => exact moved ▸ running
  | expireStale => exact moved.elim

/-- The start of a run, as `trigger_hook` performs it. -/
def startsRun : Op → Prop
  | .spawn (.runExecution ..) => True
  | _ => False

/-- A task that has a run in its hands only starts another with
`startsRun`. -/
theorem running_spawn {job : Job} {id : String}
    (running : Running id ghost.token) (starts : ¬ startsRun (.spawn job))
    (allowed : watched.allowsSpawn ghost job) : False := by
  cases job with
  | runExecution => exact starts trivial
  | runDequeued slug execution concurrency approval =>
      have handed := allowed.2
      simp only at handed
      split at handed
      · rw [handed.2] at running
        simp [Running] at running
      · rw [handed.1] at running
        exact running.elim
  | trigger | approve | reject | replay | expirePendingApprovals
  | reloadConfig => exact allowed.2.elim

theorem running_moves {op : Op} {answer : op.Answer} {id : String}
    (running : Running id ghost.token) (starts : ¬ startsRun op)
    (allowed : watched.allows ghost op)
    (moved : watched.moves reliable ghost op answer after) :
    Running id after.token ∨ GivesUp ghost after ∧ forks op = none := by
  cases op with
  | sql statement =>
      cases statement with
      | execution statement =>
          exact .inl (running_record running allowed moved)
      | lock statement =>
          exact (running_lock running allowed moved).imp_right
            fun given => ⟨given, rfl⟩
      | queue statement => exact .inl (running_queue running allowed moved)
      | attempt | counter => exact .inl (moved ▸ running)
  | newId =>
      obtain rfl : after = { ghost with fresh := some answer } := moved
      exact .inl running
  | loadConfig => exact .inl (moved.2 ▸ running)
  | storeConfig config => exact allowed.elim
  | prepareLogFiles context =>
      simp only [moves] at moved
      split at moved
      · rename_i locked own token
        rw [moved.2]
        rw [token] at running
        exact .inl ⟨running.1, by simp⟩
      · exact .inl (moved ▸ running)
  | spawn job => exact (running_spawn running starts allowed).elim
  | now | runProcess | sendRequest | sleep | appendRetryMarker
  | sendNotification =>
      obtain rfl : after = ghost := moved
      exact .inl running

theorem mem_owned {id : String} :
    id ∈ ghost.owned ↔ ghost.fresh = some id ∨ ghost.token.owned = some id :=
  by simp [Ghost.owned]

/-- Nobody but the sweep and the decisions takes over a record. -/
theorem owned_record {statement : ExecutionStatement}
    {answer : DbResult statement.Row}
    (undecided : ghost.role ≠ .decider)
    (allowed : watched.allowsRecord ghost statement)
    (moved : watched.movesRecord ghost after statement answer) :
    ∀ id ∈ after.owned, id ∈ ghost.owned := by
  have kept (fresh : after.fresh = ghost.fresh)
      (token : after.token = ghost.token) :
      ∀ id ∈ after.owned, id ∈ ghost.owned := by
    simp only [mem_owned, fresh, token]
    exact fun _ own => own
  cases statement with
  | insert row =>
      simp only [allowsRecord] at allowed
      simp only [movesRecord] at moved
      intro id own
      split at moved
      · rename_i ours
        rw [if_pos ours] at allowed
        obtain ⟨-, rfl⟩ := moved
        rw [mem_owned] at own ⊢
        have known : row.id = id := by
          rcases own with used | own
          · cases used
          · rcases allowed.2.2.2 with ⟨token, -⟩ | ⟨token, -, -⟩
            all_goals
              simp only [Ghost.hold, inserted, token] at own
              split at own
              · simp at own
              · simpa [Token.owned] using own
        rcases allowed.2.2.2 with ⟨token, -⟩ | ⟨-, fresh, -⟩
        · right
          rw [token, ← known]
          rfl
        · exact .inl (known ▸ fresh)
      · rcases moved with ⟨-, rfl⟩ | ⟨-, rfl⟩
        · rw [mem_owned] at own ⊢
          rcases own with used | own
          · cases used
          · exact .inr own
        · exact own
  | selectById other =>
      simp only [movesRecord] at moved
      split at moved
      · exact kept (moved.1 ▸ rfl) (moved.1 ▸ rfl)
      · obtain ⟨-, moved⟩ := moved
        split at moved
        · rcases moved with ⟨row, -, -, -, rfl⟩ | ⟨-, rfl⟩ <;>
            exact kept rfl rfl
        · exact kept (moved ▸ rfl) (moved ▸ rfl)
  | update change =>
      cases token : ghost.token with
      | unborn | succeeding | taking =>
          simp only [allowsRecord, token] at allowed
      | none =>
          simp only [allowsRecord, token] at allowed
          obtain ⟨pending, -⟩ :=
            allowed.resolve_left fun decides => undecided decides.1
          simp only [movesRecord, token, pending] at moved
          exact kept (moved ▸ rfl) (moved ▸ rfl)
      | claim locked own phase =>
          simp only [movesRecord, token] at moved
          rw [moved.2]
          intro id inAfter
          rw [mem_owned] at inAfter ⊢
          refine inAfter.imp_right fun owned => ?_
          rw [token]
          cases next : (watched.advances ghost.role change phase).join with
          | none => simp [next, Ghost.hold, Token.become] at owned
          | some phase =>
              rw [next] at owned
              exact owned
  | selectLatestStarted slug => exact kept (moved ▸ rfl) (moved ▸ rfl)
  | selectOverdue slug cutoff =>
      obtain ⟨ids, -, moved⟩ := moved
      split at moved <;> exact kept (moved ▸ rfl) (moved ▸ rfl)

theorem owned_lock {statement : LockStatement}
    {answer : DbResult statement.Row}
    (allowed : watched.allowsLock ghost statement)
    (moved : watched.movesLock ghost after statement answer) :
    ∀ id ∈ after.owned, id ∈ ghost.owned := by
  intro id own
  cases statement with
  | insertOrIgnore slug other acquiredAt =>
      simp only [movesLock] at moved
      split at moved
      · rename_i ours
        rcases moved with ⟨-, rfl⟩ | ⟨-, rfl⟩
        · rw [mem_owned] at own ⊢
          rcases own with used | unborn
          · cases used
          · obtain rfl := Option.some.inj unborn
            exact .inl (allowed ours).2.2.2
        · exact own
      · exact moved ▸ own
  | delete slug =>
      simp only [movesLock] at moved
      split at moved
      · subst moved
        rw [mem_owned] at own ⊢
        exact .inl (own.resolve_right (by simp [Ghost.hold]))
      · exact moved ▸ own
  | update slug other acquiredAt =>
      simp only [movesLock] at moved
      split at moved
      · obtain ⟨-, old, phase, entry, execution, -, rfl⟩ := moved
        rw [mem_owned] at own ⊢
        exact .inl (own.resolve_right (by simp [Ghost.hold, Token.owned]))
      · exact moved ▸ own
  | selectHolder slug =>
      simp only [movesLock] at moved
      split at moved
      · split at moved
        · exact moved.2 ▸ own
        · obtain ⟨-, rfl⟩ := moved
          rw [mem_owned] at own ⊢
          exact .inl (own.resolve_right (by simp [Ghost.hold]))
        · exact moved.2 ▸ own
      · exact moved ▸ own
  | deleteTerminal => exact moved.elim

theorem owned_queue {statement : QueueStatement}
    {answer : DbResult statement.Row}
    (moved : watched.movesQueue ghost after statement answer) :
    ∀ id ∈ after.owned, id ∈ ghost.owned ∨
      ∃ entry, ghost.token = .succeeding entry id := by
  intro id own
  have released {token : Token} (token_none : token.owned = none)
      (own : id ∈ (ghost.hold token).owned) : id ∈ ghost.owned := by
    rw [mem_owned] at own ⊢
    exact .inl (own.resolve_right (by simp [Ghost.hold, token_none]))
  cases statement with
  | enqueue entry slug execution queuedAt =>
      simp only [movesQueue] at moved
      split at moved
      · rcases moved with ⟨-, rfl⟩ | ⟨-, rfl⟩
        · exact .inl (released rfl own)
        · exact .inl own
      · exact .inl (moved ▸ own)
  | selectPosition entry => exact .inl (moved ▸ own)
  | peekNext slug =>
      rcases moved with ⟨-, rfl⟩ | ⟨entry, -, moved⟩
      · exact .inl own
      · split at moved
        · obtain ⟨taken, phase, token, rfl⟩ := moved
          refine .inl ?_
          rw [mem_owned] at own ⊢
          exact own.imp_right fun owned => by rw [token]; exact owned
        · subst moved
          exact .inl own
  | countWaiting slug => exact .inl (moved ▸ own)
  | update change =>
      cases change with
      | markReady entry =>
          cases token : ghost.token with
          | succeeding served execution =>
              simp only [movesQueue, token] at moved
              subst moved
              rw [mem_owned] at own
              rcases own with fresh | taken
              · exact .inl (mem_owned.mpr (.inl fresh))
              · obtain rfl := Option.some.inj taken
                exact .inr ⟨served, rfl⟩
          | none | unborn | claim | taking =>
              simp only [movesQueue, token] at moved
              exact .inl (moved ▸ own)
      | expireForExecution execution => exact .inl (moved ▸ own)
  | expireStale => exact moved.elim

/-- What a task owns after a step it owned before, unless it is handed a new
identifier or serves an entry. -/
theorem owned_moves {op : Op} {choice : Choice} {answer : op.Answer}
    (undecided : ghost.role ≠ .decider)
    (allowed : watched.allows ghost op)
    (performed : perform op choice world = some (answer, state))
    (moved : watched.moves reliable ghost op answer after) :
    ∀ id ∈ after.owned, id ∈ ghost.owned ∨ id ∉ world.issued ∨
      ∃ entry, ghost.token = .succeeding entry id := by
  intro id own
  cases op with
  | sql statement =>
      cases statement with
      | execution statement =>
          exact .inl (owned_record undecided allowed moved id own)
      | lock statement => exact .inl (owned_lock allowed moved id own)
      | queue statement =>
          exact (owned_queue moved id own).imp_right .inr
      | attempt | counter => exact .inl (moved ▸ own)
  | newId =>
      obtain rfl : after = { ghost with fresh := some answer } := moved
      rw [mem_owned] at own
      rcases own with fresh | token
      · obtain rfl : answer = id := Option.some.inj fresh
        exact .inr (.inl (perform_newId performed))
      · exact .inl (mem_owned.mpr (.inr token))
  | loadConfig => exact .inl (moved.2 ▸ own)
  | storeConfig config => exact allowed.elim
  | prepareLogFiles context =>
      simp only [moves] at moved
      split at moved
      · rename_i locked claimed token
        rw [moved.2, mem_owned] at own
        rw [mem_owned, token]
        exact .inl own
      · exact .inl (moved ▸ own)
  | spawn job =>
      obtain rfl : after = ghost.hold .none := moved
      rw [mem_owned] at own ⊢
      exact .inl (.inl (own.resolve_right (by simp [Ghost.hold])))
  | now | runProcess | sendRequest | sleep | appendRetryMarker
  | sendNotification =>
      obtain rfl : after = ghost := moved
      exact .inl own

end Moves

end Watched

end Sendword
