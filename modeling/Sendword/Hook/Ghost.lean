import Sendword.Concurrency.Discipline
import Sendword.Hook.Rows
import Sendword.Server

/-!
# The protocol of one hook

One hook is watched.  Every task gets a ghost value that says what the task
owns of this hook: the lock, a record in some phase of its life, a queue
entry it is about to serve.  The discipline says which statement each
ownership allows and how it moves.
-/

namespace Sendword

open Concurrency

/-- A hook of a validated configuration. -/
structure Watched where
  config : AppConfig
  hook : HookConfig
  member : hook ∈ config.hooks
  distinct : (config.hooks.map (·.slug)).Nodup

namespace Watched

variable (watched : Watched)

def slug : String := watched.hook.slug

/-- The hook has a concurrency barrier. -/
def exclusive : Bool := watched.hook.concurrency.isSome

/-- The hook has an approval barrier. -/
def gated : Bool := requiresApproval watched.hook.approval

theorem eq_hook {other : HookConfig} (found : other ∈ watched.config.hooks)
    (sameSlug : other.slug = watched.slug) : other = watched.hook :=
  List.inj_on_of_nodup_map watched.distinct found watched.member sameSlug

theorem hook?_slug : watched.config.hook? watched.slug = some watched.hook := by
  unfold AppConfig.hook?
  cases found : watched.config.hooks.find? fun hook =>
      hook.slug == watched.slug with
  | none =>
      have absent := List.find?_eq_none.mp found _ watched.member
      simp [slug] at absent
  | some other =>
      have sameSlug : other.slug = watched.slug := by
        simpa using List.find?_some found
      rw [watched.eq_hook (List.mem_of_find?_eq_some found) sameSlug]

end Watched

/-! ## What a task's past says -/

/-- The hook a task works for, where its job names one. -/
def Job.slug? : Job → Option String
  | .trigger request => some request.slug
  | .runExecution context .. => some context.hookSlug
  | .runDequeued hookSlug .. => some hookSlug
  | _ => none

/-- The execution of the hook that a task was started to run. -/
def Job.runs? (slug : String) : Job → Option String
  | .runExecution context .. =>
      if context.hookSlug = slug then some context.executionId else none
  | .runDequeued hookSlug executionId .. =>
      if hookSlug = slug then some executionId else none
  | _ => none

/-- The execution for which a task starts out as the owner of the hook's
lock. -/
def Job.locks? (slug : String) : Job → Option String
  | .runExecution context _ _ concurrency _ =>
      if context.hookSlug = slug ∧ concurrency.isSome then
        some context.executionId
      else none
  | .runDequeued hookSlug executionId .. =>
      if hookSlug = slug then some executionId else none
  | _ => none

abbrev Past := List (Event Op.Answer)

/-- How an operation changes the execution for which its task owns the
lock. -/
def lockStep (slug : String) (held : Option String) :
    Event Op.Answer → Option String
  | ⟨.sql (.lock (.insertOrIgnore target id _)), answer⟩ =>
      if target = slug ∧ answer = .ok (1 : Nat) then some id else held
  | ⟨.sql (.lock (.delete target)), _⟩ =>
      if target = slug then none else held
  | ⟨.sql (.lock (.update target id _)), _⟩ =>
      if target = slug then some id else held
  | ⟨.spawn _, _⟩ => none
  | _ => held

/-- The execution for which a task owns the lock after its past. -/
def lockOwned (slug : String) (job : Job) (past : Past) : Option String :=
  past.foldl (lockStep slug) (job.locks? slug)

/-- The last expiry a task performed, with the number of rows it changed. -/
def expiryStep (last : Option (String × Nat)) :
    Event Op.Answer → Option (String × Nat)
  | ⟨.sql (.execution (.update (.markExpired id _))), answer⟩ =>
      some (id, Except.toOption answer |>.getD 0)
  | _ => last

def lastExpiry (past : Past) : Option (String × Nat) :=
  past.foldl expiryStep none

/-- The past contains an update that changed its record. -/
def Effective (past : Past) (change : ExecutionUpdate) : Prop :=
  ∃ rows : Nat, 0 < rows ∧
    (⟨.sql (.execution (.update change)), .ok rows⟩ : Event Op.Answer) ∈ past

/-- The task ended the execution: its own update rejected or expired it, or
it ran the execution to its end. -/
def EndedBy (slug id : String) (job : Job) (past : Past) : Prop :=
  (∃ user time, Effective past (.markRejected id user time)) ∨
    (∃ time, Effective past (.markExpired id time)) ∨
    (job.runs? slug = some id ∧ ∃ status exitCode time,
      Effective past (.markCompleted id status exitCode time))

/-! ## Ghosts -/

/-- The life of a record as its owner knows it. -/
inductive Phase where
  /-- Recorded by a trigger that found the lock held. -/
  | queued
  /-- Taken from the queue. -/
  | taken
  | approved
  /-- Cleared to run. -/
  | ready
  | running
  /-- A run ended. -/
  | finished
  /-- The run ended before it began. -/
  | abandoned
  /-- Rejected or expired. -/
  | ended
  deriving DecidableEq

/-- The phases in which the owner passes the lock on. -/
def Phase.done : Phase → Bool
  | .finished | .abandoned | .ended => true
  | _ => false

/-- What a task owns of the hook. -/
inductive Token where
  | none
  /-- The lock, for an execution that has no record yet. -/
  | unborn (id : String)
  /-- A record and, if `locked`, the lock for it. -/
  | claim (locked : Bool) (id : String) (phase : Phase)
  /-- The lock, with the entry that is served next. -/
  | taking (id : String) (phase : Phase) (entry execution : String)
  /-- The lock after the hand-off; the entry still waits. -/
  | succeeding (entry execution : String)

namespace Token

/-- The execution that the lock must name. -/
def lock : Token → Option String
  | .unborn id | .claim true id _ | .taking id .. => some id
  | .succeeding _ execution => some execution
  | .none | .claim false .. => Option.none

/-- The execution no other task may touch. -/
def owned : Token → Option String
  | .unborn id | .claim _ id _ | .taking id .. => some id
  | .none | .succeeding .. => Option.none

@[simp] theorem lock_none : Token.none.lock = Option.none := rfl

@[simp] theorem lock_unborn (id : String) :
    (Token.unborn id).lock = some id := rfl

@[simp] theorem lock_claim (locked : Bool) (id : String) (phase : Phase) :
    (Token.claim locked id phase).lock =
      if locked then some id else Option.none := by
  cases locked <;> rfl

@[simp] theorem lock_taking (id : String) (phase : Phase)
    (entry execution : String) :
    (Token.taking id phase entry execution).lock = some id := rfl

@[simp] theorem lock_succeeding (entry execution : String) :
    (Token.succeeding entry execution).lock = some execution := rfl

@[simp] theorem owned_none : Token.none.owned = Option.none := rfl

/-- The token of an owner after an update; a record in no phase was given
up. -/
def become (locked : Bool) (id : String) : Option Phase → Token
  | some phase => .claim locked id phase
  | Option.none => .none

end Token

inductive Role where
  | trigger
  /-- A request or a sweep that decides on approvals. -/
  | decider
  | runner (id : String)
  /-- A task of another hook. -/
  | foreign
  | replay
  deriving DecidableEq

structure Ghost where
  role : Role
  token : Token := .none
  /-- An identifier that was handed out and not used yet. -/
  fresh : Option String := none
  /-- Records of other hooks. -/
  elsewhere : List String := []
  /-- Queue entries of other hooks. -/
  otherEntries : List String := []
  /-- Records of the hook that will never wait in the queue again. -/
  settled : List String := []
  /-- The last expiry changed no row. -/
  missed : Option String := none
  /-- The approvals this task has made. -/
  approvals : List (String × String × Timestamp) := []

namespace Ghost

def hold (ghost : Ghost) (token : Token) : Ghost := { ghost with token }

def learn (ghost : Ghost) (ids : List String) : Ghost :=
  { ghost with elsewhere := ids ++ ghost.elsewhere }

def use (ghost : Ghost) : Ghost := { ghost with fresh := none }

/-- The task owns nothing of the hook, or a record it has marked as
running. -/
def MayRun (ghost : Ghost) : Prop :=
  ghost.token = .none ∨
    ∃ locked id, ghost.token = .claim locked id .running

end Ghost

/-! ## The discipline -/

namespace ExecutionUpdate

/-- The phase a decision on a waiting approval leads to. -/
def decides : ExecutionUpdate → Option Phase
  | .markApproved .. => some .approved
  | .markRejected .. | .markExpired .. => some .ended
  | _ => none

/-- What a decision adds to its ghost. -/
def note (change : ExecutionUpdate) (changed : Bool) (ghost : Ghost) :
    Ghost :=
  match change with
  | .markApproved id user time =>
      if changed then
        { ghost with approvals := (id, user, time) :: ghost.approvals }
      else ghost
  | .markExpired id _ =>
      { ghost with missed := if changed then none else some id }
  | _ => ghost

end ExecutionUpdate

namespace Watched

variable (watched : Watched) (reliable : Prop)

/-- The updates of an owner: from which phase, and to which; `some none`
gives the record up to wait for a decision. -/
def advances (role : Role) (change : ExecutionUpdate) (phase : Phase) :
    Option (Option Phase) :=
  match change, phase with
  | .markRunning id _, .ready =>
      if role = .runner id then some (some .running) else none
  | .markCompleted _ status _ _, .running =>
      if status = .success ∨ status = .failed ∨ status = .timedOut then
        some (some .finished)
      else none
  | .incrementRetryCount _, .finished => some (some .finished)
  | .resetToPending _, .finished => some (some .ready)
  | .resetApproved _, .approved => some (some .ready)
  | .markPendingApproval _, .taken =>
      if watched.gated then some none else none
  | _, _ => none

/-- The updates an owner can perform. -/
theorem advances_cases {role : Role} {change : ExecutionUpdate}
    {phase : Phase} {next? : Option Phase}
    (advances : watched.advances role change phase = some next?) :
    (∃ id time, change = .markRunning id time ∧ phase = .ready ∧
        next? = some .running ∧ role = .runner id) ∨
      (∃ id status exitCode time,
        change = .markCompleted id status exitCode time ∧
          phase = .running ∧ next? = some .finished ∧
          (status = .success ∨ status = .failed ∨ status = .timedOut)) ∨
      (∃ id, change = .incrementRetryCount id ∧ phase = .finished ∧
        next? = some .finished) ∨
      (∃ id, change = .resetToPending id ∧ phase = .finished ∧
        next? = some .ready) ∨
      (∃ id, change = .resetApproved id ∧ phase = .approved ∧
        next? = some .ready) ∨
      (∃ id, change = .markPendingApproval id ∧ phase = .taken ∧
        next? = none ∧ watched.gated = true) := by
  unfold Watched.advances at advances
  split at advances <;> simp_all

/-- The status of a record that a trigger inserts. -/
def initialStatus (locked : Bool) : ExecutionStatus :=
  if watched.gated && (locked || !watched.exclusive) then .pendingApproval
  else .pending

def allowsRecord (ghost : Ghost) : ExecutionStatement → Prop
  | .insert row =>
      if row.hookSlug = watched.slug then
        ghost.role = .trigger ∧ row.approvedAt = none ∧ row.retryOf = none ∧
          ((ghost.token = .unborn row.id ∧
              row.status = watched.initialStatus true) ∨
            (ghost.token = .none ∧ ghost.fresh = some row.id ∧
              row.status = watched.initialStatus false))
      else
        ghost.token = .none ∧ ghost.fresh = some row.id
  | .selectById _ => True
  | .update change =>
      match ghost.token with
      | .claim _ id phase =>
          change.target? = some id ∧
            (watched.advances ghost.role change phase).isSome
      | .none =>
          (ghost.role = .decider ∧ change.decides.isSome) ∨
            change.decides = none ∧
              ∃ id ∈ ghost.elsewhere, change.target? = some id
      | _ => False
  | .selectLatestStarted _ => True
  | .selectOverdue .. => True

/-- The token after a trigger inserted its record. -/
def inserted (row : Execution) : Token → Token
  | .unborn id =>
      if row.status = .pendingApproval then .none else .claim true id .ready
  | _ =>
      if row.status = .pendingApproval then .none
      else .claim false row.id
        (if watched.exclusive then .queued else .ready)

/-- The token after a decision that changed its record. -/
def decided (ghost : Ghost) (id : String) (phase : Phase)
    (after : Ghost) : Prop :=
  (watched.gated = true ∧ id ∉ ghost.elsewhere ∧
      after = ghost.hold (.claim watched.exclusive id phase)) ∨
    (id ∉ ghost.settled ∧ after = ghost.learn [id])

def movesRecord (ghost : Ghost) (after : Ghost) :
    (statement : ExecutionStatement) → DbResult statement.Row → Prop
  | .insert row, answer =>
      if row.hookSlug = watched.slug then
        answer = .ok () ∧
          after = ghost.use.hold (watched.inserted row ghost.token)
      else
        (answer = .ok () ∧ after = ghost.use.learn [row.id]) ∨
          (answer = .error .sqlx ∧ after = ghost)
  | .selectById id, answer =>
      match ghost.token with
      | .claim _ own _ =>
          after = ghost ∧ (id = own → ∃ row : Execution,
            answer = .ok (some row) ∧ row.id = id ∧
              row.hookSlug = watched.slug)
      | _ =>
          (id ∈ ghost.elsewhere → ∃ row : Execution,
            answer = .ok (some row) ∧ row.id = id ∧
              row.hookSlug ≠ watched.slug) ∧
            if ghost.role = .replay then
              (∃ row : Execution, answer = .ok (some row) ∧ row.id = id ∧
                  row.hookSlug ≠ watched.slug ∧ after = ghost.learn [id]) ∨
                (answer = .ok (none : Option Execution) ∧ after = ghost)
            else after = ghost
  | .update change, answer =>
      match ghost.token, change.decides with
      | .claim locked id phase, _ =>
          answer = .ok (1 : Nat) ∧
            after = ghost.hold (.become locked id
              (watched.advances ghost.role change phase).join)
      | _, some phase =>
          (∃ rows : Nat, answer = .ok rows ∧ 0 < rows ∧
              ∃ id, change.target? = some id ∧
                watched.decided (change.note true ghost) id phase after) ∨
            (answer = .ok (0 : Nat) ∧ after = change.note false ghost)
      | _, none => after = ghost
  | .selectLatestStarted _, _ => after = ghost
  | .selectOverdue slug _, answer =>
      ∃ ids : List String, answer = .ok ids ∧
        after = if slug = watched.slug then
          { ghost with settled := ids ++ ghost.settled }
        else ghost.learn ids

def allowsLock (ghost : Ghost) : LockStatement → Prop
  | .insertOrIgnore slug id _ =>
      slug = watched.slug →
        ghost.role = .trigger ∧ watched.exclusive = true ∧
          ghost.token = .none ∧ ghost.fresh = some id
  | .delete slug =>
      slug = watched.slug →
        ∃ id phase, ghost.token = .claim true id phase ∧ phase.done = true
  | .update slug id _ =>
      slug = watched.slug →
        ∃ old phase entry, ghost.token = .taking old phase entry id
  | .selectHolder _ => True
  | .deleteTerminal => False

def movesLock (ghost : Ghost) (after : Ghost) :
    (statement : LockStatement) → DbResult statement.Row → Prop
  | .insertOrIgnore slug id _, answer =>
      if slug = watched.slug then
        (answer = .ok (1 : Nat) ∧ after = ghost.use.hold (.unborn id)) ∨
          (answer = .ok (0 : Nat) ∧ after = ghost)
      else after = ghost
  | .delete slug, _ =>
      after = if slug = watched.slug then ghost.hold .none else ghost
  | .update slug _ _, answer =>
      if slug = watched.slug then
        (∃ rows : Nat, answer = .ok rows) ∧
          ∃ old phase entry execution,
            ghost.token = .taking old phase entry execution ∧
              after = ghost.hold (.succeeding entry execution)
      else after = ghost
  | .selectHolder slug, answer =>
      if slug = watched.slug then
        match ghost.token with
        | .claim true id .ended => answer = .ok (some id) ∧ after = ghost
        | .claim false _ .ended =>
            answer = .ok (none : Option String) ∧ after = ghost.hold .none
        | _ =>
            (∀ id, ghost.missed = some id → answer ≠ .ok (some id)) ∧
              after = ghost
      else after = ghost
  | .deleteTerminal, _ => False

def allowsQueue (ghost : Ghost) : QueueStatement → Prop
  | .enqueue _ slug execution _ =>
      if slug = watched.slug then
        ghost.token = .claim false execution .queued ∧ ghost.role = .trigger
      else ghost.token = .none ∧ execution ∈ ghost.elsewhere
  | .selectPosition _ => True
  | .peekNext slug =>
      if slug = watched.slug then
        ∃ id phase, ghost.token = .claim true id phase ∧ phase.done = true
      else ghost.token = .none
  | .countWaiting _ => True
  | .update (.markReady entry) =>
      (∃ execution, ghost.token = .succeeding entry execution) ∨
        (ghost.token = .none ∧ entry ∈ ghost.otherEntries)
  | .update (.expireForExecution execution) =>
      (∃ locked, ghost.token = .claim locked execution .ended) ∨
        (ghost.token = .none ∧
          (execution ∈ ghost.elsewhere ∨ execution ∈ ghost.settled))
  | .expireStale => False

def movesQueue (ghost : Ghost) (after : Ghost) :
    (statement : QueueStatement) → DbResult statement.Row → Prop
  | .enqueue _ slug _ _, answer =>
      if slug = watched.slug then
        (answer = .ok () ∧ after = ghost.hold .none) ∨
          (answer = .error .sqlx ∧ after = ghost)
      else after = ghost
  | .selectPosition _, _ => after = ghost
  | .peekNext slug, answer =>
      (answer = .ok (none : Option QueueRow) ∧ after = ghost) ∨
        ∃ entry : QueueRow, answer = .ok (some entry) ∧
          if slug = watched.slug then
            ∃ id phase, ghost.token = .claim true id phase ∧
              after = ghost.hold
                (.taking id phase entry.id entry.executionId)
          else
            after = { ghost.learn [entry.executionId] with
              otherEntries := entry.id :: ghost.otherEntries }
  | .countWaiting _, _ => after = ghost
  | .update (.markReady _), _ =>
      after = match ghost.token with
        | .succeeding _ execution => ghost.hold (.claim true execution .taken)
        | _ => ghost
  | .update (.expireForExecution _), _ => after = ghost
  | .expireStale, _ => False

/-- The parameters with which the hook's runs are started. -/
def admits : Job → Prop
  | .reloadConfig _ => False
  | .runExecution context _ _ concurrency approval =>
      context.hookSlug = watched.slug →
        concurrency = watched.hook.concurrency ∧
          approval = watched.hook.approval
  | .runDequeued slug _ concurrency approval =>
      slug = watched.slug →
        watched.exclusive = true ∧
          concurrency = watched.hook.concurrency ∧
          approval = watched.hook.approval
  | _ => True

def allowsSpawn (ghost : Ghost) (job : Job) : Prop :=
  watched.admits job ∧
    match job with
    | .runExecution context .. =>
        if context.hookSlug = watched.slug then
          ghost.token =
            .claim watched.exclusive context.executionId .ready
        else ghost.token = .none ∧ context.executionId ∈ ghost.elsewhere
    | .runDequeued slug execution .. =>
        if slug = watched.slug then
          watched.gated = false ∧ ghost.token = .claim true execution .taken
        else ghost.token = .none ∧ execution ∈ ghost.elsewhere
    | _ => False

def start : Job → Ghost
  | .trigger request =>
      { role := if request.slug = watched.slug then .trigger else .foreign }
  | .replay _ => { role := .replay }
  | .approve .. | .reject .. | .expirePendingApprovals =>
      { role := .decider }
  | .reloadConfig _ => { role := .foreign }
  | .runExecution context .. =>
      if context.hookSlug = watched.slug then
        { role := .runner context.executionId
          token := .claim watched.exclusive context.executionId .ready }
      else { role := .foreign, elsewhere := [context.executionId] }
  | .runDequeued slug execution .. =>
      if slug = watched.slug then
        { role := .runner execution
          token := .claim true execution .ready }
      else { role := .foreign, elsewhere := [execution] }

def allows (ghost : Ghost) : Op → Prop
  | .sql (.execution statement) => watched.allowsRecord ghost statement
  | .sql (.lock statement) => watched.allowsLock ghost statement
  | .sql (.queue statement) => watched.allowsQueue ghost statement
  | .storeConfig _ => False
  | .prepareLogFiles context =>
      ghost.token = .none ∨
        (context.hookSlug = watched.slug ∧
          ghost.role = .runner context.executionId ∧
          ∃ locked, ghost.token = .claim locked context.executionId .ready)
  | .runProcess _ | .sendRequest _ => ghost.MayRun
  | .spawn job => watched.allowsSpawn ghost job
  | _ => True

def moves (ghost : Ghost) (op : Op) (answer : op.Answer) (after : Ghost) :
    Prop :=
  match op, answer with
  | .sql (.execution statement), answer =>
      watched.movesRecord ghost after statement answer
  | .sql (.lock statement), answer =>
      watched.movesLock ghost after statement answer
  | .sql (.queue statement), answer =>
      watched.movesQueue ghost after statement answer
  | .newId, id => after = { ghost with fresh := some id }
  | .loadConfig, config => config = watched.config ∧ after = ghost
  | .prepareLogFiles _, prepared =>
      match ghost.token, prepared with
      | .claim locked id .ready, false =>
          ¬ reliable ∧ after = ghost.hold (.claim locked id .abandoned)
      | _, _ => after = ghost
  | .spawn _, _ => after = ghost.hold .none
  | _, _ => after = ghost

/-- What a token says about its task's past. -/
def TokenLink (role : Role) (job : Job) (past : Past) : Token → Prop
  | .claim _ id phase =>
      (phase = .running ∨ phase = .finished ∨ phase = .abandoned →
        role = .runner id) ∧
      (phase.done = true → phase ≠ .abandoned →
        EndedBy watched.slug id job past) ∧
      (reliable → phase ≠ .abandoned)
  | .taking id phase _ _ =>
      phase.done = true ∧
      (phase ≠ .abandoned → EndedBy watched.slug id job past) ∧
      (reliable → phase ≠ .abandoned)
  | _ => True

/-- What a ghost says about its task's past. -/
structure Link (job : Job) (past : Past) (ghost : Ghost) : Prop where
  admitted : watched.admits job
  role : ghost.role = (watched.start job).role
  lock : watched.gated = false →
    ghost.token.lock = lockOwned watched.slug job past
  token : watched.TokenLink reliable ghost.role job past ghost.token
  missed : ∀ id, ghost.missed = some id →
    ghost.role = .decider ∧ lastExpiry past = some (id, 0)
  approvals : ∀ id user time, (id, user, time) ∈ ghost.approvals →
    Effective past (.markApproved id user time)

/-- The roles that jobs start in. -/
theorem runs?_of_runner {job : Job} {id : String}
    (runner : (watched.start job).role = .runner id) :
    job.runs? watched.slug = some id := by
  cases job with
  | trigger request =>
      simp only [start] at runner
      split at runner <;> cases runner
  | runExecution context retries hook concurrency approval =>
      simp only [start] at runner
      split at runner
      · rename_i own
        cases runner
        simp [Job.runs?, own]
      · cases runner
  | runDequeued slug execution concurrency approval =>
      simp only [start] at runner
      split at runner
      · rename_i own
        cases runner
        simp [Job.runs?, own]
      · cases runner
  | approve | reject | replay | expirePendingApprovals | reloadConfig =>
      cases runner

theorem replay_of_role {job : Job}
    (replays : (watched.start job).role = .replay) :
    ∃ id, job = .replay id := by
  cases job with
  | trigger request =>
      simp only [start] at replays
      split at replays <;> cases replays
  | runExecution context retries hook concurrency approval =>
      simp only [start] at replays
      split at replays <;> cases replays
  | runDequeued slug execution concurrency approval =>
      simp only [start] at replays
      split at replays <;> cases replays
  | replay id => exact ⟨id, rfl⟩
  | approve | reject | expirePendingApprovals | reloadConfig =>
      cases replays

theorem foreign_of_slug {job : Job} {slug : String}
    (named : job.slug? = some slug) (other : slug ≠ watched.slug) :
    (watched.start job).role = .foreign := by
  cases job with
  | trigger request =>
      cases named
      simp [start, other]
  | runExecution context retries hook concurrency approval =>
      cases named
      simp [start, other]
  | runDequeued _ execution concurrency approval =>
      cases named
      simp [start, other]
  | approve | reject | replay | expirePendingApprovals | reloadConfig =>
      cases named

variable (outside : Outside)

def discipline : Discipline (server outside) Ghost where
  admits := watched.admits
  start := watched.start
  allows := watched.allows
  moves := watched.moves reliable
  closes ghost := ghost.token.lock = none
  link := watched.Link reliable

end Watched

end Sendword
