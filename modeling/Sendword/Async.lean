import Sendword.Concurrency.Pool
import Sendword.Config
import Sendword.Interpolation
import Sendword.Store.Statement

/-!
# Asynchronous code

The operations an `async fn` of the server performs between two points where
other tasks can run, and what they do to the shared world: the database, the
live configuration, the clock and the identifiers handed out so far.
-/

namespace Sendword

open Concurrency

/-- Nanoseconds since the epoch (`chrono::Utc::now`). -/
abbrev Instant := Nat

/-- A request to `POST /hook/{slug}`, with the client address that
`extract_source_ip` finds. -/
structure TriggerRequest where
  slug : String
  headers : List (String × String) := []
  body : List UInt8 := []
  sourceIp : String := "127.0.0.1"
  deriving DecidableEq, Repr

inductive ScriptRuntime where
  | direct
  | javaScript
  | python
  deriving DecidableEq, Repr

/-- Which executor to use for a hook. -/
inductive ResolvedExecutor where
  | shell (command : String)
  | script (path : String) (runtime : ScriptRuntime)
  | http (method : HttpMethod) (url : String)
      (headers : List (String × String)) (body : Option String)
      (followRedirects : Bool)
  deriving DecidableEq, Repr

/-- Everything the executor needs to run a command. -/
structure ExecutionContext where
  executionId : String
  hookSlug : String
  executor : ResolvedExecutor
  env : List (String × String)
  cwd : Option String
  timeout : Duration
  logsDir : String
  payloadJson : String
  deriving DecidableEq, Repr

/-- Resolved retry configuration for a single execution. -/
structure EffectiveRetryConfig where
  count : Nat
  backoff : BackoffStrategy
  initialDelay : Duration
  maxDelay : Duration
  deriving DecidableEq, Repr

/-- The tasks of the server: a request being handled, a pass of the sweep,
and the detached tasks that run an execution. -/
inductive Job where
  | trigger (request : TriggerRequest)
  | approve (id user : String)
  | reject (id user : String)
  | replay (id : String)
  | expirePendingApprovals
  | reloadConfig (config : AppConfig)
  | runExecution (context : ExecutionContext)
      (retries : EffectiveRetryConfig)
      (hook : HookConfig)
      (concurrency : Option ConcurrencyConfig)
      (approval : Option ApprovalConfig)
  | runDequeued (hookSlug executionId : String)
      (concurrency : Option ConcurrencyConfig)
      (approval : Option ApprovalConfig)
  deriving DecidableEq, Repr

/-- How a child process ends; `code` is absent when a signal ended it. -/
inductive ProcessOutcome where
  | spawnFailed
  | exited (code : Option Int)
  | waitFailed
  | elapsed
  deriving DecidableEq, Repr

/-- How an outgoing request ends. -/
inductive HttpOutcome where
  | responded (status : Nat)
  | requestFailed
  | elapsed
  deriving DecidableEq, Repr

inductive Op where
  | sql (statement : Statement)
  | now
  | newId
  | loadConfig
  | storeConfig (config : AppConfig)
  | prepareLogFiles (context : ExecutionContext)
  | runProcess (context : ExecutionContext)
  | sendRequest (context : ExecutionContext)
  | sleep (context : ExecutionContext) (delay : Duration)
  | appendRetryMarker (context : ExecutionContext) (attempt : Nat)
  | sendNotification (config : NotificationConfig) (body : String)
  | spawn (job : Job)
  deriving DecidableEq, Repr

abbrev Op.Answer : Op → Type
  | .sql statement => DbResult statement.Row
  | .now => Instant
  | .newId => String
  | .loadConfig => AppConfig
  | .storeConfig _ => Unit
  | .prepareLogFiles _ => Bool
  | .runProcess _ => ProcessOutcome
  | .sendRequest _ => HttpOutcome
  | .sleep .. => Unit
  | .appendRetryMarker .. => Unit
  | .sendNotification .. => Unit
  | .spawn _ => Unit

/-- The code of an `async fn`. -/
abbrev Async (α : Type) := Program Op.Answer α

abbrev op (operation : Op) : Async operation.Answer := Program.op operation

def sql (statement : Statement) : Async (DbResult statement.Row) :=
  op (.sql statement)

/-- `timestamp::now_utc`: the clock cut to milliseconds. -/
def nowUtc : Async Timestamp := do
  let instant : Instant ← op .now
  return instant / 1000000

def newId : Async String := op .newId

def loadConfig : Async AppConfig := op .loadConfig

/-- `tokio::spawn`. -/
def spawn (job : Job) : Async Unit := op (.spawn job)

/-- The shared state of one server process. -/
structure World where
  db : Db := {}
  config : AppConfig
  clock : Instant := 0
  issued : List String := []
  deriving DecidableEq, Repr

/-- What the environment decides at a step. -/
structure Choice where
  instant : Instant := 0
  id : String := ""
  logFiles : Bool := true
  process : ProcessOutcome := .exited (some 0)
  response : HttpOutcome := .responded 200
  deriving DecidableEq, Repr

/-- One operation.  The clock does not run backwards and an identifier is
handed out once. -/
def perform (operation : Op) (choice : Choice) (world : World) :
    Option (operation.Answer × World) :=
  match operation with
  | .sql statement =>
      let (answer, db) := statement.exec world.db
      some (answer, { world with db })
  | .now =>
      if world.clock ≤ choice.instant then
        some (choice.instant, { world with clock := choice.instant })
      else none
  | .newId =>
      if choice.id ∈ world.issued then none
      else some (choice.id,
        { world with issued := choice.id :: world.issued })
  | .loadConfig => some (world.config, world)
  | .storeConfig config => some ((), { world with config })
  | .prepareLogFiles _ => some (choice.logFiles, world)
  | .runProcess _ => some (choice.process, world)
  | .sendRequest _ => some (choice.response, world)
  | .sleep .. => some ((), world)
  | .appendRetryMarker .. => some ((), world)
  | .sendNotification .. => some ((), world)
  | .spawn _ => some ((), world)

def forks : Op → Option Job
  | .spawn job => some job
  | _ => none

/-- What an operation makes of the database: only statements change it. -/
def Op.db (operation : Op) (db : Db) : Db :=
  match operation with
  | .sql statement => (statement.exec db).2
  | _ => db

theorem perform_db {operation : Op} {choice : Choice} {world state : World}
    {answer : operation.Answer}
    (performed : perform operation choice world = some (answer, state)) :
    state.db = operation.db world.db := by
  cases operation with
  | now =>
      simp only [perform] at performed
      split at performed
      · cases performed
        rfl
      · cases performed
  | newId =>
      simp only [perform] at performed
      split at performed
      · cases performed
      · cases performed
        rfl
  | sql | loadConfig | storeConfig | prepareLogFiles | runProcess
  | sendRequest | sleep | appendRetryMarker | sendNotification | spawn =>
      simp only [perform, Option.some.injEq, Prod.mk.injEq] at performed
      obtain ⟨-, rfl⟩ := performed
      rfl

/-- The clock does not run backwards. -/
theorem perform_clock {operation : Op} {choice : Choice}
    {world state : World} {answer : operation.Answer}
    (performed : perform operation choice world = some (answer, state)) :
    world.clock ≤ state.clock := by
  cases operation with
  | now =>
      simp only [perform] at performed
      split at performed
      · rename_i later
        cases performed
        exact later
      · cases performed
  | newId =>
      simp only [perform] at performed
      split at performed
      · cases performed
      · cases performed
        exact Nat.le_refl _
  | sql | loadConfig | storeConfig | prepareLogFiles | runProcess
  | sendRequest | sleep | appendRetryMarker | sendNotification | spawn =>
      simp only [perform, Option.some.injEq, Prod.mk.injEq] at performed
      obtain ⟨-, rfl⟩ := performed
      exact Nat.le_refl _

theorem perform_config {operation : Op} {choice : Choice}
    {world state : World} {answer : operation.Answer}
    (stores : ∀ config, operation ≠ .storeConfig config)
    (performed : perform operation choice world = some (answer, state)) :
    state.config = world.config := by
  cases operation with
  | storeConfig config => exact (stores config rfl).elim
  | now =>
      simp only [perform] at performed
      split at performed
      · cases performed
        rfl
      · cases performed
  | newId =>
      simp only [perform] at performed
      split at performed
      · cases performed
      · cases performed
        rfl
  | sql | loadConfig | prepareLogFiles | runProcess | sendRequest | sleep
  | appendRetryMarker | sendNotification | spawn =>
      simp only [perform, Option.some.injEq, Prod.mk.injEq] at performed
      obtain ⟨-, rfl⟩ := performed
      rfl

/-- Identifiers stay issued, and a new one was not issued before. -/
theorem perform_issued {operation : Op} {choice : Choice}
    {world state : World} {answer : operation.Answer}
    (performed : perform operation choice world = some (answer, state)) :
    ∀ id ∈ world.issued, id ∈ state.issued := by
  cases operation with
  | newId =>
      simp only [perform] at performed
      split at performed
      · cases performed
      · cases performed
        exact fun id old => List.mem_cons_of_mem _ old
  | now =>
      simp only [perform] at performed
      split at performed
      · cases performed
        exact fun _ old => old
      · cases performed
  | sql | loadConfig | storeConfig | prepareLogFiles | runProcess
  | sendRequest | sleep | appendRetryMarker | sendNotification | spawn =>
      simp only [perform, Option.some.injEq, Prod.mk.injEq] at performed
      obtain ⟨-, rfl⟩ := performed
      exact fun _ old => old

theorem perform_newId {choice : Choice} {world state : World} {id : String}
    (performed : perform .newId choice world = some (id, state)) :
    id ∉ world.issued := by
  simp only [perform] at performed
  split at performed
  · cases performed
  · rename_i unused
    cases performed
    exact unused

/-- What a task returns: the response of a handler, or nothing. -/
inductive Response where
  | status (code : Nat)
  | invalid (code : Nat) (message : String)
  | rejected (code : Nat) (status : TriggerAttemptStatus) (reason : String)
  | queued (executionId reason : String)
  | pendingApproval (executionId : String)
  | started (executionId : String)
  | redirect (path : String)
  | finished
  deriving DecidableEq, Repr

/-- The pure functions the handlers call that the barriers do not depend on:
third-party parsers, and the request checks that run before the barriers. -/
structure Outside where
  words : WordClass
  /-- `serde_json::from_str`. -/
  parseJson : String → Option Json
  /-- `humantime::format_duration`. -/
  formatDuration : Duration → String
  /-- `webhook_auth::verify`: the reason of a denial. -/
  verify : Option HookAuthConfig → TriggerRequest → Option String
  /-- Body parsing and schema validation: the stored payload, or the status
  code and the reason of the failure. -/
  readPayload :
    Option PayloadSchema → List UInt8 → Except (Nat × String) String
  /-- `payload_filter::evaluate` on the stored payload. -/
  payloadFilter : List PayloadFilter → String → Option String
  /-- `time_window::evaluate_at`. -/
  timeWindow : List TimeWindow → Instant → Option String

/-- Request checks that let everything pass, and no JSON. -/
def Outside.accepting : Outside where
  words := .asciiOnly
  parseJson _ := none
  formatDuration _ := ""
  verify _ _ := none
  readPayload _ _ := .ok "{}"
  payloadFilter _ _ := none
  timeWindow _ _ := none

end Sendword
