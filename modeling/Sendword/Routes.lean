import Sendword.Barriers
import Sendword.TriggerRules

/-!
# Request handlers

`POST /hook/{slug}` and the handlers of an execution's page that start or end
an execution: approve, reject and replay.
-/

namespace Sendword

open Concurrency

variable (outside : Outside)

/-! ## `trigger_hook` -/

def logRejection (hookSlug sourceIp : String)
    (status : TriggerAttemptStatus) (reason : String) : Async Unit := do
  let _ ← insertAttempt
    { hookSlug, sourceIp, status, reason, executionId := none }

/-- A rejection by a trigger rule: the status code of the response, and what
is logged. -/
structure Refusal where
  code : Nat
  status : TriggerAttemptStatus
  reason : String

/-- The refusal of an evaluator, answered with a status code. -/
def EvalOutcome.refusal (code : Nat) : EvalOutcome → Option Refusal
  | .allow => none
  | .reject status reason => some { code, status, reason }

def checkFilters (rules : TriggerRules) (payload : String) :
    Async (Option Refusal) :=
  match rules.payloadFilters.filter (· ≠ []) with
  | none => return none
  | some filters =>
      let outcome := outside.payloadFilter filters payload
      return outcome.map (Refusal.mk 200 .filtered)

def checkWindows (rules : TriggerRules) : Async (Option Refusal) :=
  match rules.timeWindows.filter (· ≠ []) with
  | none => return none
  | some windows => do
      let now : Instant ← op .now
      let outcome := outside.timeWindow windows now
      return outcome.map (Refusal.mk 200 .scheduleSkipped)

def checkCooldown (rules : TriggerRules) (slug : String) :
    Async (Option Refusal) :=
  match rules.cooldown with
  | none => return none
  | some cooldown => do
      let outcome ← Cooldown.evaluate slug cooldown
      return outcome.refusal 200

/-- The rate limit of the rules or, where they have none, the hook's own. -/
def checkRateLimit (hook : HookConfig) (rules : TriggerRules)
    (slug : String) : Async (Option Refusal) :=
  match rules.rateLimit <|> hookRateLimitAsTrigger hook.rateLimit with
  | none => return none
  | some limit => do
      let outcome ← RateLimit.evaluate outside slug limit
      return outcome.refusal 429

/-- Run checks in order until one refuses. -/
def firstRefusal : List (Async (Option Refusal)) → Async (Option Refusal)
  | [] => return none
  | check :: checks => do
      match ← check with
      | some refusal => return some refusal
      | none => firstRefusal checks

/-- The rules that run before the barriers. -/
def evaluateRules (hook : HookConfig) (slug payload : String) :
    Async (Option Refusal) :=
  let rules := hook.triggerRules.getD {}
  firstRefusal
    [checkFilters outside rules payload, checkWindows outside rules,
      checkCooldown rules slug, checkRateLimit outside hook rules slug]

/-- The last part of `trigger_hook`: create the record and spawn the run. -/
def startExecution (config : AppConfig) (hook : HookConfig)
    (slug sourceIp payload : String) (newExec : NewExecution) :
    Async Response := do
  match ← create newExec with
  | .error _ => return .status 500
  | .ok exec =>
      let _ ← insertAttempt
        { hookSlug := slug
          sourceIp
          status := .fired
          reason := "ok"
          executionId := some exec.id }
      spawn (.runExecution
        (contextOf outside config hook exec.id slug payload)
        (resolveRetryConfig hook config.defaults.retries)
        hook hook.concurrency hook.approval)
      return .started exec.id

/-- The approval barrier of `trigger_hook`: a record that waits for a
decision, or the start of the run. -/
def passApproval (config : AppConfig) (hook : HookConfig)
    (slug sourceIp payload : String) (newExec : NewExecution) :
    Async Response := do
  if requiresApproval hook.approval then
    match ← create { newExec with status := some .pendingApproval } with
    | .error _ => return .status 500
    | .ok exec =>
        let _ ← insertAttempt
          { hookSlug := slug
            sourceIp
            status := .pendingApproval
            reason := "pending approval"
            executionId := some exec.id }
        return .pendingApproval exec.id
  else
    startExecution outside config hook slug sourceIp payload newExec

/-- The barriers of `trigger_hook`. -/
def passBarriers (config : AppConfig) (hook : HookConfig)
    (slug sourceIp payload : String) : Async Response := do
  let execId ← newId
  let newExec : NewExecution :=
    { id := some execId
      hookSlug := slug
      logPath := s!"{config.logs.dir}/{execId}"
      triggerSource := sourceIp
      requestPayload := payload }
  match hook.concurrency with
  | none => passApproval outside config hook slug sourceIp payload newExec
  | some concurrency =>
      match ← evaluate slug execId concurrency newExec with
      | .proceed =>
          passApproval outside config hook slug sourceIp payload newExec
      | .reject status reason =>
          let _ ← insertAttempt
            { hookSlug := slug, sourceIp, status, reason
              executionId := none }
          return .rejected 503 status reason
      | .defer executionId _ reason =>
          let _ ← insertAttempt
            { hookSlug := slug
              sourceIp
              status := .fired
              reason
              executionId := some executionId }
          return .queued executionId reason

def triggerHook (request : TriggerRequest) : Async Response := do
  let slug := request.slug
  let sourceIp := request.sourceIp
  let config ← loadConfig
  match config.hooks.find? fun hook =>
      hook.slug == slug && hook.enabled with
  | none => return .status 404
  | some hook =>
      match outside.verify hook.auth request with
      | some reason =>
          logRejection slug sourceIp .authFailed reason
          return .status 401
      | none =>
          match outside.readPayload hook.payload request.body with
          | .error (code, reason) =>
              logRejection slug sourceIp .validationFailed reason
              return .invalid code reason
          | .ok payload =>
              match ← evaluateRules outside hook slug payload with
              | some refusal =>
                  logRejection slug sourceIp refusal.status refusal.reason
                  return .rejected refusal.code refusal.status refusal.reason
              | none => passBarriers outside config hook slug sourceIp payload

/-! ## `executions` -/

/-- The status code of a failed transition. -/
def DbError.statusCode : DbError → Nat
  | .conflict _ => 409
  | .notFound _ => 404
  | .sqlx => 500

/-- Approve a pending_approval execution. Transitions to approved, then
spawns execution. -/
def approveExecution (id user : String) : Async Response := do
  match ← markApproved id user with
  | .error error => return .status error.statusCode
  | .ok exec =>
      let config ← loadConfig
      match config.hook? exec.hookSlug with
      | none => return .redirect s!"/executions/{id}"
      | some hook =>
          -- the executor can only go from pending to running
          let _ ← sql (.execution (.update (.resetApproved exec.id)))
          spawn (.runExecution
            (contextOf outside config hook exec.id exec.hookSlug
              exec.requestPayload)
            (resolveRetryConfig hook config.defaults.retries)
            hook hook.concurrency hook.approval)
          return .redirect s!"/executions/{id}"

/-- Reject a pending_approval execution. -/
def rejectExecution (id user : String) : Async Response := do
  match ← markRejected id user with
  | .error error => return .status error.statusCode
  | .ok exec =>
      let _ ← expireForExecution exec.id
      let config ← loadConfig
      match config.hook? exec.hookSlug with
      | none => return .redirect s!"/executions/{id}"
      | some hook =>
          completeHolder exec.hookSlug id hook.concurrency hook.approval
          return .redirect s!"/executions/{id}"

/-- Re-trigger an execution with the same payload. -/
def replayExecution (id : String) : Async Response := do
  let config ← loadConfig
  match ← getById id with
  | .error _ => return .status 404
  | .ok original =>
      match config.hook? original.hookSlug with
      | none => return .status 404
      | some hook =>
          let execId ← newId
          match ← create
              { id := some execId
                hookSlug := original.hookSlug
                logPath := s!"{config.logs.dir}/{execId}"
                triggerSource := original.triggerSource
                requestPayload := original.requestPayload
                retryOf := some original.id } with
          | .error _ => return .status 500
          | .ok exec =>
              -- no barrier is consulted
              spawn (.runExecution
                (contextOf outside config hook exec.id original.hookSlug
                  original.requestPayload)
                (resolveRetryConfig hook config.defaults.retries)
                hook none none)
              return .started exec.id

end Sendword
