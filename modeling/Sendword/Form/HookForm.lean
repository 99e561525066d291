import Sendword.Form.Durations

/-!
# The hook form

The page that `edit_hook_form` fills from a hook, and what `parse_hook_form`
makes of a submitted form.
-/

namespace Sendword

/-! ## The raw form -/

/-- Raw form data from the hook create/edit form. -/
structure HookForm where
  name : String
  slug : String
  description : String := ""
  /-- A checkbox: absent when it is not checked. -/
  enabled : Option String := none
  executorType : String := ""
  command : String
  cwd : String := ""
  timeout : String := ""
  envText : String := ""
  retryCount : Option String := none
  retryBackoff : Option String := none
  retryInitialDelay : Option String := none
  retryMaxDelay : Option String := none
  authMode : Option String := none
  authToken : Option String := none
  authHeader : Option String := none
  authAlgorithm : Option String := none
  authSecret : Option String := none
  payloadText : String := ""
  triggerFiltersText : String := ""
  triggerWindowsText : String := ""
  triggerCooldown : String := ""
  triggerRateMax : Option String := none
  triggerRateWindow : String := ""
  deriving DecidableEq, Repr

/-! ## `parse_hook_form` -/

variable (humantime : Humantime)

/-- Parse a human-readable duration string.  Nothing for empty strings. -/
def parseDurationField (text : String) : Except String (Option Duration) :=
  let text := trimText text
  if text.isEmpty then .ok none
  else
    match humantime.parse text with
    | some duration => .ok (some duration)
    | none =>
        let error := humantime.message text
        .error s!"invalid duration '{text}': {error}"

def parsePayloadText (text : String) :
    Except String (Option PayloadSchema) :=
  (payloadFormat.read isWhiteSpace text.toList).map fun fields =>
    if fields.isEmpty then none else some { fields }

def parseFiltersText (text : String) :
    Except String (Option (List PayloadFilter)) :=
  (filterFormat.read isWhiteSpace text.toList).map fun filters =>
    if filters.isEmpty then none else some filters

def parseWindowsText (text : String) :
    Except String (Option (List TimeWindow)) :=
  (windowFormat.read isWhiteSpace text.toList).map fun windows =>
    if windows.isEmpty then none else some windows

def parseBackoff : String → BackoffStrategy
  | "none" => .none
  | "linear" => .linear
  | _ => .exponential

/-- A count that cannot be read is no override. -/
def HookForm.retries (form : HookForm) :
    Except String (Option RetryFormData) := do
  let count := (parseUint 32
    (trimmed (form.retryCount.getD "").toList)).getD 0
  if 0 < count then
    let initialDelay ←
      parseDurationField humantime (form.retryInitialDelay.getD "")
    let maxDelay ← parseDurationField humantime (form.retryMaxDelay.getD "")
    return some
      { count
        backoff := parseBackoff (form.retryBackoff.getD "exponential")
        initialDelay := initialDelay.getD (Duration.fromSecs 1)
        maxDelay := maxDelay.getD (Duration.fromSecs 60) }
  else return none

def HookForm.auth (form : HookForm) :
    Except String (Option HookAuthConfig) :=
  match form.authMode.getD "none" with
  | "bearer" =>
      let token := trimText (form.authToken.getD "")
      if token.isEmpty then
        .error "auth token must be non-empty for bearer mode"
      else .ok (some (.bearer token))
  | "hmac" =>
      let header := trimText (form.authHeader.getD "")
      let secret := trimText (form.authSecret.getD "")
      if header.isEmpty then
        .error "auth header must be non-empty for HMAC mode"
      else if secret.isEmpty then
        .error "auth secret must be non-empty for HMAC mode"
      else
        match form.authAlgorithm.getD "sha256" with
        | "sha256" => .ok (some (.hmac header .sha256 secret))
        | other => .error s!"unsupported HMAC algorithm: {other}"
  | _ => .ok none

/-- A limit of zero requests, or without a window, is none. -/
def HookForm.rateLimit (form : HookForm) :
    Except String (Option TriggerRateLimit) := do
  let maxRequests := (parseUint 64
    (trimmed (form.triggerRateMax.getD "").toList)).getD 0
  let window := trimText form.triggerRateWindow
  if 0 < maxRequests ∧ ¬ window.isEmpty then
    match ← parseDurationField humantime window with
    | some window => return some { maxRequests, window }
    | none => throw "trigger rate window must be a valid duration"
  else return none

def HookForm.triggerRules (form : HookForm) :
    Except String (Option TriggerRules) := do
  let payloadFilters ← parseFiltersText form.triggerFiltersText
  let timeWindows ← parseWindowsText form.triggerWindowsText
  let cooldown ← parseDurationField humantime (trimText form.triggerCooldown)
  let rateLimit ← form.rateLimit humantime
  if payloadFilters.isSome || timeWindows.isSome || cooldown.isSome ||
      rateLimit.isSome then
    return some { payloadFilters, timeWindows, cooldown, rateLimit }
  else return none

def parseExecutor (kind command : String) : Except String ExecutorConfig :=
  match kind with
  | "" | "shell" => .ok (.shell command)
  | "script" => .ok (.script command)
  | "javascript" => .ok (.javaScript command)
  | "python" => .ok (.python command)
  | "http" => .error "HTTP executors are not supported by this form"
  | other => .error s!"unknown executor type '{other}'"

/-- Convert raw form data into `HookFormData` used by the writer. -/
def parseHookForm (form : HookForm) : Except String HookFormData := do
  let timeout ← parseDurationField humantime form.timeout
  let retries ← form.retries humantime
  let cwd := trimText form.cwd
  let auth ← form.auth
  let payload ← parsePayloadText form.payloadText
  let triggerRules ← form.triggerRules humantime
  let executor ← parseExecutor (trimText form.executorType)
    (trimText form.command)
  return {
    name := trimText form.name
    slug := trimText form.slug
    description := trimText form.description
    enabled := form.enabled.isSome
    executor
    cwd := if cwd.isEmpty then none else some cwd
    env := parseEnvText form.envText
    timeout
    retries
    auth
    payload
    triggerRules }

/-! ## `edit_hook_form` -/

/-- The fields of the page. -/
structure HookFormPage where
  formName : String
  formSlug : String
  formDescription : String
  formEnabled : Bool
  formExecutorType : String
  formCommand : String
  formCwd : String
  formTimeout : String
  formEnvText : String
  formRetryCount : Nat
  formRetryBackoff : String
  formRetryInitialDelay : String
  formRetryMaxDelay : String
  formAuthMode : String
  formAuthToken : String
  formAuthHeader : String
  formAuthAlgorithm : String
  formAuthSecret : String
  formPayloadText : String
  formTriggerFiltersText : String
  formTriggerWindowsText : String
  formTriggerCooldown : String
  formTriggerRateMax : String
  formTriggerRateWindow : String
  deriving DecidableEq, Repr

/-- The command of an executor and the name of its type. -/
def executorFields : ExecutorConfig → String × String
  | .shell command => (command, "shell")
  | .script path => (path, "script")
  | .javaScript path => (path, "javascript")
  | .python path => (path, "python")
  | .http _ url _ _ _ => (url, "http")

structure AuthFields where
  mode : String
  token : String := ""
  header : String := ""
  algorithm : String := ""
  secret : String := ""

def authFields : Option HookAuthConfig → AuthFields
  | some (.bearer token) => { mode := "bearer", token }
  | some (.hmac header .sha256 secret) =>
      { mode := "hmac", header, algorithm := "sha256", secret }
  | some .none | none => { mode := "none", algorithm := "sha256" }

def durationText (duration : Option Duration) : String :=
  (duration.map formatDuration).getD ""

def editHookForm (hook : HookConfig) : HookFormPage :=
  let executor := executorFields hook.executor
  let auth := authFields hook.auth
  let rules := hook.triggerRules
  { formName := hook.name
    formSlug := hook.slug
    formDescription := hook.description
    formEnabled := hook.enabled
    formExecutorType := executor.2
    formCommand := executor.1
    formCwd := hook.cwd.getD ""
    formTimeout := durationText hook.timeout
    formEnvText := String.ofList
      (Text.joinLines ((sortedEntries hook.env).map printEnvEntry))
    formRetryCount := (hook.retries.map (·.count)).getD 0
    formRetryBackoff :=
      (hook.retries.map fun retries => backoffStr retries.backoff).getD
        "exponential"
    formRetryInitialDelay := durationText (hook.retries.map (·.initialDelay))
    formRetryMaxDelay := durationText (hook.retries.map (·.maxDelay))
    formAuthMode := auth.mode
    formAuthToken := auth.token
    formAuthHeader := auth.header
    formAuthAlgorithm := auth.algorithm
    formAuthSecret := auth.secret
    formPayloadText := String.ofList
      (payloadFormat.write ((hook.payload.map (·.fields)).getD []))
    formTriggerFiltersText := String.ofList
      (filterFormat.write ((rules.bind (·.payloadFilters)).getD []))
    formTriggerWindowsText := String.ofList
      (windowFormat.write ((rules.bind (·.timeWindows)).getD []))
    formTriggerCooldown := durationText (rules.bind (·.cooldown))
    formTriggerRateMax :=
      ((rules.bind (·.rateLimit)).map fun limit =>
        toString limit.maxRequests).getD ""
    formTriggerRateWindow :=
      durationText ((rules.bind (·.rateLimit)).map (·.window)) }

/-! ## The form of the page -/

/-- The fields of the page as those of a form, each with the text that it was
filled with. -/
def HookFormPage.form (page : HookFormPage) : HookForm where
  name := page.formName
  slug := page.formSlug
  description := page.formDescription
  enabled := if page.formEnabled then some "true" else none
  executorType := page.formExecutorType
  command := page.formCommand
  cwd := page.formCwd
  timeout := page.formTimeout
  envText := page.formEnvText
  retryCount := some (toString page.formRetryCount)
  retryBackoff := some page.formRetryBackoff
  retryInitialDelay := some page.formRetryInitialDelay
  retryMaxDelay := some page.formRetryMaxDelay
  authMode := some page.formAuthMode
  authToken := some page.formAuthToken
  authHeader := some page.formAuthHeader
  authAlgorithm := some page.formAuthAlgorithm
  authSecret := some page.formAuthSecret
  payloadText := page.formPayloadText
  triggerFiltersText := page.formTriggerFiltersText
  triggerWindowsText := page.formTriggerWindowsText
  triggerCooldown := page.formTriggerCooldown
  triggerRateMax := some page.formTriggerRateMax
  triggerRateWindow := page.formTriggerRateWindow

/-! ## A hook and the data of a form -/

def RetryFormData.config (retries : RetryFormData) : RetryConfig where
  count := retries.count
  backoff := retries.backoff
  initialDelay := retries.initialDelay
  maxDelay := retries.maxDelay

/-- Two executors that differ in the order of their headers at most. -/
def SameExecutor : ExecutorConfig → ExecutorConfig → Prop
  | .http method url headers body followRedirects,
    .http method' url' headers' body' followRedirects' =>
      method = method' ∧ url = url' ∧ body = body' ∧
        followRedirects = followRedirects' ∧
        ∀ name, headers.lookup name = headers'.lookup name
  | executor, executor' => executor = executor'

/-- The hook is what the form data say, in every field of the form. -/
structure HookConfig.ShownBy (hook : HookConfig) (data : HookFormData) :
    Prop where
  name : hook.name = data.name
  description : hook.description = data.description
  enabled : hook.enabled = data.enabled
  executor : SameExecutor hook.executor data.executor
  cwd : hook.cwd = data.cwd
  env : ∀ key, hook.env.lookup key = data.env.lookup key
  timeout : hook.timeout = data.timeout
  retries : hook.retries = data.retries.map RetryFormData.config
  auth : hook.auth = data.auth
  payload : hook.payload = data.payload
  triggerRules : hook.triggerRules = data.triggerRules

end Sendword
