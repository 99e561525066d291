import Sendword.Config

/-!
# Validation of a configuration

`AppConfig::validate` collects one message for every field that fails its
check.  `MaskingConfig::compile` is apart from it: only loading a file calls
both.
-/

namespace Sendword

inductive ConfigError where
  | figment
  | validation (message : String)
  deriving DecidableEq, Repr

/-- The parsers of other crates that decide whether a field is valid. -/
structure Checkers where
  /-- The error of `regex::Regex::new`. -/
  regexError : String → Option String
  /-- `chrono::NaiveTime::parse_from_str` with `%H:%M`. -/
  parseTime : String → Option Nat
  /-- `cron::Schedule::from_str`. -/
  cronIsValid : String → Bool

variable (checkers : Checkers)

/-- `errors.join("\n")`, where there are errors. -/
def failWith (errors : List String) : Except ConfigError Unit :=
  if errors.isEmpty then .ok ()
  else .error (.validation ("\n".intercalate errors))

def MaskingConfig.compile (masking : MaskingConfig) :
    Except (List String) MaskingConfig :=
  let errors := masking.patterns.zipIdx.filterMap fun (pattern, i) =>
    (checkers.regexError pattern).map fun error =>
      s!"masking.patterns[{i}] '{pattern}': {error}"
  if errors.isEmpty then
    .ok { masking with compiledPatterns := masking.patterns }
  else .error errors

/-- The message of a check that fails. -/
def require (holds : Bool) (message : String) : List String :=
  if holds then [] else [message]

/-- The loop of `is_valid_slug` over the bytes. -/
def slugBytes : (previousHyphen : Bool) → List UInt8 → Bool
  | _, [] => true
  | previousHyphen, byte :: bytes =>
      if (97 ≤ byte ∧ byte ≤ 122) ∨ (48 ≤ byte ∧ byte ≤ 57) then
        slugBytes false bytes
      else if byte = 45 then !previousHyphen && slugBytes true bytes
      else false

def isValidSlug (slug : String) : Bool :=
  let bytes := slug.toUTF8.data.toList
  if bytes.length = 0 ∨ bytes.length > 64 then false
  else if bytes.head? = some 45 ∨ bytes.getLast? = some 45 then false
  else slugBytes false bytes

/-! ## The checks of one hook -/

def ExecutorConfig.errors (place : String) : ExecutorConfig → List String
  | .shell command =>
      require (command ≠ "") s!"{place}.executor.command must be non-empty"
  | .script path
  | .javaScript path
  | .python path =>
      require (path ≠ "") s!"{place}.executor.path must be non-empty"
  | .http .. => []

def RetryConfig.delaysInOrder (retries : RetryConfig) : Bool :=
  retries.initialDelay ≤ retries.maxDelay

def HookAuthConfig.errors (place : String) : HookAuthConfig → List String
  | .none => []
  | .bearer token =>
      require (token ≠ "") s!"{place}.auth.token must be non-empty"
  | .hmac header _ secret =>
      require (header ≠ "") s!"{place}.auth.header must be non-empty" ++
      require (secret ≠ "") s!"{place}.auth.secret must be non-empty"

def PayloadFilter.errors (place : String) (j : Nat)
    (filter : PayloadFilter) : List String :=
  match filter.operator, filter.value with
  | .regex, some pattern =>
      require (checkers.regexError pattern).isNone
        (s!"{place}.trigger_rules.payload_filters[{j}].value " ++
          "is not a valid regex")
  | .regex, none =>
      [s!"{place}.trigger_rules.payload_filters[{j}].value " ++
        "is required for regex operator"]
  | _, _ => []

def validDays : List String :=
  ["Mon", "Tue", "Wed", "Thu", "Fri", "Sat", "Sun"]

/-- `validDays.iter().any(|d| d.eq_ignore_ascii_case(day))`. -/
def isValidDay (day : String) : Bool :=
  validDays.any fun valid => valid.toLower == day.toLower

def TimeWindow.errors (place : String) (j : Nat) (window : TimeWindow) :
    List String :=
  let start := checkers.parseTime window.startTime
  let finish := checkers.parseTime window.endTime
  let inOrder := match start, finish with
    | some first, some last => decide (first < last)
    | _, _ => true
  let placeOf := s!"{place}.trigger_rules.time_windows[{j}]"
  require start.isSome s!"{placeOf}.start_time must be HH:MM format" ++
  require finish.isSome s!"{placeOf}.end_time must be HH:MM format" ++
  require inOrder s!"{placeOf}.start_time must be before end_time" ++
  window.days.flatMap fun day => require (isValidDay day)
    (s!"{placeOf}.days contains invalid day '{day}' " ++
      "(expected Mon-Sun)")

def TriggerRateLimit.errors (place : String) (limit : TriggerRateLimit) :
    List String :=
  require (limit.maxRequests ≠ 0)
    (s!"{place}.trigger_rules.rate_limit.max_requests " ++
      "must be greater than 0") ++
  require (limit.window ≠ 0)
    s!"{place}.trigger_rules.rate_limit.window must be greater than 0"

def TriggerRules.errors (place : String) (rules : TriggerRules) :
    List String :=
  ((rules.payloadFilters.getD []).zipIdx.flatMap fun (filter, j) =>
    filter.errors checkers place j) ++
  ((rules.timeWindows.getD []).zipIdx.flatMap fun (window, j) =>
    window.errors checkers place j) ++
  rules.rateLimit.elim [] (TriggerRateLimit.errors place)

def HookConfig.errors (i : Nat) (duplicate : Bool) (hook : HookConfig) :
    List String :=
  let place := s!"hooks[{i}]"
  let slug := hook.slug
  require (hook.name ≠ "") s!"{place}.name must be non-empty" ++
  require (isValidSlug slug)
    (s!"{place}.slug '{slug}' is invalid (must be 1-64 lowercase " ++
      "alphanumeric chars or hyphens, no leading/trailing/consecutive " ++
      "hyphens)") ++
  require (!duplicate) s!"{place}.slug '{slug}' is a duplicate" ++
  hook.executor.errors place ++
  require (hook.retries.all RetryConfig.delaysInOrder)
    (s!"{place}.retries.initial_delay must not exceed " ++
      s!"{place}.retries.max_delay") ++
  require (hook.rateLimit.all fun limit => limit.maxPerMinute ≠ 0)
    s!"{place}.rate_limit.max_per_minute must be greater than 0" ++
  hook.auth.elim [] (HookAuthConfig.errors place) ++
  hook.triggerRules.elim [] (TriggerRules.errors checkers place) ++
  require (hook.concurrency.all fun concurrency =>
      concurrency.mode ≠ .queue ∨ concurrency.queueDepth ≠ 0)
    (s!"{place}.concurrency.queue_depth must be greater than 0 " ++
      "in queue mode") ++
  require (hook.approval.all fun approval => approval.timeout ≠ some 0)
    s!"{place}.approval.timeout must be greater than 0 if set"

/-- The loop over the hooks, with the slugs seen so far. -/
def hookErrors : Nat → List String → List HookConfig → List String
  | _, _, [] => []
  | i, seen, hook :: hooks =>
      hook.errors checkers i (seen.contains hook.slug) ++
        hookErrors (i + 1) (hook.slug :: seen) hooks

/-! ## The whole configuration -/

def BackupConfig.errors (backup : BackupConfig) : List String :=
  (match backup.schedule with
    | some schedule => require (checkers.cronIsValid schedule)
        s!"backup.schedule '{schedule}' is not a valid cron expression"
    | none => []) ++
  require (backup.bucket ≠ "") "backup.bucket must be non-empty" ++
  require (backup.endpoint ≠ "") "backup.endpoint must be non-empty"

def AppConfig.errors (config : AppConfig) : List String :=
  require (config.server.port ≠ 0) "server.port must be non-zero" ++
  require (config.defaults.rateLimit.maxPerMinute ≠ 0)
    "defaults.rate_limit.max_per_minute must be greater than 0" ++
  require (config.auth.sessionLifetime ≠ 0)
    "auth.session_lifetime must be greater than 0" ++
  require (config.scripts.dir ≠ "") "scripts.dir must be non-empty" ++
  require (config.defaults.timeout ≠ 0)
    "defaults.timeout must be greater than 0" ++
  require config.defaults.retries.delaysInOrder
    ("defaults.retries.initial_delay must not exceed " ++
      "defaults.retries.max_delay") ++
  (config.masking.envVars.zipIdx.flatMap fun (name, i) =>
    require (name ≠ "") s!"masking.env_vars[{i}] must be non-empty") ++
  hookErrors checkers 0 [] config.hooks ++
  config.backup.elim [] (BackupConfig.errors checkers)

def AppConfig.validate (config : AppConfig) : Except ConfigError Unit :=
  failWith (config.errors checkers)

/-! ## From the errors to the parts of a configuration -/

section Parts

variable {checkers : Checkers} {config : AppConfig} {hook : HookConfig}

@[simp] theorem require_eq_nil {holds : Bool} {message : String} :
    require holds message = [] ↔ holds = true := by
  cases holds with
  | true => exact iff_of_true rfl rfl
  | false => simp [require]

theorem validate_eq_ok :
    config.validate checkers = .ok () ↔ config.errors checkers = [] := by
  unfold AppConfig.validate failWith
  cases config.errors checkers with
  | nil => exact iff_of_true rfl rfl
  | cons error errors => simp

theorem hookErrors_eq_nil {hooks : List HookConfig} {i : Nat}
    {seen : List String} (valid : hookErrors checkers i seen hooks = [])
    (member : hook ∈ hooks) :
    ∃ i duplicate, hook.errors checkers i duplicate = [] := by
  induction hooks generalizing i seen with
  | nil => cases member
  | cons head hooks induction =>
      obtain ⟨own, others⟩ := List.append_eq_nil_iff.mp valid
      rcases List.mem_cons.mp member with rfl | member
      · exact ⟨_, _, own⟩
      · exact induction others member

theorem hook_errors (valid : config.validate checkers = .ok ())
    (member : hook ∈ config.hooks) :
    ∃ i duplicate, hook.errors checkers i duplicate = [] := by
  have noErrors := validate_eq_ok.mp valid
  unfold AppConfig.errors at noErrors
  simp only [List.append_eq_nil_iff] at noErrors
  exact hookErrors_eq_nil noErrors.1.2 member

/-- The slugs of a valid configuration are valid. -/
theorem isValidSlug_of_validate (valid : config.validate checkers = .ok ())
    (member : hook ∈ config.hooks) : isValidSlug hook.slug = true := by
  obtain ⟨i, duplicate, own⟩ := hook_errors valid member
  unfold HookConfig.errors at own
  simp only [List.append_eq_nil_iff, require_eq_nil] at own
  simp [own]

end Parts

end Sendword
