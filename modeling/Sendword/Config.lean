/-!
# Configuration

The sections of `AppConfig` with their defaults.  Maps are association lists,
and a `Duration` is a number of nanoseconds.
-/

namespace Sendword

/-- Nanoseconds. -/
abbrev Duration := Nat

def Duration.fromSecs (seconds : Nat) : Duration := seconds * 1000000000

inductive BackoffStrategy where
  | none
  | linear
  | exponential
  deriving DecidableEq, Repr

structure RetryConfig where
  count : Nat := 0
  backoff : BackoffStrategy := .exponential
  initialDelay : Duration := Duration.fromSecs 1
  maxDelay : Duration := Duration.fromSecs 60
  deriving DecidableEq, Repr

structure RateLimitConfig where
  maxPerMinute : Nat := 60
  deriving DecidableEq, Repr

structure DefaultsConfig where
  rateLimit : RateLimitConfig := {}
  timeout : Duration := Duration.fromSecs 30
  retries : RetryConfig := {}
  deriving DecidableEq, Repr

inductive HttpMethod where
  | get
  | post
  | put
  | patch
  | delete
  deriving DecidableEq, Repr

inductive ExecutorConfig where
  | shell (command : String)
  | script (path : String)
  | javaScript (path : String)
  | python (path : String)
  | http (method : HttpMethod) (url : String)
      (headers : List (String × String)) (body : Option String)
      (followRedirects : Bool)
  deriving DecidableEq, Repr

inductive HmacAlgorithm where
  | sha256
  deriving DecidableEq, Repr

inductive HookAuthConfig where
  | none
  | bearer (token : String)
  | hmac (header : String) (algorithm : HmacAlgorithm) (secret : String)
  deriving DecidableEq, Repr

inductive FilterOperator where
  | equals
  | notEquals
  | contains
  | regex
  | exists
  | gt
  | lt
  | gte
  | lte
  deriving DecidableEq, Repr

structure PayloadFilter where
  field : String
  operator : FilterOperator
  value : Option String := none
  deriving DecidableEq, Repr

structure TimeWindow where
  days : List String
  startTime : String
  endTime : String
  deriving DecidableEq, Repr

structure TriggerRateLimit where
  maxRequests : Nat
  window : Duration
  deriving DecidableEq, Repr

structure TriggerRules where
  payloadFilters : Option (List PayloadFilter) := none
  timeWindows : Option (List TimeWindow) := none
  cooldown : Option Duration := none
  rateLimit : Option TriggerRateLimit := none
  deriving DecidableEq, Repr

inductive ConcurrencyMode where
  | mutex
  | queue
  deriving DecidableEq, Repr

structure ConcurrencyConfig where
  mode : ConcurrencyMode
  queueDepth : Nat := 10
  deriving DecidableEq, Repr

structure ApprovalConfig where
  required : Bool
  timeout : Option Duration := none
  deriving DecidableEq, Repr

inductive NotifyOutcome where
  | success
  | failure
  | timeout
  deriving DecidableEq, Repr

structure NotificationConfig where
  url : String
  on : List NotifyOutcome := [.failure, .timeout]
  headers : List (String × String) := []
  body : String
  deriving DecidableEq, Repr

inductive FieldType where
  | string
  | number
  | boolean
  | object
  | array
  deriving DecidableEq, Repr

structure PayloadField where
  name : String
  fieldType : FieldType
  required : Bool := false
  deriving DecidableEq, Repr

structure PayloadSchema where
  fields : List PayloadField
  deriving DecidableEq, Repr

structure HookConfig where
  name : String
  slug : String
  description : String := ""
  enabled : Bool := true
  auth : Option HookAuthConfig := none
  executor : ExecutorConfig
  env : List (String × String) := []
  cwd : Option String := none
  timeout : Option Duration := none
  retries : Option RetryConfig := none
  rateLimit : Option RateLimitConfig := none
  payload : Option PayloadSchema := none
  triggerRules : Option TriggerRules := none
  concurrency : Option ConcurrencyConfig := none
  approval : Option ApprovalConfig := none
  notification : Option NotificationConfig := none
  deriving DecidableEq, Repr

structure ServerConfig where
  bind : String := "127.0.0.1"
  port : Nat := 8080
  deriving DecidableEq, Repr

structure DatabaseConfig where
  path : String := "data/sendword.db"
  deriving DecidableEq, Repr

structure LogsConfig where
  dir : String := "data/logs"
  deriving DecidableEq, Repr

structure SmtpConfig where
  host : String
  port : Nat
  username : String
  password : String
  sender : String
  starttls : Bool := true
  deriving DecidableEq, Repr

structure AuthConfig where
  sessionLifetime : Duration := Duration.fromSecs (24 * 60 * 60)
  secureCookie : Bool := false
  baseUrl : Option String := none
  smtp : Option SmtpConfig := none
  deriving DecidableEq, Repr

structure ScriptsConfig where
  dir : String := "data/scripts"
  deriving DecidableEq, Repr

/-- `compiledPatterns` is filled by `compile`, not by deserialization. -/
structure MaskingConfig where
  envVars : List String := []
  patterns : List String := []
  compiledPatterns : List String := []
  deriving DecidableEq, Repr

structure RetentionConfig where
  maxCount : Option Nat := none
  maxAge : Option Duration := none
  deriving DecidableEq, Repr

structure BackupConfig where
  endpoint : String
  bucket : String
  accessKey : String
  secretKey : String
  region : String := ""
  keyPrefix : String := ""
  schedule : Option String := none
  retention : RetentionConfig := {}
  deriving DecidableEq, Repr

structure AppConfig where
  server : ServerConfig := {}
  database : DatabaseConfig := {}
  logs : LogsConfig := {}
  auth : AuthConfig := {}
  scripts : ScriptsConfig := {}
  defaults : DefaultsConfig := {}
  masking : MaskingConfig := {}
  hooks : List HookConfig := []
  backup : Option BackupConfig := none
  deriving DecidableEq, Repr

/-- The lookup every handler makes: `hooks.iter().find(|h| h.slug == slug)`. -/
def AppConfig.hook? (config : AppConfig) (slug : String) :
    Option HookConfig :=
  config.hooks.find? fun hook => hook.slug == slug

end Sendword
