import Sendword.Figment
import Sendword.Files.Disk
import Sendword.Payload
import Sendword.Validation

/-!
# Loading a configuration

What `serde` makes of a table, field by field, and `AppConfig::load_from`.
-/

namespace Sendword

open Files Figment
open Toml hiding Value

/-- What a value is decoded as: a struct, or an enum with a tag. -/
inductive Shape where
  | fields (names : List String)
  | tagged (tag : String) (variants : List (String × List String))

/-- What `serde` and `humantime` accept besides the usual forms. -/
structure Serde where
  /-- `humantime::parse_duration`. -/
  parseDuration : String → Option Duration
  /-- The entries that the elements of a sequence stand for, in the place of
  a map. -/
  sequence : Shape → List Value → Option Dict
  sequence_mem : ∀ shape items entries,
    sequence shape items = some entries → ∀ entry ∈ entries, entry.2 ∈ items
  /-- The variant, among these, that a value other than a string names. -/
  variantName : List String → Value → Option String

/-! ## Decoding values -/

namespace Decode

variable {α : Type}

def string : Value → Option String
  | .string text => some text
  | _ => none

def bool : Value → Option Bool
  | .boolean value => some value
  | _ => none

/-- An unsigned integer type. -/
def natural (bits : Nat) : Value → Option Nat
  | .integer number =>
      if 0 ≤ number ∧ number < 2 ^ bits then some number.toNat else none
  | _ => none

def list (item : Value → Option α) : Value → Option (List α)
  | .array items => items.mapM item
  | _ => none

/-- `HashMap<String, String>`. -/
def strings : Value → Option (List (String × String))
  | .dict entries =>
      entries.mapM fun (key, value) => (string value).map (key, ·)
  | _ => none

section Serde

variable (serde : Serde)

/-- `humantime_serde`. -/
def duration : Value → Option Duration
  | .string text => serde.parseDuration text
  | _ => none

/-- The entries of a struct or of an enum with a tag. -/
def record (shape : Shape) : Value → Option Dict
  | .dict entries => some entries
  | .array items => serde.sequence shape items
  | _ => none

def variantName (names : List String) : Value → Option String
  | .string text => some text
  | value => serde.variantName names value

/-- A unit variant, by its name. -/
def variant (names : List (String × α)) (value : Value) : Option α :=
  (variantName serde (names.map Prod.fst) value).bind (List.lookup · names)

@[simp] theorem record_dict (shape : Shape) (entries : Dict) :
    record serde shape (.dict entries) = some entries := rfl

@[simp] theorem variantName_string (names : List String) (text : String) :
    variantName serde names (.string text) = some text := rfl

@[simp] theorem variant_string (names : List (String × α))
    (text : String) :
    variant serde names (.string text) = names.lookup text := rfl

end Serde

def required (entries : Dict) (key : String) (decode : Value → Option α) :
    Option α :=
  (entries.lookup key).bind decode

/-- `#[serde(default)]`. -/
def withDefault (entries : Dict) (key : String) (decode : Value → Option α)
    (default : α) : Option α :=
  match entries.lookup key with
  | some value => decode value
  | none => some default

def optional (entries : Dict) (key : String) (decode : Value → Option α) :
    Option (Option α) :=
  match entries.lookup key with
  | some .empty | none => some none
  | some value => (decode value).map some

theorem optional_of_lookup {entries : Dict} {key : String} {value : Value}
    {decode : Value → Option α} (found : entries.lookup key = some value)
    (given : value ≠ .empty) :
    optional entries key decode = (decode value).map some := by
  unfold optional
  rw [found]
  cases value with
  | empty => exact absurd rfl given
  | string | integer | float | boolean | array | dict => rfl

/-! ## Hooks -/

def backoffs : List (String × BackoffStrategy) :=
  [("none", .none), ("linear", .linear), ("exponential", .exponential)]

def httpMethods : List (String × HttpMethod) :=
  [("GET", .get), ("POST", .post), ("PUT", .put), ("PATCH", .patch),
    ("DELETE", .delete)]

def fieldTypes : List (String × FieldType) :=
  [("string", .string), ("number", .number), ("boolean", .boolean),
    ("object", .object), ("array", .array)]

def filterOperators : List (String × FilterOperator) :=
  [("equals", .equals), ("not_equals", .notEquals),
    ("contains", .contains), ("regex", .regex), ("exists", .exists),
    ("gt", .gt), ("lt", .lt), ("gte", .gte), ("lte", .lte)]

/-- The variants of `ExecutorConfig`, with their fields. -/
def executors : List (String × List String) :=
  [("shell", ["command"]), ("script", ["path"]), ("javascript", ["path"]),
    ("python", ["path"]),
    ("http", ["method", "url", "headers", "body", "follow_redirects"])]

/-- The variants of `HookAuthConfig`, with their fields. -/
def hookAuths : List (String × List String) :=
  [("none", []), ("bearer", ["token"]),
    ("hmac", ["header", "algorithm", "secret"])]

section Records

variable (serde : Serde)

def executorConfig (value : Value) : Option ExecutorConfig := do
  let entries ← record serde (.tagged "type" executors) value
  match ← required entries "type"
      (variantName serde (executors.map Prod.fst)) with
  | "shell" => return .shell (← required entries "command" string)
  | "script" => return .script (← required entries "path" string)
  | "javascript" => return .javaScript (← required entries "path" string)
  | "python" => return .python (← required entries "path" string)
  | "http" =>
      return .http
        (← required entries "method" (variant serde httpMethods))
        (← required entries "url" string)
        (← withDefault entries "headers" strings [])
        (← optional entries "body" string)
        (← withDefault entries "follow_redirects" bool true)
  | _ => none

def authConfig (value : Value) : Option HookAuthConfig := do
  let entries ← record serde (.tagged "mode" hookAuths) value
  match ← required entries "mode"
      (variantName serde (hookAuths.map Prod.fst)) with
  | "none" => return .none
  | "bearer" => return .bearer (← required entries "token" string)
  | "hmac" =>
      return .hmac
        (← required entries "header" string)
        (← required entries "algorithm"
          (variant serde [("sha256", HmacAlgorithm.sha256)]))
        (← required entries "secret" string)
  | _ => none

def payloadField (value : Value) : Option PayloadField := do
  let entries ← record serde (.fields ["name", "type", "required"]) value
  return {
    name := ← required entries "name" string
    fieldType := ← required entries "type" (variant serde fieldTypes)
    required := ← withDefault entries "required" bool false }

def payloadSchema (value : Value) : Option PayloadSchema := do
  let entries ← record serde (.fields ["fields"]) value
  return { fields := ← required entries "fields" (list (payloadField serde)) }

def payloadFilter (value : Value) : Option PayloadFilter := do
  let entries ← record serde (.fields ["field", "operator", "value"]) value
  return {
    field := ← required entries "field" string
    operator := ← required entries "operator" (variant serde filterOperators)
    value := ← optional entries "value" string }

def timeWindow (value : Value) : Option TimeWindow := do
  let entries ← record serde
    (.fields ["days", "start_time", "end_time"]) value
  return {
    days := ← required entries "days" (list string)
    startTime := ← required entries "start_time" string
    endTime := ← required entries "end_time" string }

def rateLimitConfig (value : Value) : Option RateLimitConfig := do
  let entries ← record serde (.fields ["max_per_minute"]) value
  return { maxPerMinute := ← required entries "max_per_minute" (natural 32) }

def concurrencyConfig (value : Value) : Option ConcurrencyConfig := do
  let entries ← record serde (.fields ["mode", "queue_depth"]) value
  return {
    mode := ← required entries "mode"
      (variant serde [("mutex", ConcurrencyMode.mutex), ("queue", .queue)])
    queueDepth := ← withDefault entries "queue_depth" (natural 32) 10 }

def notificationConfig (value : Value) : Option NotificationConfig := do
  let entries ← record serde (.fields ["url", "on", "headers", "body"]) value
  return {
    url := ← required entries "url" string
    on := ← withDefault entries "on"
      (list (variant serde [("success", NotifyOutcome.success),
        ("failure", .failure), ("timeout", .timeout)]))
      [.failure, .timeout]
    headers := ← withDefault entries "headers" strings []
    body := ← required entries "body" string }

def retryConfig (value : Value) : Option RetryConfig := do
  let entries ← record serde
    (.fields ["count", "backoff", "initial_delay", "max_delay"]) value
  return {
    count := ← withDefault entries "count" (natural 32) 0
    backoff := ← withDefault entries "backoff" (variant serde backoffs)
      .exponential
    initialDelay := ← withDefault entries "initial_delay"
      (duration serde) (Duration.fromSecs 1)
    maxDelay := ← withDefault entries "max_delay" (duration serde)
      (Duration.fromSecs 60) }

def triggerRateLimit (value : Value) : Option TriggerRateLimit := do
  let entries ← record serde (.fields ["max_requests", "window"]) value
  return {
    maxRequests := ← required entries "max_requests" (natural 64)
    window := ← required entries "window" (duration serde) }

def triggerRules (value : Value) : Option TriggerRules := do
  let entries ← record serde
    (.fields ["payload_filters", "time_windows", "cooldown",
      "rate_limit"]) value
  return {
    payloadFilters := ← optional entries "payload_filters"
      (list (payloadFilter serde))
    timeWindows := ← optional entries "time_windows" (list (timeWindow serde))
    cooldown := ← optional entries "cooldown" (duration serde)
    rateLimit := ← optional entries "rate_limit" (triggerRateLimit serde) }

def approvalConfig (value : Value) : Option ApprovalConfig := do
  let entries ← record serde (.fields ["required", "timeout"]) value
  return {
    required := ← required entries "required" bool
    timeout := ← optional entries "timeout" (duration serde) }

def hookConfig (value : Value) : Option HookConfig := do
  let entries ← record serde
    (.fields ["name", "slug", "description", "enabled", "auth", "executor",
      "env", "cwd", "timeout", "retries", "rate_limit", "payload",
      "trigger_rules", "concurrency", "approval", "notification"]) value
  return {
    name := ← required entries "name" string
    slug := ← required entries "slug" string
    description := ← withDefault entries "description" string ""
    enabled := ← withDefault entries "enabled" bool true
    auth := ← optional entries "auth" (authConfig serde)
    executor := ← required entries "executor" (executorConfig serde)
    env := ← withDefault entries "env" strings []
    cwd := ← optional entries "cwd" string
    timeout := ← optional entries "timeout" (duration serde)
    retries := ← optional entries "retries" (retryConfig serde)
    rateLimit := ← optional entries "rate_limit" (rateLimitConfig serde)
    payload := ← optional entries "payload" (payloadSchema serde)
    triggerRules := ← optional entries "trigger_rules" (triggerRules serde)
    concurrency := ← optional entries "concurrency" (concurrencyConfig serde)
    approval := ← optional entries "approval" (approvalConfig serde)
    notification := ← optional entries "notification"
      (notificationConfig serde) }

/-! ## The other sections -/

def serverConfig (value : Value) : Option ServerConfig := do
  let entries ← record serde (.fields ["bind", "port"]) value
  return {
    bind := ← withDefault entries "bind" string "127.0.0.1"
    port := ← withDefault entries "port" (natural 16) 8080 }

def databaseConfig (value : Value) : Option DatabaseConfig := do
  let entries ← record serde (.fields ["path"]) value
  return { path := ← withDefault entries "path" string "data/sendword.db" }

def logsConfig (value : Value) : Option LogsConfig := do
  let entries ← record serde (.fields ["dir"]) value
  return { dir := ← withDefault entries "dir" string "data/logs" }

def smtpConfig (value : Value) : Option SmtpConfig := do
  let entries ← record serde
    (.fields ["host", "port", "username", "password", "from",
      "starttls"]) value
  return {
    host := ← required entries "host" string
    port := ← required entries "port" (natural 16)
    username := ← required entries "username" string
    password := ← required entries "password" string
    sender := ← required entries "from" string
    starttls := ← withDefault entries "starttls" bool true }

def authSection (value : Value) : Option AuthConfig := do
  let entries ← record serde
    (.fields ["session_lifetime", "secure_cookie", "base_url", "smtp"]) value
  return {
    sessionLifetime := ← withDefault entries "session_lifetime"
      (duration serde) (Duration.fromSecs (24 * 60 * 60))
    secureCookie := ← withDefault entries "secure_cookie" bool false
    baseUrl := ← optional entries "base_url" string
    smtp := ← optional entries "smtp" (smtpConfig serde) }

def scriptsConfig (value : Value) : Option ScriptsConfig := do
  let entries ← record serde (.fields ["dir"]) value
  return { dir := ← withDefault entries "dir" string "data/scripts" }

def defaultsConfig (value : Value) : Option DefaultsConfig := do
  let entries ← record serde
    (.fields ["rate_limit", "timeout", "retries"]) value
  return {
    rateLimit := ← withDefault entries "rate_limit" (rateLimitConfig serde) {}
    timeout := ← withDefault entries "timeout" (duration serde)
      (Duration.fromSecs 30)
    retries := ← withDefault entries "retries" (retryConfig serde) {} }

def maskingConfig (value : Value) : Option MaskingConfig := do
  let entries ← record serde (.fields ["env_vars", "patterns"]) value
  return {
    envVars := ← withDefault entries "env_vars" (list string) []
    patterns := ← withDefault entries "patterns" (list string) [] }

def retentionConfig (value : Value) : Option RetentionConfig := do
  let entries ← record serde (.fields ["max_count", "max_age"]) value
  return {
    maxCount := ← optional entries "max_count" (natural 32)
    maxAge := ← optional entries "max_age" (duration serde) }

def backupConfig (value : Value) : Option BackupConfig := do
  let entries ← record serde
    (.fields ["endpoint", "bucket", "access_key", "secret_key", "region",
      "prefix", "schedule", "retention"]) value
  return {
    endpoint := ← required entries "endpoint" string
    bucket := ← required entries "bucket" string
    accessKey := ← required entries "access_key" string
    secretKey := ← required entries "secret_key" string
    region := ← withDefault entries "region" string ""
    keyPrefix := ← withDefault entries "prefix" string ""
    schedule := ← optional entries "schedule" string
    retention := ← withDefault entries "retention"
      (retentionConfig serde) {} }

def appConfig (entries : Dict) : Option AppConfig := do
  return {
    server := ← withDefault entries "server" (serverConfig serde) {}
    database := ← withDefault entries "database" (databaseConfig serde) {}
    logs := ← withDefault entries "logs" (logsConfig serde) {}
    auth := ← withDefault entries "auth" (authSection serde) {}
    scripts := ← withDefault entries "scripts" (scriptsConfig serde) {}
    defaults := ← withDefault entries "defaults" (defaultsConfig serde) {}
    masking := ← withDefault entries "masking" (maskingConfig serde) {}
    hooks := ← withDefault entries "hooks" (list (hookConfig serde)) []
    backup := ← optional entries "backup" (backupConfig serde) }

end Records

end Decode

/-! ## Loading -/

/-- The crates that a configuration is read and written with. -/
structure Crates extends Serde where
  checkers : Checkers
  literals : Literals
  /-- The parser of `toml` and `toml_edit`. -/
  parse : String → Option Document
  /-- `DocumentMut::to_string`. -/
  print : Document → String
  /-- The layer of the `SENDWORD_` variables.  The JSON file that is named
  beside the configuration file, `nonexistent.json`, adds nothing. -/
  overlay : Layer
  /-- `serde_json::from_value`. -/
  fromJson : Json → Except String AppConfig
  /-- `toml_edit::ser::to_string_pretty`. -/
  serialize : AppConfig → Except String String

variable (crates : Crates)

/-- `Figment::extract` on the merged providers, and the checks after it. -/
def loadValues (values : Dict) : Except ConfigError AppConfig :=
  match Decode.appConfig crates.toSerde values with
  | none => .error .figment
  | some config =>
      match config.masking.compile crates.checkers with
      | .error errors => .error (.validation ("\n".intercalate errors))
      | .ok masking =>
          let config := { config with masking }
          match config.validate crates.checkers with
          | .error error => .error error
          | .ok () => .ok config

def loadDocument (document : Document) : Except ConfigError AppConfig :=
  loadValues crates (mergeDict (toValues document) crates.overlay.entries)

/-- What `Toml::file` reads: a missing file is an empty document, and any
other failure an error. -/
def fileText : Except IoError ByteArray → Option String
  | .ok bytes => String.fromUTF8? bytes
  | .error .notFound => some ""
  | .error .failed => none

/-- `AppConfig::load_from`, after the file was read. -/
def loadFrom (file : Except IoError ByteArray) :
    Except ConfigError AppConfig :=
  match (fileText file).bind crates.parse with
  | some document => loadDocument crates document
  | none => .error .figment

/-- `AppConfig::load`, which puts `sendword.json` between the file and the
environment. -/
def loadAtStartup (json : Layer) (file : Except IoError ByteArray) :
    Except ConfigError AppConfig :=
  match (fileText file).bind crates.parse with
  | some document =>
      loadValues crates
        (mergeDict (mergeDict (toValues document) json.entries)
          crates.overlay.entries)
  | none => .error .figment

/-- What is assumed of the crates: what is read is well formed, and these
documents are printed and read faithfully. -/
structure Crates.Lawful (printed : Document → Prop) : Prop where
  parse_empty : crates.parse "" = some []
  parse_wellFormed : ∀ text document, crates.parse text = some document →
    Table.WellFormed crates.literals document
  parse_print : ∀ document, printed document →
    Table.WellFormed crates.literals document →
    crates.parse (crates.print document) = some document

theorem fromUTF8?_toUTF8 (text : String) :
    String.fromUTF8? text.toUTF8 = some text := by
  unfold String.fromUTF8?
  exact dif_pos text.isValidUTF8

@[simp] theorem fileText_toUTF8 (text : String) :
    fileText (.ok text.toUTF8) = some text := fromUTF8?_toUTF8 text

/-- What is loaded from a text of the file. -/
theorem loadFrom_printed {crates : Crates} {text : String}
    {document : Document} (parsed : crates.parse text = some document) :
    loadFrom crates (.ok text.toUTF8) = loadDocument crates document := by
  unfold loadFrom
  rw [fileText_toUTF8, Option.bind_some, parsed]

end Sendword
