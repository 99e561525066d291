import Sendword.Layers
import Sendword.Loading

/-!
# The settings of the configuration

What the structs of the configuration are read from, setting by setting.  The
hooks are one setting, as `figment` replaces their array as a whole.
-/

namespace Sendword

open Figment Decode

section Tables

variable (serde : Serde)

def serverFields : Fields ServerConfig :=
  .cons "bind" (.single (defaultField string "127.0.0.1")) (·.bind) <|
  .cons "port" (.single (defaultField (natural 16) 8080)) (·.port) .nil

def databaseFields : Fields DatabaseConfig :=
  .cons "path" (.single (defaultField string "data/sendword.db")) (·.path)
    .nil

def logsFields : Fields LogsConfig :=
  .cons "dir" (.single (defaultField string "data/logs")) (·.dir) .nil

def smtpFields : Fields SmtpConfig :=
  .cons "host" (.single (requiredField string)) (·.host) <|
  .cons "port" (.single (requiredField (natural 16))) (·.port) <|
  .cons "username" (.single (requiredField string)) (·.username) <|
  .cons "password" (.single (requiredField string)) (·.password) <|
  .cons "from" (.single (requiredField string)) (·.sender) <|
  .cons "starttls" (.single (defaultField bool true)) (·.starttls) .nil

def authSectionFields : Fields AuthConfig :=
  .cons "session_lifetime"
    (.single (defaultField (duration serde)
      (Duration.fromSecs (24 * 60 * 60))))
    (·.sessionLifetime) <|
  .cons "secure_cookie" (.single (defaultField bool false))
    (·.secureCookie) <|
  .cons "base_url" (.single (optionalField string)) (·.baseUrl) <|
  .cons "smtp" (.optional (smtpConfig serde) smtpFields) (·.smtp) .nil

def scriptsFields : Fields ScriptsConfig :=
  .cons "dir" (.single (defaultField string "data/scripts")) (·.dir) .nil

def retryFields : Fields RetryConfig :=
  .cons "count" (.single (defaultField (natural 32) 0)) (·.count) <|
  .cons "backoff"
    (.single (defaultField (variant serde backoffs) .exponential))
    (·.backoff) <|
  .cons "initial_delay"
    (.single (defaultField (duration serde) (Duration.fromSecs 1)))
    (·.initialDelay) <|
  .cons "max_delay"
    (.single (defaultField (duration serde) (Duration.fromSecs 60)))
    (·.maxDelay) .nil

/-- `rate_limit` has a default and its own field has none, so that it is set
as a whole. -/
def defaultsFields : Fields DefaultsConfig :=
  .cons "rate_limit" (.single (defaultField (rateLimitConfig serde) {}))
    (·.rateLimit) <|
  .cons "timeout"
    (.single (defaultField (duration serde) (Duration.fromSecs 30)))
    (·.timeout) <|
  .cons "retries" (.group (retryConfig serde) {} (retryFields serde))
    (·.retries) .nil

def maskingFields : Fields MaskingConfig :=
  .cons "env_vars" (.single (defaultField (list string) [])) (·.envVars) <|
  .cons "patterns" (.single (defaultField (list string) []))
    (·.patterns) <|
  .skip [] (·.compiledPatterns) .nil

def retentionFields : Fields RetentionConfig :=
  .cons "max_count" (.single (optionalField (natural 32))) (·.maxCount) <|
  .cons "max_age" (.single (optionalField (duration serde))) (·.maxAge) .nil

def backupFields : Fields BackupConfig :=
  .cons "endpoint" (.single (requiredField string)) (·.endpoint) <|
  .cons "bucket" (.single (requiredField string)) (·.bucket) <|
  .cons "access_key" (.single (requiredField string)) (·.accessKey) <|
  .cons "secret_key" (.single (requiredField string)) (·.secretKey) <|
  .cons "region" (.single (defaultField string "")) (·.region) <|
  .cons "prefix" (.single (defaultField string "")) (·.keyPrefix) <|
  .cons "schedule" (.single (optionalField string)) (·.schedule) <|
  .cons "retention"
    (.group (retentionConfig serde) {} (retentionFields serde))
    (·.retention) .nil

def appFields : Fields AppConfig :=
  .cons "server" (.group (serverConfig serde) {} serverFields)
    (·.server) <|
  .cons "database" (.group (databaseConfig serde) {} databaseFields)
    (·.database) <|
  .cons "logs" (.group (logsConfig serde) {} logsFields) (·.logs) <|
  .cons "auth" (.group (authSection serde) {} (authSectionFields serde))
    (·.auth) <|
  .cons "scripts" (.group (scriptsConfig serde) {} scriptsFields)
    (·.scripts) <|
  .cons "defaults" (.group (defaultsConfig serde) {} (defaultsFields serde))
    (·.defaults) <|
  .cons "masking" (.group (maskingConfig serde) {} maskingFields)
    (·.masking) <|
  .cons "hooks" (.single (defaultField (list (hookConfig serde)) []))
    (·.hooks) <|
  .cons "backup" (.optional (backupConfig serde) (backupFields serde))
    (·.backup) .nil

end Tables

/-! ## The structs are decoded field by field -/

section Fields

variable {α : Type} (entries : Dict) (key : String)
  (decode : Value → Option α)

theorem required_eq :
    required entries key decode =
      requiredField decode (entries.lookup key) := rfl

theorem withDefault_eq (default : α) :
    withDefault entries key decode default =
      defaultField decode default (entries.lookup key) := by
  unfold withDefault
  cases entries.lookup key <;> rfl

theorem optional_eq :
    Decode.optional entries key decode =
      optionalField decode (entries.lookup key) := by
  unfold Decode.optional
  cases entries.lookup key with
  | none => rfl
  | some value => cases value <;> rfl

end Fields

variable {serde : Serde}

theorem server_lawful :
    (Setting.group (serverConfig serde) {} serverFields).Lawful := by
  refine ⟨fun entries config => ?_, rfl, by simp [serverFields]⟩
  cases config
  simp [serverConfig, serverFields, withDefault_eq,
    Option.bind_eq_some_iff]

theorem database_lawful :
    (Setting.group (databaseConfig serde) {} databaseFields).Lawful := by
  refine ⟨fun entries config => ?_, rfl, by simp [databaseFields]⟩
  cases config
  simp [databaseConfig, databaseFields, withDefault_eq,
    Option.bind_eq_some_iff]

theorem logs_lawful :
    (Setting.group (logsConfig serde) {} logsFields).Lawful := by
  refine ⟨fun entries config => ?_, rfl, by simp [logsFields]⟩
  cases config
  simp [logsConfig, logsFields, withDefault_eq, Option.bind_eq_some_iff]

theorem smtp_lawful :
    (Setting.optional (smtpConfig serde) smtpFields).Lawful := by
  refine ⟨fun entries config => ?_, rfl, by simp [smtpFields]⟩
  cases config
  simp [smtpConfig, smtpFields, required_eq, withDefault_eq,
    Option.bind_eq_some_iff, -Bool.exists_bool]

theorem auth_lawful :
    (Setting.group (authSection serde) {}
      (authSectionFields serde)).Lawful := by
  refine ⟨fun entries config => ?_, rfl, trivial, trivial, trivial,
    smtp_lawful, trivial⟩
  cases config
  simp [authSection, authSectionFields, withDefault_eq, optional_eq,
    Option.bind_eq_some_iff, -Bool.exists_bool]

theorem scripts_lawful :
    (Setting.group (scriptsConfig serde) {} scriptsFields).Lawful := by
  refine ⟨fun entries config => ?_, rfl, by simp [scriptsFields]⟩
  cases config
  simp [scriptsConfig, scriptsFields, withDefault_eq,
    Option.bind_eq_some_iff]

theorem retry_lawful :
    (Setting.group (retryConfig serde) {} (retryFields serde)).Lawful := by
  refine ⟨fun entries config => ?_, rfl, by simp [retryFields]⟩
  cases config
  simp [retryConfig, retryFields, withDefault_eq, Option.bind_eq_some_iff]

theorem defaults_lawful :
    (Setting.group (defaultsConfig serde) {}
      (defaultsFields serde)).Lawful := by
  refine ⟨fun entries config => ?_, rfl, trivial, trivial, retry_lawful,
    trivial⟩
  cases config
  simp [defaultsConfig, defaultsFields, withDefault_eq,
    Option.bind_eq_some_iff]

theorem masking_lawful :
    (Setting.group (maskingConfig serde) {} maskingFields).Lawful := by
  refine ⟨fun entries config => ?_, rfl, by simp [maskingFields]⟩
  cases config
  simp [maskingConfig, maskingFields, withDefault_eq,
    Option.bind_eq_some_iff]

theorem retention_lawful :
    (Setting.group (retentionConfig serde) {}
      (retentionFields serde)).Lawful := by
  refine ⟨fun entries config => ?_, rfl, by simp [retentionFields]⟩
  cases config
  simp [retentionConfig, retentionFields, optional_eq,
    Option.bind_eq_some_iff]

theorem backup_lawful :
    (Setting.optional (backupConfig serde) (backupFields serde)).Lawful := by
  refine ⟨fun entries config => ?_, rfl, trivial, trivial, trivial, trivial,
    trivial, trivial, trivial, retention_lawful, trivial⟩
  cases config
  simp [backupConfig, backupFields, required_eq, withDefault_eq, optional_eq,
    Option.bind_eq_some_iff]

theorem app_lawful : (appFields serde).Lawful :=
  ⟨server_lawful, database_lawful, logs_lawful, auth_lawful, scripts_lawful,
    defaults_lawful, masking_lawful, trivial, backup_lawful, trivial⟩

theorem app_decodes {entries : Dict} {config : AppConfig} :
    appConfig serde entries = some config ↔
      (appFields serde).Read entries config := by
  cases config
  simp [appConfig, appFields, withDefault_eq, optional_eq,
    Option.bind_eq_some_iff]

end Sendword
