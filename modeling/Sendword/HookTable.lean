import Sendword.Config
import Sendword.Toml.Document

/-!
# The table of a hook

What the fields of the web form become in a `[[hooks]]` table.
-/

namespace Sendword

open Toml

structure RetryFormData where
  count : Nat
  backoff : BackoffStrategy
  initialDelay : Duration
  maxDelay : Duration
  deriving DecidableEq, Repr

/-- Fields submitted when creating or editing a hook via the web form. -/
structure HookFormData where
  name : String
  slug : String
  description : String := ""
  enabled : Bool := true
  executor : ExecutorConfig
  cwd : Option String := none
  env : List (String × String) := []
  timeout : Option Duration := none
  retries : Option RetryFormData := none
  auth : Option HookAuthConfig := none
  payload : Option PayloadSchema := none
  triggerRules : Option TriggerRules := none
  deriving DecidableEq, Repr

/-! ## Values -/

def tomlString (text : String) : Item := .value (.string text)

def tomlBool (bool : Bool) : Item := .value (.boolean bool)

def tomlInt (number : Nat) : Item := .value (.integer number)

def fieldTypeStr : FieldType → String
  | .string => "string"
  | .number => "number"
  | .boolean => "boolean"
  | .object => "object"
  | .array => "array"

def filterOperatorStr : FilterOperator → String
  | .equals => "equals"
  | .notEquals => "not_equals"
  | .contains => "contains"
  | .regex => "regex"
  | .exists => "exists"
  | .gt => "gt"
  | .lt => "lt"
  | .gte => "gte"
  | .lte => "lte"

def backoffStr : BackoffStrategy → String
  | .none => "none"
  | .linear => "linear"
  | .exponential => "exponential"

/-- `format!("{method:?}").to_uppercase()`. -/
def methodStr : HttpMethod → String
  | .get => "GET"
  | .post => "POST"
  | .put => "PUT"
  | .patch => "PATCH"
  | .delete => "DELETE"

/-- Format a duration as a human-readable string compatible with
`humantime`. -/
def formatDuration (duration : Duration) : String :=
  let secs := duration / 1000000000
  let millis := duration % 1000000000 / 1000000
  if secs = 0 ∧ 0 < millis then s!"{millis}ms"
  else if secs < 60 then s!"{secs}s"
  else if secs < 3600 ∧ secs % 60 = 0 then
    let minutes := secs / 60
    s!"{minutes}m"
  else if secs % 3600 = 0 then
    let hours := secs / 3600
    s!"{hours}h"
  else s!"{secs}s"

def tomlDuration (duration : Duration) : Item :=
  tomlString (formatDuration duration)

/-- One string for each key; the first of two entries with one key counts. -/
def stringMapTable (values : List (String × String)) : Table :=
  values.foldr (fun (key, value) table => insert key (tomlString value) table)
    []

/-! ## Sub-tables -/

def executorTable : ExecutorConfig → Table
  | .shell command =>
      [] |> insert "type" (tomlString "shell")
        |> insert "command" (tomlString command)
  | .script path =>
      [] |> insert "type" (tomlString "script")
        |> insert "path" (tomlString path)
  | .javaScript path =>
      [] |> insert "type" (tomlString "javascript")
        |> insert "path" (tomlString path)
  | .python path =>
      [] |> insert "type" (tomlString "python")
        |> insert "path" (tomlString path)
  | .http method url headers body followRedirects =>
      let table := [] |> insert "type" (tomlString "http")
        |> insert "method" (tomlString (methodStr method))
        |> insert "url" (tomlString url)
      let table :=
        if headers.isEmpty then table
        else insert "headers" (.table (stringMapTable headers)) table
      let table := match body with
        | some body => insert "body" (tomlString body) table
        | none => table
      insert "follow_redirects" (tomlBool followRedirects) table

def cwdItem : Option String → Option Item
  | some cwd => if cwd = "" then none else some (tomlString cwd)
  | none => none

def envItem (env : List (String × String)) : Option Item :=
  if env.isEmpty then none else some (.table (stringMapTable env))

/-- A retry count of 0 is no override. -/
def retriesItem : Option RetryFormData → Option Item
  | some retries =>
      if 0 < retries.count then
        some (.table ([] |> insert "count" (tomlInt retries.count)
          |> insert "backoff" (tomlString (backoffStr retries.backoff))
          |> insert "initial_delay" (tomlDuration retries.initialDelay)
          |> insert "max_delay" (tomlDuration retries.maxDelay)))
      else none
  | none => none

def authItem : Option HookAuthConfig → Option Item
  | some (.bearer token) =>
      some (.table ([] |> insert "mode" (tomlString "bearer")
        |> insert "token" (tomlString token)))
  | some (.hmac header .sha256 secret) =>
      some (.table ([] |> insert "mode" (tomlString "hmac")
        |> insert "header" (tomlString header)
        |> insert "algorithm" (tomlString "sha256")
        |> insert "secret" (tomlString secret)))
  | some .none | none => none

def payloadFieldValue (field : PayloadField) : Value :=
  .inlineTable ([] |> insert "name" (.string field.name)
    |> insert "type" (.string (fieldTypeStr field.fieldType))
    |> insert "required" (.boolean field.required))

def payloadItem : Option PayloadSchema → Option Item
  | some schema =>
      if schema.fields.isEmpty then none
      else some (.table ([] |> insert "fields"
        (.value (.array (schema.fields.map payloadFieldValue)))))
  | none => none

def payloadFilterValue (filter : PayloadFilter) : Value :=
  let entries := [] |> insert "field" (.string filter.field)
    |> insert "operator" (.string (filterOperatorStr filter.operator))
  .inlineTable (match filter.value with
    | some value => insert "value" (.string value) entries
    | none => entries)

def timeWindowValue (window : TimeWindow) : Value :=
  .inlineTable ([] |> insert "days" (.array (window.days.map .string))
    |> insert "start_time" (.string window.startTime)
    |> insert "end_time" (.string window.endTime))

/-- `i64::try_from(max_requests).unwrap_or(i64::MAX)`. -/
def storedRequests (maxRequests : Nat) : Nat := min maxRequests (2 ^ 63 - 1)

def rateLimitTable (limit : TriggerRateLimit) : Table :=
  [] |> insert "max_requests" (tomlInt (storedRequests limit.maxRequests))
    |> insert "window" (tomlDuration limit.window)

/-- A list to store, where it is present and not empty. -/
def listed {α : Type} (value : α → Value) : Option (List α) → Option Item
  | some items =>
      if items.isEmpty then none
      else some (.value (.array (items.map value)))
  | none => none

/-- Set a key, or leave it as it is. -/
def setSome (key : String) (item : Option Item) (table : Table) : Table :=
  match item with
  | some item => insert key item table
  | none => table

/-- Set a key, or remove it. -/
def setOrRemove (key : String) (item : Option Item) (table : Table) : Table :=
  match item with
  | some item => insert key item table
  | none => remove key table

def hasTriggerRules (rules : TriggerRules) : Bool :=
  rules.payloadFilters.any (fun filters => !filters.isEmpty) ||
    rules.timeWindows.any (fun windows => !windows.isEmpty) ||
    rules.cooldown.isSome || rules.rateLimit.isSome

def triggerRulesTable (rules : TriggerRules) : Table :=
  [] |> setSome "payload_filters"
      (listed payloadFilterValue rules.payloadFilters)
    |> setSome "time_windows" (listed timeWindowValue rules.timeWindows)
    |> setSome "cooldown" (rules.cooldown.map tomlDuration)
    |> setSome "rate_limit"
      (rules.rateLimit.map fun limit => .table (rateLimitTable limit))

def triggerRulesItem : Option TriggerRules → Option Item
  | some rules =>
      if hasTriggerRules rules then some (.table (triggerRulesTable rules))
      else none
  | none => none

/-! ## The whole table -/

/-- Apply (overwrite) all mutable hook fields on an existing table.  Does not
touch the `slug` key. -/
def applyHookFields (table : Table) (data : HookFormData) : Table :=
  table
    |> insert "name" (tomlString data.name)
    |> insert "description" (tomlString data.description)
    |> insert "enabled" (tomlBool data.enabled)
    |> insert "executor" (.table (executorTable data.executor))
    |> setOrRemove "cwd" (cwdItem data.cwd)
    |> setOrRemove "env" (envItem data.env)
    |> setOrRemove "timeout" (data.timeout.map tomlDuration)
    |> setOrRemove "retries" (retriesItem data.retries)
    |> setOrRemove "auth" (authItem data.auth)
    |> setOrRemove "payload" (payloadItem data.payload)
    |> setOrRemove "trigger_rules" (triggerRulesItem data.triggerRules)

/-- Build a complete `[[hooks]]` table from form data. -/
def buildHookTable (data : HookFormData) : Table :=
  applyHookFields [] data |> insert "slug" (tomlString data.slug)

/-! ## Reading a field back -/

theorem lookup_setOrRemove (key other : String) (item : Option Item)
    (table : Table) :
    (setOrRemove key item table).lookup other =
      if other = key then item else table.lookup other := by
  cases item with
  | none => exact lookup_remove key other table
  | some item => exact lookup_insert key other item table

theorem lookup_setSome (key other : String) (item : Option Item)
    (table : Table) :
    (setSome key item table).lookup other =
      if other = key then item.or (table.lookup other)
      else table.lookup other := by
  cases item with
  | none => simp [setSome]
  | some item => simp [setSome, lookup_insert]

/-- The keys that the form overwrites. -/
def formKeys : List String :=
  ["name", "description", "enabled", "executor", "cwd", "env", "timeout",
    "retries", "auth", "payload", "trigger_rules"]

theorem lookup_applyHookFields {key : String} (other : key ∉ formKeys)
    (table : Table) (data : HookFormData) :
    (applyHookFields table data).lookup key = table.lookup key := by
  simp only [formKeys, List.mem_cons, List.not_mem_nil, or_false,
    not_or] at other
  simp [applyHookFields, lookup_setOrRemove, lookup_insert, other]

/-! ## The table is well formed -/

section WellFormed

variable {literals : Literals} {table : Table}

theorem wellFormed_tomlString (text : String) :
    (tomlString text).WellFormed literals := .value (.string text)

theorem wellFormed_tomlInt {number : Nat} (small : number < 2 ^ 63) :
    (tomlInt number).WellFormed literals :=
  .value (.integer (by omega) (by exact_mod_cast small))

theorem wellFormed_setOrRemove
    (wellFormed : Table.WellFormed literals table)
    (key : String) {item : Option Item}
    (inner : ∀ found ∈ item, found.WellFormed literals) :
    Table.WellFormed literals (setOrRemove key item table) := by
  cases item with
  | none => exact wellFormed.remove key
  | some item => exact wellFormed.insert key (inner item rfl)

theorem wellFormed_setSome
    (wellFormed : Table.WellFormed literals table)
    (key : String) {item : Option Item}
    (inner : ∀ found ∈ item, found.WellFormed literals) :
    Table.WellFormed literals (setSome key item table) := by
  cases item with
  | none => exact wellFormed
  | some item => exact wellFormed.insert key (inner item rfl)

theorem wellFormed_stringMapTable (values : List (String × String)) :
    Table.WellFormed literals (stringMapTable values) := by
  induction values with
  | nil => exact .nil
  | cons entry values induction =>
      exact induction.insert entry.1 (wellFormed_tomlString entry.2)

theorem wellFormed_executorTable (executor : ExecutorConfig) :
    Table.WellFormed literals (executorTable executor) := by
  have string := @wellFormed_tomlString literals
  cases executor with
  | shell command =>
      exact (WellKeyed.nil.insert _ (string _)).insert _ (string _)
  | script path | javaScript path | python path =>
      exact (WellKeyed.nil.insert _ (string _)).insert _ (string _)
  | http method url headers body followRedirects =>
      have start := ((WellKeyed.nil.insert "type" (string "http")).insert
        "method" (string (methodStr method))).insert "url" (string url)
      refine WellKeyed.insert ?_ _ (.value (.boolean _))
      cases headers with
      | nil =>
          cases body with
          | none => exact start
          | some body => exact start.insert _ (string _)
      | cons header headers =>
          have withHeaders := start.insert "headers"
            (wellFormed_stringMapTable (header :: headers)).item
          cases body with
          | none => exact withHeaders
          | some body => exact withHeaders.insert _ (string _)

theorem wellFormed_listed {α : Type} {value : α → Value}
    (each : ∀ item, (value item).WellFormed literals)
    (items : Option (List α)) :
    ∀ found ∈ listed value items, found.WellFormed literals := by
  intro found member
  cases items with
  | none => cases member
  | some items =>
      simp only [listed, Option.mem_def] at member
      split at member
      · cases member
      · cases member
        refine .value (.array fun item inList => ?_)
        obtain ⟨original, -, rfl⟩ := List.mem_map.mp inList
        exact each original

theorem wellFormed_payloadFieldValue (field : PayloadField) :
    (payloadFieldValue field).WellFormed literals :=
  WellKeyed.inline <| ((WellKeyed.nil.insert _ (.string _)).insert _
    (.string _)).insert _ (.boolean _)

theorem wellFormed_payloadFilterValue (filter : PayloadFilter) :
    (payloadFilterValue filter).WellFormed literals := by
  have start : WellKeyed (Value.WellFormed literals)
      ([] |> insert "field" (.string filter.field)
        |> insert "operator" (.string (filterOperatorStr filter.operator))) :=
    (WellKeyed.nil.insert _ (.string _)).insert _ (.string _)
  unfold payloadFilterValue
  cases filter.value with
  | none => exact start.inline
  | some value => exact (start.insert _ (.string value)).inline

theorem wellFormed_timeWindowValue (window : TimeWindow) :
    (timeWindowValue window).WellFormed literals := by
  have days : (Value.array (window.days.map .string)).WellFormed literals := by
    refine .array fun item member => ?_
    obtain ⟨day, -, rfl⟩ := List.mem_map.mp member
    exact .string day
  exact WellKeyed.inline <| ((WellKeyed.nil.insert _ days).insert _
    (.string _)).insert _ (.string _)

theorem wellFormed_triggerRulesTable (rules : TriggerRules) :
    Table.WellFormed literals (triggerRulesTable rules) := by
  have start : Table.WellFormed literals [] := .nil
  have filters := wellFormed_setSome start "payload_filters"
    (wellFormed_listed wellFormed_payloadFilterValue rules.payloadFilters)
  have windows := wellFormed_setSome filters "time_windows"
    (wellFormed_listed wellFormed_timeWindowValue rules.timeWindows)
  have spacing : ∀ found ∈ rules.cooldown.map tomlDuration,
      found.WellFormed literals := by
    intro found member
    obtain ⟨duration, -, rfl⟩ := Option.map_eq_some_iff.mp member
    exact wellFormed_tomlString _
  have cooldown := wellFormed_setSome windows "cooldown" spacing
  refine wellFormed_setSome cooldown "rate_limit" ?_
  intro found member
  obtain ⟨limit, -, rfl⟩ := Option.map_eq_some_iff.mp member
  have small : storedRequests limit.maxRequests < 2 ^ 63 :=
    lt_of_le_of_lt (min_le_right _ _) (by omega)
  exact ((WellKeyed.nil.insert _ (wellFormed_tomlInt small)).insert _
    (wellFormed_tomlString _)).item

variable {data : HookFormData}

/-- A retry count is a `u32`, and more would still fit. -/
theorem wellFormed_applyHookFields
    (wellFormed : Table.WellFormed literals table)
    (small : ∀ retries ∈ data.retries, retries.count < 2 ^ 32) :
    Table.WellFormed literals (applyHookFields table data) := by
  have string := @wellFormed_tomlString literals
  have fields := (((wellFormed.insert "name" (string data.name)).insert
    "description" (string data.description)).insert
    "enabled" (.value (.boolean data.enabled))).insert
    "executor" (wellFormed_executorTable data.executor).item
  refine wellFormed_setOrRemove (wellFormed_setOrRemove
    (wellFormed_setOrRemove (wellFormed_setOrRemove (wellFormed_setOrRemove
    (wellFormed_setOrRemove (wellFormed_setOrRemove fields "cwd" ?cwd)
    "env" ?env) "timeout" ?timeout) "retries" ?retries) "auth" ?auth)
    "payload" ?payload) "trigger_rules" ?rules
  case cwd =>
    intro found member
    cases given : data.cwd with
    | none => simp [cwdItem, given] at member
    | some cwd =>
        simp only [cwdItem, given, Option.mem_def] at member
        split at member
        · cases member
        · cases member
          exact string cwd
  case env =>
    intro found member
    simp only [envItem, Option.mem_def] at member
    split at member
    · cases member
    · cases member
      exact (wellFormed_stringMapTable data.env).item
  case timeout =>
    intro found member
    obtain ⟨duration, -, rfl⟩ := Option.map_eq_some_iff.mp member
    exact string _
  case retries =>
    intro found member
    cases given : data.retries with
    | none => simp [retriesItem, given] at member
    | some retries =>
        have below : retries.count < 2 ^ 63 :=
          (small retries given).trans (by omega)
        simp only [retriesItem, given, Option.mem_def] at member
        split at member
        · cases member
          exact ((((WellKeyed.nil.insert _ (wellFormed_tomlInt below)).insert
            _ (string _)).insert _ (string _)).insert _ (string _)).item
        · cases member
  case auth =>
    intro found member
    rcases given : data.auth with _ | ⟨⟩ | token | ⟨header, ⟨⟩, secret⟩
    · simp [authItem, given] at member
    · simp [authItem, given] at member
    · simp only [authItem, given, Option.mem_def] at member
      cases member
      exact ((WellKeyed.nil.insert _ (string _)).insert _ (string _)).item
    · simp only [authItem, given, Option.mem_def] at member
      cases member
      exact ((((WellKeyed.nil.insert _ (string _)).insert _
        (string _)).insert _ (string _)).insert _ (string _)).item
  case payload =>
    intro found member
    cases given : data.payload with
    | none => simp [payloadItem, given] at member
    | some schema =>
        simp only [payloadItem, given, Option.mem_def] at member
        split at member
        · cases member
        · cases member
          refine (WellKeyed.nil.insert _ (.value (.array ?_))).item
          intro item inList
          obtain ⟨field, -, rfl⟩ := List.mem_map.mp inList
          exact wellFormed_payloadFieldValue field
  case rules =>
    intro found member
    cases given : data.triggerRules with
    | none => simp [triggerRulesItem, given] at member
    | some rules =>
        simp only [triggerRulesItem, given, Option.mem_def] at member
        split at member
        · cases member
          exact (wellFormed_triggerRulesTable rules).item
        · cases member

theorem wellFormed_buildHookTable
    (small : ∀ retries ∈ data.retries, retries.count < 2 ^ 32) :
    Table.WellFormed literals (buildHookTable data) :=
  (wellFormed_applyHookFields .nil small).insert _ (wellFormed_tomlString _)

end WellFormed

end Sendword
