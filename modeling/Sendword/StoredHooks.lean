import Sendword.Form.Durations
import Sendword.LoadedEdits

/-!
# The hook that is stored

What the fields of the form become in the configuration when their table is
loaded again.
-/

namespace Sendword

open Figment
open Toml hiding Value

/-! ## The stored values -/

/-- The headers of a request are a map. -/
def ExecutorConfig.stored : ExecutorConfig → ExecutorConfig
  | .http method url headers body followRedirects =>
      .http method url (sortedEntries headers) body followRedirects
  | executor => executor

def RetryFormData.stored (retries : RetryFormData) : RetryConfig where
  count := retries.count
  backoff := retries.backoff
  initialDelay := retries.initialDelay.stored
  maxDelay := retries.maxDelay.stored

def TriggerRateLimit.stored (limit : TriggerRateLimit) :
    TriggerRateLimit where
  maxRequests := storedRequests limit.maxRequests
  window := limit.window.stored

/-- An empty list is not stored. -/
def storedList {Entry : Type} (items : Option (List Entry)) :
    Option (List Entry) :=
  items.filter fun items => !items.isEmpty

def TriggerRules.stored (rules : TriggerRules) : TriggerRules where
  payloadFilters := storedList rules.payloadFilters
  timeWindows := storedList rules.timeWindows
  cooldown := rules.cooldown.map Duration.stored
  rateLimit := rules.rateLimit.map TriggerRateLimit.stored

/-- A hook with the fields of the form. -/
def HookFormData.onto (data : HookFormData) (hook : HookConfig) :
    HookConfig :=
  { hook with
    name := data.name
    description := data.description
    enabled := data.enabled
    executor := data.executor.stored
    cwd := data.cwd.filter (· ≠ "")
    env := sortedEntries data.env
    timeout := data.timeout.map Duration.stored
    retries :=
      (data.retries.filter fun retries => 0 < retries.count).map
        RetryFormData.stored
    auth := data.auth.filter (· ≠ .none)
    payload := data.payload.filter fun schema => !schema.fields.isEmpty
    triggerRules :=
      (data.triggerRules.filter hasTriggerRules).map TriggerRules.stored }

/-- A new hook has the fields of the form and no other settings. -/
def HookFormData.hook (data : HookFormData) : HookConfig :=
  data.onto { name := data.name, slug := data.slug, executor := data.executor }

/-- The numbers of the form are those of their machine types. -/
structure HookFormData.Fits (data : HookFormData) : Prop where
  timeout : ∀ timeout ∈ data.timeout, timeout.Fits
  retries : ∀ retries ∈ data.retries, retries.count < 2 ^ 32 ∧
    retries.initialDelay.Fits ∧ retries.maxDelay.Fits
  triggerRules : ∀ rules ∈ data.triggerRules,
    (∀ cooldown ∈ rules.cooldown, cooldown.Fits) ∧
      ∀ limit ∈ rules.rateLimit, limit.window.Fits

/-! ## Reading values back -/

section Values

variable {Entry Code Stored : Type}

/-- A list that is read back element by element. -/
theorem mapM_map {encode : Entry → Code} {decode : Code → Option Stored}
    {store : Entry → Stored} {items : List Entry}
    (each : ∀ item ∈ items, decode (encode item) = some (store item)) :
    (items.map encode).mapM decode = some (items.map store) := by
  induction items with
  | nil => rfl
  | cons item items induction =>
      have rest := induction fun other member =>
        each other (List.mem_cons_of_mem _ member)
      simp [each item List.mem_cons_self, rest]

theorem toValues_insert (key : String) (item : Item) (table : Table) :
    toValues (insert key item table) =
      insert key item.toValue (toValues table) := by
  rw [toValues_eq, toValues_eq]
  exact map_insert Item.toValue key item table

/-- A map is written as a table, and read in the order of its keys. -/
theorem toValues_stringMapTable (values : List (String × String)) :
    toValues (stringMapTable values) =
      (sortedEntries values).map fun entry => (entry.1, .string entry.2) := by
  induction values with
  | nil => rfl
  | cons entry values induction =>
      obtain ⟨key, text⟩ := entry
      change toValues (insert key (tomlString text)
        (stringMapTable values)) = _
      rw [toValues_insert, induction]
      exact (map_insert Figment.Value.string key text _).symm

theorem strings_stringMapTable (values : List (String × String)) :
    Decode.strings (.dict (toValues (stringMapTable values))) =
      some (sortedEntries values) := by
  rw [toValues_stringMapTable]
  have each := @mapM_map (String × String) (String × Value)
    (String × String) (fun entry => (entry.1, .string entry.2))
    (fun entry => (Decode.string entry.2).map (entry.1, ·)) id
    (sortedEntries values) fun entry _ => rfl
  rwa [List.map_id] at each

end Values

section Decoded

variable {serde : Serde}

theorem fieldTypes_fieldTypeStr (fieldType : FieldType) :
    Decode.fieldTypes.lookup (fieldTypeStr fieldType) = some fieldType := by
  cases fieldType <;> rfl

theorem filterOperators_filterOperatorStr (operator : FilterOperator) :
    Decode.filterOperators.lookup (filterOperatorStr operator) =
      some operator := by
  cases operator <;> rfl

theorem backoffs_backoffStr (backoff : BackoffStrategy) :
    Decode.backoffs.lookup (backoffStr backoff) = some backoff := by
  cases backoff <;> rfl

theorem httpMethods_methodStr (method : HttpMethod) :
    Decode.httpMethods.lookup (methodStr method) = some method := by
  cases method <;> rfl

theorem decode_executor (executor : ExecutorConfig) :
    Decode.executorConfig serde (.dict (toValues (executorTable executor))) =
      some executor.stored := by
  cases executor with
  | shell command | script path | javaScript path | python path =>
      simp [Decode.executorConfig, Decode.required, executorTable,
        lookup_insert, tomlString, Item.toValue, Decode.string,
        ExecutorConfig.stored]
  | http method url headers body followRedirects =>
      have headersRead := strings_stringMapTable headers
      have methodRead := httpMethods_methodStr method
      cases headers with
      | nil =>
          cases body <;>
            simp [Decode.executorConfig, Decode.required,
              Decode.withDefault, Decode.optional, executorTable,
              lookup_insert, tomlString, tomlBool, Item.toValue,
              Decode.string, Decode.bool, methodRead,
              ExecutorConfig.stored, sortedEntries]
      | cons header headers =>
          cases body <;>
            simp [Decode.executorConfig, Decode.required,
              Decode.withDefault, Decode.optional, executorTable,
              lookup_insert, tomlString, tomlBool, Item.toValue,
              Decode.string, Decode.bool, methodRead,
              headersRead, ExecutorConfig.stored]

theorem list_said {Entry : Type} {encode : Entry → Toml.Value}
    {decode : Value → Option Entry}
    (each : ∀ item, decode (encode item).said = some item)
    (items : List Entry) :
    Decode.list decode (Toml.Value.array (items.map encode)).said =
      some items := by
  have whole := @mapM_map Entry Value Entry (fun item => (encode item).said)
    decode id items fun item _ => each item
  rw [List.map_id] at whole
  rw [Toml.Value.said, saidItems_eq, List.map_map]
  exact whole

/-- An item that is there exactly when a value is stored, and is read as
it. -/
def ReadsAs {Stored : Type} (decode : Value → Option Stored) :
    Option Item → Option Stored → Prop
  | none, stored => stored = none
  | some item, stored =>
      ∃ value, stored = some value ∧ decode item.toValue = some value

theorem ReadsAs.optional {Stored : Type} {decode : Value → Option Stored}
    {item : Option Item} {stored : Option Stored}
    (reads : ReadsAs decode item stored) {entries : Dict} {key : String}
    (found : entries.lookup key = item.map Item.toValue) :
    Decode.optional entries key decode = some stored := by
  cases item with
  | none =>
      cases reads
      unfold Decode.optional
      rw [found]
      rfl
  | some item =>
      obtain ⟨value, rfl, decoded⟩ := reads
      rw [Decode.optional_of_lookup found item.toValue_ne_empty, decoded]
      rfl

/-- A key that is read as a value is so with any default. -/
theorem withDefault_of_read {Stored : Type} {decode : Value → Option Stored}
    {entries : Dict} {key : String} {value : Value} {default stored : Stored}
    (found : entries.lookup key = some value)
    (decoded : decode value = some stored) :
    Decode.withDefault entries key decode default = some stored := by
  rw [Decode.withDefault, found]
  exact decoded

theorem required_of_read {Stored : Type} {decode : Value → Option Stored}
    {entries : Dict} {key : String} {value : Value} {stored : Stored}
    (found : entries.lookup key = some value)
    (decoded : decode value = some stored) :
    Decode.required entries key decode = some stored := by
  rw [Decode.required, found]
  exact decoded

theorem reads_cwd (cwd : Option String) :
    ReadsAs Decode.string (cwdItem cwd) (cwd.filter (· ≠ "")) := by
  cases cwd with
  | none => rfl
  | some cwd =>
      by_cases empty : cwd = ""
      · rw [cwdItem, if_pos empty, Option.filter_some_neg (by simpa)]
        rfl
      · rw [cwdItem, if_neg empty, Option.filter_some_pos (by simpa)]
        exact ⟨cwd, rfl, rfl⟩

theorem decode_env {entries : Dict} {env : List (String × String)}
    (found : entries.lookup "env" = (envItem env).map Item.toValue) :
    Decode.withDefault entries "env" Decode.strings [] =
      some (sortedEntries env) := by
  unfold Decode.withDefault
  rw [found]
  cases env with
  | nil => rfl
  | cons entry env => exact strings_stringMapTable (entry :: env)

theorem decode_natural {bits number : Nat} (small : number < 2 ^ bits) :
    Decode.natural bits (.integer number) = some number := by
  have bound : (number : Int) < 2 ^ bits := by exact_mod_cast small
  rw [Decode.natural, if_pos ⟨Int.natCast_nonneg number, bound⟩,
    Int.toNat_natCast]

theorem decode_duration (reads : ReadsUnits serde.parseDuration)
    {duration : Duration} (fits : duration.Fits) :
    Decode.duration serde (tomlDuration duration).toValue =
      some duration.stored :=
  parse_formatDuration reads fits

theorem reads_timeout (reads : ReadsUnits serde.parseDuration)
    {timeout : Option Duration} (fits : ∀ known ∈ timeout, known.Fits) :
    ReadsAs (Decode.duration serde) (timeout.map tomlDuration)
      (timeout.map Duration.stored) := by
  cases timeout with
  | none => rfl
  | some timeout => exact ⟨_, rfl, decode_duration reads (fits timeout rfl)⟩

theorem retryConfig_of_reads {entries : Dict} {retries : RetryConfig}
    (count : Decode.withDefault entries "count" (Decode.natural 32) 0 =
      some retries.count)
    (backoff : Decode.withDefault entries "backoff"
      (Decode.variant serde Decode.backoffs) .exponential = some retries.backoff)
    (initialDelay : Decode.withDefault entries "initial_delay"
      (Decode.duration serde) (Duration.fromSecs 1) =
        some retries.initialDelay)
    (maxDelay : Decode.withDefault entries "max_delay"
      (Decode.duration serde) (Duration.fromSecs 60) =
        some retries.maxDelay) :
    Decode.retryConfig serde (.dict entries) = some retries := by
  simp only [Decode.retryConfig, Decode.record_dict, Option.bind_eq_bind,
    Option.bind_some, count, backoff, initialDelay, maxDelay,
    Option.pure_def]

theorem reads_retries (reads : ReadsUnits serde.parseDuration)
    {retries : Option RetryFormData}
    (fits : ∀ known ∈ retries, known.count < 2 ^ 32 ∧
      known.initialDelay.Fits ∧ known.maxDelay.Fits) :
    ReadsAs (Decode.retryConfig serde) (retriesItem retries)
      ((retries.filter fun retries => 0 < retries.count).map
        RetryFormData.stored) := by
  cases retries with
  | none => rfl
  | some retries =>
      obtain ⟨small, first, last⟩ := fits retries rfl
      by_cases positive : 0 < retries.count
      · rw [retriesItem, if_pos positive,
          Option.filter_some_pos (by simpa using positive)]
        refine ⟨retries.stored, rfl, ?_⟩
        have natural : Decode.natural 32 (tomlInt retries.count).toValue =
          some retries.count := decode_natural small
        have variant : Decode.variant serde Decode.backoffs
            (tomlString (backoffStr retries.backoff)).toValue =
          some retries.backoff := backoffs_backoffStr retries.backoff
        refine retryConfig_of_reads (withDefault_of_read ?_ natural)
          (withDefault_of_read ?_ variant)
          (withDefault_of_read ?_ (decode_duration reads first))
          (withDefault_of_read ?_ (decode_duration reads last))
        · simp [lookup_insert]
        · simp [lookup_insert]
        · simp [lookup_insert]
        · simp
      · rw [retriesItem, if_neg positive,
          Option.filter_some_neg (by simpa using positive)]
        rfl

theorem reads_auth (auth : Option HookAuthConfig) :
    ReadsAs (Decode.authConfig serde) (authItem auth)
      (auth.filter (· ≠ .none)) := by
  rcases auth with _ | _ | token | ⟨header, ⟨⟩, secret⟩
  · rfl
  · rfl
  · refine ⟨.bearer token, rfl, ?_⟩
    simp [Item.toValue, Decode.authConfig, Decode.required, lookup_insert,
      tomlString, Decode.string]
  · refine ⟨.hmac header .sha256 secret, rfl, ?_⟩
    simp [Item.toValue, Decode.authConfig, Decode.required, lookup_insert,
      tomlString, Decode.string]

theorem decode_payloadField (field : PayloadField) :
    Decode.payloadField serde (payloadFieldValue field).said = some field := by
  have variant := fieldTypes_fieldTypeStr field.fieldType
  simp [payloadFieldValue, Decode.payloadField, Decode.required,
    Decode.withDefault, lookup_insert, Decode.string, Decode.bool,
    variant]

theorem decode_filter (filter : PayloadFilter) :
    Decode.payloadFilter serde (payloadFilterValue filter).said =
      some filter := by
  have variant := filterOperators_filterOperatorStr filter.operator
  obtain ⟨field, operator, value⟩ := filter
  cases value <;>
    simp [payloadFilterValue, Decode.payloadFilter, Decode.required,
      Decode.optional, lookup_insert, Decode.string, variant]

theorem decode_window (window : TimeWindow) :
    Decode.timeWindow serde (timeWindowValue window).said = some window := by
  have days := @list_said String .string Decode.string (fun day => rfl)
    window.days
  simp [timeWindowValue, Decode.timeWindow, Decode.required, lookup_insert,
    Decode.string, days]

theorem reads_payload (payload : Option PayloadSchema) :
    ReadsAs (Decode.payloadSchema serde) (payloadItem payload)
      (payload.filter fun schema => !schema.fields.isEmpty) := by
  cases payload with
  | none => rfl
  | some schema =>
      by_cases empty : schema.fields.isEmpty = true
      · rw [payloadItem, if_pos empty,
          Option.filter_some_neg (by simpa using empty)]
        rfl
      · rw [payloadItem, if_neg empty,
          Option.filter_some_pos (by simpa using empty)]
        refine ⟨schema, rfl, ?_⟩
        have fields := list_said (@decode_payloadField serde) schema.fields
        simp [Item.toValue, Decode.payloadSchema, Decode.required, fields]

theorem reads_listed {Entry : Type} {encode : Entry → Toml.Value}
    {decode : Value → Option Entry}
    (each : ∀ item, decode (encode item).said = some item)
    (items : Option (List Entry)) :
    ReadsAs (Decode.list decode) (listed encode items) (storedList items) := by
  cases items with
  | none => rfl
  | some items =>
      by_cases empty : items.isEmpty = true
      · rw [listed, if_pos empty, storedList,
          Option.filter_some_neg (by simpa using empty)]
        rfl
      · rw [listed, if_neg empty, storedList,
          Option.filter_some_pos (by simpa using empty)]
        exact ⟨items, rfl, list_said each items⟩

theorem triggerRateLimit_of_reads {entries : Dict}
    {limit : TriggerRateLimit}
    (maxRequests : Decode.required entries "max_requests"
      (Decode.natural 64) = some limit.maxRequests)
    (window : Decode.required entries "window" (Decode.duration serde) =
      some limit.window) :
    Decode.triggerRateLimit serde (.dict entries) = some limit := by
  simp only [Decode.triggerRateLimit, Decode.record_dict,
    Option.bind_eq_bind,
    Option.bind_some, maxRequests, window, Option.pure_def]

theorem reads_rateLimit (reads : ReadsUnits serde.parseDuration)
    {limit : Option TriggerRateLimit}
    (fits : ∀ known ∈ limit, known.window.Fits) :
    ReadsAs (Decode.triggerRateLimit serde)
      (limit.map fun limit => .table (rateLimitTable limit))
      (limit.map TriggerRateLimit.stored) := by
  cases limit with
  | none => rfl
  | some limit =>
      refine ⟨limit.stored, rfl, ?_⟩
      have small : storedRequests limit.maxRequests < 2 ^ 64 := by
        unfold storedRequests
        omega
      have natural : Decode.natural 64
          (tomlInt (storedRequests limit.maxRequests)).toValue =
        some (storedRequests limit.maxRequests) := decode_natural small
      have window := decode_duration reads (fits limit rfl)
      refine triggerRateLimit_of_reads (required_of_read ?_ natural)
        (required_of_read ?_ window)
      · simp [rateLimitTable, lookup_insert]
      · simp [rateLimitTable]

theorem lookup_triggerRulesTable (rules : TriggerRules) (key : String) :
    (triggerRulesTable rules).lookup key =
      if key = "rate_limit" then
        rules.rateLimit.map fun limit => .table (rateLimitTable limit)
      else if key = "cooldown" then rules.cooldown.map tomlDuration
      else if key = "time_windows" then
        listed timeWindowValue rules.timeWindows
      else if key = "payload_filters" then
        listed payloadFilterValue rules.payloadFilters
      else none := by
  unfold triggerRulesTable
  simp only [lookup_setSome]
  split
  · subst key
    simp
  · split
    · subst key
      simp
    · split
      · subst key
        simp
      · simp

theorem reads_triggerRules (reads : ReadsUnits serde.parseDuration)
    {rules : Option TriggerRules}
    (fits : ∀ known ∈ rules, (∀ cooldown ∈ known.cooldown, cooldown.Fits) ∧
      ∀ limit ∈ known.rateLimit, limit.window.Fits) :
    ReadsAs (Decode.triggerRules serde) (triggerRulesItem rules)
      ((rules.filter hasTriggerRules).map TriggerRules.stored) := by
  cases rules with
  | none => rfl
  | some rules =>
      obtain ⟨cooldown, limit⟩ := fits rules rfl
      by_cases some : hasTriggerRules rules = true
      · rw [triggerRulesItem, if_pos some, Option.filter_some_pos some]
        refine ⟨rules.stored, rfl, ?_⟩
        have lookup (key : String) :
            (toValues (triggerRulesTable rules)).lookup key =
              ((triggerRulesTable rules).lookup key).map Item.toValue :=
          lookup_toValues _ key
        simp only [lookup_triggerRulesTable] at lookup
        have filters := (reads_listed (@decode_filter serde)
          rules.payloadFilters).optional (lookup "payload_filters")
        have windows := (reads_listed (@decode_window serde)
          rules.timeWindows).optional (lookup "time_windows")
        have spacing := (reads_timeout reads cooldown).optional
          (lookup "cooldown")
        have limited := (reads_rateLimit reads limit).optional
          (lookup "rate_limit")
        simp [Item.toValue, Decode.triggerRules, filters,
          windows, spacing, limited, TriggerRules.stored]
      · rw [triggerRulesItem, if_neg some,
          Option.filter_some_neg (by simpa using some)]
        rfl

end Decoded

/-! ## The whole hook -/

section Whole

variable {serde : Serde} {data : HookFormData}

/-- The item of a key of the form. -/
def formItem (data : HookFormData) (key : String) : Option Item :=
  match key with
  | "name" => some (tomlString data.name)
  | "description" => some (tomlString data.description)
  | "enabled" => some (tomlBool data.enabled)
  | "executor" => some (.table (executorTable data.executor))
  | "cwd" => cwdItem data.cwd
  | "env" => envItem data.env
  | "timeout" => data.timeout.map tomlDuration
  | "retries" => retriesItem data.retries
  | "auth" => authItem data.auth
  | "payload" => payloadItem data.payload
  | "trigger_rules" => triggerRulesItem data.triggerRules
  | _ => none

theorem lookup_formItem {key : String} (member : key ∈ formKeys)
    (table : Table) :
    (applyHookFields table data).lookup key = formItem data key := by
  simp only [formKeys, List.mem_cons, List.not_mem_nil, or_false] at member
  rcases member with rfl | rfl | rfl | rfl | rfl | rfl | rfl | rfl | rfl |
    rfl | rfl
  all_goals simp [applyHookFields, lookup_setOrRemove, lookup_insert, formItem]

/-- A table with the items of the form, and the other keys of a hook. -/
theorem decodes_of_form (reads : ReadsUnits serde.parseDuration)
    (fits : data.Fits) {entries before : Dict} {hook : HookConfig}
    (decodes : HookDecodes serde before hook)
    (form : ∀ key ∈ formKeys,
      entries.lookup key = (formItem data key).map Item.toValue)
    (other : ∀ key, key ∉ formKeys →
      entries.lookup key = before.lookup key) :
    HookDecodes serde entries (data.onto hook) := by
  have kept {Stored : Type} (key : String) (decode : Value → Option Stored)
      (outside : key ∉ formKeys) :
      Decode.optional entries key decode =
        Decode.optional before key decode := by
    simp only [Decode.optional, other key outside]
  exact
    { name := required_of_read (form "name" (by decide)) rfl
      slug := by
        rw [Decode.required, other "slug" (by decide)]
        exact decodes.slug
      description := withDefault_of_read (form "description" (by decide)) rfl
      enabled := withDefault_of_read (form "enabled" (by decide)) rfl
      auth := (reads_auth data.auth).optional (form "auth" (by decide))
      executor := required_of_read (form "executor" (by decide))
        (decode_executor data.executor)
      env := decode_env (form "env" (by decide))
      cwd := (reads_cwd data.cwd).optional (form "cwd" (by decide))
      timeout := (reads_timeout reads fits.timeout).optional
        (form "timeout" (by decide))
      retries := (reads_retries reads fits.retries).optional
        (form "retries" (by decide))
      rateLimit := (kept _ _ (by decide)).trans decodes.rateLimit
      payload := (reads_payload data.payload).optional
        (form "payload" (by decide))
      triggerRules := (reads_triggerRules reads fits.triggerRules).optional
        (form "trigger_rules" (by decide))
      concurrency := (kept _ _ (by decide)).trans decodes.concurrency
      approval := (kept _ _ (by decide)).trans decodes.approval
      notification := (kept _ _ (by decide)).trans decodes.notification }

theorem decodes_applyHookFields (reads : ReadsUnits serde.parseDuration)
    (fits : data.Fits) {table : Table} {hook : HookConfig}
    (decodes : HookDecodes serde (toValues table) hook) :
    HookDecodes serde (toValues (applyHookFields table data))
      (data.onto hook) := by
  refine decodes_of_form reads fits decodes (fun key member => ?_)
    fun key outside => ?_
  · rw [lookup_toValues, lookup_formItem member]
  · rw [lookup_toValues, lookup_toValues, lookup_applyHookFields outside]

theorem decodes_buildHookTable (reads : ReadsUnits serde.parseDuration)
    (fits : data.Fits) :
    HookDecodes serde (toValues (buildHookTable data)) data.hook := by
  let start : Dict := [("executor", .dict (toValues
    (executorTable data.executor))), ("name", .string data.name),
    ("slug", .string data.slug)]
  let hook : HookConfig :=
    { name := data.name
      slug := data.slug
      executor := data.executor.stored }
  have decodes : HookDecodes serde start hook := by
    have executor : Decode.required start "executor"
        (Decode.executorConfig serde) = some data.executor.stored :=
      decode_executor data.executor
    exact
      { name := rfl
        slug := rfl
        description := rfl
        enabled := rfl
        auth := rfl
        executor
        env := rfl
        cwd := rfl
        timeout := rfl
        retries := rfl
        rateLimit := rfl
        payload := rfl
        triggerRules := rfl
        concurrency := rfl
        approval := rfl
        notification := rfl }
  change HookDecodes serde _ (data.onto hook)
  refine decodes_of_form reads fits decodes (fun key member => ?_)
    fun key outside => ?_
  · have notSlug : key ≠ "slug" := by
      rintro rfl
      exact absurd member (by decide)
    rw [lookup_toValues, buildHookTable, lookup_insert_of_ne notSlug,
      lookup_formItem member]
  · rw [lookup_toValues, buildHookTable, lookup_insert,
      lookup_applyHookFields outside]
    by_cases slug : key = "slug"
    · subst slug
      rfl
    · simp only [formKeys, List.mem_cons, List.not_mem_nil, or_false,
        not_or] at outside
      simp [start, lookup_cons, slug, outside]

end Whole

end Sendword
