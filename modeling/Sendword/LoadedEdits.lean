import Mathlib.Data.List.Forall2
import Sendword.AllOrNothing

/-!
# What an edit changes in the loaded configuration

Loading reads a document key by key, so keys that an edit keeps are loaded as
before.
-/

namespace Sendword

open Concurrency Files Figment
open Toml hiding Value

/-! ## Merging -/

/-- A provider leaves a key alone, decides it, or makes it a table. -/
theorem overlaid_cases (overlay : Dict) (key : String) :
    (∀ old, overlaid key old overlay = old) ∨
      (∃ value, ∀ old, overlaid key old overlay = some value) ∨
      (∀ old, ∃ entries, overlaid key old overlay = some (.dict entries)) := by
  induction overlay with
  | nil => exact .inl fun old => rfl
  | cons entry overlay induction =>
      obtain ⟨name, value⟩ := entry
      rcases induction with keeps | ⟨fixed, replaces⟩ | table
      · by_cases same : name = key
        · by_cases isTable : ∃ entries, value = .dict entries
          · obtain ⟨entries, rfl⟩ := isTable
            refine .inr (.inr fun old => ?_)
            rw [overlaid, keeps, if_pos same]
            cases old with
            | none => exact ⟨entries, rfl⟩
            | some old =>
                cases old with
                | dict before => exact ⟨_, rfl⟩
                | string | integer | float | boolean | empty | array =>
                    exact ⟨entries, rfl⟩
          · refine .inr (.inl ⟨value, fun old => ?_⟩)
            rw [overlaid, keeps, if_pos same]
            cases old with
            | none => rfl
            | some old =>
                cases value with
                | dict entries => exact absurd ⟨entries, rfl⟩ isTable
                | string | integer | float | boolean | empty | array =>
                    cases old <;> rfl
        · refine .inl fun old => ?_
          rw [overlaid, keeps, if_neg same]
      · exact .inr (.inl ⟨fixed, fun old => replaces _⟩)
      · exact .inr (.inr fun old => table _)

/-! ## Decoded records, field by field -/

section Decoded

variable (serde : Serde)

open Decode

structure HookDecodes (entries : Dict) (hook : HookConfig) : Prop where
  name : required entries "name" string = some hook.name
  slug : required entries "slug" string = some hook.slug
  description :
    withDefault entries "description" string "" = some hook.description
  enabled : withDefault entries "enabled" bool true = some hook.enabled
  auth : optional entries "auth" (authConfig serde) = some hook.auth
  executor :
    required entries "executor" (executorConfig serde) = some hook.executor
  env : withDefault entries "env" strings [] = some hook.env
  cwd : optional entries "cwd" string = some hook.cwd
  timeout :
    optional entries "timeout" (duration serde) = some hook.timeout
  retries :
    optional entries "retries" (retryConfig serde) =
      some hook.retries
  rateLimit :
    optional entries "rate_limit" (rateLimitConfig serde) =
      some hook.rateLimit
  payload :
    optional entries "payload" (payloadSchema serde) = some hook.payload
  triggerRules :
    optional entries "trigger_rules" (triggerRules serde) =
      some hook.triggerRules
  concurrency :
    optional entries "concurrency" (concurrencyConfig serde) =
      some hook.concurrency
  approval :
    optional entries "approval" (approvalConfig serde) =
      some hook.approval
  notification :
    optional entries "notification" (notificationConfig serde) =
      some hook.notification

theorem hookConfig_iff (entries : Dict) (hook : HookConfig) :
    hookConfig serde (.dict entries) = some hook ↔
      HookDecodes serde entries hook := by
  have split {α β : Type} {value : Option α} {rest : α → Option β}
      {result : β} : value.bind rest = some result ↔
        ∃ known, value = some known ∧ rest known = some result :=
    Option.bind_eq_some_iff
  constructor
  · intro decoded
    obtain ⟨name, isName, decoded⟩ := split.mp decoded
    obtain ⟨slug, isSlug, decoded⟩ := split.mp decoded
    obtain ⟨description, isDescription, decoded⟩ := split.mp decoded
    obtain ⟨enabled, isEnabled, decoded⟩ := split.mp decoded
    obtain ⟨auth, isAuth, decoded⟩ := split.mp decoded
    obtain ⟨executor, isExecutor, decoded⟩ := split.mp decoded
    obtain ⟨env, isEnv, decoded⟩ := split.mp decoded
    obtain ⟨cwd, isCwd, decoded⟩ := split.mp decoded
    obtain ⟨timeout, isTimeout, decoded⟩ := split.mp decoded
    obtain ⟨retries, isRetries, decoded⟩ := split.mp decoded
    obtain ⟨rateLimit, isRateLimit, decoded⟩ := split.mp decoded
    obtain ⟨payload, isPayload, decoded⟩ := split.mp decoded
    obtain ⟨rules, isRules, decoded⟩ := split.mp decoded
    obtain ⟨concurrency, isConcurrency, decoded⟩ := split.mp decoded
    obtain ⟨approval, isApproval, decoded⟩ := split.mp decoded
    obtain ⟨notification, isNotification, decoded⟩ := split.mp decoded
    obtain rfl := Option.some.inj decoded
    exact ⟨isName, isSlug, isDescription, isEnabled, isAuth, isExecutor,
      isEnv, isCwd, isTimeout, isRetries, isRateLimit, isPayload, isRules,
      isConcurrency, isApproval, isNotification⟩
  · intro fields
    refine split.mpr ⟨_, fields.name, ?_⟩
    refine split.mpr ⟨_, fields.slug, ?_⟩
    refine split.mpr ⟨_, fields.description, ?_⟩
    refine split.mpr ⟨_, fields.enabled, ?_⟩
    refine split.mpr ⟨_, fields.auth, ?_⟩
    refine split.mpr ⟨_, fields.executor, ?_⟩
    refine split.mpr ⟨_, fields.env, ?_⟩
    refine split.mpr ⟨_, fields.cwd, ?_⟩
    refine split.mpr ⟨_, fields.timeout, ?_⟩
    refine split.mpr ⟨_, fields.retries, ?_⟩
    refine split.mpr ⟨_, fields.rateLimit, ?_⟩
    refine split.mpr ⟨_, fields.payload, ?_⟩
    refine split.mpr ⟨_, fields.triggerRules, ?_⟩
    refine split.mpr ⟨_, fields.concurrency, ?_⟩
    refine split.mpr ⟨_, fields.approval, ?_⟩
    refine split.mpr ⟨_, fields.notification, ?_⟩
    rfl

structure AppDecodes (values : Dict) (config : AppConfig) : Prop where
  server :
    withDefault values "server" (serverConfig serde) {} = some config.server
  database :
    withDefault values "database" (databaseConfig serde) {} =
      some config.database
  logs : withDefault values "logs" (logsConfig serde) {} = some config.logs
  auth :
    withDefault values "auth" (authSection serde) {} =
      some config.auth
  scripts :
    withDefault values "scripts" (scriptsConfig serde) {} =
      some config.scripts
  defaults :
    withDefault values "defaults" (defaultsConfig serde) {} =
      some config.defaults
  masking :
    withDefault values "masking" (maskingConfig serde) {} =
      some config.masking
  hooks :
    withDefault values "hooks" (list (hookConfig serde)) [] =
      some config.hooks
  backup :
    optional values "backup" (backupConfig serde) =
      some config.backup

theorem appConfig_iff (values : Dict) (config : AppConfig) :
    appConfig serde values = some config ↔
      AppDecodes serde values config := by
  constructor
  · intro decoded
    simp only [appConfig, Option.bind_eq_bind, Option.bind_eq_some_iff,
      Option.pure_def, Option.some.injEq] at decoded
    obtain ⟨server, isServer, database, isDatabase, logs, isLogs, auth,
      isAuth, scripts, isScripts, defaults, isDefaults, masking, isMasking,
      hooks, isHooks, backup, isBackup, rfl⟩ := decoded
    exact ⟨isServer, isDatabase, isLogs, isAuth, isScripts, isDefaults,
      isMasking, isHooks, isBackup⟩
  · intro fields
    simp only [appConfig, Option.bind_eq_bind, Option.bind_some,
      fields.server, fields.database, fields.logs, fields.auth,
      fields.scripts, fields.defaults, fields.masking, fields.hooks,
      fields.backup, Option.pure_def]

variable {serde}

/-- A table says one hook only. -/
theorem HookDecodes.unique {entries : Dict} {hook other : HookConfig}
    (first : HookDecodes serde entries hook)
    (second : HookDecodes serde entries other) : hook = other := by
  have one := (hookConfig_iff serde entries hook).mpr first
  have two := (hookConfig_iff serde entries other).mpr second
  exact Option.some.inj (one.symm.trans two)

end Decoded

/-! ## Lists that are decoded element by element -/

section Lists

variable {α β : Type} {relates : α → β → Prop} {items : List α}
  {results : List β}

theorem mapM_eq_some_iff {decode : α → Option β} :
    items.mapM decode = some results ↔
      List.Forall₂ (fun item result => decode item = some result) items
        results := by
  induction items generalizing results with
  | nil => simp [eq_comm]
  | cons item items induction =>
      rw [List.mapM_cons, List.forall₂_cons_left_iff]
      constructor
      · intro decoded
        simp only [Option.bind_eq_bind, Option.bind_eq_some_iff,
          Option.pure_def, Option.some.injEq] at decoded
        obtain ⟨first, isFirst, rest, isRest, rfl⟩ := decoded
        exact ⟨first, rest, isFirst, induction.mp isRest, rfl⟩
      · rintro ⟨first, rest, isFirst, isRest, rfl⟩
        simp [isFirst, induction.mpr isRest]

/-- One element is changed on both sides, or on neither. -/
theorem forall₂_modify
    (unique : ∀ item result other,
      relates item result → relates item other → result = other)
    (before : List.Forall₂ relates items results) {index : Nat}
    (inside : index < items.length) {change : α → α} {after : List β}
    (changed : List.Forall₂ relates (items.modify index change) after) :
    ∃ item result new, items[index]? = some item ∧
      results[index]? = some result ∧ relates item result ∧
      relates (change item) new ∧ after = results.set index new := by
  induction before generalizing index after with
  | nil => exact absurd inside (Nat.not_lt_zero _)
  | @cons item result items results related before induction =>
      cases index with
      | zero =>
          cases changed with
          | @cons _ new _ rest first later =>
              have same : rest = results :=
                List.right_unique_forall₂' (fun one two three =>
                  unique one two three) later before
              exact ⟨item, result, new, rfl, rfl, related, first, by
                rw [same]; rfl⟩
      | succ index =>
          cases changed with
          | @cons _ head _ rest first later =>
              obtain ⟨found, old, new, atItem, atResult, holds, changes,
                rfl⟩ := induction (Nat.lt_of_succ_lt_succ inside) later
              exact ⟨found, old, new, by simpa using atItem,
                by simpa using atResult, holds, changes, by
                  rw [unique item head result first related]
                  rfl⟩

/-- One element is added on both sides. -/
theorem forall₂_snoc
    (unique : ∀ item result other,
      relates item result → relates item other → result = other)
    (before : List.Forall₂ relates items results) {last : α} {after : List β}
    (added : List.Forall₂ relates (items ++ [last]) after) :
    ∃ new, relates last new ∧ after = results ++ [new] := by
  induction before generalizing after with
  | nil =>
      cases added with
      | @cons _ new _ rest first later =>
          cases later
          exact ⟨new, first, rfl⟩
  | @cons item result items results related before induction =>
      cases added with
      | @cons _ head _ rest first later =>
          obtain ⟨new, holds, rfl⟩ := induction later
          rw [unique item head result first related]
          exact ⟨new, holds, rfl⟩

theorem forall₂_eraseIdx (before : List.Forall₂ relates items results)
    (index : Nat) :
    List.Forall₂ relates (items.eraseIdx index) (results.eraseIdx index) := by
  induction before generalizing index with
  | nil => simp
  | cons related before induction =>
      cases index with
      | zero => exact before
      | succ index => exact .cons related (induction index)

end Lists

/-! ## The loaded configuration -/

section Loaded

variable {crates : Crates} {values other : Dict} {config changed : AppConfig}

theorem compile_ok {checkers : Checkers} {masking compiled : MaskingConfig}
    (compiles : masking.compile checkers = .ok compiled) :
    compiled = { masking with compiledPatterns := masking.patterns } := by
  unfold MaskingConfig.compile at compiles
  dsimp only at compiles
  split at compiles
  · cases compiles
    rfl
  · cases compiles

/-- A configuration that was loaded, with the masking patterns compiled. -/
theorem loadValues_ok (loaded : loadValues crates values = .ok config) :
    ∃ raw, AppDecodes crates.toSerde values raw ∧
      config = { raw with
        masking := { raw.masking with
          compiledPatterns := raw.masking.patterns } } ∧
      config.validate crates.checkers = .ok () := by
  unfold loadValues at loaded
  split at loaded
  · cases loaded
  · rename_i raw decoded
    have fields := (appConfig_iff _ values raw).mp decoded
    split at loaded
    · cases loaded
    · rename_i masking compiles
      dsimp only at loaded
      split at loaded
      · cases loaded
      · rename_i valid
        cases loaded
        rw [compile_ok compiles] at valid ⊢
        exact ⟨raw, fields, rfl, valid⟩

theorem loaded_hooks (loaded : loadValues crates values = .ok config) :
    Decode.withDefault values "hooks"
      (Decode.list (Decode.hookConfig crates.toSerde)) [] =
        some config.hooks := by
  obtain ⟨raw, fields, rfl, -⟩ := loadValues_ok loaded
  exact fields.hooks

/-- Other hooks under the same sections. -/
theorem AppDecodes.withHooks {serde : Serde}
    (fields : AppDecodes serde values config)
    (same : ∀ key, key ≠ "hooks" → other.lookup key = values.lookup key)
    {hooks : List HookConfig}
    (decoded : Decode.withDefault other "hooks"
      (Decode.list (Decode.hookConfig serde)) [] = some hooks) :
    AppDecodes serde other { config with hooks } := by
  have default {α : Type} (key : String) (decode : Value → Option α)
      (value : α) (notHooks : key ≠ "hooks") :
      Decode.withDefault other key decode value =
        Decode.withDefault values key decode value := by
    simp only [Decode.withDefault, same key notHooks]
  have optional {α : Type} (key : String) (decode : Value → Option α)
      (notHooks : key ≠ "hooks") :
      Decode.optional other key decode =
        Decode.optional values key decode := by
    simp only [Decode.optional, same key notHooks]
  exact
    { server := (default _ _ _ (by decide)).trans fields.server
      database := (default _ _ _ (by decide)).trans fields.database
      logs := (default _ _ _ (by decide)).trans fields.logs
      auth := (default _ _ _ (by decide)).trans fields.auth
      scripts := (default _ _ _ (by decide)).trans fields.scripts
      defaults := (default _ _ _ (by decide)).trans fields.defaults
      masking := (default _ _ _ (by decide)).trans fields.masking
      hooks := decoded
      backup := (optional _ _ (by decide)).trans fields.backup }

/-- Sections are loaded from their own keys. -/
theorem loaded_sections (loaded : loadValues crates values = .ok config)
    (reloaded : loadValues crates other = .ok changed)
    (same : ∀ key, key ≠ "hooks" → other.lookup key = values.lookup key) :
    changed = { config with hooks := changed.hooks } := by
  obtain ⟨raw, fields, rfl, -⟩ := loadValues_ok loaded
  obtain ⟨raw', fields', rfl, -⟩ := loadValues_ok reloaded
  have transferred := fields.withHooks same fields'.hooks
  have one := (appConfig_iff _ other _).mpr transferred
  have two := (appConfig_iff _ other _).mpr fields'
  have equal := Option.some.inj (two.symm.trans one)
  rw [equal]

variable {old new : Document}

/-- A provider after the file either leaves the hooks of the file alone or
decides them. -/
theorem overlay_hooks (loaded : loadDocument crates old = .ok config)
    (reloaded : loadDocument crates new = .ok changed) :
    (∀ values, (mergeDict values crates.overlay.entries).lookup "hooks" =
        values.lookup "hooks") ∨
      changed.hooks = config.hooks := by
  have before := loaded_hooks loaded
  have after := loaded_hooks reloaded
  rw [Decode.withDefault, lookup_mergeDict] at before after
  rcases overlaid_cases crates.overlay.entries "hooks" with
    keeps | ⟨fixed, replaces⟩ | table
  · refine .inl fun values => ?_
    rw [lookup_mergeDict, keeps]
  · rw [replaces] at before after
    exact .inr (Option.some.inj (after.symm.trans before))
  · obtain ⟨entries, isTable⟩ := table ((toValues old).lookup "hooks")
    rw [isTable] at before
    cases before

section Kept

variable (keeps : ∀ values,
  (mergeDict values crates.overlay.entries).lookup "hooks" =
    values.lookup "hooks")

include keeps

theorem hooks_of_none (loaded : loadDocument crates old = .ok config)
    (absent : old.lookup "hooks" = none) : config.hooks = [] := by
  have decoded := loaded_hooks loaded
  rw [Decode.withDefault, keeps, lookup_toValues, absent] at decoded
  exact (Option.some.inj decoded).symm

/-- Each table is loaded as one hook. -/
theorem hooks_of_tables (loaded : loadDocument crates old = .ok config)
    {tables : List Table} (found : hookTables? old = some tables) :
    List.Forall₂ (fun table hook =>
      HookDecodes crates.toSerde (toValues table) hook) tables
      config.hooks := by
  have decoded := loaded_hooks loaded
  rw [Decode.withDefault, keeps, lookup_toValues, lookup_of_hookTables found]
    at decoded
  simp only [Option.map_some, Item.toValue, toTables_eq, Decode.list]
    at decoded
  have each := List.forall₂_map_left_iff.mp (mapM_eq_some_iff.mp decoded)
  exact each.imp fun table hook decodes => (hookConfig_iff ..).mp decodes

end Kept

end Loaded

end Sendword
