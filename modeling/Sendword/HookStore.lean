import Sendword.StoredHooks
import Sendword.WriterCalls
import Sendword.WriterFrame

/-!
# The hooks of a configuration as a store

What the calls of the writer do to the loaded configuration, and that an edit
of the document does just that.
-/

namespace Sendword

open Concurrency Files Figment
open Toml hiding Value

/-! ## Calls on a configuration -/

/-- A configuration is kept when it is valid. -/
def AppConfig.checked (checkers : Checkers) (config : AppConfig) :
    Except WriteError AppConfig :=
  match config.validate checkers with
  | .ok () => .ok config
  | .error error => .error (.validation error)

def hookIndex? (slug : String) (config : AppConfig) : Option Nat :=
  config.hooks.findIdx? fun hook => hook.slug == slug

/-- What a call is for. -/
def WriterCall.apply (checkers : Checkers) (config : AppConfig) :
    WriterCall → Except WriteError AppConfig
  | .addHook data =>
      match hookIndex? data.slug config with
      | some _ => .error (.slugConflict data.slug)
      | none =>
          AppConfig.checked checkers
            { config with hooks := config.hooks ++ [data.hook] }
  | .updateHook slug data =>
      match hookIndex? slug config with
      | none => .error (.hookNotFound slug)
      | some index =>
          AppConfig.checked checkers
            { config with hooks := config.hooks.modify index data.onto }
  | .removeHook slug =>
      match hookIndex? slug config with
      | none => .error (.hookNotFound slug)
      | some index =>
          AppConfig.checked checkers
            { config with hooks := config.hooks.eraseIdx index }

def WriterCall.Fits : WriterCall → Prop
  | .addHook data | .updateHook _ data => data.Fits
  | .removeHook _ => True

/-- The hooks are written as an array of tables, or there are none. -/
def HookTables (document : Document) : Prop :=
  document.lookup "hooks" = none ∨
    ∃ tables, document.lookup "hooks" = some (.arrayOfTables tables)

/-! ## Lists that agree element by element -/

section Lists

variable {Source Target : Type} {relates : Source → Target → Prop}
  {items : List Source} {results : List Target} {selects : Source → Bool}
  {chooses : Target → Bool}

theorem findIdx?_of_forall₂ (related : List.Forall₂ relates items results)
    (agree : ∀ item result, relates item result →
      selects item = chooses result) :
    items.findIdx? selects = results.findIdx? chooses := by
  induction related with
  | nil => rfl
  | @cons item result items results first rest induction =>
      rw [List.findIdx?_cons, List.findIdx?_cons, agree item result first,
        induction]

theorem forall₂_modify_of (related : List.Forall₂ relates items results)
    {change : Source → Source} {replace : Target → Target}
    (each : ∀ item result, relates item result →
      relates (change item) (replace result)) (index : Nat) :
    List.Forall₂ relates (items.modify index change)
      (results.modify index replace) := by
  induction related generalizing index with
  | nil => simp
  | @cons item result items results first rest induction =>
      cases index with
      | zero => exact .cons (each item result first) rest
      | succ index => exact .cons first (induction index)

end Lists

/-! ## Loading an edited document -/

section Loaded

variable {crates : Crates} {values other : Dict} {config : AppConfig}

/-- Other hooks under the sections of a configuration that loads. -/
theorem loadValues_withHooks (loaded : loadValues crates values = .ok config)
    (same : ∀ key, key ≠ "hooks" → other.lookup key = values.lookup key)
    {hooks : List HookConfig}
    (decoded : Decode.withDefault other "hooks"
      (Decode.list (Decode.hookConfig crates.toSerde)) [] =
        some hooks) :
    (loadValues crates other).mapError WriteError.validation =
      AppConfig.checked crates.checkers { config with hooks } := by
  unfold loadValues at loaded
  split at loaded
  · cases loaded
  · rename_i raw isRaw
    have fields := (appConfig_iff _ values raw).mp isRaw
    have changed := (appConfig_iff _ other _).mpr
      (fields.withHooks same decoded)
    split at loaded
    · cases loaded
    · rename_i masking compiled
      dsimp only at loaded
      split at loaded
      · cases loaded
      · cases loaded
        unfold loadValues AppConfig.checked
        rw [changed]
        dsimp only
        rw [compiled]
        dsimp only
        split
        · rename_i error invalid
          rw [invalid]
          rfl
        · rename_i valid
          rw [valid]
          rfl

theorem decode_hookTables {serde : Serde}
    {tables : List Table} {hooks : List HookConfig}
    (each : List.Forall₂ (fun table hook =>
      HookDecodes serde (toValues table) hook) tables hooks) :
    Decode.list (Decode.hookConfig serde)
        (Item.toValue (.arrayOfTables tables)) = some hooks := by
  rw [Item.toValue, toTables_eq, Decode.list, mapM_eq_some_iff,
    List.forall₂_map_left_iff]
  exact each.imp fun table hook decodes => (hookConfig_iff ..).mpr decodes

end Loaded

/-! ## Edits of a document that loads -/

section Edits

variable {crates : Crates} {old new : Document} {config : AppConfig}
  {call : WriterCall}

/-- What the tables of a document have in common with the hooks. -/
structure Tables (crates : Crates) (document : Document)
    (config : AppConfig) (tables : List Table) : Prop where
  hooks : List.Forall₂ (fun table hook =>
    HookDecodes crates.toSerde (toValues table) hook) tables
    config.hooks
  found : (hookTables? document).getD [] = tables

theorem tables_of_loaded
    (absent : crates.overlay.entries.lookup "hooks" = none)
    (form : HookTables old) (loaded : loadDocument crates old = .ok config) :
    ∃ tables, Tables crates old config tables := by
  have keeps := lookup_mergeDict_of_absent absent
  rcases form with none | ⟨tables, found⟩
  · refine ⟨[], ?_, ?_⟩
    · rw [hooks_of_none keeps loaded none]
      exact .nil
    · simp [hookTables?, none]
  · have isTables : hookTables? old = some tables := by
      simp [hookTables?, found]
    exact ⟨tables, hooks_of_tables keeps loaded isTables, by
      rw [isTables]; rfl⟩

theorem Tables.index {tables : List Table}
    (same : Tables crates old config tables) (slug : String) :
    tables.findIdx? (hasSlug slug) = hookIndex? slug config :=
  findIdx?_of_forall₂ same.hooks fun _ _ decodes => slug_of_decodes decodes

/-- Other tables under the sections of a document that loads. -/
theorem loadDocument_of_tables
    (absent : crates.overlay.entries.lookup "hooks" = none)
    (loaded : loadDocument crates old = .ok config)
    (sections : SameSections old new) {hooks : List HookConfig}
    (decoded : Decode.withDefault (toValues new) "hooks"
      (Decode.list (Decode.hookConfig crates.toSerde)) [] =
        some hooks) :
    (loadDocument crates new).mapError WriteError.validation =
      AppConfig.checked crates.checkers { config with hooks } := by
  refine loadValues_withHooks loaded (fun key other => ?_) ?_
  · refine lookup_mergeDict_congr ?_ _
    rw [lookup_toValues, lookup_toValues, sections key other]
  · rw [Decode.withDefault, lookup_mergeDict_of_absent absent]
    exact decoded

theorem decode_withHooks {tables : List Table} {hooks : List HookConfig}
    (each : List.Forall₂ (fun table hook =>
      HookDecodes crates.toSerde (toValues table) hook) tables hooks)
    (document : Document) :
    Decode.withDefault (toValues (withHooks tables document)) "hooks"
      (Decode.list (Decode.hookConfig crates.toSerde)) [] =
        some hooks := by
  rw [Decode.withDefault, lookup_toValues, withHooks, lookup_insert_self]
  exact decode_hookTables each

theorem addHookTable_tables {data : HookFormData} {tables : List Table}
    (form : HookTables old) (found : (hookTables? old).getD [] = tables) :
    addHookTable data old =
      if tables.any (hasSlug data.slug) then
        .error (.slugConflict data.slug)
      else .ok (withHooks (tables ++ [buildHookTable data]) old) := by
  unfold addHookTable
  rw [found]
  rcases form with none | ⟨given, isGiven⟩
  · obtain rfl : tables = [] := by
      rw [← found]
      simp [hookTables?, none]
    rw [none]
    rfl
  · obtain rfl : given = tables := by
      rw [← found]
      simp [hookTables?, isGiven]
    rw [isGiven]

/-- The hook of a slug, where there is one. -/
theorem findHookIndex_tables {slug : String} {tables : List Table}
    (form : HookTables old) (found : (hookTables? old).getD [] = tables) :
    findHookIndex old slug =
      match tables.findIdx? (hasSlug slug) with
      | some index => .ok (tables, index)
      | none => .error (.hookNotFound slug) := by
  unfold findHookIndex
  rcases form with none | ⟨given, isGiven⟩
  · obtain rfl : tables = [] := by
      rw [← found]
      simp [hookTables?, none]
    simp [hookTables?, none]
  · obtain rfl : given = tables := by
      rw [← found]
      simp [hookTables?, isGiven]
    have reads : hookTables? old = some given := by
      simp [hookTables?, isGiven]
    cases position : given.findIdx? (hasSlug slug) with
    | none => simp [reads, position]
    | some index => simp [reads, position]

/-- The answer of an edit, when the new document is loaded at once. -/
def WriterCall.loads (crates : Crates) (call : WriterCall)
    (document : Document) : Except WriteError AppConfig :=
  match call.edit document with
  | .error error => .error error
  | .ok new => (loadDocument crates new).mapError .validation

/-- An edit of a document does to its configuration what the call is for. -/
theorem loads_eq_apply (reads : ReadsUnits crates.parseDuration)
    (absent : crates.overlay.entries.lookup "hooks" = none)
    (form : HookTables old) (loaded : loadDocument crates old = .ok config)
    (fits : call.Fits) :
    call.loads crates old = call.apply crates.checkers config := by
  obtain ⟨tables, same⟩ := tables_of_loaded absent form loaded
  cases call with
  | addHook data =>
      have edited : (WriterCall.addHook data).edit old = _ :=
        addHookTable_tables form same.found
      rw [← List.findIdx?_isSome, same.index data.slug] at edited
      simp only [WriterCall.loads, WriterCall.apply, edited]
      cases hookIndex? data.slug config with
      | some index => rfl
      | none =>
          refine loadDocument_of_tables absent loaded
            (sameSections_withHooks _) (decode_withHooks ?_ old)
          exact List.rel_append same.hooks
            (.cons (decodes_buildHookTable reads fits) .nil)
  | updateHook slug data =>
      have found := @findHookIndex_tables old slug tables form same.found
      rw [same.index slug] at found
      simp only [WriterCall.loads, WriterCall.apply, WriterCall.edit,
        updateHookTable, found]
      cases hookIndex? slug config with
      | none => rfl
      | some index =>
          refine loadDocument_of_tables absent loaded
            (sameSections_withHooks _) (decode_withHooks ?_ old)
          exact forall₂_modify_of same.hooks (fun table hook decodes =>
            decodes_applyHookFields reads fits decodes) index
  | removeHook slug =>
      have found := @findHookIndex_tables old slug tables form same.found
      rw [same.index slug] at found
      simp only [WriterCall.loads, WriterCall.apply, WriterCall.edit,
        removeHookTable, found]
      cases hookIndex? slug config with
      | none => rfl
      | some index =>
          have rest := forall₂_eraseIdx same.hooks index
          dsimp only
          by_cases empty : (tables.eraseIdx index).isEmpty = true
          · rw [if_pos empty]
            refine loadDocument_of_tables absent loaded
              (fun key other => lookup_remove_of_ne other old) ?_
            rw [List.isEmpty_iff.mp empty] at rest
            rw [Decode.withDefault, lookup_toValues, lookup_remove_self,
              List.forall₂_nil_left_iff.mp rest]
            rfl
          · rw [if_neg empty]
            exact loadDocument_of_tables absent loaded
              (sameSections_withHooks _) (decode_withHooks rest old)

theorem hookTables_of_edit (form : HookTables old)
    (edited : call.edit old = .ok new) : HookTables new := by
  have written (tables : List Table) :
      HookTables (withHooks tables old) :=
    .inr ⟨tables, lookup_insert_self ..⟩
  cases call with
  | addHook data =>
      rcases addHookTable_ok edited with
        ⟨-, rfl⟩ | ⟨tables, -, rfl⟩ | ⟨-, -, rfl⟩
      · exact written _
      · exact written _
      · exact form
  | updateHook slug data =>
      obtain ⟨tables, index, -, -, rfl⟩ := updateHookTable_ok edited
      exact written _
  | removeHook slug =>
      obtain ⟨tables, index, -, -, rfl⟩ := removeHookTable_ok edited
      split
      · exact .inl (lookup_remove_self ..)
      · exact written _

end Edits

end Sendword
