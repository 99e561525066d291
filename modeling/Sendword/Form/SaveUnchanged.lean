import Mathlib.Data.List.Sort
import Sendword.Form.RoundTrip
import Sendword.WriterRefinement

/-!
# An edit page that is saved unchanged

What the page of a hook, parsed as it was filled and written by the writer,
leaves of the configuration.
-/

namespace Sendword

open Concurrency Files Figment
open Toml hiding Value

/-! ## Hooks of a file -/

/-- What is known of a hook that was loaded from a file. -/
structure HookConfig.FromFile (hook : HookConfig) : Prop where
  env : Sorted hook.env
  /-- An integer of a file has 64 bits, with its sign. -/
  rateLimit : ∀ rules ∈ hook.triggerRules, ∀ limit ∈ rules.rateLimit,
    limit.maxRequests < 2 ^ 63

/-- Entries in the order of their keys are known by what they say. -/
theorem sorted_ext {entries others : List (String × String)}
    (sorted : Sorted entries) (ordered : Sorted others)
    (same : ∀ key, entries.lookup key = others.lookup key) :
    entries = others := by
  have nodup {list : List (String × String)} (inOrder : Sorted list) :
      list.Nodup := by
    refine List.Pairwise.imp ?_ inOrder
    rintro first second below rfl
    exact lt_irrefl _ below
  refine List.Perm.eq_of_pairwise (fun first second _ _ below above =>
    (lt_asymm below above).elim) sorted ordered ?_
  rw [List.perm_ext_iff_of_nodup (nodup sorted) (nodup ordered)]
  rintro ⟨key, value⟩
  rw [mem_iff_lookup sorted, mem_iff_lookup ordered, same]

section FromFile

variable {literals : Literals} {serde : Serde}

theorem sorted_strings {entries : Dict} {values : List (String × String)}
    (sorted : Sorted entries)
    (decoded : Decode.strings (.dict entries) = some values) :
    Sorted values := by
  have keys : values.map Prod.fst = entries.map Prod.fst := by
    have each := mapM_eq_some_iff.mp decoded
    clear sorted decoded
    induction each with
    | nil => rfl
    | @cons entry value entries values first rest induction =>
        obtain ⟨text, -, rfl⟩ := Option.map_eq_some_iff.mp first
        rw [List.map_cons, List.map_cons, induction]
  have ordered : (entries.map Prod.fst).Pairwise (· < ·) :=
    List.pairwise_map.mpr sorted
  rw [← keys] at ordered
  exact List.pairwise_map.mp ordered

/-- A value that a file can say: keys are in order, and integers have 64
bits. -/
inductive OfFile : Figment.Value → Prop where
  | string (text : String) : OfFile (.string text)
  | integer {number : Int} : number < 2 ^ 63 → OfFile (.integer number)
  | float (digits : String) : OfFile (.float digits)
  | boolean (bool : Bool) : OfFile (.boolean bool)
  | array {items : List Figment.Value} :
      (∀ item ∈ items, OfFile item) → OfFile (.array items)
  | dict {entries : Dict} : Sorted entries →
      (∀ entry ∈ entries, OfFile entry.2) → OfFile (.dict entries)

theorem ofFile_said {value : Toml.Value}
    (wellFormed : value.WellFormed literals) : OfFile value.said := by
  induction wellFormed with
  | string text => exact .string text
  | integer _ high => exact .integer high
  | float => exact .float _
  | boolean bool => exact .boolean bool
  | datetime =>
      refine .dict (List.pairwise_singleton _ _) fun entry member => ?_
      rw [List.mem_singleton.mp member]
      exact .string _
  | array _ induction =>
      rw [Toml.Value.said, saidItems_eq]
      refine .array fun value member => ?_
      obtain ⟨item, inside, rfl⟩ := List.mem_map.mp member
      exact induction item inside
  | inlineTable sorted _ induction =>
      rw [said_inlineTable, saidEntries_eq]
      refine .dict (List.pairwise_map.mpr sorted) fun entry member => ?_
      obtain ⟨original, inside, rfl⟩ := List.mem_map.mp member
      exact induction original inside

theorem ofFile_toValue {item : Item} (wellFormed : item.WellFormed literals) :
    OfFile item.toValue := by
  have keyed {entries : Table} (sorted : Sorted entries)
      (each : ∀ entry ∈ entries, OfFile entry.2.toValue) :
      OfFile (.dict (toValues entries)) := by
    rw [toValues_eq]
    refine .dict (List.pairwise_map.mpr sorted) fun entry member => ?_
    obtain ⟨original, inside, rfl⟩ := List.mem_map.mp member
    exact each original inside
  induction wellFormed with
  | value wellFormed => exact ofFile_said wellFormed
  | table sorted _ induction => exact keyed sorted induction
  | arrayOfTables _ sorted _ induction =>
      rw [Item.toValue, toTables_eq]
      refine .array fun value member => ?_
      obtain ⟨table, inside, rfl⟩ := List.mem_map.mp member
      exact keyed (sorted table inside) (induction table inside)

/-- A struct is made of values of the file, from a map and from a sequence. -/
theorem ofFile_record {shape : Shape} {value : Figment.Value}
    {entries : Dict} (ofFile : OfFile value)
    (record : Decode.record serde shape value = some entries) :
    ∀ entry ∈ entries, OfFile entry.2 := by
  cases ofFile with
  | dict _ each =>
      cases record
      exact each
  | array each =>
      intro entry member
      exact each _ (serde.sequence_mem _ _ _ record entry member)
  | string | integer | float | boolean => cases record

theorem ofFile_lookup {entries : Dict} {key : String} {value : Figment.Value}
    (each : ∀ entry ∈ entries, OfFile entry.2)
    (found : entries.lookup key = some value) : OfFile value := by
  obtain ⟨before, after, rfl, -⟩ := List.lookup_eq_some_iff.mp found
  exact each (key, value) (by simp)

theorem lt_of_natural {bits number : Nat} {value : Figment.Value}
    (ofFile : OfFile value)
    (decoded : Decode.natural bits value = some number) :
    number < 2 ^ 63 := by
  cases ofFile with
  | integer high =>
      simp only [Decode.natural] at decoded
      split at decoded
      · cases decoded
        omega
      · cases decoded
  | string | float | boolean | array | dict => cases decoded

theorem value_of_optional {Stored : Type} {entries : Dict} {key : String}
    {decode : Figment.Value → Option Stored} {stored : Stored}
    (decoded : Decode.optional entries key decode = some (some stored)) :
    ∃ value, entries.lookup key = some value ∧
      decode value = some stored := by
  unfold Decode.optional at decoded
  split at decoded
  · cases decoded
  · cases decoded
  · rename_i value _ found
    refine ⟨value, found, ?_⟩
    simpa using decoded

theorem rateLimit_of_triggerRules {value : Figment.Value}
    {rules : TriggerRules} (ofFile : OfFile value)
    (decoded : Decode.triggerRules serde value = some rules) :
    ∃ entries : Dict, (∀ entry ∈ entries, OfFile entry.2) ∧
      Decode.optional entries "rate_limit" (Decode.triggerRateLimit serde) =
        some rules.rateLimit := by
  simp only [Decode.triggerRules, Option.bind_eq_bind,
    Option.bind_eq_some_iff, Option.pure_def, Option.some.injEq] at decoded
  obtain ⟨entries, record, filters, -, windows, -, cooldown, -, limit,
    isLimit, rfl⟩ := decoded
  exact ⟨entries, ofFile_record ofFile record, isLimit⟩

theorem maxRequests_of_triggerRateLimit {value : Figment.Value}
    {limit : TriggerRateLimit} (ofFile : OfFile value)
    (decoded : Decode.triggerRateLimit serde value = some limit) :
    limit.maxRequests < 2 ^ 63 := by
  simp only [Decode.triggerRateLimit, Decode.required, Option.bind_eq_bind,
    Option.bind_eq_some_iff, Option.pure_def, Option.some.injEq] at decoded
  obtain ⟨entries, record, requests, ⟨number, found, isNumber⟩, window, -,
    rfl⟩ := decoded
  exact lt_of_natural (ofFile_lookup (ofFile_record ofFile record) found)
    isNumber

/-- A hook of a document that is well formed. -/
theorem fromFile_of_decodes {table : Table} {hook : HookConfig}
    (wellFormed : Table.WellFormed literals table)
    (decodes : HookDecodes serde (toValues table) hook) :
    hook.FromFile := by
  have whole : ∀ entry ∈ toValues table, OfFile entry.2 := by
    intro entry member
    rw [toValues_eq] at member
    obtain ⟨original, inside, rfl⟩ := List.mem_map.mp member
    exact ofFile_toValue (wellFormed.items original inside)
  constructor
  · have decoded := decodes.env
    rw [Decode.withDefault] at decoded
    split at decoded
    · rename_i value found
      cases ofFile_lookup whole found with
      | dict sorted each => exact sorted_strings sorted decoded
      | string | integer | float | boolean | array => cases decoded
    · rw [← Option.some.inj decoded]
      exact List.Pairwise.nil
  · intro rules isRules limit isLimit
    have decoded := decodes.triggerRules
    rw [isRules] at decoded
    obtain ⟨value, found, isValue⟩ := value_of_optional decoded
    obtain ⟨entries, inner, limited⟩ :=
      rateLimit_of_triggerRules (ofFile_lookup whole found) isValue
    rw [isLimit] at limited
    obtain ⟨limitValue, limitFound, isLimitValue⟩ :=
      value_of_optional limited
    exact maxRequests_of_triggerRateLimit (ofFile_lookup inner limitFound)
      isLimitValue

end FromFile

/-! ## Data of the page -/

section Page

variable {humantime : Humantime} {hook : HookConfig} {data : HookFormData}

/-- No field of the data is changed when it is stored. -/
structure HookFormData.Settled (data : HookFormData) : Prop where
  executor : data.executor.stored = data.executor
  cwd : data.cwd.filter (· ≠ "") = data.cwd
  timeout : data.timeout.map Duration.stored = data.timeout
  retries : (data.retries.filter fun retries => 0 < retries.count).map
    RetryFormData.stored = data.retries.map RetryFormData.config
  auth : data.auth.filter (· ≠ .none) = data.auth
  payload : (data.payload.filter fun schema => !schema.fields.isEmpty) =
    data.payload
  triggerRules : (data.triggerRules.filter hasTriggerRules).map
    TriggerRules.stored = data.triggerRules

theorem HookFormData.Settled.onto (settled : data.Settled)
    (hook : HookConfig) :
    data.onto hook = { hook with
      name := data.name
      description := data.description
      enabled := data.enabled
      executor := data.executor
      cwd := data.cwd
      env := sortedEntries data.env
      timeout := data.timeout
      retries := data.retries.map RetryFormData.config
      auth := data.auth
      payload := data.payload
      triggerRules := data.triggerRules } := by
  unfold HookFormData.onto
  rw [settled.executor, settled.cwd, settled.timeout, settled.retries,
    settled.auth, settled.payload, settled.triggerRules]

theorem stored_of_parseExecutor {kind command : String}
    {executor : ExecutorConfig}
    (parsed : parseExecutor kind command = .ok executor) :
    executor.stored = executor := by
  unfold parseExecutor at parsed
  split at parsed
  all_goals cases parsed
  all_goals rfl

theorem filter_of_auth {form : HookForm} {auth : Option HookAuthConfig}
    (parsed : form.auth = .ok auth) : auth.filter (· ≠ .none) = auth := by
  have known : auth ≠ some .none := by
    rintro rfl
    unfold HookForm.auth at parsed
    split at parsed
    · dsimp only at parsed
      split at parsed
      · cases parsed
      · cases parsed
    · dsimp only at parsed
      split at parsed
      · cases parsed
      · split at parsed
        · cases parsed
        · split at parsed
          · cases parsed
          · cases parsed
    · cases parsed
  cases auth with
  | none => rfl
  | some auth =>
      exact Option.filter_some_pos (by simpa using known)

/-- A text area without items is no list. -/
theorem ne_nil_of_map {Entry Result : Type} {found : Except String (List Entry)}
    {make : List Entry → Result} {result : Option Result}
    (parsed : (found.map fun items =>
      if items.isEmpty then none else some (make items)) = .ok result) :
    result = none ∨ ∃ items, items ≠ [] ∧ result = some (make items) := by
  cases found with
  | error error => cases parsed
  | ok items =>
      have same := Except.ok.inj parsed
      dsimp only at same
      split at same
      · exact .inl same.symm
      · rename_i filled
        exact .inr ⟨items, by simpa using filled, same.symm⟩

theorem filter_of_payload {text : String} {payload : Option PayloadSchema}
    (parsed : parsePayloadText text = .ok payload) :
    (payload.filter fun schema => !schema.fields.isEmpty) = payload := by
  rcases ne_nil_of_map parsed with rfl | ⟨items, nonempty, rfl⟩
  · rfl
  · exact Option.filter_some_pos (by simpa using nonempty)

theorem storedList_of_map {Entry : Type}
    {found : Except String (List Entry)} {items : Option (List Entry)}
    (parsed : (found.map fun items =>
      if items.isEmpty then none else some items) = .ok items) :
    storedList items = items := by
  rcases ne_nil_of_map parsed with rfl | ⟨items, nonempty, rfl⟩
  · rfl
  · exact Option.filter_some_pos (by simpa using nonempty)

theorem map_stored_map (duration : Option Duration) :
    (duration.map Duration.stored).map Duration.stored =
      duration.map Duration.stored := by
  cases duration with
  | none => rfl
  | some duration => exact congrArg some (stored_stored duration)

theorem any_of_storedList {Entry : Type} {items : Option (List Entry)}
    (same : storedList items = items) :
    items.any (fun items => !items.isEmpty) = items.isSome := by
  cases items with
  | none => rfl
  | some items =>
      by_cases empty : items.isEmpty = true
      · rw [storedList, Option.filter_some_neg (by simpa using empty)] at same
        cases same
      · simpa using empty

/-- Trigger rules whose parts are stored as they are. -/
theorem stored_of_triggerRules {rules : TriggerRules}
    (filters : storedList rules.payloadFilters = rules.payloadFilters)
    (windows : storedList rules.timeWindows = rules.timeWindows)
    (cooldown : rules.cooldown.map Duration.stored = rules.cooldown)
    (limit : rules.rateLimit.map TriggerRateLimit.stored = rules.rateLimit) :
    rules.stored = rules := by
  unfold TriggerRules.stored
  rw [filters, windows, cooldown, limit]

/-- A limit of a file is written as it is. -/
theorem stored_of_rateLimit {limit : Option TriggerRateLimit}
    (small : ∀ known ∈ limit, known.maxRequests < 2 ^ 63) :
    let read := (limit.filter fun limit => 0 < limit.maxRequests).map
      fun limit => ({ maxRequests := limit.maxRequests
                      window := limit.window.stored } : TriggerRateLimit)
    read.map TriggerRateLimit.stored = read := by
  intro read
  cases limit with
  | none => rfl
  | some limit =>
      have bound := small limit rfl
      by_cases positive : 0 < limit.maxRequests
      · have isRead : read = some { maxRequests := limit.maxRequests
                                    window := limit.window.stored } := by
          simp only [read]
          rw [Option.filter_some_pos (by simpa using positive)]
          rfl
        have requests : storedRequests limit.maxRequests =
            limit.maxRequests := by
          unfold storedRequests
          omega
        rw [isRead, Option.map_some, TriggerRateLimit.stored]
        dsimp only
        rw [requests, stored_stored]
      · have isRead : read = none := by
          simp only [read]
          rw [Option.filter_some_neg (by simpa using positive)]
          rfl
        rw [isRead]
        rfl

theorem settled_of_page (reads : ReadsUnits humantime.parse)
    (fits : hook.Fits) (fromFile : hook.FromFile)
    (parsed : parseHookForm humantime (editHookForm hook).form =
      .ok data) : data.Settled := by
  obtain ⟨timeout, retries, auth, payload, rules, executor, isTimeout,
    isRetries, isAuth, isPayload, isRules, isExecutor, rfl⟩ :=
      parseHookForm_ok_iff.mp parsed
  have timed : timeout = hook.timeout.map Duration.stored :=
    Except.ok.inj (isTimeout.symm.trans
      (parseDurationField_durationText reads fits.timeout))
  have retried := Except.ok.inj (isRetries.symm.trans
    (retries_form reads fits))
  refine
    { executor := stored_of_parseExecutor isExecutor
      cwd := ?_
      timeout := by
        rw [timed]
        exact map_stored_map hook.timeout
      retries := ?_
      auth := filter_of_auth isAuth
      payload := filter_of_payload isPayload
      triggerRules := ?_ }
  · dsimp only
    split
    · rfl
    · rename_i filled
      refine Option.filter_some_pos ?_
      simpa [String.isEmpty_iff] using filled
  · rw [retried]
    cases hook.retries with
    | none => rfl
    | some retries =>
        by_cases positive : 0 < retries.count
        · rw [Option.filter_some_pos (by simpa using positive),
            Option.map_some, Option.filter_some_pos (by simpa using positive)]
          simp [RetryFormData.stored, RetryFormData.config, stored_stored]
        · rw [Option.filter_some_neg (by simpa using positive)]
          rfl
  · obtain ⟨filters, windows, cooldown, limit, isFilters, isWindows,
      isCooldown, isLimit, rfl⟩ := triggerRules_ok_iff.mp isRules
    have listed := storedList_of_map isFilters
    have opened := storedList_of_map isWindows
    have limited := Except.ok.inj (isLimit.symm.trans
      (rateLimit_form reads fits))
    have settled : limit.map TriggerRateLimit.stored = limit := by
      rw [limited]
      refine stored_of_rateLimit fun known isKnown => ?_
      obtain ⟨rules, isRules, inRules⟩ :=
        Option.bind_eq_some_iff.mp isKnown
      exact fromFile.rateLimit rules isRules known inRules
    have read := Except.ok.inj (isCooldown.symm.trans
      (cooldown_form reads fits))
    have spaced : cooldown.map Duration.stored = cooldown := by
      rw [read]
      exact map_stored_map _
    dsimp only
    split
    · rename_i something
      rw [Option.filter_some_pos, Option.map_some,
        stored_of_triggerRules listed opened spaced settled]
      unfold hasTriggerRules
      rw [any_of_storedList listed, any_of_storedList opened]
      exact something
    · rfl

/-- The hook is what it was exactly when the data show it. -/
theorem onto_eq_iff (reads : ReadsUnits humantime.parse)
    (fits : hook.Fits) (fromFile : hook.FromFile)
    (parsed : parseHookForm humantime (editHookForm hook).form =
      .ok data) : data.onto hook = hook ↔ hook.ShownBy data := by
  rw [(settled_of_page reads fits fromFile parsed).onto]
  obtain ⟨timeout, retries, auth, payload, rules, executor, -, -, -, -, -,
    isExecutor, isData⟩ := parseHookForm_ok_iff.mp parsed
  have ran : data.executor = executor := by rw [isData]
  have executed : SameExecutor hook.executor data.executor ↔
      hook.executor = data.executor :=
    same_of_parseExecutor (ran ▸ isExecutor)
  constructor
  · intro same
    have field {Result : Type} (read : HookConfig → Result) :=
      (congrArg read same).symm
    exact
      { name := field (·.name)
        description := field (·.description)
        enabled := field (·.enabled)
        executor := executed.mpr (field (·.executor))
        cwd := field (·.cwd)
        env := fun key => by
          have surrounded := field (·.env)
          dsimp only at surrounded
          rw [surrounded, lookup_sortedEntries]
        timeout := field (·.timeout)
        retries := field (·.retries)
        auth := field (·.auth)
        payload := field (·.payload)
        triggerRules := field (·.triggerRules) }
  · intro shown
    have surrounded : sortedEntries data.env = hook.env := by
      refine sorted_ext (sorted_sortedEntries _) fromFile.env fun key => ?_
      rw [lookup_sortedEntries, shown.env]
    rw [surrounded, ← shown.name, ← shown.description, ← shown.enabled,
      ← executed.mp shown.executor, ← shown.cwd, ← shown.timeout,
      ← shown.retries, ← shown.auth, ← shown.payload, ← shown.triggerRules]

theorem fits_of_page (reads : ReadsUnits humantime.parse)
    (fits : hook.Fits)
    (parsed : parseHookForm humantime (editHookForm hook).form =
      .ok data) : data.Fits := by
  obtain ⟨timeout, retries, auth, payload, rules, executor, isTimeout,
    isRetries, isAuth, isPayload, isRules, isExecutor, rfl⟩ :=
      parseHookForm_ok_iff.mp parsed
  have timed : timeout = hook.timeout.map Duration.stored :=
    Except.ok.inj (isTimeout.symm.trans
      (parseDurationField_durationText reads fits.timeout))
  have retried := Except.ok.inj (isRetries.symm.trans
    (retries_form reads fits))
  have written {duration : Option Duration}
      (each : ∀ known ∈ duration, known.Fits) :
      ∀ known ∈ duration.map Duration.stored, known.Fits := by
    intro known isKnown
    obtain ⟨original, isOriginal, rfl⟩ := Option.map_eq_some_iff.mp isKnown
    exact (each original isOriginal).stored
  refine ⟨?_, ?_, ?_⟩
  · dsimp only
    rw [timed]
    exact written fits.timeout
  · dsimp only
    rw [retried]
    intro known isKnown
    obtain ⟨original, isOriginal, rfl⟩ := Option.map_eq_some_iff.mp isKnown
    obtain ⟨small, first, last⟩ :=
      fits.retries original (Option.eq_some_of_filter_eq_some isOriginal)
    exact ⟨small, first.stored, last.stored⟩
  · intro known isKnown
    obtain ⟨filters, windows, cooldown, limit, -, -, isCooldown, isLimit,
      rfl⟩ := triggerRules_ok_iff.mp isRules
    dsimp only at isKnown
    split at isKnown
    · cases isKnown
      have spaced := Except.ok.inj (isCooldown.symm.trans
        (cooldown_form reads fits))
      have limited := Except.ok.inj (isLimit.symm.trans
        (rateLimit_form reads fits))
      refine ⟨?_, ?_⟩
      · dsimp only
        rw [spaced]
        refine written fun cooldown isCooldown => ?_
        obtain ⟨rules, isRules, inRules⟩ :=
          Option.bind_eq_some_iff.mp isCooldown
        exact (fits.triggerRules rules isRules).1 cooldown inRules
      · dsimp only
        rw [limited]
        intro known isKnown
        obtain ⟨original, isOriginal, rfl⟩ :=
          Option.map_eq_some_iff.mp isKnown
        obtain ⟨rules, isRules, inRules⟩ := Option.bind_eq_some_iff.mp
          (Option.eq_some_of_filter_eq_some isOriginal)
        exact ((fits.triggerRules rules isRules).2 original inRules).2.stored
    · cases isKnown

end Page

/-! ## Saving the page -/

section Saved

variable {crates : Crates} {writer : ConfigWriter} {site : Site}
  {document : Document} {config : AppConfig} {hook : HookConfig}
  {message : String → String} {index : Nat}

theorem modify_eq_iff {Entry : Type} {items : List Entry} {item : Entry}
    (found : items[index]? = some item) (change : Entry → Entry) :
    items.modify index change = items ↔ change item = item := by
  constructor
  · intro same
    have here := congrArg (·[index]?) same
    simpa [List.getElem?_modify, found] using here
  · intro fixed
    refine List.ext_getElem? fun position => ?_
    rw [List.getElem?_modify]
    split
    · rename_i same
      subst same
      rw [found]
      simp [fixed]
    · simp

theorem fromFile_of_stores
    (absent : crates.overlay.entries.lookup "hooks" = none)
    (wellFormed : Table.WellFormed crates.literals document)
    (stores : Stores crates writer site document config)
    (found : config.hooks[index]? = some hook) : hook.FromFile := by
  obtain ⟨tables, same⟩ := tables_of_loaded absent stores.form
    stores.document_loads
  obtain ⟨inside, isHook⟩ := List.getElem?_eq_some_iff.mp found
  have bound : index < tables.length := by
    rw [same.hooks.length_eq]
    exact inside
  have decodes := (List.forall₂_iff_get.mp same.hooks).2 index bound inside
  have known : ∀ table ∈ tables,
      Table.WellFormed crates.literals table := by
    rw [← same.found]
    intro table member
    cases isTables : hookTables? document with
    | none =>
        rw [isTables] at member
        cases member
    | some given =>
        rw [isTables] at member
        exact (wellFormed.lookup (lookup_of_hookTables isTables)).tables
          table member
  rw [List.get_eq_getElem, List.get_eq_getElem, isHook] at decodes
  exact fromFile_of_decodes (known _ (List.getElem_mem bound)) decodes

/-- The text of a saved page. -/
def SavesPage (crates : Crates) (message : String → String)
    (document : Document) (hook : HookConfig) (new : Document) : Prop :=
  ∃ data, parseHookForm { parse := crates.parseDuration, message }
      (editHookForm hook).form = .ok data ∧
    (WriterCall.updateHook hook.slug data).edit document = .ok new

/-- Saving the page of a hook without a change leaves the configuration as it
was exactly when the hook has nothing that the page cannot hold. -/
theorem save_unchanged_iff (apart : writer.path ≠ writer.tempPath)
    (reads : ReadsUnits crates.parseDuration)
    (absent : crates.overlay.entries.lookup "hooks" = none)
    (lawful : crates.Lawful (SavesPage crates message document hook))
    (stores : Stores crates writer site document config)
    (shown : config.hooks.find? (·.slug == hook.slug) = some hook)
    (fits : hook.Fits) :
    (∃ data, parseHookForm { parse := crates.parseDuration, message }
          (editHookForm hook).form = .ok data ∧
        let run := runAlone unfailing
          ((WriterCall.updateHook hook.slug data).body crates writer) site
        run.1 = .ok () ∧
          loadFrom crates (configFile writer unfailing run.2) =
            .ok config) ↔
      hook.Editable := by
  have wellFormed := lawful.parse_wellFormed _ document stores.parsed
  rw [List.find?_eq_bind_findIdx?_getElem?] at shown
  obtain ⟨index, isIndex, found⟩ := Option.bind_eq_some_iff.mp shown
  have fromFile := fromFile_of_stores absent wellFormed stores found
  have applied (data : HookFormData) :
      (WriterCall.updateHook hook.slug data).apply crates.checkers config =
        AppConfig.checked crates.checkers
          { config with hooks := config.hooks.modify index data.onto } := by
    have isFound : hookIndex? hook.slug config = some index := isIndex
    simp only [WriterCall.apply, isFound]
  have step {data : HookFormData}
      (parsed : parseHookForm { parse := crates.parseDuration, message }
        (editHookForm hook).form = .ok data) :=
    @call_step crates writer unfailing (.updateHook hook.slug data) site
      document config apart reads absent (fits_of_page reads fits parsed) rfl
      (fun new edited => lawful.parse_print new ⟨data, parsed, edited⟩
        (@wellFormed_of_call (.updateHook hook.slug data) document new _
          (fits_of_page reads fits parsed) wellFormed edited)) stores
  have shows {data : HookFormData}
      (parsed : parseHookForm { parse := crates.parseDuration, message }
        (editHookForm hook).form = .ok data) :
      config.hooks.modify index data.onto = config.hooks ↔ hook.Editable := by
    rw [modify_eq_iff found, onto_eq_iff reads fits fromFile parsed]
    exact shownBy_iff reads fits parsed
  constructor
  · rintro ⟨data, parsed, ok, loaded⟩
    rcases step parsed with ⟨next, new, -, isNext, -, saved⟩ |
      ⟨error, failed, -, -⟩
    · obtain rfl : next = config :=
        Except.ok.inj (saved.loaded.symm.trans loaded)
      rw [applied] at isNext
      refine (shows parsed).mp ?_
      unfold AppConfig.checked at isNext
      split at isNext
      · have same := congrArg AppConfig.hooks (Except.ok.inj isNext)
        exact same
      · cases isNext
    · cases ok.symm.trans failed
  · intro fine
    obtain ⟨data, parsed⟩ := @parseHookForm_of_editable
      { parse := crates.parseDuration, message } hook reads fits fine
    have kept := (shows parsed).mpr fine
    obtain ⟨-, -, -, valid⟩ := loadValues_ok stores.document_loads
    have unchanged : (WriterCall.updateHook hook.slug data).apply
        crates.checkers config = .ok config := by
      rw [applied, kept]
      unfold AppConfig.checked
      rw [valid]
    refine ⟨data, parsed, ?_⟩
    rcases step parsed with ⟨next, new, ok, isNext, -, saved⟩ |
      ⟨error, -, ⟨operation, fault⟩ | refused, -⟩
    · cases isNext.symm.trans unchanged
      exact ⟨ok, saved.loaded⟩
    · exact (fault rfl).elim
    · cases refused.symm.trans unchanged

/-! ### The second of two hooks -/

theorem greeted_stores :
    Stores unitCrates sendwordToml greetedSite greetedDocument
      greetedConfig := by
  have loads : loadDocument unitCrates greetedDocument =
    .ok greetedConfig := by decide
  exact stores_diskWith (unit_parse.trans greeted_parse) loads
    (.inr ⟨_, rfl⟩)

theorem greeting_page :
    parseHookForm { parse := unitCrates.parseDuration, message := id }
      (editHookForm greeting.hook).form = .ok greeting := by
  rfl

theorem greeting_saves :
    unitCrates.Lawful
      (SavesPage unitCrates id greetedDocument greeting.hook) := by
  refine unit_lawful fun document saves => ?_
  obtain ⟨data, parsed, edited⟩ := saves
  cases greeting_page.symm.trans parsed
  have same : (WriterCall.updateHook greeting.hook.slug greeting).edit
    greetedDocument = .ok greetedDocument := rfl
  cases same.symm.trans edited
  exact List.mem_of_getElem? (i := 5) rfl

theorem greeting_hook_fits : greeting.hook.Fits where
  timeout := by simp [greeting, HookFormData.hook, HookFormData.onto]
  retries := by simp [greeting, HookFormData.hook, HookFormData.onto]
  triggerRules := by simp [greeting, HookFormData.hook, HookFormData.onto]

theorem greeting_editable : greeting.hook.Editable where
  name := trimmed_of_ends (by decide) (by decide)
  description := trimmed_of_ends (by decide) (by decide)
  executor := trimmed_of_ends (by decide) (by decide)
  cwd := by simp [greeting, HookFormData.hook, HookFormData.onto]
  env := by
    intro key value found
    cases found
  timeout := by simp [greeting, HookFormData.hook, HookFormData.onto]
  retries := by simp [greeting, HookFormData.hook, HookFormData.onto]
  auth := by simp [greeting, HookFormData.hook, HookFormData.onto]
  payload := by simp [greeting, HookFormData.hook, HookFormData.onto]
  triggerRules := by simp [greeting, HookFormData.hook, HookFormData.onto]

theorem save_unchanged_greeted :
    ∃ data, parseHookForm
          { parse := unitCrates.parseDuration, message := id }
          (editHookForm greeting.hook).form = .ok data ∧
        let run := runAlone unfailing
          ((WriterCall.updateHook greeting.hook.slug data).body unitCrates
            sendwordToml) greetedSite
        run.1 = .ok () ∧
          loadFrom unitCrates (configFile sendwordToml unfailing run.2) =
            .ok greetedConfig :=
  (save_unchanged_iff (by decide) readUnit_reads rfl greeting_saves
    greeted_stores rfl greeting_hook_fits).mpr greeting_editable

end Saved

end Sendword
