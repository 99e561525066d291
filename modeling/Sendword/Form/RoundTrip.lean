import Sendword.Form.HookForm

/-!
# The edit form unchanged

When the fields of the edit page, parsed as they were filled, say the hook that
they were filled from.
-/

namespace Sendword

/-! ## Hooks that the form can show -/

/-- A text without blanks at its ends. -/
def Plain (text : String) : Prop := Text.Trimmed isWhiteSpace text.toList

def Duration.Exact (duration : Duration) : Prop :=
  duration.stored = duration

instance (duration : Duration) : Decidable duration.Exact :=
  inferInstanceAs (Decidable (duration.stored = duration))

def HookAuthConfig.Editable : HookAuthConfig → Prop
  | .none => False
  | .bearer token => Plain token ∧ token ≠ ""
  | .hmac header _ secret =>
      Plain header ∧ header ≠ "" ∧ Plain secret ∧ secret ≠ ""

def ExecutorConfig.Editable : ExecutorConfig → Prop
  | .shell command | .script command | .javaScript command
  | .python command => Plain command
  | .http .. => False

structure RetryConfig.Editable (retries : RetryConfig) : Prop where
  count : 0 < retries.count
  initialDelay : retries.initialDelay.Exact
  maxDelay : retries.maxDelay.Exact

structure TriggerRules.Editable (rules : TriggerRules) : Prop where
  something : rules.payloadFilters.isSome ∨ rules.timeWindows.isSome ∨
    rules.cooldown.isSome ∨ rules.rateLimit.isSome
  filters : ∀ filters ∈ rules.payloadFilters,
    filters ≠ [] ∧ ∀ filter ∈ filters, filter.Writable
  windows : ∀ windows ∈ rules.timeWindows,
    windows ≠ [] ∧ ∀ window ∈ windows, window.Writable
  cooldown : ∀ cooldown ∈ rules.cooldown, cooldown.Exact
  rateLimit : ∀ limit ∈ rules.rateLimit,
    0 < limit.maxRequests ∧ limit.window.Exact

/-- What a hook must be like for its form to say it. -/
structure HookConfig.Editable (hook : HookConfig) : Prop where
  name : Plain hook.name
  description : Plain hook.description
  executor : hook.executor.Editable
  cwd : ∀ cwd ∈ hook.cwd, Plain cwd ∧ cwd ≠ ""
  env : ∀ key value, hook.env.lookup key = some value →
    WritableEntry (key, value)
  timeout : ∀ timeout ∈ hook.timeout, timeout.Exact
  retries : ∀ retries ∈ hook.retries, retries.Editable
  auth : ∀ auth ∈ hook.auth, auth.Editable
  payload : ∀ schema ∈ hook.payload,
    schema.fields ≠ [] ∧ ∀ field ∈ schema.fields, field.Writable
  triggerRules : ∀ rules ∈ hook.triggerRules, rules.Editable

/-- The numbers of a hook are those of its machine types. -/
structure HookConfig.Fits (hook : HookConfig) : Prop where
  timeout : ∀ timeout ∈ hook.timeout, timeout.Fits
  retries : ∀ retries ∈ hook.retries, retries.count < 2 ^ 32 ∧
    retries.initialDelay.Fits ∧ retries.maxDelay.Fits
  triggerRules : ∀ rules ∈ hook.triggerRules,
    (∀ cooldown ∈ rules.cooldown, cooldown.Fits) ∧
      ∀ limit ∈ rules.rateLimit,
        limit.maxRequests < 2 ^ 64 ∧ limit.window.Fits

/-! ## Fields -/

section Fields

variable {humantime : Humantime} {text : String}

theorem trimText_eq_iff : trimText text = text ↔ Plain text := by
  rw [trimText, Plain, ← Text.trim_eq_self_iff]
  constructor
  · intro same
    have inner := congrArg String.toList same
    rwa [String.toList_ofList] at inner
  · intro same
    rw [trimmed, same, String.ofList_toList]

theorem Word.trimText_eq (word : Word text.toList) : trimText text = text :=
  trimText_eq_iff.mpr word.trimmed

theorem Word.isEmpty_eq (word : Word text.toList) : text.isEmpty = false := by
  refine Bool.eq_false_iff.mpr fun empty => word.nonempty ?_
  rw [String.isEmpty_iff.mp empty]
  rfl

theorem parseDurationField_formatDuration (reads : ReadsUnits humantime.parse)
    {duration : Duration} (fits : duration.Fits) :
    parseDurationField humantime (formatDuration duration) =
      .ok (some duration.stored) := by
  have word := word_formatDuration duration
  unfold parseDurationField
  rw [word.trimText_eq]
  dsimp only
  rw [word.isEmpty_eq, if_neg (by decide), parse_formatDuration reads fits]

/-- A duration comes back as far as it is written. -/
theorem parseDurationField_durationText (reads : ReadsUnits humantime.parse)
    {duration : Option Duration} (fits : ∀ known ∈ duration, known.Fits) :
    parseDurationField humantime (durationText duration) =
      .ok (duration.map Duration.stored) := by
  cases duration with
  | none => rfl
  | some duration =>
      exact parseDurationField_formatDuration reads (fits duration rfl)

theorem parseUint_field {bits number : Nat} (small : number < 2 ^ bits) :
    parseUint bits (trimmed (toString number).toList) = some number := by
  have word : Word (toString number).toList := by
    have whole := @word_number number [] rfl
    rwa [List.append_nil] at whole
  rw [word.trimmed_eq, parseUint_toString small]

theorem map_stored_iff {duration : Option Duration} :
    duration.map Duration.stored = duration ↔
      ∀ known ∈ duration, known.Exact := by
  cases duration with
  | none => simp
  | some duration => simp [Duration.Exact]

end Fields

/-! ## Parts of the form -/

section Parts

variable {humantime : Humantime} {form : HookForm}

/-- A text area that is filled with items, one a line. -/
theorem read_write_iff {Item : Type} {format : Text.LineFormat String Item}
    {writable : Item → Prop} (lawful : format.Lawful isWhiteSpace writable)
    (items : List Item) :
    format.read isWhiteSpace (String.ofList (format.write items)).toList =
      .ok items ↔ ∀ item ∈ items, writable item := by
  rw [String.toList_ofList]
  exact Text.LineFormat.read_write_iff lawful rfl items

/-- The same of a list that may be missing: an empty one does not come
back. -/
theorem map_read_write_iff {Item Result : Type}
    {format : Text.LineFormat String Item} {writable : Item → Prop}
    (lawful : format.Lawful isWhiteSpace writable)
    (make : List Item → Result) (injective : Function.Injective make)
    (given : Option (List Item)) :
    ((format.read isWhiteSpace
        (String.ofList (format.write (given.getD []))).toList).map
          fun items => if items.isEmpty then none else some (make items)) =
      .ok (given.map make) ↔
        ∀ items ∈ given, items ≠ [] ∧ ∀ item ∈ items, writable item := by
  have known := read_write_iff lawful (given.getD [])
  constructor
  · intro same items isGiven
    cases isGiven
    cases read : format.read isWhiteSpace
        (String.ofList (format.write items)).toList with
    | error error =>
        rw [Option.getD_some, read] at same
        cases same
    | ok found =>
        rw [Option.getD_some, read] at same
        simp only [Except.map, Option.map_some, Except.ok.injEq] at same
        split at same
        · cases same
        · rename_i filled
          obtain rfl := injective (Option.some.inj same)
          exact ⟨by simpa using filled, known.mp read⟩
  · intro fine
    cases given with
    | none => rfl
    | some items =>
        obtain ⟨nonempty, each⟩ := fine items rfl
        rw [known.mpr each]
        simp [Except.map, nonempty]

theorem parsePayloadText_iff (payload : Option PayloadSchema) :
    parsePayloadText (String.ofList (payloadFormat.write
        ((payload.map (·.fields)).getD []))) = .ok payload ↔
      ∀ schema ∈ payload, schema.fields ≠ [] ∧
        ∀ field ∈ schema.fields, field.Writable := by
  have known := map_read_write_iff payloadFormat_lawful PayloadSchema.mk
    (fun _ _ same => PayloadSchema.mk.inj same) (payload.map (·.fields))
  have back : (payload.map (·.fields)).map PayloadSchema.mk = payload := by
    cases payload <;> rfl
  rw [back] at known
  refine Iff.trans known ?_
  cases payload <;> simp

theorem parseFiltersText_iff (filters : Option (List PayloadFilter)) :
    parseFiltersText (String.ofList (filterFormat.write
        (filters.getD []))) = .ok filters ↔
      ∀ given ∈ filters, given ≠ [] ∧ ∀ filter ∈ given, filter.Writable := by
  have known := map_read_write_iff filterFormat_lawful id
    Function.injective_id filters
  rwa [Option.map_id_fun, id] at known

theorem parseWindowsText_iff (windows : Option (List TimeWindow)) :
    parseWindowsText (String.ofList (windowFormat.write
        (windows.getD []))) = .ok windows ↔
      ∀ given ∈ windows, given ≠ [] ∧ ∀ window ∈ given, window.Writable := by
  have known := map_read_write_iff windowFormat_lawful id
    Function.injective_id windows
  rwa [Option.map_id_fun, id] at known

theorem parseBackoff_backoffStr (backoff : BackoffStrategy) :
    parseBackoff (backoffStr backoff) = backoff := by
  cases backoff <;> rfl

/-- The retries of the form are those of the hook, as far as their delays are
written. -/
theorem retries_form (reads : ReadsUnits humantime.parse)
    {hook : HookConfig} (fits : hook.Fits) :
    (editHookForm hook).form.retries humantime =
      .ok ((hook.retries.filter fun retries => 0 < retries.count).map
        fun retries =>
          { count := retries.count
            backoff := retries.backoff
            initialDelay := retries.initialDelay.stored
            maxDelay := retries.maxDelay.stored }) := by
  have count : (editHookForm hook).form.retryCount =
      some (toString ((hook.retries.map (·.count)).getD 0)) := rfl
  have backoff : (editHookForm hook).form.retryBackoff =
      some ((hook.retries.map fun retries =>
        backoffStr retries.backoff).getD "exponential") := rfl
  have initialDelay : (editHookForm hook).form.retryInitialDelay =
      some (durationText (hook.retries.map (·.initialDelay))) := rfl
  have maxDelay : (editHookForm hook).form.retryMaxDelay =
      some (durationText (hook.retries.map (·.maxDelay))) := rfl
  unfold HookForm.retries
  rw [count, backoff, initialDelay, maxDelay]
  simp only [Option.getD_some]
  cases isRetries : hook.retries with
  | none =>
      rw [Option.map_none, Option.getD_none, parseUint_field (by decide)]
      rfl
  | some retries =>
      obtain ⟨small, first, last⟩ := fits.retries retries isRetries
      rw [Option.map_some, Option.getD_some, parseUint_field small]
      simp only [Option.getD_some, Option.map_some]
      by_cases positive : 0 < retries.count
      · rw [if_pos positive,
          parseDurationField_durationText reads
            fun known isKnown => by cases isKnown; exact first,
          parseDurationField_durationText reads
            fun known isKnown => by cases isKnown; exact last,
          parseBackoff_backoffStr,
          Option.filter_some_pos (by simpa using positive)]
        rfl
      · rw [if_neg positive, Option.filter_some_neg (by simpa using positive)]
        rfl

/-- A field that must not be empty. -/
theorem filled_iff {text : String} :
    (¬ (trimText text).isEmpty = true ∧ trimText text = text) ↔
      Plain text ∧ text ≠ "" := by
  rw [trimText_eq_iff]
  constructor
  · rintro ⟨filled, plain⟩
    rw [trimText_eq_iff.mpr plain, String.isEmpty_iff] at filled
    exact ⟨plain, filled⟩
  · rintro ⟨plain, filled⟩
    rw [trimText_eq_iff.mpr plain, String.isEmpty_iff]
    exact ⟨filled, plain⟩

theorem auth_iff (hook : HookConfig) :
    (editHookForm hook).form.auth = .ok hook.auth ↔
      ∀ auth ∈ hook.auth, auth.Editable := by
  have mode : (editHookForm hook).form.authMode =
      some (authFields hook.auth).mode := rfl
  have token : (editHookForm hook).form.authToken =
      some (authFields hook.auth).token := rfl
  have header : (editHookForm hook).form.authHeader =
      some (authFields hook.auth).header := rfl
  have algorithm : (editHookForm hook).form.authAlgorithm =
      some (authFields hook.auth).algorithm := rfl
  have secret : (editHookForm hook).form.authSecret =
      some (authFields hook.auth).secret := rfl
  unfold HookForm.auth
  rw [mode, token, header, algorithm, secret]
  simp only [Option.getD_some]
  rcases hook.auth with _ | _ | token | ⟨header, ⟨⟩, secret⟩
  · exact iff_of_true rfl fun auth none => by cases none
  · exact iff_of_false (fun same => by cases same) fun fine => fine _ rfl
  · change (if (trimText token).isEmpty = true then _
      else Except.ok (some (HookAuthConfig.bearer (trimText token)))) = _ ↔ _
    simp only [Option.mem_def, Option.some.injEq, forall_eq',
      HookAuthConfig.Editable]
    rw [← filled_iff]
    split
    · rename_i empty
      exact iff_of_false (fun same => by cases same) fun fine =>
        fine.1 empty
    · rename_i filled
      simp [filled]
  · change (if (trimText header).isEmpty = true then _
      else if (trimText secret).isEmpty = true then _
      else Except.ok (some (HookAuthConfig.hmac (trimText header) .sha256
        (trimText secret)))) = _ ↔ _
    simp only [Option.mem_def, Option.some.injEq, forall_eq',
      HookAuthConfig.Editable]
    rw [← and_assoc, ← filled_iff, ← filled_iff]
    split
    · rename_i empty
      exact iff_of_false (fun same => by cases same) fun fine =>
        fine.1.1 empty
    · split
      · rename_i empty
        exact iff_of_false (fun same => by cases same) fun fine =>
          fine.2.1 empty
      · rename_i first second
        simp [first, second]

theorem parseExecutor_iff (executor : ExecutorConfig) :
    parseExecutor (trimText (executorFields executor).2)
        (trimText (executorFields executor).1) = .ok executor ↔
      executor.Editable := by
  have kind : trimText (executorFields executor).2 =
      (executorFields executor).2 := by
    cases executor <;> dsimp only [executorFields] <;> decide
  rw [kind]
  cases executor with
  | shell command | script command | javaScript command | python command =>
      rw [ExecutorConfig.Editable, ← trimText_eq_iff]
      simp [parseExecutor, executorFields]
  | http method url headers body followRedirects =>
      exact iff_of_false (fun same => by cases same) id

/-- The limit of the form, as far as its window is written. -/
theorem rateLimit_form (reads : ReadsUnits humantime.parse)
    {hook : HookConfig} (fits : hook.Fits) :
    (editHookForm hook).form.rateLimit humantime =
      .ok (((hook.triggerRules.bind (·.rateLimit)).filter
        fun limit => 0 < limit.maxRequests).map fun limit =>
          { maxRequests := limit.maxRequests
            window := limit.window.stored }) := by
  have most : (editHookForm hook).form.triggerRateMax =
      some (((hook.triggerRules.bind (·.rateLimit)).map
        fun limit => toString limit.maxRequests).getD "") := rfl
  have window : (editHookForm hook).form.triggerRateWindow =
      durationText
        ((hook.triggerRules.bind (·.rateLimit)).map (·.window)) := rfl
  unfold HookForm.rateLimit
  rw [most, window]
  simp only [Option.getD_some]
  cases isRules : hook.triggerRules with
  | none => rfl
  | some rules =>
      cases isLimit : rules.rateLimit with
      | none =>
          simp only [Option.bind_some, isLimit]
          rfl
      | some limit =>
          obtain ⟨small, written⟩ :=
            (fits.triggerRules rules isRules).2 limit isLimit
          have word := word_formatDuration limit.window
          have text : durationText (some limit.window) =
            formatDuration limit.window := rfl
          simp only [Option.bind_some, isLimit, Option.map_some,
            Option.getD_some]
          rw [parseUint_field small, text, word.trimText_eq, word.isEmpty_eq,
            parseDurationField_formatDuration reads written,
            Option.getD_some]
          by_cases positive : 0 < limit.maxRequests
          · rw [if_pos ⟨positive, by decide⟩,
              Option.filter_some_pos (by simpa using positive)]
            rfl
          · rw [if_neg fun both => positive both.1,
              Option.filter_some_neg (by simpa using positive)]
            rfl

/-- A computation that may fail, in two steps. -/
theorem bind_eq_ok {Error First Result : Type} {first : Except Error First}
    {next : First → Except Error Result} {result : Result} :
    (first >>= next) = .ok result ↔
      ∃ value, first = .ok value ∧ next value = .ok result := by
  cases first with
  | error error => simp [bind, Except.bind]
  | ok value => simp [bind, Except.bind]

theorem limit_stored_iff {limit : Option TriggerRateLimit} :
    ((limit.filter fun limit => 0 < limit.maxRequests).map fun limit =>
        ({ maxRequests := limit.maxRequests
           window := limit.window.stored } : TriggerRateLimit)) = limit ↔
      ∀ known ∈ limit, 0 < known.maxRequests ∧ known.window.Exact := by
  cases limit with
  | none => simp
  | some limit =>
      obtain ⟨maxRequests, window⟩ := limit
      by_cases positive : 0 < maxRequests
      · simp [positive, Duration.Exact]
      · simp [positive]

theorem eq_ok_iff {Error Result : Type} {found : Except Error Result}
    {value : Result} (known : found = .ok value) (other : Result) :
    other = value ↔ found = .ok other := by
  rw [known, Except.ok.injEq, eq_comm]

theorem triggerRules_ok_iff {rules : Option TriggerRules} :
    form.triggerRules humantime = .ok rules ↔
      ∃ filters windows cooldown limit,
        parseFiltersText form.triggerFiltersText = .ok filters ∧
        parseWindowsText form.triggerWindowsText = .ok windows ∧
        parseDurationField humantime (trimText form.triggerCooldown) =
          .ok cooldown ∧
        form.rateLimit humantime = .ok limit ∧
        rules = if filters.isSome || windows.isSome || cooldown.isSome ||
            limit.isSome then some
          { payloadFilters := filters
            timeWindows := windows
            cooldown
            rateLimit := limit }
          else none := by
  unfold HookForm.triggerRules
  simp only [bind_eq_ok]
  constructor
  · rintro ⟨filters, isFilters, windows, isWindows, cooldown, isCooldown,
      limit, isLimit, same⟩
    refine ⟨filters, windows, cooldown, limit, isFilters, isWindows,
      isCooldown, isLimit, ?_⟩
    split at same
    · rename_i something
      rw [if_pos something]
      exact (Except.ok.inj same).symm
    · rename_i nothing
      rw [if_neg nothing]
      exact (Except.ok.inj same).symm
  · rintro ⟨filters, windows, cooldown, limit, isFilters, isWindows,
      isCooldown, isLimit, rfl⟩
    refine ⟨filters, isFilters, windows, isWindows, cooldown, isCooldown,
      limit, isLimit, ?_⟩
    split
    · rfl
    · rfl

theorem cooldown_form (reads : ReadsUnits humantime.parse)
    {hook : HookConfig} (fits : hook.Fits) :
    parseDurationField humantime
        (trimText (editHookForm hook).form.triggerCooldown) =
      .ok ((hook.triggerRules.bind (·.cooldown)).map Duration.stored) := by
  have text : (editHookForm hook).form.triggerCooldown =
    durationText (hook.triggerRules.bind (·.cooldown)) := rfl
  have plain : trimText (editHookForm hook).form.triggerCooldown =
      (editHookForm hook).form.triggerCooldown := by
    rw [text]
    cases hook.triggerRules.bind (·.cooldown) with
    | none => rfl
    | some cooldown => exact (word_formatDuration cooldown).trimText_eq
  rw [plain, text]
  refine parseDurationField_durationText reads fun cooldown isCooldown => ?_
  obtain ⟨rules, isRules, inRules⟩ := Option.bind_eq_some_iff.mp isCooldown
  exact (fits.triggerRules rules isRules).1 cooldown inRules

/-- The trigger rules come back when each of them does, and there is one. -/
theorem triggerRules_iff (reads : ReadsUnits humantime.parse)
    {hook : HookConfig} (fits : hook.Fits) :
    (editHookForm hook).form.triggerRules humantime =
        .ok hook.triggerRules ↔
      ∀ rules ∈ hook.triggerRules, rules.Editable := by
  have filtersText : (editHookForm hook).form.triggerFiltersText =
      String.ofList (filterFormat.write
        ((hook.triggerRules.bind (·.payloadFilters)).getD [])) := rfl
  have windowsText : (editHookForm hook).form.triggerWindowsText =
      String.ofList (windowFormat.write
        ((hook.triggerRules.bind (·.timeWindows)).getD [])) := rfl
  rw [triggerRules_ok_iff, filtersText, windowsText,
    cooldown_form reads fits, rateLimit_form reads fits]
  cases hook.triggerRules with
  | none =>
      refine iff_of_true ⟨none, none, none, none, rfl, rfl, rfl, rfl, rfl⟩ ?_
      exact fun rules none => by cases none
  | some rules =>
      simp only [Option.bind_some, Option.mem_def, Option.some.injEq,
        forall_eq']
      constructor
      · rintro ⟨filters, windows, cooldown, limit, isFilters, isWindows,
          isCooldown, isLimit, same⟩
        split at same
        · rename_i something
          cases same
          have timed := Except.ok.inj isCooldown
          have limited := Except.ok.inj isLimit
          refine ⟨by simpa [or_assoc] using something,
            (parseFiltersText_iff _).mp isFilters,
            (parseWindowsText_iff _).mp isWindows,
            map_stored_iff.mp timed, limit_stored_iff.mp limited⟩
        · cases same
      · intro fine
        refine ⟨rules.payloadFilters, rules.timeWindows, rules.cooldown,
          rules.rateLimit, (parseFiltersText_iff _).mpr fine.filters,
          (parseWindowsText_iff _).mpr fine.windows,
          congrArg Except.ok (map_stored_iff.mpr fine.cooldown), ?_, ?_⟩
        · exact congrArg Except.ok (limit_stored_iff.mpr fine.rateLimit)
        · have something := fine.something
          rw [if_pos (by simpa [or_assoc] using something)]

theorem parseHookForm_ok_iff {data : HookFormData} :
    parseHookForm humantime form = .ok data ↔
      ∃ timeout retries auth payload triggerRules executor,
        parseDurationField humantime form.timeout = .ok timeout ∧
        form.retries humantime = .ok retries ∧
        form.auth = .ok auth ∧
        parsePayloadText form.payloadText = .ok payload ∧
        form.triggerRules humantime = .ok triggerRules ∧
        parseExecutor (trimText form.executorType) (trimText form.command) =
          .ok executor ∧
        data =
          { name := trimText form.name
            slug := trimText form.slug
            description := trimText form.description
            enabled := form.enabled.isSome
            executor
            cwd := if (trimText form.cwd).isEmpty then none
              else some (trimText form.cwd)
            env := parseEnvText form.envText
            timeout
            retries
            auth
            payload
            triggerRules } := by
  unfold parseHookForm
  simp only [bind_eq_ok]
  constructor
  · rintro ⟨timeout, isTimeout, retries, isRetries, auth, isAuth, payload,
      isPayload, rules, isRules, executor, isExecutor, same⟩
    exact ⟨timeout, retries, auth, payload, rules, executor, isTimeout,
      isRetries, isAuth, isPayload, isRules, isExecutor,
      (Except.ok.inj same).symm⟩
  · rintro ⟨timeout, retries, auth, payload, rules, executor, isTimeout,
      isRetries, isAuth, isPayload, isRules, isExecutor, rfl⟩
    exact ⟨timeout, isTimeout, retries, isRetries, auth, isAuth, payload,
      isPayload, rules, isRules, executor, isExecutor, rfl⟩

theorem cwd_iff {cwd : Option String} :
    cwd = (if (trimText (cwd.getD "")).isEmpty then none
        else some (trimText (cwd.getD ""))) ↔
      ∀ known ∈ cwd, Plain known ∧ known ≠ "" := by
  cases cwd with
  | none => exact iff_of_true rfl fun known none => by cases none
  | some cwd =>
      simp only [Option.getD_some, Option.mem_def, Option.some.injEq,
        forall_eq']
      rw [← filled_iff]
      split
      · rename_i empty
        exact iff_of_false (fun same => by cases same) fun fine =>
          fine.1 empty
      · rename_i filled
        rw [Option.some.injEq, eq_comm]
        exact ⟨fun same => ⟨filled, same⟩, And.right⟩

/-- The retries of a form, as they are in a configuration. -/
theorem retries_stored_iff {retries : Option RetryConfig} :
    retries = ((retries.filter fun retries => 0 < retries.count).map
        fun retries =>
          ({ count := retries.count
             backoff := retries.backoff
             initialDelay := retries.initialDelay.stored
             maxDelay := retries.maxDelay.stored } : RetryFormData)).map
        RetryFormData.config ↔
      ∀ known ∈ retries, known.Editable := by
  cases retries with
  | none => simp
  | some retries =>
      obtain ⟨count, backoff, initialDelay, maxDelay⟩ := retries
      simp only [Option.mem_def, Option.some.injEq, forall_eq']
      by_cases positive : 0 < count
      · rw [Option.filter_some_pos (by simpa using positive)]
        simp only [Option.map_some, RetryFormData.config, Option.some.injEq,
          RetryConfig.mk.injEq, true_and]
        constructor
        · rintro ⟨first, last⟩
          exact ⟨positive, first.symm, last.symm⟩
        · rintro ⟨-, first, last⟩
          exact ⟨first.symm, last.symm⟩
      · rw [Option.filter_some_neg (by simpa using positive)]
        exact iff_of_false (fun same => by cases same) fun fine =>
          positive fine.count

/-- The form knows no executor of the web. -/
theorem same_of_parseExecutor {kind command : String}
    {executor executor' : ExecutorConfig}
    (parsed : parseExecutor kind command = .ok executor') :
    SameExecutor executor executor' ↔ executor = executor' := by
  have known : ∀ method url headers body followRedirects,
      executor' ≠ .http method url headers body followRedirects := by
    rintro method url headers body followRedirects rfl
    unfold parseExecutor at parsed
    split at parsed
    all_goals cases parsed
  cases executor' with
  | http method url headers body followRedirects =>
      exact (known method url headers body followRedirects rfl).elim
  | shell command | script command | javaScript command | python command =>
      cases executor <;> exact Iff.rfl

end Parts

/-! ## The whole form -/

section Whole

variable {humantime : Humantime} {hook : HookConfig}

/-- What the form says of the hook, where it says it. -/
theorem shownBy_iff (reads : ReadsUnits humantime.parse) (fits : hook.Fits)
    {data : HookFormData}
    (parsed : parseHookForm humantime (editHookForm hook).form = .ok data) :
    hook.ShownBy data ↔ hook.Editable := by
  obtain ⟨timeout, retries, auth, payload, rules, executor, isTimeout,
    isRetries, isAuth, isPayload, isRules, isExecutor, rfl⟩ :=
      parseHookForm_ok_iff.mp parsed
  have timed : timeout = hook.timeout.map Duration.stored :=
    Except.ok.inj (isTimeout.symm.trans
      (parseDurationField_durationText reads fits.timeout))
  have retried := Except.ok.inj (isRetries.symm.trans
    (retries_form reads fits))
  have nameField : (editHookForm hook).form.name = hook.name := rfl
  have descriptionField : (editHookForm hook).form.description =
    hook.description := rfl
  have cwdField : (editHookForm hook).form.cwd = hook.cwd.getD "" := rfl
  rw [nameField, descriptionField, cwdField]
  have named : hook.name = trimText hook.name ↔ Plain hook.name :=
    eq_comm.trans trimText_eq_iff
  have described : hook.description = trimText hook.description ↔
      Plain hook.description := eq_comm.trans trimText_eq_iff
  have checked : (editHookForm hook).form.enabled.isSome =
      hook.enabled := by
    change (if hook.enabled then some "true" else none).isSome = hook.enabled
    cases hook.enabled <;> rfl
  have lived := @cwd_iff hook.cwd
  have surrounded : (∀ key, (parseEnvText
          (editHookForm hook).form.envText).lookup key =
        hook.env.lookup key) ↔
      ∀ key value, hook.env.lookup key = some value →
        WritableEntry (key, value) := by
    have envField : (editHookForm hook).form.envText = String.ofList
      (Text.joinLines ((sortedEntries hook.env).map printEnvEntry)) := rfl
    rw [envField]
    exact parseEnvText_iff hook.env
  have kept := @retries_stored_iff hook.retries
  have guarded := (eq_ok_iff isAuth hook.auth).trans (auth_iff hook)
  have laden := (eq_ok_iff isPayload hook.payload).trans
    (parsePayloadText_iff hook.payload)
  have ruled := (eq_ok_iff isRules hook.triggerRules).trans
    (triggerRules_iff reads fits)
  have executed := (same_of_parseExecutor isExecutor).trans
    ((eq_ok_iff isExecutor hook.executor).trans
      (parseExecutor_iff hook.executor))
  constructor
  · intro shown
    have lives := shown.cwd
    have surrounds := shown.env
    dsimp only at lives surrounds
    exact
      { name := named.mp shown.name
        description := described.mp shown.description
        executor := executed.mp shown.executor
        cwd := lived.mp lives
        env := surrounded.mp fun key => (surrounds key).symm
        timeout := map_stored_iff.mp (timed ▸ shown.timeout.symm)
        retries := kept.mp (retried ▸ shown.retries)
        auth := guarded.mp shown.auth
        payload := laden.mp shown.payload
        triggerRules := ruled.mp shown.triggerRules }
  · intro fine
    refine
      { name := named.mpr fine.name
        description := described.mpr fine.description
        enabled := checked.symm
        executor := executed.mpr fine.executor
        cwd := ?_
        env := ?_
        timeout := (map_stored_iff.mpr fine.timeout).symm.trans timed.symm
        retries := (kept.mpr fine.retries).trans (retried ▸ rfl)
        auth := guarded.mpr fine.auth
        payload := laden.mpr fine.payload
        triggerRules := ruled.mpr fine.triggerRules }
    · dsimp only
      exact lived.mpr fine.cwd
    · dsimp only
      exact fun key => (surrounded.mpr fine.env key).symm

/-- Such a hook has a form that is read. -/
theorem parseHookForm_of_editable (reads : ReadsUnits humantime.parse)
    (fits : hook.Fits) (fine : hook.Editable) :
    ∃ data, parseHookForm humantime (editHookForm hook).form = .ok data :=
  ⟨_, parseHookForm_ok_iff.mpr ⟨_, _, _, _, _, _,
    parseDurationField_durationText reads fits.timeout,
    retries_form reads fits, (auth_iff hook).mpr fine.auth,
    (parsePayloadText_iff hook.payload).mpr fine.payload,
    (triggerRules_iff reads fits).mpr fine.triggerRules,
    (parseExecutor_iff hook.executor).mpr fine.executor, rfl⟩⟩

/-- A hook with something in every field of the form. -/
def shownHook : HookConfig where
  name := "Deploy App"
  slug := "deploy-app"
  description := "Runs\r\nmake"
  executor := .shell "make deploy"
  env := [("APP_ENV", " prod=1")]
  cwd := some "/srv/app"
  timeout := some (Duration.fromSecs 90)
  retries := some
    { count := 2
      backoff := .linear
      initialDelay := 500000000
      maxDelay := Duration.fromSecs 60 }
  auth := some (.bearer "secret")
  payload := some
    { fields := [{ name := "action", fieldType := .string, required := true }] }
  triggerRules := some
    { payloadFilters := some
        [{ field := "action", operator := .equals, value := some "a:b" }]
      timeWindows := some
        [{ days := ["Mon", "Tue"], startTime := "09:00", endTime := "17:00" }]
      cooldown := some (Duration.fromSecs 300)
      rateLimit := some
        { maxRequests := 10, window := Duration.fromSecs 3600 } }

theorem shownHook_fits : shownHook.Fits where
  timeout := by simp [shownHook, Duration.Fits, Duration.fromSecs]
  retries := by simp [shownHook, Duration.Fits, Duration.fromSecs]
  triggerRules := by simp [shownHook, Duration.Fits, Duration.fromSecs]

theorem trimmed_of_ends {text : List Char}
    (head : text.head?.all (fun char => !isWhiteSpace char) = true)
    (last : text.getLast?.all (fun char => !isWhiteSpace char) = true) :
    Text.Trimmed isWhiteSpace text := by
  refine ⟨fun char isHead => ?_, fun char isLast => ?_⟩
  · rw [isHead] at head
    simpa using head
  · rw [isLast] at last
    simpa using last

theorem shownHook_editable : shownHook.Editable where
  name := trimmed_of_ends (by decide) (by decide)
  description := trimmed_of_ends (by decide) (by decide)
  executor := trimmed_of_ends (by decide) (by decide)
  cwd := by
    rintro cwd ⟨⟩
    exact ⟨trimmed_of_ends (by decide) (by decide), by decide⟩
  env := by
    intro key value found
    obtain ⟨before, after, whole, -⟩ := List.lookup_eq_some_iff.mp found
    have member : (key, value) ∈ shownHook.env := by
      rw [whole]
      simp
    cases List.mem_singleton.mp member
    refine ⟨.of_all (by decide) (by decide), by decide,
      by unfold Text.SingleLine; decide, fun char isLast => ?_⟩
    exact (trimmed_of_ends (by decide) (by decide) :
      Text.Trimmed isWhiteSpace "prod=1".toList).last char isLast
  timeout := by
    rintro timeout ⟨⟩
    decide
  retries := by
    rintro retries ⟨⟩
    exact ⟨by decide, by decide, by decide⟩
  auth := by
    rintro auth ⟨⟩
    exact ⟨trimmed_of_ends (by decide) (by decide), by decide⟩
  payload := by
    rintro schema ⟨⟩
    refine ⟨by decide, fun field member => ?_⟩
    cases List.mem_singleton.mp member
    exact ⟨.of_all (by decide) (by decide), by decide⟩
  triggerRules := by
    rintro rules ⟨⟩
    refine ⟨.inl rfl, ?_, ?_, ?_, ?_⟩
    · rintro filters ⟨⟩
      refine ⟨by decide, fun filter member => ?_⟩
      cases List.mem_singleton.mp member
      refine ⟨.of_all (by decide) (by decide), by decide, by decide, ?_⟩
      rintro value ⟨⟩
      exact .of_all (by decide) (by decide)
    · rintro windows ⟨⟩
      refine ⟨by decide, fun window member => ?_⟩
      cases List.mem_singleton.mp member
      refine ⟨by decide, fun day inDays => ?_, fun day inDays => ?_,
        .of_all (by decide) (by decide), by decide,
        .of_all (by decide) (by decide)⟩
      · rcases List.mem_pair.mp inDays with rfl | rfl
        · exact .of_all (by decide) (by decide)
        · exact .of_all (by decide) (by decide)
      · rcases List.mem_pair.mp inDays with rfl | rfl
        · decide
        · decide
    · rintro cooldown ⟨⟩
      decide
    · rintro limit ⟨⟩
      decide

end Whole

end Sendword
