import Sendword.TimeWindows

/-!
# What validation covers

The filters and the windows of a valid configuration are evaluated without
the fallbacks of an invalid pattern and of a time that cannot be parsed.
-/

namespace Sendword

variable {checkers : Checkers} {place : String}

/-! ## The rules of a valid configuration -/

/-- The trigger rules of a hook of a valid configuration. -/
theorem rules_errors {config : AppConfig} {hook : HookConfig}
    {rules : TriggerRules} (valid : config.validate checkers = .ok ())
    (member : hook ∈ config.hooks) (has : hook.triggerRules = some rules) :
    ∃ place, rules.errors checkers place = [] := by
  obtain ⟨i, duplicate, own⟩ := hook_errors valid member
  unfold HookConfig.errors at own
  simp only [List.append_eq_nil_iff, has, Option.elim_some] at own
  exact ⟨_, own.1.1.2⟩

theorem mem_zipIdx_of_mem {α : Type} {item : α} {items : List α}
    (member : item ∈ items) : ∃ index, (item, index) ∈ items.zipIdx := by
  obtain ⟨index, small, rfl⟩ := List.mem_iff_getElem.mp member
  refine ⟨index, List.mem_iff_getElem.mpr ⟨index, by simpa using small, ?_⟩⟩
  simp

/-- The filters of valid rules have valid patterns. -/
theorem patterned_of_errors {tools : FilterTools} {rules : TriggerRules}
    (valid : rules.errors tools.toCheckers place = []) :
    ∀ filter ∈ rules.payloadFilters.getD [], filter.Patterned tools := by
  unfold TriggerRules.errors at valid
  simp only [List.append_eq_nil_iff, List.flatMap_eq_nil_iff] at valid
  intro filter member isRegex
  obtain ⟨index, indexed⟩ := mem_zipIdx_of_mem member
  have noError := valid.1.1 _ indexed
  unfold PayloadFilter.errors at noError
  unfold PayloadFilter.expected
  cases isValue : filter.value with
  | none => simp [isRegex, isValue] at noError
  | some pattern => simpa [isRegex, isValue] using noError

/-- The times of the windows of valid rules can be parsed. -/
theorem parsable_of_errors {rules : TriggerRules}
    (valid : rules.errors checkers place = []) :
    ∀ window ∈ rules.timeWindows.getD [], window.Parsable checkers := by
  unfold TriggerRules.errors at valid
  simp only [List.append_eq_nil_iff, List.flatMap_eq_nil_iff] at valid
  intro window member
  obtain ⟨index, indexed⟩ := mem_zipIdx_of_mem member
  have noError := valid.1.2 _ indexed
  unfold TimeWindow.errors at noError
  simp only [List.append_eq_nil_iff, require_eq_nil] at noError
  exact ⟨noError.1.1.1, noError.1.1.2⟩

/-! ## Filters and windows -/

/-- The evaluation of the filters of valid rules. -/
structure FiltersCovered (tools : FilterTools)
    (filters : List PayloadFilter) : Prop where
  /-- No filter falls back to the empty pattern. -/
  neverEmptyRegex : ∀ payload,
    .emptyRegex ∉ (PayloadFilters.evaluate tools filters payload).2
  /-- The fallbacks of filters that have the values they need are due to
  thresholds that are not numbers. -/
  fallbacks : (∀ filter ∈ filters, filter.Valued) →
    ∀ payload, ∀ fallback ∈
      (PayloadFilters.evaluate tools filters payload).2,
      fallback = .notANumber ∧ ∃ filter ∈ filters, filter.NotNumeric
  /-- A threshold that is not a number lets no payload pass. -/
  refused : ∀ filter ∈ filters, filter.NotNumeric → ∀ payload,
    (PayloadFilters.evaluate tools filters payload).1 ≠ .allow
  /-- A filter passes where its operator holds of the payload. -/
  passes : ∀ filter ∈ filters, filter.Valued → ∀ payload,
    (checkFilter tools filter payload).reason = none ↔
      filter.Holds tools payload
  decided : (∀ filter ∈ filters, filter.Valued) → ∀ payload,
    (PayloadFilters.evaluate tools filters payload).1 = .allow ↔
      ∀ filter ∈ filters, filter.Holds tools payload

theorem FiltersCovered.of_patterned {tools : FilterTools}
    {filters : List PayloadFilter}
    (patterned : ∀ filter ∈ filters, filter.Patterned tools) :
    FiltersCovered tools filters where
  neverEmptyRegex := by
    intro payload member
    obtain ⟨filter, -, ⟨isMissing, -⟩ | ⟨isNumber, -⟩⟩ :=
      mem_evaluate_fallbacks patterned member
    · cases isMissing
    · cases isNumber
  fallbacks := by
    intro valued payload fallback member
    obtain ⟨filter, listed, ⟨-, missing⟩ | ⟨isNumber, text⟩⟩ :=
      mem_evaluate_fallbacks patterned member
    · exact absurd (valued filter listed) missing
    · exact ⟨isNumber, filter, listed, text⟩
  refused := by
    intro filter listed text payload allowed
    exact text.fails ((evaluate_allow_iff patterned).mp allowed filter listed)
  passes filter listed _ payload := checkFilter_reason (patterned filter listed)
  decided _ payload := evaluate_allow_iff patterned

/-- The evaluation of the windows of valid rules. -/
structure WindowsCovered (checkers : Checkers) (windows : List TimeWindow) :
    Prop where
  /-- No window is skipped. -/
  neverSkipped : ∀ now,
    (TimeWindows.evaluateAt checkers windows now).2 = []
  decided : ∀ now,
    (TimeWindows.evaluateAt checkers windows now).1 = .allow ↔
      ∃ window ∈ windows, window.Covers checkers now

/-- The trigger rules of a valid configuration take no fallback but the
one for a threshold that is not a number. -/
theorem rules_covered (tools : FilterTools) (config : AppConfig)
    (hook : HookConfig) (rules : TriggerRules)
    (valid : config.validate tools.toCheckers = .ok ())
    (member : hook ∈ config.hooks) (has : hook.triggerRules = some rules) :
    FiltersCovered tools (rules.payloadFilters.getD []) ∧
      WindowsCovered tools.toCheckers (rules.timeWindows.getD []) := by
  obtain ⟨place, noErrors⟩ := rules_errors valid member has
  constructor
  · exact .of_patterned (patterned_of_errors noErrors)
  · exact ⟨evaluateAt_fallbacks (parsable_of_errors noErrors),
      evaluateAt_allow_iff⟩

/-! ## Rules of a push -/

/-- Crates that know one pattern and two times. -/
def workdayTools : FilterTools where
  regexError pattern :=
    if pattern = "^refs/" then none else some "unknown pattern"
  parseTime text :=
    if text = "09:00" then some 32400
    else if text = "17:00" then some 61200
    else none
  cronIsValid _ := true
  isMatch _ text := "refs/".toList.isPrefixOf text.toList
  displayFloat _ := "12"

/-- Pushes of more than ten commits to a reference, in the office hours. -/
def pushRules : TriggerRules where
  payloadFilters := some
    [⟨"action", .equals, some "push"⟩, ⟨"ref", .regex, some "^refs/"⟩,
      ⟨"commits", .gt, some "10"⟩]
  timeWindows := some [⟨["Mon", "Tue", "Wed"], "09:00", "17:00"⟩]

def pushHook : HookConfig where
  name := "deploy"
  slug := "deploy"
  executor := .shell "make deploy"
  triggerRules := some pushRules

theorem rules_covered_pushed :
    FiltersCovered workdayTools (pushRules.payloadFilters.getD []) ∧
      WindowsCovered workdayTools.toCheckers
        (pushRules.timeWindows.getD []) :=
  rules_covered workdayTools { hooks := [pushHook] } pushHook pushRules
    (by decide +kernel) List.mem_cons_self rfl

/-- Crates that take every pattern and no time. -/
def permissiveTools : FilterTools where
  regexError _ := none
  parseTime _ := none
  cronIsValid _ := true
  isMatch _ _ := true
  displayFloat _ := ""

/-- A hook with one filter. -/
def filteredHook (filter : PayloadFilter) : HookConfig where
  name := "deploy"
  slug := "deploy"
  executor := .shell "make deploy"
  triggerRules := some { payloadFilters := some [filter] }

def filteredConfig (filter : PayloadFilter) : AppConfig where
  hooks := [filteredHook filter]

/-- More than ten commits, with the threshold in words. -/
def manyCommits : PayloadFilter where
  field := "commits"
  operator := .gt
  value := some "ten"

/-- Validation accepts a threshold that is not a number. -/
theorem not_rules_covered :
    (filteredConfig manyCommits).validate permissiveTools.toCheckers =
        .ok () ∧
      .notANumber ∈ (PayloadFilters.evaluate permissiveTools [manyCommits]
        (.object [])).2 := by
  decide +kernel

end Sendword
