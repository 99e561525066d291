import Mathlib.Data.List.Infix
import Sendword.TriggerRules
import Sendword.Validation

/-!
# Payload filters

The checks of `payload_filter`, with the fallbacks they take for a filter
that they cannot follow.
-/

namespace Sendword

/-- What the evaluators do where the configuration does not tell them. -/
inductive Fallback where
  | emptyRegex
  | missingValue
  | notANumber
  | unparsableWindow
  deriving DecidableEq, Repr

/-! ## Numbers -/

def decimalValue (digits : List Char) : Nat :=
  digits.foldl (fun value digit => 10 * value + (digit.toNat - 48)) 0

/-- The exponent of a number, at the end of its text. -/
def parseExponent : List Char → Option Int
  | [] => some 0
  | letter :: rest =>
      let digits := match rest with
        | '-' :: digits => digits
        | '+' :: digits => digits
        | digits => digits
      if (letter = 'e' ∨ letter = 'E') ∧ digits ≠ [] ∧
          digits.all Char.isDigit then
        if rest.head? = some '-' then some (-decimalValue digits)
        else some (decimalValue digits)
      else none

/-- A number without a sign. -/
def parseUnsigned (text : List Char) : Option Float :=
  let lower := text.map Char.toLower
  if lower = "inf".toList ∨ lower = "infinity".toList then
    some (1.0 / 0.0)
  else if lower = "nan".toList then
    some (0.0 / 0.0)
  else
    let whole := text.takeWhile Char.isDigit
    let rest := text.dropWhile Char.isDigit
    let fraction := if rest.head? = some '.' then
        rest.tail.takeWhile Char.isDigit
      else []
    let last := if rest.head? = some '.' then
        rest.tail.dropWhile Char.isDigit
      else rest
    if whole = [] ∧ fraction = [] then none
    else do
      let exponent ← parseExponent last
      let scale := exponent - fraction.length
      return Float.ofScientific (decimalValue (whole ++ fraction))
        (decide (scale < 0)) scale.natAbs

/-- `str::parse::<f64>`. -/
def parseF64 (text : String) : Option Float :=
  match text.toList with
  | '-' :: unsigned => (parseUnsigned unsigned).map Float.neg
  | '+' :: unsigned => parseUnsigned unsigned
  | unsigned => parseUnsigned unsigned

/-- `Value::as_f64`. -/
def Json.asF64 : Json → Option Float
  | .number display => parseF64 display.text
  | _ => none

/-! ## One filter -/

/-- The string representation of a JSON value suitable for equality
comparison. -/
def jsonAsStr : Json → String
  | .string text => text
  | value => String.ofList value.render

def Json.typeName : Json → String
  | .null => "null"
  | .bool _ => "boolean"
  | .number _ => "number"
  | .string _ => "string"
  | .array _ => "array"
  | .object _ => "object"

/-- The reason for which a filter fails, and the fallbacks of the check. -/
structure Check where
  reason : Option String
  fallbacks : List Fallback := []
  deriving DecidableEq, Repr

def Check.pass : Check := { reason := none }

def Check.fail (reason : String) : Check := { reason := some reason }

/-- A check that fails for a reason unless a condition holds. -/
def Check.unless (holds : Bool) (reason : String)
    (fallbacks : List Fallback) : Check :=
  { reason := if holds then none else some reason, fallbacks }

/-- The parts of other crates that a filter uses. -/
structure FilterTools extends Checkers where
  /-- `Regex::is_match`. -/
  isMatch : (pattern text : String) → Bool
  /-- The `Display` of an `f64`. -/
  displayFloat : Float → String

def PayloadFilter.expected (filter : PayloadFilter) : String :=
  filter.value.getD ""

/-- The fallback of a comparison with the value of the filter. -/
def PayloadFilter.comparing (filter : PayloadFilter) : List Fallback :=
  if filter.value.isSome then [] else [.missingValue]

variable (tools : FilterTools)

def numericCompare (filter : PayloadFilter) (payload : Json)
    (compare : Float → Float → Bool) (symbol : String) : Check :=
  let field := filter.field
  let text := filter.expected
  match parseF64 text with
  | none =>
      { reason := some (s!"filter value '{text}' is not a number " ++
          s!"(required for {symbol} operator)")
        fallbacks := [.notANumber] }
  | some threshold =>
      match resolveField payload field.toList with
      | none => .fail s!"field '{field}' not found"
      | some value =>
          match value.asF64 with
          | some number =>
              .unless (compare number threshold)
                (s!"field '{field}' = {tools.displayFloat number} is not " ++
                  s!"{symbol} {tools.displayFloat threshold}") []
          | none =>
              .fail (s!"field '{field}' = {String.ofList value.render} " ++
                s!"is not numeric (required for {symbol} operator)")

/-- The check fails for a reason, or the filter passes. -/
def checkFilter (filter : PayloadFilter) (payload : Json) : Check :=
  let field := filter.field
  let expected := filter.expected
  let found := resolveField payload field.toList
  match filter.operator with
  | .exists =>
      match found with
      | none
      | some .null => .fail s!"field '{field}' does not exist or is null"
      | some _ => .pass
  | .equals =>
      match found with
      | none => .fail s!"field '{field}' not found"
      | some value =>
          .unless (jsonAsStr value == expected)
            (s!"field '{field}' = {String.ofList value.render} does not " ++
              s!"equal '{expected}'") filter.comparing
  | .notEquals =>
      match found with
      | none => .fail s!"field '{field}' not found"
      | some value =>
          .unless (jsonAsStr value != expected)
            (s!"field '{field}' = {String.ofList value.render} equals " ++
              s!"'{expected}' (not_equals failed)") filter.comparing
  | .contains =>
      match found with
      | none => .fail s!"field '{field}' not found"
      | some (.string text) =>
          .unless (decide (expected.toList <:+: text.toList))
            (s!"field '{field}' = '{text}' does not contain " ++
              s!"'{expected}'") filter.comparing
      | some (.array items) =>
          .unless (items.any fun item => jsonAsStr item == expected)
            (s!"field '{field}' array does not contain element " ++
              s!"'{expected}'") filter.comparing
      | some value =>
          .fail (s!"field '{field}' is {value.typeName} " ++
            "(contains requires string or array)")
  | .regex =>
      -- an invalid pattern is replaced by the empty one
      let valid := (tools.regexError expected).isNone
      let pattern := if valid then expected else ""
      let fallbacks := if valid then [] else [Fallback.emptyRegex]
      match found with
      | none => { Check.fail s!"field '{field}' not found" with fallbacks }
      | some value =>
          let text := jsonAsStr value
          .unless (tools.isMatch pattern text)
            (s!"field '{field}' = '{text}' does not match regex " ++
              s!"'{expected}'") (fallbacks ++ filter.comparing)
  | .gt => numericCompare tools filter payload (fun a b => a > b) ">"
  | .lt => numericCompare tools filter payload (fun a b => a < b) "<"
  | .gte => numericCompare tools filter payload (fun a b => a ≥ b) ">="
  | .lte => numericCompare tools filter payload (fun a b => a ≤ b) "<="

namespace PayloadFilters

/-- The loop over the filters, with the fallbacks of the checks made. -/
def evaluate : List PayloadFilter → Json → EvalOutcome × List Fallback
  | [], _ => (.allow, [])
  | filter :: filters, payload =>
      let check := checkFilter tools filter payload
      match check.reason with
      | some reason => (.reject .filtered reason, check.fallbacks)
      | none =>
          let (outcome, fallbacks) := evaluate filters payload
          (outcome, check.fallbacks ++ fallbacks)

end PayloadFilters

/-! ## What the operators mean -/

/-- A comparison of a number with the threshold. -/
def Exceeds (compare : Float → Float → Bool) (expected : String)
    (found : Json) : Prop :=
  ∃ number threshold, found.asF64 = some number ∧
    parseF64 expected = some threshold ∧ compare number threshold = true

/-- What an operator says of the value of the field. -/
def FilterOperator.Holds (expected : String) :
    FilterOperator → Json → Prop
  | .exists, found => found ≠ .null
  | .equals, found => jsonAsStr found = expected
  | .notEquals, found => jsonAsStr found ≠ expected
  | .contains, .string text => expected.toList <:+: text.toList
  | .contains, .array items => ∃ item ∈ items, jsonAsStr item = expected
  | .contains, _ => False
  | .regex, found => tools.isMatch expected (jsonAsStr found) = true
  | .gt, found => Exceeds (fun a b => a > b) expected found
  | .lt, found => Exceeds (fun a b => a < b) expected found
  | .gte, found => Exceeds (fun a b => a ≥ b) expected found
  | .lte, found => Exceeds (fun a b => a ≤ b) expected found

/-- The field of a filter is there, and its value is as the operator says. -/
def PayloadFilter.Holds (filter : PayloadFilter) (payload : Json) : Prop :=
  ∃ found, resolveField payload filter.field.toList = some found ∧
    filter.operator.Holds tools filter.expected found

/-- The operators that compare with a number. -/
def FilterOperator.isNumeric : FilterOperator → Bool
  | .gt
  | .lt
  | .gte
  | .lte => true
  | _ => false

/-- A filter with a threshold that is not a number. -/
def PayloadFilter.NotNumeric (filter : PayloadFilter) : Prop :=
  filter.operator.isNumeric = true ∧ parseF64 filter.expected = none

/-- A filter that has the value its operator needs. -/
def PayloadFilter.Valued (filter : PayloadFilter) : Prop :=
  filter.operator = .exists ∨ filter.value.isSome = true

/-- A filter without an invalid pattern. -/
def PayloadFilter.Patterned (filter : PayloadFilter) : Prop :=
  filter.operator = .regex → (tools.regexError filter.expected).isNone = true

variable {tools} {filter : PayloadFilter} {payload : Json}

theorem unless_reason {holds : Bool} {reason : String}
    {fallbacks : List Fallback} :
    (Check.unless holds reason fallbacks).reason = none ↔ holds = true := by
  unfold Check.unless
  cases holds with
  | true => exact ⟨fun _ => rfl, fun _ => rfl⟩
  | false => exact ⟨nofun, nofun⟩

theorem numericCompare_reason {compare : Float → Float → Bool}
    {symbol : String} :
    (numericCompare tools filter payload compare symbol).reason = none ↔
      ∃ found, resolveField payload filter.field.toList = some found ∧
        Exceeds compare filter.expected found := by
  unfold numericCompare Exceeds
  dsimp only
  cases parsed : parseF64 filter.expected with
  | none => simp
  | some threshold =>
      cases resolved : resolveField payload filter.field.toList with
      | none => simp [Check.fail]
      | some value =>
          cases number : value.asF64 with
          | none => simp [number, Check.fail]
          | some number => simp [number, unless_reason]

theorem numericCompare_fallbacks {compare : Float → Float → Bool}
    {symbol : String} :
    (numericCompare tools filter payload compare symbol).fallbacks =
      if (parseF64 filter.expected).isNone then [.notANumber] else [] := by
  unfold numericCompare
  dsimp only
  cases parsed : parseF64 filter.expected with
  | none => simp
  | some threshold =>
      cases resolved : resolveField payload filter.field.toList with
      | none => simp [Check.fail]
      | some value =>
          cases number : value.asF64 with
          | none => simp [number, Check.fail]
          | some number => simp [number, Check.unless]

/-- A filter passes where its operator holds of the payload. -/
theorem checkFilter_reason (patterned : filter.Patterned tools) :
    (checkFilter tools filter payload).reason = none ↔
      filter.Holds tools payload := by
  unfold checkFilter PayloadFilter.Holds
  dsimp only
  unfold PayloadFilter.Patterned at patterned
  cases isOperator : filter.operator with
  | gt => exact numericCompare_reason
  | lt => exact numericCompare_reason
  | gte => exact numericCompare_reason
  | lte => exact numericCompare_reason
  | «exists» =>
      cases resolveField payload filter.field.toList with
      | none => simp [Check.fail]
      | some value => cases value <;> simp [Check.fail, Check.pass,
          FilterOperator.Holds]
  | equals =>
      cases resolveField payload filter.field.toList with
      | none => simp [Check.fail]
      | some value => simp [unless_reason, FilterOperator.Holds]
  | notEquals =>
      cases resolveField payload filter.field.toList with
      | none => simp [Check.fail]
      | some value => simp [unless_reason, FilterOperator.Holds]
  | contains =>
      cases resolveField payload filter.field.toList with
      | none => simp [Check.fail]
      | some value =>
          cases value <;>
            simp [unless_reason, FilterOperator.Holds, Check.fail]
  | regex =>
      have valid := patterned isOperator
      cases resolveField payload filter.field.toList with
      | none => simp [Check.fail]
      | some value => simp [unless_reason, FilterOperator.Holds, valid]

theorem mem_comparing {fallback : Fallback}
    (member : fallback ∈ filter.comparing)
    (compares : filter.operator ≠ .exists) :
    fallback = .missingValue ∧ ¬ filter.Valued := by
  unfold PayloadFilter.comparing at member
  unfold PayloadFilter.Valued
  by_cases valued : filter.value.isSome = true
  · rw [if_pos valued] at member
    cases member
  · rw [if_neg valued] at member
    exact ⟨List.mem_singleton.mp member, not_or.mpr ⟨compares, valued⟩⟩

/-- The fallbacks of a filter without an invalid pattern: one for a value
that is missing, and one for a threshold that is not a number. -/
theorem mem_fallbacks {fallback : Fallback}
    (patterned : filter.Patterned tools)
    (member : fallback ∈ (checkFilter tools filter payload).fallbacks) :
    fallback = .missingValue ∧ ¬ filter.Valued ∨
      fallback = .notANumber ∧ filter.NotNumeric := by
  have numeric {compare : Float → Float → Bool} {symbol : String}
      (isNumeric : filter.operator.isNumeric = true)
      (member : fallback ∈
        (numericCompare tools filter payload compare symbol).fallbacks) :
      fallback = .notANumber ∧ filter.NotNumeric := by
    rw [numericCompare_fallbacks] at member
    cases parsed : parseF64 filter.expected with
    | none =>
        rw [parsed] at member
        exact ⟨List.mem_singleton.mp member, isNumeric, parsed⟩
    | some threshold =>
        rw [parsed] at member
        cases member
  unfold checkFilter at member
  unfold PayloadFilter.Patterned at patterned
  dsimp only at member
  cases isOperator : filter.operator with
  | gt
  | lt
  | gte
  | lte =>
      rw [isOperator] at member
      exact .inr (numeric (by rw [isOperator]; rfl) member)
  | «exists» =>
      rw [isOperator] at member
      cases found : resolveField payload filter.field.toList with
      | none =>
          rw [found] at member
          cases member
      | some value =>
          rw [found] at member
          cases value <;> cases member
  | equals
  | notEquals =>
      rw [isOperator] at member
      cases found : resolveField payload filter.field.toList with
      | none =>
          rw [found] at member
          cases member
      | some value =>
          rw [found] at member
          exact .inl (mem_comparing member (by rw [isOperator]; nofun))
  | contains =>
      rw [isOperator] at member
      cases found : resolveField payload filter.field.toList with
      | none =>
          rw [found] at member
          cases member
      | some value =>
          rw [found] at member
          cases value with
          | string text
          | array items =>
              exact .inl (mem_comparing member (by rw [isOperator]; nofun))
          | _ => cases member
  | regex =>
      have valid := patterned isOperator
      rw [isOperator] at member
      dsimp only at member
      rw [if_pos valid] at member
      cases found : resolveField payload filter.field.toList with
      | none =>
          rw [found] at member
          cases member
      | some value =>
          rw [found] at member
          exact .inl (mem_comparing member (by rw [isOperator]; nofun))

/-- A threshold that is not a number fails every payload. -/
theorem PayloadFilter.NotNumeric.fails (text : filter.NotNumeric) :
    ¬ filter.Holds tools payload := by
  rintro ⟨found, -, holds⟩
  have unparsed := text.2
  have isNumeric := text.1
  cases isOperator : filter.operator with
  | gt
  | lt
  | gte
  | lte =>
      rw [isOperator] at holds
      obtain ⟨number, threshold, -, parsed, -⟩ := holds
      rw [unparsed] at parsed
      cases parsed
  | _ =>
      rw [isOperator] at isNumeric
      cases isNumeric

/-! ## All filters of a hook -/

variable {filters : List PayloadFilter}

/-- The filters let a payload pass where the operator of each holds. -/
theorem evaluate_allow_iff
    (patterned : ∀ filter ∈ filters, filter.Patterned tools) :
    (PayloadFilters.evaluate tools filters payload).1 = .allow ↔
      ∀ filter ∈ filters, filter.Holds tools payload := by
  induction filters with
  | nil => simp [PayloadFilters.evaluate]
  | cons filter filters induction =>
      obtain ⟨own, others⟩ := List.forall_mem_cons.mp patterned
      rw [List.forall_mem_cons, ← checkFilter_reason own, ← induction others,
        PayloadFilters.evaluate]
      cases reason : (checkFilter tools filter payload).reason with
      | none => simp
      | some reason => simp

theorem mem_evaluate_fallbacks {fallback : Fallback}
    (patterned : ∀ filter ∈ filters, filter.Patterned tools)
    (member : fallback ∈
      (PayloadFilters.evaluate tools filters payload).2) :
    ∃ filter ∈ filters, fallback = .missingValue ∧ ¬ filter.Valued ∨
      fallback = .notANumber ∧ filter.NotNumeric := by
  induction filters with
  | nil => cases member
  | cons filter filters induction =>
      obtain ⟨own, others⟩ := List.forall_mem_cons.mp patterned
      have rest (later : fallback ∈
          (PayloadFilters.evaluate tools filters payload).2) :
          ∃ filter' ∈ filter :: filters,
            fallback = .missingValue ∧ ¬ filter'.Valued ∨
              fallback = .notANumber ∧ filter'.NotNumeric := by
        obtain ⟨other, member, cause⟩ := induction others later
        exact ⟨other, List.mem_cons_of_mem _ member, cause⟩
      have here (now : fallback ∈
          (checkFilter tools filter payload).fallbacks) :
          ∃ filter' ∈ filter :: filters,
            fallback = .missingValue ∧ ¬ filter'.Valued ∨
              fallback = .notANumber ∧ filter'.NotNumeric :=
        ⟨filter, List.mem_cons_self, mem_fallbacks own now⟩
      rw [PayloadFilters.evaluate] at member
      cases reason : (checkFilter tools filter payload).reason with
      | some reason =>
          simp only [reason] at member
          exact here member
      | none =>
          simp only [reason] at member
          rcases List.mem_append.mp member with now | later
          · exact here now
          · exact rest later

end Sendword
