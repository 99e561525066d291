import Sendword.Decimal
import Sendword.PayloadFilters

/-!
# Time windows

The loop of `time_window::evaluate_at`, which skips a window whose times it
cannot parse.
-/

namespace Sendword

inductive Weekday where
  | mon
  | tue
  | wed
  | thu
  | fri
  | sat
  | sun
  deriving DecidableEq, Repr

def weekdayAbbrev : Weekday → String
  | .mon => "Mon"
  | .tue => "Tue"
  | .wed => "Wed"
  | .thu => "Thu"
  | .fri => "Fri"
  | .sat => "Sat"
  | .sun => "Sun"

/-- The weekday of an instant in nanoseconds since the epoch, which is a
Thursday. -/
def weekdayOf (now : Int) : Weekday :=
  match (now / 86400000000000 % 7).toNat with
  | 0 => .thu
  | 1 => .fri
  | 2 => .sat
  | 3 => .sun
  | 4 => .mon
  | 5 => .tue
  | _ => .wed

/-- The time of the day of an instant, in whole seconds. -/
def timeOfDay (now : Int) : Nat :=
  (now / 1000000000 % 86400).toNat

/-- `NaiveTime::format` with `%H:%M`. -/
def hoursAndMinutes (time : Nat) : String :=
  String.ofList (Decimal.padded 2 (time / 3600) ++
    ':' :: Decimal.padded 2 (time / 60 % 60))

variable (checkers : Checkers)

def TimeWindow.dayMatches (window : TimeWindow) (day : String) : Bool :=
  window.days.isEmpty ||
    window.days.any fun listed => listed.toLower == day.toLower

namespace TimeWindows

/-- The loop over the windows, with the windows skipped. -/
def evaluateAt : List TimeWindow → Int → EvalOutcome × List Fallback
  | [], now =>
      let day := weekdayAbbrev (weekdayOf now)
      let time := hoursAndMinutes (timeOfDay now)
      (.reject .scheduleSkipped
        s!"no time window matches current time {day} {time}", [])
  | window :: windows, now =>
      match checkers.parseTime window.startTime,
          checkers.parseTime window.endTime with
      | some start, some finish =>
          let time := timeOfDay now
          if window.dayMatches (weekdayAbbrev (weekdayOf now)) ∧
              start ≤ time ∧ time < finish then
            (.allow, [])
          else evaluateAt windows now
      | _, _ =>
          let (outcome, skipped) := evaluateAt windows now
          (outcome, .unparsableWindow :: skipped)

end TimeWindows

/-- The times of a window can be parsed. -/
def TimeWindow.Parsable (window : TimeWindow) : Prop :=
  (checkers.parseTime window.startTime).isSome = true ∧
    (checkers.parseTime window.endTime).isSome = true

/-- An instant lies in a window. -/
def TimeWindow.Covers (window : TimeWindow) (now : Int) : Prop :=
  window.dayMatches (weekdayAbbrev (weekdayOf now)) = true ∧
    ∃ start finish, checkers.parseTime window.startTime = some start ∧
      checkers.parseTime window.endTime = some finish ∧
      start ≤ timeOfDay now ∧ timeOfDay now < finish

variable {checkers} {windows : List TimeWindow}

/-- A request passes where a window covers the instant. -/
theorem evaluateAt_allow_iff (now : Int) :
    (TimeWindows.evaluateAt checkers windows now).1 = .allow ↔
      ∃ window ∈ windows, window.Covers checkers now := by
  induction windows with
  | nil => simp [TimeWindows.evaluateAt]
  | cons window windows induction =>
      rw [List.exists_mem_cons_iff, ← induction, TimeWindows.evaluateAt,
        TimeWindow.Covers]
      cases first : checkers.parseTime window.startTime with
      | none => simp
      | some start =>
          cases last : checkers.parseTime window.endTime with
          | none => simp
          | some finish =>
              by_cases covered : window.dayMatches
                  (weekdayAbbrev (weekdayOf now)) = true ∧
                start ≤ timeOfDay now ∧ timeOfDay now < finish
              · simp [covered]
              · simp only [if_neg covered]
                refine (or_iff_right ?_).symm
                rintro ⟨day, _, _, same, other, times⟩
                cases same
                cases other
                exact covered ⟨day, times⟩

/-- No window is skipped where all can be parsed. -/
theorem evaluateAt_fallbacks
    (parsable : ∀ window ∈ windows, window.Parsable checkers) (now : Int) :
    (TimeWindows.evaluateAt checkers windows now).2 = [] := by
  induction windows with
  | nil => rfl
  | cons window windows induction =>
      obtain ⟨⟨first, last⟩, others⟩ := List.forall_mem_cons.mp parsable
      obtain ⟨start, first⟩ := Option.isSome_iff_exists.mp first
      obtain ⟨finish, last⟩ := Option.isSome_iff_exists.mp last
      rw [TimeWindows.evaluateAt]
      simp only [first, last]
      split
      · rfl
      · exact induction others

end Sendword
