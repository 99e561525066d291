import Mathlib.Data.String.Basic
import Mathlib.Order.Bounds.Basic
import Sendword.Calendar
import Sendword.Retention

/-!
# Starts as texts

The cooldown check as the code makes it, on the texts of the column
`started_at`: the greatest text is taken, read back and compared with the
clock.
-/

namespace Sendword

open Calendar

/-- `chrono`: the format of `now_utc`, and the parsers of a timestamp with
and without a time zone.  Instants are nanoseconds since the epoch. -/
structure ChronoTexts where
  nowUtc : (instant : Int) → String
  parseFromRfc3339 : String → Option Int
  parseFromStr : (text format : String) → Option Int

/-- What is documented of `chrono` and used here: the fields of the format,
with the fraction cut to milliseconds, and that such a text is a timestamp of
RFC 3339. -/
structure ChronoTexts.Documented (chrono : ChronoTexts) : Prop where
  prints : ∀ time : Time, time.Valid → ∀ nanos : Nat, nanos < 1000000 →
    chrono.nowUtc (time.millis * 1000000 + nanos) = String.ofList time.text
  reads : ∀ time : Time, time.Valid →
    chrono.parseFromRfc3339 (String.ofList time.text) =
      some (time.millis * 1000000)

/-- The columns of `executions` that the check reads. -/
structure StartRow where
  hookSlug : String
  startedAt : Option String
  deriving DecidableEq, Repr

/-- The most recent execution of a hook that has started; of equal texts the
database may take any. -/
def latestStartedByHook (rows : List StartRow) (hookSlug : String) :
    Option StartRow :=
  (rows.filter fun row =>
    row.hookSlug == hookSlug && row.startedAt.isSome).argmax
      fun row => row.startedAt.getD ""

namespace Cooldown

/-- Timestamps in the database may not have a time zone suffix. -/
def parseStartedAt (chrono : ChronoTexts) (text : String) : Option Int :=
  chrono.parseFromRfc3339 text <|>
    chrono.parseFromStr text "%Y-%m-%dT%H:%M:%S" <|>
    chrono.parseFromStr text "%Y-%m-%dT%H:%M:%S%.f"

def evaluateAt (chrono : ChronoTexts)
    (getLatestStartedByHook : String → DbResult (Option StartRow))
    (hookSlug : String) (cooldown : Duration) (now : Int) : EvalOutcome :=
  match getLatestStartedByHook hookSlug with
  | .error _ => .allow
  | .ok none => .allow
  | .ok (some latest) =>
      match latest.startedAt with
      | none => .allow
      | some startedAtStr =>
          match parseStartedAt chrono startedAtStr with
          | none => .allow
          | some startedAt =>
              let elapsed := now - startedAt
              match chronoDuration cooldown with
              | none => .allow
              | some cooldown =>
                  if elapsed < cooldown then
                    let remaining :=
                      ((cooldown - elapsed).tdiv 1000000000).toNat
                    .reject .cooldownSkipped
                      s!"cooldown active, {remaining}s remaining"
                  else .allow

end Cooldown

/-! ## What a column says -/

/-- The text was written by `now_utc` in a year of four digits. -/
def WrittenAt (chrono : ChronoTexts) (text : String) (instant : Int) :
    Prop :=
  InFourDigitYears (instant / 1000000000) ∧ text = chrono.nowUtc instant

/-- The instants at which executions of a hook started, to the millisecond
that the column keeps. -/
def startsOf (chrono : ChronoTexts) (rows : List StartRow)
    (hookSlug : String) : Set Int :=
  {started | ∃ row ∈ rows, row.hookSlug = hookSlug ∧
    ∃ text ∈ row.startedAt, ∃ instant, WrittenAt chrono text instant ∧
      started = instant - instant % 1000000}

variable {chrono : ChronoTexts} {text other : String} {instant later : Int}

theorem written_time
    (documented : chrono.Documented)
    (written : WrittenAt chrono text instant) :
    ∃ time : Time, time.Valid ∧ text = String.ofList time.text ∧
      time.millis * 1000000 = instant - instant % 1000000 := by
  obtain ⟨⟨low, high⟩, rfl⟩ := written
  unfold yearZero at low
  unfold yearTenThousand at high
  obtain ⟨time, valid, isMillis⟩ :=
    Time.exists_time (instant / 1000000) (by omega) (by omega)
  obtain ⟨nanos, isNanos⟩ :=
    Int.eq_ofNat_of_zero_le (a := instant % 1000000) (by omega)
  have whole : instant = time.millis * 1000000 + nanos := by omega
  refine ⟨time, valid, ?_, by omega⟩
  rw [whole]
  exact documented.prints time valid nanos (by omega)

/-- A text is read back as the instant that it was written at. -/
theorem parseStartedAt_written
    (documented : chrono.Documented)
    (written : WrittenAt chrono text instant) :
    Cooldown.parseStartedAt chrono text =
      some (instant - instant % 1000000) := by
  obtain ⟨time, valid, rfl, isInstant⟩ := written_time documented written
  unfold Cooldown.parseStartedAt
  rw [documented.reads time valid, isInstant]
  rfl

/-- The greater text was written at the later instant. -/
theorem started_le_of_text_le
    (documented : chrono.Documented)
    (written : WrittenAt chrono text instant)
    (otherWritten : WrittenAt chrono other later)
    (le : text ≤ other) :
    instant - instant % 1000000 ≤ later - later % 1000000 := by
  rcases le.lt_or_eq with less | rfl
  · obtain ⟨time, valid, rfl, isInstant⟩ := written_time documented written
    obtain ⟨otherTime, otherValid, rfl, isLater⟩ :=
      written_time documented otherWritten
    rw [String.lt_iff_toList_lt, String.toList_ofList,
      String.toList_ofList] at less
    have before := Time.millis_lt_of_text_lt valid otherValid less
    omega
  · have first := parseStartedAt_written documented written
    have second := parseStartedAt_written documented otherWritten
    rw [first] at second
    exact (Option.some.inj second).le

/-! ## The decision -/

/-- Every start in the table was written by `now_utc`. -/
def WrittenByNowUtc (chrono : ChronoTexts) (rows : List StartRow) : Prop :=
  ∀ row ∈ rows, ∀ text ∈ row.startedAt, ∃ instant,
    WrittenAt chrono text instant

variable {rows : List StartRow} {hookSlug : String} {row : StartRow}
  {now : Int}

theorem startsOf_eq_empty
    (none : latestStartedByHook rows hookSlug = none) :
    startsOf chrono rows hookSlug = ∅ := by
  unfold latestStartedByHook at none
  rw [List.argmax_eq_none, List.filter_eq_nil_iff] at none
  apply Set.eq_empty_of_forall_notMem
  rintro started ⟨row, member, slug, text, isText, -⟩
  apply none row member
  rw [Option.mem_def.mp isText, slug]
  simp

/-- The row that the query answers holds the last start. -/
theorem isGreatest_latest
    (documented : chrono.Documented)
    (written : WrittenByNowUtc chrono rows)
    (latest : latestStartedByHook rows hookSlug = some row) :
    ∃ text, row.startedAt = some text ∧
      ∃ started, Cooldown.parseStartedAt chrono text = some started ∧
        IsGreatest (startsOf chrono rows hookSlug) started := by
  unfold latestStartedByHook at latest
  have member := List.argmax_mem latest
  rw [List.mem_filter, Bool.and_eq_true, beq_iff_eq] at member
  obtain ⟨inTable, slug, started⟩ := member
  obtain ⟨text, isText⟩ := Option.isSome_iff_exists.mp started
  obtain ⟨instant, writtenAt⟩ := written row inTable text isText
  refine ⟨text, isText, _, parseStartedAt_written documented writtenAt,
    ⟨row, inTable, slug, text, isText, instant, writtenAt, rfl⟩, ?_⟩
  rintro other ⟨otherRow, otherInTable, otherSlug, otherText, isOther,
    otherInstant, otherWritten, rfl⟩
  apply started_le_of_text_le documented otherWritten writtenAt
  have listed : otherRow ∈ rows.filter fun row =>
      row.hookSlug == hookSlug && row.startedAt.isSome := by
    rw [List.mem_filter, Option.mem_def.mp isOther, otherSlug]
    simp [otherInTable]
  have le := List.le_of_mem_argmax listed latest
  rw [Option.mem_def.mp isOther, isText] at le
  exact le

namespace EvalOutcome

def rejects : EvalOutcome → Bool
  | .allow => false
  | .reject .. => true

end EvalOutcome

/-- The decision on the table, if the database answers. -/
def decideCooldown (chrono : ChronoTexts) (rows : List StartRow)
    (hookSlug : String) (cooldown : Duration) (now : Int) : EvalOutcome :=
  Cooldown.evaluateAt chrono
    (fun hookSlug => .ok (latestStartedByHook rows hookSlug))
    hookSlug cooldown now

theorem decideCooldown_rejects_iff
    (documented : chrono.Documented)
    (written : WrittenByNowUtc chrono rows)
    {cooldown : Duration}
    (representable : cooldown ≤ chronoMax) :
    (decideCooldown chrono rows hookSlug cooldown now).rejects = true ↔
      ∃ latest, IsGreatest (startsOf chrono rows hookSlug) latest ∧
        now - latest < cooldown := by
  unfold decideCooldown Cooldown.evaluateAt
  cases found : latestStartedByHook rows hookSlug with
  | none =>
      apply iff_of_false
      · simp [found, EvalOutcome.rejects]
      · rintro ⟨latest, ⟨member, -⟩, -⟩
        rw [startsOf_eq_empty found] at member
        exact Set.notMem_empty latest member
  | some row =>
      obtain ⟨text, isText, started, parses, greatest⟩ :=
        isGreatest_latest documented written found
      simp only [found, isText, parses, chronoDuration,
        if_pos representable]
      constructor
      · intro rejected
        refine ⟨started, greatest, ?_⟩
        by_contra late
        rw [if_neg late] at rejected
        cases rejected
      · rintro ⟨latest, isLatest, early⟩
        rw [isLatest.unique greatest] at early
        rw [if_pos early]
        rfl

/-- The check rejects exactly within the cooldown after the last start, and
with it within every longer cooldown. -/
theorem cooldown_exact
    (chrono : ChronoTexts)
    (documented : chrono.Documented)
    (rows : List StartRow)
    (written : WrittenByNowUtc chrono rows)
    (hookSlug : String)
    (now : Int) :
    (∀ cooldown : Duration, cooldown ≤ chronoMax →
      ((decideCooldown chrono rows hookSlug cooldown now).rejects = true ↔
        ∃ latest, IsGreatest (startsOf chrono rows hookSlug) latest ∧
          now - latest < cooldown)) ∧
      ∀ cooldown longer : Duration, cooldown ≤ longer → longer ≤ chronoMax →
        (decideCooldown chrono rows hookSlug cooldown now).rejects = true →
        (decideCooldown chrono rows hookSlug longer now).rejects = true := by
  constructor
  · intro cooldown representable
    exact decideCooldown_rejects_iff documented written representable
  · intro cooldown longer le representable rejected
    obtain ⟨latest, greatest, early⟩ := (decideCooldown_rejects_iff documented
      written (le.trans representable)).mp rejected
    apply (decideCooldown_rejects_iff documented written representable).mpr
    exact ⟨latest, greatest, early.trans_le (Int.ofNat_le.mpr le)⟩

/-! ## The check with timestamps as numbers -/

namespace Cooldown

/-- What the check of the server decides from the clock and the row. -/
def outcomeOf (cooldown : Duration) (now : Int) :
    DbResult (Option Execution) → EvalOutcome
  | .error _ => .allow
  | .ok none => .allow
  | .ok (some latest) =>
      match latest.startedAt, chronoDuration cooldown with
      | none, _ => .allow
      | some _, none => .allow
      | some startedAt, some cooldown =>
          let elapsed : Int := now - (startedAt * 1000000 : Nat)
          if elapsed < cooldown then
            let remaining := ((cooldown - elapsed).tdiv 1000000000).toNat
            .reject .cooldownSkipped
              s!"cooldown active, {remaining}s remaining"
          else .allow

theorem evaluate_eq (hookSlug : String) (cooldown : Duration) :
    evaluate hookSlug cooldown = (do
      let now : Instant ← op .now
      let latest ← getLatestStartedByHook hookSlug
      return outcomeOf cooldown now latest) := by
  unfold evaluate
  congr 1
  funext now
  congr 1
  funext latest
  cases latest with
  | error error => rfl
  | ok found =>
      cases found with
      | none => rfl
      | some latest =>
          cases started : latest.startedAt with
          | none => simp [outcomeOf, started]
          | some startedAt =>
              cases known : chronoDuration cooldown with
              | none => simp [outcomeOf, started, known]
              | some length =>
                  simp only [outcomeOf, started, known]
                  split <;> rfl

end Cooldown

/-- The row of a record, with its start printed. -/
def printedRow (chrono : ChronoTexts) (execution : Execution) : StartRow where
  hookSlug := execution.hookSlug
  startedAt := execution.startedAt.map fun started =>
    chrono.nowUtc (started * 1000000 : Nat)

/-- On printed starts the check decides as on the numbers. -/
theorem evaluateAt_printed
    (documented : chrono.Documented)
    (latest : DbResult (Option Execution))
    (inYears : ∀ execution, latest = .ok (some execution) →
      ∀ started ∈ execution.startedAt,
        InFourDigitYears ((started : Int) * 1000000 / 1000000000))
    (hookSlug : String) (cooldown : Duration) (now : Int) :
    Cooldown.evaluateAt chrono
        (fun _ => latest.map (Option.map (printedRow chrono))) hookSlug
        cooldown now =
      Cooldown.outcomeOf cooldown now latest := by
  cases latest with
  | error error => rfl
  | ok found =>
      cases found with
      | none => rfl
      | some execution =>
          cases started : execution.startedAt with
          | none =>
              simp [Cooldown.evaluateAt, Cooldown.outcomeOf, printedRow,
                Except.map, started]
          | some millis =>
              have years := inYears execution rfl millis started
              have written : WrittenAt chrono
                  (chrono.nowUtc (millis * 1000000 : Nat))
                  ((millis : Int) * 1000000) := by
                refine ⟨years, ?_⟩
                rw [Int.natCast_mul]
                rfl
              have parses := parseStartedAt_written documented written
              have whole : (millis : Int) * 1000000 -
                  (millis : Int) * 1000000 % 1000000 =
                    (millis * 1000000 : Nat) := by
                omega
              rw [whole] at parses
              simp only [Cooldown.evaluateAt, Cooldown.outcomeOf, printedRow,
                Except.map, Option.map_some, started, parses]
              cases chronoDuration cooldown <;> rfl

/-! ## A clock that prints and reads these timestamps -/

def readTimestamp (text : String) : Option Int :=
  let time := Time.ofText text.toList
  if time.text = text.toList then some (time.millis * 1000000) else none

/-- The printer and the parser of the calendar; nothing else is read. -/
def calendarTexts : ChronoTexts where
  nowUtc instant := String.ofList (Time.ofMillis (instant / 1000000)).text
  parseFromRfc3339 := readTimestamp
  parseFromStr _ _ := none

theorem calendarTexts_documented : calendarTexts.Documented := by
  constructor
  · intro time valid nanos few
    have whole : (time.millis * 1000000 + nanos) / 1000000 = time.millis := by
      omega
    simp only [calendarTexts, whole, Time.ofMillis_millis valid]
  · intro time valid
    simp only [calendarTexts, readTimestamp, String.toList_ofList,
      Time.ofText_text valid, if_true]

/-- A time of the first of May 2024. -/
def mayTime (hour minute : Nat) : Time := ⟨2024, 5, 1, hour, minute, 0, 0⟩

theorem written_mayTime {hour minute : Nat} {text : String} {instant : Int}
    (valid : (mayTime hour minute).Valid)
    (isText : String.ofList (mayTime hour minute).text = text)
    (isInstant : (mayTime hour minute).millis * 1000000 + (0 : Nat) = instant)
    (year : InFourDigitYears (instant / 1000000000)) :
    WrittenAt calendarTexts text instant := by
  have printed := calendarTexts_documented.prints _ valid 0 (by decide)
  rw [isText, isInstant] at printed
  exact ⟨year, printed.symm⟩

theorem written_eleven :
    WrittenAt calendarTexts "2024-05-01T11:00:00.000Z"
      1714561200000000000 :=
  @written_mayTime 11 0 _ _ (by constructor <;> decide) (by decide)
    (by decide) (by decide)

theorem written_noon :
    WrittenAt calendarTexts "2024-05-01T12:00:00.000Z"
      1714564800000000000 :=
  @written_mayTime 12 0 _ _ (by constructor <;> decide) (by decide)
    (by decide) (by decide)

/-- Two starts of a hook, an execution that waits, and a start of another
hook. -/
def mayStarts : List StartRow :=
  [⟨"deploy", some "2024-05-01T11:00:00.000Z"⟩,
    ⟨"deploy", some "2024-05-01T12:00:00.000Z"⟩,
    ⟨"deploy", none⟩,
    ⟨"build", some "2024-05-01T12:00:00.000Z"⟩]

/-- A minute after the later start a cooldown of half an hour is active, and
forty minutes after it no more. -/
theorem cooldown_exact_may :
    (decideCooldown calendarTexts mayStarts "deploy" 1800000000000
        1714564860000000000).rejects = true ∧
      (decideCooldown calendarTexts mayStarts "deploy" 1800000000000
        1714567200000000000).rejects = false := by
  have written : WrittenByNowUtc calendarTexts mayStarts := by
    intro row member text isText
    simp only [mayStarts, List.mem_cons, List.not_mem_nil, or_false] at member
    rcases member with rfl | rfl | rfl | rfl
    · cases isText
      exact ⟨_, written_eleven⟩
    · cases isText
      exact ⟨_, written_noon⟩
    · cases isText
    · cases isText
      exact ⟨_, written_noon⟩
  have latest : IsGreatest (startsOf calendarTexts mayStarts "deploy")
      1714564800000000000 := by
    constructor
    · exact ⟨⟨"deploy", some "2024-05-01T12:00:00.000Z"⟩, by decide, rfl, _,
        rfl, _, written_noon, by decide⟩
    · rintro started ⟨row, member, ofHook, text, isText, instant, writtenAt,
        rfl⟩
      simp only [mayStarts, List.mem_cons, List.not_mem_nil, or_false]
        at member
      rcases member with rfl | rfl | rfl | rfl
      · cases isText
        exact started_le_of_text_le calendarTexts_documented writtenAt
          written_noon (by decide)
      · cases isText
        exact started_le_of_text_le calendarTexts_documented writtenAt
          written_noon le_rfl
      · cases isText
      · exact absurd ofHook (by decide)
  have decided := fun now => (cooldown_exact calendarTexts
    calendarTexts_documented mayStarts written "deploy" now).1 1800000000000
      (by decide)
  refine ⟨(decided _).mpr ⟨_, latest, by decide⟩, ?_⟩
  rw [← Bool.not_eq_true, decided]
  rintro ⟨start, greatest, early⟩
  rw [greatest.unique latest] at early
  exact absurd early (by decide)

end Sendword
