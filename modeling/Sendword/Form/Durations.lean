import Sendword.Form.LineFormats

/-!
# Durations and numbers in texts

What is left of a duration that is written by `format_duration` and read by
`humantime`, and of a number that is written in a field.
-/

namespace Sendword

/-- `humantime::parse_duration`, with the message of its error. -/
structure Humantime where
  parse : String → Option Duration
  message : String → String

/-- How `humantime` reads a number of one unit.  The seconds of a duration are
a `u64`. -/
structure ReadsUnits (parse : String → Option Duration) : Prop where
  millis : ∀ count : Nat, count < 1000 →
    parse s!"{count}ms" = some (count * 1000000)
  seconds : ∀ count : Nat, count < 2 ^ 64 →
    parse s!"{count}s" = some (count * 1000000000)
  minutes : ∀ count : Nat, count * 60 < 2 ^ 64 →
    parse s!"{count}m" = some (count * 60 * 1000000000)
  hours : ∀ count : Nat, count * 3600 < 2 ^ 64 →
    parse s!"{count}h" = some (count * 3600 * 1000000000)

/-- What `format_duration` keeps of a duration. -/
def Duration.stored (duration : Duration) : Duration :=
  if duration < 1000000000 then duration / 1000000 * 1000000
  else duration / 1000000000 * 1000000000

/-- A value of `std::time::Duration`. -/
def Duration.Fits (duration : Duration) : Prop :=
  duration < 2 ^ 64 * 1000000000

section Durations

variable {parse : String → Option Duration} {duration : Nat}

theorem stored_of_small (small : duration < 1000000000) :
    Duration.stored duration = duration / 1000000 * 1000000 :=
  if_pos small

theorem stored_of_large (large : 1000000000 ≤ duration) :
    Duration.stored duration = duration / 1000000000 * 1000000000 :=
  if_neg (Nat.not_lt_of_le large)

theorem Duration.stored_le (duration : Duration) :
    duration.stored ≤ duration := by
  unfold Duration.stored
  split
  · exact Nat.div_mul_le_self _ _
  · exact Nat.div_mul_le_self _ _

theorem Duration.Fits.stored {duration : Duration} (fits : duration.Fits) :
    duration.stored.Fits :=
  Nat.lt_of_le_of_lt (Duration.stored_le duration) fits

/-- A duration is kept where it has no part that is not written: below a
second whole milliseconds, and whole seconds from there on. -/
theorem stored_eq_iff :
    Duration.stored duration = duration ↔
      if duration < 1000000000 then duration % 1000000 = 0
      else duration % 1000000000 = 0 := by
  split
  · rename_i small
    rw [stored_of_small small]
    change duration / 1000000 * 1000000 = duration ↔ duration % 1000000 = 0
    omega
  · rename_i large
    rw [stored_of_large (Nat.le_of_not_lt large)]
    change duration / 1000000000 * 1000000000 = duration ↔
      duration % 1000000000 = 0
    omega

theorem stored_stored (duration : Nat) :
    Duration.stored (Duration.stored duration) =
      Duration.stored duration := by
  rw [stored_eq_iff]
  rcases Nat.lt_or_ge duration 1000000000 with small | large
  · rw [stored_of_small small, if_pos (by omega)]
    exact Nat.mul_mod_left _ _
  · rw [stored_of_large large, if_neg (by omega)]
    exact Nat.mul_mod_left _ _

theorem formatDuration_eq (duration : Nat) :
    formatDuration duration =
      if duration / 1000000000 = 0 ∧
          0 < duration % 1000000000 / 1000000 then
        toString (duration % 1000000000 / 1000000) ++ "ms"
      else if duration / 1000000000 < 60 then
        toString (duration / 1000000000) ++ "s"
      else if duration / 1000000000 < 3600 ∧
          duration / 1000000000 % 60 = 0 then
        toString (duration / 1000000000 / 60) ++ "m"
      else if duration / 1000000000 % 3600 = 0 then
        toString (duration / 1000000000 / 3600) ++ "h"
      else toString (duration / 1000000000) ++ "s" := rfl

theorem parse_formatDuration (reads : ReadsUnits parse)
    (fits : Duration.Fits duration) :
    parse (formatDuration duration) = some (Duration.stored duration) := by
  have small : duration / 1000000000 < 2 ^ 64 := by
    have bound : duration < 2 ^ 64 * 1000000000 := fits
    omega
  rw [formatDuration_eq]
  split
  · have few : duration % 1000000000 / 1000000 < 1000 := by omega
    refine (reads.millis _ few).trans (congrArg some ?_)
    rw [stored_of_small (by omega)]
    change duration % 1000000000 / 1000000 * 1000000 =
      duration / 1000000 * 1000000
    omega
  · split
    · refine (reads.seconds _ small).trans (congrArg some ?_)
      rcases Nat.lt_or_ge duration 1000000000 with less | more
      · rw [stored_of_small less]
        change duration / 1000000000 * 1000000000 =
          duration / 1000000 * 1000000
        omega
      · rw [stored_of_large more]
    · rw [stored_of_large (by omega)]
      split
      · have few : duration / 1000000000 / 60 * 60 < 2 ^ 64 := by omega
        refine (reads.minutes _ few).trans (congrArg some ?_)
        change duration / 1000000000 / 60 * 60 * 1000000000 =
          duration / 1000000000 * 1000000000
        omega
      · split
        · have few : duration / 1000000000 / 3600 * 3600 < 2 ^ 64 := by omega
          refine (reads.hours _ few).trans (congrArg some ?_)
          change duration / 1000000000 / 3600 * 3600 * 1000000000 =
            duration / 1000000000 * 1000000000
          omega
        · exact reads.seconds _ small

end Durations

/-! ## Numbers -/

/-- `str::parse` of an unsigned integer type. -/
def parseUint (bits : Nat) (text : List Char) : Option Nat :=
  let digits := match text with
    | '+' :: rest => rest
    | _ => text
  if digits ≠ [] ∧ digits.all Char.isDigit then
    let number := Nat.ofDigitChars 10 digits 0
    if number < 2 ^ bits then some number else none
  else none

section Numbers

variable {number : Nat}

theorem isDigit_of_mem_toString {char : Char}
    (member : char ∈ (toString number).toList) : char.isDigit = true := by
  rw [Nat.toString_eq_repr, Nat.toList_repr] at member
  exact Nat.isDigit_of_mem_toDigits (by decide) (by decide) member

theorem toString_ne_nil (number : Nat) : (toString number).toList ≠ [] := by
  rw [Nat.toString_eq_repr, Nat.toList_repr]
  exact Nat.toDigits_ne_nil

theorem parseUint_toString {bits : Nat} (small : number < 2 ^ bits) :
    parseUint bits (toString number).toList = some number := by
  have digits : ∀ char ∈ (toString number).toList, char.isDigit = true :=
    fun char member => isDigit_of_mem_toString member
  have same : Nat.ofDigitChars 10 (toString number).toList 0 = number := by
    rw [Nat.toString_eq_repr, Nat.toList_repr]
    exact Nat.ofDigitChars_ten_toDigits
  have unsigned : (match (toString number).toList with
      | '+' :: rest => rest
      | _ => (toString number).toList) = (toString number).toList := by
    split
    · rename_i rest sign
      exact absurd (digits '+' (sign ▸ List.mem_cons_self)) (by decide)
    · rfl
  unfold parseUint
  rw [unsigned]
  dsimp only
  rw [if_pos ⟨toString_ne_nil number, List.all_eq_true.mpr digits⟩, same,
    if_pos small]

theorem not_isWhiteSpace_of_isDigit {char : Char}
    (digit : char.isDigit = true) : isWhiteSpace char = false := by
  simp only [Char.isDigit, Bool.and_eq_true, decide_eq_true_eq] at digit
  have bounds : 48 ≤ char.toNat ∧ char.toNat ≤ 57 := digit
  have table : ∀ code : Fin 58, 48 ≤ code.val →
      isWhiteSpace (Char.ofNat code) = false := by decide
  have known := table ⟨char.toNat, Nat.lt_succ_of_le bounds.2⟩ bounds.1
  rwa [Char.ofNat_toNat] at known

/-- A number with something behind it that has no blanks. -/
theorem word_number (number : Nat) {suffix : List Char}
    (plain : suffix.all (fun char => !isWhiteSpace char) = true) :
    Word ((toString number).toList ++ suffix) := by
  refine .of_all (by simp) ?_
  rw [List.all_append, plain, Bool.and_true, List.all_eq_true]
  intro char member
  rw [not_isWhiteSpace_of_isDigit (isDigit_of_mem_toString member)]
  rfl

theorem word_formatDuration (duration : Duration) :
    Word (formatDuration duration).toList := by
  have unit (number : Nat) (suffix : String)
      (plain : suffix.toList.all (fun char => !isWhiteSpace char) = true) :
      Word (toString number ++ suffix).toList := by
    rw [String.toList_append]
    exact word_number number plain
  rw [formatDuration_eq]
  split
  · exact unit _ "ms" (by decide)
  · split
    · exact unit _ "s" (by decide)
    · split
      · exact unit _ "m" (by decide)
      · split
        · exact unit _ "h" (by decide)
        · exact unit _ "s" (by decide)

/-! ## One unit -/

/-- A reader of texts with one number and one unit, as `humantime` reads
them. -/
def readUnit (text : String) : Option Duration :=
  let scaled (seconds : Nat) (digits : List Char) : Option Duration :=
    (parseUint 64 digits).bind fun count =>
      if count * seconds < 2 ^ 64 then some (count * seconds * 1000000000)
      else none
  let digits := text.toList.takeWhile Char.isDigit
  match String.ofList (text.toList.dropWhile Char.isDigit) with
  | "ms" => (parseUint 64 digits).map fun count => count * 1000000
  | "s" => scaled 1 digits
  | "m" => scaled 60 digits
  | "h" => scaled 3600 digits
  | _ => none

theorem takeWhile_unit (number : Nat) {unit : String}
    (letters : unit.toList.head?.all (fun char => !char.isDigit) = true) :
    (toString number ++ unit).toList.takeWhile Char.isDigit =
        (toString number).toList ∧
      (toString number ++ unit).toList.dropWhile Char.isDigit =
        unit.toList := by
  have digits : ∀ char ∈ (toString number).toList, char.isDigit = true :=
    fun char member => isDigit_of_mem_toString member
  have none : unit.toList.takeWhile Char.isDigit = [] ∧
      unit.toList.dropWhile Char.isDigit = unit.toList := by
    cases isUnit : unit.toList with
    | nil => exact ⟨rfl, rfl⟩
    | cons first rest =>
        rw [isUnit] at letters
        have letter : first.isDigit = false := by simpa using letters
        simp [letter]
  rw [String.toList_append, List.takeWhile_append_of_pos digits,
    List.dropWhile_append_of_pos digits, none.1, none.2, List.append_nil]
  exact ⟨rfl, rfl⟩

theorem readUnit_reads : ReadsUnits readUnit where
  millis count small := by
    obtain ⟨digits, unit⟩ := @takeWhile_unit count "ms" rfl
    change readUnit (toString count ++ "ms") = _
    unfold readUnit
    have fits : count < 2 ^ 64 := by omega
    rw [digits, unit, String.ofList_toList]
    simp only [parseUint_toString fits]
    rfl
  seconds count small := by
    obtain ⟨digits, unit⟩ := @takeWhile_unit count "s" rfl
    change readUnit (toString count ++ "s") = _
    unfold readUnit
    rw [digits, unit, String.ofList_toList]
    simp only [parseUint_toString small, Option.bind_some, Nat.mul_one]
    exact if_pos small
  minutes count small := by
    obtain ⟨digits, unit⟩ := @takeWhile_unit count "m" rfl
    change readUnit (toString count ++ "m") = _
    unfold readUnit
    have fits : count < 2 ^ 64 := by omega
    rw [digits, unit, String.ofList_toList]
    simp only [parseUint_toString fits, Option.bind_some]
    exact if_pos small
  hours count small := by
    obtain ⟨digits, unit⟩ := @takeWhile_unit count "h" rfl
    change readUnit (toString count ++ "h") = _
    unfold readUnit
    have fits : count < 2 ^ 64 := by omega
    rw [digits, unit, String.ofList_toList]
    simp only [parseUint_toString fits, Option.bind_some]
    exact if_pos small

end Numbers

end Sendword
