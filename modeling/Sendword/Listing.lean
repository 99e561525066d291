import Mathlib.Data.String.Basic
import Sendword.Paging
import Sendword.Store.Tables

/-!
# The execution list of a hook

`list_by_hook_filtered` and `count_by_hook_filtered`.  The status is filtered
in SQL, the dates afterwards on the rows the query returned.
-/

namespace Sendword

open Paging

/-- The text of a `triggered_at` column.  `timestamp::now_utc` writes digits
and punctuation only, so a slice never cuts a character. -/
structure TimestampText where
  text : String
  ascii : ∀ char ∈ text.toList, char.toNat < 128

structure ExecutionFilters where
  status : Option String := none
  fromDate : Option String := none
  toDate : Option String := none
  deriving DecidableEq, Repr

section

variable (text : Timestamp → TimestampText)

/-- The text of the column in a row. -/
def Execution.triggeredText (row : Execution) : String :=
  (text row.triggeredAt).text

/-- `ORDER BY triggered_at DESC`.  Rows of one time keep the order of the
table. -/
def newestFirst (left right : Execution) : Prop :=
  right.triggeredText text ≤ left.triggeredText text

instance : DecidableRel (newestFirst text) :=
  fun left right =>
    inferInstanceAs (Decidable (right.triggeredText text ≤
      left.triggeredText text))

instance : IsTrans Execution (newestFirst text) :=
  ⟨fun _ _ _ first second => le_trans second first⟩

instance : Std.Total (newestFirst text) :=
  ⟨fun left right =>
    le_total (right.triggeredText text) (left.triggeredText text)⟩

/-- The `WHERE` clause with and without a status. -/
def ofHook (slug : String) (status : Option String) (row : Execution) :
    Bool :=
  row.hookSlug == slug && status.all fun status => row.status.text == status

/-- The rows of a hook, and of a status where one is given, newest first. -/
def candidates (db : Db) (slug : String) (status : Option String) :
    List Execution :=
  (db.executions.filter (ofHook slug status)).insertionSort
    (newestFirst text)

def selectByHook (db : Db) (slug : String) (status : Option String)
    (limit offset : Nat) : List Execution :=
  window (candidates text db slug status) limit offset

/-- List executions for a specific hook, paginated. -/
def listByHook (db : Db) (slug : String) (limit offset : Nat) :
    List Execution :=
  selectByHook text db slug none limit offset

/-- The date range that is applied to the fetched rows. -/
def ExecutionFilters.inRange (filters : ExecutionFilters)
    (row : Execution) : Bool :=
  let triggered := row.triggeredText text
  if filters.fromDate.any fun fromDate => decide (triggered < fromDate) then
    false
  else
    match filters.toDate with
    | none => true
    | some toDate =>
        -- everything up to and including the day of `to_date`
        let day := String.ofList (triggered.toList.take
          (min toDate.utf8ByteSize triggered.utf8ByteSize))
        !decide (toDate < day)

/-- List executions for a hook with optional filters. -/
def listByHookFiltered (db : Db) (slug : String)
    (filters : ExecutionFilters) (limit offset : Nat) : List Execution :=
  match filters.status, filters.fromDate, filters.toDate with
  | none, none, none => listByHook text db slug limit offset
  | some status, none, none =>
      selectByHook text db slug (some status) limit offset
  | status, _, _ =>
      -- fetch enough to satisfy offset
      let fetched := selectByHook text db slug status (limit + offset) 0
      window (fetched.filter (filters.inRange text)) limit offset

/-- `i64::MAX / 2`. -/
def countLimit : Nat := (2 ^ 63 - 1) / 2

def countByHook (db : Db) (slug : String) : Nat :=
  db.executions.countP fun row => row.hookSlug == slug

/-- Count executions for a hook with optional filters. -/
def countByHookFiltered (db : Db) (slug : String)
    (filters : ExecutionFilters) : Nat :=
  match filters.status, filters.fromDate, filters.toDate with
  | none, none, none => countByHook db slug
  | some status, none, none =>
      db.executions.countP (ofHook slug (some status))
  | _, _, _ =>
      (listByHookFiltered text db slug filters countLimit 0).length

/-! ## What is listed -/

/-- The rows a listing is about, newest first. -/
def matching (db : Db) (slug : String) (filters : ExecutionFilters) :
    List Execution :=
  (db.executions.filter fun row =>
    ofHook slug filters.status row && filters.inRange text row).insertionSort
      (newestFirst text)

def ExecutionFilters.dated (filters : ExecutionFilters) : Bool :=
  filters.fromDate.isSome || filters.toDate.isSome

/-- The first `limit + offset` rows of the hook hold as many rows in range as
the page and the pages before it have. -/
def Fetches (db : Db) (slug : String) (filters : ExecutionFilters)
    (limit offset : Nat) : Prop :=
  min limit ((matching text db slug filters).length - offset) ≤
    ((candidates text db slug filters.status).take (limit + offset)).countP
      (filters.inRange text) - offset

/-- The first `i64::MAX / 2` rows of the hook hold all rows in range. -/
def Counts (db : Db) (slug : String) (filters : ExecutionFilters) : Prop :=
  (matching text db slug filters).length ≤
    ((candidates text db slug filters.status).take countLimit).countP
      (filters.inRange text)

variable {text}

theorem inRange_of_undated {filters : ExecutionFilters}
    (undated : filters.dated = false) (row : Execution) :
    filters.inRange text row = true := by
  obtain ⟨status, fromDate, toDate⟩ := filters
  cases fromDate <;> cases toDate <;> simp_all [ExecutionFilters.dated,
    ExecutionFilters.inRange]

theorem matching_eq (db : Db) (slug : String) (filters : ExecutionFilters) :
    matching text db slug filters =
      (candidates text db slug filters.status).filter
        (filters.inRange text) := by
  rw [candidates, filter_insertionSort, List.filter_filter, matching]
  refine congrArg (List.insertionSort _) (List.filter_congr ?_)
  intro row member
  exact Bool.and_comm _ _

theorem matching_of_undated {filters : ExecutionFilters}
    (undated : filters.dated = false) (db : Db) (slug : String) :
    matching text db slug filters =
      candidates text db slug filters.status := by
  rw [matching_eq, List.filter_eq_self]
  exact fun row member => inRange_of_undated undated row

/-- Without dates the query does all the work. -/
theorem listByHookFiltered_of_undated {filters : ExecutionFilters}
    (undated : filters.dated = false) (db : Db) (slug : String)
    (limit offset : Nat) :
    listByHookFiltered text db slug filters limit offset =
      window (matching text db slug filters) limit offset := by
  rw [matching_of_undated undated]
  obtain ⟨status, fromDate, toDate⟩ := filters
  cases fromDate with
  | some fromDate => cases undated
  | none =>
      cases toDate with
      | some toDate => cases undated
      | none => cases status <;> rfl

/-- With dates the window is cut from the fetched rows that are in range. -/
theorem listByHookFiltered_of_dated {filters : ExecutionFilters}
    (dated : filters.dated = true) (db : Db) (slug : String)
    (limit offset : Nat) :
    listByHookFiltered text db slug filters limit offset =
      window ((matching text db slug filters).take
        (((candidates text db slug filters.status).take
          (limit + offset)).countP (filters.inRange text)))
        limit offset := by
  rw [matching_eq, ← filter_take]
  obtain ⟨status, fromDate, toDate⟩ := filters
  cases fromDate with
  | some fromDate => cases status <;> rfl
  | none =>
      cases toDate with
      | some toDate => cases status <;> rfl
      | none => cases dated

theorem listByHookFiltered_rows (db : Db) (slug : String)
    (filters : ExecutionFilters) (limit offset : Nat) :
    listByHookFiltered text db slug filters limit offset <+:
      window (matching text db slug filters) limit offset := by
  cases dated : filters.dated with
  | false =>
      have same := @listByHookFiltered_of_undated text _ dated db slug limit
        offset
      exact same ▸ List.prefix_rfl
  | true =>
      rw [listByHookFiltered_of_dated dated]
      exact window_take_take _ _ _ _

theorem listByHookFiltered_iff (db : Db) (slug : String)
    (filters : ExecutionFilters) (limit offset : Nat) :
    listByHookFiltered text db slug filters limit offset =
        window (matching text db slug filters) limit offset ↔
      (filters.dated = true → Fetches text db slug filters limit offset) := by
  cases dated : filters.dated with
  | false =>
      rw [listByHookFiltered_of_undated dated]
      simp
  | true =>
      rw [listByHookFiltered_of_dated dated, window_take_eq_iff]
      simp [Fetches]

theorem countByHookFiltered_of_undated {filters : ExecutionFilters}
    (undated : filters.dated = false) (db : Db) (slug : String) :
    countByHookFiltered text db slug filters =
      (matching text db slug filters).length := by
  rw [matching_of_undated undated, candidates, List.length_insertionSort,
    ← List.countP_eq_length_filter]
  obtain ⟨status, fromDate, toDate⟩ := filters
  cases fromDate with
  | some fromDate => cases undated
  | none =>
      cases toDate with
      | some toDate => cases undated
      | none =>
          cases status with
          | some status => rfl
          | none =>
              refine List.countP_congr ?_
              intro row member
              simp [ofHook]

theorem countByHookFiltered_of_dated {filters : ExecutionFilters}
    (dated : filters.dated = true) (db : Db) (slug : String) :
    countByHookFiltered text db slug filters =
      (listByHookFiltered text db slug filters countLimit 0).length := by
  obtain ⟨status, fromDate, toDate⟩ := filters
  cases fromDate with
  | some fromDate => cases status <;> rfl
  | none =>
      cases toDate with
      | some toDate => cases status <;> rfl
      | none => cases dated

theorem countByHookFiltered_iff (db : Db) (slug : String)
    (filters : ExecutionFilters) :
    countByHookFiltered text db slug filters =
        (matching text db slug filters).length ↔
      (filters.dated = true → Counts text db slug filters) := by
  cases dated : filters.dated with
  | false =>
      rw [countByHookFiltered_of_undated dated]
      simp
  | true =>
      have few : ((candidates text db slug filters.status).take
          countLimit).countP (filters.inRange text) ≤ countLimit :=
        Nat.le_trans List.countP_le_length (List.length_take_le _ _)
      rw [countByHookFiltered_of_dated dated,
        listByHookFiltered_of_dated dated, window, Counts]
      simp only [List.drop_zero, Nat.add_zero, List.length_take,
        true_implies]
      omega

/-- A table of a realistic size is counted completely. -/
theorem counts_of_length {db : Db} (slug : String)
    (filters : ExecutionFilters)
    (few : db.executions.length ≤ countLimit) :
    Counts text db slug filters := by
  have all : (candidates text db slug filters.status).length ≤ countLimit := by
    rw [candidates, List.length_insertionSort]
    exact Nat.le_trans (List.length_filter_le _ _) few
  rw [Counts, List.take_of_length_le all, matching_eq,
    List.countP_eq_length_filter]

/-- The rows listed are those of the hook that pass all filters, the newest
first. -/
theorem matching_spec (db : Db) (slug : String)
    (filters : ExecutionFilters) :
    (matching text db slug filters).Perm (db.executions.filter fun row =>
        ofHook slug filters.status row && filters.inRange text row) ∧
      (matching text db slug filters).Pairwise (newestFirst text) :=
  ⟨List.perm_insertionSort _ _, List.pairwise_insertionSort _ _⟩

/-- The listing agrees with its reference exactly when no date is given or
the rows fetched before the date filter suffice; and then the pages give
the whole list. -/
theorem listing_iff (text : Timestamp → TimestampText) (db : Db)
    (slug : String) (filters : ExecutionFilters) :
    (∀ limit offset,
      (listByHookFiltered text db slug filters limit offset =
            window (matching text db slug filters) limit offset ∧
          countByHookFiltered text db slug filters =
            (matching text db slug filters).length ↔
        (filters.dated = true → Fetches text db slug filters limit offset ∧
          Counts text db slug filters))) ∧
      ∀ size count, (matching text db slug filters).length ≤ count * size →
        (pages (listByHookFiltered text db slug filters size) size 0 count =
            matching text db slug filters ↔
          (filters.dated = true → ∀ page, page < count →
            Fetches text db slug filters size (page * size))) := by
  constructor
  · intro limit offset
    rw [listByHookFiltered_iff, countByHookFiltered_iff]
    constructor
    · intro both dated
      exact ⟨both.1 dated, both.2 dated⟩
    · intro both
      exact ⟨fun dated => (both dated).1, fun dated => (both dated).2⟩
  · intro size count covered
    have complete := pages_eq_iff (fun offset =>
      @listByHookFiltered_rows text db slug filters size offset)
      0 count (by simpa using covered)
    rw [Nat.zero_mul, List.drop_zero] at complete
    rw [complete]
    constructor
    · intro pages dated page inside
      have here := pages page (Nat.zero_le page) (by omega)
      exact (listByHookFiltered_iff db slug filters _ _).mp here dated
    · intro fetched page _ inside
      refine (listByHookFiltered_iff db slug filters _ _).mpr ?_
      intro dated
      exact fetched dated page (by omega)

end

theorem ascii_of_all {text : List Char}
    (all : (text.all fun char => decide (char.toNat < 128)) = true) :
    ∀ char ∈ text, char.toNat < 128 :=
  fun char member => of_decide_eq_true (List.all_eq_true.mp all char member)

/-- Noon of two days. -/
def noon (time : Timestamp) : TimestampText :=
  if time = 0 then ⟨"2026-04-11T12:00:00.000Z", ascii_of_all (by decide)⟩
  else ⟨"2026-04-12T12:00:00.000Z", ascii_of_all (by decide)⟩

def noonRow (id : String) (triggeredAt : Timestamp) : Execution :=
  { id
    hookSlug := "deploy"
    triggeredAt
    logPath := "data/logs"
    triggerSource := "127.0.0.1"
    requestPayload := "{}" }

def twoDays : Db :=
  { executions := [noonRow "first" 0, noonRow "second" 1] }

/-- The first page of the executions up to the first day. -/
theorem not_listed : ¬ ∀ text db slug filters limit offset,
    listByHookFiltered text db slug filters limit offset =
        window (matching text db slug filters) limit offset ∧
      countByHookFiltered text db slug filters =
        (matching text db slug filters).length := by
  intro listed
  have page := (listed noon twoDays "deploy"
    { toDate := some "2026-04-11" } 1 0).1
  revert page
  decide

/-- The executions up to the first day on one page, which has room for both
days, and both days in pages of one row. -/
theorem listing_twoDays :
    listByHookFiltered noon twoDays "deploy"
        { toDate := some "2026-04-11" } 2 0 = [noonRow "first" 0] ∧
      countByHookFiltered noon twoDays "deploy"
        { toDate := some "2026-04-11" } = 1 ∧
      pages (listByHookFiltered noon twoDays "deploy" {} 1) 1 0 2 =
        [noonRow "second" 1, noonRow "first" 0] := by
  have counts : Counts noon twoDays "deploy"
      { toDate := some "2026-04-11" } := counts_of_length _ _ (by decide)
  have fetches : Fetches noon twoDays "deploy"
      { toDate := some "2026-04-11" } 2 0 := by
    unfold Fetches
    decide
  obtain ⟨page, count⟩ := ((listing_iff noon twoDays "deploy"
    { toDate := some "2026-04-11" }).1 2 0).mpr fun _ => ⟨fetches, counts⟩
  have both := ((listing_iff noon twoDays "deploy" {}).2 1 2
    (by decide)).mpr fun dated => by cases dated
  rw [page, count, both]
  decide

end Sendword
