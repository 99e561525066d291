import Mathlib.Algebra.Group.Int.Defs
import Mathlib.Algebra.Group.Nat.Defs
import Sendword.Listing

/-!
# The pages of a list and their labels

The lists of executions and of attempts of a hook.  The rows are fetched for
the page that was asked for; the label is made for that page cut down to the
last one.
-/

namespace Sendword

open Paging

/-- An `i64`.  A result that does not fit is none: a debug build panics
there, and a release build goes on with another number. -/
def checkedI64 (value : Int) : Option Int :=
  if -(2 ^ 63) ≤ value ∧ value < 2 ^ 63 then some value else none

structure PaginationState where
  page : Int
  perPage : Int
  total : Int
  itemCount : Int
  deriving DecidableEq, Repr

namespace PaginationState

def totalPagesOf (total perPage : Int) : Option Int :=
  if total = 0 then some 1
  else
    (checkedI64 (total + perPage)).map fun sum => (sum - 1).tdiv perPage

def new (page perPage total itemCount : Int) : Option PaginationState :=
  let perPage := max perPage 1
  let total := max total 0
  (totalPagesOf total perPage).map fun totalPages =>
    { page := max 1 (min page totalPages)
      perPage
      total
      itemCount := max 0 (min itemCount perPage) }

variable (state : PaginationState)

def totalPages : Option Int := totalPagesOf state.total state.perPage

def startIndex : Option Int :=
  if state.total = 0 ∨ state.itemCount = 0 then some 0
  else
    (checkedI64 (state.page - 1)).bind fun before =>
      (checkedI64 (before * state.perPage)).bind fun skipped =>
        checkedI64 (skipped + 1)

def endIndex : Option Int :=
  if state.total = 0 ∨ state.itemCount = 0 then some 0
  else
    state.startIndex.bind fun start =>
      (checkedI64 (start + state.itemCount)).map fun behind =>
        min (behind - 1) state.total

def hasPrevious : Bool := decide (1 < state.page)

def hasNext : Option Bool :=
  state.totalPages.map fun totalPages => decide (state.page < totalPages)

end PaginationState

/-! ## The two lists -/

def executionsPerPage : Int := 20

def attemptsPerPage : Int := 20

def requestedPage (page : Option Int) : Int := max (page.getD 1) 1

def offsetOf (page perPage : Int) : Option Int :=
  (checkedI64 (page - 1)).bind fun before => checkedI64 (before * perPage)

structure PaginationParams where
  page : Option Int := none
  status : Option String := none
  fromDate : Option String := none
  toDate : Option String := none
  deriving DecidableEq, Repr

/-- A filter that is not empty. -/
def activeFilter (param : Option String) : Option String :=
  if (param.getD "").isEmpty then none else some (param.getD "")

def PaginationParams.filters (params : PaginationParams) :
    ExecutionFilters where
  status := activeFilter params.status
  fromDate := activeFilter params.fromDate
  toDate := activeFilter params.toDate

structure ExecutionListView where
  slug : String
  rows : List Execution
  pagination : PaginationState
  activeStatus : String
  activeFrom : String
  activeTo : String
  deriving DecidableEq, Repr

section

variable (text : Timestamp → TimestampText)

/-- With a date filter `limit + offset` rows are fetched. -/
def fetchLimit (filters : ExecutionFilters) (limit offset : Int) :
    Option Int :=
  if filters.dated then checkedI64 (limit + offset) else some limit

/-- The list of a hook that exists; each row is then rendered for itself. -/
def executionList (db : Db) (slug : String) (params : PaginationParams) :
    Option ExecutionListView :=
  let page := requestedPage params.page
  (offsetOf page executionsPerPage).bind fun offset =>
    let filters := params.filters
    let total := countByHookFiltered text db slug filters
    (fetchLimit filters executionsPerPage offset).bind fun _ =>
      let rows := listByHookFiltered text db slug filters
        executionsPerPage.toNat offset.toNat
      (PaginationState.new page executionsPerPage total rows.length).map
        fun pagination =>
          { slug
            rows
            pagination
            activeStatus := params.status.getD ""
            activeFrom := params.fromDate.getD ""
            activeTo := params.toDate.getD "" }

def TriggerAttemptStatus.parse (text : String) :
    Option TriggerAttemptStatus :=
  match text with
  | "fired" => some .fired
  | "auth_failed" => some .authFailed
  | "validation_failed" => some .validationFailed
  | "filtered" => some .filtered
  | "rate_limited" => some .rateLimited
  | "schedule_skipped" => some .scheduleSkipped
  | "cooldown_skipped" => some .cooldownSkipped
  | "concurrency_rejected" => some .concurrencyRejected
  | "pending_approval" => some .pendingApproval
  | _ => none

structure AttemptFilterParams where
  status : Option String := none
  page : Option Int := none
  deriving DecidableEq, Repr

/-- A status that is not known filters nothing. -/
def AttemptFilterParams.parsedStatus (params : AttemptFilterParams) :
    Option TriggerAttemptStatus :=
  (activeFilter params.status).bind TriggerAttemptStatus.parse

structure AttemptListView where
  slug : String
  rows : List TriggerAttempt
  pagination : PaginationState
  activeStatus : String
  deriving DecidableEq, Repr

/-- `ORDER BY attempted_at DESC`. -/
def newestAttemptFirst (left right : TriggerAttempt) : Prop :=
  (text right.attemptedAt).text ≤ (text left.attemptedAt).text

instance : DecidableRel (newestAttemptFirst text) :=
  fun left right =>
    inferInstanceAs (Decidable ((text right.attemptedAt).text ≤
      (text left.attemptedAt).text))

def attemptOf (slug : String) (status : Option TriggerAttemptStatus)
    (row : TriggerAttempt) : Bool :=
  row.hookSlug == slug && status.all fun status => row.status == status

/-- The attempts of a hook, and of a status where one is given, newest
first. -/
def hookAttempts (db : Db) (slug : String)
    (status : Option TriggerAttemptStatus) : List TriggerAttempt :=
  (db.attempts.filter (attemptOf slug status)).insertionSort
    (newestAttemptFirst text)

/-- `list_by_hook`, and `list_by_hook_filtered` with a status. -/
def listAttempts (db : Db) (slug : String)
    (status : Option TriggerAttemptStatus) (limit offset : Nat) :
    List TriggerAttempt :=
  window (hookAttempts text db slug status) limit offset

def countAttempts (db : Db) (slug : String)
    (status : Option TriggerAttemptStatus) : Nat :=
  db.attempts.countP (attemptOf slug status)

def triggerAttemptList (db : Db) (slug : String)
    (params : AttemptFilterParams) : Option AttemptListView :=
  let page := requestedPage params.page
  (offsetOf page attemptsPerPage).bind fun offset =>
    let status := params.parsedStatus
    let total := countAttempts db slug status
    let rows := listAttempts text db slug status attemptsPerPage.toNat
      offset.toNat
    (PaginationState.new page attemptsPerPage total rows.length).map
      fun pagination =>
        { slug, rows, pagination, activeStatus := params.status.getD "" }

end

/-! ## What a page shows -/

/-- The rows are those of the page that the label names, with the numbers
that it says, and the links lead to other rows exactly where there are
some. -/
structure ShowsItsLabel {α : Type} (filtered rows : List α)
    (pagination : PaginationState) : Prop where
  page : rows = window filtered pagination.perPage.toNat
    ((pagination.page - 1) * pagination.perPage).toNat
  numbered : ∃ first last, pagination.startIndex = some first ∧
    pagination.endIndex = some last ∧
    rows = (filtered.take last.toNat).drop (first.toNat - 1)
  previous : pagination.hasPrevious = true ↔
    filtered.take ((pagination.page - 1) * pagination.perPage).toNat ≠ []
  next : pagination.hasNext = some (decide
    (filtered.drop (((pagination.page - 1) * pagination.perPage).toNat +
      rows.length) ≠ []))

/-! ## The label of a page -/

theorem checkedI64_eq {value : Int} (low : -(2 ^ 63) ≤ value)
    (high : value < 2 ^ 63) : checkedI64 value = some value :=
  if_pos ⟨low, high⟩

section Labels

variable {α : Type} {filtered rows : List α} {number : Nat}
  {pagination : PaginationState}

/-- The last page of a list of this length. -/
def lastPage (length : Nat) : Nat :=
  if length = 0 then 1 else (length + 19) / 20

theorem totalPagesOf_eq {length : Nat} (few : length ≤ countLimit) :
    PaginationState.totalPagesOf length 20 = some (lastPage length : Int) := by
  unfold countLimit at few
  unfold PaginationState.totalPagesOf lastPage
  by_cases empty : length = 0
  · subst empty
    rfl
  · rw [if_neg (by omega), if_neg empty,
      checkedI64_eq (by omega) (by omega), Option.map_some,
      Int.tdiv_eq_ediv_of_nonneg (by omega)]
    congr 1
    omega

/-- What the label is made of, on pages of twenty. -/
theorem new_eq {length count : Nat} (few : length ≤ countLimit)
    (onPage : count ≤ 20) :
    PaginationState.new ((number : Int) + 1) 20 length count =
      some
        { page := min ((number : Int) + 1) (lastPage length)
          perPage := 20
          total := length
          itemCount := count } := by
  have somePage : 1 ≤ lastPage length := by
    unfold lastPage
    split <;> omega
  unfold PaginationState.new
  rw [max_eq_left (by omega : (1 : Int) ≤ 20),
    max_eq_left (Int.natCast_nonneg length)]
  dsimp only
  rw [totalPagesOf_eq few, Option.map_some]
  congr 2
  · omega
  · omega

/-- The label of a page that the list has. -/
theorem label_of_page (few : filtered.length ≤ countLimit)
    (inList : number * 20 < filtered.length) :
    ShowsItsLabel filtered (window filtered 20 (number * 20))
      { page := (number : Int) + 1
        perPage := 20
        total := filtered.length
        itemCount := (window filtered 20 (number * 20)).length } := by
  have length : (window filtered 20 (number * 20)).length =
      min 20 (filtered.length - number * 20) := by
    rw [window, List.length_take, List.length_drop]
  have behind : (((number : Int) + 1 - 1) * 20).toNat = number * 20 := by
    omega
  unfold countLimit at few
  have isFirst : PaginationState.startIndex
      { page := (number : Int) + 1
        perPage := 20
        total := filtered.length
        itemCount := (window filtered 20 (number * 20)).length } =
      some ((number : Int) * 20 + 1) := by
    unfold PaginationState.startIndex
    dsimp only
    rw [if_neg (by omega), checkedI64_eq (by omega) (by omega),
      Option.bind_some, checkedI64_eq (by omega) (by omega),
      Option.bind_some, checkedI64_eq (by omega) (by omega)]
    congr 1
    omega
  constructor
  · dsimp only
    rw [behind]
    rfl
  · refine ⟨_, min ((number : Int) * 20 + 20) filtered.length, isFirst, ?_, ?_⟩
    · unfold PaginationState.endIndex
      dsimp only
      rw [if_neg (by omega), isFirst, Option.bind_some,
        checkedI64_eq (by omega) (by omega), Option.map_some]
      congr 1
      omega
    · rw [show ((number : Int) * 20 + 1).toNat - 1 = number * 20 by omega,
        window, List.drop_take, List.take_eq_take_iff, List.length_drop]
      omega
  · unfold PaginationState.hasPrevious
    dsimp only
    rw [behind, decide_eq_true_iff]
    constructor
    · intro later empty
      have short := congrArg List.length empty
      rw [List.length_take, List.length_nil] at short
      omega
    · intro filled
      by_contra first
      rw [show number * 20 = 0 by omega] at filled
      exact filled rfl
  · rw [PaginationState.hasNext, PaginationState.totalPages,
      totalPagesOf_eq few, Option.map_some]
    dsimp only
    congr 1
    rw [behind, length, decide_eq_decide, ne_eq, List.drop_eq_nil_iff,
      lastPage, if_neg (by omega)]
    omega

/-- The label of a list without rows. -/
theorem label_of_nil :
    ShowsItsLabel ([] : List α) []
      { page := min ((number : Int) + 1) 1
        perPage := 20
        total := 0
        itemCount := 0 } := by
  have first : min ((number : Int) + 1) 1 = 1 := by omega
  rw [first]
  constructor
  · rfl
  · exact ⟨0, 0, rfl, rfl, rfl⟩
  · simp [PaginationState.hasPrevious]
  · rfl

/-- Rows that are fetched for the requested page bear their label exactly
when the page is one of the list, or there are no rows at all, and all of its
rows are fetched. -/
theorem showsItsLabel_iff (few : filtered.length ≤ countLimit)
    (cut : rows <+: window filtered 20 (number * 20))
    (isNew : PaginationState.new ((number : Int) + 1) 20 filtered.length
      rows.length = some pagination) :
    ShowsItsLabel filtered rows pagination ↔
      (filtered = [] ∨ number * 20 < filtered.length) ∧
        rows = window filtered 20 (number * 20) := by
  have onPage : rows.length ≤ 20 :=
    cut.length_le.trans (List.length_take_le _ _)
  rw [new_eq few onPage] at isNew
  cases isNew
  by_cases inList : number * 20 < filtered.length
  · have last : min ((number : Int) + 1) (lastPage filtered.length) =
        number + 1 := by
      rw [lastPage, if_neg (by omega)]
      omega
    rw [last]
    constructor
    · intro shows
      refine ⟨.inr inList, ?_⟩
      have page := shows.page
      rwa [show ((20 : Int).toNat) = 20 from rfl,
        show (((number : Int) + 1 - 1) * 20).toNat = number * 20 by omega]
        at page
    · rintro ⟨-, rfl⟩
      exact label_of_page few inList
  · have none : window filtered 20 (number * 20) = [] := by
      rw [window, List.drop_eq_nil_of_le (by omega), List.take_nil]
    rw [none] at cut
    obtain rfl := List.prefix_nil.mp cut
    rw [none]
    constructor
    · intro shows
      refine ⟨.inl ?_, rfl⟩
      by_contra filled
      have positive := List.length_pos_of_ne_nil filled
      have page := congrArg List.length shows.page
      rw [window, List.length_take, List.length_drop, lastPage,
        if_neg (by omega), List.length_nil] at page
      dsimp only at page
      omega
    · rintro ⟨rfl | late, -⟩
      · exact label_of_nil
      · exact (inList late).elim

end Labels

/-! ## The pages of the two lists -/

/-- The pages before the requested one. -/
def pagesBefore (page : Option Int) : Nat := (requestedPage page - 1).toNat

theorem requestedPage_eq (page : Option Int) :
    requestedPage page = (pagesBefore page : Int) + 1 := by
  unfold pagesBefore requestedPage
  omega

theorem offsetOf_eq (number : Nat) :
    offsetOf ((number : Int) + 1) 20 =
      if number * 20 < 2 ^ 63 then some ((number : Int) * 20) else none := by
  unfold offsetOf
  rw [Int.add_sub_cancel]
  by_cases fits : number * 20 < 2 ^ 63
  · rw [if_pos fits, checkedI64_eq (by omega) (by omega), Option.bind_some,
      checkedI64_eq (by omega) (by omega)]
  · rw [if_neg fits]
    unfold checkedI64
    split
    · rw [Option.bind_some, if_neg (by omega)]
    · rfl

/-- The requested page is one of the list; or the list is empty, and the
numbers of the page, up to the given row of it, fit. -/
def OnList (length number row : Nat) : Prop :=
  number * 20 < length ∨ length = 0 ∧ number * 20 + row < 2 ^ 63

section

variable {text : Timestamp → TimestampText} {db : Db} {slug : String}

theorem length_matching_le (few : db.executions.length ≤ countLimit)
    (filters : ExecutionFilters) :
    (matching text db slug filters).length ≤ countLimit := by
  unfold matching
  rw [List.length_insertionSort]
  exact (List.length_filter_le _ _).trans few

theorem countByHookFiltered_eq (few : db.executions.length ≤ countLimit)
    (filters : ExecutionFilters) :
    countByHookFiltered text db slug filters =
      (matching text db slug filters).length := by
  apply (countByHookFiltered_iff db slug filters).mpr
  intro _
  exact counts_of_length slug filters few

/-- The row up to which the numbers of a page must fit. -/
def lastFetched (filters : ExecutionFilters) : Nat :=
  if filters.dated then 20 else 0

theorem fetchLimit_isSome_iff (filters : ExecutionFilters) (number : Nat)
    (fits : number * 20 < 2 ^ 63) :
    (fetchLimit filters executionsPerPage ((number : Int) * 20)).isSome ↔
      number * 20 + lastFetched filters < 2 ^ 63 := by
  unfold fetchLimit lastFetched executionsPerPage
  cases filters.dated with
  | false => simpa using fits
  | true =>
      unfold checkedI64
      simp only [if_true]
      split
      · simp only [Option.isSome_some, true_iff]
        omega
      · simp only [Option.isSome_none, Bool.false_eq_true, false_iff]
        omega

theorem executionList_eq_some_iff (params : PaginationParams)
    (view : ExecutionListView) :
    executionList text db slug params = some view ↔
      pagesBefore params.page * 20 + lastFetched params.filters < 2 ^ 63 ∧
        ∃ pagination,
          PaginationState.new ((pagesBefore params.page : Int) + 1) 20
              (countByHookFiltered text db slug params.filters)
              (listByHookFiltered text db slug params.filters 20
                (pagesBefore params.page * 20)).length = some pagination ∧
            view =
              { slug
                rows := listByHookFiltered text db slug params.filters 20
                  (pagesBefore params.page * 20)
                pagination
                activeStatus := params.status.getD ""
                activeFrom := params.fromDate.getD ""
                activeTo := params.toDate.getD "" } := by
  unfold executionList
  dsimp only
  rw [requestedPage_eq, show offsetOf _ executionsPerPage = _ from
    offsetOf_eq (pagesBefore params.page)]
  generalize pagesBefore params.page = number
  by_cases fits : number * 20 < 2 ^ 63
  · have offset : ((number : Int) * 20).toNat = number * 20 := by omega
    have fetches := fetchLimit_isSome_iff params.filters number fits
    rw [if_pos fits, Option.bind_some, offset]
    cases fetched : fetchLimit params.filters executionsPerPage
        ((number : Int) * 20) with
    | none =>
        rw [fetched] at fetches
        apply iff_of_false
        · simp
        · rintro ⟨inside, -⟩
          exact Bool.noConfusion (fetches.mpr inside)
    | some limit =>
        rw [fetched] at fetches
        rw [Option.bind_some, Option.map_eq_some_iff]
        constructor
        · rintro ⟨pagination, isNew, rfl⟩
          exact ⟨fetches.mp rfl, pagination, isNew, rfl⟩
        · rintro ⟨-, pagination, isNew, rfl⟩
          exact ⟨pagination, isNew, rfl⟩
  · rw [if_neg fits]
    apply iff_of_false
    · simp
    · rintro ⟨inside, -⟩
      omega

theorem executionList_iff (few : db.executions.length ≤ countLimit)
    (params : PaginationParams) :
    (∃ view, executionList text db slug params = some view ∧
        ShowsItsLabel (matching text db slug params.filters) view.rows
          view.pagination) ↔
      OnList (matching text db slug params.filters).length
          (pagesBefore params.page) (lastFetched params.filters) ∧
        (params.filters.dated = true →
          Fetches text db slug params.filters 20
            (pagesBefore params.page * 20)) := by
  have short := @length_matching_le text db slug few params.filters
  have cut := @listByHookFiltered_rows text db slug params.filters 20
    (pagesBefore params.page * 20)
  have complete := @listByHookFiltered_iff text db slug
    params.filters 20 (pagesBefore params.page * 20)
  simp only [executionList_eq_some_iff, countByHookFiltered_eq few]
  generalize pagesBefore params.page = number at *
  rw [← complete]
  constructor
  · rintro ⟨view, ⟨fits, pagination, isNew, rfl⟩, shows⟩
    obtain ⟨inList, whole⟩ := (showsItsLabel_iff short cut isNew).mp shows
    refine ⟨?_, whole⟩
    rcases inList with empty | inList
    · exact .inr ⟨congrArg List.length empty, fits⟩
    · exact .inl inList
  · rintro ⟨onList, whole⟩
    have isNew := @new_eq number _ _ short
      (cut.length_le.trans (List.length_take_le _ _))
    refine ⟨_, ⟨?_, _, isNew, rfl⟩, ?_⟩
    · rcases onList with inList | ⟨-, fits⟩
      · have most : lastFetched params.filters ≤ 20 := by
          unfold lastFetched
          split <;> omega
        unfold countLimit at short
        omega
      · exact fits
    · apply (showsItsLabel_iff short cut isNew).mpr
      refine ⟨?_, whole⟩
      rcases onList with inList | ⟨empty, -⟩
      · exact .inr inList
      · exact .inl (List.eq_nil_of_length_eq_zero empty)

theorem length_hookAttempts (status : Option TriggerAttemptStatus) :
    (hookAttempts text db slug status).length =
      countAttempts db slug status := by
  unfold hookAttempts countAttempts
  rw [List.length_insertionSort, List.countP_eq_length_filter]

theorem triggerAttemptList_eq_some_iff (params : AttemptFilterParams)
    (view : AttemptListView) :
    triggerAttemptList text db slug params = some view ↔
      pagesBefore params.page * 20 < 2 ^ 63 ∧
        ∃ pagination,
          PaginationState.new ((pagesBefore params.page : Int) + 1) 20
              (countAttempts db slug params.parsedStatus)
              (listAttempts text db slug params.parsedStatus 20
                (pagesBefore params.page * 20)).length = some pagination ∧
            view =
              { slug
                rows := listAttempts text db slug params.parsedStatus 20
                  (pagesBefore params.page * 20)
                pagination
                activeStatus := params.status.getD "" } := by
  unfold triggerAttemptList
  dsimp only
  rw [requestedPage_eq, show offsetOf _ attemptsPerPage = _ from
    offsetOf_eq (pagesBefore params.page)]
  generalize pagesBefore params.page = number
  by_cases fits : number * 20 < 2 ^ 63
  · have offset : ((number : Int) * 20).toNat = number * 20 := by omega
    rw [if_pos fits, Option.bind_some, offset, Option.map_eq_some_iff]
    constructor
    · rintro ⟨pagination, isNew, rfl⟩
      exact ⟨fits, pagination, isNew, rfl⟩
    · rintro ⟨-, pagination, isNew, rfl⟩
      exact ⟨pagination, isNew, rfl⟩
  · rw [if_neg fits]
    apply iff_of_false
    · simp
    · rintro ⟨inside, -⟩
      exact fits inside

theorem triggerAttemptList_iff (few : db.attempts.length ≤ countLimit)
    (params : AttemptFilterParams) :
    (∃ view, triggerAttemptList text db slug params = some view ∧
        ShowsItsLabel (hookAttempts text db slug params.parsedStatus) view.rows
          view.pagination) ↔
      OnList (hookAttempts text db slug params.parsedStatus).length
        (pagesBefore params.page) 0 := by
  have short : (hookAttempts text db slug params.parsedStatus).length ≤
      countLimit := by
    rw [length_hookAttempts]
    exact List.countP_le_length.trans few
  have cut : listAttempts text db slug params.parsedStatus 20
      (pagesBefore params.page * 20) <+: window (hookAttempts text db slug
        params.parsedStatus) 20 (pagesBefore params.page * 20) :=
    List.prefix_rfl
  simp only [triggerAttemptList_eq_some_iff,
    ← @length_hookAttempts text]
  generalize pagesBefore params.page = number at *
  constructor
  · rintro ⟨view, ⟨fits, pagination, isNew, rfl⟩, shows⟩
    rcases ((showsItsLabel_iff short cut isNew).mp shows).1 with
      empty | inList
    · exact .inr ⟨congrArg List.length empty, fits⟩
    · exact .inl inList
  · intro onList
    have isNew := @new_eq number _ _ short
      (cut.length_le.trans (List.length_take_le _ _))
    refine ⟨_, ⟨?_, _, isNew, rfl⟩, ?_⟩
    · rcases onList with inList | ⟨-, fits⟩
      · unfold countLimit at short
        omega
      · exact fits
    · apply (showsItsLabel_iff short cut isNew).mpr
      refine ⟨?_, rfl⟩
      rcases onList with inList | ⟨empty, -⟩
      · exact .inr inList
      · exact .inl (List.eq_nil_of_length_eq_zero empty)

end

/-- A page of the executions or of the attempts shows what its label says
exactly when it is not past the end of its list; and, for the executions with
a date filter, when all of its rows are fetched. -/
theorem listPages_iff
    (text : Timestamp → TimestampText)
    (db : Db)
    (slug : String)
    (few : db.executions.length ≤ countLimit)
    (fewAttempts : db.attempts.length ≤ countLimit) :
    (∀ params : PaginationParams,
      (∃ view, executionList text db slug params = some view ∧
          ShowsItsLabel (matching text db slug params.filters) view.rows
            view.pagination) ↔
        OnList (matching text db slug params.filters).length
            (pagesBefore params.page) (lastFetched params.filters) ∧
          (params.filters.dated = true →
            Fetches text db slug params.filters 20
              (pagesBefore params.page * 20))) ∧
      ∀ params : AttemptFilterParams,
        (∃ view, triggerAttemptList text db slug params = some view ∧
            ShowsItsLabel (hookAttempts text db slug params.parsedStatus)
              view.rows view.pagination) ↔
          OnList (hookAttempts text db slug params.parsedStatus).length
            (pagesBefore params.page) 0 :=
  ⟨executionList_iff few, triggerAttemptList_iff fewAttempts⟩

/-- The second of the two days, on the first page. -/
theorem listPages_iff_twoDays :
    ∃ view, executionList noon twoDays "deploy" { page := some 1 } =
        some view ∧
      ShowsItsLabel (matching noon twoDays "deploy"
        ({ page := some 1 } : PaginationParams).filters) view.rows
        view.pagination := by
  apply ((listPages_iff noon twoDays "deploy" (by decide) (by decide)).1
    { page := some 1 }).mpr
  constructor
  · left
    decide
  · intro dated
    cases dated

/-- The second page of a list of one page. -/
theorem not_listPages :
    ¬∀ (text : Timestamp → TimestampText) (db : Db) (slug : String)
        (params : PaginationParams),
      db.executions.length ≤ countLimit →
      ∃ view, executionList text db slug params = some view ∧
        ShowsItsLabel (matching text db slug params.filters) view.rows
          view.pagination := by
  intro always
  have shown := always noon twoDays "deploy" { page := some 2 } (by decide)
  obtain ⟨onList, -⟩ := (executionList_iff (by decide) _).mp shown
  revert onList
  unfold OnList
  decide

end Sendword
