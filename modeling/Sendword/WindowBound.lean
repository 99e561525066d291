import Sendword.Concurrency.Amid
import Sendword.RateSweep
import Sendword.Sequential
import Sendword.Validation

/-!
# How much a fixed window lets through

A sequence of `evaluate_at` calls for one hook, while other tasks leave the
counters of the hook alone.  A window counts in buckets of whole seconds, so
an interval as long as the window can meet two buckets or three.
-/

namespace Sendword

open Concurrency

/-- The counters of a hook, by the start of the bucket. -/
def countersOf (slug : String) (world : World) (start : Int) :
    List CounterRow :=
  world.db.countersIn (slug, start)

/-- A run among tasks that leave the counters of one hook alone. -/
abbrev RunsCounting {α : Type} (slug : String) (program : Async α)
    (world : World) (trace : List (Event Op.Answer)) (value : α)
    (after : World) : Prop :=
  Runs (amid (countersOf slug) perform) program world trace value after

/-- The counter of a bucket of the hook. -/
def counterOf (slug : String) (world : World) (start : Int) : Int :=
  world.db.counter (slug, start)

/-- The primary key of the counters. -/
def OneCounter (slug : String) (world : World) : Prop :=
  ∀ start, (countersOf slug world start).length ≤ 1

variable {outside : Outside} {slug : String} {config : TriggerRateLimit}
  {world after : World} {trace : List (Event Op.Answer)}

/-! ## One call -/

/-- A counter in the column of counters. -/
def headCount (rows : List CounterRow) : Int :=
  (rows.head?.map (·.count)).getD 0

theorem counterOf_eq (start : Int) :
    counterOf slug world start = headCount (countersOf slug world start) :=
  rfl

theorem counting_insert {start : Int} {answer : DbResult Nat}
    (runs : RunsCounting slug (sql (.counter (.insertOrIgnore slug start)))
      world trace answer after) :
    ∀ other, countersOf slug after other =
      if other = start ∧ countersOf slug world other = [] then
        [{ hookSlug := slug, windowStart := start }]
      else countersOf slug world other := by
  obtain ⟨-, choice, performed⟩ := runs_single.mp runs
  refine amid_part (fun before _ left => ∀ other, left other =
    if other = start ∧ before other = [] then
      [{ hookSlug := slug, windowStart := start }]
    else before other) ?_ performed
  intro choice before answer final performed other
  cases performed
  refine (countersIn_insert before.db slug start (slug, other)).trans ?_
  by_cases fresh : other = start ∧ before.db.countersIn (slug, other) = []
  · rw [if_pos ⟨congrArg (Prod.mk slug) fresh.1, fresh.2⟩]
    exact (if_pos fresh).symm
  · rw [if_neg fun both => fresh ⟨congrArg Prod.snd both.1, both.2⟩]
    exact (if_neg fresh).symm

theorem counting_increment {start limit : Int} {answer : DbResult Nat}
    (runs : RunsCounting slug (sql (.counter (.increment slug start limit)))
      world trace answer after) :
    answer = .ok ((countersOf slug world start).countP fun row =>
      decide (row.count < limit)) ∧
      ∀ other, countersOf slug after other =
        if other = start then
          (countersOf slug world other).map (·.spend (slug, start) limit)
        else countersOf slug world other := by
  obtain ⟨-, choice, performed⟩ := runs_single.mp runs
  refine amid_part (fun before answer left =>
    answer = .ok ((before start).countP fun row =>
      decide (row.count < limit)) ∧
      ∀ other, left other =
        if other = start then (before other).map (·.spend (slug, start) limit)
        else before other) ?_ performed
  intro choice before answer final performed
  cases performed
  refine ⟨?_, fun other => ?_⟩
  · exact congrArg Except.ok (countP_below before.db slug start limit)
  · refine (countersIn_increment before.db slug start limit
      (slug, other)).trans ?_
    by_cases same : other = start
    · simp [countersOf, same]
    · simp [countersOf, same]

/-- The row of a bucket after the increment. -/
theorem spend_count {start limit : Int} {row : CounterRow}
    (here : row.bucket = (slug, start)) :
    (row.spend (slug, start) limit).count =
      row.count + if row.count < limit then 1 else 0 := by
  have sameKey : (row.hookSlug == slug && row.windowStart == start) = true :=
    (bucket_beq row slug start).trans (beq_iff_eq.mpr here)
  unfold CounterRow.spend CounterStatement.below
  rw [sameKey]
  by_cases below : row.count < limit
  · simp [below]
  · simp [below]

/-- One call counts in its bucket when it finds the counter below the
limit. -/
theorem counting_evaluateAt {now : Int} {outcome : EvalOutcome}
    (single : OneCounter slug world)
    (runs : RunsCounting slug
      (RateLimit.evaluateAt outside slug config now) world trace outcome
      after) :
    OneCounter slug after ∧
      outcome.allows = decide (counterOf slug world
        (RateLimit.windowStart config.window now) <
          RateLimit.asI64 config.maxRequests) ∧
      ∀ start, counterOf slug after start = counterOf slug world start +
        if start = RateLimit.windowStart config.window now ∧
          outcome.allows = true then 1 else 0 := by
  obtain ⟨_, inserted, opened, _, rfl, inserts, counts⟩ := runs_bind.mp runs
  obtain ⟨_, counted, last, _, rfl, increments, ended⟩ :=
    runs_bind.mp counts
  obtain ⟨-, rfl, rfl⟩ := runs_pure.mp ended
  have rows := counting_insert inserts
  obtain ⟨rfl, spent⟩ := counting_increment increments
  generalize RateLimit.windowStart config.window now = own at *
  generalize RateLimit.asI64 config.maxRequests = limit at *
  -- the insertion leaves one row with the counter it found
  obtain ⟨row, alone, here, count⟩ : ∃ row : CounterRow,
      countersOf slug opened own = [row] ∧ row.bucket = (slug, own) ∧
        row.count = counterOf slug world own := by
    cases found : countersOf slug world own with
    | nil =>
        refine ⟨_, (rows own).trans (if_pos ⟨rfl, found⟩), rfl, ?_⟩
        rw [counterOf_eq, found]
        rfl
    | cons row others =>
        have short := single own
        rw [found, List.length_cons] at short
        obtain rfl : others = [] :=
          List.eq_nil_of_length_eq_zero (by omega)
        refine ⟨row, (rows own).trans ?_, ?_, ?_⟩
        · rw [if_neg (by simp [found]), found]
        · have member : row ∈ countersOf slug world own := by simp [found]
          simpa using (List.mem_filter.mp member).2
        · rw [counterOf_eq, found]
          rfl
  have elsewhere (start : Int) (other : start ≠ own) :
      countersOf slug after start = countersOf slug world start := by
    rw [spent, if_neg other, rows, if_neg fun both => other both.1]
  have left : countersOf slug after own = [row.spend (slug, own) limit] := by
    rw [spent, if_pos rfl, alone]
    rfl
  have allows : (RateLimit.outcomeOf outside config (.ok
      ((countersOf slug opened own).countP fun row =>
        decide (row.count < limit)))).allows =
          decide (counterOf slug world own < limit) := by
    rw [outcomeOf_allows, alone, ← count]
    by_cases below : row.count < limit
    · simp [below]
    · simp [below]
  refine ⟨fun start => ?_, allows, fun start => ?_⟩
  · by_cases same : start = own
    · rw [same, left]
      rfl
    · rw [elsewhere start same]
      exact single start
  · rw [allows]
    by_cases same : start = own
    · subst same
      rw [counterOf_eq, left, ← count]
      refine (spend_count here).trans ?_
      simp
    · rw [counterOf_eq, elsewhere start same, if_neg fun both => same both.1,
        Int.add_zero, counterOf_eq]

/-! ## A sequence of calls -/

/-- The calls of a hook with their instants and outcomes, in the order in
which they are made: the clock does not run backwards. -/
inductive CallsMade (outside : Outside) (slug : String)
    (config : TriggerRateLimit) (start : World) :
    List (Instant × EvalOutcome) → World → Prop where
  | nil : CallsMade outside slug config start [] start
  | snoc {calls : List (Instant × EvalOutcome)} {world after : World}
      {now : Instant} {trace : List (Event Op.Answer)}
      {outcome : EvalOutcome} :
      CallsMade outside slug config start calls world →
      (∀ call ∈ calls, call.1 ≤ now) →
      (now : Int) / 1000000000 ≤ chronoLatest →
      RunsCounting slug (RateLimit.evaluateAt outside slug config now) world
        trace outcome after →
      CallsMade outside slug config start (calls ++ [(now, outcome)]) after

/-- The calls allowed in a bucket. -/
def allowedIn (config : TriggerRateLimit)
    (calls : List (Instant × EvalOutcome)) (start : Int) : Nat :=
  calls.countP fun call =>
    call.2.allows && RateLimit.windowStart config.window call.1 == start

/-- The calls allowed in a half-open interval of the length of the window. -/
def allowedFrom (config : TriggerRateLimit)
    (calls : List (Instant × EvalOutcome)) (first : Int) : Nat :=
  calls.countP fun call =>
    call.2.allows && decide (first ≤ call.1 ∧ call.1 < first + config.window)

/-- The counters of the hook at the beginning. -/
structure Countable (slug : String) (world : World) : Prop where
  single : OneCounter slug world
  nonnegative : ∀ start, 0 ≤ counterOf slug world start

section Calls

variable {start : World} {calls : List (Instant × EvalOutcome)}

/-- The counters after the calls. -/
structure Counted (slug : String) (config : TriggerRateLimit)
    (start : World) (calls : List (Instant × EvalOutcome)) (world : World) :
    Prop where
  single : OneCounter slug world
  counter : ∀ bucket, counterOf slug world bucket =
    counterOf slug start bucket + allowedIn config calls bucket
  limited : ∀ bucket, allowedIn config calls bucket = 0 ∨
    counterOf slug world bucket ≤ RateLimit.asI64 config.maxRequests

theorem CallsMade.counted (countable : Countable slug start)
    (made : CallsMade outside slug config start calls world) :
    Counted slug config start calls world := by
  induction made with
  | nil =>
      exact ⟨countable.single, by simp [allowedIn], by simp [allowedIn]⟩
  | @snoc calls world after now trace outcome _ _ _ runs induction =>
      obtain ⟨single, allows, counter⟩ :=
        counting_evaluateAt induction.single runs
      have grown (bucket : Int) :
          allowedIn config (calls ++ [(now, outcome)]) bucket =
            allowedIn config calls bucket +
              if bucket = RateLimit.windowStart config.window now ∧
                outcome.allows = true then 1 else 0 := by
        rw [allowedIn, List.countP_append, allowedIn]
        congr 1
        grind
      refine ⟨single, fun bucket => ?_, fun bucket => ?_⟩
      · rw [counter, induction.counter, grown]
        split
        · push_cast
          exact Int.add_assoc _ _ _
        · simp
      · rw [grown, counter]
        by_cases here : bucket = RateLimit.windowStart config.window now ∧
            outcome.allows = true
        · rw [if_pos here, if_pos here, here.1]
          rw [here.2] at allows
          have below := of_decide_eq_true allows.symm
          exact .inr (by omega)
        · rw [if_neg here, if_neg here]
          simpa using induction.limited bucket

/-- A bucket lets through as many calls as the limit says. -/
theorem CallsMade.allowedIn_le (countable : Countable slug start)
    (made : CallsMade outside slug config start calls world) (bucket : Int) :
    allowedIn config calls bucket ≤ config.maxRequests := by
  have counted := made.counted countable
  have low := countable.nonnegative bucket
  have atMost := asI64_le config.maxRequests
  have counter := counted.counter bucket
  rcases counted.limited bucket with none | limited
  · omega
  · omega

/-! ## Intervals and buckets -/

/-- The length of a bucket in nanoseconds: whole seconds of the window, and
at least one. -/
def bucketLength (window : Duration) : Nat :=
  max (window / 1000000000) 1 * 1000000000

/-- The buckets of the instants that the clock can show. -/
theorem windowStart_eq {window : Duration} {now : Instant}
    (latest : (now : Int) / 1000000000 ≤ chronoLatest) :
    RateLimit.windowStart window now =
      (now / bucketLength window * max (window / 1000000000) 1 : Nat) := by
  have isSeconds : (now : Int) / 1000000000 = (now / 1000000000 : Nat) := rfl
  rw [windowStart_of_seconds isSeconds latest, bucketSeconds,
    Nat.div_div_eq_div_mul, Nat.mul_comm 1000000000, bucketLength]

/-- Calls that fall into two buckets. -/
theorem allowedFrom_le_add {first low high : Int}
    (covered : ∀ call ∈ calls, first ≤ call.1 →
      (call.1 : Int) < first + config.window →
      RateLimit.windowStart config.window call.1 = low ∨
        RateLimit.windowStart config.window call.1 = high) :
    allowedFrom config calls first ≤
      allowedIn config calls low + allowedIn config calls high := by
  unfold allowedFrom allowedIn
  induction calls with
  | nil => simp
  | cons call calls induction =>
      have rest := induction fun other member =>
        covered other (List.mem_cons_of_mem _ member)
      have here := covered call List.mem_cons_self
      simp only [List.countP_cons]
      grind

/-- The buckets of an interval that is one nanosecond longer than a bucket,
at most. -/
theorem two_buckets {length window now : Nat} {first : Int}
    (positive : 0 < length) (short : window ≤ length + 1)
    (after : first ≤ now) (before : (now : Int) < first + window) :
    now / length = first.toNat / length ∨
      now / length = first.toNat / length + 1 := by
  have low : first.toNat ≤ now := by omega
  have high : now ≤ first.toNat + length := by omega
  have least := Nat.div_le_div_right (c := length) low
  have most := Nat.div_le_div_right (c := length) high
  rw [Nat.add_div_right _ positive] at most
  omega

/-- No interval of the length of the window meets three buckets. -/
def WindowFits (config : TriggerRateLimit) : Prop :=
  config.window / 1000000000 = 0 ∨ config.window % 1000000000 ≤ 1 ∨
    chronoLatest < 2 * (config.window / 1000000000 : Nat) ∨
    2 ^ 63 ≤ config.maxRequests

theorem CallsMade.latest
    (made : CallsMade outside slug config start calls world) :
    ∀ call ∈ calls, (call.1 : Int) / 1000000000 ≤ chronoLatest := by
  induction made with
  | nil => simp
  | snoc _ _ latest _ induction =>
      intro call member
      rcases List.mem_append.mp member with old | new
      · exact induction call old
      · rw [List.mem_singleton.mp new]
        exact latest

/-- A limit that does not fit `i64` is negative, and allows nothing. -/
theorem CallsMade.none_allowed (countable : Countable slug start)
    (made : CallsMade outside slug config start calls world)
    (huge : 2 ^ 63 ≤ config.maxRequests)
    (wide : config.maxRequests < 2 ^ 64) :
    ∀ call ∈ calls, call.2.allows = false := by
  have negative : RateLimit.asI64 config.maxRequests < 0 := by
    unfold RateLimit.asI64
    rw [BitVec.toInt_eq_toNat_cond, BitVec.toNat_ofNat,
      Nat.mod_eq_of_lt wide, if_neg (by omega)]
    omega
  have counted := made.counted countable
  intro call member
  by_contra allowed
  have low := countable.nonnegative
    (RateLimit.windowStart config.window call.1)
  have counter := counted.counter
    (RateLimit.windowStart config.window call.1)
  rcases counted.limited (RateLimit.windowStart config.window call.1)
    with none | limited
  · have refused := List.countP_eq_zero.mp none call member
    exact refused (by simpa using allowed)
  · omega

theorem le_bucketLength {window : Nat}
    (short : window / 1000000000 = 0 ∨ window % 1000000000 ≤ 1) :
    window ≤ bucketLength window + 1 := by
  unfold bucketLength
  omega

theorem lt_two_buckets {window now : Nat}
    (latest : (now : Int) / 1000000000 ≤ chronoLatest)
    (far : chronoLatest < 2 * (window / 1000000000 : Nat)) :
    now < 2 * bucketLength window := by
  unfold bucketLength
  omega

theorem bucketLength_pos (window : Nat) : 0 < bucketLength window := by
  unfold bucketLength
  omega

/-- Where the window fits, the calls of an interval fall into two buckets
that follow each other. -/
theorem WindowFits.buckets (fits : WindowFits config)
    (small : config.maxRequests < 2 ^ 63) (first : Int) :
    ∃ index : Nat, ∀ now : Nat,
      (now : Int) / 1000000000 ≤ chronoLatest → first ≤ now →
      (now : Int) < first + config.window →
      now / bucketLength config.window = index ∨
        now / bucketLength config.window = index + 1 := by
  have positive := bucketLength_pos config.window
  rcases fits with zero | whole | far | huge
  · exact ⟨_, fun now _ after before =>
      two_buckets positive (le_bucketLength (.inl zero)) after before⟩
  · exact ⟨_, fun now _ after before =>
      two_buckets positive (le_bucketLength (.inr whole)) after before⟩
  · refine ⟨0, fun now latest _ _ => ?_⟩
    have few := (Nat.div_lt_iff_lt_mul positive).mpr
      (lt_two_buckets latest far)
    generalize now / bucketLength config.window = index at few
    omega
  · omega

/-- Where the window fits, two buckets bound every interval. -/
theorem CallsMade.bounded (countable : Countable slug start)
    (made : CallsMade outside slug config start calls world)
    (fits : WindowFits config) (wide : config.maxRequests < 2 ^ 64)
    (first : Int) :
    allowedFrom config calls first ≤ 2 * config.maxRequests := by
  rcases Nat.lt_or_ge config.maxRequests (2 ^ 63) with small | huge
  · obtain ⟨index, inside⟩ := fits.buckets small first
    have covered : ∀ call ∈ calls, first ≤ call.1 →
        (call.1 : Int) < first + config.window →
        RateLimit.windowStart config.window call.1 =
            (index * max (config.window / 1000000000) 1 : Nat) ∨
          RateLimit.windowStart config.window call.1 =
            ((index + 1) * max (config.window / 1000000000) 1 : Nat) := by
      intro call member after before
      have latest := made.latest call member
      rw [windowStart_eq latest]
      rcases inside call.1 latest after before with here | next
      · exact .inl (by rw [here])
      · exact .inr (by rw [next])
    have sum := allowedFrom_le_add covered
    have least := made.allowedIn_le countable
      (index * max (config.window / 1000000000) 1 : Nat)
    have most := made.allowedIn_le countable
      ((index + 1) * max (config.window / 1000000000) 1 : Nat)
    omega
  · have none : allowedFrom config calls first = 0 := by
      refine List.countP_eq_zero.mpr fun call member => ?_
      simp [made.none_allowed countable huge wide call member]
    omega

/-! ## Three buckets -/

/-- As many calls in one bucket as it has places left. -/
theorem CallsMade.extend {now : Instant} {count : Nat}
    (countable : Countable slug start)
    (made : CallsMade outside slug config start calls world)
    (late : ∀ call ∈ calls, call.1 ≤ now)
    (latest : (now : Int) / 1000000000 ≤ chronoLatest)
    (room : counterOf slug world (RateLimit.windowStart config.window now) +
      count ≤ RateLimit.asI64 config.maxRequests) :
    ∃ after, CallsMade outside slug config start
        (calls ++ List.replicate count (now, .allow)) after ∧
      ∀ bucket, counterOf slug after bucket = counterOf slug world bucket +
        if bucket = RateLimit.windowStart config.window now then count
        else 0 := by
  induction count with
  | zero => exact ⟨world, by simpa using made, by simp⟩
  | succ count induction =>
      obtain ⟨middle, extended, counter⟩ := induction (by omega)
      obtain ⟨trace, outcome, after, runs⟩ := runs_amid_exists
        (countersOf slug) (RateLimit.evaluateAt outside slug config now) middle
      obtain ⟨single, allows, next⟩ :=
        counting_evaluateAt (extended.counted countable).single runs
      have below : counterOf slug middle
          (RateLimit.windowStart config.window now) <
            RateLimit.asI64 config.maxRequests := by
        rw [counter, if_pos rfl]
        omega
      rw [decide_eq_true below] at allows
      obtain rfl : outcome = .allow := by
        cases outcome with
        | allow => rfl
        | reject status reason => cases allows
      refine ⟨after, ?_, fun bucket => ?_⟩
      · have made := extended.snoc (fun call member => ?_) latest runs
        · rwa [List.append_assoc, ← List.replicate_succ'] at made
        · rcases List.mem_append.mp member with old | new
          · exact late call old
          · rw [List.eq_of_mem_replicate new]
      · rw [next, counter]
        by_cases same : bucket = RateLimit.windowStart config.window now
        · simp [same, EvalOutcome.allows, Int.add_assoc]
        · simp [same]

end Calls

/-- Every interval of the length of the window lets through at most twice
the limit. -/
def TwiceTheLimit (outside : Outside) (slug : String)
    (config : TriggerRateLimit) : Prop :=
  ∀ (start after : World) (calls : List (Instant × EvalOutcome)),
    Countable slug start →
    CallsMade outside slug config start calls after →
    ∀ first : Int, allowedFrom config calls first ≤ 2 * config.maxRequests

/-- A store in which the hook has no counters yet. -/
theorem Countable.fresh (slug : String) :
    Countable slug { config := {} } := by
  constructor
  · intro start
    exact Nat.zero_le 1
  · intro start
    exact Int.le_refl 0

/-- What the condition leaves out: a window of at least a second with a
rest of at least two nanoseconds. -/
theorem seconds_of_long {window : Nat} (seconds : window / 1000000000 ≠ 0)
    (rest : ¬ window % 1000000000 ≤ 1) :
    bucketLength window = window / 1000000000 * 1000000000 ∧
      bucketLength window + 2 ≤ window := by
  unfold bucketLength
  omega

/-- The first or the last instant of one of the first buckets. -/
theorem bucket_opens {window now index : Nat}
    (seconds : window / 1000000000 ≠ 0)
    (latest : 2 * (window / 1000000000 : Nat) ≤ chronoLatest)
    (early : now ≤ 2 * bucketLength window)
    (isIndex : now / bucketLength window = index) :
    (now : Int) / 1000000000 ≤ chronoLatest ∧
      RateLimit.windowStart window now =
        (index * (window / 1000000000) : Nat) := by
  have shown : (now : Int) / 1000000000 ≤ chronoLatest := by
    unfold bucketLength at early
    omega
  refine ⟨shown, ?_⟩
  rw [windowStart_eq shown, isIndex, Nat.max_eq_left (by omega)]

theorem inside_long {length window now : Nat} (positive : 0 < length)
    (long : length + 2 ≤ window) (low : length - 1 ≤ now)
    (high : now ≤ 2 * length) :
    ((length - 1 : Nat) : Int) ≤ now ∧
      (now : Int) < (length - 1 : Nat) + (window : Nat) := by
  omega

/-- A full bucket at its last instant, one at its first, and the first
instant of a third. -/
theorem three_buckets (seconds : config.window / 1000000000 ≠ 0)
    (rest : ¬ config.window % 1000000000 ≤ 1)
    (latest : 2 * (config.window / 1000000000 : Nat) ≤ chronoLatest)
    (small : config.maxRequests < 2 ^ 63) :
    ∃ calls after,
      CallsMade outside slug config { config := {} } calls after ∧
        allowedFrom config calls (bucketLength config.window - 1 : Nat) =
          3 * config.maxRequests := by
  obtain ⟨whole, long⟩ := seconds_of_long seconds rest
  have some := bucketLength_pos config.window
  have countable := Countable.fresh slug
  have limit := asI64_of_lt small
  obtain ⟨lastLatest, lastStart⟩ := bucket_opens seconds latest (by omega)
    (Nat.div_eq_of_lt (Nat.sub_lt some Nat.one_pos))
  obtain ⟨nextLatest, nextStart⟩ := bucket_opens seconds latest (by omega)
    (Nat.div_self some)
  obtain ⟨thirdLatest, thirdStart⟩ := bucket_opens seconds latest
    (Nat.le_refl _) (Nat.mul_div_cancel 2 some)
  generalize isLength : bucketLength config.window = length at *
  have none (bucket : Int) :
      counterOf slug { config := {} } bucket = 0 := rfl
  have start : CallsMade outside slug config { config := {} } []
      { config := {} } := .nil
  obtain ⟨_, filled, firstCount⟩ := start.extend countable (by simp)
    lastLatest (show _ + (config.maxRequests : Int) ≤ _ by
      rw [none, limit]
      omega)
  obtain ⟨_, refilled, secondCount⟩ := filled.extend countable
    (by
      intro call member
      rcases List.mem_append.mp member with old | new
      · cases old
      · rw [List.eq_of_mem_replicate new]
        exact Nat.sub_le _ 1)
    nextLatest (show _ + (config.maxRequests : Int) ≤ _ by
      rw [firstCount, none, lastStart, nextStart, limit, if_neg (by omega)]
      omega)
  obtain ⟨after, made, -⟩ := refilled.extend countable
    (by
      intro call member
      rcases List.mem_append.mp member with old | new
      · rcases List.mem_append.mp old with oldest | older
        · cases oldest
        · rw [List.eq_of_mem_replicate older]
          show length - 1 ≤ 2 * length
          omega
      · rw [List.eq_of_mem_replicate new]
        show length ≤ 2 * length
        omega)
    thirdLatest (show _ + (config.maxRequests : Int) ≤ _ by
      rw [secondCount, firstCount, none, lastStart, nextStart, thirdStart,
        limit, if_neg (by omega), if_neg (by omega)]
      omega)
  refine ⟨_, after, made, ?_⟩
  have inside {now : Nat} (low : length - 1 ≤ now)
      (high : now ≤ 2 * length) :
      (EvalOutcome.allow.allows && decide (((length - 1 : Nat) : Int) ≤ now ∧
        (now : Int) < (length - 1 : Nat) + config.window)) = true := by
    rw [decide_eq_true (inside_long some long low high)]
    rfl
  unfold allowedFrom
  rw [List.countP_append, List.countP_append, List.countP_append,
    List.countP_replicate, List.countP_replicate, List.countP_replicate,
    if_pos (inside (Nat.le_refl _) (by omega)),
    if_pos (inside (Nat.sub_le _ 1) (by omega)),
    if_pos (inside (by omega) (Nat.le_refl _)), List.countP_nil]
  omega

theorem TriggerRateLimit.maxRequests_pos {place : String}
    (valid : config.errors place = []) : 0 < config.maxRequests := by
  obtain ⟨limited, -⟩ := List.append_eq_nil_iff.mp valid
  unfold require at limited
  by_contra zero
  rw [Nat.eq_zero_of_not_pos zero] at limited
  cases limited

/-- The buckets bound every interval exactly where it cannot meet three of
them. -/
theorem twiceTheLimit_iff (outside : Outside) (slug place : String)
    (config : TriggerRateLimit) (valid : config.errors place = [])
    (wide : config.maxRequests < 2 ^ 64) :
    TwiceTheLimit outside slug config ↔ WindowFits config := by
  constructor
  · intro law
    by_contra fails
    obtain ⟨seconds, rest⟩ := not_or.mp fails
    obtain ⟨rest, others⟩ := not_or.mp rest
    obtain ⟨latest, small⟩ := not_or.mp others
    have positive := TriggerRateLimit.maxRequests_pos valid
    obtain ⟨calls, after, made, count⟩ :=
      @three_buckets outside slug config seconds rest (Int.not_lt.mp latest)
        (Nat.not_le.mp small)
    have most := law _ after calls (.fresh slug) made
      (bucketLength config.window - 1 : Nat)
    rw [count] at most
    omega
  · intro fits start after calls countable made first
    exact made.bounded countable fits wide first

/-- A window of a minute. -/
theorem twiceTheLimit_iff_minute :
    TwiceTheLimit .accepting "deploy"
        { maxRequests := 10, window := 60000000000 } ↔
      WindowFits { maxRequests := 10, window := 60000000000 } :=
  twiceTheLimit_iff .accepting "deploy" "hooks[0]"
    { maxRequests := 10, window := 60000000000 } (by decide) (by decide)

/-- One request in a window of a second and a half. -/
theorem not_twiceTheLimit :
    TriggerRateLimit.errors "hooks[0]"
        { maxRequests := 1, window := 1500000000 } = [] ∧
      ¬ TwiceTheLimit .accepting "deploy"
        { maxRequests := 1, window := 1500000000 } := by
  refine ⟨by decide, fun law => ?_⟩
  obtain ⟨calls, after, made, count⟩ :=
    @three_buckets .accepting "deploy"
      { maxRequests := 1, window := 1500000000 } (by decide) (by decide)
      (by decide) (by decide)
  have most := law _ after calls (.fresh "deploy") made
    (bucketLength 1500000000 - 1 : Nat)
  rw [count] at most
  cases Nat.not_lt.mpr most (by decide)

end Sendword