import Sendword.RateLimiting

/-!
# The sweep of the counters

A background task deletes the counters whose window started more than two
days ago, however long the window is.  Its passes are interleaved with the
statements of any number of checks.  A bucket is the time from the start of
a window on, as long as the configured window, which need not be the whole
seconds that the code counts in.
-/

namespace Sendword

open Concurrency

/-- `RATE_LIMIT_COUNTER_TTL_HOURS`. -/
def rateLimitCounterTtlHours : Int := 48

/-- The cutoff of a pass, in whole seconds.  Cutoff and window starts are
texts of one format, which are ordered like the instants. -/
def sweepCutoff (now : Int) : Int :=
  (now - rateLimitCounterTtlHours * 3600 * 1000000000) / 1000000000

/-- The checks, the clock, and the time that a pass under way has read. -/
structure SweptPool where
  pool : RatePool
  clock : Int
  pass : Option Int := none

inductive SweepLabel where
  | arrive (call : RateCall)
  | advance (index : Nat) (choice : Choice)
  | wake (now : Int)
  | delete

/-- A check is called and a pass begins at the time that the clock then
shows, an instant that `chrono` can represent. -/
def sweptStep (outside : Outside) (swept : SweptPool) :
    SweepLabel → Option SweptPool
  | .arrive call =>
      if swept.clock ≤ call.now ∧ call.now / 1000000000 ≤ chronoLatest then
        ((limiter outside).step swept.pool (.arrive call)).map fun pool =>
          { swept with pool, clock := call.now }
      else none
  | .advance index choice =>
      ((limiter outside).step swept.pool (.advance index choice)).map
        fun pool => { swept with pool }
  | .wake now =>
      if swept.clock ≤ now ∧ swept.pass = none then
        some { swept with clock := now, pass := some now }
      else none
  | .delete =>
      swept.pass.map fun woke =>
        { swept with
          pool := { swept.pool with
            state := { swept.pool.state with
              db := (CounterStatement.exec swept.pool.state.db
                (.deleteBefore (sweepCutoff woke))).2 } }
          pass := none }

/-- The states reached by steps that satisfy a condition on the state before
the step and its label. -/
inductive SweptReaches (outside : Outside)
    (admits : SweptPool → SweepLabel → Prop) (start : SweptPool) :
    SweptPool → Prop where
  | refl : SweptReaches outside admits start start
  | step {swept target : SweptPool} {label : SweepLabel} :
      SweptReaches outside admits start swept →
      admits swept label →
      sweptStep outside swept label = some target →
      SweptReaches outside admits start target

/-- All calls for the hook use the same limit and window. -/
def constantLimit (slug : String) (config : TriggerRateLimit) :
    SweepLabel → Prop
  | .arrive call => call.hookSlug = slug → call.config = config
  | _ => True

/-- The instants that may still be counted for the hook: the clock from now
on, and what the checks that are yet to make their insertion have read. -/
def SweptPool.Awaits (swept : SweptPool) (slug : String) (now : Int) : Prop :=
  now = swept.clock ∨ ∃ task ∈ swept.pool.tasks,
    task.job.hookSlug = slug ∧ task.trace = [] ∧ task.job.now = now

/-- A window in which a call was counted and another may still be counted
began at most 48 hours before the pass that deletes. -/
def SweptInTime (slug : String) (config : TriggerRateLimit)
    (swept : SweptPool) : SweepLabel → Prop
  | .delete => ∀ woke ∈ swept.pass, ∀ counted ∈ swept.pool.tasks,
      counted.job.hookSlug = slug → counted.trace ≠ [] →
        ∀ now, swept.Awaits slug now →
          RateLimit.windowStart config.window now = counted.job.start →
            woke / 1000000000 ≤ counted.job.start + 48 * 3600
  | _ => True

/-- The length in seconds of the windows that the code counts in. -/
def bucketSeconds (window : Nat) : Nat :=
  max (window / 1000000000) 1

/-- No bucket reaches into the next one: the window is one of whole seconds,
shorter than a second, or longer than the clock can run. -/
def BucketsApart (window : Nat) : Prop :=
  window % 1000000000 = 0 ∨ window < 1000000000 ∨
    chronoLatest < (window / 1000000000 : Nat)

/-- The calls of the hook that were allowed in the bucket from a start on. -/
def SweptPool.allowedWithin (swept : SweptPool) (slug : String)
    (window : Duration) (bucketStart : Int) : Nat :=
  swept.pool.tasks.countP fun task =>
    task.job.hookSlug == slug &&
      decide (bucketStart * 1000000000 ≤ task.job.now ∧
        task.job.now < bucketStart * 1000000000 + window) &&
      task.program.result?.any EvalOutcome.allows

/-! ## What is kept -/

theorem asI64_le (value : Nat) : RateLimit.asI64 value ≤ value := by
  unfold RateLimit.asI64
  rw [BitVec.toInt_eq_toNat_cond, BitVec.toNat_ofNat]
  have below := Nat.mod_le value (2 ^ 64)
  split <;> omega

theorem countersIn_deleteBefore (db : Db) (cutoff : Int) (bucket : Bucket) :
    (CounterStatement.exec db (.deleteBefore cutoff)).2.countersIn bucket =
      if bucket.2 < cutoff then [] else db.countersIn bucket := by
  have rest : (CounterStatement.exec db (.deleteBefore cutoff)).2.counters =
      db.counters.filter fun row => !decide (row.windowStart < cutoff) := rfl
  rw [Db.countersIn, rest, List.filter_filter]
  have start (row : CounterRow) (inBucket : row.bucket = bucket) :
      row.windowStart = bucket.2 := congrArg Prod.snd inBucket
  split
  · rename_i old
    refine List.filter_eq_nil_iff.mpr ?_
    intro row _ kept
    rw [Bool.and_eq_true, beq_iff_eq] at kept
    rw [start row kept.1] at kept
    simp [old] at kept
  · rename_i recent
    refine List.filter_congr fun row _ => ?_
    by_cases inBucket : row.bucket = bucket
    · simp [inBucket, start row inBucket, recent]
    · have elsewhere : (row.bucket == bucket) = false :=
        beq_eq_false_iff_ne.mpr inBucket
      simp [elsewhere]

/-! ## Windows -/

/-- From the epoch on the windows begin at the multiples of their length. -/
theorem windowStart_of_seconds {window : Duration} {now : Int}
    {seconds : Nat} (isSeconds : now / 1000000000 = seconds)
    (latest : now / 1000000000 ≤ chronoLatest) :
    RateLimit.windowStart window now =
      (seconds / bucketSeconds window * bucketSeconds window : Nat) := by
  unfold chronoLatest at latest
  have small : seconds < 2 ^ 63 := by omega
  have read : RateLimit.asU64 seconds = seconds := by
    unfold RateLimit.asU64
    omega
  have below := Nat.div_mul_le_self seconds (bucketSeconds window)
  unfold bucketSeconds at below ⊢
  unfold RateLimit.windowStart
  dsimp only
  rw [isSeconds, read, asI64_of_lt (lt_of_le_of_lt below small)]
  refine if_pos ⟨?_, ?_⟩
  · unfold chronoMin
    omega
  · unfold chronoLatest
    omega

/-- An instant that `chrono` can represent, from the epoch on. -/
structure Dateable (now : Int) : Prop where
  epoch : 0 ≤ now
  latest : now / 1000000000 ≤ chronoLatest

namespace Dateable

variable {window : Duration} {earlier now : Int}

theorem windowStart (dateable : Dateable now) :
    RateLimit.windowStart window now =
      ((now / 1000000000).toNat / bucketSeconds window *
        bucketSeconds window : Nat) := by
  have whole : 0 ≤ now / 1000000000 := by
    have := dateable.epoch
    omega
  exact windowStart_of_seconds (Int.toNat_of_nonneg whole).symm
    dateable.latest

theorem windowStart_mono (first : Dateable earlier) (second : Dateable now)
    (order : earlier ≤ now) :
    RateLimit.windowStart window earlier ≤
      RateLimit.windowStart window now := by
  rw [first.windowStart, second.windowStart]
  have seconds : (earlier / 1000000000).toNat ≤ (now / 1000000000).toNat := by
    omega
  exact Int.ofNat_le.mpr (Nat.mul_le_mul_right _
    (Nat.div_le_div_right seconds))

/-- An instant is less than the length of a window after its start. -/
theorem lt_windowStart_add (dateable : Dateable now) :
    now / 1000000000 <
      RateLimit.windowStart window now + bucketSeconds window := by
  have positive : 0 < bucketSeconds window := by
    unfold bucketSeconds
    omega
  have above : (now / 1000000000).toNat <
      (now / 1000000000).toNat / bucketSeconds window *
        bucketSeconds window + bucketSeconds window :=
    Nat.lt_div_mul_add positive
  rw [dateable.windowStart]
  have whole := dateable.epoch
  omega

end Dateable

theorem bucketSeconds_covers {window : Nat}
    (apart : BucketsApart window) :
    window ≤ bucketSeconds window * 1000000000 ∨
      chronoLatest < (bucketSeconds window : Nat) := by
  unfold bucketSeconds
  rcases apart with whole | short | endless
  · exact .inl (by omega)
  · exact .inl (by omega)
  · exact .inr (by omega)

/-- The instants of a bucket are those of the window that it begins with. -/
theorem windowStart_of_bucket {window : Nat} {now : Int}
    {number : Nat} (apart : BucketsApart window) (dateable : Dateable now)
    (after : (number * bucketSeconds window : Nat) * 1000000000 ≤ now)
    (before : now <
      (number * bucketSeconds window : Nat) * 1000000000 + window) :
    RateLimit.windowStart window now =
      (number * bucketSeconds window : Nat) := by
  have positive : 0 < bucketSeconds window := by
    unfold bucketSeconds
    omega
  have low : number * bucketSeconds window ≤ (now / 1000000000).toNat := by
    omega
  have high : (now / 1000000000).toNat <
      (number + 1) * bucketSeconds window := by
    rw [Nat.add_mul, Nat.one_mul]
    have latest := dateable.latest
    rcases bucketSeconds_covers apart with covers | endless
    · omega
    · omega
  have same : (now / 1000000000).toNat / bucketSeconds window = number :=
    Nat.div_eq_of_lt_le low high
  rw [dateable.windowStart, same]

/-- The number of calls of the bucket that were allowed. -/
def SweptPool.allowed (swept : SweptPool) (bucket : Bucket) : Nat :=
  returnedIn bucket EvalOutcome.allows swept.pool.tasks

section Bound

variable {outside : Outside} {slug : String} {config : TriggerRateLimit}
  {bucket : Bucket} {swept target : SweptPool}

/-- No call to come falls into the bucket, and each of its calls has made
its insertion. -/
structure Closed (config : TriggerRateLimit) (swept : SweptPool)
    (bucket : Bucket) : Prop where
  passed : ∀ now, swept.clock ≤ now → now / 1000000000 ≤ chronoLatest →
    RateLimit.windowStart config.window now ≠ bucket.2
  settled : ∀ task ∈ swept.pool.tasks, task.job.bucket = bucket →
    task.trace ≠ []

/-- The counter of the bucket covers the calls that were allowed, or the
bucket is closed and stays without one. -/
inductive Covered (config : TriggerRateLimit) (bucket : Bucket)
    (swept : SweptPool) : Prop where
  | fresh :
      swept.pool.state.db.countersIn bucket = [] →
      (∀ task ∈ swept.pool.tasks, task.job.bucket = bucket →
        task.trace = []) →
      Covered config bucket swept
  | opened (row : CounterRow) :
      swept.pool.state.db.countersIn bucket = [row] →
      (swept.allowed bucket : Int) ≤ row.count →
      swept.allowed bucket ≤ config.maxRequests →
      Covered config bucket swept
  | closed :
      Closed config swept bucket →
      swept.pool.state.db.countersIn bucket = [] →
      swept.allowed bucket ≤ config.maxRequests →
      Covered config bucket swept

/-- The clock and what the calls have read of it. -/
structure OnTime (swept : SweptPool) : Prop where
  clock : 0 ≤ swept.clock
  read : ∀ task ∈ swept.pool.tasks,
    Dateable task.job.now ∧ task.job.now ≤ swept.clock
  pass : ∀ woke ∈ swept.pass, woke ≤ swept.clock

/-- What holds between the steps of a run. -/
structure Tallied (outside : Outside) (slug : String)
    (config : TriggerRateLimit) (bucketStart : Int) (swept : SweptPool) :
    Prop where
  stages : ∀ task ∈ swept.pool.tasks, RateStage outside task
  same : ∀ task ∈ swept.pool.tasks, task.job.hookSlug = slug →
    task.job.config = config
  onTime : OnTime swept
  covered : Covered config (slug, bucketStart) swept

namespace Closed

theorem later (closed : Closed config swept bucket)
    (clock : swept.clock ≤ target.clock)
    (tasks : target.pool.tasks = swept.pool.tasks) :
    Closed config target bucket where
  passed now notBefore := closed.passed now (clock.trans notBefore)
  settled := tasks ▸ closed.settled

/-- A call that is yet to make its insertion is one of another bucket. -/
theorem elsewhere (closed : Closed config swept bucket) {index : Nat}
    {task : RateTask} (found : swept.pool.tasks[index]? = some task)
    (waiting : task.trace = []) : task.job.bucket ≠ bucket :=
  fun here =>
    closed.settled task (List.mem_of_getElem? found) here waiting

theorem set (closed : Closed config swept bucket) {index : Nat}
    {new : RateTask} (begun : new.trace ≠ [])
    (clock : target.clock = swept.clock)
    (tasks : target.pool.tasks = swept.pool.tasks.set index new) :
    Closed config target bucket where
  passed := clock ▸ closed.passed
  settled := by
    intro task member here
    rw [tasks] at member
    rcases List.mem_or_eq_of_mem_set member with old | rfl
    · exact closed.settled task old here
    · exact begun

/-- A window in which a call was counted is closed when neither the clock
nor a call that is yet to make its insertion falls into it. -/
theorem of_awaits {bucketStart : Int} (onTime : OnTime swept)
    (same : ∀ task ∈ swept.pool.tasks, task.job.hookSlug = slug →
      task.job.config = config)
    {counted : RateTask} (called : counted ∈ swept.pool.tasks)
    (here : counted.job.bucket = (slug, bucketStart))
    (missed : ∀ now, swept.Awaits slug now →
      RateLimit.windowStart config.window now ≠ bucketStart) :
    Closed config swept (slug, bucketStart) where
  passed := by
    intro now later latest inBucket
    obtain ⟨dated, before⟩ := onTime.read counted called
    have start : RateLimit.windowStart config.window counted.job.now =
        bucketStart := by
      have own := same counted called (congrArg Prod.fst here)
      exact own ▸ congrArg Prod.snd here
    have clock : Dateable swept.clock := ⟨onTime.clock, by omega⟩
    have dateable : Dateable now := ⟨by have := onTime.clock; omega, latest⟩
    have low := @Dateable.windowStart_mono config.window _ _ dated clock
      before
    have high := @Dateable.windowStart_mono config.window _ _ clock dateable
      later
    exact missed swept.clock (.inl rfl) (by omega)
  settled := by
    intro task member inBucket waiting
    have ours : task.job.hookSlug = slug := congrArg Prod.fst inBucket
    have start : RateLimit.windowStart config.window task.job.now =
        bucketStart := same task member ours ▸ congrArg Prod.snd inBucket
    exact missed task.job.now (.inr ⟨task, member, ours, waiting, rfl⟩) start

end Closed

/-- A step of a call of another bucket changes no count of this one. -/
theorem allowed_set_of_ne {index : Nat} {old new : RateTask}
    (found : swept.pool.tasks[index]? = some old)
    (running : old.program.result? = none)
    (other : new.job.bucket ≠ bucket)
    (tasks : target.pool.tasks = swept.pool.tasks.set index new) :
    target.allowed bucket = swept.allowed bucket := by
  have elsewhere : (new.job.bucket == bucket) = false :=
    beq_eq_false_iff_ne.mpr other
  rw [SweptPool.allowed, tasks,
    returnedIn_set bucket EvalOutcome.allows new found running, elsewhere]
  rfl

namespace Covered

theorem arrive {call : RateCall} {bucketStart : Int}
    (covered : Covered config (slug, bucketStart) swept)
    (same : call.hookSlug = slug → call.config = config)
    (clock : swept.clock ≤ call.now)
    (latest : call.now / 1000000000 ≤ chronoLatest)
    (now : target.clock = call.now)
    (state : target.pool.state = swept.pool.state)
    (tasks : target.pool.tasks =
      swept.pool.tasks ++ [(limiter outside).launch call]) :
    Covered config (slug, bucketStart) target := by
  have count : target.allowed (slug, bucketStart) =
      swept.allowed (slug, bucketStart) := by
    rw [SweptPool.allowed, tasks, returnedIn_launch]
    rfl
  cases covered with
  | fresh none waiting =>
      refine .fresh (state ▸ none) ?_
      intro task member inBucket
      rw [tasks] at member
      rcases List.mem_append.mp member with old | new
      · exact waiting task old inBucket
      · rw [List.mem_singleton.mp new]
        rfl
  | opened row stored counted atMost =>
      exact .opened row (state ▸ stored) (count ▸ counted) (count ▸ atMost)
  | closed closed none atMost =>
      refine .closed ⟨?_, ?_⟩ (state ▸ none) (count ▸ atMost)
      · intro later notBefore
        exact closed.passed later (clock.trans (now ▸ notBefore))
      · intro task member here
        rw [tasks] at member
        rcases List.mem_append.mp member with old | new
        · exact closed.settled task old here
        · rw [List.mem_singleton.mp new] at here
          have ours : call.hookSlug = slug := congrArg Prod.fst here
          have start : call.start = bucketStart := congrArg Prod.snd here
          rw [RateCall.start, same ours] at start
          exact (closed.passed call.now clock latest start).elim

theorem insert {index : Nat} {call : RateCall}
    {inserted : Event Op.Answer}
    (stages : ∀ task ∈ swept.pool.tasks, RateStage outside task)
    (covered : Covered config bucket swept)
    (found : swept.pool.tasks[index]? = some
      { job := call
        trace := []
        program := RateLimit.evaluateAt outside call.hookSlug call.config
          call.now })
    (clock : target.clock = swept.clock)
    (db : target.pool.state.db = (CounterStatement.exec swept.pool.state.db
      (.insertOrIgnore call.hookSlug call.start)).2)
    (tasks : target.pool.tasks = swept.pool.tasks.set index
      { job := call
        trace := [inserted]
        program := RateLimit.increment outside call.hookSlug call.config
          call.start }) :
    Covered config bucket target := by
  have count : target.allowed bucket = swept.allowed bucket := by
    rw [SweptPool.allowed, tasks,
      returnedIn_set bucket EvalOutcome.allows _ found rfl]
    simp [SweptPool.allowed, RateLimit.increment, Program.result?, sql, op]
  have rows := countersIn_insert swept.pool.state.db call.hookSlug
    call.start bucket
  rw [← db] at rows
  cases covered with
  | fresh none waiting =>
      by_cases here : bucket = call.bucket
      · rw [if_pos ⟨here, none⟩] at rows
        have nothing : target.allowed bucket = 0 :=
          count.trans (returnedIn_fresh stages waiting _)
        refine .opened _ rows ?_ ?_
        · rw [nothing]
          exact Int.le_refl 0
        · rw [nothing]
          exact Nat.zero_le _
      · rw [if_neg fun both => here both.1, none] at rows
        refine .fresh rows ?_
        intro task member inBucket
        rw [tasks] at member
        rcases List.mem_or_eq_of_mem_set member with other | rfl
        · exact waiting task other inBucket
        · exact (here inBucket.symm).elim
  | opened row stored counted atMost =>
      rw [if_neg (by simp [stored]), stored] at rows
      exact .opened row rows (count ▸ counted) (count ▸ atMost)
  | closed closed none atMost =>
      have other : call.bucket ≠ bucket := closed.elsewhere found rfl
      rw [if_neg fun both => other both.1.symm] at rows
      exact .closed (closed.set (List.cons_ne_nil _ _) clock tasks)
        (rows.trans none) (count ▸ atMost)

/-- A check that is allowed takes one of the places that the row says are
free. -/
theorem count {index : Nat} {call : RateCall}
    {inserted counted : Event Op.Answer} {outcome : EvalOutcome}
    (covered : Covered config bucket swept)
    (same : call.bucket = bucket → call.config = config)
    (found : swept.pool.tasks[index]? = some
      { job := call
        trace := [inserted]
        program := RateLimit.increment outside call.hookSlug call.config
          call.start })
    (clock : target.clock = swept.clock)
    (db : target.pool.state.db = (CounterStatement.exec swept.pool.state.db
      (.increment call.hookSlug call.start
        (RateLimit.asI64 call.config.maxRequests))).2)
    (allows : outcome.allows = decide
      (swept.pool.state.db.counters.countP
        (CounterStatement.below call.hookSlug call.start
          (RateLimit.asI64 call.config.maxRequests)) = 1))
    (tasks : target.pool.tasks = swept.pool.tasks.set index
      { job := call, trace := [inserted, counted], program := .pure outcome }) :
    Covered config bucket target := by
  have rows := countersIn_increment swept.pool.state.db call.hookSlug
    call.start (RateLimit.asI64 call.config.maxRequests) bucket
  rw [← db] at rows
  by_cases here : call.bucket = bucket
  · cases covered with
    | fresh none waiting =>
        have unstarted := waiting _ (List.mem_of_getElem? found) here
        cases unstarted
    | closed closed none atMost =>
        subst here
        have ours : call.bucket = (call.hookSlug, call.start) := rfl
        have only : swept.pool.state.db.countersIn
            (call.hookSlug, call.start) = [] := none
        rw [countP_below, only] at allows
        rw [if_pos ours, none] at rows
        have refused : target.allowed call.bucket =
            swept.allowed call.bucket := by
          rw [SweptPool.allowed, tasks,
            returnedIn_set call.bucket EvalOutcome.allows _ found rfl]
          simp [SweptPool.allowed, Program.result?, allows]
        exact .closed (closed.set (List.cons_ne_nil _ _) clock tasks) rows
          (refused ▸ atMost)
    | opened row stored covers atMost =>
        subst here
        have ours : call.bucket = (call.hookSlug, call.start) := rfl
        rw [if_pos ours, stored] at rows
        have answered : target.allowed call.bucket =
            swept.allowed call.bucket + if outcome.allows then 1 else 0 := by
          rw [SweptPool.allowed, tasks,
            returnedIn_set call.bucket EvalOutcome.allows _ found rfl]
          simp [SweptPool.allowed, Program.result?]
        have only : swept.pool.state.db.countersIn
            (call.hookSlug, call.start) = [row] := stored
        rw [countP_below, only] at allows
        have limit := asI64_le call.config.maxRequests
        rw [same rfl] at allows limit rows
        by_cases free : row.count < RateLimit.asI64 config.maxRequests
        · have allowing : outcome.allows = true := by simp [allows, free]
          have inRow : (row.bucket == call.bucket) = true := by
            have member : row ∈ swept.pool.state.db.countersIn
                call.bucket := by simp [stored]
            exact (List.mem_filter.mp member).2
          have raised : row.spend call.bucket
              (RateLimit.asI64 config.maxRequests) =
              { row with count := row.count + 1 } := by
            refine if_pos ?_
            simp only [CounterStatement.below, bucket_beq, Bool.and_eq_true,
              decide_eq_true_eq]
            exact ⟨inRow, free⟩
          rw [List.map_singleton] at rows
          refine .opened _ (rows.trans (congrArg (fun row => [row]) raised))
            ?_ ?_
          · rw [answered, allowing]
            simpa using covers
          · rw [answered, allowing]
            simp only [if_true]
            omega
        · have refusing : outcome.allows = false := by simp [allows, free]
          have kept : row.spend call.bucket
              (RateLimit.asI64 config.maxRequests) = row := by
            refine if_neg ?_
            simp only [CounterStatement.below, Bool.and_eq_true,
              decide_eq_true_eq, not_and]
            exact fun _ => free
          rw [List.map_singleton] at rows
          refine .opened row (rows.trans (congrArg (fun row => [row]) kept))
            ?_ ?_
          · rw [answered, refusing]
            simpa using covers
          · rw [answered, refusing]
            simpa using atMost
  · have unmoved : target.allowed bucket = swept.allowed bucket :=
      allowed_set_of_ne found rfl here tasks
    rw [if_neg fun same => here same.symm] at rows
    cases covered with
    | fresh none waiting =>
        refine .fresh (rows.trans none) ?_
        intro task member inBucket
        rw [tasks] at member
        rcases List.mem_or_eq_of_mem_set member with other | rfl
        · exact waiting task other inBucket
        · exact (here inBucket).elim
    | opened row stored covers atMost =>
        exact .opened row (rows.trans stored) (unmoved ▸ covers)
          (unmoved ▸ atMost)
    | closed closed none atMost =>
        exact .closed (closed.set (List.cons_ne_nil _ _) clock tasks)
          (rows.trans none) (unmoved ▸ atMost)

theorem wake (covered : Covered config bucket swept)
    (clock : swept.clock ≤ target.clock)
    (pool : target.pool = swept.pool) : Covered config bucket target := by
  have count : target.allowed bucket = swept.allowed bucket := by
    rw [SweptPool.allowed, pool]
    rfl
  cases covered with
  | fresh none waiting => exact .fresh (pool ▸ none) (pool ▸ waiting)
  | opened row stored counted atMost =>
      exact .opened row (pool ▸ stored) (count ▸ counted) (count ▸ atMost)
  | closed closed none atMost =>
      exact .closed (closed.later clock (pool ▸ rfl)) (pool ▸ none)
        (count ▸ atMost)

/-- The counter of a bucket that has counted a call is deleted when the
bucket is closed. -/
theorem delete {bucketStart woke : Int}
    (covered : Covered config (slug, bucketStart) swept)
    (onTime : OnTime swept)
    (same : ∀ task ∈ swept.pool.tasks, task.job.hookSlug = slug →
      task.job.config = config)
    (pass : swept.pass = some woke)
    (inTime : SweptInTime slug config swept .delete)
    (clock : target.clock = swept.clock)
    (db : target.pool.state.db = (CounterStatement.exec swept.pool.state.db
      (.deleteBefore (sweepCutoff woke))).2)
    (tasks : target.pool.tasks = swept.pool.tasks) :
    Covered config (slug, bucketStart) target := by
  have count : target.allowed (slug, bucketStart) =
      swept.allowed (slug, bucketStart) := by
    rw [SweptPool.allowed, tasks]
    rfl
  have rows := countersIn_deleteBefore swept.pool.state.db
    (sweepCutoff woke) (slug, bucketStart)
  rw [← db] at rows
  cases covered with
  | fresh none waiting =>
      refine .fresh ?_ (tasks ▸ waiting)
      rw [rows, none, ite_self]
  | opened row stored counted atMost =>
      by_cases old : bucketStart < sweepCutoff woke
      · rw [if_pos old] at rows
        by_cases begun : ∃ task ∈ swept.pool.tasks,
            task.job.bucket = (slug, bucketStart) ∧ task.trace ≠ []
        · obtain ⟨task, called, here, counts⟩ := begun
          have start : task.job.start = bucketStart := congrArg Prod.snd here
          have closed : Closed config swept (slug, bucketStart) := by
            refine .of_awaits onTime same called here ?_
            intro now awaited inBucket
            have young := inTime woke pass task called
              (congrArg Prod.fst here) counts now awaited
              (inBucket.trans start.symm)
            unfold sweepCutoff rateLimitCounterTtlHours at old
            omega
          exact .closed (closed.later clock.ge tasks) rows (count ▸ atMost)
        · refine .fresh rows ?_
          intro task member here
          by_contra counts
          exact begun ⟨task, tasks ▸ member, here, counts⟩
      · rw [if_neg old, stored] at rows
        exact .opened row rows (count ▸ counted) (count ▸ atMost)
  | closed closed none atMost =>
      refine .closed (closed.later clock.ge tasks) ?_ (count ▸ atMost)
      rw [rows, none, ite_self]

end Covered

/-- The calls are those from before the step. -/
def SameCalls (swept target : SweptPool) : Prop :=
  ∀ task ∈ target.pool.tasks,
    ∃ before ∈ swept.pool.tasks, before.job = task.job

theorem SameCalls.set {index : Nat} {old new : RateTask}
    (found : swept.pool.tasks[index]? = some old)
    (tasks : target.pool.tasks = swept.pool.tasks.set index new)
    (job : old.job = new.job) :
    SameCalls swept target := by
  intro task member
  rw [tasks] at member
  rcases List.mem_or_eq_of_mem_set member with kept | rfl
  · exact ⟨task, kept, rfl⟩
  · exact ⟨old, List.mem_of_getElem? found, job⟩

namespace OnTime

theorem arrive {call : RateCall} (onTime : OnTime swept)
    (clock : swept.clock ≤ call.now)
    (latest : call.now / 1000000000 ≤ chronoLatest)
    (now : target.clock = call.now) (pass : target.pass = swept.pass)
    (tasks : target.pool.tasks =
      swept.pool.tasks ++ [(limiter outside).launch call]) :
    OnTime target where
  clock := now ▸ onTime.clock.trans clock
  read := by
    intro task member
    rw [tasks] at member
    rw [now]
    rcases List.mem_append.mp member with old | new
    · exact ⟨(onTime.read task old).1, (onTime.read task old).2.trans clock⟩
    · rw [List.mem_singleton.mp new]
      exact ⟨⟨onTime.clock.trans clock, latest⟩, Int.le_refl _⟩
  pass woke awake := by
    rw [now]
    exact (onTime.pass woke (pass ▸ awake)).trans clock

theorem move (onTime : OnTime swept) (calls : SameCalls swept target)
    (clock : swept.clock ≤ target.clock)
    (pass : ∀ woke ∈ target.pass, woke ≤ target.clock) : OnTime target where
  clock := onTime.clock.trans clock
  read := by
    intro task member
    obtain ⟨before, present, job⟩ := calls task member
    have read := onTime.read before present
    rw [job] at read
    exact ⟨read.1, read.2.trans clock⟩
  pass := pass

end OnTime

namespace Tallied

variable {bucketStart : Int}

theorem start (empty : swept.pool.tasks = []) (epoch : 0 ≤ swept.clock)
    (idle : swept.pass = none)
    (stored : swept.pool.state.db.countersIn (slug, bucketStart) = [] ∨
      ∃ row, swept.pool.state.db.countersIn (slug, bucketStart) = [row] ∧
        0 ≤ row.count) :
    Tallied outside slug config bucketStart swept := by
  have nothing : swept.allowed (slug, bucketStart) = 0 := by
    rw [SweptPool.allowed, empty]
    rfl
  refine ⟨by simp [empty], by simp [empty], ?_, ?_⟩
  · exact ⟨epoch, by simp [empty], by simp [idle]⟩
  · rcases stored with none | ⟨row, one, counted⟩
    · exact .fresh none (by simp [empty])
    · refine .opened row one ?_ ?_
      · rw [nothing]
        exact counted
      · rw [nothing]
        exact Nat.zero_le _

/-- The calls keep their limit. -/
theorem same_move (tallied : Tallied outside slug config bucketStart swept)
    (calls : SameCalls swept target) :
    ∀ task ∈ target.pool.tasks, task.job.hookSlug = slug →
      task.job.config = config := by
  intro task member ours
  obtain ⟨before, present, job⟩ := calls task member
  rw [← job] at ours ⊢
  exact tallied.same before present ours

theorem step {label : SweepLabel}
    (tallied : Tallied outside slug config bucketStart swept)
    (constant : constantLimit slug config label)
    (inTime : SweptInTime slug config swept label)
    (taken : sweptStep outside swept label = some target) :
    Tallied outside slug config bucketStart target := by
  have clocked := tallied.onTime
  have unmoved : SameCalls swept swept := fun task member =>
    ⟨task, member, rfl⟩
  cases label with
  | arrive call =>
      simp only [sweptStep] at taken
      split at taken
      · rename_i clock
        obtain ⟨pool, arrived, rfl⟩ := Option.map_eq_some_iff.mp taken
        have step := rateStep_of_step tallied.stages arrived
        have stages := step.stages tallied.stages
        cases step with
        | arrive call state tasks =>
            refine ⟨stages, ?_,
              clocked.arrive clock.1 clock.2 rfl rfl tasks,
              tallied.covered.arrive constant clock.1 clock.2 rfl state
                tasks⟩
            intro task member ours
            rw [tasks] at member
            rcases List.mem_append.mp member with old | new
            · exact tallied.same task old ours
            · rw [List.mem_singleton.mp new] at ours ⊢
              exact constant ours
      · cases taken
  | advance index choice =>
      obtain ⟨pool, moved, rfl⟩ := Option.map_eq_some_iff.mp taken
      have step := rateStep_of_step tallied.stages moved
      have stages := step.stages tallied.stages
      cases step with
      | insert call inserted found db tasks =>
          have calls : SameCalls swept { swept with pool } :=
            .set found tasks rfl
          exact ⟨stages, tallied.same_move calls,
            clocked.move calls (Int.le_refl _) clocked.pass,
            tallied.covered.insert tallied.stages found rfl db tasks⟩
      | count call inserted counted outcome found db allows limits tasks =>
          have calls : SameCalls swept { swept with pool } :=
            .set found tasks rfl
          have own := tallied.same _ (List.mem_of_getElem? found)
          exact ⟨stages, tallied.same_move calls,
            clocked.move calls (Int.le_refl _) clocked.pass,
            tallied.covered.count (fun here => own (congrArg Prod.fst here))
              found rfl db allows tasks⟩
  | wake now =>
      simp only [sweptStep] at taken
      split at taken
      · rename_i awake
        cases taken
        refine ⟨tallied.stages, tallied.same,
          clocked.move unmoved awake.1 ?_, tallied.covered.wake awake.1 rfl⟩
        intro woke read
        cases read
        exact Int.le_refl _
      · cases taken
  | delete =>
      obtain ⟨woke, pass, rfl⟩ := Option.map_eq_some_iff.mp taken
      refine ⟨tallied.stages, tallied.same,
        clocked.move unmoved (Int.le_refl _) ?_,
        tallied.covered.delete clocked tallied.same pass inTime rfl rfl rfl⟩
      intro woke gone
      cases gone

theorem reached {start : SweptPool}
    (first : Tallied outside slug config bucketStart start)
    (run : SweptReaches outside
      (fun swept label => constantLimit slug config label ∧
        SweptInTime slug config swept label) start swept) :
    Tallied outside slug config bucketStart swept := by
  induction run with
  | refl => exact first
  | step _ admitted taken induction =>
      exact induction.step admitted.1 admitted.2 taken

theorem allowed_le
    (tallied : Tallied outside slug config bucketStart swept) :
    swept.allowed (slug, bucketStart) ≤ config.maxRequests := by
  cases tallied.covered with
  | fresh none waiting =>
      have nothing : swept.allowed (slug, bucketStart) = 0 :=
        returnedIn_fresh tallied.stages waiting _
      rw [nothing]
      exact Nat.zero_le _
  | opened row stored counted atMost => exact atMost
  | closed closed none atMost => exact atMost

/-- The calls of a bucket are counted in the window that it begins with. -/
theorem allowedWithin_le {number : Nat}
    (tallied : Tallied outside slug config bucketStart swept)
    (apart : BucketsApart config.window)
    (start : bucketStart = (number * bucketSeconds config.window : Nat)) :
    swept.allowedWithin slug config.window bucketStart ≤
      swept.allowed (slug, bucketStart) := by
  unfold SweptPool.allowedWithin SweptPool.allowed returnedIn
  refine List.countP_mono_left ?_
  intro task member counted
  simp only [Bool.and_eq_true, beq_iff_eq, decide_eq_true_eq] at counted ⊢
  obtain ⟨⟨ours, after, before⟩, allows⟩ := counted
  refine ⟨?_, allows⟩
  have dateable := (tallied.onTime.read task member).1
  rw [start] at after before
  have window := windowStart_of_bucket apart dateable after before
  rw [RateCall.bucket, RateCall.start, tallied.same task member ours, ours,
    window, start]

end Tallied

/-- Where the sweep comes in time for the windows that still count, no bucket
allows more calls than the limit. -/
theorem swept_rate_limit {start : SweptPool} (number : Nat)
    (apart : BucketsApart config.window)
    (empty : start.pool.tasks = []) (epoch : 0 ≤ start.clock)
    (idle : start.pass = none)
    (stored : start.pool.state.db.countersIn
        (slug, (number * bucketSeconds config.window : Nat)) = [] ∨
      ∃ row, start.pool.state.db.countersIn
        (slug, (number * bucketSeconds config.window : Nat)) = [row] ∧
          0 ≤ row.count)
    (run : SweptReaches outside
      (fun swept label => constantLimit slug config label ∧
        SweptInTime slug config swept label) start swept) :
    swept.allowedWithin slug config.window
        (number * bucketSeconds config.window : Nat) ≤
      config.maxRequests := by
  have tallied : Tallied outside slug config _ swept :=
    (Tallied.start empty epoch idle stored).reached run
  exact (tallied.allowedWithin_le apart rfl).trans tallied.allowed_le

/-- A pass is always in time for windows of at most 48 hours when the checks
of the hook that are yet to make their insertion came after it. -/
theorem sweptInTime_of_short (short : bucketSeconds config.window ≤ 48 * 3600)
    (onTime : OnTime swept) (dateable : Dateable swept.clock)
    (fresh : ∀ woke ∈ swept.pass, ∀ task ∈ swept.pool.tasks,
      task.job.hookSlug = slug → task.trace = [] → woke ≤ task.job.now)
    (label : SweepLabel) : SweptInTime slug config swept label := by
  cases label with
  | arrive call => trivial
  | advance index choice => trivial
  | wake now => trivial
  | delete =>
      intro woke pass counted _ _ _ now awaited inBucket
      obtain ⟨dated, after⟩ : Dateable now ∧ woke ≤ now := by
        rcases awaited with rfl | ⟨task, member, ours, waiting, rfl⟩
        · exact ⟨dateable, onTime.pass woke pass⟩
        · exact ⟨(onTime.read task member).1,
            fresh woke pass task member ours waiting⟩
      have before := @Dateable.lt_windowStart_add config.window _ dated
      rw [inBucket] at before
      omega

end Bound

/-- Follow a schedule. -/
def sweptRun (outside : Outside) (swept : SweptPool)
    (schedule : List SweepLabel) : Option SweptPool :=
  schedule.foldlM (sweptStep outside) swept

theorem SweptReaches.of_run {outside : Outside}
    {admits : SweptPool → SweepLabel → Prop} {start swept target : SweptPool}
    {schedule : List SweepLabel}
    (reached : SweptReaches outside admits start swept)
    (admitted : ∀ label ∈ schedule, ∀ swept, admits swept label)
    (followed : sweptRun outside swept schedule = some target) :
    SweptReaches outside admits start target := by
  induction schedule generalizing swept with
  | nil =>
      cases followed
      exact reached
  | cons label schedule induction =>
      rw [sweptRun, List.foldlM_cons] at followed
      obtain ⟨middle, taken, rest⟩ := Option.bind_eq_some_iff.mp followed
      have first := admitted label List.mem_cons_self swept
      exact induction (.step reached first taken)
        (fun label member => admitted label (List.mem_cons_of_mem _ member))
        rest

def idleSweep : SweptPool := { pool := idleLimiter, clock := 0 }

/-- One call in the first minute, and a pass that begins on the fourth
day. -/
def minuteCall : List SweepLabel :=
  [.arrive (firstMinute 1), .advance 0 {}, .advance 0 {},
    .wake (259200 * 1000000000)]

def beforeDelete : SweptPool :=
  (sweptRun .accepting idleSweep minuteCall).get (by decide)

theorem swept_rate_limit_minute :
    ∃ swept, sweptStep .accepting beforeDelete .delete = some swept ∧
      swept.allowedWithin "deploy" twicePerMinute.window 0 ≤ 2 := by
  refine ⟨_, rfl, ?_⟩
  have reached : SweptReaches .accepting
      (fun swept label => constantLimit "deploy" twicePerMinute label ∧
        SweptInTime "deploy" twicePerMinute swept label)
      idleSweep beforeDelete := by
    refine SweptReaches.of_run .refl ?_ (Option.some_get _).symm
    intro label member swept
    simp only [minuteCall, List.mem_cons, List.not_mem_nil, or_false]
      at member
    rcases member with rfl | rfl | rfl | rfl
    · exact ⟨fun _ => rfl, trivial⟩
    · exact ⟨trivial, trivial⟩
    · exact ⟨trivial, trivial⟩
    · exact ⟨trivial, trivial⟩
  have inTime : SweptInTime "deploy" twicePerMinute beforeDelete .delete := by
    refine sweptInTime_of_short (by decide) ⟨by decide, ?_, by decide⟩
      ⟨by decide, by decide⟩ (by decide) .delete
    intro task member
    have read : ∀ task ∈ beforeDelete.pool.tasks,
        task.job.now = 1000000000 := by decide
    rw [read task member]
    exact ⟨⟨by decide, by decide⟩, by decide⟩
  have admitted : constantLimit "deploy" twicePerMinute .delete ∧
      SweptInTime "deploy" twicePerMinute beforeDelete .delete :=
    ⟨trivial, inTime⟩
  exact @swept_rate_limit .accepting "deploy" twicePerMinute _ idleSweep 0
    (.inl (by decide)) rfl (by decide) rfl (.inl rfl)
    (.step reached admitted rfl)

def oncePerWeek : TriggerRateLimit :=
  { maxRequests := 1, window := Duration.fromSecs 604800 }

/-- A window of a second and a half. -/
def oncePerBlink : TriggerRateLimit :=
  { maxRequests := 1, window := 1500000000 }

def callAt (config : TriggerRateLimit) (seconds : Int) : RateCall :=
  { hookSlug := "deploy", config, now := seconds * 1000000000 }

/-- A pass on the fourth day of the week between two calls. -/
def sweptWeek : List SweepLabel :=
  [.arrive (callAt oncePerWeek 1), .advance 0 {}, .advance 0 {},
    .wake (259200 * 1000000000), .delete,
    .arrive (callAt oncePerWeek 259201), .advance 1 {}, .advance 1 {}]

/-- Two calls of one bucket in the two windows of a second that it meets. -/
def twoBlinks : List SweepLabel :=
  [.arrive (callAt oncePerBlink 1), .advance 0 {}, .advance 0 {},
    .arrive (callAt oncePerBlink 2), .advance 1 {}, .advance 1 {}]

/-- Both calls of the week are allowed, and so are two calls a second apart
in a bucket of a second and a half. -/
theorem not_swept_rate_limit :
    (∃ swept, SweptReaches .accepting
        (fun _ label => constantLimit "deploy" oncePerWeek label)
        idleSweep swept ∧
      ¬ swept.allowedWithin "deploy" oncePerWeek.window 0 ≤
        oncePerWeek.maxRequests) ∧
    ∃ swept, SweptReaches .accepting
        (fun _ label => constantLimit "deploy" oncePerBlink label)
        idleSweep swept ∧
      ¬ swept.allowedWithin "deploy" oncePerBlink.window 1 ≤
        oncePerBlink.maxRequests := by
  constructor
  · refine ⟨(sweptRun .accepting idleSweep sweptWeek).get (by decide),
      .of_run .refl ?_ (Option.some_get _).symm, by decide⟩
    intro label member swept
    simp only [sweptWeek, List.mem_cons, List.not_mem_nil, or_false]
      at member
    rcases member with rfl | rfl | rfl | rfl | rfl | rfl | rfl | rfl
    · exact fun _ => rfl
    · trivial
    · trivial
    · trivial
    · trivial
    · exact fun _ => rfl
    · trivial
    · trivial
  · refine ⟨(sweptRun .accepting idleSweep twoBlinks).get (by decide),
      .of_run .refl ?_ (Option.some_get _).symm, by decide⟩
    intro label member swept
    simp only [twoBlinks, List.mem_cons, List.not_mem_nil, or_false]
      at member
    rcases member with rfl | rfl | rfl | rfl | rfl | rfl
    · exact fun _ => rfl
    · trivial
    · trivial
    · exact fun _ => rfl
    · trivial
    · trivial

end Sendword
