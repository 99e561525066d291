import Sendword.TriggerRules

/-!
# The rate limiter under concurrency

Any number of `evaluate_at` calls interleaved one statement at a time.  The
calls of one bucket share one counter row: whichever call comes first inserts
it, and a call is allowed exactly when its conditional increment finds the
counter below the limit.
-/

namespace Sendword

open Concurrency

/-- One call of `evaluate_at`. -/
structure RateCall where
  hookSlug : String
  config : TriggerRateLimit
  now : Int
  deriving DecidableEq, Repr

/-- The key of a counter row: the hook and the start of the window. -/
abbrev Bucket := String × Int

namespace RateCall

def start (call : RateCall) : Int :=
  RateLimit.windowStart call.config.window call.now

def bucket (call : RateCall) : Bucket :=
  (call.hookSlug, call.start)

end RateCall

def limiter (outside : Outside) :
    Machine World Choice RateCall Op.Answer EvalOutcome where
  body call :=
    RateLimit.evaluateAt outside call.hookSlug call.config call.now
  perform := perform
  forks _ := none

abbrev RateTask := Task RateCall Op.Answer EvalOutcome

abbrev RatePool := Pool World RateCall Op.Answer EvalOutcome

abbrev RateLabel := Label Choice RateCall

/-- All calls for the hook use the same limit and window. -/
def sameLimit (slug : String) (config : TriggerRateLimit) :
    RateLabel → Bool
  | .arrive call => call.hookSlug != slug || call.config == config
  | .advance .. => true

def EvalOutcome.allows : EvalOutcome → Bool
  | .allow => true
  | .reject .. => false

/-- The outcome of a request over the limit. -/
def EvalOutcome.limits : EvalOutcome → Bool
  | .allow => false
  | .reject status _ => status == .rateLimited

/-- The number of calls in a bucket. -/
def callsIn (bucket : Bucket) (tasks : List RateTask) : Nat :=
  tasks.countP fun task => task.job.bucket == bucket

/-- The number of calls in a bucket that returned such an outcome. -/
def returnedIn (bucket : Bucket) (outcome : EvalOutcome → Bool)
    (tasks : List RateTask) : Nat :=
  tasks.countP fun task =>
    task.job.bucket == bucket && task.program.result?.any outcome

def CounterRow.bucket (row : CounterRow) : Bucket :=
  (row.hookSlug, row.windowStart)

/-- The counter rows of a bucket. -/
def Db.countersIn (db : Db) (bucket : Bucket) : List CounterRow :=
  db.counters.filter fun row => row.bucket == bucket

/-- The counter of a bucket; no row counts as zero. -/
def Db.counter (db : Db) (bucket : Bucket) : Int :=
  ((db.countersIn bucket).head?.map (·.count)).getD 0

/-! ## The two statements -/

theorem bucket_beq (row : CounterRow) (slug : String) (start : Int) :
    (row.hookSlug == slug && row.windowStart == start) =
      (row.bucket == (slug, start)) := rfl

theorem countersIn_insert (db : Db) (slug : String) (start : Int)
    (bucket : Bucket) :
    (CounterStatement.exec db (.insertOrIgnore slug start)).2.countersIn
        bucket =
      if bucket = (slug, start) ∧ db.countersIn bucket = [] then
        [{ hookSlug := slug, windowStart := start }]
      else db.countersIn bucket := by
  unfold CounterStatement.exec
  dsimp only
  split
  · rename_i present
    refine (if_neg ?_).symm
    rintro ⟨rfl, none⟩
    obtain ⟨row, member, same⟩ := List.any_eq_true.mp present
    exact (List.filter_eq_nil_iff.mp none row member) same
  · rename_i absent
    rw [Db.countersIn, List.filter_append]
    by_cases same : bucket = (slug, start)
    · subst same
      have none : db.countersIn (slug, start) = [] := by
        refine List.filter_eq_nil_iff.mpr ?_
        intro row member found
        exact absent (List.any_eq_true.mpr ⟨row, member, found⟩)
      rw [if_pos ⟨rfl, none⟩]
      rw [Db.countersIn] at none
      rw [none]
      simp [CounterRow.bucket]
    · have other : ((slug, start) == bucket) = false :=
        beq_eq_false_iff_ne.mpr (Ne.symm same)
      rw [if_neg fun both => same both.1]
      simp [CounterRow.bucket, other, Db.countersIn]

/-- What the increment does to a row. -/
def CounterRow.spend (bucket : Bucket) (limit : Int) (row : CounterRow) :
    CounterRow :=
  if CounterStatement.below bucket.1 bucket.2 limit row then
    { row with count := row.count + 1 }
  else row

@[simp] theorem CounterRow.spend_bucket (bucket : Bucket) (limit : Int)
    (row : CounterRow) : (row.spend bucket limit).bucket = row.bucket := by
  unfold spend
  split <;> rfl

theorem CounterRow.spend_of_ne {bucket : Bucket} {row : CounterRow}
    (limit : Int) (other : row.bucket ≠ bucket) :
    row.spend bucket limit = row := by
  refine if_neg ?_
  have elsewhere : (row.bucket == bucket) = false :=
    beq_eq_false_iff_ne.mpr other
  rw [CounterStatement.below, bucket_beq, elsewhere]
  exact Bool.false_ne_true

theorem countersIn_increment (db : Db) (slug : String) (start limit : Int)
    (bucket : Bucket) :
    (CounterStatement.exec db (.increment slug start limit)).2.countersIn
        bucket =
      if bucket = (slug, start) then
        (db.countersIn bucket).map (·.spend bucket limit)
      else db.countersIn bucket := by
  have written :
      (CounterStatement.exec db (.increment slug start limit)).2.countersIn
        bucket =
      (db.countersIn bucket).map (·.spend (slug, start) limit) := by
    have raised :
        (CounterStatement.exec db (.increment slug start limit)).2.counters =
          db.counters.map (·.spend (slug, start) limit) := rfl
    rw [Db.countersIn, raised, List.filter_map, Db.countersIn]
    simp only [Function.comp_def, CounterRow.spend_bucket]
  rw [written]
  split
  · rename_i same
    rw [same]
  · rename_i other
    refine (List.map_congr_left ?_).trans (List.map_id _)
    intro row member
    have here : row.bucket = bucket := by
      simpa using (List.mem_filter.mp member).2
    exact CounterRow.spend_of_ne limit (here ▸ other)

theorem countP_below (db : Db) (slug : String) (start limit : Int) :
    db.counters.countP (CounterStatement.below slug start limit) =
      (db.countersIn (slug, start)).countP fun row =>
        decide (row.count < limit) := by
  rw [Db.countersIn, List.countP_filter]
  refine List.countP_congr ?_
  intro row member
  simp only [CounterStatement.below, bucket_beq, Bool.and_eq_true]
  exact and_comm

/-! ## The stages of a call -/

section Calls

variable {outside : Outside}

theorem outcomeOf_allows (outside : Outside) (config : TriggerRateLimit)
    (rows : Nat) :
    (RateLimit.outcomeOf outside config (.ok rows)).allows =
      decide (rows = 1) := by
  unfold RateLimit.outcomeOf
  split
  · rename_i failed
    cases failed
  · rename_i one
    cases one
    rfl
  · rename_i count other equality
    cases equality
    exact (decide_eq_false fun one => other (by rw [one])).symm

theorem outcomeOf_limits (outside : Outside) (config : TriggerRateLimit)
    (rows : Nat) :
    (RateLimit.outcomeOf outside config (.ok rows)).limits =
      !(RateLimit.outcomeOf outside config (.ok rows)).allows := by
  unfold RateLimit.outcomeOf
  split <;> rfl

/-- How far a call has come. -/
inductive RateStage (outside : Outside) : RateTask → Prop where
  | entering (call : RateCall) :
      RateStage outside
        { job := call
          trace := []
          program := RateLimit.evaluateAt outside call.hookSlug call.config
            call.now }
  | counting (call : RateCall) (inserted : Event Op.Answer) :
      RateStage outside
        { job := call
          trace := [inserted]
          program := RateLimit.increment outside call.hookSlug call.config
            call.start }
  | ended (call : RateCall) (inserted counted : Event Op.Answer)
      (outcome : EvalOutcome)
      (decided : outcome.allows = true ∨ outcome.limits = true) :
      RateStage outside
        { job := call, trace := [inserted, counted], program := .pure outcome }

/-- What one step of the limiter does. -/
inductive RateStep (outside : Outside) (pool target : RatePool) :
    RateLabel → Prop where
  | arrive (call : RateCall) :
      target.state = pool.state →
      target.tasks = pool.tasks ++ [(limiter outside).launch call] →
      RateStep outside pool target (.arrive call)
  | insert {index : Nat} {choice : Choice} (call : RateCall)
      (inserted : Event Op.Answer) :
      pool.tasks[index]? = some
        { job := call
          trace := []
          program := RateLimit.evaluateAt outside call.hookSlug call.config
            call.now } →
      target.state.db = (CounterStatement.exec pool.state.db
        (.insertOrIgnore call.hookSlug call.start)).2 →
      target.tasks = pool.tasks.set index
        { job := call
          trace := [inserted]
          program := RateLimit.increment outside call.hookSlug call.config
            call.start } →
      RateStep outside pool target (.advance index choice)
  | count {index : Nat} {choice : Choice} (call : RateCall)
      (inserted counted : Event Op.Answer) (outcome : EvalOutcome) :
      pool.tasks[index]? = some
        { job := call
          trace := [inserted]
          program := RateLimit.increment outside call.hookSlug call.config
            call.start } →
      target.state.db = (CounterStatement.exec pool.state.db
        (.increment call.hookSlug call.start
          (RateLimit.asI64 call.config.maxRequests))).2 →
      outcome.allows = decide (pool.state.db.counters.countP
        (CounterStatement.below call.hookSlug call.start
          (RateLimit.asI64 call.config.maxRequests)) = 1) →
      outcome.limits = !outcome.allows →
      target.tasks = pool.tasks.set index
        { job := call
          trace := [inserted, counted]
          program := .pure outcome } →
      RateStep outside pool target (.advance index choice)

theorem rateStep_of_step {pool target : RatePool} {label : RateLabel}
    (stages : ∀ task ∈ pool.tasks, RateStage outside task)
    (taken : (limiter outside).step pool label = some target) :
    RateStep outside pool target label := by
  cases label with
  | arrive call =>
      have equality : target =
          { pool with
            tasks := pool.tasks ++ [(limiter outside).launch call] } := by
        simpa [Machine.step] using taken.symm
      subst equality
      exact .arrive call rfl rfl
  | advance index choice =>
      obtain ⟨job, trace, op, next, answer, state, found, performed, rfl⟩ :=
        Machine.step_advance taken
      have stage := stages _ (List.mem_of_getElem? found)
      have unforked (op : Op) : (limiter outside).forked op = [] := rfl
      rw [unforked, List.append_nil]
      generalize shape : (Program.perform op next : Async EvalOutcome) =
        program at stage found
      cases stage with
      | entering =>
          rw [RateLimit.evaluateAt, sql, Sendword.op] at shape
          cases shape
          cases performed
          exact .insert job _ found rfl rfl
      | counting call inserted =>
          have counts := shape
          rw [RateLimit.increment, sql, Sendword.op] at counts
          cases counts
          cases performed
          refine .count job inserted _ _ found rfl ?_ ?_ rfl
          · exact outcomeOf_allows outside job.config _
          · exact outcomeOf_limits outside job.config _
      | ended => cases shape

theorem RateStep.stages {pool target : RatePool} {label : RateLabel}
    (step : RateStep outside pool target label)
    (stages : ∀ task ∈ pool.tasks, RateStage outside task) :
    ∀ task ∈ target.tasks, RateStage outside task := by
  intro task member
  cases step with
  | arrive call _ tasks =>
      rw [tasks] at member
      rcases List.mem_append.mp member with old | new
      · exact stages task old
      · rw [List.mem_singleton.mp new]
        exact .entering call
  | insert call inserted _ _ tasks =>
      rw [tasks] at member
      rcases List.mem_or_eq_of_mem_set member with old | rfl
      · exact stages task old
      · exact .counting call inserted
  | count call inserted counted outcome _ _ _ refused tasks =>
      rw [tasks] at member
      rcases List.mem_or_eq_of_mem_set member with old | rfl
      · exact stages task old
      · refine .ended call inserted counted outcome ?_
        rw [refused]
        cases outcome.allows <;> simp

/-! ## Counting the answers -/

theorem returnedIn_launch (bucket : Bucket) (outcome : EvalOutcome → Bool)
    (tasks : List RateTask) (call : RateCall) :
    returnedIn bucket outcome (tasks ++ [(limiter outside).launch call]) =
      returnedIn bucket outcome tasks := by
  have running : ((limiter outside).launch call).program.result? = none :=
    rfl
  simp [returnedIn, running]

/-- A call that goes on adds nothing, one that ends adds its own answer. -/
theorem returnedIn_set {tasks : List RateTask} {index : Nat}
    {old : RateTask} (bucket : Bucket) (outcome : EvalOutcome → Bool)
    (new : RateTask) (found : tasks[index]? = some old)
    (running : old.program.result? = none) :
    returnedIn bucket outcome (tasks.set index new) =
      returnedIn bucket outcome tasks +
        if (new.job.bucket == bucket && new.program.result?.any outcome) =
          true then 1 else 0 := by
  obtain ⟨inside, here⟩ := List.getElem?_eq_some_iff.mp found
  have silent : (old.job.bucket == bucket &&
      old.program.result?.any outcome) = false := by
    simp [running]
  rw [returnedIn, List.countP_set inside, here, silent]
  simp [returnedIn]

/-- The counter of a bucket counts the calls it allowed. -/
inductive Metered (bucket : Bucket) (limit : Nat) (db : Db)
    (tasks : List RateTask) : Prop where
  | fresh :
      db.countersIn bucket = [] →
      (∀ task ∈ tasks, task.job.bucket = bucket → task.trace = []) →
      Metered bucket limit db tasks
  | opened (row : CounterRow) (allowed : Nat) :
      db.countersIn bucket = [row] →
      row.count = allowed →
      returnedIn bucket EvalOutcome.allows tasks = allowed →
      allowed ≤ limit →
      (returnedIn bucket EvalOutcome.limits tasks ≠ 0 → allowed = limit) →
      Metered bucket limit db tasks

variable {bucket : Bucket} {limit : Nat} {pool target : RatePool}

/-- A bucket without a row has given no answer. -/
theorem returnedIn_fresh {tasks : List RateTask}
    (stages : ∀ task ∈ tasks, RateStage outside task)
    (waiting : ∀ task ∈ tasks, task.job.bucket = bucket → task.trace = [])
    (outcome : EvalOutcome → Bool) :
    returnedIn bucket outcome tasks = 0 := by
  refine List.countP_eq_zero.mpr ?_
  intro task member answered
  rw [Bool.and_eq_true, beq_iff_eq] at answered
  have unstarted := waiting task member answered.1
  cases stages task member with
  | entering call => exact Bool.false_ne_true answered.2
  | counting call inserted => cases unstarted
  | ended call inserted counted outcome => cases unstarted

theorem Metered.arrive {call : RateCall}
    (metered : Metered bucket limit pool.state.db pool.tasks)
    (state : target.state = pool.state)
    (tasks : target.tasks = pool.tasks ++ [(limiter outside).launch call]) :
    Metered bucket limit target.state.db target.tasks := by
  rw [state, tasks]
  cases metered with
  | fresh none waiting =>
      refine .fresh none ?_
      intro task member inBucket
      rcases List.mem_append.mp member with old | new
      · exact waiting task old inBucket
      · rw [List.mem_singleton.mp new]
        rfl
  | opened row allowed found count counted atMost full =>
      refine .opened row allowed found count ?_ atMost ?_
      · rw [returnedIn_launch, counted]
      · rw [returnedIn_launch]
        exact full

theorem Metered.insert {index : Nat} {call : RateCall}
    {old new : RateTask}
    (stages : ∀ task ∈ pool.tasks, RateStage outside task)
    (metered : Metered bucket limit pool.state.db pool.tasks)
    (found : pool.tasks[index]? = some old)
    (oldRunning : old.program.result? = none)
    (newRunning : new.program.result? = none)
    (sameCall : new.job = call)
    (db : target.state.db = (CounterStatement.exec pool.state.db
      (.insertOrIgnore call.hookSlug call.start)).2)
    (tasks : target.tasks = pool.tasks.set index new) :
    Metered bucket limit target.state.db target.tasks := by
  have same (outcome : EvalOutcome → Bool) :
      returnedIn bucket outcome target.tasks =
        returnedIn bucket outcome pool.tasks := by
    rw [tasks, returnedIn_set bucket outcome new found oldRunning]
    simp [newRunning]
  have rows := countersIn_insert pool.state.db call.hookSlug call.start
    bucket
  rw [← db] at rows
  cases metered with
  | fresh none waiting =>
      by_cases here : bucket = call.bucket
      · rw [if_pos ⟨here, none⟩] at rows
        refine .opened _ 0 rows rfl ?_ (Nat.zero_le limit) ?_
        · rw [same, returnedIn_fresh stages waiting]
        · rw [same, returnedIn_fresh stages waiting]
          exact fun nonzero => (nonzero rfl).elim
      · rw [if_neg fun both => here both.1, none] at rows
        refine .fresh rows ?_
        intro task member inBucket
        rw [tasks] at member
        rcases List.mem_or_eq_of_mem_set member with other | rfl
        · exact waiting task other inBucket
        · rw [sameCall] at inBucket
          exact (here inBucket.symm).elim
  | opened row allowed stored count counted atMost full =>
      rw [if_neg (by simp [stored]), stored] at rows
      refine .opened row allowed rows count ?_ atMost ?_
      · rw [same, counted]
      · rw [same]
        exact full

/-- In its own bucket a call finds the one row and takes one of the free
places, if there is one. -/
theorem Metered.spent {call : RateCall} {row : CounterRow} {allowed : Nat}
    {outcome : EvalOutcome}
    (stored : pool.state.db.countersIn call.bucket = [row])
    (counter : row.count = allowed)
    (counted :
      returnedIn call.bucket EvalOutcome.allows pool.tasks = allowed)
    (atMost : allowed ≤ limit)
    (full : returnedIn call.bucket EvalOutcome.limits pool.tasks ≠ 0 →
      allowed = limit)
    (rows : target.state.db.countersIn call.bucket =
      [row].map (·.spend call.bucket limit))
    (allows : outcome.allows = decide (pool.state.db.counters.countP
      (CounterStatement.below call.hookSlug call.start limit) = 1))
    (limits : outcome.limits = !outcome.allows)
    (answers : ∀ shown : EvalOutcome → Bool,
      returnedIn call.bucket shown target.tasks =
        returnedIn call.bucket shown pool.tasks +
          if (call.bucket == call.bucket && shown outcome) = true then 1
          else 0) :
    Metered call.bucket limit target.state.db target.tasks := by
  have matched : pool.state.db.counters.countP
      (CounterStatement.below call.hookSlug call.start limit) =
        if allowed < limit then 1 else 0 := by
    have only : pool.state.db.countersIn (call.hookSlug, call.start) =
        [row] := stored
    rw [countP_below]
    simp [only, counter]
  rw [matched] at allows
  by_cases free : allowed < limit
  · have allowing : outcome.allows = true := by simp [allows, free]
    have inRow : (row.bucket == call.bucket) = true := by
      have member : row ∈ pool.state.db.countersIn call.bucket := by
        simp [stored]
      exact (List.mem_filter.mp member).2
    have raised : row.spend call.bucket limit =
        { row with count := row.count + 1 } := by
      refine if_pos ?_
      simp only [CounterStatement.below, bucket_beq, Bool.and_eq_true,
        decide_eq_true_eq]
      exact ⟨inRow, by omega⟩
    rw [List.map_singleton, raised] at rows
    refine .opened _ (allowed + 1) rows ?_ ?_ free ?_
    · simp [counter]
    · simp [answers, allowing, counted]
    · rw [answers, limits, allowing]
      intro limiting
      have already := full (by simpa using limiting)
      omega
  · have refusing : outcome.allows = false := by simp [allows, free]
    have kept : row.spend call.bucket limit = row := by
      refine if_neg ?_
      simp only [CounterStatement.below, Bool.and_eq_true,
        decide_eq_true_eq, not_and]
      omega
    rw [List.map_singleton, kept] at rows
    refine .opened row allowed rows counter ?_ atMost ?_
    · simp [answers, refusing, counted]
    · exact fun _ => by omega

theorem Metered.count {index : Nat} {call : RateCall}
    {inserted : Event Op.Answer} {new : RateTask} {outcome : EvalOutcome}
    (metered : Metered bucket limit pool.state.db pool.tasks)
    (limited : call.bucket = bucket →
      RateLimit.asI64 call.config.maxRequests = limit)
    (found : pool.tasks[index]? = some
      { job := call
        trace := [inserted]
        program := RateLimit.increment outside call.hookSlug call.config
          call.start })
    (sameCall : new.job = call)
    (ended : new.program = .pure outcome)
    (db : target.state.db = (CounterStatement.exec pool.state.db
      (.increment call.hookSlug call.start
        (RateLimit.asI64 call.config.maxRequests))).2)
    (allows : outcome.allows = decide (pool.state.db.counters.countP
      (CounterStatement.below call.hookSlug call.start
        (RateLimit.asI64 call.config.maxRequests)) = 1))
    (limits : outcome.limits = !outcome.allows)
    (tasks : target.tasks = pool.tasks.set index new) :
    Metered bucket limit target.state.db target.tasks := by
  have answers (shown : EvalOutcome → Bool) :
      returnedIn bucket shown target.tasks =
        returnedIn bucket shown pool.tasks +
          if (call.bucket == bucket && shown outcome) = true then 1
          else 0 := by
    rw [tasks, returnedIn_set bucket shown new found rfl, sameCall, ended]
    rfl
  have rows := countersIn_increment pool.state.db call.hookSlug call.start
    (RateLimit.asI64 call.config.maxRequests) bucket
  rw [← db] at rows
  cases metered with
  | fresh none waiting =>
      have elsewhere : call.bucket ≠ bucket := by
        intro here
        have unstarted := waiting _ (List.mem_of_getElem? found) here
        cases unstarted
      rw [if_neg fun same => elsewhere same.symm, none] at rows
      refine .fresh rows ?_
      intro task member inBucket
      rw [tasks] at member
      rcases List.mem_or_eq_of_mem_set member with other | rfl
      · exact waiting task other inBucket
      · rw [sameCall] at inBucket
        exact (elsewhere inBucket).elim
  | opened row allowed stored counter counted atMost full =>
      by_cases here : call.bucket = bucket
      · subst here
        have own : call.bucket = (call.hookSlug, call.start) := rfl
        rw [limited rfl] at rows allows
        rw [if_pos own, stored] at rows
        exact .spent stored counter counted atMost full rows allows limits
          answers
      · have other : (call.bucket == bucket) = false :=
          beq_eq_false_iff_ne.mpr here
        have same (shown : EvalOutcome → Bool) :
            returnedIn bucket shown target.tasks =
              returnedIn bucket shown pool.tasks := by
          rw [answers, other]
          rfl
        rw [if_neg fun same => here same.symm, stored] at rows
        refine .opened row allowed rows counter ?_ atMost ?_
        · rw [same, counted]
        · rw [same]
          exact full

end Calls

/-! ## The limit -/

section Limit

variable {outside : Outside} {slug : String} {config : TriggerRateLimit}
  {start pool target : RatePool}

/-- What holds in every reached pool. -/
structure Limited (outside : Outside) (slug : String)
    (config : TriggerRateLimit) (bucketStart : Int) (pool : RatePool) :
    Prop where
  stages : ∀ task ∈ pool.tasks, RateStage outside task
  configs : ∀ task ∈ pool.tasks, task.job.hookSlug = slug →
    task.job.config = config
  metered : Metered (slug, bucketStart) config.maxRequests pool.state.db
    pool.tasks

theorem asI64_of_lt {value : Nat} (small : value < 2 ^ 63) :
    RateLimit.asI64 value = value := by
  unfold RateLimit.asI64
  rw [BitVec.toInt_eq_toNat_cond]
  have fits : value % 2 ^ 64 = value := Nat.mod_eq_of_lt (by omega)
  rw [BitVec.toNat_ofNat, fits, if_pos (by omega)]

theorem Limited.step {bucketStart : Int} {label : RateLabel}
    (small : config.maxRequests < 2 ^ 63)
    (limited : Limited outside slug config bucketStart pool)
    (admitted : sameLimit slug config label = true)
    (taken : (limiter outside).step pool label = some target) :
    Limited outside slug config bucketStart target := by
  have step := rateStep_of_step limited.stages taken
  refine ⟨step.stages limited.stages, ?_, ?_⟩
  · intro task member ofHook
    cases step with
    | arrive call _ tasks =>
        rw [tasks] at member
        rcases List.mem_append.mp member with old | new
        · exact limited.configs task old ofHook
        · rw [List.mem_singleton.mp new] at ofHook ⊢
          change call.hookSlug = slug at ofHook
          simpa [sameLimit, ofHook, Machine.launch] using admitted
    | insert call inserted found _ tasks =>
        rw [tasks] at member
        rcases List.mem_or_eq_of_mem_set member with old | rfl
        · exact limited.configs task old ofHook
        · have same :=
            limited.configs _ (List.mem_of_getElem? found)
          exact same ofHook
    | count call inserted counted outcome found _ _ _ tasks =>
        rw [tasks] at member
        rcases List.mem_or_eq_of_mem_set member with old | rfl
        · exact limited.configs task old ofHook
        · have same :=
            limited.configs _ (List.mem_of_getElem? found)
          exact same ofHook
  · cases step with
    | arrive call state tasks => exact limited.metered.arrive state tasks
    | insert call inserted found db tasks =>
        exact limited.metered.insert limited.stages found rfl rfl rfl db
          tasks
    | count call inserted counted outcome found db allows limits tasks =>
        refine limited.metered.count ?_ found rfl rfl db allows limits tasks
        intro here
        have ofHook : call.hookSlug = slug := congrArg Prod.fst here
        have sameConfig : call.config = config :=
          limited.configs _ (List.mem_of_getElem? found) ofHook
        rw [sameConfig]
        exact asI64_of_lt small

theorem Limited.reached {bucketStart : Int}
    (small : config.maxRequests < 2 ^ 63)
    (empty : start.tasks = [])
    (fresh : start.state.db.countersIn (slug, bucketStart) = [])
    (reached : (limiter outside).Reaches
      (fun _ label => sameLimit slug config label = true) start pool) :
    Limited outside slug config bucketStart pool := by
  induction reached with
  | refl =>
      refine ⟨by simp [empty], by simp [empty], .fresh fresh ?_⟩
      simp [empty]
  | step _ admitted taken induction =>
      exact induction.step small admitted taken

/-- The calls that have ended are those that were allowed and those that
were refused. -/
theorem callsIn_eq {bucket : Bucket} {tasks : List RateTask}
    (stages : ∀ task ∈ tasks, RateStage outside task)
    (finished : ∀ task ∈ tasks, task.job.bucket = bucket →
      task.program.next? = none) :
    callsIn bucket tasks =
      returnedIn bucket EvalOutcome.allows tasks +
        returnedIn bucket EvalOutcome.limits tasks := by
  induction tasks with
  | nil => rfl
  | cons task tasks induction =>
      have rest := induction
        (fun other member => stages other (List.mem_cons_of_mem _ member))
        (fun other member => finished other (List.mem_cons_of_mem _ member))
      have mine := finished task List.mem_cons_self
      unfold callsIn returnedIn at rest ⊢
      simp only [List.countP_cons, rest]
      by_cases here : task.job.bucket = bucket
      · cases stages task List.mem_cons_self with
        | entering call => cases mine here
        | counting call inserted => cases mine here
        | ended call inserted counted outcome decided =>
            have one : (if outcome.allows = true then 1 else 0) +
                (if outcome.limits = true then 1 else 0) = 1 := by
              cases outcome with
              | allow => rfl
              | reject status reason =>
                  have limiting : (EvalOutcome.reject status
                      reason).limits = true := by
                    simpa [EvalOutcome.allows] using decided
                  simp [limiting, EvalOutcome.allows]
            simp only [here, BEq.rfl, Bool.true_and, Program.result?_pure,
              Option.any_some, if_true]
            omega
      · have elsewhere : (task.job.bucket == bucket) = false :=
          beq_eq_false_iff_ne.mpr here
        simp [elsewhere]

/-- Exactly as many calls of a fresh bucket are allowed as the limit has
places, and a call touches no counter but that of its bucket. -/
theorem exact_rate_limit {bucketStart : Int}
    (small : config.maxRequests < 2 ^ 63)
    (empty : start.tasks = [])
    (fresh : start.state.db.countersIn (slug, bucketStart) = [])
    (reached : (limiter outside).Reaches
      (fun _ label => sameLimit slug config label = true) start pool) :
    ((∀ task ∈ pool.tasks, task.job.bucket = (slug, bucketStart) →
        task.program.next? = none) →
      returnedIn (slug, bucketStart) EvalOutcome.allows pool.tasks =
          min (callsIn (slug, bucketStart) pool.tasks) config.maxRequests ∧
        returnedIn (slug, bucketStart) EvalOutcome.limits pool.tasks =
          callsIn (slug, bucketStart) pool.tasks -
            min (callsIn (slug, bucketStart) pool.tasks)
              config.maxRequests ∧
        pool.state.db.counter (slug, bucketStart) =
          min (callsIn (slug, bucketStart) pool.tasks)
            config.maxRequests) ∧
      ∀ index choice task target other,
        pool.tasks[index]? = some task →
        (limiter outside).step pool (.advance index choice) = some target →
        other ≠ task.job.bucket →
        target.state.db.countersIn other =
          pool.state.db.countersIn other := by
  have limited := Limited.reached small empty fresh reached
  constructor
  · intro finished
    have total := callsIn_eq limited.stages finished
    rw [total]
    cases limited.metered with
    | fresh none waiting =>
        have allowed := returnedIn_fresh limited.stages waiting
          EvalOutcome.allows
        have refused := returnedIn_fresh limited.stages waiting
          EvalOutcome.limits
        simp [allowed, refused, Db.counter, none]
    | opened row allowed stored count counted atMost full =>
        have counter : pool.state.db.counter (slug, bucketStart) =
            allowed := by
          simp [Db.counter, stored, count]
        rw [counter, counted]
        by_cases refused : returnedIn (slug, bucketStart)
            EvalOutcome.limits pool.tasks = 0
        · rw [refused]
          omega
        · have used := full refused
          omega
  · intro index choice task target other found taken elsewhere
    have step := rateStep_of_step limited.stages taken
    cases step with
    | insert call inserted foundCall db tasks =>
        obtain rfl := Option.some.inj (found.symm.trans foundCall)
        rw [db, countersIn_insert]
        exact if_neg fun both => elsewhere both.1
    | count call inserted counted outcome foundCall db allows limits tasks =>
        obtain rfl := Option.some.inj (found.symm.trans foundCall)
        rw [db, countersIn_increment]
        exact if_neg elsewhere

end Limit

def twicePerMinute : TriggerRateLimit :=
  { maxRequests := 2, window := Duration.fromSecs 60 }

/-- A call in the first minute of the epoch. -/
def firstMinute (seconds : Int) : RateCall :=
  { hookSlug := "deploy"
    config := twicePerMinute
    now := seconds * 1000000000 }

/-- Three calls in one bucket: the second and the third enter before the
first has counted. -/
def threeCalls : List RateLabel :=
  [.arrive (firstMinute 1), .arrive (firstMinute 2),
    .arrive (firstMinute 59), .advance 0 {}, .advance 1 {}, .advance 2 {},
    .advance 2 {}, .advance 0 {}, .advance 1 {}]

def idleLimiter : RatePool :=
  { state := { config := {} }, tasks := [] }

def threeCounted : RatePool :=
  ((limiter .accepting).run (fun _ => sameLimit "deploy" twicePerMinute)
    idleLimiter threeCalls).get
    (by decide)

theorem exact_rate_limit_three :
    returnedIn ("deploy", 0) EvalOutcome.allows threeCounted.tasks = 2 ∧
      returnedIn ("deploy", 0) EvalOutcome.limits threeCounted.tasks = 1 ∧
      threeCounted.state.db.counter ("deploy", 0) = 2 := by
  have reached : (limiter .accepting).Reaches
      (fun _ label => sameLimit "deploy" twicePerMinute label = true)
      idleLimiter threeCounted :=
    .of_run .refl (Option.some_get _).symm
  have fresh : idleLimiter.state.db.countersIn ("deploy", 0) = [] := rfl
  obtain ⟨counted, -⟩ := exact_rate_limit (by decide) rfl fresh reached
  exact counted (by decide)

end Sendword
