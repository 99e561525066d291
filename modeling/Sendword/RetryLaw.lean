import Mathlib.Order.Bounds.Basic
import Sendword.Attempts

/-!
# The retry loop

How many attempts `run_with_retries` makes, what it waits for in between, and
what it leaves in the record, for every sequence of outcomes.
-/

namespace Sendword

open Concurrency

/-- The outcome of a failed command that was run: the loop tries again. -/
def ExecutionResult.retryable (result : ExecutionResult) : Bool :=
  result.status = .failed ∧ result.exitCode.isSome

/-- The outcomes that an executor can have. -/
def PossibleOutcome : ResolvedExecutor → ExecutionResult → Prop
  | .http .., result => ∃ outcome : HttpOutcome, outcome.result = result
  | .shell _, result | .script .., result =>
      ∃ outcome : ProcessOutcome, outcome.result = result

def Beat.outcome? : Beat → Option ExecutionResult
  | .attempt outcome => some outcome
  | .wait _ => none

/-- The outcomes of the attempts, in order. -/
def attemptsOf (trace : List (Event Op.Answer)) : List ExecutionResult :=
  (beats trace).filterMap Beat.outcome?

/-- The attempts have the outcomes of the sequence. -/
def Follows (outcomes : Nat → ExecutionResult)
    (attempts : List ExecutionResult) : Prop :=
  ∀ index outcome, attempts[index]? = some outcome →
    outcome = outcomes index

/-- A delay of zero is not slept. -/
def waits (delay : Duration) : List Beat :=
  if delay = 0 then [] else [.wait delay]

/-- `count` retries from the one with number `first` on, each after its
backoff. -/
def retryBeats (retries : EffectiveRetryConfig)
    (outcomes : Nat → ExecutionResult) (first count : Nat) : List Beat :=
  (List.range count).flatMap fun index =>
    waits (calculateBackoff retries.backoff (first + index)
      retries.initialDelay retries.maxDelay) ++
        [.attempt (outcomes (index + 1))]

/-- The first attempt and `count` retries. -/
def timeline (retries : EffectiveRetryConfig)
    (outcomes : Nat → ExecutionResult) (count : Nat) : List Beat :=
  .attempt (outcomes 0) :: retryBeats retries outcomes 1 count

/-- The record after the attempts. -/
structure AfterRetries (record : Execution) (count : Nat)
    (result : ExecutionResult) (final : Execution) : Prop where
  status : final.status = result.status
  exitCode : final.exitCode = result.exitCode
  retryCount : final.retryCount = record.retryCount + count
  approvedAt : final.approvedAt = record.approvedAt
  approvedBy : final.approvedBy = record.approvedBy
  triggeredAt : final.triggeredAt = record.triggeredAt
  requestPayload : final.requestPayload = record.requestPayload

/-- What a run of the loop with the given outcomes comes to. -/
structure RetryLaw (retries : EffectiveRetryConfig)
    (outcomes : Nat → ExecutionResult) (record : Execution)
    (trace : List (Event Op.Answer)) (result : ExecutionResult)
    (left : List Execution) (attempts : Nat) : Prop where
  least : IsLeast {attempts | 0 < attempts ∧
    (attempts = retries.count + 1 ∨
      (outcomes (attempts - 1)).retryable = false)} attempts
  made : (attemptsOf trace).length = attempts
  order : beats trace = timeline retries outcomes (attempts - 1)
  returned : result = outcomes (attempts - 1)
  recorded : ∃ final, left = [final] ∧
    AfterRetries record (attempts - 1) result final

variable {world after : World} {trace : List (Event Op.Answer)}
  {record : Execution} {context : ExecutionContext}
  {retries : EffectiveRetryConfig} {outcomes : Nat → ExecutionResult}

/-! ## Between two attempts -/

theorem among_backOff {id : String} {delay : Duration} {result : Unit}
    (runs : RunsAmong id (backOff context delay) world trace result after) :
    beats trace = waits delay ∧ LogFilesMade trace ∧
      recordsOf id after = recordsOf id world := by
  unfold backOff at runs
  by_cases zero : delay = 0
  · rw [if_pos zero] at runs
    obtain ⟨rfl, -, rfl⟩ := among_return.mp runs
    refine ⟨?_, by simp, rfl⟩
    simp [waits, zero, beats]
  · rw [if_neg zero] at runs
    obtain ⟨rfl, same⟩ := among_quiet (fun _ => rfl) runs
    refine ⟨?_, by simp [logFilesMissing], same⟩
    simp [waits, zero, beats, beat?]

theorem among_incrementRetryCount {id : String} {result : DbResult Unit}
    (there : recordsOf id world = [record])
    (runs : RunsAmong id (incrementRetryCount id) world trace result after) :
    beats trace = [] ∧ LogFilesMade trace ∧ recordsOf id after =
      [{ record with retryCount := record.retryCount + 1 }] := by
  obtain ⟨_, rows, stored, _, rfl, updates, ended⟩ := among_bind.mp runs
  obtain ⟨rfl, rfl, rfl⟩ := among_return.mp ended
  obtain ⟨rfl, -, left⟩ := among_update
    (fun row hit => by simpa [ExecutionUpdate.matches?] using hit) there
    updates
  have matched : (ExecutionUpdate.incrementRetryCount id).matches? record =
      true := by
    simp [ExecutionUpdate.matches?, id_of_recordsOf there]
  rw [ExecutionUpdate.apply_of_matches matched] at left
  exact ⟨rfl, by simp [logFilesMissing], left⟩

theorem among_resetToPending {id : String} {result : DbResult Unit}
    (there : recordsOf id world = [record])
    (runs : RunsAmong id (resetToPending id) world trace result after) :
    result = .ok () ∧ beats trace = [] ∧ LogFilesMade trace ∧
      recordsOf id after = [{ record with
        status := .pending
        startedAt := none
        completedAt := none
        exitCode := none }] := by
  obtain ⟨_, rows, stored, _, rfl, updates, ended⟩ := among_bind.mp runs
  obtain ⟨rfl, rfl, rfl⟩ := among_return.mp ended
  obtain ⟨rfl, answered, left⟩ := among_update
    (fun row hit => by simpa [ExecutionUpdate.matches?] using hit) there
    updates
  have matched : (ExecutionUpdate.resetToPending id).matches? record =
      true := by
    simp [ExecutionUpdate.matches?, id_of_recordsOf there]
  rw [ExecutionUpdate.apply_of_matches matched] at left
  rw [if_pos matched] at answered
  exact ⟨by rw [answered], rfl, by simp [logFilesMissing], left⟩

/-! ## The loop -/

theorem retryBeats_succ (first count : Nat) :
    retryBeats retries outcomes first (count + 1) =
      waits (calculateBackoff retries.backoff first retries.initialDelay
        retries.maxDelay) ++ .attempt (outcomes 1) ::
          retryBeats retries (fun index => outcomes (index + 1)) (first + 1)
            count := by
  simp [retryBeats, List.range_succ_eq_map, List.flatMap_map,
    Nat.add_assoc, Nat.add_comm 1]

theorem attemptsOf_waits (delay : Duration) :
    (waits delay).filterMap Beat.outcome? = [] := by
  unfold waits
  split
  · rfl
  · rfl

theorem follows_cons {outcome : ExecutionResult}
    {attempts : List ExecutionResult} :
    Follows outcomes (outcome :: attempts) ↔
      outcome = outcomes 0 ∧
        Follows (fun index => outcomes (index + 1)) attempts := by
  constructor
  · intro follows
    exact ⟨follows 0 outcome rfl, fun index later found =>
      follows (index + 1) later found⟩
  · rintro ⟨first, follows⟩ index found isFound
    cases index with
    | zero => exact (Option.some.inj isFound).symm.trans first
    | succ index => exact follows index found isFound

/-- The loop stops after `count` of the retries that remain. -/
structure StopsAt (outcomes : Nat → ExecutionResult) (remaining count : Nat) :
    Prop where
  within : count ≤ remaining
  before : ∀ index < count, (outcomes index).retryable = true
  last : count = remaining ∨ (outcomes count).retryable = false

theorem StopsAt.succ {remaining count : Nat}
    (again : (outcomes 0).retryable = true)
    (stops : StopsAt (fun index => outcomes (index + 1)) remaining count) :
    StopsAt outcomes (remaining + 1) (count + 1) where
  within := Nat.succ_le_succ stops.within
  before := by
    intro index small
    cases index with
    | zero => exact again
    | succ index => exact stops.before index (Nat.lt_of_succ_lt_succ small)
  last := stops.last.imp_left (congrArg Nat.succ)

/-- The attempts are counted from one, and the first that is not retried
ends the loop. -/
theorem StopsAt.least {remaining count : Nat}
    (stops : StopsAt outcomes remaining count) :
    IsLeast {attempts | 0 < attempts ∧ (attempts = remaining + 1 ∨
      (outcomes (attempts - 1)).retryable = false)} (count + 1) := by
  constructor
  · exact ⟨Nat.succ_pos count, stops.last.imp_left (congrArg Nat.succ)⟩
  · rintro attempts ⟨positive, stopped⟩
    by_contra fewer
    have small : attempts - 1 < count := by omega
    rcases stopped with rfl | refused
    · have within := stops.within
      omega
    · rw [stops.before _ small] at refused
      cases refused

/-- From the end of one attempt on. -/
theorem among_retryLoop (outcomes : Nat → ExecutionResult)
    {remaining attempt : Nat} {value : ExecutionResult}
    (there : recordsOf context.executionId world = [record])
    (status : record.status = (outcomes 0).status)
    (exitCode : record.exitCode = (outcomes 0).exitCode)
    (runs : RunsAmong context.executionId
      (retryLoop context retries remaining attempt (outcomes 0)) world trace
      value after)
    (made : LogFilesMade trace)
    (follows : Follows (fun index => outcomes (index + 1))
      (attemptsOf trace)) :
    ∃ count, StopsAt outcomes remaining count ∧
      beats trace = retryBeats retries outcomes attempt count ∧
      value = outcomes count ∧
      ∃ final, recordsOf context.executionId after = [final] ∧
        AfterRetries record count value final := by
  induction remaining generalizing attempt outcomes record world trace with
  | zero =>
      obtain ⟨rfl, rfl, rfl⟩ := among_return.mp runs
      refine ⟨0, ⟨le_rfl, by simp, .inl rfl⟩, rfl, rfl, record, there, ?_⟩
      exact ⟨status, exitCode, rfl, rfl, rfl, rfl, rfl⟩
  | succ remaining induction =>
      unfold retryLoop at runs
      by_cases again : (outcomes 0).status = .failed ∧
          (outcomes 0).exitCode.isSome
      · rw [if_pos again] at runs
        obtain ⟨_, _, backed, _, rfl, backs, runs⟩ := among_bind.mp runs
        obtain ⟨_, _, marked, _, rfl, marks, runs⟩ := among_bind.mp runs
        obtain ⟨_, _, counted, _, rfl, counts, runs⟩ := among_bind.mp runs
        obtain ⟨_, _, pending, _, rfl, resets, runs⟩ := among_bind.mp runs
        obtain ⟨waited, -, same⟩ := among_backOff backs
        replace there := same.trans there
        obtain ⟨rfl, same⟩ := among_quiet (fun _ => rfl) marks
        replace there := same.trans there
        obtain ⟨silent, -, there⟩ := among_incrementRetryCount there counts
        obtain ⟨rfl, quiet, -, there⟩ := among_resetToPending there resets
        obtain ⟨_, result, ran, _, rfl, attempts, runs⟩ := among_bind.mp runs
        simp only [logFilesMade_append] at made
        obtain ⟨-, -, -, -, madeHere, madeLater⟩ := made
        cases among_runExecutor there rfl attempts with
        | noLogFiles missing => exact (missing madeHere).elim
        | ran startedAt completedAt _ _ shown left =>
            simp only [attemptsOf, beats_append, waited, silent, quiet, shown,
              List.filterMap_append, attemptsOf_waits] at follows
            obtain ⟨same, others⟩ := follows_cons.mp follows
            subst same
            obtain ⟨count, stops, order, returned, final, alone, kept⟩ :=
              induction (fun index => outcomes (index + 1)) left rfl rfl runs
                madeLater others
            refine ⟨count + 1, stops.succ (decide_eq_true again), ?_,
              returned, final, alone, ?_⟩
            · rw [retryBeats_succ, ← order]
              simp only [beats_append, waited, silent, quiet, shown]
              rfl
            · refine ⟨kept.status, kept.exitCode, ?_, kept.approvedAt,
                kept.approvedBy, kept.triggeredAt, kept.requestPayload⟩
              rw [kept.retryCount]
              exact Nat.succ_add_eq_add_succ _ _
      · rw [if_neg again] at runs
        obtain ⟨rfl, rfl, rfl⟩ := among_return.mp runs
        refine ⟨0, ⟨Nat.zero_le _, by simp, .inr ?_⟩, rfl, rfl, record,
          there, ⟨status, exitCode, rfl, rfl, rfl, rfl, rfl⟩⟩
        exact decide_eq_false again

theorem attempts_retryBeats (first count : Nat) :
    ((retryBeats retries outcomes first count).filterMap
      Beat.outcome?).length = count := by
  induction count generalizing outcomes first with
  | zero => rfl
  | succ count induction =>
      rw [retryBeats_succ, List.filterMap_append, attemptsOf_waits]
      exact congrArg Nat.succ (induction (first + 1))

/-- `run_with_retries` on a pending record. -/
theorem among_runWithRetries {value : ExecutionResult}
    (there : recordsOf context.executionId world = [record])
    (pending : record.status = .pending)
    (runs : RunsAmong context.executionId (runWithRetries context retries)
      world trace value after)
    (made : LogFilesMade trace)
    (follows : Follows outcomes (attemptsOf trace)) :
    ∃ attempts, RetryLaw retries outcomes record trace value
      (recordsOf context.executionId after) attempts := by
  obtain ⟨before, result, ran, later, rfl, attempts, runs⟩ :=
    among_bind.mp runs
  obtain ⟨madeHere, madeLater⟩ := logFilesMade_append.mp made
  cases among_runExecutor there pending attempts with
  | noLogFiles missing => exact (missing madeHere).elim
  | ran startedAt completedAt _ _ shown left =>
      simp only [attemptsOf, beats_append, shown, List.filterMap_append]
        at follows
      obtain ⟨same, others⟩ := follows_cons.mp follows
      subst same
      obtain ⟨count, stops, order, returned, final, alone, kept⟩ :=
        among_retryLoop outcomes left rfl rfl runs madeLater others
      have inOrder :
          beats (before ++ later) = timeline retries outcomes count := by
        rw [beats_append, shown, order]
        rfl
      refine ⟨count + 1, stops.least, ?_, inOrder, returned, final, alone,
        ⟨kept.status, kept.exitCode, kept.retryCount, kept.approvedAt,
          kept.approvedBy, kept.triggeredAt, kept.requestPayload⟩⟩
      rw [attemptsOf, inOrder]
      exact congrArg Nat.succ (attempts_retryBeats 1 count)

/-! ## Every sequence of outcomes can happen -/

theorem among_runCommand_of_answer {command : Async ExecutionResult}
    {outcome : ExecutionResult} (commands : Commands command)
    (answers : ∀ world, ∃ trace,
      RunsAmong context.executionId command world trace outcome world)
    (there : recordsOf context.executionId world = [record])
    (pending : record.status = .pending) :
    ∃ trace after, RunsAmong context.executionId (runCommand context command)
      world trace outcome after ∧ LogFilesMade trace := by
  have ready : amid (recordsOf context.executionId) perform
      (.prepareLogFiles context) ({}, .still _) world =
        some (true, world) := rfl
  have prepares : RunsAmong context.executionId
      (op (.prepareLogFiles context)) world
      [⟨.prepareLogFiles context, true⟩] true world :=
    .perform ready (.pure _ world)
  obtain ⟨started, marked, running, marks⟩ :=
    runs_amid_exists (recordsOf context.executionId)
      (markRunning context.executionId) world
  obtain ⟨rfl, -, made, startedAt, left⟩ :=
    among_markRunning there pending marks
  obtain ⟨ran, answered⟩ := answers running
  obtain ⟨completed, _, done, completes⟩ :=
    runs_amid_exists (recordsOf context.executionId)
      (markCompleted context.executionId outcome.status outcome.exitCode)
      running
  obtain ⟨-, -, madeStill, -⟩ := among_markCompleted left rfl completes
  obtain ⟨-, -, madeToo, -⟩ := commands.shown _ _ _ _ _ answered
  refine ⟨_, done, among_bind.mpr ⟨_, true, world, _, rfl, prepares,
    among_bind.mpr ⟨_, _, running, _, rfl, marks,
      among_bind.mpr ⟨_, outcome, running, _, rfl, answered,
        among_bind.mpr ⟨_, _, done, _, rfl, completes,
          among_return.mpr ⟨rfl, rfl, rfl⟩⟩⟩⟩⟩, ?_⟩
  simp [made, madeToo, madeStill, logFilesMissing]

/-- An attempt with any outcome that its executor can have. -/
theorem among_runExecutor_of_possible {outcome : ExecutionResult}
    (possible : PossibleOutcome context.executor outcome)
    (there : recordsOf context.executionId world = [record])
    (pending : record.status = .pending) :
    ∃ trace after, RunsAmong context.executionId (runExecutor context) world
      trace outcome after ∧ LogFilesMade trace := by
  have process (answer : ProcessOutcome) (world : World) :
      amid (recordsOf context.executionId) perform (.runProcess context)
        ({ process := answer }, .still _) world = some (answer, world) := rfl
  have request (answer : HttpOutcome) (world : World) :
      amid (recordsOf context.executionId) perform (.sendRequest context)
        ({ response := answer }, .still _) world = some (answer, world) := rfl
  unfold runExecutor
  cases kind : context.executor with
  | shell | script =>
      rw [kind] at possible
      obtain ⟨answer, rfl⟩ := possible
      exact among_runCommand_of_answer (runProcess_commands context)
        (fun world => ⟨_, .perform (process answer world) (.pure _ world)⟩)
        there pending
  | http =>
      rw [kind] at possible
      obtain ⟨answer, rfl⟩ := possible
      exact among_runCommand_of_answer (sendRequest_commands context)
        (fun world => ⟨_, .perform (request answer world) (.pure _ world)⟩)
        there pending

/-- From the end of one attempt on, the outcomes can be any. -/
theorem among_retryLoop_of_possible (outcomes : Nat → ExecutionResult)
    {remaining attempt : Nat}
    (possible : ∀ index,
      PossibleOutcome context.executor (outcomes index))
    (there : recordsOf context.executionId world = [record]) :
    ∃ trace value after, RunsAmong context.executionId
        (retryLoop context retries remaining attempt (outcomes 0)) world trace
        value after ∧
      LogFilesMade trace ∧
      Follows (fun index => outcomes (index + 1)) (attemptsOf trace) := by
  induction remaining generalizing attempt outcomes record world with
  | zero =>
      refine ⟨[], outcomes 0, world, .pure _ world, by simp, ?_⟩
      intro index outcome found
      cases found
  | succ remaining induction =>
      unfold retryLoop
      by_cases again : (outcomes 0).status = .failed ∧
          (outcomes 0).exitCode.isSome
      · rw [if_pos again]
        obtain ⟨waited, _, backed, backs⟩ :=
          runs_amid_exists (recordsOf context.executionId)
            (backOff context (calculateBackoff retries.backoff attempt
              retries.initialDelay retries.maxDelay)) world
        obtain ⟨quiet, made, same⟩ := among_backOff backs
        replace there := same.trans there
        obtain ⟨noted, _, marked, marks⟩ :=
          runs_amid_exists (recordsOf context.executionId)
            (op (.appendRetryMarker context attempt)) backed
        obtain ⟨rfl, same⟩ := among_quiet (fun _ => rfl) marks
        replace there := same.trans there
        obtain ⟨grown, _, counted, counts⟩ :=
          runs_amid_exists (recordsOf context.executionId)
            (incrementRetryCount context.executionId) marked
        obtain ⟨silent, madeToo, there⟩ :=
          among_incrementRetryCount there counts
        obtain ⟨cleared, _, pending, resets⟩ :=
          runs_amid_exists (recordsOf context.executionId)
            (resetToPending context.executionId) counted
        obtain ⟨rfl, hushed, madeStill, there⟩ :=
          among_resetToPending there resets
        obtain ⟨ran, ended, attempts, madeHere⟩ :=
          among_runExecutor_of_possible (possible 1) there rfl
        cases among_runExecutor there rfl attempts with
        | noLogFiles missing => exact (missing madeHere).elim
        | ran startedAt completedAt _ _ shown left =>
            obtain ⟨rest, value, after, later, madeLater, follows⟩ :=
              induction (fun index => outcomes (index + 1))
                (fun index => possible (index + 1)) left
            refine ⟨_, value, after, among_bind.mpr ⟨_, _, _, _, rfl, backs,
              among_bind.mpr ⟨_, _, _, _, rfl, marks,
                among_bind.mpr ⟨_, _, _, _, rfl, counts,
                  among_bind.mpr ⟨_, _, _, _, rfl, resets,
                    among_bind.mpr ⟨_, _, _, _, rfl, attempts, later⟩⟩⟩⟩⟩,
              ?_, ?_⟩
            · simp [made, madeToo, madeStill, madeHere, madeLater,
                logFilesMissing]
            · simp only [attemptsOf, beats_append, quiet, silent, hushed,
                shown, List.filterMap_append, attemptsOf_waits]
              exact follows_cons.mpr ⟨rfl, follows⟩
      · rw [if_neg again]
        refine ⟨[], outcomes 0, world, .pure _ world, by simp, ?_⟩
        intro index outcome found
        cases found

/-- The retry loop on a pending record: whatever the attempts come to, it
can be run, and every run obeys the law. -/
theorem retry_law (context : ExecutionContext)
    (retries : EffectiveRetryConfig) (outcomes : Nat → ExecutionResult)
    (world : World) (record : Execution)
    (there : recordsOf context.executionId world = [record])
    (pending : record.status = .pending) :
    ((∀ index, PossibleOutcome context.executor (outcomes index)) →
      ∃ trace value after,
        RunsAmong context.executionId (runWithRetries context retries) world
          trace value after ∧
        LogFilesMade trace ∧ Follows outcomes (attemptsOf trace)) ∧
    ∀ trace value after,
      RunsAmong context.executionId (runWithRetries context retries) world
        trace value after →
      LogFilesMade trace → Follows outcomes (attemptsOf trace) →
      ∃ attempts, RetryLaw retries outcomes record trace value
        (recordsOf context.executionId after) attempts := by
  constructor
  · intro possible
    obtain ⟨ran, ended, attempts, madeHere⟩ :=
      among_runExecutor_of_possible (possible 0) there pending
    cases among_runExecutor there pending attempts with
    | noLogFiles missing => exact (missing madeHere).elim
    | ran startedAt completedAt _ _ shown left =>
        obtain ⟨rest, value, after, later, madeLater, follows⟩ :=
          among_retryLoop_of_possible outcomes possible left
        refine ⟨_, value, after,
          among_bind.mpr ⟨_, _, _, _, rfl, attempts, later⟩, ?_, ?_⟩
        · simp [madeHere, madeLater]
        · simp only [attemptsOf, beats_append, shown, List.filterMap_append]
          exact follows_cons.mpr ⟨rfl, follows⟩
  · intro trace value after runs made follows
    exact among_runWithRetries there pending runs made follows

/-- The command fails once and then succeeds. -/
def failsOnce (index : Nat) : ExecutionResult :=
  if index = 0 then { status := .failed, exitCode := some 1 }
  else { status := .success, exitCode := some 0 }

def threeRetries : EffectiveRetryConfig where
  count := 3
  backoff := .linear
  initialDelay := 1000000000
  maxDelay := 60000000000

theorem retry_law_failsOnce :
    ∃ trace value after attempts,
      RunsAmong "first" (runWithRetries makeContext threeRetries) pendingWorld
        trace value after ∧
      RetryLaw threeRetries failsOnce pendingRecord trace value
        (recordsOf "first" after) attempts := by
  have possible (index : Nat) :
      PossibleOutcome makeContext.executor (failsOnce index) := by
    unfold failsOnce
    split
    · exact ⟨.exited (some 1), rfl⟩
    · exact ⟨.exited (some 0), rfl⟩
  obtain ⟨runs, law⟩ := retry_law makeContext threeRetries failsOnce
    pendingWorld _ rfl rfl
  obtain ⟨trace, value, after, ran, made, follows⟩ := runs possible
  obtain ⟨attempts, lawful⟩ := law trace value after ran made follows
  exact ⟨trace, value, after, attempts, ran, lawful⟩

end Sendword
