import Sendword.Store.Keys
import Sendword.Barriers
import Sendword.Sequential

/-!
# The shape of execution records

Which columns a record of each status has set, through every sequence of the
operations on records.
-/

namespace Sendword

open Concurrency

/-- The columns of a record fit its status. -/
structure Shaped (row : Execution) : Prop where
  approval : row.approvedAt.isSome = row.approvedBy.isSome
  columns : match row.status with
    | .pending | .pendingApproval | .approved =>
        row.startedAt = none ∧ row.completedAt = none ∧ row.exitCode = none
    | .running =>
        row.startedAt.isSome = true ∧ row.completedAt = none ∧
          row.exitCode = none
    | .success | .failed | .timedOut =>
        row.startedAt.isSome = true ∧ row.completedAt.isSome = true
    | .rejected | .expired =>
        row.completedAt.isSome = true ∧ row.startedAt = none ∧
          row.exitCode = none

/-- The operations on execution records. -/
inductive RecordCall where
  | create (new : NewExecution)
  | markRunning (id : String)
  | markCompleted (id : String) (status : ExecutionStatus)
      (exitCode : Option Int)
  | markApproved (id approvedBy : String)
  | markRejected (id rejectedBy : String)
  | markExpired (id : String)
  | markPendingApproval (id : String)
  | resetApproved (id : String)
  | resetToPending (id : String)
  | recoverBarriers

namespace RecordCall

def body : RecordCall → Async (DbResult Unit)
  | .create new => do
      let created ← Sendword.create new
      return created.map fun _ => ()
  | .markRunning id => Sendword.markRunning id
  | .markCompleted id status exitCode =>
      Sendword.markCompleted id status exitCode
  | .markApproved id approvedBy => do
      let approved ← Sendword.markApproved id approvedBy
      return approved.map fun _ => ()
  | .markRejected id rejectedBy => do
      let rejected ← Sendword.markRejected id rejectedBy
      return rejected.map fun _ => ()
  | .markExpired id => Sendword.markExpired id
  | .markPendingApproval id => Sendword.markPendingApproval id
  | .resetApproved id => do
      let rows ← sql (.execution (.update (.resetApproved id)))
      return rows.map fun _ => ()
  | .resetToPending id => Sendword.resetToPending id
  | .recoverBarriers => do
      Sendword.recoverBarriers
      return .ok ()

/-- How the operations are called. -/
def Admissible (db : Db) : RecordCall → Prop
  | .create new =>
      new.status = none ∨ new.status = some .pending ∨
        new.status = some .pendingApproval
  | .markCompleted _ status _ =>
      status = .success ∨ status = .failed ∨ status = .timedOut
  | .resetToPending id =>
      ∀ row ∈ db.executions, row.id = id → row.status = .failed
  | _ => True

end RecordCall

/-- One call, run to its end. -/
def CallStep (world : World) (call : RecordCall) (result : DbResult Unit)
    (after : World) : Prop :=
  call.Admissible world.db ∧
    ∃ trace, RunsAlone call.body world trace result after

/-- The worlds that sequences of calls lead to. -/
inductive CallsReach (start : World) : World → Prop where
  | refl : CallsReach start start
  | call {world after : World} {call : RecordCall}
      {result : DbResult Unit} :
      CallsReach start world → CallStep world call result after →
      CallsReach start after

/-- The call found no record in the status it needs. -/
def Refused : DbResult Unit → Prop
  | .error (.conflict _) | .error (.notFound _) => True
  | _ => False

/-! ## What a statement does to the records -/

theorem ExecutionUpdate.shaped {change : ExecutionUpdate} {row : Execution}
    (shaped : Shaped row)
    (completes : ∀ id status exitCode time,
      change = .markCompleted id status exitCode time →
      status = .success ∨ status = .failed ∨ status = .timedOut)
    (resets : ∀ id, change = .resetToPending id → row.id = id →
      row.status = .failed) :
    Shaped (change.apply row) := by
  obtain ⟨approval, columns⟩ := shaped
  unfold apply
  split
  · rename_i matched
    cases change with
    | markRunning id time =>
        simp only [matches?, Bool.and_eq_true, beq_iff_eq] at matched
        rw [matched.2] at columns
        exact ⟨approval, rfl, columns.2⟩
    | markCompleted id status exitCode time =>
        simp only [matches?, Bool.and_eq_true, beq_iff_eq] at matched
        rw [matched.2] at columns
        refine ⟨approval, ?_⟩
        rcases completes id status exitCode time rfl with rfl | rfl | rfl
        · exact ⟨columns.1, rfl⟩
        · exact ⟨columns.1, rfl⟩
        · exact ⟨columns.1, rfl⟩
    | incrementRetryCount id => exact ⟨approval, columns⟩
    | resetToPending id => exact ⟨approval, rfl, rfl, rfl⟩
    | markApproved id user time =>
        simp only [matches?, Bool.and_eq_true, beq_iff_eq] at matched
        rw [matched.2] at columns
        exact ⟨rfl, columns⟩
    | resetApproved id =>
        simp only [matches?, Bool.and_eq_true, beq_iff_eq] at matched
        rw [matched.2] at columns
        exact ⟨approval, columns⟩
    | markRejected id user time =>
        simp only [matches?, Bool.and_eq_true, beq_iff_eq] at matched
        rw [matched.2] at columns
        exact ⟨rfl, rfl, columns.1, columns.2.2⟩
    | markExpired id time =>
        simp only [matches?, Bool.and_eq_true, beq_iff_eq] at matched
        rw [matched.2] at columns
        exact ⟨approval, rfl, columns.1, columns.2.2⟩
    | markPendingApproval id =>
        simp only [matches?, Bool.and_eq_true, beq_iff_eq] at matched
        rw [matched.2] at columns
        exact ⟨approval, columns⟩
    | failRunning time =>
        simp only [matches?, beq_iff_eq] at matched
        rw [matched] at columns
        exact ⟨approval, columns.1, rfl⟩
  · exact ⟨approval, columns⟩

/-- An `UPDATE` that matches no row changes none. -/
theorem ExecutionUpdate.map_apply_of_countP {change : ExecutionUpdate}
    {rows : List Execution} (none : rows.countP change.matches? = 0) :
    rows.map change.apply = rows := by
  refine (List.map_congr_left ?_).trans (List.map_id rows)
  intro row member
  have unmatched : ¬ change.matches? row = true :=
    List.countP_eq_zero.mp none row member
  exact if_neg unmatched

/-- An `UPDATE` that a call may make: it completes with a final status and
puts only failed records back. -/
structure ExecutionUpdate.Admissible (change : ExecutionUpdate) (db : Db) :
    Prop where
  completes : ∀ id status exitCode time,
    change = .markCompleted id status exitCode time →
    status = .success ∨ status = .failed ∨ status = .timedOut
  resets : ∀ id, change = .resetToPending id → ∀ row ∈ db.executions,
    row.id = id → row.status = .failed

/-- What one call does to the records. -/
inductive RecordEffect (before after : Db) (result : DbResult Unit) :
    Prop where
  | unchanged : after.executions = before.executions →
      RecordEffect before after result
  | updated (change : ExecutionUpdate) :
      after.executions = before.executions.map change.apply →
      change.Admissible before →
      (Refused result → before.executions.countP change.matches? = 0) →
      RecordEffect before after result
  | inserted (row : Execution) :
      after.executions = before.executions ++ [row] →
      Shaped row → ¬ Refused result →
      RecordEffect before after result

theorem RecordEffect.shaped {before after : Db} {result : DbResult Unit}
    (effect : RecordEffect before after result)
    (shaped : ∀ row ∈ before.executions, Shaped row) :
    ∀ row ∈ after.executions, Shaped row := by
  intro row member
  cases effect with
  | unchanged same =>
      rw [same] at member
      exact shaped row member
  | updated _ same admissible _ =>
      rw [same] at member
      obtain ⟨old, wasThere, rfl⟩ := List.mem_map.mp member
      refine ExecutionUpdate.shaped (shaped old wasThere)
        admissible.completes ?_
      intro id resets named
      exact admissible.resets id resets old wasThere named
  | inserted _ same shapedRow _ =>
      rw [same] at member
      rcases List.mem_append.mp member with old | new
      · exact shaped row old
      · rw [List.mem_singleton.mp new]
        exact shapedRow

theorem RecordEffect.refused {before after : Db} {result : DbResult Unit}
    (effect : RecordEffect before after result) (refused : Refused result) :
    after.executions = before.executions := by
  cases effect with
  | unchanged same => exact same
  | updated _ same _ none =>
      rw [same, ExecutionUpdate.map_apply_of_countP (none refused)]
  | inserted _ _ _ accepted => exact (accepted refused).elim

/-! ## What the calls do -/

theorem expectRow_refused {id status : String} {rows : Nat}
    (refused : Refused (expectRow id status (.ok rows))) : rows = 0 := by
  cases rows with
  | zero => rfl
  | succ rows => exact refused.elim

/-- A record that an `UPDATE` matched is there to be read. -/
theorem execution?_of_matched {change : ExecutionUpdate} {db : Db}
    {id : String}
    (found : db.executions.countP change.matches? ≠ 0)
    (named : ∀ row, change.matches? row = true → row.id = id) :
    ∃ row, ({ db with
      executions := db.executions.map change.apply } : Db).execution? id =
        some row := by
  obtain ⟨row, member, matched⟩ :=
    List.countP_pos_iff.mp (Nat.pos_of_ne_zero found)
  rw [← Option.isSome_iff_exists, Db.execution?, List.find?_isSome]
  refine ⟨change.apply row, List.mem_map_of_mem member, ?_⟩
  simp [named row matched]

section Calls

variable {world after : World} {trace : List (Event Op.Answer)}

/-- The functions that only make a conditional `UPDATE`. -/
theorem updateCall_effect (change : Timestamp → ExecutionUpdate)
    {program : Async (DbResult Unit)} {id status : String}
    {result : DbResult Unit}
    (shape : program = do
      let time ← nowUtc
      let rows ← sql (.execution (.update (change time)))
      return expectRow id status rows)
    (admissible : ∀ time, (change time).Admissible world.db)
    (runs : RunsAlone program world trace result after) :
    RecordEffect world.db after.db result := by
  subst shape
  obtain ⟨first, time, middle, second, rfl, clock, later⟩ :=
    runs_bind_eq.mp runs
  obtain ⟨third, rows, last, fourth, rfl, updates, ended⟩ :=
    runs_bind_eq.mp later
  obtain ⟨rfl, rfl, rfl⟩ := runs_return.mp ended
  have same := (untouched_of_nowUtc clock).db
  obtain ⟨rfl, written, -⟩ := runs_update updates
  rw [same] at written
  refine .updated _ (by rw [written]) (admissible time) ?_
  intro refused
  rw [← same]
  exact expectRow_refused refused

/-- The functions that return the record they changed. -/
theorem decisionCall_effect (change : Timestamp → ExecutionUpdate)
    {program : Async (DbResult Execution)} {id : String}
    {result : DbResult Execution}
    (shape : program = do
      let time ← nowUtc
      let rows ← sql (.execution (.update (change time)))
      match expectRow id "pending_approval" rows with
      | .error error => return .error error
      | .ok () => getById id)
    (admissible : ∀ time, (change time).Admissible world.db)
    (named : ∀ time row, (change time).matches? row = true → row.id = id)
    (runs : RunsAlone program world trace result after) :
    RecordEffect world.db after.db (result.map fun _ => ()) := by
  subst shape
  obtain ⟨first, time, middle, second, rfl, clock, later⟩ :=
    runs_bind_eq.mp runs
  obtain ⟨third, rows, last, fourth, rfl, updates, ended⟩ :=
    runs_bind_eq.mp later
  have same := (untouched_of_nowUtc clock).db
  obtain ⟨rfl, written, -⟩ := runs_update updates
  rw [same] at ended written
  by_cases none : world.db.executions.countP (change time).matches? = 0
  · rw [none] at ended
    obtain ⟨rfl, rfl, rfl⟩ := runs_return.mp ended
    exact .updated _ (by rw [written]) (admissible time) fun _ => none
  · obtain ⟨row, found⟩ := execution?_of_matched none (named time)
    obtain ⟨count, counted⟩ := Nat.exists_eq_succ_of_ne_zero none
    rw [counted] at ended
    obtain ⟨untouched, rfl⟩ := runs_getById ended
    rw [written, found]
    refine .updated _ (by rw [untouched.db, written]) (admissible time) ?_
    exact False.elim

/-- A created record is read back, so `create` is never refused. -/
theorem insertRecord_effect {new : NewExecution} {id : String}
    {result : DbResult Execution}
    (initial : new.status = none ∨ new.status = some .pending ∨
      new.status = some .pendingApproval)
    (runs : RunsAlone (recordAs new id) world trace result after) :
    RecordEffect world.db after.db (result.map fun _ => ()) := by
  obtain ⟨first, time, middle, second, rfl, clock, later⟩ :=
    runs_bind_eq.mp runs
  obtain ⟨third, inserted, last, fourth, rfl, inserts, ended⟩ :=
    runs_bind_eq.mp later
  have same := (untouched_of_nowUtc clock).db
  obtain ⟨rfl, rfl, rfl⟩ := runs_sql.mp inserts
  rw [same] at ended
  rcases Db.insert_cases world.db (new.record id time) with stored | failed
  · rw [Statement.exec, stored] at ended
    obtain ⟨untouched, rfl⟩ := runs_getById ended
    have stored : ∃ row, ({ world.db with
        executions := world.db.executions ++ [new.record id time] } :
          Db).execution? id = some row := by
      rw [← Option.isSome_iff_exists, Db.execution?, List.find?_isSome]
      exact ⟨new.record id time, by simp, by simp [NewExecution.record]⟩
    obtain ⟨row, found⟩ := stored
    rw [untouched.db, World.withDb_db, found]
    refine .inserted (new.record id time) rfl ?_ ?_
    · refine ⟨rfl, ?_⟩
      rcases initial with status | status | status <;>
        simp [NewExecution.record, status]
    · exact False.elim
  · rw [Statement.exec, failed] at ended
    obtain ⟨rfl, rfl, rfl⟩ := runs_return.mp ended
    exact .unchanged rfl

theorem RecordEffect.of_untouched {middle : World} {result : DbResult Unit}
    {final : Db} (effect : RecordEffect middle.db final result)
    (same : Untouched world middle) : RecordEffect world.db final result := by
  rw [← same.db]
  exact effect

theorem create_effect {new : NewExecution} {result : DbResult Execution}
    (initial : new.status = none ∨ new.status = some .pending ∨
      new.status = some .pendingApproval)
    (runs : RunsAlone (create new) world trace result after) :
    RecordEffect world.db after.db (result.map fun _ => ()) := by
  unfold create at runs
  dsimp only at runs
  split at runs
  · obtain ⟨first, id, middle, second, rfl, named, later⟩ :=
      runs_bind_eq.mp runs
    obtain ⟨-, rfl, rfl⟩ := runs_return.mp named
    exact insertRecord_effect initial later
  · obtain ⟨first, id, middle, second, rfl, named, later⟩ :=
      runs_bind_eq.mp runs
    exact (insertRecord_effect initial later).of_untouched
      (untouched_of_newId named)

/-- A call whose value is mapped at the end. -/
theorem runs_map {α β : Type} {program : Async α} {shown : α → β}
    {result : β}
    (runs : RunsAlone (do
      let value ← program
      return shown value) world trace result after) :
    ∃ first value, RunsAlone program world first value after ∧
      result = shown value := by
  obtain ⟨first, value, middle, second, rfl, before, ended⟩ :=
    runs_bind_eq.mp runs
  obtain ⟨rfl, rfl, rfl⟩ := runs_return.mp ended
  exact ⟨first, value, before, rfl⟩

theorem resetCall_effect (change : ExecutionUpdate)
    {shown : DbResult Nat → DbResult Unit} {result : DbResult Unit}
    (admissible : change.Admissible world.db)
    (refuses : ∀ rows, Refused (shown (.ok rows)) → rows = 0)
    (runs : RunsAlone (do
      let rows ← sql (.execution (.update change))
      return shown rows) world trace result after) :
    RecordEffect world.db after.db result := by
  obtain ⟨first, rows, updates, rfl⟩ := runs_map runs
  obtain ⟨rfl, written, -⟩ := runs_update updates
  exact .updated _ (by rw [written]) admissible (refuses _)

theorem recoverBarriers_effect {result : DbResult Unit}
    (runs : RunsAlone (RecordCall.body .recoverBarriers) world trace result
      after) :
    RecordEffect world.db after.db result := by
  obtain ⟨first, _, middle, second, rfl, recovers, ended⟩ :=
    runs_bind_eq.mp runs
  obtain ⟨rfl, rfl, rfl⟩ := runs_return.mp ended
  obtain ⟨_, time, ticked, _, -, clock, fails⟩ := runs_bind_eq.mp recovers
  obtain ⟨_, rows, failed, _, -, updates, unlocks⟩ := runs_bind_eq.mp fails
  obtain ⟨_, locks, unlocked, _, -, deletes, expires⟩ :=
    runs_bind_eq.mp unlocks
  obtain ⟨_, entries, expired, _, -, drops, ends⟩ :=
    runs_bind_eq.mp expires
  obtain ⟨-, written, -⟩ := runs_update updates
  rw [(untouched_of_nowUtc clock).db] at written
  obtain ⟨-, -, rfl⟩ := runs_sql.mp deletes
  obtain ⟨-, -, rfl⟩ := runs_sql.mp drops
  obtain ⟨-, -, rfl⟩ := runs_return.mp ends
  refine .updated (.failRunning time) ?_ ⟨?_, ?_⟩ False.elim
  · simp only [Statement.exec, LockStatement.exec, QueueStatement.exec,
      World.withDb_db, written]
  · intro id status exitCode other impossible
    cases impossible
  · intro id impossible
    cases impossible

end Calls

/-- What any call does to the records. -/
theorem CallStep.effect {world after : World} {call : RecordCall}
    {result : DbResult Unit} (step : CallStep world call result after) :
    RecordEffect world.db after.db result := by
  obtain ⟨admissible, trace, runs⟩ := step
  cases call with
  | create new =>
      obtain ⟨first, created, creates, rfl⟩ := runs_map runs
      exact create_effect admissible creates
  | markRunning id =>
      refine updateCall_effect (.markRunning id) rfl ?_ runs
      exact fun time => ⟨by simp, by simp⟩
  | markCompleted id status exitCode =>
      refine updateCall_effect (.markCompleted id status exitCode) rfl ?_ runs
      refine fun time => ⟨?_, by simp⟩
      rintro other final code when ⟨⟩
      exact admissible
  | markApproved id approvedBy =>
      obtain ⟨first, approved, approves, rfl⟩ := runs_map runs
      refine decisionCall_effect (.markApproved id approvedBy) rfl
        (fun time => ⟨by simp, by simp⟩) ?_ approves
      simp only [ExecutionUpdate.matches?, Bool.and_eq_true, beq_iff_eq]
      exact fun time row matched => matched.1
  | markRejected id rejectedBy =>
      obtain ⟨first, rejected, rejects, rfl⟩ := runs_map runs
      refine decisionCall_effect (.markRejected id rejectedBy) rfl
        (fun time => ⟨by simp, by simp⟩) ?_ rejects
      simp only [ExecutionUpdate.matches?, Bool.and_eq_true, beq_iff_eq]
      exact fun time row matched => matched.1
  | markExpired id =>
      obtain ⟨first, time, middle, second, rfl, clock, later⟩ :=
        runs_bind_eq.mp runs
      refine (resetCall_effect _ ⟨by simp, by simp⟩ ?_ later).of_untouched
        (untouched_of_nowUtc clock)
      exact fun rows => False.elim
  | markPendingApproval id =>
      refine resetCall_effect _ ⟨by simp, by simp⟩ ?_ runs
      exact fun rows => expectRow_refused
  | resetApproved id =>
      refine resetCall_effect _ ⟨by simp, by simp⟩ ?_ runs
      exact fun rows => False.elim
  | resetToPending id =>
      refine resetCall_effect (.resetToPending id) ⟨by simp, ?_⟩ ?_ runs
      · rintro other ⟨⟩
        exact admissible
      · intro rows refused
        cases rows with
        | zero => rfl
        | succ rows => exact refused.elim
  | recoverBarriers => exact recoverBarriers_effect runs

/-- After any sequence of calls the columns of every record fit its status,
and a call that is refused leaves the records as they are. -/
theorem record_shape {start world : World}
    (initially : ∀ row ∈ start.db.executions, Shaped row)
    (reached : CallsReach start world) :
    (∀ row ∈ world.db.executions, Shaped row) ∧
      ∀ call result after, CallStep world call result after →
        Refused result → after.db.executions = world.db.executions := by
  constructor
  · induction reached with
    | refl => exact initially
    | call _ step induction => exact step.effect.shaped induction
  · intro call result after step refused
    exact step.effect.refused refused

def emptyWorld : World :=
  { config := {} }

/-- A record that waits for approval. -/
def parkedCall : RecordCall :=
  .create
    { id := some "first"
      hookSlug := "deploy"
      logPath := "data/logs/first"
      triggerSource := "127.0.0.1"
      requestPayload := "{}"
      status := some .pendingApproval }

def parked : List (Event Op.Answer) × DbResult Unit × World :=
  (play perform parkedCall.body [{}, {}, {}] emptyWorld).get (by decide)

/-- It cannot be run before the approval. -/
def earlyRun : List (Event Op.Answer) × DbResult Unit × World :=
  (play perform (RecordCall.markRunning "first").body [{}, {}]
    parked.2.2).get (by decide)

theorem record_shape_parked :
    (∀ row ∈ parked.2.2.db.executions, Shaped row) ∧
      parked.2.2.db.executions.map (·.status) = [.pendingApproval] ∧
      earlyRun.2.2.db.executions = parked.2.2.db.executions := by
  have parks : play perform parkedCall.body [{}, {}, {}] emptyWorld =
      some parked := (Option.some_get _).symm
  have runs : play perform (RecordCall.markRunning "first").body [{}, {}]
      parked.2.2 = some earlyRun := (Option.some_get _).symm
  have create : CallStep emptyWorld parkedCall parked.2.1 parked.2.2 :=
    ⟨Or.inr (Or.inr rfl), parked.1, .of_play parks⟩
  have reached : CallsReach emptyWorld parked.2.2 := .call .refl create
  obtain ⟨shaped, refusals⟩ :=
    record_shape (by simp [emptyWorld]) reached
  have refused : Refused earlyRun.2.1 := by
    have conflict : earlyRun.2.1 =
        .error (.conflict "execution first is not in pending status") := by
      decide
    rw [conflict]
    trivial
  have step : CallStep parked.2.2 (.markRunning "first") earlyRun.2.1
      earlyRun.2.2 :=
    ⟨trivial, earlyRun.1, .of_play runs⟩
  exact ⟨shaped, by decide, refusals _ _ _ step refused⟩

end Sendword
