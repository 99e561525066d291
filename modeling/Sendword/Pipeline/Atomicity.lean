import Sendword.Concurrency.Interrupted
import Sendword.Footprint
import Sendword.Store.Keys

/-!
# What a failed trigger leaves behind

A trigger writes its lock, its record and its queue entry in separate
statements.  Any statement may fail, and the handler may be dropped at any
point.  What is left then depends on when that happens: before the first of
these rows, or after it.
-/

namespace Sendword

open Concurrency

/-- An operation whose statement may fail without an effect. -/
def performOrFail (operation : Op) (choice : Option Choice) (world : World) :
    Option (operation.Answer × World) :=
  match choice with
  | some choice => perform operation choice world
  | none =>
      match operation with
      | .sql statement =>
          some ((.error .sqlx : DbResult statement.Row), world)
      | _ => none

/-- What a trigger may leave behind. -/
structure Db.SameWork (before after : Db) : Prop where
  executions : after.executions = before.executions
  locks : after.locks = before.locks
  queue : after.queue = before.queue

/-- The event is a row of the request. -/
def rowWritten : Event Op.Answer → Bool
  | ⟨.sql (.lock (.insertOrIgnore ..)), .ok (count : Nat)⟩ => count == 1
  | ⟨.sql (.execution (.insert _)), .ok _⟩ => true
  | ⟨.sql (.queue (.enqueue ..)), .ok _⟩ => true
  | _ => false

/-- A statement of `create` or `enqueue` has failed, or has not found what it
has inserted. -/
def rowMissed : Event Op.Answer → Bool
  | ⟨.sql (.execution (.insert _)), .error _⟩ => true
  | ⟨.sql (.execution (.selectById _)), .ok (some _)⟩ => false
  | ⟨.sql (.execution (.selectById _)), _⟩ => true
  | ⟨.sql (.queue (.enqueue ..)), .error _⟩ => true
  | ⟨.sql (.queue (.selectPosition _)), .ok (some _)⟩ => false
  | ⟨.sql (.queue (.selectPosition _)), _⟩ => true
  | _ => false

/-- Once the first row of the request is written, no statement of `create` or
`enqueue` fails and the handler is not dropped. -/
def Undamaged {α : Type} (trace : List (Event Op.Answer))
    (result : Option α) : Prop :=
  ∀ before after, trace = before ++ after → before.any rowWritten →
    result ≠ none ∧ ∀ event ∈ after, rowMissed event = false

/-- The handler has not accepted the request. -/
def Response.refuses : Response → Bool
  | .status _ | .invalid .. | .rejected .. => true
  | .queued .. | .pendingApproval _ | .started _ | .redirect _
  | .finished => false

def BarrierOutcome.rejects : BarrierOutcome → Bool
  | .reject .. => true
  | .proceed | .defer .. => false

/-- A program that refuses, or never returns, leaves the three tables as they
were. -/
def LeavesNothing {α : Type} (refuses : α → Bool) (result : Option α)
    (before after : Db) : Prop :=
  (∀ value, result = some value → refuses value = true) →
    before.SameWork after

/-! ## The ledger of a request -/

/-- What the request has written so far. -/
inductive Ledger where
  | clean
  | written
  | spoiled
  deriving DecidableEq

def Ledger.next : Ledger → Event Op.Answer → Ledger
  | .clean, event => if rowWritten event then .written else .clean
  | .written, event => if rowMissed event then .spoiled else .written
  | .spoiled, _ => .spoiled

/-- The operations of a trigger that write the three tables. -/
def Op.ofRequest : Op → Bool
  | .sql (.execution (.update _)) => false
  | .sql (.lock (.insertOrIgnore ..)) => true
  | .sql (.lock (.selectHolder _)) => true
  | .sql (.lock _) => false
  | .sql (.queue (.update _)) | .sql (.queue .expireStale) => false
  | _ => true

def ledger : Monitor Unit Op.Answer Ledger where
  start _ := .clean
  next := Ledger.next
  allows _ operation := operation.ofRequest = true

/-! ## The ledger and the condition -/

section Traces

variable {α : Type} {event : Event Op.Answer}
  {rest trace : List (Event Op.Answer)} {result : Option α}

theorem foldl_spoiled (trace : List (Event Op.Answer)) :
    trace.foldl Ledger.next .spoiled = .spoiled := by
  induction trace with
  | nil => rfl
  | cons event rest induction => exact induction

theorem foldl_written (trace : List (Event Op.Answer)) :
    trace.foldl Ledger.next .written =
      if trace.any rowMissed then .spoiled else .written := by
  induction trace with
  | nil => rfl
  | cons event rest induction =>
      rw [List.foldl_cons, Ledger.next, List.any_cons]
      cases missed : rowMissed event with
      | true =>
          rw [if_pos rfl, foldl_spoiled]
          rfl
      | false =>
          rw [if_neg (by simp), induction]
          rfl

/-- From the first row on, nothing may be missed. -/
theorem undamaged_cons_written (written : rowWritten event = true) :
    Undamaged (event :: rest) result ↔
      result ≠ none ∧ ∀ other ∈ rest, rowMissed other = false := by
  constructor
  · intro undamaged
    exact undamaged [event] rest rfl (by simp [written])
  · intro fine before after same _
    refine ⟨fine.1, fun other member => ?_⟩
    cases before with
    | nil =>
        rename_i wrote
        cases wrote
    | cons first before =>
        obtain ⟨-, rfl⟩ := List.cons_eq_cons.mp same
        exact fine.2 other (List.mem_append_right _ member)

theorem undamaged_cons_other (other : rowWritten event = false) :
    Undamaged (event :: rest) result ↔ Undamaged rest result := by
  constructor
  · intro undamaged before after same wrote
    exact undamaged (event :: before) after (by rw [same]; rfl)
      (by simp [other, wrote])
  · intro undamaged before after same wrote
    cases before with
    | nil => cases wrote
    | cons first before =>
        obtain ⟨rfl, rfl⟩ := List.cons_eq_cons.mp same
        exact undamaged before after rfl (by simpa [other] using wrote)

/-- The ledger decides the condition. -/
theorem undamaged_iff :
    Undamaged trace result ↔
      trace.foldl Ledger.next .clean ≠ .spoiled ∧
        (result = none → trace.foldl Ledger.next .clean = .clean) := by
  induction trace with
  | nil =>
      refine iff_of_true ?_ ⟨by simp, fun _ => rfl⟩
      intro before after same wrote
      obtain ⟨rfl, -⟩ := List.append_eq_nil_iff.mp same.symm
      cases wrote
  | cons event rest induction =>
      rw [List.foldl_cons, Ledger.next]
      cases written : rowWritten event with
      | true =>
          rw [undamaged_cons_written written, if_pos rfl, foldl_written]
          cases missed : rest.any rowMissed with
          | true =>
              obtain ⟨other, member, isMissed⟩ := List.any_eq_true.mp missed
              refine iff_of_false (fun fine => ?_) (fun fine => fine.1 rfl)
              rw [fine.2 other member] at isMissed
              cases isMissed
          | false =>
              have none (other) (member : other ∈ rest) :
                  rowMissed other = false :=
                Bool.eq_false_iff.mpr fun isMissed => by
                  rw [List.any_eq_true.mpr ⟨other, member, isMissed⟩] at missed
                  cases missed
              constructor
              · intro fine
                exact ⟨by simp, fun stopped => absurd stopped fine.1⟩
              · intro fine
                refine ⟨fun stopped => ?_, none⟩
                cases fine.2 stopped
      | false =>
          rw [undamaged_cons_other written, if_neg (by simp)]
          exact induction

end Traces

/-! ## What an operation writes -/

/-- How much there is in the three tables. -/
def Db.workSize (db : Db) : Nat :=
  db.executions.length + db.locks.length + db.queue.length

theorem Db.SameWork.refl (db : Db) : db.SameWork db := ⟨rfl, rfl, rfl⟩

theorem Db.SameWork.workSize {before after : Db}
    (same : before.SameWork after) : after.workSize = before.workSize := by
  simp only [Db.workSize, same.executions, same.locks, same.queue]

theorem Statement.exec_sameWork (db : Db) {statement : Statement}
    (ofRequest : (Op.sql statement).ofRequest = true)
    (unwritten : rowWritten ⟨.sql statement, (statement.exec db).1⟩ = false) :
    db.SameWork (statement.exec db).2 := by
  cases statement with
  | execution statement =>
      cases statement with
      | insert row =>
          simp only [Statement.exec, ExecutionStatement.exec] at unwritten ⊢
          split at unwritten
          · rename_i refused
            rw [if_pos refused]
            exact .refl db
          · cases unwritten
      | update change => cases ofRequest
      | selectById | selectLatestStarted | selectOverdue => exact .refl db
  | lock statement =>
      cases statement with
      | insertOrIgnore slug executionId acquiredAt =>
          simp only [Statement.exec, LockStatement.exec] at unwritten ⊢
          split at unwritten
          · rename_i held
            rw [if_pos held]
            exact .refl db
          · cases unwritten
      | selectHolder => exact .refl db
      | delete | update | deleteTerminal => cases ofRequest
  | queue statement =>
      cases statement with
      | enqueue id slug executionId queuedAt =>
          simp only [Statement.exec, QueueStatement.exec] at unwritten ⊢
          split at unwritten
          · rename_i refused
            rw [if_pos refused]
            exact .refl db
          · cases unwritten
      | selectPosition | peekNext | countWaiting => exact .refl db
      | update | expireStale => cases ofRequest
  | attempt statement =>
      exact ⟨Db.executions_exec (by simp), Db.locks_exec (by simp),
        Db.queue_exec (by simp)⟩
  | counter statement =>
      exact ⟨Db.executions_exec (by simp), Db.locks_exec (by simp),
        Db.queue_exec (by simp)⟩

theorem Statement.exec_workSize (db : Db) {statement : Statement}
    (written : rowWritten ⟨.sql statement, (statement.exec db).1⟩ = true) :
    (statement.exec db).2.workSize = db.workSize + 1 := by
  cases statement with
  | execution statement =>
      cases statement with
      | insert row =>
          simp only [Statement.exec, ExecutionStatement.exec] at written ⊢
          split at written
          · cases written
          · rename_i accepted
            rw [if_neg accepted]
            simp [Db.workSize]
            omega
      | update | selectById | selectLatestStarted | selectOverdue =>
          cases written
  | lock statement =>
      cases statement with
      | insertOrIgnore slug executionId acquiredAt =>
          simp only [Statement.exec, LockStatement.exec] at written ⊢
          split at written
          · cases written
          · rename_i free
            rw [if_neg free]
            simp [Db.workSize]
            omega
      | selectHolder | delete | update | deleteTerminal => cases written
  | queue statement =>
      cases statement with
      | enqueue id slug executionId queuedAt =>
          simp only [Statement.exec, QueueStatement.exec] at written ⊢
          split at written
          · cases written
          · rename_i accepted
            rw [if_neg accepted]
            simp [Db.workSize]
            omega
      | selectPosition | peekNext | countWaiting | update | expireStale =>
          cases written
  | attempt statement => cases statement <;> cases written
  | counter statement => cases statement <;> cases written

/-! ## The ledger and the tables -/

/-- What the ledger says of the tables since `start`. -/
def Ledger.Agrees (start : Db) (ledger : Ledger) (world : World) : Prop :=
  (ledger = .clean → start.SameWork world.db) ∧
    (ledger ≠ .clean → start.workSize < world.db.workSize)

theorem Db.SameWork.trans {first second third : Db}
    (before : first.SameWork second)
    (after : second.SameWork third) :
    first.SameWork third :=
  ⟨after.executions.trans before.executions, after.locks.trans before.locks,
    after.queue.trans before.queue⟩

/-- A row is only ever added to the ledger. -/
theorem Ledger.next_clean {ledger : Ledger} {event : Event Op.Answer}
    (clean : ledger.next event = .clean) :
    ledger = .clean ∧ rowWritten event = false := by
  cases ledger with
  | clean =>
      refine ⟨rfl, Bool.eq_false_iff.mpr fun written => ?_⟩
      rw [Ledger.next, if_pos written] at clean
      cases clean
  | written =>
      rw [Ledger.next] at clean
      split at clean <;> cases clean
  | spoiled => cases clean

/-- Only a statement that returns writes a row. -/
theorem rowWritten_of_failed {statement : Statement} {error : DbError} :
    rowWritten ⟨.sql statement, (.error error : DbResult statement.Row)⟩ =
      false := by
  cases statement with
  | execution statement => cases statement <;> rfl
  | lock statement => cases statement <;> rfl
  | queue statement => cases statement <;> rfl
  | attempt | counter => rfl

/-- One operation of a request: the three tables stay, or grow by the row
written. -/
theorem performOrFail_work {operation : Op} {choice : Option Choice}
    {before after : World} {answer : operation.Answer}
    (ofRequest : operation.ofRequest = true)
    (performed : performOrFail operation choice before =
      some (answer, after)) :
    (rowWritten ⟨operation, answer⟩ = false → before.db.SameWork after.db) ∧
      (rowWritten ⟨operation, answer⟩ = true →
        after.db.workSize = before.db.workSize + 1) := by
  cases choice with
  | none =>
      cases operation with
      | sql statement =>
          cases performed
          refine ⟨fun _ => .refl _, fun written => ?_⟩
          rw [rowWritten_of_failed] at written
          cases written
      | _ => cases performed
  | some choice =>
      have db := perform_db performed
      cases operation with
      | sql statement =>
          cases performed
          exact ⟨Statement.exec_sameWork before.db ofRequest,
            Statement.exec_workSize before.db⟩
      | _ =>
          refine ⟨fun _ => ?_, fun written => (by cases written)⟩
          rw [db]
          exact .refl _

theorem Ledger.Agrees.next {start : Db} {ledger : Ledger} {operation : Op}
    {choice : Option Choice} {before after : World}
    {answer : operation.Answer}
    (agrees : ledger.Agrees start before)
    (ofRequest : operation.ofRequest = true)
    (performed : performOrFail operation choice before =
      some (answer, after)) :
    (ledger.next ⟨operation, answer⟩).Agrees start after := by
  obtain ⟨kept, grown⟩ := performOrFail_work ofRequest performed
  refine ⟨fun clean => ?_, fun dirty => ?_⟩
  · obtain ⟨wasClean, unwritten⟩ := Ledger.next_clean clean
    exact (agrees.1 wasClean).trans (kept unwritten)
  · cases written : rowWritten ⟨operation, answer⟩ with
    | true =>
        have larger := grown written
        rcases Decidable.em (ledger = .clean) with wasClean | wasDirty
        · rw [larger, (agrees.1 wasClean).workSize]
          exact Nat.lt_succ_self _
        · rw [larger]
          exact Nat.lt_succ_of_lt (agrees.2 wasDirty)
    | false =>
        rw [(kept written).workSize]
        refine agrees.2 fun wasClean => dirty ?_
        rw [wasClean, Ledger.next, if_neg (by simp [written])]

/-! ## What a trigger writes down -/

/-- The operations the ledger reads. -/
def Op.ofRow : Op → Prop
  | .sql (.lock _) => True
  | .sql (.execution (.insert _)) | .sql (.execution (.update _))
  | .sql (.execution (.selectById _)) => True
  | .sql (.queue (.enqueue ..)) | .sql (.queue (.selectPosition _))
  | .sql (.queue (.update _)) | .sql (.queue .expireStale) => True
  | _ => False

theorem ledger_ignores {memory : Ledger} {operation : Op}
    (other : ¬ operation.ofRow) :
    ledger.Ignores memory operation := by
  have apart : operation.ofRequest = true ∧ ∀ answer,
      rowWritten ⟨operation, answer⟩ = false ∧
        rowMissed ⟨operation, answer⟩ = false := by
    cases operation with
    | sql statement =>
        cases statement with
        | execution statement =>
            cases statement with
            | insert | update | selectById => exact (other trivial).elim
            | selectLatestStarted | selectOverdue =>
                exact ⟨rfl, fun _ => ⟨rfl, rfl⟩⟩
        | lock => exact (other trivial).elim
        | queue statement =>
            cases statement with
            | enqueue | selectPosition | update | expireStale =>
                exact (other trivial).elim
            | peekNext | countWaiting => exact ⟨rfl, fun _ => ⟨rfl, rfl⟩⟩
        | attempt | counter => exact ⟨rfl, fun _ => ⟨rfl, rfl⟩⟩
    | _ => exact ⟨rfl, fun _ => ⟨rfl, rfl⟩⟩
  refine ⟨apart.1, fun answer => ?_⟩
  obtain ⟨unwritten, found⟩ := apart.2 answer
  cases memory with
  | clean => exact if_neg (by simp [unwritten])
  | written => exact if_neg (by simp [found])
  | spoiled => rfl

section Passes

variable {outside : Outside} {α : Type}

theorem ledger_quiet {program : Async α} {memory : Ledger}
    (avoids : program.Avoids Op.ofRow) :
    ledger.Passes program (fun after _ => after = memory) memory :=
  .of_ignored avoids fun _ other => ledger_ignores other

theorem insertAttempt_quiet (new : NewTriggerAttempt) :
    (insertAttempt new).Avoids Op.ofRow := by
  refine (insertAttempt_ofAttempt new).mono fun operation ofRow => ?_
  cases operation with
  | sql statement => cases statement <;> simp_all [Op.ofRow, Op.ofAttempt]
  | _ => exact ofRow.elim

theorem logRejection_quiet (slug sourceIp : String)
    (status : TriggerAttemptStatus) (reason : String) :
    (logRejection slug sourceIp status reason).Avoids Op.ofRow :=
  (insertAttempt_quiet _).bind fun _ => trivial

/-- The lock is the first row. -/
theorem tryAcquire_ledger (slug execId : String) :
    ledger.Passes (tryAcquire slug execId)
      (fun after acquired =>
        after = if acquired = .ok true then .written else .clean) .clean := by
  refine ⟨rfl, fun time _ => ⟨rfl, fun rows _ => ?_⟩⟩
  cases rows with
  | error error => rfl
  | ok count =>
      change (if (count == 1) = true then Ledger.written else Ledger.clean) =
        if (.ok (count == 1) : DbResult Bool) = .ok true then .written
        else .clean
      cases count == 1 <;> rfl

/-- A record that is written is read back, or the ledger is spoiled. -/
theorem recordAs_ledger {new : NewExecution} {execId : String}
    {memory : Ledger} (fresh : memory ≠ .spoiled) :
    ledger.Passes (recordAs new execId)
      (fun after created =>
        (created.toOption.isSome → after = .written) ∧
          (created.toOption = none → after ≠ .written)) memory := by
  have unread : ledger.Passes (getById execId)
      (fun after created =>
        (created.toOption.isSome → after = .written) ∧
          (created.toOption = none → after ≠ .written)) .written := by
    refine ⟨rfl, fun row _ => ?_⟩
    rcases row with error | _ | row
    · exact ⟨fun isSome => (by cases isSome), fun _ same => (by cases same)⟩
    · exact ⟨fun isSome => (by cases isSome), fun _ same => (by cases same)⟩
    · exact ⟨fun _ => rfl, fun isNone => (by cases isNone)⟩
  refine ⟨rfl, fun time _ => ⟨?_, fun inserted _ => ?_⟩⟩
  · cases memory <;> rfl
  · cases memory with
    | clean | written =>
        cases inserted with
        | error error =>
            exact ⟨fun isSome => (by cases isSome),
              fun _ same => (by cases same)⟩
        | ok _ => exact unread
    | spoiled => exact (fresh rfl).elim

theorem create_ledger {new : NewExecution} {memory : Ledger}
    (fresh : memory ≠ .spoiled) :
    ledger.Passes (create new)
      (fun after created =>
        (created.toOption.isSome → after = .written) ∧
          (created.toOption = none → after ≠ .written)) memory := by
  unfold create
  cases new.id with
  | none =>
      refine Monitor.Passes.bind (ledger_quiet
        (by simp [newId, Program.op, Op.ofRow])) fun after id same => ?_
      rw [same]
      exact recordAs_ledger fresh
  | some id => exact recordAs_ledger fresh

theorem enqueue_ledger (slug execId : String) :
    ledger.Passes (enqueue slug execId)
      (fun after position =>
        (position.toOption.isSome → after = .written) ∧
          (position.toOption = none → after ≠ .written)) .written := by
  refine ⟨rfl, fun id _ => ⟨rfl, fun time _ => ⟨rfl, fun inserted _ => ?_⟩⟩⟩
  cases inserted with
  | error error =>
      exact ⟨fun isSome => (by cases isSome), fun _ same => (by cases same)⟩
  | ok _ =>
      refine ⟨rfl, fun row _ => ?_⟩
      rcases row with error | _ | row
      · exact ⟨fun isSome => (by cases isSome), fun _ same => (by cases same)⟩
      · exact ⟨fun isSome => (by cases isSome), fun _ same => (by cases same)⟩
      · exact ⟨fun _ => rfl, fun isNone => (by cases isNone)⟩

/-- What an answer says of the ledger: a refusal has no row written that it
does not also spoil, and an acceptance has missed none. -/
def Settled (refuses : Bool) (memory : Ledger) : Prop :=
  if refuses then memory ≠ .written else memory ≠ .spoiled

theorem evaluate_ledger {slug execId : String} {config : ConcurrencyConfig}
    {new : NewExecution} :
    ledger.Passes (evaluate slug execId config new)
      (fun after outcome =>
        after ≠ .spoiled ∧ outcome.rejects = false ∨
          after ≠ .written ∧ outcome.rejects = true) .clean := by
  unfold evaluate
  refine (tryAcquire_ledger slug execId).bind fun after acquired isAfter => ?_
  subst isAfter
  split
  · exact .inr ⟨fun same => (by cases same), rfl⟩
  · exact .inl ⟨fun same => (by cases same), rfl⟩
  · split
    · exact .inr ⟨fun same => (by cases same), rfl⟩
    · have counts : ledger.Passes (countWaiting slug)
          (fun after _ => after = .clean) .clean :=
        ledger_quiet (by simp [countWaiting, sql, Program.op, Op.ofRow])
      refine counts.bind fun after count same => ?_
      subst same
      split
      · exact .inr ⟨fun same => (by cases same), rfl⟩
      · split
        · exact .inr ⟨fun same => (by cases same), rfl⟩
        · refine (create_ledger fun same => (by cases same)).bind
            fun after created known => ?_
          split
          · exact .inr ⟨known.2 rfl, rfl⟩
          · rw [known.1 rfl]
            refine (enqueue_ledger slug execId).bind
              fun after position known => ?_
            split
            · exact .inr ⟨known.2 rfl, rfl⟩
            · rw [known.1 rfl]
              exact .inl ⟨fun same => (by cases same), rfl⟩

/-- An attempt is logged, and the answer stands. -/
theorem logged_ledger {memory : Ledger} {new : NewTriggerAttempt}
    {response : Response} (settled : Settled response.refuses memory) :
    ledger.Passes (do
      let _ ← insertAttempt new
      return response)
      (fun after response => Settled response.refuses after) memory := by
  refine (ledger_quiet (insertAttempt_quiet new)).bind
    fun after _ same => ?_
  rw [same]
  exact settled

theorem passApproval_ledger {config : AppConfig} {hook : HookConfig}
    {slug sourceIp payload : String} {new : NewExecution}
    {memory : Ledger} (fresh : memory ≠ .spoiled) :
    ledger.Passes
      (passApproval outside config hook slug sourceIp payload new)
      (fun after response => Settled response.refuses after) memory := by
  unfold passApproval
  split
  · refine (create_ledger fresh).bind
      fun after created known => ?_
    split
    · exact known.2 rfl
    · rw [known.1 rfl]
      exact logged_ledger fun same => (by cases same)
  · refine (create_ledger fresh).bind fun after created known => ?_
    split
    · exact known.2 rfl
    · rw [known.1 rfl]
      refine (ledger_quiet (insertAttempt_quiet _)).bind
        fun after _ same => ?_
      subst same
      refine (ledger_quiet (by simp [spawn, Program.op, Op.ofRow])).bind
        fun after _ same => ?_
      subst same
      exact fun same => (by cases same)

theorem passBarriers_ledger (config : AppConfig) (hook : HookConfig)
    (slug sourceIp payload : String) :
    ledger.Passes (passBarriers outside config hook slug sourceIp payload)
      (fun after response => Settled response.refuses after) .clean := by
  refine ⟨rfl, fun execId _ => ?_⟩
  change ledger.Passes _ _ .clean
  dsimp only
  split
  · exact passApproval_ledger fun same => (by cases same)
  · refine evaluate_ledger.bind fun after outcome known => ?_
    split
    · rcases known with known | known
      · exact passApproval_ledger known.1
      · cases known.2
    · rcases known with known | known
      · cases known.2
      · exact logged_ledger known.1
    · rcases known with known | known
      · exact logged_ledger known.1
      · cases known.2

theorem evaluateRules_quiet (hook : HookConfig) (slug payload : String) :
    (evaluateRules outside hook slug payload).Avoids Op.ofRow := by
  refine (evaluateRules_ofRules outside hook slug payload).mono
    fun operation ofRow => ?_
  rintro (ofSchedule | ofRateLimit)
  · cases operation with
    | sql statement =>
        cases statement with
        | execution statement => cases statement <;>
            first | exact ofRow | exact ofSchedule
        | _ => exact ofSchedule
    | _ => exact ofRow
  · cases operation with
    | sql statement => cases statement <;> first | exact ofRow | exact ofRateLimit
    | _ => exact ofRow

theorem triggerHook_ledger (request : TriggerRequest) :
    ledger.Passes (triggerHook outside request)
      (fun after response => Settled response.refuses after) .clean := by
  have refused (status : TriggerAttemptStatus) (reason : String)
      (response : Response) (refuses : response.refuses = true) :
      ledger.Passes (do
        logRejection request.slug request.sourceIp status reason
        return response)
        (fun after response => Settled response.refuses after) .clean := by
    refine (ledger_quiet (logRejection_quiet ..)).bind
      fun after _ same => ?_
    rw [same]
    change Settled response.refuses .clean
    rw [refuses]
    exact fun same => (by cases same)
  refine ⟨rfl, fun config _ => ?_⟩
  change ledger.Passes _ _ .clean
  simp only [Program.pure_bind]
  split
  · exact fun same => (by cases same)
  · rename_i hook found
    split
    · exact refused _ _ _ rfl
    · split
      · exact refused _ _ _ rfl
      · refine (ledger_quiet (evaluateRules_quiet hook _ _)).bind
          fun after refusal same => ?_
        subst same
        split
        · exact refused _ _ _ rfl
        · exact passBarriers_ledger ..

end Passes

/-! ## The condition -/

section Atomic

variable {α : Type} {program : Async α} {refuses : α → Bool}
  {world final : World} {trace : List (Event Op.Answer)}
  {result : Option α}

/-- A request of which the ledger is kept leaves nothing exactly when it is
not damaged. -/
theorem leavesNothing_iff_undamaged
    (passes : ledger.Passes program
      (fun after value => Settled (refuses value) after) .clean)
    (runs : Interrupted performOrFail program world trace result final) :
    LeavesNothing refuses result world.db final.db ↔
      Undamaged trace result := by
  have kept (memory : Ledger) (operation : Op) (choice : Option Choice)
      (before : World) (answer : operation.Answer) (after : World)
      (allowed : ledger.allows memory operation)
      (performed : performOrFail operation choice before =
        some (answer, after))
      (agrees : memory.Agrees world.db before) :
      (ledger.next memory ⟨operation, answer⟩).Agrees world.db after :=
    agrees.next allowed performed
  obtain ⟨⟨clean, dirty⟩, settled⟩ := passes.interrupted runs
    (fun _ => trivial) kept
    ⟨fun _ => .refl _, fun dirty => (dirty rfl).elim⟩
  change trace.foldl Ledger.next .clean = .clean → _ at clean
  change trace.foldl Ledger.next .clean ≠ .clean → _ at dirty
  change ∀ value, result = some value →
    Settled (refuses value) (trace.foldl Ledger.next .clean) at settled
  have isClean (same : world.db.SameWork final.db) :
      trace.foldl Ledger.next .clean = .clean := by
    by_contra isDirty
    exact absurd (dirty isDirty) (by rw [same.workSize]; exact Nat.lt_irrefl _)
  rw [undamaged_iff]
  constructor
  · intro leaves
    cases result with
    | none =>
        have wasClean := isClean (leaves fun _ ended => by cases ended)
        exact ⟨by rw [wasClean]; exact fun same => (by cases same),
          fun _ => wasClean⟩
    | some value =>
        refine ⟨?_, fun stopped => by cases stopped⟩
        have known := settled value rfl
        cases refusing : refuses value with
        | true =>
            have still (other : _) (ended : some value = some other) :
                refuses other = true := by
              cases ended
              exact refusing
            rw [isClean (leaves still)]
            exact fun same => (by cases same)
        | false =>
            simp only [Settled, refusing] at known
            exact known
  · rintro ⟨unspoiled, stopped⟩ refusing
    refine clean ?_
    cases result with
    | none => exact stopped rfl
    | some value =>
        have known := settled value rfl
        simp only [Settled, refusing value rfl, if_true] at known
        cases isLedger : trace.foldl Ledger.next .clean with
        | clean => rfl
        | written => exact (known isLedger).elim
        | spoiled => exact (unspoiled isLedger).elim

end Atomic

/-- The concurrency barrier and its rejections. -/
theorem evaluate_atomic_iff {slug execId : String}
    {config : ConcurrencyConfig} {new : NewExecution}
    {world final : World} {trace : List (Event Op.Answer)}
    {result : Option BarrierOutcome}
    (runs : Interrupted performOrFail (evaluate slug execId config new) world
      trace result final) :
    LeavesNothing BarrierOutcome.rejects result world.db final.db ↔
      Undamaged trace result := by
  refine leavesNothing_iff_undamaged (evaluate_ledger.mono ?_) runs
  intro after outcome known
  rcases known with known | known
  · rw [known.2]
    exact known.1
  · rw [known.2]
    exact known.1

/-- Whatever statements of a trigger fail, and wherever its handler is dropped:
when it is refused or gives no answer, the executions, the locks and the queue
are as before if and only if nothing was missed after its first row. -/
theorem triggerHook_atomic_iff {outside : Outside} {request : TriggerRequest}
    {world final : World} {trace : List (Event Op.Answer)}
    {result : Option Response}
    (runs : Interrupted performOrFail (triggerHook outside request) world
      trace result final) :
    LeavesNothing Response.refuses result world.db final.db ↔
      Undamaged trace result :=
  leavesNothing_iff_undamaged (triggerHook_ledger request) runs

/-! ## A lock that nobody holds -/

def lockedDeploy : HookConfig :=
  { name := "deploy"
    slug := "deploy"
    executor := .shell "true"
    concurrency := some { mode := .mutex } }

/-- The lock is taken and the record cannot be written. -/
def damagedRun : List (Event Op.Answer) × Response × World :=
  (play performOrFail (triggerHook .accepting { slug := "deploy" })
    [some {}, some { id := "run" }, some {}, some {}, some {}, none]
    { config := { hooks := [lockedDeploy] } }).get (by decide)

theorem triggerHook_atomic_iff_damaged :
    damagedRun.2.1 = .status 500 ∧
      damagedRun.2.2.db.locks.map (·.executionId) = ["run"] ∧
      damagedRun.2.2.db.executions = [] ∧
      ¬ Undamaged damagedRun.1 (some damagedRun.2.1) := by
  have played : play performOrFail
      (triggerHook .accepting { slug := "deploy" })
      [some {}, some { id := "run" }, some {}, some {}, some {}, none]
      { config := { hooks := [lockedDeploy] } } = some damagedRun :=
    (Option.some_get _).symm
  refine ⟨by decide, by decide, by decide, fun undamaged => ?_⟩
  have same := (triggerHook_atomic_iff
    (Runs.of_play played).interrupted).mpr undamaged
      fun value ended => by cases ended; decide
  exact absurd same.locks (by decide)

end Sendword
