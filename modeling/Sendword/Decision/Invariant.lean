import Sendword.Decision.Handlers
import Sendword.Hook.Protocol

/-!
# The invariant of an approval request

Before the record exists at most one task has its identifier; then the record
waits for a decision; then exactly one decision has been made, and the record
is rejected, expired or in the hands of one task.
-/

namespace Sendword.Decision

open Concurrency

/-- What the tasks have in their hands. -/
def grips (ghosts : Multiset Ghost) : Multiset Grip :=
  ghosts.filterMap (·.grip)

/-- The decisions that the tasks have made. -/
def made (ghosts : Multiset Ghost) : Multiset ExecutionUpdate :=
  ghosts.bind fun ghost => (ghost.decisions : List ExecutionUpdate)

theorem grips_cons_none {ghost : Ghost} {rest : Multiset Ghost}
    (free : ghost.grip = none) : grips (ghost ::ₘ rest) = grips rest :=
  Multiset.filterMap_cons_none ghost rest free

theorem grips_cons_some {ghost : Ghost} {rest : Multiset Ghost} {grip : Grip}
    (held : ghost.grip = some grip) :
    grips (ghost ::ₘ rest) = grip ::ₘ grips rest :=
  Multiset.filterMap_cons_some _ ghost rest held

theorem grips_cons_congr {ghost after : Ghost} (rest : Multiset Ghost)
    (same : after.grip = ghost.grip) :
    grips (after ::ₘ rest) = grips (ghost ::ₘ rest) := by
  simp only [grips, Multiset.filterMap_cons, same]

@[simp] theorem made_cons (ghost : Ghost) (rest : Multiset Ghost) :
    made (ghost ::ₘ rest) = (ghost.decisions : List ExecutionUpdate) +
      made rest := by
  simp [made]

/-- How the status of the record, what the tasks have in their hands and the
decisions made fit together. -/
inductive Fits (target : String) (status : ExecutionStatus)
    (held : Multiset Grip) (decided : Multiset ExecutionUpdate) : Prop where
  | parked :
      status = .pendingApproval → held = 0 → decided = 0 →
      Fits target status held decided
  | approved (user : String) (time : Timestamp) (grip : Grip) :
      decided = {.markApproved target user time} →
      held = {grip} → grip ≠ .fresh →
      status ≠ .pendingApproval → status ≠ .rejected → status ≠ .expired →
      Fits target status held decided
  | rejected (user : String) (time : Timestamp) :
      decided = {.markRejected target user time} →
      held = 0 → status = .rejected →
      Fits target status held decided
  | expired (time : Timestamp) :
      decided = {.markExpired target time} →
      held = 0 → status = .expired →
      Fits target status held decided

inductive Stage (target : String) (db : Db) (held : Multiset Grip)
    (decided : Multiset ExecutionUpdate) : Prop where
  | unrecorded :
      (∀ row ∈ db.executions, row.id ≠ target) →
      (held = 0 ∨ held = {.fresh}) → decided = 0 →
      Stage target db held decided
  | recorded (row : Execution) :
      row ∈ db.executions → row.id = target →
      Fits target row.status held decided →
      Stage target db held decided

structure Invariant (target : String) (world : World)
    (ghosts : Multiset Ghost) : Prop where
  keys : world.db.Keys
  recorded : ∀ row ∈ world.db.executions, row.id = target →
    target ∈ world.issued
  handed : grips ghosts ≠ 0 → target ∈ world.issued
  unqueued : ∀ entry ∈ world.db.queue, entry.executionId ≠ target
  stage : Stage target world.db (grips ghosts) (made ghosts)

variable {target : String} {world state : World}
  {ghost after : Ghost} {ghosts news rest : Multiset Ghost}

/-- What is in some task's hands is the only thing in any: the identifier
before there is a record, or the approved record. -/
theorem Stage.of_cons {db : Db} {grip : Grip} {held : Multiset Grip}
    {decided : Multiset ExecutionUpdate}
    (stage : Stage target db (grip ::ₘ held) decided) :
    held = 0 ∧
      ((grip = .fresh ∧ (∀ row ∈ db.executions, row.id ≠ target) ∧
          decided = 0) ∨
        (grip ≠ .fresh ∧ ∃ row ∈ db.executions, row.id = target ∧
          row.status ≠ .pendingApproval ∧ row.status ≠ .rejected ∧
          row.status ≠ .expired ∧
          ∃ user time, decided = {.markApproved target user time})) := by
  have single {other : Grip} (only : grip ::ₘ held = {other}) :
      grip = other ∧ held = 0 := by
    obtain ⟨same, nothing⟩ := (Multiset.singleton_eq_cons_iff _).mp only.symm
    exact ⟨same.symm, nothing⟩
  cases stage with
  | unrecorded absent only none =>
      rcases only with nothing | only
      · exact (Multiset.cons_ne_zero nothing).elim
      · exact ⟨(single only).2, .inl ⟨(single only).1, absent, none⟩⟩
  | recorded row member sameId fits =>
      cases fits with
      | parked status nothing => exact (Multiset.cons_ne_zero nothing).elim
      | approved user time other decided only used notParked notRejected
          notExpired =>
          obtain ⟨rfl, nothing⟩ := single only
          exact ⟨nothing, .inr ⟨used, row, member, sameId, notParked,
            notRejected, notExpired, user, time, decided⟩⟩
      | rejected user time decided nothing =>
          exact (Multiset.cons_ne_zero nothing).elim
      | expired time decided nothing =>
          exact (Multiset.cons_ne_zero nothing).elim

/-- A record that waits for a decision is in nobody's hands. -/
theorem Stage.parked {db : Db} {held : Multiset Grip}
    {decided : Multiset ExecutionUpdate} {row : Execution}
    (stage : Stage target db held decided) (keys : db.Keys)
    (member : row ∈ db.executions) (sameId : row.id = target)
    (status : row.status = .pendingApproval) : held = 0 ∧ decided = 0 := by
  cases stage with
  | unrecorded absent => exact (absent row member sameId).elim
  | recorded other otherMember otherId fits =>
      obtain rfl := keys.execution_unique member otherMember
        (sameId.trans otherId.symm)
      cases fits with
      | parked _ held decided => exact ⟨held, decided⟩
      | approved user time grip _ _ _ notParked =>
          exact (notParked status).elim
      | rejected user time _ _ rejected =>
          rw [status] at rejected
          cases rejected
      | expired time _ _ expired =>
          rw [status] at expired
          cases expired

/-- A step that leaves the record, the grips and the decisions alone. -/
theorem Invariant.keep (holds : Invariant target world ghosts)
    (keys : state.db.Keys)
    (same : ∀ row, row.id = target →
      (row ∈ state.db.executions ↔ row ∈ world.db.executions))
    (queue : ∀ entry ∈ state.db.queue, entry.executionId = target →
      ∃ old ∈ world.db.queue, old.executionId = target)
    (issued : ∀ id ∈ world.issued, id ∈ state.issued)
    (held : grips news = grips ghosts) (decided : made news = made ghosts) :
    Invariant target state news where
  keys := keys
  recorded := fun row member sameId =>
    issued _ (holds.recorded row ((same row sameId).mp member) sameId)
  handed := fun some => issued _ (holds.handed (held ▸ some))
  unqueued := by
    intro entry member own
    obtain ⟨old, oldMember, oldOwn⟩ := queue entry member own
    exact holds.unqueued old oldMember oldOwn
  stage := by
    rw [held, decided]
    cases holds.stage with
    | unrecorded absent free none =>
        exact .unrecorded (fun row member sameId =>
          absent row ((same row sameId).mp member) sameId) free none
    | recorded row member sameId fits =>
        exact .recorded row ((same row sameId).mpr member) sameId fits

/-! ## Updates -/

theorem mem_update_iff {db : Db} {change : ExecutionUpdate}
    (untouched : ∀ row ∈ db.executions, row.id = target →
      change.apply row = row) {row : Execution} (own : row.id = target) :
    row ∈ ((ExecutionStatement.update change).exec db).2.executions ↔
      row ∈ db.executions := by
  change row ∈ db.executions.map change.apply ↔ _
  constructor
  · intro member
    obtain ⟨old, oldMember, rfl⟩ := List.mem_map.mp member
    rw [ExecutionUpdate.apply_id] at own
    rw [untouched old oldMember own]
    exact oldMember
  · intro member
    exact List.mem_map.mpr ⟨row, member, untouched row member own⟩

/-- An update that leaves the record as it is. -/
theorem Invariant.untouched {change : ExecutionUpdate}
    (holds : Invariant target world (ghost ::ₘ rest))
    (untouched : ∀ row ∈ world.db.executions, row.id = target →
      change.apply row = row)
    (grip : after.grip = ghost.grip)
    (decisions : after.decisions = ghost.decisions) :
    Invariant target
      { world with db := ((ExecutionStatement.update change).exec world.db).2 }
      (after ::ₘ rest) := by
  refine holds.keep (Db.keys_execution holds.keys _)
    (fun row own => mem_update_iff untouched own)
    (fun entry member own => ⟨entry, member, own⟩) (fun _ old => old)
    (grips_cons_congr rest grip) ?_
  simp [decisions]

/-- A decision that finds the record waiting. -/
theorem Invariant.decide {change : ExecutionUpdate} {row : Execution}
    (holds : Invariant target world (ghost ::ₘ rest))
    (decides : change.decides.isSome = true)
    (member : row ∈ world.db.executions) (sameId : row.id = target)
    (matched : change.matches? row = true) :
    ghost.grip = none ∧
      Invariant target
        { world with
          db := ((ExecutionStatement.update change).exec world.db).2 }
        ({ ghost with
          grip := updated target ghost change
          decisions := ghost.decisions ++ [change] } ::ₘ rest) := by
  obtain ⟨phase, isDecision⟩ := Option.isSome_iff_exists.mp decides
  obtain ⟨aimed, status⟩ :=
    ExecutionUpdate.parked_of_decides isDecision matched
  obtain ⟨nothing, undecided⟩ :=
    holds.stage.parked holds.keys member sameId status
  have free : ghost.grip = none := by
    cases grip : ghost.grip with
    | none => rfl
    | some held =>
        rw [grips_cons_some grip] at nothing
        exact (Multiset.cons_ne_zero nothing).elim
  rw [grips_cons_none free] at nothing
  rw [made_cons, add_eq_zero] at undecided
  have decided : made ({ ghost with
        grip := updated target ghost change
        decisions := ghost.decisions ++ [change] } ::ₘ rest) =
      {change} := by
    rw [made_cons, undecided.2, ← Multiset.coe_add, undecided.1]
    simp
  have recorded : change.apply row ∈
      ((ExecutionStatement.update change).exec world.db).2.executions :=
    List.mem_map_of_mem member
  have applied := ExecutionUpdate.apply_of_matches matched
  have issued := holds.recorded row member sameId
  refine ⟨free, ⟨Db.keys_execution holds.keys _, fun _ _ _ => issued,
    fun _ => issued, holds.unqueued, ?_⟩⟩
  refine .recorded (change.apply row) recorded (by simpa using sameId) ?_
  rw [decided]
  cases change with
  | markApproved id user time =>
      obtain rfl : id = target := by
        simpa [ExecutionUpdate.target?, sameId] using aimed
      refine .approved user time .approved rfl ?_ (by simp) ?_ ?_ ?_
      · rw [grips_cons_some rfl, nothing]
        rfl
      all_goals simp [applied, ExecutionUpdate.set]
  | markRejected id user time =>
      obtain rfl : id = target := by
        simpa [ExecutionUpdate.target?, sameId] using aimed
      refine .rejected user time rfl ?_ ?_
      · refine (grips_cons_none ?_).trans nothing
        exact free
      · simp [applied, ExecutionUpdate.set]
  | markExpired id time =>
      obtain rfl : id = target := by
        simpa [ExecutionUpdate.target?, sameId] using aimed
      refine .expired time rfl ?_ ?_
      · refine (grips_cons_none ?_).trans nothing
        exact free
      · simp [applied, ExecutionUpdate.set]
  | markRunning | markCompleted | incrementRetryCount | resetToPending
  | resetApproved | markPendingApproval | failRunning => cases decides

/-- The owner of an approved record changes it. -/
theorem Invariant.own {change : ExecutionUpdate} {grip next : Grip}
    (holds : Invariant target world (ghost ::ₘ rest))
    (held : ghost.grip = some grip) (used : grip ≠ .fresh)
    (nextUsed : next ≠ .fresh)
    (stays : ∀ row : Execution, row.status ≠ .pendingApproval →
      row.status ≠ .rejected → row.status ≠ .expired →
      (change.apply row).status ≠ .pendingApproval ∧
        (change.apply row).status ≠ .rejected ∧
        (change.apply row).status ≠ .expired) :
    Invariant target
      { world with db := ((ExecutionStatement.update change).exec world.db).2 }
      ({ ghost with grip := some next } ::ₘ rest) := by
  have stage := holds.stage
  rw [grips_cons_some held] at stage
  obtain ⟨nothing, fresh | ⟨-, row, member, sameId, notParked, notRejected,
    notExpired, user, time, decided⟩⟩ := stage.of_cons
  · exact (used fresh.1).elim
  · have issued := holds.recorded row member sameId
    have kept := stays row notParked notRejected notExpired
    refine ⟨Db.keys_execution holds.keys _, fun _ _ _ => issued,
      fun _ => issued, holds.unqueued, ?_⟩
    refine .recorded (change.apply row) (List.mem_map_of_mem member)
      (by simpa using sameId) ?_
    refine .approved user time next ?_ ?_ nextUsed kept.1 kept.2.1 kept.2.2
    · rw [made_cons] at decided ⊢
      exact decided
    · rw [grips_cons_some rfl, nothing]
      rfl

/-- The updates after an approval do not undo it. -/
theorem stays_approved {change : ExecutionUpdate} {row : Execution}
    (sets : change = .resetApproved target ∨ change.ofRun target)
    (notParked : row.status ≠ .pendingApproval)
    (notRejected : row.status ≠ .rejected)
    (notExpired : row.status ≠ .expired) :
    (change.apply row).status ≠ .pendingApproval ∧
      (change.apply row).status ≠ .rejected ∧
      (change.apply row).status ≠ .expired := by
  unfold ExecutionUpdate.apply
  split
  · rcases sets with rfl | ofRun
    · simp [ExecutionUpdate.set]
    · cases change with
      | markRunning | resetToPending => simp [ExecutionUpdate.set]
      | incrementRetryCount id =>
          exact ⟨notParked, notRejected, notExpired⟩
      | markCompleted id status exitCode time =>
          rcases ofRun.2 with rfl | rfl | rfl <;>
            simp [ExecutionUpdate.set]
      | markApproved | resetApproved | markRejected | markExpired
      | markPendingApproval | failRunning => exact ofRun.elim
  · exact ⟨notParked, notRejected, notExpired⟩

/-- Any update that the protocol allows. -/
theorem Invariant.update {change : ExecutionUpdate}
    (holds : Invariant target world (ghost ::ₘ rest))
    (allowed : allowsUpdate target ghost change) :
    ∃ after,
      moves target ghost (.sql (.execution (.update change)))
        ((ExecutionStatement.update change).exec world.db).1 after ∧
      Invariant target
        { world with
          db := ((ExecutionStatement.update change).exec world.db).2 }
        (after ::ₘ rest) := by
  simp only [moves]
  by_cases elsewhere : change.target? ≠ some target
  · -- another record, or none at all
    have quiet : decision? target ⟨.sql (.execution (.update change)),
        ((ExecutionStatement.update change).exec world.db).1⟩ = none := by
      simp [decision?, elsewhere]
    rw [quiet]
    refine ⟨_, rfl, holds.untouched ?_ ?_ rfl⟩
    · intro row _ own
      unfold ExecutionUpdate.apply
      split
      · rename_i matched
        cases change <;>
          simp_all [ExecutionUpdate.matches?, ExecutionUpdate.target?,
            allowsUpdate]
      · rfl
    · cases change with
      | resetApproved id =>
          have other : id ≠ target := by
            simpa [ExecutionUpdate.target?] using elsewhere
          simp [updated, ExecutionUpdate.decides, other]
      | markApproved | markRejected | markExpired => rfl
      | markRunning | markCompleted | incrementRetryCount | resetToPending
      | markPendingApproval | failRunning => rfl
  · rw [not_not] at elsewhere
    cases decides : change.decides with
    | some phase =>
        by_cases found : ∃ row ∈ world.db.executions,
            change.matches? row = true
        · obtain ⟨row, member, matched⟩ := found
          have own : row.id = target :=
            ExecutionUpdate.id_of_matches elsewhere matched
          have count := Db.countP_update holds.keys.executions
            (own.symm ▸ elsewhere) member
          rw [matched, if_pos rfl] at count
          have isDecision : change.decides.isSome = true := by simp [decides]
          obtain ⟨free, kept⟩ := holds.decide isDecision member own matched
          have made : decision? target ⟨.sql (.execution (.update change)),
              ((ExecutionStatement.update change).exec world.db).1⟩ =
              some change := by
            simp [decision?, isDecision, elsewhere, ExecutionStatement.exec,
              count, Except.toOption]
          rw [made]
          exact ⟨_, ⟨free, rfl⟩, kept⟩
        · have unmatched : ∀ row ∈ world.db.executions,
              change.matches? row = false := by
            intro row member
            rw [← Bool.not_eq_true]
            exact fun matched => found ⟨row, member, matched⟩
          rw [ExecutionStatement.update_nothing unmatched]
          have quiet : decision? target
              ⟨.sql (.execution (.update change)), .ok (0 : Nat)⟩ = none := by
            simp [decision?, Except.toOption]
          rw [quiet]
          refine ⟨_, rfl, ?_⟩
          simp only [Option.isSome_some, if_true]
          exact holds
    | none =>
        have quiet : decision? target ⟨.sql (.execution (.update change)),
            ((ExecutionStatement.update change).exec world.db).1⟩ = none := by
          simp [decision?, decides]
        rw [quiet]
        refine ⟨_, rfl, ?_⟩
        have runs (ofRun : change.ofRun target)
            (held : ghost.grip = some .run)
            (kept : updated target ghost change = ghost.grip) :
            Invariant target
              { world with
                db := ((ExecutionStatement.update change).exec world.db).2 }
              ({ ghost with grip := updated target ghost change } ::ₘ
                rest) := by
          rw [kept, held]
          exact holds.own held (by simp) (by simp) fun row =>
            stays_approved (.inr ofRun)
        cases change with
        | markRunning id time =>
            obtain rfl : id = target := by
              simpa [ExecutionUpdate.target?] using elsewhere
            exact runs rfl (allowed rfl) rfl
        | markCompleted id status exitCode time =>
            obtain rfl : id = target := by
              simpa [ExecutionUpdate.target?] using elsewhere
            exact runs ⟨rfl, (allowed rfl).2⟩ (allowed rfl).1 rfl
        | incrementRetryCount id =>
            obtain rfl : id = target := by
              simpa [ExecutionUpdate.target?] using elsewhere
            exact runs rfl (allowed rfl) rfl
        | resetToPending id =>
            obtain rfl : id = target := by
              simpa [ExecutionUpdate.target?] using elsewhere
            exact runs rfl (allowed rfl) rfl
        | resetApproved id =>
            obtain rfl : id = target := by
              simpa [ExecutionUpdate.target?] using elsewhere
            have cleared : updated id ghost (.resetApproved id) =
                some .cleared := if_pos rfl
            simp only [Option.isSome_none, Bool.false_eq_true, if_false,
              cleared]
            exact holds.own (allowed rfl) (by simp) (by simp) fun row =>
              stays_approved (.inl rfl)
        | markPendingApproval id =>
            have same : id = target := by
              simpa [ExecutionUpdate.target?] using elsewhere
            exact (allowed same).elim
        | failRunning time => exact allowed.elim
        | markApproved | markRejected | markExpired => cases decides

/-! ## Other operations -/

theorem Invariant.insert {row : Execution}
    (holds : Invariant target world (ghost ::ₘ rest))
    (allowed : row.id = target → ghost.grip = some .fresh)
    (pending : row.id = target →
      ((ExecutionStatement.insert row).exec world.db).1 = .ok () →
      row.status = .pendingApproval) :
    ∃ after,
      moves target ghost (.sql (.execution (.insert row)))
        ((ExecutionStatement.insert row).exec world.db).1 after ∧
      Invariant target
        { world with
          db := ((ExecutionStatement.insert row).exec world.db).2 }
        (after ::ₘ rest) := by
  have keys := Db.keys_execution holds.keys (.insert row)
  simp only [moves]
  by_cases own : row.id = target
  · simp only [if_pos own]
    have fresh := allowed own
    have stage := holds.stage
    rw [grips_cons_some fresh] at stage
    have issued : target ∈ world.issued := by
      refine holds.handed ?_
      rw [grips_cons_some fresh]
      exact Multiset.cons_ne_zero
    obtain ⟨nothing, ⟨-, absent, undecided⟩ | ⟨used, -⟩⟩ := stage.of_cons
    · rcases Db.insert_cases world.db row with accepted | refused
      · rw [accepted] at keys pending ⊢
        refine ⟨_, .inl ⟨rfl, pending own rfl, rfl⟩, keys,
          fun _ _ _ => issued, fun _ => issued, holds.unqueued, ?_⟩
        refine .recorded row (by simp) own
          (.parked (pending own rfl) ?_ ?_)
        · exact (grips_cons_none rfl).trans nothing
        · rw [made_cons] at undecided ⊢
          exact undecided
      · rw [refused]
        exact ⟨ghost, .inr ⟨rfl, rfl⟩, holds⟩
    · exact (used rfl).elim
  · simp only [if_neg own]
    refine ⟨ghost, rfl, holds.keep keys ?_
      (fun entry member same => ?_) (fun _ old => old) rfl rfl⟩
    · intro other same
      rcases Db.insert_cases world.db row with accepted | refused
      · have different : other ≠ row := fun equal => own (equal ▸ same)
        simp [accepted, different]
      · rw [refused]
    · refine ⟨entry, ?_, same⟩
      rcases Db.insert_cases world.db row with accepted | refused
      · simpa [accepted] using member
      · simpa [refused] using member

/-- A statement that leaves records and queued executions alone. -/
theorem Invariant.sql {statement : Statement}
    (holds : Invariant target world ghosts)
    (executions : (statement.exec world.db).2.executions =
      world.db.executions)
    (queue : ∀ entry ∈ (statement.exec world.db).2.queue,
      entry.executionId = target →
        ∃ old ∈ world.db.queue, old.executionId = target) :
    Invariant target { world with db := (statement.exec world.db).2 }
      ghosts :=
  holds.keep (Db.keys_exec holds.keys statement)
    (fun row _ => by rw [executions]) queue (fun _ old => old) rfl rfl

theorem Invariant.elsewhere {statement : Statement}
    (holds : Invariant target world ghosts)
    (noRecord : ∀ record, statement ≠ .execution record)
    (noEntry : ∀ queue, statement ≠ .queue queue) :
    Invariant target { world with db := (statement.exec world.db).2 }
      ghosts := by
  refine holds.sql (Db.executions_exec noRecord) ?_
  rw [Db.queue_exec noEntry]
  exact fun entry member own => ⟨entry, member, own⟩

theorem Invariant.queueStatement {statement : QueueStatement}
    (holds : Invariant target world ghosts)
    (other : ∀ id slug execution queuedAt,
      statement = .enqueue id slug execution queuedAt →
      execution ≠ target) :
    Invariant target { world with db := (statement.exec world.db).2 }
      ghosts := by
  refine @Invariant.sql target world ghosts (.queue statement) holds
    (Db.executions_exec fun _ same => Statement.noConfusion same) ?_
  intro entry member own
  change entry ∈ (statement.exec world.db).2.queue at member
  cases statement with
  | enqueue id slug execution queuedAt =>
      rcases Db.enqueue_cases world.db id slug execution queuedAt with
        ⟨position, accepted⟩ | refused
      · rw [accepted] at member
        rcases List.mem_append.mp member with old | new
        · exact ⟨entry, old, own⟩
        · rw [List.mem_singleton.mp new] at own
          exact (other _ _ _ _ rfl own).elim
      · rw [refused] at member
        exact ⟨entry, member, own⟩
  | update change =>
      obtain ⟨old, wasThere, rfl⟩ := List.mem_map.mp member
      exact ⟨old, wasThere, by simpa using own⟩
  | expireStale =>
      obtain ⟨old, wasThere, rfl⟩ := List.mem_map.mp member
      refine ⟨old, wasThere, ?_⟩
      split at own <;> exact own
  | selectPosition | peekNext | countWaiting => exact ⟨entry, member, own⟩

theorem Invariant.newId {id : String}
    (holds : Invariant target world (ghost ::ₘ rest))
    (unused : id ∉ world.issued) :
    ∃ after, moves target ghost .newId id after ∧
      Invariant target { world with issued := id :: world.issued }
        (after ::ₘ rest) := by
  simp only [moves]
  by_cases own : id = target
  · subst own
    simp only [if_true]
    have nothing : grips (ghost ::ₘ rest) = 0 := by
      by_contra some
      exact unused (holds.handed some)
    have free : ghost.grip = none := by
      cases grip : ghost.grip with
      | none => rfl
      | some held =>
          rw [grips_cons_some grip] at nothing
          exact (Multiset.cons_ne_zero nothing).elim
    have absent : ∀ row ∈ world.db.executions, row.id ≠ id :=
      fun row member same => unused (holds.recorded row member same)
    refine ⟨_, ⟨free, rfl⟩, holds.keys, fun _ _ _ => List.mem_cons_self,
      fun _ => List.mem_cons_self, holds.unqueued, ?_⟩
    rw [grips_cons_none free] at nothing
    refine .unrecorded absent (.inr ?_) ?_
    · rw [grips_cons_some rfl, nothing]
      rfl
    · cases holds.stage with
      | unrecorded _ _ undecided =>
          rw [made_cons] at undecided ⊢
          exact undecided
      | recorded row member sameId => exact (absent row member sameId).elim
  · simp only [if_neg own]
    exact ⟨ghost, rfl, holds.keep holds.keys (fun _ _ => Iff.rfl)
      (fun entry member same => ⟨entry, member, same⟩)
      (fun _ old => List.mem_cons_of_mem _ old) rfl rfl⟩

theorem Invariant.spawn {job : Job}
    (holds : Invariant target world (ghost ::ₘ rest))
    (allowed : allows target ghost (.spawn job)) :
    ∃ after, moves target ghost (.spawn job) () after ∧
      Invariant target world (after ::ₘ start target job ::ₘ rest) := by
  simp only [moves]
  by_cases own : runs target job = true
  · simp only [if_pos own]
    have cleared : ghost.grip = some .cleared := by
      cases job with
      | runExecution context retries hook concurrency approval =>
          exact allowed (by simpa [runs] using own)
      | runDequeued slug execution concurrency approval =>
          exact (allowed (by simpa [runs] using own)).elim
      | trigger | approve | reject | replay | expirePendingApprovals
      | reloadConfig => cases own
    have running : (start target job).grip = some .run := if_pos own
    have stage := holds.stage
    rw [grips_cons_some cleared] at stage
    obtain ⟨nothing, fresh | ⟨-, row, member, sameId, notParked,
      notRejected, notExpired, user, time, decided⟩⟩ := stage.of_cons
    · cases fresh.1
    · have issued := holds.recorded row member sameId
      refine ⟨_, rfl, holds.keys, fun _ _ _ => issued, fun _ => issued,
        holds.unqueued, ?_⟩
      refine .recorded row member sameId (.approved user time .run ?_ ?_
        (by simp) notParked notRejected notExpired)
      · rw [made_cons] at decided
        rw [made_cons, made_cons, ← decided]
        simp [start]
      · rw [grips_cons_none rfl, grips_cons_some running, nothing]
        rfl
  · simp only [if_neg own]
    have free : (start target job).grip = none := if_neg own
    refine ⟨ghost, rfl, holds.keep holds.keys (fun _ _ => Iff.rfl)
      (fun entry member same => ⟨entry, member, same⟩) (fun _ old => old)
      ?_ ?_⟩
    · rw [Multiset.cons_swap, grips_cons_none free]
    · rw [Multiset.cons_swap, made_cons]
      simp [start]

end Sendword.Decision
