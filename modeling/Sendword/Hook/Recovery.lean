import Sendword.Concurrency.Lifetimes
import Sendword.Hook.StuckHolder
import Sendword.Sequential

/-!
# Recovery after a crash

The server stops between any two operations and starts again on the database
it left.  The tasks are gone; what they owned is not.
-/

namespace Sendword

open Concurrency

/-! ## What a task that is gone still owns -/

/-- A record that was running has failed. -/
def Token.interrupted : Token → Token
  | .claim locked id .running => .claim locked id .finished
  | .taking id .running entry execution =>
      .taking id .finished entry execution
  | token => token

/-- The phases whose lock is cleaned up. -/
def Phase.isOver : Phase → Bool
  | .finished | .ended => true
  | _ => false

/-- The lock of a record that has ended is deleted. -/
def Token.released : Token → Token
  | .claim locked id phase =>
      if phase.isOver then .none else .claim locked id phase
  | .taking id phase entry execution =>
      if phase.isOver then .none else .taking id phase entry execution
  | token => token

namespace Token

@[simp] theorem interrupted_lock (token : Token) :
    token.interrupted.lock = token.lock := by
  cases token with
  | none | unborn | succeeding => rfl
  | claim locked id phase => cases phase <;> cases locked <;> rfl
  | taking id phase entry execution => cases phase <;> rfl

@[simp] theorem interrupted_owned (token : Token) :
    token.interrupted.owned = token.owned := by
  cases token with
  | none | unborn | succeeding => rfl
  | claim locked id phase => cases phase <;> rfl
  | taking id phase entry execution => cases phase <;> rfl

theorem eq_unborn_of_interrupted {token : Token} {id : String}
    (unborn : token.interrupted = .unborn id) : token = .unborn id := by
  cases token with
  | none | unborn | succeeding => exact unborn
  | claim locked id phase => cases phase <;> cases unborn
  | taking id phase entry execution => cases phase <;> cases unborn

/-- What is left of a token is the token, or nothing. -/
theorem released_cases (token : Token) :
    token.released = token ∨ token.released = .none := by
  cases token with
  | none | unborn | succeeding => exact .inl rfl
  | claim locked id phase => cases phase <;> simp [released, Phase.isOver]
  | taking id phase entry execution =>
      cases phase <;> simp [released, Phase.isOver]

end Token

namespace Ghost

def interrupted (ghost : Ghost) : Ghost := ghost.hold ghost.token.interrupted

def released (ghost : Ghost) : Ghost := ghost.hold ghost.token.released

@[simp] theorem interrupted_token (ghost : Ghost) :
    ghost.interrupted.token = ghost.token.interrupted := rfl

@[simp] theorem released_token (ghost : Ghost) :
    ghost.released.token = ghost.token.released := rfl

@[simp] theorem owned_interrupted (ghost : Ghost) :
    ghost.interrupted.owned = ghost.owned := by
  simp [Ghost.owned, interrupted, hold]

theorem owned_released_le (ghost : Ghost) :
    ghost.released.owned ≤ ghost.owned := by
  rcases ghost.token.released_cases with same | none
  · simp [Ghost.owned, released, hold, same]
  · simp only [Ghost.owned, released, hold, none, Token.owned_none]
    simpa using (List.sublist_append_left ..).subperm

end Ghost

@[simp] theorem ownedIds_interrupted (ghosts : Multiset Ghost) :
    ownedIds (ghosts.map Ghost.interrupted) = ownedIds ghosts := by
  simp [ownedIds, Multiset.bind_map]

@[simp] theorem lockIds_interrupted (ghosts : Multiset Ghost) :
    lockIds (ghosts.map Ghost.interrupted) = lockIds ghosts := by
  simp [lockIds, Multiset.bind_map]

theorem ownedIds_released_le (ghosts : Multiset Ghost) :
    ownedIds (ghosts.map Ghost.released) ≤ ownedIds ghosts := by
  induction ghosts using Multiset.induction_on with
  | empty => simp
  | cons ghost ghosts induction =>
      rw [Multiset.map_cons, ownedIds_cons, ownedIds_cons]
      exact add_le_add ghost.owned_released_le induction

/-- Approvals stay made. -/
theorem approvalsOf_map (change : Ghost → Ghost) (ghosts : Multiset Ghost)
    (same : ∀ ghost, (change ghost).approvals = ghost.approvals) :
    approvalsOf (ghosts.map change) = approvalsOf ghosts := by
  funext id user time
  simp [approvalsOf, same]

/-! ## Running records are failed -/

namespace ExecutionUpdate

theorem failRunning_idle {row : Execution} (time : Timestamp)
    (idle : row.status ≠ .running) :
    (failRunning time).apply row = row := by
  simp [apply, matches?, idle]

theorem failRunning_running {row : Execution} (time : Timestamp)
    (running : row.status = .running) :
    (failRunning time).apply row =
      { row with status := .failed, completedAt := some time } := by
  simp [apply, matches?, set, running]

theorem failRunning_parked (time : Timestamp) (row : Execution) :
    ((failRunning time).apply row).status = .pendingApproval ↔
      row.status = .pendingApproval := by
  by_cases running : row.status = .running
  · simp [failRunning_running time running, running]
  · rw [failRunning_idle time running]

theorem failRunning_status (time : Timestamp) (row : Execution) :
    ((failRunning time).apply row).status ≠ .running := by
  by_cases running : row.status = .running
  · simp [failRunning_running time running]
  · rwa [failRunning_idle time running]

end ExecutionUpdate

namespace HookRows

variable {rows : HookRows}

theorem parkedIds_failRunning (rows : HookRows) (time : Timestamp) :
    (rows.changed (.failRunning time)).parkedIds = rows.parkedIds := by
  have same : (Multiset.map (ExecutionUpdate.failRunning time).apply
        (rows.records : Multiset Execution)) =
      (rows.changed (.failRunning time)).records := rfl
  rw [parkedIds, ← same, Multiset.filter_map, Multiset.map_map, parkedIds]
  refine Multiset.map_congr ?_ fun row _ => ExecutionUpdate.apply_id ..
  exact Multiset.filter_congr fun row _ =>
    ExecutionUpdate.failRunning_parked time row

theorem Has.failRunning {id : String} {described : Execution → Prop}
    (time : Timestamp) (has : rows.Has id described)
    (idle : ∀ row, described row → row.status ≠ .running) :
    (rows.changed (.failRunning time)).Has id described :=
  has.changed fun row _ holds => by
    rw [ExecutionUpdate.failRunning_idle time (idle row holds)]
    exact holds

end HookRows

namespace Watched

variable {watched : Watched} {approvals : Approvals} {rows : HookRows}
  {ghosts : Multiset Ghost}

/-- The phase of a record after the running ones were failed. -/
theorem PhaseHolds.failRunning {id : String} {phase : Phase}
    (time : Timestamp)
    (has : rows.Has id (watched.PhaseHolds approvals phase)) :
    (rows.changed (.failRunning time)).Has id (watched.PhaseHolds approvals
      (if phase = .running then .finished else phase)) := by
  cases phase with
  | running =>
      refine has.changed fun row _ holds => ?_
      rw [ExecutionUpdate.failRunning_running time holds.1]
      exact ⟨.inr (.inl rfl), holds.2⟩
  | queued | taken | approved | ready | abandoned =>
      refine has.failRunning time fun row holds => ?_
      simp [holds.1]
  | finished =>
      refine has.failRunning time fun row holds => ?_
      rcases holds.1 with same | same | same <;> simp [same]
  | ended =>
      refine has.failRunning time fun row holds => ?_
      rcases holds with same | same <;> simp [same]

theorem TokenHolds.failRunning {token : Token} (time : Timestamp)
    (holds : watched.TokenHolds approvals rows token) :
    watched.TokenHolds approvals (rows.changed (.failRunning time))
      token.interrupted := by
  cases token with
  | none | unborn => trivial
  | claim locked id phase =>
      have has := PhaseHolds.failRunning time holds.1
      cases phase with
      | running => exact ⟨has, fun _ => holds.2 (by simp)⟩
      | queued | taken | approved | ready | abandoned | finished | ended =>
          exact ⟨has, holds.2⟩
  | taking id phase entry execution =>
      have has := PhaseHolds.failRunning time holds.1
      cases phase with
      | running => exact ⟨has, holds.2⟩
      | queued | taken | approved | ready | abandoned | finished | ended =>
          exact ⟨has, holds.2⟩
  | succeeding entry execution => exact holds

theorem Owned.failRunning (time : Timestamp)
    (owned : watched.Owned approvals rows ghosts) :
    watched.Owned approvals (rows.changed (.failRunning time))
      (ghosts.map Ghost.interrupted) := by
  refine
    { keys := ?keys
      distinct := ?distinct
      locked := ?locked
      free := ?free
      tokens := ?tokens
      settled := ?settled
      waiting := ?waiting
      running := ?running
      ungated := ?ungated }
  case keys =>
    simpa only [HookRows.changed, Db.map_id_update] using owned.keys
  case distinct =>
    rw [ownedIds_interrupted, HookRows.parkedIds_failRunning]
    exact owned.distinct
  case locked =>
    rw [lockIds_interrupted, HookRows.parkedIds_failRunning]
    exact owned.locked
  case free =>
    rw [lockIds_interrupted]
    exact owned.free
  case tokens =>
    intro after member
    obtain ⟨ghost, old, rfl⟩ := Multiset.mem_map.mp member
    exact (owned.tokens ghost old).failRunning time
  case settled =>
    intro after member id known
    obtain ⟨ghost, old, rfl⟩ := Multiset.mem_map.mp member
    refine (owned.settled ghost old id known).changed fun row _ settled => ?_
    by_cases running : row.status = .running
    · rw [ExecutionUpdate.failRunning_running time running]
      simpa [Settled, running] using settled
    · rwa [ExecutionUpdate.failRunning_idle time running]
  case waiting =>
    intro entry member
    refine (owned.waiting entry member).failRunning time fun row holds => ?_
    simp [holds.1]
  case running =>
    intro _ row member running
    obtain ⟨old, -, rfl⟩ := List.mem_map.mp member
    exact (ExecutionUpdate.failRunning_status time old running).elim
  case ungated =>
    rw [HookRows.parkedIds_failRunning]
    exact owned.ungated

end Watched

/-! ## Locks of ended executions are deleted -/

namespace Db

/-- An execution with this identifier has ended. -/
def ended (db : Db) (id : String) : Bool :=
  db.executions.any fun row => row.id == id && row.status.isTerminal

theorem ended_of_mem {db : Db} (keys : db.Keys) {row : Execution}
    (member : row ∈ db.executions) :
    db.ended row.id = row.status.isTerminal := by
  rw [Bool.eq_iff_iff, ended, List.any_eq_true]
  constructor
  · rintro ⟨other, otherMember, same⟩
    simp only [Bool.and_eq_true, beq_iff_eq] at same
    rw [← keys.execution_unique otherMember member same.1]
    exact same.2
  · intro terminal
    exact ⟨row, member, by simp [terminal]⟩

theorem not_ended_of_absent {db : Db} {id : String}
    (absent : ∀ row ∈ db.executions, row.id ≠ id) : db.ended id = false := by
  rw [Bool.eq_false_iff, ended, Ne, List.any_eq_true]
  rintro ⟨row, member, same⟩
  simp only [Bool.and_eq_true, beq_iff_eq] at same
  exact absent row member same.1

end Db

namespace HookRows

/-- Without the locks of the executions that have ended. -/
def released (rows : HookRows) (ended : String → Bool) : HookRows :=
  { rows with
    locks := rows.locks.filter fun row => !ended row.executionId }

variable {rows : HookRows} {ended : String → Bool}

theorem released_holder
    (single : rows.locks.map (·.executionId) = rows.holder.toList) :
    (rows.released ended).holder = rows.holder.filter fun id => !ended id := by
  cases held : rows.holder with
  | none =>
      rw [held] at single
      simp [released, holder, List.map_eq_nil_iff.mp single]
  | some id =>
      rw [held] at single
      obtain ⟨row, locks, rfl⟩ := List.map_eq_singleton_iff.mp single
      cases isOver : ended row.executionId <;>
        simp [released, holder, locks, isOver, Option.filter_some]

theorem Has.isEnded {id : String} {described : Execution → Prop}
    (has : rows.Has id described)
    (own : ∀ row ∈ rows.records, ended row.id = row.status.isTerminal)
    {terminal : Bool}
    (tells : ∀ row, described row → row.status.isTerminal = terminal) :
    ended id = terminal := by
  obtain ⟨row, member, rfl, holds⟩ := has
  rw [own row member, tells row holds]

end HookRows

theorem Db.rowsOf_deleteTerminal (db : Db) (slug : String) :
    ((LockStatement.deleteTerminal.exec db).2).rowsOf slug =
      (db.rowsOf slug).released db.ended := by
  simp only [LockStatement.exec, rowsOf, HookRows.released,
    List.filter_filter, Bool.and_comm]
  rfl

namespace Watched

variable {watched : Watched} {approvals : Approvals} {rows : HookRows}
  {ghosts : Multiset Ghost} {ended : String → Bool}

theorem PhaseHolds.isTerminal {phase : Phase} {row : Execution}
    (holds : watched.PhaseHolds approvals phase row) :
    row.status.isTerminal = phase.isOver := by
  cases phase with
  | queued | taken | approved | ready | abandoned | running =>
      rw [holds.1]
      rfl
  | finished => rcases holds.1 with same | same | same <;> rw [same] <;> rfl
  | ended => rcases holds with same | same <;> rw [same] <;> rfl

/-- The lock of a token that is released is the lock of an execution that has
ended. -/
theorem released_lock {token : Token}
    (owned : watched.Owned approvals rows ghosts)
    (holds : watched.TokenHolds approvals rows token)
    (own : ∀ row ∈ rows.records, ended row.id = row.status.isTerminal)
    (unborn : ∀ id, token = .unborn id → ended id = false) :
    token.released.lock = token.lock.filter fun id => !ended id := by
  cases token with
  | none => rfl
  | unborn id =>
      simp [Token.released, unborn id rfl, Option.filter_some]
  | claim locked id phase =>
      have isOver := holds.1.isEnded own fun row described =>
        described.isTerminal
      cases locked <;> cases terminal : phase.isOver <;>
        simp [Token.released, terminal, isOver, Option.filter_some]
  | taking id phase entry execution =>
      have isOver := holds.1.isEnded own fun row described =>
        described.isTerminal
      cases terminal : phase.isOver <;>
        simp [Token.released, terminal, isOver, Option.filter_some]
  | succeeding entry execution =>
      obtain ⟨queued, waits, -, rfl⟩ := holds
      have kept : ended queued.executionId = false :=
        (owned.waiting queued waits).isEnded own fun row described => by
          rw [described.1]
          rfl
      simp [Token.released, kept, Option.filter_some]

theorem lockIds_released {holders : Multiset Ghost}
    (owned : watched.Owned approvals rows ghosts)
    (own : ∀ row ∈ rows.records, ended row.id = row.status.isTerminal)
    (tokens : ∀ ghost ∈ holders,
      watched.TokenHolds approvals rows ghost.token)
    (unborn : ∀ ghost ∈ holders, ∀ id, ghost.token = .unborn id →
      ended id = false) :
    lockIds (holders.map Ghost.released) =
      (lockIds holders).filter fun id => ended id = false := by
  induction holders using Multiset.induction_on with
  | empty => rfl
  | cons ghost holders induction =>
      have first := released_lock owned
        (tokens ghost (Multiset.mem_cons_self _ _)) own
        (unborn ghost (Multiset.mem_cons_self _ _))
      rw [Multiset.map_cons, lockIds_cons, lockIds_cons, Multiset.filter_add,
        Ghost.released_token, first, induction
          (fun other member =>
            tokens other (Multiset.mem_cons_of_mem member))
          (fun other member =>
            unborn other (Multiset.mem_cons_of_mem member))]
      congr 1
      cases ghost.token.lock with
      | none => rfl
      | some id =>
          cases isOver : ended id <;>
            simp [isOver, Option.filter_some, Multiset.filter_singleton]

/-- No open decision is on an execution that has ended. -/
theorem parkedIds_kept
    (own : ∀ row ∈ rows.records, ended row.id = row.status.isTerminal) :
    (rows.parkedIds).filter (fun id => ended id = false) =
      rows.parkedIds := by
  refine Multiset.filter_eq_self.mpr fun id member => ?_
  obtain ⟨row, inRows, rfl⟩ := Multiset.mem_map.mp member
  obtain ⟨inRecords, parked⟩ := Multiset.mem_filter.mp inRows
  rw [own row (Multiset.mem_coe.mp inRecords), parked]
  rfl

theorem Owned.deleteTerminal
    (owned : watched.Owned approvals rows ghosts)
    (single : rows.locks.map (·.executionId) = rows.holder.toList)
    (own : ∀ row ∈ rows.records, ended row.id = row.status.isTerminal)
    (unborn : ∀ ghost ∈ ghosts, ∀ id, ghost.token = .unborn id →
      ended id = false) :
    watched.Owned approvals (rows.released ended)
      (ghosts.map Ghost.released) := by
  have locks := lockIds_released owned own owned.tokens unborn
  have holder : (rows.released ended).holder =
      rows.holder.filter fun id => !ended id := rows.released_holder single
  refine
    { keys := owned.keys
      distinct := ?distinct
      locked := ?locked
      free := ?free
      tokens := ?tokens
      settled := ?settled
      waiting := owned.waiting
      running := ?running
      ungated := owned.ungated }
  case distinct =>
    refine Multiset.nodup_of_le ?_ owned.distinct
    exact add_le_add (add_le_add (ownedIds_released_le ghosts) le_rfl) le_rfl
  case locked =>
    intro exclusive
    have before := congrArg
      (Multiset.filter fun id => ended id = false) (owned.locked exclusive)
    rw [Multiset.filter_add, parkedIds_kept own, ← locks] at before
    refine before.trans ?_
    rw [holder]
    cases rows.holder with
    | none => rfl
    | some id => cases isOver : ended id <;> simp [isOver, Option.filter_some]
  case free =>
    intro free
    obtain ⟨noLocks, unheld⟩ := owned.free free
    rw [locks, noLocks, holder, unheld]
    exact ⟨rfl, rfl⟩
  case tokens =>
    intro after member
    obtain ⟨ghost, old, rfl⟩ := Multiset.mem_map.mp member
    rw [Ghost.released_token]
    rcases ghost.token.released_cases with same | none
    · rw [same]
      exact owned.tokens ghost old
    · rw [none]
      trivial
  case settled =>
    intro after member id known
    obtain ⟨ghost, old, rfl⟩ := Multiset.mem_map.mp member
    exact owned.settled ghost old id known
  case running =>
    intro exclusive row member running
    rw [holder, owned.running exclusive row member running]
    simp [own row member, running, ExecutionStatus.isTerminal,
      Option.filter_some]

end Watched

/-! ## The recovery -/

namespace Watched

variable {watched : Watched} {world : World} {ghosts : Multiset Ghost}

namespace Invariant

theorem failRunning (time : Timestamp)
    (holds : watched.Invariant world ghosts) :
    watched.Invariant
      (world.withDb
        ((ExecutionStatement.update (.failRunning time)).exec world.db).2)
      (ghosts.map Ghost.interrupted) := by
  have grown : world.db.Extends
      ((ExecutionStatement.update (.failRunning time)).exec world.db).2
      [] [] :=
    ⟨by simp [ExecutionStatement.exec, Function.comp_def], by
      simp [ExecutionStatement.exec]⟩
  refine
    { config := holds.config
      keys := Db.keys_execution holds.keys _
      issued := ?issued
      handedOut := by
        rw [ownedIds_interrupted]
        exact holds.handedOut
      queued := fun entry member other =>
        grown.elsewhere (holds.queued entry member other)
      informed := ?informed
      owned := ?owned }
  case issued =>
    intro row member
    obtain ⟨old, inDb, rfl⟩ := List.mem_map.mp member
    rw [ExecutionUpdate.apply_id]
    exact holds.issued old inDb
  case informed =>
    intro after member
    obtain ⟨ghost, old, rfl⟩ := Multiset.mem_map.mp member
    have unwritten (id : String) (claim : ghost.interrupted.Unwritten id) :
        ghost.Unwritten id := by
      rcases claim with fresh | token
      · exact .inl fresh
      · exact .inr (Token.eq_unborn_of_interrupted token)
    exact ((holds.informed ghost old).change unwritten rfl rfl).extend grown
      (by simp)
  case owned =>
    rw [World.withDb_db, Db.rowsOf_update,
      approvalsOf_map Ghost.interrupted ghosts fun ghost => rfl]
    exact holds.owned.failRunning time

theorem deleteTerminal (holds : watched.Invariant world ghosts) :
    watched.Invariant
      (world.withDb (LockStatement.deleteTerminal.exec world.db).2)
      (ghosts.map Ghost.released) := by
  refine
    { config := holds.config
      keys := Db.keys_lock holds.keys _
      issued := holds.issued
      handedOut := fun id member => holds.handedOut id
        (Multiset.mem_of_le (ownedIds_released_le ghosts) member)
      queued := holds.queued
      informed := ?informed
      owned := ?owned }
  case informed =>
    intro after member
    obtain ⟨ghost, old, rfl⟩ := Multiset.mem_map.mp member
    have unwritten (id : String) (claim : ghost.released.Unwritten id) :
        ghost.Unwritten id := by
      rcases claim with fresh | token
      · exact .inl fresh
      · rw [Ghost.released_token] at token
        rcases ghost.token.released_cases with same | none
        · exact .inr (same.symm.trans token)
        · cases none.symm.trans token
    have kept : watched.Informed world.db ghost.released :=
      (holds.informed ghost old).change unwritten rfl rfl
    exact kept.extend (Db.Extends.of_eq rfl rfl) (by simp)
  case owned =>
    rw [World.withDb_db, Db.rowsOf_deleteTerminal,
      approvalsOf_map Ghost.released ghosts fun ghost => rfl]
    refine holds.owned.deleteTerminal ?_ ?_ ?_
    · rw [Db.rowsOf_holder]
      exact Db.locks_holder holds.keys watched.slug
    · intro row member
      exact Db.ended_of_mem holds.keys (Db.mem_records.mp member).1
    · intro ghost member id token
      exact Db.not_ended_of_absent
        ((holds.informed ghost member).unwritten id (.inr token))

/-- What waits for the hook waits for an execution that has not ended. -/
theorem waiting_fresh (holds : watched.Invariant world ghosts)
    {entry : QueueRow} (member : entry ∈ world.db.queue)
    (own : entry.hookSlug = watched.slug) :
    QueueStatement.stale world.db entry = false := by
  rw [Bool.eq_false_iff]
  intro stale
  simp only [QueueStatement.stale, Bool.and_eq_true, beq_iff_eq,
    List.any_eq_true, Bool.or_eq_true] at stale
  obtain ⟨waits, row, inDb, sameId, isOver⟩ := stale
  obtain ⟨record, inRecords, sameRecord, pending, -⟩ :=
    holds.owned.waiting entry (List.mem_filter.mpr
      ⟨Db.mem_entries.mpr ⟨member, own⟩, by simp [waits]⟩)
  obtain rfl := holds.keys.execution_unique (Db.mem_records.mp inRecords).1
    inDb (sameRecord.trans sameId.symm)
  simp [pending] at isOver

theorem rowsOf_expireStale (holds : watched.Invariant world ghosts) :
    (QueueStatement.expireStale.exec world.db).2.rowsOf watched.slug =
      world.db.rowsOf watched.slug := by
  have own (entry : QueueRow) :
      (if QueueStatement.stale world.db entry then
        { entry with status := .expired } else entry).hookSlug =
      entry.hookSlug := by
    split <;> rfl
  simp only [QueueStatement.exec, Db.rowsOf, List.filter_map,
    Function.comp_def, own, HookRows.mk.injEq, true_and]
  refine (List.map_congr_left fun entry member => ?_).trans (List.map_id _)
  obtain ⟨inDb, own⟩ := List.mem_filter.mp member
  rw [holds.waiting_fresh inDb (by simpa using own)]
  rfl

theorem expireStale (holds : watched.Invariant world ghosts) :
    watched.Invariant
      (world.withDb (QueueStatement.expireStale.exec world.db).2)
      ghosts := by
  have grown : world.db.Extends
      (QueueStatement.expireStale.exec world.db).2 [] [] := by
    refine ⟨by simp [QueueStatement.exec], ?_⟩
    simp only [QueueStatement.exec, List.map_map, List.append_nil]
    refine List.map_congr_left fun entry _ => ?_
    simp only [Function.comp_apply]
    split <;> rfl
  refine
    { config := holds.config
      keys := Db.keys_queue holds.keys _
      issued := holds.issued
      handedOut := holds.handedOut
      queued := ?queued
      informed := fun ghost member =>
        (holds.informed ghost member).extend grown (by simp)
      owned := ?owned }
  case queued =>
    intro entry member other
    obtain ⟨old, inDb, rfl⟩ := List.mem_map.mp member
    have same : (if QueueStatement.stale world.db old then
        { old with status := .expired } else old).hookSlug = old.hookSlug ∧
      (if QueueStatement.stale world.db old then
        { old with status := .expired } else old).executionId =
          old.executionId := by
      split <;> exact ⟨rfl, rfl⟩
    rw [same.1] at other
    rw [same.2]
    exact holds.queued old inDb other
  case owned =>
    rw [World.withDb_db, holds.rowsOf_expireStale]
    exact holds.owned

end Invariant

end Watched

end Sendword
