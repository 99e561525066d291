import Mathlib.Data.Multiset.Bind
import Mathlib.Data.Multiset.OrderedMonoid
import Mathlib.Data.Multiset.UnionInter
import Mathlib.Tactic.Abel
import Sendword.Hook.Ghost

/-!
# Ownership

The invariant of one hook's rows and the ghosts of all tasks: every execution
that can still run has exactly one owner (a task, a waiting queue entry, or a
decision that is still to be made), and the lock row names the execution of
the one owner of the lock.
-/

namespace Sendword

namespace HookRows

def waitingIds (rows : HookRows) : Multiset String :=
  (rows.waiting.map (·.executionId) : List String)

def parkedIds (rows : HookRows) : Multiset String :=
  ((rows.records : Multiset Execution).filter
    (·.status = .pendingApproval)).map (·.id)

/-- The hook has a record with this identifier, and it is as described. -/
def Has (rows : HookRows) (id : String) (described : Execution → Prop) :
    Prop :=
  ∃ row ∈ rows.records, row.id = id ∧ described row

/-- A queue entry waits for the execution. -/
def Waits (rows : HookRows) (entry execution : String) : Prop :=
  ∃ queued ∈ rows.waiting, queued.id = entry ∧
    queued.executionId = execution

/-- A change of one record of the hook, as a change of the multiset. -/
theorem changed_records {rows : HookRows} {change : ExecutionUpdate}
    {row : Execution} (keys : (rows.records.map (·.id)).Nodup)
    (target : change.target? = some row.id) (member : row ∈ rows.records) :
    ∃ others : Multiset Execution,
      (rows.records : Multiset Execution) = row ::ₘ others ∧
        ((rows.changed change).records : Multiset Execution) =
          change.apply row ::ₘ others ∧
        ∀ other ∈ others, other.id ≠ row.id :=
  Db.map_update keys target member

theorem mem_changed {rows : HookRows} {change : ExecutionUpdate}
    {row : Execution} (keys : (rows.records.map (·.id)).Nodup)
    (target : change.target? = some row.id) (member : row ∈ rows.records)
    {other : Execution} (changed : other ∈ (rows.changed change).records) :
    other = change.apply row ∨ other ∈ rows.records ∧ other.id ≠ row.id := by
  obtain ⟨others, before, after, different⟩ :=
    changed_records keys target member
  have inAfter : other ∈ change.apply row ::ₘ others :=
    after ▸ Multiset.mem_coe.mpr changed
  rcases Multiset.mem_cons.mp inAfter with same | old
  · exact .inl same
  · refine .inr ⟨?_, different other old⟩
    have inBefore : other ∈ (rows.records : Multiset Execution) :=
      before ▸ Multiset.mem_cons_of_mem old
    exact Multiset.mem_coe.mp inBefore

/-- How a change of one record changes the open decisions. -/
theorem parkedIds_changed {rows : HookRows} {change : ExecutionUpdate}
    {row : Execution} (keys : (rows.records.map (·.id)).Nodup)
    (target : change.target? = some row.id)
    (member : row ∈ rows.records) :
    (rows.changed change).parkedIds +
        (if row.status = .pendingApproval then {row.id} else 0) =
      rows.parkedIds +
        if (change.apply row).status = .pendingApproval then {row.id}
        else 0 := by
  obtain ⟨others, before, after, -⟩ := changed_records keys target member
  simp only [parkedIds, before, after, Multiset.filter_cons]
  split <;> split <;> simp [add_comm]

theorem Has.mono {rows : HookRows} {id : String}
    {described weaker : Execution → Prop} (has : rows.Has id described)
    (implies : ∀ row, described row → weaker row) : rows.Has id weaker := by
  obtain ⟨row, member, sameId, holds⟩ := has
  exact ⟨row, member, sameId, implies row holds⟩

theorem Has.changed {rows : HookRows} {id : String}
    {described after : Execution → Prop} {change : ExecutionUpdate}
    (has : rows.Has id described)
    (becomes : ∀ row, row.id = id → described row →
      after (change.apply row)) :
    (rows.changed change).Has id after := by
  obtain ⟨row, member, sameId, holds⟩ := has
  exact ⟨change.apply row, List.mem_map_of_mem member, by simpa using sameId,
    becomes row sameId holds⟩

theorem Has.changed_other {rows : HookRows} {id target : String}
    {described : Execution → Prop} {change : ExecutionUpdate}
    (has : rows.Has id described) (targets : change.target? = some target)
    (different : id ≠ target) : (rows.changed change).Has id described :=
  has.changed fun row sameId holds => by
    rw [ExecutionUpdate.apply_of_ne targets (sameId ▸ different)]
    exact holds

end HookRows

namespace Ghost

/-- The executions no other task may touch. -/
def owned (ghost : Ghost) : Multiset String :=
  (ghost.fresh.toList ++ ghost.token.owned.toList : List String)

/-- The executions that have no record yet. -/
def Unwritten (ghost : Ghost) (id : String) : Prop :=
  ghost.fresh = some id ∨ ghost.token = .unborn id

end Ghost

def ownedIds (ghosts : Multiset Ghost) : Multiset String :=
  ghosts.bind Ghost.owned

/-- The executions for which some task owns the lock. -/
def lockIds (ghosts : Multiset Ghost) : Multiset String :=
  ghosts.bind fun ghost => (ghost.token.lock.toList : List String)

@[simp] theorem ownedIds_cons (ghost : Ghost) (ghosts : Multiset Ghost) :
    ownedIds (ghost ::ₘ ghosts) = ghost.owned + ownedIds ghosts := by
  simp [ownedIds]

@[simp] theorem ownedIds_add (ghosts more : Multiset Ghost) :
    ownedIds (ghosts + more) = ownedIds ghosts + ownedIds more := by
  simp [ownedIds]

@[simp] theorem ownedIds_singleton (ghost : Ghost) :
    ownedIds {ghost} = ghost.owned := by
  simp [ownedIds]

@[simp] theorem ownedIds_zero : ownedIds 0 = 0 := rfl

@[simp] theorem lockIds_cons (ghost : Ghost) (ghosts : Multiset Ghost) :
    lockIds (ghost ::ₘ ghosts) =
      (ghost.token.lock.toList : List String) + lockIds ghosts := by
  simp [lockIds]

@[simp] theorem lockIds_add (ghosts more : Multiset Ghost) :
    lockIds (ghosts + more) = lockIds ghosts + lockIds more := by
  simp [lockIds]

@[simp] theorem lockIds_zero : lockIds 0 = 0 := rfl

/-- The identifier of a record whose decision is open. -/
def parkedId (row : Execution) : Multiset String :=
  if row.status = .pendingApproval then {row.id} else 0

/-- The approvals on record: who approved which execution, and when. -/
abbrev Approvals := String → String → Timestamp → Prop

def approvalsOf (ghosts : Multiset Ghost) : Approvals :=
  fun id user time => ∃ ghost ∈ ghosts, (id, user, time) ∈ ghost.approvals

namespace Watched

variable (watched : Watched) (approvals : Approvals)

/-- If the hook needs approval, the record carries one that was made. -/
def Cleared (row : Execution) : Prop :=
  watched.gated = true → ∃ user time, approvals row.id user time ∧
    row.approvedBy = some user ∧ row.approvedAt = some time

/-- What the phase of an owner says about its record. -/
def PhaseHolds (phase : Phase) (row : Execution) : Prop :=
  match phase with
  | .queued | .taken => row.status = .pending ∧ row.approvedAt = none
  | .approved => row.status = .approved ∧ watched.Cleared approvals row
  | .ready | .abandoned =>
      row.status = .pending ∧ watched.Cleared approvals row
  | .running => row.status = .running ∧ watched.Cleared approvals row
  | .finished =>
      (row.status = .success ∨ row.status = .failed ∨
        row.status = .timedOut) ∧ watched.Cleared approvals row
  | .ended => row.status = .rejected ∨ row.status = .expired

/-- A record that will never wait in the queue again. -/
def Settled (row : Execution) : Prop :=
  row.status = .pendingApproval ∨ row.approvedAt ≠ none ∨
    row.status = .expired

def TokenHolds (rows : HookRows) : Token → Prop
  | .none | .unborn _ => True
  | .claim locked id phase =>
      rows.Has id (watched.PhaseHolds approvals phase) ∧
        (phase ≠ .queued → locked = watched.exclusive)
  | .taking id phase entry execution =>
      rows.Has id (watched.PhaseHolds approvals phase) ∧
        rows.Waits entry execution
  | .succeeding entry execution => rows.Waits entry execution

/-- The ownership invariant of the hook's rows. -/
structure Owned (rows : HookRows) (ghosts : Multiset Ghost) : Prop where
  keys : (rows.records.map (·.id)).Nodup
  distinct : (ownedIds ghosts + rows.waitingIds + rows.parkedIds).Nodup
  locked : watched.exclusive = true →
    lockIds ghosts + rows.parkedIds = (rows.holder.toList : List String)
  free : watched.exclusive = false →
    lockIds ghosts = 0 ∧ rows.holder = none
  tokens : ∀ ghost ∈ ghosts, watched.TokenHolds approvals rows ghost.token
  settled : ∀ ghost ∈ ghosts, ∀ id ∈ ghost.settled, rows.Has id Settled
  waiting : ∀ entry ∈ rows.waiting, rows.Has entry.executionId
    fun row => row.status = .pending ∧ row.approvedAt = none
  running : watched.exclusive = true → ∀ row ∈ rows.records,
    row.status = .running → rows.holder = some row.id
  ungated : watched.gated = false → rows.parkedIds = 0

variable {watched approvals}
variable {rows other : HookRows} {ghost : Ghost} {rest : Multiset Ghost}

theorem Cleared.mono {more : Approvals} {row : Execution}
    (cleared : watched.Cleared approvals row)
    (grows : ∀ id user time, approvals id user time → more id user time) :
    watched.Cleared more row := by
  intro gated
  obtain ⟨user, time, approved, recorded⟩ := cleared gated
  exact ⟨user, time, grows _ _ _ approved, recorded⟩

theorem PhaseHolds.mono {more : Approvals} {phase : Phase} {row : Execution}
    (holds : watched.PhaseHolds approvals phase row)
    (grows : ∀ id user time, approvals id user time → more id user time) :
    watched.PhaseHolds more phase row := by
  cases phase with
  | queued | taken | ended => exact holds
  | approved | ready | abandoned | running | finished =>
      exact ⟨holds.1, holds.2.mono grows⟩

theorem TokenHolds.mono {more : Approvals} {token : Token}
    (holds : watched.TokenHolds approvals rows token)
    (grows : ∀ id user time, approvals id user time → more id user time) :
    watched.TokenHolds more rows token := by
  cases token with
  | none | unborn | succeeding => exact holds
  | claim locked id phase =>
      exact ⟨holds.1.mono fun row described => described.mono grows,
        holds.2⟩
  | taking id phase entry execution =>
      exact ⟨holds.1.mono fun row described => described.mono grows,
        holds.2⟩

namespace Owned

theorem mono {more : Approvals} {ghosts : Multiset Ghost}
    (owned : watched.Owned approvals rows ghosts)
    (grows : ∀ id user time, approvals id user time → more id user time) :
    watched.Owned more rows ghosts :=
  { owned with
    tokens := fun ghost member => (owned.tokens ghost member).mono grows }

/-- The invariant only looks at records, holder and waiting entries. -/
theorem congr {ghosts : Multiset Ghost}
    (owned : watched.Owned approvals rows ghosts)
    (records : other.records = rows.records)
    (holder : other.holder = rows.holder)
    (waiting : other.waiting = rows.waiting) :
    watched.Owned approvals other ghosts := by
  have has (id : String) (described : Execution → Prop)
      (found : rows.Has id described) : other.Has id described := by
    simpa only [HookRows.Has, records] using found
  have waits (entry execution : String)
      (found : rows.Waits entry execution) :
      other.Waits entry execution := by
    simpa only [HookRows.Waits, waiting] using found
  have parked : other.parkedIds = rows.parkedIds := by
    simp only [HookRows.parkedIds, records]
  have waitingIds : other.waitingIds = rows.waitingIds := by
    simp only [HookRows.waitingIds, waiting]
  refine
    { keys := records ▸ owned.keys
      distinct := by simpa only [parked, waitingIds] using owned.distinct
      locked := by simpa only [parked, holder] using owned.locked
      free := by simpa only [holder] using owned.free
      tokens := ?_
      settled := fun ghost member id known =>
        has _ _ (owned.settled ghost member id known)
      waiting := fun entry member =>
        has _ _ (owned.waiting entry (waiting ▸ member))
      running := by simpa only [records, holder] using owned.running
      ungated := by simpa only [parked] using owned.ungated }
  intro ghost member
  have holds := owned.tokens ghost member
  cases token : ghost.token with
  | none | unborn => trivial
  | claim locked id phase =>
      rw [token] at holds
      exact ⟨has _ _ holds.1, holds.2⟩
  | taking id phase entry execution =>
      rw [token] at holds
      exact ⟨has _ _ holds.1, waits _ _ holds.2⟩
  | succeeding entry execution =>
      rw [token] at holds
      exact waits _ _ holds

/-- A task that owns nothing joins. -/
theorem join (role : Role) {ghosts : Multiset Ghost}
    (owned : watched.Owned approvals rows ghosts) :
    watched.Owned approvals rows ({ role } ::ₘ ghosts) := by
  have ids : ownedIds ({ role } ::ₘ ghosts) = ownedIds ghosts := by
    simp [Ghost.owned]
  have locks : lockIds ({ role } ::ₘ ghosts) = lockIds ghosts := by
    simp
  refine
    { owned with
      distinct := by rw [ids]; exact owned.distinct
      locked := by rw [locks]; exact owned.locked
      free := by rw [locks]; exact owned.free
      tokens := ?_
      settled := ?_ }
  · intro ghost member
    rcases Multiset.mem_cons.mp member with rfl | old
    · trivial
    · exact owned.tokens ghost old
  · intro ghost member
    rcases Multiset.mem_cons.mp member with rfl | old
    · simp
    · exact owned.settled ghost old

/-- Exchange one ghost for others that own no more. -/
theorem exchange {news : Multiset Ghost}
    (owned : watched.Owned approvals rows (ghost ::ₘ rest))
    (less : ownedIds news ≤ ghost.owned)
    (locks : lockIds news = (ghost.token.lock.toList : List String))
    (tokens : ∀ new ∈ news, watched.TokenHolds approvals rows new.token)
    (settled : ∀ new ∈ news, ∀ id ∈ new.settled, rows.Has id Settled) :
    watched.Owned approvals rows (news + rest) := by
  have sameLocks : lockIds (news + rest) = lockIds (ghost ::ₘ rest) := by
    rw [lockIds_add, lockIds_cons, locks]
  refine
    { owned with
      distinct := ?_
      locked := fun exclusive => sameLocks ▸ owned.locked exclusive
      free := fun free => sameLocks ▸ owned.free free
      tokens := ?_
      settled := ?_ }
  · refine Multiset.nodup_of_le ?_ owned.distinct
    rw [ownedIds_add, ownedIds_cons]
    gcongr
  · intro other member
    rcases Multiset.mem_add.mp member with new | old
    · exact tokens other new
    · exact owned.tokens other (Multiset.mem_cons_of_mem old)
  · intro other member
    rcases Multiset.mem_add.mp member with new | old
    · exact settled other new
    · exact owned.settled other (Multiset.mem_cons_of_mem old)

/-- Exchange one ghost for another that owns no more. -/
theorem replace {after : Ghost}
    (owned : watched.Owned approvals rows (ghost ::ₘ rest))
    (less : after.owned ≤ ghost.owned)
    (lock : after.token.lock = ghost.token.lock)
    (token : watched.TokenHolds approvals rows after.token)
    (settled : ∀ id ∈ after.settled, rows.Has id Settled) :
    watched.Owned approvals rows (after ::ₘ rest) := by
  rw [← Multiset.singleton_add]
  refine owned.exchange ?_ ?_ ?_ ?_
  · rw [ownedIds_singleton]
    exact less
  · simp [lockIds, lock]
  · intro new member
    rw [Multiset.mem_singleton] at member
    exact member ▸ token
  · intro new member
    rw [Multiset.mem_singleton] at member
    exact member ▸ settled

/-- The owner of the lock is the only one, and no decision is open. -/
theorem of_lock (id : String)
    (owned : watched.Owned approvals rows (ghost ::ₘ rest))
    (lock : ghost.token.lock = some id) :
    watched.exclusive = true ∧ rows.holder = some id ∧ lockIds rest = 0 ∧
      rows.parkedIds = 0 := by
  have exclusive : watched.exclusive = true := by
    by_contra free
    have none := (owned.free (by simpa using free)).1
    rw [lockIds_cons, lock] at none
    simp at none
  have locked := owned.locked exclusive
  rw [lockIds_cons, lock] at locked
  cases held : rows.holder with
  | none =>
      rw [held] at locked
      have sizes := congrArg Multiset.card locked
      simp at sizes
  | some holder =>
      rw [held] at locked
      have sizes := congrArg Multiset.card locked
      simp only [Option.toList_some, Multiset.card_add, Multiset.coe_card,
        List.length_singleton] at sizes
      have noLocks : lockIds rest = 0 :=
        Multiset.card_eq_zero.mp (by omega)
      have noParked : rows.parkedIds = 0 :=
        Multiset.card_eq_zero.mp (by omega)
      rw [noLocks, noParked] at locked
      have same : id = holder := by simpa using locked
      exact ⟨exclusive, by rw [same], noLocks, noParked⟩

/-- What a task owns is neither waiting nor parked, and no other task owns
it. -/
theorem own_alone {id : String}
    (owned : watched.Owned approvals rows (ghost ::ₘ rest))
    (own : id ∈ ghost.owned) :
    id ∉ ownedIds rest ∧ id ∉ rows.waitingIds ∧ id ∉ rows.parkedIds := by
  have distinct := owned.distinct
  rw [ownedIds_cons, add_assoc, add_assoc, Multiset.nodup_add] at distinct
  have apart := Multiset.disjoint_left.mp distinct.2.2 own
  simp only [Multiset.mem_add, not_or] at apart
  exact apart

theorem token_of_owned {id : String} {phase : Phase} {locked : Bool}
    (token : ghost.token = .claim locked id phase) : id ∈ ghost.owned := by
  simp [Ghost.owned, token, Token.owned]

/-- The facts about the other tasks that a change of an owned record
keeps. -/
theorem others_changed {id : String} {change : ExecutionUpdate}
    (owned : watched.Owned approvals rows (ghost ::ₘ rest))
    (target : change.target? = some id)
    (alone : id ∉ ownedIds rest ∧ id ∉ rows.waitingIds) :
    (∀ other ∈ rest,
      watched.TokenHolds approvals (rows.changed change) other.token) ∧
    ∀ entry ∈ rows.waiting, (rows.changed change).Has entry.executionId
      fun row => row.status = .pending ∧ row.approvedAt = none := by
  constructor
  · intro other member
    have holds := owned.tokens other (Multiset.mem_cons_of_mem member)
    have apart (mine : String) (own : other.token.owned = some mine) :
        mine ≠ id := by
      rintro rfl
      refine alone.1 (Multiset.mem_bind.mpr ⟨other, member, ?_⟩)
      simp [Ghost.owned, own]
    cases token : other.token with
    | none | unborn => trivial
    | claim locked mine phase =>
        rw [token] at holds
        exact ⟨holds.1.changed_other target
          (apart mine (by rw [token]; rfl)), holds.2⟩
    | taking mine phase entry execution =>
        rw [token] at holds
        exact ⟨holds.1.changed_other target
          (apart mine (by rw [token]; rfl)), holds.2⟩
    | succeeding entry execution =>
        rw [token] at holds
        exact holds
  · intro entry member
    refine (owned.waiting entry member).changed_other target ?_
    rintro rfl
    exact alone.2 (Multiset.mem_coe.mpr (List.mem_map_of_mem member))

/-- A change of one record by the task that owns it or takes it over. -/
theorem change {change : ExecutionUpdate} {row : Execution} {after : Ghost}
    (owned : watched.Owned approvals rows (ghost ::ₘ rest))
    (target : change.target? = some row.id) (member : row ∈ rows.records)
    (alone : row.id ∉ ownedIds rest ∧ row.id ∉ rows.waitingIds)
    (ids : after.owned + parkedId (change.apply row) =
      ghost.owned + parkedId row)
    (locks : watched.exclusive = true →
      (after.token.lock.toList : Multiset String) +
          parkedId (change.apply row) =
        (ghost.token.lock.toList : List String) + parkedId row)
    (unlocked : watched.exclusive = false → after.token.lock = none)
    (token : watched.TokenHolds approvals (rows.changed change) after.token)
    (settles : Settled row → Settled (change.apply row))
    (settled : after.settled = ghost.settled)
    (runs : watched.exclusive = true →
      (change.apply row).status = .running → rows.holder = some row.id)
    (parks : watched.gated = false →
      (change.apply row).status ≠ .pendingApproval) :
    watched.Owned approvals (rows.changed change) (after ::ₘ rest) := by
  have parked := HookRows.parkedIds_changed owned.keys target member
  have others := owned.others_changed target alone
  have moved (left right : Multiset String)
      (balance : left + parkedId (change.apply row) =
        right + parkedId row) :
      left + (rows.changed change).parkedIds = right + rows.parkedIds := by
    have sum : left + (rows.changed change).parkedIds + parkedId row =
        right + rows.parkedIds + parkedId row := by
      calc
        left + (rows.changed change).parkedIds + parkedId row
            = left + ((rows.changed change).parkedIds + parkedId row) := by
              rw [add_assoc]
        _ = left + (rows.parkedIds + parkedId (change.apply row)) := by
              simpa [parkedId] using congrArg (left + ·) parked
        _ = left + parkedId (change.apply row) + rows.parkedIds := by abel
        _ = right + parkedId row + rows.parkedIds := by rw [balance]
        _ = right + rows.parkedIds + parkedId row := by abel
    exact add_right_cancel sum
  refine
    { keys := ?keys
      distinct := ?distinct
      locked := ?locked
      free := ?free
      tokens := ?tokens
      settled := ?settled
      waiting := others.2
      running := ?running
      ungated := ?ungated }
  case keys =>
    simpa only [HookRows.changed, Db.map_id_update] using owned.keys
  case distinct =>
    have sum : ownedIds (after ::ₘ rest) + rows.waitingIds +
          (rows.changed change).parkedIds =
        ownedIds (ghost ::ₘ rest) + rows.waitingIds + rows.parkedIds := by
      rw [ownedIds_cons, ownedIds_cons]
      calc
        after.owned + ownedIds rest + rows.waitingIds +
              (rows.changed change).parkedIds
            = after.owned + (rows.changed change).parkedIds +
              (ownedIds rest + rows.waitingIds) := by abel
        _ = ghost.owned + rows.parkedIds +
              (ownedIds rest + rows.waitingIds) := by rw [moved _ _ ids]
        _ = ghost.owned + ownedIds rest + rows.waitingIds +
              rows.parkedIds := by abel
    have waitingIds : (rows.changed change).waitingIds = rows.waitingIds :=
      rfl
    rw [waitingIds, sum]
    exact owned.distinct
  case locked =>
    intro exclusive
    have before := owned.locked exclusive
    rw [lockIds_cons] at before
    rw [lockIds_cons, HookRows.changed_holder, ← before]
    calc
      (after.token.lock.toList : Multiset String) + lockIds rest +
            (rows.changed change).parkedIds
          = (after.token.lock.toList : Multiset String) +
            (rows.changed change).parkedIds + lockIds rest := by abel
      _ = (ghost.token.lock.toList : List String) + rows.parkedIds +
            lockIds rest := by rw [moved _ _ (locks exclusive)]
      _ = (ghost.token.lock.toList : List String) + lockIds rest +
            rows.parkedIds := by abel
  case free =>
    intro free
    have before := owned.free free
    rw [lockIds_cons] at before
    rw [lockIds_cons, unlocked free, (add_eq_zero.mp before.1).2]
    exact ⟨rfl, before.2⟩
  case tokens =>
    intro other inGhosts
    rcases Multiset.mem_cons.mp inGhosts with rfl | old
    · exact token
    · exact others.1 other old
  case settled =>
    have kept (id : String) (has : rows.Has id Settled) :
        (rows.changed change).Has id Settled := by
      by_cases same : id = row.id
      · subst same
        obtain ⟨found, inRecords, sameId, holds⟩ := has
        have same := List.inj_on_of_nodup_map owned.keys inRecords member
          sameId
        subst same
        exact ⟨change.apply found, List.mem_map_of_mem inRecords,
          by simp, settles holds⟩
      · exact has.changed_other target same
    intro other inGhosts id known
    rcases Multiset.mem_cons.mp inGhosts with rfl | old
    · exact kept id (owned.settled ghost (Multiset.mem_cons_self _ _) id
        (settled ▸ known))
    · exact kept id (owned.settled other (Multiset.mem_cons_of_mem old) id
        known)
  case running =>
    intro exclusive found inRecords isRunning
    rcases HookRows.mem_changed owned.keys target member inRecords with
      rfl | ⟨old, -⟩
    · rw [HookRows.changed_holder, ExecutionUpdate.apply_id]
      exact runs exclusive isRunning
    · exact owned.running exclusive found old isRunning
  case ungated =>
    intro ungated
    rw [owned.ungated ungated, if_neg (parks ungated), zero_add] at parked
    exact (add_eq_zero.mp parked).1

theorem claimed {locked : Bool} {id : String} {phase : Phase}
    (owned : watched.Owned approvals rows (ghost ::ₘ rest))
    (token : ghost.token = .claim locked id phase) :
    rows.Has id (watched.PhaseHolds approvals phase) ∧
      (phase ≠ .queued → locked = watched.exclusive) := by
  have holds := owned.tokens ghost (Multiset.mem_cons_self _ _)
  rw [token] at holds
  exact holds

/-- An owner's update that goes on to another phase. -/
theorem ownStep {change : ExecutionUpdate} {locked : Bool}
    {phase next : Phase} {row : Execution}
    (owned : watched.Owned approvals rows (ghost ::ₘ rest))
    (token : ghost.token = .claim locked row.id phase)
    (target : change.target? = some row.id) (member : row ∈ rows.records)
    (closed : row.status ≠ .pendingApproval)
    (staysClosed : (change.apply row).status ≠ .pendingApproval)
    (locks : locked = watched.exclusive)
    (holds : watched.PhaseHolds approvals next (change.apply row))
    (settles : Settled row → Settled (change.apply row)) :
    watched.Owned approvals (rows.changed change)
      (ghost.hold (.claim locked row.id next) ::ₘ rest) := by
  have alone := owned.own_alone (token_of_owned token)
  refine owned.change target member ⟨alone.1, alone.2.1⟩ ?_ ?_ ?_ ?_ settles
    rfl ?_ fun _ => staysClosed
  · simp [Ghost.owned, Ghost.hold, token, Token.owned, parkedId, closed,
      staysClosed]
  · intro _
    simp [Ghost.hold, token, parkedId, closed, staysClosed]
  · intro free
    simp [Ghost.hold, locks, free]
  · exact ⟨⟨change.apply row, List.mem_map_of_mem member, by simp, holds⟩,
      fun _ => locks⟩
  · intro exclusive _
    have lock : ghost.token.lock = some row.id := by
      simp [token, locks, exclusive]
    exact (owned.of_lock row.id lock).2.1

/-- An owner's update finds its record and keeps the invariant. -/
theorem ownUpdate {change : ExecutionUpdate} {locked : Bool} {id : String}
    {phase : Phase} {next? : Option Phase}
    (owned : watched.Owned approvals rows (ghost ::ₘ rest))
    (token : ghost.token = .claim locked id phase)
    (target : change.target? = some id)
    (advances : watched.advances ghost.role change phase = some next?) :
    (∃ row ∈ rows.records, row.id = id ∧ change.matches? row = true ∧
        watched.PhaseHolds approvals phase row) ∧
      watched.Owned approvals (rows.changed change)
        (ghost.hold (.become locked id next?) ::ₘ rest) := by
  obtain ⟨⟨row, member, rfl, holds⟩, locks⟩ := owned.claimed token
  rcases watched.advances_cases advances with
    ⟨_, time, rfl, rfl, rfl, -⟩ | ⟨_, status, exitCode, time, rfl, rfl, rfl,
      ends⟩ | ⟨_, rfl, rfl, rfl⟩ | ⟨_, rfl, rfl, rfl⟩ | ⟨_, rfl, rfl, rfl⟩ |
    ⟨_, rfl, rfl, rfl, gated⟩
  all_goals
    obtain rfl := Option.some.inj target
    have locks := locks (by simp)
  · have matched : (ExecutionUpdate.markRunning row.id time).matches? row =
        true := by simp [ExecutionUpdate.matches?, holds.1]
    refine ⟨⟨row, member, rfl, matched, holds⟩, ?_⟩
    refine owned.ownStep token rfl member ?_ ?_ locks ?_ ?_
    · simp [holds.1]
    · simp [ExecutionUpdate.apply_of_matches matched, ExecutionUpdate.set]
    · rw [ExecutionUpdate.apply_of_matches matched]
      exact ⟨rfl, holds.2⟩
    · rw [ExecutionUpdate.apply_of_matches matched]
      simp [Settled, ExecutionUpdate.set, holds.1]
  · have matched : (ExecutionUpdate.markCompleted row.id status exitCode
        time).matches? row = true := by
      simp [ExecutionUpdate.matches?, holds.1]
    refine ⟨⟨row, member, rfl, matched, holds⟩, ?_⟩
    refine owned.ownStep token rfl member ?_ ?_ locks ?_ ?_
    · simp [holds.1]
    · rw [ExecutionUpdate.apply_of_matches matched]
      rcases ends with rfl | rfl | rfl <;> simp [ExecutionUpdate.set]
    · rw [ExecutionUpdate.apply_of_matches matched]
      exact ⟨ends, holds.2⟩
    · rw [ExecutionUpdate.apply_of_matches matched]
      simp only [Settled, ExecutionUpdate.set, holds.1]
      simp_all
  · have matched : (ExecutionUpdate.incrementRetryCount row.id).matches?
        row = true := by simp [ExecutionUpdate.matches?]
    refine ⟨⟨row, member, rfl, matched, holds⟩, ?_⟩
    refine owned.ownStep token rfl member ?_ ?_ locks ?_ ?_
    · rcases holds.1 with same | same | same <;> simp [same]
    · rw [ExecutionUpdate.apply_of_matches matched]
      rcases holds.1 with same | same | same <;>
        simp [ExecutionUpdate.set, same]
    · rw [ExecutionUpdate.apply_of_matches matched]
      exact holds
    · rw [ExecutionUpdate.apply_of_matches matched]
      exact id
  · have matched : (ExecutionUpdate.resetToPending row.id).matches? row =
        true := by simp [ExecutionUpdate.matches?]
    refine ⟨⟨row, member, rfl, matched, holds⟩, ?_⟩
    refine owned.ownStep token rfl member ?_ ?_ locks ?_ ?_
    · rcases holds.1 with same | same | same <;> simp [same]
    · simp [ExecutionUpdate.apply_of_matches matched, ExecutionUpdate.set]
    · rw [ExecutionUpdate.apply_of_matches matched]
      exact ⟨rfl, holds.2⟩
    · rw [ExecutionUpdate.apply_of_matches matched]
      -- an expired record is not one whose run finished
      rcases holds.1 with same | same | same <;>
        simp [Settled, ExecutionUpdate.set, same]
  · have matched : (ExecutionUpdate.resetApproved row.id).matches? row =
        true := by simp [ExecutionUpdate.matches?, holds.1]
    refine ⟨⟨row, member, rfl, matched, holds⟩, ?_⟩
    refine owned.ownStep token rfl member ?_ ?_ locks ?_ ?_
    · simp [holds.1]
    · simp [ExecutionUpdate.apply_of_matches matched, ExecutionUpdate.set]
    · rw [ExecutionUpdate.apply_of_matches matched]
      exact ⟨rfl, holds.2⟩
    · rw [ExecutionUpdate.apply_of_matches matched]
      simp [Settled, ExecutionUpdate.set, holds.1]
  · have matched : (ExecutionUpdate.markPendingApproval row.id).matches?
        row = true := by simp [ExecutionUpdate.matches?, holds.1]
    have parks : (ExecutionUpdate.markPendingApproval row.id).apply row =
        { row with status := .pendingApproval } :=
      ExecutionUpdate.apply_of_matches matched
    refine ⟨⟨row, member, rfl, matched, holds⟩, ?_⟩
    have alone := owned.own_alone (token_of_owned token)
    refine owned.change rfl member ⟨alone.1, alone.2.1⟩ ?_ ?_ (fun _ => rfl)
      trivial ?_ rfl ?_ ?_
    · simp only [Ghost.owned, Ghost.hold, Token.become, token, Token.owned,
        parkedId, parks, holds.1]
      simp [← Multiset.coe_add]
    · intro exclusive
      simp [Ghost.hold, Token.become, token, parkedId, parks, holds.1, locks,
        exclusive]
    · simp [parks, Settled]
    · simp [parks]
    · simp [gated]

end Owned

end Watched

end Sendword
