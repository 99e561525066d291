import Mathlib.Data.Multiset.AddSub
import Sendword.Store.Statement

/-!
# Primary keys

Every statement keeps the primary keys unique.  With unique keys a
conditional `UPDATE` of one record is a change of that record and of no other
row, and a lookup by key is membership.
-/

namespace Sendword

/-- The primary keys of the three tables of the pipeline. -/
structure Db.Keys (db : Db) : Prop where
  executions : (db.executions.map (·.id)).Nodup
  locks : (db.locks.map (·.hookSlug)).Nodup
  queue : (db.queue.map (·.id)).Nodup

/-- The record an update addresses by its key. -/
def ExecutionUpdate.target? : ExecutionUpdate → Option String
  | .markRunning id _ | .markCompleted id .. | .incrementRetryCount id
  | .resetToPending id | .markApproved id .. | .resetApproved id
  | .markRejected id .. | .markExpired id _ | .markPendingApproval id =>
      some id
  | .failRunning _ => none

theorem ExecutionUpdate.id_of_matches {change : ExecutionUpdate}
    {id : String} {row : Execution}
    (target : change.target? = some id)
    (matched : change.matches? row = true) :
    row.id = id := by
  cases change <;> simp_all [target?, matches?]

theorem ExecutionUpdate.apply_of_ne {change : ExecutionUpdate}
    {id : String} {row : Execution}
    (target : change.target? = some id) (different : row.id ≠ id) :
    change.apply row = row := by
  unfold apply
  split
  · exact (different (id_of_matches target ‹_›)).elim
  · rfl

@[simp] theorem QueueUpdate.apply_id (change : QueueUpdate)
    (row : QueueRow) : (change.apply row).id = row.id := by
  unfold apply
  split
  · cases change <;> rfl
  · rfl

@[simp] theorem QueueUpdate.apply_hookSlug (change : QueueUpdate)
    (row : QueueRow) : (change.apply row).hookSlug = row.hookSlug := by
  unfold apply
  split
  · cases change <;> rfl
  · rfl

@[simp] theorem QueueUpdate.apply_executionId (change : QueueUpdate)
    (row : QueueRow) : (change.apply row).executionId = row.executionId := by
  unfold apply
  split
  · cases change <;> rfl
  · rfl

namespace Db

theorem map_id_update (change : ExecutionUpdate) (rows : List Execution) :
    (rows.map change.apply).map (·.id) = rows.map (·.id) := by
  simp [List.map_map, Function.comp_def]

private theorem nodup_snoc {Item Key : Type} (key : Item → Key)
    {items : List Item} {last : Item}
    (nodup : (items.map key).Nodup)
    (absent : ∀ item ∈ items, key item ≠ key last) :
    ((items ++ [last]).map key).Nodup := by
  rw [List.map_append, List.map_singleton, List.nodup_append]
  refine ⟨nodup, List.nodup_singleton _, ?_⟩
  intro left leftMember right rightMember equality
  obtain ⟨item, member, rfl⟩ := List.mem_map.mp leftMember
  have atLast : right = key last := by simpa using rightMember
  exact absent item member (equality.trans atLast)

theorem keys_execution {db : Db} (keys : db.Keys)
    (statement : ExecutionStatement) : (statement.exec db).2.Keys := by
  cases statement with
  | insert row =>
      simp only [ExecutionStatement.exec]
      split
      · exact keys
      · rename_i accepted
        simp only [Bool.or_eq_true, List.any_eq_true, beq_iff_eq, not_or,
          not_exists, not_and] at accepted
        refine ⟨nodup_snoc _ keys.executions ?_, keys.locks, keys.queue⟩
        intro item member
        exact accepted.1 item member
  | selectById id => exact keys
  | update change =>
      refine ⟨?_, keys.locks, keys.queue⟩
      simpa only [ExecutionStatement.exec, map_id_update]
        using keys.executions
  | selectLatestStarted slug => exact keys
  | selectOverdue slug cutoff => exact keys

theorem keys_lock {db : Db} (keys : db.Keys)
    (statement : LockStatement) : (statement.exec db).2.Keys := by
  cases statement with
  | insertOrIgnore slug executionId acquiredAt =>
      simp only [LockStatement.exec]
      split
      · exact keys
      · rename_i free
        simp only [List.any_eq_true, beq_iff_eq, not_exists, not_and] at free
        exact ⟨keys.executions, nodup_snoc _ keys.locks free, keys.queue⟩
  | delete slug =>
      exact ⟨keys.executions,
        keys.locks.sublist (List.filter_sublist.map _), keys.queue⟩
  | update slug executionId acquiredAt =>
      refine ⟨keys.executions, ?_, keys.queue⟩
      have sameKeys : (db.locks.map fun row =>
            if row.hookSlug == slug then
              { row with executionId, acquiredAt }
            else row).map (·.hookSlug) = db.locks.map (·.hookSlug) := by
        rw [List.map_map]
        refine List.map_congr_left fun row _ => ?_
        simp only [Function.comp_apply]
        split <;> rfl
      simpa only [LockStatement.exec, sameKeys] using keys.locks
  | selectHolder slug => exact keys
  | deleteTerminal =>
      exact ⟨keys.executions,
        keys.locks.sublist (List.filter_sublist.map _), keys.queue⟩

theorem keys_queue {db : Db} (keys : db.Keys)
    (statement : QueueStatement) : (statement.exec db).2.Keys := by
  cases statement with
  | enqueue id slug executionId queuedAt =>
      simp only [QueueStatement.exec]
      split
      · exact keys
      · rename_i accepted
        simp only [Bool.or_eq_true, List.any_eq_true, beq_iff_eq, not_or,
          not_exists, not_and] at accepted
        exact ⟨keys.executions, keys.locks,
          nodup_snoc _ keys.queue accepted.1⟩
  | selectPosition id => exact keys
  | peekNext slug => exact keys
  | countWaiting slug => exact keys
  | update change =>
      refine ⟨keys.executions, keys.locks, ?_⟩
      simpa [QueueStatement.exec, List.map_map, Function.comp_def]
        using keys.queue
  | expireStale =>
      refine ⟨keys.executions, keys.locks, ?_⟩
      have sameKeys : (db.queue.map fun row =>
            if QueueStatement.stale db row then
              { row with status := .expired }
            else row).map (·.id) = db.queue.map (·.id) := by
        rw [List.map_map]
        refine List.map_congr_left fun row _ => ?_
        simp only [Function.comp_apply]
        split <;> rfl
      simpa only [QueueStatement.exec, sameKeys] using keys.queue

theorem attempt_exec (db : Db) (statement : AttemptStatement) :
    (statement.exec db).2.executions = db.executions ∧
      (statement.exec db).2.locks = db.locks ∧
      (statement.exec db).2.queue = db.queue := by
  cases statement with
  | insert row =>
      simp only [AttemptStatement.exec]
      split <;> exact ⟨rfl, rfl, rfl⟩
  | selectById id => exact ⟨rfl, rfl, rfl⟩

theorem counter_exec (db : Db) (statement : CounterStatement) :
    (statement.exec db).2.executions = db.executions ∧
      (statement.exec db).2.locks = db.locks ∧
      (statement.exec db).2.queue = db.queue := by
  cases statement with
  | insertOrIgnore slug windowStart =>
      simp only [CounterStatement.exec]
      split <;> exact ⟨rfl, rfl, rfl⟩
  | increment slug windowStart limit => exact ⟨rfl, rfl, rfl⟩
  | deleteBefore cutoff => exact ⟨rfl, rfl, rfl⟩

/-- The conditions under which an `INSERT` is accepted. -/
theorem insert_accepted {db : Db} {row : Execution}
    (fresh : ∀ other ∈ db.executions, other.id ≠ row.id)
    (original : ∀ id, row.retryOf = some id →
      ∃ other ∈ db.executions, other.id = id) :
    (ExecutionStatement.insert row).exec db =
      (.ok (), { db with executions := db.executions ++ [row] }) := by
  have noDuplicate :
      (db.executions.any fun other => other.id == row.id) = false := by
    simpa using fresh
  have noDangling : (row.retryOf.any fun original =>
      !db.executions.any fun other => other.id == original) = false := by
    cases retryOf : row.retryOf with
    | none => rfl
    | some id =>
        obtain ⟨other, member, rfl⟩ := original id retryOf
        simp only [Option.any_some, Bool.not_eq_false', List.any_eq_true,
          beq_iff_eq]
        exact ⟨other, member, rfl⟩
  simp [ExecutionStatement.exec, noDuplicate, noDangling]

/-- An `INSERT` either appends the record or fails and changes nothing. -/
theorem insert_cases (db : Db) (row : Execution) :
    (ExecutionStatement.insert row).exec db =
        (.ok (), { db with executions := db.executions ++ [row] }) ∨
      (ExecutionStatement.insert row).exec db = (.error .sqlx, db) := by
  simp only [ExecutionStatement.exec]
  split
  · exact .inr rfl
  · exact .inl rfl

theorem enqueue_cases (db : Db) (id slug executionId : String)
    (queuedAt : Timestamp) :
    (∃ position,
      (QueueStatement.enqueue id slug executionId queuedAt).exec db =
        (.ok (), { db with queue := db.queue ++
          [{ id, hookSlug := slug, executionId, position, queuedAt }] })) ∨
      (QueueStatement.enqueue id slug executionId queuedAt).exec db =
        (.error .sqlx, db) := by
  simp only [QueueStatement.exec]
  split
  · exact .inr rfl
  · exact .inl ⟨_, rfl⟩

/-- Only lock statements change lock rows. -/
theorem locks_exec {db : Db} {statement : Statement}
    (other : ∀ lock, statement ≠ .lock lock) :
    (statement.exec db).2.locks = db.locks := by
  cases statement with
  | execution statement =>
      cases statement with
      | insert row =>
          simp only [Statement.exec, ExecutionStatement.exec]
          split <;> rfl
      | selectById | update | selectLatestStarted | selectOverdue => rfl
  | lock statement => exact (other statement rfl).elim
  | queue statement =>
      cases statement with
      | enqueue id slug executionId queuedAt =>
          simp only [Statement.exec, QueueStatement.exec]
          split <;> rfl
      | selectPosition | peekNext | countWaiting | update | expireStale =>
          rfl
  | attempt statement => exact (attempt_exec db statement).2.1
  | counter statement => exact (counter_exec db statement).2.1

/-- Only statements on records change records. -/
theorem executions_exec {db : Db} {statement : Statement}
    (other : ∀ record, statement ≠ .execution record) :
    (statement.exec db).2.executions = db.executions := by
  cases statement with
  | execution statement => exact (other statement rfl).elim
  | lock statement =>
      cases statement with
      | insertOrIgnore slug id acquiredAt =>
          simp only [Statement.exec, LockStatement.exec]
          split <;> rfl
      | delete | update | selectHolder | deleteTerminal => rfl
  | queue statement =>
      cases statement with
      | enqueue id slug execution queuedAt =>
          simp only [Statement.exec, QueueStatement.exec]
          split <;> rfl
      | selectPosition | peekNext | countWaiting | update | expireStale =>
          rfl
  | attempt statement => exact (attempt_exec db statement).1
  | counter statement => exact (counter_exec db statement).1

/-- Only queue statements change queue entries. -/
theorem queue_exec {db : Db} {statement : Statement}
    (other : ∀ queue, statement ≠ .queue queue) :
    (statement.exec db).2.queue = db.queue := by
  cases statement with
  | execution statement =>
      cases statement with
      | insert row =>
          simp only [Statement.exec, ExecutionStatement.exec]
          split <;> rfl
      | selectById | update | selectLatestStarted | selectOverdue => rfl
  | lock statement =>
      cases statement with
      | insertOrIgnore slug id acquiredAt =>
          simp only [Statement.exec, LockStatement.exec]
          split <;> rfl
      | delete | update | selectHolder | deleteTerminal => rfl
  | queue statement => exact (other statement rfl).elim
  | attempt statement => exact (attempt_exec db statement).2.2
  | counter statement => exact (counter_exec db statement).2.2

/-- Only attempt statements change attempts. -/
theorem attempts_exec {db : Db} {statement : Statement}
    (other : ∀ attempt, statement ≠ .attempt attempt) :
    (statement.exec db).2.attempts = db.attempts := by
  cases statement with
  | execution statement =>
      cases statement with
      | insert row =>
          simp only [Statement.exec, ExecutionStatement.exec]
          split <;> rfl
      | selectById | update | selectLatestStarted | selectOverdue => rfl
  | lock statement =>
      cases statement with
      | insertOrIgnore slug id acquiredAt =>
          simp only [Statement.exec, LockStatement.exec]
          split <;> rfl
      | delete | update | selectHolder | deleteTerminal => rfl
  | queue statement =>
      cases statement with
      | enqueue id slug execution queuedAt =>
          simp only [Statement.exec, QueueStatement.exec]
          split <;> rfl
      | selectPosition | peekNext | countWaiting | update | expireStale =>
          rfl
  | attempt statement => exact (other statement rfl).elim
  | counter statement =>
      cases statement with
      | insertOrIgnore slug windowStart =>
          simp only [Statement.exec, CounterStatement.exec]
          split <;> rfl
      | increment | deleteBefore => rfl

/-- Only counter statements change counters. -/
theorem counters_exec {db : Db} {statement : Statement}
    (other : ∀ counter, statement ≠ .counter counter) :
    (statement.exec db).2.counters = db.counters := by
  cases statement with
  | execution statement =>
      cases statement with
      | insert row =>
          simp only [Statement.exec, ExecutionStatement.exec]
          split <;> rfl
      | selectById | update | selectLatestStarted | selectOverdue => rfl
  | lock statement =>
      cases statement with
      | insertOrIgnore slug id acquiredAt =>
          simp only [Statement.exec, LockStatement.exec]
          split <;> rfl
      | delete | update | selectHolder | deleteTerminal => rfl
  | queue statement =>
      cases statement with
      | enqueue id slug execution queuedAt =>
          simp only [Statement.exec, QueueStatement.exec]
          split <;> rfl
      | selectPosition | peekNext | countWaiting | update | expireStale =>
          rfl
  | attempt statement =>
      cases statement with
      | insert row =>
          simp only [Statement.exec, AttemptStatement.exec]
          split <;> rfl
      | selectById => rfl
  | counter statement => exact (other statement rfl).elim

theorem keys_exec {db : Db} (keys : db.Keys) (statement : Statement) :
    (statement.exec db).2.Keys := by
  cases statement with
  | execution statement => exact keys_execution keys statement
  | lock statement => exact keys_lock keys statement
  | queue statement => exact keys_queue keys statement
  | attempt statement =>
      obtain ⟨executions, locks, queue⟩ := attempt_exec db statement
      exact ⟨executions ▸ keys.executions, locks ▸ keys.locks,
        queue ▸ keys.queue⟩
  | counter statement =>
      obtain ⟨executions, locks, queue⟩ := counter_exec db statement
      exact ⟨executions ▸ keys.executions, locks ▸ keys.locks,
        queue ▸ keys.queue⟩

/-- No record is deleted, and none changes its hook. -/
theorem executions_kept {db : Db} (statement : Statement) {row : Execution}
    (member : row ∈ db.executions) :
    ∃ after ∈ (statement.exec db).2.executions,
      after.id = row.id ∧ after.hookSlug = row.hookSlug := by
  cases statement with
  | execution statement =>
      cases statement with
      | insert new =>
          simp only [Statement.exec]
          rcases insert_cases db new with accepted | refused
          · rw [accepted]
            exact ⟨row, List.mem_append_left _ member, rfl, rfl⟩
          · rw [refused]
            exact ⟨row, member, rfl, rfl⟩
      | update change =>
          exact ⟨change.apply row, List.mem_map.mpr ⟨row, member, rfl⟩,
            change.apply_id row, change.apply_hookSlug row⟩
      | selectById | selectLatestStarted | selectOverdue =>
          exact ⟨row, member, rfl, rfl⟩
  | lock | queue | attempt | counter =>
      rw [executions_exec (by simp)]
      exact ⟨row, member, rfl, rfl⟩

/-- With unique keys a record is determined by its key. -/
theorem Keys.execution_unique {db : Db} (keys : db.Keys)
    {row other : Execution} (rowMember : row ∈ db.executions)
    (otherMember : other ∈ db.executions) (sameId : row.id = other.id) :
    row = other :=
  List.inj_on_of_nodup_map keys.executions rowMember otherMember sameId

theorem Keys.execution?_eq {db : Db} (keys : db.Keys) {row : Execution}
    (member : row ∈ db.executions) : db.execution? row.id = some row := by
  unfold execution?
  cases found : db.executions.find? fun other => other.id == row.id with
  | none =>
      have absent := List.find?_eq_none.mp found row member
      simp at absent
  | some other =>
      have sameId : other.id = row.id := by
        simpa using List.find?_some found
      rw [keys.execution_unique (List.mem_of_find?_eq_some found) member
        sameId]

theorem execution?_some {db : Db} {id : String} {row : Execution}
    (found : db.execution? id = some row) :
    row ∈ db.executions ∧ row.id = id :=
  ⟨List.mem_of_find?_eq_some found, by simpa using List.find?_some found⟩

private theorem id_of_mem_erase {rows : List Execution} {row : Execution}
    (keys : (rows.map (·.id)).Nodup) (member : row ∈ rows) :
    ∀ other ∈ rows.erase row, other.id ≠ row.id := by
  intro other otherMember sameId
  have equality := List.inj_on_of_nodup_map keys
    (List.mem_of_mem_erase otherMember) member sameId
  exact keys.of_map.not_mem_erase (equality ▸ otherMember)

/-- The number of rows an update of one record reports. -/
theorem countP_update {rows : List Execution}
    (keys : (rows.map (·.id)).Nodup) {change : ExecutionUpdate}
    {row : Execution} (target : change.target? = some row.id)
    (member : row ∈ rows) :
    rows.countP change.matches? = if change.matches? row then 1 else 0 := by
  have others : ∀ other ∈ rows.erase row,
      ¬ change.matches? other = true :=
    fun other otherMember matched =>
      id_of_mem_erase keys member other otherMember
        (ExecutionUpdate.id_of_matches target matched)
  rw [(List.perm_cons_erase member).countP_eq, List.countP_cons,
    List.countP_eq_zero.mpr others, Nat.zero_add]

/-- An update of one record leaves the others as they are. -/
theorem map_update {rows : List Execution}
    (keys : (rows.map (·.id)).Nodup) {change : ExecutionUpdate}
    {row : Execution} (target : change.target? = some row.id)
    (member : row ∈ rows) :
    ∃ others : Multiset Execution,
      (rows : Multiset Execution) = row ::ₘ others ∧
        ((rows.map change.apply : List Execution) : Multiset Execution) =
          change.apply row ::ₘ others ∧
        ∀ other ∈ others, other.id ≠ row.id := by
  have others := id_of_mem_erase keys member
  refine ⟨(rows.erase row : List Execution), ?_, ?_, others⟩
  · exact Multiset.coe_eq_coe.mpr (List.perm_cons_erase member)
  · have unchanged : (rows.erase row).map change.apply = rows.erase row := by
      refine (List.map_congr_left fun other otherMember => ?_).trans
        (List.map_id _)
      exact ExecutionUpdate.apply_of_ne target (others other otherMember)
    have perm := (List.perm_cons_erase member).map change.apply
    rw [List.map_cons, unchanged] at perm
    exact Multiset.coe_eq_coe.mpr perm

end Db

end Sendword
