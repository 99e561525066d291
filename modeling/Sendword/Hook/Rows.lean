import Sendword.Store.Keys

/-!
# The rows of one hook

The records, lock rows and queue entries of one hook, and what each statement
does to them.  A statement about another hook leaves them as they are.
-/

namespace Sendword

/-- The rows of the three pipeline tables that belong to one hook. -/
structure HookRows where
  records : List Execution
  locks : List LockRow
  entries : List QueueRow
  deriving DecidableEq, Repr

namespace HookRows

/-- The execution that holds the hook's lock. -/
def holder (rows : HookRows) : Option String :=
  rows.locks.head?.map (·.executionId)

def waiting (rows : HookRows) : List QueueRow :=
  rows.entries.filter fun entry => entry.status == .waiting

/-- The records that wait for a decision. -/
def parked (rows : HookRows) : List Execution :=
  rows.records.filter fun row => row.status == .pendingApproval

/-- Apply a change to the records. -/
def changed (rows : HookRows) (change : ExecutionUpdate) : HookRows :=
  { rows with records := rows.records.map change.apply }

@[simp] theorem changed_holder (rows : HookRows)
    (change : ExecutionUpdate) :
    (rows.changed change).holder = rows.holder := rfl

end HookRows

/-- The hook a lock statement is about. -/
def LockStatement.slug? : LockStatement → Option String
  | .insertOrIgnore slug .. | .delete slug | .update slug ..
  | .selectHolder slug => some slug
  | .deleteTerminal => none

namespace Db

def rowsOf (db : Db) (slug : String) : HookRows :=
  { records := db.executions.filter fun row => row.hookSlug == slug
    locks := db.locks.filter fun row => row.hookSlug == slug
    entries := db.queue.filter fun row => row.hookSlug == slug }

theorem mem_records {db : Db} {slug : String} {row : Execution} :
    row ∈ (db.rowsOf slug).records ↔
      row ∈ db.executions ∧ row.hookSlug = slug := by
  simp [rowsOf]

theorem mem_entries {db : Db} {slug : String} {entry : QueueRow} :
    entry ∈ (db.rowsOf slug).entries ↔
      entry ∈ db.queue ∧ entry.hookSlug = slug := by
  simp [rowsOf]

theorem rowsOf_holder (db : Db) (slug : String) :
    (db.rowsOf slug).holder = db.holder? slug := by
  simp [rowsOf, HookRows.holder, holder?, List.head?_filter]

theorem rowsOf_waiting (db : Db) (slug : String) :
    (db.rowsOf slug).waiting = db.waiting slug := by
  simp only [rowsOf, HookRows.waiting, waiting, List.filter_filter]
  exact List.filter_congr fun entry _ => Bool.and_comm ..

theorem rowsOf_congr {db other : Db} (slug : String)
    (executions : other.executions = db.executions)
    (locks : other.locks = db.locks) (queue : other.queue = db.queue) :
    other.rowsOf slug = db.rowsOf slug := by
  simp [rowsOf, executions, locks, queue]

/-! ## Records -/

theorem rowsOf_update (db : Db) (slug : String) (change : ExecutionUpdate) :
    ((ExecutionStatement.update change).exec db).2.rowsOf slug =
      (db.rowsOf slug).changed change := by
  have commutes : (db.executions.map change.apply).filter
        (fun row => row.hookSlug == slug) =
      (db.executions.filter fun row => row.hookSlug == slug).map
        change.apply := by
    simp [List.filter_map, Function.comp_def]
  simp only [ExecutionStatement.exec, rowsOf, HookRows.changed, commutes]

/-- A change of a record that is not the hook's. -/
theorem rowsOf_update_other {db : Db} {slug id : String}
    {change : ExecutionUpdate} (target : change.target? = some id)
    (absent : ∀ row ∈ (db.rowsOf slug).records, row.id ≠ id) :
    ((ExecutionStatement.update change).exec db).2.rowsOf slug =
      db.rowsOf slug := by
  rw [rowsOf_update]
  have unchanged : (db.rowsOf slug).records.map change.apply =
      (db.rowsOf slug).records := by
    refine (List.map_congr_left fun row member => ?_).trans (List.map_id _)
    exact ExecutionUpdate.apply_of_ne target (absent row member)
  simp only [HookRows.changed, unchanged]

theorem rowsOf_insert (db : Db) (row : Execution) :
    ({ db with executions := db.executions ++ [row] } : Db).rowsOf
        row.hookSlug =
      { db.rowsOf row.hookSlug with
        records := (db.rowsOf row.hookSlug).records ++ [row] } := by
  simp [rowsOf]

theorem rowsOf_insert_other {db : Db} {slug : String} {row : Execution}
    (different : row.hookSlug ≠ slug) :
    ({ db with executions := db.executions ++ [row] } : Db).rowsOf slug =
      db.rowsOf slug := by
  simp [rowsOf, different]

/-! ## Locks -/

theorem holder_eq_none {rows : HookRows} :
    rows.holder = none ↔ rows.locks = [] := by
  simp [HookRows.holder, List.head?_eq_none_iff]

theorem locks_empty_iff {db : Db} {slug : String} :
    (db.rowsOf slug).locks = [] ↔
      (db.locks.any fun row => row.hookSlug == slug) = false := by
  simp [rowsOf, List.filter_eq_nil_iff]

theorem acquire_free {db : Db} {slug : String} (id : String)
    (acquiredAt : Timestamp) (free : (db.rowsOf slug).holder = none) :
    ∃ after : Db,
      (LockStatement.insertOrIgnore slug id acquiredAt).exec db =
          (.ok (1 : Nat), after) ∧
        after.executions = db.executions ∧ after.queue = db.queue ∧
        after.rowsOf slug =
          { db.rowsOf slug with
            locks := [{ hookSlug := slug, executionId := id, acquiredAt }] }
    := by
  have empty := holder_eq_none.mp free
  have noRow := locks_empty_iff.mp empty
  have noLocks : db.locks.filter (fun row => row.hookSlug == slug) = [] :=
    empty
  refine ⟨{ db with locks :=
    db.locks ++ [{ hookSlug := slug, executionId := id, acquiredAt }] },
    ?_, rfl, rfl, ?_⟩
  · simp [LockStatement.exec, noRow]
  · simp [rowsOf, noLocks]

theorem acquire_held {db : Db} {slug id holder : String}
    {acquiredAt : Timestamp} (held : (db.rowsOf slug).holder = some holder) :
    (LockStatement.insertOrIgnore slug id acquiredAt).exec db =
      (.ok (0 : Nat), db) := by
  have someRow : (db.locks.any fun row => row.hookSlug == slug) = true := by
    by_contra noRow
    rw [Bool.not_eq_true] at noRow
    have free := holder_eq_none.mpr (locks_empty_iff.mpr noRow)
    rw [held] at free
    cases free
  simp [LockStatement.exec, someRow]

theorem rowsOf_delete (db : Db) (slug : String) :
    ((LockStatement.delete slug).exec db).2.rowsOf slug =
      { db.rowsOf slug with locks := [] } := by
  simp [LockStatement.exec, rowsOf, List.filter_filter]

theorem rowsOf_handOff (db : Db) (slug id : String)
    (acquiredAt : Timestamp) :
    ∃ locks : List LockRow,
      ((LockStatement.update slug id acquiredAt).exec db).2.rowsOf slug =
          { db.rowsOf slug with locks } ∧
        locks.head?.map (·.executionId) =
          (db.rowsOf slug).holder.map fun _ => id := by
  refine ⟨(db.rowsOf slug).locks.map fun row =>
    if row.hookSlug == slug then { row with executionId := id, acquiredAt }
    else row, ?_, ?_⟩
  · have commutes : (db.locks.map fun row =>
          if row.hookSlug == slug then
            { row with executionId := id, acquiredAt }
          else row).filter (fun row => row.hookSlug == slug) =
        (db.locks.filter fun row => row.hookSlug == slug).map fun row =>
          if row.hookSlug == slug then
            { row with executionId := id, acquiredAt }
          else row := by
      rw [List.filter_map]
      congr 1
      refine List.filter_congr fun row _ => ?_
      simp only [Function.comp_apply]
      split <;> rfl
    simp only [LockStatement.exec, rowsOf, commutes]
  · cases locks : (db.rowsOf slug).locks with
    | nil => simp [HookRows.holder, locks]
    | cons first rest =>
        have member : first ∈ (db.rowsOf slug).locks := by simp [locks]
        have own : first.hookSlug = slug := by
          simp only [rowsOf, List.mem_filter, beq_iff_eq] at member
          exact member.2
        simp [HookRows.holder, locks, own]

/-- A lock statement about another hook. -/
theorem rowsOf_lock_other {db : Db} {slug other : String}
    {statement : LockStatement} (about : statement.slug? = some other)
    (different : other ≠ slug) :
    (statement.exec db).2.rowsOf slug = db.rowsOf slug := by
  cases statement with
  | insertOrIgnore target id acquiredAt =>
      obtain rfl : target = other := by simpa [LockStatement.slug?] using about
      simp only [LockStatement.exec]
      split
      · rfl
      · simp [rowsOf, different]
  | delete target =>
      obtain rfl : target = other := by simpa [LockStatement.slug?] using about
      have unchanged : (db.locks.filter fun row =>
            row.hookSlug != target).filter (fun row => row.hookSlug == slug) =
          db.locks.filter fun row => row.hookSlug == slug := by
        rw [List.filter_filter]
        refine List.filter_congr fun row _ => ?_
        by_cases own : row.hookSlug = slug
        · simp [own, different.symm]
        · simp [own]
      simp only [LockStatement.exec, rowsOf, unchanged]
  | update target id acquiredAt =>
      obtain rfl : target = other := by simpa [LockStatement.slug?] using about
      have unchanged : (db.locks.map fun row =>
            if row.hookSlug == target then
              { row with executionId := id, acquiredAt }
            else row).filter (fun row => row.hookSlug == slug) =
          db.locks.filter fun row => row.hookSlug == slug := by
        rw [List.filter_map]
        have sameTest : ((fun row : LockRow => row.hookSlug == slug) ∘
            fun row => if row.hookSlug == target then
              { row with executionId := id, acquiredAt } else row) =
            fun row => row.hookSlug == slug := by
          funext row
          simp only [Function.comp_apply]
          split <;> rfl
        rw [sameTest]
        refine (List.map_congr_left fun row member => ?_).trans
          (List.map_id _)
        have own : row.hookSlug = slug := by
          simpa using (List.mem_filter.mp member).2
        simp [own, different.symm]
      simp only [LockStatement.exec, rowsOf, unchanged]
  | selectHolder target => rfl
  | deleteTerminal => cases about

/-! ## Queue entries -/

theorem rowsOf_enqueue (db : Db) (entry : QueueRow) :
    ({ db with queue := db.queue ++ [entry] } : Db).rowsOf entry.hookSlug =
      { db.rowsOf entry.hookSlug with
        entries := (db.rowsOf entry.hookSlug).entries ++ [entry] } := by
  simp [rowsOf]

theorem rowsOf_enqueue_other {db : Db} {slug : String} {entry : QueueRow}
    (different : entry.hookSlug ≠ slug) :
    ({ db with queue := db.queue ++ [entry] } : Db).rowsOf slug =
      db.rowsOf slug := by
  simp [rowsOf, different]

theorem rowsOf_queueUpdate (db : Db) (slug : String) (change : QueueUpdate) :
    ((QueueStatement.update change).exec db).2.rowsOf slug =
      { db.rowsOf slug with
        entries := (db.rowsOf slug).entries.map change.apply } := by
  have commutes : (db.queue.map change.apply).filter
        (fun row => row.hookSlug == slug) =
      (db.queue.filter fun row => row.hookSlug == slug).map
        change.apply := by
    simp [List.filter_map, Function.comp_def]
  simp only [QueueStatement.exec, rowsOf, commutes]

end Db

/-- An update of the queue takes the entries it matches out of the waiting
ones and leaves the others. -/
theorem QueueUpdate.waiting_map (change : QueueUpdate)
    (entries : List QueueRow) :
    (entries.map change.apply).filter (fun entry => entry.status == .waiting) =
      (entries.filter fun entry => entry.status == .waiting).filter
        fun entry => !change.matches? entry := by
  induction entries with
  | nil => rfl
  | cons entry entries induction =>
      by_cases matched : change.matches? entry = true
      · have waits : entry.status = .waiting := by
          cases change <;> simp_all [matches?]
        have leaves : (change.set entry).status ≠ .waiting := by
          cases change <;> simp [set]
        simp [apply, matched, waits, leaves, induction]
      · rw [Bool.not_eq_true] at matched
        by_cases waits : entry.status = .waiting
        · simp [apply, matched, waits, induction]
        · simp [apply, matched, waits, induction]

end Sendword
