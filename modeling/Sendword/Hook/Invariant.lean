import Sendword.Hook.Transfer

/-!
# The invariant of the server

The ownership invariant of the watched hook together with what the tasks know
about the rows of other hooks.
-/

namespace Sendword

open Concurrency

namespace Db

/-- The execution is recorded, and for another hook. -/
def Elsewhere (db : Db) (slug id : String) : Prop :=
  ∃ row ∈ db.executions, row.id = id ∧ row.hookSlug ≠ slug

/-- The queue entry exists, and waits for another hook. -/
def OtherEntry (db : Db) (slug id : String) : Prop :=
  ∃ entry ∈ db.queue, entry.id = id ∧ entry.hookSlug ≠ slug

/-- The records and entries of `other` are those of `db`, in whatever state,
and some new ones. -/
structure Extends (db other : Db) (records : List Execution)
    (entries : List QueueRow) : Prop where
  executions : other.executions.map (fun row => (row.id, row.hookSlug)) =
    (db.executions ++ records).map fun row => (row.id, row.hookSlug)
  queue :
    other.queue.map (fun row => (row.id, row.hookSlug, row.executionId)) =
      (db.queue ++ entries).map
        fun row => (row.id, row.hookSlug, row.executionId)

namespace Extends

variable {db other : Db} {records : List Execution}
  {entries : List QueueRow} {slug id : String}

theorem old (grown : db.Extends other records entries) {row : Execution}
    (member : row ∈ other.executions) :
    ∃ old ∈ db.executions ++ records, old.id = row.id ∧
      old.hookSlug = row.hookSlug := by
  have named := List.mem_map_of_mem
    (f := fun row : Execution => (row.id, row.hookSlug)) member
  rw [grown.executions] at named
  obtain ⟨old, oldMember, same⟩ := List.mem_map.mp named
  exact ⟨old, oldMember, congrArg Prod.fst same, congrArg Prod.snd same⟩

theorem oldEntry (grown : db.Extends other records entries)
    {entry : QueueRow} (member : entry ∈ other.queue) :
    ∃ old ∈ db.queue ++ entries, old.hookSlug = entry.hookSlug ∧
      old.executionId = entry.executionId := by
  have named := List.mem_map_of_mem
    (f := fun row : QueueRow => (row.id, row.hookSlug, row.executionId))
    member
  rw [grown.queue] at named
  obtain ⟨old, oldMember, same⟩ := List.mem_map.mp named
  simp only [Prod.mk.injEq] at same
  exact ⟨old, oldMember, same.2⟩

theorem elsewhere (grown : db.Extends other records entries)
    (found : db.Elsewhere slug id) : other.Elsewhere slug id := by
  obtain ⟨row, member, sameId, different⟩ := found
  have named := List.mem_map_of_mem
    (f := fun row : Execution => (row.id, row.hookSlug))
    (List.mem_append_left records member)
  rw [← grown.executions] at named
  obtain ⟨kept, keptMember, same⟩ := List.mem_map.mp named
  simp only [Prod.mk.injEq] at same
  exact ⟨kept, keptMember, same.1.trans sameId, same.2 ▸ different⟩

theorem otherEntry (grown : db.Extends other records entries)
    (found : db.OtherEntry slug id) : other.OtherEntry slug id := by
  obtain ⟨row, member, sameId, different⟩ := found
  have named := List.mem_map_of_mem
    (f := fun row : QueueRow => (row.id, row.hookSlug, row.executionId))
    (List.mem_append_left entries member)
  rw [← grown.queue] at named
  obtain ⟨kept, keptMember, same⟩ := List.mem_map.mp named
  simp only [Prod.mk.injEq] at same
  exact ⟨kept, keptMember, same.1.trans sameId, same.2.1 ▸ different⟩

theorem of_eq (executions : other.executions = db.executions)
    (queue : other.queue = db.queue) : db.Extends other [] [] :=
  ⟨by simp [executions], by simp [queue]⟩

end Extends

end Db

namespace Watched

variable (watched : Watched)

/-- What a task knows about rows that are not its own is true. -/
structure Informed (db : Db) (ghost : Ghost) : Prop where
  unwritten : ∀ id, ghost.Unwritten id → ∀ row ∈ db.executions, row.id ≠ id
  elsewhere : ∀ id ∈ ghost.elsewhere, db.Elsewhere watched.slug id
  otherEntries : ∀ id ∈ ghost.otherEntries, db.OtherEntry watched.slug id

structure Invariant (world : World) (ghosts : Multiset Ghost) : Prop where
  config : world.config = watched.config
  keys : world.db.Keys
  issued : ∀ row ∈ world.db.executions, row.id ∈ world.issued
  handedOut : ∀ id ∈ ownedIds ghosts, id ∈ world.issued
  queued : ∀ entry ∈ world.db.queue, entry.hookSlug ≠ watched.slug →
    world.db.Elsewhere watched.slug entry.executionId
  informed : ∀ ghost ∈ ghosts, watched.Informed world.db ghost
  owned : watched.Owned (approvalsOf ghosts) (world.db.rowsOf watched.slug)
    ghosts

variable {watched}
variable {db other : Db} {ghost after : Ghost} {rest : Multiset Ghost}
  {records : List Execution} {entries : List QueueRow}
  {world target : World}

theorem owned_of_unwritten {id : String} (unwritten : ghost.Unwritten id) :
    id ∈ ghost.owned := by
  rcases unwritten with fresh | token
  · simp [Ghost.owned, fresh]
  · simp [Ghost.owned, token, Token.owned]

namespace Informed

theorem extend (informed : watched.Informed db ghost)
    (grown : db.Extends other records entries)
    (apart : ∀ row ∈ records, ¬ ghost.Unwritten row.id) :
    watched.Informed other ghost where
  unwritten := by
    intro id unwritten row member sameId
    obtain ⟨old, oldMember, oldId, -⟩ := grown.old member
    rcases List.mem_append.mp oldMember with before | new
    · exact informed.unwritten id unwritten old before (oldId.trans sameId)
    · exact apart old new ((oldId.trans sameId).symm ▸ unwritten)
  elsewhere := fun id known => grown.elsewhere (informed.elsewhere id known)
  otherEntries := fun id known =>
    grown.otherEntry (informed.otherEntries id known)

/-- A change of the ghost that claims nothing new about other rows. -/
theorem change (informed : watched.Informed db ghost)
    (unwritten : ∀ id, after.Unwritten id → ghost.Unwritten id)
    (elsewhere : after.elsewhere = ghost.elsewhere)
    (otherEntries : after.otherEntries = ghost.otherEntries) :
    watched.Informed db after :=
  ⟨fun id claim => informed.unwritten id (unwritten id claim),
    elsewhere ▸ informed.elsewhere, otherEntries ▸ informed.otherEntries⟩

theorem learn {ids : List String} (informed : watched.Informed db ghost)
    (known : ∀ id ∈ ids, db.Elsewhere watched.slug id) :
    watched.Informed db (ghost.learn ids) where
  unwritten := informed.unwritten
  elsewhere := by
    intro id member
    rcases List.mem_append.mp member with new | old
    · exact known id new
    · exact informed.elsewhere id old
  otherEntries := informed.otherEntries

end Informed

theorem approvalsOf_cons_mono
    (grows : ∀ approval ∈ ghost.approvals, approval ∈ after.approvals) :
    ∀ id user time, approvalsOf (ghost ::ₘ rest) id user time →
      approvalsOf (after ::ₘ rest) id user time := by
  intro id user time approved
  obtain ⟨maker, member, made⟩ := approved
  rcases Multiset.mem_cons.mp member with rfl | old
  · exact ⟨after, Multiset.mem_cons_self _ _, grows _ made⟩
  · exact ⟨maker, Multiset.mem_cons_of_mem old, made⟩

namespace Invariant

/-- The parts of the invariant that do not concern ownership. -/
theorem advance {news : Multiset Ghost}
    (holds : watched.Invariant world (ghost ::ₘ rest))
    (config : target.config = world.config)
    (keys : target.db.Keys)
    (grown : world.db.Extends target.db records entries)
    (issued : ∀ id ∈ world.issued, id ∈ target.issued)
    (recorded : ∀ row ∈ records,
      row.id ∈ world.issued ∧ row.id ∉ ownedIds rest)
    (queued : ∀ entry ∈ entries, entry.hookSlug ≠ watched.slug →
      world.db.Elsewhere watched.slug entry.executionId)
    (handedOut : ∀ id ∈ ownedIds news, id ∈ target.issued)
    (informed : ∀ new ∈ news, watched.Informed target.db new)
    (owned : watched.Owned (approvalsOf (news + rest))
      (target.db.rowsOf watched.slug) (news + rest)) :
    watched.Invariant target (news + rest) where
  config := config.trans holds.config
  keys := keys
  issued := by
    intro row member
    obtain ⟨old, oldMember, sameId, -⟩ := grown.old member
    rcases List.mem_append.mp oldMember with before | new
    · exact sameId ▸ issued _ (holds.issued old before)
    · exact sameId ▸ issued _ (recorded old new).1
  handedOut := by
    intro id member
    rw [ownedIds_add, Multiset.mem_add] at member
    rcases member with new | old
    · exact handedOut id new
    · refine issued id (holds.handedOut id ?_)
      rw [ownedIds_cons, Multiset.mem_add]
      exact .inr old
  queued := by
    intro entry member different
    obtain ⟨old, oldMember, sameSlug, sameExecution⟩ := grown.oldEntry member
    rw [← sameSlug] at different
    refine sameExecution ▸ grown.elsewhere ?_
    rcases List.mem_append.mp oldMember with before | new
    · exact holds.queued old before different
    · exact queued old new different
  informed := by
    intro task member
    rcases Multiset.mem_add.mp member with new | old
    · exact informed task new
    · refine (holds.informed task (Multiset.mem_cons_of_mem old)).extend grown
        ?_
      intro row inRecords unwritten
      exact (recorded row inRecords).2 (Multiset.mem_bind.mpr
        ⟨task, old, owned_of_unwritten unwritten⟩)
  owned := owned

/-- A step of one task that starts no other. -/
theorem move
    (holds : watched.Invariant world (ghost ::ₘ rest))
    (config : target.config = world.config)
    (keys : target.db.Keys)
    (grown : world.db.Extends target.db records entries)
    (issued : ∀ id ∈ world.issued, id ∈ target.issued)
    (recorded : ∀ row ∈ records,
      row.id ∈ world.issued ∧ row.id ∉ ownedIds rest)
    (queued : ∀ entry ∈ entries, entry.hookSlug ≠ watched.slug →
      world.db.Elsewhere watched.slug entry.executionId)
    (handedOut : ∀ id ∈ after.owned, id ∈ target.issued)
    (informed : watched.Informed target.db after)
    (approvals : ∀ approval ∈ ghost.approvals, approval ∈ after.approvals)
    (owned : watched.Owned (approvalsOf (ghost ::ₘ rest))
      (target.db.rowsOf watched.slug) (after ::ₘ rest)) :
    watched.Invariant target (after ::ₘ rest) := by
  rw [← Multiset.singleton_add]
  refine holds.advance config keys grown issued recorded queued ?_ ?_ ?_
  · intro id member
    rw [ownedIds_singleton] at member
    exact handedOut id member
  · intro new member
    rw [Multiset.mem_singleton] at member
    subst member
    exact informed
  · rw [Multiset.singleton_add]
    exact owned.mono (approvalsOf_cons_mono approvals)

/-- A step of one task that records nothing and enqueues nothing. -/
theorem keep
    (holds : watched.Invariant world (ghost ::ₘ rest))
    (config : target.config = world.config)
    (keys : target.db.Keys)
    (grown : world.db.Extends target.db [] [])
    (issued : target.issued = world.issued)
    (handedOut : ∀ id ∈ after.owned, id ∈ world.issued)
    (informed : watched.Informed world.db after)
    (approvals : ∀ approval ∈ ghost.approvals, approval ∈ after.approvals)
    (owned : watched.Owned (approvalsOf (ghost ::ₘ rest))
      (target.db.rowsOf watched.slug) (after ::ₘ rest)) :
    watched.Invariant target (after ::ₘ rest) := by
  refine holds.move config keys grown ?_ (by simp) (by simp) ?_
    (informed.extend grown (by simp)) approvals owned
  · intro id old
    rw [issued]
    exact old
  · rw [issued]
    exact handedOut

theorem own_issued (holds : watched.Invariant world (ghost ::ₘ rest)) :
    ∀ id ∈ ghost.owned, id ∈ world.issued := by
  intro id member
  refine holds.handedOut id ?_
  rw [ownedIds_cons, Multiset.mem_add]
  exact .inl member

theorem own_informed (holds : watched.Invariant world (ghost ::ₘ rest)) :
    watched.Informed world.db ghost :=
  holds.informed ghost (Multiset.mem_cons_self _ _)

/-- A statement that changes no row of the three tables of the pipeline. -/
theorem quiet {world : World} {ghosts : Multiset Ghost} {target : World}
    (holds : watched.Invariant world ghosts)
    (config : target.config = world.config)
    (executions : target.db.executions = world.db.executions)
    (locks : target.db.locks = world.db.locks)
    (queue : target.db.queue = world.db.queue)
    (issued : target.issued = world.issued) :
    watched.Invariant target ghosts where
  config := config.trans holds.config
  keys := ⟨executions ▸ holds.keys.executions, locks ▸ holds.keys.locks,
    queue ▸ holds.keys.queue⟩
  issued := by
    rw [executions, issued]
    exact holds.issued
  handedOut := by
    rw [issued]
    exact holds.handedOut
  queued := by
    simp only [Db.Elsewhere, executions, queue]
    exact holds.queued
  informed := by
    intro ghost member
    exact (holds.informed ghost member).extend
      (Db.Extends.of_eq executions queue) (by simp)
  owned := by
    rw [Db.rowsOf_congr _ executions locks queue]
    exact holds.owned

end Invariant

end Watched

end Sendword
