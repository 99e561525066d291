import Sendword.Hook.Steps

/-!
# Lock and queue statements keep the invariant
-/

namespace Sendword

open Concurrency

theorem LockStatement.exec_frame (db : Db) (statement : LockStatement) :
    (statement.exec db).2.executions = db.executions ∧
      (statement.exec db).2.queue = db.queue := by
  cases statement with
  | insertOrIgnore slug id acquiredAt =>
      simp only [exec]
      split <;> exact ⟨rfl, rfl⟩
  | delete | update | selectHolder | deleteTerminal => exact ⟨rfl, rfl⟩

theorem Db.Extends.queueUpdate (db : Db) (change : QueueUpdate) :
    db.Extends ((QueueStatement.update change).exec db).2 [] [] :=
  ⟨by simp [QueueStatement.exec], by
    simp [QueueStatement.exec, Function.comp_def]⟩

namespace Watched

variable {watched : Watched} {ghost after : Ghost} {rest : Multiset Ghost}
  {world : World}

namespace Invariant

/-! ## The lock -/

/-- A lock statement moves ownership only. -/
theorem lockKeep {statement : LockStatement}
    (holds : watched.Invariant world (ghost ::ₘ rest))
    (handedOut : ∀ id ∈ after.owned, id ∈ world.issued)
    (unwritten : ∀ id, after.Unwritten id → ghost.Unwritten id)
    (elsewhere : after.elsewhere = ghost.elsewhere)
    (otherEntries : after.otherEntries = ghost.otherEntries)
    (approvals : after.approvals = ghost.approvals)
    (owned : watched.Owned (approvalsOf (ghost ::ₘ rest))
      ((statement.exec world.db).2.rowsOf watched.slug) (after ::ₘ rest)) :
    watched.Invariant { world with db := (statement.exec world.db).2 }
      (after ::ₘ rest) := by
  obtain ⟨executions, queue⟩ := statement.exec_frame world.db
  refine holds.keep rfl (Db.keys_lock holds.keys _)
    (Db.Extends.of_eq executions queue) rfl handedOut
    (holds.own_informed.change unwritten elsewhere otherEntries) ?_ owned
  rw [approvals]
  exact fun _ old => old

theorem lockOther {statement : LockStatement} {slug : String}
    (holds : watched.Invariant world (ghost ::ₘ rest))
    (about : statement.slug? = some slug) (other : slug ≠ watched.slug) :
    watched.Invariant { world with db := (statement.exec world.db).2 }
      (ghost ::ₘ rest) := by
  refine holds.lockKeep holds.own_issued (fun _ claim => claim) rfl rfl rfl
    ?_
  rw [Db.rowsOf_lock_other about other]
  exact holds.owned

theorem tryAcquire {id : String} {acquiredAt : Timestamp}
    (holds : watched.Invariant world (ghost ::ₘ rest))
    (exclusive : watched.exclusive = true)
    (token : ghost.token = .none) (fresh : ghost.fresh = some id) :
    ∃ after,
      watched.movesLock ghost after
        (.insertOrIgnore watched.slug id acquiredAt)
        ((LockStatement.insertOrIgnore watched.slug id acquiredAt).exec
          world.db).1 ∧
      watched.Invariant
        { world with
          db := ((LockStatement.insertOrIgnore watched.slug id
            acquiredAt).exec world.db).2 }
        (after ::ₘ rest) := by
  simp only [movesLock, if_true]
  cases held : (world.db.rowsOf watched.slug).holder with
  | none =>
      obtain ⟨freed, acquired, executions, queue, rows⟩ :=
        Db.acquire_free id acquiredAt held
      refine ⟨ghost.use.hold (.unborn id), .inl ⟨?_, rfl⟩, ?_⟩
      · rw [acquired]
      · refine holds.lockKeep ?_ ?_ rfl rfl rfl ?_
        · intro other own
          obtain rfl : other = id := by
            simpa [Ghost.owned, Ghost.use, Ghost.hold, Token.owned] using own
          exact holds.own_issued other (owned_of_unwritten (.inl fresh))
        · intro other claim
          rcases claim with used | unborn
          · cases used
          · cases unborn
            exact .inl fresh
        · rw [acquired, rows]
          exact holds.owned.acquire exclusive token fresh held rfl rfl rfl
  | some holder =>
      rw [Db.acquire_held held]
      exact ⟨ghost, .inr ⟨rfl, rfl⟩, holds⟩

theorem lock {statement : LockStatement}
    (holds : watched.Invariant world (ghost ::ₘ rest))
    (allowed : watched.allowsLock ghost statement)
    (done : ∀ id phase entry execution,
      ghost.token = .taking id phase entry execution → phase.done = true)
    (unmissed : statement = .selectHolder watched.slug → ∀ id,
      ghost.missed = some id →
        world.db.holder? watched.slug ≠ some id) :
    ∃ after,
      watched.movesLock ghost after statement (statement.exec world.db).1 ∧
      watched.Invariant { world with db := (statement.exec world.db).2 }
        (after ::ₘ rest) := by
  cases statement with
  | insertOrIgnore slug id acquiredAt =>
      by_cases own : slug = watched.slug
      · subst own
        obtain ⟨-, exclusive, token, fresh⟩ := allowed rfl
        exact holds.tryAcquire exclusive token fresh
      · refine ⟨ghost, ?_, holds.lockOther rfl own⟩
        simp only [movesLock, if_neg own]
  | delete slug =>
      by_cases own : slug = watched.slug
      · subst own
        obtain ⟨id, phase, token, done⟩ := allowed rfl
        refine ⟨ghost.hold .none, ?_, ?_⟩
        · simp only [movesLock, if_true]
        · refine holds.lockKeep ?_ ?_ rfl rfl rfl ?_
          · intro other own
            refine holds.own_issued other ?_
            simp_all [Ghost.owned, Ghost.hold, Token.owned]
          · intro other claim
            rcases claim with fresh | unborn
            · exact .inl fresh
            · cases unborn
          · rw [Db.rowsOf_delete]
            exact holds.owned.release token done rfl rfl rfl
      · refine ⟨ghost, ?_, holds.lockOther rfl own⟩
        simp only [movesLock, if_neg own]
  | update slug id acquiredAt =>
      by_cases own : slug = watched.slug
      · subst own
        obtain ⟨old, phase, entry, token⟩ := allowed rfl
        obtain ⟨locks, rows, handed⟩ :=
          Db.rowsOf_handOff world.db watched.slug id acquiredAt
        have lock := holds.owned.of_lock old (by simp [token])
        refine ⟨ghost.hold (.succeeding entry id), ?_, ?_⟩
        · simp only [movesLock, if_true]
          exact ⟨⟨_, rfl⟩, old, phase, entry, id, token, rfl⟩
        · refine holds.lockKeep ?_ ?_ rfl rfl rfl ?_
          · intro other own
            refine holds.own_issued other ?_
            simp_all [Ghost.owned, Ghost.hold, Token.owned]
          · intro other claim
            rcases claim with fresh | unborn
            · exact .inl fresh
            · cases unborn
          · rw [rows]
            refine holds.owned.handOff token (done _ _ _ _ token) rfl ?_ rfl
            rw [HookRows.holder, handed, lock.2.1]
            rfl
      · refine ⟨ghost, ?_, holds.lockOther rfl own⟩
        simp only [movesLock, if_neg own]
  | selectHolder slug =>
      by_cases own : slug = watched.slug
      · subst own
        simp only [movesLock, if_true, LockStatement.exec]
        split
        · rename_i id token
          refine ⟨ghost, ⟨?_, rfl⟩, holds⟩
          have lock := holds.owned.of_lock id (by simp [token])
          rw [← Db.rowsOf_holder, lock.2.1]
        · rename_i id token
          have shared : watched.exclusive = false := by
            simpa using ((holds.owned.claimed token).2 (by simp)).symm
          refine ⟨ghost.hold .none, ⟨?_, rfl⟩, ?_⟩
          · rw [← Db.rowsOf_holder, (holds.owned.free shared).2]
          · refine holds.keep rfl holds.keys (.of_eq rfl rfl) rfl ?_ ?_
              (fun _ old => old) ?_
            · intro other own
              refine holds.own_issued other ?_
              simp_all [Ghost.owned, Ghost.hold, Token.owned]
            · refine holds.own_informed.change ?_ rfl rfl
              intro other claim
              rcases claim with fresh | unborn
              · exact .inl fresh
              · cases unborn
            · refine holds.owned.replace ?_ ?_ trivial
                (holds.owned.settled ghost (Multiset.mem_cons_self _ _))
              · simp [Ghost.owned, Ghost.hold, token, Token.owned,
                  ← Multiset.coe_add]
              · simp [Ghost.hold, token]
        · refine ⟨ghost, ⟨?_, rfl⟩, holds⟩
          intro id missed same
          exact unmissed rfl id missed (by simpa using same)
      · refine ⟨ghost, ?_, holds⟩
        simp only [movesLock, if_neg own]
  | deleteTerminal => exact allowed.elim

/-! ## The queue -/

/-- A record of another hook is what a waiting entry of another hook
names. -/
theorem queue_elsewhere {ghosts : Multiset Ghost} {id : String}
    (holds : watched.Invariant world ghosts)
    (elsewhere : world.db.Elsewhere watched.slug id) :
    id ∉ (world.db.rowsOf watched.slug).waitingIds := by
  intro waits
  obtain ⟨entry, member, rfl⟩ := List.mem_map.mp (Multiset.mem_coe.mp waits)
  obtain ⟨row, inRows, sameId, -⟩ := holds.owned.waiting entry member
  exact holds.elsewhere_absent elsewhere row inRows sameId

/-- An update that matches no waiting entry of the hook. -/
theorem queueUpdateOther {change : QueueUpdate}
    (holds : watched.Invariant world (ghost ::ₘ rest))
    (unmatched : ∀ entry ∈ (world.db.rowsOf watched.slug).waiting,
      change.matches? entry = false) :
    watched.Invariant
      { world with
        db := ((QueueStatement.update change).exec world.db).2 }
      (ghost ::ₘ rest) := by
  refine holds.keep rfl (Db.keys_queue holds.keys _)
    (Db.Extends.queueUpdate _ _) rfl holds.own_issued holds.own_informed
    (fun _ old => old) ?_
  rw [Db.rowsOf_queueUpdate]
  refine holds.owned.congr rfl rfl ?_
  rw [HookRows.waiting, QueueUpdate.waiting_map]
  refine List.filter_eq_self.mpr fun entry member => ?_
  rw [unmatched entry member]
  rfl

/-- Unless it serves an entry, a task matches no waiting entry. -/
theorem unmatched {change : QueueUpdate}
    (holds : watched.Invariant world (ghost ::ₘ rest))
    (allowed : watched.allowsQueue ghost (.update change))
    (idle : ∀ entry execution, ghost.token ≠ .succeeding entry execution) :
    ∀ entry ∈ (world.db.rowsOf watched.slug).waiting,
      change.matches? entry = false := by
  cases change with
  | markReady entry =>
      intro queued member
      rcases allowed with ⟨execution, token⟩ | ⟨-, known⟩
      · exact (idle _ _ token).elim
      · obtain ⟨other, inQueue, otherId, different⟩ :=
          holds.own_informed.otherEntries entry known
        obtain ⟨queuedIn, own⟩ :=
          Db.mem_entries.mp (List.mem_of_mem_filter member)
        have away : queued.id ≠ entry := by
          intro same
          obtain rfl := List.inj_on_of_nodup_map holds.keys.queue
            queuedIn inQueue (same.trans otherId.symm)
          exact different own
        simp [QueueUpdate.matches?, away]
  | expireForExecution execution =>
      have absent : execution ∉
          (world.db.rowsOf watched.slug).waitingIds := by
        rcases allowed with ⟨locked, token⟩ | ⟨-, known | settled⟩
        · exact (holds.owned.own_alone (Owned.token_of_owned token)).2.1
        · exact holds.queue_elsewhere
            (holds.own_informed.elsewhere execution known)
        · exact holds.owned.not_waiting_of_settled
            (holds.owned.settled ghost (Multiset.mem_cons_self _ _) _
              settled)
      intro queued member
      have away : queued.executionId ≠ execution := by
        rintro rfl
        exact absent (Multiset.mem_coe.mpr (List.mem_map_of_mem member))
      simp [QueueUpdate.matches?, away]

theorem queueIds_nodup {ghosts : Multiset Ghost}
    (holds : watched.Invariant world ghosts) :
    ((world.db.rowsOf watched.slug).waiting.map (·.id)).Nodup := by
  refine holds.keys.queue.sublist (List.Sublist.map _ ?_)
  exact List.filter_sublist.trans List.filter_sublist

theorem markReady {entry execution : String}
    (holds : watched.Invariant world (ghost ::ₘ rest))
    (token : ghost.token = .succeeding entry execution) :
    watched.Invariant
      { world with
        db := ((QueueStatement.update (.markReady entry)).exec world.db).2 }
      (ghost.hold (.claim true execution .taken) ::ₘ rest) := by
  have waits := holds.owned.tokens ghost (Multiset.mem_cons_self _ _)
  rw [token] at waits
  refine holds.keep rfl (Db.keys_queue holds.keys _)
    (Db.Extends.queueUpdate _ _) rfl ?_ ?_ (fun _ old => old) ?_
  · intro id own
    simp only [Ghost.owned, Ghost.hold, Token.owned, Multiset.mem_coe,
      List.mem_append, Option.mem_toList, Option.some.injEq] at own
    rcases own with fresh | rfl
    · exact holds.own_issued id (owned_of_unwritten (.inl fresh))
    · obtain ⟨queued, member, -, rfl⟩ := waits
      obtain ⟨row, inRows, sameId, -⟩ := holds.owned.waiting queued member
      exact sameId ▸ holds.issued row (Db.mem_records.mp inRows).1
  · refine holds.own_informed.change ?_ rfl rfl
    intro id claim
    rcases claim with fresh | unborn
    · exact .inl fresh
    · cases unborn
  · rw [Db.rowsOf_queueUpdate]
    refine holds.owned.serve token holds.queueIds_nodup rfl rfl ?_
    rw [HookRows.waiting, QueueUpdate.waiting_map, HookRows.waiting]
    refine List.filter_congr fun queued member => ?_
    have waiting : queued.status = .waiting := by
      simpa using (List.mem_filter.mp member).2
    by_cases same : queued.id = entry
    · simp [QueueUpdate.matches?, waiting, same]
    · simp [QueueUpdate.matches?, same]

theorem peekNext {id : String} {phase : Phase}
    (holds : watched.Invariant world (ghost ::ₘ rest))
    (token : ghost.token = .claim true id phase)
    {entry : QueueRow}
    (found : (world.db.waiting watched.slug).argmin (fun row => row.position)
      = some entry) :
    watched.Invariant world
      (ghost.hold (.taking id phase entry.id entry.executionId) ::ₘ
        rest) := by
  refine holds.keep rfl holds.keys (.of_eq rfl rfl) rfl ?_ ?_
    (fun _ old => old) ?_
  · intro other own
    refine holds.own_issued other ?_
    simpa [Ghost.owned, Ghost.hold, Token.owned, token] using own
  · refine holds.own_informed.change ?_ rfl rfl
    intro other claim
    rcases claim with fresh | unborn
    · exact .inl fresh
    · cases unborn
  · refine holds.owned.replace ?_ ?_ ?_ ?_
    · simp [Ghost.owned, Ghost.hold, Token.owned, token]
    · simp [Ghost.hold, token]
    · have waits : entry ∈ (world.db.rowsOf watched.slug).waiting := by
        rw [Db.rowsOf_waiting]
        exact List.argmin_mem found
      exact ⟨(holds.owned.claimed token).1, entry, waits, rfl, rfl⟩
    · exact holds.owned.settled ghost (Multiset.mem_cons_self _ _)

theorem peekOther {slug : String} {entry : QueueRow}
    (holds : watched.Invariant world (ghost ::ₘ rest))
    (other : slug ≠ watched.slug)
    (found : (world.db.waiting slug).argmin (fun row => row.position)
      = some entry) :
    watched.Invariant world
      ({ ghost.learn [entry.executionId] with
        otherEntries := entry.id :: ghost.otherEntries } ::ₘ rest) := by
  have member : entry ∈ world.db.waiting slug := List.argmin_mem found
  simp only [Db.waiting, List.mem_filter, Bool.and_eq_true, beq_iff_eq]
    at member
  obtain ⟨inQueue, rfl, -⟩ := member
  have elsewhere := holds.queued entry inQueue other
  have informed : watched.Informed world.db
      (ghost.learn [entry.executionId]) :=
    holds.own_informed.learn (by simpa using elsewhere)
  refine holds.keep rfl holds.keys (.of_eq rfl rfl) rfl holds.own_issued
    ⟨informed.unwritten, informed.elsewhere, ?_⟩ (fun _ old => old) ?_
  · intro id known
    rcases List.mem_cons.mp known with rfl | old
    · exact ⟨entry, inQueue, rfl, other⟩
    · exact holds.own_informed.otherEntries id old
  · refine holds.owned.replace le_rfl rfl ?_ ?_
    · exact holds.owned.tokens ghost (Multiset.mem_cons_self _ _)
    · exact holds.owned.settled ghost (Multiset.mem_cons_self _ _)

theorem enqueueOwn {entry : QueueRow}
    (holds : watched.Invariant world (ghost ::ₘ rest))
    (own : entry.hookSlug = watched.slug) (waits : entry.status = .waiting)
    (token : ghost.token = .claim false entry.executionId .queued)
    (keys : Db.Keys { world.db with queue := world.db.queue ++ [entry] }) :
    watched.Invariant
      { world with db := { world.db with
        queue := world.db.queue ++ [entry] } }
      (ghost.hold .none ::ₘ rest) := by
  have grown : world.db.Extends
      { world.db with queue := world.db.queue ++ [entry] } [] [entry] :=
    ⟨by simp, rfl⟩
  have informed : watched.Informed world.db (ghost.hold .none) := by
    refine holds.own_informed.change ?_ rfl rfl
    intro id claim
    rcases claim with fresh | unborn
    · exact .inl fresh
    · cases unborn
  have rows := Db.rowsOf_enqueue world.db entry
  rw [own] at rows
  refine holds.move rfl keys grown (fun _ old => old) (by simp) ?_ ?_
    (informed.extend grown (by simp)) (fun _ old => old) ?_
  · intro new member other
    rw [List.mem_singleton] at member
    subst member
    exact (other own).elim
  · intro id member
    refine holds.own_issued id ?_
    simp_all [Ghost.owned, Ghost.hold, Token.owned]
  · rw [rows]
    refine holds.owned.enqueue token rfl rfl ?_
    simp [HookRows.waiting, waits]

theorem enqueueOther {entry : QueueRow}
    (holds : watched.Invariant world (ghost ::ₘ rest))
    (other : entry.hookSlug ≠ watched.slug)
    (known : entry.executionId ∈ ghost.elsewhere)
    (keys : Db.Keys { world.db with queue := world.db.queue ++ [entry] }) :
    watched.Invariant
      { world with db := { world.db with
        queue := world.db.queue ++ [entry] } }
      (ghost ::ₘ rest) := by
  have grown : world.db.Extends
      { world.db with queue := world.db.queue ++ [entry] } [] [entry] :=
    ⟨by simp, rfl⟩
  refine holds.move rfl keys grown (fun _ old => old) (by simp) ?_
    holds.own_issued (holds.own_informed.extend grown (by simp))
    (fun _ old => old) ?_
  · intro new member _
    rw [List.mem_singleton] at member
    subst member
    exact holds.own_informed.elsewhere _ known
  · rw [Db.rowsOf_enqueue_other other]
    exact holds.owned

theorem queue {statement : QueueStatement}
    (holds : watched.Invariant world (ghost ::ₘ rest))
    (allowed : watched.allowsQueue ghost statement) :
    ∃ after,
      watched.movesQueue ghost after statement
        (statement.exec world.db).1 ∧
      watched.Invariant { world with db := (statement.exec world.db).2 }
        (after ::ₘ rest) := by
  cases statement with
  | enqueue id slug execution queuedAt =>
      have keys := Db.keys_queue holds.keys
        (.enqueue id slug execution queuedAt)
      simp only [allowsQueue] at allowed
      simp only [movesQueue]
      rcases Db.enqueue_cases world.db id slug execution queuedAt with
        ⟨position, accepted⟩ | refused
      · rw [accepted] at keys
        simp only [accepted]
        split at allowed
        · rename_i own
          simp only [if_pos own]
          exact ⟨_, .inl ⟨trivial, rfl⟩,
            holds.enqueueOwn own rfl allowed.1 keys⟩
        · rename_i other
          simp only [if_neg other]
          exact ⟨ghost, rfl, holds.enqueueOther other allowed.2 keys⟩
      · simp only [refused]
        split
        · exact ⟨ghost, .inr ⟨trivial, rfl⟩, holds⟩
        · exact ⟨ghost, rfl, holds⟩
  | selectPosition id => exact ⟨ghost, rfl, holds⟩
  | peekNext slug =>
      simp only [movesQueue, QueueStatement.exec]
      cases found : (world.db.waiting slug).argmin fun row => row.position with
      | none => exact ⟨ghost, .inl ⟨rfl, rfl⟩, holds⟩
      | some entry =>
          simp only [allowsQueue] at allowed
          split at allowed
          · rename_i own
            subst own
            obtain ⟨id, phase, token, -⟩ := allowed
            refine ⟨_, .inr ⟨entry, rfl, ?_⟩, holds.peekNext token found⟩
            rw [if_pos rfl]
            exact ⟨id, phase, token, rfl⟩
          · rename_i other
            refine ⟨_, .inr ⟨entry, rfl, ?_⟩, holds.peekOther other found⟩
            rw [if_neg other]
  | countWaiting slug => exact ⟨ghost, rfl, holds⟩
  | update change =>
      cases change with
      | markReady entry =>
          by_cases succeeding : ∃ execution,
              ghost.token = .succeeding entry execution
          · obtain ⟨execution, token⟩ := succeeding
            refine ⟨_, ?_, holds.markReady token⟩
            simp only [movesQueue, token]
          · have token : ghost.token = .none :=
              (allowed.resolve_left succeeding).1
            refine ⟨ghost, ?_, holds.queueUpdateOther
              (holds.unmatched allowed (by simp [token]))⟩
            simp only [movesQueue, token]
      | expireForExecution execution =>
          refine ⟨ghost, rfl, holds.queueUpdateOther
            (holds.unmatched allowed ?_)⟩
          intro entry next token
          rcases allowed with ⟨locked, claim⟩ | ⟨none, -⟩
          · simp [token] at claim
          · simp [token] at none
  | expireStale => exact allowed.elim

/-! ## Tasks -/

theorem newId {id : String}
    (holds : watched.Invariant world (ghost ::ₘ rest))
    (unused : id ∉ world.issued) :
    watched.Invariant { world with issued := id :: world.issued }
      ({ ghost with fresh := some id } ::ₘ rest) := by
  refine holds.move rfl holds.keys (.of_eq rfl rfl)
    (fun _ old => List.mem_cons_of_mem _ old) (by simp) (by simp) ?_ ?_
    (fun _ old => old) (holds.owned.handOut ?_)
  · intro other own
    simp only [Ghost.owned, Option.toList_some, Multiset.mem_coe,
      List.mem_append, List.mem_singleton, Option.mem_toList] at own
    rcases own with rfl | token
    · exact List.mem_cons_self
    · refine List.mem_cons_of_mem _ (holds.own_issued other ?_)
      simp [Ghost.owned, token]
  · refine ⟨?_, holds.own_informed.elsewhere,
      holds.own_informed.otherEntries⟩
    intro other claim row member
    rcases claim with fresh | unborn
    · obtain rfl : id = other := by simpa using fresh
      rintro rfl
      exact unused (holds.issued row member)
    · exact holds.own_informed.unwritten other (.inr unborn) row member
  · intro used
    rw [Multiset.mem_add, Multiset.mem_add] at used
    rcases used with (own | waits) | parked
    · exact unused (holds.handedOut id own)
    · obtain ⟨entry, member, rfl⟩ :=
        List.mem_map.mp (Multiset.mem_coe.mp waits)
      obtain ⟨row, inRows, sameId, -⟩ := holds.owned.waiting entry member
      exact unused (sameId ▸ holds.issued row (Db.mem_records.mp inRows).1)
    · obtain ⟨row, selected, rfl⟩ := Multiset.mem_map.mp parked
      have inRows := Multiset.mem_coe.mp (Multiset.mem_filter.mp selected).1
      exact unused (holds.issued row (Db.mem_records.mp inRows).1)

/-- A run that could not prepare its log files is over. -/
theorem abandon {locked : Bool} {id : String}
    (holds : watched.Invariant world (ghost ::ₘ rest))
    (token : ghost.token = .claim locked id .ready) :
    watched.Invariant world
      (ghost.hold (.claim locked id .abandoned) ::ₘ rest) := by
  refine holds.keep rfl holds.keys (.of_eq rfl rfl) rfl ?_ ?_
    (fun _ old => old) ?_
  · intro other own
    refine holds.own_issued other ?_
    simpa [Ghost.owned, Ghost.hold, Token.owned, token] using own
  · refine holds.own_informed.change ?_ rfl rfl
    intro other claim
    rcases claim with fresh | unborn
    · exact .inl fresh
    · cases unborn
  · have claimed := holds.owned.claimed token
    refine holds.owned.replace ?_ ?_ ?_ ?_
    · simp [Ghost.owned, Ghost.hold, Token.owned, token]
    · simp [Ghost.hold, token]
    · exact ⟨claimed.1, fun _ => claimed.2 (by simp)⟩
    · exact holds.owned.settled ghost (Multiset.mem_cons_self _ _)

/-- A new task takes over what its parent owned. -/
theorem handTo {child : Ghost}
    (holds : watched.Invariant world (ghost ::ₘ rest))
    (fresh : child.fresh = none)
    (owned : child.token.owned = ghost.token.owned)
    (lock : child.token.lock = ghost.token.lock)
    (token : watched.TokenHolds (approvalsOf (ghost ::ₘ rest))
      (world.db.rowsOf watched.slug) child.token)
    (settled : child.settled = [])
    (informed : watched.Informed world.db child) :
    watched.Invariant world (ghost.hold .none ::ₘ child ::ₘ rest) := by
  have parts : (ghost.hold .none ::ₘ child ::ₘ rest) =
      (ghost.hold .none ::ₘ {child}) + rest := by
    simp
  have ids : ownedIds (ghost.hold .none ::ₘ {child}) = ghost.owned := by
    simp [Ghost.owned, Ghost.hold, fresh, owned, ← Multiset.coe_add]
  rw [parts]
  refine holds.advance rfl holds.keys (.of_eq rfl rfl) (fun _ old => old)
    (by simp) (by simp) ?_ ?_ ?_
  · rw [ids]
    exact holds.own_issued
  · intro new member
    rcases Multiset.mem_cons.mp member with rfl | isChild
    · refine holds.own_informed.change ?_ rfl rfl
      intro other claim
      rcases claim with fresh | unborn
      · exact .inl fresh
      · cases unborn
    · exact Multiset.mem_singleton.mp isChild ▸ informed
  · have exchanged := holds.owned.exchange (le_of_eq ids) ?_ ?_ ?_
    · refine exchanged.mono ?_
      rw [← parts]
      intro id user time approved
      obtain ⟨maker, member, made⟩ := approved
      rcases Multiset.mem_cons.mp member with rfl | old
      · exact ⟨_, Multiset.mem_cons_self _ _, made⟩
      · exact ⟨maker, by simp [old], made⟩
    · simp [lockIds, Ghost.hold, lock]
    · intro new member
      rcases Multiset.mem_cons.mp member with rfl | isChild
      · trivial
      · exact Multiset.mem_singleton.mp isChild ▸ token
    · intro new member
      rcases Multiset.mem_cons.mp member with rfl | isChild
      · exact holds.owned.settled ghost (Multiset.mem_cons_self _ _)
      · rw [Multiset.mem_singleton.mp isChild, settled]
        simp

theorem spawn {job : Job}
    (holds : watched.Invariant world (ghost ::ₘ rest))
    (allowed : watched.allowsSpawn ghost job) :
    watched.Invariant world
      (ghost.hold .none ::ₘ watched.start job ::ₘ rest) := by
  have stranger {id : String} (known : id ∈ ghost.elsewhere)
      (token : ghost.token = .none) : watched.Invariant world
        (ghost.hold .none ::ₘ { role := .foreign, elsewhere := [id] } ::ₘ
          rest) := by
    refine holds.handTo rfl (by rw [token]) (by rw [token]) trivial rfl ?_
    refine ⟨by simp [Ghost.Unwritten], ?_, by simp⟩
    simpa using holds.own_informed.elsewhere id known
  have runner {locked : Bool} {id : String} {phase : Phase}
      (token : ghost.token = .claim locked id phase)
      (holdsToken : watched.TokenHolds (approvalsOf (ghost ::ₘ rest))
        (world.db.rowsOf watched.slug) (.claim locked id .ready)) :
      watched.Invariant world
        (ghost.hold .none ::ₘ
          { role := .runner id, token := .claim locked id .ready } ::ₘ
          rest) := by
    refine holds.handTo rfl (by rw [token]; rfl) ?_ holdsToken rfl ?_
    · simp [token]
    · exact ⟨by simp [Ghost.Unwritten], by simp, by simp⟩
  cases job with
  | runExecution context retries hook concurrency approval =>
      have handed := allowed.2
      simp only at handed
      simp only [start]
      split at handed
      · rename_i own
        rw [if_pos own]
        have claimed := holds.owned.claimed handed
        exact runner handed ⟨claimed.1, fun _ => rfl⟩
      · rename_i other
        rw [if_neg other]
        exact stranger handed.2 handed.1
  | runDequeued slug execution concurrency approval =>
      have handed := allowed.2
      simp only at handed
      simp only [start]
      split at handed
      · rename_i own
        rw [if_pos own]
        have claimed := holds.owned.claimed handed.2
        refine runner handed.2 ⟨claimed.1.mono ?_, fun _ => ?_⟩
        · intro row taken
          exact ⟨taken.1, by simp [Cleared, handed.1]⟩
        · exact claimed.2 (by simp)
      · rename_i other
        rw [if_neg other]
        exact stranger handed.2 handed.1
  | trigger | approve | reject | replay | expirePendingApprovals
  | reloadConfig => exact allowed.2.elim

end Invariant

end Watched

end Sendword
