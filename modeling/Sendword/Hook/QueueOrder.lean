import Sendword.Hook.QueueMoves
import Sendword.Hook.SingleToken

/-!
# The queue is first in, first out

Entries get increasing positions in the order of their `INSERT`s, leave
`waiting` from the front and only to become `ready`, and each queued
execution is run by at most one task.
-/

namespace Sendword

open Concurrency

/-! ## Positions -/

namespace QueueStatement

theorem position_lt_next {db : Db} {slug : String} {entry : QueueRow}
    (member : entry ∈ (db.rowsOf slug).entries) :
    entry.position < nextPosition db slug := by
  have bound : ∀ (positions : List Nat) (start position : Nat),
      position = start ∨ position ∈ positions →
        position ≤ positions.foldl max start := by
    intro positions
    induction positions with
    | nil =>
        intro start position known
        simpa using le_of_eq (known.resolve_right List.not_mem_nil)
    | cons first positions induction =>
        intro start position known
        rw [List.foldl_cons]
        rcases known with rfl | inside
        · exact (le_max_left position first).trans
            (induction _ _ (.inl rfl))
        · rcases List.mem_cons.mp inside with rfl | later
          · exact (le_max_right start position).trans
              (induction _ _ (.inl rfl))
          · exact induction _ _ (.inr later)
  refine Nat.lt_succ_of_le (bound _ 0 _ (.inr ?_))
  exact List.mem_map_of_mem member

end QueueStatement

/-- What one step does to the entries of a hook. -/
inductive QueueStep (before after : List QueueRow) : Prop where
  | same : after = before → QueueStep before after
  /-- A new entry waits behind all others. -/
  | enqueued (entry : QueueRow) :
      entry.status = .waiting →
      (∀ other ∈ before, other.position < entry.position) →
      after = before ++ [entry] →
      QueueStep before after
  /-- The first entry that waits becomes ready. -/
  | served (front : List QueueRow) (entry : QueueRow)
      (behind : List QueueRow) :
      (∀ other ∈ front, other.status ≠ .waiting) →
      entry.status = .waiting →
      before = front ++ entry :: behind →
      after = front ++ { entry with status := .ready } :: behind →
      QueueStep before after

namespace Watched

variable {watched : Watched} {reliable : Prop}

/-! ## The order of the waiting entries -/

/-- The entries that wait are in the order of their positions, and the entry
that a task is about to serve is the first of them. -/
structure InOrder (rows : HookRows) (ghosts : Multiset Ghost) : Prop where
  increasing : rows.waiting.Pairwise fun first second =>
    first.position < second.position
  front : ∀ ghost ∈ ghosts, ∀ entry, ghost.token.serves = some entry →
    rows.waiting.head?.map (·.id) = some entry

/-- The least item of a list in increasing order is its first. -/
theorem argmin_increasing {Item : Type} (key : Item → Nat)
    {items : List Item}
    (increasing : items.Pairwise fun first second =>
      key first < key second) :
    items.argmin key = items.head? := by
  cases items with
  | nil => rfl
  | cons item items =>
      rw [List.argmin_cons, List.head?_cons]
      cases least : items.argmin key with
      | none => rfl
      | some other =>
          have later := List.rel_of_pairwise_cons increasing
            (List.argmin_mem least)
          exact if_neg (by omega)

theorem lock_of_serves {token : Token} {entry : String}
    (serves : token.serves = some entry) : ∃ id, token.lock = some id := by
  cases token with
  | none | unborn | claim => cases serves
  | taking | succeeding => exact ⟨_, rfl⟩

section Order

variable {world : World} {db other : Db} {ghost after : Ghost}
  {rest : Multiset Ghost}

/-- Only one task serves the queue at a time. -/
theorem serves_alone {approvals : Approvals} {rows : HookRows}
    (owned : watched.Owned approvals rows (ghost ::ₘ rest))
    {entry : String} (serves : ghost.token.serves = some entry) :
    ∀ task ∈ rest, task.token.serves = none := by
  obtain ⟨id, lock⟩ := lock_of_serves serves
  obtain ⟨-, -, unlocked, -⟩ := owned.of_lock id lock
  intro task member
  have noLock := lock_of_lockIds unlocked member
  cases also : task.token.serves with
  | none => rfl
  | some second =>
      obtain ⟨more, locked⟩ := lock_of_serves also
      rw [noLock] at locked
      cases locked

/-- The first waiting entry, in the list of all entries. -/
theorem front_of_waiting {entries : List QueueRow} {entry : QueueRow}
    {more : List QueueRow}
    (waiting : entries.filter (fun row => row.status == .waiting) =
      entry :: more) :
    ∃ front behind : List QueueRow, entries = front ++ entry :: behind ∧
      (∀ row ∈ front, row.status ≠ .waiting) ∧ entry.status = .waiting := by
  obtain ⟨front, behind, parts, before, waits, -⟩ :=
    List.filter_eq_cons_iff.mp waiting
  refine ⟨front, behind, parts, ?_, by simpa using waits⟩
  intro row member
  simpa using before row member

/-- Serving the first waiting entry changes no other. -/
theorem markReady_front {front behind : List QueueRow} {entry : QueueRow}
    (keys : ((front ++ entry :: behind).map (·.id)).Nodup)
    (before : ∀ row ∈ front, row.status ≠ .waiting)
    (waits : entry.status = .waiting) :
    (front ++ entry :: behind).map (QueueUpdate.markReady entry.id).apply =
      front ++ { entry with status := .ready } :: behind := by
  have kept {rows : List QueueRow}
      (unmatched : ∀ row ∈ rows,
        (QueueUpdate.markReady entry.id).matches? row = false) :
      rows.map (QueueUpdate.markReady entry.id).apply = rows := by
    refine (List.map_congr_left fun row member => ?_).trans (List.map_id _)
    simp [QueueUpdate.apply, unmatched row member]
  have served : (QueueUpdate.markReady entry.id).apply entry =
      { entry with status := .ready } := by
    simp [QueueUpdate.apply, QueueUpdate.matches?, QueueUpdate.set, waits]
  rw [List.map_append, List.map_cons, served, kept, kept]
  · intro row member
    simp only [List.map_append, List.map_cons] at keys
    have distinct := (List.nodup_cons.mp (List.nodup_append.mp keys).2.1).1
    have away : row.id ≠ entry.id := fun same =>
      distinct (same ▸ List.mem_map_of_mem member)
    simp [QueueUpdate.matches?, away]
  · intro row member
    simp [QueueUpdate.matches?, before row member]

theorem queueStep_of_move
    (holds : watched.Invariant world (ghost ::ₘ rest))
    (order : InOrder (world.db.rowsOf watched.slug) (ghost ::ₘ rest))
    (move : QueueMove watched world.db other ghost after) :
    QueueStep (world.db.rowsOf watched.slug).entries
      (other.rowsOf watched.slug).entries := by
  cases move with
  | quiet same => exact .same same
  | peeked entry same => exact .same (same ▸ rfl)
  | enqueued entry waits position token released added =>
      refine .enqueued entry waits (fun row member => ?_) added
      exact position ▸ QueueStatement.position_lt_next member
  | served entry execution token became marked =>
      have first := order.front ghost (Multiset.mem_cons_self _ _) entry
        (by rw [token]; rfl)
      cases waiting : (world.db.rowsOf watched.slug).waiting with
      | nil => simp [waiting] at first
      | cons row more =>
          obtain rfl : row.id = entry := by simpa [waiting] using first
          obtain ⟨front, behind, parts, before, waits⟩ :=
            front_of_waiting waiting
          have keys : ((world.db.rowsOf watched.slug).entries.map
              (·.id)).Nodup :=
            holds.keys.queue.sublist (List.filter_sublist.map _)
          refine .served front row behind before waits parts ?_
          rw [marked, parts]
          exact markReady_front (parts ▸ keys) before waits

theorem InOrder.step
    (holds : watched.Invariant world (ghost ::ₘ rest))
    (order : InOrder (world.db.rowsOf watched.slug) (ghost ::ₘ rest))
    (move : QueueMove watched world.db other ghost after) :
    InOrder (other.rowsOf watched.slug) (after ::ₘ rest) := by
  have own := order.front ghost (Multiset.mem_cons_self _ _)
  have others (task : Ghost) (member : task ∈ rest) :=
    order.front task (Multiset.mem_cons_of_mem member)
  cases move with
  | quiet same serves =>
      have waiting : (other.rowsOf watched.slug).waiting =
          (world.db.rowsOf watched.slug).waiting := by
        simp only [HookRows.waiting, same]
      refine ⟨waiting ▸ order.increasing, ?_⟩
      rw [waiting]
      intro task member entry found
      rcases Multiset.mem_cons.mp member with rfl | old
      · rcases serves with none | same
        · rw [none] at found
          cases found
        · exact own entry (same ▸ found)
      · exact others task old entry found
  | peeked entry same least serves =>
      subst same
      refine ⟨order.increasing, ?_⟩
      intro task member second found
      rcases Multiset.mem_cons.mp member with rfl | old
      · rw [serves] at found
        obtain rfl := Option.some.inj found
        rw [← Db.rowsOf_waiting,
          argmin_increasing _ order.increasing] at least
        rw [least]
        rfl
      · exact others task old second found
  | enqueued entry waits position token released added =>
      have waiting : (other.rowsOf watched.slug).waiting =
          (world.db.rowsOf watched.slug).waiting ++ [entry] := by
        simp [HookRows.waiting, added, waits]
      refine ⟨?_, ?_⟩
      · rw [waiting, List.pairwise_append]
        refine ⟨order.increasing, List.pairwise_singleton _ _, ?_⟩
        intro row member last isLast
        obtain rfl := List.mem_singleton.mp isLast
        rw [position]
        exact QueueStatement.position_lt_next (List.mem_of_mem_filter member)
      · rw [waiting]
        intro task member second found
        rcases Multiset.mem_cons.mp member with rfl | old
        · rw [released] at found
          cases found
        · have first := others task old second found
          rw [List.head?_append]
          cases head : (world.db.rowsOf watched.slug).waiting.head? with
          | none => simp [head] at first
          | some row => simpa [head] using first
  | served entry execution token became marked =>
      have serves : ghost.token.serves = some entry := by rw [token]; rfl
      have waiting : (other.rowsOf watched.slug).waiting =
          (world.db.rowsOf watched.slug).waiting.filter fun row =>
            !(QueueUpdate.markReady entry).matches? row := by
        rw [HookRows.waiting, marked, QueueUpdate.waiting_map,
          HookRows.waiting]
      refine ⟨waiting ▸ order.increasing.sublist List.filter_sublist, ?_⟩
      intro task member second found
      rcases Multiset.mem_cons.mp member with rfl | old
      · rw [became] at found
        cases found
      · rw [serves_alone holds.owned serves task old] at found
        cases found

end Order

/-! ## One run an execution -/

/-- The execution has an owner, or waits in the queue. -/
def Live (watched : Watched) (db : Db) (ghosts : Multiset Ghost)
    (id : String) : Prop :=
  id ∈ ownedIds ghosts ∨ id ∈ (db.rowsOf watched.slug).waitingIds

/-- Every execution is run by one task at most; once that task has passed the
lock on, nobody owns the execution any more and it does not wait. -/
structure Once (watched : Watched) (world : World)
    (ghosts : Multiset Ghost) : Prop where
  distinct : (ghosts.filterMap fun ghost => ghost.role.runs?).Nodup
  running : ∀ ghost ∈ ghosts, ∀ id, ghost.role = .runner id →
    id ∈ world.issued ∧
      (Running id ghost.token ∨ ¬ watched.Live world.db ghosts id)

theorem runs?_start (watched : Watched) (job : Job) :
    (watched.start job).role.runs? = job.runs? watched.slug := by
  cases job with
  | trigger request =>
      simp only [start, Job.runs?]
      split <;> rfl
  | runExecution context retries hook concurrency approval =>
      simp only [start, Job.runs?]
      split <;> rfl
  | runDequeued slug execution concurrency approval =>
      simp only [start, Job.runs?]
      split <;> rfl
  | approve | reject | replay | expirePendingApprovals | reloadConfig => rfl

section Once

variable {world state : World} {db other : Db} {ghost after : Ghost}
  {rest forked : Multiset Ghost} {id : String}

/-- Only the execution that its task enqueues starts to wait. -/
theorem waiting_of_move (move : QueueMove watched db other ghost after)
    (waits : id ∈ (other.rowsOf watched.slug).waitingIds) :
    id ∈ (db.rowsOf watched.slug).waitingIds ∨
      ghost.token = .claim false id .queued := by
  cases move with
  | quiet same =>
      left
      simpa only [HookRows.waitingIds, HookRows.waiting, same] using waits
  | peeked entry same => exact .inl (same ▸ waits)
  | enqueued entry isWaiting position token released added =>
      simp only [HookRows.waitingIds, HookRows.waiting, added,
        List.filter_append, List.map_append, Multiset.mem_coe,
        List.mem_append] at waits
      rcases waits with old | new
      · exact .inl (Multiset.mem_coe.mpr old)
      · have named : entry.executionId = id := by
          simpa [isWaiting, eq_comm] using new
        exact .inr (named ▸ token)
  | served entry execution token became marked =>
      left
      rw [HookRows.waitingIds, HookRows.waiting, marked,
        QueueUpdate.waiting_map] at waits
      obtain ⟨row, member, rfl⟩ :=
        List.mem_map.mp (Multiset.mem_coe.mp waits)
      exact Multiset.mem_coe.mpr
        (List.mem_map_of_mem (List.mem_of_mem_filter member))

/-- A child owns what its parent owned. -/
theorem owned_forked {op : Op} {outside : Outside}
    (allowed : watched.allows ghost op) :
    ∀ child ∈ (watched.discipline reliable outside).forkedGhosts op,
      ∀ id ∈ child.owned, id ∈ ghost.owned := by
  intro child forked id own
  cases op with
  | spawn job =>
      obtain rfl : child = watched.start job := by
        simpa [Discipline.forkedGhosts, server, forks, discipline]
          using forked
      have handed := allowed.2
      cases job with
      | runExecution context retries hook concurrency approval =>
          simp only [start] at own handed
          split at handed
          · rename_i ours
            rw [if_pos ours] at own
            rw [mem_owned] at own ⊢
            rw [handed]
            exact .inr (own.resolve_left (by simp))
          · rename_i other
            rw [if_neg other, mem_owned] at own
            simp at own
      | runDequeued slug execution concurrency approval =>
          simp only [start] at own handed
          split at handed
          · rename_i ours
            rw [if_pos ours] at own
            rw [mem_owned] at own ⊢
            rw [handed.2]
            exact .inr (own.resolve_left (by simp))
          · rename_i other
            rw [if_neg other, mem_owned] at own
            simp at own
      | trigger | approve | reject | replay | expirePendingApprovals
      | reloadConfig => exact handed.elim
  | sql | now | newId | loadConfig | storeConfig | prepareLogFiles
  | runProcess | sendRequest | sleep | appendRetryMarker
  | sendNotification =>
      simp [Discipline.forkedGhosts, server, forks] at forked

theorem live_of_owned {ghosts : Multiset Ghost} (member : ghost ∈ ghosts)
    (own : id ∈ ghost.owned) : watched.Live db ghosts id :=
  .inl (Multiset.mem_bind.mpr ⟨ghost, member, own⟩)

/-- An execution that nobody owns and that does not wait stays so. -/
theorem Live.of_step
    (holds : watched.Invariant world (ghost ::ₘ rest))
    (move : QueueMove watched world.db other ghost after)
    (owned : ∀ id ∈ after.owned, id ∈ ghost.owned ∨ id ∉ world.issued ∨
      ∃ entry, ghost.token = .succeeding entry id)
    (children : ∀ child ∈ forked, ∀ id ∈ child.owned, id ∈ ghost.owned)
    (issued : id ∈ world.issued)
    (live : watched.Live other (after ::ₘ (forked + rest)) id) :
    watched.Live world.db (ghost ::ₘ rest) id := by
  have own {id : String} (member : id ∈ ghost.owned) :
      watched.Live world.db (ghost ::ₘ rest) id :=
    live_of_owned (Multiset.mem_cons_self _ _) member
  rcases live with owned' | waits
  · obtain ⟨task, member, inOwned⟩ := Multiset.mem_bind.mp owned'
    rcases Multiset.mem_cons.mp member with rfl | others
    · rcases owned id inOwned with before | new | ⟨entry, token⟩
      · exact own before
      · exact (new issued).elim
      · have waits := holds.owned.tokens ghost (Multiset.mem_cons_self _ _)
        rw [token] at waits
        obtain ⟨queued, inQueue, -, rfl⟩ := waits
        exact .inr (Multiset.mem_coe.mpr (List.mem_map_of_mem inQueue))
    · rcases Multiset.mem_add.mp others with child | old
      · exact own (children task child id inOwned)
      · exact live_of_owned (Multiset.mem_cons_of_mem old) inOwned
  · rcases waiting_of_move move waits with before | token
    · exact .inr before
    · exact own (mem_owned.mpr (.inr (by rw [token]; rfl)))

theorem alone_of_running
    (holds : watched.Invariant world (ghost ::ₘ rest))
    (running : Running id ghost.token) :
    ghost.fresh ≠ some id ∧ id ∉ ownedIds rest ∧
      id ∉ (world.db.rowsOf watched.slug).waitingIds := by
  have token := owned_of_running running
  have own := mem_owned.mpr (.inr token)
  obtain ⟨others, waits, -⟩ := holds.owned.own_alone own
  refine ⟨?_, others, waits⟩
  intro fresh
  have distinct := holds.owned.distinct
  rw [ownedIds_cons, add_assoc, add_assoc, Multiset.nodup_add] at distinct
  have twice := distinct.1
  simp [Ghost.owned, fresh, token] at twice

/-- A run that is given up leaves its execution to nobody. -/
theorem not_live_of_givesUp
    (holds : watched.Invariant world (ghost ::ₘ rest))
    (move : QueueMove watched world.db other ghost after)
    (running : Running id ghost.token) (given : GivesUp ghost after) :
    ¬ watched.Live other (after ::ₘ rest) id := by
  obtain ⟨notFresh, notOthers, notWaiting⟩ := alone_of_running holds running
  rintro (owned | waits)
  · rw [ownedIds_cons, Multiset.mem_add] at owned
    refine owned.elim (fun own => ?_) notOthers
    rw [mem_owned, given.1, given.2] at own
    exact own.elim notFresh (by simp)
  · rcases waiting_of_move move waits with before | token
    · exact notWaiting before
    · rw [token] at running
      simp [Running] at running

/-- No other task was started to run what a task is about to start. -/
theorem Once.unstarted {job : Job}
    (once : Once watched world (ghost ::ₘ rest))
    (holds : watched.Invariant world (ghost ::ₘ rest))
    (starts : ghost.role.runs? ≠ none → ¬ startsRun (.spawn job))
    (allowed : watched.allowsSpawn ghost job)
    (token : ghost.token.owned = some id) :
    ∀ task ∈ ghost ::ₘ rest, task.role ≠ .runner id := by
  intro task member role
  have own : id ∈ ghost.owned := mem_owned.mpr (.inr token)
  have running : Running id task.token := by
    refine (once.running task member id role).2.resolve_right fun dead => ?_
    exact dead (live_of_owned (Multiset.mem_cons_self _ _) own)
  rcases Multiset.mem_cons.mp member with rfl | other
  · have isRunner : task.role.runs? ≠ none := by simp [role, Role.runs?]
    exact running_spawn running (starts isRunner) allowed
  · refine (holds.owned.own_alone own).1 (Multiset.mem_bind.mpr
      ⟨task, other, mem_owned.mpr (.inr (owned_of_running running))⟩)

/-- A task that joins and, if it runs an execution, is the first to. -/
def Joins (world : World) (ghosts : Multiset Ghost) (child : Ghost) : Prop :=
  ∀ id, child.role = .runner id →
    id ∈ world.issued ∧ Running id child.token ∧
      ∀ task ∈ ghosts, task.role ≠ .runner id

theorem once_spawn {job : Job}
    (once : Once watched world (ghost ::ₘ rest))
    (holds : watched.Invariant world (ghost ::ₘ rest))
    (starts : ghost.role.runs? ≠ none → ¬ startsRun (.spawn job))
    (allowed : watched.allowsSpawn ghost job) :
    Joins world (ghost ::ₘ rest) (watched.start job) := by
  have handed := allowed.2
  have claimed {own : String} {locked : Bool} {phase : Phase}
      (token : ghost.token = .claim locked own phase) :
      own ∈ world.issued ∧
        ∀ task ∈ ghost ::ₘ rest, task.role ≠ .runner own := by
    refine ⟨holds.own_issued own (Owned.token_of_owned token), ?_⟩
    exact once.unstarted holds starts allowed (by rw [token]; rfl)
  intro id role
  cases job with
  | runExecution context retries hook concurrency approval =>
      simp only [start] at role handed ⊢
      split at handed
      · rename_i ours
        rw [if_pos ours] at role ⊢
        cases role
        obtain ⟨issued, first⟩ := claimed handed
        exact ⟨issued, ⟨rfl, .inl rfl⟩, first⟩
      · rename_i other
        rw [if_neg other] at role
        cases role
  | runDequeued slug execution concurrency approval =>
      simp only [start] at role handed ⊢
      split at handed
      · rename_i ours
        rw [if_pos ours] at role ⊢
        cases role
        obtain ⟨issued, first⟩ := claimed handed.2
        exact ⟨issued, ⟨rfl, .inl rfl⟩, first⟩
      · rename_i other
        rw [if_neg other] at role
        cases role
  | trigger | approve | reject | replay | expirePendingApprovals
  | reloadConfig => exact handed.elim

/-- One step of one task, with the tasks it starts. -/
theorem Once.step {op : Op} {choice : Choice} {answer : op.Answer}
    (once : Once watched world (ghost ::ₘ rest))
    (holds : watched.Invariant world (ghost ::ₘ rest))
    (undecided : ghost.role ≠ .decider)
    (starts : ghost.role.runs? ≠ none → ¬ startsRun op)
    (allowed : watched.allows ghost op)
    (performed : perform op choice world = some (answer, state))
    (moved : watched.moves reliable ghost op answer after)
    (sameRole : after.role = ghost.role)
    (joins : ∀ child ∈ forked, Joins world (ghost ::ₘ rest) child)
    (few : (forked.filterMap fun child => child.role.runs?).Nodup)
    (children : ∀ child ∈ forked, ∀ id ∈ child.owned, id ∈ ghost.owned)
    (alone : forks op = none → forked = 0) :
    Once watched state (after ::ₘ (forked + rest)) where
  distinct := by
    have before := once.distinct
    have runs : (after ::ₘ (forked + rest)).filterMap
          (fun task => task.role.runs?) =
        forked.filterMap (fun task => task.role.runs?) +
          (ghost ::ₘ rest).filterMap fun task => task.role.runs? := by
      simp only [Multiset.filterMap_cons, Multiset.filterMap_add, sameRole]
      abel
    rw [runs, Multiset.nodup_add]
    refine ⟨few, before, Multiset.disjoint_left.mpr ?_⟩
    intro id inForked started
    obtain ⟨child, isChild, own⟩ := (Multiset.mem_filterMap _ _).mp inForked
    obtain ⟨task, member, same⟩ := (Multiset.mem_filterMap _ _).mp started
    exact (joins child isChild id (Role.runs?_eq.mp own)).2.2 task member
      (Role.runs?_eq.mp same)
  running := by
    have move := queueMove_of_step holds allowed performed moved
    have kept {id : String} (issued : id ∈ world.issued)
        (dead : ¬ watched.Live world.db (ghost ::ₘ rest) id) :
        ¬ watched.Live state.db (after ::ₘ (forked + rest)) id :=
      fun live => dead (Live.of_step holds move
        (owned_moves undecided allowed performed moved) children issued live)
    intro task member id role
    rcases Multiset.mem_cons.mp member with rfl | others
    · rw [sameRole] at role
      obtain ⟨issued, runs⟩ :=
        once.running ghost (Multiset.mem_cons_self _ _) id role
      refine ⟨perform_issued performed id issued, ?_⟩
      rcases runs with running | dead
      · have isRunner : ghost.role.runs? ≠ none := by
          simp [role, Role.runs?]
        refine (running_moves running (starts isRunner) allowed
          moved).imp_right ?_
        rintro ⟨given, single⟩
        rw [alone single, zero_add]
        exact not_live_of_givesUp holds move running given
      · exact .inr (kept issued dead)
    · rcases Multiset.mem_add.mp others with child | old
      · obtain ⟨issued, running, -⟩ := joins task child id role
        exact ⟨perform_issued performed id issued, .inl running⟩
      · obtain ⟨issued, runs⟩ :=
          once.running task (Multiset.mem_cons_of_mem old) id role
        exact ⟨perform_issued performed id issued,
          runs.imp_right (kept issued)⟩

end Once

/-! ## Runs of the server -/

section Bodies

attribute [local simp] nowUtc Sendword.newId Sendword.loadConfig
  Sendword.spawn sql Program.op startsRun

theorem avoids_release (slug : String) :
    (release slug).Avoids startsRun := by
  simp [release]

theorem avoids_onExecutionComplete (slug : String)
    (concurrency : Option ConcurrencyConfig)
    (approval : Option ApprovalConfig) :
    (onExecutionComplete slug concurrency approval).Avoids startsRun := by
  refine (onExecutionComplete_ofCompletion ..).mono fun op starts => ?_
  intro ofCompletion
  unfold startsRun at starts
  split at starts
  · exact ofCompletion
  · exact starts

/-- The code of a run starts no run but the one it dequeues. -/
theorem avoids_body {outside : Outside} {job : Job} {slug : String}
    (runs : job.runs? slug ≠ none) :
    (taskBody outside job).Avoids startsRun := by
  have runner (context : ExecutionContext)
      (retries : EffectiveRetryConfig) :
      (runWithRetries context retries).Avoids startsRun :=
    (avoids_runWithRetries context retries).mono fun op starts => by
      cases op <;> simp_all [Op.givesUp]
  have notified (hook : HookConfig) (id : String)
      (result : ExecutionResult) :
      (notify outside hook id result).Avoids startsRun :=
    (avoids_notify outside hook id result).mono fun op starts => by
      cases op <;> simp_all [Op.givesUp]
  cases job with
  | runExecution context retries hook concurrency approval =>
      refine Program.Avoids.bind ?_ fun _ => trivial
      refine (runner context retries).bind fun result => ?_
      refine (notified hook _ result).bind fun _ => ?_
      split
      · exact avoids_onExecutionComplete ..
      · trivial
  | runDequeued hookSlug executionId concurrency approval =>
      refine Program.Avoids.bind ?_ fun _ => trivial
      refine Program.Avoids.bind (by simp [getById]) fun found => ?_
      cases found with
      | error error => exact (avoids_release hookSlug).bind fun _ => trivial
      | ok exec =>
          refine Program.Avoids.bind (by simp) fun config => ?_
          split
          · exact (avoids_release hookSlug).bind fun _ => trivial
          · refine (runner _ _).bind fun result => ?_
            exact (notified _ _ result).bind fun _ =>
              avoids_onExecutionComplete ..
  | trigger | approve | reject | replay | expirePendingApprovals
  | reloadConfig => exact (runs rfl).elim

end Bodies

/-- The invariant of a run of triggers, runs and completions. -/
structure Queued (watched : Watched) (world : World)
    (ghosts : Multiset Ghost) : Prop where
  holds : watched.Holds (fun role => role ≠ .decider ∧ role ≠ .replay) world
    ghosts
  order : InOrder (world.db.rowsOf watched.slug) ghosts
  once : Once watched world ghosts

/-- Triggers arrive, and no run starts another. -/
def runsStartNone (slug : String) (pool : ServerPool) (label : ServerLabel) :
    Prop :=
  onlyTriggers label = true ∧
    ∀ (index : Nat) choice job trace op, label = .advance index choice →
      pool.next? index = some (job, trace, op) →
      job.runs? slug ≠ none → ¬ startsRun op

variable {outside : Outside} {start pool : ServerPool}

theorem serves_start (watched : Watched) (job : Job) :
    (watched.start job).token.serves = none := by
  cases job with
  | runExecution context retries hook concurrency approval =>
      simp only [Watched.start]
      split <;> rfl
  | runDequeued slug execution concurrency approval =>
      simp only [Watched.start]
      split <;> rfl
  | trigger | approve | reject | replay | expirePendingApprovals
  | reloadConfig => rfl

theorem InOrder.join {rows : HookRows} {ghosts forked : Multiset Ghost}
    (order : InOrder rows ghosts)
    (idle : ∀ child ∈ forked, child.token.serves = none) :
    InOrder rows (forked + ghosts) := by
  refine ⟨order.increasing, ?_⟩
  intro task member entry serves
  rcases Multiset.mem_add.mp member with child | old
  · rw [idle task child] at serves
    cases serves
  · exact order.front task old entry serves

/-- The children of an operation: at most the job it starts. -/
theorem mem_forked {op : Op} {child : Ghost}
    (member : child ∈ (watched.discipline reliable outside).forkedGhosts op) :
    ∃ job, op = .spawn job ∧ child = watched.start job := by
  cases op with
  | spawn job =>
      refine ⟨job, rfl, ?_⟩
      simpa [Discipline.forkedGhosts, server, forks, discipline] using member
  | sql | now | newId | loadConfig | storeConfig | prepareLogFiles
  | runProcess | sendRequest | sleep | appendRetryMarker
  | sendNotification =>
      simp [Discipline.forkedGhosts, server, forks] at member

theorem queued_preserves :
    (watched.discipline False outside).Preserves
      (runsStartNone watched.slug) (Queued watched) := by
  intro pool index job trace op next choice answer state ghost rest admitted
    found linked allowed performed queued
  obtain ⟨after, moved, holds⟩ := preserves onlyTriggers_conduct pool index
    job trace op next choice answer state ghost rest admitted.1 found linked
    allowed performed queued.holds
  have move := queueMove_of_step queued.holds.1 allowed performed moved
  have relinked := link_moves linked allowed moved
  have sameRole : after.role = ghost.role :=
    relinked.role.trans linked.role.symm
  have undecided : ghost.role ≠ .decider :=
    (queued.holds.2 ghost (Multiset.mem_cons_self _ _)).1.1
  have starts : ghost.role.runs? ≠ none → ¬ startsRun op := by
    intro runner
    rw [linked.role, runs?_start] at runner
    exact admitted.2 index choice job trace op rfl (Pool.next?_eq found)
      runner
  refine ⟨after, moved, holds, ?_, ?_⟩
  · have stepped := queued.order.step queued.holds.1 move
    rw [← Multiset.add_cons]
    refine stepped.join fun child forked => ?_
    obtain ⟨job, rfl, rfl⟩ := mem_forked forked
    exact serves_start watched job
  · refine queued.once.step queued.holds.1 undecided starts allowed performed
      moved sameRole ?_ ?_ (owned_forked allowed) ?_
    · intro child forked
      obtain ⟨job, rfl, rfl⟩ := mem_forked forked
      exact once_spawn queued.once queued.holds.1 starts allowed
    · rw [Multiset.filterMap_coe, Multiset.coe_nodup]
      simp only [Discipline.forkedGhosts]
      cases (server outside).forks op with
      | none => exact List.nodup_nil
      | some job =>
          rw [Option.map_some, Option.toList_some, List.filterMap_cons]
          split <;> simp
    · intro single
      simp [Discipline.forkedGhosts, server, single]

theorem queued_admits :
    (watched.discipline False outside).Admits
      (runsStartNone watched.slug) (Queued watched) := by
  intro pool job ghosts admitted queued
  obtain ⟨covered, holds⟩ :=
    @arrives watched False _ _ outside onlyTriggers_conduct pool job ghosts
      admitted.1 queued.holds
  have noRun : (watched.start job).role.runs? = none := by
    rw [runs?_start]
    cases job with
    | trigger | approve | reject | replay | expirePendingApprovals
    | reloadConfig => rfl
    | runExecution | runDequeued => cases admitted.1
  have nothing : (watched.start job).owned = 0 := by
    cases job with
    | trigger | approve | reject | replay | expirePendingApprovals
    | reloadConfig => rfl
    | runExecution | runDequeued => cases admitted.1
  refine ⟨covered, holds, ?_, ?_, ?_⟩
  · rw [← Multiset.singleton_add]
    refine queued.order.join fun child isStart => ?_
    rw [Multiset.mem_singleton.mp isStart]
    exact serves_start watched job
  · change (Multiset.filterMap _ (watched.start job ::ₘ ghosts)).Nodup
    rw [Multiset.filterMap_cons, noRun]
    simpa using queued.once.distinct
  · intro task member id role
    rcases Multiset.mem_cons.mp member with rfl | old
    · change (watched.start job).role = .runner id at role
      rw [role] at noRun
      cases noRun
    · obtain ⟨issued, runs⟩ := queued.once.running task old id role
      refine ⟨issued, runs.imp_right fun dead live => dead ?_⟩
      refine live.imp_left fun owned => ?_
      change id ∈ ownedIds (watched.start job ::ₘ ghosts) at owned
      rw [ownedIds_cons, nothing, zero_add] at owned
      exact owned

/-- In every reached state the queue is in order and every execution has one
run at most. -/
theorem reaches_queued (empty : start.tasks = [])
    (idle : watched.Idle start.state)
    (reached : (server outside).Reaches
      (fun _ label => onlyTriggers label = true) start pool) :
    ∃ ghosts : List Ghost,
      (watched.discipline False outside).Covers pool ghosts ∧
        Queued watched pool.state ghosts := by
  have strong : (server outside).Reaches (runsStartNone watched.slug) start
      pool := by
    refine reached.strengthen fun pool label before admitted => ?_
    refine ⟨admitted, ?_⟩
    rintro index choice job trace op rfl found runs
    obtain ⟨task, taskFound, atOp⟩ := Option.bind_eq_some_iff.mp found
    obtain ⟨first, performs, same⟩ := Option.map_eq_some_iff.mp atOp
    cases same
    have follows := before.follows empty task (List.mem_of_getElem? taskFound)
    have avoids := (follows.avoids (avoids_body runs)).1
    cases program : task.program with
    | pure value => simp [program] at performs
    | perform op next =>
        rw [program] at performs avoids
        cases performs
        exact avoids.1
  refine Discipline.reaches_invariant lawful queued_admits queued_preserves
    empty ⟨⟨idle.invariant, by simp⟩, ?_, ?_⟩ strong
  · refine ⟨?_, by simp⟩
    rw [Db.rowsOf_waiting, idle.nothingWaits]
    exact List.Pairwise.nil
  · exact ⟨Multiset.nodup_zero, by simp⟩

/-- The entries that joined a queue stand behind the old ones in increasing
position; none has expired, and what waits stands behind what was served. -/
structure Appended (old news : List QueueRow) : Prop where
  behind : ∀ first ∈ old, ∀ second ∈ news, first.position < second.position
  increasing : news.Pairwise fun first second =>
    first.position < second.position
  inTurn : news.Pairwise fun first second =>
    first.status = .waiting → second.status = .waiting
  status : ∀ entry ∈ news, entry.status = .waiting ∨ entry.status = .ready

theorem Appended.enqueue {old news : List QueueRow} {entry : QueueRow}
    (appended : Appended old news) (waits : entry.status = .waiting)
    (last : ∀ other ∈ old ++ news, other.position < entry.position) :
    Appended old (news ++ [entry]) where
  behind := by
    intro first inOld second inNews
    rcases List.mem_append.mp inNews with before | new
    · exact appended.behind first inOld second before
    · rw [List.mem_singleton.mp new]
      exact last first (List.mem_append_left _ inOld)
  increasing := by
    rw [List.pairwise_append]
    refine ⟨appended.increasing, List.pairwise_singleton _ _, ?_⟩
    intro first before second new
    rw [List.mem_singleton.mp new]
    exact last first (List.mem_append_right _ before)
  inTurn := by
    rw [List.pairwise_append]
    refine ⟨appended.inTurn, List.pairwise_singleton _ _, ?_⟩
    intro first _ second new _
    rw [List.mem_singleton.mp new]
    exact waits
  status := by
    intro other member
    rcases List.mem_append.mp member with before | new
    · exact appended.status other before
    · rw [List.mem_singleton.mp new]
      exact .inl waits

theorem Appended.serve {old front behind : List QueueRow} {entry : QueueRow}
    (appended : Appended old (front ++ entry :: behind))
    (before : ∀ other ∈ front, other.status ≠ .waiting) :
    Appended old (front ++ { entry with status := .ready } :: behind) := by
  have positions : (front ++ { entry with status := .ready } :: behind).map
        (·.position) =
      (front ++ entry :: behind).map (·.position) := by
    simp
  refine ⟨?_, ?_, ?_, ?_⟩
  · intro first inOld second member
    have inPositions := List.mem_map_of_mem
      (f := fun row : QueueRow => row.position) member
    rw [positions] at inPositions
    obtain ⟨kept, keptMember, same⟩ := List.mem_map.mp inPositions
    exact same ▸ appended.behind first inOld kept keptMember
  · have increasing := List.pairwise_map.mpr appended.increasing
    rw [← positions] at increasing
    exact List.pairwise_map.mp increasing
  · have waiting := List.pairwise_append.mp appended.inTurn
    rw [List.pairwise_append, List.pairwise_cons]
    refine ⟨waiting.1, ⟨?_, (List.pairwise_cons.mp waiting.2.1).2⟩, ?_⟩
    · intro other _ isWaiting
      cases isWaiting
    · intro first inFront other _ isWaiting
      exact (before first inFront isWaiting).elim
  · intro other member
    rcases List.mem_append.mp member with inFront | rest
    · exact appended.status other (List.mem_append_left _ inFront)
    · rcases List.mem_cons.mp rest with rfl | inBehind
      · exact .inr rfl
      · exact appended.status other
          (List.mem_append_right _ (List.mem_cons_of_mem _ inBehind))

theorem Appended.step {old news after : List QueueRow}
    (appended : Appended old news)
    (served : ∀ entry ∈ old, entry.status ≠ .waiting)
    (step : QueueStep (old ++ news) after) :
    ∃ more, after = old ++ more ∧ Appended old more := by
  cases step with
  | same equality => exact ⟨news, equality, appended⟩
  | enqueued entry waits last added =>
      exact ⟨news ++ [entry], by rw [added, List.append_assoc],
        appended.enqueue waits last⟩
  | served front entry behind before waits parts became =>
      rcases List.append_eq_append_iff.mp parts with
        ⟨inside, rfl, rfl⟩ | ⟨inside, rfl, atEntry⟩
      · refine ⟨_, by rw [became, List.append_assoc],
          appended.serve fun other member => ?_⟩
        exact before other (List.mem_append_right _ member)
      · cases inside with
        | nil =>
            simp only [List.nil_append, List.append_nil] at *
            subst atEntry
            refine ⟨_, became, ?_⟩
            exact @Appended.serve _ [] _ _ appended (by simp)
        | cons first others =>
            obtain rfl : entry = first := by
              simpa using congrArg List.head? atEntry
            exact (served entry (by simp) waits).elim

theorem queueStep_of_reached (empty : start.tasks = [])
    (idle : watched.Idle start.state)
    (reached : (server outside).Reaches
      (fun _ label => onlyTriggers label = true) start pool)
    {label : ServerLabel} {target : ServerPool}
    (admitted : onlyTriggers label = true)
    (taken : (server outside).step pool label = some target) :
    QueueStep (pool.state.db.rowsOf watched.slug).entries
      (target.state.db.rowsOf watched.slug).entries := by
  cases label with
  | arrive job =>
      obtain rfl : { pool with
          tasks := pool.tasks ++ [(server outside).launch job] } =
          target := by simpa [Machine.step] using taken
      exact .same rfl
  | advance index choice =>
      obtain ⟨job, trace, op, next, answer, state, found, performed, rfl⟩ :=
        Machine.step_advance taken
      obtain ⟨ghosts, covers, queued⟩ := reaches_queued empty idle reached
      obtain ⟨ghost, -, parts, linked, obeys⟩ := covers.pick found
      rw [parts] at queued
      obtain ⟨after, moved, -⟩ := preserves onlyTriggers_conduct pool index
        job trace op next choice answer state ghost _ admitted found linked
        obeys.1 performed queued.holds
      exact queueStep_of_move queued.holds.1 queued.order
        (queueMove_of_step queued.holds.1 obeys.1 performed moved)

theorem reaches_appended (empty : start.tasks = [])
    (idle : watched.Idle start.state)
    (reached : (server outside).Reaches
      (fun _ label => onlyTriggers label = true) start pool) :
    ∃ news, (pool.state.db.rowsOf watched.slug).entries =
        (start.state.db.rowsOf watched.slug).entries ++ news ∧
      Appended (start.state.db.rowsOf watched.slug).entries news := by
  induction reached with
  | refl =>
      refine ⟨[], by simp, ?_⟩
      exact ⟨by simp, List.Pairwise.nil, List.Pairwise.nil, by simp⟩
  | step before admitted taken induction =>
      obtain ⟨news, parts, appended⟩ := induction
      have step := queueStep_of_reached empty idle before admitted taken
      rw [parts] at step
      refine appended.step ?_ step
      intro entry member waits
      have inWaiting : entry ∈ start.state.db.waiting watched.slug := by
        rw [← Db.rowsOf_waiting]
        exact List.mem_filter.mpr ⟨member, by simp [waits]⟩
      rw [idle.nothingWaits] at inWaiting
      cases inWaiting

/-- In every state that triggers, runs and completions reach: the entries
that joined the hook's queue have positions that increase in the order of
their `INSERT`s; every further step leaves the entries alone, adds one at the
end or makes the first waiting one ready; every execution is run by one task
at most; and what waits is pending and run by none. -/
theorem queue_order (watched : Watched) (empty : start.tasks = [])
    (idle : watched.Idle start.state)
    (reached : (server outside).Reaches
      (fun _ label => onlyTriggers label = true) start pool) :
    (∃ news, (pool.state.db.rowsOf watched.slug).entries =
        (start.state.db.rowsOf watched.slug).entries ++ news ∧
      Appended (start.state.db.rowsOf watched.slug).entries news) ∧
    (∀ label target, onlyTriggers label = true →
      (server outside).step pool label = some target →
      QueueStep (pool.state.db.rowsOf watched.slug).entries
        (target.state.db.rowsOf watched.slug).entries) ∧
    (pool.tasks.filterMap (·.job.runs? watched.slug)).Nodup ∧
    ∀ entry ∈ pool.state.db.waiting watched.slug,
      (∃ row, pool.state.db.execution? entry.executionId = some row ∧
        row.status = .pending) ∧
      ∀ task ∈ pool.tasks,
        task.job.runs? watched.slug ≠ some entry.executionId := by
  obtain ⟨ghosts, covers, queued⟩ := reaches_queued empty idle reached
  have runs : pool.tasks.map (·.job.runs? watched.slug) =
      ghosts.map (·.role.runs?) := by
    refine covers.map_eq _ _ fun task ghost linked _ => ?_
    rw [linked.role, runs?_start]
  refine ⟨reaches_appended empty idle reached,
    fun label target admitted taken =>
      queueStep_of_reached empty idle reached admitted taken, ?_, ?_⟩
  · have filtered := congrArg (List.filterMap id) runs
    have once := queued.once.distinct
    rw [Multiset.filterMap_coe, Multiset.coe_nodup] at once
    simp only [List.filterMap_map, Function.id_comp] at filtered
    exact (show _ = _ from filtered) ▸ once
  · intro entry member
    rw [← Db.rowsOf_waiting] at member
    obtain ⟨row, inRows, sameId, pending, -⟩ :=
      queued.holds.1.owned.waiting entry member
    have found := queued.holds.1.keys.execution?_eq
      (Db.mem_records.mp inRows).1
    refine ⟨⟨row, sameId ▸ found, pending⟩, ?_⟩
    intro task inTasks started
    obtain ⟨index, taskFound⟩ := List.getElem?_of_mem inTasks
    obtain ⟨ghost, -, parts, linked, -⟩ := covers.pick taskFound
    rw [← runs?_start, ← linked.role, Role.runs?_eq] at started
    rw [parts] at queued
    have waits : entry.executionId ∈
        (pool.state.db.rowsOf watched.slug).waitingIds :=
      Multiset.mem_coe.mpr (List.mem_map_of_mem member)
    rcases (queued.once.running ghost (Multiset.mem_cons_self _ _) _
      started).2 with running | dead
    · exact (alone_of_running queued.holds.1 running).2.2 waits
    · exact dead (.inr waits)

end Watched

/-- After the hand-off of the first run, a third trigger is queued. -/
def thirdQueuedSchedule : List ServerLabel :=
  handOffSchedule ++ .arrive (.trigger { slug := "deploy" }) ::
    (steps 4 1 ++ stepWithId 4 "third" ++ steps 4 6 ++
      stepWithId 4 "later" ++ steps 4 3)

def thirdQueued : ServerPool :=
  ((server .accepting).run (fun _ => onlyTriggers)
    (Watched.only queuedDeploy).started thirdQueuedSchedule).get (by decide)

theorem queue_order_thirdQueued :
    (∃ news, (thirdQueued.state.db.rowsOf "deploy").entries = news ∧
      Watched.Appended [] news) ∧
    (thirdQueued.tasks.filterMap (·.job.runs? "deploy")).Nodup ∧
    (thirdQueued.state.db.rowsOf "deploy").entries.map
        (fun entry => (entry.executionId, entry.position, entry.status)) =
      [("second", 1, .ready), ("third", 2, .waiting)] ∧
    thirdQueued.tasks.filterMap (·.job.runs? "deploy") =
      ["first", "second"] := by
  have reached : (server .accepting).Reaches
      (fun _ label => onlyTriggers label = true)
      (Watched.only queuedDeploy).started thirdQueued :=
    .of_run .refl (Option.some_get _).symm
  have holds := Watched.queue_order (.only queuedDeploy) rfl
    (Watched.idle_started _) reached
  exact ⟨holds.1, holds.2.2.1, by decide, by decide⟩

end Sendword
