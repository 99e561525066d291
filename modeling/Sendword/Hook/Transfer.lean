import Sendword.Hook.Ownership

/-!
# Transfers of ownership

How each statement of the pipeline moves records, the lock and queue entries
between the tasks, and that the ownership invariant goes with them.
-/

namespace Sendword

namespace HookRows

theorem Has.congr {rows other : HookRows} {id : String}
    {described : Execution → Prop}
    (has : rows.Has id described) (records : other.records = rows.records) :
    other.Has id described := by
  simpa only [Has, records] using has

/-- A new record keeps what is known of the old ones. -/
theorem Has.insert {rows other : HookRows} {id : String} {row : Execution}
    {described : Execution → Prop}
    (has : rows.Has id described)
    (records : other.records = rows.records ++ [row]) :
    other.Has id described := by
  obtain ⟨found, member, sameId, holds⟩ := has
  refine ⟨found, ?_, sameId, holds⟩
  rw [records]
  exact List.mem_append_left _ member

theorem parkedIds_insert {rows other : HookRows} {row : Execution}
    (records : other.records = rows.records ++ [row]) :
    other.parkedIds = rows.parkedIds + parkedId row := by
  have split : (other.records : Multiset Execution) =
      rows.records + {row} := by
    rw [records, ← Multiset.coe_singleton, Multiset.coe_add]
  rw [parkedIds, parkedIds, split, Multiset.filter_add, Multiset.map_add,
    Multiset.filter_singleton, parkedId]
  split <;> simp

end HookRows

namespace Watched

variable {watched : Watched} {approvals : Approvals}
  {rows other : HookRows} {ghost after : Ghost} {rest : Multiset Ghost}

/-- What a token that does not own the lock says of the rows depends on the
records only. -/
theorem TokenHolds.congr {token : Token}
    (holds : watched.TokenHolds approvals rows token)
    (records : other.records = rows.records)
    (waits : token.lock = none ∨ ∀ entry execution,
      rows.Waits entry execution → other.Waits entry execution) :
    watched.TokenHolds approvals other token := by
  cases token with
  | none | unborn => trivial
  | claim locked id phase => exact ⟨holds.1.congr records, holds.2⟩
  | taking id phase entry execution =>
      rcases waits with unlocked | waits
      · cases unlocked
      · exact ⟨holds.1.congr records, waits _ _ holds.2⟩
  | succeeding entry execution =>
      rcases waits with unlocked | waits
      · cases unlocked
      · exact waits _ _ holds

theorem TokenHolds.insert {token : Token} {row : Execution}
    (holds : watched.TokenHolds approvals rows token)
    (records : other.records = rows.records ++ [row])
    (waiting : other.waiting = rows.waiting) :
    watched.TokenHolds approvals other token := by
  have waits (entry execution : String)
      (found : rows.Waits entry execution) :
      other.Waits entry execution := by
    simpa only [HookRows.Waits, waiting] using found
  cases token with
  | none | unborn => trivial
  | claim locked id phase => exact ⟨holds.1.insert records, holds.2⟩
  | taking id phase entry execution =>
      exact ⟨holds.1.insert records, waits _ _ holds.2⟩
  | succeeding entry execution => exact waits _ _ holds

theorem lock_of_lockIds {ghosts : Multiset Ghost} (none : lockIds ghosts = 0)
    (member : ghost ∈ ghosts) : ghost.token.lock = Option.none := by
  cases lock : ghost.token.lock with
  | none => rfl
  | some id =>
      have found : id ∈ lockIds ghosts :=
        Multiset.mem_bind.mpr ⟨ghost, member, by simp [lock]⟩
      simp [none] at found

namespace Owned

/-- A step that leaves the records as they are. -/
theorem transfer
    (owned : watched.Owned approvals rows (ghost ::ₘ rest))
    (records : other.records = rows.records)
    (distinct : (after.owned + ownedIds rest + other.waitingIds +
      rows.parkedIds).Nodup)
    (locked : watched.exclusive = true →
      (after.token.lock.toList : Multiset String) + lockIds rest +
          rows.parkedIds =
        (other.holder.toList : List String))
    (free : watched.exclusive = false →
      after.token.lock = none ∧ other.holder = none)
    (token : watched.TokenHolds approvals other after.token)
    (waits : lockIds rest = 0 ∨ ∀ entry execution,
      rows.Waits entry execution → other.Waits entry execution)
    (settled : after.settled = ghost.settled)
    (waiting : ∀ entry ∈ other.waiting, rows.Has entry.executionId
      fun row => row.status = .pending ∧ row.approvedAt = none)
    (running : watched.exclusive = true → ∀ row ∈ rows.records,
      row.status = .running → other.holder = some row.id) :
    watched.Owned approvals other (after ::ₘ rest) := by
  have parked : other.parkedIds = rows.parkedIds := by
    simp only [HookRows.parkedIds, records]
  refine
    { keys := records ▸ owned.keys
      distinct := by rw [ownedIds_cons, parked]; exact distinct
      locked := ?locked
      free := ?free
      tokens := ?tokens
      settled := ?settled
      waiting := fun entry member => (waiting entry member).congr records
      running := by simpa only [records] using running
      ungated := by simpa only [parked] using owned.ungated }
  case locked =>
    intro exclusive
    rw [lockIds_cons, parked]
    exact locked exclusive
  case free =>
    intro shared
    have before := (owned.free shared).1
    rw [lockIds_cons] at before
    rw [lockIds_cons, (free shared).1, (add_eq_zero.mp before).2]
    exact ⟨rfl, (free shared).2⟩
  case tokens =>
    intro task member
    rcases Multiset.mem_cons.mp member with rfl | old
    · exact token
    · refine (owned.tokens task (Multiset.mem_cons_of_mem old)).congr records
        (waits.imp_left fun none => ?_)
      exact lock_of_lockIds none old
  case settled =>
    intro task member id known
    rcases Multiset.mem_cons.mp member with rfl | old
    · exact (owned.settled ghost (Multiset.mem_cons_self _ _) id
        (settled ▸ known)).congr records
    · exact (owned.settled task (Multiset.mem_cons_of_mem old) id
        known).congr records

/-- The identifiers stay distinct when a task and the queue together own no
more than before. -/
theorem distinct_of_le
    (owned : watched.Owned approvals rows (ghost ::ₘ rest))
    (less : after.owned + other.waitingIds ≤
      ghost.owned + rows.waitingIds) :
    (after.owned + ownedIds rest + other.waitingIds +
      rows.parkedIds).Nodup := by
  have distinct := owned.distinct
  rw [ownedIds_cons] at distinct
  refine Multiset.nodup_of_le ?_ distinct
  calc
    after.owned + ownedIds rest + other.waitingIds + rows.parkedIds
        = after.owned + other.waitingIds +
          (ownedIds rest + rows.parkedIds) := by abel
    _ ≤ ghost.owned + rows.waitingIds +
          (ownedIds rest + rows.parkedIds) := by gcongr
    _ = ghost.owned + ownedIds rest + rows.waitingIds +
          rows.parkedIds := by abel

/-! ## New records -/

theorem insert {row : Execution}
    (owned : watched.Owned approvals rows (ghost ::ₘ rest))
    (records : other.records = rows.records ++ [row])
    (holder : other.holder = rows.holder)
    (waiting : other.waiting = rows.waiting)
    (absent : ∀ record ∈ rows.records, record.id ≠ row.id)
    (ids : after.owned + parkedId row ≤ ghost.owned)
    (locks : watched.exclusive = true →
      (after.token.lock.toList : Multiset String) + parkedId row =
        (ghost.token.lock.toList : List String))
    (unlocked : watched.exclusive = false → after.token.lock = none)
    (token : watched.TokenHolds approvals other after.token)
    (settled : after.settled = ghost.settled)
    (idle : row.status ≠ .running)
    (parks : watched.gated = false → row.status ≠ .pendingApproval) :
    watched.Owned approvals other (after ::ₘ rest) := by
  have parked := HookRows.parkedIds_insert records
  have waitingIds : other.waitingIds = rows.waitingIds := by
    simp only [HookRows.waitingIds, waiting]
  refine
    { keys := ?keys
      distinct := ?distinct
      locked := ?locked
      free := ?free
      tokens := ?tokens
      settled := ?settled
      waiting := fun entry member =>
        (owned.waiting entry (waiting ▸ member)).insert records
      running := ?running
      ungated := ?ungated }
  case keys =>
    rw [records, List.map_append, List.nodup_append]
    refine ⟨owned.keys, by simp, ?_⟩
    intro left leftMember right rightMember
    obtain ⟨record, member, rfl⟩ := List.mem_map.mp leftMember
    have atLast : right = row.id := by simpa using rightMember
    exact atLast ▸ absent record member
  case distinct =>
    have distinct := owned.distinct
    rw [ownedIds_cons] at distinct
    refine Multiset.nodup_of_le ?_ distinct
    rw [ownedIds_cons, waitingIds, parked]
    calc
      after.owned + ownedIds rest + rows.waitingIds +
            (rows.parkedIds + parkedId row)
          = after.owned + parkedId row +
            (ownedIds rest + rows.waitingIds + rows.parkedIds) := by abel
      _ ≤ ghost.owned +
            (ownedIds rest + rows.waitingIds + rows.parkedIds) := by gcongr
      _ = ghost.owned + ownedIds rest + rows.waitingIds +
            rows.parkedIds := by abel
  case locked =>
    intro exclusive
    have before := owned.locked exclusive
    rw [lockIds_cons] at before
    rw [lockIds_cons, parked, holder, ← before, ← locks exclusive]
    abel
  case free =>
    intro shared
    have before := owned.free shared
    rw [lockIds_cons] at before
    rw [lockIds_cons, unlocked shared, (add_eq_zero.mp before.1).2, holder]
    exact ⟨rfl, before.2⟩
  case tokens =>
    intro task member
    rcases Multiset.mem_cons.mp member with rfl | old
    · exact token
    · exact (owned.tokens task (Multiset.mem_cons_of_mem old)).insert
        records waiting
  case settled =>
    intro task member id known
    rcases Multiset.mem_cons.mp member with rfl | old
    · exact (owned.settled ghost (Multiset.mem_cons_self _ _) id
        (settled ▸ known)).insert records
    · exact (owned.settled task (Multiset.mem_cons_of_mem old) id
        known).insert records
  case running =>
    intro exclusive record member isRunning
    rw [records, List.mem_append, List.mem_singleton] at member
    rcases member with old | rfl
    · exact holder ▸ owned.running exclusive record old isRunning
    · exact (idle isRunning).elim
  case ungated =>
    intro ungated
    rw [parked, owned.ungated ungated, parkedId, if_neg (parks ungated)]
    rfl

/-- An identifier that no task, entry or open decision uses is handed
out. -/
theorem handOut {id : String}
    (owned : watched.Owned approvals rows (ghost ::ₘ rest))
    (unused : id ∉ ownedIds (ghost ::ₘ rest) + rows.waitingIds +
      rows.parkedIds) :
    watched.Owned approvals rows
      ({ ghost with fresh := some id } ::ₘ rest) := by
  have same : lockIds ({ ghost with fresh := some id } ::ₘ rest) =
      lockIds (ghost ::ₘ rest) := by
    simp only [lockIds_cons]
  refine
    { owned with
      distinct := ?_
      locked := fun exclusive => same ▸ owned.locked exclusive
      free := fun shared => same ▸ owned.free shared
      tokens := ?_
      settled := ?_ }
  · refine Multiset.nodup_of_le ?_ (Multiset.nodup_cons.mpr
      ⟨unused, owned.distinct⟩)
    rw [ownedIds_cons, ownedIds_cons, ← Multiset.singleton_add]
    have grows : ({ ghost with fresh := some id } : Ghost).owned ≤
        {id} + ghost.owned := by
      simp only [Ghost.owned, Option.toList_some, ← Multiset.coe_add,
        Multiset.coe_singleton]
      gcongr
      exact Multiset.le_add_left _ _
    calc
      ({ ghost with fresh := some id } : Ghost).owned + ownedIds rest +
            rows.waitingIds + rows.parkedIds
          ≤ {id} + ghost.owned + ownedIds rest + rows.waitingIds +
            rows.parkedIds := by gcongr
      _ = {id} + (ghost.owned + ownedIds rest + rows.waitingIds +
            rows.parkedIds) := by abel
  · intro task member
    rcases Multiset.mem_cons.mp member with rfl | old
    · exact owned.tokens ghost (Multiset.mem_cons_self _ _)
    · exact owned.tokens task (Multiset.mem_cons_of_mem old)
  · intro task member
    rcases Multiset.mem_cons.mp member with rfl | old
    · exact owned.settled ghost (Multiset.mem_cons_self _ _)
    · exact owned.settled task (Multiset.mem_cons_of_mem old)

/-- The record of a trigger that owns the lock, or that needs none. -/
theorem insertRecord {row : Execution}
    (owned : watched.Owned approvals rows (ghost ::ₘ rest))
    (records : other.records = rows.records ++ [row])
    (holder : other.holder = rows.holder)
    (waiting : other.waiting = rows.waiting)
    (absent : ∀ record ∈ rows.records, record.id ≠ row.id)
    (undecided : row.approvedAt = none)
    (allowed : (ghost.token = .unborn row.id ∧
        row.status = watched.initialStatus true) ∨
      (ghost.token = .none ∧ ghost.fresh = some row.id ∧
        row.status = watched.initialStatus false)) :
    watched.Owned approvals other
      (ghost.use.hold (watched.inserted row ghost.token) ::ₘ rest) := by
  have member : row ∈ other.records := by simp [records]
  rcases allowed with ⟨token, status⟩ | ⟨token, fresh, status⟩
  · have exclusive : watched.exclusive = true :=
      (owned.of_lock row.id (by simp [token])).1
    cases gated : watched.gated with
    | true =>
        have parked : row.status = .pendingApproval := by
          simpa [initialStatus, gated] using status
        refine owned.insert records holder waiting absent ?_ ?_ ?_ ?_ rfl ?_
          ?_
        · simp [Ghost.owned, Ghost.use, Ghost.hold, inserted, token, parked,
            parkedId, Token.owned, ← Multiset.coe_add]
        · simp [Ghost.use, Ghost.hold, inserted, token, parked, parkedId]
        · simp [exclusive]
        · simp [Ghost.use, Ghost.hold, inserted, token, parked, TokenHolds]
        · simp [parked]
        · simp [gated]
    | false =>
        have pending : row.status = .pending := by
          simpa [initialStatus, gated] using status
        refine owned.insert records holder waiting absent ?_ ?_ ?_ ?_ rfl ?_
          ?_
        · simp [Ghost.owned, Ghost.use, Ghost.hold, inserted, token, pending,
            parkedId, Token.owned, ← Multiset.coe_add]
        · simp [Ghost.use, Ghost.hold, inserted, token, pending, parkedId]
        · simp [exclusive]
        · simp only [Ghost.use, Ghost.hold, inserted, token, pending]
          exact ⟨⟨row, member, rfl, pending, by simp [Cleared, gated]⟩,
            fun _ => exclusive.symm⟩
        · simp [pending]
        · simp [pending]
  · cases exclusive : watched.exclusive with
    | true =>
        have pending : row.status = .pending := by
          simpa [initialStatus, exclusive] using status
        refine owned.insert records holder waiting absent ?_ ?_ ?_ ?_ rfl ?_
          ?_
        · simp [Ghost.owned, Ghost.use, Ghost.hold, inserted, token, pending,
            parkedId, Token.owned, fresh]
        · simp [Ghost.use, Ghost.hold, inserted, token, pending, parkedId]
        · simp [exclusive]
        · simp only [Ghost.use, Ghost.hold, inserted, token, pending,
            exclusive]
          exact ⟨⟨row, member, rfl, pending, undecided⟩, by simp⟩
        · simp [pending]
        · simp [pending]
    | false =>
        cases gated : watched.gated with
        | true =>
            have parked : row.status = .pendingApproval := by
              simpa [initialStatus, exclusive, gated] using status
            refine owned.insert records holder waiting absent ?_ ?_ ?_ ?_ rfl
              ?_ ?_
            · simp [Ghost.owned, Ghost.use, Ghost.hold, inserted, token,
                parked, parkedId, Token.owned, fresh]
            · simp [exclusive]
            · simp [Ghost.use, Ghost.hold, inserted, token, parked]
            · simp [Ghost.use, Ghost.hold, inserted, token, parked,
                TokenHolds]
            · simp [parked]
            · simp [gated]
        | false =>
            have pending : row.status = .pending := by
              simpa [initialStatus, exclusive, gated] using status
            refine owned.insert records holder waiting absent ?_ ?_ ?_ ?_ rfl
              ?_ ?_
            · simp [Ghost.owned, Ghost.use, Ghost.hold, inserted, token,
                pending, parkedId, Token.owned, fresh]
            · simp [exclusive]
            · simp [Ghost.use, Ghost.hold, inserted, token, pending]
            · simp only [Ghost.use, Ghost.hold, inserted, token, pending,
                exclusive]
              exact ⟨⟨row, member, rfl, pending, by simp [Cleared, gated]⟩,
                fun _ => exclusive.symm⟩
            · simp [pending]
            · simp [pending]

/-! ## The lock -/

theorem acquire {id : String}
    (owned : watched.Owned approvals rows (ghost ::ₘ rest))
    (exclusive : watched.exclusive = true)
    (token : ghost.token = .none) (fresh : ghost.fresh = some id)
    (free : rows.holder = none)
    (records : other.records = rows.records)
    (holder : other.holder = some id)
    (waiting : other.waiting = rows.waiting) :
    watched.Owned approvals other
      (ghost.use.hold (.unborn id) ::ₘ rest) := by
  have waitingIds : other.waitingIds = rows.waitingIds := by
    simp only [HookRows.waitingIds, waiting]
  refine owned.transfer records (owned.distinct_of_le ?_) ?_ ?_ trivial
    (.inr ?_) rfl ?_ ?_
  · rw [waitingIds]
    simp [Ghost.owned, Ghost.use, Ghost.hold, token, fresh, Token.owned]
  · intro _
    have before := owned.locked exclusive
    rw [lockIds_cons, token, free] at before
    rw [add_assoc]
    have none : lockIds rest + rows.parkedIds = 0 := by simpa using before
    rw [none, holder]
    rfl
  · simp [exclusive]
  · simp only [HookRows.Waits, waiting]
    exact fun _ _ found => found
  · rw [waiting]
    exact owned.waiting
  · intro _ row member isRunning
    rw [owned.running exclusive row member isRunning] at free
    cases free

/-- A record in a phase that passes the lock on does not run. -/
theorem idle_of_done {id : String} {phase : Phase}
    (owned : watched.Owned approvals rows (ghost ::ₘ rest))
    (holder : rows.holder = some id) (exclusive : watched.exclusive = true)
    (has : rows.Has id (watched.PhaseHolds approvals phase))
    (done : phase.done = true) :
    ∀ row ∈ rows.records, row.status ≠ .running := by
  intro row member isRunning
  have held := owned.running exclusive row member isRunning
  obtain rfl : id = row.id := by simpa [holder] using held
  obtain ⟨found, inRecords, sameId, holds⟩ := has
  obtain rfl := List.inj_on_of_nodup_map owned.keys inRecords member sameId
  cases phase with
  | queued | taken | approved | ready | running => cases done
  | finished =>
      rcases holds.1 with same | same | same <;> simp [same] at isRunning
  | abandoned => simp [holds.1] at isRunning
  | ended => rcases holds with same | same <;> simp [same] at isRunning

theorem release {id : String} {phase : Phase}
    (owned : watched.Owned approvals rows (ghost ::ₘ rest))
    (token : ghost.token = .claim true id phase)
    (done : phase.done = true)
    (records : other.records = rows.records)
    (holder : other.holder = none)
    (waiting : other.waiting = rows.waiting) :
    watched.Owned approvals other (ghost.hold .none ::ₘ rest) := by
  have lock := owned.of_lock id (by simp [token])
  have waitingIds : other.waitingIds = rows.waitingIds := by
    simp only [HookRows.waitingIds, waiting]
  have idle := owned.idle_of_done lock.2.1 lock.1 (owned.claimed token).1
    done
  refine owned.transfer records (owned.distinct_of_le ?_) ?_ ?_ trivial
    (.inl lock.2.2.1) rfl ?_ ?_
  · rw [waitingIds]
    simp [Ghost.owned, Ghost.hold, token, Token.owned, ← Multiset.coe_add]
  · intro _
    simp [Ghost.hold, lock.2.2.1, lock.2.2.2, holder]
  · simp [Ghost.hold, holder]
  · rw [waiting]
    exact owned.waiting
  · intro _ row member isRunning
    exact (idle row member isRunning).elim

theorem handOff {id entry execution : String} {phase : Phase}
    (owned : watched.Owned approvals rows (ghost ::ₘ rest))
    (token : ghost.token = .taking id phase entry execution)
    (done : phase.done = true)
    (records : other.records = rows.records)
    (holder : other.holder = some execution)
    (waiting : other.waiting = rows.waiting) :
    watched.Owned approvals other
      (ghost.hold (.succeeding entry execution) ::ₘ rest) := by
  have lock := owned.of_lock id (by simp [token])
  have holds := owned.tokens ghost (Multiset.mem_cons_self _ _)
  rw [token] at holds
  have waitingIds : other.waitingIds = rows.waitingIds := by
    simp only [HookRows.waitingIds, waiting]
  have idle := owned.idle_of_done lock.2.1 lock.1 holds.1 done
  refine owned.transfer records (owned.distinct_of_le ?_) ?_ ?_ ?_
    (.inl lock.2.2.1) rfl ?_ ?_
  · rw [waitingIds]
    simp [Ghost.owned, Ghost.hold, token, Token.owned, ← Multiset.coe_add]
  · intro _
    simp [Ghost.hold, lock.2.2.1, lock.2.2.2, holder]
  · simp [lock.1]
  · simpa only [Ghost.hold, TokenHolds, HookRows.Waits, waiting] using holds.2
  · rw [waiting]
    exact owned.waiting
  · intro _ row member isRunning
    exact (idle row member isRunning).elim

/-! ## The queue -/

theorem enqueue {entry : QueueRow}
    (owned : watched.Owned approvals rows (ghost ::ₘ rest))
    (token : ghost.token = .claim false entry.executionId .queued)
    (records : other.records = rows.records)
    (holder : other.holder = rows.holder)
    (waiting : other.waiting = rows.waiting ++ [entry]) :
    watched.Owned approvals other (ghost.hold .none ::ₘ rest) := by
  have waitingIds : other.waitingIds =
      rows.waitingIds + {entry.executionId} := by
    simp only [HookRows.waitingIds, waiting, List.map_append, List.map_cons,
      List.map_nil, ← Multiset.coe_add, Multiset.coe_singleton]
  refine owned.transfer records (owned.distinct_of_le ?_) ?_ ?_ trivial
    (.inr ?_) rfl ?_ ?_
  · rw [waitingIds]
    simp only [Ghost.owned, Ghost.hold, token, Token.owned,
      Option.toList_none, Option.toList_some, List.append_nil,
      ← Multiset.coe_add, Multiset.coe_singleton]
    refine le_of_eq ?_
    abel
  · intro exclusive
    have before := owned.locked exclusive
    rw [lockIds_cons, token] at before
    simpa [Ghost.hold, holder] using before
  · intro shared
    exact ⟨rfl, holder ▸ (owned.free shared).2⟩
  · intro queued execution found
    obtain ⟨row, member, same⟩ := found
    exact ⟨row, by simp [waiting, member], same⟩
  · intro queued member
    rw [waiting, List.mem_append, List.mem_singleton] at member
    rcases member with old | rfl
    · exact owned.waiting queued old
    · exact (owned.claimed token).1
  · rw [holder]
    exact owned.running

/-- The entry that is served leaves the queue with its execution. -/
theorem serve {entry execution : String}
    (owned : watched.Owned approvals rows (ghost ::ₘ rest))
    (token : ghost.token = .succeeding entry execution)
    (unique : (rows.waiting.map (·.id)).Nodup)
    (records : other.records = rows.records)
    (holder : other.holder = rows.holder)
    (waiting : other.waiting =
      rows.waiting.filter fun queued => queued.id ≠ entry) :
    watched.Owned approvals other
      (ghost.hold (.claim true execution .taken) ::ₘ rest) := by
  have lock := owned.of_lock execution (by simp [token])
  have holds := owned.tokens ghost (Multiset.mem_cons_self _ _)
  rw [token] at holds
  obtain ⟨served, member, rfl, rfl⟩ := holds
  have left : (rows.waiting.filter fun queued => queued.id ≠ served.id) =
      rows.waiting.erase served := by
    rw [unique.of_map.erase_eq_filter]
    refine List.filter_congr fun queued inQueue => ?_
    by_cases same : queued.id = served.id
    · simp [List.inj_on_of_nodup_map unique inQueue member same]
    · have different : queued ≠ served := by
        intro equality
        exact same (equality ▸ rfl)
      simp [same, different]
  have waitingIds : rows.waitingIds =
      {served.executionId} + other.waitingIds := by
    have perm := (List.perm_cons_erase member).map (·.executionId)
    rw [HookRows.waitingIds, HookRows.waitingIds, waiting, left,
      Multiset.coe_eq_coe.mpr perm]
    rfl
  refine owned.transfer records (owned.distinct_of_le ?_) ?_ ?_ ?_
    (.inl lock.2.2.1) rfl ?_ ?_
  · rw [waitingIds]
    simp only [Ghost.owned, Ghost.hold, token, Token.owned,
      Option.toList_none, Option.toList_some, List.append_nil,
      ← Multiset.coe_add, Multiset.coe_singleton]
    refine le_of_eq ?_
    abel
  · intro _
    simp [Ghost.hold, lock.2.2.1, lock.2.2.2, lock.2.1, holder]
  · simp [lock.1]
  · exact ⟨(owned.waiting served member).congr records,
      fun _ => lock.1.symm⟩
  · intro queued inQueue
    rw [waiting] at inQueue
    exact owned.waiting queued (List.mem_of_mem_filter inQueue)
  · rw [holder]
    exact owned.running

/-- An execution that is owned or settled has no waiting entry. -/
theorem not_waiting_of_settled {ghosts : Multiset Ghost} {id : String}
    (owned : watched.Owned approvals rows ghosts)
    (settled : rows.Has id Settled) : id ∉ rows.waitingIds := by
  intro waits
  obtain ⟨entry, member, rfl⟩ := List.mem_map.mp (Multiset.mem_coe.mp waits)
  obtain ⟨row, inRecords, sameId, pending, undecided⟩ :=
    owned.waiting entry member
  obtain ⟨found, foundMember, foundId, holds⟩ := settled
  obtain rfl := List.inj_on_of_nodup_map owned.keys foundMember inRecords
    (foundId.trans sameId.symm)
  rcases holds with same | decided | same
  · simp [pending] at same
  · exact decided undecided
  · simp [pending] at same

/-! ## Decisions -/

/-- A record whose decision is open belongs to no task and no entry. -/
theorem parked_alone {ghosts : Multiset Ghost} {row : Execution}
    (owned : watched.Owned approvals rows ghosts)
    (member : row ∈ rows.records)
    (parked : row.status = .pendingApproval) :
    watched.gated = true ∧ row.id ∉ ownedIds ghosts ∧
      row.id ∉ rows.waitingIds := by
  have inParked : row.id ∈ rows.parkedIds :=
    Multiset.mem_map_of_mem _
      (Multiset.mem_filter.mpr ⟨Multiset.mem_coe.mpr member, parked⟩)
  have distinct := owned.distinct
  rw [Multiset.nodup_add] at distinct
  have apart := Multiset.disjoint_right.mp distinct.2.2 inParked
  rw [Multiset.mem_add, not_or] at apart
  refine ⟨?_, apart⟩
  by_contra ungated
  rw [Bool.not_eq_true] at ungated
  simp [owned.ungated ungated] at inParked

/-- A decision gives the record to the task that made it. -/
theorem decide {change : ExecutionUpdate} {phase : Phase} {row : Execution}
    (owned : watched.Owned approvals rows (ghost ::ₘ rest))
    (noted : ∀ user time, change = .markApproved row.id user time →
      approvals row.id user time)
    (token : ghost.token = .none)
    (decides : change.decides = some phase)
    (target : change.target? = some row.id) (member : row ∈ rows.records)
    (parked : row.status = .pendingApproval) :
    watched.Owned approvals (rows.changed change)
      (ghost.hold (.claim watched.exclusive row.id phase) ::ₘ rest) := by
  have alone := owned.parked_alone member parked
  have restAlone : row.id ∉ ownedIds rest := by
    have apart := alone.2.1
    rw [ownedIds_cons, Multiset.mem_add, not_or] at apart
    exact apart.2
  have matched : change.matches? row = true := by
    cases change <;> simp_all [ExecutionUpdate.decides,
      ExecutionUpdate.target?, ExecutionUpdate.matches?]
  have applied := ExecutionUpdate.apply_of_matches matched
  have closed : (change.apply row).status ≠ .pendingApproval ∧
      (change.apply row).status ≠ .running ∧
      Settled (change.apply row) := by
    rw [applied]
    cases change <;> simp_all [ExecutionUpdate.decides,
      ExecutionUpdate.set, Settled]
  refine owned.change target member ⟨restAlone, alone.2.2⟩ ?_ ?_ ?_ ?_
    (fun _ => closed.2.2) rfl ?_ fun _ => closed.1
  · simp [Ghost.owned, Ghost.hold, token, Token.owned, parkedId, parked,
      closed.1, ← Multiset.coe_add]
  · intro exclusive
    simp [Ghost.hold, token, parkedId, parked, closed.1, exclusive]
  · intro shared
    simp [Ghost.hold, shared]
  · refine ⟨⟨change.apply row, List.mem_map_of_mem member, by simp, ?_⟩,
      fun _ => rfl⟩
    rw [applied]
    cases change with
    | markApproved id user time =>
        obtain rfl := Option.some.inj decides
        obtain rfl := Option.some.inj target
        exact ⟨rfl, fun _ => ⟨user, time, noted user time rfl, rfl, rfl⟩⟩
    | markRejected id user time =>
        obtain rfl := Option.some.inj decides
        exact .inl rfl
    | markExpired id time =>
        obtain rfl := Option.some.inj decides
        exact .inr rfl
    | markRunning | markCompleted | incrementRetryCount | resetToPending
    | resetApproved | markPendingApproval | failRunning => cases decides
  · intro _ isRunning
    exact (closed.2.1 isRunning).elim

end Owned

end Watched

end Sendword
