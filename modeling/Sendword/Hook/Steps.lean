import Sendword.Hook.Invariant

/-!
# Statements keep the invariant

For every statement that the discipline allows there is a ghost the task can
move to with which the invariant holds again.
-/

namespace Sendword

open Concurrency

theorem Db.Extends.update (db : Db) (change : ExecutionUpdate) :
    db.Extends ((ExecutionStatement.update change).exec db).2 [] [] :=
  ⟨by simp [ExecutionStatement.exec, Function.comp_def], by
    simp [ExecutionStatement.exec]⟩

/-- An update that matches no record changes nothing. -/
theorem ExecutionStatement.update_nothing {db : Db} {change : ExecutionUpdate}
    (unmatched : ∀ row ∈ db.executions, change.matches? row = false) :
    (ExecutionStatement.update change).exec db = (.ok (0 : Nat), db) := by
  have count : db.executions.countP change.matches? = 0 :=
    List.countP_eq_zero.mpr fun row member => by simp [unmatched row member]
  have same : db.executions.map change.apply = db.executions := by
    refine (List.map_congr_left fun row member => ?_).trans (List.map_id _)
    simp [ExecutionUpdate.apply, unmatched row member]
  simp only [ExecutionStatement.exec, count, same]

/-- A decision only matches the record it names, while it is open. -/
theorem ExecutionUpdate.parked_of_decides {change : ExecutionUpdate}
    {phase : Phase} {row : Execution}
    (decides : change.decides = some phase)
    (matched : change.matches? row = true) :
    change.target? = some row.id ∧ row.status = .pendingApproval := by
  cases change <;> simp_all [ExecutionUpdate.decides, target?, matches?]

namespace Watched

variable {watched : Watched} {ghost after : Ghost} {rest : Multiset Ghost}
  {world : World}

namespace Invariant

theorem own_absent {id : String}
    (holds : watched.Invariant world (ghost ::ₘ rest))
    (unwritten : ghost.Unwritten id) :
    id ∈ world.issued ∧ id ∉ ownedIds rest ∧
      ∀ row ∈ world.db.executions, row.id ≠ id := by
  have own := owned_of_unwritten unwritten
  exact ⟨holds.own_issued id own, (holds.owned.own_alone own).1,
    holds.own_informed.unwritten id unwritten⟩

/-- An execution known to be another hook's is not the hook's. -/
theorem elsewhere_absent {ghosts : Multiset Ghost} {id : String}
    (holds : watched.Invariant world ghosts)
    (elsewhere : world.db.Elsewhere watched.slug id) :
    ∀ row ∈ (world.db.rowsOf watched.slug).records, row.id ≠ id := by
  intro row member sameId
  obtain ⟨other, otherMember, otherId, different⟩ := elsewhere
  obtain ⟨inDb, own⟩ := Db.mem_records.mp member
  have same := holds.keys.execution_unique inDb otherMember
    (sameId.trans otherId.symm)
  exact different (same ▸ own)

/-! ## Records -/

theorem insertOwn {row : Execution}
    (holds : watched.Invariant world (ghost ::ₘ rest))
    (own : row.hookSlug = watched.slug)
    (undecided : row.approvedAt = none) (first : row.retryOf = none)
    (allowed : (ghost.token = .unborn row.id ∧
        row.status = watched.initialStatus true) ∨
      (ghost.token = .none ∧ ghost.fresh = some row.id ∧
        row.status = watched.initialStatus false)) :
    (ExecutionStatement.insert row).exec world.db =
        (.ok (), { world.db with
          executions := world.db.executions ++ [row] }) ∧
      watched.Invariant
        { world with db := { world.db with
          executions := world.db.executions ++ [row] } }
        (ghost.use.hold (watched.inserted row ghost.token) ::ₘ rest) := by
  have unwritten : ghost.Unwritten row.id := by
    rcases allowed with ⟨token, -⟩ | ⟨-, fresh, -⟩
    · exact .inr token
    · exact .inl fresh
  obtain ⟨issued, alone, absent⟩ := holds.own_absent unwritten
  have accepted : (ExecutionStatement.insert row).exec world.db =
      (.ok (), { world.db with
        executions := world.db.executions ++ [row] }) :=
    Db.insert_accepted absent (by simp [first])
  refine ⟨accepted, ?_⟩
  have keys : Db.Keys { world.db with
      executions := world.db.executions ++ [row] } := by
    have kept := Db.keys_execution holds.keys (.insert row)
    rwa [accepted] at kept
  have written : ∀ id,
      ¬ (ghost.use.hold (watched.inserted row ghost.token)).Unwritten id := by
    intro id claim
    rcases claim with fresh | token
    · cases fresh
    · rcases allowed with ⟨before, -⟩ | ⟨before, -, -⟩
      all_goals
        simp only [Ghost.hold, inserted, before] at token
        split at token <;> cases token
  have owned : ∀ id ∈
      (ghost.use.hold (watched.inserted row ghost.token)).owned,
      id = row.id := by
    intro id member
    rcases allowed with ⟨before, -⟩ | ⟨before, -, -⟩
    all_goals
      simp only [Ghost.owned, Ghost.use, Ghost.hold, inserted, before]
        at member
      split at member <;> simp_all [Token.owned]
  have grown : world.db.Extends { world.db with
      executions := world.db.executions ++ [row] } [row] [] :=
    ⟨rfl, by simp⟩
  have rows := Db.rowsOf_insert world.db row
  rw [own] at rows
  have noRecord : ∀ record ∈ (world.db.rowsOf watched.slug).records,
      record.id ≠ row.id :=
    fun record member => absent record (Db.mem_records.mp member).1
  refine holds.move rfl keys grown (fun _ old => old) ?_ (by simp) ?_ ?_
    (fun _ old => old) ?_
  · intro new member
    rw [List.mem_singleton] at member
    exact member ▸ ⟨issued, alone⟩
  · intro id member
    exact owned id member ▸ issued
  · exact (holds.own_informed.change
      (fun id claim => (written id claim).elim) rfl rfl).extend grown
      fun other _ => written other.id
  · rw [rows]
    exact holds.owned.insertRecord rfl rfl rfl noRecord undecided allowed

theorem insertOther {row : Execution}
    (holds : watched.Invariant world (ghost ::ₘ rest))
    (other : row.hookSlug ≠ watched.slug)
    (token : ghost.token = .none) (fresh : ghost.fresh = some row.id)
    (accepted : (ExecutionStatement.insert row).exec world.db =
      (.ok (), { world.db with
        executions := world.db.executions ++ [row] })) :
    watched.Invariant
      { world with db := { world.db with
        executions := world.db.executions ++ [row] } }
      (ghost.use.learn [row.id] ::ₘ rest) := by
  obtain ⟨issued, alone, -⟩ := holds.own_absent (.inl fresh)
  have keys : Db.Keys { world.db with
      executions := world.db.executions ++ [row] } := by
    have kept := Db.keys_execution holds.keys (.insert row)
    rwa [accepted] at kept
  have grown : world.db.Extends { world.db with
      executions := world.db.executions ++ [row] } [row] [] :=
    ⟨rfl, by simp⟩
  have written : ∀ id, ¬ ghost.use.Unwritten id := by
    intro id claim
    simp [Ghost.Unwritten, Ghost.use, token] at claim
  have nothing : (ghost.use.learn [row.id]).owned = 0 := by
    simp [Ghost.owned, Ghost.use, Ghost.learn, token, Token.owned]
  refine holds.move rfl keys grown (fun _ old => old) ?_ (by simp) ?_ ?_
    (fun _ old => old) ?_
  · intro new member
    rw [List.mem_singleton] at member
    exact member ▸ ⟨issued, alone⟩
  · simp [nothing]
  · have before : watched.Informed world.db ghost.use :=
      holds.own_informed.change (fun id claim => (written id claim).elim) rfl
        rfl
    refine (before.extend grown fun old _ => written old.id).learn ?_
    intro id member
    rw [List.mem_singleton] at member
    exact ⟨row, by simp, member.symm, other⟩
  · rw [Db.rowsOf_insert_other other]
    refine holds.owned.replace ?_ rfl ?_ ?_
    · simp [nothing]
    · simp [Ghost.use, Ghost.learn, token, TokenHolds]
    · exact holds.owned.settled ghost (Multiset.mem_cons_self _ _)

/-- What a claim says of its record, as a row of the database. -/
theorem own_record {locked : Bool} {id : String} {phase : Phase}
    (holds : watched.Invariant world (ghost ::ₘ rest))
    (token : ghost.token = .claim locked id phase) :
    ∃ row : Execution, world.db.execution? id = some row ∧ row.id = id ∧
      row.hookSlug = watched.slug := by
  obtain ⟨row, member, rfl, -⟩ := (holds.owned.claimed token).1
  obtain ⟨inDb, own⟩ := Db.mem_records.mp member
  exact ⟨row, holds.keys.execution?_eq inDb, rfl, own⟩

theorem elsewhere_record {id : String}
    (holds : watched.Invariant world (ghost ::ₘ rest))
    (known : id ∈ ghost.elsewhere) :
    ∃ row : Execution, world.db.execution? id = some row ∧ row.id = id ∧
      row.hookSlug ≠ watched.slug := by
  obtain ⟨row, member, rfl, different⟩ :=
    holds.own_informed.elsewhere id known
  exact ⟨row, holds.keys.execution?_eq member, rfl, different⟩

/-- The task learns of executions of other hooks. -/
theorem learn {ids : List String}
    (holds : watched.Invariant world (ghost ::ₘ rest))
    (known : ∀ id ∈ ids, world.db.Elsewhere watched.slug id) :
    watched.Invariant world (ghost.learn ids ::ₘ rest) := by
  refine holds.keep rfl holds.keys (.of_eq rfl rfl) rfl holds.own_issued
    (holds.own_informed.learn known) (fun _ old => old) ?_
  refine holds.owned.replace le_rfl rfl ?_ ?_
  · exact holds.owned.tokens ghost (Multiset.mem_cons_self _ _)
  · exact holds.owned.settled ghost (Multiset.mem_cons_self _ _)

theorem selectById {id : String}
    (holds : watched.Invariant world (ghost ::ₘ rest))
    (notReplayed : ghost.role = .replay → ∀ row ∈ world.db.executions,
      row.id = id → row.hookSlug ≠ watched.slug) :
    ∃ after, watched.movesRecord ghost after (.selectById id)
        (.ok (world.db.execution? id)) ∧
      watched.Invariant world (after ::ₘ rest) := by
  have known : id ∈ ghost.elsewhere → ∃ row : Execution,
      (.ok (world.db.execution? id) : DbResult (Option Execution)) =
        .ok (some row) ∧ row.id = id ∧ row.hookSlug ≠ watched.slug := by
    intro elsewhere
    obtain ⟨row, found, facts⟩ := holds.elsewhere_record elsewhere
    exact ⟨row, congrArg _ found, facts⟩
  cases token : ghost.token with
  | claim locked own phase =>
      refine ⟨ghost, ?_, holds⟩
      simp only [movesRecord, token, true_and]
      intro same
      obtain ⟨row, found, facts⟩ := holds.own_record token
      exact ⟨row, by rw [same, found], same ▸ facts.1, facts.2⟩
  | none | unborn | taking | succeeding =>
      simp only [movesRecord, token]
      by_cases replays : ghost.role = .replay
      · cases found : world.db.execution? id with
        | none =>
            refine ⟨ghost, ⟨?_, ?_⟩, holds⟩
            · rwa [found] at known
            · rw [if_pos replays]
              exact .inr ⟨rfl, rfl⟩
        | some row =>
            obtain ⟨member, sameId⟩ := Db.execution?_some found
            have different := notReplayed replays row member sameId
            refine ⟨ghost.learn [id], ⟨?_, ?_⟩, holds.learn ?_⟩
            · rwa [found] at known
            · rw [if_pos replays]
              exact .inl ⟨row, rfl, sameId, different, rfl⟩
            · intro other member
              rw [List.mem_singleton] at member
              exact ⟨row, ‹_›, sameId.trans member.symm, different⟩
      · refine ⟨ghost, ⟨known, ?_⟩, holds⟩
        rw [if_neg replays]

theorem updateOwn {change : ExecutionUpdate} {locked : Bool} {id : String}
    {phase : Phase} {next? : Option Phase}
    (holds : watched.Invariant world (ghost ::ₘ rest))
    (token : ghost.token = .claim locked id phase)
    (target : change.target? = some id)
    (advances : watched.advances ghost.role change phase = some next?) :
    ((ExecutionStatement.update change).exec world.db).1 = .ok (1 : Nat) ∧
      watched.Invariant
        { world with
          db := ((ExecutionStatement.update change).exec world.db).2 }
        (ghost.hold (.become locked id next?) ::ₘ rest) := by
  obtain ⟨⟨row, member, rfl, matched, -⟩, owned⟩ :=
    holds.owned.ownUpdate token target advances
  have inDb := (Db.mem_records.mp member).1
  constructor
  · have count := Db.countP_update holds.keys.executions target inDb
    rw [matched, if_pos rfl] at count
    simp only [ExecutionStatement.exec, count]
  · refine holds.keep rfl (Db.keys_execution holds.keys _)
      (Db.Extends.update _ _) rfl ?_ ?_ (fun _ old => old) ?_
    · intro other own
      refine holds.own_issued other ?_
      rw [Ghost.owned, token]
      cases next? <;>
        simp_all [Ghost.owned, Ghost.hold, Token.become, Token.owned]
    · refine holds.own_informed.change ?_ rfl rfl
      intro other claim
      rcases claim with fresh | unborn
      · exact .inl fresh
      · cases next? <;> cases unborn
    · rw [Db.rowsOf_update]
      exact owned

/-- What a decision notes about itself owns nothing. -/
theorem noted {change : ExecutionUpdate} {changed : Bool}
    (holds : watched.Invariant world (ghost ::ₘ rest)) :
    watched.Invariant world (change.note changed ghost ::ₘ rest) := by
  have same : (change.note changed ghost).token = ghost.token ∧
      (change.note changed ghost).fresh = ghost.fresh ∧
      (change.note changed ghost).settled = ghost.settled ∧
      (change.note changed ghost).elsewhere = ghost.elsewhere ∧
      (change.note changed ghost).otherEntries = ghost.otherEntries := by
    unfold ExecutionUpdate.note
    split <;> [split; skip; skip] <;> exact ⟨rfl, rfl, rfl, rfl, rfl⟩
  have approvals : ∀ approval ∈ ghost.approvals,
      approval ∈ (change.note changed ghost).approvals := by
    intro approval old
    unfold ExecutionUpdate.note
    split
    · split
      · exact List.mem_cons_of_mem _ old
      · exact old
    · exact old
    · exact old
  obtain ⟨token, fresh, settled, elsewhere, otherEntries⟩ := same
  refine holds.keep rfl holds.keys (.of_eq rfl rfl) rfl ?_ ?_ approvals ?_
  · rw [Ghost.owned, fresh, token]
    exact holds.own_issued
  · refine holds.own_informed.change ?_ elsewhere otherEntries
    simp [Ghost.Unwritten, fresh, token]
  · refine holds.owned.replace ?_ ?_ ?_ ?_
    · rw [Ghost.owned, fresh, token]
      exact le_rfl
    · rw [token]
    · rw [token]
      exact holds.owned.tokens ghost (Multiset.mem_cons_self _ _)
    · rw [settled]
      exact holds.owned.settled ghost (Multiset.mem_cons_self _ _)

/-- A decision that finds its record. -/
theorem decide {change : ExecutionUpdate} {phase : Phase} {row : Execution}
    (holds : watched.Invariant world (ghost ::ₘ rest))
    (token : ghost.token = .none)
    (decides : change.decides = some phase)
    (member : row ∈ world.db.executions)
    (matched : change.matches? row = true) :
    change.target? = some row.id ∧
      ∃ after, watched.decided (change.note true ghost) row.id phase after ∧
        watched.Invariant
          { world with
            db := ((ExecutionStatement.update change).exec world.db).2 }
          (after ::ₘ rest) := by
  obtain ⟨target, parked⟩ :=
    ExecutionUpdate.parked_of_decides decides matched
  refine ⟨target, ?_⟩
  have noted : watched.Invariant world
      (change.note true ghost ::ₘ rest) := holds.noted
  have noToken : (change.note true ghost).token = .none := by
    cases change <;> simp_all [ExecutionUpdate.note]
  generalize named : change.note true ghost = moved at noted noToken ⊢
  by_cases own : row.hookSlug = watched.slug
  · have inRows := Db.mem_records.mpr ⟨member, own⟩
    have approved : ∀ user time, change = .markApproved row.id user time →
        approvalsOf (moved ::ₘ rest) row.id user time := by
      intro user time same
      refine ⟨moved, Multiset.mem_cons_self _ _, ?_⟩
      rw [← named, same]
      exact List.mem_cons_self
    have owned := noted.owned.decide approved noToken decides target inRows
      parked
    have alone := noted.owned.parked_alone inRows parked
    refine ⟨moved.hold (.claim watched.exclusive row.id phase),
      .inl ⟨alone.1, ?_, rfl⟩, ?_⟩
    · intro known
      exact noted.elsewhere_absent (noted.own_informed.elsewhere _ known) row
        inRows rfl
    · refine noted.keep rfl (Db.keys_execution noted.keys _)
        (Db.Extends.update _ _) rfl ?_ ?_ (fun _ old => old) ?_
      · intro id inOwned
        simp only [Ghost.owned, Ghost.hold, Token.owned, Multiset.mem_coe,
          List.mem_append, Option.mem_toList, Option.some.injEq] at inOwned
        rcases inOwned with fresh | rfl
        · exact noted.own_issued id (owned_of_unwritten (.inl fresh))
        · exact noted.issued row member
      · refine noted.own_informed.change ?_ rfl rfl
        intro id claim
        rcases claim with fresh | unborn
        · exact .inl fresh
        · cases unborn
      · rw [Db.rowsOf_update]
        exact owned
  · have elsewhere : world.db.Elsewhere watched.slug row.id :=
      ⟨row, member, rfl, own⟩
    refine ⟨moved.learn [row.id], .inr ⟨?_, rfl⟩, ?_⟩
    · intro settled
      obtain ⟨found, inRows, sameId, -⟩ := noted.owned.settled moved
        (Multiset.mem_cons_self _ _) _ settled
      exact noted.elsewhere_absent elsewhere found inRows sameId
    · have learnt : watched.Invariant world
          (moved.learn [row.id] ::ₘ rest) :=
        noted.learn (by simpa using elsewhere)
      refine learnt.keep rfl (Db.keys_execution learnt.keys _)
        (Db.Extends.update _ _) rfl learnt.own_issued learnt.own_informed
        (fun _ old => old) ?_
      rw [Db.rowsOf_update_other target (learnt.elsewhere_absent elsewhere)]
      exact learnt.owned

/-- A decision, whether it finds a record or not. -/
theorem updateDecision {change : ExecutionUpdate} {phase : Phase}
    (holds : watched.Invariant world (ghost ::ₘ rest))
    (token : ghost.token = .none)
    (decides : change.decides = some phase) :
    ∃ after,
      watched.movesRecord ghost after (.update change)
        ((ExecutionStatement.update change).exec world.db).1 ∧
      watched.Invariant
        { world with
          db := ((ExecutionStatement.update change).exec world.db).2 }
        (after ::ₘ rest) := by
  simp only [movesRecord, token, decides]
  by_cases found : ∃ row ∈ world.db.executions, change.matches? row = true
  · obtain ⟨row, member, matched⟩ := found
    obtain ⟨target, after, decided, kept⟩ :=
      holds.decide token decides member matched
    have count := Db.countP_update holds.keys.executions target member
    rw [matched, if_pos rfl] at count
    refine ⟨after, .inl ⟨1, ?_, Nat.one_pos, row.id, target, decided⟩, kept⟩
    simp only [ExecutionStatement.exec, count]
  · have unmatched : ∀ row ∈ world.db.executions,
        change.matches? row = false := by
      intro row member
      rw [← Bool.not_eq_true]
      exact fun matched => found ⟨row, member, matched⟩
    rw [ExecutionStatement.update_nothing unmatched]
    exact ⟨change.note false ghost, .inr ⟨rfl, rfl⟩, holds.noted⟩

theorem updateOther {change : ExecutionUpdate} {id : String}
    (holds : watched.Invariant world (ghost ::ₘ rest))
    (target : change.target? = some id) (known : id ∈ ghost.elsewhere) :
    watched.Invariant
      { world with
        db := ((ExecutionStatement.update change).exec world.db).2 }
      (ghost ::ₘ rest) := by
  refine holds.keep rfl (Db.keys_execution holds.keys _)
    (Db.Extends.update _ _) rfl holds.own_issued holds.own_informed
    (fun _ old => old) ?_
  have absent := holds.elsewhere_absent
    (holds.own_informed.elsewhere id known)
  rw [Db.rowsOf_update_other target absent]
  exact holds.owned

theorem selectOverdue {slug : String} {cutoff : Int}
    (holds : watched.Invariant world (ghost ::ₘ rest)) :
    ∃ after,
      watched.movesRecord ghost after (.selectOverdue slug cutoff)
        ((ExecutionStatement.selectOverdue slug cutoff).exec world.db).1 ∧
      watched.Invariant world (after ::ₘ rest) := by
  simp only [movesRecord, ExecutionStatement.exec]
  by_cases own : slug = watched.slug
  · refine ⟨_, ⟨_, rfl, rfl⟩, ?_⟩
    rw [if_pos own]
    refine holds.keep rfl holds.keys (.of_eq rfl rfl) rfl holds.own_issued
      (holds.own_informed.change (fun _ claim => claim) rfl rfl)
      (fun _ old => old) ?_
    refine holds.owned.replace le_rfl rfl ?_ ?_
    · exact holds.owned.tokens ghost (Multiset.mem_cons_self _ _)
    · intro id member
      rcases List.mem_append.mp member with overdue | old
      · obtain ⟨row, selected, rfl⟩ := List.mem_map.mp overdue
        simp only [List.mem_filter, Bool.and_eq_true, beq_iff_eq]
          at selected
        exact ⟨row, Db.mem_records.mpr
          ⟨selected.1, selected.2.1.1.trans own⟩, rfl,
          .inl selected.2.1.2⟩
      · exact holds.owned.settled ghost (Multiset.mem_cons_self _ _) id old
  · refine ⟨_, ⟨_, rfl, rfl⟩, ?_⟩
    rw [if_neg own]
    refine holds.learn ?_
    intro id overdue
    obtain ⟨row, selected, rfl⟩ := List.mem_map.mp overdue
    simp only [List.mem_filter, Bool.and_eq_true, beq_iff_eq] at selected
    exact ⟨row, selected.1, rfl, fun same =>
      own (selected.2.1.1.symm.trans same)⟩

theorem record {statement : ExecutionStatement}
    (holds : watched.Invariant world (ghost ::ₘ rest))
    (allowed : watched.allowsRecord ghost statement)
    (notReplayed : ghost.role = .replay → ∀ id, statement = .selectById id →
      ∀ row ∈ world.db.executions, row.id = id →
        row.hookSlug ≠ watched.slug) :
    ∃ after,
      watched.movesRecord ghost after statement
        (statement.exec world.db).1 ∧
      watched.Invariant { world with db := (statement.exec world.db).2 }
        (after ::ₘ rest) := by
  cases statement with
  | insert row =>
      simp only [allowsRecord] at allowed
      simp only [movesRecord]
      split at allowed
      · rename_i own
        obtain ⟨-, undecided, first, allowed⟩ := allowed
        obtain ⟨accepted, kept⟩ :=
          holds.insertOwn own undecided first allowed
        simp only [accepted, if_pos own]
        exact ⟨_, ⟨trivial, rfl⟩, kept⟩
      · rename_i other
        simp only [if_neg other]
        rcases Db.insert_cases world.db row with accepted | refused
        · rw [accepted]
          exact ⟨_, .inl ⟨rfl, rfl⟩,
            holds.insertOther other allowed.1 allowed.2 accepted⟩
        · rw [refused]
          exact ⟨ghost, .inr ⟨rfl, rfl⟩, holds⟩
  | selectById id =>
      exact holds.selectById fun replays => notReplayed replays id rfl
  | update change =>
      simp only [allowsRecord] at allowed
      split at allowed
      · rename_i locked id phase token
        obtain ⟨next?, advances⟩ := Option.isSome_iff_exists.mp allowed.2
        obtain ⟨answer, kept⟩ := holds.updateOwn token allowed.1 advances
        refine ⟨_, ?_, kept⟩
        simp only [movesRecord, token]
        exact ⟨answer, by rw [advances]; rfl⟩
      · rename_i token
        cases decides : change.decides with
        | some phase => exact holds.updateDecision token decides
        | none =>
            rw [decides] at allowed
            obtain ⟨id, known, target⟩ :
                ∃ id ∈ ghost.elsewhere, change.target? = some id := by
              simpa using allowed
            refine ⟨ghost, ?_, holds.updateOther target known⟩
            simp only [movesRecord, token, decides]
      · exact allowed.elim
  | selectLatestStarted slug => exact ⟨ghost, rfl, holds⟩
  | selectOverdue slug cutoff => exact holds.selectOverdue

end Invariant

end Watched

end Sendword
