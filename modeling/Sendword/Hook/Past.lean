import Sendword.Hook.Ghost

/-!
# Ghosts and pasts

Every move of the protocol keeps the link between a ghost and what its task
has done so far.
-/

namespace Sendword

open Concurrency

theorem lockOwned_snoc (slug : String) (job : Job) (past : Past)
    (event : Event Op.Answer) :
    lockOwned slug job (past ++ [event]) =
      lockStep slug (lockOwned slug job past) event := by
  simp [lockOwned]

theorem lastExpiry_snoc (past : Past) (event : Event Op.Answer) :
    lastExpiry (past ++ [event]) = expiryStep (lastExpiry past) event := by
  simp [lastExpiry]

theorem Effective.snoc {past : Past} {change : ExecutionUpdate}
    (effective : Effective past change) (event : Event Op.Answer) :
    Effective (past ++ [event]) change := by
  obtain ⟨rows, positive, member⟩ := effective
  exact ⟨rows, positive, List.mem_append_left _ member⟩

/-- The update just performed is in the past. -/
theorem Effective.last (past : Past) (change : ExecutionUpdate)
    {rows : Nat} (positive : 0 < rows) :
    Effective
      (past ++ [⟨.sql (.execution (.update change)), .ok rows⟩]) change :=
  ⟨rows, positive, by simp⟩

theorem EndedBy.snoc {slug id : String} {job : Job} {past : Past}
    (ended : EndedBy slug id job past) (event : Event Op.Answer) :
    EndedBy slug id job (past ++ [event]) := by
  rcases ended with ⟨user, time, effective⟩ | ⟨time, effective⟩ |
    ⟨runs, status, exitCode, time, effective⟩
  · exact .inl ⟨user, time, effective.snoc event⟩
  · exact .inr (.inl ⟨time, effective.snoc event⟩)
  · exact .inr (.inr ⟨runs, status, exitCode, time, effective.snoc event⟩)

namespace Watched

variable {watched : Watched} {reliable : Prop} {job : Job} {past : Past}
  {ghost after : Ghost}

theorem TokenLink.snoc {role : Role} {token : Token}
    (link : watched.TokenLink reliable role job past token)
    (event : Event Op.Answer) :
    watched.TokenLink reliable role job (past ++ [event]) token := by
  cases token with
  | claim locked id phase =>
      exact ⟨link.1, fun done kept => (link.2.1 done kept).snoc event,
        link.2.2⟩
  | taking id phase entry execution =>
      exact ⟨link.1, fun kept => (link.2.1 kept).snoc event, link.2.2⟩
  | none | unborn id | succeeding entry execution => trivial

/-- The events that say nothing about locks and expiries. -/
def Quiet (slug : String) (event : Event Op.Answer) : Prop :=
  (∀ held, lockStep slug held event = held) ∧
    ∀ last, expiryStep last event = last

/-- A move that leaves role, expiry and approvals as they are. -/
theorem Link.step {event : Event Op.Answer}
    (link : watched.Link reliable job past ghost)
    (role : after.role = ghost.role)
    (missed : after.missed = ghost.missed)
    (approvals : after.approvals = ghost.approvals)
    (expiry : ∀ last, expiryStep last event = last)
    (lock : watched.gated = false → after.token.lock =
      lockStep watched.slug ghost.token.lock event)
    (token : watched.TokenLink reliable ghost.role job (past ++ [event])
      after.token) :
    watched.Link reliable job (past ++ [event]) after where
  admitted := link.admitted
  role := role.trans link.role
  lock := fun ungated => by
    rw [lock ungated, link.lock ungated, lockOwned_snoc]
  token := role ▸ token
  missed := fun id equality => by
    rw [lastExpiry_snoc, expiry, role]
    exact link.missed id (missed ▸ equality)
  approvals := fun id user time member =>
    (link.approvals id user time (approvals ▸ member)).snoc event

/-- A move that changes nothing but what is known of other rows. -/
theorem Link.keep {event : Event Op.Answer}
    (link : watched.Link reliable job past ghost)
    (quiet : Quiet watched.slug event)
    (role : after.role = ghost.role)
    (token : after.token = ghost.token)
    (missed : after.missed = ghost.missed)
    (approvals : after.approvals = ghost.approvals) :
    watched.Link reliable job (past ++ [event]) after := by
  refine link.step role missed approvals quiet.2 ?_ ?_
  · intro _
    rw [quiet.1, token]
  · exact token ▸ link.token.snoc event

theorem link_ownUpdate {change : ExecutionUpdate} {locked : Bool}
    {id : String} {phase : Phase} {next? : Option Phase}
    (link : watched.Link reliable job past ghost)
    (token : ghost.token = .claim locked id phase)
    (target : change.target? = some id)
    (advances : watched.advances ghost.role change phase = some next?) :
    watched.Link reliable job
      (past ++ [⟨.sql (.execution (.update change)), .ok (1 : Nat)⟩])
      (ghost.hold (.become locked id next?)) := by
  have own := link.token
  rw [token] at own
  have effective := Effective.last past change Nat.one_pos
  rcases watched.advances_cases advances with
    ⟨_, time, rfl, rfl, rfl, role⟩ |
    ⟨_, status, exitCode, time, rfl, rfl, rfl, -⟩ |
    ⟨_, rfl, rfl, rfl⟩ | ⟨_, rfl, rfl, rfl⟩ | ⟨_, rfl, rfl, rfl⟩ |
    ⟨_, rfl, rfl, rfl, gated⟩
  all_goals
    obtain rfl := Option.some.inj target
  · refine link.step rfl rfl rfl (fun _ => rfl) (fun _ => ?_) ?_
    · simp [Ghost.hold, Token.become, token, lockStep]
    · exact ⟨fun _ => role, fun done => (by cases done), fun _ => by simp⟩
  · have runner := own.1 (.inl rfl)
    refine link.step rfl rfl rfl (fun _ => rfl) (fun _ => ?_) ?_
    · simp [Ghost.hold, Token.become, token, lockStep]
    · exact ⟨fun _ => runner, fun _ _ => .inr (.inr
        ⟨watched.runs?_of_runner (link.role ▸ runner), status, exitCode, time,
          effective⟩),
        fun _ => by simp⟩
  · refine link.step rfl rfl rfl (fun _ => rfl) (fun _ => ?_) ?_
    · simp [Ghost.hold, Token.become, token, lockStep]
    · exact TokenLink.snoc own _
  · refine link.step rfl rfl rfl (fun _ => rfl) (fun _ => ?_) ?_
    · simp [Ghost.hold, Token.become, token, lockStep]
    · exact ⟨by simp, fun done => (by cases done), fun _ => by simp⟩
  · refine link.step rfl rfl rfl (fun _ => rfl) (fun _ => ?_) ?_
    · simp [Ghost.hold, Token.become, token, lockStep]
    · exact ⟨by simp, fun done => (by cases done), fun _ => by simp⟩
  · refine link.step rfl rfl rfl (fun _ => rfl) (fun ungated => ?_) trivial
    simp [gated] at ungated

/-- What a decision notes about itself is what its past says. -/
theorem link_note {change : ExecutionUpdate} {phase : Phase} {rows : Nat}
    (link : watched.Link reliable job past ghost)
    (decider : ghost.role = .decider)
    (decides : change.decides = some phase) :
    watched.Link reliable job
      (past ++ [⟨.sql (.execution (.update change)), .ok rows⟩])
      (change.note (decide (0 < rows)) ghost) := by
  have approvals : ∀ id user time, (id, user, time) ∈ ghost.approvals →
      Effective
        (past ++ [⟨.sql (.execution (.update change)), .ok rows⟩])
        (.markApproved id user time) :=
    fun id user time member => (link.approvals id user time member).snoc _
  cases change with
  | markApproved id user time =>
      have kept : watched.Link reliable job
          (past ++ [⟨.sql (.execution (.update
            (.markApproved id user time))), .ok rows⟩]) ghost :=
        link.keep ⟨fun _ => rfl, fun _ => rfl⟩ rfl rfl rfl rfl
      by_cases positive : 0 < rows
      · refine ⟨link.admitted, ?_, ?_, ?_, ?_, ?_⟩
        all_goals simp only [ExecutionUpdate.note, positive]
        · exact kept.role
        · exact kept.lock
        · exact kept.token
        · exact kept.missed
        · intro approved name moment member
          rcases List.mem_cons.mp member with same | older
          · cases same
            exact Effective.last past _ positive
          · exact approvals approved name moment older
      · simpa [ExecutionUpdate.note, positive] using kept
  | markRejected id user time =>
      exact link.keep ⟨fun _ => rfl, fun _ => rfl⟩ rfl rfl rfl rfl
  | markExpired id time =>
      refine ⟨link.admitted, link.role, ?_, link.token.snoc _, ?_, approvals⟩
      · intro ungated
        rw [lockOwned_snoc]
        exact link.lock ungated
      · intro expired same
        rw [lastExpiry_snoc]
        by_cases positive : 0 < rows
        · simp [ExecutionUpdate.note, positive] at same
        · obtain rfl : rows = 0 := by omega
          obtain rfl : id = expired := by
            simpa [ExecutionUpdate.note] using same
          exact ⟨decider, rfl⟩
  | markRunning | markCompleted | incrementRetryCount | resetToPending
  | resetApproved | markPendingApproval | failRunning => cases decides

theorem Link.learn (link : watched.Link reliable job past ghost)
    (ids : List String) :
    watched.Link reliable job past (ghost.learn ids) :=
  ⟨link.admitted, link.role, link.lock, link.token, link.missed,
    link.approvals⟩

theorem Link.hold {token : Token}
    (link : watched.Link reliable job past ghost)
    (lock : watched.gated = false → token.lock = ghost.token.lock)
    (tokenLink : watched.TokenLink reliable ghost.role job past token) :
    watched.Link reliable job past (ghost.hold token) :=
  ⟨link.admitted, link.role,
    fun ungated => (lock ungated).trans (link.lock ungated), tokenLink,
    link.missed, link.approvals⟩

/-- A decision that changed its record. -/
theorem link_decided {change : ExecutionUpdate} {phase : Phase}
    {id : String} {rows : Nat}
    (link : watched.Link reliable job past ghost)
    (decider : ghost.role = .decider)
    (positive : 0 < rows)
    (target : change.target? = some id)
    (decides : change.decides = some phase)
    (decided : watched.decided (change.note true ghost) id phase after) :
    watched.Link reliable job
      (past ++ [⟨.sql (.execution (.update change)), .ok rows⟩]) after := by
  have noted : watched.Link reliable job
      (past ++ [⟨.sql (.execution (.update change)), .ok rows⟩])
      (change.note (decide (0 < rows)) ghost) :=
    link_note link decider decides
  have effective := Effective.last past change positive
  simp only [positive, decide_true] at noted
  rcases decided with ⟨gated, -, rfl⟩ | ⟨-, rfl⟩
  · refine noted.hold (fun ungated => by simp [gated] at ungated) ?_
    cases change with
    | markApproved =>
        cases decides
        exact ⟨by simp, fun done => (by cases done), fun _ => by simp⟩
    | markRejected =>
        cases decides
        cases target
        exact ⟨by simp, fun _ _ => .inl ⟨_, _, effective⟩,
          fun _ => by simp⟩
    | markExpired =>
        cases decides
        cases target
        exact ⟨by simp, fun _ _ => .inr (.inl ⟨_, effective⟩),
          fun _ => by simp⟩
    | markRunning | markCompleted | incrementRetryCount | resetToPending
    | resetApproved | markPendingApproval | failRunning => cases decides
  · exact noted.learn [id]

theorem link_record {statement : ExecutionStatement}
    {answer : DbResult statement.Row}
    (link : watched.Link reliable job past ghost)
    (allowed : watched.allowsRecord ghost statement)
    (moved : watched.movesRecord ghost after statement answer) :
    watched.Link reliable job
      (past ++ [⟨.sql (.execution statement), answer⟩]) after := by
  cases statement with
  | insert row =>
      have quiet : Quiet watched.slug
          ⟨.sql (.execution (.insert row)), answer⟩ :=
        ⟨fun _ => rfl, fun _ => rfl⟩
      by_cases own : row.hookSlug = watched.slug
      · rw [movesRecord, if_pos own] at moved
        rw [allowsRecord, if_pos own] at allowed
        obtain ⟨-, rfl⟩ := moved
        refine link.step rfl rfl rfl quiet.2 ?_ ?_
        · intro ungated
          rw [quiet.1]
          rcases allowed.2.2.2 with ⟨token, status⟩ | ⟨token, -, status⟩
          · simp [Ghost.hold, inserted, token, status, initialStatus,
              ungated]
          · simp [Ghost.hold, inserted, token, status, initialStatus,
              ungated]
        · simp only [Ghost.hold, inserted]
          split
          · split
            · trivial
            · exact ⟨by simp, fun done => (by cases done), fun _ => by simp⟩
          · split
            · trivial
            · refine ⟨?_, ?_, ?_⟩ <;> split <;> simp [Phase.done]
      · rw [movesRecord, if_neg own] at moved
        rcases moved with ⟨-, rfl⟩ | ⟨-, rfl⟩
        · exact link.keep quiet rfl rfl rfl rfl
        · exact link.keep quiet rfl rfl rfl rfl
  | selectById id =>
      have quiet : Quiet watched.slug
          ⟨.sql (.execution (.selectById id)), answer⟩ :=
        ⟨fun _ => rfl, fun _ => rfl⟩
      have cases : after = ghost ∨ after = ghost.learn [id] := by
        simp only [movesRecord] at moved
        split at moved
        · exact .inl moved.1
        · split at moved
          · rcases moved.2 with ⟨row, -, -, -, same⟩ | ⟨-, same⟩
            · exact .inr same
            · exact .inl same
          · exact .inl moved.2
      rcases cases with rfl | rfl
      · exact link.keep quiet rfl rfl rfl rfl
      · exact link.keep quiet rfl rfl rfl rfl
  | update change =>
      cases token : ghost.token with
      | claim locked id phase =>
          simp only [movesRecord, allowsRecord, token] at moved allowed
          obtain ⟨target, advances⟩ := allowed
          obtain ⟨rfl, rfl⟩ := moved
          obtain ⟨next?, next⟩ := Option.isSome_iff_exists.mp advances
          rw [next]
          exact link_ownUpdate link token target next
      | none =>
          cases decides : change.decides with
          | some phase =>
              have decider : ghost.role = .decider := by
                simpa [allowsRecord, token, decides] using allowed
              simp only [movesRecord, token, decides] at moved
              rcases moved with ⟨rows, rfl, positive, id, target, decided⟩ |
                ⟨rfl, rfl⟩
              · exact link_decided link decider positive target decides decided
              · exact link_note link decider decides
          | none =>
              simp only [movesRecord, token, decides] at moved
              subst after
              refine link.keep ⟨fun _ => rfl, fun _ => ?_⟩ rfl rfl rfl rfl
              cases change <;> first | rfl | cases decides
      | unborn id => simp [allowsRecord, token] at allowed
      | taking id phase entry execution =>
          simp [allowsRecord, token] at allowed
      | succeeding entry execution => simp [allowsRecord, token] at allowed
  | selectLatestStarted slug =>
      obtain rfl : after = ghost := moved
      exact link.keep ⟨fun _ => rfl, fun _ => rfl⟩ rfl rfl rfl rfl
  | selectOverdue slug cutoff =>
      obtain ⟨ids, -, rfl⟩ := moved
      refine link.keep ⟨fun _ => rfl, fun _ => rfl⟩ ?_ ?_ ?_ ?_ <;>
        split <;> rfl

theorem link_lock {statement : LockStatement}
    {answer : DbResult statement.Row}
    (link : watched.Link reliable job past ghost)
    (allowed : watched.allowsLock ghost statement)
    (moved : watched.movesLock ghost after statement answer) :
    watched.Link reliable job
      (past ++ [⟨.sql (.lock statement), answer⟩]) after := by
  cases statement with
  | insertOrIgnore slug id acquiredAt =>
      by_cases own : slug = watched.slug
      · simp only [movesLock, if_pos own] at moved
        rcases moved with ⟨rfl, rfl⟩ | ⟨rfl, rfl⟩
        · refine link.step rfl rfl rfl (fun _ => rfl) (fun _ => ?_) trivial
          simp [Ghost.hold, lockStep, own]
        · refine link.keep ⟨fun held => ?_, fun _ => rfl⟩ rfl rfl rfl rfl
          simp [lockStep]
      · simp only [movesLock, if_neg own] at moved
        subst after
        refine link.keep ⟨fun held => ?_, fun _ => rfl⟩ rfl rfl rfl rfl
        simp [lockStep, own]
  | delete slug =>
      by_cases own : slug = watched.slug
      · simp only [movesLock, if_pos own] at moved
        subst after
        refine link.step rfl rfl rfl (fun _ => rfl) (fun _ => ?_) trivial
        simp [Ghost.hold, lockStep, own]
      · simp only [movesLock, if_neg own] at moved
        subst after
        refine link.keep ⟨fun held => ?_, fun _ => rfl⟩ rfl rfl rfl rfl
        simp [lockStep, own]
  | update slug id acquiredAt =>
      by_cases own : slug = watched.slug
      · simp only [movesLock, if_pos own] at moved
        obtain ⟨-, old, phase, entry, execution, token, rfl⟩ := moved
        obtain ⟨_, _, _, sameToken⟩ := allowed own
        rw [token] at sameToken
        cases sameToken
        refine link.step rfl rfl rfl (fun _ => rfl) (fun _ => ?_) trivial
        simp [Ghost.hold, lockStep, own]
      · simp only [movesLock, if_neg own] at moved
        subst after
        refine link.keep ⟨fun held => ?_, fun _ => rfl⟩ rfl rfl rfl rfl
        simp [lockStep, own]
  | selectHolder slug =>
      have cases : after = ghost ∨ (∃ id, ghost.token =
          .claim false id .ended ∧ after = ghost.hold .none) := by
        simp only [movesLock] at moved
        split at moved
        · split at moved
          · exact .inl moved.2
          · rename_i token
            exact .inr ⟨_, token, moved.2⟩
          · exact .inl moved.2
        · exact .inl moved
      rcases cases with rfl | ⟨id, token, rfl⟩
      · exact link.keep ⟨fun _ => rfl, fun _ => rfl⟩ rfl rfl rfl rfl
      · refine link.step rfl rfl rfl (fun _ => rfl) (fun _ => ?_) trivial
        simp [Ghost.hold, lockStep, token]
  | deleteTerminal => exact allowed.elim

theorem link_queue {statement : QueueStatement}
    {answer : DbResult statement.Row}
    (link : watched.Link reliable job past ghost)
    (allowed : watched.allowsQueue ghost statement)
    (moved : watched.movesQueue ghost after statement answer) :
    watched.Link reliable job
      (past ++ [⟨.sql (.queue statement), answer⟩]) after := by
  have quiet : Quiet watched.slug ⟨.sql (.queue statement), answer⟩ :=
    ⟨fun _ => rfl, fun _ => rfl⟩
  have kept (same : after = ghost) : watched.Link reliable job
      (past ++ [⟨.sql (.queue statement), answer⟩]) after := by
    subst same
    exact link.keep quiet rfl rfl rfl rfl
  cases statement with
  | enqueue id slug execution queuedAt =>
      by_cases own : slug = watched.slug
      · simp only [allowsQueue, movesQueue, if_pos own] at allowed moved
        rcases moved with ⟨-, rfl⟩ | ⟨-, same⟩
        · refine link.step rfl rfl rfl quiet.2 (fun _ => ?_) trivial
          simp [Ghost.hold, lockStep, allowed.1]
        · exact kept same
      · simp only [movesQueue, if_neg own] at moved
        exact kept moved
  | selectPosition id => exact kept moved
  | peekNext slug =>
      rcases moved with ⟨-, same⟩ | ⟨entry, -, taken⟩
      · exact kept same
      · by_cases own : slug = watched.slug
        · simp only [if_pos own] at taken
          simp only [allowsQueue, if_pos own] at allowed
          obtain ⟨id, phase, token, rfl⟩ := taken
          obtain ⟨_, _, sameToken, done⟩ := allowed
          rw [token] at sameToken
          cases sameToken
          have owned := link.token
          rw [token] at owned
          refine link.step rfl rfl rfl quiet.2 (fun _ => ?_) ?_
          · simp [Ghost.hold, lockStep, token]
          · exact ⟨done, fun evident => (owned.2.1 done evident).snoc _,
              owned.2.2⟩
        · simp only [if_neg own] at taken
          subst after
          exact link.keep quiet rfl rfl rfl rfl
  | countWaiting slug => exact kept moved
  | update change =>
      cases change with
      | markReady entry =>
          simp only [movesQueue] at moved
          split at moved
          · rename_i token
            subst after
            refine link.step rfl rfl rfl quiet.2 (fun _ => ?_) ?_
            · simp [Ghost.hold, lockStep, token]
            · exact ⟨by simp, fun done => (by cases done), fun _ => by simp⟩
          · exact kept moved
      | expireForExecution execution => exact kept moved
  | expireStale => exact allowed.elim

theorem link_moves {op : Op} {answer : op.Answer}
    (link : watched.Link reliable job past ghost)
    (allowed : watched.allows ghost op)
    (moved : watched.moves reliable ghost op answer after) :
    watched.Link reliable job (past ++ [⟨op, answer⟩]) after := by
  cases op with
  | sql statement =>
      cases statement with
      | execution statement => exact link_record link allowed moved
      | lock statement => exact link_lock link allowed moved
      | queue statement => exact link_queue link allowed moved
      | attempt statement =>
          obtain rfl : after = ghost := moved
          exact link.keep ⟨fun _ => rfl, fun _ => rfl⟩ rfl rfl rfl rfl
      | counter statement =>
          obtain rfl : after = ghost := moved
          exact link.keep ⟨fun _ => rfl, fun _ => rfl⟩ rfl rfl rfl rfl
  | newId =>
      obtain rfl : after = { ghost with fresh := some answer } := moved
      exact link.keep ⟨fun _ => rfl, fun _ => rfl⟩ rfl rfl rfl rfl
  | loadConfig =>
      obtain rfl : after = ghost := moved.2
      exact link.keep ⟨fun _ => rfl, fun _ => rfl⟩ rfl rfl rfl rfl
  | storeConfig config => exact allowed.elim
  | prepareLogFiles context =>
      simp only [moves] at moved
      split at moved
      · rename_i token
        obtain ⟨unreliable, rfl⟩ := moved
        refine link.step rfl rfl rfl (fun _ => rfl) (fun _ => ?_) ?_
        · simp [Ghost.hold, lockStep, token]
        · rcases allowed with free | ⟨-, role, locked, own⟩
          · rw [token] at free
            cases free
          · rw [token] at own
            cases own
            exact ⟨fun _ => role, fun _ kept => (kept rfl).elim,
              fun kept => (unreliable kept).elim⟩
      · subst after
        exact link.keep ⟨fun _ => rfl, fun _ => rfl⟩ rfl rfl rfl rfl
  | spawn child =>
      obtain rfl : after = ghost.hold .none := moved
      exact link.step rfl rfl rfl (fun _ => rfl) (fun _ => rfl) trivial
  | now | runProcess | sendRequest | sleep | appendRetryMarker
  | sendNotification =>
      obtain rfl : after = ghost := moved
      exact link.keep ⟨fun _ => rfl, fun _ => rfl⟩ rfl rfl rfl rfl

theorem link_start (admitted : watched.admits job) :
    watched.Link reliable job [] (watched.start job) := by
  cases job with
  | trigger | approve | reject | replay | expirePendingApprovals
  | reloadConfig =>
      exact ⟨admitted, rfl, fun _ => rfl, trivial, fun _ none => (by cases none),
        fun _ _ _ member => (by cases member)⟩
  | runExecution context retries hook concurrency approval =>
      refine ⟨admitted, rfl, ?_, ?_, ?_, ?_⟩
      all_goals
        by_cases own : context.hookSlug = watched.slug
        all_goals simp only [start, own, if_true, if_false]
      · intro _
        simp [lockOwned, Job.locks?, own, (admitted own).1, exclusive]
      · intro _
        simp [lockOwned, Job.locks?, own]
      · exact ⟨by simp, fun done => (by cases done), fun _ => by simp⟩
      · trivial
      · intro _ none
        cases none
      · intro _ none
        cases none
      · intro _ _ _ member
        cases member
      · intro _ _ _ member
        cases member
  | runDequeued slug execution concurrency approval =>
      refine ⟨admitted, rfl, ?_, ?_, ?_, ?_⟩
      all_goals
        by_cases own : slug = watched.slug
        all_goals simp only [start, own, if_true, if_false]
      · intro _
        simp [lockOwned, Job.locks?]
      · intro _
        simp [lockOwned, Job.locks?, own]
      · exact ⟨by simp, fun done => (by cases done), fun _ => by simp⟩
      · trivial
      · intro _ none
        cases none
      · intro _ none
        cases none
      · intro _ _ _ member
        cases member
      · intro _ _ _ member
        cases member

end Watched

end Sendword
