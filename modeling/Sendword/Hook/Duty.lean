import Sendword.Hook.Past

/-!
# The execution a task acts for

A trigger that acquired the lock, a run, a decision on an approval and a
completion that handed the lock on act for one execution, until they park it,
pass it on or release its lock.
-/

namespace Sendword

open Concurrency

/-- How an operation changes the execution that its task acts for. -/
def dutyStep (slug : String) (duty : Option String) :
    Event Op.Answer → Option String
  | ⟨.sql (.lock (.insertOrIgnore target id _)), answer⟩ =>
      if target = slug ∧ answer = .ok (1 : Nat) then some id else duty
  | ⟨.sql (.lock (.delete target)), _⟩ =>
      if target = slug then none else duty
  | ⟨.sql (.lock (.update target id _)), _⟩ =>
      if target = slug then some id else duty
  | ⟨.sql (.execution (.insert row)), _⟩ =>
      if row.hookSlug = slug ∧ row.status = .pendingApproval then none
      else duty
  | ⟨.sql (.execution (.update change)), answer⟩ =>
      match change with
      | .markApproved id .. | .markRejected id .. | .markExpired id _ =>
          if 0 < (Except.toOption answer).getD 0 then some id else duty
      | .markPendingApproval _ => none
      | _ => duty
  | ⟨.spawn _, _⟩ => none
  | _ => duty

/-- The execution of the hook that a task acts for after its past. -/
def dutyOf (slug : String) (job : Job) (past : Past) : Option String :=
  past.foldl (dutyStep slug) (job.locks? slug)

theorem dutyOf_snoc (slug : String) (job : Job) (past : Past)
    (event : Event Op.Answer) :
    dutyOf slug job (past ++ [event]) =
      dutyStep slug (dutyOf slug job past) event := by
  simp [dutyOf]

/-- The operations without which no execution ends. -/
def Op.begins : Op → Prop
  | .prepareLogFiles _ | .sql (.execution (.update _)) => True
  | _ => False

/-- The execution of the token has ended, as far as its owner goes. -/
def Token.over : Token → Bool
  | .claim _ _ phase | .taking _ phase .. => phase.done
  | .none | .unborn _ | .succeeding .. => false

/-- What a task has last seen at the head of the queue, until it hands the
lock on or releases it. -/
def peekStep (slug : String) (last : Option (Option QueueRow)) :
    Event Op.Answer → Option (Option QueueRow)
  | ⟨.sql (.queue (.peekNext target)), answer⟩ =>
      if target = slug then some (Except.toOption answer).join else last
  | ⟨.sql (.lock (.delete target)), _⟩ =>
      if target = slug then none else last
  | ⟨.sql (.lock (.update target ..)), _⟩ =>
      if target = slug then none else last
  | _ => last

def lastPeek (slug : String) (past : Past) : Option (Option QueueRow) :=
  past.foldl (peekStep slug) none

theorem lastPeek_snoc (slug : String) (past : Past)
    (event : Event Op.Answer) :
    lastPeek slug (past ++ [event]) =
      peekStep slug (lastPeek slug past) event := by
  simp [lastPeek]

/-- The token of a task that is about to hand the lock on to the entry. -/
def Token.takes (token : Token) (entry execution : String) : Prop :=
  ∃ id phase, token = .taking id phase entry execution

/-- What the past of a task shows of its token. -/
structure Trail (slug : String) (job : Job) (past : Past) (token : Token) :
    Prop where
  duty : ∀ id, token.lock = some id → dutyOf slug job past = some id
  begun : token.over = true → ∃ event ∈ past, event.op.begins
  peeked : ∀ entry execution, token.takes entry execution →
    ∃ row, lastPeek slug past = some (some row) ∧ row.id = entry ∧
      row.executionId = execution

section Trail

variable {slug : String} {job : Job} {past : Past} {token after : Token}
  {event : Event Op.Answer}

theorem Trail.step (trail : Trail slug job past token)
    (duty : ∀ id, after.lock = some id →
      dutyStep slug (dutyOf slug job past) event = some id)
    (starts : after.over = true → token.over = true ∨ event.op.begins)
    (takes : ∀ entry execution, after.takes entry execution →
      ∃ row, peekStep slug (lastPeek slug past) event = some (some row) ∧
        row.id = entry ∧ row.executionId = execution) :
    Trail slug job (past ++ [event]) after where
  duty := fun id lock => (dutyOf_snoc ..).trans (duty id lock)
  begun := by
    intro isOver
    rcases starts isOver with before | begins
    · obtain ⟨other, member, begun⟩ := trail.begun before
      exact ⟨other, List.mem_append_left _ member, begun⟩
    · exact ⟨event, List.mem_append_right _ (List.mem_singleton_self _),
        begins⟩
  peeked := fun entry execution isTaking =>
    (lastPeek_snoc ..).symm ▸ takes entry execution isTaking

theorem Token.not_takes {locked : Bool} {id entry execution : String}
    {phase : Phase} :
    ¬ (Token.claim locked id phase).takes entry execution := by
  intro isTaking
  obtain ⟨own, phase, same⟩ := isTaking
  cases same

/-- An event that says nothing about the duty, and a token that stays. -/
theorem Trail.keep (trail : Trail slug job past token)
    (same : after = token)
    (neutral : ∀ duty, dutyStep slug duty event = duty)
    (unseen : ∀ entry execution, token.takes entry execution →
      ∀ last, peekStep slug last event = last) :
    Trail slug job (past ++ [event]) after := by
  subst same
  refine trail.step (fun id lock => ?_) .inl fun entry execution takes => ?_
  · rw [neutral]
    exact trail.duty id lock
  · rw [unseen entry execution takes]
    exact trail.peeked entry execution takes

/-- A token without the lock, of an execution that has not ended. -/
theorem Trail.free (trail : Trail slug job past token)
    (lock : after.lock = none) (idle : after.over = false) :
    Trail slug job (past ++ [event]) after := by
  refine trail.step (fun id isLock => ?_) (fun isOver => ?_)
    fun entry execution takes => ?_
  · rw [lock] at isLock
    cases isLock
  · rw [idle] at isOver
    cases isOver
  · obtain ⟨id, phase, rfl⟩ := takes
    cases lock

end Trail

namespace Watched

variable {watched : Watched} {reliable : Prop} {job : Job} {past : Past}
  {ghost after : Ghost}

theorem trail_ownUpdate {change : ExecutionUpdate} {locked : Bool}
    {id : String} {phase : Phase} {next? : Option Phase}
    {answer : DbResult Nat}
    (trail : Trail watched.slug job past ghost.token)
    (token : ghost.token = .claim locked id phase)
    (advances : watched.advances ghost.role change phase = some next?) :
    Trail watched.slug job
      (past ++ [⟨.sql (.execution (.update change)), answer⟩])
      (.become locked id next?) := by
  have own {next : Phase} (neutral : ∀ duty, dutyStep watched.slug duty
      ⟨.sql (.execution (.update change)), answer⟩ = duty) :
      Trail watched.slug job
        (past ++ [⟨.sql (.execution (.update change)), answer⟩])
        (.claim locked id next) := by
    refine trail.step (fun other lock => ?_) (fun _ => .inr trivial)
      fun _ _ takes => (Token.not_takes takes).elim
    rw [neutral]
    refine trail.duty other ?_
    rw [token]
    cases locked with
    | true => exact lock
    | false => cases lock
  rcases watched.advances_cases advances with
    ⟨_, time, rfl, rfl, rfl, -⟩ |
    ⟨_, status, exitCode, time, rfl, rfl, rfl, -⟩ |
    ⟨_, rfl, rfl, rfl⟩ | ⟨_, rfl, rfl, rfl⟩ | ⟨_, rfl, rfl, rfl⟩ |
    ⟨_, rfl, rfl, rfl, -⟩
  · exact own fun _ => rfl
  · exact own fun _ => rfl
  · exact own fun _ => rfl
  · exact own fun _ => rfl
  · exact own fun _ => rfl
  · exact trail.free rfl rfl

theorem trail_decided {change : ExecutionUpdate} {phase : Phase}
    {rows : Nat} {id : String} {noted : Ghost}
    (trail : Trail watched.slug job past ghost.token)
    (free : noted.token.lock = none ∧ noted.token.over = false)
    (decides : change.decides = some phase) (positive : 0 < rows)
    (target : change.target? = some id)
    (decided : watched.decided noted id phase after) :
    Trail watched.slug job
      (past ++ [⟨.sql (.execution (.update change)), .ok rows⟩])
      after.token := by
  have sets (duty : Option String) : dutyStep watched.slug duty
      ⟨.sql (.execution (.update change)), .ok rows⟩ = some id := by
    cases change with
    | markApproved | markRejected | markExpired =>
        cases target
        exact if_pos positive
    | markRunning | markCompleted | incrementRetryCount | resetToPending
    | resetApproved | markPendingApproval | failRunning => cases decides
  rcases decided with ⟨-, -, rfl⟩ | ⟨-, rfl⟩
  · refine trail.step (fun other lock => ?_) (fun _ => .inr trivial)
      fun _ _ takes => (Token.not_takes takes).elim
    rw [sets]
    cases exclusive : watched.exclusive with
    | true =>
        rw [exclusive] at lock
        exact lock
    | false =>
        rw [exclusive] at lock
        cases lock
  · exact trail.free free.1 free.2

theorem trail_record {statement : ExecutionStatement}
    {answer : DbResult statement.Row}
    (trail : Trail watched.slug job past ghost.token)
    (allowed : watched.allowsRecord ghost statement)
    (moved : watched.movesRecord ghost after statement answer) :
    Trail watched.slug job
      (past ++ [⟨.sql (.execution statement), answer⟩]) after.token := by
  cases statement with
  | insert row =>
      by_cases own : row.hookSlug = watched.slug
      · rw [movesRecord, if_pos own] at moved
        rw [allowsRecord, if_pos own] at allowed
        obtain ⟨-, rfl⟩ := moved
        simp only [Ghost.hold, inserted]
        split
        · rename_i id token
          split
          · exact trail.free rfl rfl
          · rename_i unparked
            refine trail.step (fun other lock => ?_) (fun isOver => ?_)
              fun _ _ takes => (Token.not_takes takes).elim
            · simp only [dutyStep, own, unparked, and_false, if_false]
              exact trail.duty other (token ▸ lock)
            · cases isOver
        · split
          · exact trail.free rfl rfl
          · refine trail.free rfl ?_
            cases watched.exclusive <;> rfl
      · rw [movesRecord, if_neg own] at moved
        rw [allowsRecord, if_neg own] at allowed
        have same : after.token = .none := by
          rcases moved with ⟨-, rfl⟩ | ⟨-, rfl⟩
          · exact allowed.1
          · exact allowed.1
        rw [same]
        exact trail.free rfl rfl
  | selectById id =>
      have same : after.token = ghost.token := by
        simp only [movesRecord] at moved
        split at moved
        · rw [moved.1]
        · split at moved
          · rcases moved.2 with ⟨row, -, -, -, rfl⟩ | ⟨-, rfl⟩ <;> rfl
          · rw [moved.2]
      exact trail.keep same (fun _ => rfl) fun _ _ _ _ => rfl
  | update change =>
      cases token : ghost.token with
      | claim locked id phase =>
          simp only [movesRecord, allowsRecord, token] at moved allowed
          obtain ⟨rfl, rfl⟩ := moved
          obtain ⟨next?, next⟩ := Option.isSome_iff_exists.mp allowed.2
          rw [next]
          exact trail_ownUpdate trail token next
      | none =>
          have freed (same : after.token = .none) :
              Trail watched.slug job (past ++
                [⟨.sql (.execution (.update change)), answer⟩])
                after.token := by
            rw [same]
            exact trail.free rfl rfl
          have noted (changed : Bool) :
              (change.note changed ghost).token = .none := by
            cases change with
            | markApproved =>
                simp only [ExecutionUpdate.note]
                split <;> exact token
            | markRunning | markCompleted | incrementRetryCount
            | resetToPending | resetApproved | markRejected | markExpired
            | markPendingApproval | failRunning => exact token
          cases decides : change.decides with
          | some phase =>
              simp only [movesRecord, token, decides] at moved
              rcases moved with ⟨rows, rfl, positive, id, target, decided⟩ |
                ⟨rfl, rfl⟩
              · refine trail_decided trail ?_ decides positive target decided
                rw [noted]
                exact ⟨rfl, rfl⟩
              · exact freed (noted false)
          | none =>
              simp only [movesRecord, token, decides] at moved
              exact freed (moved ▸ token)
      | unborn id => simp [allowsRecord, token] at allowed
      | taking id phase entry execution =>
          simp [allowsRecord, token] at allowed
      | succeeding entry execution => simp [allowsRecord, token] at allowed
  | selectLatestStarted slug =>
      obtain rfl : after = ghost := moved
      exact trail.keep rfl (fun _ => rfl) fun _ _ _ _ => rfl
  | selectOverdue slug cutoff =>
      obtain ⟨ids, -, rfl⟩ := moved
      refine trail.keep ?_ (fun _ => rfl) fun _ _ _ _ => rfl
      split <;> rfl

theorem trail_lock {statement : LockStatement}
    {answer : DbResult statement.Row}
    (trail : Trail watched.slug job past ghost.token)
    (allowed : watched.allowsLock ghost statement)
    (moved : watched.movesLock ghost after statement answer) :
    Trail watched.slug job
      (past ++ [⟨.sql (.lock statement), answer⟩]) after.token := by
  cases statement with
  | insertOrIgnore slug id acquiredAt =>
      by_cases own : slug = watched.slug
      · simp only [movesLock, if_pos own] at moved
        rcases moved with ⟨rfl, rfl⟩ | ⟨rfl, rfl⟩
        · refine trail.step (fun other lock => ?_) (fun isOver => ?_)
            fun _ _ takes => ?_
          · simp only [dutyStep, own, true_and, if_true]
            exact lock
          · cases isOver
          · obtain ⟨_, _, same⟩ := takes
            cases same
        · refine trail.keep rfl (fun duty => ?_) fun _ _ _ _ => rfl
          simp [dutyStep]
      · simp only [movesLock, if_neg own] at moved
        subst after
        refine trail.keep rfl (fun duty => ?_) fun _ _ _ _ => rfl
        simp [dutyStep, own]
  | delete slug =>
      by_cases own : slug = watched.slug
      · simp only [movesLock, if_pos own] at moved
        subst after
        exact trail.free rfl rfl
      · simp only [movesLock, if_neg own] at moved
        subst after
        refine trail.keep rfl (fun duty => ?_) fun _ _ _ last => ?_
        · simp [dutyStep, own]
        · simp [peekStep, own]
  | update slug id acquiredAt =>
      by_cases own : slug = watched.slug
      · simp only [movesLock, if_pos own] at moved
        obtain ⟨-, old, phase, entry, execution, token, rfl⟩ := moved
        obtain ⟨_, _, _, sameToken⟩ := allowed own
        rw [token] at sameToken
        cases sameToken
        refine trail.step (fun other lock => ?_) (fun isOver => ?_)
          fun _ _ takes => ?_
        · simp only [dutyStep, own, if_true]
          exact lock
        · cases isOver
        · obtain ⟨_, _, same⟩ := takes
          cases same
      · simp only [movesLock, if_neg own] at moved
        subst after
        refine trail.keep rfl (fun duty => ?_) fun _ _ _ last => ?_
        · simp [dutyStep, own]
        · simp [peekStep, own]
  | selectHolder slug =>
      have cases : after = ghost ∨ after = ghost.hold .none := by
        simp only [movesLock] at moved
        split at moved
        · split at moved
          · exact .inl moved.2
          · exact .inr moved.2
          · exact .inl moved.2
        · exact .inl moved
      rcases cases with rfl | rfl
      · exact trail.keep rfl (fun _ => rfl) fun _ _ _ _ => rfl
      · exact trail.free rfl rfl
  | deleteTerminal => exact allowed.elim

theorem trail_queue {statement : QueueStatement}
    {answer : DbResult statement.Row}
    (trail : Trail watched.slug job past ghost.token)
    (allowed : watched.allowsQueue ghost statement)
    (moved : watched.movesQueue ghost after statement answer) :
    Trail watched.slug job
      (past ++ [⟨.sql (.queue statement), answer⟩]) after.token := by
  have kept (same : after.token = ghost.token)
      (unseen : ∀ entry execution, ghost.token.takes entry execution →
        ∀ last, peekStep watched.slug last
          ⟨.sql (.queue statement), answer⟩ = last) :
      Trail watched.slug job (past ++ [⟨.sql (.queue statement), answer⟩])
        after.token := trail.keep same (fun _ => rfl) unseen
  cases statement with
  | enqueue id slug execution queuedAt =>
      by_cases own : slug = watched.slug
      · simp only [movesQueue, if_pos own] at moved
        rcases moved with ⟨-, rfl⟩ | ⟨-, rfl⟩
        · exact trail.free rfl rfl
        · exact kept rfl fun _ _ _ _ => rfl
      · simp only [movesQueue, if_neg own] at moved
        exact kept (moved ▸ rfl) fun _ _ _ _ => rfl
  | selectPosition | countWaiting =>
      exact kept (moved ▸ rfl) fun _ _ _ _ => rfl
  | peekNext slug =>
      by_cases own : slug = watched.slug
      · simp only [allowsQueue, if_pos own] at allowed
        rcases moved with ⟨-, rfl⟩ | ⟨entry, rfl, taken⟩
        · refine kept rfl fun _ _ takes => ?_
          obtain ⟨_, _, token, -⟩ := allowed
          rw [token] at takes
          exact (Token.not_takes takes).elim
        · simp only [if_pos own] at taken
          obtain ⟨id, phase, token, rfl⟩ := taken
          refine trail.step (fun other lock => ?_) (fun isOver => ?_)
            fun _ _ takes => ?_
          · exact trail.duty other (token ▸ lock)
          · exact .inl (token ▸ isOver)
          · obtain ⟨_, _, same⟩ := takes
            cases same
            refine ⟨entry, ?_, rfl, rfl⟩
            simp [peekStep, own, Except.toOption]
      · have same : after.token = ghost.token := by
          rcases moved with ⟨-, rfl⟩ | ⟨entry, -, taken⟩
          · rfl
          · rw [if_neg own] at taken
            subst after
            rfl
        refine kept same fun _ _ _ last => ?_
        simp [peekStep, own]
  | update change =>
      cases change with
      | markReady entry =>
          simp only [movesQueue] at moved
          split at moved
          · rename_i token
            subst after
            refine trail.step (fun other lock => ?_) (fun isOver => ?_)
              fun _ _ takes => (Token.not_takes takes).elim
            · exact trail.duty other (token ▸ lock)
            · cases isOver
          · exact kept (moved ▸ rfl) fun _ _ _ _ => rfl
      | expireForExecution execution =>
          exact kept (moved ▸ rfl) fun _ _ _ _ => rfl
  | expireStale => exact allowed.elim

/-- Every move of the protocol shows in the past. -/
theorem trail_moves {op : Op} {answer : op.Answer}
    (trail : Trail watched.slug job past ghost.token)
    (allowed : watched.allows ghost op)
    (moved : watched.moves reliable ghost op answer after) :
    Trail watched.slug job (past ++ [⟨op, answer⟩]) after.token := by
  cases op with
  | sql statement =>
      cases statement with
      | execution statement => exact trail_record trail allowed moved
      | lock statement => exact trail_lock trail allowed moved
      | queue statement => exact trail_queue trail allowed moved
      | attempt | counter =>
          obtain rfl : after = ghost := moved
          exact trail.keep rfl (fun _ => rfl) fun _ _ _ _ => rfl
  | newId =>
      obtain rfl : after = { ghost with fresh := some answer } := moved
      exact trail.keep rfl (fun _ => rfl) fun _ _ _ _ => rfl
  | loadConfig =>
      obtain rfl : after = ghost := moved.2
      exact trail.keep rfl (fun _ => rfl) fun _ _ _ _ => rfl
  | storeConfig config => exact allowed.elim
  | prepareLogFiles context =>
      simp only [moves] at moved
      split at moved
      · rename_i token
        obtain ⟨-, rfl⟩ := moved
        refine trail.step (fun other lock => ?_) (fun _ => .inr trivial)
          fun _ _ takes => (Token.not_takes takes).elim
        refine trail.duty other ?_
        rw [token]
        simpa [Ghost.hold] using lock
      · subst after
        exact trail.keep rfl (fun _ => rfl) fun _ _ _ _ => rfl
  | spawn child =>
      obtain rfl : after = ghost.hold .none := moved
      exact trail.free rfl rfl
  | now | runProcess | sendRequest | sleep | appendRetryMarker
  | sendNotification =>
      obtain rfl : after = ghost := moved
      exact trail.keep rfl (fun _ => rfl) fun _ _ _ _ => rfl

theorem trail_start (admitted : watched.admits job) :
    Trail watched.slug job [] (watched.start job).token := by
  constructor
  · intro id lock
    cases job with
    | runExecution context retries hook concurrency approval =>
        simp only [start] at lock
        split at lock
        · rename_i own
          have given := (admitted own).1
          cases exclusive : watched.exclusive with
          | true =>
              rw [exclusive] at lock
              have some : concurrency.isSome = true := by
                rw [given]
                exact exclusive
              simp only [dutyOf, List.foldl_nil, Job.locks?, own, some,
                and_self, if_true]
              exact lock
          | false =>
              rw [exclusive] at lock
              cases lock
        · cases lock
    | runDequeued slug execution concurrency approval =>
        simp only [start] at lock
        split at lock
        · rename_i own
          simp only [dutyOf, List.foldl_nil, Job.locks?, own, if_true]
          exact lock
        · cases lock
    | trigger | approve | reject | replay | expirePendingApprovals
    | reloadConfig => cases lock
  · intro isOver
    cases job with
    | runExecution | runDequeued =>
        simp only [start] at isOver
        split at isOver <;> cases isOver
    | trigger | approve | reject | replay | expirePendingApprovals
    | reloadConfig => cases isOver
  · rintro entry execution ⟨id, phase, same⟩
    cases job with
    | runExecution | runDequeued =>
        simp only [start] at same
        split at same <;> cases same
    | trigger | approve | reject | replay | expirePendingApprovals
    | reloadConfig => cases same

end Watched

end Sendword
