import Sendword.Pipeline.Statements

/-!
# One attempt for each trigger

The start of an execution, the refusals, and the whole of `trigger_hook`.
-/

namespace Sendword

open Concurrency

variable {stage : Stage} {world middle after : World}
  {trace first second : List (Event Op.Answer)}
  {outside : Outside}

/-! ## The start of an execution -/

/-- The request was accepted: one record and one attempt that names it. -/
structure Accepted (slug sourceIp : String) (before after : Db)
    (attempt : TriggerAttempt) : Prop where
  status : attempt.status.refusedAt = none
  hook : attempt.hookSlug = slug
  source : attempt.sourceIp = sourceIp
  linked : ∃ record : Execution, attempt.executionId = some record.id ∧
    record.hookSlug = slug ∧
    after.executions = before.executions ++ [record]
  logged : after.attempts = before.attempts ++ [attempt]

theorem accepted_of_rows {before after : Db} {new : NewTriggerAttempt}
    {record : Execution} {attemptId : String} {attemptedAt : Timestamp}
    (logged : after.attempts =
      before.attempts ++ [new.row attemptId attemptedAt])
    (inserted : after.executions = before.executions ++ [record])
    (status : new.status.refusedAt = none)
    (linked : new.executionId = some record.id)
    (about : record.hookSlug = new.hookSlug) :
    Accepted new.hookSlug new.sourceIp before after
      (new.row attemptId attemptedAt) where
  status := status
  hook := rfl
  source := rfl
  linked := ⟨record, linked, about, inserted⟩
  logged := logged

theorem runs_startExecution {config : AppConfig} {hook : HookConfig}
    {slug sourceIp payload id : String} {new : NewExecution}
    {response : Response} (named : new.id = some id)
    (about : new.hookSlug = slug)
    (runs : RunsAlone
      (startExecution outside config hook slug sourceIp payload new) world
      trace response after)
    (sound : Sound trace) :
    ∃ attempt, Accepted slug sourceIp world.db after.db attempt := by
  obtain ⟨_, created, stored, _, rfl, creates, later⟩ :=
    runs_bind_eq.mp runs
  obtain ⟨time, exec, rfl, sameId, inserted⟩ :=
    runs_create named creates sound.append.1
  obtain ⟨_, _, audited, _, rfl, inserts, spawns⟩ := runs_bind_eq.mp later
  obtain ⟨attemptId, attemptedAt, logged⟩ :=
    runs_insertAttempt inserts sound.append.2.append.1
  obtain ⟨_, _, last, _, rfl, spawned, ended⟩ := runs_bind_eq.mp spawns
  obtain ⟨rfl, -, rfl⟩ := runs_return.mp ended
  obtain ⟨-, choice, performed⟩ := runs_op.mp spawned
  cases performed
  rw [inserted] at logged
  have attempts : after.db.attempts = world.db.attempts ++ [_] :=
    congrArg Db.attempts logged
  have executions : after.db.executions = world.db.executions ++ [_] :=
    congrArg Db.executions logged
  exact ⟨_, accepted_of_rows attempts executions rfl
    (congrArg some sameId) about⟩

theorem runs_passApproval {config : AppConfig} {hook : HookConfig}
    {slug sourceIp payload id : String} {new : NewExecution}
    {response : Response} (named : new.id = some id)
    (about : new.hookSlug = slug)
    (runs : RunsAlone
      (passApproval outside config hook slug sourceIp payload new) world
      trace response after)
    (sound : Sound trace) :
    ∃ attempt, Accepted slug sourceIp world.db after.db attempt := by
  unfold passApproval at runs
  split at runs
  · obtain ⟨_, created, stored, _, rfl, creates, later⟩ :=
      runs_bind_eq.mp runs
    have stillNamed : ({ new with status := some .pendingApproval } :
        NewExecution).id = some id := named
    obtain ⟨time, exec, rfl, sameId, inserted⟩ :=
      runs_create stillNamed creates sound.append.1
    obtain ⟨_, _, audited, _, rfl, inserts, ended⟩ := runs_bind_eq.mp later
    obtain ⟨attemptId, attemptedAt, logged⟩ :=
      runs_insertAttempt inserts sound.append.2.append.1
    obtain ⟨rfl, -, rfl⟩ := runs_return.mp ended
    rw [inserted] at logged
    have attempts : after.db.attempts = world.db.attempts ++ [_] :=
      congrArg Db.attempts logged
    have executions : after.db.executions = world.db.executions ++ [_] :=
      congrArg Db.executions logged
    exact ⟨_, accepted_of_rows attempts executions rfl
      (congrArg some sameId) about⟩
  · exact runs_startExecution named about runs sound

/-! ## The whole pipeline -/

/-- One stage refused the request: nothing of a later stage has happened,
and what the later stages use is as it was. -/
structure RefusedBy (stage : Stage) (slug sourceIp : String)
    (trace : List (Event Op.Answer)) (before after : Db)
    (attempt : TriggerAttempt) : Prop where
  status : attempt.status.refusedAt = some stage
  hook : attempt.hookSlug = slug
  source : attempt.sourceIp = sourceIp
  unlinked : attempt.executionId = none
  logged : after.attempts = before.attempts ++ [attempt]
  executions : after.executions = before.executions
  locks : after.locks = before.locks
  queue : after.queue = before.queue
  counters : stage.rank < Stage.rateLimit.rank →
    after.counters = before.counters
  early : ∀ event ∈ trace, ¬ event.op.after stage

/-- A refusal before the barriers, from what has run before it. -/
theorem refusedBy_of_logRejection {α : Type} {program : Async α} {value : α}
    {slug sourceIp reason : String} {status : TriggerAttemptStatus}
    {result : Unit}
    (runs : RunsAlone program world first value middle)
    (silent : program.Avoids Op.audits)
    (early : ∀ event ∈ first, ¬ event.op.after stage)
    (before : stage.rank < Stage.concurrency.rank)
    (isStatus : status.refusedAt = some stage)
    (logs : RunsAlone (logRejection slug sourceIp status reason) middle second
      result after)
    (sound : Sound second) :
    ∃ attempt, RefusedBy stage slug sourceIp (first ++ second) world.db
      after.db attempt := by
  obtain ⟨attempt, rfl, rfl, rfl, unlinked, written⟩ :=
    runs_logRejection logs sound
  have attempts := runs_part (·.attempts) runs fun event member =>
    Op.attempts_db (runs.avoids silent event member)
  have executions := runs_part (·.executions) runs fun event member =>
    Op.executions_db (early event member)
  have barriers := runs_part (·.barriers) runs fun event member =>
    Op.barriers_db (early event member) before
  refine ⟨attempt,
    { status := isStatus
      hook := rfl
      source := rfl
      unlinked
      logged := ?_
      executions := ?_
      locks := ?_
      queue := ?_
      counters := fun beforeCount => ?_
      early := ?_ }⟩
  · rw [written, ← attempts]
  · rw [written, ← executions]
  · rw [written]
    exact congrArg Prod.fst barriers
  · rw [written]
    exact congrArg Prod.snd barriers
  · rw [written]
    exact runs_part (·.counters) runs fun event member =>
      Op.counters_db (early event member) beforeCount
  · intro event member
    rcases List.mem_append.mp member with ran | logged
    · exact early event ran
    · exact logs.avoids (logRejection_early _ _ _ _) event logged

/-- What has run before a part of the pipeline. -/
structure LetThrough (stage : Stage) (trace : List (Event Op.Answer))
    (before after : Db) : Prop where
  executions : after.executions = before.executions
  barriers : after.barriers = before.barriers
  attempts : after.attempts = before.attempts
  early : ∀ event ∈ trace, ¬ event.op.after stage

theorem Accepted.behind {slug sourceIp : String} {before between final : Db}
    {attempt : TriggerAttempt}
    (accepted : Accepted slug sourceIp between final attempt)
    (ran : LetThrough stage first before between) :
    Accepted slug sourceIp before final attempt where
  status := accepted.status
  hook := accepted.hook
  source := accepted.source
  linked := ran.executions ▸ accepted.linked
  logged := ran.attempts ▸ accepted.logged

/-- A refusal by the last stage, behind the others. -/
theorem RefusedBy.behind {slug sourceIp : String} {before between final : Db}
    {attempt : TriggerAttempt}
    (refused : RefusedBy .concurrency slug sourceIp second between final
      attempt)
    (ran : LetThrough .concurrency first before between) :
    RefusedBy .concurrency slug sourceIp (first ++ second) before final
      attempt where
  status := refused.status
  hook := refused.hook
  source := refused.source
  unlinked := refused.unlinked
  logged := ran.attempts ▸ refused.logged
  executions := refused.executions.trans ran.executions
  locks := refused.locks.trans (congrArg Prod.fst ran.barriers)
  queue := refused.queue.trans (congrArg Prod.snd ran.barriers)
  counters := fun early => by simp [Stage.rank] at early
  early := by
    intro event member
    rcases List.mem_append.mp member with old | new
    · exact ran.early event old
    · exact refused.early event new

theorem letThrough_newId {id : String}
    (runs : RunsAlone newId world trace id after) :
    LetThrough stage trace world.db after.db := by
  have same := (untouched_of_newId runs).db
  have avoids : newId.Avoids (Op.after stage) :=
    ⟨fun isAfter => isAfter, fun _ => trivial⟩
  exact ⟨by rw [same], by rw [same], by rw [same], runs.avoids avoids⟩

theorem refusedBy_of_rejected {slug sourceIp reason id : String}
    {time : Timestamp} {before after : Db}
    (written : after = { before with
      attempts := before.attempts ++
        [NewTriggerAttempt.row
          { hookSlug := slug, sourceIp, status := .concurrencyRejected, reason
            executionId := none } id time] })
    (early : ∀ event ∈ trace, ¬ event.op.after .concurrency) :
    RefusedBy .concurrency slug sourceIp trace before after
      (NewTriggerAttempt.row
        { hookSlug := slug, sourceIp, status := .concurrencyRejected, reason
          executionId := none } id time) where
  status := rfl
  hook := rfl
  source := rfl
  unlinked := rfl
  logged := by rw [written]
  executions := by rw [written]
  locks := by rw [written]
  queue := by rw [written]
  counters := fun _ => by rw [written]
  early := early

/-- Once the rules have let the request pass, it is accepted or refused by
the concurrency barrier. -/
theorem runs_passBarriers {config : AppConfig} {hook : HookConfig}
    {slug sourceIp payload : String} {response : Response}
    (runs : RunsAlone
      (passBarriers outside config hook slug sourceIp payload) world trace
      response after)
    (sound : Sound trace) :
    ∃ attempt, Accepted slug sourceIp world.db after.db attempt ∨
      RefusedBy .concurrency slug sourceIp trace world.db after.db
        attempt := by
  obtain ⟨_, execId, named, _, rfl, draws, later⟩ := runs_bind_eq.mp runs
  have ran : LetThrough .concurrency _ world.db named.db := letThrough_newId draws
  have sound := sound.append.2
  dsimp only at later
  split at later
  · obtain ⟨attempt, accepted⟩ := runs_passApproval rfl rfl later sound
    exact ⟨attempt, .inl (accepted.behind ran)⟩
  · obtain ⟨_, outcome, evaluated, _, rfl, evaluates, ended⟩ :=
      runs_bind_eq.mp later
    have barred := runs_evaluate rfl evaluates sound.append.1
    have sound := sound.append.2
    cases barred with
    | proceed locks written =>
        obtain ⟨attempt, accepted⟩ := runs_passApproval rfl rfl ended sound
        rw [written] at accepted
        have locked : Accepted slug sourceIp named.db after.db attempt :=
          ⟨accepted.status, accepted.hook, accepted.source, accepted.linked,
            accepted.logged⟩
        exact ⟨attempt, .inl (locked.behind ran)⟩
    | reject reason unchanged early =>
        obtain ⟨_, _, logged, _, rfl, logs, rest⟩ := runs_bind_eq.mp ended
        obtain ⟨rfl, -, rfl⟩ := runs_return.mp rest
        obtain ⟨id, time, written⟩ := runs_insertAttempt logs sound.append.1
        rw [unchanged] at written
        refine ⟨_, .inr (RefusedBy.behind (refusedBy_of_rejected written
          fun event member => ?_) ran)⟩
        rcases List.mem_append.mp member with barrier | rest
        · exact early event barrier
        · rw [List.append_nil] at rest
          exact logs.avoids (insertAttempt_early _) event rest
    | defer queue time reason written =>
        obtain ⟨_, _, logged, _, rfl, logs, rest⟩ := runs_bind_eq.mp ended
        obtain ⟨rfl, -, rfl⟩ := runs_return.mp rest
        obtain ⟨id, attemptedAt, logged⟩ :=
          runs_insertAttempt logs sound.append.1
        rw [written] at logged
        have attempts : after.db.attempts = named.db.attempts ++ [_] :=
          congrArg Db.attempts logged
        have executions : after.db.executions = named.db.executions ++ [_] :=
          congrArg Db.executions logged
        exact ⟨_, .inl ((accepted_of_rows attempts executions rfl rfl
          rfl).behind ran)⟩

theorem Op.early_of_rules {op : Op}
    (rule : op.ofSchedule ∨ op.ofRateLimit) :
    ¬ op.after .rateLimit ∧ ¬ op.audits := by
  cases op with
  | sql statement =>
      cases statement with
      | execution statement =>
          cases statement with
          | selectLatestStarted =>
              exact ⟨by simp [Op.after, Stage.rank], fun audits => audits⟩
          | insert | selectById | update | selectOverdue =>
              exact (or_self_iff.mp rule).elim
      | counter =>
          exact ⟨fun later => lt_irrefl _ later, fun audits => audits⟩
      | lock | queue | attempt => exact (or_self_iff.mp rule).elim
  | now => exact ⟨fun later => later, fun audits => audits⟩
  | newId | loadConfig | storeConfig | prepareLogFiles | runProcess
  | sendRequest | sleep | appendRetryMarker | sendNotification | spawn =>
      exact (or_self_iff.mp rule).elim

/-- The rules write nothing but the counters. -/
theorem letThrough_evaluateRules {hook : HookConfig} {slug payload : String}
    {result : Option Refusal}
    (runs : RunsAlone (evaluateRules outside hook slug payload) world trace
      result after) : LetThrough .concurrency trace world.db after.db := by
  have rules (event : Event Op.Answer) (member : event ∈ trace) :=
    Op.early_of_rules (not_not.mp
      (runs.avoids (evaluateRules_ofRules outside hook slug payload) event
        member))
  exact
    { executions := runs_part (·.executions) runs fun event member =>
        Op.executions_db (rules event member).1
      barriers := runs_part (·.barriers) runs fun event member =>
        Op.barriers_db (rules event member).1 (by decide)
      attempts := runs_part (·.attempts) runs fun event member =>
        Op.attempts_db (rules event member).2
      early := fun event member isAfter =>
        (rules event member).1 (Op.after_of_le (by decide) isAfter) }

theorem evaluateRules_silent (hook : HookConfig) (slug payload : String) :
    (evaluateRules outside hook slug payload).Avoids Op.audits :=
  (evaluateRules_ofRules outside hook slug payload).mono
    fun _ audits rule => (Op.early_of_rules rule).2 audits

theorem RefusedBy.prepend {slug sourceIp : String} {before after : Db}
    {attempt : TriggerAttempt} {event : Event Op.Answer}
    (refused : RefusedBy stage slug sourceIp trace before after attempt)
    (quiet : ¬ event.op.after stage) :
    RefusedBy stage slug sourceIp (event :: trace) before after attempt :=
  { refused with
    early := by
      intro other member
      rcases List.mem_cons.mp member with rfl | rest
      · exact quiet
      · exact refused.early other rest }

/-- Nothing has run yet. -/
theorem refusedBy_at_once (stage : Stage) {slug sourceIp reason : String}
    {status : TriggerAttemptStatus} {result : Unit}
    (before : stage.rank < Stage.concurrency.rank)
    (isStatus : status.refusedAt = some stage)
    (logs : RunsAlone (logRejection slug sourceIp status reason) world trace
      result after)
    (sound : Sound trace) :
    ∃ attempt,
      RefusedBy stage slug sourceIp trace world.db after.db attempt :=
  refusedBy_of_logRejection (.pure () world) trivial (by simp) before isStatus
    logs sound

/-- What a handled request leaves behind. -/
structure Audited (request : TriggerRequest)
    (trace : List (Event Op.Answer)) (before after : Db)
    (attempt : TriggerAttempt) : Prop where
  hook : attempt.hookSlug = request.slug
  source : attempt.sourceIp = request.sourceIp
  logged : after.attempts = before.attempts ++ [attempt]
  created : attempt.status = .fired ∨ attempt.status = .pendingApproval →
    ∃ record : Execution, attempt.executionId = some record.id ∧
      record.hookSlug = request.slug ∧
      after.executions = before.executions ++ [record]
  refused : ∀ stage, attempt.status.refusedAt = some stage →
    RefusedBy stage request.slug request.sourceIp trace before after attempt

theorem audited_of_accepted {request : TriggerRequest} {before after : Db}
    {attempt : TriggerAttempt}
    (accepted : Accepted request.slug request.sourceIp before after attempt) :
    Audited request trace before after attempt where
  hook := accepted.hook
  source := accepted.source
  logged := accepted.logged
  created := fun _ => accepted.linked
  refused := by
    intro stage refused
    rw [accepted.status] at refused
    cases refused

theorem audited_of_refused {request : TriggerRequest} {before after : Db}
    {attempt : TriggerAttempt}
    (refused : RefusedBy stage request.slug request.sourceIp trace before after
      attempt) : Audited request trace before after attempt where
  hook := refused.hook
  source := refused.source
  logged := refused.logged
  created := by
    have status := refused.status
    rintro (fired | pending)
    · rw [fired] at status
      cases status
    · rw [pending] at status
      cases status
  refused := by
    intro other isOther
    rw [refused.status] at isOther
    cases isOther
    exact refused

/-- Every request to an enabled hook, run alone without a failing statement,
adds one attempt.  A fired or pending one names the one new record; any other
names the stage that refused the request, nothing of a later stage has
happened, and the records, the lock, the queue and, before the rate limit,
the counters are as they were. -/
theorem one_attempt (outside : Outside) (request : TriggerRequest)
    {hook : HookConfig} {response : Response}
    (enabled : world.config.hooks.find?
      (fun hook => hook.slug == request.slug && hook.enabled) = some hook)
    (runs : RunsAlone (triggerHook outside request) world trace response
      after)
    (sound : Sound trace) :
    ∃ attempt, Audited request trace world.db after.db attempt := by
  obtain ⟨_, config, loaded, rest, rfl, loads, later⟩ := runs_bind_eq.mp runs
  obtain ⟨rfl, choice, performed⟩ := runs_op.mp loads
  cases performed
  have sound := sound.append.2
  have quiet (stage : Stage) :
      ¬ (⟨.loadConfig, world.config⟩ : Event Op.Answer).op.after stage :=
    fun isAfter => isAfter
  rw [enabled] at later
  dsimp only at later
  split at later
  · -- the credentials are wrong
    obtain ⟨_, _, _, _, rfl, logs, ended⟩ := runs_bind_eq.mp later
    obtain ⟨rfl, -, rfl⟩ := runs_return.mp ended
    rw [List.append_nil] at sound ⊢
    obtain ⟨attempt, refused⟩ :=
      refusedBy_at_once .auth (by decide) rfl logs sound
    exact ⟨attempt, audited_of_refused (refused.prepend (quiet _))⟩
  · split at later
    · -- the body is not what the schema asks for
      obtain ⟨_, _, _, _, rfl, logs, ended⟩ := runs_bind_eq.mp later
      obtain ⟨rfl, -, rfl⟩ := runs_return.mp ended
      rw [List.append_nil] at sound ⊢
      obtain ⟨attempt, refused⟩ :=
        refusedBy_at_once .body (by decide) rfl logs sound
      exact ⟨attempt, audited_of_refused (refused.prepend (quiet _))⟩
    · obtain ⟨_, refusal, evaluated, _, rfl, evaluates, decides⟩ :=
        runs_bind_eq.mp later
      have sound := sound.append.2
      cases refusal with
      | some refusal =>
          obtain ⟨stage, before, status, early⟩ :=
            evaluateRules_refused evaluates
          obtain ⟨_, _, _, _, rfl, logs, ended⟩ := runs_bind_eq.mp decides
          obtain ⟨rfl, -, rfl⟩ := runs_return.mp ended
          rw [List.append_nil] at sound ⊢
          obtain ⟨attempt, refused⟩ := refusedBy_of_logRejection evaluates
            (evaluateRules_silent _ _ _) early before status logs sound
          exact ⟨attempt, audited_of_refused (refused.prepend (quiet _))⟩
      | none =>
          have ran := letThrough_evaluateRules evaluates
          obtain ⟨attempt, accepted | refused⟩ :=
            runs_passBarriers decides sound
          · exact ⟨attempt, audited_of_accepted (accepted.behind ran)⟩
          · exact ⟨attempt, audited_of_refused
              ((refused.behind ran).prepend (quiet _))⟩

/-! ## A request that the rate limit refuses -/

/-- A hook that may be triggered once a minute. -/
def limitedDeploy : HookConfig :=
  { name := "deploy"
    slug := "deploy"
    executor := .shell "true"
    rateLimit := some { maxPerMinute := 1 }
    concurrency := some { mode := .mutex } }

/-- The budget of the first minute is spent. -/
def spentWorld : World :=
  { config := { hooks := [limitedDeploy] }
    db := { counters := [
      { hookSlug := "deploy", windowStart := 0, count := 1 }] } }

def limitedChoices : List Choice :=
  [{}, {}, {}, {}, { id := "attempt" }, {}, {}, {}]

def limitedRun : List (Event Op.Answer) × Response × World :=
  (play perform (triggerHook .accepting { slug := "deploy" }) limitedChoices
    spentWorld).get (by decide)

theorem one_attempt_limited :
    (∃ attempt, Audited { slug := "deploy" } limitedRun.1 spentWorld.db
      limitedRun.2.2.db attempt) ∧
      limitedRun.2.2.db.attempts.map (·.status) = [.rateLimited] := by
  have played : play perform (triggerHook .accepting { slug := "deploy" })
      limitedChoices spentWorld = some limitedRun := (Option.some_get _).symm
  have enabled : spentWorld.config.hooks.find?
      (fun hook => hook.slug == "deploy" && hook.enabled) =
        some limitedDeploy := by decide
  have sound : ∀ event ∈ limitedRun.1, failed event = false := by decide
  exact ⟨one_attempt .accepting { slug := "deploy" } enabled (.of_play played)
    sound, by decide⟩

end Sendword
