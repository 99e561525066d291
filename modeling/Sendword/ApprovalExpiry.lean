import Sendword.Concurrency.Monitor
import Sendword.Concurrency.Record
import Sendword.Footprint
import Sendword.Hook.LockSafety

/-!
# The age of approvals that expire

The sweep goes by the second in which an execution was triggered.  A record
beside the database keeps when the approval was asked for, at once or after
waiting in the queue.
-/

namespace Sendword

open Concurrency

/-- An execution waits for its approval. -/
def Db.awaits (db : Db) (id : String) : Bool :=
  db.executions.any fun row => row.id == id && row.status == .pendingApproval

/-- When each pending approval was asked for: executions that enter
`pending_approval` get the time of the clock. -/
def followApprovals (askedAt : String → Option Instant)
    (before after : World) (id : String) : Option Instant :=
  if after.db.awaits id then
    if before.db.awaits id then askedAt id else some after.clock
  else none

abbrev DatedWorld := Recorded World (String → Option Instant)

def DatedWorld.follow (dated : DatedWorld) (world : World) : DatedWorld where
  state := world
  record := followApprovals dated.record dated.state world

/-- The server with this record, which nothing reads. -/
abbrev datedServer (outside : Outside) :
    Machine DatedWorld Choice Job Op.Answer Response :=
  (server outside).recording followApprovals

abbrev DatedPool := Pool DatedWorld Job Op.Answer Response

/-- The pool has answered a sweep's query for overdue approvals with the
execution, and the pass has not ended. -/
def ChosenBy (task : Task Job Op.Answer Response) (slug id : String) : Prop :=
  task.job = .expirePendingApprovals ∧ task.program.next? ≠ none ∧
    ∃ cutoff ids, id ∈ ids ∧
      (⟨.sql (.execution (.selectOverdue slug cutoff)), .ok ids⟩ :
        Event Op.Answer) ∈ task.trace

/-- The approval of the execution was asked for at least the timeout of its
hook ago. -/
def Ripe (dated : DatedWorld) (slug id : String) : Prop :=
  ∀ hook ∈ dated.state.config.hooks, hook.slug = slug →
    ∀ timeout ∈ hook.approval.bind (·.timeout),
      ∀ askedAt ∈ dated.record id,
        askedAt + timeout ≤ dated.state.clock

/-- The whole second of a timestamp. -/
def Timestamp.second (timestamp : Timestamp) : Int :=
  ((timestamp / 1000 : Nat) : Int) * 1000000000

/-- What a sweep counts of a timeout: nothing, where `chrono` cannot hold
it. -/
def countedTimeout (timeout : Duration) : Int :=
  (chronoDuration timeout).getD 0

/-- The instant at which a pass has read the clock. -/
def passTime? (trace : List (Event Op.Answer)) : Option Instant :=
  trace.findSome? fun event => match event with
    | ⟨.now, time⟩ => some time
    | _ => none

/-- An execution is in the gap between the second of its trigger and the time
at which its approval was asked for, each moved by the timeout. -/
def InGap (now clock : Instant) (timeout : Duration)
    (triggeredAt : Timestamp) (askedAt : Instant) : Prop :=
  triggeredAt.second + countedTimeout timeout ≤ now ∧
    clock < askedAt + timeout

instance (now clock : Instant) (timeout : Duration)
    (triggeredAt : Timestamp) (askedAt : Instant) :
    Decidable (InGap now clock timeout triggeredAt askedAt) :=
  inferInstanceAs (Decidable (_ ∧ _))

/-- The configuration stays, and no execution that waits for approval is in
its gap when a sweep looks for overdue ones. -/
def LooksOutsideGaps (pool : DatedPool) : Label Choice Job → Prop
  | .arrive _ => True
  | .advance index _ =>
      match pool.next? index with
      | some (_, _, .storeConfig _) => False
      | some (_, trace, .sql (.execution (.selectOverdue slug _))) =>
          ∀ now ∈ passTime? trace,
            ∀ hook ∈ pool.state.state.config.hooks, hook.slug = slug →
              ∀ timeout ∈ hook.approval.bind (·.timeout),
                ∀ row ∈ pool.state.state.db.executions,
                  row.hookSlug = slug → row.status = .pendingApproval →
                  ∀ askedAt ∈ pool.state.record row.id,
                    ¬ InGap now pool.state.state.clock timeout
                      row.triggeredAt askedAt
      | _ => True

/-- No approval is asked for again while a sweep is about to expire it. -/
def AsksOnce (pool : DatedPool) : Label Choice Job → Prop
  | .arrive _ => True
  | .advance index _ =>
      match pool.next? index with
      | some (_, _, .sql (.execution (.update change))) =>
          ∀ row ∈ pool.state.state.db.executions,
            row.status ≠ .pendingApproval →
            (change.apply row).status = .pendingApproval →
            ∀ task ∈ pool.tasks, ∀ slug, ¬ ChosenBy task slug row.id
      | _ => True

/-- A sweep that is at its `mark_expired` expires only an execution whose
approval was asked for at least the timeout of its hook ago. -/
def ExpiresLate (pool : DatedPool) : Prop :=
  ∀ index trace id completedAt,
    pool.next? index = some (.expirePendingApprovals, trace,
      .sql (.execution (.update (.markExpired id completedAt)))) →
    ∀ row ∈ pool.state.state.db.executions, row.id = id →
      row.status = .pendingApproval →
      ∀ hook ∈ pool.state.state.config.hooks, hook.slug = row.hookSlug →
        ∀ timeout ∈ hook.approval.bind (·.timeout),
          ∃ askedAt, pool.state.record id = some askedAt ∧
            askedAt + timeout ≤ pool.state.state.clock

/-! ## What a sweep expires -/

/-- The executions that an answer gives. -/
def givenBy : Event Op.Answer → List String
  | ⟨.sql (.execution (.selectOverdue _ _)), .ok ids⟩ => ids
  | _ => []

theorem givenBy_mem {event : Event Op.Answer} {id : String}
    (given : id ∈ givenBy event) :
    ∃ slug cutoff ids, id ∈ ids ∧
      event = ⟨.sql (.execution (.selectOverdue slug cutoff)), .ok ids⟩ := by
  unfold givenBy at given
  split at given
  · rename_i slug cutoff ids
    exact ⟨slug, cutoff, ids, given, rfl⟩
  · cases given

/-- The pass has read a configuration and the clock, and looks for what is
overdue under one of its hooks. -/
def LooksFor (past : List (Event Op.Answer)) (slug : String)
    (cutoff : Int) : Prop :=
  ∃ config now, (⟨.loadConfig, config⟩ : Event Op.Answer) ∈ past ∧
    passTime? past = some now ∧
    ∃ hook ∈ config.hooks, hook.slug = slug ∧
      ∃ timeout ∈ hook.approval.bind (·.timeout),
        expiryCutoff now timeout = some cutoff

/-- A sweep looks for what is overdue, and expires only executions that it
was given. -/
def sweepMonitor : Monitor Job Op.Answer (List (Event Op.Answer)) where
  start _ := []
  next past event := past ++ [event]
  allows past operation :=
    (∀ id completedAt,
      operation = .sql (.execution (.update (.markExpired id completedAt))) →
        id ∈ past.flatMap givenBy) ∧
    ∀ slug cutoff,
      operation = .sql (.execution (.selectOverdue slug cutoff)) →
        LooksFor past slug cutoff

/-- The operations the monitor of a sweep looks at. -/
def Op.ofSweep : Op → Prop
  | .sql (.execution (.update (.markExpired _ _)))
  | .sql (.execution (.selectOverdue _ _)) => True
  | _ => False

theorem sweepMonitor_allows {past : List (Event Op.Answer)} {operation : Op}
    (other : ¬ operation.ofSweep) : sweepMonitor.allows past operation := by
  constructor
  · rintro id completedAt rfl
    exact (other trivial).elim
  · rintro slug cutoff rfl
    exact (other trivial).elim

@[simp] theorem sweepMonitor_memory (job : Job)
    (trace : List (Event Op.Answer)) :
    sweepMonitor.memory job trace = trace := by
  have appended (past : List (Event Op.Answer)) :
      trace.foldl sweepMonitor.next past = past ++ trace := by
    induction trace generalizing past with
    | nil => simp
    | cons event trace induction =>
        rw [List.foldl_cons, induction]
        simp [sweepMonitor]
  exact appended []

/-- What else a pass does is allowed, and forgets nothing. -/
theorem passes_of_avoids {program : Async Unit}
    {before past : List (Event Op.Answer)}
    (avoids : program.Avoids Op.ofSweep) (known : before <+: past) :
    sweepMonitor.Passes program (fun after _ => before <+: after) past :=
  .of_kept avoids (fun _ other _ kept => ⟨sweepMonitor_allows other,
    fun _ => kept.trans (List.prefix_append ..)⟩) known

theorem given_of_prefix {before past : List (Event Op.Answer)} {id : String}
    (known : before <+: past) (given : id ∈ before.flatMap givenBy) :
    id ∈ past.flatMap givenBy := by
  obtain ⟨event, member, gives⟩ := List.mem_flatMap.mp given
  exact List.mem_flatMap.mpr ⟨event, known.subset member, gives⟩

theorem passTime?_mono {before past : List (Event Op.Answer)}
    {now : Instant} (known : before <+: past)
    (time : passTime? before = some now) : passTime? past = some now := by
  obtain ⟨rest, rfl⟩ := known
  unfold passTime? at time ⊢
  rw [List.findSome?_append, time]
  rfl

theorem completeHolder_ofSweep (slug id : String)
    (concurrency : Option ConcurrencyConfig)
    (approval : Option ApprovalConfig) :
    (completeHolder slug id concurrency approval).Avoids Op.ofSweep := by
  unfold completeHolder
  refine Program.Avoids.bind (by simp [getHolder, sql, op, Program.op,
    Op.ofSweep]) fun holder => ?_
  split
  · refine (onExecutionComplete_ofCompletion ..).mono fun op sweeps => ?_
    intro ofCompletion
    unfold Op.ofSweep at sweeps
    split at sweeps
    · exact ofCompletion
    · exact ofCompletion
    · exact sweeps
  · trivial

theorem expireOne_passes (hook : HookConfig) {id : String}
    {before past : List (Event Op.Answer)} (known : before <+: past)
    (given : id ∈ before.flatMap givenBy) :
    sweepMonitor.Passes (expireOne hook id) (fun after _ => before <+: after)
      past := by
  have rest : (do
      let _ ← expireForExecution id
      completeHolder hook.slug id hook.concurrency hook.approval :
        Async Unit).Avoids Op.ofSweep := by
    refine Program.Avoids.bind ?_ fun _ => completeHolder_ofSweep ..
    simp [expireForExecution, sql, Program.op, Op.ofSweep]
  refine ⟨sweepMonitor_allows (by simp [Op.ofSweep]), fun time _ => ?_⟩
  have timed := known.trans
    (List.prefix_append past [(⟨.now, time⟩ : Event Op.Answer)])
  refine ⟨⟨fun other completedAt same => ?_, fun slug cutoff same => ?_⟩,
    fun answer _ => ?_⟩
  · cases same
    exact given_of_prefix timed given
  · cases same
  · cases answer with
    | error error => exact timed.trans (List.prefix_append _ _)
    | ok rows =>
        exact passes_of_avoids rest (timed.trans (List.prefix_append _ _))

theorem expireHooks_passes {config : AppConfig} {now : Instant}
    {hooks : List HookConfig} {past : List (Event Op.Answer)}
    (loaded : (⟨.loadConfig, config⟩ : Event Op.Answer) ∈ past)
    (time : passTime? past = some now)
    (among : ∀ hook ∈ hooks, hook ∈ config.hooks) :
    sweepMonitor.Passes (expireHooks now hooks) (fun _ _ => True) past := by
  induction hooks generalizing past with
  | nil => trivial
  | cons hook hooks induction =>
      have member := among hook List.mem_cons_self
      have others : ∀ other ∈ hooks, other ∈ config.hooks :=
        fun other inside => among other (List.mem_cons_of_mem _ inside)
      unfold expireHooks
      split
      · exact induction loaded time others
      · rename_i timeout limited
        split
        · trivial
        · rename_i cutoff isCutoff
          refine ⟨⟨fun id completedAt same => (by cases same),
            fun slug other same => ?_⟩, fun rows _ => ?_⟩
          · cases same
            exact ⟨config, now, loaded, time, hook, member, rfl, timeout,
              limited, isCutoff⟩
          · let told := past ++ [(⟨.sql (.execution (.selectOverdue hook.slug
              cutoff)), rows⟩ : Event Op.Answer)]
            have given : ∀ id ∈ rows.toOption.getD [],
                id ∈ told.flatMap givenBy := by
              intro id inside
              cases rows with
              | error error => cases inside
              | ok ids =>
                  refine List.mem_flatMap.mpr ⟨_, List.mem_append_right _
                    (List.mem_singleton_self _), ?_⟩
                  exact inside
            have each : sweepMonitor.Passes
                (Program.forEach (rows.toOption.getD []) (expireOne hook))
                (fun after _ => told <+: after) told :=
              .forEach (List.prefix_refl _) fun id inside _ known =>
                expireOne_passes hook known (given id inside)
            refine each.bind fun after _ known => ?_
            have longer := (List.prefix_append past _).trans known
            exact induction (longer.subset loaded)
              (passTime?_mono longer time) others

theorem sweep_passes (outside : Outside) :
    sweepMonitor.Passes (taskBody outside .expirePendingApprovals)
      (fun _ _ => True) [] := by
  refine ⟨sweepMonitor_allows (by simp [Op.ofSweep]), fun config _ => ?_⟩
  refine ⟨sweepMonitor_allows (by simp [Op.ofSweep]), fun now _ => ?_⟩
  exact (expireHooks_passes List.mem_cons_self rfl fun _ inside =>
    inside).bind fun _ _ _ => trivial

/-- What the query compares: the second of the trigger and the timeout. -/
theorem textBefore_iff {triggeredAt : Timestamp} {now : Instant}
    {timeout : Duration} {cutoff : Int}
    (isCutoff : expiryCutoff now timeout = some cutoff) :
    triggeredAt.textBefore cutoff = true ↔
      triggeredAt.second + countedTimeout timeout ≤ now := by
  unfold expiryCutoff at isCutoff
  dsimp only at isCutoff
  split at isCutoff
  · cases isCutoff
  · cases isCutoff
    rw [Timestamp.textBefore, decide_eq_true_eq, Timestamp.second,
      countedTimeout]
    omega

/-! ## What is kept -/

section Runs

variable {outside : Outside} {start pool target : DatedPool}

theorem Db.awaits_of_mem {db : Db} {row : Execution}
    (member : row ∈ db.executions) (waits : row.status = .pendingApproval) :
    db.awaits row.id = true :=
  List.any_eq_true.mpr ⟨row, member, by simp [waits]⟩

/-- Who waits has been asked for, and what a sweep has chosen is still the
ripe execution it was. -/
structure Dated (pool : DatedPool) : Prop where
  keys : pool.state.state.db.Keys
  distinct : (pool.state.state.config.hooks.map (·.slug)).Nodup
  loaded : ∀ task ∈ pool.tasks, ∀ config,
    (⟨.loadConfig, config⟩ : Event Op.Answer) ∈ task.trace →
      config = pool.state.state.config
  asked : ∀ id, pool.state.state.db.awaits id = true →
    ∃ askedAt, pool.state.record id = some askedAt
  chosen : ∀ task ∈ pool.tasks, ∀ slug id, ChosenBy task slug id →
    (∃ row ∈ pool.state.state.db.executions,
        row.id = id ∧ row.hookSlug = slug) ∧
      Ripe pool.state slug id

/-- Only an update asks for the approval of an execution that is recorded
already. -/
theorem Db.awaits_before {db : Db} {row : Execution} (operation : Op)
    (keys : (operation.db db).Keys) (member : row ∈ db.executions)
    (waits : (operation.db db).awaits row.id = true) :
    db.awaits row.id = true ∨
      ∃ change, operation = .sql (.execution (.update change)) ∧
        ∃ before ∈ db.executions, before.id = row.id ∧
          before.status ≠ .pendingApproval ∧
          (change.apply before).status = .pendingApproval := by
  obtain ⟨after, afterIn, fits⟩ := List.any_eq_true.mp waits
  simp only [Bool.and_eq_true, beq_iff_eq] at fits
  obtain ⟨sameId, parked⟩ := fits
  have unchanged (same : (operation.db db).executions = db.executions) :
      db.awaits row.id = true := by
    rw [same] at afterIn
    exact sameId ▸ awaits_of_mem afterIn parked
  cases operation with
  | sql statement =>
      cases statement with
      | execution statement =>
          cases statement with
          | insert new =>
              rcases insert_cases db new with accepted | refused
              · have rowIn : row ∈ (Op.db (.sql (.execution
                    (.insert new))) db).executions := by
                  simp only [Op.db, Statement.exec, accepted]
                  exact List.mem_append_left _ member
                have same := keys.execution_unique afterIn rowIn sameId
                rw [same] at parked
                exact .inl (awaits_of_mem member parked)
              · refine .inl (unchanged ?_)
                simp only [Op.db, Statement.exec, refused]
          | update change =>
              obtain ⟨before, beforeIn, rfl⟩ := List.mem_map.mp afterIn
              rw [change.apply_id] at sameId
              by_cases waited : before.status = .pendingApproval
              · exact .inl (sameId ▸ awaits_of_mem beforeIn waited)
              · exact .inr ⟨change, rfl, before, beforeIn, sameId, waited,
                  parked⟩
          | selectById | selectLatestStarted | selectOverdue =>
              exact .inl (unchanged rfl)
      | lock | queue | attempt | counter =>
          exact .inl (unchanged (executions_exec (by simp)))
  | now | newId | loadConfig | storeConfig | prepareLogFiles | runProcess
  | sendRequest | sleep | appendRetryMarker | sendNotification | spawn =>
      exact .inl (unchanged rfl)

theorem DatedWorld.follow_asked {dated : DatedWorld} (world : World)
    (asked : ∀ id, dated.state.db.awaits id = true →
      ∃ askedAt, dated.record id = some askedAt) :
    ∀ id, world.db.awaits id = true →
      ∃ askedAt, (dated.follow world).record id = some askedAt := by
  intro id waits
  simp only [follow, followApprovals, if_pos waits]
  split
  · rename_i before
    exact asked id before
  · exact ⟨_, rfl⟩

/-- A ripe execution stays ripe unless its approval is asked for again. -/
theorem Ripe.follow {dated : DatedWorld} {world : World} {slug id : String}
    (ripe : Ripe dated slug id) (config : world.config = dated.state.config)
    (clock : dated.state.clock ≤ world.clock)
    (once : world.db.awaits id = true → dated.state.db.awaits id = true) :
    Ripe (dated.follow world) slug id := by
  intro hook member own timeout limited askedAt isAsked
  have inside : hook ∈ dated.state.config.hooks := config ▸ member
  simp only [DatedWorld.follow, followApprovals] at isAsked
  split at isAsked
  · rename_i waits
    rw [if_pos (once waits)] at isAsked
    exact (ripe hook inside own timeout limited askedAt isAsked).trans clock
  · cases isAsked

/-- What a task has been told by the end of a step. -/
theorem ChosenBy.before {job : Job} {trace : List (Event Op.Answer)}
    {event : Event Op.Answer} {old new : Async Response} {slug id : String}
    (running : old.next? ≠ none)
    (chosen : ChosenBy ⟨job, trace ++ [event], new⟩ slug id) :
    ChosenBy ⟨job, trace, old⟩ slug id ∨ ∃ cutoff ids, id ∈ ids ∧
      event = ⟨.sql (.execution (.selectOverdue slug cutoff)), .ok ids⟩ := by
  obtain ⟨isSweep, -, cutoff, ids, inside, member⟩ := chosen
  rcases List.mem_append.mp member with old | new
  · exact .inl ⟨isSweep, running, cutoff, ids, inside, old⟩
  · exact .inr ⟨cutoff, ids, inside, (List.mem_singleton.mp new).symm⟩

/-- A task that has just been started has been told nothing. -/
theorem not_chosenBy_launch {job : Job} {slug id : String} :
    ¬ ChosenBy ((datedServer outside).launch job) slug id := by
  intro chosen
  obtain ⟨-, -, cutoff, ids, -, member⟩ := chosen
  cases member

/-- What the query for overdue approvals tells. -/
theorem selectOverdue_told {choice : Choice} {world state : World}
    {slug id : String} {cutoff : Int} {ids : List String}
    (performed : perform (.sql (.execution (.selectOverdue slug cutoff)))
      choice world = some (.ok ids, state))
    (inside : id ∈ ids) :
    state = world ∧ ∃ row ∈ world.db.executions, row.id = id ∧
      row.hookSlug = slug ∧ row.status = .pendingApproval ∧
      row.triggeredAt.textBefore cutoff = true := by
  simp only [perform, Statement.exec, ExecutionStatement.exec,
    Option.some.injEq, Prod.mk.injEq, Except.ok.injEq] at performed
  obtain ⟨rfl, rfl⟩ := performed
  obtain ⟨row, member, isRow⟩ := List.mem_map.mp inside
  obtain ⟨present, fits⟩ := List.mem_filter.mp member
  simp only [Bool.and_eq_true, beq_iff_eq] at fits
  exact ⟨rfl, row, present, isRow, fits.1.1, fits.1.2, fits.2⟩

/-- What a sweep finds outside of its gap is ripe. -/
theorem Dated.ripe {trace : List (Event Op.Answer)} {program : Async Response}
    {slug : String} {cutoff : Int} {row : Execution} (dated : Dated pool)
    (present : ⟨.expirePendingApprovals, trace, program⟩ ∈ pool.tasks)
    (looksFor : LooksFor trace slug cutoff)
    (outsideGap : ∀ now ∈ passTime? trace,
      ∀ hook ∈ pool.state.state.config.hooks, hook.slug = slug →
        ∀ timeout ∈ hook.approval.bind (·.timeout),
          ∀ askedAt ∈ pool.state.record row.id,
            ¬ InGap now pool.state.state.clock timeout row.triggeredAt
              askedAt)
    (old : row.triggeredAt.textBefore cutoff = true) :
    Ripe pool.state slug row.id := by
  obtain ⟨config, now, loaded, time, hook, member, own, timeout, limited,
    isCutoff⟩ := looksFor
  obtain rfl := dated.loaded _ present config loaded
  intro other inside alsoOwn otherTimeout alsoLimited askedAt isAsked
  obtain rfl : other = hook :=
    List.inj_on_of_nodup_map dated.distinct inside member
      (alsoOwn.trans own.symm)
  cases limited.symm.trans alsoLimited
  refine Nat.le_of_not_lt fun early => ?_
  exact outsideGap now time other member own timeout limited askedAt isAsked
    ⟨(textBefore_iff isCutoff).mp old, early⟩

theorem Dated.step {label : Label Choice Job} (dated : Dated pool)
    (follows : ∀ task ∈ pool.tasks,
      (taskBody outside task.job).Follows task.trace task.program)
    (finds : LooksOutsideGaps pool label) (once : AsksOnce pool label)
    (taken : (datedServer outside).step pool label = some target) :
    Dated target := by
  cases label with
  | arrive job =>
      cases taken
      refine ⟨dated.keys, dated.distinct, fun task member config read => ?_,
        dated.asked, fun task member slug id chosen => ?_⟩
      · rcases List.mem_append.mp member with old | new
        · exact dated.loaded task old config read
        · rw [List.mem_singleton.mp new] at read
          cases read
      · rcases List.mem_append.mp member with old | new
        · exact dated.chosen task old slug id chosen
        · rw [List.mem_singleton.mp new] at chosen
          exact (not_chosenBy_launch chosen).elim
  | advance index choice =>
      obtain ⟨job, trace, operation, next, answer, state, found, performed,
        rfl⟩ := Machine.step_advance taken
      obtain ⟨⟨given, world⟩, acted, same⟩ :=
        Option.map_eq_some_iff.mp performed
      cases same
      change perform operation choice pool.state.state = _ at acted
      have present := List.mem_of_getElem? found
      have clock := perform_clock acted
      simp only [LooksOutsideGaps, Pool.next?_eq found] at finds
      have config : world.config = pool.state.state.config := by
        refine perform_config (fun config same => ?_) acted
        subst same
        exact finds
      have db := perform_db acted
      have keys : world.db.Keys := by
        rw [db]
        cases operation with
        | sql statement => exact Db.keys_exec dated.keys statement
        | _ => exact dated.keys
      have asksOnce : ∀ task ∈ pool.tasks, ∀ slug id,
          ChosenBy task slug id → world.db.awaits id = true →
          pool.state.state.db.awaits id = true := by
        intro task member slug id chosen waits
        obtain ⟨⟨row, inside, rfl, own⟩, ripe⟩ :=
          dated.chosen task member slug id chosen
        rcases Db.awaits_before operation (db ▸ keys) inside (db ▸ waits) with
          before | ⟨change, rfl, before, beforeIn, sameId, waited, parked⟩
        · exact before
        · simp only [AsksOnce, Pool.next?_eq found] at once
          have free := once before beforeIn waited parked task member slug
          exact (free (sameId ▸ chosen)).elim
      have kept : ∀ row ∈ pool.state.state.db.executions,
          ∃ after ∈ world.db.executions,
            after.id = row.id ∧ after.hookSlug = row.hookSlug := by
        intro row member
        rw [db]
        cases operation with
        | sql statement => exact Db.executions_kept statement member
        | _ => exact ⟨row, member, rfl, rfl⟩
      have stays : ∀ task ∈ pool.tasks, ∀ slug id, ChosenBy task slug id →
          (∃ row ∈ world.db.executions,
              row.id = id ∧ row.hookSlug = slug) ∧
            Ripe (DatedWorld.follow pool.state world) slug id := by
        intro task member slug id chosen
        obtain ⟨⟨row, inside, isRow, own⟩, ripe⟩ :=
          dated.chosen task member slug id chosen
        obtain ⟨after, afterIn, sameId, sameSlug⟩ := kept row inside
        exact ⟨⟨after, afterIn, sameId.trans isRow, sameSlug.trans own⟩,
          ripe.follow config clock (asksOnce task member slug id chosen)⟩
      refine ⟨keys, ?_, ?_, DatedWorld.follow_asked world dated.asked, ?_⟩
      · change (world.config.hooks.map (·.slug)).Nodup
        rw [config]
        exact dated.distinct
      · intro task member loaded read
        change loaded = world.config
        rw [config]
        rcases List.mem_append.mp member with old | forked
        · rcases List.mem_or_eq_of_mem_set old with other | rfl
          · exact dated.loaded task other loaded read
          · rcases List.mem_append.mp read with earlier | last
            · exact dated.loaded _ present loaded earlier
            · cases List.mem_singleton.mp last
              cases acted
              rfl
        · simp only [Machine.forked, Option.mem_toList,
            Option.map_eq_some_iff] at forked
          obtain ⟨child, -, rfl⟩ := forked
          cases read
      intro task member slug id chosen
      rcases List.mem_append.mp member with old | forked
      · rcases List.mem_or_eq_of_mem_set old with other | rfl
        · exact stays task other slug id chosen
        · have running : (Program.perform operation next).next? ≠ none := by
            simp [Program.next?]
          rcases ChosenBy.before running chosen with
            earlier | ⟨cutoff, ids, inside, same⟩
          · exact stays _ present slug id earlier
          · cases same
            obtain rfl : job = .expirePendingApprovals := chosen.1
            obtain ⟨rfl, row, member, isRow, own, waits, old⟩ :=
              selectOverdue_told acted inside
            have passes : sweepMonitor.Passes (.perform _ next)
                (fun _ _ => True)
                (sweepMonitor.memory .expirePendingApprovals trace) :=
              (sweep_passes outside).follows (follows _ present)
                fun _ _ => trivial
            rw [sweepMonitor_memory] at passes
            have ripe := dated.ripe present (passes.1.2 slug cutoff rfl)
              (fun now time hook inHooks ofSlug timeout limited =>
                finds now time hook inHooks ofSlug timeout limited row member
                  own waits) old
            rw [isRow] at ripe
            exact ⟨⟨row, member, isRow, own⟩,
              ripe.follow rfl clock fun waits => waits⟩
      · simp only [Machine.forked, Option.mem_toList,
          Option.map_eq_some_iff] at forked
        obtain ⟨child, -, rfl⟩ := forked
        exact (not_chosenBy_launch chosen).elim

theorem Dated.reached (dated : Dated start) (empty : start.tasks = [])
    (run : (datedServer outside).Reaches
      (fun pool label => LooksOutsideGaps pool label ∧
        AsksOnce pool label) start pool) : Dated pool := by
  induction run with
  | refl => exact dated
  | step before admitted taken induction =>
      exact induction.step (Machine.Reaches.follows empty before) admitted.1
        admitted.2 taken

/-- Where no execution is in its gap when a sweep looks, and none is asked for
again under its hands, approvals expire after their full timeout. -/
theorem expires_late (empty : start.tasks = [])
    (keys : start.state.state.db.Keys)
    (distinct : (start.state.state.config.hooks.map (·.slug)).Nodup)
    (asked : ∀ id, start.state.state.db.awaits id = true →
      ∃ askedAt, start.state.record id = some askedAt)
    (run : (datedServer outside).Reaches
      (fun pool label => LooksOutsideGaps pool label ∧
        AsksOnce pool label) start pool) :
    ExpiresLate pool := by
  intro index trace id completedAt next row member isRow waits hook inside
    own timeout limited
  have dated : Dated pool :=
    Dated.reached ⟨keys, distinct, by simp [empty], asked, by simp [empty]⟩
      empty run
  obtain ⟨⟨job, past, program⟩, found, rest⟩ :=
    Option.bind_eq_some_iff.mp next
  obtain ⟨operation, isNext, same⟩ := Option.map_eq_some_iff.mp rest
  simp only [Prod.mk.injEq] at same
  obtain ⟨rfl, rfl, rfl⟩ := same
  have present := List.mem_of_getElem? found
  have follows := Machine.Reaches.follows empty run _ present
  have passes : sweepMonitor.Passes program (fun _ _ => True)
      (sweepMonitor.memory .expirePendingApprovals past) :=
    (sweep_passes outside).follows follows fun _ _ => trivial
  rw [sweepMonitor_memory] at passes
  have told : id ∈ past.flatMap givenBy := by
    cases program with
    | pure value => cases isNext
    | perform operation next =>
        exact passes.1.1 id completedAt (Option.some.inj isNext)
  obtain ⟨event, inTrace, gives⟩ := List.mem_flatMap.mp told
  obtain ⟨slug, cutoff, ids, inIds, rfl⟩ := givenBy_mem gives
  have chosen : ChosenBy ⟨.expirePendingApprovals, past, program⟩ slug id :=
    ⟨rfl, by simp [isNext], cutoff, ids, inIds, inTrace⟩
  obtain ⟨⟨known, knownIn, isKnown, knownSlug⟩, ripe⟩ :=
    dated.chosen _ present slug id chosen
  have sameRow : known = row :=
    dated.keys.execution_unique knownIn member (isKnown.trans isRow.symm)
  have ofSlug : hook.slug = slug := by
    rw [own, ← sameRow, knownSlug]
  have awaits : pool.state.state.db.awaits id = true :=
    isRow ▸ Db.awaits_of_mem member waits
  obtain ⟨askedAt, isAsked⟩ := dated.asked id awaits
  exact ⟨askedAt, isAsked,
    ripe hook inside ofSlug timeout limited askedAt isAsked⟩

end Runs

/-! ## Two sweeps -/

/-- The dated server of a hook, on an empty database. -/
def datedStart (hook : HookConfig) : DatedPool where
  state :=
    { state := (Watched.only hook).started.state
      record := fun _ => none }
  tasks := []

/-- An execution whose approval is asked for 0.9 s after the epoch, and a
sweep that comes to its `mark_expired` at a given time. -/
def sweptAt (instant : Instant) : List ServerLabel :=
  .arrive (.trigger { slug := "deploy" }) ::
    steps 0 1 ++ stepWithId 0 "first" ++ stepsAt 900000000 0 4 ++
  .arrive .expirePendingApprovals :: stepsAt instant 1 4

/-- The sweep looks outside of the gaps, and no record is asked to wait. -/
def sweepsOutside (pool : DatedPool) (label : ServerLabel) : Bool :=
  match label with
  | .arrive _ => true
  | .advance index _ =>
      match pool.next? index with
      | some (_, _, .storeConfig _) => false
      | some (_, trace, .sql (.execution (.selectOverdue _ _))) =>
          (passTime? trace).all fun now =>
            pool.state.state.config.hooks.all fun hook =>
              (hook.approval.bind (·.timeout)).all fun timeout =>
                pool.state.state.db.executions.all fun row =>
                  (pool.state.record row.id).all fun askedAt =>
                    !decide (InGap now pool.state.state.clock timeout
                      row.triggeredAt askedAt)
      | some (_, _, .sql (.execution (.update change))) =>
          pool.state.state.db.executions.all fun row =>
            (change.apply row).status != .pendingApproval
      | _ => true

theorem admitted_of_sweepsOutside {pool : DatedPool} {label : ServerLabel}
    (sweeps : sweepsOutside pool label = true) :
    LooksOutsideGaps pool label ∧ AsksOnce pool label := by
  cases label with
  | arrive job => exact ⟨trivial, trivial⟩
  | advance index choice =>
      simp only [sweepsOutside] at sweeps
      simp only [LooksOutsideGaps, AsksOnce]
      split at sweeps
      · cases sweeps
      · rename_i found
        simp only [found, and_true]
        simp only [List.all_eq_true, Option.all_eq_true, Bool.not_eq_true',
          decide_eq_false_iff_not] at sweeps
        intro now time hook inside own timeout limited row member _ _ askedAt
          isAsked
        exact sweeps now time hook inside timeout limited row member askedAt
          isAsked
      · rename_i found
        simp only [found, true_and]
        intro row member waited parks
        have stays := List.all_eq_true.mp sweeps row member
        simp [parks] at stays
      · rename_i noStore noSelect noUpdate
        constructor
        · split
          · rename_i found
            exact (noStore _ _ _ found).elim
          · rename_i found
            exact (noSelect _ _ _ _ found).elim
          · trivial
        · split
          · rename_i found
            exact (noUpdate _ _ _ found).elim
          · trivial

def lateSweep : DatedPool :=
  ((datedServer .accepting).run sweepsOutside (datedStart gatedDeploy)
    (sweptAt 2000000000)).get (by decide)

theorem expires_late_first :
    ExpiresLate lateSweep ∧
      (lateSweep.next? 1).map (·.2.2) = some (.sql (.execution (.update
        (.markExpired "first" 2000)))) := by
  have reached : (datedServer .accepting).Reaches
      (fun pool label => sweepsOutside pool label = true)
      (datedStart gatedDeploy) lateSweep :=
    .of_run .refl (Option.some_get _).symm
  exact ⟨expires_late rfl (Watched.idle_started _).keys (by decide)
    (by simp [datedStart, Watched.started, Db.awaits])
    (reached.mono fun _ _ sweeps => admitted_of_sweepsOutside sweeps),
    by decide⟩

def earlySweep : DatedPool :=
  ((datedServer .accepting).run (fun _ => triggersAndDecisions)
    (datedStart gatedDeploy) (sweptAt 1000000000)).get (by decide)

/-- An approval with a timeout of 1 s expires after 0.1 s. -/
theorem not_expires_late :
    ¬ ∀ pool, (datedServer .accepting).Reaches
        (fun _ label => triggersAndDecisions label = true)
        (datedStart gatedDeploy) pool →
      ExpiresLate pool := by
  intro late
  have reached := late earlySweep (.of_run .refl (Option.some_get _).symm)
  have next : (earlySweep.next? 1).map
      (fun found => (found.1, found.2.2)) =
        some (.expirePendingApprovals, .sql (.execution (.update
          (.markExpired "first" 1000)))) := by decide
  obtain ⟨⟨job, trace, operation⟩, found, same⟩ :=
    Option.map_eq_some_iff.mp next
  simp only [Prod.mk.injEq] at same
  obtain ⟨rfl, rfl⟩ := same
  have waits : ∃ row ∈ earlySweep.state.state.db.executions,
      row.id = "first" ∧ row.status = .pendingApproval ∧
        ∃ hook ∈ earlySweep.state.state.config.hooks,
          hook.slug = row.hookSlug ∧
            Duration.fromSecs 1 ∈ hook.approval.bind (·.timeout) := by
    decide
  obtain ⟨row, member, isRow, parked, hook, inside, own, limited⟩ := waits
  obtain ⟨askedAt, isAsked, expired⟩ := reached 1 trace "first" 1000 found
    row member isRow parked hook inside own _ limited
  have asked : earlySweep.state.record "first" = some 900000000 := by decide
  have clock : earlySweep.state.state.clock = 1000000000 := by decide
  rw [asked] at isAsked
  rw [clock, ← Option.some.inj isAsked] at expired
  exact absurd expired (by decide)

end Sendword
