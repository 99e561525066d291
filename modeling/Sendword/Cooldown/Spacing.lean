import Sendword.Concurrency.Record
import Sendword.Cooldown.Knowledge
import Sendword.Hook.SingleToken

/-!
# The spacing of executions under a cooldown

The check reads the latest start that the table still has.  What it cannot
see are executions that have passed their own check and not started yet, and
starts that a retry has cleared.
-/

namespace Sendword

open Concurrency

/-- The first start of every execution; a retry clears the column, not the
record. -/
def firstStarts (first : String → Option Timestamp) (_ after : World)
    (id : String) : Option Timestamp :=
  first id <|> (after.db.execution? id).bind (·.startedAt)

abbrev StartedWorld := Recorded World (String → Option Timestamp)

/-- The server with this record, which nothing reads. -/
abbrev startServer (outside : Outside) :
    Machine StartedWorld Choice Job Op.Answer Response :=
  (server outside).recording firstStarts

abbrev StartedPool := Pool StartedWorld Job Op.Answer Response

/-- The task is the trigger of the hook that has recorded the execution, and
so has passed the cooldown check. -/
def Records (slug id : String) (task : ServerTask) : Prop :=
  (∃ request, task.job = .trigger request ∧ request.slug = slug) ∧
    ∃ row, row.id = id ∧
      (⟨.sql (.execution (.insert row)), .ok ()⟩ : Event Op.Answer) ∈
        task.trace

def PassedCheck (slug : String) (pool : StartedPool) (id : String) : Prop :=
  ∃ task ∈ pool.tasks, Records slug id task

/-- The first starts of two executions that passed the check are at least
the cooldown apart. -/
def Spaced (slug : String) (cooldown : Duration) (pool : StartedPool) :
    Prop :=
  ∀ first second, PassedCheck slug pool first →
    PassedCheck slug pool second → first ≠ second →
    ∀ start ∈ pool.state.record first, ∀ other ∈ pool.state.record second,
      start * 1000000 + cooldown ≤ other * 1000000 ∨
        other * 1000000 + cooldown ≤ start * 1000000

/-- The cooldown check of the task has read a start that is not before the
given one. -/
def Sees (slug : String) (task : ServerTask) (started : Timestamp) : Prop :=
  ∀ answer, (⟨.sql (.execution (.selectLatestStarted slug)), answer⟩ :
      Event Op.Answer) ∈ task.trace →
    ∃ latest time, answer = .ok (some latest) ∧
      latest.startedAt = some time ∧ started ≤ time

/-- When an execution first starts, the check of its trigger has seen the
first starts of the others. -/
def SeesStarts (slug : String) (pool : StartedPool) : ServerLabel → Prop
  | .arrive _ => True
  | .advance index _ =>
      match pool.next? index with
      | some (_, _, .sql (.execution (.update (.markRunning id _)))) =>
          pool.state.record id = none →
            ∀ task ∈ pool.tasks, Records slug id task →
              ∀ other, PassedCheck slug pool other →
                ∀ started ∈ pool.state.record other, Sees slug task started
      | _ => True

/-- Jobs arrive as requests and passes of the sweep. -/
def Requested : ServerLabel → Prop
  | .arrive job => job.external
  | .advance .. => True

/-! ## What a trace says -/

/-- The execution has a record. -/
def Db.Has (db : Db) (id : String) : Prop :=
  ∃ row ∈ db.executions, row.id = id

theorem Db.Has.kept {db : Db} {id : String} (has : db.Has id)
    (operation : Op) : (operation.db db).Has id := by
  obtain ⟨row, member, rfl⟩ := has
  cases operation with
  | sql statement =>
      obtain ⟨after, inside, same, -⟩ := executions_kept statement member
      exact ⟨after, inside, same⟩
  | _ => exact ⟨row, member, rfl⟩

/-- Keys of records are not given twice. -/
theorem not_has_of_inserted {row : Execution} {choice : Choice}
    {world state : World}
    (performed : perform (.sql (.execution (.insert row))) choice world =
      some (.ok (), state)) :
    ¬ world.db.Has row.id := by
  rintro ⟨twin, inside, sameId⟩
  simp only [perform, Statement.exec, ExecutionStatement.exec,
    Option.some.injEq, Prod.mk.injEq] at performed
  have duplicate : (world.db.executions.any fun other =>
      other.id == row.id) = true :=
    List.any_eq_true.mpr ⟨twin, inside, by simp [sameId]⟩
  simp [duplicate] at performed

section Traces

variable {watched : Watched} {cooldown : Duration} {job : Job}
  {trace : List (Event Op.Answer)}

theorem exempt_next (knowledge : Knowledge) (event : Event Op.Answer) :
    ((startMonitor watched cooldown).next knowledge event).exempt =
      knowledge.exempt := by
  simp only [startMonitor]
  split
  · rfl
  · rfl
  · split <;> rfl
  · rfl
  · rfl

/-- Whether a task needs no check is settled by its job. -/
theorem exempt_memory :
    ((startMonitor watched cooldown).memory job trace).exempt =
      ((startMonitor watched cooldown).start job).exempt := by
  induction trace using List.reverseRecOn with
  | nil => rfl
  | append_singleton trace event induction =>
      rw [Monitor.memory_snoc, exempt_next, induction]

/-- What has been recorded is remembered with its check. -/
theorem born_of_insert {row : Execution}
    (inserted : (⟨.sql (.execution (.insert row)), .ok ()⟩ :
      Event Op.Answer) ∈ trace) :
    ∃ check, (row.id, check) ∈
      ((startMonitor watched cooldown).memory job trace).born := by
  induction trace using List.reverseRecOn with
  | nil => cases inserted
  | append_singleton trace event induction =>
      rw [Monitor.memory_snoc]
      rcases List.mem_append.mp inserted with old | new
      · obtain ⟨check, member⟩ := induction old
        refine ⟨check, ?_⟩
        simp only [startMonitor] at member ⊢
        split
        · exact member
        · exact member
        · split <;> exact member
        · exact List.mem_cons_of_mem _ member
        · exact member
      · rw [← List.mem_singleton.mp new]
        exact ⟨_, List.mem_cons_self⟩

/-- A remembered check is one the task has made. -/
theorem checked_of_memory {now : Instant} {latest : Option Execution} :
    (((startMonitor watched cooldown).memory job trace).check =
        some (now, latest) →
      (⟨.sql (.execution (.selectLatestStarted watched.slug)), .ok latest⟩ :
        Event Op.Answer) ∈ trace) ∧
    ∀ id, (id, some (now, latest)) ∈
        ((startMonitor watched cooldown).memory job trace).born →
      (⟨.sql (.execution (.selectLatestStarted watched.slug)), .ok latest⟩ :
        Event Op.Answer) ∈ trace := by
  induction trace using List.reverseRecOn with
  | nil => exact ⟨fun same => (by cases same), fun id member => (by cases member)⟩
  | append_singleton trace event induction =>
      obtain ⟨checked, born⟩ := induction
      have earlier {event other : Event Op.Answer} (member : other ∈ trace) :
          other ∈ trace ++ [event] := List.mem_append_left _ member
      rw [Monitor.memory_snoc]
      simp only [startMonitor] at checked born ⊢
      split
      · exact ⟨fun same => earlier (checked same),
          fun id member => earlier (born id member)⟩
      · exact ⟨fun same => earlier (checked same),
          fun id member => earlier (born id member)⟩
      · split
        · rename_i slug answer own
          refine ⟨fun same => ?_, fun id member => earlier (born id member)⟩
          obtain ⟨stamp, -, isCheck⟩ := Option.map_eq_some_iff.mp same
          cases isCheck
          subst own
          exact List.mem_append_right _ (List.mem_singleton_self _)
        · exact ⟨fun same => earlier (checked same),
            fun id member => earlier (born id member)⟩
      · refine ⟨fun same => earlier (checked same), fun id member => ?_⟩
        rcases List.mem_cons.mp member with new | old
        · exact earlier (checked (Prod.mk.inj new).2.symm)
        · exact earlier (born id old)
      · exact ⟨fun same => earlier (checked same),
          fun id member => earlier (born id member)⟩

end Traces

/-! ## What a step keeps -/

/-- What a task remembers is so: the executions it knows are recorded, and
nothing it has read lies ahead of the clock. -/
structure Knowledge.Sound (cooldown : Duration) (world : World)
    (knowledge : Knowledge) : Prop where
  known : ∀ id ∈ knowledge.known, world.db.Has id
  stamped : ∀ time ids, knowledge.stamped = some (time, ids) →
    time ≤ world.clock ∧ ids ⊆ knowledge.known
  checked : ∀ now latest, knowledge.check = some (now, latest) →
    now ≤ world.clock
  born : ∀ id now latest, (id, some (now, latest)) ∈ knowledge.born →
    now ≤ world.clock
  cooled : knowledge.exempt = false → ∀ entry ∈ knowledge.born,
    ∃ now latest, entry.2 = some (now, latest) ∧
      Elapsed cooldown latest now

/-- An execution was checked before any later look at the clock by a task
that knows it. -/
def Knowledge.Before (knowledge other : Knowledge) : Prop :=
  ∀ id now latest, (id, some (now, latest)) ∈ knowledge.born →
    ∀ time ids, other.stamped = some (time, ids) → id ∈ ids → now ≤ time

section Steps

variable {watched : Watched} {cooldown : Duration} {operation : Op}
  {answer : operation.Answer} {choice : Choice} {world state : World}
  {knowledge other : Knowledge}

/-- How a record comes to be remembered. -/
theorem born_next {entry : String × Option (Instant × Option Execution)}
    (performed : perform operation choice world = some (answer, state))
    (member : entry ∈ ((startMonitor watched cooldown).next knowledge
      ⟨operation, answer⟩).born) :
    entry ∈ knowledge.born ∨
      ∃ row, operation = .sql (.execution (.insert row)) ∧
        entry = (row.id, knowledge.check) ∧ ¬ world.db.Has row.id := by
  simp only [startMonitor] at member
  split at member
  · exact .inl member
  · exact .inl member
  · split at member
    · exact .inl member
    · exact .inl member
  · rename_i row same
    cases same
    rcases List.mem_cons.mp member with new | old
    · exact .inr ⟨row, rfl, new, not_has_of_inserted performed⟩
    · exact .inl old
  · exact .inl member

/-- How a look at the clock comes to be remembered. -/
theorem stamped_next {time : Instant} {ids : List String}
    (performed : perform operation choice world = some (answer, state))
    (stamped : ((startMonitor watched cooldown).next knowledge
      ⟨operation, answer⟩).stamped = some (time, ids)) :
    knowledge.stamped = some (time, ids) ∨
      operation = .now ∧ world.clock ≤ time ∧ time ≤ state.clock ∧
        ids = knowledge.known := by
  simp only [startMonitor] at stamped
  split at stamped
  · rename_i instant same
    cases same
    cases stamped
    simp only [perform] at performed
    split at performed
    · rename_i later
      cases performed
      exact .inr ⟨rfl, later, Nat.le_refl _, rfl⟩
    · cases performed
  · exact .inl stamped
  · split at stamped
    · exact .inl stamped
    · exact .inl stamped
  · exact .inl stamped
  · exact .inl stamped

theorem known_next (knowledge : Knowledge) (event : Event Op.Answer) :
    knowledge.known ⊆
      ((startMonitor watched cooldown).next knowledge event).known := by
  simp only [startMonitor]
  split
  · exact List.Subset.refl _
  · exact List.subset_cons_self _ _
  · split <;> exact List.Subset.refl _
  · exact List.Subset.refl _
  · exact List.Subset.refl _

/-- A task comes to know only recorded executions. -/
theorem has_next {id : String} (sound : knowledge.Sound cooldown world)
    (performed : perform operation choice world = some (answer, state))
    (member : id ∈ ((startMonitor watched cooldown).next knowledge
      ⟨operation, answer⟩).known) : world.db.Has id := by
  simp only [startMonitor] at member
  split at member
  · exact sound.known id member
  · rename_i target row same
    cases same
    rcases List.mem_cons.mp member with new | old
    · simp only [perform, Statement.exec, ExecutionStatement.exec,
        Option.some.injEq, Prod.mk.injEq, Except.ok.injEq] at performed
      obtain ⟨inside, -⟩ := Db.execution?_some performed.1
      exact ⟨row, inside, new.symm⟩
    · exact sound.known id old
  · split at member
    · exact sound.known id member
    · exact sound.known id member
  · exact sound.known id member
  · exact sound.known id member

/-- A check is of the last look at the clock. -/
theorem check_next {now : Instant} {latest : Option Execution}
    (checked : ((startMonitor watched cooldown).next knowledge
      ⟨operation, answer⟩).check = some (now, latest)) :
    knowledge.check = some (now, latest) ∨
      ∃ ids, knowledge.stamped = some (now, ids) := by
  simp only [startMonitor] at checked
  split at checked
  · exact .inl checked
  · exact .inl checked
  · split at checked
    · obtain ⟨stamp, stamped, same⟩ := Option.map_eq_some_iff.mp checked
      cases same
      exact .inr ⟨stamp.2, stamped⟩
    · exact .inl checked
  · exact .inl checked
  · exact .inl checked

theorem Knowledge.Sound.grow (sound : knowledge.Sound cooldown world)
    (performed : perform operation choice world = some (answer, state)) :
    knowledge.Sound cooldown state := by
  have clock := perform_clock performed
  have has {id : String} (has : world.db.Has id) : state.db.Has id :=
    perform_db performed ▸ has.kept operation
  exact
    { known := fun id member => has (sound.known id member)
      stamped := fun time ids stamp =>
        ⟨(sound.stamped time ids stamp).1.trans clock,
          (sound.stamped time ids stamp).2⟩
      checked := fun now latest check =>
        (sound.checked now latest check).trans clock
      born := fun id now latest member =>
        (sound.born id now latest member).trans clock
      cooled := sound.cooled }

/-- The task that moves stays in the right. -/
theorem Knowledge.Sound.next (sound : knowledge.Sound cooldown world)
    (performed : perform operation choice world = some (answer, state))
    (allowed :
      (startMonitor watched cooldown).allows knowledge operation) :
    ((startMonitor watched cooldown).next knowledge
      ⟨operation, answer⟩).Sound cooldown state := by
  have clock := perform_clock performed
  constructor
  · intro id member
    exact perform_db performed ▸ (has_next sound performed member).kept _
  · intro time ids stamped
    rcases stamped_next performed stamped with old | ⟨-, -, past, rfl⟩
    · obtain ⟨past, within⟩ := sound.stamped time ids old
      exact ⟨past.trans clock, List.Subset.trans within (known_next _ _)⟩
    · exact ⟨past, known_next _ _⟩
  · intro now latest checked
    rcases check_next checked with old | ⟨ids, stamped⟩
    · exact (sound.checked now latest old).trans clock
    · exact (sound.stamped now ids stamped).1.trans clock
  · intro id now latest member
    rcases born_next performed member with old | ⟨row, -, same, -⟩
    · exact (sound.born id now latest old).trans clock
    · exact (sound.checked now latest (Prod.mk.inj same).2.symm).trans clock
  · intro bound entry member
    rw [exempt_next] at bound
    rcases born_next performed member with old | ⟨row, rfl, rfl, -⟩
    · exact sound.cooled bound entry old
    · rcases allowed.2 with exempt | cooled
      · rw [bound] at exempt
        cases exempt
      · exact cooled

/-- A check stays before the later looks of those who know the execution,
whichever of the two tasks moves, or both being one. -/
theorem Knowledge.Before.step {later otherLater : Knowledge}
    (before : knowledge.Before other)
    (sound : knowledge.Sound cooldown world)
    (otherSound : other.Sound cooldown world)
    (born : ∀ entry ∈ later.born, entry ∈ knowledge.born ∨
      ∃ row, operation = .sql (.execution (.insert row)) ∧
        ¬ world.db.Has row.id ∧ entry.1 = row.id)
    (stamped : ∀ time ids, otherLater.stamped = some (time, ids) →
      other.stamped = some (time, ids) ∨
        operation = .now ∧ world.clock ≤ time) :
    later.Before otherLater := by
  intro id now latest member time ids stamp inside
  rcases born _ member with old | ⟨row, isInsert, absent, same⟩
  · rcases stamped time ids stamp with earlier | ⟨-, present⟩
    · exact before id now latest old time ids earlier inside
    · exact (sound.born id now latest old).trans present
  · rcases stamped time ids stamp with earlier | ⟨isNow, -⟩
    · have known := (otherSound.stamped time ids earlier).2 inside
      exact (absent (same ▸ otherSound.known id known)).elim
    · cases isInsert.symm.trans isNow

end Steps

/-! ## Starts -/

theorem ExecutionUpdate.apply_startedAt {change : ExecutionUpdate}
    {row : Execution} {time : Timestamp}
    (started : (change.apply row).startedAt = some time) :
    row.startedAt = some time ∨ change = .markRunning row.id time := by
  unfold apply at started
  split at started
  · rename_i matched
    cases change with
    | markRunning id startedAt =>
        simp only [matches?, Bool.and_eq_true, beq_iff_eq] at matched
        simp only [set, Option.some.injEq] at started
        rw [matched.1, started]
        exact .inr rfl
    | resetToPending => cases started
    | markCompleted | incrementRetryCount | markApproved | resetApproved
    | markRejected | markExpired | markPendingApproval | failRunning =>
        exact .inl started
  · exact .inl started

theorem firstStarts_eq_some {first : String → Option Timestamp}
    {before after : World} {id : String} {time : Timestamp}
    (started : firstStarts first before after id = some time) :
    first id = some time ∨
      first id = none ∧ ∃ row ∈ after.db.executions,
        row.id = id ∧ row.startedAt = some time := by
  unfold firstStarts at started
  cases earlier : first id with
  | some other =>
      rw [earlier] at started
      exact .inl started
  | none =>
      rw [earlier] at started
      obtain ⟨row, found, isStart⟩ := Option.bind_eq_some_iff.mp started
      obtain ⟨inside, isRow⟩ := Db.execution?_some found
      exact .inr ⟨rfl, row, inside, isRow, isStart⟩

/-- The record has every start of the table, and of recorded executions
only. -/
structure Marked (started : StartedWorld) : Prop where
  kept : ∀ row ∈ started.state.db.executions, ∀ time ∈ row.startedAt,
    ∃ first, started.record row.id = some first
  recorded : ∀ id, ∀ first ∈ started.record id, started.state.db.Has id

section Starts

variable {operation : Op} {answer : operation.Answer} {choice : Choice}
  {outside : Outside} {before after : StartedWorld}

theorem Marked.follow (marked : Marked before)
    (keys : after.state.db.Keys)
    (performed : (startServer outside).perform operation choice before =
      some (answer, after)) :
    Marked after := by
  obtain ⟨acted, record⟩ := Machine.recording_perform performed
  have has {id : String} (has : before.state.db.Has id) :
      after.state.db.Has id := perform_db acted ▸ has.kept operation
  constructor
  · intro row member time started
    rw [record]
    simp only [firstStarts, keys.execution?_eq member, Option.bind_some]
    cases earlier : before.record row.id with
    | some first => exact ⟨first, rfl⟩
    | none => exact ⟨time, started⟩
  · intro id first isFirst
    rw [record] at isFirst
    rcases firstStarts_eq_some isFirst with
      old | ⟨-, row, inside, isRow, -⟩
    · exact has (marked.recorded id first old)
    · exact ⟨row, inside, isRow⟩

/-- A first start is kept, or it is being marked. -/
theorem starts_first {id : String} {time : Timestamp}
    (marked : Marked before)
    (fresh : ∀ row, operation = .sql (.execution (.insert row)) →
      row.startedAt = none)
    (performed : (startServer outside).perform operation choice before =
      some (answer, after))
    (started : after.record id = some time) :
    before.record id = some time ∨
      before.record id = none ∧ before.state.db.Has id ∧
        operation = .sql (.execution (.update (.markRunning id time))) := by
  obtain ⟨acted, record⟩ := Machine.recording_perform performed
  rw [record] at started
  rcases firstStarts_eq_some started with
    old | ⟨absent, row, inside, rfl, isStart⟩
  · exact .inl old
  · refine .inr ⟨absent, ?_⟩
    have unmarked {row : Execution}
        (member : row ∈ before.state.db.executions)
        (absent : before.record row.id = none) :
        row.startedAt ≠ some time := by
      intro isStart
      obtain ⟨first, isFirst⟩ := marked.kept row member time isStart
      rw [absent] at isFirst
      cases isFirst
    have unchanged (same : (operation.db before.state.db).executions =
        before.state.db.executions) : False :=
      unmarked (same ▸ perform_db acted ▸ inside) absent isStart
    rw [perform_db acted] at inside
    cases operation with
    | sql statement =>
        cases statement with
        | execution statement =>
            cases statement with
            | insert new =>
                have free := fresh new rfl
                rcases Db.insert_cases before.state.db new with
                  accepted | refused
                · simp only [Op.db, Statement.exec, accepted] at inside
                  rcases List.mem_append.mp inside with old | isNew
                  · exact (unmarked old absent isStart).elim
                  · rw [List.mem_singleton.mp isNew, free] at isStart
                    cases isStart
                · refine (unchanged ?_).elim
                  simp only [Op.db, Statement.exec, refused]
            | update change =>
                obtain ⟨old, member, rfl⟩ := List.mem_map.mp inside
                rw [change.apply_id] at absent ⊢
                rcases ExecutionUpdate.apply_startedAt isStart with
                  earlier | rfl
                · exact (unmarked member absent earlier).elim
                · exact ⟨⟨old, member, rfl⟩, rfl⟩
            | selectById | selectLatestStarted | selectOverdue =>
                exact (unchanged rfl).elim
        | lock | queue | attempt | counter =>
            exact (unchanged (Db.executions_exec (by simp))).elim
    | now | newId | loadConfig | storeConfig | prepareLogFiles | runProcess
    | sendRequest | sleep | appendRetryMarker | sendNotification | spawn =>
        exact (unchanged rfl).elim

end Starts

theorem le_floor_of_whole {started elapsing instant : Nat}
    (whole : elapsing % 1000000 = 0)
    (reached : started * 1000000 + elapsing ≤ instant) :
    started * 1000000 + elapsing ≤ instant / 1000000 * 1000000 := by
  omega

/-! ## Runs -/

section Runs

variable {watched : Watched} {cooldown : Duration} {outside : Outside}
  {start pool target : StartedPool}

def memoryOf (watched : Watched) (cooldown : Duration)
    (task : ServerTask) : Knowledge :=
  (startMonitor watched cooldown).memory task.job task.trace

/-- All tasks remember what is so, and started executions are apart. -/
structure Spacing (watched : Watched) (cooldown : Duration)
    (pool : StartedPool) : Prop where
  keys : pool.state.state.db.Keys
  marked : Marked pool.state
  sound : ∀ task ∈ pool.tasks,
    (memoryOf watched cooldown task).Sound cooldown pool.state.state
  before : ∀ task ∈ pool.tasks, ∀ other ∈ pool.tasks,
    (memoryOf watched cooldown task).Before
      (memoryOf watched cooldown other)
  spaced : Spaced watched.slug cooldown pool

/-- A start that the check has seen is the cooldown away from the mark. -/
theorem apart_of_seen {task other : ServerTask} {id : String}
    {started time : Timestamp}
    (whole : cooldown % 1000000 = 0)
    (sound : (memoryOf watched cooldown task).Sound cooldown
      pool.state.state)
    (before : (memoryOf watched cooldown task).Before
      (memoryOf watched cooldown other))
    (records : Records watched.slug id task)
    (sees : Sees watched.slug task started)
    (allowed : (startMonitor watched cooldown).allows
      (memoryOf watched cooldown other)
      (.sql (.execution (.update (.markRunning id time))))) :
    started * 1000000 + cooldown ≤ time * 1000000 := by
  obtain ⟨⟨request, isTrigger, own⟩, row, rfl, inserted⟩ := records
  obtain ⟨check, born⟩ := @born_of_insert watched cooldown _ _ _ inserted
  have bound : (memoryOf watched cooldown task).exempt = false := by
    unfold memoryOf
    rw [exempt_memory, isTrigger]
    simp [startMonitor, own]
  obtain ⟨now, latest, same, elapsed⟩ := sound.cooled bound _ born
  dsimp only at same
  subst same
  have checked := checked_of_memory.2 row.id born
  obtain ⟨seen, read, answered, isStart, notEarlier⟩ := sees _ checked
  cases answered
  obtain ⟨instant, ids, stamped, rfl, known⟩ := allowed
  have past : now ≤ instant :=
    before row.id now _ born instant ids stamped known
  have away := elapsed seen rfl read isStart
  have scaled : started * 1000000 ≤ read * 1000000 :=
    Nat.mul_le_mul_right 1000000 notEarlier
  have reached : started * 1000000 + cooldown ≤ instant :=
    (Nat.add_le_add_right scaled cooldown).trans (away.trans past)
  exact le_floor_of_whole whole reached

/-- What the tasks of the next pool remember. -/
theorem memory_of_step {tasks : List ServerTask} {index : Nat} {job : Job}
    {trace : List (Event Op.Answer)} {operation : Op}
    {next : operation.Answer → Async Response} {answer : operation.Answer}
    {later : ServerTask}
    (member : later ∈ tasks.set index
        { job, trace := trace ++ [⟨operation, answer⟩]
          program := next answer } ++
        (startServer outside).forked operation) :
    later ∈ tasks ∨
      later = ⟨job, trace ++ [⟨operation, answer⟩], next answer⟩ ∨
      ∃ child, forks operation = some child ∧
        later = (startServer outside).launch child := by
  rcases List.mem_append.mp member with old | new
  · rcases List.mem_or_eq_of_mem_set old with other | moved
    · exact .inl other
    · exact .inr (.inl moved)
  · simp only [Machine.forked, Option.mem_toList, Option.map_eq_some_iff]
      at new
    obtain ⟨child, forked, rfl⟩ := new
    exact .inr (.inr ⟨child, forked, rfl⟩)

/-- A task that has not started remembers no check and no time. -/
theorem memoryOf_launch (job : Job) :
    memoryOf watched cooldown ((startServer outside).launch job) =
      (startMonitor watched cooldown).start job := rfl

theorem launched_sound {world : World} {job : Job}
    (known : ∀ id ∈ ((startMonitor watched cooldown).start job).known,
      world.db.Has id) :
    (memoryOf watched cooldown
      ((startServer outside).launch job)).Sound cooldown world := by
  rw [memoryOf_launch]
  constructor
  · exact known
  · intro time ids stamped
    cases stamped
  · intro now latest checked
    cases checked
  · intro id now latest member
    cases member
  · intro _ entry member
    cases member

/-- A step records an execution that was not recorded before. -/
theorem PassedCheck.before {slug id : String} {index : Nat} {job : Job}
    {trace : List (Event Op.Answer)} {operation : Op}
    {next : operation.Answer → Async Response} {answer : operation.Answer}
    {choice : Choice} {world : World} {state : StartedWorld}
    (found : pool.tasks[index]? =
      some ⟨job, trace, .perform operation next⟩)
    (performed : perform operation choice pool.state.state =
      some (answer, world))
    (passed : PassedCheck slug
      { state
        tasks := pool.tasks.set index
          { job, trace := trace ++ [⟨operation, answer⟩]
            program := next answer } ++
          (startServer outside).forked operation } id) :
    PassedCheck slug pool id ∨ ¬ pool.state.state.db.Has id := by
  obtain ⟨task, member, isTrigger, row, rfl, inserted⟩ := passed
  rcases memory_of_step member with old | rfl | ⟨child, -, rfl⟩
  · exact .inl ⟨task, old, isTrigger, row, rfl, inserted⟩
  · rcases List.mem_append.mp inserted with old | new
    · exact .inl ⟨_, List.mem_of_getElem? found, isTrigger, row, rfl, old⟩
    · cases List.mem_singleton.mp new
      exact .inr (not_has_of_inserted performed)
  · cases inserted

theorem Spacing.arrive {job : Job} (spacing : Spacing watched cooldown pool)
    (external : job.external) :
    Spacing watched cooldown
      { pool with tasks := pool.tasks ++
          [(startServer outside).launch job] } := by
  have unknown : ((startMonitor watched cooldown).start job).known = [] := by
    cases job with
    | runExecution => exact external.elim
    | trigger | approve | reject | replay | expirePendingApprovals
    | reloadConfig | runDequeued => rfl
  have recorded (id : String)
      (passed : PassedCheck watched.slug
        { pool with tasks := pool.tasks ++
            [(startServer outside).launch job] } id) :
      PassedCheck watched.slug pool id := by
    obtain ⟨task, member, isTrigger, row, isRow, inserted⟩ := passed
    rcases List.mem_append.mp member with old | new
    · exact ⟨task, old, isTrigger, row, isRow, inserted⟩
    · rw [List.mem_singleton.mp new] at inserted
      cases inserted
  refine ⟨spacing.keys, spacing.marked, ?_, ?_, ?_⟩
  · intro task member
    rcases List.mem_append.mp member with old | new
    · exact spacing.sound task old
    · rw [List.mem_singleton.mp new]
      refine launched_sound fun id inside => ?_
      rw [unknown] at inside
      cases inside
  · intro task member other otherMember id now latest born time ids stamped
    rcases List.mem_append.mp member with old | new
    · rcases List.mem_append.mp otherMember with otherOld | otherNew
      · exact spacing.before task old other otherOld id now latest born time
          ids stamped
      · rw [List.mem_singleton.mp otherNew, memoryOf_launch] at stamped
        cases stamped
    · rw [List.mem_singleton.mp new, memoryOf_launch] at born
      cases born
  · intro first second firstPassed secondPassed
    exact spacing.spaced first second (recorded first firstPassed)
      (recorded second secondPassed)

/-- The tasks still remember what is so after a step. -/
theorem Spacing.sound_step (spacing : Spacing watched cooldown pool)
    {index : Nat} {job : Job} {trace : List (Event Op.Answer)}
    {operation : Op} {next : operation.Answer → Async Response}
    {answer : operation.Answer} {choice : Choice} {world : World}
    (found : pool.tasks[index]? =
      some ⟨job, trace, .perform operation next⟩)
    (performed : perform operation choice pool.state.state =
      some (answer, world))
    (allowed : (startMonitor watched cooldown).allows
      ((startMonitor watched cooldown).memory job trace) operation) :
    ∀ task ∈ pool.tasks.set index
        { job, trace := trace ++ [⟨operation, answer⟩]
          program := next answer } ++
        (startServer outside).forked operation,
      (memoryOf watched cooldown task).Sound cooldown world := by
  have present := List.mem_of_getElem? found
  intro task member
  rcases memory_of_step member with old | rfl | ⟨child, forked, rfl⟩
  · exact (spacing.sound task old).grow performed
  · unfold memoryOf
    rw [Monitor.memory_snoc]
    exact (spacing.sound _ present).next performed allowed
  · refine launched_sound fun id inside => ?_
    cases operation with
    | spawn job =>
        obtain rfl := Option.some.inj forked
        cases job with
        | runExecution context retries hook concurrency approval =>
            rw [List.mem_singleton.mp inside]
            have has := (spacing.sound _ present).known _ allowed
            exact perform_db performed ▸ has.kept _
        | trigger | approve | reject | replay | expirePendingApprovals
        | reloadConfig | runDequeued => cases inside
    | now | newId | sql | loadConfig | storeConfig | prepareLogFiles
    | runProcess | sendRequest | sleep | appendRetryMarker
    | sendNotification => cases forked

theorem Spacing.before_step (spacing : Spacing watched cooldown pool)
    {index : Nat} {job : Job} {trace : List (Event Op.Answer)}
    {operation : Op} {next : operation.Answer → Async Response}
    {answer : operation.Answer} {choice : Choice} {world : World}
    (found : pool.tasks[index]? =
      some ⟨job, trace, .perform operation next⟩)
    (performed : perform operation choice pool.state.state =
      some (answer, world)) :
    let tasks := pool.tasks.set index
        { job, trace := trace ++ [⟨operation, answer⟩]
          program := next answer } ++
        (startServer outside).forked operation
    ∀ task ∈ tasks, ∀ other ∈ tasks,
      (memoryOf watched cooldown task).Before
        (memoryOf watched cooldown other) := by
  have present := List.mem_of_getElem? found
  have born {task : ServerTask}
      (member : task ∈ pool.tasks.set index
        { job, trace := trace ++ [⟨operation, answer⟩]
          program := next answer } ++
        (startServer outside).forked operation) :
      (memoryOf watched cooldown task).born = [] ∨
        ∃ earlier ∈ pool.tasks,
          ∀ entry ∈ (memoryOf watched cooldown task).born,
            entry ∈ (memoryOf watched cooldown earlier).born ∨
              ∃ row, operation = .sql (.execution (.insert row)) ∧
                ¬ pool.state.state.db.Has row.id ∧ entry.1 = row.id := by
    rcases memory_of_step member with old | rfl | ⟨child, -, rfl⟩
    · exact .inr ⟨task, old, fun entry inside => .inl inside⟩
    · refine .inr ⟨_, present, fun entry inside => ?_⟩
      unfold memoryOf at inside
      rw [Monitor.memory_snoc] at inside
      rcases born_next performed inside with
        earlier | ⟨row, isInsert, rfl, absent⟩
      · exact .inl earlier
      · exact .inr ⟨row, isInsert, absent, rfl⟩
    · exact .inl rfl
  have stamped {task : ServerTask}
      (member : task ∈ pool.tasks.set index
        { job, trace := trace ++ [⟨operation, answer⟩]
          program := next answer } ++
        (startServer outside).forked operation) :
      (memoryOf watched cooldown task).stamped = none ∨
        ∃ earlier ∈ pool.tasks, ∀ time ids,
          (memoryOf watched cooldown task).stamped = some (time, ids) →
            (memoryOf watched cooldown earlier).stamped = some (time, ids) ∨
              operation = .now ∧ pool.state.state.clock ≤ time := by
    rcases memory_of_step member with old | rfl | ⟨child, -, rfl⟩
    · exact .inr ⟨task, old, fun time ids stamp => .inl stamp⟩
    · refine .inr ⟨_, present, fun time ids stamp => ?_⟩
      unfold memoryOf at stamp
      rw [Monitor.memory_snoc] at stamp
      rcases stamped_next performed stamp with
        earlier | ⟨isNow, later, -, -⟩
      · exact .inl earlier
      · exact .inr ⟨isNow, later⟩
    · exact .inl rfl
  intro tasks task member other otherMember
  rcases born member with none | ⟨earlier, inPool, grown⟩
  · intro id now latest inside
    rw [none] at inside
    cases inside
  · rcases stamped otherMember with none | ⟨before, inPoolToo, looked⟩
    · intro id now latest inside time ids stamp
      rw [none] at stamp
      cases stamp
    · exact (spacing.before earlier inPool before inPoolToo).step
        (spacing.sound earlier inPool) (spacing.sound before inPoolToo)
        grown looked

theorem Spacing.advance (spacing : Spacing watched cooldown pool)
    (whole : cooldown % 1000000 = 0)
    {index : Nat} {choice : Choice}
    (sees : SeesStarts watched.slug pool (.advance index choice))
    (allowed : ∀ task ∈ pool.tasks, ∀ operation,
      task.program.next? = some operation →
        (startMonitor watched cooldown).allows
          (memoryOf watched cooldown task) operation)
    (taken : (startServer outside).step pool (.advance index choice) =
      some target) :
    Spacing watched cooldown target := by
  obtain ⟨job, trace, operation, next, answer, after, found, performed,
    rfl⟩ := Machine.step_advance taken
  obtain ⟨acted, record⟩ := Machine.recording_perform performed
  have present := List.mem_of_getElem? found
  have permitted := allowed _ present operation rfl
  have keys : after.state.db.Keys := by
    rw [perform_db acted]
    cases operation with
    | sql statement => exact Db.keys_exec spacing.keys statement
    | now | newId | loadConfig | storeConfig | prepareLogFiles | runProcess
    | sendRequest | sleep | appendRetryMarker | sendNotification | spawn =>
        exact spacing.keys
  have fresh (row : Execution)
      (same : operation = .sql (.execution (.insert row))) :
      row.startedAt = none := by
    subst same
    exact permitted.1
  refine ⟨keys, spacing.marked.follow keys performed,
    spacing.sound_step found acted permitted,
    spacing.before_step found acted, ?_⟩
  have apart {id other : String} {time started : Timestamp}
      (passed : PassedCheck watched.slug pool id)
      (otherPassed : PassedCheck watched.slug pool other)
      (unstarted : pool.state.record id = none)
      (marks : operation = .sql (.execution (.update (.markRunning id time))))
      (isStart : pool.state.record other = some started) :
      started * 1000000 + cooldown ≤ time * 1000000 := by
    subst marks
    simp only [SeesStarts, Pool.next?_eq found] at sees
    obtain ⟨task, member, records⟩ := passed
    exact apart_of_seen whole (spacing.sound task member)
      (spacing.before task member _ present) records
      (sees unstarted task member records other otherPassed started isStart)
      permitted
  intro first second firstPassed secondPassed different start isStart other
    isOther
  have had {id : String} {time : Timestamp}
      (passed : PassedCheck watched.slug pool id ∨
        ¬ pool.state.state.db.Has id)
      (started : after.record id = some time) :
      PassedCheck watched.slug pool id ∧
        (pool.state.record id = some time ∨
          pool.state.record id = none ∧ operation =
            .sql (.execution (.update (.markRunning id time)))) := by
    rcases starts_first spacing.marked fresh performed started with
      old | ⟨unstarted, has, marks⟩
    · exact ⟨passed.resolve_right fun absent =>
        absent (spacing.marked.recorded id time old), .inl old⟩
    · exact ⟨passed.resolve_right fun absent => absent has,
        .inr ⟨unstarted, marks⟩⟩
  obtain ⟨firstIn, firstStart⟩ := had (firstPassed.before found acted) isStart
  obtain ⟨secondIn, secondStart⟩ :=
    had (secondPassed.before found acted) isOther
  rcases firstStart with firstOld | ⟨firstUnstarted, firstMarks⟩
  · rcases secondStart with secondOld | ⟨secondUnstarted, secondMarks⟩
    · exact spacing.spaced first second firstIn secondIn different start
        firstOld other secondOld
    · exact .inl (apart secondIn firstIn secondUnstarted secondMarks firstOld)
  · rcases secondStart with secondOld | ⟨secondUnstarted, secondMarks⟩
    · exact .inr (apart firstIn secondIn firstUnstarted firstMarks secondOld)
    · cases firstMarks.symm.trans secondMarks
      exact (different rfl).elim

/-- The steps of the claim: requests come in, the configuration stays, and a
first start is one that the checks before it have allowed for. -/
def StartsSeen (watched : Watched) (pool : StartedPool)
    (label : ServerLabel) : Prop :=
  Requested label ∧ KeepsConfig watched pool.forget label ∧
    SeesStarts watched.slug pool label

/-- The query for the latest start does not fail. -/
theorem latest_answered {first last : ServerPool}
    {admits : ServerPool → ServerLabel → Prop}
    (empty : first.tasks = [])
    (run : (server outside).Reaches admits first last) :
    ∀ task ∈ last.tasks, ∀ event ∈ task.trace, ∀ slug answer,
      event = ⟨.sql (.execution (.selectLatestStarted slug)), answer⟩ →
        answer.toOption.isSome := by
  refine Machine.Reaches.happened ?_ empty run
  intro middle _ _ _ _ operation choice answer after _ _ performed slug given
    same
  cases same
  cases performed
  rfl

/-- Where every start has been seen by the checks of those that start after
it, executions start at least the cooldown apart. -/
theorem cooldown_spacing (watched : Watched) {rules : TriggerRules}
    (ruled : watched.hook.triggerRules = some rules)
    (cools : rules.cooldown = some cooldown)
    (converts : cooldown ≤ chronoMax) (whole : cooldown % 1000000 = 0)
    (empty : start.tasks = []) (keys : start.state.state.db.Keys)
    (config : start.state.state.config = watched.config)
    (record : ∀ id, start.state.record id =
      (start.state.state.db.execution? id).bind (·.startedAt))
    (run : (startServer outside).Reaches (StartsSeen watched) start pool) :
    Spaced watched.slug cooldown pool := by
  have spacing : Spacing watched cooldown pool := by
    induction run with
    | refl =>
        refine ⟨keys, ⟨?_, ?_⟩, ?_, ?_, ?_⟩
        · intro row member time started
          refine ⟨time, ?_⟩
          rw [record, keys.execution?_eq member]
          exact started
        · intro id first isFirst
          rw [record] at isFirst
          obtain ⟨row, found, -⟩ := Option.bind_eq_some_iff.mp isFirst
          exact ⟨row, Db.execution?_some found⟩
        · intro task member
          rw [empty] at member
          cases member
        · intro task member
          rw [empty] at member
          cases member
        · intro first second passed
          obtain ⟨task, member, -⟩ := passed
          rw [empty] at member
          cases member
    | @step pool target label before admitted taken induction =>
        obtain ⟨requested, -, sees⟩ := admitted
        cases label with
        | arrive job =>
            cases taken
            exact induction.arrive requested
        | advance index choice =>
            refine induction.advance whole sees ?_ taken
            intro task member operation isNext
            have run := Machine.Reaches.forget
              (fun _ _ admitted => admitted.2.1) before
            have idle : start.forget.tasks = [] := empty
            have passes := Monitor.passes_of_reaches
              (Knowledge.body_passes ruled cools converts) idle run ?_ task
              member
            · cases rest : task.program with
              | pure value =>
                  rw [rest] at isNext
                  cases isNext
              | perform op next =>
                  rw [rest] at isNext passes
                  cases isNext
                  exact passes.1
            · intro task member event inTrace
              exact ⟨read_config idle config (fun _ _ keeps => keeps) run
                task member event inTrace,
                latest_answered idle run task member event inTrace⟩
  exact spacing.spaced

end Runs

/-! ## Two triggers -/

def cooledDeploy : HookConfig :=
  { name := "deploy"
    slug := "deploy"
    executor := .shell "true"
    triggerRules := some { cooldown := some (Duration.fromSecs 10) } }

/-- The server of a hook with no execution, and so no start. -/
def unstarted (hook : HookConfig) : StartedPool where
  state :=
    { state := (Watched.only hook).started.state
      record := fun _ => none }
  tasks := []

/-- The execution that an event records. -/
def insertedBy : Event Op.Answer → Option String
  | ⟨.sql (.execution (.insert row)), _⟩ => some row.id
  | _ => none

/-- What an event has read as the latest start. -/
def readBy : Event Op.Answer → Option (Option Execution)
  | ⟨.sql (.execution (.selectLatestStarted _)), .ok latest⟩ => some latest
  | ⟨.sql (.execution (.selectLatestStarted _)), .error _⟩ => some none
  | _ => none

/-- The task has read a start that is not before those of all recorded
executions. -/
def seesAll (pool : StartedPool) (task : ServerTask) : Bool :=
  (task.trace.filterMap readBy).all fun latest =>
    pool.tasks.all fun other =>
      (other.trace.filterMap insertedBy).all fun id =>
        (pool.state.record id).all fun started =>
          latest.any fun row => row.startedAt.any (started ≤ ·)

/-- Triggers arrive, and starts are seen. -/
def triggersSeen (pool : StartedPool) (label : ServerLabel) : Bool :=
  onlyTriggers label &&
    match label with
    | .arrive _ => true
    | .advance index _ =>
        match pool.next? index with
        | some (_, _, .storeConfig _) => false
        | some (_, _, .sql (.execution (.update (.markRunning id _)))) =>
            pool.tasks.all fun task =>
              !(task.trace.filterMap insertedBy).contains id ||
                seesAll pool task
        | _ => true

theorem insertedBy_mem {slug id : String} {task : ServerTask}
    (records : Records slug id task) :
    id ∈ task.trace.filterMap insertedBy := by
  obtain ⟨-, row, rfl, inserted⟩ := records
  exact List.mem_filterMap.mpr ⟨_, inserted, rfl⟩

theorem sees_of_seesAll {slug id : String} {pool : StartedPool}
    {task : ServerTask} (sees : seesAll pool task = true)
    (passed : PassedCheck slug pool id) {started : Timestamp}
    (isStart : started ∈ pool.state.record id) : Sees slug task started := by
  intro answer read
  obtain ⟨other, member, records⟩ := passed
  have all {latest : Option Execution}
      (inside : latest ∈ task.trace.filterMap readBy) :
      ∃ row time, latest = some row ∧ row.startedAt = some time ∧
        started ≤ time := by
    have seen := List.all_eq_true.mp sees latest inside
    have given := List.all_eq_true.mp
      (List.all_eq_true.mp seen other member) id (insertedBy_mem records)
    rw [isStart] at given
    obtain ⟨row, rfl, later⟩ := Option.any_eq_true _ _ |>.mp given
    obtain ⟨time, isTime, past⟩ := Option.any_eq_true _ _ |>.mp later
    exact ⟨row, time, rfl, isTime, of_decide_eq_true past⟩
  cases answer with
  | error error =>
      obtain ⟨row, time, absent, -⟩ :=
        all (List.mem_filterMap.mpr ⟨_, read, rfl⟩)
      cases absent
  | ok latest =>
      obtain ⟨row, time, rfl, isTime, past⟩ :=
        all (List.mem_filterMap.mpr ⟨_, read, rfl⟩)
      exact ⟨row, time, rfl, isTime, past⟩

theorem startsSeen_of_triggersSeen {watched : Watched} {pool : StartedPool}
    {label : ServerLabel} (seen : triggersSeen pool label = true) :
    StartsSeen watched pool label := by
  obtain ⟨triggers, seen⟩ := Bool.and_eq_true_iff.mp seen
  cases label with
  | arrive job =>
      refine ⟨?_, trivial, trivial⟩
      cases job with
      | trigger => trivial
      | approve | reject | replay | expirePendingApprovals | reloadConfig
      | runExecution | runDequeued => cases triggers
  | advance index choice =>
      refine ⟨trivial, ?_, ?_⟩
      · simp only [KeepsConfig]
        split
        · rename_i found
          change pool.next? index = _ at found
          simp [found] at seen
        · trivial
      · simp only [SeesStarts]
        split
        · rename_i id time found
          simp only [found, List.all_eq_true, Bool.or_eq_true,
            Bool.not_eq_true', List.contains_eq_mem, decide_eq_false_iff_not]
            at seen
          intro _ task member records other passed started isStart
          rcases seen task member with apart | sees
          · exact (apart (insertedBy_mem records)).elim
          · exact sees_of_seesAll sees passed isStart
        · trivial

/-- Two triggers, the second 10 s after the first execution has started. -/
def oneAfterAnother : List ServerLabel :=
  .arrive (.trigger { slug := "deploy" }) ::
    steps 0 3 ++ stepWithId 0 "first" ++ steps 0 3 ++
      stepWithId 0 "fired" ++ steps 0 4 ++ steps 1 3 ++
  .arrive (.trigger { slug := "deploy" }) ::
    stepsAt 10000000000 2 3 ++ stepWithId 2 "second" ++
      stepsAt 10000000000 2 3 ++ stepWithId 2 "fired again" ++
      stepsAt 10000000000 2 4 ++ stepsAt 10000000000 3 3

def spacedStarts : StartedPool :=
  ((startServer .accepting).run triggersSeen (unstarted cooledDeploy)
    oneAfterAnother).get (by decide)

theorem cooldown_spacing_apart :
    Spaced "deploy" (Duration.fromSecs 10) spacedStarts ∧
      spacedStarts.state.record "first" = some 0 ∧
      spacedStarts.state.record "second" = some 10000 := by
  have reached : (startServer .accepting).Reaches
      (fun pool label => triggersSeen pool label = true)
      (unstarted cooledDeploy) spacedStarts :=
    .of_run .refl (Option.some_get _).symm
  have ruled : cooledDeploy.triggerRules =
      some { cooldown := some (Duration.fromSecs 10) } := rfl
  exact ⟨cooldown_spacing (.only cooledDeploy) ruled rfl (by decide)
    (by decide) rfl (Watched.idle_started _).keys rfl
    (fun _ => rfl)
    (reached.mono fun _ _ seen => startsSeen_of_triggersSeen seen),
    by decide, by decide⟩

/-- Two triggers that both check before the first execution starts. -/
def bothBefore : List ServerLabel :=
  .arrive (.trigger { slug := "deploy" }) ::
  .arrive (.trigger { slug := "deploy" }) ::
    steps 0 3 ++ steps 1 3 ++
    stepWithId 0 "first" ++ steps 0 3 ++ stepWithId 0 "fired" ++
      steps 0 4 ++ steps 2 3 ++
    stepWithId 1 "second" ++ steps 1 3 ++ stepWithId 1 "fired again" ++
      steps 1 4 ++ steps 3 3

def unspacedStarts : StartedPool :=
  ((startServer .accepting).run (fun _ => onlyTriggers)
    (unstarted cooledDeploy) bothBefore).get (by decide)

def recordsBy (task : ServerTask) : List String :=
  task.trace.filterMap fun event =>
    match event with
    | ⟨.sql (.execution (.insert row)), .ok ()⟩ => some row.id
    | _ => none

theorem records_of_mem {slug id : String} {task : ServerTask}
    (isTrigger : ∃ request, task.job = .trigger request ∧
      request.slug = slug)
    (member : id ∈ recordsBy task) : Records slug id task := by
  obtain ⟨event, inTrace, recorded⟩ := List.mem_filterMap.mp member
  split at recorded
  · rename_i row
    cases recorded
    exact ⟨isTrigger, row, rfl, inTrace⟩
  · cases recorded

/-- Two executions of a hook with a cooldown of 10 s start at once. -/
theorem not_cooldown_spacing :
    ¬ ∀ pool, (startServer .accepting).Reaches
        (fun _ label => onlyTriggers label = true)
        (unstarted cooledDeploy) pool →
      Spaced "deploy" (Duration.fromSecs 10) pool := by
  intro spaced
  have apart := spaced unspacedStarts (.of_run .refl (Option.some_get _).symm)
  have passed (id : String)
      (recorded : ∃ task ∈ unspacedStarts.tasks,
        task.job = .trigger { slug := "deploy" } ∧ id ∈ recordsBy task) :
      PassedCheck "deploy" unspacedStarts id := by
    obtain ⟨task, member, isTrigger, inside⟩ := recorded
    exact ⟨task, member, records_of_mem ⟨_, isTrigger, rfl⟩ inside⟩
  have wrong := apart "first" "second" (passed _ (by decide))
    (passed _ (by decide)) (by decide) 0 (by decide) 0 (by decide)
  exact absurd wrong (by decide)

end Sendword
