import Sendword.SerialCalls

/-!
# Lost updates

What the configuration file holds after any interleaving of calls.  A rename
puts there what its call had read and its own change; whatever was renamed in
between is dropped.
-/

namespace Sendword

open Concurrency Files Toml

/-! ## One order of calls -/

/-- The calls with these numbers. -/
def callsOf (pool : WriterPool) (order : List Nat) : List WriterCall :=
  order.filterMap fun index => pool.tasks[index]?.map Task.job

/-- The configuration file is the result of exactly the calls that returned
`Ok`, in this order. -/
structure Serialises (crates : Crates) (writer : ConfigWriter) (start : Site)
    (pool : WriterPool) (order : List Nat) (initial final : String) :
    Prop where
  nodup : order.Nodup
  exactly : ∀ index, index ∈ order ↔ ∃ task, pool.tasks[index]? = some task ∧
    task.program.result? = some (.ok ())
  begins : fileText (start.disk.read writer.path) = some initial
  ends : fileText (pool.state.disk.read writer.path) = some final
  applied : editedAll? crates (callsOf pool order) initial = some final

/-! ## The log of the file -/

/-- A call that has renamed its text onto the configuration file, and the
calls whose changes were in the text that it had read. -/
structure Rename where
  call : Nat
  onto : List Nat

/-- The calls whose changes the file holds after these renames. -/
def heldAfter (renames : List Rename) : List Nat :=
  (renames.getLast?.map fun rename => rename.onto ++ [rename.call]).getD []

/-- The renames of a run, and what the file held when a call read it. -/
structure FileLog where
  renames : List Rename := []
  read : Nat → List Nat := fun _ => []

namespace FileLog

def held (log : FileLog) : List Nat := heldAfter log.renames

/-- The calls in the order of their renames. -/
def order (log : FileLog) : List Nat := log.renames.map Rename.call

def hasRead (log : FileLog) (index : Nat) : FileLog :=
  { log with read := Function.update log.read index log.held }

def hasRenamed (log : FileLog) (index : Nat) : FileLog :=
  { log with renames := log.renames ++ [⟨index, log.read index⟩] }

def note (writer : ConfigWriter) (log : FileLog) (index : Nat) :
    SiteEvent → FileLog
  | ⟨.file (.read name), _⟩ =>
      if name = writer.path then log.hasRead index else log
  | ⟨.file (.rename _ target), .ok ()⟩ =>
      if target = writer.path then log.hasRenamed index else log
  | _ => log

/-- The log after a step, from the last event of the call that moved. -/
def after (writer : ConfigWriter) (log : FileLog) (target : WriterPool) :
    Label Fault WriterCall → FileLog
  | .arrive _ => log
  | .advance index _ =>
      match target.tasks[index]?.bind fun task => task.trace.getLast? with
      | some event => log.note writer index event
      | none => log

/-- No call renames between the read and the rename of another one. -/
def Undisturbed (log : FileLog) : Prop :=
  ∀ before rename later, log.renames = before ++ rename :: later →
    rename.onto = heldAfter before

end FileLog

section Logs

variable (crates : Crates) (writer : ConfigWriter) (start : Site)

/-- A read of the configuration file does not fail. -/
def Readable (pool : WriterPool) : Label Fault WriterCall → Prop
  | .arrive _ => True
  | .advance index fault => ∀ call trace,
      pool.next? index = some (call, trace, .file (.read writer.path)) →
      fault = none

/-- Steps that use the temporary file alone and can read the configuration
file. -/
def Careful (pool : WriterPool) (label : Label Fault WriterCall) : Prop :=
  Exclusive writer pool label ∧ Readable writer pool label

/-- A run of calls and its log. -/
inductive Logged : WriterPool → FileLog → Prop where
  | start : Logged { state := start, tasks := [] } {}
  | step {pool target : WriterPool} {log : FileLog}
      {label : Label Fault WriterCall} :
      Logged pool log →
      Careful writer pool label →
      (writerCalls crates writer).step pool label = some target →
      Logged target (log.after writer target label)

/-- The configuration file is the result of the calls that it holds, in the
order of their renames.  The calls that have renamed are those that returned
`Ok`. -/
structure FileHolds (pool : WriterPool) (log : FileLog)
    (initial final : String) : Prop where
  nodup : log.order.Nodup
  exactly : ∀ index, index ∈ log.order ↔
    ∃ task, pool.tasks[index]? = some task ∧
      task.program.result? = some (.ok ())
  within : log.held.Sublist log.order
  begins : fileText (start.disk.read writer.path) = some initial
  ends : fileText (pool.state.disk.read writer.path) = some final
  applied : editedAll? crates (callsOf pool log.held) initial = some final

end Logs

/-! ## Runs -/

section Renames

variable {renames before later : List Rename} {rename : Rename}
  {log : FileLog}

theorem heldAfter_snoc (renames : List Rename) (rename : Rename) :
    heldAfter (renames ++ [rename]) = rename.onto ++ [rename.call] := by
  simp [heldAfter]

@[simp] theorem FileLog.hasRead_order (log : FileLog) (index : Nat) :
    (log.hasRead index).order = log.order := rfl

@[simp] theorem FileLog.hasRead_read (log : FileLog) (index : Nat) :
    (log.hasRead index).read = Function.update log.read index log.held := rfl

@[simp] theorem FileLog.hasRenamed_held (log : FileLog) (index : Nat) :
    (log.hasRenamed index).held = log.read index ++ [index] :=
  heldAfter_snoc ..

@[simp] theorem FileLog.hasRenamed_order (log : FileLog) (index : Nat) :
    (log.hasRenamed index).order = log.order ++ [index] := by
  simp [FileLog.order, FileLog.hasRenamed]

@[simp] theorem FileLog.hasRenamed_read (log : FileLog) (index : Nat) :
    (log.hasRenamed index).read = log.read := rfl

/-- Where no rename was disturbed, no change is dropped. -/
theorem FileLog.Undisturbed.held_eq (undisturbed : log.Undisturbed) :
    log.held = log.order := by
  have all (later : List Rename) :
      ∀ before, log.renames = before ++ later →
        heldAfter before = before.map Rename.call →
        heldAfter log.renames = log.renames.map Rename.call := by
    induction later with
    | nil =>
        intro before same held
        rwa [same, List.append_nil]
    | cons rename later induction =>
        intro before same held
        refine induction (before ++ [rename]) (by simp [same]) ?_
        rw [heldAfter_snoc, undisturbed before rename later same, held,
          List.map_append]
        rfl
  exact all log.renames [] rfl rfl

/-- A change that is not in the file was dropped by a later call, which had
read the file without it. -/
theorem FileLog.dropped_by
    (same : log.renames = before ++ rename :: later)
    (dropped : rename.call ∉ log.held) :
    ∃ other ∈ later, rename.call ∉ other.onto := by
  cases last : later.getLast? with
  | none =>
      rw [List.getLast?_eq_none_iff.mp last] at same
      refine absurd ?_ dropped
      rw [FileLog.held, same, heldAfter_snoc]
      simp
  | some other =>
      have isLast : log.renames.getLast? = some other := by
        rw [same, List.getLast?_append_of_ne_nil _ (by simp),
          List.getLast?_cons, last]
        rfl
      refine ⟨other, List.mem_of_getLast? last, fun inside => dropped ?_⟩
      simp [FileLog.held, heldAfter, isLast, inside]

end Renames

section Runs

variable {crates : Crates} {writer : ConfigWriter} {start : Site}
  {pool : WriterPool} {stages : Nat → CallStage} {order : List Nat}
  {log : FileLog}

theorem readToString_of_fileText {old : Except IoError ByteArray}
    {text : String} (found : fileText old = some text) :
    (readToString old).getD "" = text := by
  cases old with
  | ok bytes =>
      have read : readToString (.ok bytes) = some text := found
      rw [read, Option.getD_some]
  | error error =>
      cases error with
      | notFound => exact Option.some.inj found
      | failed => cases found

/-- What the file said, for a call that has read it. -/
theorem text_of_read {call : WriterCall} {old : Except IoError ByteArray}
    {text : String} (found : fileText old = some text) :
    call.text crates old = call.text crates (.ok text.toUTF8) := by
  have again : readToString (.ok text.toUTF8) = some text :=
    fromUTF8?_toUTF8 text
  unfold WriterCall.text
  rw [readToString_of_fileText found, again, Option.getD_some]

theorem fileText_of_loads (loads : FileLoads crates writer start) :
    ∃ text, fileText (start.disk.read writer.path) = some text := by
  obtain ⟨config, loaded⟩ := loads
  unfold loadFrom at loaded
  cases found : fileText (start.disk.read writer.path) with
  | some text => exact ⟨text, rfl⟩
  | none =>
      rw [found] at loaded
      cases loaded

/-- What a call has read and its text is based on. -/
def CallStage.old? : CallStage → Option (Except IoError ByteArray)
  | .creating old _ | .writing old _ _ | .syncing old _ _
  | .loading old _ _ | .installing old _ _ _ => some old
  | .reading | .removing _ | .installed .. | .failed _ => none

/-- The file is the result of the calls that it holds, and so was the file
that a call has read. -/
structure Keeps (crates : Crates) (writer : ConfigWriter) (start : Site)
    (pool : WriterPool) (stages : Nat → CallStage) (log : FileLog)
    (initial final : String) : Prop where
  guarded : TempGuarded crates writer pool.state stages
  nodup : log.order.Nodup
  exactly : ∀ index, index ∈ log.order ↔ ∃ old text file loaded,
    stages index = .installed old text file loaded
  within : log.held.Sublist log.order
  readWithin : ∀ index, (log.read index).Sublist log.order
  begins : fileText (start.disk.read writer.path) = some initial
  ends : fileText (pool.state.disk.read writer.path) = some final
  applied : editedAll? crates (callsOf pool log.held) initial = some final
  based : ∀ index old, (stages index).old? = some old →
    ∃ base, fileText old = some base ∧
      editedAll? crates (callsOf pool (log.read index)) initial = some base

theorem callsOf_congr {other : WriterPool}
    (same : ∀ index ∈ order, pool.tasks[index]?.map Task.job =
      other.tasks[index]?.map Task.job) :
    callsOf pool order = callsOf other order :=
  List.filterMap_congr same

/-- A pool in which the calls of `order` are the same as before. -/
theorem callsOf_set {index : Nat} {task : WriterTask}
    (found : pool.tasks[index]? = some task) (site : Site)
    (event : SiteEvent) (program : Edit (Except WriteError Unit)) :
    callsOf
        { state := site
          tasks := pool.tasks.set index
            { job := task.job, trace := task.trace ++ [event], program } }
        order =
      callsOf pool order := by
  refine callsOf_congr fun position _ => ?_
  by_cases same : position = index
  · subst same
    rw [found, List.getElem?_set_self (List.getElem?_eq_some_iff.mp found).1]
    rfl
  · rw [List.getElem?_set_ne (Ne.symm same)]

theorem Keeps.empty {initial : String}
    (loads : FileLoads crates writer start)
    (begins : fileText (start.disk.read writer.path) = some initial) :
    Keeps crates writer start { state := start, tasks := [] }
      (fun _ => .reading) {} initial initial where
  guarded := .empty loads
  nodup := List.nodup_nil
  exactly := by simp [FileLog.order]
  within := List.Sublist.refl _
  readWithin _ := List.Sublist.refl _
  begins := begins
  ends := begins
  applied := rfl
  based := by
    intro index old read
    cases read

section Turns

variable {initial final : String} {task : WriterTask} {event : SiteEvent}
  {after : CallStage} {site : Site} {index : Nat}

/-- A call keeps what it has read. -/
theorem Turn.old? {call : WriterCall} {stage : CallStage}
    {old : Except IoError ByteArray}
    (turn : Turn crates writer call pool.state stage event after site)
    (read : stage ≠ .reading) (based : after.old? = some old) :
    stage.old? = some old := by
  cases turn with
  | refused | edited => exact (read rfl).elim
  | opened | wrote | synced | validated => exact based
  | unopened | cut | unsynced | rejected | unremoved | removed | unrenamed
  | renamed => cases based

theorem Turn.op_of_reading {call : WriterCall}
    (turn : Turn crates writer call pool.state .reading event after site) :
    event.op = .file (.read writer.path) := by
  cases turn <;> rfl

/-- Only reads and renames of the configuration file are logged. -/
theorem Turn.note_eq (different : writer.path ≠ writer.tempPath)
    {call : WriterCall} {stage : CallStage}
    (turn : Turn crates writer call pool.state stage event after site)
    (read : stage ≠ .reading)
    (kept : ∀ old text file loaded,
      after ≠ .installed old text file loaded) :
    log.note writer index event = log := by
  cases turn with
  | refused | edited => exact (read rfl).elim
  | rejected | validated => exact if_neg (Ne.symm different)
  | renamed => exact (kept _ _ _ _ rfl).elim
  | unopened | opened | cut | wrote | unsynced | synced | unremoved
  | removed | unrenamed => rfl

/-- Where a turn installs nothing, the installed calls are as before. -/
theorem exactly_of_kept {calls : List Nat}
    (exactly : ∀ index, index ∈ calls ↔ ∃ old text file loaded,
      stages index = .installed old text file loaded)
    (turn : Turn crates writer task.job pool.state (stages index) event after
      site)
    (kept : ∀ old text file loaded,
      after ≠ .installed old text file loaded) (position : Nat) :
    position ∈ calls ↔ ∃ old text file loaded,
      Function.update stages index after position =
        .installed old text file loaded := by
  rw [exactly]
  by_cases same : position = index
  · subst same
    rw [Function.update_self]
    constructor
    · rintro ⟨old, text, file, loaded, here⟩
      rw [here] at turn
      cases turn
    · rintro ⟨old, text, file, loaded, here⟩
      exact absurd here (kept old text file loaded)
  · rw [Function.update_of_ne same]

/-- A turn that neither reads nor renames leaves the file and the log as they
are. -/
theorem Keeps.other (different : writer.path ≠ writer.tempPath)
    (keeps : Keeps crates writer start pool stages log initial final)
    (found : pool.tasks[index]? = some task)
    (turn : Turn crates writer task.job pool.state (stages index) event after
      site)
    (read : stages index ≠ .reading)
    (kept : ∀ old text file loaded,
      after ≠ .installed old text file loaded)
    (guarded : TempGuarded crates writer site
      (Function.update stages index after))
    (program : Edit (Except WriteError Unit)) :
    Keeps crates writer start
      { state := site
        tasks := pool.tasks.set index
          { job := task.job, trace := task.trace ++ [event], program } }
      (Function.update stages index after) log initial final where
  guarded := guarded
  nodup := keeps.nodup
  exactly := exactly_of_kept keeps.exactly turn kept
  within := keeps.within
  readWithin := keeps.readWithin
  begins := keeps.begins
  ends := by
    have content := turn.content? different (keeps.guarded.fits index) kept
    have ends := keeps.ends
    unfold Disk.read at ends ⊢
    rw [content]
    exact ends
  applied := by
    rw [callsOf_set found]
    exact keeps.applied
  based := by
    intro position old based
    rw [callsOf_set found]
    refine keeps.based position old ?_
    by_cases same : position = index
    · subst same
      rw [Function.update_self] at based
      exact turn.old? read based
    · rwa [Function.update_of_ne same] at based

/-- A call that reads the file has what the file holds. -/
theorem Keeps.reads
    (keeps : Keeps crates writer start pool stages log initial final)
    (found : pool.tasks[index]? = some task)
    (turn : Turn crates writer task.job pool.state .reading event after site)
    (here : stages index = .reading)
    (answered : event.answer =
      (event.op.perform none pool.state).1)
    (guarded : TempGuarded crates writer site
      (Function.update stages index after))
    (program : Edit (Except WriteError Unit)) :
    Keeps crates writer start
      { state := site
        tasks := pool.tasks.set index
          { job := task.job, trace := task.trace ++ [event], program } }
      (Function.update stages index after) (log.note writer index event)
      initial final := by
  have noted : log.note writer index event = log.hasRead index := by
    cases turn <;> exact if_pos rfl
  have stays : site = pool.state := by
    cases turn <;> rfl
  have kept : ∀ old text file loaded,
      after ≠ .installed old text file loaded := by
    rintro old text file loaded rfl
    cases turn
  have isRead {old : Except IoError ByteArray}
      (based : after.old? = some old) :
      old = pool.state.disk.read writer.path := by
    cases turn with
    | refused => cases based
    | @edited other text read computed =>
        cases based
        exact answered.trans (congrArg Prod.fst (perform_read_none _))
  rw [← here] at turn
  rw [noted, stays]
  rw [stays] at guarded
  exact
    { guarded := guarded
      nodup := keeps.nodup
      exactly := exactly_of_kept keeps.exactly turn kept
      within := keeps.within
      readWithin := by
        intro position
        by_cases same : position = index
        · subst same
          simpa using keeps.within
        · simpa [same] using keeps.readWithin position
      begins := keeps.begins
      ends := keeps.ends
      applied := by
        rw [callsOf_set found]
        exact keeps.applied
      based := by
        intro position old based
        rw [callsOf_set found]
        by_cases same : position = index
        · subst same
          rw [Function.update_self] at based
          rw [isRead based, FileLog.hasRead_read, Function.update_self]
          exact ⟨final, keeps.ends, keeps.applied⟩
        · rw [Function.update_of_ne same] at based
          rw [FileLog.hasRead_read, Function.update_of_ne same]
          exact keeps.based position old based }

/-- A call that renames puts there what it has read and its change. -/
theorem Keeps.renamed
    (keeps : Keeps crates writer start pool stages log initial final)
    (found : pool.tasks[index]? = some task)
    {old loaded : Except IoError ByteArray} {text : String} {file : Nat}
    (here : stages index = .installing old text file loaded)
    (computed : task.job.text crates old = .ok text)
    (accepted : ∃ config, loadFrom crates (.ok text.toUTF8) = .ok config)
    (content : site.disk.content? writer.path = some text.toUTF8)
    (guarded : TempGuarded crates writer site
      (Function.update stages index (.installed old text file loaded)))
    (program : Edit (Except WriteError Unit)) :
    Keeps crates writer start
      { state := site
        tasks := pool.tasks.set index
          { job := task.job, trace := task.trace ++ [event], program } }
      (Function.update stages index (.installed old text file loaded))
      (log.hasRenamed index) initial text := by
  have fresh : index ∉ log.order := by
    intro member
    obtain ⟨old, text, file, loaded, ended⟩ :=
      (keeps.exactly index).mp member
    cases here.symm.trans ended
  obtain ⟨base, isBase, made⟩ := keeps.based index old (by rw [here]; rfl)
  have edited : task.job.edited? crates base = some text := by
    obtain ⟨config, loads⟩ := accepted
    refine edited?_of_text ?_ loads
    rw [← text_of_read isBase]
    exact computed
  refine
    { guarded := guarded
      nodup := ?_
      exactly := ?_
      within := ?_
      readWithin := ?_
      begins := keeps.begins
      ends := ?_
      applied := ?_
      based := ?_ }
  · rw [FileLog.hasRenamed_order]
    refine List.nodup_append.mpr ⟨keeps.nodup, by simp, ?_⟩
    intro position member other last same
    rw [List.mem_singleton.mp last] at same
    exact fresh (same ▸ member)
  · intro position
    rw [FileLog.hasRenamed_order, List.mem_append, List.mem_singleton,
      keeps.exactly]
    by_cases same : position = index
    · subst same
      rw [Function.update_self]
      simp
    · rw [Function.update_of_ne same]
      simp [same]
  · rw [FileLog.hasRenamed_order, FileLog.hasRenamed_held]
    exact (keeps.readWithin index).append_right [index]
  · intro position
    rw [FileLog.hasRenamed_order, FileLog.hasRenamed_read]
    exact (keeps.readWithin position).trans
      (List.sublist_append_left _ _)
  · unfold Disk.read
    rw [content]
    exact fileText_toUTF8 text
  · have calls : callsOf pool (log.read index ++ [index]) =
        callsOf pool (log.read index) ++ [task.job] := by
      simp [callsOf, List.filterMap_append, found]
    rw [FileLog.hasRenamed_held, callsOf_set found, calls, editedAll?,
      List.foldlM_append,
      show List.foldlM _ initial (callsOf pool (log.read index)) = some base
        from made]
    simp [edited]
  · intro position other based
    rw [callsOf_set found]
    by_cases same : position = index
    · subst same
      rw [Function.update_self] at based
      cases based
    · rw [Function.update_of_ne same] at based
      exact keeps.based position other based

end Turns

theorem Keeps.arrive {initial final : String}
    (keeps : Keeps crates writer start pool stages log initial final)
    (staged : AtStages crates writer pool stages) (call : WriterCall) :
    Keeps crates writer start
      { pool with
        tasks := pool.tasks ++ [(writerCalls crates writer).launch call] }
      stages log initial final := by
  have same {part : List Nat} (among : part.Sublist log.order) :
      callsOf
          { pool with
            tasks := pool.tasks ++ [(writerCalls crates writer).launch call] }
          part =
        callsOf pool part := by
    refine callsOf_congr fun position member => ?_
    obtain ⟨old, text, file, loaded, here⟩ :=
      (keeps.exactly position).mp (among.subset member)
    have inside : position < pool.tasks.length := by
      refine Nat.lt_of_not_le fun beyond => ?_
      cases here.symm.trans (staged.outside position beyond)
    rw [List.getElem?_append_left inside]
  refine ⟨keeps.guarded, keeps.nodup, keeps.exactly, keeps.within,
    keeps.readWithin, keeps.begins, keeps.ends, ?_, fun index old read => ?_⟩
  · rw [same keeps.within]
    exact keeps.applied
  · rw [same (keeps.readWithin index)]
    exact keeps.based index old read

/-- The log after a step of a call. -/
theorem FileLog.after_of_set {target : WriterPool} {index : Nat}
    {fault : Fault} {task : WriterTask} {event : SiteEvent}
    {program : Edit (Except WriteError Unit)}
    (found : pool.tasks[index]? = some task)
    (same : target.tasks = pool.tasks.set index
      { job := task.job, trace := task.trace ++ [event], program }) :
    log.after writer target (.advance index fault) =
      log.note writer index event := by
  have last : (target.tasks[index]?.bind fun task => task.trace.getLast?) =
      some event := by
    rw [same, List.getElem?_set_self (List.getElem?_eq_some_iff.mp found).1]
    exact List.getLast?_concat
  simp only [FileLog.after, last]

theorem keeps_of_logged (different : writer.path ≠ writer.tempPath)
    (loads : FileLoads crates writer start) {initial : String}
    (begins : fileText (start.disk.read writer.path) = some initial)
    (logged : Logged crates writer start pool log) :
    ∃ stages, AtStages crates writer pool stages ∧
      ∃ final, Keeps crates writer start pool stages log initial final := by
  induction logged with
  | start => exact ⟨_, .empty start, initial, .empty loads begins⟩
  | @step pool target log label _ admitted taken induction =>
      obtain ⟨stages, staged, final, keeps⟩ := induction
      cases label with
      | arrive call =>
          cases taken
          exact ⟨stages, staged.arrive call, final, keeps.arrive staged call⟩
      | advance index fault =>
          obtain ⟨task, event, after, found, next, turn, answered,
            ⟨program, same⟩, stagedAfter⟩ := staged.advance taken
          refine ⟨_, stagedAfter, ?_⟩
          rw [FileLog.after_of_set found same]
          have guarded := keeps.guarded.turn different turn fun creates => by
            rw [creates] at next
            exact staged.none_of_exclusive admitted.1 found next
          suffices moved : ∃ final, Keeps crates writer start
              { state := target.state
                tasks := pool.tasks.set index
                  { job := task.job, trace := task.trace ++ [event],
                    program } }
              (Function.update stages index after)
              (log.note writer index event) initial final by
            rwa [← same] at moved
          by_cases renames : ∃ old text file loaded,
              after = .installed old text file loaded
          · obtain ⟨old, text, file, loaded, rfl⟩ := renames
            obtain ⟨here, rfl, source, named, isSite⟩ := turn.of_installed
            have now := staged.inside index task found
            have fits := keeps.guarded.fits index
            rw [here] at now fits
            obtain ⟨-, accepted, content⟩ := fits.renamed named
            have noted : log.note writer index
                (renameEvent writer.tempPath writer.path (.ok ())) =
                  log.hasRenamed index := if_pos rfl
            rw [noted]
            refine ⟨text, keeps.renamed found here now.computed accepted ?_
              guarded program⟩
            rw [isSite]
            exact content
          · have kept : ∀ old text file loaded,
                after ≠ .installed old text file loaded :=
              fun old text file loaded isLast =>
                renames ⟨old, text, file, loaded, isLast⟩
            by_cases reads : stages index = .reading
            · rw [reads] at turn
              have quiet : fault = none := by
                refine admitted.2 task.job task.trace ?_
                simp [Pool.next?, found, next, turn.op_of_reading]
              rw [quiet] at answered
              exact ⟨final, keeps.reads found turn reads answered guarded
                program⟩
            · rw [turn.note_eq different reads kept]
              exact ⟨final, keeps.other different found turn reads kept
                guarded program⟩

theorem Keeps.fileHolds {initial final : String}
    (keeps : Keeps crates writer start pool stages log initial final)
    (staged : AtStages crates writer pool stages) :
    FileHolds crates writer start pool log initial final where
  nodup := keeps.nodup
  exactly := by
    intro index
    rw [keeps.exactly]
    constructor
    · rintro ⟨old, text, file, loaded, here⟩
      cases found : pool.tasks[index]? with
      | none =>
          have idle := staged.outside index
            (List.getElem?_eq_none_iff.mp found)
          cases here.symm.trans idle
      | some task =>
          refine ⟨task, rfl, ?_⟩
          rw [(staged.inside index task found).program, here]
          rfl
    · rintro ⟨task, found, returned⟩
      exact (staged.inside index task found).installed_of_ok returned
  within := keeps.within
  begins := keeps.begins
  ends := keeps.ends
  applied := keeps.applied

/-- Where no rename was disturbed, the file is the result of every call that
returned `Ok`. -/
theorem FileHolds.serialises {initial final : String}
    (holds : FileHolds crates writer start pool log initial final)
    (undisturbed : log.Undisturbed) :
    Serialises crates writer start pool log.order initial final where
  nodup := holds.nodup
  exactly := holds.exactly
  begins := holds.begins
  ends := holds.ends
  applied := undisturbed.held_eq ▸ holds.applied

/-- After any interleaving of calls of which one at a time uses the temporary
file, the configuration file is the result of the calls that it holds, in the
order of their renames.  A call that returned `Ok` is among them unless a later
one renamed that had read the file without it, and a hook that one of them
added stays until another of them names it. -/
theorem fileHolds_of_logged (different : writer.path ≠ writer.tempPath)
    (loads : FileLoads crates writer start)
    (logged : Logged crates writer start pool log) :
    ∃ initial final,
      FileHolds crates writer start pool log initial final ∧
        (∀ before rename later, log.renames = before ++ rename :: later →
          rename.call ∉ log.held →
          ∃ other ∈ later, rename.call ∉ other.onto) ∧
        (log.Undisturbed →
          Serialises crates writer start pool log.order initial final) ∧
        ∀ before data later,
          callsOf pool log.held = before ++ .addHook data :: later →
          (∀ call ∈ later, call.target? ≠ some data.slug) →
          crates.Lawful (PrintsAny crates (callsOf pool log.held)) →
          (∀ call ∈ callsOf pool log.held, call.request.Fits) →
          (∃ document, crates.parse initial = some document ∧
            HooksAreTables document) →
          ∃ document, crates.parse final = some document ∧
            HasHook (buildHookTable data) document := by
  obtain ⟨initial, begins⟩ := fileText_of_loads loads
  obtain ⟨stages, staged, final, keeps⟩ :=
    keeps_of_logged different loads begins logged
  have holds := keeps.fileHolds staged
  refine ⟨initial, final, holds, fun before rename later same =>
    FileLog.dropped_by same, holds.serialises, ?_⟩
  intro before data later same spared lawful fits areTables
  have applied := holds.applied
  rw [same] at lawful fits applied
  exact hasHook_of_editedAll lawful fits areTables spared applied

end Runs

/-! ## Two submissions -/

/-- A call that has installed its text. -/
def installedTask (crates : Crates) (call : WriterCall)
    (old : Except IoError ByteArray) (text : String) (site : Site) :
    WriterTask :=
  (CallStage.installed old text (sendwordToml.tempFile site)
      (.ok text.toUTF8)).task crates sendwordToml call
    (stagingEvents old text site ++
      [renameEvent sendwordToml.tempPath sendwordToml.path (.ok ())])

/-- The temporary file has become the configuration file. -/
def installedSite (text : String) (site : Site) : Site :=
  { stagedSite text site with
    disk := (stagedSite text site).disk.rename sendwordToml.tempPath
      sendwordToml.path (sendwordToml.tempFile site)
      (site.disk.create_file? sendwordToml.tempPath) }

theorem installed_of_staged {crates : Crates} {call : WriterCall}
    {old : Except IoError ByteArray} {text : String}
    {tasks : List WriterTask} {index : Nat} {site : Site}
    (found : tasks[index]? = some (installingTask crates call old text
      site)) :
    (writerCalls crates sendwordToml).step
        { state := stagedSite text site, tasks } (.advance index none) =
      some
        { state := installedSite text site
          tasks := tasks.set index
            (installedTask crates call old text site) } :=
  @step_rename crates sendwordToml { state := stagedSite text site, tasks }
    call (stagingEvents old text site) index _ _ _ _ _ found
    (site.disk.create_file? sendwordToml.tempPath)

/-- A call that has installed the greeting. -/
def greetedTask (site : Site) : WriterTask :=
  installedTask greetingCrates greetingCall (.ok "".toUTF8) greetingText site

/-- One call has returned, and the other has read the empty file. -/
def installedPool : WriterPool where
  state := installedSite greetingText emptySite
  tasks := [greetedTask emptySite, waitingTask]

/-- Both calls have returned. -/
def doubledPool : WriterPool where
  state := installedSite greetingText (installedSite greetingText emptySite)
  tasks :=
    [greetedTask emptySite, greetedTask (installedSite greetingText emptySite)]

theorem greeting_edits :
    greetingCall.edited? greetingCrates "" = some greetingText := by
  obtain ⟨config, accepted⟩ := greeting_loads
  exact edited?_of_text greeting_text accepted

/-- The slug is taken. -/
theorem greeting_conflicts :
    greetingCall.edited? greetingCrates greetingText = none :=
  edited?_of_error greeting_parse
    (show greetingCall.edit greetingDocument =
      .error (.slugConflict "greeting") from rfl)

/-- Two submissions of one form both return `Ok`, while one of them fails
after the other. -/
theorem not_serialises :
    FileLoads greetingCrates sendwordToml emptySite ∧
      ∃ pool, (writerCalls greetingCrates sendwordToml).Reaches
          (Exclusive sendwordToml) { state := emptySite, tasks := [] } pool ∧
        ∀ order initial final, ¬ Serialises greetingCrates sendwordToml
          emptySite pool order initial final := by
  refine ⟨emptySite_loads, ?_⟩
  have installed : (writerCalls greetingCrates sendwordToml).Reaches
      (Exclusive sendwordToml) { state := emptySite, tasks := [] }
      installedPool :=
    (stagedPool_reached admitsQuiet_exclusive exclusive_waitingPool).step
      (.of_next rfl (by simp))
      (@installed_of_staged _ _ _ _ _ 0 emptySite rfl)
  have unused : Exclusive sendwordToml installedPool (.advance 1 none) := by
    intro call trace _ task member
    rcases List.mem_cons.mp member with rfl | last
    · rfl
    · rw [List.mem_singleton.mp last]
      rfl
  have again := installed.append
    (@staged_of_waiting _ admitsQuiet_exclusive installedPool 1 rfl unused)
  have doubled : (writerCalls greetingCrates sendwordToml).Reaches
      (Exclusive sendwordToml) { state := emptySite, tasks := [] }
      doubledPool :=
    again.step (.of_next rfl (by simp))
      (@installed_of_staged _ _ _ _ _ 1
        (installedSite greetingText emptySite) rfl)
  refine ⟨doubledPool, doubled, ?_⟩
  intro order initial final serialises
  have both : ∀ index, index ∈ order ↔ index ∈ [0, 1] := by
    intro index
    rw [serialises.exactly]
    match index with
    | 0 => exact ⟨fun _ => by simp, fun _ => ⟨_, rfl, rfl⟩⟩
    | 1 => exact ⟨fun _ => by simp, fun _ => ⟨_, rfl, rfl⟩⟩
    | index + 2 =>
        constructor
        · intro ended
          obtain ⟨task, found, -⟩ := ended
          cases found
        · intro member
          simp at member
  have perm : order.Perm [0, 1] :=
    (List.perm_ext_iff_of_nodup serialises.nodup (by decide)).mpr both
  have calls : (callsOf doubledPool order).Perm
      (List.replicate 2 greetingCall) := perm.filterMap _
  have begins := serialises.begins
  rw [emptySite_read, fileText_toUTF8] at begins
  cases begins
  have applied := serialises.applied
  rw [List.perm_replicate.mp calls] at applied
  simp [editedAll?, List.replicate, greeting_edits, greeting_conflicts]
    at applied

/-! ## Two calls that overlap -/

section Overlap

theorem FileLog.note_of_quiet {operation : SiteOp} (log : FileLog)
    (index : Nat) (quiet : operation.Quiet) (answer : operation.Answer) :
    log.note sendwordToml index ⟨operation, answer⟩ = log := by
  unfold FileLog.note
  split
  · rename_i name answer same
    cases same
    exact if_neg fun isPath => quiet.notRead (by rw [isPath])
  · rename_i source target same
    cases same
    exact if_neg fun isPath => quiet.notRename source (by rw [isPath])
  · rfl

variable {crates : Crates} {start site : Site} {pool target : WriterPool}
  {log : FileLog} {index : Nat} {fault : Fault} {task : WriterTask}

theorem Logged.advance {writer : ConfigWriter} {event : SiteEvent}
    {program : Edit (Except WriteError Unit)}
    (logged : Logged crates writer start pool log)
    (careful : Careful writer pool (.advance index fault))
    (found : pool.tasks[index]? = some task)
    (taken : (writerCalls crates writer).step pool (.advance index fault) =
      some
        { state := site
          tasks := pool.tasks.set index
            { job := task.job, trace := task.trace ++ [event], program } }) :
    Logged crates writer start
      { state := site
        tasks := pool.tasks.set index
          { job := task.job, trace := task.trace ++ [event], program } }
      (log.note writer index event) := by
  have moved := logged.step careful taken
  rwa [FileLog.after_of_set found rfl] at moved

theorem Careful.of_next {writer : ConfigWriter} {call : WriterCall}
    {trace : List SiteEvent} {operation : SiteOp}
    (next : pool.next? index = some (call, trace, operation))
    (notCreate : operation ≠ .file (.create writer.tempPath)) :
    Careful writer pool (.advance index none) :=
  ⟨.of_next next notCreate, fun _ _ _ => rfl⟩

/-- Quiet steps leave the log alone. -/
theorem Logged.kept (log : FileLog) :
    KeptWhenQuiet crates fun pool =>
      Logged crates sendwordToml start pool log := by
  intro pool target index call trace operation logged next quiet taken
  have moved := logged.step (.of_next next quiet.notCreate) taken
  obtain ⟨job, past, op, rest, answer, state, found, performed, same⟩ :=
    Machine.step_advance taken
  have isNext := Pool.next?_eq found
  cases next.symm.trans isNext
  have tasks : target.tasks = pool.tasks.set index
      { job := call, trace := trace ++ [⟨operation, answer⟩],
        program := rest answer } := by
    rw [same]
    exact List.append_nil _
  rw [FileLog.after_of_set found tasks,
    FileLog.note_of_quiet log index quiet answer] at moved
  exact moved

/-- The file of the example, as it is read. -/
def deployedRead : Except IoError ByteArray :=
  .ok (serverText ++ deployText).toUTF8

/-- The calls of the example: one removes the hook, one adds another. -/
def removal : WriterCall := .removeHook "deploy"

def greetedText : String := serverText ++ deployText ++ greetingText

theorem deployedSite_read :
    deployedSite.disk.read sendwordToml.path = deployedRead := by
  unfold Disk.read
  rw [show deployedSite.disk.content? sendwordToml.path =
    some (serverText ++ deployText).toUTF8 from content?_diskWith ..]
  rfl

theorem text_of_edit {call : WriterCall} {new : Document}
    (edited : call.edit (withHooks [buildHookTable deploy] serverDocument) =
      .ok new) :
    call.text siteCrates deployedRead = .ok (siteCrates.print new) := by
  have read : readToString deployedRead = some (serverText ++ deployText) :=
    fromUTF8?_toUTF8 _
  unfold WriterCall.text
  rw [read, Option.getD_some, deployed_parse]
  simp only [edited, Except.map]

theorem removal_text :
    removal.text siteCrates deployedRead = .ok serverText :=
  (@text_of_edit _ serverDocument rfl).trans
    (congrArg Except.ok (@site_print _ _ 2 rfl rfl))

theorem addition_text :
    greetingCall.text siteCrates deployedRead = .ok greetedText :=
  (@text_of_edit _ (withHooks [buildHookTable deploy, buildHookTable greeting]
    serverDocument) rfl).trans
      (congrArg Except.ok (@site_print _ _ 5 rfl rfl))

theorem removal_loads :
    ∃ config, loadFrom siteCrates (.ok serverText.toUTF8) = .ok config := by
  refine ⟨{ deployedConfig with hooks := [] }, ?_⟩
  exact (loadFrom_printed (@site_parse _ _ 2 rfl rfl)).trans (by decide)

theorem addition_loads :
    ∃ config, loadFrom siteCrates (.ok greetedText.toUTF8) = .ok config :=
  ⟨greetedConfig, (loadFrom_printed greeted_parse).trans (by decide)⟩

/-- A call that has read the file. -/
def readTask (call : WriterCall) (text : String) : WriterTask :=
  creatingTask siteCrates call deployedRead text

def readPool : WriterPool where
  state := deployedSite
  tasks := [readTask removal serverText, readTask greetingCall greetedText]

/-- The removal has returned. -/
def removedPool : WriterPool where
  state := installedSite serverText deployedSite
  tasks :=
    [installedTask siteCrates removal deployedRead serverText deployedSite,
      readTask greetingCall greetedText]

/-- Both have returned. -/
def overlappedPool : WriterPool where
  state := installedSite greetedText (installedSite serverText deployedSite)
  tasks :=
    [installedTask siteCrates removal deployedRead serverText deployedSite,
      installedTask siteCrates greetingCall deployedRead greetedText
        (installedSite serverText deployedSite)]

def readLog : FileLog := (({} : FileLog).hasRead 0).hasRead 1

def overlappedLog : FileLog := (readLog.hasRenamed 0).hasRenamed 1

theorem readPool_logged :
    Logged siteCrates sendwordToml deployedSite readPool readLog := by
  let comes (call : WriterCall) : WriterTask :=
    CallStage.reading.task siteCrates sendwordToml call []
  have arrive (call : WriterCall) {pool : WriterPool} {log : FileLog}
      (logged : Logged siteCrates sendwordToml deployedSite pool log) :
      Logged siteCrates sendwordToml deployedSite
        { pool with tasks := pool.tasks ++ [comes call] } log :=
    @Logged.step _ _ _ _ _ _ (.arrive call) logged ⟨trivial, trivial⟩ rfl
  have both := arrive greetingCall (arrive removal .start)
  have reads (call : WriterCall) (pool : WriterPool) (index : Nat)
      (found : pool.tasks[index]? = some (comes call)) :
      Careful sendwordToml pool (.advance index none) := by
    have next : (WriterCall.body siteCrates sendwordToml call).next? =
        some (.file (.read sendwordToml.path)) := by
      rw [WriterCall.body_eq]
      rfl
    refine @Careful.of_next pool index sendwordToml call []
      (.file (.read sendwordToml.path)) ?_ (by simp)
    simp only [Pool.next?, found, Option.bind_some, comes, CallStage.task,
      CallStage.program, next, Option.map_some]
  have one := both.advance (reads removal _ 0 rfl) rfl
    (step_read rfl deployedSite_read removal_text)
  have two := one.advance (reads greetingCall _ 1 rfl) rfl
    (step_read rfl deployedSite_read addition_text)
  exact two

/-- A call that is alone with the temporary file installs its text. -/
theorem Logged.install {call : WriterCall} {old : Except IoError ByteArray}
    {text : String}
    (logged : Logged crates sendwordToml start pool log)
    (accepted : ∃ config, loadFrom crates (.ok text.toUTF8) = .ok config)
    (found : pool.tasks[index]? = some (creatingTask crates call old text))
    (unused : ∀ task ∈ pool.tasks, usesTemp task = false) :
    Logged crates sendwordToml start
      { state := installedSite text pool.state
        tasks := pool.tasks.set index
          (installedTask crates call old text pool.state) }
      (log.hasRenamed index) := by
  have inside := (List.getElem?_eq_some_iff.mp found).1
  have opens : ∀ target,
      (writerCalls crates sendwordToml).step pool (.advance index none) =
        some target →
      Logged crates sendwordToml start target log := by
    intro target taken
    have created := @step_create crates sendwordToml pool call _ index _ _
      found
    cases taken.symm.trans created
    have careful : Careful sendwordToml pool (.advance index none) :=
      ⟨fun _ _ _ => unused, fun _ _ _ => rfl⟩
    exact logged.advance careful found created
  have staged := staged_of_opened (Logged.kept log) accepted found opens
  have here : (pool.tasks.set index (installingTask crates call old text
      pool.state))[index]? =
        some (installingTask crates call old text pool.state) :=
    List.getElem?_set_self inside
  have taken := @installed_of_staged crates call old text _ index pool.state
    here
  have careful : Careful sendwordToml
      { state := stagedSite text pool.state
        tasks := pool.tasks.set index
          (installingTask crates call old text pool.state) }
      (.advance index none) := by
    refine .of_next (Pool.next?_eq here) (by simp)
  have renamed := staged.advance careful here taken
  rw [List.set_set] at renamed
  exact renamed

theorem overlappedPool_logged :
    Logged siteCrates sendwordToml deployedSite overlappedPool
      overlappedLog := by
  have none (pool : WriterPool) (first second : WriterTask)
      (tasks : pool.tasks = [first, second])
      (one : usesTemp first = false) (two : usesTemp second = false) :
      ∀ task ∈ pool.tasks, usesTemp task = false := by
    intro task member
    rw [tasks] at member
    rcases List.mem_pair.mp member with rfl | rfl
    · exact one
    · exact two
  have removed : Logged siteCrates sendwordToml deployedSite removedPool
      (readLog.hasRenamed 0) :=
    @Logged.install siteCrates deployedSite readPool readLog 0 _ _ _
      readPool_logged removal_loads rfl (none readPool _ _ rfl rfl rfl)
  exact @Logged.install siteCrates deployedSite removedPool _ 1 _ _ _
    removed addition_loads rfl (none removedPool _ _ rfl rfl rfl)

theorem siteDocuments_of_greeting {old new : Document}
    (member : old ∈ siteDocuments) (edited : greetingCall.edit old = .ok new) :
    new ∈ siteDocuments := by
  simp only [siteDocuments, List.mem_cons, List.not_mem_nil, or_false]
    at member
  rcases member with rfl | rfl | rfl | rfl | rfl | rfl | rfl
  all_goals cases edited
  · exact List.mem_of_getElem? (i := 1) rfl
  · exact List.mem_of_getElem? (i := 3) rfl
  · exact List.mem_of_getElem? (i := 5) rfl

/-- The removal is dropped: the file still has the hook, beside the one that
was added. -/
theorem fileHolds_of_logged_overlap :
    ∃ final document,
      FileHolds siteCrates sendwordToml deployedSite overlappedPool
        overlappedLog (serverText ++ deployText) final ∧
      overlappedLog.held = [1] ∧
      (∃ other, overlappedLog.renames = [⟨0, []⟩, other] ∧
        0 ∉ other.onto) ∧
      siteCrates.parse final = some document ∧
      HasHook (buildHookTable deploy) document ∧
      HasHook (buildHookTable greeting) document := by
  have loads : FileLoads siteCrates sendwordToml deployedSite := by
    refine ⟨deployedConfig, ?_⟩
    rw [deployedSite_read]
    exact (loadFrom_printed deployed_parse).trans (by decide)
  obtain ⟨initial, final, holds, dropped, -, keeps⟩ :=
    fileHolds_of_logged (by decide) loads overlappedPool_logged
  have begins := holds.begins
  rw [deployedSite_read, deployedRead, fileText_toUTF8] at begins
  cases begins
  have calls : callsOf overlappedPool overlappedLog.held = [greetingCall] :=
    rfl
  have edited : greetingCall.edited? siteCrates (serverText ++ deployText) =
      some greetedText := by
    obtain ⟨config, accepted⟩ := addition_loads
    exact edited?_of_text addition_text accepted
  have isFinal : final = greetedText := by
    have applied := holds.applied
    rw [calls] at applied
    have whole : greetingCall.edited? siteCrates (serverText ++ deployText) =
        some final := by
      simpa [editedAll?] using applied
    exact Option.some.inj (whole.symm.trans edited)
  obtain ⟨document, parsed, added⟩ := keeps [] greeting [] calls
    (fun call member => by cases member)
    (site_lawful fun document prints => by
      obtain ⟨call, member, text, old, parsed, edited⟩ := prints
      rw [calls] at member
      rw [List.mem_singleton.mp member] at edited
      exact siteDocuments_of_greeting (site_of_parse parsed) edited)
    (fun call member => by
      rw [calls] at member
      rw [List.mem_singleton.mp member]
      exact greeting_fits)
    ⟨_, deployed_parse, .inr ⟨_, rfl⟩⟩
  obtain ⟨other, member, without⟩ := dropped [] ⟨0, []⟩ [⟨1, []⟩] rfl
    (by decide)
  refine ⟨final, document, holds, rfl, ⟨other, ?_, without⟩, parsed, ?_,
    added⟩
  · rw [List.mem_singleton.mp member]
    rfl
  · rw [isFinal] at parsed
    cases parsed.symm.trans greeted_parse
    exact ⟨_, rfl, List.mem_cons_self⟩

end Overlap

end Sendword
