import Sendword.ConfigRuns

/-!
# Concurrent configuration changes

Calls of `add_hook`, `update_hook` and `remove_hook` on one `ConfigWriter`,
interleaved one file operation at a time.  A call passes through a few
stages; `Turn` says what one operation does to the stage and to the disk.
-/

namespace Sendword

open Concurrency Files Toml

inductive WriterCall where
  | addHook (data : HookFormData)
  | updateHook (slug : String) (data : HookFormData)
  | removeHook (slug : String)

namespace WriterCall

def edit : WriterCall → Document → Except WriteError Document
  | .addHook data => addHookTable data
  | .updateHook slug data => updateHookTable slug data
  | .removeHook slug => removeHookTable slug

variable (crates : Crates) (writer : ConfigWriter)

def body : WriterCall → Edit (Except WriteError Unit)
  | .addHook data => Sendword.addHook crates writer data
  | .updateHook slug data => Sendword.updateHook crates writer slug data
  | .removeHook slug => Sendword.removeHook crates writer slug

theorem body_eq (call : WriterCall) :
    call.body crates writer = editHooks crates writer call.edit := by
  cases call <;> rfl

/-- The text that a call writes after it has read `old`. -/
def text (call : WriterCall) (old : Except IoError ByteArray) :
    Except WriteError String :=
  match crates.parse ((readToString old).getD "") with
  | none => .error .parse
  | some document => (call.edit document).map crates.print

end WriterCall

abbrev WriterPool : Type :=
  Pool Site WriterCall SiteOp.Answer (Except WriteError Unit)

abbrev WriterTask : Type :=
  Task WriterCall SiteOp.Answer (Except WriteError Unit)

abbrev SiteEvent : Type := Event SiteOp.Answer

/-- The calls of a process. -/
def writerCalls (crates : Crates) (writer : ConfigWriter) :
    Machine Site Fault WriterCall SiteOp.Answer (Except WriteError Unit) where
  body := WriterCall.body crates writer
  perform operation fault site := some (operation.perform fault site)
  forks _ := none

/-! ## Events -/

def readEvent (name : Path) (answer : Except IoError ByteArray) : SiteEvent :=
  ⟨.file (.read name), answer⟩

def createEvent (name : Path) (answer : Except IoError Nat) : SiteEvent :=
  ⟨.file (.create name), answer⟩

def writeEvent (file : Nat) (content : ByteArray)
    (answer : Except IoError Unit) : SiteEvent :=
  ⟨.file (.write file content), answer⟩

def syncEvent (file : Nat) (answer : Except IoError Unit) : SiteEvent :=
  ⟨.file (.sync file), answer⟩

def removeEvent (name : Path) (answer : Except IoError Unit) : SiteEvent :=
  ⟨.file (.remove name), answer⟩

def renameEvent (source target : Path) (answer : Except IoError Unit) :
    SiteEvent :=
  ⟨.file (.rename source target), answer⟩

/-- What a call read under a name. -/
def readAnswer? (name : Path) (trace : List SiteEvent) :
    Option (Except IoError ByteArray) :=
  trace.findSome? fun event => match event with
    | ⟨.file (.read other), answer⟩ =>
        if other = name then some answer else none
    | _ => none

/-- The bytes a call has serialised and written. -/
def writtenContent? (trace : List SiteEvent) : Option ByteArray :=
  trace.findSome? fun event => match event with
    | ⟨.file (.write _ content), _⟩ => some content
    | _ => none

/-- The event opened a file for writing. -/
def SiteEvent.opens : SiteEvent → Bool
  | ⟨.file (.create _), .ok _⟩ => true
  | _ => false

def SiteOp.removes : SiteOp → Bool
  | .file (.remove _) => true
  | _ => false

/-- The call has opened the temporary file and may still write it, load it or
install it. -/
def usesTemp (task : WriterTask) : Bool :=
  task.trace.any SiteEvent.opens &&
    task.program.next?.any fun operation => !operation.removes

/-! ## Stages -/

/-- How far a call has come: what it has read, the text it writes, the file
it has opened and what it has loaded. -/
inductive CallStage where
  | reading
  | creating (old : Except IoError ByteArray) (text : String)
  | writing (old : Except IoError ByteArray) (text : String) (file : Nat)
  | syncing (old : Except IoError ByteArray) (text : String) (file : Nat)
  | loading (old : Except IoError ByteArray) (text : String) (file : Nat)
  | installing (old : Except IoError ByteArray) (text : String) (file : Nat)
      (loaded : Except IoError ByteArray)
  | removing (error : ConfigError)
  | installed (old : Except IoError ByteArray) (text : String) (file : Nat)
      (loaded : Except IoError ByteArray)
  | failed (error : WriteError)

namespace CallStage

/-- The file that a call is about to install. -/
def file? : CallStage → Option Nat
  | .writing _ _ file | .syncing _ _ file | .loading _ _ file
  | .installing _ _ file _ => some file
  | _ => none

section Program

variable (crates : Crates) (writer : ConfigWriter)

/-- What follows the temporary file. -/
def afterTemp : Except IoError Unit → Edit (Except WriteError Unit)
  | .error error => .pure (.error (.io error))
  | .ok () => installTemp crates writer

/-- What is left of the call. -/
def program (call : WriterCall) :
    CallStage → Edit (Except WriteError Unit)
  | .reading => call.body crates writer
  | .creating _ text =>
      (tempfileIn writer text).bind (afterTemp crates writer)
  | .writing _ text file =>
      (onFile (.write file text.toUTF8)).bind fun written =>
        match written with
        | .error error => .pure (.error (.io error))
        | .ok () =>
            (onFile (.sync file)).bind (afterTemp crates writer)
  | .syncing _ _ file =>
      (onFile (.sync file)).bind (afterTemp crates writer)
  | .loading .. => installTemp crates writer
  | .installing .. =>
      (onFile (.rename writer.tempPath writer.path)).bind fun renamed =>
        match renamed with
        | .error error => .pure (.error (.io error))
        | .ok () => .pure (.ok ())
  | .removing error =>
      (onFile (.remove writer.tempPath)).bind fun _ =>
        .pure (.error (.validation error))
  | .installed .. => .pure (.ok ())
  | .failed error => .pure (.error error)

end Program

/-- What the trace of a call says at a stage. -/
def Told (writer : ConfigWriter) (trace : List SiteEvent) :
    CallStage → Prop
  | .reading => trace = []
  | .creating old _ => trace = [readEvent writer.path old]
  | .writing old _ file =>
      trace = [readEvent writer.path old,
        createEvent writer.tempPath (.ok file)]
  | .syncing old text file =>
      trace = [readEvent writer.path old,
        createEvent writer.tempPath (.ok file),
        writeEvent file text.toUTF8 (.ok ())]
  | .loading old text file =>
      trace = [readEvent writer.path old,
        createEvent writer.tempPath (.ok file),
        writeEvent file text.toUTF8 (.ok ()), syncEvent file (.ok ())]
  | .installing old text file loaded =>
      trace = [readEvent writer.path old,
        createEvent writer.tempPath (.ok file),
        writeEvent file text.toUTF8 (.ok ()), syncEvent file (.ok ()),
        readEvent writer.tempPath loaded]
  | .installed old text file loaded =>
      trace = [readEvent writer.path old,
        createEvent writer.tempPath (.ok file),
        writeEvent file text.toUTF8 (.ok ()), syncEvent file (.ok ()),
        readEvent writer.tempPath loaded,
        renameEvent writer.tempPath writer.path (.ok ())]
  | .removing _ | .failed _ => True

/-- The text of a call is the edit of what it read. -/
def Computed (crates : Crates) (call : WriterCall) : CallStage → Prop
  | .creating old text | .writing old text _ | .syncing old text _
  | .loading old text _ | .installing old text _ _ =>
      call.text crates old = .ok text
  | .reading | .removing _ | .installed .. | .failed _ => True

end CallStage

/-- An answer to reading a name. -/
def ReadsFile (disk : Disk Path) (name : Path)
    (answer : Except IoError ByteArray) : Prop :=
  answer = disk.read name ∨ answer = .error .failed

section Turns

variable (crates : Crates) (writer : ConfigWriter)

/-- What one operation does to the stage of a call and to the files. -/
inductive Turn (call : WriterCall) (site : Site) :
    CallStage → SiteEvent → CallStage → Site → Prop where
  | refused {old : Except IoError ByteArray} {error : WriteError} :
      call.text crates old = .error error →
      Turn call site .reading (readEvent writer.path old) (.failed error) site
  | edited {old : Except IoError ByteArray} {text : String} :
      ReadsFile site.disk writer.path old →
      call.text crates old = .ok text →
      Turn call site .reading (readEvent writer.path old)
        (.creating old text) site
  | unopened {old : Except IoError ByteArray} {text : String}
      {error : IoError} :
      Turn call site (.creating old text)
        (createEvent writer.tempPath (.error error)) (.failed (.io error))
        site
  | opened {old : Except IoError ByteArray} {text : String} :
      Turn call site (.creating old text)
        (createEvent writer.tempPath (.ok (writer.tempFile site)))
        (.writing old text (writer.tempFile site))
        { site with disk := (site.disk.create writer.tempPath).2 }
  | cut {old : Except IoError ByteArray} {text : String} {file : Nat}
      {written : Nat} {error : IoError} :
      Turn call site (.writing old text file)
        (writeEvent file text.toUTF8 (.error error)) (.failed (.io error))
        { site with
          disk := site.disk.write file (text.toUTF8.extract 0 written) }
  | wrote {old : Except IoError ByteArray} {text : String} {file : Nat} :
      Turn call site (.writing old text file)
        (writeEvent file text.toUTF8 (.ok ())) (.syncing old text file)
        { site with disk := site.disk.write file text.toUTF8 }
  | unsynced {old : Except IoError ByteArray} {text : String} {file : Nat}
      {error : IoError} :
      Turn call site (.syncing old text file)
        (syncEvent file (.error error)) (.failed (.io error)) site
  | synced {old : Except IoError ByteArray} {text : String} {file : Nat} :
      Turn call site (.syncing old text file)
        (syncEvent file (.ok ())) (.loading old text file) site
  | rejected {old loaded : Except IoError ByteArray} {text : String}
      {file : Nat} {error : ConfigError} :
      loadFrom crates loaded = .error error →
      Turn call site (.loading old text file)
        (readEvent writer.tempPath loaded) (.removing error) site
  | validated {old loaded : Except IoError ByteArray} {text : String}
      {file : Nat} {config : AppConfig} :
      ReadsFile site.disk writer.tempPath loaded →
      loadFrom crates loaded = .ok config →
      Turn call site (.loading old text file)
        (readEvent writer.tempPath loaded) (.installing old text file loaded)
        site
  | unremoved {error : ConfigError} {failure : IoError} :
      Turn call site (.removing error)
        (removeEvent writer.tempPath (.error failure))
        (.failed (.validation error)) site
  | removed {error : ConfigError} :
      Turn call site (.removing error)
        (removeEvent writer.tempPath (.ok ())) (.failed (.validation error))
        { site with disk := site.disk.remove writer.tempPath }
  | unrenamed {old loaded : Except IoError ByteArray} {text : String}
      {file : Nat} {error : IoError} :
      Turn call site (.installing old text file loaded)
        (renameEvent writer.tempPath writer.path (.error error))
        (.failed (.io error)) site
  | renamed {old loaded : Except IoError ByteArray} {text : String}
      {file source : Nat}
      (named : site.disk.file? writer.tempPath = some source) :
      Turn call site (.installing old text file loaded)
        (renameEvent writer.tempPath writer.path (.ok ()))
        (.installed old text file loaded)
        { site with
          disk := site.disk.rename writer.tempPath writer.path source named }

variable {crates writer} {call : WriterCall} {site : Site}

theorem validateAndWrite_eq (document : Document) :
    validateAndWrite crates writer document =
      (tempfileIn writer (crates.print document)).bind
        (CallStage.afterTemp crates writer) := by
  have rest : (fun written : Except IoError Unit => match written with
      | .error error => .pure (.error (.io error))
      | .ok () => installTemp crates writer) =
        CallStage.afterTemp crates writer := by
    funext written
    cases written <;> rfl
  exact congrArg (tempfileIn writer (crates.print document)).bind rest

/-- The stage of a call that has read `old`. -/
def CallStage.afterRead (crates : Crates) (call : WriterCall)
    (old : Except IoError ByteArray) : CallStage :=
  match call.text crates old with
  | .error error => .failed error
  | .ok text => .creating old text

theorem program_afterRead (old : Except IoError ByteArray)
    {next : Except IoError ByteArray → Edit (Except WriteError Unit)}
    (same : call.body crates writer =
      .perform (.file (.read writer.path)) next) :
    next old =
      (CallStage.afterRead crates call old).program crates writer call := by
  rw [WriterCall.body_eq] at same
  cases same
  unfold CallStage.afterRead WriterCall.text
  cases parsed : crates.parse ((readToString old).getD "") with
  | none =>
      simp only [Program.pure_eq, Program.pure_bind, parsed]
      rfl
  | some document =>
      cases edited : call.edit document with
      | error error =>
          simp only [Program.pure_eq, Program.pure_bind, parsed, edited]
          rfl
      | ok new =>
          simp only [Program.pure_eq, Program.pure_bind, parsed, edited]
          exact validateAndWrite_eq new

theorem perform_reads {name : Path} {fault : Fault} :
    ReadsFile site.disk name
      ((Operation.read name).perform fault site.disk).1 ∧
      ((Operation.read name).perform fault site.disk).2 = site.disk := by
  cases fault with
  | some cut => exact ⟨.inr rfl, rfl⟩
  | none =>
      rw [perform_read_none]
      exact ⟨.inl rfl, rfl⟩

/-- What a call does next, at every stage and for every fault. -/
theorem turn_of_program {stage : CallStage} {operation : SiteOp}
    {next : operation.Answer → Edit (Except WriteError Unit)}
    (same : stage.program crates writer call = .perform operation next)
    (fault : Fault) :
    ∃ after, next (operation.perform fault site).1 =
        after.program crates writer call ∧
      Turn crates writer call site stage
        ⟨operation, (operation.perform fault site).1⟩ after
        (operation.perform fault site).2 := by
  cases stage with
  | reading =>
      obtain ⟨read, unchanged⟩ := @perform_reads site writer.path fault
      have first : call.body crates writer =
          .perform operation next := same
      rw [WriterCall.body_eq] at first
      cases first
      simp only [SiteOp.perform]
      rw [unchanged]
      refine ⟨_, program_afterRead _ (WriterCall.body_eq crates writer call),
        ?_⟩
      generalize ((Operation.read writer.path).perform fault site.disk).1 =
        old at read
      unfold CallStage.afterRead
      cases text : call.text crates old with
      | error error => exact .refused text
      | ok serialized => exact .edited read text
  | creating old text =>
      cases same
      cases fault with
      | some cut => exact ⟨.failed (.io .failed), rfl, .unopened⟩
      | none =>
          refine ⟨.writing old text (writer.tempFile site), ?_, .opened⟩
          refine congrArg (onFile
            (.write (writer.tempFile site) text.toUTF8)).bind ?_
          funext written
          cases written <;> rfl
  | writing old text file =>
      cases same
      cases fault with
      | some written => exact ⟨.failed (.io .failed), rfl, .cut⟩
      | none => exact ⟨.syncing old text file, rfl, .wrote⟩
  | syncing old text file =>
      cases same
      cases fault with
      | some cut => exact ⟨.failed (.io .failed), rfl, .unsynced⟩
      | none => exact ⟨.loading old text file, rfl, .synced⟩
  | loading old text file =>
      obtain ⟨read, unchanged⟩ := @perform_reads site writer.tempPath fault
      cases same
      simp only [SiteOp.perform]
      rw [unchanged]
      cases loaded : loadFrom crates
          ((Operation.read writer.tempPath).perform fault site.disk).1 with
      | error error =>
          refine ⟨.removing error, ?_, .rejected loaded⟩
          simp only [Program.pure_eq, Program.pure_bind, loaded]
          rfl
      | ok config =>
          refine ⟨.installing old text file _, ?_, .validated read loaded⟩
          simp only [Program.pure_eq, Program.pure_bind, loaded]
          refine congrArg (onFile
            (.rename writer.tempPath writer.path)).bind ?_
          funext renamed
          cases renamed <;> rfl
  | installing old text file loaded =>
      cases same
      cases fault with
      | some cut => exact ⟨.failed (.io .failed), rfl, .unrenamed⟩
      | none =>
          cases named : site.disk.file? writer.tempPath with
          | none =>
              have missing : (Operation.rename writer.tempPath
                  writer.path).perform none site.disk =
                    (.error .notFound, site.disk) := by
                simp only [Operation.perform]
                split
                · rename_i found
                  cases named.symm.trans found
                · rfl
              simp only [SiteOp.perform, missing]
              exact ⟨.failed (.io .notFound), rfl, .unrenamed⟩
          | some source =>
              have renamed := @perform_rename _ _ _ _ writer.path _ named
              simp only [SiteOp.perform, renamed]
              exact ⟨.installed old text file loaded, rfl, .renamed named⟩
  | removing error =>
      cases same
      cases fault with
      | some cut => exact ⟨.failed (.validation error), rfl, .unremoved⟩
      | none =>
          cases named : site.disk.file? writer.tempPath with
          | none =>
              have missing : (Operation.remove writer.tempPath).perform none
                  site.disk = (.error .notFound, site.disk) := by
                simp only [Operation.perform, named]
              simp only [SiteOp.perform, missing]
              exact ⟨.failed (.validation error), rfl, .unremoved⟩
          | some source =>
              have removed : (Operation.remove writer.tempPath).perform none
                  site.disk =
                    (.ok (), site.disk.remove writer.tempPath) := by
                simp only [Operation.perform, named]
              simp only [SiteOp.perform, removed]
              exact ⟨.failed (.validation error), rfl, .removed⟩
  | installed old text file loaded => cases same
  | failed error => cases same

/-- A call ends well in one way. -/
theorem Turn.of_installed {stage : CallStage} {event : SiteEvent}
    {next : Site} {old loaded : Except IoError ByteArray} {text : String}
    {file : Nat}
    (turn : Turn crates writer call site stage event
      (.installed old text file loaded) next) :
    stage = .installing old text file loaded ∧
      event = renameEvent writer.tempPath writer.path (.ok ()) ∧
      ∃ source, ∃ named : site.disk.file? writer.tempPath = some source,
        next = { site with
          disk := site.disk.rename writer.tempPath writer.path source
            named } := by
  cases turn with
  | renamed named => exact ⟨rfl, rfl, _, named, rfl⟩

theorem Turn.computed {stage after : CallStage} {event : SiteEvent}
    {next : Site}
    (turn : Turn crates writer call site stage event after next)
    (computed : stage.Computed crates call) : after.Computed crates call := by
  cases turn with
  | edited read text => exact text
  | opened | wrote | synced | validated => exact computed
  | refused | unopened | cut | unsynced | rejected | unremoved | removed
  | unrenamed | renamed => trivial

theorem Turn.told {stage after : CallStage} {event : SiteEvent}
    {next : Site} {trace : List SiteEvent}
    (turn : Turn crates writer call site stage event after next)
    (told : stage.Told writer trace) :
    after.Told writer (trace ++ [event]) := by
  cases turn <;> first | trivial | (cases told; rfl)

end Turns

/-! ## Pools -/

/-- A call at a stage. -/
structure AtStage (crates : Crates) (writer : ConfigWriter)
    (task : WriterTask) (stage : CallStage) : Prop where
  program : task.program = stage.program crates writer task.job
  told : stage.Told writer task.trace
  computed : stage.Computed crates task.job

/-- A stage for every call of a pool; the calls to come have not read. -/
structure AtStages (crates : Crates) (writer : ConfigWriter)
    (pool : WriterPool) (stages : Nat → CallStage) : Prop where
  inside : ∀ (index : Nat) task, pool.tasks[index]? = some task →
    AtStage crates writer task (stages index)
  outside : ∀ index, pool.tasks.length ≤ index → stages index = .reading

section Pools

variable {crates : Crates} {writer : ConfigWriter}
  {pool target : WriterPool} {stages : Nat → CallStage}

theorem AtStages.empty (site : Site) :
    AtStages crates writer { state := site, tasks := [] }
      fun _ => .reading where
  inside := by
    intro index task found
    cases found
  outside _ _ := rfl

theorem AtStages.arrive (staged : AtStages crates writer pool stages)
    (call : WriterCall) :
    AtStages crates writer
      { pool with
        tasks := pool.tasks ++ [(writerCalls crates writer).launch call] }
      stages where
  inside := by
    intro index task found
    rw [List.getElem?_append] at found
    split at found
    · exact staged.inside index task found
    · rename_i beyond
      have fresh := staged.outside index (Nat.le_of_not_lt beyond)
      rw [List.getElem?_singleton] at found
      split at found
      · cases found
        rw [fresh]
        exact ⟨rfl, rfl, trivial⟩
      · cases found
  outside := by
    intro index beyond
    rw [List.length_append] at beyond
    exact staged.outside index (Nat.le_of_add_right_le beyond)

/-- One operation of a pool is a turn of one call. -/
theorem AtStages.advance (staged : AtStages crates writer pool stages)
    {index : Nat} {fault : Fault}
    (taken : (writerCalls crates writer).step pool (.advance index fault) =
      some target) :
    ∃ task event after, pool.tasks[index]? = some task ∧
      task.program.next? = some event.op ∧
      Turn crates writer task.job pool.state (stages index) event after
        target.state ∧
      event.answer = (event.op.perform fault pool.state).1 ∧
      (∃ program, target.tasks = pool.tasks.set index
        { job := task.job, trace := task.trace ++ [event], program }) ∧
      AtStages crates writer target (Function.update stages index after) := by
  obtain ⟨call, trace, operation, next, answer, site, found, performed,
    rfl⟩ := Machine.step_advance taken
  have before := staged.inside index _ found
  obtain ⟨after, rest, turn⟩ := @turn_of_program crates writer call
    pool.state _ operation next before.program.symm fault
  have answers : operation.perform fault pool.state = (answer, site) :=
    Option.some.inj performed
  rw [answers] at rest turn
  have alone : pool.tasks.set index
      { job := call, trace := trace ++ [⟨operation, answer⟩],
        program := next answer } ++
        (writerCalls crates writer).forked operation =
      pool.tasks.set index
        { job := call, trace := trace ++ [⟨operation, answer⟩],
          program := next answer } := List.append_nil _
  rw [alone]
  refine ⟨_, ⟨operation, answer⟩, after, found, rfl, turn, ?_, ⟨_, rfl⟩, ?_,
    ?_⟩
  · exact (congrArg Prod.fst answers).symm
  · intro position task atPosition
    by_cases same : position = index
    · subst same
      rw [List.getElem?_set_self (List.getElem?_eq_some_iff.mp found).1]
        at atPosition
      cases atPosition
      rw [Function.update_self]
      exact ⟨rest, turn.told before.told, turn.computed before.computed⟩
    · rw [List.getElem?_set_ne (Ne.symm same)] at atPosition
      rw [Function.update_of_ne same]
      exact staged.inside position task atPosition
  · intro position beyond
    rw [List.length_set] at beyond
    have inside := (List.getElem?_eq_some_iff.mp found).1
    rw [Function.update_of_ne (by omega)]
    exact staged.outside position beyond

/-- A call at a stage, as a task. -/
def CallStage.task (crates : Crates) (writer : ConfigWriter)
    (call : WriterCall) (trace : List SiteEvent) (stage : CallStage) :
    WriterTask where
  job := call
  trace := trace
  program := stage.program crates writer call

/-- The step of a call at a stage, where the stage after it is known. -/
theorem step_of_stage {call : WriterCall} {trace : List SiteEvent}
    {stage after : CallStage} {index : Nat} {operation : SiteOp}
    {next : operation.Answer → Edit (Except WriteError Unit)}
    (fault : Fault) (answer : operation.Answer) (site : Site)
    (found : pool.tasks[index]? =
      some (stage.task crates writer call trace))
    (performs : stage.program crates writer call = .perform operation next)
    (performed : operation.perform fault pool.state = (answer, site))
    (rest : next answer = after.program crates writer call) :
    (writerCalls crates writer).step pool (.advance index fault) =
      some
        { state := site
          tasks := pool.tasks.set index (after.task crates writer call
            (trace ++ [⟨operation, answer⟩])) } := by
  have atStage : pool.tasks[index]? =
      some { job := call, trace, program := .perform operation next } := by
    rw [found, CallStage.task, performs]
  have forked : (writerCalls crates writer).forked operation = [] := rfl
  have performs : (writerCalls crates writer).perform operation fault
      pool.state = some (answer, site) := congrArg some performed
  simp only [Machine.step, atStage, performs, Option.map_some, rest, forked,
    List.append_nil]
  rfl

section Unfailing

variable {call : WriterCall} {trace : List SiteEvent} {index : Nat}
  {old loaded : Except IoError ByteArray} {text : String} {file : Nat}

theorem step_read
    (found : pool.tasks[index]? =
      some (CallStage.reading.task crates writer call trace))
    (read : pool.state.disk.read writer.path = old)
    (edited : call.text crates old = .ok text) :
    (writerCalls crates writer).step pool (.advance index none) =
      some
        { state := pool.state
          tasks := pool.tasks.set index
            ((CallStage.creating old text).task crates writer call
              (trace ++ [readEvent writer.path old])) } := by
  have program := WriterCall.body_eq crates writer call
  have performed : (SiteOp.file (.read writer.path)).perform none
      pool.state = (old, pool.state) := by
    simp only [SiteOp.perform, perform_read_none, read]
  refine step_of_stage none old pool.state found (program.trans rfl)
    performed ?_
  rw [program_afterRead old (program.trans rfl), CallStage.afterRead, edited]

theorem step_create
    (found : pool.tasks[index]? =
      some ((CallStage.creating old text).task crates writer call trace)) :
    (writerCalls crates writer).step pool (.advance index none) =
      some
        { state :=
            { pool.state with
              disk := (pool.state.disk.create writer.tempPath).2 }
          tasks := pool.tasks.set index
            ((CallStage.writing old text (writer.tempFile pool.state)).task
              crates writer call (trace ++ [createEvent writer.tempPath
                (.ok (writer.tempFile pool.state))])) } := by
  refine step_of_stage none (Except.ok (writer.tempFile pool.state)) _ found
    rfl rfl ?_
  refine congrArg (onFile
    (.write (writer.tempFile pool.state) text.toUTF8)).bind ?_
  funext written
  cases written <;> rfl

theorem step_write
    (found : pool.tasks[index]? =
      some ((CallStage.writing old text file).task crates writer call
        trace)) :
    (writerCalls crates writer).step pool (.advance index none) =
      some
        { state :=
            { pool.state with
              disk := pool.state.disk.write file text.toUTF8 }
          tasks := pool.tasks.set index
            ((CallStage.syncing old text file).task crates writer call
              (trace ++ [writeEvent file text.toUTF8 (.ok ())])) } :=
  step_of_stage none (Except.ok ()) _ found rfl rfl rfl

theorem step_sync
    (found : pool.tasks[index]? =
      some ((CallStage.syncing old text file).task crates writer call
        trace)) :
    (writerCalls crates writer).step pool (.advance index none) =
      some
        { state := pool.state
          tasks := pool.tasks.set index
            ((CallStage.loading old text file).task crates writer call
              (trace ++ [syncEvent file (.ok ())])) } :=
  step_of_stage none (Except.ok ()) _ found rfl rfl rfl

theorem step_load {config : AppConfig}
    (found : pool.tasks[index]? =
      some ((CallStage.loading old text file).task crates writer call
        trace))
    (read : pool.state.disk.read writer.tempPath = loaded)
    (accepted : loadFrom crates loaded = .ok config) :
    (writerCalls crates writer).step pool (.advance index none) =
      some
        { state := pool.state
          tasks := pool.tasks.set index
            ((CallStage.installing old text file loaded).task crates writer
              call (trace ++ [readEvent writer.tempPath loaded])) } := by
  have performed : (SiteOp.file (.read writer.tempPath)).perform none
      pool.state = (loaded, pool.state) := by
    simp only [SiteOp.perform, perform_read_none, read]
  refine step_of_stage none loaded pool.state found rfl performed ?_
  simp only [Program.pure_eq, Program.pure_bind, accepted]
  refine congrArg (onFile (.rename writer.tempPath writer.path)).bind ?_
  funext renamed
  cases renamed <;> rfl

theorem step_rename {source : Nat}
    (found : pool.tasks[index]? =
      some ((CallStage.installing old text file loaded).task crates writer
        call trace))
    (named : pool.state.disk.file? writer.tempPath = some source) :
    (writerCalls crates writer).step pool (.advance index none) =
      some
        { state :=
            { pool.state with
              disk := pool.state.disk.rename writer.tempPath writer.path
                source named }
          tasks := pool.tasks.set index
            ((CallStage.installed old text file loaded).task crates writer
              call (trace ++ [renameEvent writer.tempPath writer.path
                (.ok ())])) } := by
  have performed : (SiteOp.file
      (.rename writer.tempPath writer.path)).perform none pool.state =
        ((Except.ok () : Except IoError Unit),
          { pool.state with
            disk := pool.state.disk.rename writer.tempPath writer.path
              source named }) := by
    simp only [SiteOp.perform, perform_rename named]
  refine step_of_stage none (Except.ok ()) _ found rfl performed ?_
  rfl

end Unfailing

/-- The rule of stages: what arrivals and turns keep holds, with matching
stages, in every pool that is reached. -/
theorem AtStages.of_reaches
    {admits : WriterPool → Label Fault WriterCall → Prop}
    {invariant : WriterPool → (Nat → CallStage) → Prop} {site : Site}
    (initially : invariant { state := site, tasks := [] } fun _ => .reading)
    (arrivals : ∀ pool stages call, AtStages crates writer pool stages →
      invariant pool stages →
      invariant
        { pool with
          tasks := pool.tasks ++ [(writerCalls crates writer).launch call] }
        stages)
    (turns : ∀ pool stages index fault task event after program site,
      AtStages crates writer pool stages →
      invariant pool stages →
      admits pool (.advance index fault) →
      pool.tasks[index]? = some task →
      task.program.next? = some event.op →
      Turn crates writer task.job pool.state (stages index) event after
        site →
      invariant
        { state := site
          tasks := pool.tasks.set index
            { job := task.job, trace := task.trace ++ [event], program } }
        (Function.update stages index after))
    (reached : (writerCalls crates writer).Reaches admits
      { state := site, tasks := [] } pool) :
    ∃ stages, AtStages crates writer pool stages ∧ invariant pool stages := by
  induction reached with
  | refl => exact ⟨_, .empty site, initially⟩
  | @step pool target label _ admitted taken induction =>
      obtain ⟨stages, staged, holds⟩ := induction
      cases label with
      | arrive call =>
          cases taken
          exact ⟨stages, staged.arrive call,
            arrivals pool stages call staged holds⟩
      | advance index fault =>
          obtain ⟨task, event, after, found, next, turn, -, ⟨program, same⟩,
            stagedAfter⟩ := staged.advance taken
          refine ⟨_, stagedAfter, ?_⟩
          have kept := turns pool stages index fault task event after program
            target.state staged holds admitted found next turn
          rw [← same] at kept
          exact kept

end Pools

end Sendword
