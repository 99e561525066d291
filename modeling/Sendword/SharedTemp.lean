import Sendword.AllOrNothing
import Sendword.WriterCalls

/-!
# One temporary file for all calls

What a call validates is what it installs as long as no call opens the
temporary file while another one still uses it.
-/

namespace Sendword

open Concurrency Files Toml

/-- `AppConfig::load_from` accepts the configuration file. -/
def FileLoads (crates : Crates) (writer : ConfigWriter) (site : Site) : Prop :=
  ∃ config, loadFrom crates (site.disk.read writer.path) = .ok config

/-- A call opens the temporary file only while no other call uses it. -/
def Exclusive (writer : ConfigWriter) (pool : WriterPool) :
    Label Fault WriterCall → Prop
  | .arrive _ => True
  | .advance index _ => ∀ call trace,
      pool.next? index =
        some (call, trace, .file (.create writer.tempPath)) →
      ∀ task ∈ pool.tasks, usesTemp task = false

/-- The step after which a call has returned `Ok` has installed the bytes
that this call serialised and validated. -/
def InstallsOwn (crates : Crates) (writer : ConfigWriter)
    (target : WriterPool) (index : Nat) : Prop :=
  ∀ task, target.tasks[index]? = some task →
    task.program.result? = some (.ok ()) →
    ∃ bytes config,
      writtenContent? task.trace = some bytes ∧
        readAnswer? writer.tempPath task.trace = some (.ok bytes) ∧
        loadFrom crates (.ok bytes) = .ok config ∧
        target.state.disk.content? writer.path = some bytes

/-- Only validated content is installed. -/
structure OnlyValidated (crates : Crates) (writer : ConfigWriter)
    (admits : WriterPool → Label Fault WriterCall → Prop)
    (pool : WriterPool) : Prop where
  accepted : FileLoads crates writer pool.state
  installs : ∀ index fault target,
    admits pool (.advance index fault) →
    (writerCalls crates writer).step pool (.advance index fault) =
      some target →
    InstallsOwn crates writer target index

/-! ## The invariant -/

/-- The call will install this file, which holds these bytes, or nothing. -/
structure HoldsFile (writer : ConfigWriter) (disk : Disk Path) (file : Nat)
    (bytes : ByteArray) : Prop where
  apart : disk.file? writer.path ≠ some file
  content : disk.bytes file = bytes
  temp : ∀ other, disk.file? writer.tempPath = some other → other = file

def CallStage.Fits (crates : Crates) (writer : ConfigWriter)
    (disk : Disk Path) : CallStage → Prop
  | .writing _ _ file => HoldsFile writer disk file .empty
  | .syncing _ text file | .loading _ text file =>
      HoldsFile writer disk file text.toUTF8
  | .installing _ text file loaded =>
      HoldsFile writer disk file text.toUTF8 ∧
        (∃ config, loadFrom crates loaded = .ok config) ∧
        (loaded = .ok text.toUTF8 ∨
          disk.file? writer.tempPath = none)
  | _ => True

structure TempGuarded (crates : Crates) (writer : ConfigWriter) (site : Site)
    (stages : Nat → CallStage) : Prop where
  accepted : FileLoads crates writer site
  single : ∀ first second, (stages first).file?.isSome →
    (stages second).file?.isSome → first = second
  fits : ∀ index, (stages index).Fits crates writer site.disk

section Steps

variable {crates : Crates} {writer : ConfigWriter} {site next : Site}
  {stage after : CallStage} {event : SiteEvent} {call : WriterCall}

theorem CallStage.Fits.of_outside {disk : Disk Path}
    (outside : stage.file? = none) : stage.Fits crates writer disk := by
  cases stage <;> trivial

/-- The bytes a call holds are what loading the temporary file finds. -/
theorem HoldsFile.read {disk : Disk Path} {file : Nat} {bytes : ByteArray}
    (holds : HoldsFile writer disk file bytes) :
    disk.read writer.tempPath = .ok bytes ∨
      disk.file? writer.tempPath = none := by
  cases named : disk.file? writer.tempPath with
  | none => exact .inr rfl
  | some other =>
      left
      have same := holds.temp other named
      simp [Disk.read, Disk.content?, named, same, holds.content]

theorem HoldsFile.write {disk : Disk Path} {file : Nat} {text : String}
    (holds : HoldsFile writer disk file .empty) :
    HoldsFile writer (disk.write file text.toUTF8) file text.toUTF8 where
  apart := holds.apart
  content := by
    unfold Disk.write
    rw [holds.content, Disk.overwrite_empty]
    exact Disk.set_bytes ..
  temp := holds.temp

theorem HoldsFile.create (disk : Disk Path)
    (different : writer.path ≠ writer.tempPath) :
    HoldsFile writer (disk.create writer.tempPath).2
      (disk.create writer.tempPath).1 .empty where
  apart named :=
    different (Disk.alone _ named (disk.create_file? writer.tempPath))
  content := disk.create_bytes writer.tempPath
  temp _ named :=
    Option.some.inj
      (named.symm.trans (disk.create_file? writer.tempPath))

theorem CallStage.Fits.remove {disk : Disk Path}
    (different : writer.path ≠ writer.tempPath)
    (fits : stage.Fits crates writer disk) :
    stage.Fits crates writer (disk.remove writer.tempPath) := by
  have gone : (disk.remove writer.tempPath).file? writer.tempPath = none := by
    rw [Disk.remove_file?, if_pos rfl]
  have holds {file : Nat} {bytes : ByteArray}
      (held : HoldsFile writer disk file bytes) :
      HoldsFile writer (disk.remove writer.tempPath) file bytes := by
    refine ⟨?_, held.content, ?_⟩
    · rw [Disk.remove_file?, if_neg different]
      exact held.apart
    · intro other named
      cases gone.symm.trans named
  cases stage with
  | writing old text file => exact holds fits
  | syncing old text file => exact holds fits
  | loading old text file => exact holds fits
  | installing old text file loaded =>
      exact ⟨holds fits.1, fits.2.1, .inr gone⟩
  | reading | creating | removing | installed | failed => trivial

theorem FileLoads.of_content (loads : FileLoads crates writer site)
    (same : next.disk.content? writer.path =
      site.disk.content? writer.path) :
    FileLoads crates writer next := by
  unfold FileLoads Disk.read at *
  rw [same]
  exact loads

/-- A renamed file has the bytes that were validated. -/
theorem CallStage.Fits.renamed {old loaded : Except IoError ByteArray}
    {text : String} {file source : Nat}
    (fits : (CallStage.installing old text file loaded).Fits crates writer
      site.disk)
    (named : site.disk.file? writer.tempPath = some source) :
    loaded = .ok text.toUTF8 ∧
      (∃ config, loadFrom crates (.ok text.toUTF8) = .ok config) ∧
      (site.disk.rename writer.tempPath writer.path source named).content?
        writer.path = some text.toUTF8 := by
  obtain ⟨holds, accepted, same | gone⟩ := fits
  · refine ⟨same, ?_, ?_⟩
    · rw [← same]
      exact accepted
    · rw [Disk.rename_content? _ named]
      have theFile := holds.temp source named
      simp [Disk.content?, named, theFile, holds.content]
  · cases named.symm.trans gone

/-- Only a rename changes the configuration file. -/
theorem Turn.content? (different : writer.path ≠ writer.tempPath)
    (fits : stage.Fits crates writer site.disk)
    (turn : Turn crates writer call site stage event after next)
    (kept : ∀ old text file loaded,
      after ≠ .installed old text file loaded) :
    next.disk.content? writer.path = site.disk.content? writer.path := by
  cases turn with
  | refused | edited | unopened | unsynced | synced | rejected | validated
  | unremoved | unrenamed => rfl
  | opened => exact site.disk.create_content? different
  | @cut old text file written error =>
      have holds : HoldsFile writer site.disk file .empty := fits
      exact Disk.set_content? site.disk holds.apart _
  | @wrote old text file =>
      have holds : HoldsFile writer site.disk file .empty := fits
      exact Disk.set_content? site.disk holds.apart _
  | removed => exact site.disk.remove_content? different
  | renamed named => exact (kept _ _ _ _ rfl).elim

section Moves

variable {stages : Nat → CallStage} {index : Nat}

/-- Other calls are not concerned where this call holds the file, or where the
files they hold are left alone. -/
theorem TempGuarded.move (guarded : TempGuarded crates writer site stages)
    (loads : FileLoads crates writer next)
    (fits : after.Fits crates writer next.disk)
    (stays : after.file?.isSome → (stages index).file?.isSome)
    (others : (stages index).file?.isSome ∨
      ∀ other, (stages other).Fits crates writer next.disk) :
    TempGuarded crates writer next (Function.update stages index after) where
  accepted := loads
  single := by
    have before (position : Nat)
        (holds : (Function.update stages index after position).file?.isSome) :
        (stages position).file?.isSome := by
      by_cases same : position = index
      · subst same
        rw [Function.update_self] at holds
        exact stays holds
      · rwa [Function.update_of_ne same] at holds
    intro first second one two
    exact guarded.single first second (before first one) (before second two)
  fits := by
    intro position
    by_cases same : position = index
    · subst same
      rw [Function.update_self]
      exact fits
    · rw [Function.update_of_ne same]
      rcases others with holds | kept
      · refine .of_outside (Option.not_isSome_iff_eq_none.mp fun also => ?_)
        exact same (guarded.single position index also holds)
      · exact kept position

/-- Each turn keeps the invariant, if no call opens the temporary file while
another one uses it. -/
theorem TempGuarded.turn (different : writer.path ≠ writer.tempPath)
    (guarded : TempGuarded crates writer site stages)
    (turn : Turn crates writer call site (stages index) event after next)
    (exclusive : event.op = .file (.create writer.tempPath) →
      ∀ other, (stages other).file? = none) :
    TempGuarded crates writer next (Function.update stages index after) := by
  have fits := guarded.fits index
  have unchanged := turn.content? different fits
  generalize here : stages index = stage at turn unchanged
  rw [here] at fits
  cases turn with
  | refused | edited | unopened | unsynced | rejected | unremoved
  | unrenamed =>
      exact guarded.move guarded.accepted trivial (by simp [CallStage.file?])
        (.inr guarded.fits)
  | synced =>
      exact guarded.move guarded.accepted fits (fun _ => by rw [here]; rfl)
        (.inr guarded.fits)
  | @opened old text =>
      have none := exclusive rfl
      refine ⟨guarded.accepted.of_content (unchanged (by simp)), ?_, ?_⟩
      · have mine (position : Nat) (holds : (Function.update stages index
            (.writing old text (writer.tempFile site))
              position).file?.isSome) : position = index := by
          refine Classical.byContradiction fun away => ?_
          rw [Function.update_of_ne away, none position] at holds
          cases holds
        intro first second one two
        rw [mine first one, mine second two]
      · intro position
        by_cases same : position = index
        · subst same
          rw [Function.update_self]
          exact HoldsFile.create site.disk different
        · rw [Function.update_of_ne same]
          exact .of_outside (none position)
  | cut =>
      exact guarded.move (guarded.accepted.of_content (unchanged (by simp)))
        trivial (by simp [CallStage.file?]) (.inl (by rw [here]; rfl))
  | @wrote old text file =>
      have holds : HoldsFile writer site.disk file .empty := fits
      exact guarded.move (guarded.accepted.of_content (unchanged (by simp)))
        holds.write (fun _ => by rw [here]; rfl) (.inl (by rw [here]; rfl))
  | @validated old loaded text file config read accepted =>
      have holds : HoldsFile writer site.disk file text.toUTF8 := fits
      refine guarded.move guarded.accepted ⟨holds, ⟨config, accepted⟩, ?_⟩
        (fun _ => by rw [here]; rfl) (.inr guarded.fits)
      rcases read with rfl | rfl
      · exact holds.read
      · cases accepted
  | removed =>
      exact guarded.move (guarded.accepted.of_content (unchanged (by simp)))
        trivial (by simp [CallStage.file?])
        (.inr fun other => (guarded.fits other).remove different)
  | @renamed old loaded text file source named =>
      obtain ⟨-, ⟨config, accepted⟩, content⟩ := fits.renamed named
      refine guarded.move ⟨config, ?_⟩ trivial (by simp [CallStage.file?])
        (.inl (by rw [here]; rfl))
      simp only [Disk.read, content]
      exact accepted

end Moves

end Steps

/-! ## Runs -/

section Runs

variable {crates : Crates} {writer : ConfigWriter} {start : Site}
  {pool : WriterPool} {stages : Nat → CallStage}

/-- A call that holds a file to install uses the temporary file. -/
theorem AtStage.usesTemp {task : WriterTask} {stage : CallStage}
    (staged : AtStage crates writer task stage)
    (holds : stage.file?.isSome) : usesTemp task = true := by
  obtain ⟨program, told, -⟩ := staged
  cases stage with
  | writing old text file | syncing old text file | loading old text file
  | installing old text file loaded =>
      have trace : task.trace = _ := told
      unfold Sendword.usesTemp
      rw [program, trace]
      rfl
  | reading | creating | removing | installed | failed => cases holds

theorem AtStage.installed_of_ok {task : WriterTask} {stage : CallStage}
    (staged : AtStage crates writer task stage)
    (returned : task.program.result? = some (.ok ())) :
    ∃ old text file loaded, stage = .installed old text file loaded := by
  rw [staged.program] at returned
  cases stage with
  | installed old text file loaded => exact ⟨old, text, file, loaded, rfl⟩
  | reading =>
      rw [CallStage.program, WriterCall.body_eq] at returned
      cases returned
  | creating | writing | syncing | loading | installing | removing
  | failed => cases returned

theorem AtStages.none_of_exclusive {index : Nat} {fault : Fault}
    {task : WriterTask}
    (staged : AtStages crates writer pool stages)
    (exclusive : Exclusive writer pool (.advance index fault))
    (found : pool.tasks[index]? = some task)
    (creates : task.program.next? = some (.file (.create writer.tempPath)))
    (other : Nat) : (stages other).file? = none := by
  have unused := exclusive task.job task.trace (by
    simp [Pool.next?, found, creates])
  refine Option.not_isSome_iff_eq_none.mp fun holds => ?_
  cases named : pool.tasks[other]? with
  | none =>
      have idle := staged.outside other (List.getElem?_eq_none_iff.mp named)
      rw [idle] at holds
      cases holds
  | some user =>
      have uses := (staged.inside other user named).usesTemp holds
      rw [unused user (List.mem_of_getElem? named)] at uses
      cases uses

theorem TempGuarded.empty (loads : FileLoads crates writer start) :
    TempGuarded crates writer start fun _ => .reading where
  accepted := loads
  single := by
    intro first second holds
    cases holds
  fits _ := trivial

theorem guarded_of_reaches (different : writer.path ≠ writer.tempPath)
    (loads : FileLoads crates writer start)
    (reached : (writerCalls crates writer).Reaches (Exclusive writer)
      { state := start, tasks := [] } pool) :
    ∃ stages, AtStages crates writer pool stages ∧
      TempGuarded crates writer pool.state stages := by
  refine @AtStages.of_reaches crates writer pool _
    (fun pool => TempGuarded crates writer pool.state) start ?_ ?_ ?_ reached
  · exact .empty loads
  · intro pool stages call _ guarded
    exact guarded
  · intro pool stages index fault task event after program site staged
      guarded exclusive found next turn
    refine guarded.turn different turn fun creates => ?_
    rw [creates] at next
    exact staged.none_of_exclusive exclusive found next

/-- As long as the temporary file has one user at a time, only validated
content is installed. -/
theorem onlyValidated_of_exclusive
    (different : writer.path ≠ writer.tempPath)
    (loads : FileLoads crates writer start)
    (reached : (writerCalls crates writer).Reaches (Exclusive writer)
      { state := start, tasks := [] } pool) :
    OnlyValidated crates writer (Exclusive writer) pool := by
  obtain ⟨stages, staged, guarded⟩ :=
    guarded_of_reaches different loads reached
  refine ⟨guarded.accepted, ?_⟩
  intro index fault target exclusive taken task found returned
  obtain ⟨before, event, after, foundBefore, next, turn, -, ⟨program, same⟩,
    stagedAfter⟩ := staged.advance taken
  have now := stagedAfter.inside index task found
  rw [Function.update_self] at now
  obtain ⟨old, text, file, loaded, rfl⟩ := now.installed_of_ok returned
  have fits := guarded.fits index
  generalize stages index = stage at turn fits
  generalize target.state = site at turn ⊢
  cases turn with
  | renamed named =>
      obtain ⟨rfl, ⟨config, accepted⟩, content⟩ := fits.renamed named
      have trace : task.trace = _ := now.told
      refine ⟨text.toUTF8, config, ?_, ?_, accepted, content⟩
      · rw [trace]
        rfl
      · rw [trace]
        simp [readAnswer?, readEvent, createEvent, writeEvent, syncEvent,
          different]

end Runs

/-! ## One call among others -/

section Staged

variable (crates : Crates) (call : WriterCall)
  (old : Except IoError ByteArray) (text : String)

/-- What a call does before it installs its text. -/
def stagingEvents (site : Site) : List SiteEvent :=
  [readEvent sendwordToml.path old,
    createEvent sendwordToml.tempPath (.ok (sendwordToml.tempFile site)),
    writeEvent (sendwordToml.tempFile site) text.toUTF8 (.ok ()),
    syncEvent (sendwordToml.tempFile site) (.ok ()),
    readEvent sendwordToml.tempPath (.ok text.toUTF8)]

/-- A call that has read the file. -/
def creatingTask : WriterTask :=
  (CallStage.creating old text).task crates sendwordToml call
    [readEvent sendwordToml.path old]

/-- A call that has validated its text. -/
def installingTask (site : Site) : WriterTask :=
  (CallStage.installing old text (sendwordToml.tempFile site)
      (.ok text.toUTF8)).task crates sendwordToml call
    (stagingEvents old text site)

/-- The temporary file holds the text. -/
def stagedSite (site : Site) : Site :=
  { site with
    disk := (site.disk.create sendwordToml.tempPath).2.write
      (sendwordToml.tempFile site) text.toUTF8 }

end Staged

theorem stagedSite_read (text : String) (site : Site) :
    (stagedSite text site).disk.read sendwordToml.tempPath =
      .ok text.toUTF8 := by
  have holds := @HoldsFile.write sendwordToml _ _ text
    (HoldsFile.create site.disk (by decide))
  refine holds.read.resolve_right fun gone => ?_
  have named := site.disk.create_file? sendwordToml.tempPath
  exact absurd (named.symm.trans gone) (by simp)

/-- The operation neither reads nor installs the configuration file, and does
not open the temporary one. -/
structure SiteOp.Quiet (operation : SiteOp) : Prop where
  notRead : operation ≠ .file (.read sendwordToml.path)
  notCreate : operation ≠ .file (.create sendwordToml.tempPath)
  notRename : ∀ source, operation ≠ .file (.rename source sendwordToml.path)

/-- Quiet steps that succeed keep a property of pools. -/
def KeptWhenQuiet (crates : Crates) (reached : WriterPool → Prop) : Prop :=
  ∀ (pool target : WriterPool) index call trace operation,
    reached pool →
    pool.next? index = some (call, trace, operation) →
    operation.Quiet →
    (writerCalls crates sendwordToml).step pool (.advance index none) =
      some target →
    reached target

/-- A call that opens the temporary file goes on to write and validate its
text. -/
theorem staged_of_opened {crates : Crates} {call : WriterCall}
    {old : Except IoError ByteArray} {text : String} {pool : WriterPool}
    {index : Nat} {reached : WriterPool → Prop}
    (kept : KeptWhenQuiet crates reached)
    (accepted : ∃ config, loadFrom crates (.ok text.toUTF8) = .ok config)
    (found : pool.tasks[index]? = some (creatingTask crates call old text))
    (opens : ∀ target,
      (writerCalls crates sendwordToml).step pool (.advance index none) =
        some target → reached target) :
    reached
      { state := stagedSite text pool.state
        tasks := pool.tasks.set index
          (installingTask crates call old text pool.state) } := by
  obtain ⟨config, accepted⟩ := accepted
  have inside := (List.getElem?_eq_some_iff.mp found).1
  let file := sendwordToml.tempFile pool.state
  let moved (site : Site) (events : Nat) (stage : CallStage) : WriterPool :=
    { state := site
      tasks := pool.tasks.set index (stage.task crates sendwordToml call
        ((stagingEvents old text pool.state).take events)) }
  have here (site : Site) (events : Nat) (stage : CallStage) :
      (moved site events stage).tasks[index]? =
        some (stage.task crates sendwordToml call
          ((stagingEvents old text pool.state).take events)) :=
    List.getElem?_set_self inside
  have again (site : Site) (events : Nat) (stage : CallStage)
      (task : WriterTask) :
      (moved site events stage).tasks.set index task =
        pool.tasks.set index task := List.set_set ..
  have created := @step_create crates sendwordToml pool call _ index _ _ found
  let opened : Site :=
    { pool.state with
      disk := (pool.state.disk.create sendwordToml.tempPath).2 }
  let writing := CallStage.writing old text file
  let syncing := CallStage.syncing old text file
  let loading := CallStage.loading old text file
  have wrote := @step_write crates sendwordToml (moved opened 2 writing) call
    _ index _ _ _ (here ..)
  have synced := @step_sync crates sendwordToml
    (moved (stagedSite text pool.state) 3 syncing) call _ index _ _ _
    (here ..)
  have loaded := @step_load crates sendwordToml
    (moved (stagedSite text pool.state) 4 loading) call _ index _ _ _ _ _
    (here ..) (stagedSite_read text pool.state) accepted
  rw [again] at wrote synced loaded
  have next (site : Site) (events : Nat) (stage : CallStage)
      {operation : SiteOp}
      (performs : (stage.program crates sendwordToml call).next? =
        some operation) :
      (moved site events stage).next? index =
        some (call, (stagingEvents old text pool.state).take events,
          operation) := by
    rw [Pool.next?, here]
    simp only [Option.bind_some, CallStage.task, performs, Option.map_some]
  have written := kept _ _ index _ _ _ (opens _ created)
    (next opened 2 writing rfl) ⟨by simp, by simp, by simp⟩ wrote
  have stored := kept _ _ index _ _ _ written
    (next (stagedSite text pool.state) 3 syncing rfl)
    ⟨by simp, by simp, by simp⟩ synced
  have loads : SiteOp.Quiet (.file (.read sendwordToml.tempPath)) := by
    have names : sendwordToml.tempPath ≠ sendwordToml.path := by decide
    exact ⟨by simpa using names, by simp, by simp⟩
  exact kept _ _ index _ _ _ stored
    (next (stagedSite text pool.state) 4 loading rfl) loads loaded

/-! ## Two calls -/

def greetingCall : WriterCall := .addHook greeting

theorem greeting_text :
    greetingCall.text greetingCrates (.ok "".toUTF8) = .ok greetingText := by
  have read : readToString (.ok "".toUTF8) = some "" := fromUTF8?_toUTF8 ""
  unfold WriterCall.text
  rw [read]
  exact congrArg Except.ok greeting_print

theorem emptySite_read : emptySite.disk.read sendwordToml.path =
    .ok "".toUTF8 := by
  unfold Disk.read
  rw [show emptySite.disk.content? sendwordToml.path = some "".toUTF8 from
    content?_diskWith ..]

theorem emptySite_loads : FileLoads greetingCrates sendwordToml emptySite := by
  have accepted :
      (loadDocument greetingCrates []).toOption.isSome := by decide
  unfold FileLoads
  rw [emptySite_read]
  unfold loadFrom
  rw [fileText_toUTF8, Option.bind_some,
    show greetingCrates.parse "" = some [] from rfl]
  cases loaded : loadDocument greetingCrates [] with
  | ok config => exact ⟨config, loaded⟩
  | error error =>
      rw [loaded] at accepted
      cases accepted

/-- A call that has read the empty file. -/
def waitingTask : WriterTask :=
  creatingTask greetingCrates greetingCall (.ok "".toUTF8) greetingText

/-- A call that has validated the greeting. -/
def greetingTask (site : Site) : WriterTask :=
  installingTask greetingCrates greetingCall (.ok "".toUTF8) greetingText site

def waitingPool : WriterPool where
  state := emptySite
  tasks := [waitingTask, waitingTask]

/-- One call has validated its text, and another has read the empty file. -/
def stagedPool : WriterPool where
  state := stagedSite greetingText emptySite
  tasks := [greetingTask emptySite, waitingTask]

/-- Steps that neither open the temporary file nor install it are
admitted. -/
structure AdmitsQuiet
    (admits : WriterPool → Label Fault WriterCall → Prop) : Prop where
  arrives : ∀ pool call, admits pool (.arrive call)
  quiet : ∀ (pool : WriterPool) index call trace operation,
    pool.next? index = some (call, trace, operation) →
    operation ≠ .file (.create sendwordToml.tempPath) →
    operation ≠ .file (.rename sendwordToml.tempPath sendwordToml.path) →
    admits pool (.advance index none)

section Admitted

variable {admits : WriterPool → Label Fault WriterCall → Prop}

theorem AdmitsQuiet.reads (lenient : AdmitsQuiet admits) {pool : WriterPool}
    {index : Nat} {trace : List SiteEvent}
    (found : pool.tasks[index]? = some (CallStage.reading.task greetingCrates
      sendwordToml greetingCall trace)) :
    admits pool (.advance index none) := by
  have next : (WriterCall.body greetingCrates sendwordToml
      greetingCall).next? = some (.file (.read sendwordToml.path)) := by
    rw [WriterCall.body_eq]
    rfl
  refine lenient.quiet pool index greetingCall trace
    (.file (.read sendwordToml.path)) ?_ (by simp) (by simp)
  simp only [Pool.next?, found, Option.bind_some, CallStage.task,
    CallStage.program, next, Option.map_some]

/-- Two calls come and read the empty file. -/
theorem waitingPool_reached (lenient : AdmitsQuiet admits) :
    (writerCalls greetingCrates sendwordToml).Reaches admits
      { state := emptySite, tasks := [] } waitingPool := by
  let comes := CallStage.reading.task greetingCrates sendwordToml
    greetingCall []
  have arrives (pool : WriterPool) :
      (writerCalls greetingCrates sendwordToml).step pool
        (.arrive greetingCall) =
          some { pool with tasks := pool.tasks ++ [comes] } := rfl
  have one := @step_read greetingCrates sendwordToml
    { state := emptySite, tasks := [comes, comes] } greetingCall [] 0 _ _ rfl
    emptySite_read greeting_text
  have two := @step_read greetingCrates sendwordToml
    { state := emptySite, tasks := [waitingTask, comes] } greetingCall [] 1 _
    _ rfl emptySite_read greeting_text
  have both : (writerCalls greetingCrates sendwordToml).Reaches admits
      { state := emptySite, tasks := [] }
      { state := emptySite, tasks := [comes, comes] } :=
    .step (.step .refl (lenient.arrives _ _) (arrives _))
      (lenient.arrives _ _) (arrives _)
  exact (both.step (lenient.reads rfl) one).step (lenient.reads rfl) two

theorem AdmitsQuiet.kept (lenient : AdmitsQuiet admits) (start : WriterPool) :
    KeptWhenQuiet greetingCrates
      ((writerCalls greetingCrates sendwordToml).Reaches admits start) := by
  intro pool target index call trace operation reached next quiet taken
  exact reached.step (lenient.quiet pool index call trace operation next
    quiet.notCreate (quiet.notRename _)) taken

/-- A call writes and validates the greeting. -/
theorem staged_of_waiting (lenient : AdmitsQuiet admits) {pool : WriterPool}
    {index : Nat} (found : pool.tasks[index]? = some waitingTask)
    (creates : admits pool (.advance index none)) :
    (writerCalls greetingCrates sendwordToml).Reaches admits pool
      { state := stagedSite greetingText pool.state
        tasks := pool.tasks.set index (greetingTask pool.state) } :=
  staged_of_opened (lenient.kept pool) greeting_loads found fun _ taken =>
    Machine.Reaches.refl.step creates taken

theorem stagedPool_reached (lenient : AdmitsQuiet admits)
    (creates : admits waitingPool (.advance 0 none)) :
    (writerCalls greetingCrates sendwordToml).Reaches admits
      { state := emptySite, tasks := [] } stagedPool :=
  (waitingPool_reached lenient).append
    (staged_of_waiting lenient rfl creates)

end Admitted

theorem admitsQuiet_true : AdmitsQuiet fun _ _ => True :=
  ⟨fun _ _ => trivial, fun _ _ _ _ _ _ _ _ => trivial⟩

theorem Exclusive.of_next {writer : ConfigWriter} {pool : WriterPool}
    {index : Nat} {fault : Fault} {call : WriterCall}
    {trace : List SiteEvent} {operation : SiteOp}
    (next : pool.next? index = some (call, trace, operation))
    (other : operation ≠ .file (.create writer.tempPath)) :
    Exclusive writer pool (.advance index fault) := by
  intro call trace creates
  cases next.symm.trans creates
  exact absurd rfl other

theorem admitsQuiet_exclusive : AdmitsQuiet (Exclusive sendwordToml) where
  arrives _ _ := trivial
  quiet _ _ _ _ _ next notCreate _ := .of_next next notCreate

/-- Two calls that wait have not opened the temporary file. -/
theorem exclusive_waitingPool :
    Exclusive sendwordToml waitingPool (.advance 0 none) := by
  intro call trace _ task member
  have waits : task = waitingTask := by
    simpa [waitingPool] using member
  rw [waits]
  rfl

/-- A call that installs its text beside one that waits. -/
theorem onlyValidated_of_exclusive_two :
    OnlyValidated greetingCrates sendwordToml (Exclusive sendwordToml)
      stagedPool :=
  onlyValidated_of_exclusive (by decide) emptySite_loads
    (stagedPool_reached admitsQuiet_exclusive exclusive_waitingPool)

/-- The other call empties the temporary file before the first one installs
it. -/
theorem not_onlyValidated :
    FileLoads greetingCrates sendwordToml emptySite ∧
      ∃ pool, (writerCalls greetingCrates sendwordToml).Reaches
          (fun _ _ => True) { state := emptySite, tasks := [] } pool ∧
        ¬ OnlyValidated greetingCrates sendwordToml (fun _ _ => True)
          pool := by
  refine ⟨emptySite_loads, ?_⟩
  let site := stagedSite greetingText emptySite
  let opened : WriterPool :=
    { state :=
        { site with disk := (site.disk.create sendwordToml.tempPath).2 }
      tasks :=
        [greetingTask emptySite,
          (CallStage.writing (.ok "".toUTF8) greetingText
            (sendwordToml.tempFile site)).task greetingCrates sendwordToml
            greetingCall
            ((stagingEvents (.ok "".toUTF8) greetingText site).take 2)] }
  have emptied : (writerCalls greetingCrates sendwordToml).step stagedPool
      (.advance 1 none) = some opened :=
    @step_create greetingCrates sendwordToml stagedPool greetingCall _ 1 _ _
      rfl
  have reached := stagedPool_reached admitsQuiet_true trivial
  refine ⟨opened, reached.step trivial emptied, fun holds => ?_⟩
  have named := site.disk.create_file? sendwordToml.tempPath
  have empty := site.disk.create_bytes sendwordToml.tempPath
  have renamed := @step_rename greetingCrates sendwordToml opened
    greetingCall _ 0 _ _ _ _ _ rfl named
  obtain ⟨bytes, config, written, -, -, content⟩ :=
    holds.installs 0 none _ trivial renamed _ rfl rfl
  have same : some bytes = some greetingText.toUTF8 := written.symm
  cases same
  rw [Disk.rename_content? _ named] at content
  have nothing : greetingText.toUTF8 = .empty := by
    simpa [Disk.content?, named, empty] using content.symm
  have text := fromUTF8?_toUTF8 greetingText
  rw [nothing] at text
  have differs : greetingText ≠ "" := by decide
  exact differs (Option.some.inj (text.symm.trans (fromUTF8?_toUTF8 "")))

end Sendword
