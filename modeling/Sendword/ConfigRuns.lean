import Sendword.HookEdits

/-!
# Runs of a configuration change

What `validate_and_write` and the edits do to the files when nothing else runs
and any operation may fail.
-/

namespace Sendword

open Concurrency Files Toml

/-- Run alone; every operation fails as `faults` says. -/
def runAlone {α : Type} (faults : SiteOp → Fault) (program : Edit α)
    (site : Site) : α × Site :=
  program.exec
    (fun operation site => operation.perform (faults operation) site) site

section Temp

variable {disk : Disk Path} {path temp : Path} {file : Nat}

/-- While the temporary file is written, the configuration file keeps its
bytes. -/
theorem write_content? (apart : path ≠ temp)
    (named : disk.file? temp = some file) (content : ByteArray) :
    (disk.write file content).content? path = disk.content? path :=
  Disk.set_content? disk (fun same => apart (disk.alone same named)) _

theorem write_staged (named : disk.file? temp = some file)
    (empty : disk.bytes file = .empty) (content : ByteArray) :
    (disk.write file content).content? temp = some content := by
  unfold Disk.content? Disk.write
  rw [Disk.set_file?, named, empty, Disk.overwrite_empty]
  exact congrArg some (Disk.set_bytes ..)

end Temp

variable (crates : Crates) (writer : ConfigWriter) (faults : SiteOp → Fault)

/-- The file that creating the temporary path opens. -/
def ConfigWriter.tempFile (site : Site) : Nat :=
  (site.disk.create writer.tempPath).1

/-- The temporary file is written without a failure. -/
structure Staged (site : Site) (text : String) : Prop where
  create : faults (.file (.create writer.tempPath)) = none
  write :
    faults (.file (.write (writer.tempFile site) text.toUTF8)) = none
  sync : faults (.file (.sync (writer.tempFile site))) = none

/-- The temporary file is loaded and renamed without a failure. -/
structure Installs (text : String) : Prop where
  load : faults (.file (.read writer.tempPath)) = none
  rename : faults (.file (.rename writer.tempPath writer.path)) = none
  accepted : ∃ config, loadFrom crates (.ok text.toUTF8) = .ok config

/-- No step of the way to the configuration file fails, and the text loads. -/
def Saves (site : Site) (text : String) : Prop :=
  Staged writer faults site text ∧ Installs crates writer faults text

/-- The end of a call that installed `text`. -/
def Installed (site after : Site) (text : String) : Prop :=
  after.disk.content? writer.path = some text.toUTF8 ∧
    after.live = site.live

/-- The end of a call that changed nothing but its temporary file. -/
def Unchanged (site after : Site) : Prop :=
  after.disk.content? writer.path = site.disk.content? writer.path ∧
    after.live = site.live

variable {crates writer faults} {site : Site}

/-- The temporary file holds the content, or one of its steps has failed. -/
theorem tempfileIn_alone (apart : writer.path ≠ writer.tempPath)
    (content : String) :
    let run := runAlone faults (tempfileIn writer content) site
    Unchanged writer site run.2 ∧
      ((Staged writer faults site content ∧ run.1 = .ok () ∧
          run.2.disk.file? writer.tempPath = some (writer.tempFile site) ∧
          run.2.disk.content? writer.tempPath = some content.toUTF8) ∨
        (¬ Staged writer faults site content ∧
          ∃ error, run.1 = .error error)) := by
  intro run
  have named := site.disk.create_file? writer.tempPath
  have empty := site.disk.create_bytes writer.tempPath
  have kept := site.disk.create_content? apart
  cases createFault : faults (.file (.create writer.tempPath)) with
  | some fault =>
      have failed : run = (.error .failed, site) := by
        simp only [run, runAlone, tempfileIn, onFile, Program.bind_eq,
          Program.op_bind, Program.exec_perform, SiteOp.perform,
          Operation.perform, createFault, Program.pure_eq, Program.exec_pure]
      rw [failed]
      refine ⟨⟨rfl, rfl⟩, .inr ⟨fun staged => ?_, .failed, rfl⟩⟩
      rw [staged.create] at createFault
      cases createFault
  | none =>
      cases writeFault :
          faults (.file (.write (writer.tempFile site) content.toUTF8)) with
      | some written =>
          have failed : run = (.error .failed, { site with
              disk := (site.disk.create writer.tempPath).2.write
                (writer.tempFile site)
                (content.toUTF8.extract 0 written) }) := by
            simp only [ConfigWriter.tempFile] at writeFault
            simp only [run, runAlone, tempfileIn, onFile, Program.bind_eq,
              Program.op_bind, Program.exec_perform, SiteOp.perform,
              Operation.perform, createFault, writeFault, Program.pure_eq,
              Program.exec_pure, ConfigWriter.tempFile]
          rw [failed]
          refine ⟨⟨(write_content? apart named _).trans kept, rfl⟩,
            .inr ⟨fun staged => ?_, .failed, rfl⟩⟩
          rw [staged.write] at writeFault
          cases writeFault
      | none =>
          have staged : (run.2 = { site with
              disk := (site.disk.create writer.tempPath).2.write
                (writer.tempFile site) content.toUTF8 }) ∧
              run.1 = (faults (.file (.sync (writer.tempFile site)))).elim
                (.ok ()) fun _ => .error .failed := by
            simp only [ConfigWriter.tempFile] at writeFault
            cases syncFault :
                faults (.file (.sync (site.disk.create writer.tempPath).1)) <;>
              simp only [run, runAlone, tempfileIn, onFile, Program.bind_eq,
                Program.op_bind, Program.exec_perform, Program.exec_op,
                SiteOp.perform, Operation.perform, createFault, writeFault,
                syncFault, ConfigWriter.tempFile, Option.elim, and_self]
          rw [staged.1, staged.2]
          refine ⟨⟨(write_content? apart named _).trans kept, rfl⟩, ?_⟩
          cases syncFault : faults (.file (.sync (writer.tempFile site))) with
          | none =>
              exact .inl ⟨⟨createFault, writeFault, syncFault⟩, rfl, named,
                write_staged named empty _⟩
          | some fault =>
              refine .inr ⟨fun staged => ?_, .failed, rfl⟩
              rw [staged.sync] at syncFault
              cases syncFault

theorem runAlone_bind {α β : Type} (program : Edit α) (rest : α → Edit β) :
    runAlone faults (program >>= rest) site =
      runAlone faults (rest (runAlone faults program site).1)
        (runAlone faults program site).2 :=
  Program.exec_bind ..

theorem runAlone_step {β : Type} {operation : Operation Path}
    {answer : operation.Answer} {disk : Disk Path}
    (performed : operation.perform (faults (.file operation)) site.disk =
      (answer, disk))
    (next : operation.Answer → Edit β) :
    runAlone faults (onFile operation >>= next) site =
      runAlone faults (next answer) { site with disk } := by
  have first : runAlone faults (onFile operation >>= next) site =
      runAlone faults
        (next (operation.perform (faults (.file operation)) site.disk).1)
        { site with
          disk :=
            (operation.perform (faults (.file operation)) site.disk).2 } :=
    rfl
  rw [first, performed]

/-- A staged text is installed, or the call fails. -/
theorem installTemp_alone (apart : writer.path ≠ writer.tempPath)
    {file : Nat} {text : String}
    (named : site.disk.file? writer.tempPath = some file)
    (staged : site.disk.content? writer.tempPath = some text.toUTF8) :
    let run := runAlone faults (installTemp crates writer) site
    (Installs crates writer faults text ∧ run.1 = .ok () ∧
        Installed writer site run.2 text) ∨
      (¬ Installs crates writer faults text ∧
        (∃ error, run.1 = .error error) ∧ Unchanged writer site run.2) := by
  intro run
  have refused : ∀ answer error,
      (Operation.read writer.tempPath).perform
        (faults (.file (.read writer.tempPath))) site.disk =
          (answer, site.disk) →
      loadFrom crates answer = .error error →
      (∃ error, run.1 = .error error) ∧ Unchanged writer site run.2 := by
    intro answer error read rejected
    obtain ⟨removed, disk, performed, kept⟩ := @perform_remove _ _ site.disk
      _ _ apart (faults (.file (.remove writer.tempPath)))
    have ended : run = (.error (.validation error), { site with disk }) := by
      simp only [run, installTemp]
      rw [runAlone_step read]
      simp only [rejected]
      exact runAlone_step performed _
    rw [ended]
    exact ⟨⟨_, rfl⟩, kept, rfl⟩
  cases loadFault : faults (.file (.read writer.tempPath)) with
  | some fault =>
      refine .inr ⟨fun installs => ?_, refused (.error .failed) .figment
        (by simp [Operation.perform, loadFault]) rfl⟩
      rw [installs.load] at loadFault
      cases loadFault
  | none =>
      have read : (Operation.read writer.tempPath).perform
          (faults (.file (.read writer.tempPath))) site.disk =
            (.ok text.toUTF8, site.disk) := by
        rw [loadFault]
        exact perform_read staged
      cases loaded : loadFrom crates (.ok text.toUTF8) with
      | error error =>
          refine .inr ⟨fun installs => ?_, refused _ error read loaded⟩
          obtain ⟨config, accepted⟩ := installs.accepted
          rw [loaded] at accepted
          cases accepted
      | ok config =>
          cases renameFault :
              faults (.file (.rename writer.tempPath writer.path)) with
          | some fault =>
              have failed : (Operation.rename writer.tempPath
                  writer.path).perform (faults (.file (.rename
                    writer.tempPath writer.path))) site.disk =
                  (.error .failed, site.disk) := by
                simp [Operation.perform, renameFault]
              have ended : run = (.error (.io .failed), site) := by
                simp only [run, installTemp]
                rw [runAlone_step read]
                simp only [loaded]
                exact runAlone_step failed _
              rw [ended]
              refine .inr ⟨fun installs => ?_, ⟨_, rfl⟩, rfl, rfl⟩
              rw [installs.rename] at renameFault
              cases renameFault
          | none =>
              have renamed : (Operation.rename writer.tempPath
                  writer.path).perform (faults (.file (.rename
                    writer.tempPath writer.path))) site.disk =
                  (.ok (), site.disk.rename writer.tempPath writer.path file
                    named) := by
                rw [renameFault]
                exact perform_rename named
              have ended : run = (.ok (), { site with
                  disk := site.disk.rename writer.tempPath writer.path file
                    named }) := by
                simp only [run, installTemp]
                rw [runAlone_step read]
                simp only [loaded]
                exact runAlone_step renamed _
              rw [ended]
              exact .inl ⟨⟨loadFault, renameFault, config, loaded⟩, rfl,
                (site.disk.rename_content? named).trans staged, rfl⟩

/-- The text becomes the configuration file, or the call reports an error and
leaves the configuration file as it was. -/
theorem validateAndWrite_alone (apart : writer.path ≠ writer.tempPath)
    (document : Document) :
    let text := crates.print document
    let run := runAlone faults (validateAndWrite crates writer document) site
    (Saves crates writer faults site text ∧ run.1 = .ok () ∧
        Installed writer site run.2 text) ∨
      (¬ Saves crates writer faults site text ∧
        (∃ error, run.1 = .error error) ∧ Unchanged writer site run.2) := by
  intro text run
  have parts : run = _ := runAlone_bind ..
  obtain ⟨unchanged, ⟨staged, ok, named, holds⟩ | ⟨notStaged, error, failed⟩⟩
    := @tempfileIn_alone writer faults site apart text
  · rw [ok] at parts
    rw [parts]
    rcases installTemp_alone apart named holds with
      ⟨installs, fine, installed, live⟩ | ⟨fails, error, kept, live⟩
    · exact .inl ⟨⟨staged, installs⟩, fine, installed,
        live.trans unchanged.2⟩
    · exact .inr ⟨fun saves => fails saves.2, error, kept.trans unchanged.1,
        live.trans unchanged.2⟩
  · rw [failed] at parts
    rw [parts]
    exact .inr ⟨fun saves => notStaged saves.1, ⟨_, rfl⟩, unchanged⟩

variable (writer faults site) in
/-- What reading the configuration file answers. -/
def configFile : Except IoError ByteArray :=
  ((Operation.read writer.path).perform (faults (.file (.read writer.path)))
    site.disk).1

theorem read_alone :
    (Operation.read writer.path).perform
      (faults (.file (.read writer.path))) site.disk =
        (configFile writer faults site, site.disk) := by
  unfold configFile
  cases faults (.file (.read writer.path)) with
  | some fault => rfl
  | none =>
      cases found : site.disk.content? writer.path with
      | none => simp only [Operation.perform, found]
      | some bytes => simp only [Operation.perform, found]

theorem readDocument_alone :
    runAlone faults (readDocument crates writer) site =
      (match crates.parse
          ((readToString (configFile writer faults site)).getD "") with
        | some document => .ok document
        | none => .error .parse, site) := by
  unfold readDocument
  rw [runAlone_step read_alone]
  cases crates.parse
    ((readToString (configFile writer faults site)).getD "") <;> rfl

/-- An edited document becomes the configuration file, or the call reports an
error and leaves the configuration file as it was. -/
theorem editHooks_alone (apart : writer.path ≠ writer.tempPath)
    (edit : Document → Except WriteError Document) :
    let text := (readToString (configFile writer faults site)).getD ""
    let run := runAlone faults (editHooks crates writer edit) site
    (∃ old new, crates.parse text = some old ∧ edit old = .ok new ∧
        Saves crates writer faults site (crates.print new) ∧
        run.1 = .ok () ∧ Installed writer site run.2 (crates.print new)) ∨
      ((∀ old new, crates.parse text = some old → edit old = .ok new →
          ¬ Saves crates writer faults site (crates.print new)) ∧
        (∃ error, run.1 = .error error) ∧ Unchanged writer site run.2) := by
  intro text run
  have start : run = runAlone faults (editHooks crates writer edit) site :=
    rfl
  unfold editHooks at start
  rw [runAlone_bind, readDocument_alone] at start
  cases parsed : crates.parse text with
  | none =>
      have ended : run = (.error .parse, site) := by
        rw [start, parsed]
        rfl
      rw [ended]
      exact .inr ⟨fun _ _ => nofun, ⟨_, rfl⟩, rfl, rfl⟩
  | some old =>
      rw [parsed] at start
      dsimp only at start
      cases edited : edit old with
      | error error =>
          have ended : run = (.error error, site) := by
            rw [start, edited]
            rfl
          rw [ended]
          refine .inr ⟨fun other new same accepted => ?_, ⟨_, rfl⟩, rfl, rfl⟩
          cases same
          rw [edited] at accepted
          cases accepted
      | ok new =>
          have written : run = runAlone faults
              (validateAndWrite crates writer new) site := by
            rw [start, edited]
          rw [written]
          rcases validateAndWrite_alone apart new with
            ⟨saves, fine, installed⟩ | ⟨fails, error, unchanged⟩
          · exact .inl ⟨old, new, rfl, edited, saves, fine, installed⟩
          · refine .inr ⟨fun other document same accepted => ?_, error,
              unchanged⟩
            cases same
            rw [edited] at accepted
            cases accepted
            exact fails

/-! ## Import -/

/-- The text that an accepted import writes. -/
def importText (crates : Crates) (body : Json) : Option String :=
  match crates.fromJson body with
  | .error _ => none
  | .ok config =>
      match config.validate crates.checkers with
      | .error _ => none
      | .ok () => (crates.serialize config).toOption

/-- What is left in the configuration file, which is emptied first. -/
def writtenBytes (content : ByteArray) : Fault → ByteArray
  | some written => content.extract 0 written
  | none => content

variable (writer faults site) in
/-- The file that creating the configuration path opens. -/
def configHandle : Nat := (site.disk.create writer.path).1

variable (writer faults site) in
/-- The write of an import, and whether it fails. -/
def importFault (text : String) : Fault :=
  faults (.file (.write (configHandle writer site) text.toUTF8))

theorem writeFile_alone (text : String)
    (created : faults (.file (.create writer.path)) = none) :
    let run := runAlone faults (writeFile writer text) site
    run.1 = (match importFault writer faults site text with
      | some _ => .error .failed
      | none => .ok ()) ∧
      run.2.disk.content? writer.path =
        some (writtenBytes text.toUTF8 (importFault writer faults site text)) ∧
      run.2.live = site.live := by
  intro run
  have named := site.disk.create_file? writer.path
  have empty := site.disk.create_bytes writer.path
  have opened : (Operation.create writer.path).perform
      (faults (.file (.create writer.path))) site.disk =
        (.ok (site.disk.create writer.path).1,
          (site.disk.create writer.path).2) := by
    rw [created]
    rfl
  have start : run = runAlone faults
      (onFile (.write (configHandle writer site) text.toUTF8))
      { site with disk := (site.disk.create writer.path).2 } := by
    simp only [run, writeFile]
    rw [runAlone_step opened]
    rfl
  unfold importFault
  cases fault : faults
      (.file (.write (configHandle writer site) text.toUTF8)) with
  | none =>
      have ended : run = (.ok (), { site with
          disk := (site.disk.create writer.path).2.write
            (configHandle writer site) text.toUTF8 }) := by
        rw [start]
        simp only [runAlone, onFile, Program.exec_op, SiteOp.perform, fault,
          Operation.perform]
      rw [ended]
      exact ⟨rfl, write_staged named empty _, rfl⟩
  | some written =>
      have ended : run = (.error .failed, { site with
          disk := (site.disk.create writer.path).2.write
            (configHandle writer site)
            (text.toUTF8.extract 0 written) }) := by
        rw [start]
        simp only [runAlone, onFile, Program.exec_op, SiteOp.perform, fault,
          Operation.perform]
      rw [ended]
      exact ⟨rfl, write_staged named empty _, rfl⟩

variable (crates writer faults) in
/-- The text loads, and reading it back does not fail. -/
def Reloads (text : String) : Prop :=
  faults (.file (.read writer.path)) = none ∧
    ∃ config, loadFrom crates (.ok text.toUTF8) = .ok config

theorem reload_alone :
    runAlone faults (reloadConfig crates writer) site =
      match loadFrom crates (configFile writer faults site) with
      | .error error => (.error error, site)
      | .ok config => (.ok (), { site with live := config }) := by
  unfold reloadConfig
  rw [runAlone_step read_alone]
  cases loadFrom crates (configFile writer faults site) <;> rfl

theorem reloadConfig_alone {text : String}
    (holds : site.disk.content? writer.path = some text.toUTF8) :
    let run := runAlone faults (reloadConfig crates writer) site
    run.2.disk = site.disk ∧
      ((Reloads crates writer faults text ∧ run.1 = .ok ()) ∨
        (¬ Reloads crates writer faults text ∧ run.2.live = site.live ∧
          ∃ error, run.1 = .error error)) := by
  intro run
  have start : run = _ := reload_alone
  cases fault : faults (.file (.read writer.path)) with
  | some bytes =>
      have failed : configFile writer faults site = .error .failed := by
        simp only [configFile, fault, Operation.perform]
      rw [failed] at start
      rw [start]
      refine ⟨rfl, .inr ⟨fun reloads => ?_, rfl, _, rfl⟩⟩
      rw [reloads.1] at fault
      cases fault
  | none =>
      have read : configFile writer faults site = .ok text.toUTF8 := by
        simp only [configFile, fault, perform_read holds]
      rw [read] at start
      cases loaded : loadFrom crates (.ok text.toUTF8) with
      | error error =>
          rw [loaded] at start
          rw [start]
          refine ⟨rfl, .inr ⟨fun reloads => ?_, rfl, _, rfl⟩⟩
          obtain ⟨config, accepted⟩ := reloads.2
          rw [loaded] at accepted
          cases accepted
      | ok config =>
          rw [loaded] at start
          rw [start]
          exact ⟨rfl, .inl ⟨⟨fault, config, loaded⟩, rfl⟩⟩

/-- An import that is refused, or that cannot open the configuration file,
changes nothing. -/
theorem importConfig_refused {body : Json}
    (refused : ∀ text, importText crates body = some text →
      faults (.file (.create writer.path)) ≠ none) :
    let run := runAlone faults (importConfig crates writer body) site
    (∃ error, run.1 = .error error) ∧ Unchanged writer site run.2 := by
  intro run
  have start : run = runAlone faults (importConfig crates writer body) site :=
    rfl
  unfold importConfig at start
  unfold importText at refused
  cases given : crates.fromJson body with
  | error message =>
      rw [given] at start
      rw [start]
      exact ⟨⟨_, rfl⟩, rfl, rfl⟩
  | ok config =>
      rw [given] at start refused
      dsimp only at start refused
      cases valid : config.validate crates.checkers with
      | error error =>
          rw [valid] at start
          rw [start]
          exact ⟨⟨_, rfl⟩, rfl, rfl⟩
      | ok done =>
          rw [valid] at start refused
          dsimp only at start refused
          cases serialized : crates.serialize config with
          | error message =>
              rw [serialized] at start
              rw [start]
              exact ⟨⟨_, rfl⟩, rfl, rfl⟩
          | ok text =>
              rw [serialized] at start refused
              have fails := refused text rfl
              cases fault : faults (.file (.create writer.path)) with
              | none => exact absurd fault fails
              | some bytes =>
                  have ended : run = (.error (.write .failed), site) := by
                    rw [start]
                    simp only [runAlone, writeFile, onFile, Program.bind_eq,
                      Program.op_bind, Program.perform_bind,
                      Program.exec_perform, SiteOp.perform, fault,
                      Operation.perform, Program.pure_eq, Program.pure_bind,
                      Program.exec_pure]
                  rw [ended]
                  exact ⟨⟨_, rfl⟩, rfl, rfl⟩

variable (crates writer) in
/-- What `import_config` does with a text that it accepts. -/
def writeAndReload (text : String) : Edit (Except ImportError Unit) := do
  match ← writeFile writer text with
  | .error error => return .error (.write error)
  | .ok () =>
      match ← reloadConfig crates writer with
      | .error error => return .error (.reload error)
      | .ok () => return .ok ()

/-- An import that opens the configuration file leaves there what it could
write. -/
theorem importConfig_alone {body : Json} {text : String}
    (accepted : importText crates body = some text)
    (created : faults (.file (.create writer.path)) = none) :
    let run := runAlone faults (importConfig crates writer body) site
    let fault := importFault writer faults site text
    run.2.disk.content? writer.path =
        some (writtenBytes text.toUTF8 fault) ∧
      ((fault = none ∧ Reloads crates writer faults text ∧ run.1 = .ok ()) ∨
        (¬ (fault = none ∧ Reloads crates writer faults text) ∧
          run.2.live = site.live ∧ ∃ error, run.1 = .error error)) := by
  intro run fault
  have start :
      run = runAlone faults (writeAndReload crates writer text) site := by
    unfold importText at accepted
    simp only [run, importConfig]
    cases given : crates.fromJson body with
    | error message =>
        rw [given] at accepted
        cases accepted
    | ok config =>
        rw [given] at accepted
        dsimp only at accepted ⊢
        cases valid : config.validate crates.checkers with
        | error error =>
            rw [valid] at accepted
            cases accepted
        | ok done =>
            rw [valid] at accepted
            dsimp only at accepted ⊢
            cases serialized : crates.serialize config with
            | error message =>
                rw [serialized] at accepted
                cases accepted
            | ok found =>
                rw [serialized] at accepted
                cases accepted
                rfl
  obtain ⟨wrote, content, live⟩ :=
    @writeFile_alone writer faults site text created
  rw [writeAndReload, runAlone_bind] at start
  cases given : importFault writer faults site text with
  | some bytes =>
      rw [given] at wrote
      rw [wrote] at start
      rw [start]
      exact ⟨content, .inr ⟨fun both => by simp [fault, given] at both, live,
        _, rfl⟩⟩
  | none =>
      rw [given] at wrote
      rw [wrote] at start
      dsimp only at start
      rw [runAlone_bind] at start
      rw [given] at content
      have unfailing : fault = none := given
      obtain ⟨sameDisk, ⟨reloads, ok⟩ | ⟨fails, sameLive, error, failed⟩⟩ :=
        @reloadConfig_alone crates writer faults _ text content
      · rw [ok] at start
        rw [start]
        refine ⟨?_, .inl ⟨given, reloads, rfl⟩⟩
        exact (congrArg (Disk.content? · writer.path) sameDisk).trans
          (content.trans (by rw [unfailing]))
      · rw [failed] at start
        rw [start]
        refine ⟨?_, .inr ⟨fun both => fails both.2, sameLive.trans live, _,
          rfl⟩⟩
        exact (congrArg (Disk.content? · writer.path) sameDisk).trans
          (content.trans (by rw [unfailing]))

end Sendword
