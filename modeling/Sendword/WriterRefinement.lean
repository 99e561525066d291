import Sendword.AllOrNothing
import Sendword.HookStore

/-!
# The configuration writer is a store of hooks

Calls of the writer, one after the other and with any failures but those of
reading the configuration file, are calls on the configuration that the file
loads to.
-/

namespace Sendword

open Concurrency Files Figment
open Toml hiding Value

/-! ## Runs -/

/-- Calls and the failures of their operations. -/
abbrev Steps := List (WriterCall × (SiteOp → Fault))

section Runs

variable (crates : Crates) (writer : ConfigWriter)

/-- One call after the other. -/
def runCalls : Steps → Site → List (Except WriteError Unit) × Site
  | [], site => ([], site)
  | (call, faults) :: steps, site =>
      let run := runAlone faults (call.body crates writer) site
      let rest := runCalls steps run.2
      (run.1 :: rest.1, rest.2)

/-- The documents that calls make of a document. -/
inductive Made (steps : Steps) (start : Document) : Document → Prop
  | start : Made steps start start
  | edit {old new : Document} {step : WriterCall × (SiteOp → Fault)} :
      Made steps start old → step ∈ steps → step.1.edit old = .ok new →
      Made steps start new

/-- The configuration file holds a document, and loads. -/
structure Stores (site : Site) (document : Document) (config : AppConfig) :
    Prop where
  loaded : loadFrom crates (configFile writer unfailing site) = .ok config
  parsed : crates.parse ((readToString (configFile writer unfailing
    site)).getD "") = some document
  form : HookTables document

end Runs

/-- Calls on a configuration, with their answers.  A call that fails changes
nothing, and fails because one of its operations does, or because the
configuration refuses it. -/
inductive Replays (checkers : Checkers) :
    AppConfig → Steps → List (Except WriteError Unit) → AppConfig → Prop
  | done (config : AppConfig) : Replays checkers config [] [] config
  | saved {config next last : AppConfig} {call : WriterCall}
      {faults : SiteOp → Fault} {steps : Steps}
      {answers : List (Except WriteError Unit)} :
      call.apply checkers config = .ok next →
      Replays checkers next steps answers last →
      Replays checkers config ((call, faults) :: steps) (.ok () :: answers)
        last
  | failed {config last : AppConfig} {call : WriterCall}
      {faults : SiteOp → Fault} {steps : Steps} {error : WriteError}
      {answers : List (Except WriteError Unit)} :
      (∃ operation, faults operation ≠ none) →
      Replays checkers config steps answers last →
      Replays checkers config ((call, faults) :: steps)
        (.error error :: answers) last
  | refused {config last : AppConfig} {call : WriterCall}
      {faults : SiteOp → Fault} {steps : Steps} {error : WriteError}
      {answers : List (Except WriteError Unit)} :
      call.apply checkers config = .error error →
      Replays checkers config steps answers last →
      Replays checkers config ((call, faults) :: steps)
        (.error error :: answers) last

/-! ## One call -/

section Step

variable {crates : Crates} {writer : ConfigWriter} {faults : SiteOp → Fault}
  {call : WriterCall} {site : Site} {old new : Document}
  {config : AppConfig}

theorem configFile_unfailing
    (readable : faults (.file (.read writer.path)) = none) :
    configFile writer faults site = configFile writer unfailing site := by
  unfold configFile
  rw [readable]
  rfl

theorem configFile_congr {after : Site}
    (same : after.disk.content? writer.path =
      site.disk.content? writer.path) :
    configFile writer unfailing after =
      configFile writer unfailing site := by
  unfold configFile
  cases found : site.disk.content? writer.path <;>
    simp only [unfailing, Operation.perform, same, found]

theorem Stores.of_unchanged {after : Site}
    (stores : Stores crates writer site old config)
    (unchanged : Unchanged writer site after) :
    Stores crates writer after old config := by
  have same := configFile_congr unchanged.1
  exact ⟨same ▸ stores.loaded, same ▸ stores.parsed, stores.form⟩

theorem Stores.document_loads
    (stores : Stores crates writer site old config) :
    loadDocument crates old = .ok config := by
  obtain ⟨document, parsed, loads⟩ := loaded_text stores.loaded
  cases parsed.symm.trans stores.parsed
  exact loads

theorem wellFormed_of_call {literals : Literals} (fits : call.Fits)
    (wellFormed : Table.WellFormed literals old)
    (edited : call.edit old = .ok new) : Table.WellFormed literals new := by
  cases call with
  | addHook data =>
      exact wellFormed_addHookTable wellFormed
        (fun retries given => (fits.retries retries given).1) edited
  | updateHook slug data =>
      exact wellFormed_updateHookTable wellFormed
        (fun retries given => (fits.retries retries given).1) edited
  | removeHook slug => exact wellFormed_removeHookTable wellFormed edited

/-- A text that is installed is what the file holds. -/
theorem Stores.of_installed {after : Site}
    (installed : Installed writer site after (crates.print new))
    (reparsed : crates.parse (crates.print new) = some new)
    (loads : loadDocument crates new = .ok config)
    (form : HookTables new) : Stores crates writer after new config := by
  have file : configFile writer unfailing after =
      .ok (crates.print new).toUTF8 := by
    unfold configFile
    simp only [unfailing, Operation.perform, installed.1]
  refine ⟨?_, ?_, form⟩
  · rw [file, loadFrom_printed reparsed, loads]
  · have text : readToString (.ok (crates.print new).toUTF8) =
      some (crates.print new) := fromUTF8?_toUTF8 _
    rw [file, text]
    exact reparsed

/-- The answer, where only the loading decides. -/
def loadAnswer (crates : Crates) (text : String) : Except WriteError Unit :=
  match loadFrom crates (.ok text.toUTF8) with
  | .error error => .error (.validation error)
  | .ok _ => .ok ()

theorem installTemp_unfailing (apart : writer.path ≠ writer.tempPath)
    {file : Nat} {text : String}
    (named : site.disk.file? writer.tempPath = some file)
    (staged : site.disk.content? writer.tempPath = some text.toUTF8) :
    (runAlone unfailing (installTemp crates writer) site).1 =
      loadAnswer crates text := by
  have read : (Operation.read writer.tempPath).perform
      (unfailing (.file (.read writer.tempPath))) site.disk =
        (.ok text.toUTF8, site.disk) := perform_read staged
  unfold installTemp loadAnswer
  rw [runAlone_step read]
  cases loaded : loadFrom crates (.ok text.toUTF8) with
  | error error =>
      obtain ⟨removed, disk, performed, -⟩ := @perform_remove _ _ site.disk
        _ _ apart (unfailing (.file (.remove writer.tempPath)))
      dsimp only
      exact congrArg Prod.fst (runAlone_step performed _)
  | ok config =>
      have renamed : (Operation.rename writer.tempPath writer.path).perform
          (unfailing (.file (.rename writer.tempPath writer.path)))
          site.disk =
        (.ok (), site.disk.rename writer.tempPath writer.path file named) :=
        perform_rename named
      dsimp only
      exact congrArg Prod.fst (runAlone_step renamed _)

theorem validateAndWrite_unfailing (apart : writer.path ≠ writer.tempPath)
    (document : Document) :
    (runAlone unfailing (validateAndWrite crates writer document) site).1 =
      loadAnswer crates (crates.print document) := by
  have parts : runAlone unfailing
    (validateAndWrite crates writer document) site = _ := runAlone_bind ..
  obtain ⟨-, ⟨-, ok, named, holds⟩ | ⟨notStaged, -⟩⟩ :=
    @tempfileIn_alone writer unfailing site apart (crates.print document)
  · rw [ok] at parts
    rw [parts]
    exact installTemp_unfailing apart named holds
  · exact (notStaged ⟨rfl, rfl, rfl⟩).elim

/-- Without a failure a call answers what the configuration does. -/
theorem call_unfailing (apart : writer.path ≠ writer.tempPath)
    (stores : Stores crates writer site old config)
    (printed : ∀ new, call.edit old = .ok new →
      crates.parse (crates.print new) = some new) :
    (runAlone unfailing (call.body crates writer) site).1 =
      (call.loads crates old).map fun _ => () := by
  rw [call.body_eq]
  unfold editHooks WriterCall.loads
  rw [runAlone_bind, readDocument_alone, stores.parsed]
  dsimp only
  cases edited : call.edit old with
  | error error => rfl
  | ok new =>
      dsimp only
      rw [validateAndWrite_unfailing apart, loadAnswer,
        loadFrom_printed (printed new edited)]
      cases loadDocument crates new <;> rfl

/-- One call: it is saved in the file and in the configuration, or changes
neither. -/
theorem call_step (apart : writer.path ≠ writer.tempPath)
    (reads : ReadsUnits crates.parseDuration)
    (absent : crates.overlay.entries.lookup "hooks" = none) (fits : call.Fits)
    (readable : faults (.file (.read writer.path)) = none)
    (printed : ∀ new, call.edit old = .ok new →
      crates.parse (crates.print new) = some new)
    (stores : Stores crates writer site old config) :
    let run := runAlone faults (call.body crates writer) site
    (∃ next new, run.1 = .ok () ∧
        call.apply crates.checkers config = .ok next ∧
        call.edit old = .ok new ∧ Stores crates writer run.2 new next) ∨
      (∃ error, run.1 = .error error ∧
        ((∃ operation, faults operation ≠ none) ∨
          call.apply crates.checkers config = .error error) ∧
        Stores crates writer run.2 old config) := by
  intro run
  have same := loads_eq_apply reads absent stores.form
    stores.document_loads fits
  have whole : run = runAlone faults (editHooks crates writer call.edit)
      site := by
    rw [← call.body_eq]
  rcases @editHooks_alone crates writer faults site apart call.edit with
    ⟨before, new, parsed, edited, saves, ok, installed⟩ |
    ⟨-, ⟨error, failed⟩, unchanged⟩
  · rw [configFile_unfailing readable] at parsed
    cases parsed.symm.trans stores.parsed
    have reparsed := printed new edited
    obtain ⟨next, loads⟩ := saves.2.accepted
    rw [loadFrom_printed reparsed] at loads
    rw [whole]
    refine .inl ⟨next, new, ok, ?_, edited, .of_installed installed reparsed
      loads (hookTables_of_edit stores.form edited)⟩
    rw [← same, WriterCall.loads, edited]
    dsimp only
    rw [loads]
    rfl
  · rw [whole]
    refine .inr ⟨error, failed, ?_, stores.of_unchanged unchanged⟩
    by_cases clean : ∀ operation, faults operation = none
    · obtain rfl : faults = unfailing := funext clean
      have answer := call_unfailing apart stores printed
      rw [call.body_eq, failed, same] at answer
      cases applied : call.apply crates.checkers config with
      | ok next =>
          rw [applied] at answer
          cases answer
      | error other =>
          rw [applied] at answer
          cases answer
          exact .inr rfl
    · exact .inl (by simpa using clean)

end Step

/-! ## Any number of calls -/

section Calls

variable {crates : Crates} {writer : ConfigWriter} {site : Site}
  {start old : Document} {config : AppConfig} {all steps : Steps}

theorem runCalls_from (apart : writer.path ≠ writer.tempPath)
    (reads : ReadsUnits crates.parseDuration)
    (absent : crates.overlay.entries.lookup "hooks" = none)
    (lawful : crates.Lawful (Made all start))
    (fits : ∀ step ∈ all, step.1.Fits)
    (readable : ∀ step ∈ all, step.2 (.file (.read writer.path)) = none)
    (inside : ∀ step ∈ steps, step ∈ all) (made : Made all start old)
    (wellFormed : Table.WellFormed crates.literals old)
    (stores : Stores crates writer site old config) :
    let run := runCalls crates writer steps site
    ∃ last changed, Replays crates.checkers config steps run.1 last ∧
      Stores crates writer run.2 changed last := by
  induction steps generalizing site old config with
  | nil => exact ⟨config, old, .done config, stores⟩
  | cons step steps induction =>
      obtain ⟨call, faults⟩ := step
      have member := inside _ List.mem_cons_self
      have later : ∀ step ∈ steps, step ∈ all := fun step inRest =>
        inside step (List.mem_cons_of_mem _ inRest)
      have kept (new : Document) (edited : call.edit old = .ok new) :
          Table.WellFormed crates.literals new :=
        wellFormed_of_call (fits _ member) wellFormed edited
      rcases call_step apart reads absent (fits _ member)
          (readable _ member) (fun new edited => lawful.parse_print new
            (.edit made member edited) (kept new edited)) stores with
        ⟨next, new, ok, applied, edited, saved⟩ |
        ⟨error, failed, reason, unchanged⟩
      · obtain ⟨last, changed, replays, holds⟩ := induction later
          (.edit made member edited) (kept new edited) saved
        refine ⟨last, changed, ?_, holds⟩
        change Replays _ _ _ ((runAlone faults (call.body crates writer)
          site).1 :: _) _
        rw [ok]
        exact .saved applied replays
      · obtain ⟨last, changed, replays, holds⟩ := induction later made
          wellFormed unchanged
        refine ⟨last, changed, ?_, holds⟩
        change Replays _ _ _ ((runAlone faults (call.body crates writer)
          site).1 :: _) _
        rw [failed]
        rcases reason with fault | refused
        · exact .failed fault replays
        · exact .refused refused replays

/-- Whatever fails in them, calls do to the file what they do to a
configuration, and tell which of them did. -/
theorem writer_replays (apart : writer.path ≠ writer.tempPath)
    (reads : ReadsUnits crates.parseDuration)
    (absent : crates.overlay.entries.lookup "hooks" = none)
    (lawful : crates.Lawful (Made steps start))
    (fits : ∀ step ∈ steps, step.1.Fits)
    (readable : ∀ step ∈ steps, step.2 (.file (.read writer.path)) = none)
    (stores : Stores crates writer site start config) :
    let run := runCalls crates writer steps site
    ∃ last changed, Replays crates.checkers config steps run.1 last ∧
      Stores crates writer run.2 changed last :=
  runCalls_from apart reads absent lawful fits readable
    (fun _ member => member) .start
    (lawful.parse_wellFormed _ start stores.parsed) stores

/-! ### A hook that is added and removed -/

/-- The crates of the example, with durations. -/
def unitCrates : Crates := { siteCrates with parseDuration := readUnit }

theorem unit_parse {text : String} :
    unitCrates.parse text = siteCrates.parse text := rfl

theorem unit_lawful {printed : Document → Prop}
    (known : ∀ document, printed document → document ∈ siteDocuments) :
    unitCrates.Lawful printed where
  parse_empty := (site_lawful known).parse_empty
  parse_wellFormed := (site_lawful known).parse_wellFormed
  parse_print := (site_lawful known).parse_print

def greetingSteps : Steps :=
  [(.addHook greeting, unfailing), (.addHook greeting, unfailing),
    (.removeHook "greeting", renameless),
    (.removeHook "greeting", unfailing)]

def deployedDocument : Document :=
  withHooks [buildHookTable deploy] serverDocument

def greetedDocument : Document :=
  withHooks [buildHookTable deploy, buildHookTable greeting] serverDocument

theorem made_greeting {document : Document}
    (made : Made greetingSteps deployedDocument document) :
    document = deployedDocument ∨ document = greetedDocument := by
  induction made with
  | start => exact .inl rfl
  | @edit old new step before member edited induction =>
      have added : (WriterCall.addHook greeting).edit deployedDocument =
        .ok greetedDocument := rfl
      have conflict : (WriterCall.addHook greeting).edit greetedDocument =
        .error (.slugConflict "greeting") := rfl
      have missing : (WriterCall.removeHook "greeting").edit
        deployedDocument = .error (.hookNotFound "greeting") := rfl
      have removed : (WriterCall.removeHook "greeting").edit
        greetedDocument = .ok deployedDocument := rfl
      have which : step.1 = .addHook greeting ∨
          step.1 = .removeHook "greeting" := by
        simp only [greetingSteps, List.mem_cons, List.not_mem_nil,
          or_false] at member
        rcases member with rfl | rfl | rfl | rfl
        · exact .inl rfl
        · exact .inl rfl
        · exact .inr rfl
        · exact .inr rfl
      rcases which with isAdd | isRemove
      · rw [isAdd] at edited
        rcases induction with rfl | rfl
        · exact .inr (Except.ok.inj (edited.symm.trans added))
        · cases edited.symm.trans conflict
      · rw [isRemove] at edited
        rcases induction with rfl | rfl
        · cases edited.symm.trans missing
        · exact .inl (Except.ok.inj (edited.symm.trans removed))

theorem greetingSteps_lawful :
    unitCrates.Lawful (Made greetingSteps deployedDocument) := by
  refine unit_lawful fun document made => ?_
  rcases made_greeting made with rfl | rfl
  · exact List.mem_of_getElem? (i := 4) rfl
  · exact List.mem_of_getElem? (i := 5) rfl

theorem greeting_data_fits : greeting.Fits where
  timeout := by simp [greeting]
  retries := by simp [greeting]
  triggerRules := by simp [greeting]

/-- A file that says a document with hooks. -/
theorem stores_diskWith {text : String} {document : Document}
    {config : AppConfig} {live : AppConfig}
    (parsed : unitCrates.parse text = some document)
    (loads : loadDocument unitCrates document = .ok config)
    (form : HookTables document) :
    Stores unitCrates sendwordToml
      { disk := diskWith sendwordToml.path text.toUTF8, live } document
      config where
  loaded := by
    rw [configFile_diskWith rfl]
    exact (loadFrom_printed parsed).trans loads
  parsed := by
    have read : (readToString (.ok text.toUTF8)).getD "" = text :=
      congrArg (Option.getD · "") (fromUTF8?_toUTF8 text)
    rw [configFile_diskWith rfl, read]
    exact parsed
  form := form

theorem deployed_stores :
    Stores unitCrates sendwordToml deployedSite deployedDocument
      deployedConfig := by
  have loads : loadDocument unitCrates deployedDocument =
    .ok deployedConfig := by decide
  exact stores_diskWith (unit_parse.trans deployed_parse) loads
    (.inr ⟨_, rfl⟩)

theorem writer_replays_deployed :
    let run := runCalls unitCrates sendwordToml greetingSteps deployedSite
    ∃ last changed,
      Replays unitCrates.checkers deployedConfig greetingSteps run.1 last ∧
        Stores unitCrates sendwordToml run.2 changed last := by
  refine writer_replays (by decide) readUnit_reads rfl
    greetingSteps_lawful (fun step member => ?_) (fun step member => ?_)
    deployed_stores
  · simp only [greetingSteps, List.mem_cons, List.not_mem_nil,
      or_false] at member
    rcases member with rfl | rfl | rfl | rfl
    · exact greeting_data_fits
    · exact greeting_data_fits
    · exact trivial
    · exact trivial
  · simp only [greetingSteps, List.mem_cons, List.not_mem_nil,
      or_false] at member
    rcases member with rfl | rfl | rfl | rfl
    · rfl
    · rfl
    · rfl
    · rfl

end Calls

end Sendword
