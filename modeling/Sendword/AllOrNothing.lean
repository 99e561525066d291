import Sendword.ConfigRuns

/-!
# All or nothing

A change of the configuration either reports an error and leaves everything as
it was, or reports success and keeps what it was not asked to change.
-/

namespace Sendword

open Concurrency Files Toml

inductive ConfigRequest where
  | addHook (data : HookFormData)
  | updateHook (slug : String) (data : HookFormData)
  | removeHook (slug : String)
  | importConfig (body : Json)

inductive RequestError where
  | write (error : WriteError)
  | imported (error : ImportError)
  deriving DecidableEq, Repr

namespace ConfigRequest

/-- The edit of the document, for the operations of `ConfigWriter`. -/
def edit? : ConfigRequest → Option (Document → Except WriteError Document)
  | .addHook data => some (addHookTable data)
  | .updateHook slug data => some (updateHookTable slug data)
  | .removeHook slug => some (removeHookTable slug)
  | .importConfig _ => none

variable (crates : Crates) (writer : ConfigWriter)

def body : ConfigRequest → Edit (Except RequestError Unit)
  | .addHook data => do
      let answer ← Sendword.addHook crates writer data
      return answer.mapError .write
  | .updateHook slug data => do
      let answer ← Sendword.updateHook crates writer slug data
      return answer.mapError .write
  | .removeHook slug => do
      let answer ← Sendword.removeHook crates writer slug
      return answer.mapError .write
  | .importConfig body => do
      let answer ← Sendword.importConfig crates writer body
      return answer.mapError .imported

/-- A retry count is a `u32`. -/
def Fits : ConfigRequest → Prop
  | .addHook data | .updateHook _ data =>
      ∀ retries ∈ data.retries, retries.count < 2 ^ 32
  | .removeHook _ | .importConfig _ => True

/-- What the operation was not asked to change is still there. -/
def Keeps (old new : Document) : ConfigRequest → Prop
  | .addHook _ => SameSections old new ∧ hookValues old <+: hookValues new
  | .updateHook slug _ | .removeHook slug =>
      SameSections old new ∧ otherHooks slug new = otherHooks slug old
  | .importConfig _ => True

end ConfigRequest

variable (crates : Crates) (writer : ConfigWriter)

/-- The document in a file. -/
def documentIn (bytes : ByteArray) : Option Document :=
  (String.fromUTF8? bytes).bind crates.parse

/-- A run from `site` to `after` with this answer is all or nothing. -/
structure AllOrNothing (faults : SiteOp → Fault) (request : ConfigRequest)
    (site : Site) (answer : Except RequestError Unit) (after : Site) :
    Prop where
  undone : ∀ error, answer = .error error → Unchanged writer site after
  kept : answer = .ok () → ∃ old new,
    site.disk.content? writer.path = some old ∧
      after.disk.content? writer.path = some new ∧
      (∃ config, loadFrom crates (.ok new) = .ok config) ∧
      ∀ before, documentIn crates old = some before →
        ∃ document, documentIn crates new = some document ∧
          request.Keeps before document
  readable : request.edit?.isSome →
    readToString (configFile writer faults site) = none → answer ≠ .ok ()

/-- When a change is all or nothing.  An unreadable file must not be replaced
by one with only the new hook, and an import that fails after it has opened
the configuration file must leave there the bytes it found. -/
def SafeChange (faults : SiteOp → Fault) (site : Site) :
    ConfigRequest → Prop
  | .addHook data =>
      readToString (configFile writer faults site) = none →
        ¬ Saves crates writer faults site
          (crates.print (withHooks [buildHookTable data] []))
  | .updateHook _ _ | .removeHook _ => True
  | .importConfig body =>
      ∀ text, importText crates body = some text →
        faults (.file (.create writer.path)) = none →
        (importFault writer faults site text = none ∧
            Reloads crates writer faults text) ∨
          site.disk.content? writer.path =
            some (writtenBytes text.toUTF8
              (importFault writer faults site text))

/-- The documents that a request prints, starting from this text. -/
def Prints (request : ConfigRequest) (text : String) (new : Document) : Prop :=
  ∃ edit old, request.edit? = some edit ∧ crates.parse text = some old ∧
    edit old = .ok new

variable {crates writer} {faults : SiteOp → Fault} {request : ConfigRequest}
  {edit : Document → Except WriteError Document} {old new : Document}
  {site : Site}

theorem keeps_of_edit (edits : request.edit? = some edit)
    (edited : edit old = .ok new) : request.Keeps old new := by
  cases request with
  | addHook data =>
      cases edits
      exact ⟨addHookTable_sections edited, addHookTable_hooks edited⟩
  | updateHook slug data =>
      cases edits
      exact ⟨updateHookTable_sections edited, updateHookTable_hooks edited⟩
  | removeHook slug =>
      cases edits
      exact ⟨removeHookTable_sections edited, removeHookTable_hooks edited⟩
  | importConfig body => cases edits

theorem wellFormed_of_edit {literals : Literals} (fits : request.Fits)
    (edits : request.edit? = some edit)
    (wellFormed : Table.WellFormed literals old)
    (edited : edit old = .ok new) : Table.WellFormed literals new := by
  cases request with
  | addHook data =>
      cases edits
      exact wellFormed_addHookTable wellFormed fits edited
  | updateHook slug data =>
      cases edits
      exact wellFormed_updateHookTable wellFormed fits edited
  | removeHook slug =>
      cases edits
      exact wellFormed_removeHookTable wellFormed edited
  | importConfig body => cases edits

/-- The answer of an edit is that of `editHooks`, with its error wrapped. -/
theorem body_of_edit (edits : request.edit? = some edit) :
    runAlone faults (request.body crates writer) site =
      ((runAlone faults (editHooks crates writer edit) site).1.mapError
          .write,
        (runAlone faults (editHooks crates writer edit) site).2) := by
  cases request with
  | addHook data | updateHook slug data | removeHook slug =>
      cases edits
      exact runAlone_bind ..
  | importConfig body => cases edits

theorem body_of_import (body : Json) :
    runAlone faults ((ConfigRequest.importConfig body).body crates writer)
        site =
      ((runAlone faults (importConfig crates writer body) site).1.mapError
          .imported,
        (runAlone faults (importConfig crates writer body) site).2) :=
  runAlone_bind ..

/-- A file that can be read is found by the run as it is. -/
theorem documentIn_of_read {bytes : ByteArray} {text : String}
    (found : site.disk.content? writer.path = some bytes)
    (read : readToString (configFile writer faults site) = some text) :
    documentIn crates bytes = crates.parse text := by
  unfold configFile at read
  cases fault : faults (.file (.read writer.path)) with
  | some lost =>
      rw [fault] at read
      simp only [Operation.perform, readToString] at read
      cases read
  | none =>
      rw [fault, perform_read found] at read
      simp only [readToString] at read
      simp [documentIn, read]

theorem documentIn_of_loaded {bytes : ByteArray} {config : AppConfig}
    (loaded : loadFrom crates (.ok bytes) = .ok config) :
    ∃ document, documentIn crates bytes = some document := by
  unfold loadFrom at loaded
  split at loaded
  · rename_i document parsed
    exact ⟨document, parsed⟩
  · cases loaded

/-- A run that reports an error and changes nothing is all or nothing. -/
theorem allOrNothing_failed {error : RequestError} {after : Site}
    (unchanged : Unchanged writer site after) :
    AllOrNothing crates writer faults request site (.error error) after where
  undone := fun _ _ => unchanged
  kept := nofun
  readable := fun _ _ => nofun

/-- The writer fails only where an unreadable file counts as empty. -/
theorem edit_iff (apart : writer.path ≠ writer.tempPath)
    (lawful : crates.Lawful (Prints crates request
      ((readToString (configFile writer faults site)).getD "")))
    (fits : request.Fits) (edits : request.edit? = some edit)
    {bytes : ByteArray} (found : site.disk.content? writer.path = some bytes) :
    let run := runAlone faults (request.body crates writer) site
    AllOrNothing crates writer faults request site run.1 run.2 ↔
      (readToString (configFile writer faults site) = none →
        ∀ new, edit [] = .ok new →
          ¬ Saves crates writer faults site (crates.print new)) := by
  intro run
  have isRun : run = _ := body_of_edit edits
  rw [isRun]
  rcases @editHooks_alone crates writer faults site apart edit with
    ⟨old, new, parsed, edited, saves, ok, installed, live⟩ |
    ⟨fails, ⟨error, failed⟩, unchanged⟩
  · rw [ok]
    constructor
    · intro holds unreadable
      exact absurd rfl (holds.readable (by rw [edits]; rfl) unreadable)
    · intro safe
      have readable :
          readToString (configFile writer faults site) ≠ none := by
        intro unreadable
        rw [unreadable, Option.getD_none, lawful.parse_empty] at parsed
        cases parsed
        exact safe unreadable new edited saves
      obtain ⟨text, read⟩ := Option.ne_none_iff_exists'.mp readable
      rw [read, Option.getD_some] at parsed
      have printed : Prints crates request
          ((readToString (configFile writer faults site)).getD "") new := by
        rw [read]
        exact ⟨edit, old, edits, parsed, edited⟩
      have reparsed := lawful.parse_print new printed
        (wellFormed_of_edit fits edits
          (lawful.parse_wellFormed text old parsed) edited)
      refine ⟨fun error => nofun, fun _ => ?_, fun _ unreadable =>
        absurd unreadable readable⟩
      refine ⟨bytes, _, found, installed, saves.2.accepted, ?_⟩
      intro before isBefore
      rw [documentIn_of_read found read, parsed] at isBefore
      cases isBefore
      refine ⟨new, ?_, keeps_of_edit edits edited⟩
      rw [documentIn, fromUTF8?_toUTF8]
      exact reparsed
  · rw [failed]
    refine ⟨fun _ unreadable new edited => ?_, fun _ =>
      allOrNothing_failed unchanged⟩
    refine fails [] new ?_ edited
    rw [unreadable]
    exact lawful.parse_empty

theorem import_iff (body : Json) {bytes : ByteArray}
    (found : site.disk.content? writer.path = some bytes) :
    let request := ConfigRequest.importConfig body
    let run := runAlone faults (request.body crates writer) site
    AllOrNothing crates writer faults request site run.1 run.2 ↔
      SafeChange crates writer faults site request := by
  intro request run
  have isRun : run = _ := body_of_import body
  rw [isRun]
  by_cases opened : ∃ text, importText crates body = some text ∧
      faults (.file (.create writer.path)) = none
  case neg =>
    have refused : ∀ text, importText crates body = some text →
        faults (.file (.create writer.path)) ≠ none :=
      fun text accepted created => opened ⟨text, accepted, created⟩
    obtain ⟨⟨error, failed⟩, unchanged⟩ :=
      @importConfig_refused crates writer faults site body refused
    rw [failed]
    refine ⟨fun _ text accepted created => ?_, fun _ =>
      allOrNothing_failed unchanged⟩
    exact absurd created (refused text accepted)
  case pos =>
    obtain ⟨text, accepted, created⟩ := opened
    obtain ⟨content, ⟨unfailing, reloads, ok⟩ |
        ⟨fails, live, error, failed⟩⟩ :=
      @importConfig_alone crates writer faults site body text accepted created
    · rw [ok]
      constructor
      · intro _ other same _
        cases accepted.symm.trans same
        exact .inl ⟨unfailing, reloads⟩
      · intro _
        refine ⟨fun error => nofun, fun _ => ?_, fun edits => by cases edits⟩
        rw [unfailing] at content
        obtain ⟨config, loaded⟩ := reloads.2
        obtain ⟨document, parsed⟩ := documentIn_of_loaded loaded
        exact ⟨bytes, _, found, content, ⟨config, loaded⟩, fun _ _ =>
          ⟨document, parsed, trivial⟩⟩
    · rw [failed]
      constructor
      · intro holds other same _
        cases accepted.symm.trans same
        exact .inr ((holds.undone _ rfl).1.symm.trans content)
      · intro safe
        rcases safe text accepted created with good | same
        · exact absurd good fails
        · exact allOrNothing_failed ⟨content.trans same.symm, live⟩

/-! ## A file that cannot be read -/

def greeting : HookFormData where
  name := "Greeting"
  slug := "greeting"
  executor := .shell "echo hello"

def greetingDocument : Document := withHooks [buildHookTable greeting] []

def greetingText : String :=
  "[[hooks]]\nname = \"Greeting\"\ndescription = \"\"\nenabled = true\n" ++
    "slug = \"greeting\"\n\n[hooks.executor]\ntype = \"shell\"\n" ++
    "command = \"echo hello\"\n"

/-- The crates, on the texts of the example. -/
def greetingCrates : Crates where
  parseDuration _ := none
  sequence _ _ := none
  sequence_mem := by
    intro shape items entries given
    cases given
  variantName _ _ := none
  checkers :=
    { regexError := fun _ => none
      parseTime := fun _ => none
      cronIsValid := fun _ => true }
  literals := { float := fun _ => False, datetime := fun _ => False }
  parse text :=
    if text = "" then some []
    else if text = greetingText then some greetingDocument
    else none
  print document := if document.isEmpty then "" else greetingText
  overlay := { entries := [] }
  fromJson _ := .error "missing field"
  serialize _ := .error "unsupported value"

theorem greeting_parse :
    greetingCrates.parse greetingText = some greetingDocument := by
  have differs : greetingText ≠ "" := by decide
  simp only [greetingCrates, if_neg differs, if_pos]

theorem greeting_print :
    greetingCrates.print greetingDocument = greetingText := by
  have filled : greetingDocument.isEmpty = false := by decide
  simp only [greetingCrates, filled]
  rfl

theorem greeting_loads :
    ∃ config, loadFrom greetingCrates (.ok greetingText.toUTF8) =
      .ok config := by
  have accepted :
      (loadDocument greetingCrates greetingDocument).toOption.isSome := by
    decide
  unfold loadFrom
  rw [fileText_toUTF8, Option.bind_some, greeting_parse]
  cases loaded : loadDocument greetingCrates greetingDocument with
  | ok config => exact ⟨config, loaded⟩
  | error error =>
      rw [loaded] at accepted
      cases accepted

theorem greeting_fits : (ConfigRequest.addHook greeting).Fits := by
  intro retries given
  cases given

def sendwordToml : ConfigWriter where
  path := { directory := "", name := "sendword.toml" }
  processId := 7

/-- A disk with one file. -/
def diskWith (path : Path) (content : ByteArray) : Disk Path where
  file? name := if name = path then some 0 else none
  bytes _ := content
  fresh := 1
  below := by
    intro name file named
    split at named <;> cases named
    exact Nat.one_pos
  alone := by
    intro name other file one two
    split at one <;> cases one
    split at two <;> cases two
    rename_i first second
    exact first.trans second.symm

theorem content?_diskWith (path : Path) (content : ByteArray) :
    (diskWith path content).content? path = some content := by
  simp [Disk.content?, diskWith]

/-! ### A file with a section and a hook -/

def deploy : HookFormData where
  name := "Deploy"
  slug := "deploy"
  executor := .shell "make deploy"

/-- Another greeting. -/
def welcome : HookFormData := { greeting with executor := .shell "echo hi" }

def deployText : String :=
  "[[hooks]]\nname = \"Deploy\"\ndescription = \"\"\nenabled = true\n" ++
    "slug = \"deploy\"\n\n[hooks.executor]\ntype = \"shell\"\n" ++
    "command = \"make deploy\"\n\n"

def welcomeText : String :=
  "[[hooks]]\nname = \"Greeting\"\ndescription = \"\"\nenabled = true\n" ++
    "slug = \"greeting\"\n\n[hooks.executor]\ntype = \"shell\"\n" ++
    "command = \"echo hi\"\n"

def serverText : String := "[server]\nport = 9000\n\n"

def serverDocument : Document :=
  [("server", .table [("port", .value (.integer 9000))])]

/-- The documents of the example, and the texts that say them. -/
def siteDocuments : List Document :=
  [[], greetingDocument, serverDocument,
    withHooks [buildHookTable greeting] serverDocument,
    withHooks [buildHookTable deploy] serverDocument,
    withHooks [buildHookTable deploy, buildHookTable greeting]
      serverDocument,
    withHooks [buildHookTable deploy, buildHookTable welcome]
      serverDocument]

def siteTexts : List String :=
  ["", greetingText, serverText, serverText ++ greetingText,
    serverText ++ deployText, serverText ++ deployText ++ greetingText,
    serverText ++ deployText ++ welcomeText]

def commandOf (table : Table) : Option String :=
  match table.lookup "executor" with
  | some (.table entries) =>
      match entries.lookup "command" with
      | some (.value (.string command)) => some command
      | _ => none
  | _ => none

/-- What tells these documents apart. -/
def outline (document : Document) : Bool × List (Option String) :=
  ((document.lookup "server").isSome,
    ((hookTables? document).getD []).map commandOf)

/-- The crates, on these texts, and an environment that sets a directory. -/
def siteCrates : Crates :=
  { greetingCrates with
    parse := fun text =>
      (siteTexts.idxOf? text).bind fun index => siteDocuments[index]?
    print := fun document =>
      (((siteDocuments.map outline).idxOf? (outline document)).bind
        fun index => siteTexts[index]?).getD ""
    overlay := {
      entries := [("logs", .dict [("dir", .string "/var/log/sendword")])] } }

section Site

variable {text : String} {document : Document}

theorem siteTexts_idxOf? :
    siteTexts.map siteTexts.idxOf? = (List.range 7).map some := by
  decide +kernel

theorem siteDocuments_print :
    siteDocuments.map siteCrates.print = siteTexts := rfl

theorem site_parse {index : Nat} (isText : siteTexts[index]? = some text)
    (isDocument : siteDocuments[index]? = some document) :
    siteCrates.parse text = some document := by
  have inside : index < 7 := (List.getElem?_eq_some_iff.mp isText).1
  have found := congrArg (·[index]?) siteTexts_idxOf?
  simp only [List.getElem?_map, isText, List.getElem?_range inside,
    Option.map_some, Option.some.injEq] at found
  change (siteTexts.idxOf? text).bind _ = _
  rw [found, Option.bind_some, isDocument]

theorem site_print {index : Nat}
    (isDocument : siteDocuments[index]? = some document)
    (isText : siteTexts[index]? = some text) :
    siteCrates.print document = text := by
  have printed := congrArg (·[index]?) siteDocuments_print
  simp only [List.getElem?_map, isDocument, isText, Option.map_some,
    Option.some.injEq] at printed
  exact printed

theorem site_of_parse (parsed : siteCrates.parse text = some document) :
    document ∈ siteDocuments := by
  obtain ⟨index, -, found⟩ := Option.bind_eq_some_iff.mp parsed
  exact List.mem_of_getElem? found

theorem site_parse_print (member : document ∈ siteDocuments) :
    siteCrates.parse (siteCrates.print document) = some document := by
  obtain ⟨index, isDocument⟩ := List.getElem?_of_mem member
  have printed := congrArg (·[index]?) siteDocuments_print
  simp only [List.getElem?_map, isDocument, Option.map_some] at printed
  exact site_parse printed.symm isDocument

theorem site_wellFormed {literals : Literals}
    (member : document ∈ siteDocuments) :
    Table.WellFormed literals document := by
  have hook (data : HookFormData) (without : data.retries = none) :
      Table.WellFormed literals (buildHookTable data) :=
    wellFormed_buildHookTable fun retries given => by
      rw [without] at given
      cases given
  have server : Table.WellFormed literals serverDocument :=
    WellKeyed.nil.insert "server" (WellKeyed.nil.insert "port"
      (.value (.integer (by decide) (by decide)))).item
  have one {document : Document} (data : HookFormData)
      (without : data.retries = none)
      (wellFormed : Table.WellFormed literals document) :
      Table.WellFormed literals
        (withHooks [buildHookTable data] document) := by
    refine wellFormed_withHooks wellFormed (by simp) fun table isHook => ?_
    rw [List.mem_singleton.mp isHook]
    exact hook data without
  have two (data : HookFormData) (without : data.retries = none) :
      Table.WellFormed literals (withHooks
        [buildHookTable deploy, buildHookTable data] serverDocument) := by
    refine wellFormed_withHooks server (by simp) fun table isHook => ?_
    rcases List.mem_cons.mp isHook with rfl | last
    · exact hook deploy rfl
    · rw [List.mem_singleton.mp last]
      exact hook data without
  simp only [siteDocuments, List.mem_cons, List.not_mem_nil, or_false]
    at member
  rcases member with rfl | rfl | rfl | rfl | rfl | rfl | rfl
  · exact .nil
  · exact one greeting rfl .nil
  · exact server
  · exact one greeting rfl server
  · exact one deploy rfl server
  · exact two greeting rfl
  · exact two welcome rfl

theorem site_lawful {printed : Document → Prop}
    (known : ∀ document, printed document → document ∈ siteDocuments) :
    siteCrates.Lawful printed where
  parse_empty := @site_parse _ _ 0 rfl rfl
  parse_wellFormed _ _ parsed := site_wellFormed (site_of_parse parsed)
  parse_print document made _ := site_parse_print (known document made)

end Site

def deployedSite : Site where
  disk := diskWith sendwordToml.path (serverText ++ deployText).toUTF8
  live := { server := { port := 9000 } }

def deployedConfig : AppConfig where
  server := { port := 9000 }
  logs := { dir := "/var/log/sendword" }
  hooks :=
    [{ name := "Deploy", slug := "deploy", executor := deploy.executor }]

theorem deployed_parse : siteCrates.parse (serverText ++ deployText) =
    some (withHooks [buildHookTable deploy] serverDocument) :=
  @site_parse _ _ 4 rfl rfl

/-- A file with a section and two hooks. -/
def greetedSite : Site where
  disk := diskWith sendwordToml.path
    (serverText ++ deployText ++ greetingText).toUTF8
  live := {}

def greetedConfig : AppConfig :=
  { deployedConfig with
    hooks := deployedConfig.hooks ++
      [{ name := "Greeting", slug := "greeting"
         executor := greeting.executor }] }

theorem greeted_parse :
    siteCrates.parse (serverText ++ deployText ++ greetingText) =
      some (withHooks [buildHookTable deploy, buildHookTable greeting]
        serverDocument) :=
  @site_parse _ _ 5 rfl rfl

/-- Nothing can be renamed. -/
def renameless : SiteOp → Fault
  | .file (.rename ..) => some 0
  | _ => none

/-- A change of an existing configuration file is all or nothing exactly
where it is safe. -/
theorem all_or_nothing_iff (apart : writer.path ≠ writer.tempPath)
    (lawful : crates.Lawful (Prints crates request
      ((readToString (configFile writer faults site)).getD "")))
    (fits : request.Fits)
    (present : (site.disk.content? writer.path).isSome) :
    let run := runAlone faults (request.body crates writer) site
    AllOrNothing crates writer faults request site run.1 run.2 ↔
      SafeChange crates writer faults site request := by
  intro run
  obtain ⟨bytes, found⟩ := Option.isSome_iff_exists.mp present
  cases request with
  | addHook data =>
      have added : addHookTable data [] =
          .ok (withHooks [buildHookTable data] []) := rfl
      refine (edit_iff apart lawful fits rfl found).trans ?_
      constructor
      · intro safe unreadable
        exact safe unreadable _ added
      · intro safe unreadable new edited
        cases added.symm.trans edited
        exact safe unreadable
  | updateHook slug data | removeHook slug =>
      refine (edit_iff apart lawful fits rfl found).trans ?_
      exact ⟨fun _ => trivial, fun _ _ new => nofun⟩
  | importConfig body => exact import_iff body found

def unfailing : SiteOp → Fault := fun _ => none

def emptySite : Site where
  disk := diskWith sendwordToml.path "".toUTF8
  live := {}

theorem configFile_diskWith {faults : SiteOp → Fault}
    (quiet : faults (.file (.read sendwordToml.path)) = none)
    (content : ByteArray) (live : AppConfig) :
    configFile sendwordToml faults
      { disk := diskWith sendwordToml.path content, live } = .ok content := by
  have found := content?_diskWith sendwordToml.path content
  unfold configFile
  rw [quiet]
  change ((Operation.read sendwordToml.path).perform none
    (diskWith sendwordToml.path content)).1 = .ok content
  rw [perform_read found]

theorem emptySite_file :
    configFile sendwordToml unfailing emptySite = .ok "".toUTF8 :=
  configFile_diskWith rfl _ _

/-- A second hook, which is written or left out where the last step
fails. -/
theorem all_or_nothing_deployed :
    AllOrNothing siteCrates sendwordToml unfailing (.addHook greeting)
        deployedSite
        (runAlone unfailing
          ((ConfigRequest.addHook greeting).body siteCrates sendwordToml)
          deployedSite).1
        (runAlone unfailing
          ((ConfigRequest.addHook greeting).body siteCrates sendwordToml)
          deployedSite).2 ∧
      AllOrNothing siteCrates sendwordToml renameless (.addHook greeting)
        deployedSite
        (runAlone renameless
          ((ConfigRequest.addHook greeting).body siteCrates sendwordToml)
          deployedSite).1
        (runAlone renameless
          ((ConfigRequest.addHook greeting).body siteCrates sendwordToml)
          deployedSite).2 := by
  have read {faults : SiteOp → Fault}
      (quiet : faults (.file (.read sendwordToml.path)) = none) :
      readToString (configFile sendwordToml faults deployedSite) =
        some (serverText ++ deployText) := by
    rw [deployedSite, configFile_diskWith quiet]
    exact fromUTF8?_toUTF8 _
  have lawful : siteCrates.Lawful (Prints siteCrates (.addHook greeting)
      (serverText ++ deployText)) := by
    refine site_lawful fun document prints => ?_
    obtain ⟨edit, old, isEdit, parsed, edited⟩ := prints
    cases isEdit
    cases deployed_parse.symm.trans parsed
    cases edited
    exact List.mem_of_getElem? (i := 5) rfl
  have present : (deployedSite.disk.content? sendwordToml.path).isSome :=
    Option.isSome_iff_exists.mpr ⟨_, content?_diskWith ..⟩
  constructor
  · refine (all_or_nothing_iff (by decide) ?_ greeting_fits present).mpr ?_
    · rw [read rfl]
      exact lawful
    · intro unreadable
      cases (read rfl).symm.trans unreadable
  · refine (all_or_nothing_iff (by decide) ?_ greeting_fits present).mpr ?_
    · rw [read rfl]
      exact lawful
    · intro unreadable
      cases (read rfl).symm.trans unreadable

/-- A port and a comment in Latin-1. -/
def latinBytes : ByteArray :=
  "# caf".toUTF8 ++ ⟨#[0xE9]⟩ ++ "\n[server]\nport = 9000\n".toUTF8

def latinSite : Site where
  disk := diskWith sendwordToml.path latinBytes
  live := { server := { port := 9000 } }

/-- The file counts as empty, and its section is gone. -/
theorem not_all_or_nothing :
    ¬ AllOrNothing greetingCrates sendwordToml unfailing (.addHook greeting)
      latinSite
      (runAlone unfailing
        ((ConfigRequest.addHook greeting).body greetingCrates sendwordToml)
        latinSite).1
      (runAlone unfailing
        ((ConfigRequest.addHook greeting).body greetingCrates sendwordToml)
        latinSite).2 := by
  intro holds
  have apart : sendwordToml.path ≠ sendwordToml.tempPath := by decide
  have notText : String.fromUTF8? latinBytes = none := by decide
  have unreadable :
      readToString (configFile sendwordToml unfailing latinSite) = none := by
    have read := perform_read (content?_diskWith sendwordToml.path latinBytes)
    unfold configFile
    rw [show unfailing (.file (.read sendwordToml.path)) = none from rfl]
    change readToString ((Operation.read sendwordToml.path).perform none
      (diskWith sendwordToml.path latinBytes)).1 = none
    rw [read]
    exact notText
  have saves : Saves greetingCrates sendwordToml unfailing latinSite
      (greetingCrates.print greetingDocument) := by
    rw [greeting_print]
    exact ⟨⟨rfl, rfl, rfl⟩, rfl, rfl, greeting_loads⟩
  have ran := @body_of_edit greetingCrates sendwordToml unfailing
    (.addHook greeting) _ latinSite rfl
  have parsed : greetingCrates.parse
      ((readToString (configFile sendwordToml unfailing latinSite)).getD "") =
        some [] := by
    rw [unreadable]
    rfl
  rcases @editHooks_alone greetingCrates sendwordToml unfailing latinSite
      apart (addHookTable greeting) with
    ⟨old, new, -, -, -, ok, -⟩ | ⟨fails, -⟩
  · refine holds.readable rfl unreadable ?_
    rw [ran, ok]
    rfl
  · exact fails [] greetingDocument parsed rfl saves

end Sendword
