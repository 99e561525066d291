import Sendword.Concurrency.Alone
import Sendword.Files.Operation
import Sendword.HookTable
import Sendword.Loading

/-!
# Changing the configuration

`ConfigWriter` edits the configuration file through a temporary file that it
loads and then renames; `import_config` writes the file in place and reloads
it.
-/

namespace Sendword

open Concurrency Files Toml

/-! ## Operations -/

structure Path where
  directory : String
  name : String
  deriving DecidableEq, Repr

inductive SiteOp where
  | file (operation : Operation Path)
  | storeConfig (config : AppConfig)

abbrev SiteOp.Answer : SiteOp → Type
  | .file operation => operation.Answer
  | .storeConfig _ => Unit

/-- The files, and the live configuration in `AppState`. -/
structure Site where
  disk : Disk Path
  live : AppConfig

def SiteOp.perform (operation : SiteOp) (fault : Fault) (site : Site) :
    operation.Answer × Site :=
  match operation with
  | .file operation =>
      let (answer, disk) := operation.perform fault site.disk
      (answer, { site with disk })
  | .storeConfig config => ((), { site with live := config })

/-- Code that works on the configuration file. -/
abbrev Edit (α : Type) := Program SiteOp.Answer α

def onFile (operation : Operation Path) : Edit operation.Answer :=
  @Program.op _ SiteOp.Answer (.file operation)

/-! ## Edits of a document -/

inductive WriteError where
  | io (error : IoError)
  | parse
  | hookNotFound (slug : String)
  | slugConflict (slug : String)
  | validation (error : ConfigError)
  deriving DecidableEq, Repr

/-- `doc.get("hooks").and_then(|v| v.as_array_of_tables())`. -/
def hookTables? (document : Document) : Option (List Table) :=
  match document.lookup "hooks" with
  | some (.arrayOfTables tables) => some tables
  | _ => none

/-- `table.get("slug").and_then(|v| v.as_str()) == Some(slug)`. -/
def hasSlug (slug : String) (table : Table) : Bool :=
  match table.lookup "slug" with
  | some (.value (.string text)) => text == slug
  | _ => false

def findHookIndex (document : Document) (slug : String) :
    Except WriteError (List Table × Nat) :=
  match hookTables? document with
  | none => .error (.hookNotFound slug)
  | some tables =>
      match tables.findIdx? (hasSlug slug) with
      | some index => .ok (tables, index)
      | none => .error (.hookNotFound slug)

def withHooks (tables : List Table) (document : Document) : Document :=
  insert "hooks" (.arrayOfTables tables) document

/-- A `hooks` item of another form is left as it is. -/
def addHookTable (data : HookFormData) (document : Document) :
    Except WriteError Document :=
  if ((hookTables? document).getD []).any (hasSlug data.slug) then
    .error (.slugConflict data.slug)
  else
    match document.lookup "hooks" with
    | none => .ok (withHooks [buildHookTable data] document)
    | some (.arrayOfTables tables) =>
        .ok (withHooks (tables ++ [buildHookTable data]) document)
    | some _ => .ok document

def updateHookTable (slug : String) (data : HookFormData)
    (document : Document) : Except WriteError Document :=
  match findHookIndex document slug with
  | .error error => .error error
  | .ok (tables, index) =>
      .ok (withHooks (tables.modify index fun table =>
        applyHookFields table data) document)

/-- If no hooks remain, the key is removed. -/
def removeHookTable (slug : String) (document : Document) :
    Except WriteError Document :=
  match findHookIndex document slug with
  | .error error => .error error
  | .ok (tables, index) =>
      let tables := tables.eraseIdx index
      if tables.isEmpty then .ok (remove "hooks" document)
      else .ok (withHooks tables document)

/-! ## The writer -/

structure ConfigWriter where
  path : Path
  processId : Nat
  deriving DecidableEq, Repr

/-- `.sendword-{pid}.tmp` beside the configuration file: one name for all
calls of a process. -/
def ConfigWriter.tempPath (writer : ConfigWriter) : Path :=
  let id := writer.processId
  { writer.path with name := s!".sendword-{id}.tmp" }

variable (crates : Crates) (writer : ConfigWriter)

/-- `std::fs::read_to_string`, of the bytes read. -/
def readToString : Except IoError ByteArray → Option String
  | .ok bytes => String.fromUTF8? bytes
  | .error _ => none

/-- Read and parse the TOML document.  A file that cannot be read counts as
empty. -/
def readDocument : Edit (Except WriteError Document) := do
  let file : Except IoError ByteArray ← onFile (.read writer.path)
  match crates.parse ((readToString file).getD "") with
  | some document => return .ok document
  | none => return .error .parse

/-- `tempfile_in`. -/
def tempfileIn (content : String) : Edit (Except IoError Unit) := do
  let created : Except IoError Nat ← onFile (.create writer.tempPath)
  match created with
  | .error error => return .error error
  | .ok file =>
      let written : Except IoError Unit ←
        onFile (.write file content.toUTF8)
      match written with
      | .error error => return .error error
      | .ok () => onFile (.sync file)

/-- Load the temporary file, then rename it into place or remove it. -/
def installTemp : Edit (Except WriteError Unit) := do
  let file : Except IoError ByteArray ← onFile (.read writer.tempPath)
  match loadFrom crates file with
  | .error error =>
      let _ : Except IoError Unit ← onFile (.remove writer.tempPath)
      return .error (.validation error)
  | .ok _ =>
      let renamed : Except IoError Unit ←
        onFile (.rename writer.tempPath writer.path)
      match renamed with
      | .error error => return .error (.io error)
      | .ok () => return .ok ()

def validateAndWrite (document : Document) :
    Edit (Except WriteError Unit) := do
  let serialized := crates.print document
  match ← tempfileIn writer serialized with
  | .error error => return .error (.io error)
  | .ok () => installTemp crates writer

/-- The three public mutations differ in the edit of the document. -/
def editHooks (edit : Document → Except WriteError Document) :
    Edit (Except WriteError Unit) := do
  match ← readDocument crates writer with
  | .error error => return .error error
  | .ok document =>
      match edit document with
      | .error error => return .error error
      | .ok document => validateAndWrite crates writer document

def addHook (data : HookFormData) : Edit (Except WriteError Unit) :=
  editHooks crates writer (addHookTable data)

def updateHook (slug : String) (data : HookFormData) :
    Edit (Except WriteError Unit) :=
  editHooks crates writer (updateHookTable slug data)

def removeHook (slug : String) : Edit (Except WriteError Unit) :=
  editHooks crates writer (removeHookTable slug)

/-! ## Import -/

inductive ImportError where
  | invalid (message : String)
  | rejected (error : ConfigError)
  | serialize (message : String)
  | write (error : IoError)
  | reload (error : ConfigError)
  deriving DecidableEq, Repr

def ImportError.status : ImportError → Nat
  | .invalid _ | .rejected _ => 422
  | .serialize _ | .write _ | .reload _ => 500

/-- `AppState::reload_config`. -/
def reloadConfig : Edit (Except ConfigError Unit) := do
  let file : Except IoError ByteArray ← onFile (.read writer.path)
  match loadFrom crates file with
  | .error error => return .error error
  | .ok config =>
      let _ : Unit ← @Program.op _ SiteOp.Answer (.storeConfig config)
      return .ok ()

/-- `std::fs::write`. -/
def writeFile (content : String) : Edit (Except IoError Unit) := do
  let created : Except IoError Nat ← onFile (.create writer.path)
  match created with
  | .error error => return .error error
  | .ok file => onFile (.write file content.toUTF8)

def importConfig (body : Json) : Edit (Except ImportError Unit) := do
  match crates.fromJson body with
  | .error message => return .error (.invalid message)
  | .ok config =>
      match config.validate crates.checkers with
      | .error error => return .error (.rejected error)
      | .ok () =>
          match crates.serialize config with
          | .error message => return .error (.serialize message)
          | .ok text =>
              match ← writeFile writer text with
              | .error error => return .error (.write error)
              | .ok () =>
                  match ← reloadConfig crates writer with
                  | .error error => return .error (.reload error)
                  | .ok () => return .ok ()

end Sendword
