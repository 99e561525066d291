import Mathlib.Data.List.DropRight
import Sendword.Concurrency.Discipline
import Sendword.Concurrency.Trace
import Sendword.Config
import Sendword.Files.ObjectStore
import Sendword.TriggerRules

/-!
# Backups

`create_backup` and `apply_retention` on a bucket that other programs may use
as well.  A backup is named by the second in which it is made.
-/

namespace Sendword

open Concurrency Files

/-- How `chrono` prints an instant, given in nanoseconds: `now_utc_filename`
and `to_rfc3339`. -/
structure TimeFormats where
  filename : Int → String
  rfc3339 : Int → String

inductive BackupError where
  | s3 | db | io
  deriving DecidableEq, Repr

/-- An object of the bucket; `created` keeps which ones `create_backup`
put there. -/
structure StoredObject where
  data : List UInt8
  lastModified : String
  created : Bool
  deriving DecidableEq, Repr

/-- A summary of an object stored in S3. -/
structure BackupEntry where
  key : String
  size : Nat
  lastModified : String
  deriving DecidableEq, Repr

/-! ## `S3Client` -/

namespace S3Client

/-- `str::trim_end_matches('/')`. -/
def trimEnd (text : String) : String :=
  String.ofList (text.toList.rdropWhile (· == '/'))

/-- Build the full object key by prepending the configured prefix. -/
def key (config : BackupConfig) (name : String) : String :=
  if config.keyPrefix.isEmpty then name
  else trimEnd config.keyPrefix ++ "/" ++ name

/-- The prefix that a listing asks for. -/
def listed (config : BackupConfig) : String :=
  if config.keyPrefix.isEmpty then "" else trimEnd config.keyPrefix ++ "/"

/-- The key of a listed object without the common prefix. -/
def display (config : BackupConfig) (key : String) : String :=
  let start := listed config
  if ¬ start.isEmpty ∧ start.toList.isPrefixOf key.toList then
    String.ofList (key.toList.drop start.length)
  else key

def entry (config : BackupConfig) (object : String × StoredObject) :
    BackupEntry where
  key := display config object.1
  size := object.2.data.length
  lastModified := object.2.lastModified

end S3Client

/-! ## Operations -/

inductive BackupOp where
  | newClient
  /-- A temporary directory and `VACUUM INTO`. -/
  | snapshot
  | nowUtcFilename
  /-- The tarball of configuration and snapshot, and its bytes. -/
  | bundle (tarballName : String)
  | putObject (key : String) (data : List UInt8)
  | listObjects (start : String)
  | now
  | deleteObject (key : String)
  deriving DecidableEq, Repr

abbrev BackupOp.Answer : BackupOp → Type
  | .newClient => Except BackupError Unit
  | .snapshot => Except BackupError Unit
  | .nowUtcFilename => String
  | .bundle _ => Except BackupError (List UInt8)
  | .putObject .. => Except BackupError Unit
  | .listObjects _ => Except BackupError (List (String × StoredObject))
  | .now => Int
  | .deleteObject _ => Except BackupError Unit

abbrev Backups (α : Type) := Program BackupOp.Answer α

def onBucket (operation : BackupOp) : Backups operation.Answer :=
  @Program.op _ BackupOp.Answer operation

section Programs

variable (formats : TimeFormats) (config : BackupConfig)

/-- The name of a backup made at the time of the stamp. -/
def tarballName (stamp : String) : String := "backup-" ++ stamp ++ ".tar.gz"

def uploadBackup (name : String) : Backups (Except BackupError String) := do
  let bundled : Except BackupError (List UInt8) ← onBucket (.bundle name)
  match bundled with
  | .error error => return .error error
  | .ok data =>
      let stored : Except BackupError Unit ←
        onBucket (.putObject (S3Client.key config name) data)
      return stored.map fun _ => name

/-- Create a backup: snapshot DB via VACUUM INTO, bundle with config, upload
to S3. -/
def createBackup : Backups (Except BackupError String) := do
  let client : Except BackupError Unit ← onBucket .newClient
  match client with
  | .error error => return .error error
  | .ok () =>
      let snapshot : Except BackupError Unit ← onBucket .snapshot
      match snapshot with
      | .error error => return .error error
      | .ok () =>
          let stamp : String ← onBucket .nowUtcFilename
          uploadBackup config (tarballName stamp)

/-- `now - max_age`, printed; `none` where `chrono` panics because it cannot
represent the instant. -/
def cutoffText (now : Int) (maxAge : Duration) : Option String :=
  let cutoff := now - (chronoDuration maxAge).getD 0
  if chronoMin * 1000000000 ≤ cutoff then some (formats.rfc3339 cutoff)
  else none

/-- The oldest entries beyond `max_count`. -/
def surplus (maxCount : Option Nat) (entries : List BackupEntry) :
    List String :=
  match maxCount with
  | none => []
  | some maxCount =>
      (entries.take (entries.length - maxCount)).map (·.key)

/-- The keys to delete with those of the entries before the cutoff. -/
def withAged (cutoff : String) (entries : List BackupEntry)
    (toDelete : List String) : List String :=
  entries.foldl (fun toDelete entry =>
    if entry.lastModified < cutoff ∧ entry.key ∉ toDelete then
      toDelete ++ [entry.key]
    else toDelete) toDelete

def deleteAll : List String → Backups (Except BackupError Unit)
  | [] => return .ok ()
  | key :: keys => do
      let deleted : Except BackupError Unit ←
        onBucket (.deleteObject (S3Client.key config key))
      match deleted with
      | .error error => return .error error
      | .ok () => deleteAll keys

/-- The deletions that a listing leads to. -/
def retain (entries : List BackupEntry) :
    Backups (Except BackupError Unit) := do
  -- oldest first; `sort_by` is stable
  let entries := entries.mergeSort fun first second =>
    decide (first.lastModified ≤ second.lastModified)
  let toDelete := surplus config.retention.maxCount entries
  match config.retention.maxAge with
  | none => deleteAll config toDelete
  | some maxAge =>
      let now : Int ← onBucket .now
      match cutoffText formats now maxAge with
      | none => return .error .io
      | some cutoff => deleteAll config (withAged cutoff entries toDelete)

/-- Apply retention policy: delete backups exceeding max_count or
max_age. -/
def applyRetention : Backups (Except BackupError Unit) := do
  if config.retention.maxCount = none ∧ config.retention.maxAge = none then
    return .ok ()
  else
    let client : Except BackupError Unit ← onBucket .newClient
    match client with
    | .error error => return .error error
    | .ok () =>
        let listing : Except BackupError (List (String × StoredObject)) ←
          onBucket (.listObjects (S3Client.listed config))
        match listing with
        | .error error => return .error error
        | .ok objects =>
            retain formats config (objects.map (S3Client.entry config))

end Programs

/-! ## Runs -/

inductive BackupJob where
  | createBackup
  | applyRetention
  deriving DecidableEq, Repr

/-- What the surroundings decide about an operation: the time, whether it
fails, and whether a failed request took effect all the same. -/
structure BackupChoice where
  time : Int := 0
  fault : Option BackupError := none
  applied : Bool := true
  data : List UInt8 := []
  modified : String := ""
  deriving DecidableEq, Repr

def BackupChoice.outcome {α : Type} (choice : BackupChoice) (value : α) :
    Except BackupError α :=
  match choice.fault with
  | none => .ok value
  | some error => .error error

/-- A request changes the bucket unless it fails without effect. -/
def BackupChoice.takesEffect (choice : BackupChoice) : Bool :=
  choice.fault.isNone || choice.applied

/-- The bucket, and the keys of the backups that are being made; nothing
reads the latter. -/
structure BackupSite where
  bucket : ObjectStore StoredObject
  underway : List String

def BackupOp.perform (formats : TimeFormats) (config : BackupConfig)
    (choice : BackupChoice) (site : BackupSite) :
    (operation : BackupOp) → operation.Answer × BackupSite
  | .newClient => (choice.outcome (), site)
  | .snapshot => (choice.outcome (), site)
  | .nowUtcFilename =>
      let stamp := formats.filename choice.time
      (stamp, { site with
        underway := S3Client.key config (tarballName stamp) ::
          site.underway })
  | .bundle name =>
      (choice.outcome choice.data,
        if choice.fault.isNone then site
        else { site with
          underway := site.underway.erase (S3Client.key config name) })
  | .putObject key data =>
      (choice.outcome (), {
        bucket :=
          if choice.takesEffect then
            site.bucket.put key
              { data, lastModified := choice.modified, created := true }
          else site.bucket
        underway := site.underway.erase key })
  | .listObjects start => (choice.outcome (site.bucket.under start), site)
  | .now => (choice.time, site)
  | .deleteObject key =>
      (choice.outcome (), { site with
        bucket :=
          if choice.takesEffect then site.bucket.delete key
          else site.bucket })

def backups (formats : TimeFormats) (config : BackupConfig) :
    Machine BackupSite BackupChoice BackupJob BackupOp.Answer
      (Except BackupError (Option String)) where
  body
    | .createBackup => (createBackup config).bind fun result =>
        .pure (result.map some)
    | .applyRetention => (applyRetention formats config).bind fun result =>
        .pure (result.map fun _ => none)
  perform operation choice site :=
    some (operation.perform formats config choice site)
  forks _ := none

end Sendword
