import Sendword.Attempts
import Sendword.LogStream
import Sendword.LogTail

/-!
# Watching an execution

`run_with_retries` on one record and its log files, while `log_stream` and
other readers look at them.  A step is what happens between two points where
another task can run.
-/

namespace Sendword

open Concurrency

/-! ## The log files -/

inductive LogName where
  | stdout
  | stderr
  deriving DecidableEq, Repr

/-- The log files of an execution; one that does not exist yet is absent. -/
structure LogFiles where
  stdout : Option ByteArray := none
  stderr : Option ByteArray := none

namespace LogFiles

def get (files : LogFiles) : LogName → Option ByteArray
  | .stdout => files.stdout
  | .stderr => files.stderr

def bytes (files : LogFiles) (name : LogName) : ByteArray :=
  (files.get name).getD .empty

/-- Append to a file that is opened for it. -/
def append (files : LogFiles) (name : LogName) (more : ByteArray) :
    LogFiles :=
  match name with
  | .stdout => { files with stdout := some (files.bytes .stdout ++ more) }
  | .stderr => { files with stderr := some (files.bytes .stderr ++ more) }

/-- What an operation of the runner does to the files.  A marker is appended
to the files that exist. -/
def after (files : LogFiles) :
    (operation : Op) → operation.Answer → LogFiles
  | .prepareLogFiles _, true =>
      (files.append .stdout .empty).append .stderr .empty
  | .appendRetryMarker _ attempt, _ =>
      let marker := s!"\n--- RETRY ATTEMPT {attempt} ---\n".toUTF8
      { stdout := files.stdout.map (· ++ marker)
        stderr := files.stderr.map (· ++ marker) }
  | _, _ => files

end LogFiles

/-- The operations during which a command writes its output. -/
def Op.isCommand : Op → Bool
  | .runProcess _ | .sendRequest _ => true
  | _ => false

/-! ## `log_stream` -/

/-- What the stream is opened with. -/
structure StreamConfig where
  serverEnv : String → Option String
  replaceMatches : (pattern : String) → List Char → List Char
  masking : MaskingConfig
  hookEnv : List (String × String)

namespace StreamConfig

variable (config : StreamConfig)

def masker : LogStreamMasker :=
  .new config.serverEnv config.masking config.hookEnv

def maskAndEscape (text : List Char) : List Char :=
  Sendword.maskAndEscape config.serverEnv config.replaceMatches text
    config.masking config.hookEnv

def deferLiveStreaming : Bool :=
  config.masking.compiledPatterns ≠ []

end StreamConfig

/-- Where the stream is; a status is the one of its `done` event. -/
inductive StreamPhase where
  | opening
  | refused
  /-- The log files are sent whole.  Without a status the execution had ended
  when the stream was opened, and the record is read once more. -/
  | file (name : LogName) (status : Option String)
  | lastStatus
  | deferred
  | tail (name : LogName)
  | poll
  | drain (name : LogName) (status : String)
  | closed (status : String)
  deriving DecidableEq, Repr

/-- One log as it is tailed. -/
structure TailedLog where
  tail : LogTail := {}
  masker : LogStreamMasker

structure LogStream where
  phase : StreamPhase := .opening
  stdout : TailedLog
  stderr : TailedLog
  sent : List (LogName × List Char) := []

namespace LogStream

def log (stream : LogStream) : LogName → TailedLog
  | .stdout => stream.stdout
  | .stderr => stream.stderr

def setLog (stream : LogStream) (name : LogName) (log : TailedLog) :
    LogStream :=
  match name with
  | .stdout => { stream with stdout := log }
  | .stderr => { stream with stderr := log }

/-- Send an event, if there is one. -/
def yield (stream : LogStream) (name : LogName)
    (data : Option (List Char)) : LogStream :=
  { stream with sent := stream.sent ++ (data.map (name, ·)).toList }

/-- `read_log_file`, masked: nothing of a file that is missing, empty or not
UTF-8. -/
def maskedLogFile (config : StreamConfig) (file : Option ByteArray) :
    Option (List Char) :=
  ((file.bind String.fromUTF8?).filter (· ≠ "")).map fun contents =>
    config.maskAndEscape contents.toList

/-- Read what is new and push it.  A file that gives nothing ends the
drain. -/
def readAndPush (stream : LogStream) (files : LogFiles) (name : LogName) :
    Option (Bool × LogStream) :=
  let log := stream.log name
  match log.tail.readNewText (files.get name) none with
  | (none, tail) => some (false, stream.setLog name { log with tail })
  | (some text, tail) =>
      (log.masker.push text.toList).map fun pushed =>
        (true, (stream.setLog name { tail, masker := pushed.2 }).yield name
          pushed.1)

def flush (stream : LogStream) (name : LogName) : LogStream :=
  let log := stream.log name
  (stream.setLog name { log with masker := log.masker.flush.2 }).yield name
    log.masker.flush.1

/-- One step of the stream; `found` is what `get_by_id` would return. -/
def step (config : StreamConfig) (files : LogFiles)
    (found : Option Execution) (stream : LogStream) : Option LogStream :=
  match stream.phase with
  | .opening =>
      match found with
      | none => some { stream with phase := .refused }
      | some record =>
          some { stream with
            phase :=
              if record.status.isTerminal then .file .stdout none
              else if config.deferLiveStreaming then .deferred
              else .tail .stdout }
  | .refused => none
  | .file .stdout status =>
      some { stream.yield .stdout (maskedLogFile config files.stdout) with
        phase := .file .stderr status }
  | .file .stderr status =>
      some { stream.yield .stderr (maskedLogFile config files.stderr) with
        phase := match status with
          | some status => .closed status
          | none => .lastStatus }
  | .lastStatus =>
      some { stream with
        phase := .closed ((found.map (·.status.text)).getD "unknown") }
  | .deferred =>
      match found with
      | some record =>
          if record.status.isTerminal then
            some { stream with
              phase := .file .stdout (some record.status.text) }
          else some stream
      | none => some stream
  | .tail name =>
      (stream.readAndPush files name).map fun read =>
        { read.2 with
          phase := match name with
            | .stdout => .tail .stderr
            | .stderr => .poll }
  | .poll =>
      match found with
      | some record =>
          if record.status.isTerminal then
            some { stream with phase := .drain .stdout record.status.text }
          else some { stream with phase := .tail .stdout }
      | none => some { stream with phase := .tail .stdout }
  | .drain name status =>
      (stream.readAndPush files name).map fun read =>
        if read.1 then read.2
        else
          { read.2.flush name with
            phase := match name with
              | .stdout => .drain .stderr status
              | .stderr => .closed status }
  | .closed _ => none

/-- The steps that look at the record. -/
def asks (stream : LogStream) : Bool :=
  match stream.phase with
  | .opening | .lastStatus | .deferred | .poll => true
  | _ => false

end LogStream

/-! ## The runner and the readers -/

structure Watch where
  world : World
  files : LogFiles := {}
  runner : Async ExecutionResult
  stream : LogStream
  /-- The records that readers were given so far. -/
  observed : List Execution := []

namespace Watch

/-- What happens next. -/
inductive Turn (id : String) where
  /-- The runner performs its next operation.  Others have moved the world
  before, and spared the record. -/
  | runner (choice : Choice) (others : Sparing (recordsOf id))
  /-- The command that runs writes to a log. -/
  | output (name : LogName) (bytes : ByteArray)
  | reader
  | stream

variable {id : String}

def step (config : StreamConfig) (watch : Watch) :
    Turn id → Option Watch
  | .runner choice others =>
      match watch.runner with
      | .pure _ => none
      | .perform operation next =>
          (amid (recordsOf id) perform operation (choice, others)
            watch.world).map fun performed =>
              { watch with
                world := performed.2
                files := watch.files.after operation performed.1
                runner := next performed.1 }
  | .output name bytes =>
      match watch.runner.next? with
      | some operation =>
          if operation.isCommand then
            some { watch with files := watch.files.append name bytes }
          else none
      | none => none
  | .reader =>
      let found := watch.world.db.execution? id
      some { watch with observed := watch.observed ++ found.toList }
  | .stream =>
      let found := watch.world.db.execution? id
      (watch.stream.step config watch.files found).map fun stream =>
        { watch with
          stream
          observed :=
            if watch.stream.asks then watch.observed ++ found.toList
            else watch.observed }

/-- A run whose turns all meet a condition. -/
inductive Reaches (config : StreamConfig)
    (admits : Watch → Turn id → Prop) (start : Watch) : Watch → Prop where
  | refl : Reaches config admits start start
  | step {watch after : Watch} {turn : Turn id} :
      Reaches config admits start watch →
      admits watch turn →
      watch.step config turn = some after →
      Reaches config admits start after

/-- Before the first attempt, and before the stream is opened. -/
def start (config : StreamConfig) (context : ExecutionContext)
    (retries : EffectiveRetryConfig) (world : World) : Watch where
  world
  runner := runWithRetries context retries
  stream :=
    { stdout := { masker := config.masker }
      stderr := { masker := config.masker } }

end Watch

end Sendword
