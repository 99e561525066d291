import Sendword.LogWatch
import Sendword.RetryLaw

/-!
# Ended means ended

What a reader may take for final: a record whose status is terminal, and the
`done` event of a stream.
-/

namespace Sendword

open Concurrency

/-! ## The runner and a record that has ended -/

section Runner

variable {α β : Type} {id : String} {record : Execution}
  {records : List Execution} {context : ExecutionContext}
  {retries : EffectiveRetryConfig}

/-- The operations between the end of an attempt and the next one. -/
def Op.betweenAttempts : Op → Bool
  | .sleep .. | .appendRetryMarker .. => true
  | .sql (.execution (.update (.incrementRetryCount _))) => true
  | .sql (.execution (.update (.resetToPending _))) => true
  | _ => false

/-- The program runs on while the record has not ended, or is put back for
another attempt, and comes to a value and a record with `post`. -/
def EndsWhile (id : String) (post : α → Execution → Prop) :
    Async α → List Execution → Prop
  | .pure value, records => ∃ record, records = [record] ∧ post value record
  | .perform operation next, records =>
      (∃ record, records = [record] ∧
        (record.status.isTerminal = true →
          operation.betweenAttempts = true)) ∧
        ∀ choice world answer after, recordsOf id world = records →
          perform operation choice world = some (answer, after) →
          EndsWhile id post (next answer) (recordsOf id after)

variable {post : α → Execution → Prop}

theorem EndsWhile.bind {program : Async α} {rest : α → Async β}
    {later : β → Execution → Prop}
    (ends : EndsWhile id post program records)
    (goesOn : ∀ value record, post value record →
      EndsWhile id later (rest value) [record]) :
    EndsWhile id later (program.bind rest) records := by
  induction program generalizing records with
  | pure value =>
      obtain ⟨record, rfl, holds⟩ := ends
      exact goesOn value record holds
  | perform operation next ih =>
      refine ⟨ends.1, ?_⟩
      intro choice world answer after there performed
      exact ih answer (ends.2 choice world answer after there performed)

theorem endsWhile_return {value : α}
    (holds : post value record) :
    EndsWhile id post (.pure value : Async α) [record] :=
  ⟨record, rfl, holds⟩

/-- An operation that changes no records. -/
theorem endsWhile_quiet {operation : Op}
    (quiet : ∀ db, operation.db db = db)
    (spared : record.status.isTerminal = true →
      operation.betweenAttempts = true) :
    EndsWhile id (fun _ left => left = record) (op operation) [record] := by
  refine ⟨⟨record, rfl, spared⟩, ?_⟩
  intro choice world answer after there performed
  refine ⟨record, ?_, rfl⟩
  rw [recordsOf, perform_db performed, quiet]
  exact there

theorem endsWhile_update {change : ExecutionUpdate}
    (about : ∀ row, change.matches? row = true → row.id = id)
    (spared : record.status.isTerminal = true →
      (Op.sql (.execution (.update change))).betweenAttempts = true) :
    EndsWhile id (fun rows left =>
        rows = .ok (if change.matches? record then 1 else 0) ∧
          left = change.apply record)
      (sql (.execution (.update change))) [record] := by
  refine ⟨⟨record, rfl, spared⟩, ?_⟩
  intro choice world answer after there performed
  have runs : RunsAmong id (sql (.execution (.update change))) world
      [⟨.sql (.execution (.update change)), answer⟩] answer after :=
    among_op.mpr ⟨rfl, (choice, .still _), performed⟩
  obtain ⟨-, answered, left⟩ := among_update about there runs
  exact ⟨_, left, answered, rfl⟩

/-- The transitions that note the time. -/
theorem endsWhile_transition {status : String}
    {change : Timestamp → ExecutionUpdate}
    (about : ∀ time row, (change time).matches? row = true → row.id = id)
    (matched : ∀ time, (change time).matches? record = true)
    (running : record.status.isTerminal = false) :
    EndsWhile id (fun result left => result = .ok () ∧
        ∃ time, left = (change time).set record)
      (do
        let time ← nowUtc
        let rows ← sql (.execution (.update (change time)))
        return expectRow id status rows) [record] := by
  have spared {operation : Op} (terminal : record.status.isTerminal = true) :
      operation.betweenAttempts = true := by
    rw [running] at terminal
    cases terminal
  have clock : EndsWhile id (fun _ left => left = record)
      nowUtc [record] := by
    apply (endsWhile_quiet (fun _ => rfl) spared).bind
    rintro instant left rfl
    exact endsWhile_return rfl
  apply clock.bind
  rintro time left rfl
  apply (endsWhile_update (about time) spared).bind
  rintro rows after ⟨rfl, rfl⟩
  apply endsWhile_return
  rw [if_pos (matched time), ExecutionUpdate.apply_of_matches (matched time)]
  exact ⟨rfl, time, rfl⟩

/-- A command that leaves the record to its caller. -/
theorem EndsWhile.runCommand {command : Async ExecutionResult}
    (owns : record.id = context.executionId)
    (pending : record.status = .pending)
    (commands : ∀ running : Execution, running.status = .running →
      EndsWhile context.executionId (fun _ left => left = running) command
        [running]) :
    EndsWhile context.executionId
      (fun _ left => left.id = context.executionId)
      (runCommand context command) [record] := by
  have isOpen : record.status.isTerminal = false := by
    rw [pending]
    rfl
  apply (endsWhile_quiet (fun _ => rfl) (by simp [isOpen])).bind
  rintro prepared left rfl
  cases prepared with
  | false => exact endsWhile_return owns
  | true =>
      have marks := @endsWhile_transition context.executionId left
        "pending" (.markRunning context.executionId)
        (by
          intro time row hit
          simp only [ExecutionUpdate.matches?, Bool.and_eq_true,
            beq_iff_eq] at hit
          exact hit.1)
        (by
          intro time
          simp [ExecutionUpdate.matches?, owns, pending]) isOpen
      apply marks.bind
      rintro marked running ⟨rfl, time, rfl⟩
      apply (commands _ rfl).bind
      rintro result left rfl
      have completes := @endsWhile_transition context.executionId
        (ExecutionUpdate.set (.markRunning context.executionId time) left)
        "running"
        (.markCompleted context.executionId result.status result.exitCode)
        (by
          intro time row hit
          simp only [ExecutionUpdate.matches?, Bool.and_eq_true,
            beq_iff_eq] at hit
          exact hit.1)
        (by
          intro time
          simp [ExecutionUpdate.matches?, ExecutionUpdate.set, owns]) rfl
      apply completes.bind
      rintro completed ended ⟨-, time, rfl⟩
      exact endsWhile_return owns

/-- A command that is one operation. -/
theorem endsWhile_command {operation : Op}
    {outcome : operation.Answer → ExecutionResult}
    (quiet : ∀ db, operation.db db = db)
    (isRunning : record.status = .running) :
    EndsWhile id (fun _ left => left = record)
      (do
        let answer ← op operation
        return outcome answer) [record] := by
  apply (endsWhile_quiet quiet (by simp [isRunning,
    ExecutionStatus.isTerminal])).bind
  rintro answer left rfl
  exact endsWhile_return rfl

/-- An attempt on a pending record. -/
theorem endsWhile_runExecutor
    (owns : record.id = context.executionId)
    (pending : record.status = .pending) :
    EndsWhile context.executionId
      (fun _ left => left.id = context.executionId)
      (runExecutor context) [record] := by
  unfold runExecutor
  split
  · exact .runCommand owns pending fun _ isRunning =>
      endsWhile_command (fun _ => rfl) isRunning
  · exact .runCommand owns pending fun _ isRunning =>
      endsWhile_command (fun _ => rfl) isRunning
  · exact .runCommand owns pending fun _ isRunning =>
      endsWhile_command (fun _ => rfl) isRunning

theorem endsWhile_backOff {delay : Duration} :
    EndsWhile id (fun _ left => left = record) (backOff context delay)
      [record] := by
  unfold backOff
  split
  · exact endsWhile_return rfl
  · exact endsWhile_quiet (fun _ => rfl) fun _ => rfl

theorem endsWhile_incrementRetryCount :
    EndsWhile id (fun _ left => left.id = record.id)
      (incrementRetryCount id) [record] := by
  have about (row : Execution)
      (hit : (ExecutionUpdate.incrementRetryCount id).matches? row = true) :
      row.id = id := by
    simpa [ExecutionUpdate.matches?] using hit
  apply (endsWhile_update about fun _ => rfl).bind
  rintro rows left ⟨-, rfl⟩
  exact endsWhile_return (ExecutionUpdate.apply_id _ _)

theorem endsWhile_resetToPending (owns : record.id = id) :
    EndsWhile id (fun result left =>
        result = .ok () ∧ left.id = id ∧ left.status = .pending)
      (resetToPending id) [record] := by
  have about (row : Execution)
      (hit : (ExecutionUpdate.resetToPending id).matches? row = true) :
      row.id = id := by
    simpa [ExecutionUpdate.matches?] using hit
  have matched : (ExecutionUpdate.resetToPending id).matches? record =
      true := by
    simp [ExecutionUpdate.matches?, owns]
  apply (endsWhile_update about fun _ => rfl).bind
  rintro rows left ⟨rfl, rfl⟩
  rw [if_pos matched, ExecutionUpdate.apply_of_matches matched]
  exact endsWhile_return ⟨rfl, owns, rfl⟩

/-- The record is put back before each further attempt. -/
theorem endsWhile_retryLoop {remaining attempt : Nat}
    {result : ExecutionResult} (owns : record.id = context.executionId) :
    EndsWhile context.executionId (fun _ _ => True)
      (retryLoop context retries remaining attempt result) [record] := by
  induction remaining generalizing attempt result record with
  | zero => exact endsWhile_return trivial
  | succ remaining ih =>
      unfold retryLoop
      split
      · apply endsWhile_backOff.bind
        rintro - left rfl
        apply (endsWhile_quiet (fun _ => rfl) fun _ => rfl).bind
        rintro - left rfl
        apply endsWhile_incrementRetryCount.bind
        intro counted left same
        apply (endsWhile_resetToPending (same.trans owns)).bind
        rintro reset pending ⟨rfl, owned, isPending⟩
        apply (endsWhile_runExecutor owned isPending).bind
        intro result left owned
        exact ih owned
      · exact endsWhile_return trivial

/-- A record that has ended is left alone by the runner, but between two
attempts. -/
theorem endsWhile_runWithRetries
    (owns : record.id = context.executionId)
    (pending : record.status = .pending) :
    EndsWhile context.executionId (fun _ _ => True)
      (runWithRetries context retries) [record] := by
  apply (endsWhile_runExecutor owns pending).bind
  intro result left owned
  exact endsWhile_retryLoop owned

end Runner

/-! ## What a stream has shown of a log -/

section Shown

variable {config : StreamConfig} {bytes more : ByteArray}
  {sent : List (List Char)} {log : TailedLog}

/-- The content of a log was sent, masked in pieces. -/
def Delivered (config : StreamConfig) (bytes : ByteArray)
    (sent : List (List Char)) : Prop :=
  ∃ (text : String) (pieces : List (List Char)),
    text.toByteArray = bytes ∧ pieces.flatten = text.toList ∧
      sent = pieces.map config.maskAndEscape

/-- The log is sent as it grows: up to where it was read, less what the
masker keeps. -/
structure Tailed (config : StreamConfig) (bytes : ByteArray)
    (log : TailedLog) (sent : List (List Char)) : Prop where
  live : config.masking.compiledPatterns = []
  secrets : log.masker.secretValues =
    streamMaskSecretValues config.serverEnv config.masking config.hookEnv
  inside : log.tail.offset ≤ bytes.size
  shown : ∃ (text : String) (pieces : List (List Char)),
    text.toByteArray = bytes.extract 0 log.tail.offset ∧
      pieces.flatten ++ log.masker.buffer = text.toList ∧
      sent = pieces.map config.maskAndEscape

theorem Tailed.start (live : config.masking.compiledPatterns = []) :
    Tailed config bytes { masker := config.masker } [] where
  live
  secrets := rfl
  inside := Nat.zero_le _
  shown := ⟨"", [], by simp, rfl, rfl⟩

theorem Tailed.grow (tailed : Tailed config bytes log sent) :
    Tailed config (bytes ++ more) log sent := by
  refine ⟨tailed.live, tailed.secrets, ?_, ?_⟩
  · have inside := tailed.inside
    rw [ByteArray.size_append]
    omega
  · obtain ⟨text, pieces, isText, whole, isSent⟩ := tailed.shown
    refine ⟨text, pieces, ?_, whole, isSent⟩
    rw [isText]
    exact extract_of_start rfl tailed.inside

theorem toByteArray_of_fromUTF8? {text : String}
    (decoded : String.fromUTF8? bytes = some text) :
    text.toByteArray = bytes := by
  unfold String.fromUTF8? at decoded
  split at decoded
  · cases decoded
    rfl
  · cases decoded

/-- What the masker emits of a chunk. -/
theorem Tailed.emit_eq {chunk : Option (List Char)}
    (tailed : Tailed config bytes log sent)
    (some : ∀ text ∈ chunk, text ≠ []) :
    log.masker.emit chunk = chunk.map config.maskAndEscape := by
  have filled : ∀ secret ∈ log.masker.secretValues, secret ≠ [] := by
    rw [tailed.secrets, streamMaskSecretValues_eq]
    exact secretsOf_filled
  have masks : maskResolvedEnvValuesAndEscape log.masker.secretValues =
      config.maskAndEscape := by
    funext text
    rw [tailed.secrets]
    exact (maskAndEscape_eq _ _ _ _ _ tailed.live).symm
  rw [Sendword.emit_eq filled some, masks]

/-- A chunk that decodes is pushed. -/
theorem Tailed.push {piece : String} {next : Nat}
    (tailed : Tailed config bytes log sent)
    (later : log.tail.offset ≤ next) (stop : next ≤ bytes.size)
    (decoded : String.fromUTF8? (bytes.extract log.tail.offset next) =
      some piece) :
    ∃ pushed, log.masker.push piece.toList = some pushed ∧
      Tailed config bytes
        { tail := { offset := next }, masker := pushed.2 }
        (sent ++ pushed.1.toList) := by
  obtain ⟨text, pieces, isText, whole, isSent⟩ := tailed.shown
  obtain ⟨chunk, rest, split, -, isSplit⟩ :=
    splitOff_eq log.masker piece.toList
  have emits : log.masker.emit (if chunk = [] then none else some chunk) =
      (if chunk = [] then none else some chunk).map config.maskAndEscape := by
    apply tailed.emit_eq
    intro part isPart
    split at isPart
    · cases isPart
    · cases isPart
      assumption
  refine ⟨_, by rw [LogStreamMasker.push, isSplit, Option.map_some], ?_⟩
  refine ⟨tailed.live, tailed.secrets, stop, text ++ piece,
    pieces ++ (if chunk = [] then none else some chunk).toList, ?_, ?_, ?_⟩
  · have isPiece := toByteArray_of_fromUTF8? decoded
    rw [String.toByteArray_append, isText, isPiece]
    exact (ByteArray.extract_eq_extract_append_extract _ (Nat.zero_le _)
      later).symm
  · rw [List.flatten_append, String.toList_append, ← whole,
      List.append_assoc, List.append_assoc, split]
    congr 2
    split
    · rename_i empty
      rw [empty]
      rfl
    · exact List.flatten_singleton
  · rw [isSent, emits, List.map_append]
    congr 1
    split
    · rfl
    · rfl

/-- The end of the log, and the buffer flushed. -/
theorem Tailed.flush
    (tailed : Tailed config bytes log sent)
    (last : log.tail.offset = bytes.size) :
    Delivered config bytes (sent ++ log.masker.flush.1.toList) := by
  obtain ⟨text, pieces, isText, whole, isSent⟩ := tailed.shown
  refine ⟨text, pieces ++ log.masker.takeBuffer.1.toList, ?_, ?_, ?_⟩
  · rw [isText, last, ByteArray.extract_zero_size]
  · rw [List.flatten_append, takeBuffer_flatten, whole]
  · have emits : log.masker.flush.1 =
        log.masker.takeBuffer.1.map config.maskAndEscape := by
      apply tailed.emit_eq
      intro part isPart
      unfold LogStreamMasker.takeBuffer at isPart
      split at isPart
      · cases isPart
      · cases isPart
        assumption
    rw [isSent, emits, List.map_append]
    cases log.masker.takeBuffer.1 with
    | none => rfl
    | some buffer => rfl

/-- A file that is sent whole. -/
theorem delivered_file {file : Option ByteArray}
    (decodes : (String.fromUTF8? (file.getD .empty)).isSome = true) :
    Delivered config (file.getD .empty)
      (LogStream.maskedLogFile config file).toList := by
  unfold LogStream.maskedLogFile
  cases file with
  | none => exact ⟨"", [], rfl, rfl, rfl⟩
  | some bytes =>
      obtain ⟨text, decoded⟩ := Option.isSome_iff_exists.mp decodes
      have decoded : String.fromUTF8? bytes = some text := decoded
      have isBytes := toByteArray_of_fromUTF8? decoded
      rw [Option.bind_some, decoded, Option.filter_some]
      by_cases empty : text = ""
      · rw [if_neg (by simpa using empty)]
        exact ⟨text, [], isBytes, by rw [empty]; rfl, rfl⟩
      · rw [if_pos (by simpa using empty)]
        exact ⟨text, [text.toList], isBytes, List.flatten_singleton, rfl⟩

end Shown

/-! ## One step of the stream -/

namespace LogStream

variable {config : StreamConfig} {files : LogFiles} {stream after : LogStream}
  {name other : LogName} {log : TailedLog} {data : Option (List Char)}
  {found : Option Execution}

/-- What was sent of a log. -/
def sentOf (stream : LogStream) (name : LogName) : List (List Char) :=
  (stream.sent.filter fun event => event.1 = name).map (·.2)

@[simp] theorem log_setLog_self : (stream.setLog name log).log name = log := by
  cases name <;> rfl

@[simp] theorem log_setLog_other (differs : other ≠ name) :
    (stream.setLog name log).log other = stream.log other := by
  cases name <;> cases other <;> first | rfl | exact (differs rfl).elim

@[simp] theorem sentOf_setLog :
    (stream.setLog name log).sentOf other = stream.sentOf other := by
  cases name <;> rfl

@[simp] theorem log_yield :
    (stream.yield name data).log other = stream.log other := by
  cases other <;> rfl

@[simp] theorem sentOf_yield_self :
    (stream.yield name data).sentOf name =
      stream.sentOf name ++ data.toList := by
  cases data <;> simp [yield, sentOf]

@[simp] theorem sentOf_yield_other (differs : other ≠ name) :
    (stream.yield name data).sentOf other = stream.sentOf other := by
  cases data <;> simp [yield, sentOf, differs.symm]

@[simp] theorem yield_none : stream.yield name none = stream := by
  simp [yield]

/-- What the next step reads of a log is UTF-8. -/
def ReadsText (files : LogFiles) (stream : LogStream) : Prop :=
  match stream.phase with
  | .file name _ => (String.fromUTF8? (files.bytes name)).isSome = true
  | .tail name | .drain name _ =>
      let offset := (stream.log name).tail.offset
      (String.fromUTF8? ((files.bytes name).extract offset
        (nextStop (files.bytes name).size offset))).isSome = true
  | _ => True

/-- How much of a log was sent. -/
inductive Share where
  | fresh
  | unsent
  | tailed
  | delivered

def Shown (config : StreamConfig) (files : LogFiles) (stream : LogStream)
    (name : LogName) : Share → Prop
  | .fresh =>
      stream.log name = { masker := config.masker } ∧ stream.sentOf name = []
  | .unsent => stream.sentOf name = []
  | .tailed =>
      Tailed config (files.bytes name) (stream.log name) (stream.sentOf name)
  | .delivered => Delivered config (files.bytes name) (stream.sentOf name)

/-- What is sent of the logs in a phase. -/
def phaseShare : StreamPhase → LogName → Share
  | .opening, _ | .refused, _ => .fresh
  | .deferred, _ | .file .stdout _, _ | .file .stderr _, .stderr => .unsent
  | .tail _, _ | .poll, _ | .drain .stdout _, _ | .drain .stderr _, .stderr =>
      .tailed
  | .file .stderr _, .stdout | .drain .stderr _, .stdout | .lastStatus, _
  | .closed _, _ => .delivered

/-- A read that decodes is pushed; without one, the log is at its end. -/
theorem readAndPush_eq
    (tailed : stream.Shown config files name .tailed)
    (decodes : (String.fromUTF8? ((files.bytes name).extract
      (stream.log name).tail.offset
      (nextStop (files.bytes name).size
        (stream.log name).tail.offset))).isSome = true) :
    ∃ again log data, stream.readAndPush files name =
        some (again, (stream.setLog name log).yield name data) ∧
      Tailed config (files.bytes name) log
        (stream.sentOf name ++ data.toList) ∧
      (again = false → log = stream.log name ∧ data = none ∧
        log.tail.offset = (files.bytes name).size) := by
  have tailed : Tailed config (files.bytes name) (stream.log name)
      (stream.sentOf name) := tailed
  have reads : (stream.log name).tail.readNewText (files.get name) none = _ :=
    readNewText_eq tailed.inside
  unfold readAndPush
  dsimp only
  by_cases last : (files.bytes name).size = (stream.log name).tail.offset
  · rw [reads.trans (if_pos last)]
    refine ⟨false, stream.log name, none, ?_, ?_, ?_⟩
    · rw [yield_none]
    · rw [Option.toList_none, List.append_nil]
      exact tailed
    · intro _
      exact ⟨rfl, rfl, last.symm⟩
  · obtain ⟨piece, decoded⟩ := Option.isSome_iff_exists.mp decodes
    obtain ⟨pushed, pushes, next⟩ := tailed.push
      (offset_le_nextStop tailed.inside) (nextStop_le _ _) decoded
    rw [reads.trans ((if_neg last).trans (congrArg (·, _) decoded))]
    refine ⟨true, _, pushed.1, ?_, next, ?_⟩
    · dsimp only
      rw [pushes]
      rfl
    · intro impossible
      cases impossible

/-- What is said of a log does not depend on the phase. -/
theorem shown_phase {phase : StreamPhase} {share : Share} :
    ({ stream with phase } : LogStream).Shown config files name share ↔
      stream.Shown config files name share := by
  cases share <;> rfl

/-- The other log is left as it is. -/
theorem shown_other {share : Share} (differs : other ≠ name) :
    ((stream.setLog name log).yield name data).Shown config files other
        share ↔ stream.Shown config files other share := by
  cases share <;> simp [Shown, differs]

/-- A file is sent whole. -/
theorem shown_file
    (unsent : stream.Shown config files name .unsent)
    (decodes : (String.fromUTF8? (files.bytes name)).isSome = true) :
    (stream.yield name (maskedLogFile config (files.get name))).Shown config
      files name .delivered := by
  have unsent : stream.sentOf name = [] := unsent
  show Delivered _ _ _
  rw [sentOf_yield_self, unsent, List.nil_append]
  exact delivered_file decodes

/-- One read of a log that is tailed. -/
theorem shown_read {again : Bool} {read : LogStream}
    (tailed : stream.Shown config files name .tailed)
    (decodes : (String.fromUTF8? ((files.bytes name).extract
      (stream.log name).tail.offset
      (nextStop (files.bytes name).size
        (stream.log name).tail.offset))).isSome = true)
    (reads : stream.readAndPush files name = some (again, read)) :
    read.phase = stream.phase ∧
      read.Shown config files name .tailed ∧
      (∀ other, other ≠ name → ∀ share,
        stream.Shown config files other share →
        read.Shown config files other share) ∧
      (again = false →
        (read.flush name).Shown config files name .delivered) := by
  obtain ⟨_, log, data, isRead, next, last⟩ := readAndPush_eq tailed decodes
  rw [reads, Option.some.injEq, Prod.mk.injEq] at isRead
  obtain ⟨rfl, rfl⟩ := isRead
  refine ⟨?_, ?_, ?_, ?_⟩
  · cases name <;> rfl
  · show Tailed _ _ _ _
    rw [log_yield, log_setLog_self, sentOf_yield_self, sentOf_setLog]
    exact next
  · intro other differs share shown
    exact (shown_other differs).mpr shown
  · intro ended
    obtain ⟨-, rfl, atEnd⟩ := last ended
    show Delivered _ _ _
    unfold flush
    dsimp only
    rw [yield_none, sentOf_yield_self, sentOf_setLog, sentOf_setLog,
      log_setLog_self]
    rw [Option.toList_none, List.append_nil] at next
    exact next.flush atEnd

theorem shown_flush_other {share : Share} (differs : other ≠ name)
    (shown : stream.Shown config files other share) :
    (stream.flush name).Shown config files other share :=
  (shown_other differs).mpr shown

/-- One step keeps what is said of the logs. -/
theorem step_shown
    (shown : ∀ name, stream.Shown config files name
      (phaseShare stream.phase name))
    (reads : stream.ReadsText files)
    (steps : stream.step config files found = some after) :
    ∀ name, after.Shown config files name (phaseShare after.phase name) := by
  unfold step at steps
  unfold ReadsText at reads
  split at steps
  all_goals rename_i isPhase
  all_goals rw [isPhase] at shown reads
  · split at steps
    · cases steps
      intro name
      exact shown_phase.mpr (shown name)
    · cases steps
      intro name
      obtain ⟨isFresh, unsent⟩ := shown name
      dsimp only
      split
      · exact shown_phase.mpr unsent
      · split
        · exact shown_phase.mpr unsent
        · rename_i live
          have live : config.masking.compiledPatterns = [] := by
            simpa [StreamConfig.deferLiveStreaming] using live
          apply shown_phase.mpr
          show Tailed _ _ _ _
          rw [isFresh, unsent]
          exact .start live
  · cases steps
  · cases steps
    intro name
    cases name with
    | stdout => exact shown_phase.mpr (shown_file (shown .stdout) reads)
    | stderr =>
        apply shown_phase.mpr
        show sentOf _ _ = []
        rw [sentOf_yield_other (by decide)]
        exact shown .stderr
  · rename_i status
    cases steps
    intro name
    have delivered : (stream.yield .stderr
        (maskedLogFile config files.stderr)).Shown config files name
          .delivered := by
      cases name with
      | stdout =>
          have earlier : Delivered _ _ _ := shown .stdout
          show Delivered _ _ _
          rw [sentOf_yield_other (by decide)]
          exact earlier
      | stderr => exact shown_file (shown .stderr) reads
    apply shown_phase.mpr
    cases status with
    | none => exact delivered
    | some status => exact delivered
  · cases steps
    intro name
    exact shown_phase.mpr (shown name)
  · split at steps
    · split at steps
      · cases steps
        intro name
        exact shown_phase.mpr (shown name)
      · cases steps
        rw [isPhase]
        exact shown
    · cases steps
      rw [isPhase]
      exact shown
  · rename_i name
    obtain ⟨⟨again, read⟩, isRead, rfl⟩ := Option.map_eq_some_iff.mp steps
    obtain ⟨-, own, others, -⟩ := shown_read (shown name) reads isRead
    intro other
    have tailed : read.Shown config files other .tailed := by
      by_cases same : other = name
      · rw [same]
        exact own
      · exact others other same .tailed (shown other)
    apply shown_phase.mpr
    cases name with
    | stdout => exact tailed
    | stderr => exact tailed
  · split at steps
    · split at steps
      · cases steps
        intro name
        exact shown_phase.mpr (shown name)
      · cases steps
        intro name
        exact shown_phase.mpr (shown name)
    · cases steps
      intro name
      exact shown_phase.mpr (shown name)
  · rename_i name status
    obtain ⟨⟨again, read⟩, isRead, isAfter⟩ :=
      Option.map_eq_some_iff.mp steps
    have tailed : stream.Shown config files name .tailed := by
      cases name with
      | stdout => exact shown .stdout
      | stderr => exact shown .stderr
    obtain ⟨samePhase, own, others, flushed⟩ :=
      shown_read tailed reads isRead
    dsimp only at isAfter
    split at isAfter
    · subst isAfter
      rw [samePhase, isPhase]
      intro other
      by_cases same : other = name
      · rw [same]
        cases name with
        | stdout => exact own
        | stderr => exact own
      · exact others other same _ (shown other)
    · rename_i ended
      subst isAfter
      have delivered := flushed (Bool.eq_false_of_not_eq_true ended)
      intro other
      apply shown_phase.mpr
      cases name with
      | stdout =>
          cases other with
          | stdout => exact delivered
          | stderr =>
              have kept := others .stderr (by decide) .tailed (shown .stderr)
              exact shown_flush_other (by decide) kept
      | stderr =>
          cases other with
          | stdout =>
              have kept := others .stdout (by decide) .delivered
                (shown .stdout)
              exact shown_flush_other (by decide) kept
          | stderr => exact delivered
  · cases steps

end LogStream

/-! ## Runs -/

/-- The status of the `done` event of a stream that has seen the end; it is
not known yet where the execution had ended when the stream was opened. -/
def StreamPhase.sees : StreamPhase → Option (Option String)
  | .file _ status => some status
  | .lastStatus => some none
  | .drain _ status | .closed status => some (some status)
  | _ => none

section Runs

variable {id : String} {config : StreamConfig} {watch after : Watch}
  {record : Execution}

/-- The execution has ended with this record: nothing is left to run. -/
structure Watch.EndedAs (id : String) (watch : Watch)
    (record : Execution) : Prop where
  ended : ∃ result, watch.runner = .pure result
  there : recordsOf id watch.world = [record]
  terminal : record.status.isTerminal = true

/-- What a reader may rely on: a record that was seen with a terminal status
is final, and a closed stream has sent the final status and the logs of all
attempts. -/
structure TerminalLaw (id : String) (config : StreamConfig)
    (watch : Watch) : Prop where
  final : ∀ seen ∈ watch.observed, seen.status.isTerminal = true →
    ∃ record, recordsOf id watch.world = [record] ∧
      record.status = seen.status ∧ record.exitCode = seen.exitCode ∧
      record.completedAt = seen.completedAt
  done : ∀ status, watch.stream.phase = .closed status →
    (∃ result, watch.runner = .pure result) ∧
      (∃ record, recordsOf id watch.world = [record] ∧
        record.status.isTerminal = true ∧ status = record.status.text) ∧
      ∀ name, Delivered config (watch.files.bytes name)
        (watch.stream.sentOf name)

/-- An attempt has ended and the next one has not put the record back. -/
def Watch.BetweenAttempts (watch : Watch) : Prop :=
  ∃ operation ∈ watch.runner.next?, operation.betweenAttempts = true

/-- Nobody looks at the record between two attempts, and what is read of a
log is UTF-8. -/
def Watch.Settles (watch : Watch) : Watch.Turn id → Prop
  | .runner .. | .output .. => True
  | .reader => ¬watch.BetweenAttempts
  | .stream =>
      (watch.stream.asks = true → ¬watch.BetweenAttempts) ∧
        watch.stream.ReadsText watch.files

/-- The invariant of runs in which nobody looks between two attempts. -/
structure Watch.Held (id : String) (config : StreamConfig)
    (watch : Watch) : Prop where
  runner : EndsWhile id (fun _ _ => True) watch.runner
    (recordsOf id watch.world)
  observed : ∀ seen ∈ watch.observed, seen.status.isTerminal = true →
    watch.EndedAs id seen
  sees : ∀ status, watch.stream.phase.sees = some status →
    ∃ record, watch.EndedAs id record ∧
      ∀ text ∈ status, text = record.status.text
  shown : ∀ name, watch.stream.Shown config watch.files name
    (LogStream.phaseShare watch.stream.phase name)

theorem execution?_eq (world : World) :
    world.db.execution? id = (recordsOf id world).head? :=
  List.head?_filter.symm

/-- Outside of these moments, a terminal record is found only when nothing
is left to run. -/
theorem Watch.Held.endedAs
    (held : watch.Held id config)
    (outside : ¬watch.BetweenAttempts)
    (found : watch.world.db.execution? id = some record)
    (terminal : record.status.isTerminal = true) :
    watch.EndedAs id record := by
  have runs := held.runner
  rw [execution?_eq] at found
  cases isRunner : watch.runner with
  | pure result =>
      rw [isRunner] at runs
      obtain ⟨row, there, -⟩ := runs
      rw [there, List.head?_cons, Option.some.injEq] at found
      exact ⟨⟨result, isRunner⟩, found ▸ there, terminal⟩
  | perform operation next =>
      rw [isRunner] at runs
      obtain ⟨⟨row, there, between⟩, -⟩ := runs
      rw [there, List.head?_cons, Option.some.injEq] at found
      refine (outside ⟨operation, ?_, between (found ▸ terminal)⟩).elim
      rw [isRunner]
      rfl

theorem Watch.EndedAs.found
    (ended : watch.EndedAs id record) :
    watch.world.db.execution? id = some record := by
  rw [execution?_eq, ended.there]
  rfl

theorem LogFiles.append_bytes (files : LogFiles) (name other : LogName)
    (bytes : ByteArray) :
    ∃ more, (files.append name bytes).bytes other =
      files.bytes other ++ more := by
  by_cases same : other = name
  · subst same
    refine ⟨bytes, ?_⟩
    cases other <;> rfl
  · refine ⟨.empty, ?_⟩
    rw [ByteArray.append_empty]
    cases name <;> cases other <;> first | rfl | exact (same rfl).elim

/-- The runner only appends to the logs. -/
theorem LogFiles.after_bytes (files : LogFiles) (operation : Op)
    (answer : operation.Answer) (name : LogName) :
    ∃ more, (files.after operation answer).bytes name =
      files.bytes name ++ more := by
  have same : ∃ more, files.bytes name = files.bytes name ++ more :=
    ⟨.empty, ByteArray.append_empty.symm⟩
  unfold LogFiles.after
  split
  · obtain ⟨first, isFirst⟩ := files.append_bytes .stdout name .empty
    obtain ⟨second, isSecond⟩ :=
      (files.append .stdout .empty).append_bytes .stderr name .empty
    refine ⟨first ++ second, ?_⟩
    rw [isSecond, isFirst, ByteArray.append_assoc]
  · rename_i context attempt answer
    cases name with
    | stdout =>
        cases isFile : files.stdout with
        | none => exact ⟨.empty, by simp [bytes, get, isFile]⟩
        | some file =>
            exact ⟨_, by simp only [bytes, get, isFile]; rfl⟩
    | stderr =>
        cases isFile : files.stderr with
        | none => exact ⟨.empty, by simp [bytes, get, isFile]⟩
        | some file =>
            exact ⟨_, by simp only [bytes, get, isFile]; rfl⟩
  · exact same

/-- While the execution runs, a log that grows is shown as before. -/
theorem Watch.Held.shown_grow {files : LogFiles} {name : LogName}
    (held : watch.Held id config)
    (unseen : watch.stream.phase.sees = none)
    (grows : ∃ more, files.bytes name = watch.files.bytes name ++ more) :
    watch.stream.Shown config files name
      (LogStream.phaseShare watch.stream.phase name) := by
  have shown := held.shown name
  obtain ⟨more, isMore⟩ := grows
  have tailed (before : watch.stream.Shown config watch.files name .tailed) :
      watch.stream.Shown config files name .tailed := by
    show Tailed _ _ _ _
    rw [isMore]
    exact Tailed.grow before
  generalize watch.stream.phase = phase at *
  cases phase with
  | opening => exact shown
  | refused => exact shown
  | deferred => exact shown
  | tail log => exact tailed shown
  | poll => exact tailed shown
  | file log status => cases unseen
  | lastStatus => cases unseen
  | drain log status => cases unseen
  | closed status => cases unseen

/-- How a stream comes to see the end. -/
theorem LogStream.step_sees {files : LogFiles} {stream next : LogStream}
    {found : Option Execution} {status : Option String}
    (steps : stream.step config files found = some next)
    (sees : next.phase.sees = some status) :
    stream.phase.sees = some status ∨
      (stream.phase.sees = some none ∧
        status = some ((found.map (·.status.text)).getD "unknown")) ∨
      stream.asks = true ∧
        ∃ record, found = some record ∧ record.status.isTerminal = true ∧
          ∀ text ∈ status, text = record.status.text := by
  unfold LogStream.step at steps
  unfold LogStream.asks
  split at steps
  all_goals rename_i isPhase
  all_goals rw [isPhase]
  · split at steps
    · cases steps
      cases sees
    · rename_i record
      cases steps
      dsimp only at sees
      split at sees
      · rename_i terminal
        cases sees
        right
        right
        exact ⟨rfl, record, rfl, terminal, by simp⟩
      · split at sees
        · cases sees
        · cases sees
  · cases steps
  · cases steps
    exact .inl sees
  · rename_i status
    cases steps
    cases status with
    | none => exact .inl sees
    | some status => exact .inl sees
  · cases steps
    cases sees
    exact .inr (.inl ⟨rfl, rfl⟩)
  · split at steps
    · rename_i record
      split at steps
      · rename_i terminal
        cases steps
        cases sees
        right
        right
        refine ⟨rfl, record, rfl, terminal, ?_⟩
        intro text isText
        exact (Option.some.inj isText).symm
      · cases steps
        rw [isPhase] at sees
        cases sees
    · cases steps
      rw [isPhase] at sees
      cases sees
  · rename_i name
    obtain ⟨read, -, rfl⟩ := Option.map_eq_some_iff.mp steps
    cases name with
    | stdout => cases sees
    | stderr => cases sees
  · split at steps
    · rename_i record
      split at steps
      · rename_i terminal
        cases steps
        cases sees
        right
        right
        refine ⟨rfl, record, rfl, terminal, ?_⟩
        intro text isText
        exact (Option.some.inj isText).symm
      · cases steps
        cases sees
    · cases steps
      cases sees
  · rename_i name status
    left
    obtain ⟨⟨again, read⟩, isRead, isNext⟩ := Option.map_eq_some_iff.mp steps
    dsimp only at isNext
    split at isNext
    · subst isNext
      have samePhase : read.phase = stream.phase := by
        unfold LogStream.readAndPush at isRead
        dsimp only at isRead
        split at isRead
        · cases isRead
          cases name <;> rfl
        · obtain ⟨pushed, -, isPushed⟩ := Option.map_eq_some_iff.mp isRead
          cases isPushed
          cases name <;> rfl
      rw [samePhase, isPhase] at sees
      exact sees
    · subst isNext
      cases name with
      | stdout => exact sees
      | stderr => exact sees
  · cases steps

/-- While the runner has something to do, the execution has not ended. -/
theorem Watch.not_endedAs {operation : Op}
    (running : watch.runner.next? = some operation) :
    ¬watch.EndedAs id record := by
  intro ended
  obtain ⟨result, isPure⟩ := ended.ended
  rw [isPure] at running
  cases running

theorem Watch.Held.unseen {operation : Op}
    (held : watch.Held id config)
    (running : watch.runner.next? = some operation) :
    watch.stream.phase.sees = none := by
  cases isSeen : watch.stream.phase.sees with
  | none => rfl
  | some status =>
      obtain ⟨record, ended, -⟩ := held.sees status isSeen
      exact (Watch.not_endedAs running ended).elim

/-- A move of the runner and what it writes, which the stream does not
see. -/
theorem Watch.Held.move {operation : Op} {world : World}
    {files : LogFiles} {runner : Async ExecutionResult}
    (held : watch.Held id config)
    (running : watch.runner.next? = some operation)
    (runs : EndsWhile id (fun _ _ => True) runner
      (recordsOf id world))
    (grows : ∀ name, ∃ more,
      files.bytes name = watch.files.bytes name ++ more) :
    ({ watch with world, files, runner } : Watch).Held id config where
  runner := runs
  observed := by
    intro seen member terminal
    have ended := held.observed seen member terminal
    exact (Watch.not_endedAs running ended).elim
  sees := by
    intro status isSeen
    have isSeen : watch.stream.phase.sees = some status := isSeen
    rw [held.unseen running] at isSeen
    cases isSeen
  shown := by
    intro name
    exact held.shown_grow (held.unseen running) (grows name)

/-- A record that is given to a reader now. -/
theorem Watch.Held.observe {observed : List Execution}
    (held : watch.Held id config)
    (outside : ¬watch.BetweenAttempts)
    (observes : ∀ seen ∈ observed, seen ∈ watch.observed ∨
      watch.world.db.execution? id = some seen) :
    ∀ seen ∈ observed, seen.status.isTerminal = true →
      watch.EndedAs id seen := by
  intro seen member terminal
  rcases observes seen member with earlier | now
  · exact held.observed seen earlier terminal
  · exact held.endedAs outside now terminal

/-- One turn keeps the invariant. -/
theorem Watch.Held.step {turn : Watch.Turn id}
    (held : watch.Held id config)
    (settles : watch.Settles turn)
    (steps : watch.step config turn = some after) :
    after.Held id config := by
  cases turn with
  | runner choice others =>
      simp only [Watch.step] at steps
      split at steps
      · cases steps
      · rename_i operation next isRunner
        obtain ⟨⟨answer, world⟩, performed, rfl⟩ :=
          Option.map_eq_some_iff.mp steps
        have running : watch.runner.next? = some operation := by
          rw [isRunner]
          rfl
        have runs := held.runner
        rw [isRunner] at runs
        apply held.move running
        · exact runs.2 choice _ answer world (others.spares _) performed
        · exact watch.files.after_bytes operation answer
  | output name bytes =>
      simp only [Watch.step] at steps
      split at steps
      · rename_i operation running
        split at steps
        · cases steps
          exact held.move running held.runner fun other =>
            watch.files.append_bytes name other bytes
        · cases steps
      · cases steps
  | reader =>
      cases steps
      refine ⟨held.runner, ?_, ?_, held.shown⟩
      · intro seen member terminal
        have ended : watch.EndedAs id seen := by
          apply held.observe settles _ seen member terminal
          intro seen member
          exact (List.mem_append.mp member).imp_right Option.mem_toList.mp
        exact ⟨ended.ended, ended.there, terminal⟩
      · intro status isSeen
        obtain ⟨record, ended, isText⟩ := held.sees status isSeen
        exact ⟨record, ⟨ended.ended, ended.there, ended.terminal⟩, isText⟩
  | stream =>
      obtain ⟨outside, readsText⟩ := settles
      obtain ⟨stream, stepped, rfl⟩ := Option.map_eq_some_iff.mp steps
      refine ⟨held.runner, ?_, ?_, ?_⟩
      · intro seen member terminal
        have ended : watch.EndedAs id seen := by
          dsimp only at member
          split at member
          · rename_i asks
            apply held.observe (outside asks) _ seen member terminal
            intro seen member
            exact (List.mem_append.mp member).imp_right Option.mem_toList.mp
          · exact held.observed seen member terminal
        exact ⟨ended.ended, ended.there, terminal⟩
      · intro status isSeen
        have seen : ∃ record, watch.EndedAs id record ∧
            ∀ text ∈ status, text = record.status.text := by
          rcases LogStream.step_sees stepped isSeen with
            earlier | ⟨atEnd, rfl⟩ | ⟨asks, record, found, terminal, isText⟩
          · exact held.sees status earlier
          · obtain ⟨record, ended, -⟩ := held.sees none atEnd
            refine ⟨record, ended, ?_⟩
            intro text isText
            rw [ended.found] at isText
            exact (Option.some.inj isText).symm
          · have ended := held.endedAs (outside asks) found terminal
            exact ⟨record, ended, isText⟩
        obtain ⟨record, ended, isText⟩ := seen
        exact ⟨record, ⟨ended.ended, ended.there, ended.terminal⟩, isText⟩
      · exact LogStream.step_shown held.shown readsText stepped

/-- The invariant gives what a reader may rely on. -/
theorem Watch.Held.law (held : watch.Held id config) :
    TerminalLaw id config watch where
  final := by
    intro seen member terminal
    have ended := held.observed seen member terminal
    exact ⟨seen, ended.there, rfl, rfl, rfl⟩
  done := by
    intro status isClosed
    obtain ⟨record, ended, isText⟩ := held.sees (some status) (by
      rw [isClosed]
      rfl)
    refine ⟨ended.ended, ?_, ?_⟩
    · exact ⟨record, ended.there, ended.terminal, isText status rfl⟩
    · intro name
      have shown := held.shown name
      rw [isClosed] at shown
      exact shown

instance (watch : Watch) : Decidable watch.BetweenAttempts :=
  inferInstanceAs (Decidable (∃ operation ∈ watch.runner.next?, _))

instance (files : LogFiles) (stream : LogStream) :
    Decidable (stream.ReadsText files) := by
  unfold LogStream.ReadsText
  split
  · exact instDecidableEqBool _ _
  · exact instDecidableEqBool _ _
  · exact instDecidableEqBool _ _
  · exact .isTrue trivial

instance (watch : Watch) :
    (turn : Watch.Turn id) → Decidable (watch.Settles turn)
  | .runner .. | .output .. => .isTrue trivial
  | .reader => inferInstanceAs (Decidable (¬_))
  | .stream =>
      inferInstanceAs (Decidable (_ ∧ LogStream.ReadsText _ _))

/-- Follow turns that all meet a condition. -/
def Watch.follow (config : StreamConfig)
    (admits : Watch → Watch.Turn id → Bool) (watch : Watch) :
    List (Watch.Turn id) → Option Watch
  | [] => some watch
  | turn :: turns =>
      if admits watch turn then
        (watch.step config turn).bind fun after =>
          after.follow config admits turns
      else none

theorem Watch.Reaches.of_follow {admits : Watch → Watch.Turn id → Bool}
    {start : Watch} {turns : List (Watch.Turn id)}
    (reached : Watch.Reaches config
      (fun watch turn => admits watch turn = true) start watch)
    (followed : watch.follow config admits turns = some after) :
    Watch.Reaches config (fun watch turn => admits watch turn = true) start
      after := by
  induction turns generalizing watch with
  | nil =>
      cases followed
      exact reached
  | cons turn turns ih =>
      rw [Watch.follow] at followed
      split at followed
      · rename_i admitted
        obtain ⟨next, steps, rest⟩ := Option.bind_eq_some_iff.mp followed
        exact ih (.step reached admitted steps) rest
      · cases followed

end Runs

/-! ## One attempt and two -/

/-- Nothing is masked. -/
def plainStream : StreamConfig where
  serverEnv _ := none
  replaceMatches _ text := text
  masking := {}
  hookEnv := []

def oneRetry : EffectiveRetryConfig where
  count := 1
  backoff := .none
  initialDelay := 0
  maxDelay := 0

def advance (choice : Choice) : Watch.Turn makeContext.executionId :=
  .runner choice (.still _)

/-- The first attempt fails while the stream tails its output, and the second
succeeds; the stream and a reader look before and after the record is put
back. -/
def retriedTurns : List (Watch.Turn makeContext.executionId) :=
  [advance {}, advance {}, advance {}, .output .stdout "no\n".toUTF8,
    .stream, .stream, .stream, .stream,
    advance { process := .exited (some 1) }, advance {}, advance {},
    .stream, advance {}, advance {}, advance {}, .reader,
    advance {}, advance {}, advance {}, .output .stdout "ok\n".toUTF8,
    .stream, .stream, advance {}, advance {}, advance {}, .reader,
    .stream, .stream, .stream, .stream, .stream]

def retriedWatch : Watch :=
  ((Watch.start plainStream makeContext oneRetry pendingWorld).follow
    plainStream (fun watch turn => decide (watch.Settles turn))
    retriedTurns).get (by decide +kernel)

/-- The command fails, the stream sends that it has failed and closes, and
the loop puts the record back to try again. -/
def retryTurns : List (Watch.Turn makeContext.executionId) :=
  [advance {}, advance {}, advance {},
    advance { process := .exited (some 1) }, advance {}, advance {},
    .stream, .stream, .stream, .stream, advance {}, advance {}, advance {}]

def retryWatch : Watch :=
  ((Watch.start plainStream makeContext oneRetry pendingWorld).follow
    plainStream (fun _ _ => true) retryTurns).get (by decide)

end Sendword
