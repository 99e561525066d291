import Mathlib.Tactic.ByContra

/-!
# Reading a growing log file

`LogTail::read_new_text` and the two loops of `log_stream` that call it: the
poll while the execution runs and the drain when it has ended.  A log is the
bytes appended so far; a text is a string, and `String.fromUTF8?` is
`String::from_utf8`.
-/

namespace Sendword

/-- `LOG_TAIL_READ_CHUNK_BYTES`. -/
def logTailReadChunkBytes : Nat := 64 * 1024

/-- The reader.  Its open handle and its path lead to the same file, which is
never replaced, so only the offset is kept. -/
structure LogTail where
  offset : Nat := 0
  deriving DecidableEq, Repr

/-- The file operation that fails in a read. -/
inductive TailFault where
  | metadata
  | seek
  | read
  deriving DecidableEq, Repr

namespace LogTail

/-- One read; `log` is absent until the file is created. -/
def readNewText (log : Option ByteArray) (fault : Option TailFault)
    (tail : LogTail) : Option String × LogTail :=
  match log with
  | none => (none, tail)
  | some bytes =>
      if fault = some .metadata then
        (none, { offset := 0 })
      else
      let offset := if bytes.size < tail.offset then 0 else tail.offset
      if bytes.size = offset then
        (none, { offset })
      else
      let remaining := bytes.size - offset
      let readLen := min remaining logTailReadChunkBytes
      if fault = some .seek ∨ fault = some .read then
        (none, { offset := 0 })
      else
        let chunk := bytes.extract offset (offset + readLen)
        if chunk.size = 0 then
          (none, { offset })
        else
          (String.fromUTF8? chunk, { offset := offset + chunk.size })

end LogTail

/-- What happens to the file while an execution runs. -/
inductive TailEvent where
  | append (bytes : ByteArray)
  | read

/-- The loop after the execution has ended: read until nothing is
returned. -/
def drain (log : Option ByteArray) : Nat → LogTail → List String
  | 0, _ => []
  | fuel + 1, tail =>
      match tail.readNewText log none with
      | (none, _) => []
      | (some text, tail) => text :: drain log fuel tail

/-- Every read that returns a text moves the offset, so these many rounds are
enough. -/
def drainRounds (log : Option ByteArray) : Nat :=
  (log.getD .empty).size + 1

/-- The texts delivered while the file grows and is polled, and by the
drain. -/
def delivered (log : Option ByteArray) (tail : LogTail) :
    List TailEvent → List String
  | [] => drain log (drainRounds log) tail
  | .append bytes :: events =>
      delivered (some (log.getD .empty ++ bytes)) tail events
  | .read :: events =>
      let (text, tail) := tail.readNewText log none
      text.toList ++ delivered log tail events

/-- The bytes appended altogether. -/
def appended : List TailEvent → ByteArray
  | [] => .empty
  | .append bytes :: events => bytes ++ appended events
  | .read :: events => appended events

/-- Where the next read of a file of some length stops. -/
def nextStop (length offset : Nat) : Nat :=
  min length (offset + logTailReadChunkBytes)

/-- A position between two characters of a text, or at an end. -/
def Boundary (text : String) (position : Nat) : Prop :=
  String.Pos.Raw.IsValid text ⟨position⟩

/-- Every read, of the polls and of the drain, stops between two
characters. -/
def CutsBetween (text : String) (length offset : Nat) :
    List TailEvent → Prop
  | [] => ∀ round,
      Boundary text (min length (offset + round * logTailReadChunkBytes))
  | .append bytes :: events =>
      CutsBetween text (length + bytes.size) offset events
  | .read :: events =>
      Boundary text (nextStop length offset) ∧
        CutsBetween text length (nextStop length offset) events

/-! ## One read -/

section Read

variable {log : Option ByteArray} {tail : LogTail}

/-- A read without a fault takes the bytes up to the next stop. -/
theorem readNewText_eq (inside : tail.offset ≤ (log.getD .empty).size) :
    tail.readNewText log none =
      if (log.getD .empty).size = tail.offset then (none, tail)
      else
        (String.fromUTF8? ((log.getD .empty).extract tail.offset
            (nextStop (log.getD .empty).size tail.offset)),
          { offset := nextStop (log.getD .empty).size tail.offset }) := by
  cases log with
  | none =>
      have start : tail.offset = 0 := by simpa using inside
      simp [LogTail.readNewText, start]
  | some bytes =>
      have kept : ¬ bytes.size < tail.offset := by simpa using inside
      by_cases done : bytes.size = tail.offset
      · simp [LogTail.readNewText, done]
      · have moved : ((bytes.extract tail.offset
            (nextStop bytes.size tail.offset)).size) =
              nextStop bytes.size tail.offset - tail.offset := by
          rw [ByteArray.size_extract]
          unfold nextStop
          omega
        have later : tail.offset < nextStop bytes.size tail.offset := by
          unfold nextStop logTailReadChunkBytes
          omega
        have stop : tail.offset +
            min (bytes.size - tail.offset) logTailReadChunkBytes =
              nextStop bytes.size tail.offset := by
          unfold nextStop
          omega
        have nonempty : nextStop bytes.size tail.offset - tail.offset ≠ 0 :=
          by omega
        have reached : tail.offset +
            (nextStop bytes.size tail.offset - tail.offset) =
              nextStop bytes.size tail.offset := by omega
        simp [LogTail.readNewText, done, kept, stop, moved, nonempty,
          reached]

theorem offset_lt_nextStop {length offset : Nat} (more : offset < length) :
    offset < nextStop length offset := by
  unfold nextStop logTailReadChunkBytes
  omega

theorem offset_le_nextStop {length offset : Nat}
    (inside : offset ≤ length) : offset ≤ nextStop length offset := by
  unfold nextStop
  omega

theorem nextStop_self {length offset : Nat} (done : length = offset) :
    nextStop length offset = offset := by
  unfold nextStop
  omega

theorem nextStop_le (length offset : Nat) :
    nextStop length offset ≤ length :=
  Nat.min_le_left length _

/-- Where a read leaves the tail does not depend on the bytes. -/
theorem readNewText_snd (inside : tail.offset ≤ (log.getD .empty).size) :
    (tail.readNewText log none).2 =
      { offset := nextStop (log.getD .empty).size tail.offset } := by
  rw [readNewText_eq inside]
  split
  · rename_i done
    rw [nextStop_self done]
  · rfl

theorem delivered_read (inside : tail.offset ≤ (log.getD .empty).size)
    (events : List TailEvent) :
    delivered log tail (.read :: events) =
      (tail.readNewText log none).1.toList ++
        delivered log
          { offset := nextStop (log.getD .empty).size tail.offset }
          events := by
  rw [← readNewText_snd inside]
  rfl

/-- Reading on from the next stop goes through the same stops. -/
theorem nextStop_round (length offset round : Nat) :
    min length
        (nextStop length offset + round * logTailReadChunkBytes) =
      min length (offset + (round + 1) * logTailReadChunkBytes) := by
  unfold nextStop
  rw [Nat.succ_mul]
  omega

end Read

/-! ## Texts and bytes -/

theorem size_of_fromUTF8? {bytes : ByteArray} {text : String}
    (decoded : String.fromUTF8? bytes = some text) :
    text.utf8ByteSize = bytes.size := by
  unfold String.fromUTF8? at decoded
  split at decoded
  · cases decoded
    rfl
  · cases decoded

theorem extract_of_start {bytes rest whole : ByteArray} {start stop : Nat}
    (parts : bytes ++ rest = whole) (inside : stop ≤ bytes.size) :
    bytes.extract start stop = whole.extract start stop := by
  have beyond : stop - bytes.size = 0 := by omega
  have nothing : rest.extract (start - bytes.size) 0 = .empty := by
    rw [ByteArray.extract_eq_empty_iff]
    omega
  rw [← parts, ByteArray.extract_append, beyond, nothing,
    ByteArray.append_empty]

section Decoding

variable {text : String} {bytes rest : ByteArray} {start stop : Nat}

theorem isValidUTF8_slice
    (parts : bytes ++ rest = text.toByteArray)
    (ordered : start ≤ stop) (inside : stop ≤ bytes.size) :
    (bytes.extract start stop).IsValidUTF8 ↔
      start = stop ∨ (Boundary text start ∧ Boundary text stop) := by
  have total : bytes.size + rest.size = text.utf8ByteSize := by
    rw [← ByteArray.size_append, parts]
    rfl
  rw [extract_of_start parts inside]
  have cut := String.Pos.Raw.isValidUTF8_extract_iff (s := text) ⟨start⟩
    ⟨stop⟩ ordered (by simp [String.Pos.Raw.le_iff]; omega)
  simpa [Boundary, String.Pos.Raw.ext_iff] using cut

/-- The bytes between two boundaries are a text. -/
theorem decode_between
    (parts : bytes ++ rest = text.toByteArray)
    (ordered : start ≤ stop) (inside : stop ≤ bytes.size)
    (fromBoundary : Boundary text start) (toBoundary : Boundary text stop) :
    ∃ piece, String.fromUTF8? (bytes.extract start stop) = some piece ∧
      piece.toByteArray = text.toByteArray.extract start stop := by
  have valid := (isValidUTF8_slice parts ordered inside).mpr
    (.inr ⟨fromBoundary, toBoundary⟩)
  refine ⟨.fromUTF8 _ valid, dif_pos valid, ?_⟩
  exact extract_of_start parts inside

/-- The bytes up to the middle of a character are none. -/
theorem decode_inside
    (parts : bytes ++ rest = text.toByteArray)
    (ordered : start < stop) (inside : stop ≤ bytes.size)
    (cut : ¬ Boundary text stop) :
    String.fromUTF8? (bytes.extract start stop) = none := by
  refine dif_neg ?_
  rw [isValidUTF8_slice parts (by omega) inside]
  rintro (same | ⟨-, toBoundary⟩)
  · omega
  · exact cut toBoundary

end Decoding

/-! ## What the drain delivers -/

section Drain

variable {text : String} {log : Option ByteArray} {tail : LogTail}
  {rest : ByteArray}

theorem size_le_of_parts {bytes : ByteArray}
    (parts : bytes ++ rest = text.toByteArray) :
    bytes.size ≤ text.utf8ByteSize := by
  have total : bytes.size + rest.size = text.utf8ByteSize := by
    rw [← ByteArray.size_append, parts]
    rfl
  omega

/-- No read gives more than the bytes it passes. -/
theorem readNewText_size
    (inside : tail.offset ≤ (log.getD .empty).size) {piece : String}
    {after : LogTail}
    (read : tail.readNewText log none = (some piece, after)) :
    tail.offset < after.offset ∧
      after.offset ≤ (log.getD .empty).size ∧
      piece.utf8ByteSize = after.offset - tail.offset := by
  rw [readNewText_eq inside] at read
  split at read
  · cases read
  · rename_i more
    simp only [Prod.mk.injEq] at read
    obtain ⟨decoded, rfl⟩ := read
    have stop := nextStop_le (log.getD .empty).size tail.offset
    refine ⟨offset_lt_nextStop (by omega), stop, ?_⟩
    rw [size_of_fromUTF8? decoded, ByteArray.size_extract]
    dsimp only
    omega

/-- The drain delivers no byte twice. -/
theorem drain_size (rounds : Nat)
    (inside : tail.offset ≤ (log.getD .empty).size) :
    (String.join (drain log rounds tail)).utf8ByteSize ≤
      (log.getD .empty).size - tail.offset := by
  induction rounds generalizing tail with
  | zero => exact Nat.zero_le _
  | succ rounds induction =>
      unfold drain
      split
      · exact Nat.zero_le _
      · rename_i piece after read
        obtain ⟨later, stop, size⟩ := readNewText_size inside read
        have others := induction stop
        rw [String.join_cons, String.utf8ByteSize_append, size]
        omega

/-- A drain that stops between characters only delivers everything. -/
theorem drain_exact {rounds : Nat}
    (whole : log.getD .empty = text.toByteArray)
    (inside : tail.offset ≤ (log.getD .empty).size)
    (enough : (log.getD .empty).size - tail.offset < rounds)
    (here : Boundary text tail.offset)
    (cuts : CutsBetween text (log.getD .empty).size tail.offset []) :
    (String.join (drain log rounds tail)).toByteArray =
      text.toByteArray.extract tail.offset text.utf8ByteSize := by
  induction rounds generalizing tail with
  | zero => omega
  | succ rounds induction =>
      have parts : log.getD .empty ++ .empty = text.toByteArray := by
        rw [ByteArray.append_empty, whole]
      have size : (log.getD .empty).size = text.utf8ByteSize := by
        rw [whole]
        rfl
      by_cases done : (log.getD .empty).size = tail.offset
      · rw [drain, readNewText_eq inside, if_pos done, ← done, size]
        simp
      · have later := offset_lt_nextStop
          (Nat.lt_of_le_of_ne inside (Ne.symm done))
        have stop := nextStop_le (log.getD .empty).size tail.offset
        have next : Boundary text
            (nextStop (log.getD .empty).size tail.offset) := by
          simpa [nextStop] using cuts 1
        obtain ⟨piece, decoded, delivers⟩ :=
          decode_between parts (Nat.le_of_lt later) stop here next
        rw [drain, readNewText_eq inside, if_neg done, decoded]
        have others := @induction
          { offset := nextStop (log.getD .empty).size tail.offset }
          stop (by dsimp only; omega) next ?_
        · dsimp only
          rw [String.join_cons, String.toByteArray_append, delivers, others]
          refine (ByteArray.extract_eq_extract_append_extract _ ?_ ?_).symm
          · exact Nat.le_of_lt later
          · rw [← size]
            exact stop
        · intro round
          rw [nextStop_round]
          exact cuts (round + 1)

/-- A drain that stops inside a character loses that character. -/
theorem drain_lossy (rounds : Nat)
    (whole : log.getD .empty = text.toByteArray)
    (inside : tail.offset ≤ (log.getD .empty).size)
    (here : Boundary text tail.offset)
    (cut : ¬ CutsBetween text (log.getD .empty).size tail.offset []) :
    (String.join (drain log rounds tail)).utf8ByteSize <
      (log.getD .empty).size - tail.offset := by
  have parts : log.getD .empty ++ .empty = text.toByteArray := by
    rw [ByteArray.append_empty, whole]
  have more : (log.getD .empty).size ≠ tail.offset := by
    intro done
    refine cut ?_
    intro round
    rw [done, Nat.min_eq_left (Nat.le_add_right _ _)]
    exact here
  induction rounds generalizing tail with
  | zero =>
      have nothing : (String.join (drain log 0 tail)).utf8ByteSize = 0 := rfl
      omega
  | succ rounds induction =>
      have later := offset_lt_nextStop
        (Nat.lt_of_le_of_ne inside (Ne.symm more))
      have stop := nextStop_le (log.getD .empty).size tail.offset
      by_cases next : Boundary text
          (nextStop (log.getD .empty).size tail.offset)
      · obtain ⟨piece, decoded, -⟩ :=
          decode_between parts (Nat.le_of_lt later) stop here next
        have size := size_of_fromUTF8? decoded
        rw [ByteArray.size_extract] at size
        have rest : ¬ CutsBetween text (log.getD .empty).size
            (nextStop (log.getD .empty).size tail.offset) [] := by
          intro cuts
          refine cut ?_
          intro round
          cases round with
          | zero =>
              rw [Nat.zero_mul, Nat.add_zero, Nat.min_eq_right inside]
              exact here
          | succ round =>
              rw [← nextStop_round]
              exact cuts round
        have unread : (log.getD .empty).size ≠
            nextStop (log.getD .empty).size tail.offset := by
          intro done
          refine rest ?_
          intro round
          rw [← done, Nat.min_eq_left (Nat.le_add_right _ _), done]
          exact next
        have others := @induction
          { offset := nextStop (log.getD .empty).size tail.offset }
          stop next rest unread
        rw [drain, readNewText_eq inside, if_neg more, decoded]
        dsimp only at others ⊢
        rw [String.join_cons, String.utf8ByteSize_append, size]
        omega
      · have lost := decode_inside parts later stop next
        rw [drain, readNewText_eq inside, if_neg more, lost]
        have nothing : (String.join []).utf8ByteSize = 0 := rfl
        dsimp only
        omega

end Drain

/-! ## What is delivered altogether -/

section Delivered

variable {text : String} {log : Option ByteArray} {tail : LogTail}
  {events : List TailEvent}

theorem delivered_size (whole : log.getD .empty ++ appended events =
      text.toByteArray)
    (inside : tail.offset ≤ (log.getD .empty).size) :
    (String.join (delivered log tail events)).utf8ByteSize ≤
      text.utf8ByteSize - tail.offset := by
  induction events generalizing log tail with
  | nil =>
      have size := size_le_of_parts whole
      have drained := drain_size (drainRounds log) inside
      exact Nat.le_trans drained (by omega)
  | cons event events induction =>
      cases event with
      | append bytes =>
          refine induction ?_ ?_
          · rw [Option.getD_some, ByteArray.append_assoc]
            exact whole
          · rw [Option.getD_some, ByteArray.size_append]
            omega
      | read =>
          have stop := nextStop_le (log.getD .empty).size tail.offset
          have others := @induction log
            { offset := nextStop (log.getD .empty).size tail.offset } whole
            stop
          have size := size_le_of_parts whole
          have forward := offset_le_nextStop inside
          rw [delivered_read inside, String.join_append,
            String.utf8ByteSize_append]
          cases read : (tail.readNewText log none).1 with
          | none =>
              have nothing : (String.join (none : Option
                  String).toList).utf8ByteSize = 0 := rfl
              dsimp only at others
              omega
          | some piece =>
              have both : tail.readNewText log none =
                  (some piece, (tail.readNewText log none).2) :=
                Prod.ext read rfl
              obtain ⟨later, -, taken⟩ := readNewText_size inside both
              rw [readNewText_snd inside] at taken
              rw [Option.toList_some, String.join_cons, String.join_nil,
                String.append_empty, taken]
              dsimp only at others ⊢
              omega

/-- One poll that stops between characters delivers what it passes. -/
theorem poll_between {rest : ByteArray}
    (parts : log.getD .empty ++ rest = text.toByteArray)
    (inside : tail.offset ≤ (log.getD .empty).size)
    (here : Boundary text tail.offset)
    (next : Boundary text
      (nextStop (log.getD .empty).size tail.offset)) :
    (String.join (tail.readNewText log none).1.toList).toByteArray =
      text.toByteArray.extract tail.offset
        (nextStop (log.getD .empty).size tail.offset) := by
  have stop := nextStop_le (log.getD .empty).size tail.offset
  rw [readNewText_eq inside]
  split
  · rename_i done
    rw [nextStop_self done, ByteArray.extract_same]
    rfl
  · rename_i more
    have later := offset_lt_nextStop
      (Nat.lt_of_le_of_ne inside (Ne.symm more))
    obtain ⟨piece, decoded, delivers⟩ :=
      decode_between parts (Nat.le_of_lt later) stop here next
    rw [decoded]
    simpa using delivers

theorem delivered_exact
    (whole : log.getD .empty ++ appended events = text.toByteArray)
    (inside : tail.offset ≤ (log.getD .empty).size)
    (here : Boundary text tail.offset)
    (cuts : CutsBetween text (log.getD .empty).size tail.offset events) :
    (String.join (delivered log tail events)).toByteArray =
      text.toByteArray.extract tail.offset text.utf8ByteSize := by
  induction events generalizing log tail with
  | nil =>
      have complete : log.getD .empty = text.toByteArray := by
        rw [← whole]
        exact ByteArray.append_empty.symm
      refine drain_exact complete inside ?_ here cuts
      unfold drainRounds
      omega
  | cons event events induction =>
      cases event with
      | append bytes =>
          refine induction ?_ ?_ here ?_
          · rw [Option.getD_some, ByteArray.append_assoc]
            exact whole
          · rw [Option.getD_some, ByteArray.size_append]
            omega
          · rw [Option.getD_some, ByteArray.size_append]
            exact cuts
      | read =>
          have stop := nextStop_le (log.getD .empty).size tail.offset
          have size := size_le_of_parts whole
          have forward := offset_le_nextStop inside
          have polled := poll_between whole inside here cuts.1
          have others := @induction log
            { offset := nextStop (log.getD .empty).size tail.offset } whole
            stop cuts.1 cuts.2
          rw [delivered_read inside, String.join_append,
            String.toByteArray_append, polled, others]
          refine (ByteArray.extract_eq_extract_append_extract _ forward
            ?_).symm
          omega

theorem delivered_lossy
    (whole : log.getD .empty ++ appended events = text.toByteArray)
    (inside : tail.offset ≤ (log.getD .empty).size)
    (here : Boundary text tail.offset)
    (cut : ¬ CutsBetween text (log.getD .empty).size tail.offset events) :
    (String.join (delivered log tail events)).utf8ByteSize <
      text.utf8ByteSize - tail.offset := by
  induction events generalizing log tail with
  | nil =>
      have complete : log.getD .empty = text.toByteArray := by
        rw [← whole]
        exact ByteArray.append_empty.symm
      have lost := drain_lossy (drainRounds log) complete inside here
        cut
      have size := size_le_of_parts whole
      exact Nat.lt_of_lt_of_le lost (by omega)
  | cons event events induction =>
      cases event with
      | append bytes =>
          refine induction ?_ ?_ here ?_
          · rw [Option.getD_some, ByteArray.append_assoc]
            exact whole
          · rw [Option.getD_some, ByteArray.size_append]
            omega
          · rw [Option.getD_some, ByteArray.size_append]
            exact cut
      | read =>
          have stop := nextStop_le (log.getD .empty).size tail.offset
          have size := size_le_of_parts whole
          have forward := offset_le_nextStop inside
          rw [delivered_read inside, String.join_append,
            String.utf8ByteSize_append]
          by_cases next : Boundary text
              (nextStop (log.getD .empty).size tail.offset)
          · have polled := poll_between whole inside here next
            have taken : (String.join
                (tail.readNewText log none).1.toList).utf8ByteSize =
                  nextStop (log.getD .empty).size tail.offset -
                    tail.offset := by
              have sizes := congrArg ByteArray.size polled
              rw [ByteArray.size_extract] at sizes
              have all : text.toByteArray.size = text.utf8ByteSize := rfl
              rw [String.utf8ByteSize, sizes]
              omega
            have others := @induction log
              { offset := nextStop (log.getD .empty).size tail.offset }
              whole stop next fun cuts => cut ⟨next, cuts⟩
            rw [taken]
            dsimp only at others
            omega
          · have more : (log.getD .empty).size ≠ tail.offset := by
              intro done
              refine next ?_
              rw [nextStop_self done]
              exact here
            have later := offset_lt_nextStop
              (Nat.lt_of_le_of_ne inside (Ne.symm more))
            have others := @delivered_size text log
              { offset := nextStop (log.getD .empty).size tail.offset }
              events whole stop
            rw [readNewText_eq inside, if_neg more,
              decode_inside whole later stop next]
            have nothing : (String.join (none : Option
                String).toList).utf8ByteSize = 0 := rfl
            dsimp only at others ⊢
            omega

end Delivered

/-- The texts delivered are the content of the file exactly when every read
stops between two characters. -/
theorem delivered_iff {text : String} {events : List TailEvent}
    (whole : appended events = text.toByteArray) :
    String.join (delivered none {} events) = text ↔
      CutsBetween text 0 0 events := by
  have parts : (none : Option ByteArray).getD .empty ++ appended events =
      text.toByteArray := by
    rw [Option.getD_none, ByteArray.empty_append, whole]
  have start : Boundary text 0 := String.Pos.Raw.isValid_zero
  constructor
  · intro delivers
    by_contra cut
    have lost := @delivered_lossy text none {} events parts (Nat.zero_le _)
      start cut
    rw [delivers] at lost
    exact Nat.lt_irrefl _ lost
  · intro cuts
    have exactly := @delivered_exact text none {} events parts
      (Nat.zero_le _) start cuts
    rw [← String.toByteArray_inj, exactly]
    exact ByteArray.extract_zero_size

/-- One character of two bytes, polled before its second byte is there. -/
def splitCharacter : List TailEvent :=
  [.append [0xC3].toByteArray, .read, .append [0xA9].toByteArray, .read]

theorem appended_splitCharacter :
    appended splitCharacter = (String.singleton 'é').toByteArray := by
  decide

theorem not_lossless : ¬ ∀ text events,
    appended events = text.toByteArray →
      String.join (delivered none {} events) = text := by
  intro lossless
  have delivers := lossless _ _ appended_splitCharacter
  have inside : ¬ Boundary (String.singleton 'é') 1 := by
    unfold Boundary
    rw [String.Pos.Raw.isValid_singleton]
    decide
  have parts : (none : Option ByteArray).getD .empty ++
      appended splitCharacter = (String.singleton 'é').toByteArray := by
    rw [Option.getD_none, ByteArray.empty_append, appended_splitCharacter]
  have lost := @delivered_lossy _ none {} splitCharacter parts
    (Nat.zero_le _) String.Pos.Raw.isValid_zero fun cuts => inside cuts.1
  rw [delivers] at lost
  exact Nat.lt_irrefl _ lost

def wholeCharacter : List TailEvent :=
  [.append [0xC3].toByteArray, .append [0xA9].toByteArray, .read]

theorem delivered_wholeCharacter :
    String.join (delivered none {} wholeCharacter) =
      String.singleton 'é' := by
  have whole : appended wholeCharacter =
      (String.singleton 'é').toByteArray := by decide
  have between (position : Nat) (ends : position = 0 ∨ position = 2) :
      Boundary (String.singleton 'é') position := by
    unfold Boundary
    rw [String.Pos.Raw.isValid_singleton]
    rcases ends with rfl | rfl
    · exact .inl rfl
    · exact .inr rfl
  refine (delivered_iff whole).mpr ⟨between 2 (.inr rfl), ?_⟩
  intro round
  refine between _ (.inr ?_)
  exact Nat.min_eq_left (Nat.le_add_right 2 _)

end Sendword
