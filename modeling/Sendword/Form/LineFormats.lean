import Sendword.HookTable
import Sendword.Interpolation
import Sendword.Shell.Environment
import Sendword.Text.Lines

/-!
# Lines of the hook form

How a payload field, a filter, a time window and an environment variable are
written in a line of their text area, and how a line is read.
-/

namespace Sendword

/-! ## Texts -/

/-- `str::trim`. -/
def trimmed (text : List Char) : List Char := Text.trim isWhiteSpace text

def trimText (text : String) : String := String.ofList (trimmed text.toList)

/-! ## Payload fields -/

def printPayloadField (field : PayloadField) : List Char :=
  let line := field.name.toList ++ ':' :: (fieldTypeStr field.fieldType).toList
  if field.required then line ++ ':' :: "required".toList else line

def parseFieldType : String → Option FieldType
  | "string" => some .string
  | "number" => some .number
  | "boolean" => some .boolean
  | "object" => some .object
  | "array" => some .array
  | _ => none

/-- One field definition: `name:type[:required]`. -/
def parsePayloadLine (number : Nat) (line : List Char) :
    Except String PayloadField :=
  let text := String.ofList line
  match Text.splitn ':' 3 line with
  | name :: type :: rest =>
      if (trimmed name).isEmpty then
        .error s!"payload line {number}: field name cannot be empty"
      else
        let other := String.ofList (trimmed type)
        match parseFieldType other with
        | none =>
            .error (s!"payload line {number}: unknown type '{other}' " ++
              "(expected string, number, boolean, object, or array)")
        | some fieldType =>
            let field (required : Bool) : PayloadField :=
              { name := String.ofList (trimmed name), fieldType, required }
            match rest with
            | [] => .ok (field false)
            | flag :: _ =>
                match String.ofList (trimmed flag) with
                | "required" => .ok (field true)
                | "optional" | "" => .ok (field false)
                | other =>
                    .error (s!"payload line {number}: expected " ++
                      s!"'required' or 'optional', got '{other}'")
  | _ =>
      .error (s!"payload line {number}: expected 'name:type' or " ++
        s!"'name:type:required', got '{text}'")

def payloadFormat : Text.LineFormat String PayloadField where
  print := printPayloadField
  parse := parsePayloadLine

/-! ## Filters -/

def printFilter (filter : PayloadFilter) : List Char :=
  let line :=
    filter.field.toList ++ ':' :: (filterOperatorStr filter.operator).toList
  match filter.value with
  | some value => line ++ ':' :: value.toList
  | none => line

def parseOperator : String → Option FilterOperator
  | "equals" => some .equals
  | "not_equals" => some .notEquals
  | "contains" => some .contains
  | "regex" => some .regex
  | "exists" => some .exists
  | "gt" => some .gt
  | "lt" => some .lt
  | "gte" => some .gte
  | "lte" => some .lte
  | _ => none

/-- One filter: `field:operator[:value]`. -/
def parseFilterLine (number : Nat) (line : List Char) :
    Except String PayloadFilter :=
  let text := String.ofList line
  match Text.splitn ':' 3 line with
  | field :: operator :: rest =>
      if (trimmed field).isEmpty then
        .error s!"filter line {number}: field name cannot be empty"
      else
        let opStr := String.ofList (trimmed operator)
        match parseOperator opStr with
        | none =>
            .error (s!"filter line {number}: unknown operator '{opStr}' " ++
              "(expected equals, not_equals, contains, regex, exists, gt, " ++
              "lt, gte, lte)")
        | some operator =>
            let filter (value : Option String) : PayloadFilter :=
              { field := String.ofList (trimmed field), operator, value }
            if operator = .exists then .ok (filter none)
            else
              match rest with
              | [] =>
                  .error (s!"filter line {number}: operator '{opStr}' " ++
                    "requires a value")
              | value :: _ =>
                  if (trimmed value).isEmpty then
                    .error (s!"filter line {number}: value required for " ++
                      s!"operator '{opStr}'")
                  else .ok (filter (some (String.ofList (trimmed value))))
  | _ =>
      .error (s!"filter line {number}: expected 'field:operator' or " ++
        s!"'field:operator:value', got '{text}'")

def filterFormat : Text.LineFormat String PayloadFilter where
  print := printFilter
  parse := parseFilterLine

/-! ## Time windows -/

def printWindow (window : TimeWindow) : List Char :=
  [','].intercalate (window.days.map String.toList) ++ ':' ::
    (window.startTime.toList ++ '-' :: window.endTime.toList)

/-- The days before the colon of a window. -/
def parseDays (days : List Char) : List (List Char) :=
  ((days.splitOn ',').map trimmed).filter (· ≠ [])

/-- One window: `Mon,Tue:09:00-17:00`. -/
def parseWindowLine (number : Nat) (line : List Char) :
    Except String TimeWindow :=
  let text := String.ofList line
  match Text.splitOnce ':' line with
  | none =>
      .error (s!"window line {number}: expected 'Days:HH:MM-HH:MM', " ++
        s!"got '{text}'")
  | some (daysPart, timePart) =>
      let days := parseDays daysPart
      if days.isEmpty then
        .error s!"window line {number}: at least one day is required"
      else
        match Text.splitOnce '-' timePart with
        | none =>
            let part := String.ofList timePart
            .error (s!"window line {number}: expected time range " ++
              s!"'HH:MM-HH:MM', got '{part}'")
        | some (startTime, endTime) =>
            let startTime := trimmed startTime
            let endTime := trimmed endTime
            if startTime.isEmpty || endTime.isEmpty then
              .error (s!"window line {number}: start and end times must " ++
                "not be empty")
            else
              .ok
                { days := days.map String.ofList
                  startTime := String.ofList startTime
                  endTime := String.ofList endTime }

def windowFormat : Text.LineFormat String TimeWindow where
  print := printWindow
  parse := parseWindowLine

/-! ## Environment variables -/

/-- The entries of a map in the order of their keys; the first of two entries
with one key counts. -/
def sortedEntries (values : List (String × String)) :
    List (String × String) :=
  values.foldr (fun entry => Toml.insert entry.1 entry.2) []

def printEnvEntry (entry : String × String) : List Char :=
  entry.1.toList ++ '=' :: entry.2.toList

/-- One variable: `KEY=value`.  The line is trimmed, the value is not. -/
def parseEnvLine (line : List Char) : Option (String × String) :=
  match Text.splitOnce '=' (trimmed line) with
  | none => none
  | some (key, value) =>
      if (trimmed key).isEmpty then none
      else some (String.ofList (trimmed key), String.ofList value)

/-- Lines that set no variable are passed over, and a later line wins. -/
def parseEnvText (text : String) : List (String × String) :=
  (Text.lines text.toList).foldl (fun env line =>
    match parseEnvLine line with
    | some entry => entry :: env
    | none => env) []

/-! ## What can be written -/

/-- A word of a line: it is not empty, has no blank at its ends and no line
end. -/
structure Word (text : List Char) : Prop where
  nonempty : text ≠ []
  trimmed : Text.Trimmed isWhiteSpace text
  single : Text.SingleLine text

structure PayloadField.Writable (field : PayloadField) : Prop where
  word : Word field.name.toList
  colon : ':' ∉ field.name.toList

structure PayloadFilter.Writable (filter : PayloadFilter) : Prop where
  word : Word filter.field.toList
  colon : ':' ∉ filter.field.toList
  /-- Only `exists` goes without a value. -/
  value : filter.operator = .exists ↔ filter.value = none
  valueWord : ∀ value ∈ filter.value, Word value.toList

structure TimeWindow.Writable (window : TimeWindow) : Prop where
  days : window.days ≠ []
  dayWord : ∀ day ∈ window.days, Word day.toList
  dayMarks : ∀ day ∈ window.days, ',' ∉ day.toList ∧ ':' ∉ day.toList
  startWord : Word window.startTime.toList
  dash : '-' ∉ window.startTime.toList
  endWord : Word window.endTime.toList

structure WritableEntry (entry : String × String) : Prop where
  word : Word entry.1.toList
  equals : '=' ∉ entry.1.toList
  single : Text.SingleLine entry.2.toList
  last : ∀ char, entry.2.toList.getLast? = some char →
    isWhiteSpace char = false

section Words

variable {text first second : List Char}

theorem Word.of_all (nonempty : text ≠ [])
    (all : text.all (fun char => !isWhiteSpace char) = true) : Word text := by
  have dark (char : Char) (member : char ∈ text) :
      isWhiteSpace char = false := by
    simpa using List.all_eq_true.mp all char member
  refine ⟨nonempty, ⟨fun char isHead => ?_, fun char isLast => ?_⟩,
    fun feed => ?_⟩
  · exact dark char (List.mem_of_mem_head? isHead)
  · exact dark char (List.mem_of_getLast? isLast)
  · exact Bool.noConfusion (dark _ feed)

theorem Word.join {mark : Char} (before : Word first)
    (plain : mark ≠ '\n') (after : Word second) :
    Word (first ++ mark :: second) where
  nonempty := by simp
  trimmed := by
    have whole := before.trimmed.append after.trimmed before.nonempty
      after.nonempty [mark]
    rwa [List.append_assoc] at whole
  single := by
    intro feed
    rcases List.mem_append.mp feed with inFirst | later
    · exact before.single inFirst
    · rcases List.mem_cons.mp later with same | inSecond
      · exact plain same.symm
      · exact after.single inSecond

/-- What is trimmed out of a line is a word, or nothing. -/
theorem Word.of_piece (single : Text.SingleLine text)
    (piece : ∀ char ∈ first, char ∈ text)
    (filled : Sendword.trimmed first ≠ []) : Word (Sendword.trimmed first) :=
  ⟨filled, Text.trimmed_trim first, fun feed =>
    single (piece _ (Text.mem_of_mem_trim feed))⟩

theorem Word.trimmed_eq (word : Word text) : Sendword.trimmed text = text :=
  word.trimmed.trim_eq

end Words

/-! ## Payload fields -/

section PayloadFields

theorem word_fieldTypeStr (fieldType : FieldType) :
    Word (fieldTypeStr fieldType).toList ∧
      ':' ∉ (fieldTypeStr fieldType).toList := by
  cases fieldType <;> exact ⟨.of_all (by decide) (by decide), by decide⟩

theorem parseFieldType_fieldTypeStr (fieldType : FieldType) :
    parseFieldType (fieldTypeStr fieldType) = some fieldType := by
  cases fieldType <;> rfl

theorem payloadFormat_lawful :
    payloadFormat.Lawful isWhiteSpace PayloadField.Writable := by
  have printed (field : PayloadField) (writable : field.Writable) :
      Word (printPayloadField field) := by
    have kind := (word_fieldTypeStr field.fieldType).1
    have line := writable.word.join (by decide : ':' ≠ '\n') kind
    unfold printPayloadField
    dsimp only
    split
    · exact line.join (by decide) (.of_all (by decide) (by decide))
    · exact line
  refine
    { print_nonempty := fun field writable => (printed field writable).nonempty
      print_single := fun field writable => (printed field writable).single
      print_trimmed := fun field writable => (printed field writable).trimmed
      parse_print := ?_
      writable_of_parse := ?_ }
  · rintro ⟨name, fieldType, required⟩ writable number
    obtain ⟨kind, noColon⟩ := word_fieldTypeStr fieldType
    have named := writable.word.trimmed_eq
    have filled : name.toList.isEmpty = false := by
      simpa using writable.word.nonempty
    have flag : String.ofList (trimmed "required".toList) = "required" := by
      decide
    change parsePayloadLine number (printPayloadField _) = .ok _
    unfold parsePayloadLine printPayloadField
    cases required with
    | false =>
        simp only [Bool.false_eq_true, if_false,
          Text.splitn_two writable.colon noColon, named, kind.trimmed_eq,
          filled, String.ofList_toList, parseFieldType_fieldTypeStr]
    | true =>
        simp only [if_true, List.append_assoc, List.cons_append,
          Text.splitn_three writable.colon noColon, named, kind.trimmed_eq,
          filled, String.ofList_toList, parseFieldType_fieldTypeStr, flag]
        rfl
  · intro number line field single trimmed parsed
    change parsePayloadLine number line = .ok field at parsed
    unfold parsePayloadLine at parsed
    dsimp only at parsed
    split at parsed
    · rename_i name kind rest split
      have inLine := Text.mem_splitn (split ▸ List.mem_cons_self :
        name ∈ Text.splitn ':' 3 line)
      have colon := Text.splitn_head split
      split at parsed
      · cases parsed
      · rename_i filled
        have word : Word (Sendword.trimmed name) :=
          .of_piece single inLine (by simpa using filled)
        have writable (required : Bool) (fieldType : FieldType) :
            PayloadField.Writable
              { name := String.ofList (Sendword.trimmed name), fieldType,
                required } := by
          refine ⟨?_, fun member => colon ?_⟩
          · rwa [String.toList_ofList]
          · rw [String.toList_ofList] at member
            exact Text.mem_of_mem_trim member
        split at parsed
        · cases parsed
        · rename_i fieldType known
          split at parsed
          · cases parsed
            exact writable _ _
          · split at parsed
            · cases parsed
              exact writable _ _
            · cases parsed
              exact writable _ _
            · cases parsed
              exact writable _ _
            · cases parsed
    · cases parsed

end PayloadFields

/-! ## Filters -/

section Filters

theorem word_filterOperatorStr (operator : FilterOperator) :
    Word (filterOperatorStr operator).toList ∧
      ':' ∉ (filterOperatorStr operator).toList := by
  cases operator <;> exact ⟨.of_all (by decide) (by decide), by decide⟩

theorem parseOperator_filterOperatorStr (operator : FilterOperator) :
    parseOperator (filterOperatorStr operator) = some operator := by
  cases operator <;> rfl

theorem filterFormat_lawful :
    filterFormat.Lawful isWhiteSpace PayloadFilter.Writable := by
  have printed (filter : PayloadFilter) (writable : filter.Writable) :
      Word (printFilter filter) := by
    have kind := (word_filterOperatorStr filter.operator).1
    have line := writable.word.join (by decide : ':' ≠ '\n') kind
    unfold printFilter
    dsimp only
    split
    · rename_i value isValue
      exact line.join (by decide) (writable.valueWord value isValue)
    · exact line
  refine
    { print_nonempty := fun filter writable => (printed filter writable).nonempty
      print_single := fun filter writable => (printed filter writable).single
      print_trimmed := fun filter writable => (printed filter writable).trimmed
      parse_print := ?_
      writable_of_parse := ?_ }
  · rintro ⟨field, operator, value⟩ writable number
    obtain ⟨kind, noColon⟩ := word_filterOperatorStr operator
    have named := writable.word.trimmed_eq
    have filled : field.toList.isEmpty = false := by
      simpa using writable.word.nonempty
    change parseFilterLine number (printFilter _) = .ok _
    unfold parseFilterLine printFilter
    cases value with
    | none =>
        obtain rfl : operator = .exists := writable.value.mpr rfl
        simp only [Text.splitn_two writable.colon noColon, named,
          kind.trimmed_eq, filled, String.ofList_toList,
          parseOperator_filterOperatorStr, if_true, Bool.false_eq_true,
          if_false]
    | some value =>
        have word := writable.valueWord value rfl
        have other : operator ≠ .exists := fun same => by
          cases writable.value.mp same
        have given : value.toList.isEmpty = false := by
          simpa using word.nonempty
        simp only [List.append_assoc, List.cons_append,
          Text.splitn_three writable.colon noColon, named, kind.trimmed_eq,
          filled, String.ofList_toList, parseOperator_filterOperatorStr,
          Bool.false_eq_true, if_false, if_neg other, word.trimmed_eq, given]
  · intro number line filter single trimmed parsed
    change parseFilterLine number line = .ok filter at parsed
    unfold parseFilterLine at parsed
    dsimp only at parsed
    split at parsed
    · rename_i field operator rest split
      have inLine {piece : List Char}
          (member : piece ∈ field :: operator :: rest) :
          ∀ char ∈ piece, char ∈ line :=
        Text.mem_splitn (split ▸ member)
      have colon := Text.splitn_head split
      split at parsed
      · cases parsed
      · rename_i filled
        have word : Word (Sendword.trimmed field) :=
          .of_piece single (inLine List.mem_cons_self) (by simpa using filled)
        have noColon : ':' ∉ Sendword.trimmed field := fun member =>
          colon (Text.mem_of_mem_trim member)
        split at parsed
        · cases parsed
        · rename_i known isKnown
          split at parsed
          · rename_i isExists
            cases parsed
            subst isExists
            refine ⟨?_, ?_, iff_of_true rfl rfl, fun value none => by
              cases none⟩
            · rwa [String.toList_ofList]
            · rwa [String.toList_ofList]
          · rename_i other
            split at parsed
            · cases parsed
            · rename_i value more
              split at parsed
              · cases parsed
              · rename_i given
                cases parsed
                refine ⟨?_, ?_, iff_of_false other (fun none => by cases none),
                  fun text isText => ?_⟩
                · rwa [String.toList_ofList]
                · rwa [String.toList_ofList]
                · cases isText
                  rw [String.toList_ofList]
                  exact .of_piece single (inLine (by simp))
                    (by simpa using given)
    · cases parsed

end Filters

/-! ## Time windows -/

section Windows

theorem mem_intercalate {mark char : Char} {pieces : List (List Char)}
    (member : char ∈ [mark].intercalate pieces) :
    char = mark ∨ ∃ piece ∈ pieces, char ∈ piece := by
  induction pieces with
  | nil => cases member
  | cons piece pieces induction =>
      cases pieces with
      | nil =>
          rw [List.intercalate_singleton] at member
          exact .inr ⟨piece, List.mem_cons_self, member⟩
      | cons next rest =>
          rw [List.intercalate_cons_cons] at member
          simp only [List.mem_append, List.mem_singleton] at member
          rcases member with (inPiece | isMark) | later
          · exact .inr ⟨piece, List.mem_cons_self, inPiece⟩
          · exact .inl isMark
          · refine (induction later).imp id ?_
            rintro ⟨other, inside, inOther⟩
            exact ⟨other, List.mem_cons_of_mem _ inside, inOther⟩

/-- Words with commas between them are a word. -/
theorem word_intercalate {mark : Char} {pieces : List (List Char)}
    (plain : mark ≠ '\n') (nonempty : pieces ≠ [])
    (words : ∀ piece ∈ pieces, Word piece) :
    Word ([mark].intercalate pieces) := by
  induction pieces with
  | nil => exact (nonempty rfl).elim
  | cons piece pieces induction =>
      have first := words piece List.mem_cons_self
      cases pieces with
      | nil =>
          rw [List.intercalate_singleton]
          exact first
      | cons next rest =>
          have later := induction (by simp) fun other member =>
            words other (List.mem_cons_of_mem _ member)
          have whole := first.join plain later
          rw [List.intercalate_cons_cons]
          simpa using whole

theorem parseDays_intercalate {days : List (List Char)}
    (nonempty : days ≠ []) (words : ∀ day ∈ days, Word day)
    (commas : ∀ day ∈ days, ',' ∉ day) :
    parseDays ([','].intercalate days) = days := by
  rw [parseDays, List.splitOn_intercalate ',' commas nonempty]
  have same : days.map trimmed = days := by
    conv_rhs => rw [← List.map_id days]
    exact List.map_congr_left fun day member => (words day member).trimmed_eq
  rw [same, List.filter_eq_self]
  exact fun day member => by simpa using (words day member).nonempty

theorem windowFormat_lawful :
    windowFormat.Lawful isWhiteSpace TimeWindow.Writable := by
  have dayWords {window : TimeWindow} (writable : window.Writable) :
      ∀ day ∈ window.days.map String.toList, Word day := by
    intro day member
    obtain ⟨text, inside, rfl⟩ := List.mem_map.mp member
    exact writable.dayWord text inside
  have printed (window : TimeWindow) (writable : window.Writable) :
      Word (printWindow window) := by
    have days := word_intercalate (by decide : ',' ≠ '\n')
      (by simpa using writable.days) (dayWords writable)
    exact days.join (by decide)
      (writable.startWord.join (by decide) writable.endWord)
  refine
    { print_nonempty := fun window writable => (printed window writable).nonempty
      print_single := fun window writable => (printed window writable).single
      print_trimmed := fun window writable => (printed window writable).trimmed
      parse_print := ?_
      writable_of_parse := ?_ }
  · intro window writable number
    have commas : ∀ day ∈ window.days.map String.toList, ',' ∉ day := by
      intro day member
      obtain ⟨text, inside, rfl⟩ := List.mem_map.mp member
      exact (writable.dayMarks text inside).1
    have colon : ':' ∉ [','].intercalate (window.days.map String.toList) := by
      intro member
      rcases mem_intercalate member with comma | ⟨day, inDays, inDay⟩
      · cases comma
      · obtain ⟨text, inside, rfl⟩ := List.mem_map.mp inDays
        exact (writable.dayMarks text inside).2 inDay
    have days := parseDays_intercalate (by simpa using writable.days)
      (dayWords writable) commas
    have some : (window.days.map String.toList).isEmpty = false := by
      simpa using writable.days
    have start : window.startTime.toList.isEmpty = false := by
      simpa using writable.startWord.nonempty
    have stop : window.endTime.toList.isEmpty = false := by
      simpa using writable.endWord.nonempty
    change parseWindowLine number (printWindow window) = .ok window
    unfold parseWindowLine printWindow
    simp only [Text.splitOnce_append colon, Text.splitOnce_append writable.dash,
      days, some, writable.startWord.trimmed_eq, writable.endWord.trimmed_eq,
      start, stop, Bool.or_self, Bool.false_eq_true, if_false,
      String.ofList_toList, List.map_map]
    have same : window.days.map (String.ofList ∘ String.toList) =
        window.days := by
      conv_rhs => rw [← List.map_id window.days]
      exact List.map_congr_left fun day _ => String.ofList_toList
    rw [same]
  · intro number line window single trimmed parsed
    change parseWindowLine number line = .ok window at parsed
    unfold parseWindowLine at parsed
    dsimp only at parsed
    split at parsed
    · cases parsed
    · rename_i daysPart timePart split
      obtain ⟨rfl, colon⟩ := Text.splitOnce_some split
      split at parsed
      · cases parsed
      · rename_i someDays
        split at parsed
        · cases parsed
        · rename_i startTime endTime split
          obtain ⟨rfl, dash⟩ := Text.splitOnce_some split
          split at parsed
          · cases parsed
          · rename_i times
            simp only [Bool.or_eq_true, List.isEmpty_iff, not_or] at times
            cases parsed
            have day {piece : List Char}
                (member : piece ∈ parseDays daysPart) :
                Word piece ∧ ',' ∉ piece ∧ ':' ∉ piece := by
              simp only [parseDays, List.mem_filter, List.mem_map,
                decide_eq_true_eq] at member
              obtain ⟨⟨part, inParts, rfl⟩, filled⟩ := member
              have known := Text.mem_splitOn inParts
              refine ⟨.of_piece single (fun char inside =>
                List.mem_append_left _ (known char inside).1) filled, ?_, ?_⟩
              · exact fun comma =>
                  (known _ (Text.mem_of_mem_trim comma)).2 rfl
              · exact fun inside =>
                  colon (known _ (Text.mem_of_mem_trim inside)).1
            refine ⟨?_, ?_, ?_, ?_, ?_, ?_⟩
            · simpa using someDays
            · intro text inside
              obtain ⟨piece, member, rfl⟩ := List.mem_map.mp inside
              rw [String.toList_ofList]
              exact (day member).1
            · intro text inside
              obtain ⟨piece, member, rfl⟩ := List.mem_map.mp inside
              rw [String.toList_ofList]
              exact (day member).2
            · rw [String.toList_ofList]
              exact .of_piece single (fun char inside => by simp [inside])
                times.1
            · rw [String.toList_ofList]
              exact fun inside => dash (Text.mem_of_mem_trim inside)
            · rw [String.toList_ofList]
              exact .of_piece single (fun char inside => by simp [inside])
                times.2

end Windows

/-! ## Environment variables -/

section Variables

variable {values : List (String × String)}

theorem sorted_sortedEntries (values : List (String × String)) :
    Toml.Sorted (sortedEntries values) := by
  induction values with
  | nil => exact List.Pairwise.nil
  | cons entry values induction => exact Toml.sorted_insert _ _ induction

@[simp] theorem lookup_sortedEntries (values : List (String × String))
    (key : String) :
    (sortedEntries values).lookup key = values.lookup key := by
  induction values with
  | nil => rfl
  | cons entry values induction =>
      obtain ⟨name, value⟩ := entry
      change (Toml.insert name value (sortedEntries values)).lookup key = _
      rw [Toml.lookup_insert, induction, Toml.lookup_cons]

theorem nodup_sortedEntries (values : List (String × String)) :
    ((sortedEntries values).map Prod.fst).Nodup := by
  refine List.pairwise_map.mpr ?_
  exact (sorted_sortedEntries values).imp fun below => ne_of_lt below

theorem mem_sortedEntries {key value : String} :
    (key, value) ∈ sortedEntries values ↔ values.lookup key = some value := by
  rw [Toml.mem_iff_lookup (sorted_sortedEntries values),
    lookup_sortedEntries]

theorem WritableEntry.printed {entry : String × String}
    (writable : WritableEntry entry) : Word (printEnvEntry entry) := by
  refine ⟨by simp [printEnvEntry], ⟨fun char isHead => ?_, fun char isLast => ?_⟩,
    fun feed => ?_⟩
  · refine writable.word.trimmed.head char ?_
    rwa [printEnvEntry, List.head?_append_of_ne_nil _
      writable.word.nonempty] at isHead
  · rw [printEnvEntry, List.getLast?_append_of_ne_nil _ (by simp)] at isLast
    cases isValue : entry.2.toList with
    | nil =>
        rw [isValue] at isLast
        cases isLast
        rfl
    | cons first rest =>
        rw [isValue, List.getLast?_cons_cons, ← isValue] at isLast
        exact writable.last char isLast
  · rcases List.mem_append.mp feed with inKey | later
    · exact writable.word.single inKey
    · rcases List.mem_cons.mp later with same | inValue
      · cases same
      · exact writable.single inValue

theorem parseEnvLine_printEnvEntry {entry : String × String}
    (writable : WritableEntry entry) :
    parseEnvLine (printEnvEntry entry) = some entry := by
  have filled : entry.1.toList.isEmpty = false := by
    simpa using writable.word.nonempty
  unfold parseEnvLine
  rw [writable.printed.trimmed_eq, printEnvEntry,
    Text.splitOnce_append writable.equals]
  simp only [writable.word.trimmed_eq, filled, Bool.false_eq_true, if_false,
    String.ofList_toList]

theorem writableEntry_of_parse {line : List Char} {entry : String × String}
    (single : Text.SingleLine line)
    (parsed : parseEnvLine line = some entry) : WritableEntry entry := by
  unfold parseEnvLine at parsed
  split at parsed
  · cases parsed
  · rename_i key value split
    obtain ⟨whole, equals⟩ := Text.splitOnce_some split
    split at parsed
    · cases parsed
    · rename_i filled
      cases parsed
      have inside {char : Char} (member : char ∈ key ++ '=' :: value) :
          char ∈ line := Text.mem_of_mem_trim (whole ▸ member)
      refine ⟨?_, ?_, ?_, fun char isLast => ?_⟩
      · rw [String.toList_ofList]
        exact .of_piece single
          (fun char member => inside (List.mem_append_left _ member))
          (by simpa using filled)
      · rw [String.toList_ofList]
        exact fun member => equals (Text.mem_of_mem_trim member)
      · rw [String.toList_ofList]
        exact fun feed => single (inside (by simp [feed]))
      · rw [String.toList_ofList] at isLast
        refine (Text.trimmed_trim line).last char ?_
        change (trimmed line).getLast? = some char
        rw [whole, List.getLast?_append_of_ne_nil _ (by simp)]
        cases value with
        | nil => cases isLast
        | cons first rest => rwa [List.getLast?_cons_cons]

theorem parseEnvText_eq (text : String) :
    parseEnvText text =
      ((Text.lines text.toList).filterMap parseEnvLine).reverse := by
  have all (env : List (String × String)) (given : List (List Char)) :
      given.foldl (fun env line =>
        match parseEnvLine line with
        | some entry => entry :: env
        | none => env) env =
        (given.filterMap parseEnvLine).reverse ++ env := by
    induction given generalizing env with
    | nil => rfl
    | cons line given induction =>
        rw [List.foldl_cons, induction, List.filterMap_cons]
        cases parseEnvLine line with
        | none => rfl
        | some entry => simp
  rw [parseEnvText, all, List.append_nil]

/-- The environment comes back from its text area exactly when each variable
is writable. -/
theorem parseEnvText_iff (values : List (String × String)) :
    (∀ key, (parseEnvText (String.ofList (Text.joinLines
        ((sortedEntries values).map printEnvEntry)))).lookup key =
          values.lookup key) ↔
      ∀ key value, values.lookup key = some value →
        WritableEntry (key, value) := by
  constructor
  · intro same key value found
    have back := (same key).trans found
    rw [parseEnvText_eq, String.toList_ofList] at back
    obtain ⟨before, after, whole, -⟩ := List.lookup_eq_some_iff.mp back
    have member : (key, value) ∈ (Text.lines (Text.joinLines
        ((sortedEntries values).map printEnvEntry))).filterMap
          parseEnvLine := by
      rw [← List.mem_reverse, whole]
      simp
    obtain ⟨line, inLines, parsed⟩ := List.mem_filterMap.mp member
    exact writableEntry_of_parse (Text.singleLine_of_mem_lines inLines) parsed
  · intro writable key
    have each (entry : String × String) (member : entry ∈ sortedEntries values) :
        WritableEntry entry :=
      writable entry.1 entry.2 (mem_sortedEntries.mp member)
    have areLines : Text.lines (Text.joinLines
        ((sortedEntries values).map printEnvEntry)) =
        (sortedEntries values).map printEnvEntry := by
      refine Text.LineFormat.lines_joinLines ?_ ?_ ?_
      all_goals
        intro line member
        obtain ⟨entry, inside, rfl⟩ := List.mem_map.mp member
        have printed := (each entry inside).printed
      · exact printed.single
      · exact printed.nonempty
      · intro isLast
        cases printed.trimmed.last '\r' isLast
    have areEntries : ((sortedEntries values).map printEnvEntry).filterMap
        parseEnvLine = sortedEntries values := by
      rw [List.filterMap_map]
      refine (List.filterMap_congr fun entry member => ?_).trans
        List.filterMap_some
      exact parseEnvLine_printEnvEntry (each entry member)
    rw [parseEnvText_eq, String.toList_ofList, areLines, areEntries,
      Environment.lookup_reverse (nodup_sortedEntries values),
      lookup_sortedEntries]

end Variables

end Sendword
