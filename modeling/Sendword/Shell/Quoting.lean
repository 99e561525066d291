import Sendword.Shell.Lexer

/-!
# Quoted values inside commands

Where a command is read as plain text, a value in single quotes is one
literal part of a word, whatever it contains.  Elsewhere two values leave
different marks.
-/

namespace Shell

/-- A value in single quotes; a quote inside closes, stands escaped, and
opens again. -/
def quoteChar (char : Char) : List Char :=
  if char = '\'' then ['\'', '\\', '\'', '\''] else [char]

def quote (value : List Char) : List Char :=
  '\'' :: (value.flatMap quoteChar ++ ['\''])

namespace State

/-- A quote would open a literal part of a word. -/
def opensQuotes (state : State) : Bool :=
  match state.mode with
  | .text | .name => quotesActive state.nests
  | .paren => true
  | _ => false

/-- The next character is read as command text in which quotes are active, and
not as a part of a file descriptor. -/
def plain (state : State) : Bool :=
  state.opensQuotes &&
    (state.mode == .paren || state.frame.position != .descriptor)

theorem read_cons (state : State) (char : Char) (text : List Char) :
    state.read (char :: text) =
      ((state.step char).1 ++ ((state.step char).2.read text).1,
        ((state.step char).2.read text).2) := rfl

@[simp] theorem read_nil (state : State) : state.read [] = ([], state) := rfl

theorem read_append (state : State) (first second : List Char) :
    state.read (first ++ second) =
      ((state.read first).1 ++ ((state.read first).2.read second).1,
        ((state.read first).2.read second).2) :=
  Scanner.run_append first second

/-! ## Plain text -/

/-- Inside single quotes that a literal part of a word has opened. -/
structure Held (state : State) : Prop where
  mode : state.mode = .single
  word : state.word = .other
  last : state.last = none
  quotes : quotesActive state.nests = true

theorem readText_quote {state : State}
    (quotes : quotesActive state.nests = true) :
    state.readText '\'' = state.openSingle := by
  unfold readText
  cases nests : state.nests with
  | nil => simp [readCommand]
  | cons nest nests =>
      rw [nests] at quotes
      cases nest with
      | substitution outer => simp [readCommand]
      | parameter active =>
          cases active with
          | true => simp [readParameter]
          | false => cases quotes
      | double | arithmetic => cases quotes

/-- The quote comes behind what it ends, and opens. -/
theorem step_quote {state : State} (opens : state.opensQuotes = true) :
    state.step '\'' = andThen state.settle openSingle ∧
      quotesActive state.settle.2.nests = true := by
  unfold opensQuotes at opens
  unfold step
  rw [if_neg (by simp)]
  cases mode : state.mode with
  | text =>
      rw [mode] at opens
      have settled : state.settle = ([], state) := by
        rw [settle, mode]
        exact congrArg (Prod.mk []) (by rw [within, ← mode])
      rw [settled]
      exact ⟨readText_quote opens, opens⟩
  | name =>
      rw [mode] at opens
      have settled : state.settle = ([], state.within .text) := by
        rw [settle, mode]
      have active : quotesActive (state.within .text).nests = true := opens
      have other : isNameChar '\'' = false := by decide
      simp only [readName, other, settleText, settled, andThen,
        readText_quote active]
      exact ⟨rfl, opens⟩
  | paren =>
      have active : quotesActive state.settle.2.nests = true := by
        rw [settle, mode]
        rfl
      simp only [readParen, settleText, andThen, readText_quote active]
      exact ⟨rfl, active⟩
  | escaped | single | comment | dollar | brace | closing | backquote
  | delimiter | body | unspecified =>
      rw [mode] at opens
      cases opens

/-- Reading an opening quote. -/
theorem step_quote_held {state : State} (opens : state.opensQuotes = true) :
    Held (state.step '\'').2 := by
  obtain ⟨reads, quotes⟩ := step_quote opens
  rw [reads]
  exact ⟨rfl, rfl, rfl, quotes⟩

theorem opensQuotes_of_plain {state : State} (plain : state.plain = true) :
    state.opensQuotes = true :=
  (Bool.and_eq_true_iff.mp plain).1

/-- It begins a literal part, and no file descriptor. -/
theorem step_quote_plain {state : State} (plain : state.plain = true) :
    (state.step '\'').2.literal = true ∧
      (state.step '\'').2.frame.position ≠ .descriptor := by
  have opens := opensQuotes_of_plain plain
  refine ⟨by rw [(step_quote opens).1]; rfl, ?_⟩
  have kept : (state.step '\'').2.frame = state.settle.2.frame := by
    rw [(step_quote opens).1]
    rfl
  rw [kept]
  unfold State.plain opensQuotes at plain
  unfold settle
  cases mode : state.mode with
  | text | name =>
      simpa [mode, within] using (Bool.and_eq_true_iff.mp plain).2
  | paren => simp [put]
  | escaped | single | comment | dollar | brace | closing | backquote
  | delimiter | body | unspecified => simp [mode] at plain

/-- A quote in the value closes, stands escaped, and opens again. -/
theorem Held.read_quote {state : State} (held : Held state) :
    state.read (quoteChar '\'') =
      (state.part.1, { state with literal := true }) := by
  obtain ⟨nests, mode, frame, word, literal, last⟩ := state
  obtain ⟨rfl, rfl, rfl, quotes⟩ := held
  cases nests with
  | nil => cases literal <;> rfl
  | cons nest nests =>
      cases nest with
      | substitution outer => cases literal <;> rfl
      | parameter active =>
          cases active with
          | true => cases literal <;> rfl
          | false => cases quotes
      | double | arithmetic => cases quotes

theorem Held.read_other {state : State} (held : Held state) {char : Char}
    (other : char ≠ '\'') :
    state.read (quoteChar char) = state.readSingle char := by
  rw [quoteChar, if_neg other, read_cons]
  simp [step, held.mode, Mode.escapes]

/-- A character of the value changes nothing. -/
theorem Held.read_quoteChar {state : State} (held : Held state)
    (literal : state.literal = true)
    (position : state.frame.position ≠ .descriptor) (char : Char) :
    state.read (quoteChar char) = ([], state) := by
  by_cases quoted : char = '\''
  · have nothing : state.part.1 = [] := if_pos literal
    rw [quoted, held.read_quote, nothing, ← literal]
  · rw [held.read_other quoted, readSingle, if_neg quoted, if_neg position]

theorem Held.read_value {state : State} (held : Held state)
    (literal : state.literal = true)
    (position : state.frame.position ≠ .descriptor) (value : List Char) :
    state.read (value.flatMap quoteChar) = ([], state) := by
  induction value with
  | nil => rfl
  | cons char value induction =>
      rw [List.flatMap_cons, read_append,
        held.read_quoteChar literal position, induction]
      rfl

/-- In plain text all values have the same effect. -/
theorem read_quote_plain {state : State} (plain : state.plain = true)
    (value : List Char) :
    state.read (quote value) = state.read (quote []) := by
  have held := step_quote_held (opensQuotes_of_plain plain)
  obtain ⟨literal, position⟩ := step_quote_plain plain
  have empty : (state.step '\'').2.read (List.flatMap quoteChar []) =
      ([], (state.step '\'').2) := rfl
  simp only [quote, read_cons, read_append,
    held.read_value literal position value, empty]

/-! ## Comments -/

theorem read_comment {state : State} (comment : state.mode = .comment)
    {text : List Char} (oneLine : '\n' ∉ text) :
    state.read text = ([], state) := by
  induction text with
  | nil => rfl
  | cons char text induction =>
      have other : ¬ char = '\n' := by
        rintro rfl
        exact oneLine (by simp)
      have rest := induction fun member => oneLine (by simp [member])
      simp [read_cons, step, comment, other, rest, Mode.escapes]

theorem not_mem_quote {char : Char} {value : List Char}
    (ordinary : char ≠ '\'') (other : char ≠ '\\')
    (absent : char ∉ value) : char ∉ quote value := by
  simp only [quote, List.mem_cons, List.mem_append, List.mem_flatMap,
    List.not_mem_nil, or_false, not_or, not_exists, not_and]
  refine ⟨ordinary, fun inner member inside => ?_, ordinary⟩
  unfold quoteChar at inside
  split at inside
  · simp_all
  · rw [List.mem_singleton] at inside
    exact absent (inside ▸ member)

end State

/-! ## Everywhere else -/

namespace State

/-- A letter that is read next can be told from its mark. -/
def tells (state : State) : Bool :=
  match state.mode with
  | .dollar | .backquote _ | .delimiter .. | .body .. | .unspecified => true
  | .single => state.frame.position == .descriptor
  | _ => false

/-- The marks of two letters differ, after a common front. -/
theorem step_tells {state : State} (tells : state.tells = true) :
    ∃ (front : List Mark) (first second : Mark), first ≠ second ∧
      (state.step 'a').1 = front ++ [first] ∧
      (state.step 'b').1 = front ++ [second] := by
  have verbatim (shows : ∀ char : Char, char = 'a' ∨ char = 'b' →
      (state.step char).1 = [.verbatim char]) :
      ∃ (front : List Mark) (first second : Mark), first ≠ second ∧
        (state.step 'a').1 = front ++ [first] ∧
        (state.step 'b').1 = front ++ [second] :=
    ⟨[], .verbatim 'a', .verbatim 'b', by decide, shows 'a' (.inl rfl),
      shows 'b' (.inr rfl)⟩
  unfold State.tells at tells
  cases mode : state.mode with
  | single =>
      rw [mode] at tells
      have position := beq_iff_eq.mp tells
      refine verbatim ?_
      rintro char (rfl | rfl)
      · simp [step, mode, readSingle, position, put, Mode.escapes]
      · simp [step, mode, readSingle, position, put, Mode.escapes]
  | dollar =>
      refine ⟨[.expansion '$'], .expansion 'a', .expansion 'b', by decide,
        ?_, ?_⟩
      · rw [step, mode]
        rfl
      · rw [step, mode]
        rfl
  | backquote escaped =>
      refine verbatim ?_
      rintro char (rfl | rfl)
      · rw [step, mode]
        cases escaped <;> rfl
      · rw [step, mode]
        cases escaped <;> rfl
  | delimiter document quote fresh =>
      refine verbatim ?_
      rintro char (rfl | rfl)
      · rw [step, mode]
        cases quote <;> rfl
      · rw [step, mode]
        cases quote <;> rfl
  | body document others line escaped continued =>
      refine verbatim ?_
      rintro char (rfl | rfl)
      · rw [step, mode]
        rfl
      · rw [step, mode]
        rfl
  | unspecified =>
      refine verbatim ?_
      rintro char (rfl | rfl)
      · rw [step, mode]
        rfl
      · rw [step, mode]
        rfl
  | text | escaped | comment | name | paren | brace | closing =>
      rw [mode] at tells
      cases tells

/-- In whatever context, `"$` ends or opens double quotes and begins an
expansion. -/
theorem read_expansion {state : State} (text : state.mode = .text) :
    (state.read ['{', '"', '$']).2.tells = true := by
  obtain ⟨nests, mode, frame, word, literal, last⟩ := state
  obtain rfl : mode = .text := text
  cases nests with
  | nil => rfl
  | cons nest nests =>
      cases nest with
      | substitution outer => rfl
      | double => rfl
      | parameter quotes => cases quotes <;> rfl
      | arithmetic depth => cases depth <;> rfl

/-- The quote in front of a value, and a value that begins like an object
with the key `$a`. -/
def opening : List Char := ['\'', '{', '"', '$']

theorem opening_of_text {state : State}
    (text : (state.step '\'').2.mode = .text) :
    (state.read opening).2.tells = true := by
  rw [opening, read_cons]
  exact read_expansion text

/-- What is left open stays so. -/
theorem read_unspecified {state : State}
    (unspecified : state.mode = .unspecified) (text : List Char) :
    (state.read text).2.mode = .unspecified := by
  induction text generalizing state with
  | nil => exact unspecified
  | cons char text induction =>
      rw [read_cons]
      apply induction
      rw [step, unspecified, if_neg (by simp [Mode.escapes])]
      exact unspecified

theorem opening_of_unspecified {state : State}
    (unspecified : (state.step '\'').2.mode = .unspecified) :
    (state.read opening).2.tells = true := by
  rw [opening, read_cons]
  simp only [State.tells, read_unspecified unspecified]

/-- Quoted text goes on up to a quote. -/
theorem read_single {state : State} (single : state.mode = .single)
    {text : List Char} (noQuote : '\'' ∉ text) :
    (state.read text).2.mode = .single ∧
      (state.read text).2.frame = state.frame := by
  induction text generalizing state with
  | nil => exact ⟨single, rfl⟩
  | cons char text induction =>
      obtain ⟨other, rest⟩ := List.ne_and_not_mem_of_not_mem_cons noQuote
      have reads : state.step char = state.readSingle char := by
        rw [step, single, if_neg (by simp [Mode.escapes])]
      have here : (state.readSingle char).2.mode = .single ∧
          (state.readSingle char).2.frame = state.frame := by
        unfold readSingle
        rw [if_neg other.symm]
        split
        · exact ⟨single, rfl⟩
        · exact ⟨single, rfl⟩
      rw [← reads] at here
      rw [read_cons, ← here.2]
      exact induction here.1 rest

/-- In a file descriptor quoted text is marked. -/
theorem opening_of_descriptor {state : State}
    (opens : state.opensQuotes = true) (notPlain : state.plain = false) :
    (state.read opening).2.tells = true := by
  have position : (state.step '\'').2.frame.position = .descriptor := by
    have kept : (state.step '\'').2.frame = state.settle.2.frame := by
      rw [(step_quote opens).1]
      rfl
    rw [State.plain, opens] at notPlain
    rw [kept]
    unfold opensQuotes at opens
    unfold settle
    cases mode : state.mode with
    | text | name => simpa [mode, within] using notPlain
    | paren => simp [mode] at notPlain
    | escaped | single | comment | dollar | brace | closing | backquote
    | delimiter | body | unspecified => simp [mode] at opens
  obtain ⟨single, kept⟩ := @read_single (state.step '\'').2
    (step_quote_held opens).mode ['{', '"', '$'] (by decide)
  rw [opening, read_cons]
  simp [State.tells, single, kept, position]

/-- Behind a backslash the quote is a character. -/
theorem read_opening_escaped {state : State} {behind : Mode}
    (mode : state.mode = .escaped behind) :
    (state.read opening).2.tells = true := by
  obtain ⟨nests, _, frame, word, literal, last⟩ := state
  subst mode
  cases behind with
  | brace | closing => exact opening_of_unspecified rfl
  | delimiter document quote fresh => cases quote <;> rfl
  | paren => exact opening_of_text rfl
  | text | escaped | single | comment | name | dollar | backquote | body
  | unspecified =>
      refine opening_of_text ?_
      cases nests with
      | nil => rfl
      | cons nest nests => cases nest <;> rfl

/-- Outside of plain text and comments the value can be told. -/
theorem read_opening {state : State} (notPlain : state.plain = false)
    (noComment : state.mode ≠ .comment) :
    (state.read opening).2.tells = true := by
  by_cases opens : state.opensQuotes = true
  · exact opening_of_descriptor opens notPlain
  rw [Bool.not_eq_true] at opens
  obtain ⟨nests, mode, frame, word, literal, last⟩ := state
  cases mode with
  | text | name =>
      refine opening_of_text ?_
      cases nests with
      | nil => cases opens
      | cons nest nests =>
          cases nest with
          | substitution outer => cases opens
          | double => rfl
          | parameter quotes =>
              cases quotes with
              | true => cases opens
              | false => rfl
          | arithmetic depth => cases depth <;> rfl
  | brace named => exact opening_of_unspecified (by cases named <;> rfl)
  | closing => exact opening_of_unspecified rfl
  | escaped behind => exact read_opening_escaped rfl
  | single => exact opening_of_text rfl
  | dollar =>
      cases nests with
      | nil => rfl
      | cons nest nests =>
          cases nest with
          | substitution outer => rfl
          | double => exact opening_of_text rfl
          | parameter quotes =>
              cases quotes with
              | true => rfl
              | false => exact opening_of_text rfl
          | arithmetic depth => exact opening_of_text (by cases depth <;> rfl)
  | backquote escaped => cases escaped <;> rfl
  | delimiter document quote fresh => cases quote <;> rfl
  | body document others line escaped continued => rfl
  | unspecified => rfl
  | comment => exact (noComment rfl).elim
  | paren => cases opens

/-- A line end in front of an expansion. -/
def openingLine : List Char := ['\'', '\n', '$']

/-- A value of two lines ends a comment. -/
theorem read_openingLine {state : State} (comment : state.mode = .comment) :
    (state.read openingLine).2.tells = true := by
  obtain ⟨nests, mode, frame, word, literal, last⟩ := state
  obtain rfl : mode = .comment := comment
  obtain ⟨position, groups, pending⟩ := frame
  cases pending <;> rfl

end State

end Shell
