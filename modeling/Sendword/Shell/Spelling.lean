import Sendword.Shell.Quoting

/-!
# The literal characters of words

The scanner marks a literal part of a word without its characters.  Here are
the characters: what a shell text spells in its words, with the quoting
removed, while the scanner goes through its states.
-/

namespace Shell

namespace State

/-- A character that stands for itself in a word; in arithmetic there are no
words. -/
def spellCharacter (state : State) (char : Char) : List Char :=
  match state.nests with
  | .arithmetic _ :: _ => []
  | _ => [char]

/-- The characters with a meaning of their own spell nothing. -/
def spellText (state : State) (char : Char) : List Char :=
  if ['$', '`'].contains char then []
  else
    match state.nests with
    | .double :: _ => if char = '"' then [] else [char]
    | .arithmetic _ :: _ => []
    | .parameter quotes :: _ =>
        if char = '}' ∨ char = '"' ∨ char = '\'' ∧ quotes = true then []
        else [char]
    | _ =>
        if char = '\'' ∨ char = '"' ∨ char = '#' ∧ state.word = .none ∨
            isBlank char ∨ char = '\n' ∨ isOperator char then []
        else [char]

/-- A `$` that begins no expansion stands for itself. -/
def spellSettle (state : State) : List Char :=
  match state.mode with
  | .dollar => state.spellCharacter '$'
  | _ => []

def spellSettleText (state : State) (char : Char) : List Char :=
  state.spellSettle ++ state.settle.2.spellText char

/-- Between double quotes a backslash stands for itself before most
characters. -/
def spellEscaped (state : State) (char : Char) : List Char :=
  match state.mode with
  | .brace _ | .closing => []
  | .delimiter _ .double _ =>
      if isEscapedInDouble char then [char] else ['\\', char]
  | .delimiter .. => [char]
  | _ =>
      state.spellSettle ++
        match state.settle.2.nests with
        | .arithmetic _ :: _ => []
        | .double :: _ =>
            if isEscapedInDouble char then [char] else ['\\', char]
        | .parameter false :: _ =>
            if isEscapedInDouble char ∨ char = '}' then [char]
            else ['\\', char]
        | _ => [char]

def spellDollar (state : State) (char : Char) : List Char :=
  if isNameStart char ∨ char.isDigit ∨ isSpecial char ∨
      ['{', '(', '['].contains char ∨
      (char = '\'' ∨ char = '"') ∧ quotesActive state.nests = true then []
  else state.spellSettleText char

/-- The delimiter of a here-document is a word of its own. -/
def spellDelimiter (document : HereDocument) (quote : DelimiterQuote)
    (fresh : Bool) (char : Char) : List Char :=
  match quote with
  | .none =>
      if char = '-' ∧ fresh = true ∨
          ['\'', '"', '$', '`', '\n'].contains char ∨ isBlank char ∨
          isOperator char ∨
          char = '#' ∧ document.quoted = false ∧ document.delimiter = [] then
        []
      else [char]
  | .single => if char = '\'' then [] else [char]
  | .double => if ['"', '$', '`'].contains char then [] else [char]

/-- The literal characters that reading one character adds to a word. -/
def spellStep (state : State) (char : Char) : List Char :=
  if char = '\\' ∧ state.mode.escapes then []
  else
    match state.mode with
    | .text => state.spellText char
    | .escaped behind =>
        if char = '\n' then [] else (state.within behind).spellEscaped char
    | .single => if char = '\'' then [] else [char]
    | .dollar => state.spellDollar char
    | .name => if isNameChar char then [] else state.spellSettleText char
    | .paren => if char = '(' then [] else state.spellSettleText char
    | .delimiter document quote fresh =>
        spellDelimiter document quote fresh char
    | .comment | .brace _ | .closing | .backquote _ | .body ..
    | .unspecified => []

def spell (state : State) : List Char → List Char
  | [] => []
  | char :: text => state.spellStep char ++ (state.step char).2.spell text

theorem spell_append (state : State) (first second : List Char) :
    state.spell (first ++ second) =
      state.spell first ++ (state.read first).2.spell second := by
  induction first generalizing state with
  | nil => rfl
  | cons char first induction =>
      rw [List.cons_append, spell, spell, induction, read_cons,
        List.append_assoc]

/-! ## Unquoted text -/

/-- Neither between quotes nor after a backslash, in text that is read as
command text. -/
def unquoted (state : State) : Bool :=
  match state.mode with
  | .text | .name | .dollar => quotesActive state.nests
  | .paren => true
  | .delimiter _ .none _ => true
  | _ => false

/-- A word has begun, if only with an empty quoted part. -/
def hasWord (state : State) : Bool :=
  match state.mode with
  | .delimiter document _ _ => document.quoted || document.delimiter != []
  | _ => state.word != .none

/-- What the next character decides to be marked first, whatever it is. -/
def lookahead (state : State) : List Mark :=
  match state.mode with
  | .paren => [.expansion '$', .expansion '(']
  | _ => []

/-- In the delimiter of a here-document, or a file descriptor, quoted
characters are marked one by one. -/
def marksQuoted (state : State) : Bool :=
  match state.mode with
  | .delimiter .. => true
  | .paren => false
  | _ => state.frame.position == .descriptor

/-- A text is read as literal characters of the current word, and these are
`value`. -/
structure ReadsAs (state : State) (text value : List Char) : Prop where
  marks : ∃ marks, (state.read text).1 = state.lookahead ++ marks ∧
    ∀ mark ∈ marks, mark = .word ∨
      state.marksQuoted = true ∧ ∃ char ∈ text, mark = .verbatim char
  unquoted : (state.read text).2.unquoted = true
  present : (state.read text).2.hasWord = true
  spelled : state.spell text = value

theorem opensQuotes_or_delimiter {state : State}
    (unquoted : state.unquoted = true)
    (noDollar : state.mode ≠ .dollar) :
    state.opensQuotes = true ∨
      ∃ document fresh, state.mode = .delimiter document .none fresh := by
  unfold State.unquoted at unquoted
  unfold opensQuotes
  cases mode : state.mode with
  | text | name | paren =>
      rw [mode] at unquoted
      exact .inl unquoted
  | dollar => exact (noDollar mode).elim
  | delimiter document quote fresh =>
      rw [mode] at unquoted
      cases quote with
      | none => exact .inr ⟨document, fresh, rfl⟩
      | single | double => cases unquoted
  | escaped | single | comment | brace | closing | backquote | body
  | unspecified =>
      rw [mode] at unquoted
      cases unquoted

/-! ## Quoted values in plain text -/

theorem spellText_quote {state : State}
    (quotes : quotesActive state.nests = true) :
    state.spellText '\'' = [] := by
  unfold spellText
  rw [if_neg (by decide)]
  cases nests : state.nests with
  | nil => simp
  | cons nest nests =>
      rw [nests] at quotes
      cases nest with
      | substitution outer => simp
      | parameter active =>
          cases active with
          | true => simp
          | false => cases quotes
      | double | arithmetic => cases quotes

/-- The opening quote spells nothing. -/
theorem spellStep_quote {state : State}
    (opens : state.opensQuotes = true) :
    state.spellStep '\'' = [] := by
  have quotes := (step_quote opens).2
  unfold opensQuotes at opens
  unfold spellStep
  rw [if_neg (by simp)]
  cases mode : state.mode with
  | text =>
      rw [mode] at opens
      exact spellText_quote opens
  | name | paren =>
      have nothing : state.spellSettle = [] := by
        rw [spellSettle, mode]
      have settled : state.spellSettleText '\'' = [] := by
        rw [spellSettleText, nothing, spellText_quote quotes]
        rfl
      rw [settled]
      rfl
  | escaped | single | comment | dollar | brace | closing | backquote
  | delimiter | body | unspecified =>
      exact absurd opens (by rw [mode]; simp)

/-- What quoted characters may leave in a command. -/
def QuotedMark (frame : Frame) (text : List Char) (mark : Mark) : Prop :=
  mark = .word ∨
    frame.position = .descriptor ∧ ∃ char ∈ text, mark = .verbatim char

theorem Held.spell_quoteChar {state : State} (held : Held state)
    (char : Char) :
    state.spell (quoteChar char) = [char] := by
  by_cases quoted : char = '\''
  · obtain ⟨nests, mode, frame, word, literal, last⟩ := state
    obtain ⟨rfl, rfl, rfl, quotes⟩ := held
    subst quoted
    cases nests with
    | nil => rfl
    | cons nest nests =>
        cases nest with
        | substitution outer => rfl
        | parameter active =>
            cases active with
            | true => rfl
            | false => cases quotes
        | double | arithmetic => cases quotes
  · rw [quoteChar, if_neg quoted, spell, spell]
    simp [spellStep, held.mode, quoted, Mode.escapes]

/-- A character of the value leaves the quotes open. -/
theorem Held.readsChar {state : State} (held : Held state) (char : Char) :
    Held (state.read (quoteChar char)).2 ∧
      (state.read (quoteChar char)).2.frame = state.frame ∧
      ∀ mark ∈ (state.read (quoteChar char)).1,
        QuotedMark state.frame (quoteChar char) mark := by
  by_cases quoted : char = '\''
  · rw [quoted, held.read_quote]
    refine ⟨⟨held.mode, held.word, held.last, held.quotes⟩, rfl, ?_⟩
    intro mark member
    unfold part at member
    split at member
    · cases member
    · exact .inl (List.mem_singleton.mp member)
  · rw [held.read_other quoted, readSingle, if_neg quoted]
    split
    · rename_i position
      refine ⟨⟨held.mode, held.word, held.last, held.quotes⟩, rfl, ?_⟩
      intro mark member
      refine .inr ⟨position, char, ?_, List.mem_singleton.mp member⟩
      simp [quoteChar, quoted]
    · refine ⟨held, rfl, ?_⟩
      intro mark member
      cases member

/-- The value spells itself, and leaves them open. -/
theorem Held.readsValue {state : State} (held : Held state)
    (value : List Char) :
    Held (state.read (value.flatMap quoteChar)).2 ∧
      (∀ mark ∈ (state.read (value.flatMap quoteChar)).1,
        QuotedMark state.frame (value.flatMap quoteChar) mark) ∧
      state.spell (value.flatMap quoteChar) = value := by
  induction value generalizing state with
  | nil => exact ⟨held, by simp, rfl⟩
  | cons char value induction =>
      obtain ⟨after, frame, marks⟩ := held.readsChar char
      obtain ⟨last, others, rest⟩ := induction after
      rw [frame] at others
      rw [List.flatMap_cons, read_append, spell_append,
        held.spell_quoteChar, rest]
      refine ⟨last, fun mark member => ?_, rfl⟩
      rcases List.mem_append.mp member with first | later
      · exact (marks mark first).imp_right (And.imp_right
          fun ⟨inner, inside, same⟩ =>
            ⟨inner, List.mem_append_left _ inside, same⟩)
      · exact (others mark later).imp_right (And.imp_right
          fun ⟨inner, inside, same⟩ =>
            ⟨inner, List.mem_append_right _ inside, same⟩)

theorem Held.step_close {state : State} (held : Held state) :
    state.step '\'' = ([], state.within .text) := by
  unfold step
  rw [held.mode]
  rfl

/-- What the opening quote marks. -/
theorem step_quote_marks {state : State} (opens : state.opensQuotes = true) :
    ∃ marks, (state.step '\'').1 = state.lookahead ++ marks ∧
      ∀ mark ∈ marks, mark = .word := by
  have ahead : state.settle.1 = state.lookahead := by
    unfold opensQuotes at opens
    unfold settle lookahead
    cases mode : state.mode with
    | text | name | paren => rfl
    | escaped | single | comment | dollar | brace | closing | backquote
    | delimiter | body | unspecified => simp [mode] at opens
  refine ⟨state.settle.2.openSingle.1, ?_, ?_⟩
  · rw [(step_quote opens).1, ← ahead]
    rfl
  · intro mark member
    unfold openSingle part at member
    split at member
    · cases member
    · exact List.mem_singleton.mp member

/-- The quoted text belongs to the command that the quote stands in. -/
theorem marksQuoted_of_descriptor {state : State}
    (opens : state.opensQuotes = true)
    (position : (state.step '\'').2.frame.position = .descriptor) :
    state.marksQuoted = true := by
  have kept : (state.step '\'').2.frame = state.settle.2.frame := by
    rw [(step_quote opens).1]
    rfl
  rw [kept] at position
  unfold opensQuotes at opens
  unfold settle at position
  unfold marksQuoted
  cases mode : state.mode with
  | text | name =>
      rw [mode] at position
      exact beq_iff_eq.mpr position
  | paren =>
      rw [mode] at position
      cases position
  | escaped | single | comment | dollar | brace | closing | backquote
  | delimiter | body | unspecified => simp [mode] at opens

/-- In unquoted text a quoted value is a literal part of the word. -/
theorem quote_readsAs_word {state : State}
    (opens : state.opensQuotes = true) (value : List Char) :
    ReadsAs state (quote value) value := by
  have held := step_quote_held opens
  obtain ⟨last, marks, spells⟩ := held.readsValue value
  have reads : state.read (quote value) =
      ((state.step '\'').1 ++
        ((state.step '\'').2.read (value.flatMap quoteChar)).1,
        ((state.step '\'').2.read (value.flatMap quoteChar)).2.within
          .text) := by
    simp [quote, read_cons, read_append, last.step_close]
  constructor
  · obtain ⟨first, isFirst, words⟩ := step_quote_marks opens
    rw [reads, isFirst, List.append_assoc]
    refine ⟨_, rfl, fun mark member => ?_⟩
    rcases List.mem_append.mp member with inFirst | inValue
    · exact .inl (words mark inFirst)
    · rcases marks mark inValue with isWord | ⟨position, char, inText, same⟩
      · exact .inl isWord
      · refine .inr ⟨marksQuoted_of_descriptor opens position, char, ?_, same⟩
        exact List.mem_cons_of_mem _ (List.mem_append_left _ inText)
  · rw [reads]
    exact last.quotes
  · rw [reads]
    simp [hasWord, within, last.word]
  · have closing : ((state.step '\'').2.read
        (value.flatMap quoteChar)).2.spell ['\''] = [] := by
      simp [spell, spellStep, last.mode]
    rw [quote, spell, spellStep_quote opens, spell_append, spells, closing,
      List.nil_append, List.append_nil]

/-! ## Quoted delimiters -/

/-- In the single quotes of a delimiter. -/
def quotedDelimiter (state : State) (document : HereDocument)
    (quote : DelimiterQuote) : State :=
  { state with
    mode := .delimiter { document with quoted := true } quote false
    literal := false }

/-- A character of the value is one of the delimiter. -/
theorem read_quoteChar_delimiter (state : State) (document : HereDocument)
    (char : Char) :
    (state.quotedDelimiter document .single).read (quoteChar char) =
      ((quoteChar char).map .verbatim,
        state.quotedDelimiter
          { document with delimiter := document.delimiter ++ [char] }
          .single) := by
  by_cases quoted : char = '\''
  · subst quoted
    rfl
  · rw [quoteChar, if_neg quoted, read_cons]
    simp [step, quotedDelimiter, readDelimiter, delimit, quoted, put, within,
      Mode.escapes]

theorem read_value_delimiter (state : State) (document : HereDocument)
    (value : List Char) :
    (state.quotedDelimiter document .single).read
        (value.flatMap quoteChar) =
      ((value.flatMap quoteChar).map .verbatim,
        state.quotedDelimiter
          { document with delimiter := document.delimiter ++ value }
          .single) := by
  induction value generalizing document with
  | nil => simp
  | cons char value induction =>
      rw [List.flatMap_cons, read_append, read_quoteChar_delimiter, induction]
      simp

theorem spell_quoteChar_delimiter (state : State) (document : HereDocument)
    (char : Char) :
    (state.quotedDelimiter document .single).spell (quoteChar char) =
      [char] := by
  by_cases quoted : char = '\''
  · subst quoted
    rfl
  · rw [quoteChar, if_neg quoted, spell, spell]
    simp [spellStep, quotedDelimiter, spellDelimiter, quoted, Mode.escapes]

theorem spell_value_delimiter (state : State) (document : HereDocument)
    (value : List Char) :
    (state.quotedDelimiter document .single).spell
        (value.flatMap quoteChar) = value := by
  induction value generalizing document with
  | nil => rfl
  | cons char value induction =>
      rw [List.flatMap_cons, spell_append, spell_quoteChar_delimiter,
        read_quoteChar_delimiter, induction]
      rfl

/-- Behind `<<` a quoted value is the delimiter, or a part of it. -/
theorem quote_readsAs_delimiter {state : State} {document : HereDocument}
    {fresh : Bool}
    (mode : state.mode = .delimiter document .none fresh)
    (value : List Char) :
    ReadsAs state (quote value) value := by
  have opens : state.step '\'' =
      ([.verbatim '\''], state.quotedDelimiter document .single) := by
    unfold step
    rw [mode]
    simp [readDelimiter, delimit, quotedDelimiter, put, within]
  have reads : state.read (quote value) =
      ((quote value).map .verbatim,
        state.quotedDelimiter
          { document with delimiter := document.delimiter ++ value }
          .none) := by
    rw [quote, read_cons, opens, read_append, read_value_delimiter]
    simp [read_cons, step, quotedDelimiter, readDelimiter, delimit, put,
      within]
  constructor
  · refine ⟨(quote value).map .verbatim, ?_, ?_⟩
    · rw [reads, lookahead, mode]
      rfl
    · intro mark member
      obtain ⟨char, isRead, rfl⟩ := List.mem_map.mp member
      exact .inr ⟨by rw [marksQuoted, mode], char, isRead, rfl⟩
  · rw [reads]
    rfl
  · rw [reads]
    rfl
  · have first : state.spellStep '\'' = [] := by
      unfold spellStep
      rw [mode]
      rfl
    rw [quote, spell, first, opens, spell_append, spell_value_delimiter,
      read_value_delimiter]
    exact List.append_nil value

/-- Wherever text is unquoted, and no `$` is open, a quoted value is read as
its own characters. -/
theorem quote_readsAs {state : State}
    (unquoted : state.unquoted = true)
    (noDollar : state.mode ≠ .dollar)
    (value : List Char) :
    ReadsAs state (quote value) value := by
  rcases opensQuotes_or_delimiter unquoted noDollar with
    opens | ⟨document, fresh, mode⟩
  · exact quote_readsAs_word opens value
  · exact quote_readsAs_delimiter mode value

end State

end Shell
