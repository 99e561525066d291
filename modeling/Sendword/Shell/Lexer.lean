import Sendword.Shell.Reserved
import Sendword.Shell.Scanner

/-!
# The lexical structure of shell commands

A scanner for the command language of POSIX `sh`: quoting, comments,
operators, parameter, command and arithmetic expansions, and here-documents.
Its marks are the words, operators and expansions of a command; the literal
characters of a word leave one mark together, so two commands with the same
marks differ only in such characters.

A backslash in front of a line end is no text at all, wherever a backslash
has a meaning: the scanner goes on in the mode in which it was.

Text that the shell does not read as command text while it scans (what stands
between backquotes, arithmetic, here-documents with their delimiters), text
for which POSIX leaves the reading open, and quoted text that must be a file
descriptor are marked character by character.
-/

namespace Shell

inductive Mark where
  /-- A literal part of a word, of any length. -/
  | word
  | blank
  | operator (char : Char)
  /-- A character of the syntax of an expansion. -/
  | expansion (char : Char)
  | verbatim (char : Char)
  deriving DecidableEq, Repr

/-- What the text stands in; `parameter` knows whether quotes are active, and
`substitution` the command outside of it. -/
inductive Nest where
  | substitution (outer : Frame)
  | double
  | parameter (quotes : Bool)
  | arithmetic (depth : Nat)
  deriving DecidableEq, Repr

/-- The quoting inside the delimiter of a here-document. -/
inductive DelimiterQuote where
  | none
  | single
  | double
  deriving DecidableEq, Repr

inductive Mode where
  | text
  /-- After a backslash in another mode. -/
  | escaped (behind : Mode)
  | single
  | comment
  /-- After `$`. -/
  | dollar
  /-- In the name after `$`. -/
  | name
  /-- After `$(`. -/
  | paren
  /-- After `${`. -/
  | brace (named : Bool)
  /-- After the first `)` at the end of arithmetic. -/
  | closing
  | backquote (escaped : Bool)
  /-- In the delimiter after `<<`. -/
  | delimiter (document : HereDocument) (quote : DelimiterQuote)
      (fresh : Bool)
  /-- In a line of a here-document, and whether it has been continued. -/
  | body (document : HereDocument) (others : List HereDocument)
      (line : List Char) (escaped continued : Bool)
  /-- Where POSIX leaves the meaning open. -/
  | unspecified
  deriving DecidableEq, Repr

/-- A backslash escapes the next character. -/
def Mode.escapes : Mode → Bool
  | .text | .dollar | .name | .paren | .brace _ | .closing => true
  | .delimiter _ quote _ => quote != .single
  | .escaped _ | .single | .comment | .backquote _ | .body ..
  | .unspecified => false

structure State where
  /-- The innermost first; the command itself is not listed. -/
  nests : List Nest := []
  mode : Mode := .text
  frame : Frame := {}
  word : Word := .none
  /-- The last mark is a literal part of a word. -/
  literal : Bool := false
  /-- The character in front, if it is one of an operator. -/
  last : Option Char := none
  deriving DecidableEq, Repr

/-- Single and double quotes have their meaning. -/
def quotesActive : List Nest → Bool
  | [] | .substitution _ :: _ | .parameter true :: _ => true
  | _ => false

def isNameStart (char : Char) : Bool := char.isAlpha || char == '_'

def isNameChar (char : Char) : Bool := char.isAlphanum || char == '_'

/-- The names of the special parameters. -/
def isSpecial (char : Char) : Bool :=
  ['@', '*', '#', '?', '-', '$', '!'].contains char

def isBlank (char : Char) : Bool := char == ' ' || char == '\t'

/-- The characters that begin an operator. -/
def isOperator (char : Char) : Bool :=
  [';', '&', '|', '<', '>', '(', ')'].contains char

/-- A backslash between double quotes escapes these characters alone. -/
def isEscapedInDouble (char : Char) : Bool :=
  ['$', '`', '"', '\\'].contains char

namespace State

/-- A literal part of a word, which is not a reserved word. -/
def part (state : State) : List Mark × State :=
  (if state.literal then [] else [.word],
    { state with
      mode := .text
      word := .other
      literal := true
      last := none })

/-- Marks of other kinds. -/
def put (state : State) (marks : List Mark) : List Mark × State :=
  (marks, { state with literal := false })

def within (state : State) (mode : Mode) : State := { state with mode }

/-- An expansion makes its word one that is not reserved. -/
def expanding (state : State) (mode : Mode) : State :=
  { state with mode, word := .other, last := none }

/-- An unquoted character that stands for itself in command text. -/
def letter (state : State) (char : Char) : List Mark × State :=
  (state.part.1, { state.part.2 with word := state.word.add char })

/-- A character that stands for itself, with quotes or between them. -/
def character (state : State) (char : Char) : List Mark × State :=
  match state.nests with
  | .arithmetic _ :: _ => (state.within .text).put [.verbatim char]
  | _ => state.part

def openSingle (state : State) : List Mark × State :=
  (state.part.1, state.part.2.within .single)

def openDouble (state : State) : List Mark × State :=
  (state.part.1, { state.part.2 with nests := .double :: state.nests })

/-- Text that is left open from here on. -/
def giveUp (state : State) (char : Char) : List Mark × State :=
  (state.within .unspecified).put [.verbatim char]

/-- The end of a nest, with its last character. -/
def close (state : State) (nests : List Nest) (char : Char) :
    List Mark × State :=
  { state.expanding .text with nests }.put [.expansion char]

/-- The end of a word, if one has begun. -/
def endWord (state : State) : State :=
  match state.word with
  | .none => { state with last := none }
  | word =>
      { state with
        frame := state.frame.afterWord word
        word := .none
        last := none }

def operator (state : State) (frame : Frame) (char : Char) :
    List Mark × State :=
  { state with mode := .text, frame, last := some char }.put [.operator char]

/-- The end of a line: the here-documents it announced follow. -/
def newline (state : State) : List Mark × State :=
  let frame := { state.frame.afterLine with pending := [] }
  match state.frame.pending with
  | [] => { state with mode := .text, frame }.put [.operator '\n']
  | document :: others =>
      { state with mode := .body document others [] false false, frame }.put
        [.operator '\n']

/-- The end of `$( )`.  Its here-documents must have been read by then. -/
def endSubstitution (state : State) (outer : Frame) (nests : List Nest) :
    List Mark × State :=
  if state.frame.pending = [] then
    { state with frame := outer }.close nests ')'
  else state.giveUp ')'

/-- A character of an operator, behind `last`. -/
def readOperator (state : State) (last : Option Char) (char : Char) :
    List Mark × State :=
  if char = '(' then
    -- `((` may begin arithmetic
    if last = some '(' then state.giveUp '('
    else state.operator state.frame.opened '('
  else if char = ')' then
    match state.frame.closed?, state.nests with
    | some frame, _ => state.operator frame ')'
    | none, .substitution outer :: nests => state.endSubstitution outer nests
    | none, _ => state.operator (state.frame.expect .command) ')'
  else if char = '<' ∧ last = some '<' then
    let (marks, after) := state.operator (state.frame.expect .argument) '<'
    (marks, after.within (.delimiter {} .none true))
  else state.operator (state.frame.afterOperator last char) char

def readCommand (state : State) (char : Char) : List Mark × State :=
  if char = '\'' then state.openSingle
  else if char = '"' then state.openDouble
  else if char = '#' ∧ state.word = .none then
    ([], state.endWord.within .comment)
  else if isBlank char then state.endWord.put [.blank]
  else if char = '\n' then state.endWord.newline
  else if isOperator char then state.endWord.readOperator state.last char
  else state.letter char

def readArithmetic (state : State) (depth : Nat) (nests : List Nest)
    (char : Char) : List Mark × State :=
  let put (depth : Nat) : List Mark × State :=
    { state with nests := .arithmetic depth :: nests }.put [.verbatim char]
  match char, depth with
  | '(', depth => put (depth + 1)
  | ')', 0 => (state.within .closing).put [.verbatim ')']
  | ')', depth + 1 => put depth
  | char, _ => state.character char

def readParameter (state : State) (quotes : Bool) (nests : List Nest)
    (char : Char) : List Mark × State :=
  if char = '}' then state.close nests '}'
  else if char = '"' then state.openDouble
  else if char = '\'' ∧ quotes = true then state.openSingle
  else state.character char

/-- A character with no `$`, backslash or the like before it. -/
def readText (state : State) (char : Char) : List Mark × State :=
  if char = '$' then ([], state.within .dollar)
  else if char = '`' then
    (state.expanding (.backquote false)).put [.expansion '`']
  else
    match state.nests with
    | .double :: nests =>
        if char = '"' then ([], { state with nests })
        else state.character char
    | .arithmetic depth :: nests => state.readArithmetic depth nests char
    | .parameter quotes :: nests => state.readParameter quotes nests char
    | _ => state.readCommand char

/-- The end of a mode that the next character does not go on with. -/
def settle (state : State) : List Mark × State :=
  match state.mode with
  | .dollar => (state.within .text).character '$'
  | .paren =>
      { state.expanding .text with
        nests := .substitution state.frame :: state.nests
        frame := {}
        word := .none }.put [.expansion '$', .expansion '(']
  | _ => ([], state.within .text)

/-- Marks in front of those of a character. -/
def andThen (before : List Mark × State)
    (read : State → List Mark × State) : List Mark × State :=
  (before.1 ++ (read before.2).1, (read before.2).2)

def settleText (state : State) (char : Char) : List Mark × State :=
  andThen state.settle fun state => state.readText char

def readDollar (state : State) (char : Char) : List Mark × State :=
  if isNameStart char then
    (state.expanding .name).put [.expansion '$', .expansion char]
  else if char.isDigit || isSpecial char then
    (state.expanding .text).put [.expansion '$', .expansion char]
  else if char = '{' then
    (state.expanding (.brace false)).put [.expansion '$', .expansion '{']
  else if char = '(' then ([], state.within .paren)
  else if char = '[' ∨
      (char = '\'' ∨ char = '"') ∧ quotesActive state.nests then
    (state.within .unspecified).put [.verbatim '$', .verbatim char]
  else state.settleText char

def readParen (state : State) (char : Char) : List Mark × State :=
  if char = '(' then
    { state.expanding .text with
      nests := .arithmetic 0 :: state.nests }.put
      [.expansion '$', .expansion '(', .expansion '(']
  else state.settleText char

def readName (state : State) (char : Char) : List Mark × State :=
  if isNameChar char then state.put [.expansion char]
  else state.settleText char

def enterParameter (state : State) (quotes : Bool) : State :=
  { state with mode := .text, nests := .parameter quotes :: state.nests }

/-- The name and the operator of a parameter expansion.  The word after a
pattern operator has quotes of its own. -/
def readBrace (state : State) (named : Bool) (char : Char) :
    List Mark × State :=
  if char = '}' then state.close state.nests '}'
  else if isNameChar char ∨ named = false ∧ isSpecial char then
    (state.within (.brace true)).put [.expansion char]
  else if char = ':' then state.put [.expansion ':']
  else if ['-', '=', '?', '+'].contains char then
    (state.enterParameter (quotesActive state.nests)).put [.expansion char]
  else if char = '%' ∨ char = '#' then
    (state.enterParameter true).put [.expansion char]
  else state.giveUp char

/-- Only `))` ends arithmetic. -/
def readClosing (state : State) (char : Char) : List Mark × State :=
  if char = ')' then state.close state.nests.tail ')' else state.giveUp char

/-- The first backquote that is not escaped ends the substitution. -/
def readBackquote (state : State) (escaped : Bool) (char : Char) :
    List Mark × State :=
  if escaped then (state.within (.backquote false)).put [.verbatim char]
  else if char = '`' then (state.within .text).put [.expansion '`']
  else (state.within (.backquote (char == '\\'))).put [.verbatim char]

/-- Between single quotes.  A shell may check a file descriptor already when
it reads it. -/
def readSingle (state : State) (char : Char) : List Mark × State :=
  if char = '\'' then ([], state.within .text)
  else if state.frame.position = .descriptor then
    state.put [.verbatim char]
  else ([], state)

/-- More of a delimiter, which keeps its text without the quotes. -/
def delimit (state : State) (document : HereDocument)
    (quote : DelimiterQuote) (read : List Char) : List Mark × State :=
  (state.within (.delimiter document quote false)).put (read.map .verbatim)

def readDelimiter (state : State) (document : HereDocument)
    (quote : DelimiterQuote) (fresh : Bool) (char : Char) :
    List Mark × State :=
  let quoted : HereDocument := { document with quoted := true }
  let longer : HereDocument :=
    { document with delimiter := document.delimiter ++ [char] }
  let begun := document.quoted || document.delimiter != []
  match quote with
  | .none =>
      if char = '-' ∧ fresh = true then
        (state.within (.delimiter { document with strip := true } .none
          false)).put [.operator '-']
      else if char = '\'' then state.delimit quoted .single [char]
      else if char = '"' then state.delimit quoted .double [char]
      else if char = '$' ∨ char = '`' then state.giveUp char
      else if isBlank char ∧ begun = false then
        (state.within (.delimiter document .none false)).put [.blank]
      else if isBlank char ∨ char = '\n' ∨ isOperator char then
        if begun then
          { state with
            mode := .text
            frame := { state.frame with
              pending := state.frame.pending ++ [document] }
            last := none }.readText char
        else state.giveUp char
      else if char = '#' ∧ begun = false then state.giveUp char
      else state.delimit longer .none [char]
  | .single =>
      if char = '\'' then state.delimit document .none [char]
      else state.delimit longer .single [char]
  | .double =>
      if char = '"' then state.delimit document .none [char]
      else if char = '$' ∨ char = '`' then state.giveUp char
      else state.delimit longer .double [char]

/-- A line that is the delimiter ends the document.  Shells differ on one that
has been continued. -/
def readBody (state : State) (document : HereDocument)
    (others : List HereDocument) (line : List Char)
    (escaped continued : Bool) (char : Char) : List Mark × State :=
  let content :=
    if document.strip then line.dropWhile (· == '\t') else line
  let mode : Mode :=
    if char = '\n' then
      if escaped then .body document others line.dropLast false true
      else if content ≠ document.delimiter then
        .body document others [] false false
      else if continued then .unspecified
      else
        match others with
        | [] => .text
        | next :: others => .body next others [] false false
    else
      .body document others (line ++ [char])
        (!document.quoted && !escaped && char == '\\') continued
  (state.within mode).put [.verbatim char]

/-- A character with a backslash in front. -/
def readEscaped (state : State) (char : Char) : List Mark × State :=
  match state.mode with
  | .brace _ | .closing => state.giveUp char
  | .delimiter document .double _ =>
      let escaped := if isEscapedInDouble char then [char] else ['\\', char]
      state.delimit { document with
        delimiter := document.delimiter ++ escaped } .double ['\\', char]
  | .delimiter document quote _ =>
      state.delimit { document with
        delimiter := document.delimiter ++ [char]
        quoted := true } quote ['\\', char]
  | _ => andThen state.settle fun state => state.character char

/-- Read one character. -/
def step (state : State) (char : Char) : List Mark × State :=
  if char = '\\' ∧ state.mode.escapes then
    ([], state.within (.escaped state.mode))
  else
    match state.mode with
    | .text => state.readText char
    | .escaped behind =>
        -- a line continuation is no text at all
        if char = '\n' then ([], state.within behind)
        else (state.within behind).readEscaped char
    | .single => state.readSingle char
    | .comment => if char = '\n' then state.newline else ([], state)
    | .dollar => state.readDollar char
    | .name => state.readName char
    | .paren => state.readParen char
    | .brace named => state.readBrace named char
    | .closing => state.readClosing char
    | .backquote escaped => state.readBackquote escaped char
    | .delimiter document quote fresh =>
        state.readDelimiter document quote fresh char
    | .body document others line escaped continued =>
        state.readBody document others line escaped continued char
    | .unspecified => state.put [.verbatim char]

def read (state : State) (text : List Char) : List Mark × State :=
  Scanner.run step state text

end State

/-- The words, operators and expansions of a command, and how it ends. -/
def structureOf (command : List Char) : List Mark × State :=
  ({} : State).read command

end Shell
