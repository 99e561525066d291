/-!
# Reserved words

Where a shell command may have its reserved words, and which parentheses they
leave open.  Only `case` matters to what is read: a `)` behind one of its
patterns closes nothing.
-/

namespace Shell

/-- A here-document that has been announced. -/
structure HereDocument where
  delimiter : List Char := []
  quoted : Bool := false
  strip : Bool := false
  deriving DecidableEq, Repr

/-- The word that is being read. -/
inductive Word where
  | none
  /-- Nothing but these letters, without quotes and expansions. -/
  | letters (text : List Char)
  | other
  deriving DecidableEq, Repr

/-- What the next word of a command is. -/
inductive Position where
  /-- The first word of a command, which may be reserved. -/
  | command
  | argument
  /-- Behind `<&` or `>&`. -/
  | descriptor
  /-- Behind `for`, and behind the name. -/
  | forName
  | forWord
  /-- Behind `case`, and behind the word. -/
  | caseWord
  | caseIn
  /-- A pattern, or the end of the `case`. -/
  | patterns
  | pattern
  deriving DecidableEq, Repr

/-- What is open in a command. -/
inductive Group where
  | parentheses
  | cases
  deriving DecidableEq, Repr

/-- The command around the words that are being read. -/
structure Frame where
  position : Position := .command
  groups : List Group := []
  /-- Here-documents that begin after the line. -/
  pending : List HereDocument := []
  deriving DecidableEq, Repr

def Word.add (word : Word) (char : Char) : Word :=
  match word with
  | .none => .letters [char]
  | .letters text => .letters (text ++ [char])
  | .other => .other

/-- The reserved words with a command behind them. -/
def leadsCommand (text : List Char) : Bool :=
  ["!", "\x7b", "\x7d", "if", "then", "else", "elif", "fi", "while", "until",
    "do", "done"].contains (String.ofList text)

namespace Frame

def expect (frame : Frame) (position : Position) : Frame :=
  { frame with position }

/-- The end of a `case`. -/
def endCase (frame : Frame) : Frame :=
  match frame.groups with
  | .cases :: groups => { frame with groups, position := .command }
  | _ => frame.expect .command

/-- Behind a word that may be reserved. -/
def afterCommand (frame : Frame) (text : List Char) : Frame :=
  if text = "case".toList then frame.expect .caseWord
  else if text = "for".toList then frame.expect .forName
  else if text = "esac".toList then frame.endCase
  else if leadsCommand text then frame
  else frame.expect .argument

/-- Behind a word. -/
def afterWord (frame : Frame) (word : Word) : Frame :=
  match frame.position, word with
  | .command, .letters text => frame.afterCommand text
  | .command, _ | .argument, _ | .descriptor, _ => frame.expect .argument
  | .forName, _ => frame.expect .forWord
  | .forWord, .letters text =>
      if text = "do".toList then frame.expect .command
      else frame.expect .argument
  | .forWord, _ => frame.expect .argument
  | .caseWord, _ => frame.expect .caseIn
  | .caseIn, .letters text =>
      if text = "in".toList then
        { frame with groups := .cases :: frame.groups, position := .patterns }
      else frame.expect .argument
  | .caseIn, _ => frame.expect .argument
  | .patterns, .letters text =>
      if text = "esac".toList then frame.endCase else frame.expect .pattern
  | .patterns, _ | .pattern, _ => frame.expect .pattern

/-- Behind a line. -/
def afterLine (frame : Frame) : Frame :=
  match frame.position with
  | .caseIn | .patterns => frame
  | _ => frame.expect .command

/-- Behind the end of a list, or of one arm of a `case`. -/
def afterList (frame : Frame) (doubled : Bool) : Frame :=
  match frame.groups with
  | .cases :: _ => frame.expect (if doubled then .patterns else .command)
  | _ => frame.expect .command

/-- Behind `(`, which may stand in front of a pattern. -/
def opened (frame : Frame) : Frame :=
  if frame.position = .patterns then frame.expect .pattern
  else
    { frame with
      groups := .parentheses :: frame.groups
      position := .command }

/-- Behind a `)` that is open here, or ends a pattern. -/
def closed? (frame : Frame) : Option Frame :=
  match frame.groups with
  | .parentheses :: groups => some { frame with groups, position := .command }
  | .cases :: _ => some (frame.expect .command)
  | [] => none

/-- Behind another operator, whose last character follows `last`. -/
def afterOperator (frame : Frame) (last : Option Char) (char : Char) :
    Frame :=
  let redirects := last = some '<' ∨ last = some '>'
  if char = '&' ∧ redirects then frame.expect .descriptor
  else if char = '<' ∨ char = '>' ∨ redirects then frame.expect .argument
  else if char = ';' ∨ char = '&' then
    frame.afterList (last == some ';')
  else if frame.position = .patterns ∨ frame.position = .pattern then
    frame.expect .pattern
  else frame.expect .command

end Frame

end Shell
