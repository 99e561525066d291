import Sendword.Payload

/-!
# Command interpolation

Texts are lists of characters.  The placeholder pattern uses the classes `\w`
and `\s` of the `regex` crate; `\s` is the Unicode property White_Space, and
`\w` is a table of that crate, known here by its ASCII part.
-/

namespace Sendword

/-- The Unicode property White_Space. -/
def isWhiteSpace (char : Char) : Bool :=
  let code := char.toNat
  (9 ≤ code && code ≤ 13) || code == 32 || code == 133 || code == 160 ||
    code == 5760 || (8192 ≤ code && code ≤ 8202) || code == 8232 ||
    code == 8233 || code == 8239 || code == 8287 || code == 12288

/-- The class `\w` of the `regex` crate. -/
structure WordClass where
  isWord : Char → Bool
  ascii : ∀ char : Char, char.toNat < 128 →
    isWord char = (char.isAlphanum || char == '_')
  not_space : ∀ char, isWord char = true → isWhiteSpace char = false

/-- The word characters of a template that is all ASCII. -/
def WordClass.asciiOnly : WordClass where
  isWord char :=
    decide (char.toNat < 128) && (char.isAlphanum || char == '_')
  ascii := by
    intro char small
    simp [small]
  not_space := by
    intro char word
    have table : ∀ code : Fin 128,
        ((Char.ofNat code).isAlphanum || Char.ofNat code == '_') = true →
          isWhiteSpace (Char.ofNat code) = false := by decide
    rw [Bool.and_eq_true, decide_eq_true_eq] at word
    have known := table ⟨char.toNat, word.1⟩
    simp only [Char.ofNat_toNat] at known
    exact known word.2

/-- A template cut at its placeholders: the characters outside, and each
placeholder with its raw text and its field path. -/
inductive Segment where
  | text (char : Char)
  | placeholder (raw path : List Char)
  deriving DecidableEq, Repr

/-- Shell-escape a string value for safe embedding in `sh -c` commands. -/
def shellEscape (value : List Char) : List Char :=
  if value.contains '\'' then
    '\'' :: (value.flatMap fun char =>
      if char = '\'' then ['\'', '\\', '\'', '\''] else [char]) ++ ['\'']
  else
    '\'' :: value ++ ['\'']

/-- Convert a resolved value to its string representation for
interpolation. -/
def valueToString : Json → List Char
  | .string value => value.toList
  | .number display => display.text.toList
  | .bool value => (if value then "true" else "false").toList
  | .null => []
  | other => other.render

namespace WordClass

variable (words : WordClass)

/-- The class `[\w.]` of field paths. -/
def isPath (char : Char) : Bool := words.isWord char || char == '.'

/-- Match `\{\{\s*([\w.]+)\s*\}\}` at the head of a text: the match, the
captured path and the text after it.  The classes `\s`, `[\w.]` and `}` are
disjoint, so each run extends as far as it can. -/
def placeholder? : List Char → Option (List Char × List Char × List Char)
  | '{' :: '{' :: text =>
      let leading := text.takeWhile isWhiteSpace
      let text := text.dropWhile isWhiteSpace
      let path := text.takeWhile words.isPath
      let text := text.dropWhile words.isPath
      let trailing := text.takeWhile isWhiteSpace
      match path, text.dropWhile isWhiteSpace with
      | _ :: _, '}' :: '}' :: rest =>
          some ('{' :: '{' :: leading ++ path ++ trailing ++ ['}', '}'],
            path, rest)
      | _, _ => none
  | _ => none

/-- The leftmost non-overlapping matches of the placeholder pattern; `fuel`
bounds the number of segments. -/
def segmentsWithin (fuel : Nat) (template : List Char) : List Segment :=
  match fuel, template with
  | 0, _ => []
  | _, [] => []
  | fuel + 1, char :: rest =>
      match words.placeholder? (char :: rest) with
      | some (raw, path, after) =>
          .placeholder raw path :: segmentsWithin fuel after
      | none => .text char :: segmentsWithin fuel rest

def segments (template : List Char) : List Segment :=
  words.segmentsWithin template.length template

end WordClass

/-- The replacement of one segment: unresolved placeholders are left
as-is. -/
def Segment.replace (payload : Json) : Segment → List Char
  | .text char => [char]
  | .placeholder raw path =>
      match resolveField payload path with
      | some value => shellEscape (valueToString value)
      | none => raw

/-- `str::contains("{{")`. -/
def containsBraces : List Char → Bool
  | '{' :: '{' :: _ => true
  | _ :: rest => containsBraces rest
  | [] => false

/-- Interpolate `{{field_name}}` placeholders in a command template. -/
def interpolateCommand (words : WordClass) (template : List Char)
    (payload : Json) : List Char :=
  if containsBraces template then
    (words.segments template).flatMap (Segment.replace payload)
  else
    template

end Sendword
