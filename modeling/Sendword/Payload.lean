/-!
# Payloads

JSON values as `serde_json` holds them: a number by the text it displays as,
an object by its entries in iteration order.
-/

namespace Sendword

/-- The text of a number: digits, signs, a point and an exponent. -/
structure NumberText where
  text : String
  numeric : ∀ char ∈ text.toList,
    char.isDigit = true ∨ char ∈ ['-', '+', '.', 'e', 'E']
  deriving Repr

inductive Json where
  | null
  | bool (value : Bool)
  | number (display : NumberText)
  | string (value : String)
  | array (items : List Json)
  | object (entries : List (String × Json))
  deriving Repr

namespace Json

/-- `Value::get` with a string index. -/
def get? : Json → String → Option Json
  | .object entries, key => entries.lookup key
  | _, _ => none

def hexDigit (value : Nat) : Char :=
  if value < 10 then Char.ofNat (48 + value) else Char.ofNat (87 + value)

/-- The escapes of `serde_json` inside a string literal. -/
def escapeChar (char : Char) : List Char :=
  if char = '"' then ['\\', '"']
  else if char = '\\' then ['\\', '\\']
  else if char = '\n' then ['\\', 'n']
  else if char = '\r' then ['\\', 'r']
  else if char = '\t' then ['\\', 't']
  else if char.toNat = 8 then ['\\', 'b']
  else if char.toNat = 12 then ['\\', 'f']
  else if char.toNat < 32 then
    ['\\', 'u', '0', '0', hexDigit (char.toNat / 16),
      hexDigit (char.toNat % 16)]
  else [char]

def renderString (value : String) : List Char :=
  '"' :: (value.toList.flatMap escapeChar ++ ['"'])

mutual

/-- The compact text of a value (`Value::to_string`). -/
def render : Json → List Char
  | .null => "null".toList
  | .bool value => (if value then "true" else "false").toList
  | .number display => display.text.toList
  | .string value => renderString value
  | .array items => '[' :: (renderItems items ++ [']'])
  | .object entries => '{' :: (renderEntries entries ++ ['}'])

def renderItems : List Json → List Char
  | [] => []
  | [item] => item.render
  | item :: items => item.render ++ ',' :: renderItems items

def renderEntries : List (String × Json) → List Char
  | [] => []
  | [(key, value)] => renderString key ++ ':' :: value.render
  | (key, value) :: entries =>
      renderString key ++ ':' :: (value.render ++ ',' :: renderEntries entries)

end

end Json

/-- `str::split('.')`. -/
def splitDots (path : List Char) : List (List Char) :=
  path.splitOn '.'

/-- Walk a JSON value by dot-separated path (e.g., "repo.name").  Returns
`none` if any intermediate segment is missing or not an object. -/
def resolveField (root : Json) (path : List Char) : Option Json :=
  (splitDots path).foldlM (fun current segment =>
    current.get? (String.ofList segment)) root

end Sendword
