import GrammarModule.Json.Error

/-!
# GrammarModule.Json.Value

Documents and their two written forms: the compact one without blanks, and the pretty one with a
line for each item or member, indented by two spaces for each list or object around it. Strings
escape quotes, backslashes and control characters and nothing else.
-/

namespace GrammarModule
namespace Json

/-- A document. An object lists its members in written order. -/
inductive Value where
  | null
  | boolean (value : Bool)
  | number (value : Number)
  | text (value : String)
  | list (items : List Value)
  | object (members : List (String × Value))
  deriving Repr

namespace Value

/-- A character inside a string literal. -/
def escapedChar (c : Char) : List Char :=
  match c with
  | '"' => ['\\', '"']
  | '\\' => ['\\', '\\']
  | '\x08' => ['\\', 'b']
  | '\x0c' => ['\\', 'f']
  | '\n' => ['\\', 'n']
  | '\r' => ['\\', 'r']
  | '\t' => ['\\', 't']
  | c =>
    if c < ' ' then
      ['\\', 'u', '0', '0', Nat.digitChar (c.toNat / 16), Nat.digitChar (c.toNat % 16)]
    else [c]

/-- A string literal. -/
def literal (s : String) : List Char :=
  '"' :: s.toList.flatMap escapedChar ++ ['"']

def numberText : Number → String
  | .whole value => toString value
  | .binary value => value.text

def wordText (value : Bool) : String := if value then "true" else "false"

mutual

/-- The compact form. -/
def compact : Value → List Char
  | .null => ['n', 'u', 'l', 'l']
  | .boolean value => (wordText value).toList
  | .number value => (numberText value).toList
  | .text value => literal value
  | .list items => '[' :: compactItems items ++ [']']
  | .object members => '\x7b' :: compactMembers members ++ ['\x7d']

def compactItems : List Value → List Char
  | [] => []
  | [item] => item.compact
  | item :: rest => item.compact ++ ',' :: compactItems rest

def compactMembers : List (String × Value) → List Char
  | [] => []
  | [(key, value)] => literal key ++ ':' :: value.compact
  | (key, value) :: rest => literal key ++ ':' :: value.compact ++ ',' :: compactMembers rest

end

/-- A line break and the indentation of the next line. -/
def newLine (depth : Nat) : List Char := '\n' :: List.replicate (2 * depth) ' '

mutual

/-- The pretty form of a value that stands inside `depth` lists and objects. -/
def prettyAt (depth : Nat) : Value → List Char
  | .null => ['n', 'u', 'l', 'l']
  | .boolean value => (wordText value).toList
  | .number value => (numberText value).toList
  | .text value => literal value
  | .list [] => ['[', ']']
  | .list items => '[' :: prettyItems (depth + 1) items ++ newLine depth ++ [']']
  | .object [] => ['\x7b', '\x7d']
  | .object members =>
    '\x7b' :: prettyMembers (depth + 1) members ++ newLine depth ++ ['\x7d']

def prettyItems (depth : Nat) : List Value → List Char
  | [] => []
  | [item] => newLine depth ++ item.prettyAt depth
  | item :: rest => newLine depth ++ item.prettyAt depth ++ ',' :: prettyItems depth rest

def prettyMembers (depth : Nat) : List (String × Value) → List Char
  | [] => []
  | [(key, value)] => newLine depth ++ literal key ++ ':' :: ' ' :: value.prettyAt depth
  | (key, value) :: rest =>
    newLine depth ++ literal key ++ ':' :: ' ' :: value.prettyAt depth ++
      ',' :: prettyMembers depth rest

end

/-- The compact text. -/
def compactText (v : Value) : String := String.ofList v.compact

/-- The pretty text. -/
def prettyText (v : Value) : String := String.ofList (v.prettyAt 0)

end Value

end Json
end GrammarModule
