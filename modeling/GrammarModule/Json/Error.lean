import GrammarModule.Decimal.Shortest
import GrammarModule.Json.Cursor
import GrammarModule.Text.Quoted

/-!
# GrammarModule.Json.Error

Why a text was refused, and where. A text is refused because it is cut short, because it breaks
the grammar of the notation, or because it is well formed but not of the expected shape; the
cause carries what its message names, and `Error.message` is the one place with the wording.
-/

namespace GrammarModule
namespace Json

/-- A number as it was written: an integer that fits 64 bits, or a double precision number. -/
inductive Number where
  | whole (value : Int)
  | binary (value : Binary64)
  deriving DecidableEq, Repr

/-- What stands in the text where something else was expected. -/
inductive Found where
  | null
  | boolean (value : Bool)
  | number (value : Number)
  | text (value : String)
  | list
  | object
  deriving DecidableEq, Repr

/-- What a place in a document calls for. -/
inductive Expected where
  | boolean
  | text
  | list
  | object
  | record (name : String)
  deriving DecidableEq, Repr

inductive Cause where
  -- The text ends inside a list, an object, a string, or where a value has to stand.
  | endInList
  | endInObject
  | endInText
  | endInValue
  -- The next character cannot stand there.
  | colonExpected
  | listCommaOrEndExpected
  | objectCommaOrEndExpected
  | wordExpected
  | valueExpected
  | invalidEscape
  | invalidNumber
  | numberOutOfRange
  | controlCharacter
  | keyNotText
  | loneSurrogate
  | trailingComma
  | trailingCharacters
  | hexEscapeEnd
  | tooDeep
  -- The value does not have the shape that its place calls for.
  | unexpected (found : Found) (expected : Expected)
  | tooShort (length : Nat) (record : String) (size : Nat)
  | missingMember (key : String)
  | duplicateMember (key : String)
  deriving DecidableEq, Repr

/-- The three ways in which a text is refused. -/
inductive Category where
  | cutShort
  | illFormed
  | wrongShape
  deriving DecidableEq, Repr

def Category.name : Category → String
  | .cutShort => "eof"
  | .illFormed => "syntax"
  | .wrongShape => "data"

def Cause.category : Cause → Category
  | .endInList | .endInObject | .endInText | .endInValue => .cutShort
  | .unexpected _ _ | .tooShort _ _ _ | .missingMember _ | .duplicateMember _ => .wrongShape
  | _ => .illFormed

def Found.describe : Found → String
  | .null => "null"
  | .boolean value => "boolean `" ++ (if value then "true" else "false") ++ "`"
  | .number (.whole value) => "integer `" ++ toString value ++ "`"
  | .number (.binary value) => "floating point `" ++ value.text ++ "`"
  | .text value => "string " ++ Text.quoted value
  | .list => "sequence"
  | .object => "map"

def Expected.describe : Expected → String
  | .boolean => "a boolean"
  | .text => "a string"
  | .list => "a sequence"
  | .object => "a map"
  | .record name => "struct " ++ name

def Cause.describe : Cause → String
  | .endInList => "EOF while parsing a list"
  | .endInObject => "EOF while parsing an object"
  | .endInText => "EOF while parsing a string"
  | .endInValue => "EOF while parsing a value"
  | .colonExpected => "expected `:`"
  | .listCommaOrEndExpected => "expected `,` or `]`"
  | .objectCommaOrEndExpected => "expected `,` or `\x7d`"
  | .wordExpected => "expected ident"
  | .valueExpected => "expected value"
  | .invalidEscape => "invalid escape"
  | .invalidNumber => "invalid number"
  | .numberOutOfRange => "number out of range"
  | .controlCharacter => "control character (\\u0000-\\u001F) found while parsing a string"
  | .keyNotText => "key must be a string"
  | .loneSurrogate => "lone leading surrogate in hex escape"
  | .trailingComma => "trailing comma"
  | .trailingCharacters => "trailing characters"
  | .hexEscapeEnd => "unexpected end of hex escape"
  | .tooDeep => "recursion limit exceeded"
  | .unexpected found expected =>
    "invalid type: " ++ found.describe ++ ", expected " ++ expected.describe
  | .tooShort length record size =>
    "invalid length " ++ toString length ++ ", expected struct " ++ record ++ " with " ++
      toString size ++ " elements"
  | .missingMember key => "missing field `" ++ key ++ "`"
  | .duplicateMember key => "duplicate field `" ++ key ++ "`"

/-- A cause and the place in the text where it shows. -/
structure Error where
  cause : Cause
  position : Position
  deriving DecidableEq, Repr

def Error.message (e : Error) : String :=
  e.cause.describe ++ " at line " ++ toString e.position.line ++ " column " ++
    toString e.position.column

/-- Refuses the text at the cursor itself. -/
def Cursor.failHere {α : Type} (c : Cursor) (cause : Cause) : Except Error α :=
  .error ⟨cause, c.position⟩

/-- Refuses the character that stands next. -/
def Cursor.failNext {α : Type} (c : Cursor) (cause : Cause) : Except Error α :=
  .error ⟨cause, c.nextPosition⟩

end Json
end GrammarModule
