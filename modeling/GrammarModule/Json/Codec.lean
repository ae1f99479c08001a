import GrammarModule.Json.Skip
import GrammarModule.Json.Table
import GrammarModule.Json.Value

/-!
# GrammarModule.Json.Codec

Typed values and their documents. A codec reads the value at a cursor, straight from the text, and
writes a value as a document; codecs of lists, tables and optional values are built from those of
their parts. A value of another shape is refused after it has been read, except that a list or an
object is refused at its opening character.
-/

namespace GrammarModule
namespace Json

structure Codec (α : Type) where
  read : Cursor → Except Error (α × Cursor)
  write : α → Value

/-- Refuses the value at the cursor, which stands at no blank, in a place that calls for another
shape; what is no value, or an ill-formed one, is refused as such. -/
def refuseValue {α : Type} (expected : Expected) (c : Cursor) : Except Error α :=
  let refuse {α : Type} (found : Found) (c : Cursor) : Except Error α :=
    c.failHere (.unexpected found expected)
  match c.rest with
  | [] => c.failNext .endInValue
  | 'n' :: _ => do refuse .null (← expectWord c.advance ['u', 'l', 'l'])
  | 't' :: _ => do refuse (.boolean true) (← expectWord c.advance ['r', 'u', 'e'])
  | 'f' :: _ => do refuse (.boolean false) (← expectWord c.advance ['a', 'l', 's', 'e'])
  | '"' :: _ => do
    let (text, c) ← readText c.advance
    refuse (.text text) c
  | '-' :: _ => do
    let (number, c) ← readNumber true c.advance
    refuse (.number number) c
  | '[' :: _ => refuse .list c
  | '\x7b' :: _ => refuse .object c
  | next :: _ =>
    if Cursor.isDigit next then do
      let (number, c) ← readNumber false c
      refuse (.number number) c
    else c.failNext .valueExpected

/-! ## Values without parts -/

def readFlag (c : Cursor) : Except Error (Bool × Cursor) :=
  let c := c.skipBlank
  match c.rest with
  | 't' :: _ => do .ok (true, ← expectWord c.advance ['r', 'u', 'e'])
  | 'f' :: _ => do .ok (false, ← expectWord c.advance ['a', 'l', 's', 'e'])
  | _ => refuseValue .boolean c

def readString (c : Cursor) : Except Error (String × Cursor) :=
  let c := c.skipBlank
  match c.rest with
  | '"' :: _ => readText c.advance
  | _ => refuseValue .text c

/-! ## Values with parts -/

/-- The items of a list up to its closing bracket. Each round passes at least one character of the
bound, and the text has ended where the bound has. -/
def readItems {α : Type} (item : Cursor → Except Error (α × Cursor)) :
    List Char → Bool → Cursor → Except Error (List α × Cursor)
  | [], _, c => c.failNext .endInList
  | _ :: bound, first, c => do
    let (more, c) ← nextItem first c
    if more then
      let (value, c) ← item c
      let (values, c) ← readItems item bound false c
      .ok (value :: values, c)
    else .ok ([], c)

/-- The members of an object up to its closing brace, each added to what the earlier ones gave;
`member` is handed a key with the cursor after it. -/
def readMembers {σ : Type} (member : σ → String → Cursor → Except Error (σ × Cursor)) :
    List Char → Bool → σ → Cursor → Except Error (σ × Cursor)
  | [], _, _, c => c.failNext .endInObject
  | _ :: bound, first, state, c => do
    let (key?, c) ← nextKey first c
    match key? with
    | none => .ok (state, c)
    | some key =>
      let (state, c) ← member state key c
      readMembers member bound false state c

def readList {α : Type} (item : Cursor → Except Error (α × Cursor)) (c : Cursor) :
    Except Error (List α × Cursor) :=
  let c := c.skipBlank
  match c.rest with
  | '[' :: items => readItems item items true c.advance
  | _ => refuseValue .list c

/-- A table from any object: a repeated key keeps its last value. -/
def readTable {α : Type} (item : Cursor → Except Error (α × Cursor)) (c : Cursor) :
    Except Error (Table α × Cursor) :=
  let member (table : Table α) (key : String) (c : Cursor) : Except Error (Table α × Cursor) := do
    let (value, c) ← item (← expectColon c)
    .ok (table.insert key value, c)
  let c := c.skipBlank
  match c.rest with
  | '\x7b' :: members => readMembers member members true ∅ c.advance
  | _ => refuseValue .object c

/-- The word `null` stands for the absent value. -/
def readOptional {α : Type} (item : Cursor → Except Error (α × Cursor)) (c : Cursor) :
    Except Error (Option α × Cursor) :=
  let c := c.skipBlank
  match c.rest with
  | 'n' :: _ => do .ok (none, ← expectWord c.advance ['u', 'l', 'l'])
  | _ => do
    let (value, c) ← item c
    .ok (some value, c)

namespace Codec

def flag : Codec Bool := ⟨readFlag, .boolean⟩

def text : Codec String := ⟨readString, .text⟩

def list {α : Type} (item : Codec α) : Codec (List α) :=
  ⟨readList item.read, fun values => .list (values.map item.write)⟩

def table {α : Type} (item : Codec α) : Codec (Table α) :=
  ⟨readTable item.read, fun table =>
    .object (table.entries.map fun entry => (entry.1, item.write entry.2))⟩

def optional {α : Type} (item : Codec α) : Codec (Option α) :=
  ⟨readOptional item.read, fun value => value.elim .null item.write⟩

/-- The value that a whole text denotes. -/
def parse {α : Type} (codec : Codec α) (source : String) : Except Error α := do
  let (value, c) ← codec.read (Cursor.ofText source)
  expectEnd c
  .ok value

/-- The compact text of a value. -/
def render {α : Type} (codec : Codec α) (value : α) : String := (codec.write value).compactText

end Codec

end Json
end GrammarModule
