import GrammarModule.Json.StringLiteral

/-!
# GrammarModule.Json.Token

What stands between values: words, the separators of lists and objects, and the keys of objects.
Each function takes the cursor past the blanks before what it looks for, and refuses the next
character when it is something else.
-/

namespace GrammarModule
namespace Json

/-- The cursor after the remaining letters of a word whose first letter has been passed. -/
def expectWord (c : Cursor) : List Char → Except Error Cursor
  | [] => .ok c
  | letter :: letters =>
    match c.rest with
    | [] => c.failHere .endInValue
    | next :: _ =>
      if next = letter then expectWord c.advance letters else c.failNext .wordExpected

/-- Whether a list, whose opening bracket or an item has been passed, has one more item: the
cursor then stands at it, and otherwise after the closing bracket. -/
def nextItem (first : Bool) (c : Cursor) : Except Error (Bool × Cursor) :=
  let c := c.skipBlank
  match c.rest with
  | [] => c.failNext .endInList
  | ']' :: _ => .ok (false, c.advance)
  | ',' :: _ =>
    if first then .ok (true, c)
    else
      let c := c.advance.skipBlank
      match c.rest with
      | [] => c.failNext .endInValue
      | ']' :: _ => c.failNext .trailingComma
      | _ => .ok (true, c)
  | _ => if first then .ok (true, c) else c.failNext .listCommaOrEndExpected

/-- The cursor after the closing bracket of a list that has had all the items it may have. -/
def closeList (c : Cursor) : Except Error Cursor :=
  let c := c.skipBlank
  match c.rest with
  | [] => c.failNext .endInList
  | ']' :: _ => .ok c.advance
  | ',' :: _ =>
    let c := c.advance.skipBlank
    c.failNext (if c.rest.head? = some ']' then .trailingComma else .trailingCharacters)
  | _ => c.failNext .trailingCharacters

/-- The next key of an object, whose opening brace or a member has been passed, and the cursor
after the key; without a further key the cursor stands after the closing brace. -/
def nextKey (first : Bool) (c : Cursor) : Except Error (Option String × Cursor) :=
  let key (c : Cursor) : Except Error (Option String × Cursor) := do
    let (name, c) ← readText c.advance
    .ok (some name, c)
  let c := c.skipBlank
  match c.rest with
  | [] => c.failNext .endInObject
  | '\x7d' :: _ => .ok (none, c.advance)
  | '"' :: _ => if first then key c else c.failNext .objectCommaOrEndExpected
  | ',' :: _ =>
    if first then c.failNext .keyNotText
    else
      let c := c.advance.skipBlank
      match c.rest with
      | [] => c.failNext .endInValue
      | '"' :: _ => key c
      | '\x7d' :: _ => c.failNext .trailingComma
      | _ => c.failNext .keyNotText
  | _ => c.failNext (if first then .keyNotText else .objectCommaOrEndExpected)

/-- The cursor after the colon that follows a key. -/
def expectColon (c : Cursor) : Except Error Cursor :=
  let c := c.skipBlank
  match c.rest with
  | [] => c.failNext .endInObject
  | ':' :: _ => .ok c.advance
  | _ => c.failNext .colonExpected

/-- Where an object stands closed, as far as it is: after the closing brace if that comes next. -/
def closedObjectPosition (c : Cursor) : Position :=
  let c := c.skipBlank
  if c.rest.head? = some '\x7d' then c.advance.position else c.position

/-- Nothing but blanks may follow a document. -/
def expectEnd (c : Cursor) : Except Error Unit :=
  let c := c.skipBlank
  if c.rest.isEmpty then .ok () else c.failNext .trailingCharacters

end Json
end GrammarModule
