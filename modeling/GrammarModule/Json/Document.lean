import GrammarModule.Json.Codec

/-!
# GrammarModule.Json.Document

Documents of any shape, read from a text. Lists and objects may be nested 127 deep; the one that
would go deeper is refused at its opening character.
-/

namespace GrammarModule
namespace Json

/-- How deep lists and objects may be nested. -/
def depthLimit : Nat := 127

namespace Value

/-- The value at the cursor; `inner` reads the parts of a list or an object, and is absent where
neither may stand. -/
def readWith (inner : Option (Cursor → Except Error (Value × Cursor))) (c : Cursor) :
    Except Error (Value × Cursor) :=
  let c := c.skipBlank
  match c.rest with
  | [] => c.failNext .endInValue
  | 'n' :: _ => do .ok (.null, ← expectWord c.advance ['u', 'l', 'l'])
  | 't' :: _ => do .ok (.boolean true, ← expectWord c.advance ['r', 'u', 'e'])
  | 'f' :: _ => do .ok (.boolean false, ← expectWord c.advance ['a', 'l', 's', 'e'])
  | '"' :: _ => do
    let (content, c) ← readText c.advance
    .ok (.text content, c)
  | '-' :: _ => do
    let (n, c) ← readNumber true c.advance
    .ok (.number n, c)
  | '[' :: items =>
    match inner with
    | none => c.failNext .tooDeep
    | some item => do
      let (values, c) ← readItems item items true c.advance
      .ok (.list values, c)
  | '\x7b' :: members =>
    match inner with
    | none => c.failNext .tooDeep
    | some item => do
      let member (earlier : List (String × Value)) (key : String) (c : Cursor) :
          Except Error (List (String × Value) × Cursor) := do
        let (value, c) ← item (← expectColon c)
        .ok ((key, value) :: earlier, c)
      let (reversed, c) ← readMembers member members true [] c.advance
      .ok (.object reversed.reverse, c)
  | next :: _ =>
    if Cursor.isDigit next then do
      let (n, c) ← readNumber false c
      .ok (.number n, c)
    else c.failNext .valueExpected

/-- The value at the cursor, with lists and objects nested at most `depth` deep. -/
def read : Nat → Cursor → Except Error (Value × Cursor)
  | 0 => readWith none
  | depth + 1 => readWith (some (read depth))

def codec : Codec Value := ⟨read depthLimit, id⟩

/-- The document that a whole text denotes. -/
def parse (source : String) : Except Error Value := codec.parse source

end Value

end Json
end GrammarModule
