import GrammarModule.Json.Number
import GrammarModule.Json.Token

/-!
# GrammarModule.Json.Skip

Values that nobody asks for are checked for their form and passed over. The open lists and
objects around the cursor are kept in a list, so that values nested to any depth can be skipped.
-/

namespace GrammarModule
namespace Json

/-- An open bracket or brace. -/
inductive Frame where
  | list
  | object
  deriving DecidableEq, Repr

namespace Frame

def closer : Frame → Char
  | .list => ']'
  | .object => '\x7d'

/-- The refusal of a text that ends inside. -/
def endCause : Frame → Cause
  | .list => .endInList
  | .object => .endInObject

/-- The refusal of what is neither a comma nor the closing character. -/
def separatorCause : Frame → Cause
  | .list => .listCommaOrEndExpected
  | .object => .objectCommaOrEndExpected

end Frame

/-- What the text still owes: a value, an item or the end of what was just opened, or what may
follow a value; each inside the open lists and objects around it, the innermost first. -/
inductive Pending where
  | value (around : List Frame)
  | opened (frame : Frame) (around : List Frame)
  | done (around : List Frame)
  deriving DecidableEq, Repr

/-- Past a value without parts; of a list or object only the opening character is passed. -/
def skipStart (around : List Frame) (c : Cursor) : Except Error (Pending × Cursor) :=
  let c := c.skipBlank
  let whole (rest : Except Error Cursor) : Except Error (Pending × Cursor) := do
    .ok (.done around, ← rest)
  match c.rest with
  | [] => c.failNext .endInValue
  | 'n' :: _ => whole (expectWord c.advance ['u', 'l', 'l'])
  | 't' :: _ => whole (expectWord c.advance ['r', 'u', 'e'])
  | 'f' :: _ => whole (expectWord c.advance ['a', 'l', 's', 'e'])
  | '"' :: _ => whole (skipText c.advance)
  | '-' :: _ => whole (skipNumber c.advance)
  | '[' :: _ => .ok (.opened .list around, c.advance)
  | '\x7b' :: _ => .ok (.opened .object around, c.advance)
  | next :: _ => if Cursor.isDigit next then whole (skipNumber c) else c.failNext .valueExpected

/-- Past a key and its colon. -/
def skipKey (c : Cursor) : Except Error Cursor :=
  let c := c.skipBlank
  match c.rest with
  | [] => c.failNext .endInObject
  | '"' :: _ => do expectColon (← skipText c.advance)
  | _ => c.failNext .keyNotText

/-- The first step inside a list or object that was just opened. -/
def skipFirst (frame : Frame) (around : List Frame) (c : Cursor) :
    Except Error (Pending × Cursor) :=
  let c := c.skipBlank
  match c.rest with
  | [] => c.failNext frame.endCause
  | next :: _ =>
    if next = frame.closer then .ok (.done around, c.advance)
    else match frame with
      | .list => skipStart (frame :: around) c
      | .object => do .ok (.value (frame :: around), ← skipKey c)

/-- The step after a value inside a list or object. -/
def skipNext (frame : Frame) (around : List Frame) (c : Cursor) :
    Except Error (Pending × Cursor) :=
  let c := c.skipBlank
  match c.rest with
  | [] => c.failNext frame.endCause
  | next :: _ =>
    if next = frame.closer then .ok (.done around, c.advance)
    else if next = ',' then
      match frame with
      | .list => .ok (.value (frame :: around), c.advance)
      | .object => do .ok (.value (frame :: around), ← skipKey c.advance)
    else c.failNext frame.separatorCause

/-- Past everything that the text still owes. Each step passes at least one of the characters
that were there at the start, so these bound the steps, and the text has ended where they have. -/
def skipPending : List Char → Pending → Cursor → Except Error Cursor
  | _, .done [], c => .ok c
  | [], .value _, c => c.failNext .endInValue
  | [], .opened frame _, c => c.failNext frame.endCause
  | [], .done (frame :: _), c => c.failNext frame.endCause
  | _ :: bound, .value around, c => do
    let (pending, c) ← skipStart around c
    skipPending bound pending c
  | _ :: bound, .opened frame around, c => do
    let (pending, c) ← skipFirst frame around c
    skipPending bound pending c
  | _ :: bound, .done (frame :: around), c => do
    let (pending, c) ← skipNext frame around c
    skipPending bound pending c

/-- Past the value at the cursor. -/
def skipValue (c : Cursor) : Except Error Cursor :=
  skipPending c.rest (.value []) c

end Json
end GrammarModule
