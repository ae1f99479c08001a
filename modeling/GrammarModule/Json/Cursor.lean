/-!
# GrammarModule.Json.Cursor

A place in a text that is being read: where it stands, and what is left of the text. Lines are
counted from one; a column counts the bytes of the encoded text that stand before the place on
its line, so a character of several bytes moves it by as many columns.
-/

namespace GrammarModule
namespace Json

/-- A line, counted from one, and the number of bytes before the place on that line. -/
structure Position where
  line : Nat
  column : Nat
  deriving DecidableEq, Repr, Inhabited

namespace Position

def start : Position := ⟨1, 0⟩

/-- The place just after `c`. -/
def after (p : Position) (c : Char) : Position :=
  if c = '\n' then ⟨p.line + 1, 0⟩ else ⟨p.line, p.column + c.utf8Size⟩

/-- The place just after the first byte of `c`. -/
def afterByte (p : Position) (c : Char) : Position :=
  if c = '\n' then ⟨p.line + 1, 0⟩ else ⟨p.line, p.column + 1⟩

/-- The place just after the whole of a text. -/
def afterText (p : Position) (text : List Char) : Position :=
  text.foldl after p

/-- The place `count` bytes further, which may lie inside a character; the end of the text if
there are not as many. -/
def afterBytes (p : Position) (count : Nat) : List Char → Position
  | [] => p
  | c :: rest =>
    if count = 0 then p
    else if count < c.utf8Size then ⟨p.line, p.column + count⟩
    else (p.after c).afterBytes (count - c.utf8Size) rest

@[simp] theorem afterText_nil (p : Position) : p.afterText [] = p := rfl

@[simp] theorem afterText_cons (p : Position) (c : Char) (text : List Char) :
    p.afterText (c :: text) = (p.after c).afterText text := rfl

theorem afterText_append (p : Position) (s t : List Char) :
    p.afterText (s ++ t) = (p.afterText s).afterText t := by
  simp [afterText]

end Position

/-- A position together with the text that follows it. -/
structure Cursor where
  position : Position
  rest : List Char
  deriving DecidableEq, Repr, Inhabited

namespace Cursor

def ofText (text : String) : Cursor := ⟨.start, text.toList⟩

/-- Past the first `count` characters. -/
def drop (c : Cursor) (count : Nat) : Cursor :=
  ⟨c.position.afterText (c.rest.take count), c.rest.drop count⟩

/-- Past the next character; unchanged at the end of the text. -/
def advance (c : Cursor) : Cursor :=
  match c.rest with
  | [] => c
  | next :: rest => ⟨c.position.after next, rest⟩

/-- Where a complaint about the next character stands: just after its first byte. -/
def nextPosition (c : Cursor) : Position :=
  match c.rest with
  | [] => c.position
  | next :: _ => c.position.afterByte next

/-- Where the text ends. -/
def endPosition (c : Cursor) : Position := c.position.afterText c.rest

/-- The four characters that may stand between tokens. -/
def isBlank (c : Char) : Bool :=
  c = ' ' || c = '\n' || c = '\t' || c = '\r'

/-- Past any blanks. -/
def skipBlank (c : Cursor) : Cursor :=
  c.drop (c.rest.takeWhile isBlank).length

def isDigit (c : Char) : Bool := '0' ≤ c && c ≤ '9'

/-- The digits that stand next. -/
def digits (c : Cursor) : List Char := c.rest.takeWhile isDigit

/-- Past the digits that stand next. -/
def skipDigits (c : Cursor) : Cursor := c.drop c.digits.length

@[simp] theorem drop_zero (c : Cursor) : c.drop 0 = c := by simp [drop]

theorem drop_length_takeWhile (p : Char → Bool) (text : List Char) :
    text.drop (text.takeWhile p).length = text.dropWhile p := by
  induction text with
  | nil => rfl
  | cons c rest ih => by_cases h : p c <;> simp [h, ih]

theorem rest_skipBlank (c : Cursor) : c.skipBlank.rest = c.rest.dropWhile isBlank :=
  drop_length_takeWhile isBlank c.rest

theorem rest_skipDigits (c : Cursor) : c.skipDigits.rest = c.rest.dropWhile isDigit :=
  drop_length_takeWhile isDigit c.rest

end Cursor

end Json
end GrammarModule
