import GrammarModule.Json.Error

/-!
# GrammarModule.Json.StringLiteral

String literals, from the character after the opening quote. Reading decodes the escapes, pairs
of surrogate escapes included; skipping checks the form of the escapes alone. The four digits of
a `\u` escape are taken as four bytes, so a refusal of them may stand inside a character.
-/

namespace GrammarModule
namespace Json

/-- The value of a hexadecimal digit of either case. -/
def hexValue? (c : Char) : Option Nat :=
  if '0' ≤ c ∧ c ≤ '9' then some (c.toNat - '0'.toNat)
  else if 'a' ≤ c ∧ c ≤ 'f' then some (c.toNat - 'a'.toNat + 10)
  else if 'A' ≤ c ∧ c ≤ 'F' then some (c.toNat - 'A'.toNat + 10)
  else none

/-- The sixteen bits that four hexadecimal digits denote. -/
def unitOfDigits? : List Char → Option Nat
  | [a, b, c, d] => do
    let a ← hexValue? a
    let b ← hexValue? b
    let c ← hexValue? c
    let d ← hexValue? d
    pure (((a * 16 + b) * 16 + c) * 16 + d)
  | _ => none

/-- The number of bytes that encode a text. -/
def byteLength (text : List Char) : Nat := text.foldl (fun count c => count + c.utf8Size) 0

/-- The value of the four digits at the cursor. -/
def readUnit (c : Cursor) : Except Error Nat :=
  if byteLength (c.rest.take 4) < 4 then .error ⟨.endInText, c.endPosition⟩
  else
    match unitOfDigits? (c.rest.take 4) with
    | some n => .ok n
    | none => .error ⟨.invalidEscape, c.position.afterBytes 4 c.rest⟩

/-- The character that `\` and one more character denote. -/
def simpleEscape? : Char → Option Char
  | '"' => some '"'
  | '\\' => some '\\'
  | '/' => some '/'
  | 'b' => some '\x08'
  | 'f' => some '\x0c'
  | 'n' => some '\n'
  | 'r' => some '\r'
  | 't' => some '\t'
  | _ => none

def isHighSurrogate (n : Nat) : Bool := 0xd800 ≤ n && n ≤ 0xdbff

def isLowSurrogate (n : Nat) : Bool := 0xdc00 ≤ n && n ≤ 0xdfff

/-- The character that two surrogates denote. -/
def pairedChar (high low : Nat) : Char :=
  Char.ofNat ((high - 0xd800) * 0x400 + (low - 0xdc00) + 0x10000)

/-- The cursor after `wanted`, which has to stand next. -/
def expectInEscape (c : Cursor) (wanted : Char) : Except Error Cursor :=
  match c.rest with
  | [] => c.failHere .endInText
  | next :: _ => if next = wanted then .ok c.advance else c.failNext .hexEscapeEnd

/-- The character that the escape at the cursor denotes, the cursor standing after the backslash,
and how many characters it takes. A high surrogate needs a low one written right after it. -/
def readEscape (c : Cursor) : Except Error (Char × Nat) :=
  match c.rest with
  | [] => c.failHere .endInText
  | 'u' :: _ => do
    let digits := c.advance
    let unit ← readUnit digits
    let c := digits.drop 4
    if isLowSurrogate unit then c.failHere .loneSurrogate
    else if isHighSurrogate unit then
      let c ← expectInEscape c '\\'
      let digits ← expectInEscape c 'u'
      let low ← readUnit digits
      if isLowSurrogate low then .ok (pairedChar unit low, 11)
      else (digits.drop 4).failHere .loneSurrogate
    else .ok (Char.ofNat unit, 5)
  | e :: _ =>
    match simpleEscape? e with
    | some x => .ok (x, 1)
    | none => c.failNext .invalidEscape

/-- How many characters the escape at the cursor takes, surrogates being as good as others. -/
def skipEscape (c : Cursor) : Except Error Nat :=
  match c.rest with
  | [] => c.failHere .endInText
  | 'u' :: _ => do
    let _ ← readUnit c.advance
    .ok 5
  | e :: _ => if (simpleEscape? e).isSome then .ok 1 else c.failNext .invalidEscape

/-- The characters up to the closing quote, and the cursor after it. -/
def readChars (p : Position) : List Char → Except Error (List Char × Cursor)
  | [] => .error ⟨.endInText, p⟩
  | c :: rest =>
    if c = '"' then .ok ([], ⟨p.after c, rest⟩)
    else if c = '\\' then do
      let (x, count) ← readEscape ⟨p.after c, rest⟩
      let next := (Cursor.mk (p.after c) rest).drop count
      let (text, tail) ← readChars next.position (rest.drop count)
      .ok (x :: text, tail)
    else if c < ' ' then .error ⟨.controlCharacter, p.afterByte c⟩
    else do
      let (text, tail) ← readChars (p.after c) rest
      .ok (c :: text, tail)
termination_by text => text.length
decreasing_by all_goals (simp only [List.length_drop, List.length_cons]; omega)

/-- The cursor after the closing quote. A control character is refused before it is passed. -/
def skipChars (p : Position) : List Char → Except Error Cursor
  | [] => .error ⟨.endInText, p⟩
  | c :: rest =>
    if c = '"' then .ok ⟨p.after c, rest⟩
    else if c = '\\' then do
      let count ← skipEscape ⟨p.after c, rest⟩
      let next := (Cursor.mk (p.after c) rest).drop count
      skipChars next.position (rest.drop count)
    else if c < ' ' then .error ⟨.controlCharacter, p⟩
    else skipChars (p.after c) rest
termination_by text => text.length
decreasing_by all_goals (simp only [List.length_drop, List.length_cons]; omega)

/-- The string literal whose opening quote has just been passed. -/
def readText (c : Cursor) : Except Error (String × Cursor) := do
  let (text, c) ← readChars c.position c.rest
  .ok (String.ofList text, c)

/-- Past the string literal whose opening quote has just been passed. -/
def skipText (c : Cursor) : Except Error Cursor := skipChars c.position c.rest

end Json
end GrammarModule
