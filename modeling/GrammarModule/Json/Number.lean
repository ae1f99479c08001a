import GrammarModule.Json.Error

/-!
# GrammarModule.Json.Number

Number literals. A number that is read keeps as many leading digits as an unsigned 64-bit integer
holds and counts the others in the exponent of ten; without fraction and exponent it is an
integer if it fits 64 bits, and else a double precision number, which one multiplication or
division by a power of ten gives. A number that is skipped is only checked for its form, so it may
have any size.
-/

namespace GrammarModule
namespace Json

def digitValue (c : Char) : Nat := c.toNat - '0'.toNat

/-- The largest significand that is kept. -/
def significandLimit : Nat := UInt64.size - 1

/-- The largest exponent that is kept. -/
def exponentLimit : Nat := 0x7fffffff

/-- Appends digits to a number as long as it stays within the limit, and counts them. -/
def absorb (limit : Nat) (n : Nat) : List Char → Nat × Nat
  | [] => (n, 0)
  | d :: rest =>
    let next := 10 * n + digitValue d
    if next ≤ limit then
      let (result, count) := absorb limit next rest
      (result, count + 1)
    else (n, 0)

/-! ## Values -/

/-- The double precision number nearest to a power of ten. -/
def powerOfTen (exponent : Nat) : Float := Float.ofScientific 1 false exponent

/-- Divides by a power of ten, in steps of at most the largest one there is. -/
def scaleDown (f : Float) (exponent : Nat) : Float :=
  if exponent ≤ 308 then f / powerOfTen exponent
  else if f == 0 then f
  else scaleDown (f / powerOfTen 308) (exponent - 308)
termination_by exponent

/-- `significand * 10 ^ exponent`, or nothing when that is beyond the finite numbers. -/
def magnitude? (significand : Nat) (exponent : Int) : Option Float :=
  let f := significand.toUInt64.toFloat
  if exponent < 0 then some (scaleDown f exponent.natAbs)
  else if exponent ≤ 308 then
    let g := f * powerOfTen exponent.toNat
    if g.isInf then none else some g
  else if f == 0 then some f
  else none

def signed (negative : Bool) (f : Float) : Number :=
  .binary (.ofFloat (if negative then -f else f))

/-- An integer literal: negative zero and what 64 bits do not hold are not whole numbers. -/
def wholeNumber (negative : Bool) (significand : Nat) : Number :=
  if negative then
    if 0 < significand ∧ significand ≤ 0x8000000000000000 then .whole (-(significand : Int))
    else signed true significand.toUInt64.toFloat
  else .whole significand

/-! ## Reading -/

/-- The number with the given parts, whose text ends at the cursor. -/
def scaledNumber (negative : Bool) (significand : Nat) (exponent : Int) (c : Cursor) :
    Except Error (Number × Cursor) :=
  match magnitude? significand exponent with
  | some f => .ok (signed negative f, c)
  | none => c.failHere .numberOutOfRange

/-- The exponent, from the character that starts it. -/
def readExponent (negative : Bool) (significand : Nat) (exponent : Int) (c : Cursor) :
    Except Error (Number × Cursor) :=
  let c := c.advance
  let down := c.rest.head? = some '-'
  let c := if down ∨ c.rest.head? = some '+' then c.advance else c
  if c.digits.isEmpty then
    c.failNext (if c.rest.isEmpty then .endInValue else .invalidNumber)
  else
    let (size, count) := absorb exponentLimit 0 c.digits
    if count < c.digits.length then
      if significand ≠ 0 ∧ ¬down then (c.drop (count + 1)).failHere .numberOutOfRange
      else .ok (signed negative 0, c.skipDigits)
    else
      scaledNumber negative significand (if down then exponent - size else exponent + size)
        c.skipDigits

def isExponentMark (c : Cursor) : Bool :=
  c.rest.head? = some 'e' || c.rest.head? = some 'E'

/-- The fraction, from the point that starts it. -/
def readFraction (negative : Bool) (significand : Nat) (exponent : Int) (c : Cursor) :
    Except Error (Number × Cursor) :=
  let c := c.advance
  if c.digits.isEmpty then
    c.failNext (if c.rest.isEmpty then .endInValue else .invalidNumber)
  else
    let (significand, count) := absorb significandLimit significand c.digits
    let exponent := exponent - count
    let c := c.skipDigits
    if isExponentMark c then readExponent negative significand exponent c
    else scaledNumber negative significand exponent c

/-- The number at the cursor, after a minus sign if it has one. -/
def readNumber (negative : Bool) (c : Cursor) : Except Error (Number × Cursor) :=
  if c.digits.isEmpty then
    c.failNext (if c.rest.isEmpty then .endInValue else .invalidNumber)
  else if c.digits.head? = some '0' ∧ 1 < c.digits.length then
    c.advance.failNext .invalidNumber
  else
    let (significand, count) := absorb significandLimit 0 c.digits
    let dropped : Nat := c.digits.length - count
    let c := c.skipDigits
    if c.rest.head? = some '.' then readFraction negative significand dropped c
    else if isExponentMark c then readExponent negative significand dropped c
    else if dropped = 0 then .ok (wholeNumber negative significand, c)
    else scaledNumber negative significand dropped c

/-! ## Skipping -/

/-- Past an exponent, from the character that starts it. -/
def skipExponent (c : Cursor) : Except Error Cursor :=
  let c := c.advance
  let c := if c.rest.head? = some '-' ∨ c.rest.head? = some '+' then c.advance else c
  if c.digits.isEmpty then c.failNext .invalidNumber else .ok c.skipDigits

/-- Past the number at the cursor, after a minus sign if it has one. -/
def skipNumber (c : Cursor) : Except Error Cursor :=
  if c.digits.isEmpty then c.failNext .invalidNumber
  else if c.digits.head? = some '0' ∧ 1 < c.digits.length then
    c.advance.failNext .invalidNumber
  else
    let c := c.skipDigits
    if c.rest.head? = some '.' then
      let c := c.advance
      if c.digits.isEmpty then c.failNext .invalidNumber
      else if isExponentMark c.skipDigits then skipExponent c.skipDigits
      else .ok c.skipDigits
    else if isExponentMark c then skipExponent c
    else .ok c

end Json
end GrammarModule
