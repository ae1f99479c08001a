/-!
# GrammarModule.Decimal.Shortest

Double precision numbers as bit patterns, and the shortest decimal that denotes one of them: the
fewest digits that read back as the same number and, among decimals of that many digits, the one
nearest to it. All of it is integer arithmetic on the two ends of the interval of reals that
round to the number.
-/

namespace GrammarModule

/-- A double precision number, by its encoding. -/
structure Binary64 where
  bits : UInt64
  deriving DecidableEq, Repr, Inhabited

/-- The number `digits * 10 ^ exponent`. -/
structure Decimal where
  digits : Nat
  exponent : Int
  deriving DecidableEq, Repr, Inhabited

namespace Binary64

def ofFloat (f : Float) : Binary64 := ⟨f.toBits⟩

def isNegative (b : Binary64) : Bool := b.bits >>> 63 == 1

def fraction (b : Binary64) : Nat := b.bits.toNat % Nat.pow 2 52

def biasedExponent (b : Binary64) : Nat := b.bits.toNat / Nat.pow 2 52 % Nat.pow 2 11

/-- The integer significand: the magnitude is `significand * 2 ^ (scale - 1075)`. -/
def significand (b : Binary64) : Nat :=
  if b.biasedExponent = 0 then b.fraction else b.fraction + Nat.pow 2 52

def scale (b : Binary64) : Nat := max b.biasedExponent 1

/-- The reals that round to a number, as integer multiples of one unit, `unit` being the number
of them in 1: both ends belong to the interval when `closed` holds. -/
structure Interval where
  low : Nat
  value : Nat
  high : Nat
  closed : Bool
  unit : Nat

/-- Half the gap to the neighbour on either side; below a power of two the gap is half as wide. -/
def interval (b : Binary64) : Interval where
  low := (4 * b.significand - if b.fraction = 0 ∧ 1 < b.biasedExponent then 1 else 2) *
    Nat.pow 2 b.scale
  value := 4 * b.significand * Nat.pow 2 b.scale
  high := (4 * b.significand + 2) * Nat.pow 2 b.scale
  closed := b.significand % 2 = 0
  unit := Nat.pow 2 1077

namespace Interval

/-- All quantities of the interval multiplied so that one step of `10 ^ exponent` is a whole
number of units: the interval on that grid and the width of a step. -/
def onGrid (i : Interval) (exponent : Int) : Interval × Nat :=
  let factor := Nat.pow 10 (-exponent).toNat
  (⟨i.low * factor, i.value * factor, i.high * factor, i.closed, i.unit * factor⟩,
    i.unit * Nat.pow 10 exponent.toNat)

def contains (i : Interval) (x : Nat) : Bool :=
  if i.closed then i.low ≤ x && x ≤ i.high else i.low < x && x < i.high

/-- The nearer of the value's two neighbours on the grid of `10 ^ exponent`, if it lies in the
interval; of two equally near ones the even one. -/
def nearest? (i : Interval) (exponent : Int) : Option Nat :=
  let (i, step) := i.onGrid exponent
  let below := i.value / step
  let above := below + 1
  let toBelow := i.value - below * step
  let toAbove := above * step - i.value
  match i.contains (below * step), i.contains (above * step) with
  | true, false => some below
  | false, true => some above
  | false, false => none
  | true, true =>
    if toBelow < toAbove then some below
    else if toAbove < toBelow then some above
    else some (if below % 2 = 0 then below else above)

/-- The power of ten at or below the value. -/
def leadingExponent (i : Interval) : Int :=
  let atLeast (e : Int) : Bool :=
    i.unit * Nat.pow 10 e.toNat ≤ i.value * Nat.pow 10 (-e).toNat
  let guess := ((i.value.log2 : Int) - i.unit.log2) * 30103 / 100000
  if atLeast (guess + 1) then guess + 1 else if atLeast guess then guess else guess - 1

end Interval

/-- Removes trailing zeros of the digits, at most as many as `fuel`. -/
def trim : Nat → Decimal → Decimal
  | 0, d => d
  | fuel + 1, d =>
    if d.digits % 10 = 0 then trim fuel ⟨d.digits / 10, d.exponent + 1⟩ else d

/-- The shortest decimal for the magnitude of a finite number. -/
def shortest (b : Binary64) : Decimal :=
  if b.significand = 0 then ⟨0, 0⟩
  else
    let i := b.interval
    let leading := i.leadingExponent
    let grids := (List.range 17).map fun (extra : Nat) => leading - (extra : Int)
    match grids.findSome? fun e => (i.nearest? e).map (Decimal.mk · e) with
    | some d => trim 17 d
    | none => ⟨0, 0⟩

end Binary64

namespace Decimal

def zeros (count : Nat) : List Char := List.replicate count '0'

/-- Powers of ten of the first digit from `10 ^ (-5)` up to `10 ^ 15` are written without an
exponent, with at least one digit on either side of the point; others as a first digit, the
remaining digits after a point, and an exponent with its sign. -/
def text (d : Decimal) : List Char :=
  let digits := (Nat.repr d.digits).toList
  let leading := d.exponent + (digits.length : Int) - 1
  if -5 ≤ leading ∧ leading ≤ 15 then
    if 0 ≤ d.exponent then digits ++ zeros d.exponent.toNat ++ ['.', '0']
    else if 0 ≤ leading then
      digits.take (leading.toNat + 1) ++ '.' :: digits.drop (leading.toNat + 1)
    else '0' :: '.' :: zeros (-leading - 1).toNat ++ digits
  else
    let tail := digits.drop 1
    digits.take 1 ++ (if tail.isEmpty then [] else '.' :: tail) ++
      'e' :: (if leading < 0 then '-' else '+') :: (Nat.repr leading.natAbs).toList

end Decimal

/-- The text of a finite number: its sign and its shortest decimal. -/
def Binary64.text (b : Binary64) : String :=
  String.ofList ((if b.isNegative then ['-'] else []) ++ b.shortest.text)

end GrammarModule
