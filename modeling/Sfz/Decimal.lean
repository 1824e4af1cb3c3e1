import Sfz.Text

/-! Decimal numbers and the binary floating-point numbers nearest to them.

A decimal number is an optional sign, digits with at most one point among or around them, and an
optional exponent; at least one digit stands before the exponent. Its value is kept exactly, as
digits and a power of ten, and rounded once.
-/

set_option autoImplicit false

namespace Sfz

/-- The number `digits * 10 ^ exponent`, negated if `negative`. -/
structure Decimal where
  negative : Bool
  digits : Nat
  exponent : Int
  deriving DecidableEq, Repr

namespace Decimal

def splitSign : List Char → Bool × List Char
  | '+' :: rest => (false, rest)
  | '-' :: rest => (true, rest)
  | rest => (false, rest)

def splitFraction : List Char → List Char × List Char
  | '.' :: rest => (rest.takeWhile Char.isDigit, rest.dropWhile Char.isDigit)
  | rest => ([], rest)

def exponent? : List Char → Option Int
  | [] => some 0
  | 'e' :: rest | 'E' :: rest => Text.signed? rest
  | _ => none

def ofList? (text : List Char) : Option Decimal := do
  let (negative, unsigned) := splitSign text
  let whole := unsigned.takeWhile Char.isDigit
  let (fraction, rest) := splitFraction (unsigned.dropWhile Char.isDigit)
  let digits ← Text.natural? (whole ++ fraction)
  let exponent ← exponent? rest
  return { negative, digits, exponent := exponent - fraction.length }

/-- The nearest single-precision number, ties to even; zero keeps its sign. -/
def toFloat32 (number : Decimal) : Float32 :=
  let magnitude :=
    Float32.ofScientific number.digits (number.exponent < 0) number.exponent.natAbs
  if number.negative then -magnitude else magnitude

def toFloat (number : Decimal) : Float :=
  let magnitude := Float.ofScientific number.digits (number.exponent < 0) number.exponent.natAbs
  if number.negative then -magnitude else magnitude

/-- Read a single-precision value; one that rounds to infinity is refused. -/
def float32? (text : String) : Option Float32 := do
  let number ← ofList? (Text.trim text.toList)
  if number.toFloat32.isFinite then some number.toFloat32 else none

end Decimal

end Sfz
