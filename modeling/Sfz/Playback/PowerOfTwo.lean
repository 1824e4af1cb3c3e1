/-! Powers of two in single precision.

The power is computed in fixed point and rounded once, so that it is the single-precision number
nearest to the true power. Fixed-point numbers here have `fractionBits` bits after the point, far
more than the rounding can tell apart.
-/

set_option autoImplicit false

namespace Sfz

namespace PowerOfTwo

def fractionBits : Nat := 128

def one : Nat := 1 <<< fractionBits

/-- The natural logarithm of 2, as the sum of `1 / (k * 2 ^ k)` for `k` from 1. -/
def ln2 : Nat :=
  (List.range fractionBits).foldl (fun sum k => sum + one / ((k + 1) <<< (k + 1))) 0

def exponential (exponent : Nat) : Nat :=
  let addTerm := fun (sums : Nat × Nat) (k : Nat) =>
    let term := sums.2 * exponent / (one * (k + 1))
    (sums.1 + term, term)
  ((List.range 40).foldl addTerm (one, one)).1

/-- A finite number as a multiple of the smallest positive one, which is `2 ^ (-149)`. -/
def units (number : Float32) : Int :=
  let bits := number.toBits.toNat
  let fraction := bits % 0x800000
  let exponent := (bits >>> 23) % 0x100
  let magnitude : Nat :=
    if exponent = 0 then fraction else (fraction + 0x800000) <<< (exponent - 1)
  if bits < 0x80000000 then magnitude else -magnitude

def fixed (number : Float32) : Int :=
  units number >>> (149 - fractionBits)

/-- The single-precision number nearest to `mantissa * 2 ^ exponent`, ties to even. -/
def nearest (mantissa : Nat) (exponent : Int) : Float32 :=
  .ofModel (.pack (Float.Model.UnpackedFloat.round .binary32 .positive mantissa exponent))

def infinity : Float32 := Float32.ofBits 0x7f800000

end PowerOfTwo

def powerOfTwo (exponent : Float32) : Float32 :=
  open PowerOfTwo in
  let whole := fixed exponent / one
  let fraction := (fixed exponent % one).toNat
  if exponent.isNaN then
    exponent
  else if 128 ≤ whole then
    infinity
  else if whole < -150 then
    0
  else
    nearest (exponential (fraction * ln2 / one)) (whole - fractionBits)

end Sfz
