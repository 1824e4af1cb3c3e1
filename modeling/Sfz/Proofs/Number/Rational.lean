import Mathlib
import Sfz.Region

/-! The rational values of single-precision numbers.

A finite number stands for a rational, and numbers are compared as their rationals are. The
comparison looks at exponents first and at mantissas second, which is right because a number
unpacks to one form only: its mantissa has all of 24 bits unless its exponent is the least.
-/

set_option autoImplicit false

namespace Sfz

open Float.Model Float.Model.UnpackedFloat

namespace Unpacked

/-- The rational that a sign, a mantissa and an exponent make; what is not finite counts as 0. -/
def rational : UnpackedFloat → ℚ
  | .finite sign mantissa exponent _ => sign.apply mantissa * 2 ^ exponent
  | .zero _ | .infinity _ | .notANumber => 0

structure Fits (mantissa : Nat) (exponent : Int) : Prop where
  bounded : mantissa < 2 ^ 24
  least : -149 ≤ exponent
  full : 2 ^ 23 ≤ mantissa ∨ exponent = -149

namespace Fits

variable {first second : Nat} {low high : Int} (left : Fits first low) (right : Fits second high)
include left right

theorem lt_of_exponent_lt (lower : low < high) : (first : ℚ) * 2 ^ low < second * 2 ^ high := by
  have bounded : (first : ℚ) < 2 ^ 24 := by exact_mod_cast left.bounded
  have full : (2 : ℚ) ^ 23 ≤ second := by
    have := left.least
    exact_mod_cast right.full.resolve_right (by omega)
  calc (first : ℚ) * 2 ^ low
      < 2 ^ 24 * 2 ^ low := by gcongr
    _ = 2 ^ 23 * 2 ^ (low + 1) := by rw [zpow_add_one₀ two_ne_zero]; ring
    _ ≤ second * 2 ^ high := by
      gcongr
      · norm_num
      · omega

theorem lt_iff :
    (first : ℚ) * 2 ^ low < second * 2 ^ high ↔ low < high ∨ low = high ∧ first < second := by
  rcases lt_trichotomy low high with lower | rfl | higher
  · simp [left.lt_of_exponent_lt right lower, lower]
  · have positive : (0 : ℚ) < 2 ^ low := by positivity
    simp [mul_lt_mul_iff_left₀ positive]
  · simp [(right.lt_of_exponent_lt left higher).le, higher.not_gt, higher.ne']

theorem compare_eq_lt_iff :
    (compare low high).then (compare first second) = .lt ↔
      (first : ℚ) * 2 ^ low < second * 2 ^ high := by
  rw [left.lt_iff right, Ordering.then_eq_lt, compare_lt_iff_lt, compare_eq_iff_eq,
    compare_lt_iff_lt]

theorem compare_eq_gt_iff :
    (compare low high).then (compare first second) = .gt ↔
      (second : ℚ) * 2 ^ high < first * 2 ^ low := by
  rw [right.lt_iff left, Ordering.then_eq_gt, compare_gt_iff_gt, compare_eq_iff_eq,
    compare_gt_iff_gt, eq_comm (a := low)]

end Fits

def Canonical : UnpackedFloat → Prop
  | .finite _ mantissa exponent _ => Fits mantissa exponent
  | .zero _ | .infinity _ | .notANumber => True

theorem toNat_implicit_append (fraction : BitVec 23) :
    (1#1 ++ fraction).toNat = 2 ^ 23 + fraction.toNat := by
  rw [BitVec.toNat_append, ← Nat.shiftLeft_add_eq_or_of_lt fraction.isLt]
  rfl

theorem canonical_unpack (bits : BitVec Format.binary32.numBits) :
    Canonical (UnpackedFloat.unpack .binary32 bits) := by
  have bias : (Format.binary32.exponentBias : Int) = 127 := rfl
  have fraction : (unpackMantissa bits).toNat < 2 ^ 23 := (unpackMantissa bits).isLt
  rw [UnpackedFloat.unpack]
  split
  · split <;> trivial
  · split
    · next least =>
      split
      · trivial
      · have zero : (unpackExponent bits).toNat = 0 := by rw [least]; rfl
        constructor <;> simp only [zero, bias] <;> omega
    · next notLeast =>
      have positive : (unpackExponent bits).toNat ≠ 0 := fun zero =>
        notLeast (BitVec.eq_of_toNat_eq zero)
      constructor <;> simp only [toNat_implicit_append, bias] <;> omega

section Finite

variable {first second : Nat} {low high : Int} (someFirst : 0 < first) (someSecond : 0 < second)

theorem lt_iff_of_finite (left : Fits first low) (right : Fits second high) (sign other : Sign) :
    (UnpackedFloat.finite sign first low someFirst).lt (.finite other second high someSecond) ↔
      rational (.finite sign first low someFirst) <
        rational (.finite other second high someSecond) := by
  have positiveFirst : (0 : ℚ) < first * 2 ^ low := by positivity
  have positiveSecond : (0 : ℚ) < second * 2 ^ high := by positivity
  cases sign with
  | negative =>
    cases other with
    | negative =>
      simp [UnpackedFloat.lt, UnpackedFloat.compare, rational, Sign.apply,
        left.compare_eq_gt_iff right]
    | positive =>
      have apart : -((first : ℚ) * 2 ^ low) < second * 2 ^ high := by linarith
      simp [UnpackedFloat.lt, UnpackedFloat.compare, rational, Sign.apply, apart]
  | positive =>
    cases other with
    | negative =>
      have apart : -((second : ℚ) * 2 ^ high) < first * 2 ^ low := by linarith
      simp [UnpackedFloat.lt, UnpackedFloat.compare, rational, Sign.apply, apart.le]
    | positive =>
      simp [UnpackedFloat.lt, UnpackedFloat.compare, rational, Sign.apply,
        left.compare_eq_lt_iff right]

theorem zero_lt_iff_of_finite (sign other : Sign) :
    (UnpackedFloat.zero sign).lt (.finite other first low someFirst) ↔
      0 < rational (.finite other first low someFirst) := by
  have positive : (0 : ℚ) < first * 2 ^ low := by positivity
  cases other <;>
    simp [UnpackedFloat.lt, UnpackedFloat.compare, rational, Sign.apply, positive, positive.le]

theorem lt_zero_iff_of_finite (sign other : Sign) :
    (UnpackedFloat.finite sign first low someFirst).lt (.zero other) ↔
      rational (.finite sign first low someFirst) < 0 := by
  have positive : (0 : ℚ) < first * 2 ^ low := by positivity
  cases sign <;>
    simp [UnpackedFloat.lt, UnpackedFloat.compare, rational, Sign.apply, positive, positive.le]

end Finite

theorem lt_iff_rational_lt {first second : UnpackedFloat} (left : Canonical first)
    (right : Canonical second) (leftFinite : first.isFinite) (rightFinite : second.isFinite) :
    first.lt second ↔ rational first < rational second := by
  cases first with
  | infinity _ => cases leftFinite
  | notANumber => cases leftFinite
  | zero sign =>
    cases second with
    | infinity _ => cases rightFinite
    | notANumber => cases rightFinite
    | zero _ => simp [UnpackedFloat.lt, UnpackedFloat.compare, rational]
    | finite other _ _ someSecond => exact zero_lt_iff_of_finite someSecond sign other
  | finite sign _ _ someFirst =>
    cases second with
    | infinity _ => cases rightFinite
    | notANumber => cases rightFinite
    | zero other => exact lt_zero_iff_of_finite someFirst sign other
    | finite other _ _ someSecond =>
      exact lt_iff_of_finite someFirst someSecond left right sign other

end Unpacked

/-- The rational that a number stands for; what is not finite counts as 0. -/
def rational (number : Float32) : ℚ :=
  Unpacked.rational number.toModel.unpack

theorem lt_iff_rational_lt {first second : Float32} (left : first.isFinite)
    (right : second.isFinite) : first < second ↔ rational first < rational second := by
  have compared : first < second ↔ first.toModel.unpack.lt second.toModel.unpack :=
    decide_eq_true_iff
  rw [compared]
  exact Unpacked.lt_iff_rational_lt (Unpacked.canonical_unpack _) (Unpacked.canonical_unpack _)
    left right

@[simp] theorem rational_zero : rational 0 = 0 :=
  rfl

@[simp] theorem rational_one : rational 1 = 1 := by
  change ((2 ^ 23 : Nat) : ℚ) * 2 ^ (-23 : Int) = 1
  norm_num

@[simp] theorem rational_hundred : rational 100 = 100 := by
  change ((13107200 : Nat) : ℚ) * 2 ^ (-17 : Int) = 100
  norm_num

section Clamp

variable {low high number : Float32} (lowFinite : low.isFinite) (highFinite : high.isFinite)
  (finite : number.isFinite)
include lowFinite highFinite finite

theorem isFinite_clamp : (clamp low high number).isFinite := by
  simp only [clamp]
  split <;> split <;> assumption

theorem rational_clamp (ordered : rational low ≤ rational high) :
    rational (clamp low high number) =
      max (rational low) (min (rational high) (rational number)) := by
  simp only [clamp]
  by_cases below : number < low
  · have lower := (lt_iff_rational_lt finite lowFinite).mp below
    have inside : ¬high < low := mt (lt_iff_rational_lt highFinite lowFinite).mp ordered.not_gt
    rw [if_pos below, if_neg inside, min_eq_right (lower.le.trans ordered), max_eq_left lower.le]
  · have raised := not_lt.mp (mt (lt_iff_rational_lt finite lowFinite).mpr below)
    rw [if_neg below]
    split
    · next above =>
      rw [lt_iff_rational_lt highFinite finite] at above
      rw [min_eq_left above.le, max_eq_right ordered]
    · next inside =>
      rw [lt_iff_rational_lt highFinite finite, not_lt] at inside
      rw [min_eq_right inside, max_eq_right raised]

end Clamp

end Sfz
