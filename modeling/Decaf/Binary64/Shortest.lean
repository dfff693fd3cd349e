import Decaf.Binary64

/-!
# The shortest decimal that reads back

Every positive double owns the interval of reals that round to it; the ends belong to the interval
when its significand is even. Among the decimals in that interval the ones with the fewest digits
are kept, and of those the one nearest to the double. On a decimal grid only the two neighbours of
the double need a test: when any point of the grid lies in the interval, one of them does.
-/

namespace Decaf

/-- The decimal number `digits * 10 ^ exponent`. -/
structure Decimal where
  /-- The significant digits, read as a natural number. -/
  digits : Nat
  /-- The power of ten of the last digit. -/
  exponent : Int
  deriving DecidableEq, Repr, Inhabited

namespace Decimal

/-- The same number without zeros at the end of its digits; `width` bounds how many there are. -/
def dropZeros : Nat → Decimal → Decimal
  | 0, decimal => decimal
  | width + 1, decimal =>
    if decimal.digits ≠ 0 ∧ decimal.digits % 10 = 0 then
      dropZeros width ⟨decimal.digits / 10, decimal.exponent + 1⟩
    else decimal

end Decimal

/-- Which of two equally near decimals is taken. -/
inductive DecimalTie where
  | upward
  | evenDigit
  deriving DecidableEq, Repr

namespace Binary64

/-- A positive number `significand * 2 ^ exponent`, prepared for comparison with decimals on the
grid of the multiples of `10 ^ step`: `4 * significand * binaryScale` and `digits * decimalScale`
are in one unit. -/
structure GridComparison where
  /-- Multiplies quarters of the last binary place. -/
  binaryScale : Nat
  /-- Multiplies steps of the decimal grid. -/
  decimalScale : Nat

/-- The common unit of a binary exponent and a decimal grid. -/
def GridComparison.make (exponent step : Int) : GridComparison where
  binaryScale := Nat.pow 10 (-step).toNat <<< (exponent - 2).toNat
  decimalScale := Nat.pow 10 step.toNat <<< (2 - exponent).toNat

/-- The exponent of the leading decimal digit of a positive number. -/
def leadingExponent (significand : Nat) (exponent : Int) : Int :=
  let estimate : Int := Int.fdiv ((exponent + significand.log2) * 1233) 4096
  let reaches (candidate : Int) : Bool :=
    let comparison := GridComparison.make exponent candidate
    comparison.decimalScale ≤ 4 * significand * comparison.binaryScale
  if reaches (estimate + 1) then estimate + 1
  else if reaches estimate then estimate
  else estimate - 1

/-- The decimal of a grid that rounds to the given number, if there is one; of two, the nearer. -/
def onGrid (tie : DecimalTie) (significand : Nat) (exponent step : Int) : Option Decimal :=
  let comparison := GridComparison.make exponent step
  let target := 4 * significand * comparison.binaryScale
  let narrowBelow := significand = 1 <<< fractionWidth ∧ exponent > minExponent
  let lower := (4 * significand - if narrowBelow then 1 else 2) * comparison.binaryScale
  let upper := (4 * significand + 2) * comparison.binaryScale
  let inside (value : Nat) : Bool :=
    if significand % 2 = 0 then lower ≤ value && value ≤ upper else lower < value && value < upper
  let below := target / comparison.decimalScale
  let belowDistance := target - below * comparison.decimalScale
  let aboveDistance := (below + 1) * comparison.decimalScale - target
  let belowFits := inside (below * comparison.decimalScale)
  let aboveFits := inside ((below + 1) * comparison.decimalScale)
  let belowNearer := belowDistance < aboveDistance ∨
    (belowDistance = aboveDistance ∧ tie = .evenDigit ∧ below % 2 = 0)
  if belowFits ∧ (belowNearer ∨ ¬aboveFits) then some ⟨below, step⟩
  else if aboveFits then some ⟨below + 1, step⟩
  else none

/-- The shortest decimal that rounds to a positive number; seventeen digits always suffice. -/
def shortest (tie : DecimalTie) (significand : Nat) (exponent : Int) : Decimal :=
  let leading := leadingExponent significand exponent
  let found := (List.range 17).findSome? fun (count : Nat) =>
    onGrid tie significand exponent (leading - count)
  (found.getD ⟨significand, exponent⟩).dropZeros 18

end Binary64

end Decaf
