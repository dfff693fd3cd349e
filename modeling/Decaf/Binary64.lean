/-!
# Double-precision numbers

A double is kept as its 64 bits, so two doubles are equal exactly when they are the same word: the
two zeros differ, and a NaN equals itself. Everything this library computes with doubles is exact
arithmetic on natural numbers followed by one rounding to nearest, ties to even (`roundQuotient`).
-/

namespace Decaf

/-- A double-precision number as its IEEE 754 word. -/
structure Binary64 where
  /-- Sign, biased exponent and fraction, from the highest bit down. -/
  bits : UInt64
  deriving DecidableEq, Repr, Inhabited

namespace Binary64

/-- The number of fraction bits of a word. -/
def fractionWidth : Nat := 52

/-- The exponent of the least significant bit of the smallest numbers. -/
def minExponent : Int := -1074

/-- What a word stands for, its sign apart. -/
inductive Magnitude where
  /-- The number `significand * 2 ^ exponent`. -/
  | finite (significand : Nat) (exponent : Int)
  | infinite
  | notANumber
  deriving DecidableEq, Repr

/-- Whether the sign bit is set. -/
def isNegative (number : Binary64) : Bool := 0x8000000000000000 ≤ number.bits.toNat

/-- The biased exponent of a word. -/
def exponentField (number : Binary64) : Nat := (number.bits.toNat >>> fractionWidth) % 2048

/-- The fraction bits of a word. -/
def fraction (number : Binary64) : Nat := number.bits.toNat % 1 <<< fractionWidth

/-- The magnitude of a word: numbers with a zero exponent field have no implicit leading bit. -/
def magnitude (number : Binary64) : Magnitude :=
  if number.exponentField = 2047 then
    if number.fraction = 0 then .infinite else .notANumber
  else if number.exponentField = 0 then .finite number.fraction minExponent
  else .finite (1 <<< fractionWidth + number.fraction)
    (minExponent + (number.exponentField - 1 : Nat))

/-- Whether a word stands for a real number. -/
def isFinite (number : Binary64) : Bool := number.exponentField ≠ 2047

/-- Whether a word is one of the two zeros. -/
def isZero (number : Binary64) : Bool := number.bits.toNat % 0x8000000000000000 = 0

/-- The word with a given sign and the given remaining 63 bits. -/
def ofMagnitudeBits (negative : Bool) (magnitudeBits : Nat) : Binary64 :=
  ⟨UInt64.ofNat (magnitudeBits + if negative then 0x8000000000000000 else 0)⟩

/-- The 63 magnitude bits of infinity, above those of every finite number. -/
def infinityBits : Nat := 2047 <<< fractionWidth

/-- The infinity of a given sign. -/
def infinity (negative : Bool) : Binary64 := ofMagnitudeBits negative infinityBits

/-- A quiet NaN. -/
def nan (negative : Bool) : Binary64 :=
  ofMagnitudeBits negative (infinityBits + 1 <<< (fractionWidth - 1))

/-- The zero of a given sign. -/
def zero (negative : Bool) : Binary64 := ofMagnitudeBits negative 0

/-- The double `1.0`. -/
def one : Binary64 := ofMagnitudeBits false (1023 <<< fractionWidth)

/-- The natural number nearest to a quotient, a half going to the even neighbour. -/
def roundDiv (numerator denominator : Nat) : Nat :=
  let quotient := numerator / denominator
  let doubled := 2 * (numerator % denominator)
  if doubled < denominator ∨ (doubled = denominator ∧ quotient % 2 = 0) then quotient
  else quotient + 1

/-- A quotient split as `numerator * 2 ^ (-exponent) / denominator`, with natural numbers on both
sides. -/
def scaleQuotient (numerator denominator : Nat) (exponent : Int) : Nat × Nat :=
  match exponent with
  | .ofNat shift => (numerator, denominator <<< shift)
  | .negSucc shift => (numerator <<< (shift + 1), denominator)

/-- The exponent of the last bit that a double near the given positive quotient can hold. -/
def unitExponent (numerator denominator : Nat) : Int :=
  let estimate : Int := (numerator.log2 : Int) - denominator.log2 - fractionWidth
  let (scaledNumerator, scaledDenominator) := scaleQuotient numerator denominator estimate
  let exact := if scaledNumerator / scaledDenominator <
    1 <<< fractionWidth then estimate - 1 else estimate
  max exact minExponent

/-- The magnitude bits of the double nearest to a positive quotient. A significand that rounds up to
the next power of two carries into the exponent field by itself. -/
def roundQuotientBits (numerator denominator : Nat) : Nat :=
  let exponent := unitExponent numerator denominator
  let (scaledNumerator, scaledDenominator) := scaleQuotient numerator denominator exponent
  let significand := roundDiv scaledNumerator scaledDenominator
  min ((exponent - minExponent).toNat <<< fractionWidth + significand) infinityBits

/-- The double nearest to a quotient: ties go to the even significand, and what is too large becomes
infinite. -/
def roundQuotient (negative : Bool) (numerator denominator : Nat) : Binary64 :=
  if numerator = 0 then zero negative
  else ofMagnitudeBits negative (roundQuotientBits numerator denominator)

/-- The double nearest to an integer. -/
def ofInt (value : Int) : Binary64 := roundQuotient (value < 0) value.natAbs 1

/-- The double nearest to `digits * 10 ^ exponent`. Exponents far outside the range of doubles are
settled without computing the power. -/
def ofDecimal (negative : Bool) (digits : Nat) (exponent : Int) : Binary64 :=
  let leading : Int := exponent + digits.log2 / 3
  if digits = 0 then zero negative
  else if exponent > 400 then infinity negative
  else if leading < -400 then zero negative
  else match exponent with
    | .ofNat power => roundQuotient negative (digits * Nat.pow 10 power) 1
    | .negSucc power => roundQuotient negative digits (Nat.pow 10 (power + 1))

/-- The double nearest to the product of a finite double and a positive quotient. -/
def mulQuotient (number : Binary64) (numerator denominator : Nat) : Binary64 :=
  match number.magnitude with
  | .finite significand exponent =>
    let (scaledNumerator, scaledDenominator) :=
      scaleQuotient (significand * numerator) denominator (-exponent)
    roundQuotient number.isNegative scaledNumerator scaledDenominator
  | .infinite | .notANumber => number

/-- The product of a finite double and a finite double, rounded once. -/
def mul (left right : Binary64) : Binary64 :=
  match right.magnitude with
  | .finite significand exponent =>
    let (numerator, denominator) := scaleQuotient significand 1 (-exponent)
    left.mulQuotient numerator denominator
  | .infinite | .notANumber => right

/-- The quotient of a finite double by a finite, positive double, rounded once. -/
def div (left right : Binary64) : Binary64 :=
  match right.magnitude with
  | .finite significand exponent =>
    let (numerator, denominator) := scaleQuotient significand 1 (-exponent)
    left.mulQuotient denominator numerator
  | .infinite | .notANumber => right

end Binary64

end Decaf
