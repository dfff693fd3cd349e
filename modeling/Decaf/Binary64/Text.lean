import Decaf.Binary64.Shortest

/-!
# Doubles as text

`DecimalStyle` says how the shortest digits of a double are laid out: which decimal exponents are
written positionally, whether a positive exponent carries a plus sign, and which of two equally near
decimals is taken. Listings and JSON texts use two different styles. `ofText?` reads the number
format that literals in text form may have.
-/

namespace Decaf

/-- How the digits of a double are laid out. -/
structure DecimalStyle where
  /-- The least exponent of a leading digit that is written positionally. -/
  leastPositional : Int
  /-- The greatest exponent of a leading digit that is written positionally. -/
  greatestPositional : Int
  /-- Whether a non-negative exponent carries a plus sign. -/
  plusSign : Bool
  /-- Which of two equally near decimals is taken. -/
  tie : DecimalTie
  deriving DecidableEq, Repr

namespace DecimalStyle

/-- The style of listings: positional from `1e-4` up to below `1e16`, exponents without a plus
sign. -/
def listing : DecimalStyle := ⟨-4, 15, false, .upward⟩

/-- The style of JSON texts: positional from `1e-5` up to below `1e16`, positive exponents with a
plus sign. -/
def json : DecimalStyle := ⟨-5, 15, true, .evenDigit⟩

/-- Digits with a point after the leading digit, and no point when there is only one digit. -/
def scientificDigits : List Char → List Char
  | [] => []
  | [digit] => [digit]
  | digit :: rest => digit :: '.' :: rest

/-- Digits whose leading one has the given exponent, with a point at the place of the ones. -/
def positionalDigits (digits : List Char) : Int → List Char
  | .negSucc places => '0' :: '.' :: (List.replicate places '0' ++ digits)
  | .ofNat leading =>
    let whole := digits.take (leading + 1)
    let fraction := digits.drop (leading + 1)
    whole ++ List.replicate (leading + 1 - whole.length) '0' ++ '.' ::
      (if fraction = [] then ['0'] else fraction)

/-- The layout of a decimal number. -/
def layOut (style : DecimalStyle) (decimal : Decimal) : List Char :=
  let digits := Nat.toDigits 10 decimal.digits
  let leading := decimal.exponent + (digits.length - 1 : Nat)
  if style.leastPositional ≤ leading ∧ leading ≤ style.greatestPositional then
    positionalDigits digits leading
  else
    let sign := if style.plusSign ∧ 0 ≤ leading then ['+'] else []
    scientificDigits digits ++ 'e' :: (sign ++ (toString leading).toList)

end DecimalStyle

namespace Binary64

/-- The text of a double in a given style. A NaN shows no sign. -/
def render (style : DecimalStyle) (number : Binary64) : String :=
  let sign := if number.isNegative then "-" else ""
  match number.magnitude with
  | .notANumber => "NaN"
  | .infinite => sign ++ "inf"
  | .finite 0 _ => sign ++ "0.0"
  | .finite significand exponent =>
    sign ++ String.ofList (style.layOut (shortest style.tie significand exponent))

/-- The value of a digit character. -/
def digitValue (character : Char) : Nat := character.toNat - '0'.toNat

/-- The number written by a sequence of decimal digits. -/
def digitsValue (digits : List Char) : Nat :=
  digits.foldl (fun value digit => 10 * value + digitValue digit) 0

/-- Splits an optional sign off; `true` stands for a minus. -/
def splitSign : List Char → Bool × List Char
  | '-' :: rest => (true, rest)
  | '+' :: rest => (false, rest)
  | rest => (false, rest)

/-- Reads an exponent part, which may be missing altogether but not lack its digits. -/
def exponentOfText? : List Char → Option Int
  | [] => some 0
  | mark :: rest =>
    if mark = 'e' ∨ mark = 'E' then
      let (negative, digits) := splitSign rest
      if digits ≠ [] ∧ digits.all Char.isDigit then
        some (if negative then -(digitsValue digits : Int) else digitsValue digits)
      else none
    else none

/-- Reads digits with an optional point and an optional exponent. -/
def decimalOfText? (text : List Char) : Option Decimal :=
  let whole := text.takeWhile Char.isDigit
  let afterWhole := text.dropWhile Char.isDigit
  let (fraction, rest) := match afterWhole with
    | '.' :: afterPoint => (afterPoint.takeWhile Char.isDigit, afterPoint.dropWhile Char.isDigit)
    | _ => ([], afterWhole)
  if whole = [] ∧ fraction = [] then none
  else (exponentOfText? rest).map fun exponent =>
    ⟨digitsValue (whole ++ fraction), exponent - fraction.length⟩

/-- Reads a double: an optional sign, then a decimal number or, in any letter case, `inf`,
`infinity` or `nan`. The result is the double nearest to what is written. -/
def ofText? (text : List Char) : Option Binary64 :=
  let (negative, unsigned) := splitSign text
  match decimalOfText? unsigned with
  | some decimal => some (ofDecimal negative decimal.digits decimal.exponent)
  | none =>
    let word := String.ofList (unsigned.map Char.toLower)
    if word = "inf" ∨ word = "infinity" then some (infinity negative)
    else if word = "nan" then some (nan negative)
    else none

end Binary64

end Decaf
