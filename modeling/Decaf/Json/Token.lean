import Decaf.Json.Value

/-!
# Tokens of JSON texts

`Token.scan` cuts a text into tokens. Digits of a number are collected into a 64-bit significand;
those that no longer fit only shift the decimal exponent, and the significand is then scaled by
powers of ten in double precision, one rounding per step. So a number with many digits or a large
exponent need not be read as the nearest double.
-/

namespace Decaf

namespace Json

/-- A lexical element of a JSON text. -/
inductive Token where
  | openArray
  | closeArray
  | openObject
  | closeObject
  | comma
  | colon
  | scalar (value : Json)
  deriving Repr

namespace Token

/-- Whether a character may stand between tokens. -/
def isSpace (character : Char) : Bool :=
  character = ' ' || character = '\t' || character = '\n' || character = '\r'

/-- The value of a hexadecimal digit. -/
def hexDigit? (character : Char) : Option Nat :=
  if '0' ≤ character ∧ character ≤ '9' then some (character.toNat - '0'.toNat)
  else if 'a' ≤ character ∧ character ≤ 'f' then some (character.toNat - 'a'.toNat + 10)
  else if 'A' ≤ character ∧ character ≤ 'F' then some (character.toNat - 'A'.toNat + 10)
  else none

/-- The number written by four hexadecimal digits. -/
def hexUnit? (first second third fourth : Char) : Option Nat := do
  let high ← hexDigit? first
  let upper ← hexDigit? second
  let lower ← hexDigit? third
  let low ← hexDigit? fourth
  return ((high * 16 + upper) * 16 + lower) * 16 + low

/-- The character that a one-letter escape stands for. -/
def simpleEscape? (letter : Char) : Option Char :=
  if letter = '"' ∨ letter = '\\' ∨ letter = '/' then some letter
  else if letter = 'b' then some '\x08'
  else if letter = 'f' then some '\x0c'
  else if letter = 'n' then some '\n'
  else if letter = 'r' then some '\r'
  else if letter = 't' then some '\t'
  else none

/-- Whether a code unit is the first half of a surrogate pair. -/
def isHighSurrogate (unit : Nat) : Bool := 0xd800 ≤ unit && unit < 0xdc00

/-- Whether a code unit is the second half of a surrogate pair. -/
def isLowSurrogate (unit : Nat) : Bool := 0xdc00 ≤ unit && unit < 0xe000

/-- The character of a surrogate pair. -/
def pairedCharacter (high low : Nat) : Char :=
  Char.ofNat (0x10000 + (high - 0xd800) * 0x400 + (low - 0xdc00))

/-- Reads the rest of a string behind its opening quote; `reversed` holds what was read so far, last
character first. Half a surrogate pair and unescaped controls are refused. -/
def scanString (reversed : List Char) : List Char → Option (String × List Char)
  | [] => none
  | '"' :: rest => some (String.ofList reversed.reverse, rest)
  | '\\' :: 'u' :: first :: second :: third :: fourth :: rest =>
    match hexUnit? first second third fourth with
    | none => none
    | some unit =>
      if isLowSurrogate unit then none
      else if isHighSurrogate unit then
        match rest with
        | '\\' :: 'u' :: fifth :: sixth :: seventh :: eighth :: afterPair =>
          match hexUnit? fifth sixth seventh eighth with
          | none => none
          | some low =>
            if isLowSurrogate low then scanString (pairedCharacter unit low :: reversed) afterPair
            else none
        | _ => none
      else scanString (Char.ofNat unit :: reversed) rest
  | '\\' :: letter :: rest =>
    match simpleEscape? letter with
    | none => none
    | some character => scanString (character :: reversed) rest
  | character :: rest =>
    if character.toNat < 0x20 then none else scanString (character :: reversed) rest

/-- The largest significand that a number's digits are collected into. -/
def maxSignificand : Nat := 0xFFFFFFFFFFFFFFFF

/-- Collects leading digits while the significand fits a word. The result is the significand and the
digits that did not fit any more. -/
def collectDigits (significand : Nat) : List Char → Nat × List Char
  | [] => (significand, [])
  | digit :: rest =>
    let extended := 10 * significand + Binary64.digitValue digit
    if extended ≤ maxSignificand then collectDigits extended rest else (significand, digit :: rest)

/-- Divides by `10 ^ places`, in steps of at most 308 places. -/
def scaleDown (number : Binary64) (places : Nat) : Binary64 :=
  if places ≤ 308 then number.div (.ofDecimal false 1 places)
  else if number.isZero then number
  else scaleDown (number.div (.ofDecimal false 1 308)) (places - 308)
termination_by places

/-- The double `significand * 10 ^ exponent`, scaled in double precision; none when it is too
large. -/
def scaled? (significand : Nat) (exponent : Int) : Option Binary64 :=
  let number := Binary64.ofInt significand
  match exponent with
  | .negSucc places => some (scaleDown number (places + 1))
  | .ofNat places =>
    if places ≤ 308 then
      let product := number.mul (.ofDecimal false 1 places)
      if product.isFinite then some product else none
    else if number.isZero then some number
    else none

/-- A double with the opposite sign. -/
def negated (number : Binary64) : Binary64 :=
  .ofMagnitudeBits (!number.isNegative) (number.bits.toNat % 0x8000000000000000)

/-- Reads the optional exponent of a number. -/
def scanExponent : List Char → Option (Option Int × List Char)
  | [] => some (none, [])
  | mark :: rest =>
    if mark = 'e' ∨ mark = 'E' then
      let (negative, unsigned) := Binary64.splitSign rest
      let digits := unsigned.takeWhile Char.isDigit
      if digits = [] then none
      else
        let value : Int := Binary64.digitsValue digits
        some (some (if negative then -value else value), unsigned.dropWhile Char.isDigit)
    else some (none, mark :: rest)

/-- The number with the given digits: an integer when it has neither a fraction nor an exponent and
fits a 64-bit word, otherwise a double. -/
def numberOfDigits? (negative : Bool) (whole fraction : List Char) (exponent : Option Int) :
    Option Number :=
  let (wholeSignificand, droppedWhole) := collectDigits 0 whole
  let (significand, droppedFraction) := collectDigits wholeSignificand fraction
  if fraction = [] ∧ exponent = none ∧ droppedWhole = [] ∧ ¬negative then
    some (.integer significand)
  else if fraction = [] ∧ exponent = none ∧ droppedWhole = [] ∧ 0 < significand ∧
      significand ≤ 0x8000000000000000 then
    some (.integer (-significand))
  else
    let shift : Int := droppedWhole.length - (fraction.length - droppedFraction.length : Nat)
    (scaled? significand (exponent.getD 0 + shift)).map fun number =>
      .double (if negative then negated number else number)

/-- Splits a minus sign off; a JSON number has no plus sign. -/
def splitMinus : List Char → Bool × List Char
  | '-' :: rest => (true, rest)
  | rest => (false, rest)

/-- Reads the optional fraction of a number; behind a point there is at least one digit. -/
def scanFraction : List Char → Option (List Char × List Char)
  | '.' :: rest =>
    if rest.takeWhile Char.isDigit = [] then none
    else some (rest.takeWhile Char.isDigit, rest.dropWhile Char.isDigit)
  | rest => some ([], rest)

/-- Reads a number: there is at least one digit, and no zero in front of other digits. -/
def scanNumber (text : List Char) : Option (Number × List Char) :=
  let (negative, unsigned) := splitMinus text
  let whole := unsigned.takeWhile Char.isDigit
  if whole = [] ∨ (whole.head? = some '0' ∧ whole ≠ ['0']) then none
  else do
    let (fraction, afterFraction) ← scanFraction (unsigned.dropWhile Char.isDigit)
    let (exponent, rest) ← scanExponent afterFraction
    let number ← numberOfDigits? negative whole fraction exponent
    return (number, rest)

/-- Reads the token at the start of a text that starts with no space. -/
def scanOne (text : List Char) : Option (Token × List Char) :=
  match text with
  | '[' :: rest => some (.openArray, rest)
  | ']' :: rest => some (.closeArray, rest)
  | '\x7b' :: rest => some (.openObject, rest)
  | '\x7d' :: rest => some (.closeObject, rest)
  | ',' :: rest => some (.comma, rest)
  | ':' :: rest => some (.colon, rest)
  | '"' :: rest => (scanString [] rest).map fun (value, after) => (.scalar (.string value), after)
  | 't' :: 'r' :: 'u' :: 'e' :: rest => some (.scalar (.boolean true), rest)
  | 'f' :: 'a' :: 'l' :: 's' :: 'e' :: rest => some (.scalar (.boolean false), rest)
  | 'n' :: 'u' :: 'l' :: 'l' :: rest => some (.scalar .null, rest)
  | _ => (scanNumber text).map fun (value, after) => (.scalar (.number value), after)

theorem length_lt_of_scanString {reversed text rest : List Char} {value : String}
    (scanned : scanString reversed text = some (value, rest)) : rest.length < text.length := by
  fun_induction scanString reversed text <;> simp_all <;> omega

theorem length_dropWhile_le (keep : Char → Bool) (text : List Char) :
    (text.dropWhile keep).length ≤ text.length :=
  (List.dropWhile_sublist keep).length_le

theorem length_splitSign_le (text : List Char) :
    (Binary64.splitSign text).2.length ≤ text.length := by
  unfold Binary64.splitSign
  split <;> simp

theorem length_le_of_scanExponent {text rest : List Char} {exponent : Option Int}
    (scanned : scanExponent text = some (exponent, rest)) : rest.length ≤ text.length := by
  cases text with
  | nil => grind [scanExponent]
  | cons mark tail =>
    have signLength := length_splitSign_le tail
    have digitsLength := length_dropWhile_le Char.isDigit (Binary64.splitSign tail).2
    grind [scanExponent]

theorem length_splitMinus_le (text : List Char) : (splitMinus text).2.length ≤ text.length := by
  unfold splitMinus
  split <;> simp

theorem length_le_of_scanFraction {text rest fraction : List Char}
    (scanned : scanFraction text = some (fraction, rest)) : rest.length ≤ text.length := by
  unfold scanFraction at scanned
  split at scanned
  · rename_i afterPoint
    have digitsLength := length_dropWhile_le Char.isDigit afterPoint
    split at scanned
    · simp at scanned
    · simp only [Option.some.injEq, Prod.mk.injEq] at scanned
      simp only [← scanned.2, List.length_cons]
      omega
  · simp_all

theorem length_dropWhile_lt {keep : Char → Bool} {text : List Char}
    (found : text.takeWhile keep ≠ []) : (text.dropWhile keep).length < text.length := by
  have whole := congrArg List.length (List.takeWhile_append_dropWhile (p := keep) (l := text))
  have positive := List.length_pos_iff.mpr found
  simp only [List.length_append] at whole
  omega

theorem length_lt_of_scanNumber {text rest : List Char} {value : Number}
    (scanned : scanNumber text = some (value, rest)) : rest.length < text.length := by
  simp only [scanNumber] at scanned
  split at scanned
  · simp at scanned
  · rename_i wholeFits
    simp only [not_or] at wholeFits
    simp only [Option.bind_eq_bind, Option.bind_eq_some_iff, Option.pure_def, Option.some.injEq,
      Prod.exists, Prod.mk.injEq] at scanned
    obtain ⟨fraction, afterFraction, fractionRead, exponent, afterExponent,
      exponentRead, number, -, -, rfl⟩ := scanned
    have unsignedLength := length_splitMinus_le text
    have wholeLength := length_dropWhile_lt wholeFits.1
    have fractionLength := length_le_of_scanFraction fractionRead
    have exponentLength := length_le_of_scanExponent exponentRead
    omega

theorem length_lt_of_scanOne {text rest : List Char} {token : Token}
    (scanned : scanOne text = some (token, rest)) : rest.length < text.length := by
  unfold scanOne at scanned
  split at scanned
  all_goals
    first
    | simp only [Option.map_eq_some_iff, Prod.exists, Prod.mk.injEq] at scanned
      obtain ⟨value, after, read, -, rfl⟩ := scanned
      first
      | exact length_lt_of_scanNumber read
      | exact Nat.lt_succ_of_lt (length_lt_of_scanString read)
    | simp only [Option.some.injEq, Prod.mk.injEq] at scanned
      simp only [← scanned.2, List.length_cons]
      omega

/-- Cuts a text into tokens; `reversed` holds those read so far, last one first. -/
def scan (reversed : List Token) (text : List Char) : Option (List Token) :=
  match text with
  | [] => some reversed.reverse
  | first :: rest =>
    if isSpace first then scan reversed rest
    else
      match _scanned : scanOne (first :: rest) with
      | none => none
      | some (token, after) => scan (token :: reversed) after
termination_by text.length
decreasing_by
  · exact Nat.lt_succ_self rest.length
  · exact length_lt_of_scanOne (by assumption)

end Token

end Json

end Decaf
