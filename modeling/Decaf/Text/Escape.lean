import Decaf.Text.CharacterTable

/-!
# Escaped texts

A text inside double quotes writes a backslash before quotes and backslashes, short escapes for the
common controls, and `\u` with the code point in braces for every other character without a visible
form. A character that extends a grapheme would merge with the quote in front of it, so it is
escaped wherever it could stand first. Listings and messages differ in two points, which
`EscapeRule` records.
-/

namespace Decaf

/-- What the two kinds of quoted text decide differently. -/
structure EscapeRule where
  /-- Whether a single quote is escaped. -/
  singleQuote : Bool
  /-- Whether a grapheme extender is escaped behind other characters too. -/
  extendersAnywhere : Bool
  deriving DecidableEq, Repr

namespace EscapeRule

/-- The rule of string constants in listings. -/
def listing : EscapeRule := ⟨true, false⟩

/-- The rule of texts quoted in messages. -/
def message : EscapeRule := ⟨false, true⟩

end EscapeRule

/-- The code point of a character in hexadecimal digits between braces. -/
def codePointEscape (character : Char) : List Char :=
  '\\' :: 'u' :: '{' :: (Nat.toDigits 16 character.toNat ++ ['}'])

/-- The written form of one character; `escapeExtender` tells whether a grapheme extender may not
stand as it is. -/
def escapeCharacter (rule : EscapeRule) (escapeExtender : Bool) (character : Char) : List Char :=
  if character = '\x00' then ['\\', '0']
  else if character = '\t' then ['\\', 't']
  else if character = '\r' then ['\\', 'r']
  else if character = '\n' then ['\\', 'n']
  else if character = '\\' then ['\\', '\\']
  else if character = '"' then ['\\', '"']
  else if character = '\'' ∧ rule.singleQuote then ['\\', '\'']
  else if escapeExtender ∧ isGraphemeExtender character then codePointEscape character
  else if isPrintable character then [character]
  else codePointEscape character

/-- The written form of a text, without the quotes around it. -/
def escapeText (rule : EscapeRule) : List Char → List Char
  | [] => []
  | first :: rest =>
    escapeCharacter rule true first ++ rest.flatMap (escapeCharacter rule rule.extendersAnywhere)

/-- A text in double quotes, escaped by a rule. -/
def quoted (rule : EscapeRule) (text : String) : String :=
  String.ofList ('"' :: (escapeText rule text.toList ++ ['"']))

end Decaf
