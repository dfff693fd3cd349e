import Mathlib.Tactic.SplitIfs
import Decaf.Json.Token
import Decaf.Text.Escape

/-!
# Escaped texts read back

A quoted text can be written in several ways: most characters may stand for themselves, and each may
be given by its code point. `Spells` says which ways there are, whatever a rule decides about single
characters. However a text is spelled, the quotes end at the first quote that is not escaped,
nothing between them is without a visible form, and reading the escapes gives the text back.
`escapeText` spells its text under every rule.
-/

namespace Decaf

variable {letter : Char}

/-- The character that a backslash with one letter behind it stands for. -/
def shortEscape? : Char → Option Char
  | '0' => some '\x00'
  | 't' => some '\t'
  | 'r' => some '\r'
  | 'n' => some '\n'
  | '\'' => some '\''
  | '"' => some '"'
  | '\\' => some '\\'
  | _ => none

/-- Splits a text at its first unescaped quote; a backslash escapes the character behind it. The
result is what stands in front of the quote, as it is written, and what stands behind it. -/
def splitAtQuote? : List Char → Option (List Char × List Char)
  | [] => none
  | '"' :: behind => some ([], behind)
  | '\\' :: escaped :: rest =>
    (splitAtQuote? rest).map fun (front, behind) => ('\\' :: escaped :: front, behind)
  | character :: rest =>
    (splitAtQuote? rest).map fun (front, behind) => (character :: front, behind)

/-- Where a reader of escapes is. -/
inductive Unescaping where
  | betweenCharacters
  | behindBackslash
  /-- Behind the letter that announces a code point. -/
  | behindLetter
  /-- Among the digits of a code point, with the number that they have made so far. -/
  | amongDigits (number : Nat)
  deriving DecidableEq

/-- Undoes the escapes of the rest of a text; none where an escape is not complete or stands for
nothing. -/
def Unescaping.finish? : Unescaping → List Char → Option (List Char)
  | .betweenCharacters, [] => some []
  | .betweenCharacters, character :: rest =>
    if character = '\\' then finish? .behindBackslash rest
    else (finish? .betweenCharacters rest).map (character :: ·)
  | .behindBackslash, letter :: rest =>
    if letter = 'u' then finish? .behindLetter rest
    else (shortEscape? letter).bind fun character =>
      (finish? .betweenCharacters rest).map (character :: ·)
  | .behindLetter, bracket :: rest => if bracket = '{' then finish? (.amongDigits 0) rest else none
  | .amongDigits number, digit :: rest =>
    if digit = '}' then (finish? .betweenCharacters rest).map (Char.ofNat number :: ·)
    else (Json.Token.hexDigit? digit).bind fun value =>
      finish? (.amongDigits (16 * number + value)) rest
  | .behindBackslash, [] | .behindLetter, [] | .amongDigits _, [] => none

/-- The text that is written with escapes. -/
def unescape? (written : List Char) : Option (List Char) :=
  Unescaping.betweenCharacters.finish? written

/-- The ways to write a text between quotes. Quotes, backslashes and characters without a visible
form cannot stand for themselves. -/
inductive Spells : List Char → List Char → Prop where
  | nil : Spells [] []
  | short {letter character : Char} {written text : List Char}
      (escapes : shortEscape? letter = some character)
      (rest : Spells written text) : Spells ('\\' :: letter :: written) (character :: text)
  | codePoint (character : Char) {written text : List Char} (rest : Spells written text) :
      Spells (codePointEscape character ++ written) (character :: text)
  | literal {character : Char} {written text : List Char} (noBackslash : character ≠ '\\')
      (noQuote : character ≠ '"')
      (visible : isPrintable character = true) (rest : Spells written text) :
      Spells (character :: written) (character :: text)

/-! ## Hexadecimal digits -/

theorem exists_digitChar_of_mem_toDigits {base number : Nat} (baseGt : 1 < base)
    (isThere : letter ∈ Nat.toDigits base number) :
    ∃ digit, digit < base ∧ letter = Nat.digitChar digit := by
  induction number using Nat.strongRecOn with
  | ind number ih =>
    by_cases isDigit : number < base
    · rw [Nat.toDigits_of_lt_base isDigit] at isThere
      exact ⟨number, isDigit, List.mem_singleton.mp isThere⟩
    · rw [Nat.toDigits_of_base_le baseGt (Nat.le_of_not_lt isDigit)] at isThere
      rcases List.mem_append.mp isThere with isFront | isLast
      · exact ih _ (Nat.div_lt_self (by omega) baseGt) isFront
      · exact ⟨number % base, Nat.mod_lt _ (by omega), List.mem_singleton.mp isLast⟩

theorem hexDigit_facts : ∀ digit < 16, Json.Token.hexDigit? (Nat.digitChar digit) = some digit ∧
    Nat.digitChar digit ≠ '}' ∧ Nat.digitChar digit ≠ '"' ∧ Nat.digitChar digit ≠ '\\' ∧
      isPrintable (Nat.digitChar digit) = true := by
  decide

/-- Reading the digits of a number gives the number. -/
theorem finish?_toDigits (number : Nat) (rest : List Char) :
    (Unescaping.amongDigits 0).finish? (Nat.toDigits 16 number ++ rest) =
      (Unescaping.amongDigits number).finish? rest := by
  have readsDigit (before digit : Nat) (isDigit : digit < 16) (rest : List Char) :
      (Unescaping.amongDigits before).finish? (Nat.digitChar digit :: rest) =
        (Unescaping.amongDigits (16 * before + digit)).finish? rest := by
    rcases hexDigit_facts digit isDigit with ⟨valueEq, noBracket, -⟩
    rw [Unescaping.finish?, if_neg noBracket, valueEq, Option.bind_some]
  -- The last digit stands behind those of the quotient, so it is read with the quotient as the
  -- number so far.
  induction number using Nat.strongRecOn generalizing rest with
  | ind number ih =>
    by_cases isDigit : number < 16
    · rw [Nat.toDigits_of_lt_base isDigit, List.singleton_append, readsDigit 0 number isDigit,
        Nat.mul_zero, Nat.zero_add]
    · rw [Nat.toDigits_of_base_le (by decide) (Nat.le_of_not_lt isDigit), List.append_assoc,
        List.singleton_append, ih _ (Nat.div_lt_self (by omega) (by decide)),
        readsDigit _ _ (Nat.mod_lt _ (by decide)), Nat.div_add_mod]

/-! ## Reading what is spelled -/

theorem splitAtQuote?_cons (noQuote : letter ≠ '"') (noBackslash : letter ≠ '\\')
    (rest : List Char) :
    splitAtQuote? (letter :: rest) = (splitAtQuote? rest).map fun (front, behind) =>
      (letter :: front, behind) := by
  rw [splitAtQuote?]
  · exact noQuote
  · exact fun _ _ isBackslash => absurd isBackslash noBackslash

theorem splitAtQuote?_append {plain : List Char}
    (isPlain : ∀ letter ∈ plain, letter ≠ '"' ∧ letter ≠ '\\') (rest : List Char) :
    splitAtQuote? (plain ++ rest) = (splitAtQuote? rest).map fun (front, behind) =>
      (plain ++ front, behind) := by
  induction plain with
  | nil => simp
  | cons letter plain ih =>
    rw [List.forall_mem_cons] at isPlain
    rw [List.cons_append, splitAtQuote?_cons isPlain.1.1 isPlain.1.2, ih isPlain.2, Option.map_map]
    rfl

/-- A code point is announced by a backslash and a letter; nothing behind them is a quote or a
backslash. -/
theorem codePointEscape_eq (character : Char) :
    ∃ plain, codePointEscape character = '\\' :: 'u' :: plain ∧
    (∀ letter ∈ plain, letter ≠ '"' ∧ letter ≠ '\\') ∧ ∀ letter ∈ plain,
    isPrintable letter = true := by
  have inDigits {letter : Char} (isDigit : letter ∈ Nat.toDigits 16 character.toNat) :
      (letter ≠ '"' ∧ letter ≠ '\\') ∧ isPrintable letter = true := by
    rcases exists_digitChar_of_mem_toDigits (by decide) isDigit with ⟨digit, digitLt, rfl⟩
    rcases hexDigit_facts digit digitLt with ⟨-, -, noQuote, noBackslash, isVisible⟩
    exact ⟨⟨noQuote, noBackslash⟩, isVisible⟩
  have inEscape {letter : Char}
      (isThere : letter ∈ '{' :: (Nat.toDigits 16 character.toNat ++ ['}'])) :
      (letter ≠ '"' ∧ letter ≠ '\\') ∧ isPrintable letter = true := by
    rw [List.mem_cons, List.mem_append, List.mem_singleton] at isThere
    rcases isThere with rfl | isDigit | rfl
    · decide
    · exact inDigits isDigit
    · decide
  exact ⟨_, rfl, fun _ isThere => (inEscape isThere).1, fun _ isThere => (inEscape isThere).2⟩

theorem shortEscape?_letter {character : Char} (escapes : shortEscape? letter = some character) :
    isPrintable letter = true ∧ letter ≠ 'u' := by
  unfold shortEscape? at escapes
  split at escapes
  case h_8 => cases escapes
  all_goals decide

namespace Spells

variable {written text : List Char}

theorem visible (spells : Spells written text) : ∀ letter ∈ written, isPrintable letter = true := by
  induction spells with
  | nil => exact nofun
  | short escapes rest ih =>
    exact List.forall_mem_cons.mpr ⟨by decide,
      List.forall_mem_cons.mpr ⟨(shortEscape?_letter escapes).1, ih⟩⟩
  | codePoint character rest ih =>
    rcases codePointEscape_eq character with ⟨plain, escapeEq, -, isVisible⟩
    have behindLetter := List.forall_mem_append.mpr ⟨isVisible, ih⟩
    rw [escapeEq]
    exact List.forall_mem_cons.mpr ⟨by decide, List.forall_mem_cons.mpr ⟨by decide, behindLetter⟩⟩
  | literal noBackslash noQuote isVisible rest ih => exact List.forall_mem_cons.mpr ⟨isVisible, ih⟩

/-- The quote behind what is written is the first unescaped one. -/
theorem splitAtQuote?_eq (spells : Spells written text) (behind : List Char) :
    splitAtQuote? (written ++ '"' :: behind) = some (written, behind) := by
  induction spells with
  | nil => rfl
  | short escapes rest ih =>
    rw [List.cons_append, List.cons_append, splitAtQuote?, ih, Option.map_some]
  | codePoint character rest ih =>
    rcases codePointEscape_eq character with ⟨plain, escapeEq, isPlain, -⟩
    rw [escapeEq, List.cons_append, List.cons_append, List.cons_append,
      List.cons_append, splitAtQuote?, List.append_assoc, splitAtQuote?_append isPlain, ih]
    rfl
  | literal noBackslash noQuote isVisible rest ih =>
    rw [List.cons_append, splitAtQuote?_cons noQuote noBackslash, ih, Option.map_some]

theorem unescape?_eq (spells : Spells written text) : unescape? written = some text := by
  unfold unescape?
  induction spells with
  | nil => rfl
  | @short letter character written text escapes rest ih =>
    rw [Unescaping.finish?, if_pos rfl, Unescaping.finish?,
      if_neg (shortEscape?_letter escapes).2, escapes, ih]
    rfl
  | codePoint character rest ih =>
    rw [codePointEscape, List.cons_append, List.cons_append, List.cons_append, List.append_assoc,
      List.singleton_append, Unescaping.finish?, if_pos rfl, Unescaping.finish?, if_pos rfl,
      Unescaping.finish?, if_pos rfl, finish?_toDigits,
      Unescaping.finish?, if_pos rfl, ih, Option.map_some, Char.ofNat_toNat]
  | literal noBackslash noQuote isVisible rest ih =>
    rw [Unescaping.finish?, if_neg noBackslash, ih, Option.map_some]

end Spells

/-! ## What the rules write -/

theorem Spells.escapeCharacter (rule : EscapeRule) (escapeExtender : Bool) (character : Char)
    {written text : List Char} (rest : Spells written text) :
    Spells (Decaf.escapeCharacter rule escapeExtender character ++ written)
      (character :: text) := by
  unfold Decaf.escapeCharacter
  split_ifs with isNull isTab isReturn isFeed isBackslash isQuote isSingleQuote isExtender isVisible
  · subst isNull
    exact .short rfl rest
  · subst isTab
    exact .short rfl rest
  · subst isReturn
    exact .short rfl rest
  · subst isFeed
    exact .short rfl rest
  · subst isBackslash
    exact .short rfl rest
  · subst isQuote
    exact .short rfl rest
  · rw [isSingleQuote.1]
    exact .short rfl rest
  · exact .codePoint character rest
  · exact .literal isBackslash isQuote isVisible rest
  · exact .codePoint character rest

/-- An escaped text is spelled, whatever the rule decides about single quotes and grapheme
extenders. -/
theorem spells_escapeText (rule : EscapeRule) (text : List Char) :
    Spells (escapeText rule text) text := by
  have spellsRest (extenders : Bool) (rest : List Char) :
      Spells (rest.flatMap (escapeCharacter rule extenders)) rest := by
    induction rest with
    | nil => exact .nil
    | cons character rest ih => exact .escapeCharacter rule extenders character ih
  cases text with
  | nil => exact .nil
  | cons first rest =>
    exact .escapeCharacter rule true first (spellsRest rule.extendersAnywhere rest)

end Decaf
