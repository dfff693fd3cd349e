import Decaf.Machine.Instruction
import Decaf.Proofs.Text.Escape

/-!
# Texts without line breaks

What breaks a line is a matter of who reads the text: some take the line feed alone, others more
characters. All of these have no visible form. So numbers, registers and quoted texts break no line
for any reader, and a text to which lines are added one after the other, each with a line feed
behind it, is split into these lines again.
-/

namespace Decaf

/-- What a reader of a text takes for line breaks: the line feed, and perhaps other characters
without a visible form. -/
structure LineBreaks where
  /-- Whether a character breaks a line. -/
  isBreak : Char → Bool
  isBreak_lineFeed : isBreak '\n' = true
  invisible : ∀ {character}, isBreak character = true → isPrintable character = false

namespace CharacterTable

/-- Membership in a class, as a statement about a list. -/
theorem contains_eq (boundaries : Array Nat) (codePoint : Nat) : contains boundaries codePoint =
    decide ((boundaries.toList.countP fun boundary => boundary ≤ codePoint) % 2 = 1) := by
  rw [contains, Array.countP_toList]

end CharacterTable

namespace LineBreaks

variable {text : String} {digits : List Char}

/-- Only the line feed breaks a line. -/
def lineFeed : LineBreaks where
  isBreak character := character = '\n'
  isBreak_lineFeed := by decide
  invisible isFeed := by
    rw [of_decide_eq_true isFeed]
    decide

/-- The characters at which Unicode lets a line or a paragraph end. -/
def mandatoryBreaks : List Char := ['\n', '\x0b', '\x0c', '\r', '\x85', '\u2028', '\u2029']

theorem isPrintable_mandatoryBreaks :
    ∀ character ∈ mandatoryBreaks, isPrintable character = false := by
  -- Beyond ASCII the table of characters decides. It is counted as a list, which takes the kernel
  -- far fewer steps than counting it as an array.
  have unprintable {character : Char} (isBehind : 0x7f ≤ character.toNat)
      (isOdd : (CharacterTable.unprintable.toList.countP fun boundary =>
        boundary ≤ character.toNat) % 2 = 1) :
      isPrintable character = false := by
    rw [isPrintable, if_neg (Nat.not_lt.mpr isBehind), CharacterTable.contains_eq,
      decide_eq_true isOdd]
    rfl
  simp only [mandatoryBreaks, List.forall_mem_cons]
  exact ⟨by decide, by decide, by decide, by decide, unprintable (by decide) (by decide +kernel),
    unprintable (by decide) (by decide +kernel), unprintable (by decide) (by decide +kernel), nofun⟩

/-- All characters at which Unicode lets a line end break a line. -/
def unicode : LineBreaks where
  isBreak character := mandatoryBreaks.contains character
  isBreak_lineFeed := by decide
  invisible isBreak := isPrintable_mandatoryBreaks _ (List.contains_iff_mem.mp isBreak)

/-- No character of a text breaks a line. -/
def Unbroken (breaks : LineBreaks) (text : String) : Prop :=
  ∀ character ∈ text.toList, breaks.isBreak character = false

instance (breaks : LineBreaks) (text : String) : Decidable (breaks.Unbroken text) :=
  List.decidableBAll (fun character => breaks.isBreak character = false) text.toList

/-- The lines of a text: the pieces between its line breaks, in order. -/
def lines (breaks : LineBreaks) (text : String) : List String :=
  (text.split breaks.isBreak).toList.map String.Slice.copy

variable {breaks : LineBreaks}

theorem isBreak_eq_false {character : Char} (visible : isPrintable character = true) :
    breaks.isBreak character = false := by
  cases isBreak : breaks.isBreak character with
  | false => rfl
  | true => cases visible.symm.trans (breaks.invisible isBreak)

theorem unbroken_append {more : String} :
    breaks.Unbroken (text ++ more) ↔ breaks.Unbroken text ∧ breaks.Unbroken more := by
  simp only [Unbroken, String.toList_append, List.forall_mem_append]

theorem unbroken_ofList {letters : List Char}
    (visible : ∀ letter ∈ letters, isPrintable letter = true) :
    breaks.Unbroken (String.ofList letters) := by
  rw [Unbroken, String.toList_ofList]
  exact fun letter isThere => isBreak_eq_false (visible letter isThere)

theorem unbroken_of_all (visible : text.toList.all isPrintable = true) : breaks.Unbroken text :=
  fun character isThere => isBreak_eq_false (List.all_eq_true.mp visible character isThere)

theorem unbroken_intercalate {separator : String} (separatorUnbroken : breaks.Unbroken separator)
    {texts : List String} (unbroken : ∀ text ∈ texts, breaks.Unbroken text) :
    breaks.Unbroken (separator.intercalate texts) := by
  induction texts with
  | nil => simp [Unbroken]
  | cons text rest ih =>
    rw [List.forall_mem_cons] at unbroken
    cases rest with
    | nil => rw [String.intercalate_singleton]; exact unbroken.1
    | cons next rest =>
      rw [String.intercalate_cons_cons, unbroken_append, unbroken_append]
      exact ⟨⟨unbroken.1, separatorUnbroken⟩, ih unbroken.2⟩

theorem unbroken_quoted (rule : EscapeRule) (text : String) :
    breaks.Unbroken (quoted rule text) := by
  refine unbroken_ofList (List.forall_mem_cons.mpr ⟨by decide, List.forall_mem_append.mpr ⟨?_, ?_⟩⟩)
  · exact (spells_escapeText rule text.toList).visible
  · exact List.forall_mem_singleton.mpr (by decide)

/-! ## Numbers and registers -/

theorem isPrintable_of_mem_toDigits {number : Nat} :
    ∀ letter ∈ Nat.toDigits 10 number, isPrintable letter = true := by
  intro letter isThere
  rcases exists_digitChar_of_mem_toDigits (by decide) isThere with ⟨digit, digitLt, rfl⟩
  exact (hexDigit_facts digit (by omega)).2.2.2.2

theorem isPrintable_of_mem_nat (number : Nat) :
    ∀ letter ∈ (toString number).toList, isPrintable letter = true := by
  rw [Nat.toString_eq_ofList_toDigits, String.toList_ofList]
  exact isPrintable_of_mem_toDigits

theorem isPrintable_of_mem_int (number : Int) :
    ∀ letter ∈ (toString number).toList, isPrintable letter = true := by
  cases number with
  | ofNat magnitude => exact isPrintable_of_mem_nat magnitude
  | negSucc magnitude =>
    rw [show toString (Int.negSucc magnitude) = "-" ++ toString (magnitude + 1) from rfl,
      String.toList_append]
    exact List.forall_mem_append.mpr ⟨List.all_eq_true.mp (by decide),
      isPrintable_of_mem_nat (magnitude + 1)⟩

theorem unbroken_nat (number : Nat) : breaks.Unbroken (toString number) :=
  fun letter isThere => isBreak_eq_false (isPrintable_of_mem_nat number letter isThere)

theorem unbroken_int32 (number : Int32) : breaks.Unbroken (toString number) :=
  fun letter isThere => isBreak_eq_false (isPrintable_of_mem_int number.toInt letter isThere)

theorem unbroken_register (register : Register) : breaks.Unbroken (toString register) := by
  cases register with
  | general index => exact unbroken_append.mpr ⟨unbroken_of_all (by decide), unbroken_nat index⟩
  | result => exact unbroken_of_all (by decide)

theorem isPrintable_of_mem_positionalDigits (visible : ∀ letter ∈ digits, isPrintable letter = true)
    (leading : Int) :
    ∀ letter ∈ DecimalStyle.positionalDigits digits leading, isPrintable letter = true := by
  have zeros (count : Nat) : ∀ letter ∈ List.replicate count '0', isPrintable letter = true := by
    intro letter isThere
    rw [List.eq_of_mem_replicate isThere]
    decide
  cases leading with
  | negSucc places =>
    have behindPoint := List.forall_mem_append.mpr ⟨zeros places, visible⟩
    exact List.forall_mem_cons.mpr ⟨by decide, List.forall_mem_cons.mpr ⟨by decide, behindPoint⟩⟩
  | ofNat leading =>
    have whole : ∀ letter ∈ digits.take (leading + 1), isPrintable letter = true :=
      fun letter isThere => visible letter (List.mem_of_mem_take isThere)
    have filled := List.forall_mem_append.mpr ⟨whole,
      zeros (leading + 1 - (digits.take (leading + 1)).length)⟩
    refine List.forall_mem_append.mpr ⟨filled, List.forall_mem_cons.mpr ⟨by decide, ?_⟩⟩
    split
    · exact List.all_eq_true.mp (by decide)
    · exact fun letter isThere => visible letter (List.mem_of_mem_drop isThere)

theorem isPrintable_of_mem_scientificDigits (visible : ∀ letter ∈ digits,
    isPrintable letter = true) :
    ∀ letter ∈ DecimalStyle.scientificDigits digits, isPrintable letter = true := by
  unfold DecimalStyle.scientificDigits
  split
  · exact visible
  · exact visible
  · rw [List.forall_mem_cons] at visible ⊢
    exact ⟨visible.1, List.forall_mem_cons.mpr ⟨by decide, visible.2⟩⟩

theorem isPrintable_of_mem_layOut (style : DecimalStyle) (decimal : Decimal) :
    ∀ letter ∈ style.layOut decimal, isPrintable letter = true := by
  unfold DecimalStyle.layOut
  dsimp only
  split
  · exact isPrintable_of_mem_positionalDigits isPrintable_of_mem_toDigits _
  · refine List.forall_mem_append.mpr
      ⟨isPrintable_of_mem_scientificDigits isPrintable_of_mem_toDigits,
        List.forall_mem_cons.mpr ⟨by decide,
          List.forall_mem_append.mpr ⟨?_, isPrintable_of_mem_int _⟩⟩⟩
    split <;> exact List.all_eq_true.mp (by decide)

theorem unbroken_binary64 (style : DecimalStyle) (number : Binary64) :
    breaks.Unbroken (number.render style) := by
  have signUnbroken : breaks.Unbroken (if number.isNegative then "-" else "") := by
    split <;> exact unbroken_of_all (by decide)
  unfold Binary64.render
  dsimp only
  split
  · exact unbroken_of_all (by decide)
  · exact unbroken_append.mpr ⟨signUnbroken, unbroken_of_all (by decide)⟩
  · exact unbroken_append.mpr ⟨signUnbroken, unbroken_of_all (by decide)⟩
  · exact unbroken_append.mpr ⟨signUnbroken, unbroken_ofList (isPrintable_of_mem_layOut style _)⟩

/-! ## Mnemonics -/

theorem unbroken_binaryOpcode (opcode : BinaryOpcode) :
    breaks.Unbroken (toString opcode.mnemonic) := by
  cases opcode <;> exact unbroken_of_all (by decide)

theorem unbroken_unaryOpcode (opcode : UnaryOpcode) :
    breaks.Unbroken (toString opcode.mnemonic) := by
  cases opcode <;> exact unbroken_of_all (by decide)

theorem unbroken_printKind (kind : PrintKind) : breaks.Unbroken (toString kind.mnemonic) := by
  cases kind <;> exact unbroken_of_all (by decide)

/-! ## Lines of texts -/

theorem lines_empty (breaks : LineBreaks) : breaks.lines "" = [""] := by
  rw [lines, String.toList_split_bool]
  rfl

/-- A line with a line feed behind it is the first line of a text. -/
theorem lines_append {line : String} (unbroken : breaks.Unbroken line) (rest : String) :
    breaks.lines (line ++ "\n" ++ rest) = line :: breaks.lines rest := by
  have textEq : (line ++ "\n" ++ rest).toList = line.toList ++ '\n' :: rest.toList := by simp
  rw [lines, lines, String.toList_split_bool, String.toList_split_bool, textEq,
    List.splitOnP_append_cons_of_forall_mem unbroken _ breaks.isBreak_lineFeed, List.map_cons,
    String.ofList_toList]

end LineBreaks

end Decaf
