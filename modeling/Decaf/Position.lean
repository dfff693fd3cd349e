/-!
# Positions in the source text

A tree node records the line and the column where it starts, and a diagnostic repeats the position
of the node it complains about. The pair `0:0` stands for a node whose place is not known.
-/

namespace Decaf

/-- The line and column where a tree node starts, both counted from one. -/
structure Position where
  /-- The line, or zero when the place is not known. -/
  line : Nat
  /-- The column, or zero when the place is not known. -/
  column : Nat
  deriving DecidableEq, Repr

namespace Position

/-- The position of a node whose place was not recorded. -/
def unknown : Position := ⟨0, 0⟩

instance : Inhabited Position := ⟨unknown⟩

/-- Whether neither coordinate carries any information. -/
def isUnknown (position : Position) : Bool :=
  position.line == 0 && position.column == 0

/-- Positions are ordered by line first and by column within a line. -/
def isBeforeOrAt (left right : Position) : Bool :=
  left.line < right.line || (left.line == right.line && left.column ≤ right.column)

/-- The text `line:column` that starts every diagnostic. -/
def render (position : Position) : String :=
  toString position.line ++ ":" ++ toString position.column

instance : ToString Position := ⟨render⟩

theorem isUnknown_iff (position : Position) : position.isUnknown = true ↔ position = unknown := by
  cases position
  simp [isUnknown, unknown]

theorem isBeforeOrAt_total (left right : Position) :
    (left.isBeforeOrAt right || right.isBeforeOrAt left) = true := by
  simp only [isBeforeOrAt, Bool.or_eq_true, Bool.and_eq_true, decide_eq_true_eq, beq_iff_eq]
  omega

theorem isBeforeOrAt_trans {first second third : Position}
    (firstLe : first.isBeforeOrAt second = true) (secondLe : second.isBeforeOrAt third = true) :
    first.isBeforeOrAt third = true := by
  simp only [isBeforeOrAt, Bool.or_eq_true, Bool.and_eq_true, decide_eq_true_eq, beq_iff_eq]
    at firstLe secondLe ⊢
  omega

end Position

end Decaf
