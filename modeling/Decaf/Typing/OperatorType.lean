import Decaf.Registry
import Decaf.Tree.Expr

/-!
# The types of operators

Which operands an operator takes and what type its result has. There are no conversions: arithmetic
and order need two operands of one numeric type. References can be compared if one could be assigned
to the other.
-/

namespace Decaf

/-- The type of a constant. -/
def Literal.type : Literal → DataType
  | .int _ => .int
  | .double _ => .double
  | .bool _ => .bool
  | .string _ => .string
  | .null => .null

namespace UnaryOperator

/-- The type of the result for an operand of a given type. -/
def resultType? (operator : UnaryOperator) (operand : DataType) : Option DataType :=
  match operator with
  | .negate => if operand.isNumeric then some operand else none
  | .not => if operand = .bool then some operand else none

/-- The operand that the operator asks for, in words. -/
def requirement : UnaryOperator → String
  | .negate => "an int or double operand"
  | .not => "a bool operand"

end UnaryOperator

namespace Registry

/-- Whether values of two types can be compared for equality. -/
def areComparable (registry : Registry) (left right : DataType) : Bool :=
  if left.isReference && right.isReference then registry.areRelated left right
  else left = right && left ≠ .void

end Registry

namespace BinaryOperator

/-- The type of the result for operands of given types. -/
def resultType? (operator : BinaryOperator) (registry : Registry) (left right : DataType) :
    Option DataType :=
  match operator.family with
  | .arithmetic => if left = right ∧ left.isNumeric then some left else none
  | .relational => if left = right ∧ left.isNumeric then some .bool else none
  | .equality => if registry.areComparable left right then some .bool else none
  | .logical => if left = .bool ∧ right = .bool then some .bool else none

/-- The operands that the operator asks for, in words. -/
def requirement (operator : BinaryOperator) : String :=
  match operator.family with
  | .arithmetic | .relational => "two int or two double operands"
  | .equality => "operands of the same or related types"
  | .logical => "two bool operands"

end BinaryOperator

end Decaf
