/-!
# Operators

The operators of expressions and the symbols they are written with. The family of a binary operator
decides both what operands it takes and whether its right operand may be left unevaluated.
-/

namespace Decaf

/-- What a binary operator does with its operands. -/
inductive OperatorFamily where
  | arithmetic
  | relational
  | equality
  | logical
  deriving DecidableEq, Repr

namespace OperatorFamily

/-- The family's name. -/
def name : OperatorFamily → String
  | .arithmetic => "arithmetic"
  | .relational => "relational"
  | .equality => "equality"
  | .logical => "logical"

end OperatorFamily

/-- An operator between two operands. -/
inductive BinaryOperator where
  | add
  | subtract
  | multiply
  | divide
  | less
  | lessEqual
  | greater
  | greaterEqual
  | equal
  | notEqual
  | and
  | or
  deriving DecidableEq, Repr

namespace BinaryOperator

/-- The operator's spelling. -/
def symbol : BinaryOperator → String
  | .add => "+"
  | .subtract => "-"
  | .multiply => "*"
  | .divide => "/"
  | .less => "<"
  | .lessEqual => "<="
  | .greater => ">"
  | .greaterEqual => ">="
  | .equal => "=="
  | .notEqual => "!="
  | .and => "&&"
  | .or => "||"

/-- All binary operators. -/
def all : List BinaryOperator :=
  [.add, .subtract, .multiply, .divide, .less, .lessEqual, .greater, .greaterEqual,
    .equal, .notEqual, .and, .or]

/-- The operator with a given spelling. -/
def ofSymbol? (written : String) : Option BinaryOperator :=
  all.find? fun operator => operator.symbol = written

/-- The operator's family. -/
def family : BinaryOperator → OperatorFamily
  | .add | .subtract | .multiply | .divide => .arithmetic
  | .less | .lessEqual | .greater | .greaterEqual => .relational
  | .equal | .notEqual => .equality
  | .and | .or => .logical

/-- Whether the left operand can make the right one unnecessary. -/
def isShortCircuit (operator : BinaryOperator) : Bool := operator.family = .logical

theorem ofSymbol?_symbol (operator : BinaryOperator) :
    ofSymbol? operator.symbol = some operator := by
  cases operator <;> decide

end BinaryOperator

/-- An operator in front of one operand. -/
inductive UnaryOperator where
  | negate
  | not
  deriving DecidableEq, Repr

namespace UnaryOperator

/-- The operator's spelling. -/
def symbol : UnaryOperator → String
  | .negate => "-"
  | .not => "!"

/-- The operator with a given spelling. -/
def ofSymbol? (written : String) : Option UnaryOperator :=
  [negate, not].find? fun operator => operator.symbol = written

theorem ofSymbol?_symbol (operator : UnaryOperator) :
    ofSymbol? operator.symbol = some operator := by
  cases operator <;> decide

end UnaryOperator

/-- An operator that steps a variable or field by one. -/
inductive StepOperator where
  | increment
  | decrement
  deriving DecidableEq, Repr

namespace StepOperator

/-- The operator's spelling. -/
def symbol : StepOperator → String
  | .increment => "++"
  | .decrement => "--"

/-- The operator with a given spelling. -/
def ofSymbol? (written : String) : Option StepOperator :=
  [increment, decrement].find? fun operator => operator.symbol = written

theorem ofSymbol?_symbol (operator : StepOperator) : ofSymbol? operator.symbol = some operator := by
  cases operator <;> decide

end StepOperator

end Decaf
