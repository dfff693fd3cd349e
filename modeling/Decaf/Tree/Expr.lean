import Decaf.DataType
import Decaf.Position
import Decaf.Binary64
import Decaf.Tree.Operator

/-!
# Expressions

An expression is a tree whose every node has a number of its own and a position. Later phases write
down what they find out about a node under its number and leave the tree as it is. One node may hang
in several places of a program; it then has one number and one set of findings.
-/

namespace Decaf

/-- The number and the position of a tree node. -/
structure Site (Identity : Type) where
  id : Identity
  /-- Where the node starts in the source text. -/
  position : Position
  deriving DecidableEq, Repr

/-- A constant written in a program. -/
inductive Literal where
  | int (value : Int32)
  | double (value : Binary64)
  | bool (value : Bool)
  | string (value : String)
  | null
  deriving DecidableEq, Repr

/-- An expression. -/
inductive Expr where
  | literal (site : Site ExprId) (value : Literal)
  | identifier (site : Site ExprId) (name : String)
  | this (site : Site ExprId)
  | super (site : Site ExprId)
  | new (site : Site ExprId) (className : String)
  | call (site : Site ExprId) (receiver : Option Expr) (method : String) (arguments : List Expr)
  | fieldAccess (site : Site ExprId) (receiver : Expr) (field : String)
  | unary (site : Site ExprId) (operator : UnaryOperator) (operand : Expr)
  | binary (site : Site ExprId) (operator : BinaryOperator) (left right : Expr)
  /-- Steps a variable or field; the result is its value after the step if `yieldsNew` holds, and
  its value before the step otherwise. -/
  | step (site : Site ExprId) (operator : StepOperator) (yieldsNew : Bool) (target : Expr)
  deriving Repr

namespace Expr

/-- The number and the position of an expression's outermost node. -/
def site : Expr → Site ExprId
  | .literal site _ | .identifier site _ | .this site | .super site | .new site _ | .call site _ _ _
  | .fieldAccess site _ _ | .unary site _ _ | .binary site _ _ _ | .step site _ _ _ => site

/-- The number of an expression's outermost node. -/
def id (expr : Expr) : ExprId := expr.site.id

/-- Where an expression starts. -/
def position (expr : Expr) : Position := expr.site.position

/-- The direct subexpressions in the order of the source text. -/
def children : Expr → List Expr
  | .binary _ _ left right => [left, right]
  | .unary _ _ operand => [operand]
  | .call _ receiver _ arguments => receiver.toList ++ arguments
  | .fieldAccess _ receiver _ => [receiver]
  | .step _ _ _ target => [target]
  | .literal .. | .identifier .. | .this .. | .super .. | .new .. => []

/-- Whether the expression is the keyword `super`. -/
def isSuper : Expr → Bool
  | .super _ => true
  | .literal .. | .identifier .. | .this .. | .new .. | .call .. | .fieldAccess .. | .unary ..
  | .binary .. | .step .. => false

/-- Whether the expression is the constant `true`. -/
def isTrue : Expr → Bool
  | .literal _ (.bool value) => value
  | _ => false

end Expr

end Decaf
