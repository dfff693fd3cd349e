import Decaf.Typing.Access
import Decaf.Typing.OperatorType

/-!
# The meaning of expressions

An expression is checked after its subexpressions, from left to right. The findings about it follow
from what they stand for; a subexpression that has to be a value must not be a class, `super` or a
call without a result.
-/

namespace Decaf

namespace Checking

/-! ## Values -/

/-- The type of an expression that is used as a value. -/
def asValue (setting : Setting) (expr : Expr) (meaning : Option Meaning) :
    Checking (Option DataType) :=
  match meaning with
  | none => return none
  | some (.value type) =>
    if type = .void then reject expr.position .voidValue else return some type
  | some (.aClass id) => reject expr.position (.notAValue "class" (setting.registry.className id))
  | some (.asParent _) =>
    reject expr.position (.invalidReceiver "super" "can only be used as a call or field receiver")

/-- The types of arguments. -/
def asValues (setting : Setting) : List (Expr × Option Meaning) → Checking (List (Option DataType))
  | [] => return []
  | (expr, meaning) :: rest => do
    let type ← asValue setting expr meaning
    let types ← asValues setting rest
    return type :: types

/-! ## Names -/

/-- What a field stands for that is named without a receiver. -/
def checkBareField (setting : Setting) (site : Site ExprId) (name : String) (field : FieldEntry) :
    Checking (Option Meaning) := do
  if setting.method.isStatic && !field.isStatic then
    reject site.position <| .staticContext <|
      s!"instance field '{name}' cannot be used in static method '{setting.methodPath}'"
  else
    reportAny site.position (setting.privacyFault? "field" name field.owner field.visibility)
    recordField site.id field.id
    return some (.value field.type)

/-- What an identifier stands for. -/
def checkIdentifier (setting : Setting) (site : Site ExprId) (name : String) :
    Checking (Option Meaning) :=
  match setting.bindings.symbol? site.id with
  | none => return none
  | some (.ofVariable id) =>
    return (setting.registry.variableEntry? id).map fun entry => .value entry.type
  | some (.ofField id) =>
    match setting.registry.fieldEntry? id with
    | some field => checkBareField setting site name field
    | none => return none
  | some (.ofMethod _) => reject site.position (.notAValue "method" name)
  | some (.ofClass id) => return some (.aClass id)

/-- Whether an expression names a variable or a field, which can be assigned to. -/
def isAssignable (setting : Setting) : Expr → Bool
  | .identifier site _ =>
    match setting.bindings.symbol? site.id with
    | some (.ofVariable _) | some (.ofField _) => true
    | some (.ofClass _) | some (.ofMethod _) | none => false
  | .fieldAccess .. => true
  | .literal .. | .this .. | .super .. | .new .. | .call .. | .unary .. | .binary .. | .step .. =>
    false

/-- What a `new` expression stands for. -/
def newMeaning (setting : Setting) (expr : ExprId) : Option Meaning :=
  match setting.bindings.symbol? expr with
  | some (.ofClass id) => some (.value (.object id))
  | some (.ofField _) | some (.ofMethod _) | some (.ofVariable _) | none => none

/-! ## Operators -/

/-- What an operator's result stands for; without a type, the operands are not those that it asks
for. -/
def resultOr (position : Position) (type : Option DataType) (operator requirement : String) :
    Checking (Option Meaning) :=
  match type with
  | some type => return some (.value type)
  | none => reject position (.operatorMismatch operator requirement)

/-- Checks a unary operator against the type of its operand. -/
def checkUnary (setting : Setting) (position : Position) (operator : UnaryOperator)
    (operand : Option DataType) : Checking (Option Meaning) :=
  match operand with
  | none => return none
  | some type =>
    resultOr position (operator.resultType? type) operator.symbol
      s!"requires {operator.requirement}, found '{setting.registry.typeName type}'"

/-- Checks a binary operator against the types of its operands. -/
def checkBinary (setting : Setting) (position : Position) (operator : BinaryOperator)
    (left right : Option DataType) : Checking (Option Meaning) :=
  match left, right with
  | some left, some right =>
    resultOr position (operator.resultType? setting.registry left right) operator.symbol <|
      s!"requires {operator.requirement}, found '{setting.registry.typeName left}' and " ++
        s!"'{setting.registry.typeName right}'"
  | _, _ => return none

/-- Checks a step operator against its target. -/
def checkStep (setting : Setting) (position : Position) (operator : StepOperator) (target : Expr)
    (meaning : Option Meaning) : Checking (Option Meaning) :=
  if isAssignable setting target then do
    match ← asValue setting target meaning with
    | none => return none
    | some type =>
      resultOr position (if type.isNumeric then some type else none) operator.symbol
        s!"requires an int or double operand, found '{setting.registry.typeName type}'"
  else reject target.position .notAssignable

/-! ## Members -/

/-- Checks arguments against the types of the parameters, numbering them from `number` on. Arguments
about which nothing is known are passed over. -/
def checkArguments (setting : Setting) (path : String) :
    Nat → List (Expr × Option DataType) → List DataType → Checking Unit
  | number, (argument, some found) :: rest, expected :: types => do
    if setting.registry.isAssignable found expected then
      checkArguments setting path (number + 1) rest types
    else
      report argument.position <|
        .argumentType path number (setting.registry.typeName expected)
        (setting.registry.typeName found)
      checkArguments setting path (number + 1) rest types
  | number, (_, none) :: rest, _ :: types => checkArguments setting path (number + 1) rest types
  | _, [], _ => return ()
  | _, _ :: _, [] => return ()

/-- Checks a call of a method that is found in a class. -/
def checkCallOf (setting : Setting) (site : Site ExprId) (owner : ClassId) (reach : Reach)
    (method : MethodEntry) (arguments : List (Expr × Option DataType)) :
    Checking (Option Meaning) := do
  let path := setting.registry.methodPath method.id
  reportAny site.position ((reach.methodFault? setting owner method).map Cause.staticContext)
  reportAny site.position (setting.privacyFault? "method" method.name
    method.owner method.visibility)
  if arguments.length = method.arity then
    checkArguments setting path 1 arguments method.parameterTypes
  else
    report site.position (.argumentCount path method.arity arguments.length)
  match reach.dispatch? method with
  | some dispatch =>
    recordCall site.id ⟨method.id, dispatch⟩
    return some (.value method.returnType)
  | none => reject site.position (.internal s!"instance method '{path}' has no vtable slot")

/-- Checks a call; the receiver is what stands in front of the dot, if there is one. -/
def checkCall (setting : Setting) (site : Site ExprId) (receiver : Option Meaning) (name : String)
    (arguments : List (Expr × Option DataType)) : Checking (Option Meaning) :=
  match setting.reached receiver name with
  | .error cause => reject site.position cause
  | .ok (owner, reach) =>
    match setting.methodIn owner name with
    | .error cause => reject site.position cause
    | .ok method => checkCallOf setting site owner reach method arguments

/-- Checks an access to a field that is found in a class. -/
def checkAccessTo (setting : Setting) (site : Site ExprId) (owner : ClassId) (reach : Reach)
    (field : FieldEntry) : Checking (Option Meaning) := do
  reportAny site.position ((reach.fieldFault? setting owner field).map Cause.staticContext)
  reportAny site.position (setting.privacyFault? "field" field.name field.owner field.visibility)
  recordField site.id field.id
  return some (.value field.type)

/-- Checks an access to a field. -/
def checkFieldAccess (setting : Setting) (site : Site ExprId) (receiver : Option Meaning)
    (name : String) : Checking (Option Meaning) :=
  match receiver with
  | none => return none
  | some receiver =>
    match setting.reached (some receiver) name with
    | .error cause => reject site.position cause
    | .ok (owner, reach) =>
      match setting.fieldIn owner name with
      | .error cause => reject site.position cause
      | .ok field => checkAccessTo setting site owner reach field

/-! ## Expressions -/

/-- Writes down what was found about an expression, and passes it on. -/
def conclude (site : Site ExprId) (check : Checking (Option Meaning)) :
    Checking (Option Meaning) := do
  let meaning ← check
  recordMeaning site.id meaning
  return meaning

mutual

/-- Checks an expression and everything in it. -/
def checkExpr (setting : Setting) : Expr → Checking (Option Meaning)
  | .literal site value => conclude site (return some (.value value.type))
  | .identifier site name => conclude site (checkIdentifier setting site name)
  | .this site => conclude site (return some (.value (.object setting.method.owner)))
  | .super site =>
    conclude site (return (setting.registry.parent? setting.method.owner).map Meaning.asParent)
  | .new site _ => conclude site (return newMeaning setting site.id)
  | .unary site operator operand => do
    let meaning ← checkExpr setting operand
    conclude site do
      checkUnary setting site.position operator (← asValue setting operand meaning)
  | .binary site operator left right => do
    let leftMeaning ← checkExpr setting left
    let rightMeaning ← checkExpr setting right
    conclude site do
      let leftType ← asValue setting left leftMeaning
      let rightType ← asValue setting right rightMeaning
      checkBinary setting site.position operator leftType rightType
  | .call site none name arguments => do
    let meanings ← checkExprs setting arguments
    conclude site do
      let types ← asValues setting (arguments.zip meanings)
      checkCall setting site none name (arguments.zip types)
  | .call site (some receiver) name arguments => do
    let receiverMeaning ← checkExpr setting receiver
    let meanings ← checkExprs setting arguments
    conclude site do
      let types ← asValues setting (arguments.zip meanings)
      match receiverMeaning with
      | none => return none
      | some meaning => checkCall setting site (some meaning) name (arguments.zip types)
  | .fieldAccess site receiver name => do
    let meaning ← checkExpr setting receiver
    conclude site (checkFieldAccess setting site meaning name)
  | .step site operator _ target => do
    let meaning ← checkExpr setting target
    conclude site (checkStep setting site.position operator target meaning)
termination_by structural expr => expr

/-- Checks expressions from left to right. -/
def checkExprs (setting : Setting) : List Expr → Checking (List (Option Meaning))
  | [] => return []
  | expr :: rest => do
    let meaning ← checkExpr setting expr
    let meanings ← checkExprs setting rest
    return meaning :: meanings
termination_by structural exprs => exprs

end

/-- Checks an expression that is used as a value. -/
def checkValue (setting : Setting) (expr : Expr) : Checking (Option DataType) := do
  asValue setting expr (← checkExpr setting expr)

end Checking

end Decaf
