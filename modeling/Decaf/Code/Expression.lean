import Decaf.Code.Generation

/-!
# Code for expressions

Operands are evaluated from left to right, each into a temporary; then the instructions of the
expression itself use the temporaries up and make a new one for the result. A call without a result
leaves no temporary. The right operand of `&&` and `||` stands behind a branch that may pass it by,
so no other temporary may be in a register at the branch: it would have to be spilled on one of the
two paths only. Nor does a register survive a call.
-/

namespace Decaf

/-- The instruction that puts a constant into a register. -/
def Literal.load (value : Literal) (target : Register) : Instruction :=
  match value with
  | .int value => .moveInt target value
  | .double value => .moveDouble target value
  | .bool value => .moveInt target (if value then 1 else 0)
  | .string value => .moveString target value
  | .null => .moveInt target 0

/-- The operation on one word behind a unary operator. -/
def UnaryOperator.opcode (operator : UnaryOperator) (isDouble : Bool) : UnaryOpcode :=
  match operator with
  | .not => .not
  | .negate => if isDouble then .fneg else .ineg

/-- The operation on two words behind a binary operator; `&&` and `||` have none. -/
def BinaryOperator.opcode? (operator : BinaryOperator) (isDouble : Bool) : Option BinaryOpcode :=
  match operator with
  | .add => some (if isDouble then .fadd else .iadd)
  | .subtract => some (if isDouble then .fsub else .isub)
  | .multiply => some (if isDouble then .fmul else .imul)
  | .divide => some (if isDouble then .fdiv else .idiv)
  | .less => some (if isDouble then .flt else .ilt)
  | .lessEqual => some (if isDouble then .fleq else .ileq)
  | .greater => some (if isDouble then .fgt else .igt)
  | .greaterEqual => some (if isDouble then .fgeq else .igeq)
  | .equal => some (if isDouble then .feq else .ieq)
  | .notEqual => some (if isDouble then .fne else .ine)
  | .and | .or => none

/-- The operation on two words that steps a value. -/
def StepOperator.opcode (operator : StepOperator) (isDouble : Bool) : BinaryOpcode :=
  match operator with
  | .increment => if isDouble then .fadd else .iadd
  | .decrement => if isDouble then .fsub else .isub

/-- What an assignment or a step writes to. -/
inductive Place where
  /-- A variable in a frame slot. -/
  | frame (slot : Nat)
  /-- A static field. -/
  | area (offset : Nat)
  /-- A field of an object. -/
  | heap (object : Temporary) (offset : Nat)
  deriving DecidableEq, Repr

namespace Generating

/-! ## Names -/

/-- Reads a static field, or an instance field of the current object. -/
def readOwnField (context : MethodContext) (position : Position) (field : FieldEntry) :
    Generating Temporary := do
  let offset ← fieldOffset context position field
  if field.isStatic then produce position fun target => .loadStatic target offset
  else
    let slot ← receiverSlot context position
    let (temporary, register) ← acquire position
    emit (.loadStack register slot)
    emit (.loadHeap register register offset)
    return temporary

/-- Reads an instance field of an object. -/
def readObjectField (context : MethodContext) (position : Position) (field : FieldEntry)
    (object : Option Temporary) : Generating Temporary := do
  let offset ← fieldOffset context position field
  let object ← operand position object
  let base ← load position object
  release object
  produce position fun target => .loadHeap target base offset

/-- Reads what an identifier stands for. -/
def readIdentifier (context : MethodContext) (site : Site ExprId) : Generating Temporary := do
  match context.bindings.symbol? site.id with
  | some (.ofVariable id) =>
    let slot ← variableSlot context site.position id
    produce site.position fun target => .loadStack target slot
  | some (.ofField id) =>
    let field ← orFail (context.registry.fieldEntry? id) site.position "field without an offset"
    readOwnField context site.position field
  | some (.ofClass _) | some (.ofMethod _) | none =>
    fail site.position "identifier does not name a value"

/-- Reads the current object. -/
def readThis (context : MethodContext) (position : Position) : Generating Temporary := do
  let slot ← receiverSlot context position
  produce position fun target => .loadStack target slot

/-- Makes the object of a `new` expression. -/
def newObject (context : MethodContext) (site : Site ExprId) : Generating Temporary := do
  match context.bindings.symbol? site.id with
  | some (.ofClass id) =>
    let (object, register) ← acquire site.position
    let (scratch, scratchRegister) ← acquire site.position
    emitAll (context.layout.objectInit context.registry id register scratchRegister)
    release scratch
    return object
  | some (.ofField _) | some (.ofMethod _) | some (.ofVariable _) | none =>
    fail site.position "unresolved class in 'new'"

/-! ## Operators -/

/-- Applies a unary operation to its operand. -/
def applyUnary (position : Position) (opcode : UnaryOpcode) (value : Option Temporary) :
    Generating Temporary := do
  let value ← operand position value
  let source ← load position value
  release value
  produce position fun target => .unary opcode target source

/-- Applies a binary operation to its operands. -/
def applyBinary (position : Position) (opcode : Option BinaryOpcode)
    (left right : Option Temporary) : Generating Temporary := do
  let left ← operand position left
  let right ← operand position right
  let opcode ← orFail opcode position "short-circuit operator in binary form"
  let (leftRegister, rightRegister) ← withPool position (RegisterPool.loadPair left right)
  release left
  release right
  produce position fun target => .binary opcode target leftRegister rightRegister

/-- Branches past the right operand of `&&` or `||` if the left one decides; the answer is the
register that holds the left operand and is to hold the result, and the label behind the right
operand. -/
def branchPast (position : Position) (operator : BinaryOperator) (left : Option Temporary) :
    Generating (Register × String) := do
  let left ← operand position left
  spillAllExcept position [left]
  let register ← load position left
  let label ← freshLabel
  emit (if operator = .or then .branchIfNonzero register label else .branchIfZero register label)
  release left
  unpinAll
  return (register, label)

/-- Puts the right operand of `&&` or `||` where the left one was, behind which both paths meet. -/
def joinRight (position : Position) (target : Register) (label : String)
    (right : Option Temporary) : Generating Temporary := do
  let right ← operand position right
  let source ← load position right
  if source ≠ target then emit (.move target source)
  release right
  emit (.label label)
  match target with
  | .general index =>
    let (result, _) ← withPool position (RegisterPool.acquireSpecific index)
    return result
  | .result => fail position "operand in rv"

/-! ## Places -/

/-- The place of a static field, or of an instance field of the current object. -/
def ownFieldPlace (context : MethodContext) (position : Position) (field : FieldEntry) :
    Generating Place := do
  let offset ← fieldOffset context position field
  if field.isStatic then return .area offset
  else
    let slot ← receiverSlot context position
    let object ← produce position fun target => .loadStack target slot
    return .heap object offset

/-- The place of an instance field of an object. -/
def objectFieldPlace (context : MethodContext) (position : Position) (field : FieldEntry)
    (object : Option Temporary) : Generating Place := do
  let offset ← fieldOffset context position field
  let object ← operand position object
  return .heap object offset

/-- The place that an expression names; `object` is the object in front of the dot, where one is
needed. -/
def place (context : MethodContext) (position : Position) (target : Expr)
    (object : Option Temporary) : Generating Place := do
  match target with
  | .identifier site _ =>
    match context.bindings.symbol? site.id with
    | some (.ofVariable id) => return .frame (← variableSlot context position id)
    | some (.ofClass _) | some (.ofField _) | some (.ofMethod _) | none =>
      ownFieldPlace context position (← namedField context site)
  | .fieldAccess site receiver _ =>
    let field ← namedField context site
    if needsObject field receiver then objectFieldPlace context position field object
    else ownFieldPlace context position field
  | .literal .. | .this .. | .super .. | .new .. | .call .. | .unary .. | .binary .. | .step .. =>
    fail position "expression is not assignable"

/-- Reads from a place. -/
def readPlace (position : Position) (target : Register) : Place → Generating Unit
  | .frame slot => emit (.loadStack target slot)
  | .area offset => emit (.loadStatic target offset)
  | .heap object offset => do
    let base ← load position object
    emit (.loadHeap target base offset)

/-- Writes to a place, whose object is in use no more from then on. -/
def writePlace (position : Position) (source : Register) : Place → Generating Unit
  | .frame slot => emit (.storeStack slot source)
  | .area offset => emit (.storeStatic offset source)
  | .heap object offset => do
    let base ← load position object
    emit (.storeHeap base offset source)
    release object

/-- The instruction that puts a one into a register. -/
def loadOne (isDouble : Bool) (target : Register) : Instruction :=
  if isDouble then .moveDouble target .one else .moveInt target 1

/-- Steps what is in a place; the result is the new value or the old one. -/
def stepPlace (position : Position) (opcode : BinaryOpcode) (isDouble yieldsNew : Bool)
    (place : Place) : Generating Temporary := do
  let (old, oldRegister) ← acquire position
  readPlace position oldRegister place
  let (new, newRegister) ← acquire position
  emit (loadOne isDouble newRegister)
  emit (.binary opcode newRegister oldRegister newRegister)
  writePlace position newRegister place
  if yieldsNew then
    release old
    return new
  else
    release new
    return old

/-! ## Calls -/

/-- The target of a call. -/
def callTarget (context : MethodContext) (site : Site ExprId) : Generating CallTarget :=
  orFail (context.table.call? site.id) site.position "call without a resolved target"

/-- Whether a call evaluates its receiver; `super` and the name of a class are no values. -/
def evaluatesReceiver : Dispatch → Bool
  | .virtual _ => true
  | .super | .static => false

/-- Pushes the current object. -/
def pushThis (context : MethodContext) (position : Position) : Generating Unit := do
  let slot ← receiverSlot context position
  let (temporary, register) ← acquire position
  emit (.loadStack register slot)
  emit (.push register)
  release temporary

/-- Pushes an argument, which is in use no more from then on. -/
def pushArgument (position : Position) (argument : Option Temporary) : Generating Unit := do
  let argument ← operand position argument
  let register ← load position argument
  emit (.push register)
  release argument

/-- Pushes an evaluated receiver; it is still needed to find the method. -/
def pushReceiver (position : Position) (receiver : Option Temporary) : Generating Temporary := do
  let receiver ← operand position receiver
  let register ← load position receiver
  emit (.push register)
  return receiver

/-- Calls the method in a slot of an evaluated receiver's vtable. -/
def callThrough (position : Position) (receiver : Temporary) (slot : Nat) : Generating Unit := do
  let base ← load position receiver
  release receiver
  let (vtable, register) ← acquire position
  emit (.loadHeap register base 0)
  emit (.callVirtual register slot)
  release vtable

/-- Calls the method in a slot of the current object's vtable. -/
def callThroughThis (context : MethodContext) (position : Position) (slot : Nat) :
    Generating Unit := do
  let frameSlot ← receiverSlot context position
  let (vtable, register) ← acquire position
  emit (.loadStack register frameSlot)
  emit (.loadHeap register register 0)
  emit (.callVirtual register slot)
  release vtable

/-- Removes what was pushed for a call, and moves the result into a temporary. -/
def finishCall (context : MethodContext) (position : Position) (target : CallTarget)
    (pushed : Nat) : Generating (Option Temporary) := do
  if pushed > 0 then emit (.pop pushed)
  match context.registry.methodEntry? target.method with
  | some callee =>
    if callee.returnType = .void then return none
    else return some (← produce position fun register => .move register .result)
  | none => return none

/-- A call of which all operands are evaluated. The `receiver` is there if it was evaluated, and
then holds what its evaluation left. -/
def generateCall (context : MethodContext) (position : Position) (target : CallTarget)
    (receiver : Option (Option Temporary)) (arguments : List (Option Temporary)) :
    Generating (Option Temporary) := do
  match target.dispatch, receiver with
  | .virtual slot, some receiver =>
    let receiver ← pushReceiver position receiver
    arguments.forM (pushArgument position)
    spillAllExcept position [receiver]
    callThrough position receiver slot
    finishCall context position target (arguments.length + 1)
  | .virtual slot, none =>
    pushThis context position
    arguments.forM (pushArgument position)
    spillAllExcept position []
    callThroughThis context position slot
    finishCall context position target (arguments.length + 1)
  | .super, _ =>
    pushThis context position
    arguments.forM (pushArgument position)
    spillAllExcept position []
    emit (.call (context.registry.methodLabel target.method))
    finishCall context position target (arguments.length + 1)
  | .static, _ =>
    arguments.forM (pushArgument position)
    spillAllExcept position []
    emit (.call (context.registry.methodLabel target.method))
    finishCall context position target arguments.length

/-! ## Expressions -/

mutual

/-- The code of an expression; the answer is the temporary that holds its value, if it has one. -/
def generateExpr (context : MethodContext) : Expr → Generating (Option Temporary)
  | .literal site value => conclude (some <$> produce site.position value.load)
  | .identifier site _ => conclude (some <$> readIdentifier context site)
  | .this site => conclude (some <$> readThis context site.position)
  | .super site => fail site.position "'super' evaluated as a value"
  | .new site _ => conclude (some <$> newObject context site)
  | .unary site operator inner => do
    let value ← generateExpr context inner
    conclude (some <$> applyUnary site.position (operator.opcode (context.isDouble inner)) value)
  | .binary site operator left right =>
    if operator.isShortCircuit then do
      let leftValue ← generateExpr context left
      let (register, label) ← branchPast site.position operator leftValue
      let rightValue ← generateExpr context right
      conclude (some <$> joinRight site.position register label rightValue)
    else do
      let leftValue ← generateExpr context left
      let rightValue ← generateExpr context right
      conclude <| some <$>
        applyBinary site.position (operator.opcode? (context.isDouble left)) leftValue rightValue
  | .call site none _ arguments => do
    let target ← callTarget context site
    let values ← generateExprs context arguments
    conclude (generateCall context site.position target none values)
  | .call site (some receiver) _ arguments => do
    let target ← callTarget context site
    if evaluatesReceiver target.dispatch then
      let object ← generateExpr context receiver
      let values ← generateExprs context arguments
      conclude (generateCall context site.position target (some object) values)
    else
      let values ← generateExprs context arguments
      conclude (generateCall context site.position target none values)
  | .fieldAccess site receiver _ => do
    let field ← namedField context site
    if needsObject field receiver then
      let object ← generateExpr context receiver
      conclude (some <$> readObjectField context site.position field object)
    else conclude (some <$> readOwnField context site.position field)
  | .step site operator yieldsNew target => do
    let object ← generateTarget context target
    let isDouble := context.table.typeOf? site.id = some .double
    conclude do
      let place ← place context site.position target object
      some <$> stepPlace site.position (operator.opcode isDouble) isDouble yieldsNew place
termination_by structural expr => expr

/-- The code of expressions from left to right. -/
def generateExprs (context : MethodContext) : List Expr → Generating (List (Option Temporary))
  | [] => return []
  | expr :: rest => do
    let value ← generateExpr context expr
    let values ← generateExprs context rest
    return value :: values
termination_by structural exprs => exprs

/-- The code of the object whose field an expression names, where one is needed. -/
def generateTarget (context : MethodContext) : Expr → Generating (Option Temporary)
  | .fieldAccess site receiver _ => do
    let field ← namedField context site
    if needsObject field receiver then generateExpr context receiver else return none
  | .literal _ _ => return none
  | .identifier _ _ => return none
  | .this _ => return none
  | .super _ => return none
  | .new _ _ => return none
  | .call _ _ _ _ => return none
  | .unary _ _ _ => return none
  | .binary _ _ _ _ => return none
  | .step _ _ _ _ => return none
termination_by structural expr => expr

end

/-- The code of an expression that is used as a value. -/
def generateValue (context : MethodContext) (expr : Expr) : Generating Temporary := do
  operand expr.position (← generateExpr context expr)

end Generating

end Decaf
