import Decaf.Code.Expression
import Decaf.Tree.Stmt

/-!
# Code for statements

A branch or a loop becomes labels and jumps around the code of its parts. The condition of a loop
stands in front of its body and is tested again before every round; `continue` in a `for` loop leads
to the update. After the code of each statement no temporary is left.
-/

namespace Decaf

namespace Generating

/-! ## Conditions and loops -/

/-- Evaluates a condition and jumps to a label unless it holds. -/
def branchUnless (context : MethodContext) (condition : Expr) (label : String) :
    Generating Unit := do
  let value ← generateValue context condition
  let register ← load condition.position value
  emit (.branchIfZero register label)
  release value
  unpinAll

/-- Begins the body of a loop. -/
def enterLoop (labels : LoopLabels) : Generating Unit :=
  modify fun generation => { generation with emitter := generation.emitter.enterLoop labels }

/-- Ends the body of the innermost loop. -/
def exitLoop : Generating Unit :=
  modify fun generation => { generation with emitter := generation.emitter.exitLoop }

/-- Jumps to a label of the innermost loop. -/
def leaveLoop (position : Position) (keyword : String) (label : LoopLabels → String) :
    Generating Unit := do
  let labels ← orFail (← get).emitter.innermostLoop? position s!"'{keyword}' outside a loop"
  emit (.jump (label labels))

/-- Ends the own code of a statement: there is no temporary left. -/
def settle (position : Position) (code : Generating Unit) : Generating Unit := do
  conclude code
  let liveCount := (← get).pool.liveCount
  if liveCount ≠ 0 then fail position s!"{liveCount} values live after statement"

/-! ## Simple statements -/

/-- The code of a `return`. -/
def generateReturn (context : MethodContext) (position : Position) (value : Option Expr) :
    Generating Unit := do
  match value with
  | none => emit .ret
  | some value =>
    let value ← generateValue context value
    let register ← load position value
    emit (.retValue register)
    release value

/-- The code of an expression whose value is not used. -/
def generateEvaluate (context : MethodContext) (expr : Expr) : Generating Unit := do
  match ← generateExpr context expr with
  | some value => release value
  | none => return ()

/-- The code of the object in front of the dot of an assignment's target, where one is needed. -/
def generateReceiver (context : MethodContext) : Expr → Generating (Option Temporary)
  | .fieldAccess site receiver _ => do
    let field ← namedField context site
    if needsObject field receiver then some <$> generateValue context receiver else return none
  | .literal .. | .identifier .. | .this .. | .super .. | .new .. | .call .. | .unary ..
  | .binary .. | .step .. => return none

/-- The code of an assignment: the object in front of the dot comes before the value. -/
def generateAssign (context : MethodContext) (position : Position) (target value : Expr) :
    Generating Unit := do
  let object ← generateReceiver context target
  let value ← generateValue context value
  let place ← place context position target object
  let source ← load position value
  writePlace position source place
  release value

/-- The instruction that puts the initial value of a variable into a register. -/
def loadZero (isDouble : Bool) (target : Register) : Instruction :=
  if isDouble then .moveDouble target (.zero false) else .moveInt target 0

/-- The code that gives a declared variable its initial value. -/
def clearVariable (context : MethodContext) (position : Position) (id : VariableId) :
    Generating Unit := do
  let slot ← variableSlot context position id
  let isDouble := (context.registry.variableEntry? id).any fun entry => entry.type = .double
  let (value, register) ← acquire position
  emit (loadZero isDouble register)
  emit (.storeStack slot register)
  release value

/-- How the value of an expression is printed. -/
def printKind? (context : MethodContext) (value : Expr) : Option PrintKind :=
  match context.table.typeOf? value.id with
  | some (.primitive kind) => PrintKind.ofPrimitive? kind
  | some (.object _) | some .null | none => none

/-- The code of a `print`. -/
def generatePrint (context : MethodContext) (position : Position) (value : Expr) :
    Generating Unit := do
  let kind ← orFail (printKind? context value) position "unprintable value"
  let value ← generateValue context value
  let register ← load position value
  emit (.print kind register)
  release value

/-! ## Statements -/

mutual

/-- The code of a statement. -/
def generateStmt (context : MethodContext) : Stmt → Generating Unit
  | .block site statements => do
    settle site.position (return ())
    generateStmts context statements
  | .ifElse site condition thenBranch none => do
    let behind ← freshLabel
    settle site.position (branchUnless context condition behind)
    generateStmt context thenBranch
    emit (.label behind)
  | .ifElse site condition thenBranch (some elseBranch) => do
    let otherwise ← freshLabel
    let behind ← freshLabel
    settle site.position (branchUnless context condition otherwise)
    generateStmt context thenBranch
    emit (.jump behind)
    emit (.label otherwise)
    generateStmt context elseBranch
    emit (.label behind)
  | .whileLoop site condition body => do
    let top ← freshLabel
    let behind ← freshLabel
    emit (.label top)
    settle site.position (branchUnless context condition behind)
    enterLoop ⟨behind, top⟩
    generateStmt context body
    emit (.jump top)
    exitLoop
    emit (.label behind)
  | .forLoop site init condition update body => do
    let top ← freshLabel
    let next ← freshLabel
    let behind ← freshLabel
    settle site.position (return ())
    match init with
    | some init => generateStmt context init
    | none => pure ()
    emit (.label top)
    match condition with
    | some condition => branchUnless context condition behind
    | none => pure ()
    enterLoop ⟨behind, next⟩
    generateStmt context body
    emit (.label next)
    match update with
    | some update => generateStmt context update
    | none => pure ()
    emit (.jump top)
    exitLoop
    emit (.label behind)
  | .ret site value => settle site.position (generateReturn context site.position value)
  | .evaluate site expr => settle site.position (generateEvaluate context expr)
  | .assign site target value =>
    settle site.position (generateAssign context site.position target value)
  | .declare site _ =>
    settle site.position <|
      (context.bindings.declarationsOf site.id).forM (clearVariable context site.position)
  | .print site value => settle site.position (generatePrint context site.position value)
  | .breakLoop site => settle site.position (leaveLoop site.position "break" LoopLabels.breakTo)
  | .continueLoop site =>
    settle site.position (leaveLoop site.position "continue" LoopLabels.continueTo)
  | .skip site => settle site.position (return ())
termination_by structural stmt => stmt

/-- The code of statements one after the other. -/
def generateStmts (context : MethodContext) : List Stmt → Generating Unit
  | [] => return ()
  | stmt :: rest => do
    generateStmt context stmt
    generateStmts context rest
termination_by structural stmts => stmts

end

end Generating

end Decaf
