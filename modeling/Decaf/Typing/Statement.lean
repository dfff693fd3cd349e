import Decaf.Typing.Expression

/-!
# Checks of statements

Conditions have to be truth values, values have to fit the variable, field or method they go to, and
`break` and `continue` need a loop around them. The condition of a `for` loop is checked before its
other parts; its first part stands outside of the loop and its update inside.
-/

namespace Decaf

namespace Checking

/-- Checks a condition of an `if`, `while` or `for`. -/
def checkCondition (setting : Setting) (construct : String) (condition : Expr) : Checking Unit := do
  match ← checkValue setting condition with
  | none => return ()
  | some type =>
    if type = .bool then return ()
    else report condition.position (.nonBoolCondition construct (setting.registry.typeName type))

/-- Checks a `return` against the return type of the method. -/
def checkReturn (setting : Setting) (position : Position) (value : Option Expr) :
    Checking Unit := do
  let registry := setting.registry
  let expected := setting.method.returnType
  match value with
  | none =>
    if expected = .void then return ()
    else
      report position <| .returnMismatch <|
        s!"method '{setting.methodPath}' must return a value of type '{registry.typeName expected}'"
  | some value =>
    if expected = .void then
      let _ ← checkExpr setting value
      report position (.returnMismatch s!"void method '{setting.methodPath}' cannot return a value")
    else
      match ← checkValue setting value with
      | none => return ()
      | some found =>
        if registry.isAssignable found expected then return ()
        else
          report position <| .returnMismatch <|
            s!"cannot return '{registry.typeName found}' from method '{setting.methodPath}' " ++
              s!"declared to return '{registry.typeName expected}'"

/-- What an assignment's target is called in a message. -/
def targetText (setting : Setting) : Expr → String
  | .identifier site name =>
    match setting.bindings.symbol? site.id with
    | some (.ofField _) => s!"field '{name}'"
    | some (.ofClass _) | some (.ofMethod _) | some (.ofVariable _) | none => s!"variable '{name}'"
  | .fieldAccess _ _ field => s!"field '{field}'"
  | .literal .. | .this .. | .super .. | .new .. | .call .. | .unary .. | .binary .. | .step .. =>
    "expression"

/-- Checks an assignment. -/
def checkAssign (setting : Setting) (target value : Expr) : Checking Unit := do
  if isAssignable setting target then
    let meaning ← checkExpr setting target
    match meaning, ← checkValue setting value with
    | some (.value expected), some found =>
      if setting.registry.isAssignable found expected then return ()
      else
        report value.position <|
          .incompatibleAssignment (setting.registry.typeName expected)
          (setting.registry.typeName found)
            (targetText setting target)
    | _, _ => return ()
  else
    report target.position .notAssignable
    let _ ← checkExpr setting value

/-- Checks an expression that stands as a statement; only there may a call be without a result. -/
def checkEvaluate (setting : Setting) (expr : Expr) : Checking Unit := do
  match ← checkExpr setting expr with
  | some (.value _) => return ()
  | meaning =>
    let _ ← asValue setting expr meaning

/-- Whether values of a type can be printed. -/
def isPrintable : DataType → Bool
  | .primitive kind => kind ≠ .void
  | .object _ | .null => false

/-- Checks a `print`. -/
def checkPrint (setting : Setting) (value : Expr) : Checking Unit := do
  match ← checkValue setting value with
  | none => return ()
  | some type =>
    if isPrintable type then return ()
    else report value.position (.printType (setting.registry.typeName type))

/-- Checks a statement that leaves a loop or starts its next round. -/
def checkLoopExit (inLoop : Bool) (position : Position) (keyword : String) : Checking Unit :=
  if inLoop then return () else report position (.outsideLoop keyword)

mutual

/-- Checks a statement; `inLoop` tells whether there is a loop around it. -/
def checkStmt (setting : Setting) (inLoop : Bool) : Stmt → Checking Unit
  | .block _ statements => checkStmts setting inLoop statements
  | .ifElse _ condition thenBranch elseBranch => do
    checkCondition setting "if" condition
    checkStmt setting inLoop thenBranch
    match elseBranch with
    | some elseBranch => checkStmt setting inLoop elseBranch
    | none => return ()
  | .whileLoop _ condition body => do
    checkCondition setting "while" condition
    checkStmt setting true body
  | .forLoop _ init condition update body => do
    match condition with
    | some condition => checkCondition setting "for" condition
    | none => pure ()
    match init with
    | some init => checkStmt setting inLoop init
    | none => pure ()
    checkStmt setting true body
    match update with
    | some update => checkStmt setting true update
    | none => return ()
  | .ret site value => checkReturn setting site.position value
  | .evaluate _ expr => checkEvaluate setting expr
  | .assign _ target value => checkAssign setting target value
  | .declare _ _ => return ()
  | .print _ value => checkPrint setting value
  | .breakLoop site => checkLoopExit inLoop site.position "break"
  | .continueLoop site => checkLoopExit inLoop site.position "continue"
  | .skip _ => return ()
termination_by structural stmt => stmt

/-- Checks statements one after the other. -/
def checkStmts (setting : Setting) (inLoop : Bool) : List Stmt → Checking Unit
  | [] => return ()
  | stmt :: rest => do
    checkStmt setting inLoop stmt
    checkStmts setting inLoop rest
termination_by structural stmts => stmts

end

end Checking

end Decaf
