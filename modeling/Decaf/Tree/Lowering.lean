import Decaf.Tree.Decoding

/-!
# Lowering method bodies

Statements and expressions nest as deep as the input does, so a method body is not taken apart by
recursion. A stack of tasks holds what is still to be done: the parts of a node are put on it in
front of the task that finishes the node, so they are done first and in the order of the source
text. Every node that is made goes onto one of two stacks of results, and a node that is finished
takes its children from there. A task leaves less to do than there was, so the stack of tasks runs
empty.
-/

namespace Decaf

namespace Lowering

open Decode (shaped required checkArray knownOperator fail)

/-- The nodes that wait for the node around them, the last one made first. -/
structure Results where
  /-- Statements that are not yet part of a node. -/
  stmts : List Stmt := []
  /-- Expressions that are not yet part of a node. -/
  exprs : List Expr := []

namespace Results

/-- Makes a statement node. -/
def addStmt (results : Results) (position : Position) (make : Site StmtId → Stmt) :
    Decode Results := do
  let made ← Decode.stmt position make
  return { results with stmts := made :: results.stmts }

/-- Makes an expression node. -/
def addExpr (results : Results) (position : Position) (make : Site ExprId → Expr) :
    Decode Results := do
  let made ← Decode.expr position make
  return { results with exprs := made :: results.exprs }

end Results

/-- A node whose children come first. -/
inductive Pending where
  | block (length : Nat)
  | ifElse (hasElse : Bool)
  | whileLoop
  | forLoop (hasInit hasCondition hasUpdate : Bool)
  | ret (hasValue : Bool)
  | evaluate
  | assign
  | print
  | binary (operator : BinaryOperator)
  | unary (operator : UnaryOperator)
  | call (method : String) (count : Nat) (hasReceiver : Bool)
  | fieldAccess (field : String)
  | step (operator : StepOperator) (yieldsNew : Bool)

/-- What is to be done next. -/
inductive Task where
  /-- Takes a statement apart; `parent` is where the node around it starts. -/
  | stmt (value : Json) (parent : Position)
  /-- Takes an expression apart. -/
  | expr (value : Json) (parent : Position)
  /-- Makes a node, which starts at the given position, from its children. -/
  | finish (pending : Pending) (position : Position)

/-! ## Child nodes -/

/-- The child node in a member; `null` is none. -/
def child? (name : String) : List (String × Json) → Option Json
  | [] => none
  | (_, .null) :: rest => child? name rest
  | (otherName, value) :: rest => if otherName = name then some value else child? name rest

/-- The child nodes in an array member. -/
def children (name : String) : List (String × Json) → List Json
  | [] => []
  | (otherName, .array elements) :: rest =>
    if otherName = name then elements else children name rest
  | _ :: rest => children name rest

/-- Opens an expression: a node without parts is made at once, any other is put behind its parts. -/
def openExpr (members : List (String × Json)) (results : Results) :
    Decode (List Task × Results) := do
  let (header, position) ← shaped (Header.exprHeader members)
  let part (name : String) : Option Task := (child? name members).map fun value =>
    .expr value position
  match header with
  | .binary symbol =>
    let left ← required position "BinaryOp" "lhs" (part "lhs")
    let right ← required position "BinaryOp" "rhs" (part "rhs")
    let operator ← knownOperator position "BinaryOp" symbol (BinaryOperator.ofSymbol? symbol)
    return ([left, right, .finish (.binary operator) position], results)
  | .unary symbol =>
    let operand ← required position "UnaryOp" "operand" (part "operand")
    let operator ← knownOperator position "UnaryOp" symbol (UnaryOperator.ofSymbol? symbol)
    return ([operand, .finish (.unary operator) position], results)
  | .literal type value =>
    let constant ← Decode.literal position type value
    return ([], ← results.addExpr position fun site => .literal site constant)
  | .identifier name => return ([], ← results.addExpr position fun site => .identifier site name)
  | .this => return ([], ← results.addExpr position .this)
  | .super => return ([], ← results.addExpr position .super)
  | .new className => return ([], ← results.addExpr position fun site => .new site className)
  | .call method =>
    let receiver := part "receiver"
    checkArray position "Call" "args" members
    let arguments := children "args" members
    return (receiver.toList ++ arguments.map (.expr · position) ++
      [.finish (.call method arguments.length receiver.isSome) position], results)
  | .fieldAccess field =>
    let receiver ← required position "FieldAccess" "receiver" (part "receiver")
    return ([receiver, .finish (.fieldAccess field) position], results)
  | .step symbol yieldsNew =>
    let target ← required position "IncDec" "target" (part "target")
    let operator ← knownOperator position "IncDec" symbol (StepOperator.ofSymbol? symbol)
    return ([target, .finish (.step operator yieldsNew) position], results)

/-- Opens a statement. -/
def openStmt (members : List (String × Json)) (results : Results) :
    Decode (List Task × Results) := do
  let (header, position) ← shaped (Header.stmtHeader members)
  let stmtPart (name : String) : Option Task := (child? name members).map fun value =>
    .stmt value position
  let exprPart (name : String) : Option Task := (child? name members).map fun value =>
    .expr value position
  match header with
  | .declare written =>
    let declared ← written.mapM (Decode.variableDecl "VarDecl")
    return ([], ← results.addStmt position fun site => .declare site declared)
  | .plain .block =>
    checkArray position "Block" "stmts" members
    let statements := children "stmts" members
    return (statements.map (.stmt · position) ++
      [.finish (.block statements.length) position], results)
  | .plain .ifElse =>
    let condition ← required position "If" "cond" (exprPart "cond")
    let thenBranch ← required position "If" "then" (stmtPart "then")
    let elseBranch := stmtPart "else"
    return ([condition, thenBranch] ++ elseBranch.toList ++
      [.finish (.ifElse elseBranch.isSome) position], results)
  | .plain .whileLoop =>
    let condition ← required position "While" "cond" (exprPart "cond")
    let body ← required position "While" "body" (stmtPart "body")
    return ([condition, body, .finish .whileLoop position], results)
  | .plain .forLoop =>
    let init := stmtPart "init"
    let condition := exprPart "cond"
    let update := stmtPart "update"
    let body ← required position "For" "body" (stmtPart "body")
    return (init.toList ++ condition.toList ++ update.toList ++
      [body, .finish (.forLoop init.isSome condition.isSome update.isSome) position], results)
  | .plain .ret =>
    let value := exprPart "value"
    return (value.toList ++ [.finish (.ret value.isSome) position], results)
  | .plain .evaluate =>
    let value ← required position "ExprStmt" "expr" (exprPart "expr")
    return ([value, .finish .evaluate position], results)
  | .plain .assign =>
    let target ← required position "Assign" "target" (exprPart "target")
    let value ← required position "Assign" "value" (exprPart "value")
    return ([target, value, .finish .assign position], results)
  | .plain .print =>
    let value ← required position "Print" "value" (exprPart "value")
    return ([value, .finish .print position], results)
  | .plain .breakLoop => return ([], ← results.addStmt position .breakLoop)
  | .plain .continueLoop => return ([], ← results.addStmt position .continueLoop)
  | .plain .declare | .plain .skip => return ([], ← results.addStmt position .skip)

/-! ## Finished nodes -/

/-- Takes the topmost node off a stack. -/
def pop {Node : Type} : List Node → Option (Node × List Node)
  | [] => none
  | top :: rest => some (top, rest)

/-- Takes the topmost node off a stack if a node is to be taken at all. -/
def popIf {Node : Type} (isThere : Bool) (stack : List Node) : Option (Option Node × List Node) :=
  if isThere then (pop stack).map fun (top, rest) => (some top, rest) else some (none, stack)

/-- Takes the topmost nodes off a stack, in the order in which they were made. -/
def popMany {Node : Type} (count : Nat) (stack : List Node) : Option (List Node × List Node) :=
  if count ≤ stack.length then some ((stack.take count).reverse, stack.drop count) else none

/-- Makes a node of the children it takes off the stacks; none if they hold too few. -/
def finish (position : Position) : Pending → Results → Option (Decode Results)
  | .block length, ⟨stmts, exprs⟩ => do
    let (statements, stmts) ← popMany length stmts
    some (Results.addStmt ⟨stmts, exprs⟩ position fun site => .block site statements)
  | .ifElse hasElse, ⟨stmts, exprs⟩ => do
    let (elseBranch, stmts) ← popIf hasElse stmts
    let (thenBranch, stmts) ← pop stmts
    let (condition, exprs) ← pop exprs
    some (Results.addStmt ⟨stmts, exprs⟩ position fun site =>
      .ifElse site condition thenBranch elseBranch)
  | .whileLoop, ⟨stmts, exprs⟩ => do
    let (body, stmts) ← pop stmts
    let (condition, exprs) ← pop exprs
    some (Results.addStmt ⟨stmts, exprs⟩ position fun site => .whileLoop site condition body)
  | .forLoop hasInit hasCondition hasUpdate, ⟨stmts, exprs⟩ => do
    let (body, stmts) ← pop stmts
    let (update, stmts) ← popIf hasUpdate stmts
    let (init, stmts) ← popIf hasInit stmts
    let (condition, exprs) ← popIf hasCondition exprs
    some (Results.addStmt ⟨stmts, exprs⟩ position fun site =>
      .forLoop site init condition update body)
  | .ret hasValue, ⟨stmts, exprs⟩ => do
    let (value, exprs) ← popIf hasValue exprs
    some (Results.addStmt ⟨stmts, exprs⟩ position fun site => .ret site value)
  | .evaluate, ⟨stmts, exprs⟩ => do
    let (expr, exprs) ← pop exprs
    some (Results.addStmt ⟨stmts, exprs⟩ position fun site => .evaluate site expr)
  | .assign, ⟨stmts, exprs⟩ => do
    let (value, exprs) ← pop exprs
    let (target, exprs) ← pop exprs
    some (Results.addStmt ⟨stmts, exprs⟩ position fun site => .assign site target value)
  | .print, ⟨stmts, exprs⟩ => do
    let (value, exprs) ← pop exprs
    some (Results.addStmt ⟨stmts, exprs⟩ position fun site => .print site value)
  | .binary operator, ⟨stmts, exprs⟩ => do
    let (right, exprs) ← pop exprs
    let (left, exprs) ← pop exprs
    some (Results.addExpr ⟨stmts, exprs⟩ position fun site => .binary site operator left right)
  | .unary operator, ⟨stmts, exprs⟩ => do
    let (operand, exprs) ← pop exprs
    some (Results.addExpr ⟨stmts, exprs⟩ position fun site => .unary site operator operand)
  | .call method count hasReceiver, ⟨stmts, exprs⟩ => do
    let (arguments, exprs) ← popMany count exprs
    let (receiver, exprs) ← popIf hasReceiver exprs
    some (Results.addExpr ⟨stmts, exprs⟩ position fun site => .call site receiver method arguments)
  | .fieldAccess field, ⟨stmts, exprs⟩ => do
    let (receiver, exprs) ← pop exprs
    some (Results.addExpr ⟨stmts, exprs⟩ position fun site => .fieldAccess site receiver field)
  | .step operator yieldsNew, ⟨stmts, exprs⟩ => do
    let (target, exprs) ← pop exprs
    some (Results.addExpr ⟨stmts, exprs⟩ position fun site => .step site operator yieldsNew target)

/-! ## Running -/

/-- Does one task: the result is what has to be done before anything else, and the nodes waiting
then. `method` is where the method starts. -/
def perform (method : Position) : Task → Results → Decode (List Task × Results)
  | .stmt (.object members) _, results => openStmt members results
  | .stmt found parent, _ => fail parent "Stmt" "kind" (.notANode found)
  | .expr (.object members) _, results => openExpr members results
  | .expr found parent, _ => fail parent "Expr" "kind" (.notANode found)
  | .finish pending position, results =>
    match finish position pending results with
    | some finished => do return ([], ← finished)
    | none => fail method "MethodDecl" "body" .childless

/-! ## Progress -/

mutual

/-- A measure for the work that a value makes: a node weighs more than any of its parts, the one
that finishes it included. No node takes more than four members apart. -/
def weight : Json → Nat
  | .object members => 2 + 4 * weightOfMembers members
  | .array elements => weightOfElements elements
  | .null | .boolean _ | .number _ | .string _ => 0
termination_by structural value => value

/-- The weight of the elements of an array. -/
def weightOfElements : List Json → Nat
  | [] => 0
  | value :: rest => weight value + weightOfElements rest
termination_by structural elements => elements

/-- The weight of the members of an object. -/
def weightOfMembers : List (String × Json) → Nat
  | [] => 0
  | (_, value) :: rest => weight value + weightOfMembers rest
termination_by structural members => members

end

/-- The weight of a task. -/
def Task.weight : Task → Nat
  | .stmt value _ => Lowering.weight value
  | .expr value _ => Lowering.weight value
  | .finish _ _ => 1

@[simp]
theorem Task.weight_finish (pending : Pending) (position : Position) :
    (Task.finish pending position).weight = 1 := rfl

/-- The weight of tasks. -/
def weightOfTasks : List Task → Nat
  | [] => 0
  | task :: rest => task.weight + weightOfTasks rest
termination_by structural tasks => tasks

@[simp]
theorem weightOfTasks_nil : weightOfTasks [] = 0 := rfl

@[simp]
theorem weightOfTasks_cons (task : Task) (rest : List Task) :
    weightOfTasks (task :: rest) = task.weight + weightOfTasks rest := rfl

@[simp]
theorem weightOfTasks_append (front back : List Task) :
    weightOfTasks (front ++ back) = weightOfTasks front + weightOfTasks back := by
  induction front with
  | nil => simp
  | cons task rest ih => simp [ih, Nat.add_assoc]

theorem weight_child? {name : String} {members : List (String × Json)} {value : Json}
    (isChild : child? name members = some value) : weight value ≤ weightOfMembers members := by
  induction members with
  | nil => cases isChild
  | cons member rest ih =>
    rcases member with ⟨otherName, other⟩
    have later (inRest : child? name rest = some value) :
        weight value ≤ weight other + weightOfMembers rest :=
      Nat.le_trans (ih inRest) (Nat.le_add_left _ _)
    rw [weightOfMembers]
    cases other with
    | null => exact later isChild
    | boolean | number | string | array | object =>
      rw [child?] at isChild
      · split at isChild
        · exact Option.some.inj isChild ▸ Nat.le_add_right _ _
        · exact later isChild
      · rintro ⟨⟩

theorem weight_children (name : String) (members : List (String × Json)) :
    weightOfElements (children name members) ≤ weightOfMembers members := by
  induction members with
  | nil => exact Nat.le_refl _
  | cons member rest ih =>
    rcases member with ⟨otherName, other⟩
    have later := Nat.le_trans ih (Nat.le_add_left (weightOfMembers rest) (weight other))
    rw [weightOfMembers]
    cases other with
    | array elements =>
      rw [children]
      split
      · exact Nat.le_add_right _ _
      · exact later
    | null | boolean | number | string | object => exact later

theorem weightOfTasks_map {make : Json → Task} (same : ∀ value, (make value).weight = weight value)
    (elements : List Json) : weightOfTasks (elements.map make) = weightOfElements elements := by
  induction elements with
  | nil => rfl
  | cons value rest ih =>
    rw [List.map_cons, weightOfTasks_cons, ih, same, weightOfElements]

/-- Whenever decoding succeeds, its result has a certain property. -/
def Yields {Value : Type} (decode : Decode Value) (post : Value → Prop) : Prop :=
  ∀ program value after, decode.run program = .ok (value, after) → post value

theorem yields_pure {Value : Type} {post : Value → Prop} {value : Value} (holds : post value) :
    Yields (pure value) post := by
  rintro program _ _ ⟨⟩
  exact holds

theorem yields_fail {Value : Type} {post : Value → Prop} {position : Position}
    {node member : String} {fault : MemberFault} :
    Yields (fail position node member fault) post := by
  rintro program _ _ ⟨⟩

theorem Yields.bind {Value Next : Type} {decode : Decode Value} {next : Value → Decode Next}
    {middle : Value → Prop} {post : Next → Prop} (first : Yields decode middle)
    (rest : ∀ value, middle value → Yields (next value) post) : Yields (decode >>= next) post := by
  intro program result after succeeded
  rw [StateT.run_bind] at succeeded
  cases firstEq : decode.run program with
  | error fault =>
    rw [firstEq] at succeeded
    cases succeeded
  | ok outcome =>
    rw [firstEq] at succeeded
    exact rest outcome.1 (first program outcome.1 outcome.2 firstEq) outcome.2
      result after succeeded

theorem yields_any {Value : Type} (decode : Decode Value) : Yields decode fun _ => True :=
  fun _ _ _ _ => trivial

theorem yields_required {Value : Type} {position : Position} {node member : String}
    {content : Option Value} :
    Yields (required position node member content) fun value => content = some value := by
  cases content with
  | none => exact yields_fail
  | some value => exact yields_pure rfl

section

variable {members : List (String × Json)} {name : String} {make : Json → Task}
  (same : ∀ value, (make value).weight = weight value)

include same

theorem weight_part {task : Task} (isPart : (child? name members).map make = some task) :
    task.weight ≤ weightOfMembers members := by
  rcases Option.map_eq_some_iff.mp isPart with ⟨value, isChild, rfl⟩
  exact same value ▸ weight_child? isChild

theorem weight_optional :
    weightOfTasks ((child? name members).map make).toList ≤ weightOfMembers members := by
  cases isPart : (child? name members).map make with
  | none => exact Nat.zero_le _
  | some task => exact weight_part same isPart

end

/-- A node without parts leaves nothing to do. -/
theorem yields_leaf (decode : Decode Results) (bound : Nat) :
    Yields (do return ([], ← decode)) fun opened : List Task × Results =>
      weightOfTasks opened.1 < 2 + bound :=
  (yields_any decode).bind fun _ _ =>
    yields_pure (Nat.lt_of_lt_of_le Nat.zero_lt_two (Nat.le_add_right _ _))

/-- Opening an expression leaves less to do. -/
theorem yields_openExpr (members : List (String × Json)) (results : Results) :
    Yields (openExpr members results) fun opened =>
      weightOfTasks opened.1 < 2 + 4 * weightOfMembers members := by
  refine (yields_any _).bind fun header _ => ?_
  have same (value : Json) : (Task.expr value header.2).weight = weight value := rfl
  dsimp only
  split
  · refine yields_required.bind fun left isLeft => yields_required.bind fun right isRight =>
      (yields_any _).bind fun _ _ => yields_pure ?_
    have leftLight := weight_part same isLeft
    have rightLight := weight_part same isRight
    simp
    omega
  · refine yields_required.bind fun operand isOperand => (yields_any _).bind fun _ _ =>
      yields_pure ?_
    have operandLight := weight_part same isOperand
    simp
    omega
  · exact (yields_any _).bind fun _ _ => yields_leaf _ _
  · exact yields_leaf _ _
  · exact yields_leaf _ _
  · exact yields_leaf _ _
  · exact yields_leaf _ _
  · refine (yields_any _).bind fun _ _ => yields_pure ?_
    have receiverLight := @weight_optional members "receiver" _ same
    have argumentsLight := weight_children "args" members
    simp [weightOfTasks_map same]
    omega
  · refine yields_required.bind fun receiver isReceiver => yields_pure ?_
    have receiverLight := weight_part same isReceiver
    simp
    omega
  · refine yields_required.bind fun target isTarget => (yields_any _).bind fun _ _ => yields_pure ?_
    have targetLight := weight_part same isTarget
    simp
    omega

/-- Opening a statement leaves less to do. -/
theorem yields_openStmt (members : List (String × Json)) (results : Results) :
    Yields (openStmt members results) fun opened =>
      weightOfTasks opened.1 < 2 + 4 * weightOfMembers members := by
  refine (yields_any _).bind fun header _ => ?_
  have sameExpr (value : Json) : (Task.expr value header.2).weight = weight value := rfl
  have sameStmt (value : Json) : (Task.stmt value header.2).weight = weight value := rfl
  dsimp only
  split
  · exact (yields_any _).bind fun _ _ => yields_leaf _ _
  · refine (yields_any _).bind fun _ _ => yields_pure ?_
    have light := weight_children "stmts" members
    simp [weightOfTasks_map sameStmt]
    omega
  · refine yields_required.bind fun condition isCondition =>
      yields_required.bind fun thenBranch isThen => yields_pure ?_
    have conditionLight := weight_part sameExpr isCondition
    have thenLight := weight_part sameStmt isThen
    have elseLight := @weight_optional members "else" _ sameStmt
    simp
    omega
  · refine yields_required.bind fun condition isCondition => yields_required.bind fun body isBody =>
      yields_pure ?_
    have conditionLight := weight_part sameExpr isCondition
    have bodyLight := weight_part sameStmt isBody
    simp
    omega
  · refine yields_required.bind fun body isBody => yields_pure ?_
    have initLight := @weight_optional members "init" _ sameStmt
    have conditionLight := @weight_optional members "cond" _ sameExpr
    have updateLight := @weight_optional members "update" _ sameStmt
    have bodyLight := weight_part sameStmt isBody
    simp
    omega
  · refine yields_pure ?_
    have light := @weight_optional members "value" _ sameExpr
    simp
    omega
  · refine yields_required.bind fun value isValue => yields_pure ?_
    have light := weight_part sameExpr isValue
    simp
    omega
  · refine yields_required.bind fun target isTarget => yields_required.bind fun value isValue =>
      yields_pure ?_
    have targetLight := weight_part sameExpr isTarget
    have valueLight := weight_part sameExpr isValue
    simp
    omega
  · refine yields_required.bind fun value isValue => yields_pure ?_
    have light := weight_part sameExpr isValue
    simp
    omega
  · exact yields_leaf _ _
  · exact yields_leaf _ _
  · exact yields_leaf _ _
  · exact yields_leaf _ _

/-- A task that is done leaves less to do. -/
theorem yields_perform (method : Position) (task : Task) (results : Results) :
    Yields (perform method task results) fun opened => weightOfTasks opened.1 < task.weight := by
  cases task with
  | stmt value parent =>
    cases value with
    | object members => exact yields_openStmt members results
    | null | boolean | number | string | array => exact yields_fail
  | expr value parent =>
    cases value with
    | object members => exact yields_openExpr members results
    | null | boolean | number | string | array => exact yields_fail
  | finish pending position =>
    rw [perform]
    split
    · exact (yields_any _).bind fun _ _ => yields_pure Nat.zero_lt_one
    · exact yields_fail

/-- Does all tasks. -/
def run (method : Position) (tasks : List Task) (results : Results) :
    Decode Results := fun program =>
  match tasks with
  | [] => .ok (results, program)
  | task :: rest =>
    match _performed : (perform method task results).run program with
    | .ok ((opened, results), program) => run method (opened ++ rest) results program
    | .error fault => .error fault
termination_by weightOfTasks tasks
decreasing_by
  rw [weightOfTasks_append, weightOfTasks_cons]
  exact Nat.add_lt_add_right (yields_perform method task _ _ _ _ _performed) _

/-- Lowers the body of a method that starts at a given position. -/
def lower (method : Position) (body : Json) : Decode Stmt := do
  let results ← run method [.stmt body method] {}
  match results.stmts with
  | stmt :: _ => return stmt
  | [] => fail method "MethodDecl" "body" .childless

end Lowering

end Decaf
