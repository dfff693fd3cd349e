import Decaf.Code
import Decaf.Proofs.Code.Statements
import Decaf.Proofs.Renaming.Registries

/-!
# Code of a renamed method

Generating the code of a method, what is asked about a variable is where it is and whether it holds
a double, never its name. So a method and the renamed one have the same code, instruction for
instruction.
-/

namespace Decaf

namespace Registry.SameMembers

variable {registry other : Registry} (same : registry.SameMembers other)

include same

theorem fieldEntry?_eq (id : FieldId) : other.fieldEntry? id = registry.fieldEntry? id := by
  rw [ fieldEntry?, fieldEntry?, same.fields_eq]

theorem methodLabel_eq (id : MethodId) : other.methodLabel id = registry.methodLabel id := by
  simp only [methodLabel, same.methodEntry?_eq, same.className_eq]

theorem objectInit_eq (layout : Layout) (owner : ClassId) (object scratch : Register) :
    layout.objectInit other owner object scratch =
      layout.objectInit registry owner object scratch := by
  have sameDouble : other.isDoubleField = registry.isDoubleField := by
    funext id
    rw [isDoubleField, isDoubleField, same.fieldEntry?_eq]
  simp only [Layout.objectInit, Layout.clearFields, Layout.storeFields, sameDouble,
    same.fieldEntry?_eq, same.className_eq]

end Registry.SameMembers

namespace Generating

variable {context : MethodContext} {otherRegistry : Registry}
  (same : context.registry.SameButNames otherRegistry)

include same

variable {around : List StorageBlock}

/-! ## Variables and fields -/

theorem receiverSlot_of_same (position : Position) :
    receiverSlot { context with registry := otherRegistry } position =
      receiverSlot context position := by
  simp only [receiverSlot, same.methodPath_eq]

theorem variableSlot_of_same (position : Position) (id : VariableId) :
    variableSlot { context with registry := otherRegistry } position id =
      variableSlot context position id := by
  have sameSlot := congrArg (·.bind context.frame.slot?) (same.variableEntry?_eq id)
  simp only [Option.bind_map] at sameSlot
  exact congrArg (orFail · position "variable without a frame slot") sameSlot

theorem namedField_of_same (site : Site ExprId) :
    namedField { context with registry := otherRegistry } site = namedField context site := by
  have sameEntry : otherRegistry.fieldEntry? = context.registry.fieldEntry? :=
    funext same.fieldEntry?_eq
  simp only [namedField, sameEntry]

theorem readOwnField_of_same (position : Position) (field : FieldEntry) :
    readOwnField { context with registry := otherRegistry } position field =
      readOwnField context position field := by
  simp only [readOwnField, receiverSlot_of_same same]
  rfl

theorem readIdentifier_of_same (site : Site ExprId) :
    readIdentifier { context with registry := otherRegistry } site =
      readIdentifier context site := by
  simp only [readIdentifier, variableSlot_of_same same, same.fieldEntry?_eq,
    readOwnField_of_same same]

theorem newObject_of_same (site : Site ExprId) :
    newObject { context with registry := otherRegistry } site = newObject context site := by
  simp only [newObject, same.objectInit_eq]

theorem ownFieldPlace_of_same (position : Position) (field : FieldEntry) :
    ownFieldPlace { context with registry := otherRegistry } position field =
      ownFieldPlace context position field := by
  simp only [ownFieldPlace, receiverSlot_of_same same]
  rfl

variable {change : String → String}

omit same in
theorem needsObject_withNames (field : FieldEntry) (receiver : Expr) :
    needsObject field (receiver.withNames change) = needsObject field receiver := by
  rw [needsObject, needsObject, Expr.isSuper_withNames]

theorem place_withNames (position : Position) (target : Expr) (object : Option Temporary) :
    place { context with registry := otherRegistry } position (target.withNames change) object =
      place context position target object := by
  cases target with
  | identifier site name =>
    simp only [Expr.withNames, place, variableSlot_of_same same, ownFieldPlace_of_same same,
      namedField_of_same same]
  | fieldAccess site receiver field =>
    simp only [Expr.withNames, place, ownFieldPlace_of_same same, namedField_of_same same,
      needsObject_withNames]
    rfl
  | call site receiver method arguments => cases receiver <;> rfl
  | literal | this | super | new | unary | binary | step => rfl

/-! ## Calls -/

theorem generateCall_of_same (position : Position) (target : CallTarget)
    (receiver : Option (Option Temporary)) (arguments : List (Option Temporary)) :
    generateCall { context with registry := otherRegistry } position target receiver arguments =
      generateCall context position target receiver arguments := by
  simp only [generateCall, pushThis, callThroughThis, finishCall, receiverSlot_of_same same,
    same.methodLabel_eq, same.methodEntry?_eq]

/-! ## Expressions -/

omit same in
theorem generateExprs_withNames {exprs : List Expr}
    (each : ∀ expr ∈ exprs, generateExpr { context with registry := otherRegistry }
      (expr.withNames change) = generateExpr context expr) :
    generateExprs { context with registry := otherRegistry } (Expr.withNamesAll change exprs) =
      generateExprs context exprs := by
  induction exprs with
  | nil => rfl
  | cons expr exprs ih =>
    rw [Expr.withNamesAll, generateExprs, generateExprs, each expr List.mem_cons_self,
      ih fun later isLater => each later (List.mem_cons_of_mem _ isLater)]

/-- An expression has the same code under other names, and so has the object that it needs as a
target. -/
theorem generateExpr_withNames (expr : Expr) :
    generateExpr { context with registry := otherRegistry } (expr.withNames change) =
      generateExpr context expr ∧
      generateTarget { context with registry := otherRegistry } (expr.withNames change) =
        generateTarget context expr := by
  have sameDouble (expr : Expr) :
      MethodContext.isDouble { context with registry := otherRegistry } (expr.withNames change) =
        context.isDouble expr := by
    simp only [MethodContext.isDouble, Expr.id_withNames]
  induction expr with
  | literal | super =>
    constructor
    · rw [Expr.withNames, generateExpr, generateExpr]
    · rw [Expr.withNames, generateTarget, generateTarget]
  | identifier site name =>
    refine ⟨?_, by rw [Expr.withNames, generateTarget, generateTarget]⟩
    rw [Expr.withNames, generateExpr, generateExpr, readIdentifier_of_same same]
  | this site =>
    refine ⟨?_, by rw [Expr.withNames, generateTarget, generateTarget]⟩
    rw [Expr.withNames, generateExpr, generateExpr, readThis, readThis, receiverSlot_of_same same]
  | new site className =>
    refine ⟨?_, by rw [Expr.withNames, generateTarget, generateTarget]⟩
    rw [Expr.withNames, generateExpr, generateExpr, newObject_of_same same]
  | unary site operator operand ih =>
    refine ⟨?_, by rw [Expr.withNames, generateTarget, generateTarget]⟩
    rw [Expr.withNames, generateExpr, generateExpr, ih.1, sameDouble]
  | binary site operator left right leftIh rightIh =>
    refine ⟨?_, by rw [Expr.withNames, generateTarget, generateTarget]⟩
    rw [Expr.withNames, generateExpr, generateExpr, leftIh.1, rightIh.1, sameDouble]
  | call site receiver method arguments receiverIh argumentsIh =>
    have sameArguments := generateExprs_withNames fun argument isArgument =>
      (argumentsIh argument isArgument).1
    have sameCall (target : CallTarget) (object : Option (Option Temporary))
        (values : List (Option Temporary)) :=
      generateCall_of_same same site.position target object values
    have sameTarget : callTarget { context with registry := otherRegistry } site =
      callTarget context site := rfl
    cases receiver with
    | none =>
      refine ⟨?_, by rw [Expr.withNames, generateTarget, generateTarget]⟩
      rw [Expr.withNames, generateExpr, generateExpr, sameTarget, sameArguments]
      simp only [sameCall]
    | some receiver =>
      refine ⟨?_, by rw [Expr.withNames, generateTarget, generateTarget]⟩
      rw [Expr.withNames, generateExpr, generateExpr, sameTarget, sameArguments,
        (receiverIh receiver rfl).1]
      simp only [sameCall]
  | fieldAccess site receiver field ih =>
    have sameObjectField (entry : FieldEntry) (object : Option Temporary) :
        readObjectField { context with registry := otherRegistry } site.position entry object =
          readObjectField context site.position entry object := rfl
    constructor
    · rw [Expr.withNames, generateExpr, generateExpr, namedField_of_same same, ih.1]
      simp only [needsObject_withNames, readOwnField_of_same same, sameObjectField]
    · rw [Expr.withNames, generateTarget, generateTarget, namedField_of_same same, ih.1]
      simp only [needsObject_withNames]
  | step site operator yieldsNew target ih =>
    refine ⟨?_, by rw [Expr.withNames, generateTarget, generateTarget]⟩
    rw [Expr.withNames, generateExpr, generateExpr, ih.2]
    simp only [place_withNames same]

theorem generateValue_withNames (expr : Expr) :
    generateValue { context with registry := otherRegistry } (expr.withNames change) =
      generateValue context expr := by
  rw [generateValue, generateValue, (generateExpr_withNames same expr).1, Expr.position_withNames]

/-! ## Statements -/

theorem branchUnless_withNames (condition : Expr) (label : String) :
    branchUnless { context with registry := otherRegistry } (condition.withNames change) label =
      branchUnless context condition label := by
  simp only [branchUnless, generateValue_withNames same, Expr.position_withNames]

theorem generateReturn_withNames (position : Position) (value : Option Expr) :
    generateReturn { context with registry := otherRegistry } position
      (value.map (Expr.withNames change)) = generateReturn context position value := by
  cases value with
  | none => rfl
  | some value => simp only [generateReturn, Option.map_some, generateValue_withNames same]

theorem generateEvaluate_withNames (expr : Expr) :
    generateEvaluate { context with registry := otherRegistry } (expr.withNames change) =
      generateEvaluate context expr := by
  rw [generateEvaluate, generateEvaluate, (generateExpr_withNames same expr).1]

theorem generateAssign_withNames (position : Position) (target value : Expr) :
    generateAssign { context with registry := otherRegistry } position (target.withNames change)
      (value.withNames change) = generateAssign context position target value := by
  have sameReceiver : generateReceiver { context with registry := otherRegistry }
      (target.withNames change) = generateReceiver context target := by
    cases target with
    | fieldAccess site receiver field =>
      simp only [Expr.withNames, generateReceiver, namedField_of_same same, needsObject_withNames,
        generateValue_withNames same]
    | call site receiver method arguments => cases receiver <;> rfl
    | literal | identifier | this | super | new | unary | binary | step => rfl
  simp only [generateAssign, sameReceiver, generateValue_withNames same, place_withNames same]

theorem clearVariable_of_same (position : Position) (id : VariableId) :
    clearVariable { context with registry := otherRegistry } position id =
      clearVariable context position id := by
  have sameDouble := congrArg (Option.any fun entry => entry.type = .double)
    (same.variableEntry?_eq id)
  rw [Option.any_map, Option.any_map] at sameDouble
  change ((otherRegistry.variableEntry? id).any fun entry => entry.type = .double) =
    ((context.registry.variableEntry? id).any fun entry => entry.type = .double) at sameDouble
  rw [clearVariable, clearVariable, variableSlot_of_same same, sameDouble]

theorem generatePrint_withNames (position : Position) (value : Expr) :
    generatePrint { context with registry := otherRegistry } position (value.withNames change) =
      generatePrint context position value := by
  simp only [generatePrint, printKind?, Expr.id_withNames, generateValue_withNames same]

variable {names : Storage → String}

omit same in
theorem generateStmts_renamed {statements : List Stmt}
    (each : ∀ stmt ∈ statements, ∀ around walk,
      generateStmt { context with registry := otherRegistry } (stmt.renamed names around walk) =
        generateStmt context stmt) (walk : LocalWalk) :
    generateStmts { context with registry := otherRegistry }
      (Stmt.renamedAll names around statements walk) = generateStmts context statements := by
  induction statements generalizing walk with
  | nil => rfl
  | cons stmt rest ih =>
    rw [Stmt.renamedAll, generateStmts, generateStmts, each stmt List.mem_cons_self,
      ih fun later isLater => each later (List.mem_cons_of_mem _ isLater)]

omit same in
theorem generateOption_renamed {part : Option Stmt}
    (each : ∀ stmt ∈ part, ∀ around walk,
      generateStmt { context with registry := otherRegistry } (stmt.renamed names around walk) =
        generateStmt context stmt) (walk : LocalWalk) :
    (Stmt.renamedOption names around part walk).elim (pure ())
      (generateStmt { context with registry := otherRegistry }) =
        part.elim (pure ()) (generateStmt context) := by
  cases part with
  | none => rw [Stmt.renamedOption, Option.map_none, Option.elim_none, Option.elim_none]
  | some stmt =>
    rw [Stmt.renamedOption, Option.map_some, Option.elim_some, Option.elim_some]
    exact each stmt rfl around walk

/-- A renamed statement has the code of the statement. -/
theorem generateStmt_renamed (stmt : Stmt) (around : List StorageBlock) (walk : LocalWalk) :
    generateStmt { context with registry := otherRegistry } (stmt.renamed names around walk) =
      generateStmt context stmt := by
  induction stmt generalizing around walk with
  | block site statements ih =>
    exact congrArg (settle site.position (return ()) >>= fun _ => ·)
      (generateStmts_renamed ih walk.enter)
  | ifElse site condition thenBranch elseBranch thenIh elseIh =>
    cases elseBranch with
    | none =>
      rw [Stmt.renamed, generateStmt_ifThen, generateStmt_ifThen, thenIh]
      simp only [branchUnless_withNames same]
    | some elseBranch =>
      rw [Stmt.renamed, generateStmt_ifElse, generateStmt_ifElse, thenIh, elseIh elseBranch rfl]
      simp only [branchUnless_withNames same]
  | whileLoop site condition body ih =>
    rw [Stmt.renamed, generateStmt_whileLoop, generateStmt_whileLoop, ih]
    simp only [branchUnless_withNames same]
  | forLoop site init condition update body initIh updateIh bodyIh =>
    simp only [Stmt.renamed_forLoop]
    rw [generateStmt_forLoop, generateStmt_forLoop, generateOption_renamed initIh,
      generateOption_renamed updateIh, bodyIh]
    cases condition with
    | none => simp only [Option.map_none, Option.elim_none]
    | some condition => simp only [Option.map_some, Option.elim_some, branchUnless_withNames same]
  | ret site value =>
    exact congrArg (settle site.position) (generateReturn_withNames same site.position value)
  | evaluate site expr =>
    exact congrArg (settle site.position) (generateEvaluate_withNames same expr)
  | assign site target value =>
    exact congrArg (settle site.position) (generateAssign_withNames same site.position target value)
  | declare site declared =>
    exact congrArg (fun clear =>
      settle site.position ((context.bindings.declarationsOf site.id).forM clear))
        (funext (clearVariable_of_same same site.position))
  | print site value =>
    exact congrArg (settle site.position) (generatePrint_withNames same site.position value)
  | breakLoop | continueLoop | skip => rfl

theorem generateStmt_renamedBody (body : Stmt) (walk : LocalWalk) :
    generateStmt { context with registry := otherRegistry } (body.renamedBody names walk) =
      generateStmt context body := by
  cases body with
  | block site statements =>
    exact congrArg (settle site.position (return ()) >>= fun _ => ·)
      (generateStmts_renamed (fun stmt _ => generateStmt_renamed same stmt) walk)
  | ifElse | whileLoop | forLoop | ret | evaluate | assign | declare | print | breakLoop
  | continueLoop | skip =>
    exact generateStmt_renamed same _ [] walk

end Generating

/-- A renamed method has the code of the method. -/
theorem MethodContext.generate_renamed {context : MethodContext} {otherRegistry : Registry}
    (same : context.registry.SameButNames otherRegistry) (registerCount nextLabel : Nat)
    (body : Stmt) (names : Storage → String) (walk : LocalWalk) :
    MethodContext.generate { context with registry := otherRegistry } registerCount nextLabel
      (body.renamedBody names walk) = context.generate registerCount nextLabel body := by
  have sameBody : Generating.generateBody { context with registry := otherRegistry }
      (body.renamedBody names walk) = Generating.generateBody context body := by
    rw [Generating.generateBody, Generating.generateBody, Generating.generateStmt_renamedBody same]
  simp only [generate, sameBody, assemble, same.methodLabel_eq]
  rfl

end Decaf
