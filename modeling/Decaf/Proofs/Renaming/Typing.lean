import Decaf.Proofs.Renaming.Registries
import Decaf.Proofs.Typing.Targets

/-!
# Types in a renamed program

The check of a renamed method body goes the way of the check of the body: what it asks about a
variable is the type, and that is found under the variable's number. Only the words of some
complaints differ. So where the body has no complaints, neither has the renamed one, and the types
on record are the same.
-/

namespace Decaf

namespace Checking

variable {Result Next : Type}

/-- Where a check adds no complaint, another one does the same. -/
structure Repeats (check other : Checking Result) : Prop where
  grows : ∀ before, before.diagnostics <+: (check.run before).2.diagnostics
  same : ∀ before, (check.run before).2.diagnostics = before.diagnostics →
    other.run before = check.run before

namespace Repeats

/-- A check that never takes a complaint back repeats itself. -/
theorem of_eq {check other : Checking Result}
    (notes : Notes (fun _ _ => True) (fun _ _ => True) check) (eq : other = check) :
    Repeats check other :=
  ⟨fun before => (notes before).1, fun _ _ => by rw [eq]⟩

theorem pure (result : Result) : Repeats (Pure.pure result) (Pure.pure result) :=
  .of_eq (.pure result) rfl

theorem bind {check other : Checking Result} {next otherNext : Result → Checking Next}
    (first : Repeats check other) (later : ∀ result, Repeats (next result) (otherNext result)) :
    Repeats (check >>= next) (other >>= otherNext) where
  grows before :=
    (first.grows before).trans ((later (check.run before).1).grows (check.run before).2)
  same before silent := by
    have firstGrows := first.grows before
    have laterGrows := (later (check.run before).1).grows (check.run before).2
    change ((next (check.run before).1).run (check.run before).2).2.diagnostics =
      before.diagnostics at silent
    have firstSilent : (check.run before).2.diagnostics = before.diagnostics :=
      (firstGrows.eq_of_length_le
        (Nat.le_trans laterGrows.length_le (Nat.le_of_eq (congrArg List.length silent)))).symm
    change (otherNext (other.run before).1).run (other.run before).2 =
      (next (check.run before).1).run (check.run before).2
    rw [first.same before firstSilent]
    exact (later (check.run before).1).same (check.run before).2 (silent.trans firstSilent.symm)

/-- After a complaint nothing is promised. -/
theorem report_bind {position : Position} {cause : Cause} {next : Unit → Checking Result}
    (grows : ∀ before, before.diagnostics <+: ((next ()).run before).2.diagnostics)
    (other : Checking Result) : Repeats (report position cause >>= next) other where
  grows before := (List.prefix_append _ _).trans
    (grows { before with diagnostics := before.diagnostics ++ [⟨position, cause⟩] })
  same before silent := by
    have laterGrows :=
      grows { before with diagnostics := before.diagnostics ++ [⟨position, cause⟩] }
    have tooLong := Nat.le_trans laterGrows.length_le (Nat.le_of_eq (congrArg List.length silent))
    rw [List.length_append] at tooLong
    exact absurd tooLong (Nat.not_succ_le_self _)

theorem report (position : Position) (cause : Cause) (other : Checking Unit) :
    Repeats (Checking.report position cause) other :=
  @report_bind _ _ _ (fun _ => Pure.pure ()) (fun _ => List.prefix_rfl) other

theorem reject (position : Position) (cause : Cause) (other : Checking (Option Result)) :
    Repeats (Checking.reject position cause) other :=
  report_bind (fun _ => List.prefix_rfl) other

theorem conclude {site : Site ExprId} {check other : Checking (Option Meaning)}
    (repeats : Repeats check other) :
    Repeats (Checking.conclude site check) (Checking.conclude site other) :=
  repeats.bind fun meaning => (of_eq (notes_recordMeaning site.id meaning) rfl).bind fun _ =>
    .pure meaning

end Repeats

end Checking

/-- The settings of a method and of the renamed one. -/
structure Setting.Beside (setting other : Setting) : Prop where
  registries : setting.registry.SameButNames other.registry
  wellFormed : setting.registry.WellFormed
  otherWellFormed : other.registry.WellFormed
  bindings_eq : other.bindings = setting.bindings
  method_eq : other.method = setting.method

namespace Setting.Beside

variable {setting other : Setting} (beside : setting.Beside other)

include beside

theorem methodPath_eq : other.methodPath = setting.methodPath := by
  rw [methodPath, methodPath, beside.registries.methodPath_eq, beside.method_eq]

/-! ## Members -/

theorem privacyFault?_eq (role name : String) (owner : ClassId) (visibility : Visibility) :
    other.privacyFault? role name owner visibility =
      setting.privacyFault? role name owner visibility := by
  simp only [privacyFault?, beside.method_eq, beside.registries.className_eq]

theorem reached_eq (receiver : Option Meaning) (member : String) :
    other.reached receiver member = setting.reached receiver member := by
  simp only [reached, beside.method_eq, beside.registries.typeName_eq]

theorem methodIn_eq (owner : ClassId) (name : String) :
    other.methodIn owner name = setting.methodIn owner name := by
  have sameEntry : other.registry.methodEntry? = setting.registry.methodEntry? :=
    funext beside.registries.methodEntry?_eq
  simp only [methodIn, sameEntry, beside.registries.className_eq,
    beside.registries.findMethod?_eq beside.wellFormed beside.otherWellFormed]

theorem fieldIn_eq (owner : ClassId) (name : String) :
    other.fieldIn owner name = setting.fieldIn owner name := by
  have sameEntry : other.registry.fieldEntry? = setting.registry.fieldEntry? := by
    funext id
    rw [Registry.fieldEntry?, Registry.fieldEntry?, beside.registries.fields_eq]
  simp only [fieldIn, sameEntry, beside.registries.className_eq,
    beside.registries.findField?_eq beside.wellFormed beside.otherWellFormed]

theorem methodFault?_eq (reach : Reach) (owner : ClassId) (method : MethodEntry) :
    reach.methodFault? other owner method = reach.methodFault? setting owner method := by
  simp only [Reach.methodFault?, beside.registries.methodPath_eq, beside.registries.className_eq,
    beside.method_eq, beside.methodPath_eq]

theorem fieldFault?_eq (reach : Reach) (owner : ClassId) (field : FieldEntry) :
    reach.fieldFault? other owner field = reach.fieldFault? setting owner field := by
  simp only [Reach.fieldFault?, beside.registries.className_eq]

end Setting.Beside

namespace Checking

variable {setting other : Setting} (beside : setting.Beside other) {change : String → String}

include beside

variable {inLoop : Bool} {around : List StorageBlock}

/-! ## Values and operators -/

theorem asValue_withNames (expr : Expr) (meaning : Option Meaning) :
    asValue other (expr.withNames change) meaning = asValue setting expr meaning := by
  simp only [asValue, Expr.position_withNames, beside.registries.className_eq]

theorem asValues_withNames (exprs : List Expr) (meanings : List (Option Meaning)) :
    asValues other ((Expr.withNamesAll change exprs).zip meanings) =
      asValues setting (exprs.zip meanings) := by
  induction exprs generalizing meanings with
  | nil => rfl
  | cons expr exprs ih =>
    cases meanings with
    | nil => rfl
    | cons meaning meanings =>
      simp only [Expr.withNamesAll, List.zip_cons_cons, asValues, asValue_withNames beside, ih]

theorem isAssignable_withNames (expr : Expr) :
    isAssignable other (expr.withNames change) = isAssignable setting expr := by
  cases expr with
  | call site receiver method arguments => cases receiver <;> rfl
  | identifier site name => simp only [Expr.withNames, isAssignable, beside.bindings_eq]
  | literal | this | super | new | fieldAccess | unary | binary | step => rfl

theorem checkUnary_of_beside (position : Position) (operator : UnaryOperator)
    (operand : Option DataType) :
    checkUnary other position operator operand = checkUnary setting position operator operand := by
  simp only [checkUnary, beside.registries.typeName_eq]

theorem checkBinary_of_beside (position : Position) (operator : BinaryOperator)
    (left right : Option DataType) :
    checkBinary other position operator left right =
      checkBinary setting position operator left right := by
  have sameResult (left right : DataType) :
      operator.resultType? other.registry left right =
        operator.resultType? setting.registry left right := by
    have sameComparison : other.registry.areComparable left right =
        setting.registry.areComparable left right := by
      simp only [Registry.areComparable, Registry.areRelated, beside.registries.isAssignable_eq]
    rw [BinaryOperator.resultType?, BinaryOperator.resultType?, sameComparison]
  simp only [checkBinary, sameResult, beside.registries.typeName_eq]

theorem checkStep_withNames (position : Position) (operator : StepOperator) (target : Expr)
    (meaning : Option Meaning) :
    checkStep other position operator (target.withNames change) meaning =
      checkStep setting position operator target meaning := by
  simp only [checkStep, isAssignable_withNames beside, asValue_withNames beside,
    beside.registries.typeName_eq, Expr.position_withNames]

/-! ## Members -/

theorem checkArguments_withNames (path : String) (number : Nat) (exprs : List Expr)
    (found : List (Option DataType)) (types : List DataType) :
    checkArguments other path number ((Expr.withNamesAll change exprs).zip found) types =
      checkArguments setting path number (exprs.zip found) types := by
  induction exprs generalizing number found types with
  | nil => simp only [Expr.withNamesAll, List.zip_nil_left, checkArguments]
  | cons expr exprs ih =>
    cases found with
    | nil => simp only [List.zip_nil_right, checkArguments]
    | cons type found =>
      cases types with
      | nil => cases type <;> rfl
      | cons expected types =>
        cases type <;> simp only [Expr.withNamesAll, List.zip_cons_cons, checkArguments, ih,
          beside.registries.isAssignable_eq, beside.registries.typeName_eq, Expr.position_withNames]

theorem checkCall_withNames (site : Site ExprId) (receiver : Option Meaning) (name : String)
    (exprs : List Expr) (types : List (Option DataType)) :
    checkCall other site receiver name ((Expr.withNamesAll change exprs).zip types) =
      checkCall setting site receiver name (exprs.zip types) := by
  have sameLength : ((Expr.withNamesAll change exprs).zip types).length =
      (exprs.zip types).length := by
    simp [Expr.withNamesAll_eq]
  simp only [checkCall, checkCallOf, beside.reached_eq, beside.methodIn_eq, beside.methodFault?_eq,
    beside.privacyFault?_eq, beside.registries.methodPath_eq, checkArguments_withNames beside,
    sameLength]

theorem checkFieldAccess_of_beside (site : Site ExprId) (receiver : Option Meaning)
    (name : String) :
    checkFieldAccess other site receiver name = checkFieldAccess setting site receiver name := by
  simp only [checkFieldAccess, checkAccessTo, beside.reached_eq, beside.fieldIn_eq,
    beside.fieldFault?_eq, beside.privacyFault?_eq]

/-! ## Expressions -/

theorem repeats_checkBareField (site : Site ExprId) (name otherName : String) (field : FieldEntry) :
    Repeats (checkBareField setting site name field)
      (checkBareField other site otherName field) := by
  let naming : Checking (Option Meaning) := do
    recordField site.id field.id
    return some (.value field.type)
  have recorded : Repeats naming naming :=
    (Repeats.of_eq (notes_recordField trivial) rfl).bind fun _ => .pure _
  rw [checkBareField, checkBareField, beside.method_eq]
  split
  · exact .reject _ _ _
  · have faults : (setting.privacyFault? "field" name field.owner field.visibility).isNone =
        (other.privacyFault? "field" otherName field.owner field.visibility).isNone := by
      simp only [Setting.privacyFault?, beside.method_eq]
      split <;> rfl
    cases faultEq : setting.privacyFault? "field" name field.owner field.visibility with
    | some fault => exact .report_bind recorded.grows _
    | none =>
      rw [faultEq] at faults
      rw [Option.isNone_iff_eq_none.mp faults.symm]
      exact (Repeats.pure ()).bind fun _ => recorded

theorem repeats_checkIdentifier (site : Site ExprId) (name otherName : String) :
    Repeats (checkIdentifier setting site name) (checkIdentifier other site otherName) := by
  have sameField (id : FieldId) : other.registry.fieldEntry? id =
      setting.registry.fieldEntry? id := by
    rw [Registry.fieldEntry?, Registry.fieldEntry?, beside.registries.fields_eq]
  have sameType (id : VariableId) : (other.registry.variableEntry? id).map VariableEntry.type =
      (setting.registry.variableEntry? id).map VariableEntry.type := by
    have nameless :=
      congrArg (Option.map VariableEntry.type) (beside.registries.variableEntry?_eq id)
    rwa [Option.map_map, Option.map_map] at nameless
  rw [checkIdentifier, checkIdentifier, beside.bindings_eq]
  cases setting.bindings.symbol? site.id with
  | none => exact .pure none
  | some symbol =>
    cases symbol with
    | ofVariable id =>
      apply Repeats.of_eq (.pure _)
      have sameMeaning := congrArg (Option.map Meaning.value) (sameType id)
      rw [Option.map_map, Option.map_map] at sameMeaning
      exact congrArg Pure.pure sameMeaning
    | ofField id =>
      dsimp only
      rw [sameField]
      cases setting.registry.fieldEntry? id with
      | none => exact .pure none
      | some field => exact repeats_checkBareField beside site name otherName field
    | ofMethod id => exact .reject _ _ _
    | ofClass id => exact .pure _

omit beside in
theorem repeats_checkExprs {exprs : List Expr}
    (each : ∀ expr ∈ exprs,
      Repeats (checkExpr setting expr) (checkExpr other (expr.withNames change))) :
    Repeats (checkExprs setting exprs) (checkExprs other (Expr.withNamesAll change exprs)) := by
  induction exprs with
  | nil => exact .pure []
  | cons expr exprs ih =>
    apply Repeats.bind (each expr List.mem_cons_self)
    intro meaning
    apply Repeats.bind (ih fun later isLater => each later (List.mem_cons_of_mem _ isLater))
    exact fun meanings => .pure _

/-- The check of a renamed expression repeats that of the expression. -/
theorem repeats_checkExpr (expr : Expr) :
    Repeats (checkExpr setting expr) (checkExpr other (expr.withNames change)) := by
  have values (expr : Expr) (meaning : Option Meaning) :
      Repeats (asValue setting expr meaning) (asValue other (expr.withNames change) meaning) :=
    .of_eq (notes_asValue _ _) (asValue_withNames beside expr meaning)
  have arguments (exprs : List Expr) (meanings : List (Option Meaning)) :
      Repeats (asValues setting (exprs.zip meanings))
        (asValues other ((Expr.withNamesAll change exprs).zip meanings)) :=
    .of_eq (notes_asValues _) (asValues_withNames beside exprs meanings)
  have calls (site : Site ExprId) (receiver : Option Meaning) (name : String) (exprs : List Expr)
      (types : List (Option DataType)) :
      Repeats (checkCall setting site receiver name (exprs.zip types))
        (checkCall other site receiver name ((Expr.withNamesAll change exprs).zip types)) :=
    .of_eq (notes_checkCall fun _ _ _ _ _ _ _ _ _ _ _ => trivial)
      (checkCall_withNames beside site receiver name exprs types)
  induction expr with
  | literal site value => exact .conclude (.pure _)
  | identifier site name => exact .conclude (repeats_checkIdentifier beside site name (change name))
  | this site =>
    apply Repeats.conclude
    rw [beside.method_eq]
    exact .pure _
  | super site =>
    apply Repeats.conclude
    rw [beside.method_eq, beside.registries.parent?_eq]
    exact .pure _
  | new site className =>
    apply Repeats.conclude
    have sameMeaning : newMeaning other site.id = newMeaning setting site.id := by
      simp only [newMeaning, beside.bindings_eq]
    rw [sameMeaning]
    exact .pure _
  | unary site operator operand ih =>
    apply ih.bind
    intro meaning
    apply Repeats.conclude
    apply (values operand meaning).bind
    exact fun type => .of_eq (notes_checkUnary _ _ _) (checkUnary_of_beside beside _ _ _)
  | binary site operator left right leftIh rightIh =>
    apply leftIh.bind
    intro leftMeaning
    apply rightIh.bind
    intro rightMeaning
    apply Repeats.conclude
    apply (values left leftMeaning).bind
    intro leftType
    apply (values right rightMeaning).bind
    exact fun rightType => .of_eq (notes_checkBinary _ _ _ _) (checkBinary_of_beside beside _ _ _ _)
  | call site receiver name exprs receiverIh exprsIh =>
    cases receiver with
    | none =>
      apply (repeats_checkExprs exprsIh).bind
      intro meanings
      apply Repeats.conclude
      apply (arguments exprs meanings).bind
      exact fun types => calls site none name exprs types
    | some receiver =>
      apply (receiverIh receiver rfl).bind
      intro receiverMeaning
      apply (repeats_checkExprs exprsIh).bind
      intro meanings
      apply Repeats.conclude
      apply (arguments exprs meanings).bind
      intro types
      cases receiverMeaning with
      | none => exact .pure none
      | some meaning => exact calls site (some meaning) name exprs types
  | fieldAccess site receiver name ih =>
    apply ih.bind
    intro meaning
    apply Repeats.conclude
    exact .of_eq (notes_checkFieldAccess name fun _ _ _ _ _ _ _ _ _ => trivial)
      (checkFieldAccess_of_beside beside site meaning name)
  | step site operator yieldsNew target ih =>
    apply ih.bind
    intro meaning
    apply Repeats.conclude
    exact .of_eq (notes_checkStep _ _ _ _) (checkStep_withNames beside _ _ _ _)

theorem repeats_checkValue (expr : Expr) :
    Repeats (checkValue setting expr) (checkValue other (expr.withNames change)) := by
  apply (repeats_checkExpr beside expr).bind
  exact fun meaning => .of_eq (notes_asValue _ _) (asValue_withNames beside expr meaning)

/-! ## Statements -/

theorem repeats_checkCondition (construct : String) (condition : Expr) :
    Repeats (checkCondition setting construct condition)
      (checkCondition other construct (condition.withNames change)) := by
  apply (repeats_checkValue beside condition).bind
  intro type
  cases type with
  | none => exact .pure ()
  | some type =>
    dsimp only
    split
    · exact .pure ()
    · exact .report _ _ _

theorem repeats_checkReturn (position : Position) (value : Option Expr) :
    Repeats (checkReturn setting position value)
      (checkReturn other position (value.map (Expr.withNames change))) := by
  simp only [checkReturn, beside.method_eq, beside.registries.isAssignable_eq]
  cases value with
  | none =>
    dsimp only
    split
    · exact .pure ()
    · exact .report _ _ _
  | some value =>
    dsimp only [Option.map_some]
    split
    · exact (repeats_checkExpr beside value).bind fun _ => .report _ _ _
    · apply (repeats_checkValue beside value).bind
      intro type
      cases type with
      | none => exact .pure ()
      | some type =>
        dsimp only
        split
        · exact .pure ()
        · exact .report _ _ _

theorem repeats_checkAssign (target value : Expr) :
    Repeats (checkAssign setting target value)
      (checkAssign other (target.withNames change) (value.withNames change)) := by
  simp only [checkAssign, isAssignable_withNames beside, beside.registries.isAssignable_eq]
  split
  · apply (repeats_checkExpr beside target).bind
    intro meaning
    apply (repeats_checkValue beside value).bind
    intro type
    split
    · split
      · exact .pure ()
      · exact .report _ _ _
    · exact .pure ()
  · exact .report_bind ((@repeats_checkExpr _ _ beside change value).bind fun _ => .pure ()).grows _

theorem repeats_checkEvaluate (expr : Expr) :
    Repeats (checkEvaluate setting expr) (checkEvaluate other (expr.withNames change)) := by
  apply (repeats_checkExpr beside expr).bind
  intro meaning
  split
  · exact .pure ()
  · exact (Repeats.of_eq (notes_asValue _ _) (asValue_withNames beside expr _)).bind
      fun _ => .pure ()

theorem repeats_checkPrint (value : Expr) :
    Repeats (checkPrint setting value) (checkPrint other (value.withNames change)) := by
  apply (repeats_checkValue beside value).bind
  intro type
  cases type with
  | none => exact .pure ()
  | some type =>
    dsimp only
    split
    · exact .pure ()
    · exact .report _ _ _

variable {names : Storage → String}

omit beside in
theorem repeats_checkStmts {statements : List Stmt}
    (each : ∀ stmt ∈ statements, ∀ around walk,
      Repeats (checkStmt setting inLoop stmt)
      (checkStmt other inLoop (stmt.renamed names around walk)))
    (walk : LocalWalk) : Repeats (checkStmts setting inLoop statements)
      (checkStmts other inLoop (Stmt.renamedAll names around statements walk)) := by
  induction statements generalizing walk with
  | nil => exact .pure ()
  | cons stmt rest ih =>
    apply (each stmt List.mem_cons_self around walk).bind
    exact fun _ => ih (fun later isLater => each later (List.mem_cons_of_mem _ isLater)) _

omit beside in
theorem repeats_checkOption {part : Option Stmt}
    (each : ∀ stmt ∈ part, ∀ around walk,
      Repeats (checkStmt setting inLoop stmt)
      (checkStmt other inLoop (stmt.renamed names around walk)))
    (walk : LocalWalk) : Repeats (part.elim (pure ()) (checkStmt setting inLoop))
      ((Stmt.renamedOption names around part walk).elim (pure ()) (checkStmt other inLoop)) := by
  cases part with
  | none => exact .pure ()
  | some stmt => exact each stmt rfl around walk

/-- The check of a renamed statement repeats that of the statement. -/
theorem repeats_checkStmt (stmt : Stmt) (inLoop : Bool) (around : List StorageBlock)
    (walk : LocalWalk) :
    Repeats (checkStmt setting inLoop stmt)
      (checkStmt other inLoop (stmt.renamed names around walk)) := by
  induction stmt generalizing inLoop around walk with
  | block site statements ih =>
    exact repeats_checkStmts (fun stmt isThere => ih stmt isThere inLoop) _
  | ifElse site condition thenBranch elseBranch thenIh elseIh =>
    rw [Stmt.renamed_ifElse, checkStmt_ifElse, checkStmt_ifElse]
    apply (repeats_checkCondition beside "if" condition).bind
    intro _
    apply (thenIh inLoop around walk).bind
    exact fun _ => repeats_checkOption (fun stmt isElse => elseIh stmt isElse inLoop) _
  | whileLoop site condition body ih =>
    apply (repeats_checkCondition beside "while" condition).bind
    exact fun _ => ih true around walk
  | forLoop site init condition update body initIh updateIh bodyIh =>
    rw [Stmt.renamed_forLoop, checkStmt_forLoop]
    dsimp only
    rw [checkStmt_forLoop]
    have tested : Repeats (condition.elim (pure ()) (checkCondition setting "for"))
        ((condition.map
          (Expr.withNames (renamedIn names ((Stmt.declaresOption init walk.enter).block ::
          walk.block :: around)))).elim (pure ()) (checkCondition other "for")) := by
      cases condition with
      | none => exact .pure ()
      | some condition => exact repeats_checkCondition beside "for" condition
    apply tested.bind
    intro _
    apply (repeats_checkOption (fun stmt isInit => initIh stmt isInit inLoop) _).bind
    intro _
    apply (bodyIh true _ _).bind
    exact fun _ => repeats_checkOption (fun stmt isUpdate => updateIh stmt isUpdate true) _
  | ret site value => exact repeats_checkReturn beside site.position value
  | evaluate site expr => exact repeats_checkEvaluate beside expr
  | assign site target value => exact repeats_checkAssign beside target value
  | declare site declared => exact .pure ()
  | print site value => exact repeats_checkPrint beside value
  | breakLoop | continueLoop => exact .of_eq (notes_checkLoopExit _ _ _) rfl
  | skip site => exact .pure ()

theorem repeats_checkBody (body : Stmt) (walk : LocalWalk) :
    Repeats (checkStmt setting false body)
      (checkStmt other false (body.renamedBody names walk)) := by
  cases body with
  | block site statements =>
    exact repeats_checkStmts (fun stmt _ => repeats_checkStmt beside stmt false) walk
  | ifElse | whileLoop | forLoop | ret | evaluate | assign | declare | print | breakLoop
  | continueLoop | skip =>
    exact @repeats_checkStmt _ _ beside names _ false [] walk

end Checking

/-! ## Methods -/

namespace Stmt

variable (names : Storage → String)

theorem flowAll_renamed {statements : List Stmt} {around : List StorageBlock}
    (each : ∀ stmt ∈ statements, ∀ around walk, (stmt.renamed names around walk).flow = stmt.flow)
    (walk : LocalWalk) :
    flowAll (renamedAll names around statements walk) = flowAll statements := by
  induction statements generalizing walk with
  | nil => rfl
  | cons stmt rest ih =>
    rw [renamedAll, flowAll, flowAll, each stmt List.mem_cons_self,
      ih fun later isLater => each later (List.mem_cons_of_mem _ isLater)]

/-- Control goes through a renamed statement as through the statement. -/
theorem flow_renamed (stmt : Stmt) (around : List StorageBlock) (walk : LocalWalk) :
    (stmt.renamed names around walk).flow = stmt.flow := by
  induction stmt generalizing around walk with
  | block site statements ih => exact flowAll_renamed names ih _
  | ifElse site condition thenBranch elseBranch thenIh elseIh =>
    cases elseBranch with
    | none => simp only [renamed, flow, thenIh]
    | some elseBranch => simp only [renamed, flow, thenIh, elseIh elseBranch rfl]
  | whileLoop site condition body ih =>
    simp only [renamed, flow, ih, Expr.isEndless, Expr.isTrue_withNames]
  | forLoop site init condition update body initIh updateIh bodyIh =>
    rw [renamed_forLoop]
    cases condition with
    | none => simp only [flow, bodyIh, Option.map_none]
    | some condition =>
      simp only [flow, bodyIh, Option.map_some, Expr.isEndless, Expr.isTrue_withNames]
  | ret | evaluate | assign | declare | print | breakLoop | continueLoop | skip => rfl

theorem canComplete_renamedBody (body : Stmt) (walk : LocalWalk) :
    (body.renamedBody names walk).canComplete = body.canComplete := by
  cases body with
  | block site statements =>
    exact congrArg Flow.completes
      (flowAll_renamed names (fun stmt _ => stmt.flow_renamed names) walk)
  | ifElse | whileLoop | forLoop | ret | evaluate | assign | declare | print | breakLoop
  | continueLoop | skip =>
    exact congrArg Flow.completes (flow_renamed names _ [] walk)

end Stmt

variable {Element : Type}

/-- A checked body with its variables renamed. -/
def MethodBody.renamed (body : MethodBody) (given : Program.Renaming) : MethodBody :=
  { body with source := body.source.renamed given }

section

variable {isBeforeOrAt : Element → Element → Bool} {change : Element → Element}
  (same : ∀ left right, isBeforeOrAt (change left) (change right) = isBeforeOrAt left right)
include same

theorem insertOrdered_map (element : Element)
    (elements : List Element) : insertOrdered isBeforeOrAt (change element) (elements.map change) =
      (insertOrdered isBeforeOrAt element elements).map change := by
  induction elements with
  | nil => rfl
  | cons first rest ih =>
    rw [List.map_cons, insertOrdered, insertOrdered, same, ih]
    split <;> rfl

theorem sortBy_map (elements : List Element) :
    sortBy isBeforeOrAt (elements.map change) = (sortBy isBeforeOrAt elements).map change := by
  induction elements with
  | nil => rfl
  | cons element rest ih => rw [List.map_cons, sortBy, sortBy, ih, insertOrdered_map same]

end

theorem MethodBody.inSourceOrder_renamed (sources : Array MethodSource) (given : Program.Renaming) :
    inSourceOrder (sources.map (MethodSource.renamed · given)) =
      (inSourceOrder sources).map (MethodBody.renamed · given) := by
  rw [inSourceOrder, inSourceOrder, ← sortBy_map]
  · congr 1
    apply List.ext_getElem?
    intro index
    simp [MethodBody.renamed, Option.map_map, Function.comp_def]
  · exact fun _ _ => rfl

namespace Checking

variable {registry otherRegistry : Registry} {bindings : Bindings} {given : Program.Renaming}

theorem repeats_checkCompletion {setting other : Setting} (beside : setting.Beside other)
    (decl : MethodDecl) (names : Storage → String) :
    Repeats (checkCompletion setting decl) (checkCompletion other (decl.renamed names)) := by
  simp only [checkCompletion, beside.method_eq, MethodDecl.renamed, Stmt.canComplete_renamedBody]
  split
  · exact .report _ _ _
  · exact .pure ()

section

variable (same : registry.SameButNames otherRegistry) (wellFormed : registry.WellFormed)
  (otherWellFormed : otherRegistry.WellFormed)

include same wellFormed otherWellFormed

theorem repeats_checkMethod (body : MethodBody) :
    Repeats (checkMethod registry bindings body)
      (checkMethod otherRegistry bindings (body.renamed given)) := by
  have sameEntry : otherRegistry.methodEntry? (body.renamed given).id =
      registry.methodEntry? body.id :=
    same.methodEntry?_eq body.id
  rw [checkMethod, checkMethod, sameEntry]
  cases registry.methodEntry? body.id with
  | none => exact .pure ()
  | some method =>
    have beside : Setting.Beside { registry, bindings, method }
        { registry := otherRegistry, bindings, method } :=
      ⟨same, wellFormed, otherWellFormed, rfl, rfl⟩
    apply (repeats_checkBody beside body.source.decl.body _).bind
    exact fun _ => repeats_checkCompletion beside body.source.decl _

theorem repeats_checkMethods (bodies : List MethodBody) :
    Repeats (checkMethods registry bindings bodies)
    (checkMethods otherRegistry bindings (bodies.map (MethodBody.renamed · given))) := by
  induction bodies with
  | nil => exact .pure ()
  | cons body bodies ih =>
    exact (repeats_checkMethod same wellFormed otherWellFormed body).bind fun _ => ih

end

end Checking

/-- The findings about a renamed program are those about the program. -/
theorem Findings.ofResolution_renamed {exprCount : Nat} {sources : Array MethodSource}
    {resolution other : Resolution} (given : Program.Renaming)
    (same : resolution.registry.SameButNames other.registry)
    (wellFormed : resolution.registry.WellFormed) (otherWellFormed : other.registry.WellFormed)
    (bindings_eq : other.bindings = resolution.bindings)
    (silent : (Findings.ofResolution exprCount sources resolution).diagnostics = []) :
    Findings.ofResolution exprCount (sources.map (MethodSource.renamed · given)) other =
      Findings.ofResolution exprCount sources resolution := by
  have repeats := @Checking.repeats_checkMethods _ _ resolution.bindings given same
    wellFormed otherWellFormed (MethodBody.inSourceOrder sources)
  rw [Findings.ofResolution, Findings.ofResolution, MethodBody.inSourceOrder_renamed, bindings_eq,
    repeats.same _ silent]

end Decaf
