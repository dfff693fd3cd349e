import Decaf.Proofs.Typing.Rules
import Decaf.Proofs.Typing.Methods

/-!
# Completeness of checking

What follows the rules is checked without complaints, and checking writes down just what the rules
say about each node. `Passes` says this of a check of some nodes. Checks of different nodes compose,
since none of them changes what another one wrote down.
-/

namespace Decaf

namespace TypeTable

variable {table : TypeTable} {id : ExprId} {judgement : Judgement}
variable {other : TypeTable}

/-- A table holds what a judgement says about a node, and no more. -/
structure Shows (table : TypeTable) (id : ExprId) (judgement : Judgement) : Prop where
  typeOf : table.typeOf? id = judgement.type?
  call : table.call? id = judgement.target
  field : table.field? id = judgement.field

/-- A table holds nothing about a node. -/
structure Unknown (table : TypeTable) (id : ExprId) : Prop where
  typeOf : table.typeOf? id = none
  call : table.call? id = none
  field : table.field? id = none

theorem Shows.congr (isShown : table.Shows id judgement) (agrees : other.AgreesAt table id) :
    other.Shows id judgement :=
  ⟨agrees.typeOf.trans isShown.typeOf, agrees.call.trans isShown.call,
    agrees.field.trans isShown.field⟩

theorem Unknown.congr (isUnknown : table.Unknown id) (agrees : other.AgreesAt table id) :
    other.Unknown id :=
  ⟨agrees.typeOf.trans isUnknown.typeOf, agrees.call.trans isUnknown.call,
    agrees.field.trans isUnknown.field⟩

theorem unknown_ofSize (count : Nat) (id : ExprId) : (ofSize count).Unknown id := by
  refine ⟨?_, by simp [ofSize, call?], by simp [ofSize, field?]⟩
  simp only [typeOf?, ofSize, Array.getElem?_replicate]
  split <;> rfl

/-- The table with the target and the field that a judgement names. -/
def selecting (table : TypeTable) (id : ExprId) (judgement : Judgement) : TypeTable :=
  let called := judgement.target.elim table (table.setCall id)
  judgement.field.elim called (called.setField id)

/-- The table with all that a judgement says. -/
def judging (table : TypeTable) (id : ExprId) (judgement : Judgement) : TypeTable :=
  judgement.type?.elim (table.selecting id judgement) ((table.selecting id judgement).setType id)

theorem size_judging (table : TypeTable) (id : ExprId) (judgement : Judgement) :
    (table.judging id judgement).types.size = table.types.size := by
  simp only [judging, selecting]
  cases judgement.type? <;> cases judgement.target <;> cases judgement.field <;>
    simp [setType, setCall, setField]

theorem agreesAt_judging {other : ExprId} (different : other ≠ id) (judgement : Judgement) :
    (table.judging id judgement).AgreesAt table other := by
  simp only [judging, selecting]
  have called : (judgement.target.elim table (table.setCall id)).AgreesAt table other := by
    cases judgement.target with
    | none => exact .refl _ _
    | some target => exact agreesAt_setCall different target
  have named : (judgement.field.elim (judgement.target.elim table (table.setCall id))
      ((judgement.target.elim table (table.setCall id)).setField id)).AgreesAt table other := by
    cases judgement.field with
    | none => exact called
    | some field => exact (agreesAt_setField different field).trans called
  cases judgement.type? with
  | none => exact named
  | some type => exact (agreesAt_setType different type).trans named

theorem shows_judging (isUnknown : table.Unknown id) (inRange : id.index < table.types.size) :
    (table.judging id judgement).Shows id judgement := by
  have typeOf := isUnknown.typeOf
  have call := isUnknown.call
  have field := isUnknown.field
  have sizeEq : (table.selecting id judgement).types.size = table.types.size := by
    unfold selecting
    cases judgement.target <;> cases judgement.field <;> rfl
  constructor
  · unfold judging
    cases judgement.type? with
    | some type => exact typeOf?_setType (sizeEq ▸ inRange) type
    | none =>
      unfold selecting
      cases judgement.target <;> cases judgement.field <;> exact typeOf
  · unfold judging selecting
    cases judgement.type? <;> cases judgement.target <;> cases judgement.field <;>
      first | exact call | exact call?_setCall _
  · unfold judging selecting
    cases judgement.type? <;> cases judgement.target <;> cases judgement.field <;>
      first | exact field | exact field?_setField _

end TypeTable

namespace Checking

variable {setting : Setting} {nodes more : List Expr}
variable {before after : TypeTable}

/-! ## Checks that pass -/

/-- Findings about some nodes were written down: what the rules say, where nothing was known
before. -/
structure Records (setting : Setting) (nodes : List Expr) (before after : TypeTable) : Prop where
  size_eq : after.types.size = before.types.size
  elsewhere : ∀ {id}, id ∉ nodes.map Expr.id → after.AgreesAt before id
  judged : ∀ node ∈ nodes, before.Unknown node.id →
    ∃ judgement, Derives setting node judgement ∧ after.Shows node.id judgement

theorem Records.refl (setting : Setting) (table : TypeTable) : Records setting [] table table :=
  ⟨rfl, fun _ => .refl _ _, by simp⟩

theorem Records.trans {between : TypeTable} (early : Records setting nodes before between)
    (late : Records setting more between after) (nodup : ((nodes ++ more).map Expr.id).Nodup) :
    Records setting (nodes ++ more) before after where
  size_eq := late.size_eq.trans early.size_eq
  elsewhere elsewhere := by
    rw [List.map_append, List.mem_append, not_or] at elsewhere
    exact (late.elsewhere elsewhere.2).trans (early.elsewhere elsewhere.1)
  judged node nodeMem isUnknown := by
    rcases List.mem_append.mp nodeMem with isEarly | isLate
    · rcases early.judged node isEarly isUnknown with ⟨judgement, derives, isShown⟩
      exact ⟨judgement, derives, isShown.congr (late.elsewhere (not_mem_ids nodup isEarly))⟩
    · have swapped : ((more ++ nodes).map Expr.id).Nodup :=
        (List.perm_append_comm.map Expr.id).nodup_iff.mp nodup
      exact late.judged node isLate (isUnknown.congr (early.elsewhere (not_mem_ids swapped isLate)))

theorem Records.perm (records : Records setting nodes before after)
    (perm : nodes.Perm more) : Records setting more before after where
  size_eq := records.size_eq
  elsewhere elsewhere := records.elsewhere fun isNode =>
    elsewhere ((perm.map Expr.id).mem_iff.mp isNode)
  judged node nodeMem := records.judged node (perm.mem_iff.mpr nodeMem)

/-- A check does not complain; it has this result, and it writes down what the rules say about some
nodes. -/
def Passes {Result : Type} (setting : Setting) (nodes : List Expr) (check : Checking Result)
    (result : Result) : Prop :=
  ∀ before : Findings, (∀ node ∈ nodes, node.id.index < before.table.types.size) →
    (nodes.map Expr.id).Nodup →
      ∃ after, check.run before = (result, { before with table := after }) ∧
        Records setting nodes before.table after

section

variable {Result Next : Type} {check : Checking Result} {result : Result}

theorem passes_pure (result : Result) : Passes setting [] (pure result) result :=
  fun before _ _ => ⟨before.table, rfl, .refl setting before.table⟩

theorem Passes.bind {next : Result → Checking Next} {last : Next}
    (first : Passes setting nodes check result) (second : Passes setting more (next result) last) :
    Passes setting (nodes ++ more) (check >>= next) last := by
  intro before inRange nodup
  have nodups := List.nodup_append.mp (List.map_append ▸ nodup)
  rcases first before (fun node isNode => inRange node (by simp [isNode])) nodups.1 with
    ⟨between, firstRan, firstRecords⟩
  have stillInRange : ∀ node ∈ more, node.id.index < between.types.size := by
    intro node isNode
    rw [firstRecords.size_eq]
    exact inRange node (by simp [isNode])
  rcases second { before with table := between } stillInRange nodups.2.1 with
    ⟨after, secondRan, secondRecords⟩
  refine ⟨after, ?_, firstRecords.trans secondRecords nodup⟩
  rw [StateT.run_bind, firstRan]
  exact secondRan

theorem Passes.andThen {check : Checking Unit} {next : Checking Next} {last : Next}
    (first : Passes setting nodes check ()) (second : Passes setting more next last) :
    Passes setting (nodes ++ more) (check >>= fun _ => next) last :=
  first.bind second

theorem Passes.perm (passes : Passes setting nodes check result) (perm : nodes.Perm more) :
    Passes setting more check result := by
  intro before inRange nodup
  rcases passes before (fun node isNode => inRange node (perm.mem_iff.mp isNode))
    ((perm.map Expr.id).nodup_iff.mpr nodup) with ⟨after, ran, records⟩
  exact ⟨after, ran, records.perm perm⟩

end

variable {types : List DataType} {exprs : List Expr}

/-- What was found out about a node is written down once its parts are checked. -/
theorem passes_conclude {expr : Expr} {judgement : Judgement} {check : Checking (Option Meaning)}
    (derives : Derives setting expr judgement)
    (ran : ∀ before : Findings, check.run before =
      (some judgement.meaning, { before with table := before.table.selecting expr.id judgement })) :
    Passes setting [expr] (conclude expr.site check) (some judgement.meaning) := by
  intro before inRange nodup
  refine ⟨before.table.judging expr.id judgement, ?_, ?_⟩
  · have concluded : (conclude expr.site check).run before = ((check.run before).1,
        ((recordMeaning expr.site.id (check.run before).1).run (check.run before).2).2) := rfl
    rw [concluded, ran before]
    rcases judgement with ⟨meaning, target, field⟩
    cases meaning <;> rfl
  · refine ⟨TypeTable.size_judging _ _ _, ?_, ?_⟩
    · intro id elsewhere
      exact TypeTable.agreesAt_judging (by simpa using elsewhere) judgement
    · intro node nodeMem isUnknown
      cases List.mem_singleton.mp nodeMem
      exact ⟨judgement, derives, TypeTable.shows_judging isUnknown (inRange expr (by simp))⟩

/-! ## Steps without complaints -/

theorem asValue_eq {type : DataType} (isValue : type ≠ .void) (expr : Expr) :
    asValue setting expr (some (.value type)) = pure (some type) := by
  simp [asValue, isValue]

theorem asValues_eq (areValues : ∀ type ∈ types, type ≠ .void)
    (length_eq : types.length = exprs.length) :
    asValues setting (exprs.zip (types.map fun type => some (.value type))) =
      pure (types.map some) := by
  induction types generalizing exprs with
  | nil => simp [asValues]
  | cons type types ih =>
    cases exprs with
    | nil => simp at length_eq
    | cons expr exprs =>
      have rest := @ih exprs (fun other isOther => areValues other (by simp [isOther]))
        (by simpa using length_eq)
      simp only [List.map_cons, List.zip_cons_cons, asValues]
      rw [asValue_eq (areValues type (by simp)), rest]
      simp

theorem checkArguments_eq {expected : List DataType}
    (fits : List.Forall₂ (fun type wanted => setting.registry.isAssignable type wanted = true)
      types expected)
    (length_eq : types.length = exprs.length) (path : String) (number : Nat) :
    checkArguments setting path number (exprs.zip (types.map some)) expected = pure () := by
  induction fits generalizing exprs number with
  | nil => cases exprs <;> simp [checkArguments]
  | cons fit _ ih =>
    cases exprs with
    | nil => simp at length_eq
    | cons expr exprs =>
      simp only [List.map_cons, List.zip_cons_cons, checkArguments, fit, if_true]
      exact ih (by simpa using length_eq) (number + 1)

section

variable (wellFormed : setting.registry.WellFormed) (acyclic : setting.registry.Acyclic)

include wellFormed acyclic

theorem checkCall_eq {site : Site ExprId} {receiver : Option Meaning} {name : String}
    {types : List DataType} {method : MethodEntry} {dispatch : Dispatch}
    (calls : setting.Calls receiver name types method dispatch) {exprs : List Expr}
    (length_eq : types.length = exprs.length) :
    checkCall setting site receiver name (exprs.zip (types.map some)) = (do
      recordCall site.id ⟨method.id, dispatch⟩
      pure (some (.value method.returnType))) := by
  rcases calls with
    ⟨⟨owner, reach, id, looksIn, isFound, entryFound, suits, selects⟩, allowed, fits⟩
  have assignable : List.Forall₂ (fun type wanted =>
      setting.registry.isAssignable type wanted = true) types method.parameterTypes :=
    fits.imp fun _ _ usable => (Registry.isAssignable_iff wellFormed acyclic).mpr usable
  have arity : (exprs.zip (types.map some)).length = method.arity := by
    rw [List.length_zip, List.length_map, ← length_eq, Nat.min_self]
    exact fits.length_eq
  simp only [checkCall, Setting.reached_eq_ok.mpr looksIn,
    Setting.methodIn_eq_ok.mpr ⟨id, isFound, entryFound⟩, checkCallOf,
    Reach.methodFault?_eq_none.mpr suits, Setting.privacyFault?_eq_none.mpr allowed,
    Option.map_none,
    reportAny, arity, if_true, checkArguments_eq assignable length_eq,
    Reach.dispatch?_eq_some.mpr selects, pure_bind]

end

variable {site : Site ExprId} {name : String} {inner : List Judgement}

theorem checkFieldAccess_eq {receiver : Meaning} {field : FieldEntry}
    (accesses : setting.Accesses receiver name field) :
    checkFieldAccess setting site (some receiver) name = (do
      recordField site.id field.id
      pure (some (.value field.type))) := by
  rcases accesses with ⟨⟨owner, reach, id, looksIn, isFound, entryFound, suits⟩, allowed⟩
  simp only [checkFieldAccess, Setting.reached_eq_ok.mpr looksIn,
    Setting.fieldIn_eq_ok.mpr ⟨id, isFound, entryFound⟩, checkAccessTo,
    looksIn.fieldFault?_eq_none.mpr suits,
    Setting.privacyFault?_eq_none.mpr allowed, Option.map_none, reportAny, pure_bind]

theorem checkBareField_eq {field : FieldEntry} (suits : Reach.bare.Suits setting field.isStatic)
    (allowed : setting.Allows field.owner field.visibility) :
    checkBareField setting site name field = (do
      recordField site.id field.id
      pure (some (.value field.type))) := by
  have needsNone : (setting.method.isStatic && !field.isStatic) = false := by
    simpa [Reach.Suits] using suits
  simp only [checkBareField, needsNone, Bool.false_eq_true, if_false,
    Setting.privacyFault?_eq_none.mpr allowed, reportAny, pure_bind]

/-! ## Expressions -/

theorem map_some_meaning {types : List DataType}
    (areValues : inner.map Judgement.meaning = types.map Meaning.value) :
    (inner.map fun judgement => some judgement.meaning) = types.map fun type =>
      some (.value type) := by
  have mapped := congrArg (List.map some) areValues
  rw [List.map_map, List.map_map] at mapped
  exact mapped

theorem passes_checkExprs {exprs : List Expr} (length_eq : inner.length = exprs.length)
    (each : ∀ pair ∈ exprs.zip inner,
      Passes setting pair.1.nodes (checkExpr setting pair.1) (some pair.2.meaning)) :
    Passes setting (Expr.nodesAll exprs) (checkExprs setting exprs)
      (inner.map fun judgement => some judgement.meaning) := by
  induction exprs generalizing inner with
  | nil =>
    cases List.length_eq_zero_iff.mp length_eq
    exact passes_pure []
  | cons expr exprs ih =>
    cases inner with
    | nil => simp at length_eq
    | cons judgement inner =>
      simp only [checkExprs, Expr.nodesAll, List.map_cons]
      have rest := @ih inner (by simpa using length_eq) fun pair isPair =>
        each pair (by simp [isPair])
      refine (each (expr, judgement) (by simp)).bind ?_
      rw [← List.append_nil (Expr.nodesAll exprs)]
      exact rest.bind (passes_pure _)

/-- An expression that has a meaning by the rules is found to have it, without complaints. -/
theorem passes_checkExpr (wellFormed : setting.registry.WellFormed)
    (acyclic : setting.registry.Acyclic) {expr : Expr} {judgement : Judgement}
    (derives : Derives setting expr judgement) :
    Passes setting expr.nodes (checkExpr setting expr) (some judgement.meaning) := by
  induction derives with
  | literal => exact passes_conclude .literal fun _ => rfl
  | ofVariable bound found =>
    refine passes_conclude (.ofVariable bound found) fun before => ?_
    simp only [checkIdentifier, bound, found, Option.map_some]
    rfl
  | ofField bound found suits allowed =>
    refine passes_conclude (.ofField bound found suits allowed) fun before => ?_
    simp only [checkIdentifier, bound, found, checkBareField_eq suits allowed]
    rfl
  | ofClass bound =>
    refine passes_conclude (.ofClass bound) fun before => ?_
    simp only [checkIdentifier, bound]
    rfl
  | this isInstance => exact passes_conclude (.this isInstance) fun _ => rfl
  | super isInstance parentEq =>
    refine passes_conclude (.super isInstance parentEq) fun before => ?_
    simp only [parentEq, Option.map_some]
    rfl
  | new bound =>
    refine passes_conclude (.new bound) fun before => ?_
    simp only [newMeaning, bound]
    rfl
  | unary operandDerives isValue takes ih =>
    refine ih.bind (passes_conclude (.unary operandDerives isValue takes) fun before => ?_)
    simp only [isValue, asValue_eq takes.ne_void, pure_bind, checkUnary,
      UnaryOperator.resultType?_eq_some.mpr takes, resultOr]
    rfl
  | binary leftDerives rightDerives leftIsValue rightIsValue takes leftIh rightIh =>
    simp only [checkExpr, Expr.nodes, List.append_assoc]
    refine leftIh.bind (rightIh.bind (passes_conclude
      (.binary leftDerives rightDerives leftIsValue rightIsValue takes) fun before => ?_))
    simp only [leftIsValue, rightIsValue, asValue_eq takes.ne_void.1,
      asValue_eq takes.ne_void.2, pure_bind, checkBinary,
      (BinaryOperator.resultType?_eq_some wellFormed acyclic).mpr takes, resultOr]
    rfl
  | @callBare site name arguments inner types method dispatch length_eq argumentsDerive
      areValues notVoid calls ih =>
    have meanings := map_some_meaning areValues
    have typesLength : types.length = arguments.length := by
      simpa [length_eq] using (congrArg List.length areValues).symm
    refine (passes_checkExprs length_eq ih).bind (passes_conclude
      (.callBare length_eq argumentsDerive areValues notVoid calls) fun before => ?_)
    simp only [meanings, asValues_eq notVoid typesLength, pure_bind,
      checkCall_eq wellFormed acyclic calls typesLength]
    rfl
  | @callOn site receiver name arguments outer inner types method dispatch receiverDerives length_eq
      argumentsDerive areValues notVoid calls receiverIh ih =>
      have meanings := map_some_meaning areValues
      have typesLength : types.length = arguments.length := by
        simpa [length_eq] using (congrArg List.length areValues).symm
      simp only [checkExpr, Expr.nodes, List.append_assoc]
      refine receiverIh.bind ((passes_checkExprs length_eq ih).bind (passes_conclude
        (.callOn receiverDerives length_eq argumentsDerive areValues notVoid calls)
        fun before => ?_))
      simp only [meanings, asValues_eq notVoid typesLength, pure_bind,
        checkCall_eq wellFormed acyclic calls typesLength]
      rfl
  | fieldAccess receiverDerives accesses ih =>
    refine ih.bind (passes_conclude (.fieldAccess receiverDerives accesses) fun before => ?_)
    simp only [checkFieldAccess_eq accesses]
    rfl
  | step targetDerives assignable isValue number ih =>
    refine ih.bind (passes_conclude (.step targetDerives assignable isValue number)
      fun before => ?_)
    simp only [isValue, checkStep, Setting.isAssignable_iff.mpr assignable, if_true,
      asValue_eq number.ne_void, pure_bind, DataType.isNumeric_iff.mpr number, resultOr]
    rfl

/-! ## Statements -/

section

variable (wellFormed : setting.registry.WellFormed) (acyclic : setting.registry.Acyclic)

include wellFormed acyclic

theorem passes_checkValue {expr : Expr} {type : DataType} (typed : setting.Types expr type) :
    Passes setting expr.nodes (checkValue setting expr) (some type) := by
  rcases typed with ⟨⟨judgement, derives, isValue⟩, notVoid⟩
  rw [← List.append_nil expr.nodes]
  refine (passes_checkExpr wellFormed acyclic derives).bind ?_
  rw [isValue, asValue_eq notVoid]
  exact passes_pure _

theorem passes_checkCondition (construct : String) {condition : Expr}
    (typed : setting.Types condition .bool) :
    Passes setting condition.nodes (checkCondition setting construct condition) () := by
  rw [← List.append_nil condition.nodes]
  exact (passes_checkValue wellFormed acyclic typed).bind (passes_pure ())

end

variable {inLoop : Bool}

theorem passes_checkStmts {statements : List Stmt}
    (each : ∀ stmt ∈ statements, Passes setting stmt.exprNodes (checkStmt setting inLoop stmt) ()) :
    Passes setting (Stmt.exprNodesAll statements) (checkStmts setting inLoop statements) () := by
  induction statements with
  | nil => exact passes_pure ()
  | cons stmt statements ih =>
    exact (each stmt (by simp)).bind (ih fun other isOther => each other (by simp [isOther]))

/-- A check of something that may be absent. -/
theorem passes_part {Item : Type} {part : Option Item} {nodesOf : Item → List Expr}
    {check : Item → Checking Unit}
    (each : ∀ item ∈ part, Passes setting (nodesOf item) (check item) ()) :
    Passes setting ((part.map nodesOf).getD []) (part.elim (pure ()) check) () := by
  cases part with
  | none => exact passes_pure ()
  | some item => exact each item rfl

/-- A statement that follows the rules is checked without complaints. -/
theorem passes_checkStmt (wellFormed : setting.registry.WellFormed)
    (acyclic : setting.registry.Acyclic) {stmt : Stmt} (typed : WellTyped setting inLoop stmt) :
    Passes setting stmt.exprNodes (checkStmt setting inLoop stmt) () := by
  induction typed with
  | block _ ih => exact passes_checkStmts ih
  | @ifElse inLoop site condition thenBranch elseBranch conditionTyped _ _ thenIh elseIh =>
    rw [checkStmt_ifElse]
    have passes := (passes_checkCondition wellFormed acyclic "if" conditionTyped).andThen
      (thenIh.andThen (passes_part elseIh))
    cases elseBranch with
    | none => simpa [Stmt.exprNodes] using passes
    | some elseBranch => simpa [Stmt.exprNodes] using passes
  | whileLoop conditionTyped _ ih =>
    exact (passes_checkCondition wellFormed acyclic "while" conditionTyped).bind ih
  | @forLoop inLoop site init condition update body _ conditionTyped _ _ initIh updateIh bodyIh =>
    rw [checkStmt_forLoop, Stmt.exprNodes_forLoop]
    have conditionPasses := passes_part fun expr isCondition =>
      passes_checkCondition wellFormed acyclic "for" (conditionTyped expr isCondition)
    have passes :=
      conditionPasses.andThen ((passes_part initIh).andThen (bodyIh.andThen (passes_part updateIh)))
    -- the condition is checked in front of the other parts, and the update behind the body
    refine passes.perm ((List.perm_append_comm_assoc _ _ _).trans ?_)
    rw [List.append_assoc, List.append_assoc]
    exact (List.perm_append_comm.append_left _).append_left _
  | retNone isVoid =>
    simp only [checkStmt, checkReturn, isVoid, if_true]
    exact passes_pure ()
  | @retValue inLoop site value type notVoid valueTyped fits =>
    have assignable := (Registry.isAssignable_iff wellFormed acyclic).mpr fits
    simp only [checkStmt, checkReturn, notVoid, if_false, Stmt.exprNodes, Expr.nodesOption,
      Option.map_some, Option.getD_some]
    rw [← List.append_nil value.nodes]
    refine (passes_checkValue wellFormed acyclic valueTyped).bind ?_
    simp only [assignable, if_true]
    exact passes_pure ()
  | @evaluate inLoop site expr judgement type derives isValue =>
    simp only [checkStmt, checkEvaluate, Stmt.exprNodes]
    rw [← List.append_nil expr.nodes]
    refine (passes_checkExpr wellFormed acyclic derives).bind ?_
    rw [isValue]
    exact passes_pure ()
  | assign assignable targetDerives targetIsValue valueTyped fits =>
    have isAssignable := (Registry.isAssignable_iff wellFormed acyclic).mpr fits
    simp only [checkStmt, checkAssign, Setting.isAssignable_iff.mpr assignable,
      if_true, Stmt.exprNodes]
    refine (passes_checkExpr wellFormed acyclic targetDerives).bind ?_
    rw [← List.append_nil (Expr.nodes _)]
    refine (passes_checkValue wellFormed acyclic valueTyped).bind ?_
    simp only [targetIsValue, isAssignable, if_true]
    exact passes_pure ()
  | declare => exact passes_pure ()
  | @print inLoop site value kind valueTyped =>
    have notVoid : kind ≠ .void := by simpa using valueTyped.isValue
    simp only [checkStmt, checkPrint, Stmt.exprNodes]
    rw [← List.append_nil value.nodes]
    refine (passes_checkValue wellFormed acyclic valueTyped).bind ?_
    simp only [isPrintable, notVoid, ne_eq, not_false_eq_true, decide_true, if_true]
    exact passes_pure ()
  | breakLoop => exact passes_pure ()
  | continueLoop => exact passes_pure ()
  | skip => exact passes_pure ()

end Checking

end Decaf
