import Decaf.Typing.Expression
import Decaf.Proofs.Tree.Nodes
import Decaf.Typing

/-!
# What checks find out, and the typing rules

A check adds complaints and writes findings about nodes of its own. `Ensures` says this of a check,
together with what is known when it adds no complaint: the result, and the findings in the table
afterwards.
-/

namespace Decaf

namespace TypeTable

/-- Two tables hold the same findings about an expression. -/
structure AgreesAt (left right : TypeTable) (id : ExprId) : Prop where
  typeOf : left.typeOf? id = right.typeOf? id
  call : left.call? id = right.call? id
  field : left.field? id = right.field? id

variable {table : TypeTable} {id other : ExprId}

theorem AgreesAt.refl (table : TypeTable) (id : ExprId) : table.AgreesAt table id := ⟨rfl, rfl, rfl⟩

theorem AgreesAt.trans {first second third : TypeTable} (left : first.AgreesAt second id)
    (right : second.AgreesAt third id) : first.AgreesAt third id :=
  ⟨left.typeOf.trans right.typeOf, left.call.trans right.call, left.field.trans right.field⟩

theorem agreesAt_setType (different : other ≠ id) (type : DataType) :
    (table.setType id type).AgreesAt table other := by
  refine ⟨?_, rfl, rfl⟩
  rcases id with ⟨number⟩
  rcases other with ⟨otherNumber⟩
  have distinct : number ≠ otherNumber := by
    rintro rfl
    exact different rfl
  simp [typeOf?, setType, distinct]

theorem agreesAt_setCall (different : other ≠ id) (target : CallTarget) :
    (table.setCall id target).AgreesAt table other := by
  refine ⟨rfl, ?_, rfl⟩
  rcases id with ⟨number⟩
  rcases other with ⟨otherNumber⟩
  rw [call?, setCall, Table.get?_insert, if_neg, call?]
  rintro rfl
  exact different rfl

theorem agreesAt_setField (different : other ≠ id) (field : FieldId) :
    (table.setField id field).AgreesAt table other := by
  refine ⟨rfl, rfl, ?_⟩
  rcases id with ⟨number⟩
  rcases other with ⟨otherNumber⟩
  rw [field?, setField, Table.get?_insert, if_neg, field?]
  rintro rfl
  exact different rfl

theorem typeOf?_setType (inRange : id.index < table.types.size) (type : DataType) :
    (table.setType id type).typeOf? id = some type := by
  simp [typeOf?, setType, inRange]

@[simp]
theorem call?_setCall (target : CallTarget) : (table.setCall id target).call? id = some target := by
  simp [call?, setCall]

@[simp]
theorem field?_setField (field : FieldId) : (table.setField id field).field? id = some field := by
  simp [field?, setField]

end TypeTable

/-- Findings grow by complaints and by findings about some nodes. -/
structure Findings.Extends (own : List ExprId) (before after : Findings) : Prop where
  diagnostics : before.diagnostics <+: after.diagnostics
  ordinary : (∀ diagnostic ∈ before.diagnostics, diagnostic.cause.category ≠ .internal) →
    ∀ diagnostic ∈ after.diagnostics, diagnostic.cause.category ≠ .internal
  elsewhere : ∀ {id}, id ∉ own → after.table.AgreesAt before.table id
  size_eq : after.table.types.size = before.table.types.size

namespace Findings.Extends

variable {own more : List ExprId} {before between after : Findings}

theorem refl (findings : Findings) : Extends [] findings findings :=
  ⟨List.prefix_rfl, id, fun _ => .refl _ _, rfl⟩

theorem trans (early : Extends own before between) (late : Extends more between after) :
    Extends (own ++ more) before after where
  diagnostics := early.diagnostics.trans late.diagnostics
  ordinary isOrdinary := late.ordinary (early.ordinary isOrdinary)
  elsewhere elsewhere := by
    rw [List.mem_append, not_or] at elsewhere
    exact (late.elsewhere elsewhere.2).trans (early.elsewhere elsewhere.1)
  size_eq := late.size_eq.trans early.size_eq

theorem widen (growth : Extends own before after) (subset : own ⊆ more) :
    Extends more before after :=
  { growth with elsewhere := fun notMore => growth.elsewhere fun isOwn => notMore (subset isOwn) }

end Findings.Extends

namespace Checking

variable {Result Next : Type} {count : Nat} {own more : List ExprId}
variable {cause : Cause}

/-- A check writes findings about its own nodes only; when it does not complain, it has the promised
result and leaves the promised findings. -/
def Ensures (count : Nat) (own : List ExprId) (check : Checking Result)
    (post : Result → TypeTable → Prop) : Prop :=
  ∀ before : Findings, before.table.types.size = count →
    before.Extends own (check.run before).2 ∧
      ((check.run before).2.diagnostics = before.diagnostics →
        post (check.run before).1 (check.run before).2.table)

theorem ensures_pure (result : Result) :
    Ensures count [] (pure result) fun last _ => last = result :=
  fun before _ => ⟨.refl before, fun _ => rfl⟩

/-- What the first check found out about nodes that the second does not write to still holds in the
end. -/
theorem Ensures.bind {check : Checking Result} {next : Result → Checking Next}
    {mid : Result → TypeTable → Prop} {post : Next → TypeTable → Prop}
    (first : Ensures count own check mid)
    (second : ∀ result, Ensures count more (next result) fun last table => ∀ earlier,
      mid result earlier → (∀ id, id ∉ more → table.AgreesAt earlier id) → post last table) :
    Ensures count (own ++ more) (check >>= next) post := by
  intro before sizeEq
  rcases first before sizeEq with ⟨firstGrows, firstHolds⟩
  rcases second (check.run before).1 (check.run before).2 (firstGrows.size_eq.trans sizeEq) with
    ⟨secondGrows, secondHolds⟩
  refine ⟨firstGrows.trans secondGrows, fun silent => ?_⟩
  have firstSilent : (check.run before).2.diagnostics = before.diagnostics :=
    (firstGrows.diagnostics.eq_of_length_le
      (Nat.le_trans secondGrows.diagnostics.length_le
        (Nat.le_of_eq (congrArg List.length silent)))).symm
  exact secondHolds (silent.trans firstSilent.symm) _ (firstHolds firstSilent)
    fun _ => secondGrows.elsewhere

theorem Ensures.mono {check : Checking Result} {mid post : Result → TypeTable → Prop}
    (ensures : Ensures count own check mid) (subset : own ⊆ more)
    (implies : ∀ result table, mid result table → post result table) :
    Ensures count more check post := by
  intro before sizeEq
  rcases ensures before sizeEq with ⟨grows, holds⟩
  exact ⟨grows.widen subset, fun silent => implies _ _ (holds silent)⟩

theorem ensures_report (position : Position) (isOrdinary : cause.category ≠ .internal) :
    Ensures count [] (report position cause) fun _ _ => False := by
  intro before _
  refine ⟨⟨List.prefix_append _ _, ?_, fun _ => .refl _ _, rfl⟩, ?_⟩
  · intro wereOrdinary diagnostic isReported
    rcases List.mem_append.mp isReported with isOld | isNew
    · exact wereOrdinary diagnostic isOld
    · rw [List.mem_singleton.mp isNew]
      exact isOrdinary
  · intro silent
    change before.diagnostics ++ [⟨position, cause⟩] = before.diagnostics at silent
    simp at silent

theorem ensures_reportAny (position : Position) {cause : Option Cause}
    (isOrdinary : ∀ reported, cause = some reported → reported.category ≠ .internal) :
    Ensures count [] (reportAny position cause) fun _ _ => cause = none := by
  cases cause with
  | none => exact (ensures_pure ()).mono (by simp) (by simp)
  | some cause => exact (ensures_report position (isOrdinary cause rfl)).mono (by simp) (by simp)

theorem ensures_reject (position : Position) (isOrdinary : cause.category ≠ .internal) :
    Ensures count [] (reject position cause : Checking (Option Result)) fun _ _ => False :=
  (ensures_report position isOrdinary).bind fun _ =>
    (ensures_pure none).mono (by simp) fun _ _ _ _ absurd _ => absurd

/-- What is recorded about the meaning of an expression is its type, if it has one. -/
theorem recordMeaning_spec (id : ExprId) (meaning : Option Meaning) (before : Findings) :
    ((recordMeaning id meaning).run before).2.diagnostics = before.diagnostics ∧
      ((recordMeaning id meaning).run before).2.table =
        (match meaning with
          | some (.value type) => before.table.setType id type
          | some (.aClass _) | some (.asParent _) | none => before.table) := by
  rcases meaning with _ | type | owner | parent <;> exact ⟨rfl, rfl⟩

theorem ensures_recordCall (id : ExprId) (target : CallTarget) :
    Ensures count [id] (recordCall id target) fun _ table => table.call? id = some target := by
  intro before _
  refine ⟨⟨List.prefix_rfl, fun isOrdinary => isOrdinary, ?_, rfl⟩, fun _ =>
    TypeTable.call?_setCall target⟩
  exact fun different => TypeTable.agreesAt_setCall (by simpa using different) target

theorem ensures_recordField (id : ExprId) (field : FieldId) :
    Ensures count [id] (recordField id field) fun _ table => table.field? id = some field := by
  intro before _
  refine ⟨⟨List.prefix_rfl, fun isOrdinary => isOrdinary, ?_, rfl⟩, fun _ =>
    TypeTable.field?_setField field⟩
  exact fun different => TypeTable.agreesAt_setField (by simpa using different) field

/-- Concluding a check changes nothing but the type of the expression itself. -/
theorem ensures_conclude {site : Site ExprId} {check : Checking (Option Meaning)}
    {mid : Option Meaning → TypeTable → Prop} (inRange : site.id.index < count)
    (ensures : Ensures count own check mid) :
    Ensures count (own ++ [site.id]) (conclude site check) fun meaning table => ∃ earlier,
      mid meaning earlier ∧
      (∀ id, id ≠ site.id → table.AgreesAt earlier id) ∧ table.call? site.id =
        earlier.call? site.id ∧
        table.field? site.id = earlier.field? site.id ∧
        ∀ type, meaning = some (.value type) → table.typeOf? site.id = some type := by
  intro before sizeEq
  rcases ensures before sizeEq with ⟨grows, holds⟩
  have ran : (conclude site check).run before = ((check.run before).1,
      ((recordMeaning site.id (check.run before).1).run (check.run before).2).2) := rfl
  rw [ran]
  generalize check.run before = state at grows holds
  rcases state with ⟨meaning, between⟩
  rcases recordMeaning_spec site.id meaning between with ⟨sameDiagnostics, tableEq⟩
  dsimp only at grows holds ⊢
  generalize ((recordMeaning site.id meaning).run between).2 = after at sameDiagnostics tableEq
  have others : ∀ id, id ≠ site.id → after.table.AgreesAt between.table id := by
    intro id different
    rw [tableEq]
    split
    · exact TypeTable.agreesAt_setType different _
    all_goals exact .refl _ _
  have recorded : between.Extends [site.id] after := by
    refine ⟨sameDiagnostics ▸ List.prefix_rfl,
      sameDiagnostics ▸ fun isOrdinary => isOrdinary, ?_, ?_⟩
    · exact fun different => others _ (by simpa using different)
    · rw [tableEq]
      split <;> simp [TypeTable.setType]
  refine ⟨grows.trans recorded, fun silent =>
    ⟨between.table, holds (sameDiagnostics ▸ silent), others, ?_, ?_, ?_⟩⟩
  · rw [tableEq]
    split <;> rfl
  · rw [tableEq]
    split <;> rfl
  · rintro type rfl
    rw [tableEq]
    exact TypeTable.typeOf?_setType (by rw [grows.size_eq, sizeEq]; exact inRange) type

end Checking

/-!
## Typing rules

The rules by which an expression has a meaning and a statement is accepted, together with the
findings that the table holds about their nodes. A rule about an expression asks for findings about
its nodes only, so what holds in one table holds in every table that agrees about these.
-/

variable {setting : Setting} {table other : TypeTable}
variable {expr node : Expr} {meaning : Meaning} {type : DataType} {inLoop : Bool} {stmt : Stmt}

/-- A call finds a method that may be called in this way with arguments of these types. -/
structure CallFits (setting : Setting) (receiver : Option Meaning) (name : String)
    (types : List DataType) (owner : ClassId) (reach : Reach) (method : MethodEntry) : Prop where
  reached : setting.reached receiver name = .ok (owner, reach)
  found : setting.methodIn owner name = .ok method
  faultless : reach.methodFault? setting owner method = none
  allowed : setting.privacyFault? "method" method.name method.owner method.visibility = none
  fits : List.Forall₂ (fun type expected =>
    setting.registry.isAssignable type expected = true) types method.parameterTypes

/-- An access finds a field that may be accessed in this way. -/
structure AccessFits (setting : Setting) (receiver : Meaning) (name : String) (owner : ClassId)
    (reach : Reach) (field : FieldEntry) : Prop where
  reached : setting.reached (some receiver) name = .ok (owner, reach)
  found : setting.fieldIn owner name = .ok field
  faultless : reach.fieldFault? setting owner field = none
  allowed : setting.privacyFault? "field" field.name field.owner field.visibility = none

/-- What an expression stands for. -/
inductive Means (setting : Setting) (table : TypeTable) : Expr → Meaning → Prop where
  | literal {site : Site ExprId} {value : Literal}
      (typed : table.typeOf? site.id = some value.type) :
      Means setting table (.literal site value) (.value value.type)
  | ofVariable {site : Site ExprId} {name : String} {id : VariableId} {entry : VariableEntry}
      (bound : setting.bindings.symbol? site.id = some (.ofVariable id))
      (found : setting.registry.variableEntry? id = some entry)
      (own : entry.method = setting.method.id) (typed : table.typeOf? site.id = some entry.type) :
      Means setting table (.identifier site name) (.value entry.type)
  | ofField {site : Site ExprId} {name : String} {id : FieldId} {field : FieldEntry}
      (bound : setting.bindings.symbol? site.id = some (.ofField id))
      (found : setting.registry.fieldEntry? id = some field)
      (fits : setting.method.isStatic = true → field.isStatic = true)
      (allowed : setting.privacyFault? "field" name field.owner field.visibility = none)
      (named : table.field? site.id = some field.id)
      (typed : table.typeOf? site.id = some field.type) :
      Means setting table (.identifier site name) (.value field.type)
  | ofClass {site : Site ExprId} {name : String} {id : ClassId}
      (bound : setting.bindings.symbol? site.id = some (.ofClass id)) :
      Means setting table (.identifier site name) (.aClass id)
  | this {site : Site ExprId} (isInstance : setting.method.isStatic = false)
      (typed : table.typeOf? site.id = some (.object setting.method.owner)) :
      Means setting table (.this site) (.value (.object setting.method.owner))
  | super {site : Site ExprId} {parent : ClassId} (isInstance : setting.method.isStatic = false)
      (parentEq : setting.registry.parent? setting.method.owner = some parent) :
      Means setting table (.super site) (.asParent parent)
  | new {site : Site ExprId} {className : String} {id : ClassId}
      (bound : setting.bindings.symbol? site.id = some (.ofClass id))
      (typed : table.typeOf? site.id = some (.object id)) :
      Means setting table (.new site className) (.value (.object id))
  | unary {site : Site ExprId} {operator : UnaryOperator} {operand : Expr} {type result : DataType}
      (operandMeans : Means setting table operand (.value type)) (isValue : type ≠ .void)
      (fits : operator.resultType? type = some result)
      (typed : table.typeOf? site.id = some result) :
      Means setting table (.unary site operator operand) (.value result)
  | binary {site : Site ExprId} {operator : BinaryOperator} {left right : Expr}
      {leftType rightType result : DataType}
      (leftMeans : Means setting table left (.value leftType))
      (rightMeans : Means setting table right (.value rightType)) (leftIsValue : leftType ≠ .void)
      (rightIsValue : rightType ≠ .void)
      (fits : operator.resultType? setting.registry leftType rightType = some result)
      (typed : table.typeOf? site.id = some result) :
      Means setting table (.binary site operator left right) (.value result)
  | callBare {site : Site ExprId} {name : String} {arguments : List Expr} {types : List DataType}
      {owner : ClassId} {reach : Reach} {method : MethodEntry} {dispatch : Dispatch}
      (argumentsMean : ∀ pair ∈ arguments.zip types, Means setting table pair.1 (.value pair.2))
      (length_eq : types.length = arguments.length) (areValues : ∀ type ∈ types, type ≠ .void)
      (fits : CallFits setting none name types owner reach method)
      (dispatched : reach.dispatch? method = some dispatch)
      (recorded : table.call? site.id = some ⟨method.id, dispatch⟩)
      (typed : table.typeOf? site.id = some method.returnType) :
      Means setting table (.call site none name arguments) (.value method.returnType)
  | callOn {site : Site ExprId} {receiver : Expr} {name : String} {arguments : List Expr}
      {receiverMeaning : Meaning} {types : List DataType} {owner : ClassId} {reach : Reach}
      {method : MethodEntry} {dispatch : Dispatch}
      (receiverMeans : Means setting table receiver receiverMeaning)
      (argumentsMean : ∀ pair ∈ arguments.zip types, Means setting table pair.1 (.value pair.2))
      (length_eq : types.length = arguments.length) (areValues : ∀ type ∈ types, type ≠ .void)
      (fits : CallFits setting (some receiverMeaning) name types owner reach method)
      (dispatched : reach.dispatch? method = some dispatch)
      (recorded : table.call? site.id = some ⟨method.id, dispatch⟩)
      (typed : table.typeOf? site.id = some method.returnType) :
      Means setting table (.call site (some receiver) name arguments) (.value method.returnType)
  | fieldAccess {site : Site ExprId} {receiver : Expr} {name : String} {receiverMeaning : Meaning}
      {owner : ClassId} {reach : Reach} {field : FieldEntry}
      (receiverMeans : Means setting table receiver receiverMeaning)
      (fits : AccessFits setting receiverMeaning name owner reach field)
      (named : table.field? site.id = some field.id)
      (typed : table.typeOf? site.id = some field.type) :
      Means setting table (.fieldAccess site receiver name) (.value field.type)
  | step {site : Site ExprId} {operator : StepOperator} {yieldsNew : Bool} {target : Expr}
      {type : DataType} (targetMeans : Means setting table target (.value type))
      (assignable : Checking.isAssignable setting target = true) (numeric : type.isNumeric = true)
      (typed : table.typeOf? site.id = some type) :
      Means setting table (.step site operator yieldsNew target) (.value type)

theorem Means.congr (means : Means setting table expr meaning)
    (agrees : ∀ node ∈ expr.nodes, other.AgreesAt table node.id) :
    Means setting other expr meaning := by
  induction means with
  | @literal site value typed =>
    exact .literal ((agrees _ (Expr.self_mem_nodes (.literal site value))).typeOf.trans typed)
  | @ofVariable site name id entry bound found own typed =>
    exact .ofVariable bound found own
      ((agrees _ (Expr.self_mem_nodes (.identifier site name))).typeOf.trans typed)
  | @ofField site name id field bound found fits allowed named typed =>
    have agreesHere := agrees _ (Expr.self_mem_nodes (.identifier site name))
    exact .ofField bound found fits allowed (agreesHere.field.trans named)
      (agreesHere.typeOf.trans typed)
  | ofClass bound => exact .ofClass bound
  | @this site isInstance typed =>
    exact .this isInstance ((agrees _ (Expr.self_mem_nodes (.this site))).typeOf.trans typed)
  | super isInstance parentEq => exact .super isInstance parentEq
  | @new site className id bound typed =>
    exact .new bound ((agrees _ (Expr.self_mem_nodes (.new site className))).typeOf.trans typed)
  | @unary site operator operand type result _ isValue fits typed ih =>
    have agreesHere := agrees _ (Expr.self_mem_nodes (.unary site operator operand))
    refine .unary (ih fun node nodeMem => agrees node ?_) isValue fits
      (agreesHere.typeOf.trans typed)
    simp [Expr.nodes, nodeMem]
  | @binary site operator left right _ _ _ _ _ leftIsValue rightIsValue fits typed leftIh rightIh =>
    have agreesHere := agrees _ (Expr.self_mem_nodes (.binary site operator left right))
    refine .binary (leftIh fun node nodeMem => agrees node ?_) (rightIh fun node nodeMem =>
      agrees node ?_)
      leftIsValue rightIsValue fits (agreesHere.typeOf.trans typed) <;> simp [Expr.nodes, nodeMem]
  | @callBare site name arguments types _ _ _ _ _ lengthEq areValues fits
      dispatched recorded typed ih =>
    have agreesHere := agrees _ (Expr.self_mem_nodes (.call site none name arguments))
    refine .callBare (fun pair pairMem =>
      ih pair pairMem fun node nodeMem => agrees node ?_) lengthEq
      areValues fits dispatched (agreesHere.call.trans recorded) (agreesHere.typeOf.trans typed)
    have inArguments := Expr.mem_nodesAll.mpr ⟨pair.1, (List.of_mem_zip pairMem).1, nodeMem⟩
    simp [Expr.nodes, inArguments]
  | @callOn site receiver name arguments _ types _ _ _ _ _ _ lengthEq areValues
      fits dispatched recorded typed receiverIh ih =>
      have agreesHere := agrees _ (Expr.self_mem_nodes (.call site (some receiver) name arguments))
      refine .callOn (receiverIh fun node nodeMem => agrees node ?_)
        (fun pair pairMem => ih pair pairMem fun node nodeMem => agrees node ?_)
        lengthEq areValues fits
        dispatched (agreesHere.call.trans recorded) (agreesHere.typeOf.trans typed)
      · simp [Expr.nodes, nodeMem]
      · have inArguments := Expr.mem_nodesAll.mpr ⟨pair.1, (List.of_mem_zip pairMem).1, nodeMem⟩
        simp [Expr.nodes, inArguments]
  | @fieldAccess site receiver name _ _ _ _ _ fits named typed ih =>
    have agreesHere := agrees _ (Expr.self_mem_nodes (.fieldAccess site receiver name))
    refine .fieldAccess (ih fun node nodeMem => agrees node ?_) fits (agreesHere.field.trans named)
      (agreesHere.typeOf.trans typed)
    simp [Expr.nodes, nodeMem]
  | @step site operator yieldsNew target _ _ assignable numeric typed ih =>
    have agreesHere := agrees _ (Expr.self_mem_nodes (.step site operator yieldsNew target))
    refine .step (ih fun node nodeMem => agrees node ?_) assignable numeric
      (agreesHere.typeOf.trans typed)
    simp [Expr.nodes, nodeMem]

theorem exists_means_of_mem {arguments : List Expr} {types : List DataType} {argument : Expr}
    (means : ∀ pair ∈ arguments.zip types, Means setting table pair.1 (.value pair.2))
    (length_eq : types.length = arguments.length) (isArgument : argument ∈ arguments) :
    ∃ meaning, Means setting table argument meaning := by
  rcases List.getElem_of_mem isArgument with ⟨rank, inRange, rfl⟩
  have isPair : (arguments[rank], types[rank]) ∈ arguments.zip types :=
    List.mem_iff_getElem.mpr ⟨rank, by simp [length_eq, inRange], by simp⟩
  exact ⟨_, means _ isPair⟩

theorem Means.of_mem_children {child : Expr} (means : Means setting table expr meaning)
    (isChild : child ∈ expr.children) : ∃ meaning, Means setting table child meaning := by
  cases means with
  | literal | ofVariable | ofField | ofClass | this | super | new => simp [Expr.children] at isChild
  | unary operandMeans => exact ⟨_, List.mem_singleton.mp isChild ▸ operandMeans⟩
  | binary leftMeans rightMeans =>
    rcases List.mem_pair.mp isChild with rfl | rfl
    · exact ⟨_, leftMeans⟩
    · exact ⟨_, rightMeans⟩
  | callBare argumentsMean lengthEq => exact exists_means_of_mem argumentsMean lengthEq isChild
  | callOn receiverMeans argumentsMean lengthEq =>
    rcases List.mem_cons.mp isChild with rfl | isArgument
    · exact ⟨_, receiverMeans⟩
    · exact exists_means_of_mem argumentsMean lengthEq isArgument
  | fieldAccess receiverMeans => exact ⟨_, List.mem_singleton.mp isChild ▸ receiverMeans⟩
  | step targetMeans => exact ⟨_, List.mem_singleton.mp isChild ▸ targetMeans⟩

/-- Every node of an expression with a meaning has one. -/
theorem Means.of_mem_nodes (means : Means setting table expr meaning)
    (isNode : node ∈ expr.nodes) : ∃ meaning, Means setting table node meaning := by
  induction expr using Expr.induction_children generalizing meaning with
  | each expr ih =>
    rcases Expr.mem_nodes_iff.mp isNode with rfl | ⟨child, isChild, inChild⟩
    · exact ⟨meaning, means⟩
    · rcases means.of_mem_children isChild with ⟨meaning, childMeans⟩
      exact ih child isChild childMeans inChild

theorem Means.value_of_isAssignable (means : Means setting table expr meaning)
    (assignable : Checking.isAssignable setting expr = true) : ∃ type, meaning = .value type := by
  cases means with
  | ofClass bound => simp [Checking.isAssignable, bound] at assignable
  | super isInstance parentEq => simp [Checking.isAssignable] at assignable
  | _ => exact ⟨_, rfl⟩

theorem Means.eq_super {parent : ClassId} (means : Means setting table expr (.asParent parent)) :
    expr.isSuper = true ∧ setting.method.isStatic = false := by
  cases means with
  | super isInstance _ => exact ⟨rfl, isInstance⟩

/-- The type of a value is on record. -/
theorem Means.typeOf? (means : Means setting table expr (.value type)) :
    table.typeOf? expr.id = some type := by
  cases means <;> assumption

/-- An expression is a value of a type. -/
structure HasType (setting : Setting) (table : TypeTable) (expr : Expr) (type : DataType) :
    Prop where
  means : Means setting table expr (.value type)
  isValue : type ≠ .void

theorem HasType.congr (hasType : HasType setting table expr type)
    (agrees : ∀ node ∈ expr.nodes, other.AgreesAt table node.id) :
    HasType setting other expr type :=
  ⟨hasType.means.congr agrees, hasType.isValue⟩

/-- A statement is accepted; `inLoop` tells whether there is a loop around it. -/
inductive Accepted (setting : Setting) (table : TypeTable) : Bool → Stmt → Prop where
  | block {inLoop : Bool} {site : Site StmtId} {statements : List Stmt}
      (all : ∀ stmt ∈ statements, Accepted setting table inLoop stmt) :
      Accepted setting table inLoop (.block site statements)
  | ifElse {inLoop : Bool} {site : Site StmtId} {condition : Expr} {thenBranch : Stmt}
      {elseBranch : Option Stmt} (conditionTyped : HasType setting table condition .bool)
      (thenAccepted : Accepted setting table inLoop thenBranch)
      (elseAccepted : ∀ stmt ∈ elseBranch, Accepted setting table inLoop stmt) :
      Accepted setting table inLoop (.ifElse site condition thenBranch elseBranch)
  | whileLoop {inLoop : Bool} {site : Site StmtId} {condition : Expr} {body : Stmt}
      (conditionTyped : HasType setting table condition .bool)
      (bodyAccepted : Accepted setting table true body) :
      Accepted setting table inLoop (.whileLoop site condition body)
  | forLoop {inLoop : Bool} {site : Site StmtId} {init : Option Stmt} {condition : Option Expr}
      {update : Option Stmt} {body : Stmt}
      (initAccepted : ∀ stmt ∈ init, Accepted setting table inLoop stmt)
      (conditionTyped : ∀ expr ∈ condition, HasType setting table expr .bool)
      (updateAccepted : ∀ stmt ∈ update, Accepted setting table true stmt)
      (bodyAccepted : Accepted setting table true body) :
      Accepted setting table inLoop (.forLoop site init condition update body)
  | retNone {inLoop : Bool} {site : Site StmtId} (isVoid : setting.method.returnType = .void) :
      Accepted setting table inLoop (.ret site none)
  | retValue {inLoop : Bool} {site : Site StmtId} {value : Expr} {type : DataType}
      (notVoid : setting.method.returnType ≠ .void) (valueTyped : HasType setting table value type)
      (fits : setting.registry.isAssignable type setting.method.returnType = true) :
      Accepted setting table inLoop (.ret site (some value))
  | evaluate {inLoop : Bool} {site : Site StmtId} {expr : Expr} {type : DataType}
      (means : Means setting table expr (.value type)) : Accepted setting table
      inLoop (.evaluate site expr)
  | assign {inLoop : Bool} {site : Site StmtId} {target value : Expr} {expected type : DataType}
      (assignable : Checking.isAssignable setting target = true)
      (targetMeans : Means setting table target (.value expected))
      (valueTyped : HasType setting table value type)
      (fits : setting.registry.isAssignable type expected = true) :
      Accepted setting table inLoop (.assign site target value)
  | declare {inLoop : Bool} {site : Site StmtId} {declared : List VariableDecl} :
      Accepted setting table inLoop (.declare site declared)
  | print {inLoop : Bool} {site : Site StmtId} {value : Expr} {type : DataType}
      (valueTyped : HasType setting table value type)
      (printable : Checking.isPrintable type = true) :
      Accepted setting table inLoop (.print site value)
  | breakLoop {site : Site StmtId} : Accepted setting table true (.breakLoop site)
  | continueLoop {site : Site StmtId} : Accepted setting table true (.continueLoop site)
  | skip {inLoop : Bool} {site : Site StmtId} : Accepted setting table inLoop (.skip site)

theorem Accepted.congr (accepted : Accepted setting table inLoop stmt)
    (agrees : ∀ node ∈ stmt.exprNodes, other.AgreesAt table node.id) :
    Accepted setting other inLoop stmt := by
  induction accepted with
  | @block _ site statements _ ih =>
    refine .block fun stmt stmtMem => ih stmt stmtMem fun node nodeMem => agrees node ?_
    exact Stmt.exprNodes_subset_all stmtMem nodeMem
  | @ifElse _ site condition thenBranch elseBranch conditionTyped _ _ thenIh elseIh =>
    cases elseBranch with
    | none =>
      simp only [Stmt.exprNodes, List.mem_append] at agrees
      exact .ifElse (conditionTyped.congr fun node nodeMem => agrees node (.inl nodeMem))
        (thenIh fun node nodeMem => agrees node (.inr nodeMem)) (by simp)
    | some elseBranch =>
      simp only [Stmt.exprNodes, List.mem_append] at agrees
      refine .ifElse (conditionTyped.congr fun node nodeMem => agrees node (.inl (.inl nodeMem)))
        (thenIh fun node nodeMem => agrees node (.inl (.inr nodeMem))) ?_
      rintro stmt ⟨⟩
      exact elseIh elseBranch rfl fun node nodeMem => agrees node (.inr nodeMem)
  | whileLoop conditionTyped _ ih =>
    simp only [Stmt.exprNodes, List.mem_append] at agrees
    exact .whileLoop (conditionTyped.congr fun node nodeMem => agrees node (.inl nodeMem))
      (ih fun node nodeMem => agrees node (.inr nodeMem))
  | @forLoop _ site init condition update body _ conditionTyped _ _ initIh updateIh bodyIh =>
    simp only [Stmt.mem_exprNodes_forLoop] at agrees
    refine .forLoop ?_ ?_ ?_ (bodyIh fun node nodeMem => agrees node (.inr (.inr (.inr nodeMem))))
    · intro stmt isInit
      exact initIh stmt isInit fun node nodeMem => agrees node (.inl ⟨stmt, isInit, nodeMem⟩)
    · rintro expr ⟨⟩
      exact (conditionTyped expr rfl).congr fun node nodeMem => agrees node (.inr (.inl nodeMem))
    · intro stmt isUpdate
      exact updateIh stmt isUpdate fun node nodeMem =>
        agrees node (.inr (.inr (.inl ⟨stmt, isUpdate, nodeMem⟩)))
  | retNone isVoid => exact .retNone isVoid
  | retValue notVoid valueTyped fits => exact .retValue notVoid (valueTyped.congr agrees) fits
  | evaluate means => exact .evaluate (means.congr agrees)
  | assign assignable targetMeans valueTyped fits =>
    simp only [Stmt.exprNodes, List.mem_append] at agrees
    exact .assign assignable (targetMeans.congr fun node nodeMem => agrees node (.inl nodeMem))
      (valueTyped.congr fun node nodeMem => agrees node (.inr nodeMem)) fits
  | declare => exact .declare
  | print valueTyped printable => exact .print (valueTyped.congr agrees) printable
  | breakLoop => exact .breakLoop
  | continueLoop => exact .continueLoop
  | skip => exact .skip

theorem Accepted.of_mem_children {child : Stmt} (accepted : Accepted setting table inLoop stmt)
    (isChild : child ∈ stmt.children) : ∃ inLoop, Accepted setting table inLoop child := by
  cases accepted with
  | block all => exact ⟨_, all child isChild⟩
  | ifElse _ thenAccepted elseAccepted =>
    rcases List.mem_cons.mp isChild with rfl | isElse
    · exact ⟨_, thenAccepted⟩
    · exact ⟨_, elseAccepted child (Option.mem_toList.mp isElse)⟩
  | whileLoop _ bodyAccepted => exact ⟨_, List.mem_singleton.mp isChild ▸ bodyAccepted⟩
  | forLoop initAccepted _ updateAccepted bodyAccepted =>
    simp only [Stmt.children, List.mem_append, Option.mem_toList,
      List.mem_singleton, or_assoc] at isChild
    rcases isChild with isInit | isUpdate | rfl
    · exact ⟨_, initAccepted child isInit⟩
    · exact ⟨_, updateAccepted child isUpdate⟩
    · exact ⟨_, bodyAccepted⟩
  | _ => simp [Stmt.children] at isChild

/-- Every node of an accepted statement is accepted, some of them inside loops. -/
theorem Accepted.of_mem_nodes {node : Stmt} (accepted : Accepted setting table inLoop stmt)
    (isNode : node ∈ stmt.nodes) : ∃ inLoop, Accepted setting table inLoop node := by
  induction stmt using Stmt.induction_children generalizing inLoop with
  | each stmt ih =>
    rcases Stmt.mem_nodes_iff.mp isNode with rfl | ⟨child, isChild, inChild⟩
    · exact ⟨inLoop, accepted⟩
    · rcases accepted.of_mem_children isChild with ⟨inLoop, childAccepted⟩
      exact ih child isChild childAccepted inChild

theorem Accepted.means_of_mem_exprs
    (accepted : Accepted setting table inLoop stmt) (isOwn : expr ∈ stmt.exprs) :
    ∃ meaning, Means setting table expr meaning := by
  cases accepted with
  | ifElse conditionTyped => exact ⟨_, List.mem_singleton.mp isOwn ▸ conditionTyped.means⟩
  | whileLoop conditionTyped => exact ⟨_, List.mem_singleton.mp isOwn ▸ conditionTyped.means⟩
  | forLoop _ conditionTyped => exact ⟨_, (conditionTyped expr (Option.mem_toList.mp isOwn)).means⟩
  | retValue _ valueTyped => exact ⟨_, List.mem_singleton.mp isOwn ▸ valueTyped.means⟩
  | evaluate means => exact ⟨_, List.mem_singleton.mp isOwn ▸ means⟩
  | assign _ targetMeans valueTyped =>
    rcases List.mem_pair.mp isOwn with rfl | rfl
    · exact ⟨_, targetMeans⟩
    · exact ⟨_, valueTyped.means⟩
  | print valueTyped => exact ⟨_, List.mem_singleton.mp isOwn ▸ valueTyped.means⟩
  | _ => simp [Stmt.exprs] at isOwn

/-- Every node of the expressions in an accepted statement has a meaning. -/
theorem Accepted.means_of_mem
    (accepted : Accepted setting table inLoop stmt) (isNode : node ∈ stmt.exprNodes) :
    ∃ meaning, Means setting table node meaning := by
  induction stmt using Stmt.induction_children generalizing inLoop with
  | each stmt ih =>
    rcases Stmt.mem_exprNodes_iff.mp isNode with ⟨expr, isOwn, inExpr⟩ | ⟨child, isChild, inChild⟩
    · rcases accepted.means_of_mem_exprs isOwn with ⟨meaning, means⟩
      exact means.of_mem_nodes inExpr
    · rcases accepted.of_mem_children isChild with ⟨inLoop, childAccepted⟩
      exact ih child isChild childAccepted inChild

end Decaf
