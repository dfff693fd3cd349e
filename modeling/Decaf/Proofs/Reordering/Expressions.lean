import Decaf.Code.Statement
import Decaf.Proofs.Listing.Accounts
import Decaf.Proofs.Reordering.Steps
import Decaf.Proofs.Reordering.Typing

/-!
# The code of expressions side by side

How the code of an expression uses the temporaries depends on what its names and calls stand for,
but only roughly: whether a name is a variable or a static field, in which way a call reaches its
method, and whether the method has a result. Where two contexts agree on that, the code of the
expression is generated side by side.
-/

namespace Decaf

variable (context other : MethodContext)

/-! ## What two contexts agree on -/

namespace MethodContext

/-- Both fields are static or none is, and they have places both or none has. -/
structure FieldsAlike (field otherField : FieldEntry) : Prop where
  isStatic_eq : otherField.isStatic = field.isStatic
  placed : Option.Rel (fun _ _ => True) (context.layout.offset? field)
    (other.layout.offset? otherField)

/-- Two symbols stand for things of one kind. -/
inductive SymbolsAlike : Symbol → Symbol → Prop
  | ofClass {id otherId : ClassId} : SymbolsAlike (.ofClass id) (.ofClass otherId)
  | ofMethod {id otherId : MethodId} : SymbolsAlike (.ofMethod id) (.ofMethod otherId)
  | ofField {id otherId : FieldId}
      (same : Option.Rel (context.FieldsAlike other) (context.registry.fieldEntry? id)
        (other.registry.fieldEntry? otherId)) :
      SymbolsAlike (.ofField id) (.ofField otherId)
  | ofVariable {id otherId : VariableId}
      (placed : Option.Rel (fun _ _ => True) (context.slotOf? id) (other.slotOf? otherId)) :
      SymbolsAlike (.ofVariable id) (.ofVariable otherId)

/-- Two calls reach their methods in the same way, and both methods have a result or none has. -/
structure TargetsAlike (target otherTarget : CallTarget) : Prop where
  dispatch : SameDispatch target.dispatch otherTarget.dispatch
  callee : Option.Rel (fun method otherMethod => otherMethod.returnType = .void ↔
    method.returnType = .void)
    (context.registry.methodEntry? target.method) (other.registry.methodEntry? otherTarget.method)

/-- Two contexts agree on what a node of an expression stands for. -/
structure NodesAlike (node : Expr) : Prop where
  symbol : node.isName = true →
    Option.Rel (context.SymbolsAlike other) (context.bindings.symbol? node.id)
    (other.bindings.symbol? node.id)
  field : Option.Rel (context.FieldsAlike other)
    ((context.table.field? node.id).bind context.registry.fieldEntry?)
    ((other.table.field? node.id).bind other.registry.fieldEntry?)
  call : Option.Rel (context.TargetsAlike other) (context.table.call? node.id)
    (other.table.call? node.id)
  kind : Option.Rel (fun _ _ => True) (Generating.printKind? context node)
    (Generating.printKind? other node)

end MethodContext

namespace Generating

variable {context other : MethodContext} {position otherPosition : Position}

open MethodContext

/-! ## Names -/

section

variable (receivers : other.frame.hasReceiver = context.frame.hasReceiver)

include receivers

variable {site : Site ExprId}

theorem matches_receiverSlot :
    Matches (fun _ _ => True) (receiverSlot context position) (receiverSlot other position) := by
  refine matches_orFail ?_ _ _
  rw [Frame.receiverSlot?, Frame.receiverSlot?, receivers]
  split
  · exact .some trivial
  · exact .none

theorem matches_readThis : Matches Eq (readThis context position) (readThis other position) :=
  (matches_receiverSlot receivers).bind fun _ _ _ => matches_produce _ _

theorem matches_readOwnField {field otherField : FieldEntry}
    (same : context.FieldsAlike other field otherField) :
    Matches Eq (readOwnField context position field) (readOwnField other position otherField) := by
  refine (matches_orFail same.placed _ _).bind fun _ _ _ => ?_
  refine .ite (by rw [same.isStatic_eq]) (matches_produce _ _) ?_
  refine (matches_receiverSlot receivers).bind fun _ _ _ => matches_acquire.andThen ?_
  rintro ⟨temporary, register⟩
  exact (matches_emit _ _).andThen fun _ => (matches_emit _ _).andThen fun _ => .pure rfl

omit receivers in
theorem matches_readObjectField {field otherField : FieldEntry}
    (same : context.FieldsAlike other field otherField) (object : Option Temporary) :
    Matches Eq (readObjectField context position field object)
      (readObjectField other position otherField object) := by
  refine (matches_orFail same.placed _ _).bind fun _ _ _ => ?_
  refine (matches_operand object).andThen fun base => (matches_load base).andThen fun _ => ?_
  exact (matches_release base).andThen fun _ => matches_produce _ _

theorem matches_readIdentifier {name : String}
    (alike : context.NodesAlike other (.identifier site name)) :
    Matches Eq (readIdentifier context site) (readIdentifier other site) := by
  have symbols := alike.symbol rfl
  rw [Expr.id, Expr.site] at symbols
  unfold readIdentifier
  generalize context.bindings.symbol? site.id = symbol,
    other.bindings.symbol? site.id = otherSymbol at symbols
  cases symbols with
  | none => exact matches_fail _ _
  | some same =>
    cases same with
    | ofClass | ofMethod => exact matches_fail _ _
    | ofVariable placed => exact (matches_orFail placed _ _).bind fun _ _ _ => matches_produce _ _
    | ofField same => exact (matches_orFail same _ _).bind fun _ _ => matches_readOwnField receivers

omit receivers in
theorem matches_newObject {className : String}
    (alike : context.NodesAlike other (.new site className)) :
    Matches Eq (newObject context site) (newObject other site) := by
  have symbols := alike.symbol rfl
  rw [Expr.id, Expr.site] at symbols
  unfold newObject
  generalize context.bindings.symbol? site.id = symbol,
    other.bindings.symbol? site.id = otherSymbol at symbols
  cases symbols with
  | none => exact matches_fail _ _
  | some same =>
    cases same with
    | ofField | ofMethod | ofVariable => exact matches_fail _ _
    | ofClass =>
      refine matches_acquire.andThen ?_
      rintro ⟨object, register⟩
      refine matches_acquire.andThen ?_
      rintro ⟨scratch, scratchRegister⟩
      exact (matches_emitAll _ _).andThen fun _ =>
        (matches_release scratch).andThen fun _ => .pure rfl

end

/-! ## Operators -/

theorem matches_applyUnary (opcode otherOpcode : UnaryOpcode) (value : Option Temporary) :
    Matches Eq (applyUnary position opcode value) (applyUnary position otherOpcode value) := by
  refine (matches_operand value).andThen fun operand => (matches_load operand).andThen fun _ => ?_
  exact (matches_release operand).andThen fun _ => matches_produce _ _

theorem matches_applyBinary {opcode otherOpcode : Option BinaryOpcode}
    (same : Option.Rel (fun _ _ => True) opcode otherOpcode) (left right : Option Temporary) :
    Matches Eq (applyBinary position opcode left right)
      (applyBinary position otherOpcode left right) := by
  refine (matches_operand left).andThen fun left => (matches_operand right).andThen fun right => ?_
  refine (matches_orFail same _ _).bind fun _ _ _ => ?_
  refine (matches_withPool (RegisterPool.ignoresCode_loadPair left right)).andThen ?_
  rintro ⟨leftRegister, rightRegister⟩
  exact (matches_release left).andThen fun _ => (matches_release right).andThen fun _ =>
    matches_produce _ _

theorem matches_branchPast (operator : BinaryOperator) (left : Option Temporary) :
    Matches (fun pair otherPair => pair.1 = otherPair.1) (branchPast position operator left)
      (branchPast position operator left) := by
  refine (matches_operand left).andThen fun left =>
    (matches_spillAllExcept [left]).andThen fun _ => ?_
  refine (matches_load left).andThen fun register =>
    matches_freshLabel.bind fun label otherLabel _ => ?_
  refine (matches_emit _ _).andThen fun _ => (matches_release left).andThen fun _ => ?_
  exact matches_unpinAll.andThen fun _ => .pure rfl

theorem matches_joinRight (target : Register) (label otherLabel : String)
    (right : Option Temporary) :
    Matches Eq (joinRight position target label right)
      (joinRight position target otherLabel right) := by
  refine (matches_operand right).andThen fun right => (matches_load right).andThen fun source => ?_
  refine .bind_if (matches_emitIf _ _ _ _) ?_
  refine (matches_release right).andThen fun _ => (matches_emit _ _).andThen fun _ => ?_
  cases target with
  | result => exact matches_fail _ _
  | general index =>
    refine (matches_withPool (RegisterPool.ignoresCode_acquireSpecific index)).andThen ?_
    rintro ⟨result, _⟩
    exact .pure rfl

/-! ## Places -/

/-- Two places are of one kind; an object is in the same temporary. -/
inductive SamePlace : Place → Place → Prop
  | frame {slot otherSlot : Nat} : SamePlace (.frame slot) (.frame otherSlot)
  | area {offset otherOffset : Nat} : SamePlace (.area offset) (.area otherOffset)
  | heap {object : Temporary} {offset otherOffset : Nat} : SamePlace (.heap object offset)
  (.heap object otherOffset)

section

variable (receivers : other.frame.hasReceiver = context.frame.hasReceiver)

include receivers

theorem matches_ownFieldPlace {field otherField : FieldEntry}
    (same : context.FieldsAlike other field otherField) :
    Matches SamePlace (ownFieldPlace context position field)
      (ownFieldPlace other position otherField) := by
  refine (matches_orFail same.placed _ _).bind fun _ _ _ => ?_
  refine .ite (by rw [same.isStatic_eq]) (.pure .area) ?_
  refine (matches_receiverSlot receivers).bind fun _ _ _ => ?_
  exact (matches_produce _ _).andThen fun _ => .pure .heap

theorem matches_place {target : Expr} (alike : context.NodesAlike other target)
    (object : Option Temporary) :
    Matches SamePlace (place context position target object)
      (place other position target object) := by
  have fields := alike.field
  have symbols := alike.symbol
  cases target with
  | identifier site name =>
    have ownField : Matches SamePlace (namedField context site >>= ownFieldPlace context position)
        (namedField other site >>= ownFieldPlace other position) :=
      (matches_orFail fields _ _).bind fun _ _ => matches_ownFieldPlace receivers
    replace symbols := symbols rfl
    rw [Expr.id, Expr.site] at symbols
    unfold place
    dsimp only
    generalize context.bindings.symbol? site.id = symbol,
      other.bindings.symbol? site.id = otherSymbol at symbols
    cases symbols with
    | none => exact ownField
    | some same =>
      cases same with
      | ofClass | ofField | ofMethod => exact ownField
      | ofVariable placed => exact (matches_orFail placed _ _).bind fun _ _ _ => .pure .frame
  | fieldAccess site receiver name =>
    refine (matches_orFail fields _ _).bind fun field otherField same => ?_
    refine .ite (by rw [needsObject, needsObject, same.isStatic_eq]) ?_
      (matches_ownFieldPlace receivers same)
    exact (matches_orFail same.placed _ _).bind fun _ _ _ =>
      (matches_operand object).andThen fun _ => .pure .heap
  | literal | this | super | new | call | unary | binary | step => exact matches_fail _ _

end

variable {otherPlace : Place}

theorem matches_readPlace (target : Register) {place : Place} (same : SamePlace place otherPlace) :
    Matches Eq (readPlace position target place) (readPlace position target otherPlace) := by
  cases same with
  | frame | area => exact matches_emit _ _
  | heap => exact (matches_load _).andThen fun _ => matches_emit _ _

theorem matches_writePlace (source : Register) {place : Place} (same : SamePlace place otherPlace) :
    Matches Eq (writePlace position source place) (writePlace position source otherPlace) := by
  cases same with
  | frame | area => exact matches_emit _ _
  | heap =>
    exact (matches_load _).andThen fun _ => (matches_emit _ _).andThen fun _ => matches_release _

theorem matches_stepPlace (opcode otherOpcode : BinaryOpcode)
    (isDouble otherIsDouble yieldsNew : Bool) {place : Place} (same : SamePlace place otherPlace) :
    Matches Eq (stepPlace position opcode isDouble yieldsNew place)
      (stepPlace position otherOpcode otherIsDouble yieldsNew otherPlace) := by
  refine matches_acquire.andThen ?_
  rintro ⟨old, oldRegister⟩
  refine (matches_readPlace oldRegister same).andThen fun _ => matches_acquire.andThen ?_
  rintro ⟨new, newRegister⟩
  refine (matches_emit _ _).andThen fun _ => (matches_emit _ _).andThen fun _ => ?_
  refine (matches_writePlace newRegister same).andThen fun _ => .ite Iff.rfl ?_ ?_
  · exact (matches_release old).andThen fun _ => .pure rfl
  · exact (matches_release new).andThen fun _ => .pure rfl

/-! ## Calls -/

theorem matches_pushArgument (argument : Option Temporary) :
    Matches Eq (pushArgument position argument) (pushArgument position argument) := by
  refine (matches_operand argument).andThen fun argument =>
    (matches_load argument).andThen fun _ => ?_
  exact (matches_emit _ _).andThen fun _ => matches_release argument

theorem matches_pushArguments (arguments : List (Option Temporary)) :
    Matches Eq (arguments.forM (pushArgument position))
      (arguments.forM (pushArgument position)) := by
  refine .forM ?_ (List.forall₂_same.mpr fun _ _ => rfl)
  rintro argument _ rfl
  exact matches_pushArgument argument

theorem matches_pushReceiver (receiver : Option Temporary) :
    Matches Eq (pushReceiver position receiver) (pushReceiver position receiver) := by
  refine (matches_operand receiver).andThen fun receiver =>
    (matches_load receiver).andThen fun _ => ?_
  exact (matches_emit _ _).andThen fun _ => .pure rfl

theorem matches_callThrough (receiver : Temporary) (slot otherSlot : Nat) :
    Matches Eq (callThrough position receiver slot) (callThrough position receiver otherSlot) := by
  refine (matches_load receiver).andThen fun _ => (matches_release receiver).andThen fun _ =>
    matches_acquire.andThen ?_
  rintro ⟨vtable, register⟩
  exact (matches_emit _ _).andThen fun _ => (matches_emit _ _).andThen fun _ =>
    matches_release vtable

theorem matches_finishCall {target otherTarget : CallTarget}
    (same : context.TargetsAlike other target otherTarget) (pushed : Nat) :
    Matches Eq (finishCall context position target pushed)
      (finishCall other position otherTarget pushed) := by
  have callees := same.callee
  unfold finishCall
  refine .bind_if (matches_emitIf _ _ _ _) ?_
  generalize context.registry.methodEntry? target.method = callee,
    other.registry.methodEntry? otherTarget.method = otherCallee at callees
  cases callees with
  | none => exact .pure rfl
  | some sameResult =>
    exact .ite sameResult (.pure rfl) ((matches_produce _ _).andThen fun _ => .pure rfl)

section

variable (receivers : other.frame.hasReceiver = context.frame.hasReceiver)

include receivers

variable {expr : Expr}

theorem matches_pushThis : Matches Eq (pushThis context position) (pushThis other position) := by
  refine (matches_receiverSlot receivers).bind fun _ _ _ => matches_acquire.andThen ?_
  rintro ⟨temporary, register⟩
  exact (matches_emit _ _).andThen fun _ => (matches_emit _ _).andThen fun _ =>
    matches_release temporary

theorem matches_callThroughThis (slot otherSlot : Nat) :
    Matches Eq (callThroughThis context position slot)
      (callThroughThis other position otherSlot) := by
  refine (matches_receiverSlot receivers).bind fun _ _ _ => matches_acquire.andThen ?_
  rintro ⟨vtable, register⟩
  refine (matches_emit _ _).andThen fun _ => (matches_emit _ _).andThen fun _ => ?_
  exact (matches_emit _ _).andThen fun _ => matches_release vtable

theorem matches_generateCall {target otherTarget : CallTarget}
    (same : context.TargetsAlike other target otherTarget) (receiver : Option (Option Temporary))
    (arguments : List (Option Temporary)) :
    Matches Eq (generateCall context position target receiver arguments)
      (generateCall other position otherTarget receiver arguments) := by
  have dispatches := same.dispatch
  unfold generateCall
  generalize target.dispatch = dispatch, otherTarget.dispatch = otherDispatch at dispatches
  cases dispatches with
  | virtual =>
    cases receiver with
    | some receiver =>
      refine (matches_pushReceiver receiver).andThen fun receiver =>
        (matches_pushArguments arguments).andThen fun _ => ?_
      refine (matches_spillAllExcept _).andThen fun _ =>
        (matches_callThrough receiver _ _).andThen fun _ => ?_
      exact matches_finishCall same _
    | none =>
      refine (matches_pushThis receivers).andThen fun _ =>
        (matches_pushArguments arguments).andThen fun _ => ?_
      refine (matches_spillAllExcept _).andThen fun _ =>
        (matches_callThroughThis receivers _ _).andThen fun _ => ?_
      exact matches_finishCall same _
  | super =>
    refine (matches_pushThis receivers).andThen fun _ =>
      (matches_pushArguments arguments).andThen fun _ => ?_
    exact (matches_spillAllExcept _).andThen fun _ => (matches_emit _ _).andThen fun _ =>
      matches_finishCall same _
  | static =>
    refine (matches_pushArguments arguments).andThen fun _ =>
      (matches_spillAllExcept _).andThen fun _ => ?_
    exact (matches_emit _ _).andThen fun _ => matches_finishCall same _

/-! ## Expressions -/

omit receivers in
theorem opcode?_alike (operator : BinaryOperator) (isDouble otherIsDouble : Bool) :
    Option.Rel (fun _ _ => True) (operator.opcode? isDouble) (operator.opcode? otherIsDouble) := by
  cases operator <;> first | exact .some trivial | exact .none

omit receivers in
theorem matches_generateExprs {exprs : List Expr}
    (each : ∀ expr ∈ exprs, Matches Eq (generateExpr context expr) (generateExpr other expr)) :
    Matches Eq (generateExprs context exprs) (generateExprs other exprs) := by
  induction exprs with
  | nil => exact .pure rfl
  | cons expr rest ih =>
    refine (each expr List.mem_cons_self).andThen fun _ => ?_
    exact (ih fun later isLater => each later (List.mem_cons_of_mem _ isLater)).andThen fun _ =>
      .pure rfl

/-- The code of an expression, and of the object in front of its dot, is generated side by side. -/
theorem matches_generate (expr : Expr) (alike : ∀ node ∈ expr.nodes,
    context.NodesAlike other node) :
    Matches Eq (generateExpr context expr) (generateExpr other expr) ∧
      Matches Eq (generateTarget context expr) (generateTarget other expr) := by
  have ofChild {expr child : Expr} (alike : ∀ node ∈ expr.nodes, context.NodesAlike other node)
      (isChild : child ∈ expr.children := by simp [Expr.children]) :
      ∀ node ∈ child.nodes, context.NodesAlike other node :=
    fun node isNode => alike node (Expr.nodes_subset_of_child (List.Subset.refl _) isChild isNode)
  have noTarget : Matches Eq (pure none : Generating (Option Temporary)) (pure none) := .pure rfl
  induction expr with
  | literal site value => exact ⟨(matches_produce _ _).some.conclude, noTarget⟩
  | identifier site name =>
    exact ⟨(matches_readIdentifier receivers (alike _ (Expr.self_mem_nodes _))).some.conclude,
      noTarget⟩
  | this site => exact ⟨(matches_readThis receivers).some.conclude, noTarget⟩
  | super site => exact ⟨matches_fail _ _, noTarget⟩
  | new site className =>
    exact ⟨(matches_newObject (alike _ (Expr.self_mem_nodes _))).some.conclude, noTarget⟩
  | unary site operator operand ih =>
    refine ⟨?_, noTarget⟩
    refine (ih (ofChild alike)).1.andThen fun value => ?_
    exact (matches_applyUnary _ _ value).some.conclude
  | binary site operator left right leftIh rightIh =>
    have leftMatches := (leftIh (ofChild alike)).1
    have rightMatches := (rightIh (ofChild alike)).1
    refine ⟨?_, noTarget⟩
    refine .ite Iff.rfl (leftMatches.andThen fun leftValue => ?_)
      (leftMatches.andThen fun leftValue => ?_)
    · refine (matches_branchPast operator leftValue).bind ?_
      rintro ⟨register, label⟩ ⟨_, otherLabel⟩ rfl
      exact rightMatches.andThen fun rightValue =>
        (matches_joinRight register label otherLabel rightValue).some.conclude
    · refine rightMatches.andThen fun rightValue => ?_
      exact (matches_applyBinary (opcode?_alike operator _ _) leftValue rightValue).some.conclude
  | call site receiver name arguments receiverIh argumentsIh =>
    have argumentsMatch : Matches Eq (generateExprs context arguments)
        (generateExprs other arguments) :=
      matches_generateExprs fun argument isArgument =>
        (argumentsIh argument isArgument (ofChild alike (by simp [Expr.children, isArgument]))).1
    have targets := (alike _ (Expr.self_mem_nodes _)).call
    refine ⟨?_, noTarget⟩
    cases receiver with
    | none =>
      refine (matches_orFail targets _ _).bind fun target otherTarget same =>
        argumentsMatch.andThen fun values => ?_
      exact (matches_generateCall receivers same none values).conclude
    | some receiver =>
      refine (matches_orFail targets _ _).bind fun target otherTarget same => ?_
      have evaluated : evaluatesReceiver otherTarget.dispatch =
          evaluatesReceiver target.dispatch := by
        have dispatches := same.dispatch
        generalize target.dispatch = dispatch, otherTarget.dispatch = otherDispatch at dispatches
        cases dispatches <;> rfl
      refine .ite (by rw [evaluated]) ?_ (argumentsMatch.andThen fun values =>
        (matches_generateCall receivers same none values).conclude)
      refine (receiverIh receiver rfl (ofChild alike)).1.andThen fun object => ?_
      exact argumentsMatch.andThen fun values =>
        (matches_generateCall receivers same (some object) values).conclude
  | fieldAccess site receiver name ih =>
    have receiverMatches := (ih (ofChild alike)).1
    have fields := (alike _ (Expr.self_mem_nodes _)).field
    have needs {field otherField : FieldEntry} (same : context.FieldsAlike other field otherField) :
        needsObject otherField receiver = needsObject field receiver := by
      rw [needsObject, needsObject, same.isStatic_eq]
    refine ⟨(matches_orFail fields _ _).bind fun field otherField same =>
      .ite (by rw [needs same]) ?_ ?_, (matches_orFail fields _ _).bind fun field otherField same =>
      .ite (by rw [needs same]) receiverMatches noTarget⟩
    · exact receiverMatches.andThen fun object =>
        (matches_readObjectField same object).some.conclude
    · exact (matches_readOwnField receivers same).some.conclude
  | step site operator yieldsNew target ih =>
    have targetAlike := ofChild alike (by simp [Expr.children] : target ∈ _)
    refine ⟨(ih targetAlike).2.andThen fun object => ?_, noTarget⟩
    refine Matches.conclude
      ((matches_place receivers (targetAlike _ (Expr.self_mem_nodes _)) object).bind ?_)
    intro place otherPlace same
    exact (matches_stepPlace _ _ _ _ yieldsNew same).some

theorem matches_generateExpr (alike : ∀ node ∈ expr.nodes, context.NodesAlike other node) :
    Matches Eq (generateExpr context expr) (generateExpr other expr) :=
  (matches_generate receivers expr alike).1

theorem matches_generateValue (alike : ∀ node ∈ expr.nodes, context.NodesAlike other node) :
    Matches Eq (generateValue context expr) (generateValue other expr) :=
  (matches_generateExpr receivers alike).andThen matches_operand

end

end Generating

end Decaf
