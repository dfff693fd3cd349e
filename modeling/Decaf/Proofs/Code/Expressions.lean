import Decaf.Code.Statement
import Decaf.Proofs.Code.Calculating
import Decaf.Proofs.Code.Calls
import Decaf.Proofs.Typing.Meaning
import Decaf.Proofs.Typing.Rules

/-!
# Code for expressions

The code of a well-typed expression is generated without fail. It leaves a temporary for the value,
and if there is no call in it, then that temporary stands for what the expression calculates.
-/

namespace Decaf

open Generation

namespace Generating

variable {context : MethodContext} {before between : Generation}

/-- A block ends with a value in a register, and the value is what is calculated. -/
structure Calculates (before after : Generation) (block : List Instruction)
    (result : Option Temporary) (calculation : Calculation Word) : Prop where
  simulates : Simulates before after block result.toList calculation.single
  isResident : ∃ value ∈ result, after.pool.IsResident value

/-- The code of an expression of some type is generated; if there is a value there is a temporary
for it. -/
def Generates (context : MethodContext) (expr : Expr) (type : DataType) : Prop :=
  ∀ before : Generation, before.Ready → before.pool.spillBase = context.frame.spillBase →
    Succeeds (generateExpr context expr) before fun result after => (type ≠ .void → result.isSome) ∧
      ∃ block, Delivers before after block result.toList ∧
        (expr.IsQuiet → Calculates before after block result (context.compute expr))

/-- The code of an expression is generated by a step, and then there is a temporary for its
value. -/
def GeneratesValue (context : MethodContext) (step : Generating (Option Temporary)) (expr : Expr) :
    Prop :=
  ∀ before : Generation, before.Ready → before.pool.spillBase = context.frame.spillBase →
    Succeeds step before fun result after => ∃ value, result = some value ∧
      ∃ block, Delivers before after block [value] ∧
        (expr.IsQuiet → Calculates before after block (some value) (context.compute expr))

/-- The code of the object in front of a dot is generated by a step, and then there is a place for a
target. -/
def GeneratesObject (context : MethodContext) (step : Generating (Option Temporary))
    (target : Expr) : Prop :=
  ∀ before : Generation, before.Ready → before.pool.spillBase = context.frame.spillBase →
    Succeeds step before fun object between =>
      (∃ block, Delivers before between block object.toList ∧
        (target.IsQuiet → Simulates before between block object.toList
          (context.computeObject target))) ∧
      ∃ locate : List Word → Memory → Location,
        (∀ words memory, words.length = object.toList.length →
          context.location? words memory target = some (locate words memory)) ∧
        ∀ {middle : Generation} {position : Position}, middle.Ready →
          middle.pool.spillBase = context.frame.spillBase →
          (∀ temporary ∈ object, middle.pool.IsLive temporary) →
          Succeeds (place context position target object) middle fun place after =>
            Locates middle after place object.toList fun memory contents =>
              locate (object.toList.map contents) memory

namespace Generates

variable {expr : Expr} {type : DataType}

section

variable (generates : Generates context expr type) (isValue : type ≠ .void)
include generates isValue

theorem value : GeneratesValue context (generateExpr context expr) expr := by
  intro before ready baseEq
  refine (generates before ready baseEq).mono ?_
  rintro result after ⟨isThere, block, delivers, simulates⟩
  rcases Option.isSome_iff_exists.mp (isThere isValue) with ⟨value, rfl⟩
  exact ⟨value, rfl, block, delivers, simulates⟩

theorem succeeds_generateValue (ready : before.Ready)
    (baseEq : before.pool.spillBase = context.frame.spillBase) :
    Succeeds (generateValue context expr) before fun value after => ∃ block,
      Delivers before after block [value] ∧
      (expr.IsQuiet → Calculates before after block (some value) (context.compute expr)) := by
  refine (generates.value isValue before ready baseEq).bind ?_
  rintro _ after ⟨value, rfl, delivered⟩
  refine (succeeds_operand rfl expr.position).mono ?_
  rintro _ _ ⟨rfl, rfl⟩
  exact delivered

theorem operand : GeneratesValue context (some <$> generateValue context expr) expr := by
  intro before ready baseEq
  exact (generates.succeeds_generateValue isValue ready baseEq).map fun value _ delivered =>
    ⟨value, rfl, delivered⟩

end

end Generates

variable {expr : Expr} {type : DataType} {effect : Effect} {step : Generating Temporary}

/-! ## Operations behind operands -/

/-- An operation is concluded behind the block of its operands. -/
theorem succeeds_conclude_yields {made : List Temporary} {block : List Instruction}
    (early : Delivers before between block made) (wellFormed : before.pool.WellFormed)
    {calculation : Calculation (List Word)}
    (simulates : expr.IsQuiet → Simulates before between block made calculation)
    (act : List Word → Calculation Word)
    (computeEq : expr.IsQuiet → context.compute expr = fun primitives memory =>
      (calculation primitives memory).bind fun outcome => act outcome.1 primitives outcome.2)
    (effectEq : ∀ primitives memory contents,
      effect primitives memory contents = act (made.map contents) primitives memory)
    (succeeds : Succeeds step between fun result after => Yields between after made result effect) :
    Succeeds (conclude (some <$> step)) between fun result after => (type ≠ .void → result.isSome) ∧
      ∃ block, Delivers before after block result.toList ∧
        (expr.IsQuiet → Calculates before after block result (context.compute expr)) := by
  have stepped : Succeeds (some <$> step) between fun result after =>
      ∃ temporary, result = some temporary ∧ Yields between after made temporary effect :=
    succeeds.map fun temporary after yields => ⟨temporary, rfl, yields⟩
  refine (succeeds_conclude stepped).mono ?_
  rintro _ _ ⟨last, ⟨temporary, rfl, yields⟩, rfl⟩
  rcases early.exists_yields wellFormed yields with ⟨larger, delivers, isResident, simulatesLarger⟩
  refine ⟨fun _ => rfl, larger, delivers, fun isQuiet => ⟨?_, temporary, rfl, isResident⟩⟩
  rw [computeEq isQuiet]
  intro primitives code first machine contents memory placed distinct tracks
  unfold Calculation.single
  rw [Option.map_bind]
  exact simulatesLarger (simulates isQuiet) effectEq _ _ _ _ _ _ placed distinct tracks

/-- An operation without operands is concluded. -/
theorem succeeds_conclude_leaf (ready : before.Ready) {act : Calculation Word}
    (succeeds : Succeeds step before fun result after => Yields before after [] result effect)
    (effectEq : ∀ primitives memory contents,
      effect primitives memory contents = act primitives memory)
    (computeEq : context.compute expr = act) :
    Succeeds (conclude (some <$> step)) before fun result after => (type ≠ .void → result.isSome) ∧
      ∃ block, Delivers before after block result.toList ∧
        (expr.IsQuiet → Calculates before after block result (context.compute expr)) :=
  succeeds_conclude_yields (.nil ready) ready.wellFormed (fun _ => Simulates.nil) (fun _ => act)
    (fun _ => computeEq) effectEq succeeds

/-! ## Leaves -/

theorem generates_literal (site : Site ExprId) (value : Literal) (type : DataType) :
    Generates context (.literal site value) type := by
  intro before ready baseEq
  exact succeeds_conclude_leaf ready (succeeds_produce_literal ready value) (fun _ _ _ => rfl) rfl

theorem read?_ownLocation (field : FieldEntry) (offset : Nat) (memory : Memory) :
    memory.read? (ownLocation field offset memory) = memory.ownField? field offset := by
  unfold ownLocation Memory.ownField?
  split <;> rfl

section

variable (complete : context.Complete)

include complete

variable {site : Site ExprId} {field : FieldEntry}

theorem hasReceiver_of_isInstance (isInstance : context.method.isStatic = false)
    {generation : Generation} (baseEq : generation.pool.spillBase = context.frame.spillBase) :
    context.frame.hasReceiver = true ∧ 0 < generation.pool.spillBase := by
  have hasReceiver := complete.receiver isInstance
  refine ⟨hasReceiver, ?_⟩
  rw [baseEq]
  simp only [Frame.spillBase, Frame.incoming, Frame.firstArgument, hasReceiver, if_true]
  omega

theorem generates_this (site : Site ExprId) (isInstance : context.method.isStatic = false)
    (type : DataType) : Generates context (.this site) type := by
  intro before ready baseEq
  rcases hasReceiver_of_isInstance complete isInstance baseEq with ⟨hasReceiver, inFrame⟩
  exact succeeds_conclude_leaf ready (succeeds_readThis ready hasReceiver inFrame)
    (fun _ _ _ => rfl) rfl

theorem generates_variable {id : VariableId} {entry : VariableEntry}
    (bound : context.bindings.symbol? site.id = some (.ofVariable id))
    (found : context.registry.variableEntry? id = some entry)
    (own : entry.method = context.method.id) (name : String) (type : DataType) :
    Generates context (.identifier site name) type := by
  intro before ready baseEq
  rcases complete.slot found own with ⟨slot, slotEq, inFrame⟩
  refine succeeds_conclude_leaf ready
    (succeeds_readIdentifier_variable ready bound found slotEq (baseEq ▸ inFrame))
    (fun _ _ _ => rfl) ?_
  funext primitives memory
  simp [MethodContext.compute, MethodContext.read, MethodContext.location?, bound, found,
    slotEq, Memory.read?]

theorem receiverFor_of_fits (fits : context.method.isStatic = true → field.isStatic = true)
    (baseEq : before.pool.spillBase = context.frame.spillBase) :
    ReceiverFor context before field := by
  intro isInstance
  refine hasReceiver_of_isInstance complete ?_ baseEq
  cases isStatic : context.method.isStatic with
  | false => rfl
  | true => rw [fits isStatic] at isInstance; cases isInstance

theorem generates_ownField {id : FieldId}
    (bound : context.bindings.symbol? site.id = some (.ofField id))
    (found : context.registry.fieldEntry? id = some field)
    (fits : context.method.isStatic = true → field.isStatic = true)
    (named : context.table.field? site.id = some field.id) (name : String) (type : DataType) :
    Generates context (.identifier site name) type := by
  intro before ready baseEq
  rcases complete.offset found with ⟨offset, offsetEq⟩
  refine succeeds_conclude_leaf ready (succeeds_readIdentifier_field ready bound found offsetEq
    (receiverFor_of_fits complete fits baseEq)) (fun _ _ _ => rfl) ?_
  funext primitives memory
  have namedHere : context.fieldNamed? site = some field := by
    rw [MethodContext.fieldNamed?, named, Option.bind_some, complete.fieldId found, found]
  simp only [MethodContext.compute, MethodContext.read, MethodContext.location?, bound,
    namedHere, offsetEq, Option.bind_some, Option.map_some, read?_ownLocation]
  rfl

end

variable {result leftType rightType : DataType} {left right : Expr} {operator : BinaryOperator}

/-! ## Operators -/

theorem generates_unary {inner : Expr} {type : DataType} (generates : Generates context inner type)
    (isValue : type ≠ .void) (site : Site ExprId) (operator : UnaryOperator) :
    Generates context (.unary site operator inner) result := by
  intro before ready baseEq
  refine (generates.value isValue before ready baseEq).bind ?_
  rintro _ between ⟨value, rfl, block, delivers, simulates⟩
  have isLive := (delivers.exchanges.isLive_iff value).mpr (.inr (List.mem_singleton_self _))
  refine succeeds_conclude_yields delivers ready.wellFormed
    (fun isQuiet => (simulates fun node nodeMem =>
      isQuiet node (by simp [Expr.nodes, nodeMem])).simulates)
    (fun words primitives memory =>
      (words.head?.bind (primitives.unary (operator.opcode (context.isDouble inner)))).map
        fun word => (word, memory))
    (fun _ => ?_) (fun _ _ _ => rfl) (succeeds_applyUnary delivers.ready isLive _)
  funext primitives memory
  simp only [MethodContext.compute, Calculation.single, Option.bind_map]
  rfl

/-- Combines the words of two operands. -/
def onOperands (combine : Word → Word → Option Word) : List Word → Option Word
  | [left, right] => combine left right
  | _ => none

section

variable (leftGenerates : Generates context left leftType)
  (rightGenerates : Generates context right rightType) (leftIsValue : leftType ≠ .void)
  (rightIsValue : rightType ≠ .void) (site)
include leftGenerates rightGenerates leftIsValue rightIsValue

theorem generates_binary (isPlain : operator.isShortCircuit = false) :
    Generates context (.binary site operator left right) result := by
  intro before ready baseEq
  have exists_opcode : ∃ opcode, operator.opcode? (context.isDouble left) = some opcode := by
    cases operator <;> first | exact ⟨_, rfl⟩ | cases isPlain
  rcases exists_opcode with ⟨opcode, opcodeEq⟩
  rw [generateExpr, if_neg (by simp [isPlain])]
  refine (leftGenerates.value leftIsValue before ready baseEq).bind ?_
  rintro _ leftState ⟨leftValue, rfl, leftBlock, leftDelivers, leftSimulates⟩
  refine (rightGenerates.value rightIsValue leftState leftDelivers.ready
    (leftDelivers.emits.base_eq.trans baseEq)).bind ?_
  rintro _ rightState ⟨rightValue, rfl, rightBlock, rightDelivers, rightSimulates⟩
  have delivers := leftDelivers.append rightDelivers
  rw [opcodeEq]
  refine succeeds_conclude_yields delivers ready.wellFormed
    (fun isQuiet => Simulates.append
      (leftSimulates fun node nodeMem => isQuiet node (by simp [Expr.nodes, nodeMem])).simulates
      (rightSimulates fun node nodeMem => isQuiet node (by simp [Expr.nodes, nodeMem])).simulates
      leftDelivers.exchanges)
    (fun words primitives memory => (onOperands (primitives.binary opcode) words).map fun word =>
      (word, memory))
    (fun _ => ?_) (fun _ _ _ => rfl)
    (succeeds_applyBinary delivers.ready
      ((delivers.exchanges.isLive_iff leftValue).mpr (.inr (by simp)))
      ((delivers.exchanges.isLive_iff rightValue).mpr (.inr (by simp))) opcode)
  funext primitives memory
  rw [MethodContext.compute, if_neg (by simp [isPlain])]
  simp only [Calculation.single, opcodeEq, Option.bind_some, Option.bind_map, Option.map_map,
    Option.bind_assoc, Function.comp_def]
  rfl

theorem generates_shortCircuit (isShortCircuit : operator.isShortCircuit = true) :
    Generates context (.binary site operator left right) result := by
  intro before ready baseEq
  rw [generateExpr, if_pos isShortCircuit]
  refine (leftGenerates.value leftIsValue before ready baseEq).bind ?_
  rintro _ leftState ⟨leftValue, rfl, leftBlock, leftDelivers, leftSimulates⟩
  refine (succeeds_branchPast leftDelivers.ready operator
    ((leftDelivers.exchanges.isLive_iff leftValue).mpr (.inr (List.mem_singleton_self _)))).bind ?_
  rintro _ branchState ⟨index, moves, rfl, branched⟩
  have branchBase := branched.emits.base_eq.trans (leftDelivers.emits.base_eq.trans baseEq)
  refine (rightGenerates.value rightIsValue branchState branched.ready branchBase).bind ?_
  rintro _ rightState ⟨rightValue, rfl, rightBlock, rightDelivers, rightSimulates⟩
  have within := rightDelivers.emits.residentsWithin rightDelivers.exchanges branched.vacant
  have joining := @succeeds_joinRight _ site.position rightDelivers.ready _
    ((rightDelivers.exchanges.isLive_iff rightValue).mpr (.inr (List.mem_singleton_self _)))
    within index (rightDelivers.emits.length_eq ▸ branched.emits.length_eq ▸ branched.inRange)
    (Label.inner leftState.emitter.nextLabel)
  have wrapped : Succeeds (some <$> joinRight site.position (.general index)
      (Label.inner leftState.emitter.nextLabel) (some rightValue)) rightState fun result after =>
        ∃ temporary, result = some temporary ∧ ∃ joinBlock, Joined rightState after rightValue index
          (Label.inner leftState.emitter.nextLabel) temporary joinBlock :=
    joining.map fun temporary _ joined => ⟨temporary, rfl, joined⟩
  refine (succeeds_conclude wrapped).mono ?_
  rintro _ _ ⟨after, ⟨temporary, rfl, joinBlock, joined⟩, rfl⟩
  refine ⟨fun _ => rfl, _,
    delivers_shortCircuit ready.wellFormed leftDelivers branched rightDelivers joined,
    fun isQuiet => ⟨?_, temporary, rfl, isResident_unpinned ⟨index, joined.held⟩⟩⟩
  rw [MethodContext.compute, if_pos isShortCircuit]
  exact simulates_shortCircuit ready.wellFormed leftDelivers branched rightDelivers joined
    (leftSimulates fun node nodeMem => isQuiet node (by simp [Expr.nodes, nodeMem])).simulates
    (rightSimulates fun node nodeMem => isQuiet node (by simp [Expr.nodes, nodeMem])).simulates

end

/-! ## Fields of objects -/

/-- A field behind a dot has a place; its object is a value, unless the field belongs to the current
object or to a class. -/
structure FieldFits (context : MethodContext) (site : Site ExprId) (receiver : Expr)
    (field : FieldEntry) (offset : Nat) : Prop where
  named : context.fieldNamed? site = some field
  offset : context.layout.offset? field = some offset
  object : needsObject field receiver = true → ∃ type,
    type ≠ .void ∧ Generates context receiver type
  own : needsObject field receiver = false → field.isStatic = false →
    context.method.isStatic = false

namespace FieldFits

variable {site : Site ExprId} {receiver : Expr} {field : FieldEntry} {offset : Nat}

section

variable (fits : FieldFits context site receiver field offset)
include fits

theorem succeeds_namedField :
    Succeeds (namedField context site) before fun found after => field = found ∧ before = after :=
  succeeds_orFail fits.named _ _

theorem value (needed : needsObject field receiver = true) :
    GeneratesValue context (generateExpr context receiver) receiver := by
  rcases fits.object needed with ⟨type, isValue, generates⟩
  exact generates.value isValue

theorem operand (needed : needsObject field receiver = true) :
    GeneratesValue context (some <$> generateValue context receiver) receiver := by
  rcases fits.object needed with ⟨type, isValue, generates⟩
  exact generates.operand isValue

theorem objectOf_eq (value : Calculation Word) :
    context.objectOf site receiver value =
      if needsObject field receiver = true then value.single else fun _ memory =>
        some ([], memory) := by
  unfold MethodContext.objectOf
  rw [fits.named]
  simp

theorem receiverFor (complete : context.Complete) (notNeeded : needsObject field receiver = false)
    (baseEq : before.pool.spillBase = context.frame.spillBase) : ReceiverFor context before field :=
  fun isInstance => hasReceiver_of_isInstance complete (fits.own notNeeded isInstance) baseEq

theorem generates (complete : context.Complete) (name : String)
    (type : DataType) : Generates context (.fieldAccess site receiver name) type := by
  intro before ready baseEq
  rw [generateExpr]
  refine fits.succeeds_namedField.goOnWith ?_
  cases needed : needsObject field receiver with
  | true =>
    rw [if_pos rfl]
    refine (fits.value needed before ready baseEq).bind ?_
    rintro _ between ⟨value, rfl, block, delivers, simulates⟩
    have isLive := (delivers.exchanges.isLive_iff value).mpr (.inr (List.mem_singleton_self _))
    refine succeeds_conclude_yields delivers ready.wellFormed
      (fun isQuiet => (simulates fun node nodeMem =>
        isQuiet node (by simp [Expr.nodes, nodeMem])).simulates)
      (fun words _ memory =>
        (words.head?.bind fun object => memory.field? object offset).map fun word => (word, memory))
      (fun _ => ?_) (fun _ _ _ => rfl) (succeeds_readObjectField delivers.ready isLive fits.offset)
    funext primitives memory
    rw [MethodContext.compute, fits.objectOf_eq, if_pos needed]
    simp only [MethodContext.read, MethodContext.location?, fits.named, fits.offset, needed,
      Option.bind_some, if_true, Option.bind_map]
    rfl
  | false =>
    rw [if_neg Bool.false_ne_true]
    refine succeeds_conclude_leaf ready
      (succeeds_readOwnField ready fits.offset (fits.receiverFor complete needed baseEq))
      (fun _ _ _ => rfl) ?_
    funext primitives memory
    rw [MethodContext.compute, fits.objectOf_eq, if_neg (by simp [needed])]
    simp only [MethodContext.read, MethodContext.location?, fits.named, fits.offset, needed,
      Option.bind_some, Bool.false_eq_true, if_false, read?_ownLocation]
    rfl

theorem generatesObject (complete : context.Complete)
    (name : String) {step : Generating (Option Temporary)}
    (value : needsObject field receiver = true → GeneratesValue context step receiver) :
    GeneratesObject context (do
      let field ← namedField context site
      if needsObject field receiver then step else return none)
        (.fieldAccess site receiver name) := by
  intro before ready baseEq
  refine fits.succeeds_namedField.goOnWith ?_
  have computeEq : context.computeObject (.fieldAccess site receiver name) =
      context.objectOf site receiver
      (context.compute receiver) := by rw [MethodContext.computeObject]
  cases needed : needsObject field receiver with
  | true =>
    rw [if_pos rfl]
    refine (value needed before ready baseEq).mono ?_
    rintro _ between ⟨object, rfl, block, delivers, simulates⟩
    refine ⟨⟨block, delivers, fun isQuiet => ?_⟩, fun words _ =>
      .field (words.head?.getD .null) offset, ?_, ?_⟩
    · rw [computeEq, fits.objectOf_eq, if_pos needed]
      exact (simulates fun node nodeMem => isQuiet node (by simp [Expr.nodes, nodeMem])).simulates
    · intro words memory lengthEq
      rcases List.length_eq_one_iff.mp lengthEq with ⟨word, rfl⟩
      simp [MethodContext.location?, fits.named, fits.offset, needed]
    · intro middle position middleReady middleBase isLive
      refine fits.succeeds_namedField.goOnWith ?_
      rw [needed, if_pos rfl]
      refine (succeeds_orFail fits.offset position _).goOnWith ?_
      refine (succeeds_operand rfl position).goOnWith ?_
      exact .pure (.of_object middleReady (isLive object rfl) offset)
  | false =>
    rw [if_neg Bool.false_ne_true]
    refine .pure ⟨⟨[], .nil ready, fun _ => ?_⟩, fun _ memory =>
      ownLocation field offset memory, ?_, ?_⟩
    · rw [computeEq, fits.objectOf_eq, if_neg (by simp [needed])]
      exact Simulates.nil
    · intro words memory _
      simp [MethodContext.location?, fits.named, fits.offset, needed]
    · intro middle position middleReady middleBase _
      refine fits.succeeds_namedField.goOnWith ?_
      rw [needed, if_neg Bool.false_ne_true]
      exact succeeds_ownFieldPlace middleReady fits.offset
        (fits.receiverFor complete needed middleBase)

end

end FieldFits

variable {site : Site ExprId} {arguments : List Expr}

/-! ## Names as places -/

theorem generatesObject_variable (complete : context.Complete) {id : VariableId}
    {entry : VariableEntry} (bound : context.bindings.symbol? site.id = some (.ofVariable id))
    (found : context.registry.variableEntry? id = some entry)
    (own : entry.method = context.method.id) (name : String) :
    GeneratesObject context (return none) (.identifier site name) := by
  intro before ready baseEq
  rcases complete.slot found own with ⟨slot, slotEq, inFrame⟩
  refine .pure ⟨⟨[], .nil ready, fun _ => ?_⟩, fun _ _ => .slot slot, ?_, ?_⟩
  · rw [MethodContext.computeObject]
    exact Simulates.nil
  · intro words memory _
    simp [MethodContext.location?, bound, found, slotEq]
  · intro middle position middleReady middleBase _
    simp only [place, bound]
    refine (succeeds_orFail (by rw [found, Option.bind_some, slotEq]) position _).goOnWith ?_
    exact .pure (.of_frame middleReady (middleBase ▸ inFrame))

theorem generatesObject_ownField (complete : context.Complete) {id : FieldId} {field : FieldEntry}
    (bound : context.bindings.symbol? site.id = some (.ofField id))
    (found : context.registry.fieldEntry? id = some field)
    (fits : context.method.isStatic = true → field.isStatic = true)
    (named : context.table.field? site.id = some field.id) (name : String) :
    GeneratesObject context (return none) (.identifier site name) := by
  intro before ready baseEq
  rcases complete.offset found with ⟨offset, offsetEq⟩
  have namedHere : context.fieldNamed? site = some field := by
    rw [MethodContext.fieldNamed?, named, Option.bind_some, complete.fieldId found, found]
  refine .pure ⟨⟨[], .nil ready, fun _ => ?_⟩, fun _ memory =>
    ownLocation field offset memory, ?_, ?_⟩
  · rw [MethodContext.computeObject]
    exact Simulates.nil
  · intro words memory _
    simp [MethodContext.location?, bound, namedHere, offsetEq]
  · intro middle position middleReady middleBase _
    simp only [place, bound]
    refine (succeeds_orFail namedHere _ _).goOnWith ?_
    exact succeeds_ownFieldPlace middleReady offsetEq (receiverFor_of_fits complete fits middleBase)

theorem generates_step {target : Expr}
    (object : GeneratesObject context (generateTarget context target) target) (site : Site ExprId)
    (operator : StepOperator) (yieldsNew : Bool) (type : DataType) :
    Generates context (.step site operator yieldsNew target) type := by
  intro before ready baseEq
  rw [generateExpr]
  refine (object before ready baseEq).bind ?_
  rintro temporary between ⟨⟨block, delivers, simulates⟩, locate, locateEq, locates⟩
  dsimp only
  rw [← map_bind]
  generalize opcodeEq : operator.opcode _ = opcode
  generalize isDoubleEq : decide (context.table.typeOf? site.id = some .double) =
    isDouble at opcodeEq ⊢
  have acts (primitives : Primitives) (memory : Memory) (contents : Temporary → Word) :
      memory.step primitives opcode isDouble yieldsNew
      (locate (temporary.toList.map contents) memory) =
        (context.location? (temporary.toList.map contents) memory target).bind
          (memory.step primitives opcode isDouble yieldsNew) := by
    rw [locateEq _ _ (by rw [List.length_map]), Option.bind_some]
  refine succeeds_conclude_yields delivers ready.wellFormed
    (fun isQuiet => simulates fun node nodeMem => isQuiet node (by simp [Expr.nodes, nodeMem]))
    (fun words primitives memory => (context.location? words memory target).bind
      (memory.step primitives opcode isDouble yieldsNew)) (fun _ => ?_) acts ?_
  · rw [MethodContext.compute, ← opcodeEq, ← isDoubleEq]
  · have isLive : ∀ object ∈ temporary, between.pool.IsLive object := fun object isObject =>
      (delivers.exchanges.isLive_iff object).mpr (.inr (by simpa using isObject))
    refine (locates delivers.ready (delivers.emits.base_eq.trans baseEq) isLive).bind ?_
    rintro place located isLocated
    rcases isLocated.located with ⟨_, emits, _, _⟩
    refine (succeeds_stepPlace emits.wellFormed (emits.length_eq ▸ delivers.ready.enough)
      isLocated.isLive isLocated.pinnedWithin (emits.base_eq ▸ isLocated.below) _ _ _).mono ?_
    rintro result after yields
    exact isLocated.yields delivers.ready.wellFormed yields

/-! ## Calls -/

theorem succeeds_generateExprs {types : List DataType}
    (generate : ∀ pair ∈ arguments.zip types, Generates context pair.1 pair.2)
    (lengthEq : types.length = arguments.length) (areValues : ∀ type ∈ types, type ≠ .void)
    (ready : before.Ready) (baseEq : before.pool.spillBase = context.frame.spillBase) :
    Succeeds (generateExprs context arguments) before fun values after => ∃ temporaries,
      values = temporaries.map some ∧ ∃ block, Delivers before after block temporaries := by
  induction arguments generalizing types before with
  | nil => exact .pure ⟨[], rfl, [], .nil ready⟩
  | cons argument rest ih =>
    cases types with
    | nil => cases lengthEq
    | cons type types =>
      have first : Generates context argument type := generate (argument, type) List.mem_cons_self
      refine (first.value (areValues type List.mem_cons_self) before ready baseEq).bind ?_
      rintro _ between ⟨value, rfl, block, delivers, _⟩
      refine (ih (fun pair inRest => generate pair (List.mem_cons_of_mem _ inRest))
        (Nat.succ.inj lengthEq)
        (fun other isOther => areValues other (List.mem_cons_of_mem _ isOther)) delivers.ready
        (delivers.emits.base_eq.trans baseEq)).bind ?_
      rintro _ after ⟨values, rfl, more, deliversRest⟩
      exact .pure ⟨value :: values, rfl, block ++ more, delivers.append deliversRest⟩

/-- There are no words to speak of where there is a call. -/
theorem not_isQuiet_call {receiver : Option Expr} {name : String} :
    ¬(Expr.call site receiver name arguments).IsQuiet :=
  fun isQuiet => Bool.false_ne_true (isQuiet _ (Expr.self_mem_nodes _))

theorem not_isQuiet_new {className : String} : ¬(Expr.new site className).IsQuiet :=
  fun isQuiet => Bool.false_ne_true (isQuiet _ (Expr.self_mem_nodes _))

/-- A step that is no calculation is concluded behind the block of its operands. -/
theorem succeeds_conclude_performs {expr : Expr} {type : DataType} {made : List Temporary}
    {block : List Instruction} (early : Delivers before between block made)
    (wellFormed : before.pool.WellFormed) {step : Generating (Option Temporary)}
    (notQuiet : ¬expr.IsQuiet)
    (succeeds : Succeeds step between fun result after =>
      (type ≠ .void → result.isSome) ∧ Performs between after made result.toList) :
    Succeeds (conclude step) between fun result after => (type ≠ .void → result.isSome) ∧
      ∃ block, Delivers before after block result.toList ∧
        (expr.IsQuiet → Calculates before after block result (context.compute expr)) := by
  refine (succeeds_conclude succeeds).mono ?_
  rintro result _ ⟨last, ⟨isThere, performs⟩, rfl⟩
  have nodup : result.toList.Nodup := by cases result <;> simp
  rcases early.exists_perform wellFormed performs nodup with ⟨larger, delivers⟩
  exact ⟨isThere, larger, delivers, fun isQuiet => absurd isQuiet notQuiet⟩

theorem generates_new {id : ClassId} (bound : context.bindings.symbol? site.id = some (.ofClass id))
    (className : String) (type : DataType) : Generates context (.new site className) type := by
  intro before ready baseEq
  refine succeeds_conclude_performs (.nil ready) ready.wellFormed not_isQuiet_new
    ((succeeds_newObject ready bound).map fun result after performs => ⟨fun _ => rfl, performs⟩)

section

variable {site : Site ExprId} {target : CallTarget} {callee : MethodEntry} {arguments : List Expr}
  {types : List DataType} (recorded : context.table.call? site.id = some target)
  (found : context.registry.methodEntry? target.method = some callee)
  (generate : ∀ pair ∈ arguments.zip types, Generates context pair.1 pair.2)
  (lengthEq : types.length = arguments.length) (areValues : ∀ type ∈ types, type ≠ .void)

include recorded found generate lengthEq areValues

/-- A call without an object in front of it, or with one that is not evaluated. -/
theorem generates_call_own {receiver : Option Expr}
    (notEvaluated : receiver ≠ none → evaluatesReceiver target.dispatch = false)
    (hasReceiver : target.dispatch ≠ .static → context.frame.hasReceiver = true) (name : String) :
    Generates context (.call site receiver name arguments) callee.returnType := by
  intro before ready baseEq
  have calling : Succeeds (do
      let values ← generateExprs context arguments
      conclude (generateCall context site.position target none values)) before fun result after =>
        (callee.returnType ≠ .void → result.isSome) ∧
          ∃ block, Delivers before after block result.toList ∧
          ((Expr.call site receiver name arguments).IsQuiet →
            Calculates before after block result
            (context.compute (Expr.call site receiver name arguments))) := by
    refine (succeeds_generateExprs generate lengthEq areValues ready baseEq).bind ?_
    rintro _ between ⟨temporaries, rfl, block, delivers⟩
    refine succeeds_conclude_performs delivers ready.wellFormed not_isQuiet_call
      (succeeds_generateCall_own delivers.ready found hasReceiver (fun argument isArgument => ?_)
        delivers.nodup)
    exact (delivers.exchanges.isLive_iff argument).mpr (.inr isArgument)
  cases receiver with
  | none =>
    rw [generateExpr]
    refine (succeeds_orFail recorded _ _).goOnWith ?_
    exact calling
  | some receiver =>
    rw [generateExpr]
    refine (succeeds_orFail recorded _ _).goOnWith ?_
    rw [notEvaluated (Option.some_ne_none _), if_neg Bool.false_ne_true]
    exact calling

/-- A call through an object. -/
theorem generates_call_on {receiver : Expr} {type : DataType}
    (receiverGenerates : Generates context receiver type) (isValue : type ≠ .void) {slot : Nat}
    (isVirtual : target.dispatch = .virtual slot) (name : String) :
    Generates context (.call site (some receiver) name arguments) callee.returnType := by
  intro before ready baseEq
  rw [generateExpr]
  refine (succeeds_orFail recorded _ _).goOnWith ?_
  rw [if_pos (by rw [isVirtual]; rfl)]
  refine (receiverGenerates.value isValue before ready baseEq).bind ?_
  rintro _ objectState ⟨object, rfl, objectBlock, objectDelivers, _⟩
  refine (succeeds_generateExprs generate lengthEq areValues objectDelivers.ready
    (objectDelivers.emits.base_eq.trans baseEq)).bind ?_
  rintro _ between ⟨temporaries, rfl, block, argumentsDeliver⟩
  have delivers := objectDelivers.append argumentsDeliver
  refine succeeds_conclude_performs delivers ready.wellFormed not_isQuiet_call
    (succeeds_generateCall_on delivers.ready found isVirtual (fun operand isOperand => ?_)
      delivers.nodup)
  exact (delivers.exchanges.isLive_iff operand).mpr (.inr isOperand)

end

/-! ## Every expression that has a type -/

section

variable (complete : context.Complete)

include complete

variable {owner : ClassId} {name : String}

theorem exists_entry_of_methodIn {method : MethodEntry}
    (found : context.setting.methodIn owner name = .ok method) :
    context.registry.methodEntry? method.id = some method := by
  unfold Setting.methodIn at found
  split at found
  · rename_i entry isFound
    cases found
    rcases Option.bind_eq_some_iff.mp isFound with ⟨id, _, entryFound⟩
    rw [complete.methodId entryFound]
    exact entryFound
  · cases found

theorem exists_entry_of_fieldIn {field : FieldEntry}
    (found : context.setting.fieldIn owner name = .ok field) :
    context.registry.fieldEntry? field.id = some field := by
  unfold Setting.fieldIn at found
  split at found
  · rename_i entry isFound
    cases found
    rcases Option.bind_eq_some_iff.mp isFound with ⟨id, _, entryFound⟩
    rw [complete.fieldId entryFound]
    exact entryFound
  · cases found

end

section

variable {receiver : Expr} {receiverMeaning : Meaning} {name : String} {owner : ClassId}
  {reach : Reach} (receiverMeans : Means context.setting context.table receiver receiverMeaning)
  (receiverGenerates : ∀ type, receiverMeaning = .value type → Generates context receiver type)

include receiverMeans receiverGenerates

variable {site : Site ExprId}

/-- A field that may be accessed has a place, and the object in front of it has a value. -/
theorem exists_fieldFits (complete : context.Complete) {field : FieldEntry}
    (fits : AccessFits context.setting receiverMeaning name owner reach field)
    (named : context.table.field? site.id = some field.id) :
    ∃ offset, FieldFits context site receiver field offset := by
  have found := exists_entry_of_fieldIn complete fits.found
  rcases complete.offset found with ⟨offset, offsetEq⟩
  refine ⟨offset, by rw [MethodContext.fieldNamed?, named, Option.bind_some, found],
    offsetEq, ?_, ?_⟩
  · intro needed
    have isNeeded : field.isStatic = false ∧ receiver.isSuper = false := by
      simpa [needsObject] using needed
    cases Setting.reached_eq_ok.mp fits.reached with
    | throughObject => exact ⟨_, by simp, receiverGenerates _ rfl⟩
    | throughClass =>
      have faultless := fits.faultless
      simp [Reach.fieldFault?, isNeeded.1] at faultless
    | throughSuper =>
      rw [receiverMeans.eq_super.1] at isNeeded
      cases isNeeded.2
  · intro notNeeded isInstance
    have isSuper : receiver.isSuper = true := by simpa [needsObject, isInstance] using notNeeded
    cases receiver <;> simp [Expr.isSuper] at isSuper
    cases receiverMeans with
    | super isInstance _ => exact isInstance

/-- A call through something has an object in front of it, or needs none but the current one. -/
theorem generates_callOn (complete : context.Complete) {arguments : List Expr}
    {types : List DataType} {method : MethodEntry} {dispatch : Dispatch}
    (generate : ∀ pair ∈ arguments.zip types, Generates context pair.1 pair.2)
    (lengthEq : types.length = arguments.length) (areValues : ∀ type ∈ types, type ≠ .void)
    (fits : CallFits context.setting (some receiverMeaning) name types owner reach method)
    (dispatched : reach.dispatch? method = some dispatch)
    (recorded : context.table.call? site.id = some ⟨method.id, dispatch⟩) :
    Generates context (.call site (some receiver) name arguments) method.returnType := by
  have found := exists_entry_of_methodIn complete fits.found
  unfold Reach.dispatch? at dispatched
  split_ifs at dispatched with isStatic isSuper
  · cases dispatched
    exact generates_call_own recorded found generate lengthEq areValues (fun _ => rfl)
      (fun notStatic => absurd rfl notStatic) name
  · cases dispatched
    refine generates_call_own recorded found generate lengthEq areValues
      (fun _ => rfl) (fun _ => ?_) name
    cases Setting.reached_eq_ok.mp fits.reached with
    | throughObject => cases isSuper
    | throughClass => cases isSuper
    | throughSuper => exact complete.receiver receiverMeans.eq_super.2
  · rcases Option.map_eq_some_iff.mp dispatched with ⟨slot, _, rfl⟩
    cases Setting.reached_eq_ok.mp fits.reached with
    | throughObject =>
      exact generates_call_on recorded found generate lengthEq areValues (receiverGenerates _ rfl)
        (by simp) rfl name
    | throughClass =>
      have faultless := fits.faultless
      simp [Reach.methodFault?, isStatic] at faultless
    | throughSuper => exact absurd rfl isSuper

end

/-- A call by a bare name goes to the current object if it needs one. -/
theorem generates_callBare (complete : context.Complete) {site : Site ExprId} {name : String}
    {arguments : List Expr} {types : List DataType} {owner : ClassId} {reach : Reach}
    {method : MethodEntry} {dispatch : Dispatch}
    (generate : ∀ pair ∈ arguments.zip types, Generates context pair.1 pair.2)
    (lengthEq : types.length = arguments.length) (areValues : ∀ type ∈ types, type ≠ .void)
    (fits : CallFits context.setting none name types owner reach method)
    (dispatched : reach.dispatch? method = some dispatch)
    (recorded : context.table.call? site.id = some ⟨method.id, dispatch⟩) :
    Generates context (.call site none name arguments) method.returnType := by
  refine generates_call_own recorded (exists_entry_of_methodIn complete fits.found)
    generate lengthEq areValues
    (fun isThere => absurd rfl isThere) (fun notStatic => complete.receiver ?_) name
  have isBare : reach = .bare := by
    have reached := fits.reached
    simp only [Setting.reached, Except.ok.injEq, Prod.mk.injEq] at reached
    exact reached.2.symm
  subst isBare
  have isInstance : method.isStatic = false := by
    cases isStatic : method.isStatic with
    | false => rfl
    | true =>
      rw [Reach.dispatch?, if_pos isStatic] at dispatched
      cases dispatched
      exact absurd rfl notStatic
  have faultless := fits.faultless
  cases isStatic : context.method.isStatic with
  | false => rfl
  | true => simp [Reach.methodFault?, isInstance, MethodContext.setting, isStatic] at faultless

/-- The code of every expression that is a value is generated, also where it is assigned to. -/
theorem generates_of_means (complete : context.Complete) {expr : Expr} {meaning : Meaning}
    (means : Means context.setting context.table expr meaning) :
    ∀ type, meaning = .value type → Generates context expr type ∧
      (Checking.isAssignable context.setting expr = true →
        GeneratesObject context (generateTarget context expr) expr ∧
          GeneratesObject context (generateReceiver context expr) expr) := by
  induction means with
  | literal typed =>
    rintro _ ⟨⟩
    exact ⟨generates_literal _ _ _, fun isAssignable => by cases isAssignable⟩
  | @ofVariable site name id entry bound found own typed =>
    rintro _ ⟨⟩
    have generates := generatesObject_variable complete bound found own name
    exact ⟨generates_variable complete bound found own name _, fun _ => ⟨generates, generates⟩⟩
  | @ofField site name id field bound found fits allowed named typed =>
    rintro _ ⟨⟩
    have generates := generatesObject_ownField complete bound found fits named name
    exact ⟨generates_ownField complete bound found fits named name _,
      fun _ => ⟨generates, generates⟩⟩
  | ofClass bound => rintro _ ⟨⟩
  | @this site isInstance typed =>
    rintro _ ⟨⟩
    exact ⟨generates_this complete site isInstance _, fun isAssignable => by cases isAssignable⟩
  | super isInstance parentEq => rintro _ ⟨⟩
  | @new site className id bound typed =>
    rintro _ ⟨⟩
    exact ⟨generates_new bound className _, fun isAssignable => by cases isAssignable⟩
  | @unary site operator operand type result _ isValue fits typed ih =>
    rintro _ ⟨⟩
    exact ⟨generates_unary (ih type rfl).1 isValue site operator,
      fun isAssignable => by cases isAssignable⟩
  | @binary site operator left right leftType rightType result _ _ leftIsValue rightIsValue
      fits typed leftIh rightIh =>
    rintro _ ⟨⟩
    refine ⟨?_, fun isAssignable => by cases isAssignable⟩
    cases isShortCircuit : operator.isShortCircuit with
    | false =>
      exact generates_binary (leftIh _ rfl).1 (rightIh _ rfl).1 leftIsValue
        rightIsValue site isShortCircuit
    | true =>
      exact generates_shortCircuit (leftIh _ rfl).1 (rightIh _ rfl).1 leftIsValue
        rightIsValue site isShortCircuit
  | callBare _ lengthEq areValues fits dispatched recorded typed ih =>
    rintro _ ⟨⟩
    exact ⟨generates_callBare complete (fun pair isPair => (ih pair isPair _ rfl).1) lengthEq
      areValues fits dispatched recorded, fun isAssignable => by cases isAssignable⟩
  | callOn receiverMeans _ lengthEq areValues fits dispatched recorded typed receiverIh ih =>
    rintro _ ⟨⟩
    exact ⟨generates_callOn receiverMeans (fun type isValue => (receiverIh type isValue).1) complete
      (fun pair isPair => (ih pair isPair _ rfl).1) lengthEq areValues fits dispatched recorded,
      fun isAssignable => by cases isAssignable⟩
  | @fieldAccess site receiver name receiverMeaning owner reach field receiverMeans
      fits named typed ih =>
    rintro _ ⟨⟩
    have receiverGenerates := fun type isValue => (ih type isValue).1
    rcases exists_fieldFits receiverMeans receiverGenerates complete fits named with
      ⟨offset, fieldFits⟩
    exact ⟨fieldFits.generates complete name _, fun _ =>
      ⟨fieldFits.generatesObject complete name fieldFits.value,
        fieldFits.generatesObject complete name fieldFits.operand⟩⟩
  | @step site operator yieldsNew target type targetMeans assignable numeric typed ih =>
    rintro _ ⟨⟩
    exact ⟨generates_step ((ih type rfl).2 assignable).1 site operator yieldsNew _,
      fun isAssignable => by cases isAssignable⟩

end Generating

end Decaf
