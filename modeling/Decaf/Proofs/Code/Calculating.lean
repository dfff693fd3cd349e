import Decaf.Proofs.Code.ShortCircuit
import Decaf.Proofs.Tree.Nodes
import Decaf.Typing.Setting

/-!
# What expressions calculate

The calculation of an expression without calls and new objects, on the memory of a method: slots,
the static area and the heap. Which operations it is made of, and where in memory the names lead, is
decided by what earlier phases found out.
-/

namespace Decaf

open Generation (Calculation)

/-- Neither a call nor `new`. -/
def Expr.isQuiet : Expr → Bool
  | .call .. | .new .. => false
  | .literal .. | .identifier .. | .this .. | .super .. | .fieldAccess .. | .unary .. | .binary ..
  | .step .. => true

/-- There is no call and no `new` in an expression. -/
def Expr.IsQuiet (expr : Expr) : Prop := ∀ node ∈ expr.nodes, node.isQuiet = true

instance (expr : Expr) : Decidable expr.IsQuiet :=
  inferInstanceAs (Decidable (∀ node ∈ expr.nodes, node.isQuiet = true))

namespace MethodContext

variable (context : MethodContext)

/-- The field that an expression was found to name. -/
def fieldNamed? (site : Site ExprId) : Option FieldEntry :=
  (context.table.field? site.id).bind context.registry.fieldEntry?

/-- The location that an expression names, given the object in front of the dot where one is
needed. -/
def location? (object : List Word) (memory : Memory) : Expr → Option Location
  | .identifier site _ =>
    match context.bindings.symbol? site.id with
    | some (.ofVariable id) =>
      ((context.registry.variableEntry? id).bind context.frame.slot?).map .slot
    | some (.ofClass _) | some (.ofField _) | some (.ofMethod _) | none =>
      (context.fieldNamed? site).bind fun field =>
        (context.layout.offset? field).map fun offset => Generating.ownLocation field offset memory
  | .fieldAccess site receiver _ =>
    (context.fieldNamed? site).bind fun field =>
      (context.layout.offset? field).bind fun offset =>
        if Generating.needsObject field receiver then object.head?.map fun object =>
          .field object offset
        else some (Generating.ownLocation field offset memory)
  | .literal .. | .this .. | .super .. | .new .. | .call .. | .unary .. | .binary .. | .step .. =>
    none

/-- What the object in front of a dot calculates, where it is needed. -/
def objectOf (site : Site ExprId) (receiver : Expr) (value : Calculation Word) :
    Calculation (List Word) :=
  if ∃ field ∈ context.fieldNamed? site,
    Generating.needsObject field receiver = true then value.single
  else fun _ memory => some ([], memory)

/-- Reads from the location that an expression names. -/
def read (target : Expr) (object : Calculation (List Word)) :
    Calculation Word := fun primitives memory =>
  (object primitives memory).bind fun outcome =>
    ((context.location? outcome.1 outcome.2 target).bind outcome.2.read?).map fun word =>
      (word, outcome.2)

mutual

/-- What an expression calculates. -/
def compute : Expr → Calculation Word
  | .literal _ value => fun primitives memory => some (value.word primitives, memory)
  | .identifier site name => context.read (.identifier site name) fun _ memory => some ([], memory)
  | .this _ => fun _ memory => some (memory.frame 0, memory)
  | .super _ => fun _ _ => none
  | .new _ _ => fun _ _ => none
  | .call _ _ _ _ => fun _ _ => none
  | .unary _ operator inner => fun primitives memory =>
    (compute inner primitives memory).bind fun outcome =>
      (primitives.unary (operator.opcode (context.isDouble inner)) outcome.1).map fun word =>
        (word, outcome.2)
  | .binary _ operator left right =>
    if operator.isShortCircuit then operator.shortCircuit (compute left) (compute right)
    else fun primitives memory =>
      (compute left primitives memory).bind fun leftOutcome =>
        (compute right primitives leftOutcome.2).bind fun rightOutcome =>
          (operator.opcode? (context.isDouble left)).bind fun opcode =>
            (primitives.binary opcode leftOutcome.1 rightOutcome.1).map fun word =>
              (word, rightOutcome.2)
  | .fieldAccess site receiver name =>
    context.read (.fieldAccess site receiver name)
      (context.objectOf site receiver (compute receiver))
  | .step site operator yieldsNew target => fun primitives memory =>
    let isDouble := context.table.typeOf? site.id = some .double
    (computeObject target primitives memory).bind fun outcome =>
      (context.location? outcome.1 outcome.2 target).bind
        (outcome.2.step primitives (operator.opcode isDouble) isDouble yieldsNew)
termination_by structural expr => expr

/-- What the object in front of the dot of an expression calculates, where it is needed. -/
def computeObject : Expr → Calculation (List Word)
  | .fieldAccess site receiver _ => context.objectOf site receiver (compute receiver)
  | .literal _ _ => fun _ memory => some ([], memory)
  | .identifier _ _ => fun _ memory => some ([], memory)
  | .this _ => fun _ memory => some ([], memory)
  | .super _ => fun _ memory => some ([], memory)
  | .new _ _ => fun _ memory => some ([], memory)
  | .call _ _ _ _ => fun _ memory => some ([], memory)
  | .unary _ _ _ => fun _ memory => some ([], memory)
  | .binary _ _ _ _ => fun _ memory => some ([], memory)
  | .step _ _ _ _ => fun _ memory => some ([], memory)
termination_by structural expr => expr

end

/-- What an assignment does: the object in front of the dot comes before the value. -/
def computeAssign (target value : Expr) :
    Primitives → Memory → Option Memory := fun primitives memory =>
  (context.computeObject target primitives memory).bind fun object =>
    (context.compute value primitives object.2).bind fun outcome =>
      (context.location? object.1 outcome.2 target).bind (outcome.2.write? outcome.1)

/-! ## What earlier phases have recorded -/

/-- What surrounds the code of the method for the type checker. -/
def setting : Setting := ⟨context.registry, context.bindings, context.method⟩

/-- Variables, fields and the current object are where the generator looks for them. -/
structure Complete : Prop where
  fieldId : ∀ {id field}, context.registry.fieldEntry? id = some field → field.id = id
  methodId : ∀ {id method}, context.registry.methodEntry? id = some method → method.id = id
  slot : ∀ {id entry}, context.registry.variableEntry? id = some entry →
    entry.method = context.method.id →
    ∃ slot, context.frame.slot? entry = some slot ∧ slot < context.frame.spillBase
  offset : ∀ {id field}, context.registry.fieldEntry? id = some field →
    ∃ offset, context.layout.offset? field = some offset
  receiver : context.method.isStatic = false → context.frame.hasReceiver = true

end MethodContext

end Decaf
