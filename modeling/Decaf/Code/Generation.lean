import Decaf.Code.Emitter
import Decaf.Code.Frame
import Decaf.Code.ObjectInit
import Decaf.Code.RegisterPool
import Decaf.Diagnostic
import Decaf.Resolution.Bindings
import Decaf.Tree.Expr
import Decaf.Typing.TypeTable

/-!
# Generating code

The code of a method is generated instruction by instruction, with a register pool for the
temporaries. What the generator needs to know of the method it reads in a context. It fails with an
internal error where it meets something that the earlier phases should have rejected.
-/

namespace Decaf

/-- What the generator knows about the method whose code it generates. -/
structure MethodContext where
  registry : Registry
  /-- What the names in method bodies stand for. -/
  bindings : Bindings
  /-- The findings of type checking. -/
  table : TypeTable
  /-- Where the fields are. -/
  layout : Layout
  /-- Where the variables of the method are. -/
  frame : Frame
  method : MethodEntry

namespace MethodContext

/-- Whether an expression is a value of type `double`. -/
def isDouble (context : MethodContext) (expr : Expr) : Bool :=
  context.table.typeOf? expr.id = some .double

end MethodContext

/-- The code of a method under construction and its temporaries. -/
structure Generation where
  pool : RegisterPool
  emitter : Emitter
  deriving DecidableEq, Repr, Inhabited

/-- A step of code generation. -/
abbrev Generating := StateT Generation (Except Diagnostic)

namespace Generating

/-- Gives up with an internal error. -/
def fail {Result : Type} (position : Position) (explanation : String) : Generating Result :=
  throw ⟨position, .internal explanation⟩

/-- The content of an option; where there is none, generation fails. -/
def orFail {Result : Type} (content : Option Result) (position : Position) (explanation : String) :
    Generating Result :=
  match content with
  | some result => return result
  | none => fail position explanation

/-- Adds an instruction. -/
def emit (instruction : Instruction) : Generating Unit :=
  modify fun generation => { generation with emitter := generation.emitter.emit instruction }

/-- Adds several instructions. -/
def emitAll (instructions : List Instruction) : Generating Unit :=
  modify fun generation =>
    { generation with emitter := generation.emitter.append instructions.toArray }

/-- A label that was not handed out before. -/
def freshLabel : Generating String :=
  modifyGet fun generation =>
    let (label, emitter) := generation.emitter.freshLabel
    (label, { generation with emitter })

/-! ## Temporaries -/

/-- Runs an operation on the pool, which adds its instructions to the code. -/
def withPool {Result : Type} (position : Position) (operation : RegisterPool.Operation Result) :
    Generating Result := fun generation =>
  match operation.run ⟨generation.pool, generation.emitter.code⟩ with
  | (.ok result, session) =>
    .ok (result, ⟨session.pool, { generation.emitter with code := session.code }⟩)
  | (.error fault, _) => .error ⟨position, .internal fault.message⟩

/-- Makes a temporary. -/
def acquire (position : Position) : Generating (Temporary × Register) :=
  withPool position RegisterPool.acquire

/-- Makes a temporary, and adds the instruction that puts its value into its register. -/
def produce (position : Position) (instruction : Register → Instruction) :
    Generating Temporary := do
  let (temporary, register) ← acquire position
  emit (instruction register)
  return temporary

/-- The register of a temporary, which is pinned there. -/
def load (position : Position) (temporary : Temporary) : Generating Register :=
  withPool position (RegisterPool.loadOne temporary)

/-- Gives up the place of a temporary. -/
def release (temporary : Temporary) : Generating Unit :=
  modify fun generation => { generation with pool := generation.pool.release temporary }

/-- Lets every temporary be spilled again. -/
def unpinAll : Generating Unit :=
  modify fun generation => { generation with pool := generation.pool.unpinAll }

/-- Spills every temporary but the given ones. -/
def spillAllExcept (position : Position) (kept : List Temporary) : Generating Unit :=
  withPool position (RegisterPool.spillAllExcept kept)

/-- Finishes a step whose operands are in use no more. -/
def conclude {Result : Type} (step : Generating Result) : Generating Result := do
  let result ← step
  unpinAll
  return result

/-- The temporary of an operand. -/
def operand (position : Position) (value : Option Temporary) : Generating Temporary :=
  orFail value position "operand has no value"

/-! ## Variables and fields -/

/-- The frame slot of the current object. -/
def receiverSlot (context : MethodContext) (position : Position) : Generating Nat :=
  orFail context.frame.receiverSlot? position
    s!"'this' needed in static method '{context.registry.methodPath context.method.id}'"

/-- The frame slot of a variable. -/
def variableSlot (context : MethodContext) (position : Position) (id : VariableId) :
    Generating Nat :=
  orFail ((context.registry.variableEntry? id).bind context.frame.slot?) position
    "variable without a frame slot"

/-- The place of a field. -/
def fieldOffset (context : MethodContext) (position : Position) (field : FieldEntry) :
    Generating Nat :=
  orFail (context.layout.offset? field) position "field without an offset"

/-- The field that an expression was found to name. -/
def namedField (context : MethodContext) (site : Site ExprId) : Generating FieldEntry :=
  orFail ((context.table.field? site.id).bind context.registry.fieldEntry?) site.position
    "unresolved field"

/-- Whether an access to a field needs the object that its receiver evaluates to. Static fields need
none, and `super` stands for the current object. -/
def needsObject (field : FieldEntry) (receiver : Expr) : Bool :=
  !field.isStatic && !receiver.isSuper

end Generating

end Decaf
