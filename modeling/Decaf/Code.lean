import Decaf.Code.Method
import Decaf.Machine.Listing

/-!
# Code of programs

A listing has the size of the static area first, then the vtables of all classes, then an entry stub
that calls the first method named `main`, and then the code of all methods in the order in which
they are declared.
-/

namespace Decaf

/-- A program whose types are checked. -/
structure CheckedProgram where
  registry : Registry
  /-- The classes, every parent in front of its children. -/
  order : List ClassId
  /-- The methods with their bodies, in the order in which they are declared. -/
  bodies : List MethodBody
  /-- What the names in method bodies stand for. -/
  bindings : Bindings
  /-- The findings of type checking. -/
  table : TypeTable

namespace CheckedProgram

/-- Where the fields are. -/
def layout (program : CheckedProgram) : Layout := .ofRegistry program.registry program.order

/-- The frame of a method. -/
def frameOf (program : CheckedProgram) (method : MethodEntry) : Frame :=
  .ofMethod method (program.bindings.localsOf method.id).length

/-- What the code generator knows about a method, given where the fields are. -/
def contextOf (program : CheckedProgram) (layout : Layout) (method : MethodEntry) : MethodContext :=
  { registry := program.registry
    bindings := program.bindings
    table := program.table
    layout
    frame := program.frameOf method
    method }

/-- The directive that defines the vtable of a class. -/
def vtableDirective (program : CheckedProgram) (entry : ClassEntry) : Instruction :=
  .vtable (Label.vtable entry.name) (entry.vtable.map program.registry.methodLabel)

/-- The directives at the start of a listing. -/
def directives (program : CheckedProgram) : List Instruction :=
  .staticData program.layout.staticSize :: program.registry.classes.toList.map
    program.vtableDirective

/-- The first method named `main`. -/
def mainMethod? (program : CheckedProgram) : Option MethodEntry :=
  (program.bodies.filterMap fun body => program.registry.methodEntry? body.id).find? fun method =>
    method.name = "main"

/-- The call of the method that a program starts with; an instance method gets a new object. -/
def startCall (program : CheckedProgram) (method : MethodEntry) : List Instruction :=
  let label := program.registry.methodLabel method.id
  if method.isStatic then [.call label]
  else
    program.layout.objectInit program.registry method.owner (.general 0) (.general 1) ++
      [.push (.general 0), .call label, .pop 1]

/-- The entry stub; there is none for a program without a `main`, nor for one whose `main` has
parameters. -/
def entryStub (program : CheckedProgram) : List Instruction :=
  match program.mainMethod? with
  | none => []
  | some method =>
    if method.arity = 0 then .label Label.entry :: program.startCall method ++ [.halt] else []

/-- The code of methods one after the other, and what went wrong. -/
structure MethodCode where
  /-- The instructions of all methods so far. -/
  code : Array Instruction := #[]
  /-- The number of the next fresh label. -/
  nextLabel : Nat := 0
  diagnostics : List Diagnostic := []
  deriving Inhabited

/-- Adds the code of one more method. -/
def addMethod (program : CheckedProgram) (layout : Layout) (registerCount : Nat)
    (generated : MethodCode) (body : MethodBody) : MethodCode :=
  match program.registry.methodEntry? body.id with
  | none => generated
  | some method =>
    let context := program.contextOf layout method
    match context.generate registerCount generated.nextLabel body.source.decl.body with
    | .ok (code, nextLabel) => { generated with code := generated.code ++ code, nextLabel }
    | .error diagnostic =>
      { generated with diagnostics := generated.diagnostics ++ [diagnostic] }

/-- The code of all methods. -/
def methodCode (program : CheckedProgram) (registerCount : Nat) : MethodCode :=
  program.bodies.foldl (program.addMethod program.layout registerCount) {}

/-- The listing of a program, or what went wrong. -/
def listing (program : CheckedProgram) (options : Options) : Except (List Diagnostic) Listing :=
  let methods := program.methodCode options.registerCount
  let stub := if options.entryStub then program.entryStub else []
  if methods.diagnostics = [] then
    .ok ⟨program.directives.toArray ++ stub.toArray ++ methods.code⟩
  else .error methods.diagnostics

end CheckedProgram

end Decaf
