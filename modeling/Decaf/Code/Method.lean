import Decaf.Code.Statement
import Decaf.Options
import Decaf.Tree.Program
import Decaf.Typing

/-!
# Code of methods

The code of a method starts with its label and makes room for its locals and spilled temporaries. A
method without a result returns at the end of its body.
-/

namespace Decaf

namespace Generating

/-- The code of a method's body, with the return at its end where one is due. -/
def generateBody (context : MethodContext) (body : Stmt) : Generating Unit := do
  generateStmt context body
  if context.method.returnType = .void ∧ !(← get).emitter.endsWithTerminator then emit .ret

end Generating

namespace MethodContext

/-- The state in which the generation of a method's code starts. -/
def start (context : MethodContext) (registerCount nextLabel : Nat) : Generation :=
  ⟨.start registerCount context.frame.spillBase, .start nextLabel⟩

/-- The code of a method whose body's code is generated. -/
def assemble (context : MethodContext) (body : Generation) : Array Instruction :=
  #[.label (context.registry.methodLabel context.method.id),
    .enter (context.frame.localCount + body.pool.slotCount)] ++ body.emitter.code

/-- Generates the code of a method; the answer has the number of the next fresh label too. -/
def generate (context : MethodContext) (registerCount nextLabel : Nat) (body : Stmt) :
    Except Diagnostic (Array Instruction × Nat) :=
  match (Generating.generateBody context body).run (context.start registerCount nextLabel) with
  | .ok ((), generation) => .ok (context.assemble generation, generation.emitter.nextLabel)
  | .error diagnostic => .error diagnostic

end MethodContext

end Decaf
