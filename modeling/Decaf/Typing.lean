import Decaf.Resolution
import Decaf.Typing.Completion
import Decaf.Typing.Statement

/-!
# Type checking

All method bodies are checked in the order in which the methods are declared. A method with a result
must not reach the end of its body.
-/

namespace Decaf

/-- A registered method together with its declaration. -/
structure MethodBody where
  id : MethodId
  source : MethodSource
  deriving Repr

namespace MethodBody

/-- Whether a method is declared before another one, or is the same. -/
def isBeforeOrAt (left right : MethodBody) : Bool :=
  left.source.classIndex < right.source.classIndex ||
    (left.source.classIndex = right.source.classIndex &&
      left.source.methodIndex ≤ right.source.methodIndex)

/-- All registered methods in the order in which they are declared. -/
def inSourceOrder (sources : Array MethodSource) : List MethodBody :=
  sortBy isBeforeOrAt (sources.toList.zipIdx.map fun (source, index) => ⟨⟨index⟩, source⟩)

end MethodBody

namespace Checking

/-- Checks that a method with a result does not reach the end of its body. -/
def checkCompletion (setting : Setting) (decl : MethodDecl) : Checking Unit :=
  if setting.method.returnType ≠ .void ∧ decl.body.canComplete then
    report decl.position <|
      .missingReturn setting.methodPath (setting.registry.typeName setting.method.returnType)
  else return ()

/-- Checks the body of a method. -/
def checkMethod (registry : Registry) (bindings : Bindings) (body : MethodBody) : Checking Unit :=
  match registry.methodEntry? body.id with
  | none => return ()
  | some method => do
    let setting : Setting := { registry, bindings, method }
    checkStmt setting false body.source.decl.body
    checkCompletion setting body.source.decl

/-- Checks the bodies of methods one after the other. -/
def checkMethods (registry : Registry) (bindings : Bindings) : List MethodBody → Checking Unit
  | [] => return ()
  | body :: rest => do
    checkMethod registry bindings body
    checkMethods registry bindings rest

end Checking

namespace Findings

/-- What type checking finds out about a resolved program with a given number of expressions. -/
def ofResolution (exprCount : Nat) (sources : Array MethodSource) (resolution : Resolution) :
    Findings :=
  let bodies := MethodBody.inSourceOrder sources
  (Checking.checkMethods resolution.registry resolution.bindings bodies).run
    { table := .ofSize exprCount }
    |>.2

end Findings

end Decaf
