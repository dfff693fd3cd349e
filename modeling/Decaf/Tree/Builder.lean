import Decaf.Tree.Program

/-!
# Building programs step by step

A builder has a current position, which every node and declaration made through it takes over. Nodes
that were made once may be used in several places.
-/

namespace Decaf

/-- A program under construction. -/
structure Builder where
  /-- What has been built so far. -/
  program : Program
  /-- The position that the next node takes over. -/
  position : Position
  deriving Inhabited

namespace Builder

/-- A builder of the empty program; it stands at the first character. -/
def start : Builder := ⟨.empty, ⟨1, 1⟩⟩

/-- Moves the current position. -/
def moveTo (builder : Builder) (position : Position) : Builder := { builder with position }

/-- Makes an expression node at the current position. -/
def expr (builder : Builder) (make : Site ExprId → Expr) : Expr × Builder :=
  let (made, program) := builder.program.addExpr builder.position make
  (made, { builder with program })

/-- Makes a statement node at the current position. -/
def stmt (builder : Builder) (make : Site StmtId → Stmt) : Stmt × Builder :=
  let (made, program) := builder.program.addStmt builder.position make
  (made, { builder with program })

/-- A parameter or local at the current position. -/
def variableDecl (builder : Builder) (name type : String) : VariableDecl :=
  ⟨name, .ofName type, builder.position⟩

/-- A field at the current position. -/
def fieldDecl (builder : Builder) (name type : String) (visibility : Visibility) (isStatic : Bool) :
    FieldDecl :=
  ⟨name, .ofName type, visibility, isStatic, builder.position⟩

/-- A method at the current position; parameters are given by name and type. -/
def methodDecl (builder : Builder) (name returnType : String) (parameters : List (String × String))
    (body : Stmt) (visibility : Visibility) (isStatic : Bool) : MethodDecl :=
  { name
    returnType := .ofName returnType
    parameters := parameters.map fun (parameter, type) => builder.variableDecl parameter type
    body
    visibility
    isStatic
    position := builder.position }

/-- Adds a class at the current position behind those added before. -/
def addClass (builder : Builder) (name : String) (parent : Option String) (fields : List FieldDecl)
    (methods : List MethodDecl) : Builder :=
  let added : ClassDecl :=
    { name
      parent := parent.map fun parentName => ⟨parentName, builder.position⟩
      fields
      methods
      position := builder.position }
  { builder with program := { builder.program with classes := builder.program.classes ++ [added] } }

end Builder

end Decaf
