import Decaf.Tree.Stmt

/-!
# Programs

A program is a list of class declarations together with all nodes that were made for it, in the
order of their numbers. A node is numbered when it is made, so its children always have smaller
numbers.
-/

namespace Decaf

/-- A class name behind `extends`. -/
structure ParentName where
  /-- The name as written. -/
  name : String
  position : Position
  deriving DecidableEq, Repr

/-- The declaration of a field. -/
structure FieldDecl where
  name : String
  type : TypeName
  visibility : Visibility
  /-- Whether there is one such field for the whole class. -/
  isStatic : Bool
  position : Position
  deriving DecidableEq, Repr

/-- The declaration of a method. -/
structure MethodDecl where
  name : String
  returnType : TypeName
  parameters : List VariableDecl
  /-- The statement that a call executes. -/
  body : Stmt
  visibility : Visibility
  isStatic : Bool
  position : Position
  deriving Repr

/-- The declaration of a class. -/
structure ClassDecl where
  name : String
  parent : Option ParentName
  /-- Its own fields in the order of declaration. -/
  fields : List FieldDecl
  /-- Its own methods in the order of declaration. -/
  methods : List MethodDecl
  position : Position
  deriving Repr

/-- A program: its classes, and all its nodes under their numbers. -/
structure Program where
  classes : List ClassDecl := []
  /-- All expression nodes; the one numbered `n` stands at index `n`. -/
  exprs : Array Expr := #[]
  /-- All statement nodes; the one numbered `n` stands at index `n`. -/
  stmts : Array Stmt := #[]
  deriving Repr, Inhabited

namespace Program

/-- The program without classes and nodes. -/
def empty : Program := {}

/-- Makes an expression node: it gets the next number. -/
def addExpr (program : Program) (position : Position) (make : Site ExprId → Expr) :
    Expr × Program :=
  let expr := make ⟨⟨program.exprs.size⟩, position⟩
  (expr, { program with exprs := program.exprs.push expr })

/-- Makes a statement node: it gets the next number. -/
def addStmt (program : Program) (position : Position) (make : Site StmtId → Stmt) :
    Stmt × Program :=
  let stmt := make ⟨⟨program.stmts.size⟩, position⟩
  (stmt, { program with stmts := program.stmts.push stmt })

/-- Every method with its class, in the order of declaration. -/
def methods (program : Program) : List (ClassDecl × MethodDecl) :=
  program.classes.flatMap fun owner => owner.methods.map fun method => (owner, method)

end Program

end Decaf
