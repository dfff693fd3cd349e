import Decaf.Tree.Expr

/-!
# Statements

A statement is a tree like an expression; its nodes have numbers of their own, apart from those of
the expressions in it.
-/

namespace Decaf

/-- The declaration of a parameter or of a local variable. -/
structure VariableDecl where
  name : String
  type : TypeName
  position : Position
  deriving DecidableEq, Repr

/-- A statement. -/
inductive Stmt where
  | block (site : Site StmtId) (statements : List Stmt)
  | ifElse (site : Site StmtId) (condition : Expr) (thenBranch : Stmt) (elseBranch : Option Stmt)
  | whileLoop (site : Site StmtId) (condition : Expr) (body : Stmt)
  | forLoop (site : Site StmtId) (init : Option Stmt) (condition : Option Expr)
      (update : Option Stmt) (body : Stmt)
  | ret (site : Site StmtId) (value : Option Expr)
  | evaluate (site : Site StmtId) (expr : Expr)
  | assign (site : Site StmtId) (target value : Expr)
  | declare (site : Site StmtId) (declared : List VariableDecl)
  | print (site : Site StmtId) (value : Expr)
  | breakLoop (site : Site StmtId)
  | continueLoop (site : Site StmtId)
  | skip (site : Site StmtId)
  deriving Repr

namespace Stmt

/-- The number and the position of a statement's outermost node. -/
def site : Stmt → Site StmtId
  | .block site _ | .ifElse site _ _ _ | .whileLoop site _ _ | .forLoop site _ _ _ _ | .ret site _
  | .evaluate site _ | .assign site _ _ | .declare site _ | .print site _ | .breakLoop site
  | .continueLoop site | .skip site => site

/-- The number of a statement's outermost node. -/
def id (stmt : Stmt) : StmtId := stmt.site.id

/-- Where a statement starts. -/
def position (stmt : Stmt) : Position := stmt.site.position

/-- The direct substatements in the order of the source text. -/
def children : Stmt → List Stmt
  | .block _ statements => statements
  | .ifElse _ _ thenBranch elseBranch => thenBranch :: elseBranch.toList
  | .whileLoop _ _ body => [body]
  | .forLoop _ init _ update body => init.toList ++ update.toList ++ [body]
  | .ret .. | .evaluate .. | .assign .. | .declare .. | .print .. | .breakLoop .. | .continueLoop ..
  | .skip .. => []

/-- The expressions directly in a statement, in the order of the source text. -/
def exprs : Stmt → List Expr
  | .ifElse _ condition _ _ => [condition]
  | .whileLoop _ condition _ => [condition]
  | .forLoop _ _ condition _ _ => condition.toList
  | .ret _ value => value.toList
  | .evaluate _ expr => [expr]
  | .assign _ target value => [target, value]
  | .print _ value => [value]
  | .block .. | .declare .. | .breakLoop .. | .continueLoop .. | .skip .. => []

/-- Whether the statement is a block. -/
def isBlock : Stmt → Bool
  | .block .. => true
  | .ifElse .. | .whileLoop .. | .forLoop .. | .ret .. | .evaluate .. | .assign .. | .declare ..
  | .print .. | .breakLoop .. | .continueLoop .. | .skip .. => false

end Stmt

end Decaf
