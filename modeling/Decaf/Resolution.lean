import Decaf.Members
import Decaf.Resolution.Bindings

/-!
# Name resolution

Resolution walks through every method body in source order, registers each local where it is
declared, and binds each identifier to what its name stands for at that point. A block and a `for`
loop open a scope; the outermost block of a body shares the scope of the parameters. Names behind a
dot are left alone, since what they stand for depends on the type in front of the dot.
-/

namespace Decaf

/-- What resolution has found out so far. -/
structure Resolution where
  /-- The registry, with the scopes and locals met so far. -/
  registry : Registry
  /-- The meaning of the names met so far. -/
  bindings : Bindings := .empty
  diagnostics : List Diagnostic := []
  deriving Inhabited

namespace Resolution

/-- Adds a complaint. -/
def report (resolution : Resolution) (position : Position) (cause : Cause) : Resolution :=
  { resolution with diagnostics := resolution.diagnostics ++ [⟨position, cause⟩] }

/-- Binds a name that was found, and complains about one that was not. -/
def bindOr (resolution : Resolution) (site : Site ExprId) (found : Option Symbol)
    (missing : Cause) : Resolution :=
  match found with
  | some symbol => { resolution with bindings := resolution.bindings.bind site.id symbol }
  | none => resolution.report site.position missing

/-! ## Expressions -/

/-- Why `this` cannot be used in a method. -/
def thisFault? (method : MethodEntry) : Option String :=
  if method.isStatic then some "cannot be used in a static method" else none

/-- Why `super` cannot be used in a method. -/
def superFault? (registry : Registry) (method : MethodEntry) : Option String :=
  if method.isStatic then some "cannot be used in a static method"
  else if (registry.parent? method.owner).isNone then
    some "cannot be used in a class without a parent"
  else none

/-- Checks the use of a keyword that stands for an object. -/
def checkReceiver (resolution : Resolution) (site : Site ExprId) (keyword : String)
    (fault : Option String) : Resolution :=
  match fault with
  | some reason => resolution.report site.position (.invalidReceiver keyword reason)
  | none => resolution

mutual

/-- Resolves the names in an expression. -/
def resolveExpr (method : MethodEntry) (scope : ScopeId) : Expr → Resolution → Resolution
  | .identifier site name, resolution =>
    resolution.bindOr site (resolution.registry.lookup? scope name) (.undeclaredIdentifier name)
  | .this site, resolution => resolution.checkReceiver site "this" (thisFault? method)
  | .super site, resolution =>
    resolution.checkReceiver site "super" (superFault? resolution.registry method)
  | .new site className, resolution =>
    resolution.bindOr site ((resolution.registry.classNamed? className).map Symbol.ofClass)
      (.unknownType className)
  | .literal _ _, resolution => resolution
  | .call _ none _ arguments, resolution => resolveExprs method scope arguments resolution
  | .call _ (some receiver) _ arguments, resolution =>
    resolveExprs method scope arguments (resolveExpr method scope receiver resolution)
  | .fieldAccess _ receiver _, resolution => resolveExpr method scope receiver resolution
  | .unary _ _ operand, resolution => resolveExpr method scope operand resolution
  | .binary _ _ left right, resolution =>
    resolveExpr method scope right (resolveExpr method scope left resolution)
  | .step _ _ _ target, resolution => resolveExpr method scope target resolution
termination_by structural expr => expr

/-- Resolves the names in expressions from left to right. -/
def resolveExprs (method : MethodEntry) (scope : ScopeId) : List Expr → Resolution → Resolution
  | [], resolution => resolution
  | expr :: rest, resolution =>
    resolveExprs method scope rest (resolveExpr method scope expr resolution)
termination_by structural exprs => exprs

end

/-- Resolves the names in an expression that may be absent. -/
def resolveOptional (method : MethodEntry) (scope : ScopeId) (expr : Option Expr)
    (resolution : Resolution) : Resolution :=
  match expr with
  | some expr => resolveExpr method scope expr resolution
  | none => resolution

/-! ## Statements -/

/-- The type of a local; one that does not exist is replaced by a placeholder. -/
def localType (resolution : Resolution) (decl : VariableDecl) : DataType × Resolution :=
  match resolution.registry.resolveType? decl.type with
  | some type => (type, resolution)
  | none => (.null, resolution.report decl.position (.unknownType (toString decl.type)))

/-- Registers a local of a method in a scope. -/
def addLocal (method : MethodEntry) (scope : ScopeId) (stmt : StmtId) (resolution : Resolution)
    (decl : VariableDecl) : Resolution :=
  let (type, resolution) := resolution.localType decl
  let rank := (resolution.bindings.localsOf method.id).length
  match resolution.registry.registerVariable scope decl.name type method.id (.body rank)
    decl.position with
  | .ok (id, registry) =>
    { resolution with
      registry
      bindings := (resolution.bindings.declare stmt id).addLocal method.id id }
  | .error _ =>
    resolution.report decl.position
      (.duplicateDeclaration decl.name s!"method '{resolution.registry.methodPath method.id}'")

/-- Opens a scope inside a scope. -/
def openBlock (resolution : Resolution) (scope : ScopeId) : ScopeId × Resolution :=
  let (inner, registry) := resolution.registry.openBlock scope
  (inner, { resolution with registry })

mutual

/-- Resolves the names in a statement. -/
def resolveStmt (method : MethodEntry) (scope : ScopeId) : Stmt → Resolution → Resolution
  | .block _ statements, resolution =>
    let (inner, resolution) := resolution.openBlock scope
    resolveStmts method inner statements resolution
  | .ifElse _ condition thenBranch elseBranch, resolution =>
    let resolution :=
      resolveStmt method scope thenBranch (resolveExpr method scope condition resolution)
    match elseBranch with
    | some elseBranch => resolveStmt method scope elseBranch resolution
    | none => resolution
  | .whileLoop _ condition body, resolution =>
    resolveStmt method scope body (resolveExpr method scope condition resolution)
  | .forLoop _ init condition update body, resolution =>
    let (inner, resolution) := resolution.openBlock scope
    let resolution :=
      match init with
      | some init => resolveStmt method inner init resolution
      | none => resolution
    let resolution := resolveOptional method inner condition resolution
    let resolution :=
      match update with
      | some update => resolveStmt method inner update resolution
      | none => resolution
    resolveStmt method inner body resolution
  | .ret _ value, resolution => resolveOptional method scope value resolution
  | .evaluate _ expr, resolution => resolveExpr method scope expr resolution
  | .assign _ target value, resolution =>
    resolveExpr method scope value (resolveExpr method scope target resolution)
  | .declare site declared, resolution => declared.foldl (addLocal method scope site.id) resolution
  | .print _ value, resolution => resolveExpr method scope value resolution
  | .breakLoop _, resolution => resolution
  | .continueLoop _, resolution => resolution
  | .skip _, resolution => resolution
termination_by structural stmt => stmt

/-- Resolves the names in statements one after the other. -/
def resolveStmts (method : MethodEntry) (scope : ScopeId) : List Stmt → Resolution → Resolution
  | [], resolution => resolution
  | stmt :: rest, resolution =>
    resolveStmts method scope rest (resolveStmt method scope stmt resolution)
termination_by structural stmts => stmts

end

/-! ## Methods -/

/-- Resolves the names in a method body; its outermost block opens no scope of its own. -/
def resolveBody (method : MethodEntry) (body : Stmt) (resolution : Resolution) : Resolution :=
  match body with
  | .block _ statements => resolveStmts method method.scope statements resolution
  | other => resolveStmt method method.scope other resolution

/-- Resolves the body of the method with a given number. -/
def resolveMethod (resolution : Resolution) (numbered : MethodSource × Nat) : Resolution :=
  match resolution.registry.methodEntry? ⟨numbered.2⟩ with
  | some method => resolveBody method numbered.1.decl.body resolution
  | none => resolution

/-- Resolves all method bodies in the order of the methods' numbers. -/
def ofMembers (members : Members) : Resolution :=
  members.sources.toList.zipIdx.foldl resolveMethod { registry := members.registry }

end Resolution

end Decaf
