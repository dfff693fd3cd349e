import Decaf.Proofs.Members.Parameters
import Decaf.Proofs.Tree.Nodes
import Decaf.Resolution

/-!
# Lexical scoping

The rules of scoping, told without a tree of scopes. A walk through a method body carries the
variables of the innermost block; the blocks around it are given. It notes what each name stands for
where the walk comes by, and each variable that is declared on the way.
-/

namespace Decaf

/-- What there is to say about one place of a method body. -/
inductive Finding where
  | used (site : Site ExprId) (name : String) (meaning : Option Symbol)
  | created (site : Site ExprId) (className : String) (owner : Option ClassId)
  | misplaced (site : Site ExprId) (keyword reason : String)
  | untyped (decl : VariableDecl)
  | declared (stmt : StmtId) (decl : VariableDecl) (entry : VariableEntry)
  | repeated (stmt : StmtId) (decl : VariableDecl) (method : MethodId)

namespace Finding

/-- The variable that is declared at a place. -/
def entry? : Finding → Option VariableEntry
  | .declared _ _ entry => some entry
  | .used .. | .created .. | .misplaced .. | .untyped .. | .repeated .. => none

/-- The variable that a given statement declares. -/
def declaredBy? (stmt : StmtId) : Finding → Option VariableId
  | .declared declaring _ entry => if declaring = stmt then some entry.id else none
  | .used .. | .created .. | .misplaced .. | .untyped .. | .repeated .. => none

/-- The variable that a given method declares. -/
def declaredIn? (method : MethodId) : Finding → Option VariableId
  | .declared _ _ entry => if entry.method = method then some entry.id else none
  | .used .. | .created .. | .misplaced .. | .untyped .. | .repeated .. => none

/-- The complaint about a place. -/
def complaint? (registry : Registry) : Finding → Option Diagnostic
  | .used site name none => some ⟨site.position, .undeclaredIdentifier name⟩
  | .created site className none => some ⟨site.position, .unknownType className⟩
  | .misplaced site keyword reason => some ⟨site.position, .invalidReceiver keyword reason⟩
  | .untyped decl => some ⟨decl.position, .unknownType (toString decl.type)⟩
  | .repeated _ decl method =>
    some ⟨decl.position, .duplicateDeclaration decl.name s!"method '{registry.methodPath method}'"⟩
  | .used _ _ (some _) | .created _ _ (some _) | .declared .. => none

/-- What is kept of a finding. -/
def record (bindings : Bindings) : Finding → Bindings
  | .used site _ (some symbol) => bindings.bind site.id symbol
  | .created site _ (some owner) => bindings.bind site.id (.ofClass owner)
  | .declared stmt _ entry => (bindings.declare stmt entry.id).addLocal entry.method entry.id
  | .used _ _ none | .created _ _ none | .misplaced .. | .untyped .. | .repeated .. => bindings

end Finding

/-- How far a walk has come: the variables of the innermost block, and what was found on the way. -/
structure ScopeWalk where
  block : Block := []
  findings : List Finding := []

namespace ScopeWalk

/-- Findings are written down. -/
def note (walk : ScopeWalk) (findings : List Finding) : ScopeWalk :=
  { walk with findings := walk.findings ++ findings }

/-- The variables that were declared on the way. -/
def entries (walk : ScopeWalk) : List VariableEntry := walk.findings.filterMap Finding.entry?

/-- The locals of a method that were declared on the way. -/
def localsOf (walk : ScopeWalk) (method : MethodId) : List VariableId :=
  walk.findings.filterMap (Finding.declaredIn? method)

/-! ## Expressions and declarations -/

/-- What a node says with some blocks around it. -/
def finding? (registry : Registry) (method : MethodEntry) (blocks : List Block) :
    Expr → Option Finding
  | .identifier site name => some (.used site name (registry.meaning? method.owner blocks name))
  | .new site className => some (.created site className (registry.classNamed? className))
  | .this site => (Resolution.thisFault? method).map (Finding.misplaced site "this")
  | .super site => (Resolution.superFault? registry method).map (Finding.misplaced site "super")
  | .literal .. | .call .. | .fieldAccess .. | .unary .. | .binary .. | .step .. => none

/-- Reads the nodes of expressions from left to right. -/
def read (registry : Registry) (method : MethodEntry) (around : List Block) (nodes : List Expr)
    (walk : ScopeWalk) : ScopeWalk :=
  walk.note (nodes.filterMap (finding? registry method (walk.block :: around)))

theorem note_nil (walk : ScopeWalk) : walk.note [] = walk := by
  rw [note, List.append_nil]

theorem read_nil (registry : Registry) (method : MethodEntry) (around : List Block)
    (walk : ScopeWalk) : walk.read registry method around [] = walk :=
  walk.note_nil

theorem read_append (registry : Registry) (method : MethodEntry) (around : List Block)
    (front back : List Expr) (walk : ScopeWalk) : walk.read registry method around (front ++ back) =
      (walk.read registry method around front).read registry method around back := by
  simp [read, note, List.append_assoc]

/-- Nothing is said at a node that is no name. -/
theorem read_concat {registry : Registry} {method : MethodEntry} {node : Expr}
    (isSilent : ∀ blocks, finding? registry method blocks node = none) (around : List Block)
    (front : List Expr) (walk : ScopeWalk) :
    walk.read registry method around (front ++ [node]) =
      walk.read registry method around front := by
  simp [read, isSilent]

/-- The variable that a declaration stands for when it is not repeated. -/
def nextLocal (registry : Registry) (method : MethodEntry) (walk : ScopeWalk)
    (decl : VariableDecl) : VariableEntry where
  id := ⟨registry.variableEntries.size + walk.entries.length⟩
  name := decl.name
  type := (registry.resolveType? decl.type).getD .null
  method := method.id
  storage := .body (walk.localsOf method.id).length
  position := decl.position

/-- Checks the type of a variable. -/
def typed (registry : Registry) (walk : ScopeWalk) (decl : VariableDecl) : ScopeWalk :=
  match registry.resolveType? decl.type with
  | some _ => walk
  | none => walk.note [.untyped decl]

/-- Declares a variable unless the innermost block has one of its name. -/
def declare (registry : Registry) (method : MethodEntry) (stmt : StmtId) (walk : ScopeWalk)
    (decl : VariableDecl) : ScopeWalk :=
  let walk := walk.typed registry decl
  match walk.block.lookup decl.name with
  | some _ => walk.note [.repeated stmt decl method.id]
  | none =>
    let entry := nextLocal registry method walk decl
    { walk.note [.declared stmt decl entry] with block := walk.block ++ [(decl.name, entry.id)] }

/-! ## Statements -/

/-- Goes into a block that has no variables yet. -/
def enter (walk : ScopeWalk) : ScopeWalk := { walk with block := [] }

/-- Comes back from a block; its variables are forgotten. -/
def leave (outside inside : ScopeWalk) : ScopeWalk := { inside with block := outside.block }

mutual

/-- Walks through a statement. -/
def throughStmt (registry : Registry) (method : MethodEntry) (around : List Block) :
    Stmt → ScopeWalk → ScopeWalk
  | .block _ statements, walk =>
    walk.leave (throughStmts registry method (walk.block :: around) statements walk.enter)
  | .ifElse _ condition thenBranch elseBranch, walk =>
    let walk :=
      throughStmt registry method around thenBranch
        (walk.read registry method around condition.nodes)
    match elseBranch with
    | some elseBranch => throughStmt registry method around elseBranch walk
    | none => walk
  | .whileLoop _ condition body, walk =>
    throughStmt registry method around body (walk.read registry method around condition.nodes)
  | .forLoop _ init condition update body, walk =>
    let inside :=
      match init with
      | some init => throughStmt registry method (walk.block :: around) init walk.enter
      | none => walk.enter
    let inside := inside.read registry method (walk.block :: around) (Expr.nodesOption condition)
    let inside :=
      match update with
      | some update => throughStmt registry method (walk.block :: around) update inside
      | none => inside
    walk.leave (throughStmt registry method (walk.block :: around) body inside)
  | .ret _ value, walk => walk.read registry method around (Expr.nodesOption value)
  | .evaluate _ expr, walk => walk.read registry method around expr.nodes
  | .assign _ target value, walk => walk.read registry method around (target.nodes ++ value.nodes)
  | .declare site declared, walk => declared.foldl (declare registry method site.id) walk
  | .print _ value, walk => walk.read registry method around value.nodes
  | .breakLoop _, walk => walk
  | .continueLoop _, walk => walk
  | .skip _, walk => walk
termination_by structural stmt => stmt

/-- A walk through statements, one behind the other. -/
def throughStmts (registry : Registry) (method : MethodEntry) (around : List Block) :
    List Stmt → ScopeWalk → ScopeWalk
  | [], walk => walk
  | stmt :: rest, walk =>
    throughStmts registry method around rest (throughStmt registry method around stmt walk)
termination_by structural stmts => stmts

end

/-- A walk through a part that need not be there. -/
def throughOption (registry : Registry) (method : MethodEntry) (around : List Block)
    (part : Option Stmt) (walk : ScopeWalk) : ScopeWalk :=
  match part with
  | some stmt => throughStmt registry method around stmt walk
  | none => walk

theorem throughStmt_forLoop (registry : Registry) (method : MethodEntry) (around : List Block)
    (site : Site StmtId) (init : Option Stmt) (condition : Option Expr) (update : Option Stmt)
    (body : Stmt) (walk : ScopeWalk) :
    walk.throughStmt registry method around (.forLoop site init condition update body) =
      let started := walk.enter.throughOption registry method (walk.block :: around) init
      let tested := started.read registry method (walk.block :: around) (Expr.nodesOption condition)
      let updated := tested.throughOption registry method (walk.block :: around) update
      walk.leave (updated.throughStmt registry method (walk.block :: around) body) := by
  cases init <;> cases update <;> rfl

/-! ## Methods -/

/-- Walks through the body of a method; its outermost block has the parameters, too. -/
def throughBody (registry : Registry) (method : MethodEntry) (body : Stmt) (walk : ScopeWalk) :
    ScopeWalk :=
  match body with
  | .block _ statements => throughStmts registry method [] statements walk
  | other => throughStmt registry method [] other walk

/-- A walk through a method, if it is registered. -/
def throughMethod (registry : Registry) (walk : ScopeWalk) (numbered : MethodSource × Nat) :
    ScopeWalk :=
  match registry.methodEntry? ⟨numbered.2⟩ with
  | some method =>
    throughBody registry method numbered.1.decl.body
      { walk with block := parameterBlock numbered.1.decl method }
  | none => walk

/-- Walks through the bodies of all methods. -/
def throughMembers (members : Members) : ScopeWalk :=
  members.sources.toList.zipIdx.foldl (throughMethod members.registry) {}

end ScopeWalk

end Decaf
