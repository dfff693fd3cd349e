import Decaf.Proofs.Resolution.Progress

/-!
# Resolution of method bodies

By induction on its syntax, resolving an expression or a statement of a method makes progress on
exactly its own nodes, provided that the work starts in a scope of that method.
-/

namespace Decaf

namespace Resolution

variable {method : MethodEntry} {scope : ScopeId} {before after : Resolution}
variable {exprs : List Expr} {stmts : List Stmt} {name : String} {type : DataType}
  {position : Position}

/-- The work has come to a scope of a method. -/
structure Inside (method : MethodEntry) (scope : ScopeId) (resolution : Resolution) : Prop where
  valid : resolution.Valid
  found : resolution.registry.methodEntry? method.id = some method
  home : resolution.registry.scopes.Home scope method.id

theorem Inside.later (inside : Inside method scope before)
    (resolves : Resolves method exprs stmts before after) : Inside method scope after where
  valid := resolves.valid
  found := by rw [resolves.registry.methodEntry?_eq, inside.found]
  home := inside.home.grow resolves.registry.scopes

/-! ## Expressions -/

theorem resolves_bindOr (valid : before.Valid) (expr : Expr) {found : Option Symbol}
    {missing : Cause} (isOrdinary : missing.category ≠ .internal)
    (known : ∀ symbol, found = some symbol → before.registry.Knows symbol)
    (means : ∀ symbol, found = some symbol → CanMean before.registry expr symbol)
    (settles : ∀ symbol, found = some symbol → ∀ bindings : Bindings,
      bindings.symbol? expr.id = some symbol → Settles before.registry bindings method expr) :
    Resolves method [expr] [] before (before.bindOr expr.site found missing) := by
  cases found with
  | none => exact .report valid _ isOrdinary _ _
  | some symbol => exact .bind valid (known symbol rfl) (means symbol rfl) (settles symbol rfl)

theorem resolves_checkReceiver (valid : before.Valid) (expr : Expr) {keyword : String}
    {fault : Option String}
    (settles : fault = none → Settles before.registry before.bindings method expr) :
    Resolves method [expr] [] before (before.checkReceiver expr.site keyword fault) := by
  cases fault with
  | none => exact .node valid (settles rfl)
  | some reason => exact .report valid _ (by simp [Cause.category]) _ _

theorem resolves_exprs (each : ∀ expr ∈ exprs, ∀ {before : Resolution}, Inside method scope before →
      Resolves method expr.nodes [] before (resolveExpr method scope expr before))
    (inside : Inside method scope before) :
    Resolves method (Expr.nodesAll exprs) [] before (resolveExprs method scope exprs before) := by
  induction exprs generalizing before with
  | nil => exact .refl inside.valid
  | cons expr exprs ih =>
    have first := each expr (by simp) inside
    have rest := ih (fun other isOther => each other (by simp [isOther])) (inside.later first)
    rw [Expr.nodesAll, resolveExprs]
    exact first.trans rest

theorem resolves_expr (inside : Inside method scope before) (expr : Expr) :
    Resolves method expr.nodes [] before (resolveExpr method scope expr before) := by
  induction expr generalizing before with
  | literal site value => exact .node inside.valid trivial
  | identifier site name =>
    have seen : ∀ symbol, before.registry.lookup? scope name = some symbol →
        before.registry.SeenIn method.id symbol :=
      fun _ => Registry.seenIn_of_lookup? inside.valid.consistent inside.valid.closed
        inside.valid.housed inside.home
    rw [Expr.nodes, resolveExpr]
    apply resolves_bindOr inside.valid (.identifier site name) (by simp [Cause.category])
    · exact fun symbol found => (seen symbol found).known
    · exact fun _ _ => trivial
    · exact fun symbol found bindings bound => ⟨symbol, bound, seen symbol found⟩
  | this site =>
    rw [Expr.nodes, resolveExpr]
    apply resolves_checkReceiver inside.valid (.this site)
    intro faultless
    simpa [Settles, thisFault?] using faultless
  | super site =>
    rw [Expr.nodes, resolveExpr]
    apply resolves_checkReceiver inside.valid (.super site)
    intro faultless
    unfold superFault? at faultless
    split at faultless
    · simp at faultless
    next notStatic =>
      split at faultless
      · simp at faultless
      next hasParent =>
        exact ⟨by simpa using notStatic, Option.ne_none_iff_exists'.mp (by simpa using hasParent)⟩
  | new site className =>
    rw [Expr.nodes, resolveExpr]
    have known : ∀ id, before.registry.classNamed? className = some id →
        before.registry.KnowsClass id :=
      fun id => inside.valid.closed.classNamed?
    apply resolves_bindOr inside.valid (.new site className) (by simp [Cause.category])
    · intro symbol found
      rcases Option.map_eq_some_iff.mp found with ⟨id, named, rfl⟩
      exact known id named
    · intro symbol found
      rcases Option.map_eq_some_iff.mp found with ⟨id, named, rfl⟩
      exact ⟨id, rfl, (Registry.classNamed?_eq_some inside.valid.consistent.toWellFormed).mp named⟩
    · intro symbol found bindings bound
      rcases Option.map_eq_some_iff.mp found with ⟨id, named, rfl⟩
      exact ⟨id, bound, known id named⟩
  | call site receiver name arguments receiverIh argumentsIh =>
    cases receiver with
    | none =>
      rw [Expr.nodes, resolveExpr]
      exact (resolves_exprs argumentsIh inside).andNode fun _ _ => trivial
    | some receiver =>
      have first := receiverIh receiver rfl inside
      rw [Expr.nodes, resolveExpr]
      have rest := resolves_exprs argumentsIh (inside.later first)
      exact (first.trans rest).andNode fun _ _ => trivial
  | fieldAccess site receiver field ih =>
    rw [Expr.nodes, resolveExpr]
    exact (ih inside).andNode fun _ _ => trivial
  | unary site operator operand ih =>
    rw [Expr.nodes, resolveExpr]
    exact (ih inside).andNode fun _ _ => trivial
  | binary site operator left right leftIh rightIh =>
    have first := leftIh inside
    rw [Expr.nodes, resolveExpr]
    have second := rightIh (inside.later first)
    exact (first.trans second).andNode fun _ _ => trivial
  | step site operator yieldsNew target ih =>
    rw [Expr.nodes, resolveExpr]
    exact (ih inside).andNode fun _ _ => trivial

theorem resolves_optional (inside : Inside method scope before) (expr : Option Expr) :
    Resolves method (Expr.nodesOption expr) [] before
      (resolveOptional method scope expr before) := by
  cases expr with
  | none => exact .refl inside.valid
  | some expr => exact resolves_expr inside expr

/-! ## Locals -/

theorem resolves_localType (valid : before.Valid) (decl : VariableDecl) :
    Resolves method [] [] before (before.localType decl).2 ∧
      (before.localType decl).2.registry = before.registry ∧
      before.registry.KnowsType (before.localType decl).1 := by
  unfold localType
  split
  next type resolved => exact ⟨.refl valid, rfl, valid.closed.resolveType? resolved⟩
  next => exact ⟨.report valid _ (by simp [Cause.category]) _ _, rfl, trivial⟩

/-- The local that is declared next in a method. -/
def nextLocal (resolution : Resolution) (method : MethodId) (name : String) (type : DataType)
    (position : Position) : VariableEntry :=
  { id := ⟨resolution.registry.variableEntries.size⟩
    name
    type
    method
    storage := .body (resolution.bindings.localsOf method).length
    position }

/-- What is known once a local is registered. -/
def localAdded (resolution : Resolution) (scope : ScopeId) (stmt : StmtId) (entry : VariableEntry) :
    Resolution :=
  { resolution with
    registry := resolution.registry.variableAdded scope entry
    bindings := (resolution.bindings.declare stmt entry.id).addLocal entry.method entry.id }

section

variable (inside : Inside method scope before)
include inside

theorem valid_localAdded (stmt : StmtId) (step : Registry.Step before.registry
      (before.registry.variableAdded scope (before.nextLocal method.id name type position))) :
    (before.localAdded scope stmt (before.nextLocal method.id name type position)).Valid := by
  rcases inside with ⟨valid, methodFound, home⟩
  have larger := (step.larger_and_closed valid.closed).1
  rcases home.kind with ⟨found, scopeFound, notGlobal, notMembers⟩
  have newKnown : (before.localAdded scope stmt
      (before.nextLocal method.id name type position)).registry.KnowsVariable
        ⟨before.registry.variableEntries.size⟩ := by
    simp [localAdded, Registry.variableAdded, Registry.KnowsVariable]
  constructor
  · constructor
    · exact valid.consistent.toWellFormed.variableAdded scopeFound notGlobal notMembers _
    · apply valid.consistent.toLexical.variableAdded home rfl methodFound
      · simp [nextLocal]
      · intro id other otherFound sameMethod sameStorage
        have below := valid.rank_lt otherFound sameStorage
        rw [sameMethod] at below
        exact Nat.lt_irrefl _ below
  · exact valid.run.tail step
  · exact fun bound => larger.knows (valid.symbols_known bound)
  · intro other id isDeclared
    change id ∈ (before.bindings.declare stmt _).declarationsOf other at isDeclared
    rw [Bindings.declarationsOf_declare] at isDeclared
    split at isDeclared
    · rcases List.mem_append.mp isDeclared with isOld | isNew
      · exact Nat.lt_of_lt_of_le (valid.declared_known isOld) larger.variables_le
      · exact List.mem_singleton.mp isNew ▸ newKnown
    · exact Nat.lt_of_lt_of_le (valid.declared_known isDeclared) larger.variables_le
  · intro other id isLocal
    simp only [localAdded, Bindings.localsOf_addLocal] at isLocal
    split at isLocal
    · rcases List.mem_append.mp isLocal with isOld | isNew
      · exact Nat.lt_of_lt_of_le (valid.locals_known isOld) larger.variables_le
      · exact List.mem_singleton.mp isNew ▸ newKnown
    · exact Nat.lt_of_lt_of_le (valid.locals_known isLocal) larger.variables_le
  · intro id entry rank entryFound storageEq
    simp only [localAdded, Registry.variableEntry?_variableAdded,
      Bindings.localsOf_addLocal] at entryFound ⊢
    split at entryFound
    · cases entryFound
      cases storageEq
      simp [nextLocal, Bindings.localsOf, Bindings.declare]
    · have below := valid.rank_lt entryFound storageEq
      split
      next same =>
        rw [same] at below
        exact Nat.lt_of_lt_of_le below (by simp [nextLocal, Bindings.localsOf, Bindings.declare])
      next => exact below
  · exact valid.ordinary

theorem resolves_localAdded (stmt : Stmt) (typeKnown : before.registry.KnowsType type)
    (fresh : before.registry.scopes.declared? scope name = none) :
    Resolves method [] [stmt] before
      (before.localAdded scope stmt.id (before.nextLocal method.id name type position)) := by
  have step : Registry.Step before.registry
      (before.registry.variableAdded scope (before.nextLocal method.id name type position)) := by
    have registered : before.registry.registerVariable scope name type method.id
        (.body (before.bindings.localsOf method.id).length) position =
          .ok (⟨before.registry.variableEntries.size⟩,
            before.registry.variableAdded scope
            (before.nextLocal method.id name type position)) := by
      rw [Registry.registerVariable_eq, fresh]
      rfl
    exact .registerVariable inside.home.known typeKnown
      (Array.getElem?_eq_some_iff.mp inside.found).1 registered
  constructor
  · exact valid_localAdded inside stmt.id step
  · refine ⟨.single step, rfl, rfl, rfl, .extended _ _ _ _, ?_⟩
    intro id entry found
    rw [localAdded, Registry.variableEntry?_variableAdded, if_neg, found]
    rintro rfl
    exact Nat.lt_irrefl _ (Array.getElem?_eq_some_iff.mp found).1
  · exact List.prefix_rfl
  · exact fun _ => rfl
  · intro id elsewhere
    change (before.bindings.declare stmt.id _).declarationsOf id = _
    rw [Bindings.declarationsOf_declare, if_neg (by simpa using elsewhere)]
  · simp
  · intro id variableId isDeclared
    change variableId ∈ (before.bindings.declare stmt.id _).declarationsOf id at isDeclared
    rw [Bindings.declarationsOf_declare] at isDeclared
    split at isDeclared
    next same =>
      rcases List.mem_append.mp isDeclared with isOld | isNew
      · exact .inl (same ▸ isOld)
      · rw [List.mem_singleton.mp isNew]
        exact .inr ⟨before.nextLocal method.id name type position, by
          simp [localAdded, Registry.variableEntry?_variableAdded, nextLocal], rfl⟩
    next => exact .inl isDeclared
  · exact .inl

theorem resolves_addLocal (stmt : Stmt) (decl : VariableDecl) :
    Resolves method [] [stmt] before (addLocal method scope stmt.id before decl) := by
  rcases @resolves_localType method before inside.valid decl with ⟨typed, sameRegistry, typeKnown⟩
  unfold addLocal
  generalize before.localType decl = pair at typed sameRegistry typeKnown
  rcases pair with ⟨type, between⟩
  dsimp only at typed sameRegistry typeKnown ⊢
  have typedInside := inside.later typed
  refine typed.trans ?_
  rw [Registry.registerVariable_eq]
  cases declaredEq : between.registry.scopes.declared? scope decl.name with
  | some existing => exact .report typedInside.valid _ (by simp [Cause.category]) _ _
  | none => exact resolves_localAdded typedInside stmt (sameRegistry ▸ typeKnown) declaredEq

theorem resolves_locals (stmt : Stmt) (declared : List VariableDecl) :
    Resolves method [] [stmt] before (declared.foldl (addLocal method scope stmt.id) before) := by
  induction declared generalizing before with
  | nil => exact .stmtNode inside.valid stmt
  | cons decl declared ih =>
    have first := resolves_addLocal inside stmt decl
    rw [List.foldl_cons]
    exact (first.trans (ih (inside.later first))).widen (by simp)

end

/-! ## Statements -/

theorem resolves_stmts
    (each : ∀ stmt ∈ stmts, ∀ {scope : ScopeId} {before : Resolution}, Inside method scope before →
      Resolves method stmt.exprNodes stmt.nodes before (resolveStmt method scope stmt before))
    (inside : Inside method scope before) :
    Resolves method (Stmt.exprNodesAll stmts) (Stmt.nodesAll stmts) before
      (resolveStmts method scope stmts before) := by
  induction stmts generalizing before with
  | nil => exact .refl inside.valid
  | cons stmt stmts ih =>
    have first := each stmt (by simp) inside
    have rest := ih (fun other isOther => each other (by simp [isOther])) (inside.later first)
    rw [Stmt.exprNodesAll, Stmt.nodesAll, resolveStmts]
    exact first.trans rest

theorem resolves_part (part : Option Stmt) :
    (∀ stmt ∈ part, ∀ {scope : ScopeId} {before : Resolution}, Inside method scope before →
      Resolves method stmt.exprNodes stmt.nodes before (resolveStmt method scope stmt before)) →
    Inside method scope before →
      Resolves method (match part with | some stmt => stmt.exprNodes | none => [])
        (match part with | some stmt => stmt.nodes | none => []) before
        (match part with | some stmt => resolveStmt method scope stmt before | none => before) := by
  intro each inside
  cases part with
  | none => exact .refl inside.valid
  | some stmt => exact each stmt rfl inside

theorem resolves_stmt (inside : Inside method scope before) (stmt : Stmt) :
    Resolves method stmt.exprNodes stmt.nodes before (resolveStmt method scope stmt before) := by
  induction stmt generalizing before scope with
  | block site statements ih =>
    rcases Resolves.openBlock inside.valid inside.home with ⟨opened, home⟩
    have inner : Inside method (before.openBlock scope).1 (before.openBlock scope).2 :=
      { (inside.later opened) with home }
    exact (opened.trans (resolves_stmts ih inner)).andStmt (.block site statements)
  | ifElse site condition thenBranch elseBranch thenIh elseIh =>
    have tested := resolves_expr inside condition
    have first := tested.trans (thenIh (inside.later tested))
    cases elseBranch with
    | none => exact first.andStmt (.ifElse site condition thenBranch none)
    | some elseBranch =>
      have second := elseIh elseBranch rfl (inside.later first)
      exact (first.trans second).andStmt (.ifElse site condition thenBranch (some elseBranch))
  | whileLoop site condition body ih =>
    have tested := resolves_expr inside condition
    exact (tested.trans (ih (inside.later tested))).andStmt (.whileLoop site condition body)
  | forLoop site init condition update body initIh updateIh bodyIh =>
    rcases Resolves.openBlock inside.valid inside.home with ⟨opened, home⟩
    have inner : Inside method (before.openBlock scope).1 (before.openBlock scope).2 :=
      { (inside.later opened) with home }
    have started := resolves_part init initIh inner
    have tested := started.trans (resolves_optional (inner.later started) condition)
    have looped := tested.trans (resolves_part update updateIh (inner.later tested))
    have all := looped.trans (bodyIh (inner.later looped))
    rw [List.append_nil] at all
    have whole := (opened.trans all).andStmt (.forLoop site init condition update body)
    cases init <;> cases update <;> exact whole
  | ret site value => exact (resolves_optional inside value).andStmt (.ret site value)
  | evaluate site expr => exact (resolves_expr inside expr).andStmt (.evaluate site expr)
  | assign site target value =>
    have first := resolves_expr inside target
    exact (first.trans (resolves_expr (inside.later first) value)).andStmt
      (.assign site target value)
  | declare site declared => exact resolves_locals inside (.declare site declared) declared
  | print site value => exact (resolves_expr inside value).andStmt (.print site value)
  | breakLoop site => exact .stmtNode inside.valid _
  | continueLoop site => exact .stmtNode inside.valid _
  | skip site => exact .stmtNode inside.valid _

/-- The outermost block of a body has the scope of the parameters. -/
theorem resolves_body (inside : Inside method method.scope before) (body : Stmt) :
    Resolves method body.exprNodes body.nodes before (resolveBody method body before) := by
  cases body with
  | block site statements =>
    have inner : Resolves method (Stmt.exprNodesAll statements) (Stmt.nodesAll statements) before
        (resolveStmts method method.scope statements before) :=
      resolves_stmts (fun stmt _ _ _ stmtInside => resolves_stmt stmtInside stmt) inside
    exact inner.andStmt (.block site statements)
  | ifElse | whileLoop | forLoop | ret | evaluate | assign | declare | print | breakLoop
  | continueLoop | skip => exact resolves_stmt inside _

end Resolution

end Decaf
