import Decaf.Proofs.Resolution.Methods
import Decaf.Proofs.Resolution.Scoping

/-!
# Resolution follows the scoping rules

The tree of scopes that resolution works on says about every place what the blocks around that place
say. So resolution finds out what a walk by the scoping rules finds out, and its bindings and
complaints are a record of that walk.
-/

namespace Decaf

namespace Registry.Extends

variable {before after : Registry}

section

variable (extended : before.Extends after) (wellFormed : before.WellFormed)
  (laterWellFormed : after.WellFormed)

include extended wellFormed laterWellFormed

theorem classNamed?_eq (name : String) : after.classNamed? name = before.classNamed? name :=
  extended.sameMembers.classNamed?_eq wellFormed laterWellFormed name

/-- New scopes and variables change nothing about the names around a method body. -/
theorem meaning?_eq (owner : ClassId) (blocks : List Block) (name : String) :
    after.meaning? owner blocks name = before.meaning? owner blocks name :=
  extended.sameMembers.meaning?_eq wellFormed laterWellFormed owner blocks name

theorem resolveType?_eq (written : TypeName) :
    after.resolveType? written = before.resolveType? written :=
  extended.sameMembers.resolveType?_eq wellFormed laterWellFormed written

end

theorem methodPath_eq (extended : before.Extends after) (id : MethodId) :
    after.methodPath id = before.methodPath id :=
  extended.sameMembers.methodPath_eq id

end Registry.Extends

namespace Resolution

/-- Resolution has recorded what was found. -/
structure Records (base : Registry) (findings : List Finding) (resolution : Resolution) : Prop where
  bindings_eq : resolution.bindings = findings.foldl Finding.record .empty
  diagnostics_eq : resolution.diagnostics = findings.filterMap (Finding.complaint? base)
  entries_eq : resolution.registry.variableEntries.toList =
    base.variableEntries.toList ++ findings.filterMap Finding.entry?

/-- The scopes of the methods from a number on are as they were. -/
structure Waiting (base : Registry) (next : Nat) (registry : Registry) : Prop where
  scope_eq : ∀ {id entry}, next ≤ id.index → base.methodEntry? id = some entry →
    registry.scopes.get? entry.scope = base.scopes.get? entry.scope

/-- Resolution has come to the same place as a walk, and has recorded what the walk has found. -/
structure Mirrors (base : Registry) (method : MethodEntry) (scope : ScopeId) (around : List Block)
    (walk : ScopeWalk) (resolution : Resolution) : Prop where
  inside : Inside method scope resolution
  extended : base.Extends resolution.registry
  waiting : Waiting base (method.id.index + 1) resolution.registry
  frames : resolution.registry.scopes.Frames method.id scope (walk.block :: around)
  records : Records base walk.findings resolution

variable {base : Registry} {method : MethodEntry} {scope : ScopeId} {around : List Block}
  {walk : ScopeWalk} {before after : Resolution}

namespace Waiting

variable {registry : Registry} {next : Nat} (waiting : Waiting base next registry)
  (wellFormed : base.WellFormed)

include waiting

theorem later : Waiting base (next + 1) registry where
  scope_eq isLater := waiting.scope_eq (Nat.le_of_succ_le isLater)

include wellFormed

theorem exists_scope {id : MethodId} {entry : MethodEntry} (isLater : next ≤ id.index)
    (found : base.methodEntry? id = some entry) :
    ∃ own, registry.scopes.get? entry.scope = some own ∧ own.kind = .methodBody id := by
  rcases wellFormed.method_scope found with ⟨own, ownFound, isBody⟩
  exact ⟨own, (waiting.scope_eq isLater found).trans ownFound, isBody⟩

theorem openBlock (scope : ScopeId) : Waiting base next (registry.openBlock scope).2 where
  scope_eq {id entry} isLater found := by
    rcases waiting.exists_scope wellFormed isLater found with ⟨own, ownFound, _⟩
    have isOld := ScopeTree.lt_size_of_get? ownFound
    change (registry.scopes.push _ _).2.get? entry.scope = _
    rw [ScopeTree.get?_push, if_neg, waiting.scope_eq isLater found]
    intro same
    rw [same] at isOld
    exact Nat.lt_irrefl _ isOld

/-- A variable of an earlier method does not go to the scope of a later one. -/
theorem variableAdded {scope : ScopeId} {method : MethodId}
    (home : registry.scopes.Home scope method) (isEarlier : method.index < next)
    (entry : VariableEntry) : Waiting base next (registry.variableAdded scope entry) where
  scope_eq {id later} isLater found := by
    rcases waiting.exists_scope wellFormed isLater found with ⟨own, ownFound, isBody⟩
    change (registry.scopes.extended _ _ _).get? later.scope = _
    rw [ScopeTree.get?_extended, if_neg, waiting.scope_eq isLater found]
    rintro rfl
    obtain rfl := home.unique (.body ownFound isBody)
    exact Nat.lt_irrefl _ (Nat.lt_of_lt_of_le isEarlier isLater)

end Waiting

variable {finding : Finding}

/-- What each finding adds to a list is what all of them together add. -/
theorem foldl_record {Item : Type} (view : Bindings → List Item) (found? : Finding → Option Item)
    (each : ∀ bindings finding,
      view (finding.record bindings) = view bindings ++ (found? finding).toList)
    (findings : List Finding) (bindings : Bindings) :
    view (findings.foldl Finding.record bindings) = view bindings ++ findings.filterMap found? := by
  induction findings generalizing bindings with
  | nil => exact (List.append_nil _).symm
  | cons finding findings ih =>
    rw [List.foldl_cons, ih, each, List.append_assoc, List.filterMap_cons]
    cases found? finding <;> rfl

theorem localsOf_record (method : MethodId) (bindings : Bindings) (finding : Finding) :
    (finding.record bindings).localsOf method =
      bindings.localsOf method ++ (finding.declaredIn? method).toList := by
  rcases finding with ⟨site, name, _ | symbol⟩ | ⟨site, name, _ | owner⟩ | _ | _ |
    ⟨stmt, decl, entry⟩ | _
  case declared =>
    rw [Finding.record, Bindings.localsOf_addLocal, Finding.declaredIn?]
    by_cases same : method = entry.method
    · simp [same, Bindings.localsOf, Bindings.declare]
    · simp [same, Ne.symm same, Bindings.localsOf, Bindings.declare]
  all_goals exact (List.append_nil _).symm

theorem declarationsOf_record (stmt : StmtId) (bindings : Bindings) (finding : Finding) :
    (finding.record bindings).declarationsOf stmt =
      bindings.declarationsOf stmt ++ (finding.declaredBy? stmt).toList := by
  rcases finding with ⟨site, name, _ | symbol⟩ | ⟨site, name, _ | owner⟩ | _ | _ |
    ⟨declaring, decl, entry⟩ | _
  case declared =>
    have recorded : (Finding.record bindings (.declared declaring decl entry)).declarationsOf stmt =
        (bindings.declare declaring entry.id).declarationsOf stmt := rfl
    rw [recorded, Bindings.declarationsOf_declare, Finding.declaredBy?]
    by_cases same : stmt = declaring
    · simp [same]
    · simp [same, Ne.symm same]
  all_goals exact (List.append_nil _).symm

theorem Records.report (records : Records base walk.findings before) {position : Position}
    {cause : Cause} (isComplaint : finding.complaint? base = some ⟨position, cause⟩)
    (noRecord : ∀ bindings, finding.record bindings = bindings) (noEntry : finding.entry? = none) :
    Records base (walk.findings ++ [finding]) (before.report position cause) where
  bindings_eq := by simp [Resolution.report, records.bindings_eq, noRecord]
  diagnostics_eq := by simp [Resolution.report, records.diagnostics_eq, isComplaint]
  entries_eq := by simp [Resolution.report, records.entries_eq, noEntry]

theorem Records.bind (records : Records base walk.findings before) {id : ExprId} {symbol : Symbol}
    (noComplaint : finding.complaint? base = none)
    (isRecord : ∀ bindings, finding.record bindings = bindings.bind id symbol)
    (noEntry : finding.entry? = none) :
    Records base (walk.findings ++ [finding])
      { before with bindings := before.bindings.bind id symbol } where
  bindings_eq := by simp [records.bindings_eq, isRecord]
  diagnostics_eq := by simp [records.diagnostics_eq, noComplaint]
  entries_eq := by simp [records.entries_eq, noEntry]

/-! ## Expressions -/

/-- A finding that changes nothing in the tree of scopes. -/
theorem Mirrors.note (mirrors : Mirrors base method scope around walk before) {exprs : List Expr}
    {stmts : List Stmt} (resolves : Resolves method exprs stmts before after)
    (sameRegistry : after.registry = before.registry) {found : List Finding}
    (records : Records base (walk.findings ++ found) after) :
    Mirrors base method scope around (walk.note found) after where
  inside := mirrors.inside.later resolves
  extended := mirrors.extended.trans resolves.registry
  waiting := sameRegistry ▸ mirrors.waiting
  frames := sameRegistry ▸ mirrors.frames
  records := records

section

variable (wellFormed : base.WellFormed)

include wellFormed

variable {decl : VariableDecl} {next : Nat}

theorem Mirrors.lookup?_eq (mirrors : Mirrors base method scope around walk before)
    (name : String) :
    before.registry.lookup? scope name =
      base.meaning? method.owner (walk.block :: around) name := by
  have valid := mirrors.inside.valid
  rw [Registry.lookup?_of_frames valid.consistent valid.housed (valid.run.placed .empty)
    mirrors.inside.found
    mirrors.frames, mirrors.extended.meaning?_eq wellFormed valid.consistent.toWellFormed]

omit wellFormed in
theorem Mirrors.exprs {exprs : List Expr}
    (each : ∀ expr ∈ exprs, ∀ {walk : ScopeWalk} {before : Resolution},
      Mirrors base method scope around walk before →
      Mirrors base method scope around (walk.read base method around expr.nodes)
      (resolveExpr method scope expr before))
    (mirrors : Mirrors base method scope around walk before) :
    Mirrors base method scope around (walk.read base method around (Expr.nodesAll exprs))
      (resolveExprs method scope exprs before) := by
  induction exprs generalizing walk before with
  | nil => exact (walk.read_nil base method around).symm ▸ mirrors
  | cons expr exprs ih =>
    rw [Expr.nodesAll, ScopeWalk.read_append, resolveExprs]
    exact ih (fun other isOther => each other (by simp [isOther])) (each expr (by simp) mirrors)

/-- Names are bound to what they stand for by the scoping rules. -/
theorem Mirrors.expr (mirrors : Mirrors base method scope around walk before) (expr : Expr) :
    Mirrors base method scope around (walk.read base method around expr.nodes)
      (resolveExpr method scope expr before) := by
  induction expr generalizing walk before with
  | literal site value =>
    rw [Expr.nodes, ← List.nil_append [Expr.literal site value], ScopeWalk.read_concat fun _ => rfl,
      ScopeWalk.read_nil]
    exact mirrors
  | identifier site name =>
    have resolves := resolves_expr mirrors.inside (.identifier site name)
    simp only [resolveExpr, mirrors.lookup?_eq wellFormed, Expr.nodes, ScopeWalk.read,
      ScopeWalk.finding?, List.filterMap_cons, List.filterMap_nil] at resolves ⊢
    cases meaningEq : base.meaning? method.owner (walk.block :: around) name with
    | none =>
      rw [meaningEq] at resolves
      exact mirrors.note resolves rfl (mirrors.records.report rfl (fun _ => rfl) rfl)
    | some symbol =>
      rw [meaningEq] at resolves
      exact mirrors.note resolves rfl (mirrors.records.bind rfl (fun _ => rfl) rfl)
  | this site =>
    have resolves := resolves_expr mirrors.inside (.this site)
    simp only [resolveExpr, Expr.nodes, ScopeWalk.read, ScopeWalk.finding?, List.filterMap_cons,
      List.filterMap_nil] at resolves ⊢
    cases faultEq : thisFault? method with
    | none => exact walk.note_nil.symm ▸ mirrors
    | some reason =>
      rw [faultEq] at resolves
      exact mirrors.note resolves rfl (mirrors.records.report rfl (fun _ => rfl) rfl)
  | super site =>
    have resolves := resolves_expr mirrors.inside (.super site)
    have sameFault : superFault? before.registry method = superFault? base method := by
      rw [superFault?, superFault?, mirrors.extended.parent?_eq]
    simp only [resolveExpr, sameFault, Expr.nodes, ScopeWalk.read, ScopeWalk.finding?,
      List.filterMap_cons, List.filterMap_nil] at resolves ⊢
    cases faultEq : superFault? base method with
    | none => exact walk.note_nil.symm ▸ mirrors
    | some reason =>
      rw [faultEq] at resolves
      exact mirrors.note resolves rfl (mirrors.records.report rfl (fun _ => rfl) rfl)
  | new site className =>
    have resolves := resolves_expr mirrors.inside (.new site className)
    have sameClass :=
      mirrors.extended.classNamed?_eq wellFormed mirrors.inside.valid.consistent.toWellFormed
        className
    simp only [resolveExpr, sameClass, Expr.nodes, ScopeWalk.read, ScopeWalk.finding?,
      List.filterMap_cons, List.filterMap_nil] at resolves ⊢
    cases classEq : base.classNamed? className with
    | none =>
      rw [classEq] at resolves
      exact mirrors.note resolves rfl (mirrors.records.report rfl (fun _ => rfl) rfl)
    | some owner =>
      rw [classEq] at resolves
      exact mirrors.note resolves rfl (mirrors.records.bind rfl (fun _ => rfl) rfl)
  | call site receiver name arguments receiverIh argumentsIh =>
    cases receiver with
    | none =>
      rw [Expr.nodes, ScopeWalk.read_concat fun _ => rfl, resolveExpr]
      exact mirrors.exprs argumentsIh
    | some receiver =>
      rw [Expr.nodes, ScopeWalk.read_concat fun _ => rfl, ScopeWalk.read_append, resolveExpr]
      exact (receiverIh receiver rfl mirrors).exprs argumentsIh
  | fieldAccess site receiver field ih =>
    rw [Expr.nodes, ScopeWalk.read_concat fun _ => rfl, resolveExpr]
    exact ih mirrors
  | unary site operator operand ih =>
    rw [Expr.nodes, ScopeWalk.read_concat fun _ => rfl, resolveExpr]
    exact ih mirrors
  | binary site operator left right leftIh rightIh =>
    rw [Expr.nodes, ScopeWalk.read_concat fun _ => rfl, ScopeWalk.read_append, resolveExpr]
    exact rightIh (leftIh mirrors)
  | step site operator yieldsNew target ih =>
    rw [Expr.nodes, ScopeWalk.read_concat fun _ => rfl, resolveExpr]
    exact ih mirrors

theorem Mirrors.optional (mirrors : Mirrors base method scope around walk before)
    (expr : Option Expr) :
    Mirrors base method scope around (walk.read base method around (Expr.nodesOption expr))
      (resolveOptional method scope expr before) := by
  cases expr with
  | none => exact (walk.read_nil base method around).symm ▸ mirrors
  | some expr => exact mirrors.expr wellFormed expr

/-! ## Locals -/

theorem Mirrors.typed (mirrors : Mirrors base method scope around walk before)
    (decl : VariableDecl) :
    Mirrors base method scope around (walk.typed base decl) (before.localType decl).2 ∧
      (before.localType decl).1 = (base.resolveType? decl.type).getD .null := by
  have sameType :=
    mirrors.extended.resolveType?_eq wellFormed mirrors.inside.valid.consistent.toWellFormed
    decl.type
  have resolves := (@resolves_localType method before mirrors.inside.valid decl).1
  simp only [localType, sameType, ScopeWalk.typed] at resolves ⊢
  cases typeEq : base.resolveType? decl.type with
  | some type => exact ⟨mirrors, rfl⟩
  | none =>
    rw [typeEq] at resolves
    exact ⟨mirrors.note resolves rfl (mirrors.records.report rfl (fun _ => rfl) rfl), rfl⟩

section

variable (mirrors : Mirrors base method scope around walk before)
include mirrors

omit wellFormed in
theorem Mirrors.nextLocal_eq
    {type : DataType} (typeEq : type = (base.resolveType? decl.type).getD .null) :
    before.nextLocal method.id decl.name type decl.position = walk.nextLocal base method decl := by
  have number := congrArg List.length mirrors.records.entries_eq
  have rank : before.bindings.localsOf method.id = walk.localsOf method.id := by
    rw [mirrors.records.bindings_eq]
    exact foldl_record (fun bindings => bindings.localsOf method.id) _
      (localsOf_record method.id) _ _
  rw [List.length_append, Array.length_toList, Array.length_toList] at number
  rw [nextLocal, ScopeWalk.nextLocal, number, rank, typeEq]
  rfl

/-- A variable whose name is new to the innermost block goes to its end. -/
theorem Mirrors.added (stmt : Stmt) {entry : VariableEntry} (named : entry.name = decl.name)
    (resolves : Resolves method [] [stmt] before (before.localAdded scope stmt.id entry)) :
    Mirrors base method scope around
      { walk.note [.declared stmt.id decl entry] with block := walk.block ++
        [(decl.name, entry.id)] }
      (before.localAdded scope stmt.id entry) where
  inside := mirrors.inside.later resolves
  extended := mirrors.extended.trans resolves.registry
  waiting := mirrors.waiting.variableAdded wellFormed mirrors.inside.home (Nat.lt_succ_self _) entry
  frames := named ▸ mirrors.frames.declared mirrors.inside.valid.consistent.parents_lt
    entry.name entry.id
  records :=
    { bindings_eq := by simp [localAdded, ScopeWalk.note,
        mirrors.records.bindings_eq, Finding.record]
      diagnostics_eq := by
        simp [localAdded, ScopeWalk.note, mirrors.records.diagnostics_eq, Finding.complaint?]
      entries_eq := by
        simp [localAdded, Registry.variableAdded, ScopeWalk.note,
          mirrors.records.entries_eq, Finding.entry?] }

theorem Mirrors.declare (stmt : Stmt) (decl : VariableDecl) :
    Mirrors base method scope around (walk.declare base method stmt.id decl)
      (addLocal method scope stmt.id before decl) := by
  rcases @resolves_localType method before mirrors.inside.valid decl with
    ⟨_, sameRegistry, typeKnown⟩
  rcases mirrors.typed wellFormed decl with ⟨typed, typeEq⟩
  unfold addLocal ScopeWalk.declare
  generalize walk.typed base decl = checked at typed
  generalize before.localType decl = pair at typed typeEq sameRegistry typeKnown
  rcases pair with ⟨type, between⟩
  dsimp only at typed typeEq sameRegistry typeKnown ⊢
  have declaredEq := typed.frames.declared?_eq decl.name
  rw [Registry.registerVariable_eq, declaredEq]
  cases lookupEq : checked.block.lookup decl.name with
  | some existing =>
    have resolves : Resolves method [] [] between (between.report decl.position
        (.duplicateDeclaration decl.name s!"method '{between.registry.methodPath method.id}'")) :=
      .report typed.inside.valid _ (by simp [Cause.category]) _ _
    refine typed.note resolves rfl (typed.records.report ?_ (fun _ => rfl) rfl)
    rw [Finding.complaint?, typed.extended.methodPath_eq]
  | none =>
    rw [lookupEq] at declaredEq
    have resolves : Resolves method [] [stmt] between
        (between.localAdded scope stmt.id
          (between.nextLocal method.id decl.name type decl.position)) :=
      resolves_localAdded typed.inside stmt (sameRegistry ▸ typeKnown) declaredEq
    dsimp only
    rw [← typed.nextLocal_eq typeEq]
    exact typed.added wellFormed stmt rfl resolves

theorem Mirrors.locals (stmt : Stmt)
    (declared : List VariableDecl) : Mirrors base method scope around
      (declared.foldl (ScopeWalk.declare base method stmt.id) walk)
      (declared.foldl (addLocal method scope stmt.id) before) := by
  induction declared generalizing walk before with
  | nil => exact mirrors
  | cons decl declared ih => exact ih (mirrors.declare wellFormed stmt decl)

end

/-! ## Statements -/

omit wellFormed in
theorem Mirrors.stmts {stmts : List Stmt}
    (each : ∀ stmt ∈ stmts,
      ∀ {scope : ScopeId} {around : List Block} {walk : ScopeWalk} {before : Resolution},
      Mirrors base method scope around walk before →
      Mirrors base method scope around (ScopeWalk.throughStmt base method around stmt walk)
      (resolveStmt method scope stmt before))
    (mirrors : Mirrors base method scope around walk before) :
    Mirrors base method scope around (ScopeWalk.throughStmts base method around stmts walk)
      (resolveStmts method scope stmts before) := by
  induction stmts generalizing walk before with
  | nil => exact mirrors
  | cons stmt stmts ih =>
    exact ih (fun other isOther => each other (by simp [isOther])) (each stmt (by simp) mirrors)

theorem Mirrors.enter (mirrors : Mirrors base method scope around walk before) :
    Mirrors base method (before.openBlock scope).1 (walk.block :: around) walk.enter
      (before.openBlock scope).2 := by
  rcases Resolves.openBlock mirrors.inside.valid mirrors.inside.home with ⟨opened, home⟩
  exact
    { inside := { (mirrors.inside.later opened) with home }
      extended := mirrors.extended.trans opened.registry
      waiting := mirrors.waiting.openBlock wellFormed scope
      frames := mirrors.frames.opened
      records := ⟨mirrors.records.bindings_eq, mirrors.records.diagnostics_eq,
        mirrors.records.entries_eq⟩ }

omit wellFormed in
/-- Behind a block there is only the block around it. -/
theorem Mirrors.leave (mirrors : Mirrors base method scope around walk before) {inside : ScopeWalk}
    {exprs : List Expr} {stmts : List Stmt}
    (resolves : Resolves method exprs stmts (before.openBlock scope).2 after)
    (inner : Mirrors base method (before.openBlock scope).1 (walk.block :: around) inside after) :
    Mirrors base method scope around (walk.leave inside) after where
  inside :=
    (mirrors.inside.later (Resolves.openBlock mirrors.inside.valid mirrors.inside.home).1).later
    resolves
  extended := inner.extended
  waiting := inner.waiting
  frames := inner.frames.closed resolves.registry.scopes
  records := inner.records

omit wellFormed in
theorem Mirrors.option (part : Option Stmt) :
    (∀ stmt ∈ part,
      ∀ {scope : ScopeId} {around : List Block} {walk : ScopeWalk} {before : Resolution},
      Mirrors base method scope around walk before → Mirrors base method scope around
        (ScopeWalk.throughStmt base method around stmt walk)
          (resolveStmt method scope stmt before)) →
    Mirrors base method scope around walk before → Mirrors base method scope around
      (walk.throughOption base method around part)
      (match part with | some stmt => resolveStmt method scope stmt before | none => before) := by
  intro each mirrors
  cases part with
  | none => exact mirrors
  | some stmt => exact each stmt rfl mirrors

/-- Resolution keeps up with a walk through a statement. -/
theorem Mirrors.stmt (mirrors : Mirrors base method scope around walk before) (stmt : Stmt) :
    Mirrors base method scope around (ScopeWalk.throughStmt base method around stmt walk)
      (resolveStmt method scope stmt before) := by
  induction stmt generalizing walk before scope around with
  | block site statements ih =>
    have entered := mirrors.enter wellFormed
    have resolves : Resolves method (Stmt.exprNodesAll statements) (Stmt.nodesAll statements) _ _ :=
      resolves_stmts (fun stmt _ _ _ inside => resolves_stmt inside stmt) entered.inside
    exact mirrors.leave resolves (entered.stmts ih)
  | ifElse site condition thenBranch elseBranch thenIh elseIh =>
    have first := thenIh (mirrors.expr wellFormed condition)
    cases elseBranch with
    | none => exact first
    | some elseBranch => exact elseIh elseBranch rfl first
  | whileLoop site condition body ih => exact ih (mirrors.expr wellFormed condition)
  | forLoop site init condition update body initIh updateIh bodyIh =>
    have entered := mirrors.enter wellFormed
    have started := Mirrors.option init initIh entered
    have tested := started.optional wellFormed condition
    have updated := Mirrors.option update updateIh tested
    have initResolves :=
      resolves_part init (fun stmt _ _ _ inside => resolves_stmt inside stmt) entered.inside
    have testResolves := resolves_optional started.inside condition
    have updateResolves :=
      resolves_part update (fun stmt _ _ _ inside => resolves_stmt inside stmt) tested.inside
    have whole := mirrors.leave (((initResolves.trans testResolves).trans updateResolves).trans
      (resolves_stmt updated.inside body)) (bodyIh updated)
    rw [ScopeWalk.throughStmt_forLoop]
    cases init <;> cases update <;> exact whole
  | ret site value => exact mirrors.optional wellFormed value
  | evaluate site expr => exact mirrors.expr wellFormed expr
  | assign site target value =>
    rw [ScopeWalk.throughStmt, ScopeWalk.read_append]
    exact (mirrors.expr wellFormed target).expr wellFormed value
  | declare site declared => exact mirrors.locals wellFormed (.declare site declared) declared
  | print site value => exact mirrors.expr wellFormed value
  | breakLoop site => exact mirrors
  | continueLoop site => exact mirrors
  | skip site => exact mirrors

theorem Mirrors.body (mirrors : Mirrors base method method.scope [] walk before) (body : Stmt) :
    Mirrors base method method.scope [] (ScopeWalk.throughBody base method body walk)
      (resolveBody method body before) := by
  cases body with
  | block site statements =>
    exact mirrors.stmts fun stmt _ _ _ _ _ inner => inner.stmt wellFormed stmt
  | ifElse | whileLoop | forLoop | ret | evaluate | assign | declare | print | breakLoop
  | continueLoop | skip => exact mirrors.stmt wellFormed _

/-! ## Methods -/

/-- Resolution has gone through the bodies in front of a number, and so has a walk. -/
structure Follows (base : Registry) (next : Nat) (walk : ScopeWalk) (resolution : Resolution) :
    Prop where
  valid : resolution.Valid
  extended : base.Extends resolution.registry
  waiting : Waiting base next resolution.registry
  records : Records base walk.findings resolution

theorem Follows.throughMethod (follows : Follows base next walk before) {source : MethodSource}
    (held : ∀ method, base.methodEntry? ⟨next⟩ = some method →
      base.HoldsParameters source.decl method) :
    Follows base (next + 1) (walk.throughMethod base (source, next))
      (resolveMethod before (source, next)) := by
  unfold ScopeWalk.throughMethod resolveMethod
  rw [follows.extended.methodEntry?_eq]
  cases found : base.methodEntry? ⟨next⟩ with
  | none => exact ⟨follows.valid, follows.extended, follows.waiting.later, follows.records⟩
  | some method =>
    have sameId := wellFormed.method_id found
    have numbered : method.id.index = next := congrArg MethodId.index sameId
    rcases follows.waiting.exists_scope wellFormed (Nat.le_refl next) found with
      ⟨own, ownFound, isBody⟩
    rcases (held method found).scope_eq with ⟨scope, scopeFound, symbolsEq⟩
    have sameScope := (follows.waiting.scope_eq (Nat.le_refl next) found).trans scopeFound
    obtain rfl := Option.some.inj (sameScope.symm.trans ownFound)
    have mirrors : Mirrors base method method.scope []
        { walk with block := parameterBlock source.decl method } before :=
      { inside := inside_body follows.valid ((follows.extended.methodEntry?_eq _).trans found)
        extended := follows.extended
        waiting := numbered ▸ follows.waiting.later
        frames := .body ownFound (sameId ▸ isBody) symbolsEq
        records := follows.records }
    have done := mirrors.body wellFormed source.decl.body
    exact ⟨done.inside.valid, done.extended, numbered ▸ done.waiting, done.records⟩

theorem Follows.throughMethods (follows : Follows base next walk before)
    (sources : List MethodSource)
    (held : ∀ index source, sources[index]? = some source → ∀ method,
      base.methodEntry? ⟨next + index⟩ = some method → base.HoldsParameters source.decl method) :
    Follows base (next + sources.length)
      ((sources.zipIdx next).foldl (ScopeWalk.throughMethod base) walk)
      ((sources.zipIdx next).foldl resolveMethod before) := by
  induction sources generalizing next walk before with
  | nil => exact follows
  | cons source sources ih =>
    rw [List.zipIdx_cons, List.foldl_cons, List.foldl_cons,
      List.length_cons, ← Nat.succ_add_eq_add_succ]
    refine ih (follows.throughMethod wellFormed (held 0 source rfl)) fun index later isLater => ?_
    rw [Nat.succ_add_eq_add_succ]
    exact held (index + 1) later isLater

end

/-- Resolution keeps to the rules of scoping in all bodies. -/
theorem follows_ofMembers {members : Members} (consistent : members.registry.Consistent)
    (run : Registry.Run .empty members.registry)
    (parameters : Members.OnlyParameters members.registry) (held : members.ParametersHeld) :
    Follows members.registry members.sources.size (ScopeWalk.throughMembers members)
      (ofMembers members) := by
  have started : Follows members.registry 0 {} { registry := members.registry } :=
    { valid := (resolved_start consistent run parameters).valid
      extended := .refl _
      waiting := ⟨fun _ _ => rfl⟩
      records := ⟨rfl, rfl, (List.append_nil _).symm⟩ }
  have whole := started.throughMethods consistent.toWellFormed members.sources.toList
    fun index source recorded method found =>
      held.holds (by simpa using recorded) method (by simpa using found)
  rwa [Nat.zero_add, Array.length_toList] at whole

end Resolution

end Decaf
