import Decaf.Proofs.Resolution.Scoping

/-!
# What a walk comes by

A walk comes by every name and every declaration of a method body, once, in the order in which they
are written.
-/

namespace Decaf

/-- The node stands for a variable, a member or a class by its name. -/
def Expr.isName : Expr → Bool
  | .identifier .. | .new .. => true
  | .literal .. | .this .. | .super .. | .call .. | .fieldAccess .. | .unary .. | .binary ..
  | .step .. => false

/-- A declaration of a variable in a statement of a method. -/
structure LocalSite where
  method : MethodId
  stmt : StmtId
  decl : VariableDecl

/-- The declarations that a statement of a method itself has. -/
def Stmt.localSites (method : MethodId) : Stmt → List LocalSite
  | .declare site declared => declared.map fun decl => ⟨method, site.id, decl⟩
  | .block .. | .ifElse .. | .whileLoop .. | .forLoop .. | .ret .. | .evaluate .. | .assign ..
  | .print .. | .breakLoop .. | .continueLoop .. | .skip .. => []

namespace Finding

/-- The name that a finding is about. -/
def node? : Finding → Option Expr
  | .used site name _ => some (.identifier site name)
  | .created site className _ => some (.new site className)
  | .misplaced .. | .untyped .. | .declared .. | .repeated .. => none

/-- The declaration that is made or found to be repeated. -/
def local? : Finding → Option LocalSite
  | .declared stmt decl entry => some ⟨entry.method, stmt, decl⟩
  | .repeated stmt decl method => some ⟨method, stmt, decl⟩
  | .used .. | .created .. | .misplaced .. | .untyped .. => none

/-- A declared variable has the number and the rank that are next. -/
def IsNext (registry : Registry) (front : List Finding) : Finding → Prop
  | .declared _ _ entry =>
    entry.id = ⟨registry.variableEntries.size + (front.filterMap entry?).length⟩ ∧
      entry.storage = .body (front.filterMap (declaredIn? entry.method)).length
  | .used .. | .created .. | .misplaced .. | .untyped .. | .repeated .. => True

/-- Variables have their numbers and ranks in the order of their declarations. -/
inductive InOrder (registry : Registry) : List Finding → Prop
  | nil : InOrder registry []
  | concat {front finding} (ordered : InOrder registry front)
  (isNext : finding.IsNext registry front) :
      InOrder registry (front ++ [finding])

namespace InOrder

variable {registry : Registry} {findings : List Finding}

/-- Findings about no declaration have no place in the order. -/
theorem append (ordered : InOrder registry findings) {more : List Finding}
    (silent : ∀ finding ∈ more, finding.local? = none) : InOrder registry (findings ++ more) := by
  induction more generalizing findings with
  | nil => exact (List.append_nil findings).symm ▸ ordered
  | cons finding more ih =>
    rw [List.append_cons]
    refine ih (ordered.concat ?_) fun other isOther => silent other (by simp [isOther])
    have isSilent := silent finding (by simp)
    cases finding with
    | declared => cases isSilent
    | used | created | misplaced | untyped | repeated => trivial

theorem exists_front (ordered : InOrder registry findings) {finding : Finding}
    (isThere : finding ∈ findings) :
    ∃ front back, findings = front ++ finding :: back ∧ finding.IsNext registry front := by
  induction ordered with
  | nil => cases isThere
  | @concat front last _ isNext ih =>
    rcases List.mem_append.mp isThere with isEarlier | isLast
    · rcases ih isEarlier with ⟨before, between, rfl, wasNext⟩
      exact ⟨before, between ++ [last], by simp, wasNext⟩
    · obtain rfl := List.mem_singleton.mp isLast
      exact ⟨front, [], rfl, isNext⟩

/-- The declared variables are numbered one after the other. -/
theorem ids_eq (ordered : InOrder registry findings) :
    (findings.filterMap entry?).map VariableEntry.id =
      (List.range (findings.filterMap entry?).length).map fun count =>
        ⟨registry.variableEntries.size + count⟩ := by
  induction ordered with
  | nil => rfl
  | @concat front finding _ isNext ih =>
    rw [List.filterMap_append, List.map_append, ih]
    cases finding with
    | declared stmt decl entry => simp [ entry?, List.range_succ, isNext.1]
    | used | created | misplaced | untyped | repeated => simp [ entry?, List.filterMap_cons]

end InOrder

end Finding

namespace ScopeWalk

/-- Between two places a walk comes by just the given names and declarations. -/
structure Covers (registry : Registry) (names : List Expr) (locals : List LocalSite)
    (before after : ScopeWalk) : Prop where
  grows : before.findings <+: after.findings
  names_eq : after.findings.filterMap Finding.node? =
    before.findings.filterMap Finding.node? ++ names
  locals_eq : after.findings.filterMap Finding.local? =
    before.findings.filterMap Finding.local? ++ locals
  ordered : Finding.InOrder registry before.findings → Finding.InOrder registry after.findings

namespace Covers

variable {registry : Registry} {names moreNames : List Expr} {locals moreLocals : List LocalSite}
  {before between after : ScopeWalk}

theorem refl (walk : ScopeWalk) : Covers registry [] [] walk walk :=
  ⟨List.prefix_rfl, (List.append_nil _).symm, (List.append_nil _).symm, id⟩

/-- On the way into a block and out of it there is nothing to find. -/
theorem inBlock (inner : Covers registry names locals before.enter after) :
    Covers registry names locals before (before.leave after) :=
  ⟨inner.grows, inner.names_eq, inner.locals_eq, inner.ordered⟩

theorem trans (early : Covers registry names locals before between)
    (late : Covers registry moreNames moreLocals between after) :
    Covers registry (names ++ moreNames) (locals ++ moreLocals) before after where
  grows := early.grows.trans late.grows
  names_eq := by rw [late.names_eq, early.names_eq, List.append_assoc]
  locals_eq := by rw [late.locals_eq, early.locals_eq, List.append_assoc]
  ordered := late.ordered ∘ early.ordered

end Covers

/-- Between two places a walk comes by just what some nodes of a method have to say. -/
def CoversNodes (registry : Registry) (method : MethodEntry) (exprs : List Expr) (stmts : List Stmt)
    (before after : ScopeWalk) : Prop :=
  Covers registry (exprs.filter Expr.isName) (stmts.flatMap (Stmt.localSites method.id))
    before after

variable {registry : Registry} {method : MethodEntry}

namespace CoversNodes

variable {exprs more : List Expr} {stmts moreStmts : List Stmt} {before between after : ScopeWalk}

theorem trans (early : CoversNodes registry method exprs stmts before between)
    (late : CoversNodes registry method more moreStmts between after) :
    CoversNodes registry method (exprs ++ more) (stmts ++ moreStmts) before after := by
  rw [CoversNodes, List.filter_append, List.flatMap_append]
  exact Covers.trans early late

/-- A statement that declares nothing itself. -/
theorem andStmt (inner : CoversNodes registry method exprs stmts before after) (stmt : Stmt)
    (nothing : stmt.localSites method.id = []) :
    CoversNodes registry method exprs (stmts ++ [stmt]) before after := by
  simpa [CoversNodes, nothing] using inner

end CoversNodes

/-! ## Expressions and declarations -/

/-- What is found at a node is about a name, if anything, and it declares nothing. -/
theorem finds_of_finding? (blocks : List Block) (node : Expr) :
    (finding? registry method blocks node).bind Finding.node? =
      (if node.isName then some node else none) ∧
      (finding? registry method blocks node).bind Finding.local? = none := by
  cases node with
  | this site =>
    rw [finding?]
    cases Resolution.thisFault? method <;> exact ⟨rfl, rfl⟩
  | super site =>
    rw [finding?]
    cases Resolution.superFault? registry method <;> exact ⟨rfl, rfl⟩
  | literal | identifier | new | call | fieldAccess | unary | binary | step => exact ⟨rfl, rfl⟩

theorem covers_read (registry : Registry) (method : MethodEntry) (around : List Block)
    (nodes : List Expr) (walk : ScopeWalk) :
    CoversNodes registry method nodes [] walk (walk.read registry method around nodes) where
  grows := List.prefix_append _ _
  names_eq := by
    simp only [read, note, List.filterMap_append, List.filterMap_filterMap,
      (finds_of_finding? _ _).1]
    rw [← List.filterMap_eq_filter]
    rfl
  locals_eq := by
    simp [read, note, List.filterMap_append, List.filterMap_filterMap, (finds_of_finding? _ _).2]
  ordered ordered := by
    refine ordered.append fun finding isThere => ?_
    rcases List.mem_filterMap.mp isThere with ⟨node, _, found⟩
    simpa [found] using (@finds_of_finding? registry method (walk.block :: around) node).2

/-- A finding of its own. -/
theorem covers_note {registry : Registry} (walk : ScopeWalk) {finding : Finding}
    (isNext : finding.IsNext registry walk.findings) :
    Covers registry finding.node?.toList finding.local?.toList walk (walk.note [finding]) where
  grows := List.prefix_append _ _
  names_eq := by
    rw [note, List.filterMap_append, List.filterMap_cons]
    cases finding.node? <;> rfl
  locals_eq := by
    rw [note, List.filterMap_append, List.filterMap_cons]
    cases finding.local? <;> rfl
  ordered ordered := ordered.concat isNext

theorem covers_declare (stmt : StmtId) (decl : VariableDecl) (walk : ScopeWalk) :
    Covers registry [] [⟨method.id, stmt, decl⟩] walk (walk.declare registry method stmt decl) := by
  have typed : Covers registry [] [] walk (walk.typed registry decl) := by
    unfold ScopeWalk.typed
    split
    · exact .refl _
    · exact @covers_note registry walk (.untyped decl) trivial
  unfold declare
  dsimp only
  split
  · exact typed.trans (@covers_note registry _ (.repeated stmt decl method.id) trivial)
  · have isNext : Finding.IsNext registry (walk.typed registry decl).findings
        (.declared stmt decl (nextLocal registry method (walk.typed registry decl) decl)) :=
        ⟨rfl, rfl⟩
    have added := typed.trans (covers_note _ isNext)
    exact ⟨added.grows, added.names_eq, added.locals_eq, added.ordered⟩

theorem covers_locals (site : Site StmtId) (declared : List VariableDecl) (walk : ScopeWalk) :
    CoversNodes registry method [] [.declare site declared] walk
      (declared.foldl (declare registry method site.id) walk) := by
  rw [CoversNodes, List.flatMap_singleton, Stmt.localSites, List.filter_nil]
  induction declared generalizing walk with
  | nil => exact .refl walk
  | cons decl declared ih => exact (covers_declare site.id decl walk).trans (ih _)

/-! ## Statements -/

theorem covers_stmts {stmts : List Stmt}
    (each : ∀ stmt ∈ stmts, ∀ (around : List Block) (walk : ScopeWalk),
      CoversNodes registry method stmt.exprNodes stmt.nodes walk
      (throughStmt registry method around stmt walk))
    (around : List Block) (walk : ScopeWalk) :
    CoversNodes registry method (Stmt.exprNodesAll stmts) (Stmt.nodesAll stmts) walk
      (throughStmts registry method around stmts walk) := by
  induction stmts generalizing walk with
  | nil => exact .refl walk
  | cons stmt stmts ih =>
    exact (each stmt (by simp) around walk).trans
      (ih (fun other isOther => each other (by simp [isOther])) _)

theorem covers_option (around : List Block) (walk : ScopeWalk) (part : Option Stmt) :
    (∀ stmt ∈ part, ∀ (around : List Block) (walk : ScopeWalk),
      CoversNodes registry method stmt.exprNodes stmt.nodes walk
        (throughStmt registry method around stmt walk)) →
    CoversNodes registry method (match part with | some stmt => stmt.exprNodes | none => [])
      (match part with | some stmt => stmt.nodes | none => []) walk
      (throughOption registry method around part walk) := by
  intro each
  cases part with
  | none => exact .refl walk
  | some stmt => exact each stmt rfl around walk

/-- A walk through a statement comes by its names and its declarations. -/
theorem covers_stmt (around : List Block) (stmt : Stmt) (walk : ScopeWalk) :
    CoversNodes registry method stmt.exprNodes stmt.nodes walk
      (throughStmt registry method around stmt walk) := by
  induction stmt generalizing around walk with
  | block site statements ih =>
    have inner := covers_stmts ih (walk.block :: around) walk.enter
    exact CoversNodes.andStmt inner.inBlock (.block site statements) rfl
  | ifElse site condition thenBranch elseBranch thenIh elseIh =>
    have first := (covers_read registry method around condition.nodes walk).trans (thenIh around _)
    cases elseBranch with
    | none => exact first.andStmt (.ifElse site condition thenBranch none) rfl
    | some elseBranch =>
      have second := first.trans (elseIh elseBranch rfl around _)
      exact second.andStmt (.ifElse site condition thenBranch (some elseBranch)) rfl
  | whileLoop site condition body ih =>
    have tested := covers_read registry method around condition.nodes walk
    exact (tested.trans (ih around _)).andStmt (.whileLoop site condition body) rfl
  | forLoop site init condition update body initIh updateIh bodyIh =>
    have started := covers_option (walk.block :: around) walk.enter init initIh
    have tested :=
      started.trans (covers_read registry method (walk.block :: around)
        (Expr.nodesOption condition) _)
    have looped := tested.trans (covers_option (walk.block :: around) _ update updateIh)
    have all := looped.trans (bodyIh (walk.block :: around) _)
    rw [List.append_nil] at all
    have whole := CoversNodes.andStmt all.inBlock (.forLoop site init condition update body) rfl
    rw [throughStmt_forLoop]
    cases init <;> cases update <;> exact whole
  | ret site value =>
    exact (covers_read registry method around _ walk).andStmt (.ret site value) rfl
  | evaluate site expr =>
    exact (covers_read registry method around _ walk).andStmt (.evaluate site expr) rfl
  | assign site target value =>
    exact (covers_read registry method around _ walk).andStmt (.assign site target value) rfl
  | declare site declared => exact covers_locals site declared walk
  | print site value =>
    exact (covers_read registry method around _ walk).andStmt (.print site value) rfl
  | breakLoop site => exact .refl walk
  | continueLoop site => exact .refl walk
  | skip site => exact .refl walk

/-! ## Methods -/

theorem covers_body (body : Stmt) (walk : ScopeWalk) :
    CoversNodes registry method body.exprNodes body.nodes walk
      (throughBody registry method body walk) := by
  cases body with
  | block site statements =>
    have inner :=
      @covers_stmts registry method statements
        (fun stmt _ around => covers_stmt around stmt) [] walk
    exact inner.andStmt (.block site statements) rfl
  | ifElse | whileLoop | forLoop | ret | evaluate | assign | declare | print | breakLoop
  | continueLoop | skip =>
    rw [throughBody]
    · exact covers_stmt [] _ walk
    · simp

theorem grows_throughMethod (registry : Registry) (walk : ScopeWalk) (pair : MethodSource × Nat) :
    walk.findings <+: (walk.throughMethod registry pair).findings := by
  unfold throughMethod
  split
  next method _ =>
    exact (covers_body pair.1.decl.body
      { walk with block := parameterBlock pair.1.decl method }).grows
  · exact List.prefix_rfl

theorem grows_throughMethods (registry : Registry) (numbered : List (MethodSource × Nat))
    (walk : ScopeWalk) :
    walk.findings <+: (numbered.foldl (throughMethod registry) walk).findings := by
  induction numbered generalizing walk with
  | nil => exact List.prefix_rfl
  | cons pair numbered ih => exact (grows_throughMethod registry walk pair).trans (ih _)

/-- A walk through some bodies comes by all their names and declarations. -/
theorem covers_methods (wellFormed : registry.WellFormed) (numbered : List (MethodSource × Nat))
    (walk : ScopeWalk)
    (registered : ∀ pair ∈ numbered, ∃ method, registry.methodEntry? ⟨pair.2⟩ = some method) :
    Covers registry ((numbered.flatMap fun pair => pair.1.decl.body.exprNodes).filter Expr.isName)
      (numbered.flatMap fun pair => pair.1.decl.body.nodes.flatMap (Stmt.localSites ⟨pair.2⟩)) walk
      (numbered.foldl (throughMethod registry) walk) := by
  induction numbered generalizing walk with
  | nil => exact .refl walk
  | cons pair numbered ih =>
    rcases registered pair (by simp) with ⟨method, found⟩
    have body := @covers_body registry method pair.1.decl.body
      { walk with block := parameterBlock pair.1.decl method }
    rw [CoversNodes, wellFormed.method_id found] at body
    have first : Covers registry (pair.1.decl.body.exprNodes.filter Expr.isName)
        (pair.1.decl.body.nodes.flatMap (Stmt.localSites ⟨pair.2⟩)) walk
        (throughMethod registry walk pair) := by
      rw [throughMethod, found]
      exact ⟨body.grows, body.names_eq, body.locals_eq, body.ordered⟩
    rw [List.flatMap_cons, List.flatMap_cons, List.filter_append]
    exact first.trans (ih _ fun other isOther => registered other (by simp [isOther]))

end ScopeWalk

end Decaf
