import Decaf.Proofs.Reordering.Registries
import Decaf.Proofs.Resolution.Coverage

/-!
# Walks through a method of a reordered program

A walk by the rules of scoping through the body of a method finds the same when the classes of the
program are reordered: the variables have other numbers, and so has what the names stand for, but
name by name and declaration by declaration it is the same. In the two programs the walk comes to
the method with different findings about the methods in front of it, so only what is found from
there on is compared.
-/

namespace Decaf

/-! ## Options and lists in step -/

section

variable {Item Other : Type} {rel : Item → Other → Prop}

theorem rel_of_exists {left : Option Item} {right : Option Other}
    (forward : ∀ item, left = some item → ∃ other, right = some other ∧ rel item other)
    (backward : ∀ other, right = some other → ∃ item, left = some item) :
    Option.Rel rel left right := by
  cases left with
  | some item =>
    rcases forward item rfl with ⟨other, rfl, related⟩
    exact .some related
  | none =>
    cases right with
    | none => exact .none
    | some other =>
      rcases backward other rfl with ⟨_, isSome⟩
      cases isSome

theorem rel_or {left more : Option Item} {right others : Option Other}
    (first : Option.Rel rel left right) (second : Option.Rel rel more others) :
    Option.Rel rel (left.or more) (right.or others) := by
  cases first with
  | some related => exact .some related
  | none => exact second

theorem rel_map {Part Side : Type} {part : Part → Side → Prop} {view : Part → Item}
    {otherView : Side → Other}
    (each : ∀ {inner side}, part inner side → rel (view inner) (otherView side))
    {left : Option Part} {right : Option Side} (related : Option.Rel part left right) :
    Option.Rel rel (left.map view) (right.map otherView) := by
  cases related with
  | some related => exact .some (each related)
  | none => exact .none

theorem exists_of_mem {items : List Item} {others : List Other}
    (same : List.Forall₂ rel items others) {item : Item} (isThere : item ∈ items) :
    ∃ other ∈ others, rel item other := by
  induction same with
  | nil => cases isThere
  | @cons first other items others related _ ih =>
    rcases List.mem_cons.mp isThere with rfl | isLater
    · exact ⟨other, List.mem_cons_self, related⟩
    · rcases ih isLater with ⟨later, isOther, laterRelated⟩
      exact ⟨later, List.mem_cons_of_mem _ isOther, laterRelated⟩

end

/-! ## What is compared -/

/-- Two registries with the classes that they hold, and which of their variables go together. -/
structure Pairing where
  classes : List ClassDecl
  other : List ClassDecl
  registry : Registry
  otherRegistry : Registry
  sameVariable : VariableId → VariableId → Prop

namespace Pairing

/-- The two registries hold the same classes. -/
def Reorders (pairing : Pairing) : Prop :=
  Reordering pairing.classes pairing.other pairing.registry pairing.otherRegistry

/-- Two symbols stand for the same. -/
def SameSymbol (pairing : Pairing) : Symbol → Symbol → Prop :=
  Decaf.SameSymbol pairing.classes pairing.other pairing.registry pairing.otherRegistry
    pairing.sameVariable

/-- Two types are the same, whatever the numbers of the classes. -/
def SameType (pairing : Pairing) : DataType → DataType → Prop :=
  Decaf.SameType pairing.classes pairing.other

/-- Two blocks have the same names for variables that go together. -/
def SameBlock (pairing : Pairing) : Block → Block → Prop :=
  List.Forall₂ fun declared otherDeclared =>
    otherDeclared.1 = declared.1 ∧ pairing.sameVariable declared.2 otherDeclared.2

/-- Two findings say the same about one place. -/
inductive SameFinding (pairing : Pairing) : Finding → Finding → Prop
  | used {site : Site ExprId} {name : String} {meaning otherMeaning : Option Symbol}
      (same : Option.Rel pairing.SameSymbol meaning otherMeaning) :
      SameFinding pairing (.used site name meaning) (.used site name otherMeaning)
  | created {site : Site ExprId} {className : String} {owner otherOwner : Option ClassId}
      (same : Option.Rel (SameClass pairing.classes pairing.other) owner otherOwner) :
      SameFinding pairing (.created site className owner) (.created site className otherOwner)
  | misplaced {site : Site ExprId} {keyword reason : String} :
      SameFinding pairing (.misplaced site keyword reason) (.misplaced site keyword reason)
  | untyped {decl : VariableDecl} : SameFinding pairing (.untyped decl) (.untyped decl)
  | declared {stmt : StmtId} {decl : VariableDecl} {entry otherEntry : VariableEntry}
      (same : pairing.SameType entry.type otherEntry.type) :
      SameFinding pairing (.declared stmt decl entry) (.declared stmt decl otherEntry)
  | repeated {stmt : StmtId} {decl : VariableDecl} {method otherMethod : MethodId} :
      SameFinding pairing (.repeated stmt decl method) (.repeated stmt decl otherMethod)

/-- Behind what was found before, two walks have found the same, and they have come to the same
block. -/
structure SameWalk (pairing : Pairing) (front otherFront : List Finding)
    (walk otherWalk : ScopeWalk) : Prop where
  block : pairing.SameBlock walk.block otherWalk.block
  findings : ∃ found otherFound,
    walk.findings = front ++ found ∧ otherWalk.findings = otherFront ++ otherFound ∧
    List.Forall₂ pairing.SameFinding found otherFound

/-- Variables of one type that two walks have declared at the same place go together. -/
def JoinsLocals (pairing : Pairing) (walk otherWalk : ScopeWalk) : Prop :=
  ∀ stmt decl entry otherEntry, .declared stmt decl entry ∈ walk.findings →
    .declared stmt decl otherEntry ∈ otherWalk.findings →
    pairing.SameType entry.type otherEntry.type →
      pairing.sameVariable entry.id otherEntry.id

variable {pairing : Pairing} {method otherMethod : MethodEntry} {front otherFront : List Finding}
  {walk otherWalk : ScopeWalk} {around otherAround : List Block}

theorem JoinsLocals.earlier {after otherAfter : ScopeWalk}
    (joins : pairing.JoinsLocals after otherAfter) (grows : walk.findings <+: after.findings)
    (otherGrows : otherWalk.findings <+: otherAfter.findings) :
    pairing.JoinsLocals walk otherWalk :=
  fun stmt decl entry otherEntry isDeclared otherDeclared =>
    joins stmt decl entry otherEntry (grows.subset isDeclared) (otherGrows.subset otherDeclared)

/-! ## Names -/

theorem SameBlock.lookup {block otherBlock : Block} (same : pairing.SameBlock block otherBlock)
    (name : String) :
    Option.Rel pairing.sameVariable (block.lookup name) (otherBlock.lookup name) := by
  induction same with
  | nil => exact .none
  | @cons declared otherDeclared block otherBlock related _ ih =>
    rw [List.lookup_cons, List.lookup_cons, related.1]
    split
    · exact .some related.2
    · exact ih

theorem rel_lookup_blocks {blocks otherBlocks : List Block}
    (same : List.Forall₂ pairing.SameBlock blocks otherBlocks) (name : String) :
    Option.Rel pairing.sameVariable (blocks.findSome? fun block => block.lookup name)
      (otherBlocks.findSome? fun block => block.lookup name) := by
  induction same with
  | nil => exact .none
  | @cons block otherBlock _ _ related _ ih =>
    rw [List.findSome?_cons, List.findSome?_cons]
    have found := related.lookup name
    generalize block.lookup name = here at found
    generalize otherBlock.lookup name = otherHere at found
    cases found with
    | some related => exact .some related
    | none => exact ih

section

variable (reorders : pairing.Reorders)

include reorders

variable {blocks otherBlocks : List Block}

theorem rel_classNamed? (name : String) : Option.Rel (SameClass pairing.classes pairing.other)
    (pairing.registry.classNamed? name) (pairing.otherRegistry.classNamed? name) := by
  refine rel_of_exists (fun _ found => reorders.exists_classNamed found) fun _ otherFound => ?_
  rcases reorders.symm.exists_classNamed otherFound with ⟨id, found, _⟩
  exact ⟨id, found⟩

theorem rel_resolveType? (written : TypeName) : Option.Rel pairing.SameType
    (pairing.registry.resolveType? written) (pairing.otherRegistry.resolveType? written) := by
  refine rel_of_exists (fun _ found => reorders.exists_type found) fun _ otherFound => ?_
  rcases reorders.symm.exists_type otherFound with ⟨type, found, _⟩
  exact ⟨type, found⟩

/-- A name at a place stands for the same declaration in both programs. -/
theorem rel_meaning? {owner otherOwner : ClassId}
    (ownerSame : SameClass pairing.classes pairing.other owner otherOwner)
    (blocksSame : List.Forall₂ pairing.SameBlock blocks otherBlocks) (name : String) :
    Option.Rel pairing.SameSymbol (pairing.registry.meaning? owner blocks name)
      (pairing.otherRegistry.meaning? otherOwner otherBlocks name) := by
  rw [Registry.meaning?_eq reorders.holds.wellFormed reorders.holds.acyclic,
    Registry.meaning?_eq reorders.otherHolds.wellFormed reorders.otherHolds.acyclic]
  refine rel_or (rel_map (fun same => .ofVariable same) (rel_lookup_blocks blocksSame name))
    (rel_or (rel_of_exists (fun _ found => reorders.exists_member _ ownerSame found)
      fun _ otherFound => ?_) (rel_map (fun same => .ofClass same) (rel_classNamed? reorders name)))
  rcases reorders.symm.exists_member (fun _ _ => True) ownerSame.symm otherFound with
    ⟨symbol, found, _⟩
  exact ⟨symbol, found⟩

variable (methodSame : SameMethod pairing.classes pairing.other method otherMethod)

include methodSame

theorem superFault?_eq : Resolution.superFault? pairing.otherRegistry otherMethod =
    Resolution.superFault? pairing.registry method := by
  have sameParent : (pairing.otherRegistry.parent? otherMethod.owner).isNone =
      (pairing.registry.parent? method.owner).isNone := by
    cases parentEq : pairing.registry.parent? method.owner with
    | none => rw [reorders.parent?_eq_none methodSame.owner parentEq]
    | some parent =>
      rcases reorders.exists_parent methodSame.owner parentEq with ⟨otherParent, otherParentEq, _⟩
      rw [otherParentEq]
      rfl
  rw [Resolution.superFault?, Resolution.superFault?, methodSame.isStatic_eq, sameParent]

theorem rel_finding? (blocksSame : List.Forall₂ pairing.SameBlock blocks otherBlocks)
    (node : Expr) :
    Option.Rel pairing.SameFinding (ScopeWalk.finding? pairing.registry method blocks node)
      (ScopeWalk.finding? pairing.otherRegistry otherMethod otherBlocks node) := by
  cases node with
  | identifier site name =>
    exact .some (.used (rel_meaning? reorders methodSame.owner blocksSame name))
  | new site className => exact .some (.created (rel_classNamed? reorders className))
  | this site =>
    have sameFault : Resolution.thisFault? otherMethod = Resolution.thisFault? method := by
      rw [Resolution.thisFault?, Resolution.thisFault?, methodSame.isStatic_eq]
    rw [ScopeWalk.finding?, ScopeWalk.finding?, sameFault]
    cases Resolution.thisFault? method with
    | none => exact .none
    | some reason => exact .some .misplaced
  | super site =>
    rw [ScopeWalk.finding?, ScopeWalk.finding?, superFault?_eq reorders methodSame]
    cases Resolution.superFault? pairing.registry method with
    | none => exact .none
    | some reason => exact .some .misplaced
  | literal | call | fieldAccess | unary | binary | step => exact .none

end

/-! ## Expressions and declarations -/

namespace SameWalk

section

variable (same : pairing.SameWalk front otherFront walk otherWalk)
include same

theorem note {more otherMore : List Finding}
    (moreSame : List.Forall₂ pairing.SameFinding more otherMore) :
    pairing.SameWalk front otherFront (walk.note more) (otherWalk.note otherMore) where
  block := same.block
  findings := by
    rcases same.findings with ⟨found, otherFound, findingsEq, otherFindingsEq, foundSame⟩
    refine ⟨found ++ more, otherFound ++ otherMore, ?_, ?_, List.rel_append foundSame moreSame⟩
    · rw [ScopeWalk.note, findingsEq, List.append_assoc]
    · rw [ScopeWalk.note, otherFindingsEq, List.append_assoc]

theorem enter : pairing.SameWalk front otherFront walk.enter otherWalk.enter :=
  ⟨.nil, same.findings⟩

theorem leave {inside otherInside : ScopeWalk}
    (inner : pairing.SameWalk front otherFront inside otherInside) :
    pairing.SameWalk front otherFront (walk.leave inside) (otherWalk.leave otherInside) :=
  ⟨same.block, inner.findings⟩

end

section

variable (reorders : pairing.Reorders)

include reorders

section

variable (same : pairing.SameWalk front otherFront walk otherWalk)
include same

theorem typed (decl : VariableDecl) :
    pairing.SameWalk front otherFront (walk.typed pairing.registry decl)
      (otherWalk.typed pairing.otherRegistry decl) := by
  have types := rel_resolveType? reorders decl.type
  unfold ScopeWalk.typed
  generalize pairing.registry.resolveType? decl.type = type at types
  generalize pairing.otherRegistry.resolveType? decl.type = otherType at types
  cases types with
  | some _ => exact same
  | none => exact same.note (.cons .untyped .nil)

theorem declare {stmt : StmtId} {decl : VariableDecl}
    (joins : pairing.JoinsLocals (walk.declare pairing.registry method stmt decl)
      (otherWalk.declare pairing.otherRegistry otherMethod stmt decl)) :
    pairing.SameWalk front otherFront (walk.declare pairing.registry method stmt decl)
      (otherWalk.declare pairing.otherRegistry otherMethod stmt decl) := by
  have typed := same.typed reorders decl
  unfold ScopeWalk.declare at joins ⊢
  dsimp only at joins ⊢
  generalize walk.typed pairing.registry decl = checked at typed joins
  generalize otherWalk.typed pairing.otherRegistry decl = otherChecked at typed joins
  have taken := typed.block.lookup decl.name
  generalize checked.block.lookup decl.name = existing at taken joins
  generalize otherChecked.block.lookup decl.name = otherExisting at taken joins
  cases taken with
  | some _ => exact typed.note (.cons .repeated .nil)
  | none =>
    have typeSame : pairing.SameType (checked.nextLocal pairing.registry method decl).type
        (otherChecked.nextLocal pairing.otherRegistry otherMethod decl).type := by
      have types := rel_resolveType? reorders decl.type
      rw [ScopeWalk.nextLocal, ScopeWalk.nextLocal]
      generalize pairing.registry.resolveType? decl.type = type at types
      generalize pairing.otherRegistry.resolveType? decl.type = otherType at types
      cases types with
      | some typeSame => exact typeSame
      | none => exact .null
    have isNew := joins _ _ _ _ (List.mem_append_right _ List.mem_cons_self)
      (List.mem_append_right _ List.mem_cons_self) typeSame
    exact ⟨List.rel_append typed.block (.cons ⟨rfl, isNew⟩ .nil),
      (typed.note (.cons (.declared typeSame) .nil)).findings⟩

theorem locals (site : Site StmtId) {declared : List VariableDecl}
    (joins : pairing.JoinsLocals
      (declared.foldl (ScopeWalk.declare pairing.registry method site.id) walk)
      (declared.foldl (ScopeWalk.declare pairing.otherRegistry otherMethod site.id) otherWalk)) :
    pairing.SameWalk front otherFront
      (declared.foldl (ScopeWalk.declare pairing.registry method site.id) walk)
      (declared.foldl (ScopeWalk.declare pairing.otherRegistry otherMethod site.id) otherWalk) := by
  induction declared generalizing walk otherWalk with
  | nil => exact same
  | cons decl declared ih =>
    have first :=
      same.declare reorders (joins.earlier (ScopeWalk.covers_locals site declared _).grows
        (ScopeWalk.covers_locals site declared _).grows)
    exact ih first joins

end

variable (methodSame : SameMethod pairing.classes pairing.other method otherMethod)
  (aroundSame : List.Forall₂ pairing.SameBlock around otherAround)

include methodSame aroundSame

theorem read (same : pairing.SameWalk front otherFront walk otherWalk) (nodes : List Expr) :
    pairing.SameWalk front otherFront (walk.read pairing.registry method around nodes)
      (otherWalk.read pairing.otherRegistry otherMethod otherAround nodes) := by
  have sameNodes : List.Forall₂ (· = ·) nodes nodes := List.forall₂_refl nodes
  refine same.note (List.rel_filterMap (fun node _ sameNode => ?_) sameNodes)
  subst sameNode
  exact rel_finding? reorders methodSame (.cons same.block aroundSame) node

end

end SameWalk

/-! ## Statements -/

/-- Two walks that find the same do so behind a statement. -/
def KeepsSame (pairing : Pairing) (method otherMethod : MethodEntry)
    (front otherFront : List Finding) (stmt : Stmt) : Prop :=
  ∀ {around otherAround : List Block} {walk otherWalk : ScopeWalk},
    List.Forall₂ pairing.SameBlock around otherAround →
    pairing.SameWalk front otherFront walk otherWalk →
      pairing.JoinsLocals (walk.throughStmt pairing.registry method around stmt)
        (otherWalk.throughStmt pairing.otherRegistry otherMethod otherAround stmt) →
        pairing.SameWalk front otherFront (walk.throughStmt pairing.registry method around stmt)
          (otherWalk.throughStmt pairing.otherRegistry otherMethod otherAround stmt)

theorem SameWalk.stmts {stmts : List Stmt}
    (each : ∀ stmt ∈ stmts, pairing.KeepsSame method otherMethod front otherFront stmt)
    (aroundSame : List.Forall₂ pairing.SameBlock around otherAround)
    (same : pairing.SameWalk front otherFront walk otherWalk)
    (joins : pairing.JoinsLocals (walk.throughStmts pairing.registry method around stmts)
      (otherWalk.throughStmts pairing.otherRegistry otherMethod otherAround stmts)) :
    pairing.SameWalk front otherFront (walk.throughStmts pairing.registry method around stmts)
      (otherWalk.throughStmts pairing.otherRegistry otherMethod otherAround stmts) := by
  induction stmts generalizing walk otherWalk with
  | nil => exact same
  | cons stmt stmts ih =>
    have grows (registry : Registry) (method : MethodEntry) (around : List Block)
        (walk : ScopeWalk) :
        walk.findings <+: (walk.throughStmts registry method around stmts).findings :=
      (ScopeWalk.covers_stmts (fun stmt _ around => ScopeWalk.covers_stmt around stmt)
        around walk).grows
    have firstJoins : pairing.JoinsLocals (walk.throughStmt pairing.registry method around stmt)
        (otherWalk.throughStmt pairing.otherRegistry otherMethod otherAround stmt) :=
      joins.earlier (grows _ _ _ _) (grows _ _ _ _)
    have first := each stmt List.mem_cons_self aroundSame same firstJoins
    exact ih (fun other isOther => each other (List.mem_cons_of_mem _ isOther)) first joins

theorem SameWalk.option {part : Option Stmt}
    (each : ∀ stmt ∈ part, pairing.KeepsSame method otherMethod front otherFront stmt)
    (aroundSame : List.Forall₂ pairing.SameBlock around otherAround)
    (same : pairing.SameWalk front otherFront walk otherWalk)
    (joins : pairing.JoinsLocals (walk.throughOption pairing.registry method around part)
      (otherWalk.throughOption pairing.otherRegistry otherMethod otherAround part)) :
    pairing.SameWalk front otherFront (walk.throughOption pairing.registry method around part)
      (otherWalk.throughOption pairing.otherRegistry otherMethod otherAround part) := by
  cases part with
  | none => exact same
  | some stmt => exact each stmt rfl aroundSame same joins

section

variable (reorders : pairing.Reorders)
  (methodSame : SameMethod pairing.classes pairing.other method otherMethod)

include reorders methodSame

theorem keepsSame_stmt (stmt : Stmt) :
    pairing.KeepsSame method otherMethod front otherFront stmt := by
  have growsStmt (registry : Registry) (method : MethodEntry) (around : List Block) (stmt : Stmt)
      (walk : ScopeWalk) :
      walk.findings <+: (walk.throughStmt registry method around stmt).findings :=
    (ScopeWalk.covers_stmt around stmt walk).grows
  induction stmt with
  | block site statements ih =>
    intro around otherAround walk otherWalk aroundSame same joins
    exact same.leave (same.enter.stmts ih (.cons same.block aroundSame) joins)
  | ifElse site condition thenBranch elseBranch thenIh elseIh =>
    intro around otherAround walk otherWalk aroundSame same joins
    have tested := same.read reorders methodSame aroundSame condition.nodes
    cases elseBranch with
    | none => exact thenIh aroundSame tested joins
    | some elseBranch =>
      have first :=
        thenIh aroundSame tested
          (joins.earlier (growsStmt _ _ _ elseBranch _) (growsStmt _ _ _ elseBranch _))
      exact elseIh elseBranch rfl aroundSame first joins
  | whileLoop site condition body ih =>
    intro around otherAround walk otherWalk aroundSame same joins
    exact ih aroundSame (same.read reorders methodSame aroundSame condition.nodes) joins
  | forLoop site init condition update body initIh updateIh bodyIh =>
    intro around otherAround walk otherWalk aroundSame same joins
    have growsOption (registry : Registry) (method : MethodEntry) (around : List Block)
        (part : Option Stmt)
        (walk : ScopeWalk) : walk.findings <+:
          (walk.throughOption registry method around part).findings :=
      (ScopeWalk.covers_option around walk part fun stmt _ around =>
        ScopeWalk.covers_stmt around stmt).grows
    rw [ScopeWalk.throughStmt_forLoop, ScopeWalk.throughStmt_forLoop] at joins ⊢
    have inner := aroundSame.cons same.block
    have updatedJoins := joins.earlier (growsStmt _ _ _ body _) (growsStmt _ _ _ body _)
    have testedJoins :=
      updatedJoins.earlier (growsOption _ _ _ update _) (growsOption _ _ _ update _)
    have startedJoins := testedJoins.earlier (ScopeWalk.covers_read _ _ _ _ _).grows
      (ScopeWalk.covers_read _ _ _ _ _).grows
    have started := same.enter.option initIh inner startedJoins
    have tested := started.read reorders methodSame inner (Expr.nodesOption condition)
    have updated := tested.option updateIh inner updatedJoins
    exact same.leave (bodyIh inner updated joins)
  | ret site value =>
    intro around otherAround walk otherWalk aroundSame same joins
    exact same.read reorders methodSame aroundSame _
  | evaluate site expr =>
    intro around otherAround walk otherWalk aroundSame same joins
    exact same.read reorders methodSame aroundSame _
  | assign site target value =>
    intro around otherAround walk otherWalk aroundSame same joins
    exact same.read reorders methodSame aroundSame _
  | declare site declared =>
    intro around otherAround walk otherWalk aroundSame same joins
    exact same.locals reorders site joins
  | print site value =>
    intro around otherAround walk otherWalk aroundSame same joins
    exact same.read reorders methodSame aroundSame _
  | breakLoop site | continueLoop site | skip site =>
    intro around otherAround walk otherWalk aroundSame same joins
    exact same

/-- Walks through the body of a method find the same. -/
theorem SameWalk.body (same : pairing.SameWalk front otherFront walk otherWalk) (body : Stmt)
    (joins : pairing.JoinsLocals (walk.throughBody pairing.registry method body)
      (otherWalk.throughBody pairing.otherRegistry otherMethod body)) :
    pairing.SameWalk front otherFront (walk.throughBody pairing.registry method body)
      (otherWalk.throughBody pairing.otherRegistry otherMethod body) := by
  cases body with
  | block site statements =>
    exact same.stmts (fun stmt _ => keepsSame_stmt reorders methodSame stmt) .nil joins
  | ifElse | whileLoop | forLoop | ret | evaluate | assign | declare | print | breakLoop
  | continueLoop | skip => exact keepsSame_stmt reorders methodSame _ .nil same joins

end

end Pairing

end Decaf
