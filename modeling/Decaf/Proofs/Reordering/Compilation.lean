import Decaf.Proofs.Checked
import Decaf.Proofs.Reordering.Bindings
import Decaf.Proofs.Typing.Decision
import Decaf.Proofs.Reordering.Bodies
import Decaf.Proofs.Resolution.Scoped
import Decaf.Proofs.Compiler
import Decaf.Proofs.Reordering.Shapes

/-!
# Acceptance and compilation of a reordered program

Whether a program is accepted does not depend on the order of its classes: its declarations fit in
every order or in none, and so do the names and the types in its method bodies.
-/

namespace Decaf

variable {program other : Program} {members otherMembers : Members}
  {resolution otherResolution : Resolution}

/-- The checked program, once no phase has a complaint. -/
theorem Program.AnalyzedAs.checked_eq (analyzedAs : program.AnalyzedAs members resolution)
    (typed : (Findings.ofResolution program.exprs.size members.sources
      resolution).diagnostics = []) :
    (Analysis.ofProgram program).checked = .ok (.ofResolution program members resolution) := by
  rcases analyzedAs with ⟨hierarchyFree, membersFree, rfl, rfl, silent⟩
  have declarationsFree : (Hierarchy.ofClasses program.classes).diagnostics ++
      (Members.ofHierarchy program.classes (Hierarchy.ofClasses program.classes)).diagnostics =
        [] := by
    rw [hierarchyFree, membersFree, List.append_nil]
  simp only [Analysis.ofProgram, Analysis.ofDeclarations, if_pos declarationsFree,
    Analysis.typing, if_pos silent, Analysis.checked, if_pos typed, CheckedProgram.ofResolution]

namespace Program.RegisteredAs

variable (registered : program.RegisteredAs members resolution)
  (otherRegistered : other.RegisteredAs otherMembers otherResolution)
  (perm : program.classes.Perm other.classes)

include registered otherRegistered perm

/-- The bodies of a reordered program follow the rules of types. -/
theorem bodyTyped
    (bodiesTyped : ∀ body ∈ MethodBody.inSourceOrder members.sources, ∃ method,
      resolution.registry.methodEntry? body.id = some method ∧
      Checking.BodyTyped ⟨resolution.registry, resolution.bindings, method⟩ body.source.decl.body) :
    ∀ body ∈ MethodBody.inSourceOrder otherMembers.sources, ∃ method,
      otherResolution.registry.methodEntry? body.id = some method ∧
        Checking.BodyTyped ⟨otherResolution.registry, otherResolution.bindings, method⟩
          body.source.decl.body := by
  intro body isBody
  have otherRecorded := Findings.mem_inSourceOrder.mp isBody
  rcases otherRegistered.exists_method otherRecorded with ⟨_, otherMethod, _, _, otherFound, _, _⟩
  rcases otherRegistered.exists_sameSource registered perm.symm otherRecorded otherFound with
    ⟨index, source, method, recorded, found, sameDecl, methodSame⟩
  have isThere : (⟨⟨index⟩, source⟩ : MethodBody) ∈ MethodBody.inSourceOrder members.sources :=
    Findings.mem_inSourceOrder.mpr recorded
  rcases bodiesTyped _ isThere with ⟨again, foundAgain, typed⟩
  obtain rfl : again = method := by
    rw [registered.follows.extended.methodEntry?_eq, found] at foundAgain
    exact (Option.some.inj foundAgain).symm
  have settings : SameSetting program.classes other.classes ⟨resolution.registry,
      resolution.bindings, again⟩
      ⟨otherResolution.registry, otherResolution.bindings, otherMethod⟩ :=
    ⟨⟨perm, registered.laterHolds, otherRegistered.laterHolds⟩, methodSame.symm⟩
  refine ⟨otherMethod, (otherRegistered.follows.extended.methodEntry?_eq _).trans otherFound, ?_⟩
  exact sameDecl ▸ typed.reordered settings
    (registered.boundAlike otherRegistered perm recorded again otherMethod)

end Program.RegisteredAs

/-! ## Checked programs -/

/-- What is left of a program when no phase has a complaint. -/
structure Program.CheckedAs (program : Program) (members : Members) (resolution : Resolution)
    (checked : CheckedProgram) : Prop extends program.ResolvedAs members resolution where
  typed : (Findings.ofResolution program.exprs.size members.sources resolution).diagnostics = []
  checkedEq : checked = .ofResolution program members resolution

namespace Program.CheckedAs

variable {checked : CheckedProgram} {index : Nat} {source : MethodSource} {method : MethodEntry}

theorem exists_of_checked (isForest : program.IsForest)
    (isChecked : (Analysis.ofProgram program).checked = .ok checked) :
    ∃ members resolution, program.CheckedAs members resolution checked := by
  rcases Analysis.analyzedAs_of_checked isChecked with
    ⟨members, resolution, analyzedAs, typed, checkedEq⟩
  exact ⟨members, resolution, ⟨analyzedAs, isForest⟩, typed, checkedEq⟩

section

variable (checkedAs : program.CheckedAs members resolution checked)

include checkedAs

theorem checked_eq : (Analysis.ofProgram program).checked = .ok checked := by
  rw [checkedAs.checkedEq]
  exact checkedAs.toResolvedAs.checked_eq checkedAs.typed

theorem sound : checked.Sound := by
  rw [checkedAs.checkedEq]
  exact checkedAs.toResolvedAs.sound checkedAs.typed

theorem mem_bodies {body : MethodBody} :
    body ∈ checked.bodies ↔ members.sources[body.id.index]? = some body.source := by
  rw [checkedAs.checkedEq]
  exact Findings.mem_inSourceOrder

theorem methodEntry?_eq (id : MethodId) :
    checked.registry.methodEntry? id = members.registry.methodEntry? id := by
  rw [checkedAs.checkedEq]
  exact checkedAs.registeredAs.follows.extended.methodEntry?_eq id

/-- The rules say something about each node, and it is in the table. -/
theorem exists_judgement (recorded : members.sources[index]? = some source)
    (found : members.registry.methodEntry? ⟨index⟩ = some method) {node : Expr}
    (isNode : node ∈ source.decl.body.exprNodes) :
    ∃ judgement, Derives ⟨checked.registry, checked.bindings, method⟩ node judgement ∧
      checked.table.Shows node.id judgement := by
  rw [checkedAs.checkedEq]
  have isBody : (⟨⟨index⟩, source⟩ : MethodBody) ∈ MethodBody.inSourceOrder members.sources :=
    Findings.mem_inSourceOrder.mpr recorded
  refine (Findings.decides_ofResolution checkedAs.toResolvedAs).2 checkedAs.typed _
    isBody method ?_ node isNode
  rw [checkedAs.registeredAs.follows.extended.methodEntry?_eq]
  exact found

theorem bodySound (recorded : members.sources[index]? = some source)
    (found : members.registry.methodEntry? ⟨index⟩ = some method) :
    checked.BodySound method source.decl.body := by
  have isBody : (⟨⟨index⟩, source⟩ : MethodBody) ∈ checked.bodies :=
    checkedAs.mem_bodies.mpr recorded
  rcases checkedAs.sound.bodies _ isBody with ⟨again, againFound, bodySound⟩
  rw [checkedAs.methodEntry?_eq, found] at againFound
  exact Option.some.inj againFound ▸ bodySound

end

/-- A program that is checked without complaints is so in every order of its classes. -/
theorem exists_of_perm (checkedAs : program.CheckedAs members resolution checked)
    (perm : program.classes.Perm other.classes) (otherForest : other.IsForest) :
    ∃ otherMembers otherResolution otherChecked,
      other.CheckedAs otherMembers otherResolution otherChecked := by
  have registered := checkedAs.registeredAs
  have membersFree := registered.membersFree
  rw [registered.membersEq] at membersFree
  rcases Analysis.declarations_of_perm perm registered.hierarchyFree membersFree with
    ⟨otherHierarchyFree, otherMembersFree⟩
  have otherRegistered : other.RegisteredAs
      (.ofHierarchy other.classes (Hierarchy.ofClasses other.classes))
      (.ofMembers (.ofHierarchy other.classes (Hierarchy.ofClasses other.classes))) :=
    ⟨otherHierarchyFree, otherMembersFree, rfl, rfl, otherForest⟩
  have otherResolvedAs :=
    otherRegistered.resolvedAs (registered.silent_of_perm otherRegistered perm checkedAs.silent)
  have bodiesTyped := (Findings.decides_ofResolution checkedAs.toResolvedAs).1.mp checkedAs.typed
  exact ⟨_, _, _, otherResolvedAs, (Findings.decides_ofResolution otherResolvedAs).1.mpr
    (registered.bodyTyped otherRegistered perm bodiesTyped), rfl⟩

end Program.CheckedAs

/-!
## Code generation for a reordered program

The names and calls in the body of a method stand for the same declarations in every order of the
classes, so that its code is generated side by side.
-/

variable {classes others : List ClassDecl} {context other : MethodContext}

/-! ## Nodes -/

/-- What is there on both sides. -/
theorem bothThere {Item OtherItem : Type} {content : Option Item} {otherContent : Option OtherItem}
    (isThere : ∃ item, content = some item) (otherIsThere : ∃ item, otherContent = some item) :
    Option.Rel (fun _ _ => True) content otherContent := by
  rcases isThere with ⟨item, rfl⟩
  rcases otherIsThere with ⟨otherItem, rfl⟩
  exact .some trivial

namespace MethodContext

/-- A variable of the method has a slot. -/
theorem Complete.exists_slotOf (complete : context.Complete) {id : VariableId}
    (own : ∃ entry, context.registry.variableEntry? id = some entry ∧
      entry.method = context.method.id) :
    ∃ slot, context.slotOf? id = some slot := by
  rcases own with ⟨entry, found, isOwn⟩
  rcases complete.slot found isOwn with ⟨slot, slotEq, _⟩
  exact ⟨slot, by rw [slotOf?, found, Option.bind_some, slotEq]⟩

section

variable (complete : context.Complete) (otherComplete : other.Complete)

include complete otherComplete

variable {node : Expr}

theorem fieldsAlike_of_same {id otherId : FieldId}
    (same : SameSymbol classes others context.registry other.registry
      (SameVariable classes others context.registry other.registry) (.ofField id)
      (.ofField otherId)) :
    Option.Rel (context.FieldsAlike other) (context.registry.fieldEntry? id)
      (other.registry.fieldEntry? otherId) := by
  cases same with
  | ofField found otherFound same =>
    rw [found, otherFound]
    exact .some ⟨same.isStatic_eq,
      bothThere (complete.offset found) (otherComplete.offset otherFound)⟩

theorem symbolsAlike_of_same {symbol otherSymbol : Symbol}
    (seen : context.registry.SeenIn context.method.id symbol)
    (otherSeen : other.registry.SeenIn other.method.id otherSymbol)
    (same : SameSymbol classes others context.registry other.registry
      (SameVariable classes others context.registry other.registry) symbol otherSymbol) :
    context.SymbolsAlike other symbol otherSymbol := by
  cases same with
  | ofClass => exact .ofClass
  | ofMethod => exact .ofMethod
  | ofField found otherFound same =>
    exact .ofField (fieldsAlike_of_same complete otherComplete (.ofField found otherFound same))
  | ofVariable =>
    exact .ofVariable (bothThere (complete.exists_slotOf (seen.own _ rfl))
      (otherComplete.exists_slotOf (otherSeen.own _ rfl)))

theorem symbols_of_bound
    (settles : Resolution.Settles context.registry context.bindings context.method node)
    (otherSettles : Resolution.Settles other.registry other.bindings other.method node)
    (bound : BoundAlike classes others context.setting other.setting node)
    (isName : node.isName = true) :
    Option.Rel (context.SymbolsAlike other) (context.bindings.symbol? node.id)
      (other.bindings.symbol? node.id) := by
  cases node with
  | identifier site name =>
    rcases settles with ⟨symbol, isBound, seen⟩
    rcases otherSettles with ⟨otherSymbol, otherIsBound, otherSeen⟩
    rcases bound isName symbol isBound with ⟨again, againBound, same⟩
    obtain rfl := Option.some.inj (otherIsBound.symm.trans againBound)
    rw [Expr.id, Expr.site, isBound, otherIsBound]
    exact .some (symbolsAlike_of_same complete otherComplete seen otherSeen same)
  | new site className =>
    rcases settles with ⟨id, isBound, _⟩
    rcases otherSettles with ⟨otherId, otherIsBound, _⟩
    rw [Expr.id, Expr.site, isBound, otherIsBound]
    exact .some .ofClass
  | literal | this | super | call | fieldAccess | unary | binary | step => cases isName

omit complete otherComplete in
theorem targetsAlike_of_same {target otherTarget : CallTarget}
    (dispatch : SameDispatch target.dispatch otherTarget.dispatch)
    (same : SameSymbol classes others context.registry other.registry
      (SameVariable classes others context.registry other.registry) (.ofMethod target.method)
      (.ofMethod otherTarget.method)) :
    context.TargetsAlike other target otherTarget := by
  refine ⟨dispatch, ?_⟩
  cases same with
  | ofMethod found otherFound same =>
    rw [found, otherFound]
    exact .some same.returnType.eq_primitive_iff

omit complete otherComplete in
theorem printKinds_of_same {meaning otherMeaning : Meaning}
    (same : SameMeaning classes others meaning otherMeaning)
    (typeOf : context.table.typeOf? node.id = Judgement.type? { meaning })
    (otherTypeOf : other.table.typeOf? node.id = Judgement.type? { meaning := otherMeaning }) :
    Option.Rel (fun _ _ => True) (Generating.printKind? context node)
        (Generating.printKind? other node) := by
  rw [Generating.printKind?, Generating.printKind?, typeOf, otherTypeOf]
  cases same with
  | aClass | asParent => exact .none
  | value same =>
    cases same with
    | object | null => exact .none
    | @primitive kind =>
      change Option.Rel _ (PrintKind.ofPrimitive? kind) (PrintKind.ofPrimitive? kind)
      cases PrintKind.ofPrimitive? kind with
      | none => exact .none
      | some => exact .some trivial

/-- A node that has the same meaning in both contexts. -/
theorem nodesAlike
    (settles : Resolution.Settles context.registry context.bindings context.method node)
    (otherSettles : Resolution.Settles other.registry other.bindings other.method node)
    (bound : BoundAlike classes others context.setting other.setting node)
    {judgement otherJudgement : Judgement} (isShown : context.table.Shows node.id judgement)
    (otherIsShown : other.table.Shows node.id otherJudgement)
    (same : SameJudgement classes others context.registry other.registry judgement otherJudgement) :
    context.NodesAlike other node where
  symbol := symbols_of_bound complete otherComplete settles otherSettles bound
  field := by
    have fields := same.field
    rw [isShown.field, otherIsShown.field]
    generalize judgement.field = field, otherJudgement.field = otherField at fields
    cases fields with
    | none => exact .none
    | some fieldSame => exact fieldsAlike_of_same complete otherComplete fieldSame
  call := by
    have targets := same.target
    rw [isShown.call, otherIsShown.call]
    generalize judgement.target = target, otherJudgement.target = otherTarget at targets
    cases targets with
    | none => exact .none
    | some targetSame => exact .some (targetsAlike_of_same targetSame.1 targetSame.2)
  kind := printKinds_of_same same.meaning isShown.typeOf otherIsShown.typeOf

end

end MethodContext

/-! ## Bodies -/

namespace Program.CheckedAs

section

variable {program otherProgram : Program} {members otherMembers : Members}
  {resolution otherResolution : Resolution} {checked otherChecked : CheckedProgram}
  {index otherIndex : Nat} {source otherSource : MethodSource} {method otherMethod : MethodEntry}
  (checkedAs : program.CheckedAs members resolution checked)
  (otherCheckedAs : otherProgram.CheckedAs otherMembers otherResolution otherChecked)
  (recorded : members.sources[index]? = some source)
  (otherRecorded : otherMembers.sources[otherIndex]? = some otherSource)
  (found : members.registry.methodEntry? ⟨index⟩ = some method)
  (otherFound : otherMembers.registry.methodEntry? ⟨otherIndex⟩ = some otherMethod)
  (sameDecl : otherSource.decl = source.decl)

section

include checkedAs recorded

theorem length_localsOf : (checked.bindings.localsOf ⟨index⟩).length =
    (source.decl.body.nodes.flatMap (Stmt.localSites ⟨index⟩)).length := by
  rw [checkedAs.checkedEq]
  exact checkedAs.registeredAs.binds.length_localsOf checkedAs.silent recorded

theorem length_declarationsOf {node : Stmt} (isNode : node ∈ source.decl.body.nodes) :
    (checked.bindings.declarationsOf node.id).length = (node.localSites ⟨index⟩).length := by
  rw [checkedAs.checkedEq]
  exact checkedAs.registeredAs.binds.length_declarationsOf checkedAs.silent recorded
    checkedAs.bodies isNode

omit recorded in
theorem complete (found : members.registry.methodEntry? ⟨index⟩ = some method) :
    (checked.contextOf checked.layout method).Complete :=
  checkedAs.sound.complete ((checkedAs.methodEntry?_eq _).trans found)

end

include checkedAs otherCheckedAs recorded otherRecorded found otherFound sameDecl

/-- Both frames of a method are of one size. -/
theorem spillBase_eq (same : SameMethod program.classes otherProgram.classes method otherMethod) :
    (checked.frameOf method).spillBase = (otherChecked.frameOf otherMethod).spillBase := by
  have methodId : method.id = ⟨index⟩ :=
    checkedAs.sound.consistent.method_id ((checkedAs.methodEntry?_eq _).trans found)
  have otherMethodId : otherMethod.id = ⟨otherIndex⟩ :=
    otherCheckedAs.sound.consistent.method_id ((otherCheckedAs.methodEntry?_eq _).trans otherFound)
  have locals : (checked.bindings.localsOf method.id).length =
      (otherChecked.bindings.localsOf otherMethod.id).length := by
    rw [methodId, otherMethodId, checkedAs.length_localsOf recorded,
      otherCheckedAs.length_localsOf otherRecorded, sameDecl]
    simp only [List.length_flatMap, Stmt.length_localSites _ ⟨index⟩ ⟨otherIndex⟩]
  have arities : method.arity = otherMethod.arity := same.parameterTypes.length_eq
  simp only [CheckedProgram.frameOf, Frame.ofMethod, Frame.spillBase, Frame.incoming,
    Frame.firstArgument, locals, arities, same.isStatic_eq]

/-- The contexts of a method agree on its body. -/
theorem bodiesAlike (perm : program.classes.Perm otherProgram.classes)
    (same : SameMethod program.classes otherProgram.classes method otherMethod) :
    (checked.contextOf checked.layout method).BodiesAlike
      (otherChecked.contextOf otherChecked.layout otherMethod) source.decl.body := by
  have complete := checkedAs.complete found
  have otherComplete := otherCheckedAs.complete otherFound
  have bodySound := checkedAs.bodySound recorded found
  have otherBodySound := otherCheckedAs.bodySound otherRecorded otherFound
  rw [sameDecl] at otherBodySound
  refine ⟨by rw [CheckedProgram.contextOf, CheckedProgram.contextOf, CheckedProgram.frameOf,
    CheckedProgram.frameOf, Frame.ofMethod, Frame.ofMethod, same.isStatic_eq], fun node isNode =>
      ?_, fun node isNode => ?_⟩
  · have settings : SameSetting program.classes otherProgram.classes ⟨checked.registry,
        checked.bindings, method⟩ ⟨otherChecked.registry, otherChecked.bindings, otherMethod⟩ := by
      rw [checkedAs.checkedEq, otherCheckedAs.checkedEq]
      exact ⟨⟨perm, checkedAs.registeredAs.laterHolds,
        otherCheckedAs.registeredAs.laterHolds⟩, same⟩
    have bound : ∀ node ∈ source.decl.body.exprNodes,
        BoundAlike program.classes otherProgram.classes
        ⟨checked.registry, checked.bindings, method⟩ ⟨otherChecked.registry,
          otherChecked.bindings, otherMethod⟩ node := by
      rw [checkedAs.checkedEq, otherCheckedAs.checkedEq]
      exact checkedAs.registeredAs.boundAlike otherCheckedAs.registeredAs perm
        recorded method otherMethod
    rcases checkedAs.exists_judgement recorded found isNode with ⟨judgement, derives, isShown⟩
    rcases otherCheckedAs.exists_judgement otherRecorded otherFound (sameDecl ▸ isNode) with
      ⟨otherJudgement, otherDerives, otherIsShown⟩
    rcases derives.reordered settings fun inner isInner =>
      bound inner (Stmt.nodes_subset_exprNodes isNode isInner) with
        ⟨again, againDerives, sameJudgement⟩
    obtain rfl := againDerives.unique otherDerives
    exact MethodContext.nodesAlike complete otherComplete (bodySound.settled node isNode)
      (otherBodySound.settled node isNode) (bound node isNode) isShown otherIsShown sameJudgement
  · refine List.forall₂_iff_zip.mpr ⟨?_, fun {id otherId} isPair => ?_⟩
    · exact (checkedAs.length_declarationsOf recorded isNode).trans
        ((Stmt.length_localSites node _ _).trans
        (otherCheckedAs.length_declarationsOf otherRecorded (sameDecl ▸ isNode)).symm)
    · have isDeclared := List.of_mem_zip isPair
      exact bothThere (complete.exists_slotOf (bodySound.locals node isNode id isDeclared.1))
        (otherComplete.exists_slotOf (otherBodySound.locals node isNode otherId isDeclared.2))

end

/-! ## Listings -/

section

variable {program otherProgram : Program} {members otherMembers : Members}
  {resolution otherResolution : Resolution} {checked otherChecked : CheckedProgram}

/-- The listing of a program is there in every order of its classes or in none. -/
theorem exists_listing_of_perm (checkedAs : program.CheckedAs members resolution checked)
    (otherCheckedAs : otherProgram.CheckedAs otherMembers otherResolution otherChecked)
    (perm : program.classes.Perm otherProgram.classes) {options : Options} {listing : Listing}
    (listed : checked.listing options = .ok listing) :
    ∃ otherListing, otherChecked.listing options = .ok otherListing := by
  refine CheckedProgram.exists_listing_of_methods
    fun otherBody isOther otherMethod otherFound otherFirst => ?_
  have otherRecorded := otherCheckedAs.mem_bodies.mp isOther
  rw [otherCheckedAs.methodEntry?_eq] at otherFound
  rcases otherCheckedAs.registeredAs.exists_sameSource checkedAs.registeredAs perm.symm
    otherRecorded otherFound with
    ⟨index, source, method, recorded, found, sameDecl, same⟩
  have isBody : (⟨⟨index⟩, source⟩ : MethodBody) ∈ checked.bodies :=
    checkedAs.mem_bodies.mpr recorded
  rcases CheckedProgram.exists_generate_of_listing listed isBody
    ((checkedAs.methodEntry?_eq _).trans found) with
    ⟨first, outcome, generated⟩
  rw [← sameDecl]
  exact MethodContext.exists_generate_of_alike
    (checkedAs.bodiesAlike otherCheckedAs recorded otherRecorded found otherFound
      sameDecl.symm perm same.symm)
    (checkedAs.spillBase_eq otherCheckedAs recorded otherRecorded found otherFound sameDecl.symm
      same.symm) generated otherFirst

end

end Program.CheckedAs

/-!
## Compilation of a reordered program

The order of its classes decides neither whether a program compiles nor how its classes are laid
out.
-/

theorem Program.compile_eq_ok_iff {program : Program} {options : Options} {listing : Listing} :
    program.compile options = .ok listing ↔
      ∃ checked, (Analysis.ofProgram program).checked = .ok checked ∧
        checked.listing options = .ok listing := by
  rw [compile]
  cases (Analysis.ofProgram program).checked with
  | error diagnostics => simp [Except.bind, Except.mapError]
  | ok checked =>
    cases listed : checked.listing options with
    | error diagnostics => simp [Except.bind, Except.mapError, listed]
    | ok found => simp [Except.bind, Except.mapError, listed]

namespace Program

variable {program other : Program} {members otherMembers : Members}
  {resolution otherResolution : Resolution} {checked otherChecked : CheckedProgram}

/-- The classes of a checked program are laid out alike in every order. -/
theorem CheckedAs.laidOutAlike (checkedAs : program.CheckedAs members resolution checked)
    (otherCheckedAs : other.CheckedAs otherMembers otherResolution otherChecked)
    (perm : program.classes.Perm other.classes) : checked.LaidOutAlike otherChecked := by
  have reordering : Reordering program.classes other.classes checked.registry
      otherChecked.registry := by
    rw [checkedAs.checkedEq, otherCheckedAs.checkedEq]
    exact ⟨perm, checkedAs.registeredAs.laterHolds, otherCheckedAs.registeredAs.laterHolds⟩
  exact CheckedProgram.laidOutAlike reordering checkedAs.sound.ordered otherCheckedAs.sound.ordered

/-- A program that compiles compiles in every order of its classes, and these are laid out alike. -/
theorem exists_compile_of_perm (isForest : program.IsForest) (otherForest : other.IsForest)
    (perm : program.classes.Perm other.classes) {options : Options} {listing : Listing}
    (compiled : program.compile options = .ok listing) :
    (∃ otherListing, other.compile options = .ok otherListing) ∧ ∃ checked otherChecked,
      (Analysis.ofProgram program).checked = .ok checked ∧
        (Analysis.ofProgram other).checked = .ok otherChecked ∧
        checked.LaidOutAlike otherChecked := by
  rcases compile_eq_ok_iff.mp compiled with ⟨checked, isChecked, listed⟩
  rcases CheckedAs.exists_of_checked isForest isChecked with ⟨members, resolution, checkedAs⟩
  rcases checkedAs.exists_of_perm perm otherForest with
    ⟨otherMembers, otherResolution, otherChecked, otherCheckedAs⟩
  rcases checkedAs.exists_listing_of_perm otherCheckedAs perm listed with
    ⟨otherListing, otherListed⟩
  exact ⟨⟨otherListing, compile_eq_ok_iff.mpr ⟨otherChecked,
    otherCheckedAs.checked_eq, otherListed⟩⟩, checked, otherChecked, isChecked,
    otherCheckedAs.checked_eq, checkedAs.laidOutAlike otherCheckedAs perm⟩

/-- A program compiles in every order of its classes or in none, and all classes keep their vtables,
the sizes of their objects and the places of their fields. -/
theorem compile_reordered {value : Json} {program : Program}
    (decoded : Program.ofJson value = .ok program) {classes : List ClassDecl}
    (perm : program.classes.Perm classes) (options : Options) :
    ((∃ listing, program.compile options = .ok listing) ↔
      ∃ listing, (program.reordered classes).compile options = .ok listing) ∧
    ∀ listing, program.compile options = .ok listing → ∃ checked otherChecked,
      (Analysis.ofProgram program).checked = .ok checked ∧
        (Analysis.ofProgram (program.reordered classes)).checked = .ok otherChecked ∧
        checked.LaidOutAlike otherChecked := by
  have isForest := Program.isForest_ofJson decoded
  have otherForest := isForest.reordered perm
  refine ⟨⟨?_, ?_⟩, ?_⟩
  · rintro ⟨listing, compiled⟩
    exact (exists_compile_of_perm isForest otherForest perm compiled).1
  · rintro ⟨listing, compiled⟩
    exact (exists_compile_of_perm otherForest isForest perm.symm compiled).1
  · intro listing compiled
    exact (exists_compile_of_perm isForest otherForest perm compiled).2

/-- `class Child extends Parent { int extra; void run() {} void rest() {} }` and behind it
`class Parent { int kept; void stop() {} void run() {} }` -/
def derivedFirstProgram : Json :=
  .object [("classes", .array
    [.object [("name", .string "Child"), ("parent", .string "Parent"),
      ("fields", .array [.variableOf "extra" "int"]),
        ("methods", .array [.method "run" "void" [] [], .method "rest" "void" [] []])],
      .object [("name", .string "Parent"), ("fields", .array [.variableOf "kept" "int"]),
        ("methods", .array [.method "stop" "void" [] [], .method "run" "void" [] []])]])]

/-- The program compiles with the parent in front, too. -/
theorem compile_derivedFirstProgram : ∃ program, Program.ofJson derivedFirstProgram = .ok program ∧
    program.classes.Perm program.classes.reverse ∧
    (∃ listing, (program.reordered program.classes.reverse).compile ⟨3, true⟩ = .ok listing) ∧
      ∃ checked otherChecked, (Analysis.ofProgram program).checked = .ok checked ∧
        (Analysis.ofProgram (program.reordered program.classes.reverse)).checked =
          .ok otherChecked ∧
        checked.LaidOutAlike otherChecked := by
  rcases Program.exists_of_test derivedFirstProgram (fun program =>
    (program.compile ⟨3, true⟩).toOption.isSome) (by decide +kernel) with ⟨program, decoded, tested⟩
  have perm := (List.reverse_perm program.classes).symm
  rcases compile_reordered decoded perm ⟨3, true⟩ with ⟨accepted, alike⟩
  rcases exists_listing tested with ⟨listing, compiled⟩
  exact ⟨program, decoded, perm, accepted.mp ⟨listing, compiled⟩, alike listing compiled⟩

end Program

end Decaf
