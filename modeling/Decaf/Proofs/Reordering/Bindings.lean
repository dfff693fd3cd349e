import Decaf.Proofs.Reordering.Typing
import Decaf.Proofs.Reordering.Walks
import Decaf.Proofs.Resolution.Scoped

/-!
# Names in a reordered program

Resolution comes to the methods of a program in the order of their classes, and gives its variables
numbers on the way. When the classes are reordered it finds the same about every method: the same
complaints, and the same declarations behind the names.
-/

namespace Decaf

/-! ## Methods and their bodies -/

namespace Members

/-- Each body on record belongs to the method of the same number. -/
theorem records_sources {classes : List ClassDecl}
    (hierarchyFree : (Hierarchy.ofClasses classes).diagnostics = [])
    (membersFree : (ofHierarchy classes (Hierarchy.ofClasses classes)).diagnostics = []) :
    (ofHierarchy classes (Hierarchy.ofClasses classes)).registry.methods.toList.map
      MethodEntry.record =
        (ofHierarchy classes (Hierarchy.ofClasses classes)).sources.toList.map fun source =>
          source.decl.record (ofHierarchy classes (Hierarchy.ofClasses classes)).registry
            ⟨source.classIndex⟩ := by
  have settled := Hierarchy.settled_ofClasses classes
  have allNumbered := Hierarchy.allNumbered_ofClasses hierarchyFree
  have tabled := tabled_ofHierarchy hierarchyFree membersFree
  have recorded : (ofHierarchy classes (Hierarchy.ofClasses classes)).sources.toList = _ :=
    sources_foldl_addClassById settled rfl (completing_start settled) membersFree
  rw [tabled.methods_eq, recorded, List.nil_append, List.map_flatMap]
  refine List.flatMap_congr fun id isOrdered => ?_
  rw [declaredSources, allNumbered.declarationOf?_eq (settled.mem_order.mp isOrdered),
    declaredMethods]
  dsimp only
  cases classes[id.index]? with
  | none => rfl
  | some decl =>
    rw [Option.map_some, Option.getD_some, Option.map_some, Option.getD_some,
      sourcesOf, List.map_map]
    conv_lhs => rw [← List.zipIdx_map_fst 0 decl.methods, List.map_map]
    rfl

end Members

namespace ScopeWalk

variable {registry : Registry} {pair : MethodSource × Nat} {numbered : List (MethodSource × Nat)}
  {finding : Finding}

/-- A walk through all methods comes to each one. -/
theorem exists_turn (registry : Registry) (isThere : pair ∈ numbered) (walk : ScopeWalk) :
    ∃ before : ScopeWalk,
    (before.throughMethod registry pair).findings <+:
      (numbered.foldl (throughMethod registry) walk).findings := by
  rcases List.append_of_mem isThere with ⟨front, back, rfl⟩
  rw [List.foldl_append, List.foldl_cons]
  exact ⟨_, grows_throughMethods registry back _⟩

/-- Whatever is found is found in one of the methods. -/
theorem exists_turn_of_finding (walk : ScopeWalk)
    (isFound : finding ∈ (numbered.foldl (throughMethod registry) walk).findings)
    (isNew : finding ∉ walk.findings) :
    ∃ pair ∈ numbered, ∃ (before : ScopeWalk) (found : List Finding),
      (before.throughMethod registry pair).findings = before.findings ++ found ∧ finding ∈ found ∧
        (before.throughMethod registry pair).findings <+:
          (numbered.foldl (throughMethod registry) walk).findings := by
  induction numbered generalizing walk with
  | nil => exact absurd isFound isNew
  | cons pair numbered ih =>
    rcases grows_throughMethod registry walk pair with ⟨found, foundEq⟩
    rcases Classical.em (finding ∈ found) with isHere | isLater
    · exact ⟨pair, List.mem_cons_self, walk, found, foundEq.symm, isHere,
        grows_throughMethods registry numbered _⟩
    · have isNotYet : finding ∉ (walk.throughMethod registry pair).findings := by
        rw [← foundEq, List.mem_append, not_or]
        exact ⟨isNew, isLater⟩
      rcases ih _ isFound isNotYet with ⟨other, isOther, turn⟩
      exact ⟨other, List.mem_cons_of_mem _ isOther, turn⟩

end ScopeWalk

/-! ## Registered programs -/

/-- A program whose declarations are registered without complaints, and what resolution makes of its
method bodies. -/
structure Program.RegisteredAs (program : Program) (members : Members) (resolution : Resolution) :
    Prop where
  hierarchyFree : (Hierarchy.ofClasses program.classes).diagnostics = []
  membersFree : members.diagnostics = []
  membersEq : members = .ofHierarchy program.classes (Hierarchy.ofClasses program.classes)
  resolutionEq : resolution = .ofMembers members
  isForest : program.IsForest

theorem Program.ResolvedAs.registeredAs {program : Program} {members : Members}
    {resolution : Resolution} (resolvedAs : program.ResolvedAs members resolution) :
    program.RegisteredAs members resolution :=
  ⟨resolvedAs.hierarchyFree, resolvedAs.membersFree, resolvedAs.membersEq, resolvedAs.resolutionEq,
    resolvedAs.isForest⟩

namespace Program.RegisteredAs

variable {program : Program} {members : Members} {resolution : Resolution} {index : Nat}
  {source : MethodSource}

section

variable (registered : program.RegisteredAs members resolution)

include registered

variable {node : Expr}

theorem resolvedAs (silent : resolution.diagnostics = []) : program.ResolvedAs members resolution :=
  ⟨⟨registered.hierarchyFree, registered.membersFree, registered.membersEq,
    registered.resolutionEq, silent⟩, registered.isForest⟩

theorem holds : members.registry.Holds program.classes := by
  have membersFree := registered.membersFree
  rw [registered.membersEq] at membersFree ⊢
  exact Registry.holds_ofHierarchy registered.hierarchyFree membersFree

theorem parametersHeld : members.ParametersHeld := by
  have membersFree := registered.membersFree
  rw [registered.membersEq] at membersFree ⊢
  exact Members.parametersHeld_ofHierarchy membersFree

theorem follows :
    Resolution.Follows members.registry members.sources.size (ScopeWalk.throughMembers members)
      resolution := by
  have membersFree := registered.membersFree
  rw [registered.resolutionEq]
  rw [registered.membersEq] at membersFree ⊢
  exact Resolution.follows_ofHierarchy membersFree

theorem laterHolds : resolution.registry.Holds program.classes :=
  registered.holds.later registered.follows.extended
    registered.follows.valid.consistent.toWellFormed

theorem binds : resolution.BindsLexically program members := by
  have membersFree := registered.membersFree
  rw [registered.resolutionEq]
  rw [registered.membersEq] at membersFree ⊢
  exact Resolution.bindsLexically_ofMembers registered.isForest registered.hierarchyFree membersFree

/-- A body is that of a declared method, and the method of its number is that method. -/
theorem exists_method (recorded : members.sources[index]? = some source) : ∃ decl method,
    program.classes[source.classIndex]? = some decl ∧
      decl.methods[source.methodIndex]? = some source.decl ∧
      members.registry.methodEntry? ⟨index⟩ = some method ∧ method.owner = ⟨source.classIndex⟩ ∧
      method.record = source.decl.record members.registry method.owner := by
  have membersFree := registered.membersFree
  have isSource : source ∈ members.sources.toList :=
    Array.mem_toList_iff.mpr (Array.mem_of_getElem? recorded)
  rcases Members.mem_allSources.mp (registered.binds.bodies.mp isSource) with
    ⟨decl, declared, isMethod⟩
  have recordsEq : members.registry.methods.toList.map MethodEntry.record =
      members.sources.toList.map
      fun source => source.decl.record members.registry ⟨source.classIndex⟩ := by
    rw [registered.membersEq] at membersFree ⊢
    exact Members.records_sources registered.hierarchyFree membersFree
  have atIndex := congrArg (·[index]?) recordsEq
  simp only [List.getElem?_map, Array.getElem?_toList, recorded, Option.map_some] at atIndex
  rcases Option.map_eq_some_iff.mp atIndex with ⟨method, found, recordEq⟩
  have owned : method.owner = ⟨source.classIndex⟩ := congrArg MethodRecord.owner recordEq
  exact ⟨decl, method, declared, isMethod, found, owned, owned ▸ recordEq⟩

/-- A declared method has a body on record. -/
theorem exists_source {classIndex methodIndex : Nat} {decl : ClassDecl} {method : MethodDecl}
    (declared : program.classes[classIndex]? = some decl)
    (isMethod : decl.methods[methodIndex]? = some method) :
    ∃ index : Nat, members.sources[index]? = some ⟨classIndex, methodIndex, method⟩ := by
  have isSource : (⟨classIndex, methodIndex, method⟩ : MethodSource) ∈ members.sources.toList :=
    registered.binds.bodies.mpr (Members.mem_allSources.mpr ⟨decl, declared, isMethod⟩)
  exact Array.mem_iff_getElem?.mp (Array.mem_toList_iff.mp isSource)

/-- What is found for a name is what the name is bound to. -/
theorem symbol?_eq {finding : Finding}
    (isFound : finding ∈ (ScopeWalk.throughMembers members).findings)
    (isAbout : finding.node? = some node) :
    resolution.bindings.symbol? node.id = finding.symbol? := by
  have bodies := registered.isForest.bodies
  rw [← registered.membersEq] at bodies
  have distinct : (((ScopeWalk.throughMembers members).findings.filterMap Finding.node?).map
      Expr.id).Nodup := by
    rw [registered.binds.names_eq]
    exact (List.filter_sublist.map Expr.id).nodup bodies.expr_ids
  rw [registered.follows.records.bindings_eq]
  exact Finding.symbol?_of_node distinct isFound isAbout

/-- Something is found for every name. -/
theorem exists_finding (recorded : members.sources[index]? = some source)
    (isNode : node ∈ source.decl.body.exprNodes) (isName : node.isName = true) :
    ∃ finding ∈ (ScopeWalk.throughMembers members).findings, finding.node? = some node := by
  refine List.mem_filterMap.mp ?_
  rw [registered.binds.names_eq]
  have isSource : source ∈ members.sources.toList :=
    Array.mem_toList_iff.mpr (Array.mem_of_getElem? recorded)
  exact List.mem_filter.mpr ⟨List.mem_flatMap.mpr ⟨source, isSource, isNode⟩, isName⟩

theorem hasType_parameters (recorded : members.sources[index]? = some source) {method : MethodEntry}
    (found : members.registry.methodEntry? ⟨index⟩ = some method) :
    List.Forall₂ resolution.registry.HasType method.parameters method.parameterTypes := by
  refine (registered.parametersHeld.holds recorded method found).types_eq.imp
    fun id type typed => ?_
  rcases typed with ⟨entry, entryFound, typeEq⟩
  exact ⟨entry, registered.follows.extended.keeps_variable entryFound, typeEq⟩

end

end Program.RegisteredAs

/-! ## The same findings -/

namespace SameSymbol

variable {classes other : List ClassDecl} {registry otherRegistry after otherAfter : Registry}
  {sameVariable : VariableId → VariableId → Prop} {symbol otherSymbol : Symbol}

theorem later
    (same : SameSymbol classes other registry otherRegistry sameVariable symbol otherSymbol)
    (extended : registry.Extends after) (otherExtended : otherRegistry.Extends otherAfter) :
    SameSymbol classes other after otherAfter sameVariable symbol otherSymbol := by
  cases same with
  | ofClass same => exact .ofClass same
  | ofField found otherFound same =>
    refine .ofField ?_ ?_ same
    · rw [Registry.fieldEntry?, extended.fields_eq]
      exact found
    · rw [Registry.fieldEntry?, otherExtended.fields_eq]
      exact otherFound
  | ofMethod found otherFound same =>
    exact .ofMethod ((extended.methodEntry?_eq _).trans found)
      ((otherExtended.methodEntry?_eq _).trans otherFound) same
  | ofVariable same => exact .ofVariable same

end SameSymbol

theorem forall₂_sameVariable {classes other : List ClassDecl} {registry otherRegistry : Registry}
    {ids otherIds : List VariableId} {types otherTypes : List DataType}
    (typed : List.Forall₂ registry.HasType ids types)
    (typesSame : List.Forall₂ (SameType classes other) types otherTypes)
    (otherTyped : List.Forall₂ otherRegistry.HasType otherIds otherTypes) :
    List.Forall₂ (SameVariable classes other registry otherRegistry) ids otherIds := by
  induction typed generalizing otherIds otherTypes with
  | nil =>
    cases typesSame
    cases otherTyped
    exact .nil
  | cons hasType _ ih =>
    cases typesSame with
    | cons same typesSame =>
      cases otherTyped with
      | cons otherHasType otherTyped =>
        exact .cons ⟨_, _, hasType, otherHasType, same⟩ (ih typesSame otherTyped)

namespace Pairing

theorem sameBlock_zip {pairing : Pairing} {ids otherIds : List VariableId}
    (same : List.Forall₂ pairing.sameVariable ids otherIds) (names : List String) :
    pairing.SameBlock (names.zip ids) (names.zip otherIds) := by
  induction same generalizing names with
  | nil =>
    rw [List.zip_nil_right]
    exact .nil
  | cons idsSame _ ih =>
    cases names with
    | nil => exact .nil
    | cons name names => exact .cons ⟨rfl, idsSame⟩ (ih names)

end Pairing

namespace Pairing.SameFinding

variable {pairing : Pairing} {finding otherFinding : Finding}
  (same : pairing.SameFinding finding otherFinding)

include same

theorem node?_eq : otherFinding.node? = finding.node? := by
  cases same <;> rfl

theorem symbol? : Option.Rel pairing.SameSymbol finding.symbol? otherFinding.symbol? := by
  cases same with
  | used same => exact same
  | created same => exact rel_map (fun same => .ofClass same) same
  | misplaced | untyped | declared | repeated => exact .none

theorem complaint?_eq_none_iff (registry otherRegistry : Registry) :
    otherFinding.complaint? otherRegistry = none ↔ finding.complaint? registry = none := by
  cases same with
  | used same => cases same <;> simp [Finding.complaint?]
  | created same => cases same <;> simp [Finding.complaint?]
  | misplaced | untyped | declared | repeated => simp [Finding.complaint?]

end Pairing.SameFinding

namespace Program.RegisteredAs

variable {method : MethodEntry}

/-- What is compared in two programs with the same classes. -/
def pairing (program : Program) (classes : List ClassDecl) (members otherMembers : Members)
    (resolution otherResolution : Resolution) : Pairing where
  classes := program.classes
  other := classes
  registry := members.registry
  otherRegistry := otherMembers.registry
  sameVariable := SameVariable program.classes classes resolution.registry otherResolution.registry

variable {program other : Program} {members otherMembers : Members}
  {resolution otherResolution : Resolution} {index : Nat} {source : MethodSource}
  (registered : program.RegisteredAs members resolution)
  (otherRegistered : other.RegisteredAs otherMembers otherResolution)

include registered otherRegistered

theorem joinsLocals :
    (pairing program other.classes members otherMembers resolution otherResolution).JoinsLocals
    (ScopeWalk.throughMembers members) (ScopeWalk.throughMembers otherMembers) :=
  fun _ _ entry otherEntry isDeclared otherDeclared same =>
    ⟨entry.type, otherEntry.type, ⟨entry, (registered.binds.declared_once isDeclared).1, rfl⟩,
      ⟨otherEntry, (otherRegistered.binds.declared_once otherDeclared).1, rfl⟩, same⟩

/-- The parameters of a method go together. -/
theorem sameVariable_parameters (recorded : members.sources[index]? = some source)
    (found : members.registry.methodEntry? ⟨index⟩ = some method) {otherIndex : Nat}
    {otherSource : MethodSource}
    (otherRecorded : otherMembers.sources[otherIndex]? = some otherSource)
    {otherMethod : MethodEntry}
    (otherFound : otherMembers.registry.methodEntry? ⟨otherIndex⟩ = some otherMethod)
    (same : SameMethod program.classes other.classes method otherMethod) :
    List.Forall₂ (SameVariable program.classes other.classes resolution.registry
      otherResolution.registry) method.parameters otherMethod.parameters :=
  forall₂_sameVariable (registered.hasType_parameters recorded found) same.parameterTypes
    (otherRegistered.hasType_parameters otherRecorded otherFound)

variable (perm : program.classes.Perm other.classes)

include perm

theorem reorders :
    (pairing program other.classes members otherMembers resolution otherResolution).Reorders :=
  ⟨perm, registered.holds, otherRegistered.holds⟩

theorem exists_sameSource (recorded : members.sources[index]? = some source)
    (found : members.registry.methodEntry? ⟨index⟩ = some method) :
    ∃ (otherIndex : Nat) (otherSource : MethodSource) (otherMethod : MethodEntry),
      otherMembers.sources[otherIndex]? = some otherSource ∧
        otherMembers.registry.methodEntry? ⟨otherIndex⟩ = some otherMethod ∧
        otherSource.decl = source.decl ∧
        SameMethod program.classes other.classes method otherMethod := by
  have reordering := registered.reorders otherRegistered perm
  rcases registered.exists_method recorded with
    ⟨decl, again, declared, isMethod, foundAgain, owned, recordEq⟩
  obtain rfl := Option.some.inj (found.symm.trans foundAgain)
  have otherClass : ∃ otherOwner : ClassId, other.classes[otherOwner.index]? = some decl ∧
      SameClass program.classes other.classes ⟨source.classIndex⟩ otherOwner :=
      SameClass.of_declared perm declared
  rcases otherClass with ⟨otherOwner, otherDeclared, sameOwner⟩
  rcases otherRegistered.exists_source otherDeclared isMethod with ⟨otherIndex, otherRecorded⟩
  rcases otherRegistered.exists_method otherRecorded with
    ⟨_, otherMethod, _, _, otherFound, otherOwned, otherRecordEq⟩
  refine ⟨otherIndex, _, otherMethod, otherRecorded, otherFound, rfl,
    reordering.sameMethod ?_ recordEq otherRecordEq⟩
  rw [owned, otherOwned]
  exact sameOwner

/-- Whatever is found in one of the programs is found in the other one, too. -/
theorem exists_sameFinding {finding : Finding}
    (isFound : finding ∈ (ScopeWalk.throughMembers members).findings) :
    ∃ otherFinding ∈ (ScopeWalk.throughMembers otherMembers).findings,
      (pairing program other.classes members otherMembers resolution otherResolution).SameFinding
        finding otherFinding := by
  rcases ScopeWalk.exists_turn_of_finding {} isFound List.not_mem_nil with
    ⟨⟨source, index⟩, isPair, before, found, foundEq, isHere, grows⟩
  have recorded : members.sources[index]? = some source := by
    rw [← Array.getElem?_toList]
    exact List.mem_zipIdx_iff_getElem?.mp isPair
  rcases registered.exists_method recorded with ⟨_, method, _, _, methodFound, _, _⟩
  rcases registered.exists_sameSource otherRegistered perm recorded methodFound with
    ⟨otherIndex, otherSource, otherMethod, otherRecorded, otherFound, sameDecl, methodSame⟩
  have isOther : (otherSource, otherIndex) ∈ otherMembers.sources.toList.zipIdx := by
    rw [List.mem_zipIdx_iff_getElem?, Array.getElem?_toList]
    exact otherRecorded
  rcases ScopeWalk.exists_turn otherMembers.registry isOther {} with ⟨otherBefore, otherGrows⟩
  have joins := (registered.joinsLocals otherRegistered).earlier grows otherGrows
  have parametersSame : (pairing program other.classes members otherMembers resolution
      otherResolution).SameBlock
      (parameterBlock source.decl method) (parameterBlock source.decl otherMethod) :=
    Pairing.sameBlock_zip (registered.sameVariable_parameters otherRegistered recorded methodFound
      otherRecorded otherFound methodSame) _
  rw [ScopeWalk.throughMethod, methodFound] at foundEq joins
  rw [ScopeWalk.throughMethod, otherFound] at otherGrows joins
  dsimp only at foundEq joins otherGrows
  rw [sameDecl] at joins otherGrows
  have started : (pairing program other.classes members otherMembers resolution
      otherResolution).SameWalk
      before.findings otherBefore.findings
      { before with block := parameterBlock source.decl method }
      { otherBefore with block := parameterBlock source.decl otherMethod } :=
    ⟨parametersSame, [], [], (List.append_nil _).symm, (List.append_nil _).symm, .nil⟩
  have done := started.body (registered.reorders otherRegistered perm) methodSame
    source.decl.body joins
  rcases done.findings with ⟨again, otherFindings, againEq, otherEq, sameFindings⟩
  obtain rfl : again = found := List.append_cancel_left (againEq.symm.trans foundEq)
  rcases exists_of_mem sameFindings isHere with ⟨otherFinding, isOtherHere, same⟩
  exact ⟨otherFinding, otherGrows.subset (otherEq ▸ List.mem_append_right _ isOtherHere), same⟩

/-- Names are resolved without complaints in every order of the classes or in none. -/
theorem silent_of_perm (silent : resolution.diagnostics = []) :
    otherResolution.diagnostics = [] := by
  rw [registered.binds.complaints_eq, List.filterMap_eq_nil_iff] at silent
  rw [otherRegistered.binds.complaints_eq, List.filterMap_eq_nil_iff]
  intro otherFinding isOther
  rcases otherRegistered.exists_sameFinding registered perm.symm isOther with
    ⟨finding, isFound, same⟩
  exact (same.complaint?_eq_none_iff _ _).mp (silent finding isFound)

/-- The names in a method body are bound to the same declarations. -/
theorem boundAlike (recorded : members.sources[index]? = some source)
    (method otherMethod : MethodEntry) :
    ∀ node ∈ source.decl.body.exprNodes,
      BoundAlike program.classes other.classes ⟨resolution.registry, resolution.bindings, method⟩
        ⟨otherResolution.registry, otherResolution.bindings, otherMethod⟩ node := by
  intro node isNode isName symbol isBound
  rcases registered.exists_finding recorded isNode isName with ⟨finding, isFound, isAbout⟩
  rcases registered.exists_sameFinding otherRegistered perm isFound with
    ⟨otherFinding, isOther, same⟩
  have symbolsSame := same.symbol?
  rw [← registered.symbol?_eq isFound isAbout,
    ← otherRegistered.symbol?_eq isOther (same.node?_eq.trans isAbout), isBound] at symbolsSame
  generalize otherResolution.bindings.symbol? node.id = otherSymbol? at symbolsSame ⊢
  cases symbolsSame with
  | @some _ otherSymbol same =>
    exact ⟨otherSymbol, rfl,
      same.later registered.follows.extended otherRegistered.follows.extended⟩

end Program.RegisteredAs

end Decaf
