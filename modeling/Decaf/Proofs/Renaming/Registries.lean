import Decaf.Proofs.Members.Accepted
import Decaf.Proofs.Members.Parameters
import Decaf.Proofs.Renaming.Names

/-!
# Declarations of a renamed program

The classes of a renamed program make up the same hierarchy, and their members are registered in
step with those of the program. So both programs have the same classes, fields and methods on
record, and the same variables but for their names.
-/

namespace Decaf

/-- The entry without the variable's name. -/
def VariableEntry.nameless (entry : VariableEntry) : VariableEntry := { entry with name := "" }

namespace Registry

/-- Two registries have the same classes and members, and the same variables but for their names. -/
structure SameButNames (registry other : Registry) : Prop extends SameMembers registry other where
  variables_eq : other.variableEntries.map VariableEntry.nameless =
    registry.variableEntries.map VariableEntry.nameless

namespace SameButNames

variable {registry other : Registry} (same : registry.SameButNames other)

include same

theorem variables_size_eq : other.variableEntries.size = registry.variableEntries.size := by
  simpa using congrArg Array.size same.variables_eq

theorem variableEntry?_eq (id : VariableId) : (other.variableEntry? id).map VariableEntry.nameless =
    (registry.variableEntry? id).map VariableEntry.nameless := by
  have entryAt := congrArg (·[id.index]?) same.variables_eq
  simpa [ variableEntry?] using entryAt

end SameButNames

/-- Two registries are being filled side by side: the next scope has the same number, too. -/
structure Beside (registry other : Registry) : Prop extends SameButNames registry other where
  scopes_eq : other.scopes.size = registry.scopes.size

namespace Beside

variable {registry other : Registry} (beside : registry.Beside other)

theorem refl (registry : Registry) : registry.Beside registry := ⟨⟨⟨rfl, rfl, rfl⟩, rfl⟩, rfl⟩

include beside

theorem modifyClass (id : ClassId) (change : ClassEntry → ClassEntry) :
    (registry.modifyClass id change).Beside (other.modifyClass id change) where
  classes_eq := by simp [Registry.modifyClass, beside.classes_eq]
  fields_eq := beside.fields_eq
  methods_eq := beside.methods_eq
  variables_eq := beside.variables_eq
  scopes_eq := beside.scopes_eq

theorem modifyMethod (id : MethodId) (change : MethodEntry → MethodEntry) :
    (registry.modifyMethod id change).Beside (other.modifyMethod id change) where
  classes_eq := beside.classes_eq
  fields_eq := beside.fields_eq
  methods_eq := by simp [Registry.modifyMethod, beside.methods_eq]
  variables_eq := beside.variables_eq
  scopes_eq := beside.scopes_eq

theorem fieldAdded (scope : ScopeId) (entry : FieldEntry) :
    (registry.fieldAdded scope entry).Beside (other.fieldAdded scope entry) where
  classes_eq := by simp [Registry.fieldAdded, Registry.modifyClass, beside.classes_eq]
  fields_eq := by simp [Registry.fieldAdded, beside.fields_eq]
  methods_eq := beside.methods_eq
  variables_eq := beside.variables_eq
  scopes_eq := by simp [Registry.fieldAdded, beside.scopes_eq]

theorem methodAdded (scope : ScopeId) (entry : MethodEntry) :
    (registry.methodAdded scope entry).Beside (other.methodAdded scope entry) where
  classes_eq := by simp [Registry.methodAdded, Registry.modifyClass, beside.classes_eq]
  fields_eq := beside.fields_eq
  methods_eq := by simp [Registry.methodAdded, beside.methods_eq]
  variables_eq := beside.variables_eq
  scopes_eq := by simp [Registry.methodAdded, beside.scopes_eq]

theorem variableAdded (scope : ScopeId) {entry otherEntry : VariableEntry}
    (sameEntry : otherEntry.nameless = entry.nameless) :
    (registry.variableAdded scope entry).Beside (other.variableAdded scope otherEntry) where
  classes_eq := beside.classes_eq
  fields_eq := beside.fields_eq
  methods_eq := beside.methods_eq
  variables_eq := by simp [Registry.variableAdded, beside.variables_eq, sameEntry]
  scopes_eq := by simp [Registry.variableAdded, beside.scopes_eq]

end Beside

end Registry

/-! ## The hierarchy -/

namespace Hierarchy

/-- What the hierarchy is made from. -/
def header (decl : ClassDecl) : String × Option ParentName × Position :=
  (decl.name, decl.parent, decl.position)

theorem addClass_congr {decl other : ClassDecl} (same : header other = header decl)
    (hierarchy : Hierarchy) : hierarchy.addClass other = hierarchy.addClass decl := by
  simp only [header, Prod.mk.injEq] at same
  simp only [addClass, same]

theorem linkDeclared_congr {decl other : ClassDecl} (same : header other = header decl)
    (hierarchy : Hierarchy) (id : Option ClassId) :
    hierarchy.linkDeclared (other, id) = hierarchy.linkDeclared (decl, id) := by
  simp only [header, Prod.mk.injEq] at same
  simp only [linkDeclared, linkParent, same]

/-- Members have no part in the hierarchy. -/
theorem ofClasses_congr {classes others : List ClassDecl}
    (same : others.map header = classes.map header) : ofClasses others = ofClasses classes := by
  have registered : ∀ hierarchy : Hierarchy,
      others.foldl addClass hierarchy = classes.foldl addClass hierarchy := by
    induction classes generalizing others with
    | nil => simp_all
    | cons decl classes ih =>
      intro hierarchy
      rcases List.map_eq_cons_iff.mp same with ⟨other, rest, rfl, headerEq, restEq⟩
      simp only [List.foldl_cons, addClass_congr headerEq, ih restEq]
  have linked : ∀ (ids : List (Option ClassId)) (hierarchy : Hierarchy),
      (others.zip ids).foldl linkDeclared hierarchy =
        (classes.zip ids).foldl linkDeclared hierarchy := by
    clear registered
    induction classes generalizing others with
    | nil => simp_all
    | cons decl classes ih =>
      intro ids hierarchy
      rcases List.map_eq_cons_iff.mp same with ⟨other, rest, rfl, headerEq, restEq⟩
      cases ids with
      | nil => rfl
      | cons id ids =>
        simp only [List.zip_cons_cons, List.foldl_cons, linkDeclared_congr headerEq, ih restEq]
  simp only [ofClasses, registered, linked]

end Hierarchy

/-! ## Sources -/

/-- A recorded body with its variables renamed. -/
def MethodSource.renamed (source : MethodSource) (given : Program.Renaming) : MethodSource :=
  { source with decl := source.decl.renamed (given source.classIndex source.methodIndex) }

namespace Program

variable {program : Program} {given : Renaming}

theorem getElem?_renamedClasses (program : Program) (given : Renaming) (index : Nat) :
    (program.renamedClasses given)[index]? = (program.classes[index]?).map fun decl =>
      decl.renamed (given index) := by
  simp [renamedClasses, Option.map_map, Function.comp_def]

theorem hierarchy_renamedClasses (program : Program) (given : Renaming) :
    Hierarchy.ofClasses (program.renamedClasses given) = Hierarchy.ofClasses program.classes := by
  apply Hierarchy.ofClasses_congr
  apply List.ext_getElem?
  intro index
  simp only [List.getElem?_map, getElem?_renamedClasses, Option.map_map]
  rfl

end Program

theorem Members.sourcesOf_renamed (given : Program.Renaming) (index : Nat) (decl : ClassDecl) :
    sourcesOf index (decl.renamed (given index)) =
      (sourcesOf index decl).map (MethodSource.renamed · given) := by
  apply List.ext_getElem?
  intro place
  simp [sourcesOf, ClassDecl.renamed, MethodSource.renamed, Option.map_map, Function.comp_def]

/-- The new names of the parameters and locals of each declared method differ. -/
theorem Program.Renames.nodup_storages {program : Program} {given : Renaming}
    (renames : program.Renames given) {source : MethodSource}
    (isDeclared : source ∈ Members.allSources program.classes) :
    (source.decl.storages.map (given source.classIndex source.methodIndex)).Nodup := by
  rcases Members.mem_allSources.mp isDeclared with ⟨owner, ownerFound, found⟩
  have isOwner : (owner, source.classIndex) ∈ program.classes.zipIdx :=
    List.mem_zipIdx_iff_getElem?.mpr ownerFound
  have isMethod : (source.decl, source.methodIndex) ∈ owner.methods.zipIdx :=
    List.mem_zipIdx_iff_getElem?.mpr found
  have inClass := (List.nodup_flatMap.mp renames.distinct).1 _ isOwner
  exact (List.nodup_flatMap.mp inClass).1 _ isMethod

/-! ## Members -/

namespace Members

open Registry (Beside)

variable {given : Program.Renaming} {members other : Members} {owner : ClassId}
  {base otherBase : Registry}
variable {method : MethodId} {scope : ScopeId} {declared : (VariableDecl × DataType) × Nat}
  {names : Storage → String} {source : MethodSource}

/-- The members of a program and those of the renamed one are registered up to the same place. -/
structure RenamedTo (given : Program.Renaming) (members other : Members) : Prop where
  registries : members.registry.Beside other.registry
  sources_eq : other.sources = members.sources.map (MethodSource.renamed · given)
  silent : members.diagnostics = []
  otherSilent : other.diagnostics = []

/-- What two steps keep up side by side holds behind two lists of them. -/
theorem foldl_beside {Item OtherItem : Type} {step : Members → Item → Members}
    {otherStep : Members → OtherItem → Members} {Holds : Members → Members → Prop}
    (change : Item → OtherItem)
    (grows : ∀ members item, members.diagnostics <+: (step members item).diagnostics)
    {items : List Item}
    (keeps : ∀ item ∈ items, ∀ members other, Holds members other →
      (step members item).diagnostics = [] →
      Holds (step members item) (otherStep other (change item)))
    (holds : Holds members other) (errorFree : (items.foldl step members).diagnostics = []) :
    Holds (items.foldl step members) ((items.map change).foldl otherStep other) := by
  induction items generalizing members other with
  | nil => exact holds
  | cons item items ih =>
    have firstFree := errorFree_of_grows (foldl_grows grows items (step members item)) errorFree
    apply ih _ (keeps item List.mem_cons_self members other holds firstFree) errorFree
    intro later isLater
    exact keeps later (List.mem_cons_of_mem _ isLater)

/-- A class of a program and of the renamed one is getting its members. -/
structure BuildingBoth (given : Program.Renaming) (base otherBase : Registry) (owner : ClassId)
    (members other : Members) : Prop extends RenamedTo given members other where
  building : Building base owner members.registry
  otherBuilding : Building otherBase owner other.registry

/-! ### Fields -/

theorem buildingBoth_addField (acyclic : base.Acyclic) (known : owner.index < base.classCount)
    (otherAcyclic : otherBase.Acyclic) (otherKnown : owner.index < otherBase.classCount)
    (both : BuildingBoth given base otherBase owner members other) {decl : FieldDecl}
    (errorFree : (addField owner members decl).diagnostics = []) :
    BuildingBoth given base otherBase owner (addField owner members decl)
      (addField owner other decl) := by
  have same := both.registries
  have wellFormed := both.building.consistent.toWellFormed
  have otherWellFormed := both.otherBuilding.consistent.toWellFormed
  have otherFree : (addField owner other decl).diagnostics = [] := by
    rw [addField_errorFree_iff] at errorFree ⊢
    rw [same.ownMember?_eq wellFormed otherWellFormed,
      same.findInherited?_eq wellFormed otherWellFormed,
      same.resolveType?_eq wellFormed otherWellFormed]
    exact ⟨both.otherSilent, errorFree.2⟩
  refine ⟨?_, building_addField acyclic known both.building errorFree,
    building_addField otherAcyclic otherKnown both.otherBuilding otherFree⟩
  rcases both.building.exists_owner known with ⟨found, ownerFound⟩
  have otherFound : other.registry.classEntry? owner = some found := by
    rw [Registry.classEntry?, same.classes_eq]
    exact ownerFound
  rcases addField_of_errorFree ownerFound errorFree with ⟨type, typeEq, added⟩
  rcases addField_of_errorFree otherFound otherFree with ⟨otherType, otherTypeEq, otherAdded⟩
  obtain rfl : otherType = type := by
    rw [same.resolveType?_eq wellFormed otherWellFormed, typeEq] at otherTypeEq
    exact (Option.some.inj otherTypeEq).symm
  refine ⟨?_, ?_, errorFree, otherFree⟩
  · rw [added, otherAdded]
    simp only [same.fields_eq]
    exact same.fieldAdded _ _
  · rw [added, otherAdded]
    exact both.sources_eq

/-! ### Parameters -/

/-- A declared parameter with its name changed. -/
def renamedParameter (names : Storage → String) (declared : (VariableDecl × DataType) × Nat) :
    (VariableDecl × DataType) × Nat :=
  (({ declared.1.1 with name := names (.parameter declared.2) }, declared.1.2), declared.2)

theorem zip_renamed (names : Storage → String) (decls : List VariableDecl) (types : List DataType) :
    ((decls.zipIdx.map fun pair => { pair.1 with name := names (.parameter pair.2) }).zip
      types).zipIdx = (decls.zip types).zipIdx.map (renamedParameter names) := by
  apply List.ext_getElem?
  intro rank
  simp only [List.getElem?_zipIdx, List.getElem?_map, List.zip, List.getElem?_zipWith]
  cases decls[rank]? <;> cases types[rank]? <;> simp [renamedParameter]

theorem addParameter_of_errorFree
    (errorFree : (addParameter method scope members declared).diagnostics = []) :
    addParameter method scope members declared =
      { members with
        registry :=
          (members.registry.variableAdded scope
            ⟨⟨members.registry.variableEntries.size⟩, declared.1.1.name, declared.1.2, method,
              .parameter declared.2, declared.1.1.position⟩).modifyMethod method fun entry =>
            { entry with
              parameters := entry.parameters ++ [⟨members.registry.variableEntries.size⟩] } } := by
  rcases declared with ⟨⟨decl, type⟩, rank⟩
  simp only [addParameter, Registry.registerVariable_eq] at errorFree ⊢
  cases declaredEq : members.registry.scopes.declared? scope decl.name with
  | some existing => simp [declaredEq, report] at errorFree
  | none => rfl

theorem renamedTo_addParameter (renamedTo : RenamedTo given members other)
    (errorFree : (addParameter method scope members declared).diagnostics = [])
    (otherFree : (addParameter method scope other (renamedParameter names declared)).diagnostics =
      []) :
    RenamedTo given (addParameter method scope members declared)
      (addParameter method scope other (renamedParameter names declared)) := by
  have same := renamedTo.registries
  refine ⟨?_, ?_, errorFree, otherFree⟩
  · rw [addParameter_of_errorFree errorFree, addParameter_of_errorFree otherFree]
    simp only [same.variables_size_eq]
    apply Beside.modifyMethod
    exact same.variableAdded _ rfl
  · rw [addParameter_of_errorFree errorFree, addParameter_of_errorFree otherFree]
    exact renamedTo.sources_eq

theorem renamedTo_foldl_addParameter (declared : List ((VariableDecl × DataType) × Nat))
    (renamedTo : RenamedTo given members other)
    (errorFree : (declared.foldl (addParameter method scope) members).diagnostics = [])
    (otherFree : ((declared.map (renamedParameter names)).foldl (addParameter method scope)
      other).diagnostics = []) :
    RenamedTo given (declared.foldl (addParameter method scope) members)
      ((declared.map (renamedParameter names)).foldl (addParameter method scope) other) := by
  induction declared generalizing members other with
  | nil => exact renamedTo
  | cons first rest ih =>
    have firstFree := errorFree_of_grows (foldl_grows (addParameter_grows _ _) rest _) errorFree
    have otherFirstFree := errorFree_of_grows
      (foldl_grows (addParameter_grows _ _) (rest.map (renamedParameter names)) _) otherFree
    exact ih (renamedTo_addParameter renamedTo firstFree otherFirstFree) errorFree otherFree

/-! ### Methods -/

theorem nodup_renamedParameters
    (distinct : (source.decl.storages.map (given source.classIndex source.methodIndex)).Nodup) :
    ((source.renamed given).decl.parameters.map VariableDecl.name).Nodup := by
  have names : (source.renamed given).decl.parameters.map VariableDecl.name =
      ((List.range source.decl.parameters.length).map Storage.parameter).map
        (given source.classIndex source.methodIndex) := by
    apply List.ext_getElem?
    intro rank
    by_cases inRange : rank < source.decl.parameters.length
    · simp [MethodSource.renamed, MethodDecl.renamed, inRange]
    · simp [MethodSource.renamed, MethodDecl.renamed, inRange]
  rw [MethodDecl.storages, List.map_append, List.nodup_append] at distinct
  rw [names]
  exact distinct.1

theorem renamedTo_enterMethod (renamedTo : RenamedTo given members other)
    {signature : Registry.MethodSignature} {found : ClassEntry}
    (ownerFound : members.registry.classEntry? signature.owner = some found)
    (fresh : members.registry.ownMember? signature.owner signature.name = none)
    (otherFresh : other.registry.ownMember? signature.owner signature.name = none)
    {replaced : Option MethodId}
    (sameLength : signature.parameterTypes.length = source.decl.parameters.length)
    (distinct : (source.decl.storages.map (given source.classIndex source.methodIndex)).Nodup)
    (errorFree : (members.enterMethod source signature replaced).diagnostics = []) :
    RenamedTo given (members.enterMethod source signature replaced)
      (other.enterMethod (source.renamed given) signature replaced) := by
  have same := renamedTo.registries
  have otherFound : other.registry.classEntry? signature.owner = some found := by
    rw [Registry.classEntry?, same.classes_eq]
    exact ownerFound
  have otherLength : signature.parameterTypes.length =
      (source.renamed given).decl.parameters.length := by
    simp [MethodSource.renamed, MethodDecl.renamed, sameLength]
  have otherFree :=
    (enterMethod_spec otherFound otherFresh replaced otherLength renamedTo.otherSilent).1.mpr
      (nodup_renamedParameters distinct)
  have parameters : ((source.renamed given).decl.parameters.zip signature.parameterTypes).zipIdx =
      (source.decl.parameters.zip signature.parameterTypes).zipIdx.map
        (renamedParameter (given source.classIndex source.methodIndex)) :=
    zip_renamed _ _ _
  rw [enterMethod_eq ownerFound fresh] at errorFree ⊢
  rw [enterMethod_eq otherFound otherFresh, same.methods_eq,
    same.scopes_eq, parameters] at otherFree ⊢
  apply renamedTo_foldl_addParameter _ _ errorFree otherFree
  refine ⟨?_, ?_, renamedTo.silent, renamedTo.otherSilent⟩
  · apply Beside.modifyMethod
    rw [Registry.nextMethod, Registry.nextMethod, same.methods_eq, same.scopes_eq]
    exact same.methodAdded _ _
  · simp [renamedTo.sources_eq]

/-- A method about which there is no complaint is entered with the types of its declaration, in
place of the method that its class inherits under its name. -/
theorem addMethod_eq_of_errorFree (wellFormed : members.registry.WellFormed)
    (errorFree : (addMethod owner members source).diagnostics = []) :
    ∃ types type, (source.decl.parameters.map fun decl => members.registry.resolveType? decl.type) =
      types.map some ∧
      members.registry.resolveType? source.decl.returnType = some type ∧
      members.registry.ownMember? owner source.decl.name = none ∧
      addMethod owner members source = members.enterMethod source
        ⟨owner, source.decl.name, types, type, source.decl.visibility, source.decl.isStatic,
          source.decl.position⟩
        (members.registry.inheritedMethod? owner source.decl.name) := by
  rcases known_of_errorFree errorFree with ⟨⟨_, inheritedEq⟩, parametersKnown, resultKnown⟩
  rcases inheritedMethod_eq_ok_iff.mp inheritedEq with ⟨isNew, isMethod, rfl⟩
  rcases parameterTypes_of_known parametersKnown with ⟨types, typesEq, collected⟩
  rcases Option.isSome_iff_exists.mp resultKnown with ⟨type, typeEq⟩
  refine ⟨types, type, typesEq, typeEq, isNew, ?_⟩
  rw [addMethod_of_known inheritedEq collected typeEq] at errorFree ⊢
  dsimp only at errorFree ⊢
  have overriddenFree := errorFree_of_grows (enterMethod_grows _ _ _) errorFree
  rw [overridden?_agrees.2 overriddenFree, map_id_inherited wellFormed]

theorem buildingBoth_addMethod (acyclic : base.Acyclic) (known : owner.index < base.classCount)
    (otherAcyclic : otherBase.Acyclic) (otherKnown : owner.index < otherBase.classCount)
    (both : BuildingBoth given base otherBase owner members other)
    (distinct : (source.decl.storages.map (given source.classIndex source.methodIndex)).Nodup)
    (errorFree : (addMethod owner members source).diagnostics = []) :
    BuildingBoth given base otherBase owner (addMethod owner members source)
      (addMethod owner other (source.renamed given)) := by
  have same := both.registries
  have wellFormed := both.building.consistent.toWellFormed
  have otherWellFormed := both.otherBuilding.consistent.toWellFormed
  rcases both.building.exists_owner known with ⟨found, ownerFound⟩
  rcases both.otherBuilding.exists_owner otherKnown with ⟨otherFound, otherOwnerFound⟩
  have sameTypes : other.registry.resolveType? = members.registry.resolveType? :=
    funext (same.resolveType?_eq wellFormed otherWellFormed)
  have sameParameters : ((source.renamed given).decl.parameters.map fun decl =>
      members.registry.resolveType? decl.type) =
        source.decl.parameters.map fun decl => members.registry.resolveType? decl.type := by
    apply List.ext_getElem?
    intro rank
    simp [MethodSource.renamed, MethodDecl.renamed, Option.map_map, Function.comp_def]
  have otherFree : (addMethod owner other (source.renamed given)).diagnostics = [] := by
    rcases (addMethod_spec wellFormed ownerFound both.silent source).1.mp errorFree with
      ⟨isNew, fits⟩
    apply (addMethod_spec otherWellFormed otherOwnerFound both.otherSilent _).1.mpr
    refine ⟨(same.ownMember?_eq wellFormed otherWellFormed _ _).trans isNew, ?_, ?_,
      nodup_renamedParameters distinct, ?_⟩
    · rw [sameTypes]
      intro decl isParameter
      have isKnown := List.mem_map_of_mem (f := fun decl =>
        members.registry.resolveType? decl.type) isParameter
      rw [sameParameters] at isKnown
      rcases List.mem_map.mp isKnown with ⟨original, isOriginal, typeEq⟩
      rw [← typeEq]
      exact fits.parameters_known original isOriginal
    · rw [sameTypes]
      exact fits.result_known
    · intro symbol isInherited
      rw [same.findInherited?_eq wellFormed otherWellFormed] at isInherited
      simp only [sameTypes, same.methodEntry?_eq]
      rw [sameParameters]
      exact fits.inherited_agrees symbol isInherited
  refine ⟨?_, building_addMethod acyclic known both.building errorFree,
    building_addMethod otherAcyclic otherKnown both.otherBuilding otherFree⟩
  rcases addMethod_eq_of_errorFree wellFormed errorFree with
    ⟨types, type, typesEq, typeEq, isNew, added⟩
  rcases addMethod_eq_of_errorFree otherWellFormed otherFree with
    ⟨otherTypes, otherType, otherTypesEq, otherTypeEq, otherIsNew, otherAdded⟩
  obtain rfl : otherTypes = types := by
    rw [sameTypes, sameParameters, typesEq] at otherTypesEq
    exact ((List.map_injective_iff.mpr fun _ _ => Option.some.inj) otherTypesEq).symm
  obtain rfl : otherType = type := by
    rw [sameTypes] at otherTypeEq
    exact Option.some.inj (otherTypeEq.symm.trans typeEq)
  have sameInherited : other.registry.inheritedMethod? owner source.decl.name =
      members.registry.inheritedMethod? owner source.decl.name := by
    simp only [Registry.inheritedMethod?, same.parent?_eq,
      same.findMethod?_eq wellFormed otherWellFormed]
  have sameLength := congrArg List.length typesEq
  rw [List.length_map, List.length_map] at sameLength
  rw [added] at errorFree ⊢
  rw [otherAdded]
  change RenamedTo given _ (other.enterMethod (source.renamed given) _
    (other.registry.inheritedMethod? owner source.decl.name))
  rw [sameInherited]
  exact renamedTo_enterMethod both.toRenamedTo ownerFound isNew otherIsNew sameLength.symm
    distinct errorFree

/-! ### Vtables -/

theorem beside_placeMethod {state otherState : List MethodId × Registry}
    (same : state.2.Beside otherState.2) (sameVtable : otherState.1 = state.1) (id : MethodId) :
    (placeMethod state id).2.Beside (placeMethod otherState id).2 ∧
      (placeMethod otherState id).1 = (placeMethod state id).1 := by
  rcases state with ⟨vtable, registry⟩
  rcases otherState with ⟨otherVtable, otherRegistry⟩
  dsimp only at same sameVtable
  subst sameVtable
  have sameSlot (method : MethodEntry) : inheritedSlot? otherRegistry method =
      inheritedSlot? registry method := by
    have sameEntry : otherRegistry.methodEntry? = registry.methodEntry? :=
      funext same.methodEntry?_eq
    rw [inheritedSlot?, inheritedSlot?, sameEntry]
  simp only [placeMethod, same.methodEntry?_eq, sameSlot]
  cases registry.methodEntry? id with
  | none => exact ⟨same, rfl⟩
  | some method =>
    dsimp only
    split
    · exact ⟨same, rfl⟩
    · cases inheritedSlot? registry method with
      | none => exact ⟨same.modifyMethod _ _, rfl⟩
      | some slot => exact ⟨same.modifyMethod _ _, rfl⟩

theorem beside_buildVtable {registry otherRegistry : Registry}
    (same : registry.Beside otherRegistry) (owner : ClassId) :
    (buildVtable registry owner).Beside (buildVtable otherRegistry owner) := by
  have placed (ids : List MethodId) : ∀ {state otherState : List MethodId × Registry},
      state.2.Beside otherState.2 → otherState.1 = state.1 →
        (ids.foldl placeMethod state).2.Beside (ids.foldl placeMethod otherState).2 ∧
          (ids.foldl placeMethod otherState).1 = (ids.foldl placeMethod state).1 := by
    induction ids with
    | nil => exact fun same sameVtable => ⟨same, sameVtable⟩
    | cons id ids ih =>
      intro state otherState same sameVtable
      have first := beside_placeMethod same sameVtable id
      exact ih first.1 first.2
  have sameEntry : otherRegistry.classEntry? = registry.classEntry? := by
    funext id
    rw [Registry.classEntry?, Registry.classEntry?, same.classes_eq]
  have sameInherited : inheritedVtable otherRegistry owner = inheritedVtable registry owner := by
    rw [inheritedVtable, inheritedVtable, same.parent?_eq, sameEntry]
  rw [buildVtable, buildVtable, sameEntry]
  cases registry.classEntry? owner with
  | none => exact same
  | some entry =>
    have filled := @placed entry.methods (inheritedVtable registry owner, registry)
      (inheritedVtable otherRegistry owner, otherRegistry) same sameInherited
    dsimp only
    rw [filled.2]
    exact filled.1.modifyClass _ _

/-! ### Classes -/

theorem renamedTo_addClass {index : Nat} {decl : ClassDecl} (acyclic : members.registry.Acyclic)
    (known : owner.index < members.registry.classCount) (otherAcyclic : other.registry.Acyclic)
    (otherKnown : owner.index < other.registry.classCount)
    (both : BuildingBoth given members.registry other.registry owner members other)
    (distinct : ∀ source ∈ sourcesOf index decl,
      (source.decl.storages.map (given source.classIndex source.methodIndex)).Nodup)
    (errorFree : (addClass members owner index decl).diagnostics = []) :
    RenamedTo given (addClass members owner index decl)
      (addClass other owner index (decl.renamed (given index))) := by
  have fieldsFree :=
    errorFree_of_grows (foldl_grows (addMethod_grows owner) (sourcesOf index decl) _) errorFree
  have withFields : BuildingBoth given members.registry other.registry owner
      (decl.fields.foldl (addField owner) members)
      ((decl.fields.map fun field => field).foldl (addField owner) other) :=
    foldl_beside (fun field => field) (addField_grows owner)
      (fun _ _ _ _ both free =>
        buildingBoth_addField acyclic known otherAcyclic otherKnown both free) both fieldsFree
  rw [List.map_id'] at withFields
  have withMethods : BuildingBoth given members.registry other.registry owner
      ((sourcesOf index decl).foldl (addMethod owner) (decl.fields.foldl (addField owner) members))
      (((sourcesOf index decl).map (MethodSource.renamed · given)).foldl (addMethod owner)
        (decl.fields.foldl (addField owner) other)) :=
    foldl_beside (MethodSource.renamed · given) (addMethod_grows owner)
      (fun source isSource _ _ both free =>
        buildingBoth_addMethod acyclic known otherAcyclic otherKnown both
          (distinct source isSource) free)
      withFields errorFree
  rw [← sourcesOf_renamed] at withMethods
  exact ⟨beside_buildVtable withMethods.registries owner, withMethods.sources_eq,
    withMethods.silent, withMethods.otherSilent⟩

section

variable {program : Program} (renames : program.Renames given)

include renames

variable {hierarchy : Hierarchy} {front rest : List ClassId}

section

variable (settled : hierarchy.Settled program.classes.length)
  (otherSettled : hierarchy.Settled (program.renamedClasses given).length)
include settled otherSettled

/-- Between the classes the two registrations have come to the same place. -/
theorem renamedTo_addClassById (orderEq : hierarchy.order = front ++ owner :: rest)
    (completing : Completing hierarchy front members)
    (otherCompleting : Completing hierarchy front other) (renamedTo : RenamedTo given members other)
    (errorFree : (addClassById program.classes hierarchy members owner).diagnostics = []) :
    RenamedTo given (addClassById program.classes hierarchy members owner)
      (addClassById (program.renamedClasses given) hierarchy other owner) := by
  have turn := settled.turn orderEq
  rcases settled.exists_declaration turn.known with ⟨index, decl, indexEq, declEq⟩
  have otherDeclEq : (program.renamedClasses given)[index]? =
      some (decl.renamed (given index)) := by
    rw [Program.getElem?_renamedClasses, declEq, Option.map_some]
  simp only [addClassById, indexEq, declEq, otherDeclEq] at errorFree ⊢
  have both : BuildingBoth given members.registry other.registry owner members other :=
    ⟨renamedTo, completing.building settled turn, otherCompleting.building otherSettled turn⟩
  apply renamedTo_addClass (completing.acyclic settled.acyclic) _
    (otherCompleting.acyclic settled.acyclic) _ both _ errorFree
  · rw [completing.classCount_eq]
    exact turn.known
  · rw [otherCompleting.classCount_eq]
    exact turn.known
  · intro source isSource
    rcases mem_sourcesOf.mp isSource with ⟨rfl, found⟩
    exact renames.nodup_storages (mem_allSources.mpr ⟨decl, declEq, found⟩)

theorem renamedTo_foldl
    (orderEq : hierarchy.order = front ++ rest) (completing : Completing hierarchy front members)
    (otherCompleting : Completing hierarchy front other) (renamedTo : RenamedTo given members other)
    (errorFree : (rest.foldl (addClassById program.classes hierarchy) members).diagnostics = []) :
    RenamedTo given (rest.foldl (addClassById program.classes hierarchy) members)
      (rest.foldl (addClassById (program.renamedClasses given) hierarchy) other) := by
  induction rest generalizing front members other with
  | nil => exact renamedTo
  | cons owner rest ih =>
    have firstFree := errorFree_of_grows
      (foldl_grows (addClassById_grows program.classes hierarchy) rest _) errorFree
    have first := renamedTo_addClassById renames settled otherSettled orderEq completing
      otherCompleting renamedTo firstFree
    have nextOrder : hierarchy.order = (front ++ [owner]) ++ rest := by
      rw [orderEq]
      simp
    exact ih nextOrder (completing_addClassById settled orderEq completing firstFree)
      (completing_addClassById otherSettled orderEq otherCompleting first.otherSilent)
      first errorFree

end

/-- The members of a renamed program are accepted if those of the program are, and are the same but
for the names of variables. -/
theorem renamedTo_ofHierarchy
    (membersFree : (ofHierarchy program.classes (Hierarchy.ofClasses program.classes)).diagnostics =
      []) :
    RenamedTo given (ofHierarchy program.classes (Hierarchy.ofClasses program.classes))
      (ofHierarchy (program.renamedClasses given)
        (Hierarchy.ofClasses (program.renamedClasses given))) := by
  have settled := Hierarchy.settled_ofClasses program.classes
  have otherSettled := Hierarchy.settled_ofClasses (program.renamedClasses given)
  rw [program.hierarchy_renamedClasses given] at otherSettled ⊢
  exact renamedTo_foldl renames settled otherSettled rfl (completing_start settled)
    (completing_start otherSettled) ⟨.refl _, by simp, rfl, rfl⟩ membersFree

end

end Members

end Decaf
