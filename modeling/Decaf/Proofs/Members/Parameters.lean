import Decaf.Proofs.Members.Acceptance
import Decaf.Proofs.Members.Declared
import Decaf.Proofs.Registry.Chains

/-!
# Scopes of parameters

When no declaration is faulty, the scope of every method holds the declared parameters, in their
order, and nothing else. It gets them when the method is entered, and no later registration touches
it. Each parameter is on record with its type.
-/

namespace Decaf

/-- The parameters of a method, as its body sees them. -/
def parameterBlock (decl : MethodDecl) (method : MethodEntry) : Block :=
  (decl.parameters.map VariableDecl.name).zip method.parameters

namespace Registry

/-- A variable is on record with a type. -/
def HasType (registry : Registry) (id : VariableId) (type : DataType) : Prop :=
  ∃ entry, registry.variableEntry? id = some entry ∧ entry.type = type

theorem HasType.variableAdded {registry : Registry} {id : VariableId} {type : DataType}
    (typed : registry.HasType id type) (scope : ScopeId) (entry : VariableEntry) :
    (registry.variableAdded scope entry).HasType id type := by
  rcases typed with ⟨found, foundEq, typeEq⟩
  refine ⟨found, ?_, typeEq⟩
  rw [variableEntry?_variableAdded, if_neg, foundEq]
  rintro rfl
  exact absurd (Array.getElem?_eq_some_iff.mp foundEq).1 (Nat.lt_irrefl _)

theorem hasType_variableAdded (registry : Registry) (scope : ScopeId) (entry : VariableEntry) :
    (registry.variableAdded scope entry).HasType ⟨registry.variableEntries.size⟩ entry.type :=
  ⟨entry, by rw [variableEntry?_variableAdded, if_pos rfl], rfl⟩

/-- The scope of a method holds its declared parameters. -/
structure HoldsParameters (registry : Registry) (decl : MethodDecl) (method : MethodEntry) :
    Prop where
  length_eq : method.parameters.length = decl.parameters.length
  scope_eq : ∃ scope, registry.scopes.get? method.scope = some scope ∧
    scope.symbols = (parameterBlock decl method).symbols
  types_eq : List.Forall₂ registry.HasType method.parameters method.parameterTypes

/-- Methods keep their parameters, and the scopes of these stay as they are. -/
structure KeepsMethods (before after : Registry) : Prop where
  size_eq : after.methods.size = before.methods.size
  keeps : ∀ {id entry}, before.methodEntry? id = some entry → ∃ kept,
    after.methodEntry? id = some kept ∧
    kept.scope = entry.scope ∧ kept.parameters = entry.parameters ∧
    kept.parameterTypes = entry.parameterTypes ∧
    after.scopes.get? entry.scope = before.scopes.get? entry.scope
  hasType : ∀ {id type}, before.HasType id type → after.HasType id type

namespace KeepsMethods

variable {registry before after final : Registry}

theorem refl (registry : Registry) : KeepsMethods registry registry :=
  ⟨rfl, fun found => ⟨_, found, rfl, rfl, rfl, rfl⟩, id⟩

theorem trans (early : KeepsMethods before after) (late : KeepsMethods after final) :
    KeepsMethods before final where
  size_eq := late.size_eq.trans early.size_eq
  keeps found := by
    rcases early.keeps found with
      ⟨kept, keptFound, sameScope, sameParameters, sameTypes, sameSymbols⟩
    rcases late.keeps keptFound with
      ⟨last, lastFound, lastScope, lastParameters, lastTypes, lastSymbols⟩
    rw [sameScope] at lastSymbols
    exact ⟨last, lastFound, lastScope.trans sameScope, lastParameters.trans sameParameters,
      lastTypes.trans sameTypes, lastSymbols.trans sameSymbols⟩
  hasType typed := late.hasType (early.hasType typed)

theorem holds (keeps : KeepsMethods before after) {decl : MethodDecl} {id : MethodId}
    (held : ∀ method, before.methodEntry? id = some method → before.HoldsParameters decl method)
    (known : id.index < before.methods.size) :
    ∀ method, after.methodEntry? id = some method → after.HoldsParameters decl method := by
  intro method found
  have old : before.methodEntry? id = some before.methods[id.index] :=
    Array.getElem?_eq_getElem known
  rcases keeps.keeps old with ⟨kept, keptFound, sameScope, sameParameters, sameTypes, sameSymbols⟩
  obtain rfl := Option.some.inj (found.symm.trans keptFound)
  rcases held _ old with ⟨lengthEq, ⟨scope, scopeFound, symbolsEq⟩, typesEq⟩
  refine ⟨sameParameters ▸ lengthEq, ⟨scope, ?_, ?_⟩, ?_⟩
  · rw [sameScope, sameSymbols, scopeFound]
  · rw [symbolsEq, parameterBlock, parameterBlock, sameParameters]
  · rw [sameParameters, sameTypes]
    exact typesEq.imp fun _ _ => keeps.hasType

theorem fieldAdded (wellFormed : registry.WellFormed) {entry : FieldEntry} {found : ClassEntry}
    (known : registry.classEntry? entry.owner = some found) :
    KeepsMethods registry (registry.fieldAdded found.scope entry) where
  size_eq := by simp [Registry.fieldAdded, Registry.modifyClass]
  hasType typed := typed
  keeps {id method} methodFound := by
    refine ⟨method, methodFound, rfl, rfl, rfl, ?_⟩
    rcases wellFormed.class_scope known with ⟨outer, outerFound, isMembers⟩
    rcases wellFormed.method_scope methodFound with ⟨own, ownFound, isBody⟩
    change (registry.scopes.extended found.scope _ _).get? method.scope = _
    rw [ScopeTree.get?_extended, if_neg]
    intro same
    obtain rfl := Option.some.inj (outerFound.symm.trans (same ▸ ownFound))
    cases isMembers.symm.trans isBody

theorem modifyClass (id : ClassId) (change : ClassEntry → ClassEntry) :
    KeepsMethods registry (registry.modifyClass id change) :=
  ⟨rfl, fun found => ⟨_, found, rfl, rfl, rfl, rfl⟩, fun typed => typed⟩

theorem modifyMethod (id : MethodId) {change : MethodEntry → MethodEntry}
    (sameScope : ∀ entry, (change entry).scope = entry.scope)
    (sameParameters : ∀ entry, (change entry).parameters = entry.parameters)
    (sameTypes : ∀ entry, (change entry).parameterTypes = entry.parameterTypes) :
    KeepsMethods registry (registry.modifyMethod id change) where
  size_eq := by simp [Registry.modifyMethod]
  hasType typed := typed
  keeps {other entry} found := by
    rw [methodEntry?_modifyMethod, found]
    split
    · exact ⟨_, rfl, sameScope entry, sameParameters entry, sameTypes entry, rfl⟩
    · exact ⟨_, rfl, rfl, rfl, rfl, rfl⟩

end KeepsMethods

end Registry

namespace Members

open Registry (KeepsMethods HoldsParameters)

variable {members : Members} {owner : ClassId} {base : Registry}

/-! ## Entering a method -/

/-- A method with parameters of certain types is on record behind those of `before`, and has some of
its parameters. -/
structure ParametersEntered (before : Registry) (types : List DataType)
    (done : List (VariableDecl × DataType)) (registry : Registry) : Prop where
  size_eq : registry.methods.size = before.methods.size + 1
  old : ∀ {id entry}, before.methodEntry? id = some entry → registry.methodEntry? id = some entry ∧
    registry.scopes.get? entry.scope = before.scopes.get? entry.scope
  hasType : ∀ {id type}, before.HasType id type → registry.HasType id type
  own : ∃ entry scope, registry.methodEntry? ⟨before.methods.size⟩ = some entry ∧
    entry.scope = ⟨before.scopes.size⟩ ∧ entry.parameterTypes = types ∧
    List.Forall₂ registry.HasType entry.parameters (done.map Prod.snd) ∧
    registry.scopes.get? ⟨before.scopes.size⟩ = some scope ∧
    scope.symbols = Block.symbols
          ((done.map fun declared => declared.1.name).zip entry.parameters)

section

variable {before : Registry} (wellFormed : before.WellFormed) {types : List DataType}
  {done : List (VariableDecl × DataType)}

include wellFormed

theorem parametersEntered_addParameter
    (entered : ParametersEntered before types done members.registry)
    {declared : (VariableDecl × DataType) × Nat}
    (errorFree : (addParameter ⟨before.methods.size⟩ ⟨before.scopes.size⟩ members
      declared).diagnostics = []) :
    ParametersEntered before types (done ++ [declared.1])
      (addParameter ⟨before.methods.size⟩ ⟨before.scopes.size⟩ members declared).registry := by
  rcases declared with ⟨⟨decl, type⟩, rank⟩
  rw [addParameter, Registry.registerVariable_eq] at errorFree ⊢
  split at errorFree
  case h_2 => simp [report] at errorFree
  next id registry registered =>
    split at registered
    · cases registered
    cases registered
    rcases entered.own with ⟨entry, scope, entryFound, scopeEq, sameTypes, typesEq,
      scopeFound, symbolsEq⟩
    let id : VariableId := ⟨members.registry.variableEntries.size⟩
    let added := members.registry.variableAdded ⟨before.scopes.size⟩
      ⟨id, decl.name, type, ⟨before.methods.size⟩, .parameter rank, decl.position⟩
    have stays {other : VariableId} {type : DataType}
        (typed : members.registry.HasType other type) :
        added.HasType other type := typed.variableAdded _ _
    have isTyped : added.HasType id type := Registry.hasType_variableAdded _ _ _
    refine ⟨?_, fun {id other} found => ?_, fun typed => stays (entered.hasType typed),
      { entry with parameters := entry.parameters ++ [id] },
          scope.extend decl.name (.ofVariable id), ?_, scopeEq,
      sameTypes, ?_, ?_, ?_⟩
    · simpa [Registry.modifyMethod, Registry.variableAdded] using entered.size_eq
    · rcases entered.old found with ⟨stillFound, sameScope⟩
      have isOld : id.index < before.methods.size := (Array.getElem?_eq_some_iff.mp found).1
      rcases wellFormed.method_scope found with ⟨own, ownFound, _⟩
      have scopeOld := ScopeTree.lt_size_of_get? ownFound
      constructor
      · rw [Registry.methodEntry?_modifyMethod, if_neg]
        · exact stillFound
        · rintro rfl
          exact Nat.lt_irrefl _ isOld
      · change (members.registry.scopes.extended _ _ _).get? other.scope = _
        rw [ScopeTree.get?_extended, if_neg, sameScope]
        intro same
        rw [← same] at scopeOld
        exact Nat.lt_irrefl _ scopeOld
    · rw [Registry.methodEntry?_modifyMethod, if_pos rfl]
      exact congrArg (Option.map _) entryFound
    · rw [List.map_append]
      exact List.rel_append (typesEq.imp fun _ _ => stays) (.cons isTyped .nil)
    · change (members.registry.scopes.extended _ _ _).get? _ = _
      rw [ScopeTree.get?_extended, if_pos rfl, scopeFound, Option.map_some]
    · have lengthEq := typesEq.length_eq
      rw [List.length_map] at lengthEq
      rw [List.map_append, List.zip_append (by rw [List.length_map, lengthEq])]
      simp [Scope.extend, symbolsEq, Block.symbols]

theorem parametersEntered_foldl (declared : List ((VariableDecl × DataType) × Nat))
    (entered : ParametersEntered before types done members.registry)
    (errorFree : (declared.foldl (addParameter ⟨before.methods.size⟩ ⟨before.scopes.size⟩)
      members).diagnostics = []) :
    ParametersEntered before types (done ++ declared.map Prod.fst)
      (declared.foldl (addParameter ⟨before.methods.size⟩ ⟨before.scopes.size⟩)
        members).registry := by
  induction declared generalizing members done with
  | nil => simpa using entered
  | cons first rest ih =>
    have firstFree := errorFree_of_grows (foldl_grows (addParameter_grows _ _) rest _) errorFree
    simpa using ih (parametersEntered_addParameter wellFormed entered firstFree) errorFree

end

variable {found : ClassEntry} {source : MethodSource} {front rest : List ClassId}

theorem parametersEntered_start {registry : Registry} (wellFormed : registry.WellFormed)
    {signature : Registry.MethodSignature}
    (known : registry.classEntry? signature.owner = some found) (replaced : Option MethodId) :
    ParametersEntered registry signature.parameterTypes []
      (linkedMethod registry found.scope signature replaced) := by
  refine ⟨?_, fun {id entry} entryFound => ?_, fun typed => typed,
    enteredMethod registry signature replaced,
    ⟨⟨registry.scopes.size⟩, .methodBody ⟨registry.methods.size⟩, some found.scope, []⟩, ?_, rfl,
    rfl, .nil, ?_, rfl⟩
  · simp [linkedMethod, Registry.modifyMethod, Registry.methodAdded]
  · have isOld : id.index < registry.methods.size := (Array.getElem?_eq_some_iff.mp entryFound).1
    have differs : id ≠ ⟨registry.methods.size⟩ := by
      rintro rfl
      exact Nat.lt_irrefl _ isOld
    rcases wellFormed.method_scope entryFound with ⟨own, ownFound, isBody⟩
    rcases wellFormed.class_scope known with ⟨outer, outerFound, isMembers⟩
    have scopeOld := ScopeTree.lt_size_of_get? ownFound
    constructor
    · rw [linkedMethod, Registry.methodEntry?_modifyMethod, if_neg differs.symm,
        Registry.methodEntry?_methodAdded, if_neg differs, entryFound]
    · change ((registry.scopes.extended _ _ _).push _ _).2.get? entry.scope = _
      rw [ScopeTree.get?_push, if_neg, ScopeTree.get?_extended, if_neg]
      · intro same
        obtain rfl := Option.some.inj (outerFound.symm.trans (same ▸ ownFound))
        cases isMembers.symm.trans isBody
      · intro same
        rw [same, ScopeTree.size_extended] at scopeOld
        exact Nat.lt_irrefl _ scopeOld
  · rw [linkedMethod, Registry.methodEntry?_modifyMethod, if_pos rfl,
      Registry.methodEntry?_methodAdded, if_pos rfl]
    rfl
  · simp [linkedMethod, Registry.modifyMethod, Registry.methodAdded, ScopeTree.get?_push,
      Registry.nextMethod]

/-! ## Declared methods -/

/-- Every method on record has the parameters of its declaration in its scope. -/
structure ParametersHeld (members : Members) : Prop where
  size_eq : members.sources.size = members.registry.methods.size
  holds : ∀ {index source}, members.sources[index]? = some source → ∀ method,
    members.registry.methodEntry? ⟨index⟩ = some method →
    members.registry.HoldsParameters source.decl method

theorem ParametersHeld.keep {after : Members} (held : ParametersHeld members)
    (keeps : KeepsMethods members.registry after.registry)
    (sameSources : after.sources = members.sources) : ParametersHeld after where
  size_eq := by rw [sameSources, held.size_eq, keeps.size_eq]
  holds {index source} recorded := by
    rw [sameSources] at recorded
    have isRecorded := (Array.getElem?_eq_some_iff.mp recorded).1
    exact keeps.holds (held.holds recorded) (held.size_eq ▸ isRecorded)

theorem ParametersHeld.enter {after : Members} (held : ParametersHeld members)
    {types : List DataType} (sameLength : types.length = source.decl.parameters.length)
    (entered : ParametersEntered members.registry types (source.decl.parameters.zip types)
      after.registry)
    (recorded : after.sources = members.sources.push source) : ParametersHeld after where
  size_eq := by rw [recorded, Array.size_push, held.size_eq, entered.size_eq]
  holds {index declared} declaredAt method methodFound := by
    rw [recorded, Array.getElem?_push] at declaredAt
    split at declaredAt
    next isNew =>
      cases declaredAt
      rcases entered.own with ⟨entry, scope, entryFound, scopeEq, sameTypes, typesEq,
        scopeFound, symbolsEq⟩
      rw [isNew, held.size_eq] at methodFound
      obtain rfl := Option.some.inj (methodFound.symm.trans entryFound)
      rw [List.map_snd_zip (Nat.le_of_eq sameLength)] at typesEq
      have names : (source.decl.parameters.zip types).map (fun declared => declared.1.name) =
          source.decl.parameters.map VariableDecl.name :=
        calc _ = ((source.decl.parameters.zip types).map Prod.fst).map VariableDecl.name := by
              rw [List.map_map]
              rfl
          _ = _ := by rw [List.map_fst_zip (Nat.le_of_eq sameLength.symm)]
      rw [names] at symbolsEq
      exact ⟨typesEq.length_eq.trans sameLength, ⟨scope, scopeEq ▸ scopeFound, symbolsEq⟩,
        sameTypes ▸ typesEq⟩
    next =>
      have isRecorded : index < members.registry.methods.size :=
        held.size_eq ▸ (Array.getElem?_eq_some_iff.mp declaredAt).1
      have old : members.registry.methodEntry? ⟨index⟩ = some members.registry.methods[index] :=
        Array.getElem?_eq_getElem isRecorded
      rcases entered.old old with ⟨sameFound, sameScope⟩
      obtain rfl := Option.some.inj (methodFound.symm.trans sameFound)
      rcases held.holds declaredAt _ old with ⟨lengthEq, ⟨scope, scopeFound, symbolsEq⟩, typesEq⟩
      exact ⟨lengthEq, ⟨scope, sameScope.trans scopeFound, symbolsEq⟩,
        typesEq.imp fun _ _ => entered.hasType⟩

theorem parametersHeld_addMethod (known : owner.index < base.classCount)
    (building : Building base owner members.registry) (held : ParametersHeld members)
    (errorFree : (addMethod owner members source).diagnostics = []) :
    ParametersHeld (addMethod owner members source) := by
  have wellFormed := building.consistent.toWellFormed
  have recorded := sources_addMethod known building errorFree
  rcases addMethod_of_errorFree wellFormed errorFree with
    ⟨signature, replaced, entered, owned, sameLength, fresh, -⟩
  rcases building.exists_owner known with ⟨found, ownerFound⟩
  rw [← owned] at ownerFound fresh
  rw [entered, enterMethod_eq ownerFound fresh] at errorFree recorded ⊢
  have parameters :=
    parametersEntered_foldl wellFormed _ (parametersEntered_start wellFormed ownerFound replaced)
    errorFree
  rw [List.nil_append, List.zipIdx_map_fst] at parameters
  exact held.enter sameLength parameters recorded

theorem keepsMethods_addField (wellFormed : members.registry.WellFormed)
    (ownerFound : members.registry.classEntry? owner = some found) (decl : FieldDecl) :
    KeepsMethods members.registry (addField owner members decl).registry := by
  have sameRegistry : (members.typeOr .null decl.type decl.position).2.registry =
      members.registry := by
    unfold typeOr
    split <;> rfl
  unfold addField
  split
  · exact .refl _
  · dsimp only
    rw [sameRegistry, Registry.registerField_eq _ _ _ _ _ ownerFound]
    cases members.registry.ownMember? owner decl.name with
    | none => exact .fieldAdded wellFormed ownerFound
    | some existing => exact sameRegistry ▸ .refl _

theorem keepsMethods_placeMethod (state : List MethodId × Registry) (id : MethodId) :
    KeepsMethods state.2 (placeMethod state id).2 := by
  unfold placeMethod
  dsimp only
  split
  · exact .refl _
  · split
    · exact .refl _
    · split <;> exact .modifyMethod _ (fun _ => rfl) (fun _ => rfl) fun _ => rfl

theorem keepsMethods_buildVtable (registry : Registry) (owner : ClassId) :
    KeepsMethods registry (buildVtable registry owner) := by
  have placed (ids : List MethodId) : ∀ state : List MethodId × Registry,
      KeepsMethods state.2 (ids.foldl placeMethod state).2 := by
    induction ids with
    | nil => exact fun state => .refl _
    | cons id ids ih => exact fun state => (keepsMethods_placeMethod state id).trans (ih _)
  unfold buildVtable
  split
  · exact .refl _
  next entry _ =>
    exact (placed entry.methods (inheritedVtable registry owner, registry)).trans (.modifyClass _ _)

/-! ## Classes -/

/-- A class is getting its members, and its methods have their parameters. -/
structure Held (base : Registry) (owner : ClassId) (members : Members) : Prop where
  building : Building base owner members.registry
  held : ParametersHeld members

theorem parametersHeld_addClass {classIndex : Nat} {decl : ClassDecl}
    (acyclic : members.registry.Acyclic) (known : owner.index < members.registry.classCount)
    (started : Building members.registry owner members.registry) (held : ParametersHeld members)
    (errorFree : (addClass members owner classIndex decl).diagnostics = []) :
    ParametersHeld (addClass members owner classIndex decl) := by
  have fieldsFree := errorFree_of_grows
    (foldl_grows (addMethod_grows owner) (sourcesOf classIndex decl) _) errorFree
  have withFields := @foldl_induction _ _ (Held members.registry owner) (addField_grows owner) _
    (fun field _ later before free => by
      rcases before.building.exists_owner known with ⟨found, ownerFound⟩
      exact ⟨building_addField acyclic known before.building free,
        before.held.keep (keepsMethods_addField before.building.consistent.toWellFormed
          ownerFound field) (sources_addField owner later field)⟩) _ ⟨started, held⟩ fieldsFree
  have withMethods := @foldl_induction _ _ (Held members.registry owner) (addMethod_grows owner) _
    (fun _ _ _ before free => ⟨building_addMethod acyclic known before.building free,
      parametersHeld_addMethod known before.building before.held free⟩) _ withFields errorFree
  exact withMethods.held.keep (keepsMethods_buildVtable _ owner) rfl

variable {classes : List ClassDecl} {hierarchy : Hierarchy}

theorem parametersHeld_addClassById (settled : hierarchy.Settled classes.length)
    (orderEq : hierarchy.order = front ++ owner :: rest)
    (completing : Completing hierarchy front members) (held : ParametersHeld members)
    (errorFree : (addClassById classes hierarchy members owner).diagnostics = []) :
    ParametersHeld (addClassById classes hierarchy members owner) := by
  have turn := settled.turn orderEq
  rcases settled.exists_declaration turn.known with ⟨index, decl, indexEq, declEq⟩
  simp only [addClassById, indexEq, declEq] at errorFree ⊢
  refine parametersHeld_addClass (completing.acyclic settled.acyclic) ?_
    (completing.building settled turn) held errorFree
  rw [completing.classCount_eq]
  exact turn.known

theorem parametersHeld_foldl (settled : hierarchy.Settled classes.length)
    (orderEq : hierarchy.order = front ++ rest) (completing : Completing hierarchy front members)
    (held : ParametersHeld members)
    (errorFree : (rest.foldl (addClassById classes hierarchy) members).diagnostics = []) :
    ParametersHeld (rest.foldl (addClassById classes hierarchy) members) := by
  induction rest generalizing front members with
  | nil => exact held
  | cons owner rest ih =>
    have firstFree := errorFree_of_grows
      (foldl_grows (addClassById_grows classes hierarchy) rest _) errorFree
    exact ih (by rw [orderEq]; simp) (completing_addClassById settled orderEq completing firstFree)
      (parametersHeld_addClassById settled orderEq completing held firstFree) errorFree

/-- Without faulty declarations, all methods have the declared parameters in their scopes. -/
theorem parametersHeld_ofHierarchy {classes : List ClassDecl}
    (membersFree : (ofHierarchy classes (Hierarchy.ofClasses classes)).diagnostics = []) :
    ParametersHeld (ofHierarchy classes (Hierarchy.ofClasses classes)) := by
  have settled := Hierarchy.settled_ofClasses classes
  have noMethods : (Hierarchy.ofClasses classes).registry.methods.size = 0 := by
    rw [settled.bare.noMethods, Array.size_empty]
  exact parametersHeld_foldl settled rfl (completing_start settled)
    ⟨noMethods.symm, fun recorded => by simp at recorded⟩ membersFree

end Members

end Decaf
