import Decaf.Members
import Decaf.Proofs.Hierarchy

/-!
# What the registration of members records

Whether or not the declarations have faults, members are registered by operations in range, and each
method that is registered has its declaration on record under the same number.
-/

namespace Decaf

open Registry (Run Step)

namespace Members

variable {members before after : Members} {owner : ClassId}

/-- No variable but parameters is registered. -/
def OnlyParameters (registry : Registry) : Prop :=
  ∀ entry ∈ registry.variableEntries, entry.isParameter = true

/-- Declarations are registered, and the bodies of the given methods are recorded. -/
structure Records (before after : Members) (recorded : List MethodSource) : Prop where
  run : Run before.registry after.registry
  parameters : OnlyParameters before.registry → OnlyParameters after.registry
  sources_eq : after.sources.toList = before.sources.toList ++ recorded
  methods_eq : after.registry.methods.size = before.registry.methods.size + recorded.length

namespace Records

theorem of_eq (sameRegistry : after.registry = before.registry)
    (sameSources : after.sources = before.sources) : Records before after [] :=
  ⟨sameRegistry ▸ .refl, sameRegistry ▸ id, by simp [sameSources], by simp [sameRegistry]⟩

theorem trans {between : Members} {recorded more : List MethodSource}
    (early : Records before between recorded) (late : Records between after more) :
    Records before after (recorded ++ more) where
  run := early.run.trans late.run
  parameters := late.parameters ∘ early.parameters
  sources_eq := by rw [late.sources_eq, early.sources_eq, List.append_assoc]
  methods_eq := by rw [late.methods_eq, early.methods_eq, List.length_append, Nat.add_assoc]

end Records

variable {registry : Registry} {method : MethodId} {scope : ScopeId} {vtable : List MethodId}

/-! ## Types and fields -/

theorem typeOr_spec (closed : members.registry.Closed) (placeholder : DataType)
    (placeholderKnown : members.registry.KnowsType placeholder) (written : TypeName)
    (position : Position) :
    members.registry.KnowsType (members.typeOr placeholder written position).1 ∧
      (members.typeOr placeholder written position).2.registry = members.registry ∧
      (members.typeOr placeholder written position).2.sources = members.sources := by
  unfold typeOr
  split
  next type resolved => exact ⟨closed.resolveType? resolved, rfl, rfl⟩
  next => exact ⟨placeholderKnown, rfl, rfl⟩

theorem unchanged_registerField {changed : Registry} {name : String} {type : DataType}
    {visibility : Visibility} {isStatic : Bool} {position : Position} {id : FieldId}
    (known : registry.KnowsClass owner)
    (registered : registry.registerField owner name type visibility isStatic position =
      .ok (id, changed)) :
    changed.methods = registry.methods ∧ changed.variableEntries = registry.variableEntries := by
  rcases Registry.fieldAdded_of_registerField known registered with ⟨_, -, -, -, rfl⟩
  exact ⟨rfl, rfl⟩

theorem records_addField (closed : members.registry.Closed)
    (known : members.registry.KnowsClass owner) (decl : FieldDecl) :
    Records members (addField owner members decl) [] := by
  unfold addField
  split
  · exact .of_eq rfl rfl
  · rcases typeOr_spec closed .null trivial decl.type decl.position with
      ⟨typeKnown, sameRegistry, sameSources⟩
    generalize members.typeOr .null decl.type decl.position =
      typed at typeKnown sameRegistry sameSources
    rcases typed with ⟨type, typedMembers⟩
    dsimp only at typeKnown sameRegistry sameSources ⊢
    split
    next id registry registered =>
      rw [sameRegistry] at registered
      have step := Step.registerField known typeKnown registered
      rcases unchanged_registerField known registered with ⟨sameMethods, sameVariables⟩
      refine ⟨.single step, ?_, by simp [sameSources], by simp [sameMethods]⟩
      simp [OnlyParameters, sameVariables]
    next => exact .of_eq sameRegistry sameSources

/-! ## Methods -/

theorem parameterTypes_spec (closed : members.registry.Closed) (decls : List VariableDecl) :
    (∀ type ∈ (members.parameterTypes decls).1, members.registry.KnowsType type) ∧
      (members.parameterTypes decls).2.registry = members.registry ∧
      (members.parameterTypes decls).2.sources = members.sources := by
  induction decls generalizing members with
  | nil => simp [parameterTypes]
  | cons decl decls ih =>
    rcases typeOr_spec closed .null trivial decl.type decl.position with
      ⟨typeKnown, sameRegistry, sameSources⟩
    rw [parameterTypes]
    generalize members.typeOr .null decl.type decl.position =
      typed at typeKnown sameRegistry sameSources
    rcases typed with ⟨type, typedMembers⟩
    simp only at typeKnown sameRegistry sameSources
    rcases @ih typedMembers (sameRegistry ▸ closed) with ⟨restKnown, restRegistry, restSources⟩
    refine ⟨?_, restRegistry.trans sameRegistry, restSources.trans sameSources⟩
    intro other isType
    rcases List.mem_cons.mp isType with rfl | isRest
    · exact typeKnown
    · exact sameRegistry ▸ restKnown other isRest

theorem overridden?_spec (signature : Registry.MethodSignature) (inherited : Option MethodEntry) :
    (∀ id, (members.overridden? signature inherited).1 = some id → ∃ entry, inherited = some entry ∧
      entry.id = id) ∧
      (members.overridden? signature inherited).2.registry = members.registry ∧
      (members.overridden? signature inherited).2.sources = members.sources := by
  unfold overridden?
  split
  · exact ⟨by simp, rfl, rfl⟩
  · split
    · exact ⟨by simp, rfl, rfl⟩
    · exact ⟨by simp, rfl, rfl⟩

theorem records_addParameter (closed : members.registry.Closed)
    (methodKnown : members.registry.KnowsMethod method)
    (scopeKnown : members.registry.KnowsScope scope) {declared : (VariableDecl × DataType) × Nat}
    (typeKnown : members.registry.KnowsType declared.1.2) :
    Records members (addParameter method scope members declared) [] := by
  rcases declared with ⟨⟨decl, type⟩, rank⟩
  simp only [addParameter]
  split
  next id registry registered =>
    have step := Step.registerVariable scopeKnown typeKnown methodKnown registered
    have larger := (step.larger_and_closed closed).1
    have added : registry.KnowsVariable id ∧ registry.methods = members.registry.methods ∧
        ∃ entry : VariableEntry, entry.isParameter = true ∧
          registry.variableEntries = members.registry.variableEntries.push entry := by
      rcases Registry.variableAdded_of_registerVariable registered with ⟨-, rfl, rfl⟩
      exact ⟨by simp [Registry.KnowsVariable, Registry.variableAdded], rfl, _, rfl, rfl⟩
    rcases added with ⟨variableKnown, sameMethods, entry, isParameter, variablesEq⟩
    have entered :=
      Step.addParameter (Nat.lt_of_lt_of_le methodKnown larger.methods_le) variableKnown
    refine ⟨(Relation.ReflTransGen.single step).tail entered, ?_, by simp, ?_⟩
    · intro before other isEntry
      simp only [Registry.modifyMethod, variablesEq, Array.mem_push] at isEntry
      rcases isEntry with isOld | rfl
      · exact before other isOld
      · exact isParameter
    · simp [Registry.modifyMethod, sameMethods]
  next => exact .of_eq rfl rfl

theorem records_foldl_addParameter (declared : List ((VariableDecl × DataType) × Nat))
    (closed : members.registry.Closed) (methodKnown : members.registry.KnowsMethod method)
    (scopeKnown : members.registry.KnowsScope scope)
    (typesKnown : ∀ parameter ∈ declared, members.registry.KnowsType parameter.1.2) :
    Records members (declared.foldl (addParameter method scope) members) [] := by
  induction declared generalizing members with
  | nil => exact .of_eq rfl rfl
  | cons parameter declared ih =>
    have first :=
      records_addParameter closed methodKnown scopeKnown (typesKnown parameter (by simp))
    have larger := first.run.larger closed
    exact first.trans (ih (first.run.closed closed)
      (Nat.lt_of_lt_of_le methodKnown larger.methods_le)
      (Nat.lt_of_lt_of_le scopeKnown larger.scopes_le)
      fun other isParameter => larger.knowsType (typesKnown other (by simp [isParameter])))

theorem records_enterMethod (closed : members.registry.Closed) {source : MethodSource}
    {signature : Registry.MethodSignature} {replaced : Option MethodId}
    (ownerKnown : members.registry.KnowsClass signature.owner)
    (typesKnown : ∀ type ∈ signature.parameterTypes, members.registry.KnowsType type)
    (returnKnown : members.registry.KnowsType signature.returnType)
    (replacedKnown : ∀ id ∈ replaced, members.registry.KnowsMethod id) :
    ∃ recorded, recorded.Sublist [source] ∧
      Records members (members.enterMethod source signature replaced) recorded := by
  unfold enterMethod
  split
  next => exact ⟨[], by simp, .of_eq rfl rfl⟩
  next id registry registered =>
    have step := Step.registerMethod ownerKnown typesKnown returnKnown registered
    rcases step.larger_and_closed closed with ⟨larger, registeredClosed⟩
    have added : registry.KnowsMethod id ∧ registry.methods.size =
        members.registry.methods.size + 1 ∧
        registry.variableEntries = members.registry.variableEntries := by
      rcases Registry.methodAdded_of_registerMethod ownerKnown registered with ⟨_, -, -, rfl, rfl⟩
      exact ⟨by simp [Registry.KnowsMethod, Registry.methodAdded],
        by simp [Registry.methodAdded], rfl⟩
    rcases added with ⟨idKnown, sizeEq, sameVariables⟩
    have marked : Step registry (registry.modifyMethod id fun entry =>
        { entry with overrides := replaced }) :=
      .setOverrides idKnown fun other isReplaced =>
        Nat.lt_of_lt_of_le (replacedKnown other isReplaced) larger.methods_le
    rcases marked.larger_and_closed registeredClosed with ⟨markedLarger, markedClosed⟩
    dsimp only
    have entered : Records members
        { members with
          registry := registry.modifyMethod id fun entry => { entry with overrides := replaced }
          sources := members.sources.push source
          overrideCount := members.overrideCount + if replaced.isSome then 1 else 0 } [source] := by
      refine ⟨(Relation.ReflTransGen.single step).tail marked, ?_, by simp, ?_⟩
      · simp [OnlyParameters, Registry.modifyMethod, sameVariables]
      · simp [Registry.modifyMethod, sizeEq]
    refine ⟨[source], by simp, ?_⟩
    split
    · exact entered
    next entry found =>
      have entryClosed := markedClosed.methods (Array.mem_of_getElem? found)
      refine entered.trans (records_foldl_addParameter _ markedClosed
        (Nat.lt_of_lt_of_le idKnown markedLarger.methods_le) entryClosed.scope ?_)
      intro parameter isParameter
      have isType := (List.of_mem_zip (List.fst_mem_of_mem_zipIdx isParameter)).2
      exact markedLarger.knowsType (larger.knowsType (typesKnown _ isType))

theorem records_addMethod (closed : members.registry.Closed)
    (known : members.registry.KnowsClass owner) (source : MethodSource) :
    ∃ recorded, recorded.Sublist [source] ∧
      Records members (addMethod owner members source) recorded := by
  unfold addMethod
  dsimp only
  split
  · exact ⟨[], by simp, .of_eq rfl rfl⟩
  next inherited _ =>
    rcases parameterTypes_spec closed source.decl.parameters with
      ⟨typesKnown, typesRegistry, typesSources⟩
    generalize members.parameterTypes source.decl.parameters =
      typed at typesKnown typesRegistry typesSources
    rcases typed with ⟨types, typedMembers⟩
    dsimp only at typesKnown typesRegistry typesSources ⊢
    rcases typeOr_spec (typesRegistry ▸ closed) .void trivial source.decl.returnType
      source.decl.position with
      ⟨returnKnown, returnRegistry, returnSources⟩
    generalize typedMembers.typeOr .void source.decl.returnType source.decl.position = returned
      at returnKnown returnRegistry returnSources
    rcases returned with ⟨returnType, returnMembers⟩
    dsimp only at returnKnown returnRegistry returnSources ⊢
    generalize signatureEq : Registry.MethodSignature.mk owner source.decl.name types returnType
      source.decl.visibility source.decl.isStatic source.decl.position = signature
    rcases @overridden?_spec returnMembers signature
      (inherited.bind returnMembers.registry.methodEntry?) with
      ⟨replacedFound, replacedRegistry, replacedSources⟩
    generalize returnMembers.overridden? signature
      (inherited.bind returnMembers.registry.methodEntry?) = replacing
      at replacedFound replacedRegistry replacedSources
    rcases replacing with ⟨replaced, replacedMembers⟩
    dsimp only at replacedFound replacedRegistry replacedSources ⊢
    have sameRegistry : replacedMembers.registry = members.registry :=
      replacedRegistry.trans (returnRegistry.trans typesRegistry)
    have sameSources : replacedMembers.sources = members.sources :=
      replacedSources.trans (returnSources.trans typesSources)
    rw [typesRegistry] at returnKnown
    rw [returnRegistry, typesRegistry] at replacedFound
    have replacedKnown : ∀ id ∈ replaced, members.registry.KnowsMethod id := by
      intro id isReplaced
      rcases replacedFound id isReplaced with ⟨entry, entryFound, rfl⟩
      rcases Option.bind_eq_some_iff.mp entryFound with ⟨_, _, found⟩
      exact (closed.methods (Array.mem_of_getElem? found)).id
    have entering : ∃ recorded, recorded.Sublist [source] ∧
        Records replacedMembers (replacedMembers.enterMethod source signature replaced)
        recorded := by
      apply records_enterMethod <;> rw [sameRegistry]
      · exact closed
      · exact signatureEq ▸ known
      · exact signatureEq ▸ typesKnown
      · exact signatureEq ▸ returnKnown
      · exact replacedKnown
    rcases entering with ⟨recorded, isSublist, entered⟩
    exact ⟨recorded, isSublist,
      by simpa using (Records.of_eq sameRegistry sameSources).trans entered⟩

/-! ## Vtables -/

theorem run_placeMethod (vtableKnown : ∀ id ∈ vtable, registry.KnowsMethod id) {id : MethodId}
    (known : registry.KnowsMethod id) :
    Run registry (placeMethod (vtable, registry) id).2 ∧
      (∀ other ∈ (placeMethod (vtable, registry) id).1, registry.KnowsMethod other) ∧
        (placeMethod (vtable, registry) id).2.methods.size = registry.methods.size ∧
        (placeMethod (vtable, registry) id).2.variableEntries = registry.variableEntries := by
  have step : ∀ slot, Run registry (registry.modifyMethod id fun entry =>
      { entry with slot := some slot }) :=
    fun _ => .single (.setSlot known)
  simp only [placeMethod]
  split
  · exact ⟨.refl, vtableKnown, rfl, rfl⟩
  · split
    · exact ⟨.refl, vtableKnown, rfl, rfl⟩
    · split
      next slot _ =>
        refine ⟨step slot, ?_, by simp [Registry.modifyMethod], rfl⟩
        intro other isListed
        rcases List.mem_or_eq_of_mem_set isListed with isOld | rfl
        · exact vtableKnown other isOld
        · exact known
      next =>
        refine ⟨step vtable.length, ?_, by simp [Registry.modifyMethod], rfl⟩
        intro other isListed
        rcases List.mem_append.mp isListed with isOld | isNew
        · exact vtableKnown other isOld
        · exact List.mem_singleton.mp isNew ▸ known

theorem run_foldl_placeMethod (methods : List MethodId)
    (closed : registry.Closed) (vtableKnown : ∀ id ∈ vtable, registry.KnowsMethod id)
    (known : ∀ id ∈ methods, registry.KnowsMethod id) :
    Run registry (methods.foldl placeMethod (vtable, registry)).2 ∧
      (∀ other ∈ (methods.foldl placeMethod (vtable, registry)).1, registry.KnowsMethod other) ∧
        (methods.foldl placeMethod (vtable, registry)).2.methods.size = registry.methods.size ∧
        (methods.foldl placeMethod (vtable, registry)).2.variableEntries =
          registry.variableEntries := by
  induction methods generalizing registry vtable with
  | nil => exact ⟨.refl, vtableKnown, rfl, rfl⟩
  | cons id methods ih =>
    rcases run_placeMethod vtableKnown (known id (by simp)) with
      ⟨run, listed, sameSize, sameVariables⟩
    rw [List.foldl_cons]
    generalize placeMethod (vtable, registry) id = state at run listed sameSize sameVariables
    rcases state with ⟨nextVtable, next⟩
    dsimp only at run listed sameSize sameVariables
    have sameKnown : ∀ other, next.KnowsMethod other ↔ registry.KnowsMethod other := by
      simp [Registry.KnowsMethod, sameSize]
    rcases ih (run.closed closed) (by simpa only [sameKnown] using listed)
      (fun other isOther => (sameKnown other).mpr (known other (by simp [isOther]))) with
      ⟨restRun, restListed, restSize, restVariables⟩
    exact ⟨run.trans restRun, by simpa only [sameKnown] using restListed, restSize.trans sameSize,
      restVariables.trans sameVariables⟩

theorem records_buildVtable (closed : members.registry.Closed)
    (known : members.registry.KnowsClass owner) :
    Records members { members with registry := buildVtable members.registry owner } [] := by
  rcases Registry.exists_classEntry known with ⟨entry, found⟩
  have entryClosed := closed.classes (Array.mem_of_getElem? found)
  have inheritedKnown : ∀ id ∈ inheritedVtable members.registry owner,
      members.registry.KnowsMethod id := by
    intro id isListed
    unfold inheritedVtable at isListed
    cases parentFound : (members.registry.parent? owner).bind members.registry.classEntry? with
    | none => simp [parentFound] at isListed
    | some parent =>
      rcases Option.bind_eq_some_iff.mp parentFound with ⟨_, _, parentEntry⟩
      exact (closed.classes (Array.mem_of_getElem? parentEntry)).vtable
        (by simpa [parentFound] using isListed)
  rcases run_foldl_placeMethod entry.methods closed inheritedKnown
    (fun id isMethod => entryClosed.methods isMethod) with ⟨run, listed, sameSize, sameVariables⟩
  have larger := run.larger closed
  have last : Step (entry.methods.foldl placeMethod (inheritedVtable members.registry owner,
      members.registry)).2 (buildVtable members.registry owner) := by
    simp only [buildVtable, found]
    exact .setVtable (Nat.lt_of_lt_of_le known larger.classes_le)
      fun id isListed => Nat.lt_of_lt_of_le (listed id isListed) larger.methods_le
  refine ⟨run.tail last, ?_, by simp, ?_⟩
  · simp [OnlyParameters, buildVtable, found, Registry.modifyClass, sameVariables]
  · simp [buildVtable, found, Registry.modifyClass, sameSize]

/-! ## Classes -/

theorem records_foldl {Item : Type} {step : Members → Item → Members} {needs : Item → ClassId}
    {recordable : Item → List MethodSource}
    (records : ∀ item members, members.registry.Closed → members.registry.KnowsClass (needs item) →
      ∃ recorded, recorded.Sublist (recordable item) ∧ Records members (step members item) recorded)
    (items : List Item) {members : Members} (closed : members.registry.Closed)
    (known : ∀ item ∈ items, members.registry.KnowsClass (needs item)) :
    ∃ recorded, recorded.Sublist (items.flatMap recordable) ∧
      Records members (items.foldl step members) recorded := by
  induction items generalizing members with
  | nil => exact ⟨[], by simp, .of_eq rfl rfl⟩
  | cons item items ih =>
    rcases records item members closed (known item (by simp)) with ⟨recorded, isSublist, first⟩
    have larger := first.run.larger closed
    have restKnown : ∀ other ∈ items, (step members item).registry.KnowsClass (needs other) :=
      fun other isItem => Nat.lt_of_lt_of_le (known other (by simp [isItem])) larger.classes_le
    rcases ih (first.run.closed closed) restKnown with ⟨more, moreSublist, rest⟩
    exact ⟨recorded ++ more, by simpa using isSublist.append moreSublist, first.trans rest⟩

theorem records_addClass (closed : members.registry.Closed)
    (known : members.registry.KnowsClass owner) (classIndex : Nat) (decl : ClassDecl) :
    ∃ recorded, recorded.Sublist (sourcesOf classIndex decl) ∧
      Records members (addClass members owner classIndex decl) recorded := by
  have fieldStep : ∀ (field : FieldDecl) (members : Members), members.registry.Closed →
      members.registry.KnowsClass owner → ∃ recorded, recorded.Sublist [] ∧
        Records members (addField owner members field) recorded :=
    fun field members closed known => ⟨[], by simp, records_addField closed known field⟩
  have methodStep : ∀ (source : MethodSource) (members : Members), members.registry.Closed →
      members.registry.KnowsClass owner → ∃ recorded, recorded.Sublist [source] ∧
        Records members (addMethod owner members source) recorded :=
    fun source members closed known => records_addMethod closed known source
  rcases records_foldl fieldStep decl.fields closed (fun _ _ => known) with
    ⟨none, noneSublist, first⟩
  have noneEq : none = [] := by
    rwa [List.flatMap_eq_nil_iff.mpr (by simp), List.sublist_nil] at noneSublist
  subst noneEq
  have larger := first.run.larger closed
  have firstClosed := first.run.closed closed
  rcases records_foldl methodStep (sourcesOf classIndex decl) firstClosed
    (fun _ _ => Nat.lt_of_lt_of_le known larger.classes_le) with ⟨recorded, isSublist, second⟩
  have moreLarger := second.run.larger firstClosed
  have last := records_buildVtable (second.run.closed firstClosed)
    (Nat.lt_of_lt_of_le (Nat.lt_of_lt_of_le known larger.classes_le) moreLarger.classes_le)
  exact ⟨recorded, by simpa using isSublist,
    by simpa [addClass] using (first.trans second).trans last⟩

/-- The methods declared in the class with a given number, with their places. -/
def declaredSources (classes : List ClassDecl) (hierarchy : Hierarchy) (id : ClassId) :
    List MethodSource :=
  match hierarchy.declarationOf? id with
  | none => []
  | some index => ((classes[index]?).map (sourcesOf index)).getD []

theorem records_addClassById (classes : List ClassDecl) (hierarchy : Hierarchy)
    (closed : members.registry.Closed) (known : members.registry.KnowsClass owner) :
    ∃ recorded, recorded.Sublist (declaredSources classes hierarchy owner) ∧
      Records members (addClassById classes hierarchy members owner) recorded := by
  unfold addClassById declaredSources
  cases hierarchy.declarationOf? owner with
  | none => exact ⟨[], by simp, .of_eq rfl rfl⟩
  | some index =>
    cases declEq : classes[index]? with
    | none => exact ⟨[], by simp, by simpa [declEq] using Records.of_eq rfl rfl⟩
    | some decl => simpa [declEq] using records_addClass closed known index decl

/-- Whatever its faults, registering the members of a program keeps all numbers in range, and the
methods on record are declared ones. -/
theorem recorded_ofHierarchy (classes : List ClassDecl) :
    Run (Hierarchy.ofClasses classes).registry
        (ofHierarchy classes (Hierarchy.ofClasses classes)).registry ∧
      OnlyParameters (ofHierarchy classes (Hierarchy.ofClasses classes)).registry ∧
      (ofHierarchy classes (Hierarchy.ofClasses classes)).registry.methods.size =
        (ofHierarchy classes (Hierarchy.ofClasses classes)).sources.size ∧
      (ofHierarchy classes (Hierarchy.ofClasses classes)).sources.toList.Sublist
        ((Hierarchy.ofClasses classes).order.flatMap
          (declaredSources classes (Hierarchy.ofClasses classes))) := by
  have settled := Hierarchy.settled_ofClasses classes
  have inRange := Hierarchy.inRange_ofClasses classes
  generalize Hierarchy.ofClasses classes = hierarchy at settled inRange ⊢
  have known : ∀ id ∈ hierarchy.order, hierarchy.registry.KnowsClass id := by
    intro id isOrdered
    have inRange := Inheritance.mem_classIds.mp (settled.perm.mem_iff.mp isOrdered)
    rwa [Registry.size_inheritance] at inRange
  have classStep : ∀ (id : ClassId) (members : Members), members.registry.Closed →
      members.registry.KnowsClass id → ∃ recorded,
      recorded.Sublist (declaredSources classes hierarchy id) ∧
        Records members (addClassById classes hierarchy members id) recorded :=
    fun id members closed known => records_addClassById classes hierarchy closed known
  have startClosed : ({ registry := hierarchy.registry } : Members).registry.Closed :=
    inRange.closed
  rcases records_foldl classStep hierarchy.order startClosed known with
    ⟨recorded, isSublist, records⟩
  have noVariables : OnlyParameters hierarchy.registry := by
    simp [OnlyParameters, settled.bare.noVariables]
  refine ⟨records.run, records.parameters noVariables, ?_, ?_⟩
  · have sizeEq := records.methods_eq
    have lengthEq := congrArg List.length records.sources_eq
    simp only [settled.bare.noMethods, List.size_toArray, List.length_nil, Array.length_toList,
      List.length_append] at sizeEq lengthEq
    exact sizeEq.trans (lengthEq.symm)
  · have sourcesEq := records.sources_eq
    simp only [List.nil_append] at sourcesEq
    exact sourcesEq ▸ isSublist

end Members

end Decaf
