import Mathlib.Data.List.Induction
import Decaf.Proofs.Members.Registration

/-!
# What a class adds to the registry

The members of a class are accepted one after the other. A member without a complaint adds one entry
that says what its declaration says, and there is no complaint about it exactly if its name is new
to the class, what it inherits under that name fits, and its types are known.
-/

namespace Decaf

/-! ## Entries without their numbers -/

/-- What the registry holds about a field. -/
structure FieldRecord where
  owner : ClassId
  name : String
  type : Option DataType
  visibility : Visibility
  isStatic : Bool
  position : Position

/-- What the registry holds about a method. -/
structure MethodRecord where
  owner : ClassId
  name : String
  parameterTypes : List (Option DataType)
  returnType : Option DataType
  visibility : Visibility
  isStatic : Bool
  position : Position
  overrides : Option MethodId

/-- An entry without its number. -/
def FieldEntry.record (entry : FieldEntry) : FieldRecord where
  owner := entry.owner
  name := entry.name
  type := some entry.type
  visibility := entry.visibility
  isStatic := entry.isStatic
  position := entry.position

/-- An entry without its number, scope, parameters and slot. -/
def MethodEntry.record (entry : MethodEntry) : MethodRecord where
  owner := entry.owner
  name := entry.name
  parameterTypes := entry.parameterTypes.map some
  returnType := some entry.returnType
  visibility := entry.visibility
  isStatic := entry.isStatic
  position := entry.position
  overrides := entry.overrides

/-- The method that a class inherits under a name. -/
def Registry.inheritedMethod? (registry : Registry) (owner : ClassId) (name : String) :
    Option MethodId :=
  (registry.parent? owner).bind fun parent => registry.findMethod? parent name

/-- What the registry is to hold about a declared field. -/
def FieldDecl.record (registry : Registry) (owner : ClassId) (decl : FieldDecl) : FieldRecord where
  owner := owner
  name := decl.name
  type := registry.resolveType? decl.type
  visibility := decl.visibility
  isStatic := decl.isStatic
  position := decl.position

/-- What the registry is to hold about a declared method. -/
def MethodDecl.record (registry : Registry) (owner : ClassId) (decl : MethodDecl) :
    MethodRecord where
  owner := owner
  name := decl.name
  parameterTypes := decl.parameters.map fun parameter => registry.resolveType? parameter.type
  returnType := registry.resolveType? decl.returnType
  visibility := decl.visibility
  isStatic := decl.isStatic
  position := decl.position
  overrides := registry.inheritedMethod? owner decl.name

namespace Registry

/-- A class knows just the names on record for it. -/
theorem ownMember?_eq_none {registry : Registry} (wellFormed : registry.WellFormed)
    {owner : ClassId} {name : String} :
    registry.ownMember? owner name = none ↔
      (∀ record ∈ registry.fields.toList.map FieldEntry.record, record.owner = owner →
        record.name ≠ name) ∧
        ∀ record ∈ registry.methods.toList.map MethodEntry.record, record.owner = owner →
        record.name ≠ name := by
  rw [Option.eq_none_iff_forall_ne_some]
  simp only [ne_eq, wellFormed.own_iff, List.mem_map, Array.mem_toList_iff]
  constructor
  · intro undeclared
    constructor
    · rintro _ ⟨entry, isEntry, rfl⟩ owned named
      rcases Array.mem_iff_getElem?.mp isEntry with ⟨place, found⟩
      exact undeclared (.ofField ⟨place⟩) ⟨entry, found, owned, named⟩
    · rintro _ ⟨entry, isEntry, rfl⟩ owned named
      rcases Array.mem_iff_getElem?.mp isEntry with ⟨place, found⟩
      exact undeclared (.ofMethod ⟨place⟩) ⟨entry, found, owned, named⟩
  · rintro ⟨noField, noMethod⟩ symbol declares
    cases symbol with
    | ofField id =>
      rcases declares with ⟨entry, found, owned, named⟩
      exact noField entry.record ⟨entry, Array.mem_of_getElem? found, rfl⟩ owned named
    | ofMethod id =>
      rcases declares with ⟨entry, found, owned, named⟩
      exact noMethod entry.record ⟨entry, Array.mem_of_getElem? found, rfl⟩ owned named
    | ofClass | ofVariable => exact declares

/-- A registry has some entries more than another one. -/
structure Adds (before : Registry) (fields : List FieldRecord) (methods : List MethodRecord)
    (after : Registry) : Prop where
  names_eq : ∀ id, (after.classEntry? id).map ClassEntry.name =
    (before.classEntry? id).map ClassEntry.name
  fields_eq : after.fields.toList.map FieldEntry.record =
    before.fields.toList.map FieldEntry.record ++ fields
  methods_eq : after.methods.toList.map MethodEntry.record =
    before.methods.toList.map MethodEntry.record ++ methods

namespace Adds

variable {registry before after final : Registry} {fields moreFields : List FieldRecord}
  {methods moreMethods : List MethodRecord}

theorem refl (registry : Registry) : Adds registry [] [] registry :=
  ⟨fun _ => rfl, by simp, by simp⟩

theorem trans (early : Adds before fields methods after)
    (late : Adds after moreFields moreMethods final) :
    Adds before (fields ++ moreFields) (methods ++ moreMethods) final where
  names_eq id := (late.names_eq id).trans (early.names_eq id)
  fields_eq := by rw [late.fields_eq, early.fields_eq, List.append_assoc]
  methods_eq := by rw [late.methods_eq, early.methods_eq, List.append_assoc]

theorem fieldAdded (scope : ScopeId) (entry : FieldEntry) :
    Adds registry [entry.record] [] (registry.fieldAdded scope entry) where
  names_eq := map_classEntry?_fieldAdded ClassEntry.name (fun _ _ => rfl) scope entry
  fields_eq := by simp [Registry.fieldAdded]
  methods_eq := by simp [Registry.fieldAdded, modifyClass]

theorem methodAdded (scope : ScopeId) (entry : MethodEntry) :
    Adds registry [] [entry.record] (registry.methodAdded scope entry) where
  names_eq := map_classEntry?_methodAdded ClassEntry.name (fun _ _ => rfl) scope entry
  fields_eq := by simp [Registry.methodAdded, modifyClass]
  methods_eq := by simp [Registry.methodAdded]

theorem variableAdded (scope : ScopeId) (entry : VariableEntry) :
    Adds registry [] [] (registry.variableAdded scope entry) :=
  ⟨fun _ => rfl, by simp [Registry.variableAdded], by simp [Registry.variableAdded]⟩

theorem modifyMethod (id : MethodId) {change : MethodEntry → MethodEntry}
    (sameRecord : ∀ entry, (change entry).record = entry.record) :
    Adds registry [] [] (registry.modifyMethod id change) where
  names_eq _ := rfl
  fields_eq := by simp [Registry.modifyMethod]
  methods_eq := by
    have sameRecords := @map_filter_modify _ _ change (fun _ => true) _ (fun _ => rfl) sameRecord
      registry.methods.toList id.index
    simpa [Registry.modifyMethod] using sameRecords

theorem modifyClass (id : ClassId) {change : ClassEntry → ClassEntry}
    (sameName : ∀ entry, (change entry).name = entry.name) :
    Adds registry [] [] (registry.modifyClass id change) where
  names_eq := map_classEntry?_modifyClass ClassEntry.name sameName
  fields_eq := by simp [Registry.modifyClass]
  methods_eq := by simp [Registry.modifyClass]

/-- Types stand for the same as long as the classes have the same names. -/
theorem resolveType?_eq (adds : Adds before fields methods after) (wellFormed : before.WellFormed)
    (laterWellFormed : after.WellFormed) : after.resolveType? = before.resolveType? := by
  funext written
  cases written with
  | primitive => rfl
  | named name =>
    refine congrArg (Option.map DataType.object) (Option.ext fun id => ?_)
    rw [classNamed?_eq_some laterWellFormed, classNamed?_eq_some wellFormed, adds.names_eq]

/-- The names that a class without members knows are those of the members it has got. -/
theorem ownMember?_eq_none (adds : Adds before fields methods after) {owner : ClassId}
    (wellFormed : before.WellFormed) (laterWellFormed : after.WellFormed)
    (isBare : ∀ name, before.ownMember? owner name = none)
    (fieldsOwned : ∀ record ∈ fields, record.owner = owner)
    (methodsOwned : ∀ record ∈ methods, record.owner = owner) {name : String} :
    after.ownMember? owner name = none ↔
      name ∉ fields.map FieldRecord.name ++ methods.map MethodRecord.name := by
  have noneBefore := (Registry.ownMember?_eq_none wellFormed).mp (isBare name)
  rw [Registry.ownMember?_eq_none laterWellFormed, adds.fields_eq, adds.methods_eq]
  constructor
  · rintro ⟨noField, noMethod⟩ named
    rcases List.mem_append.mp named with isField | isMethod
    · rcases List.mem_map.mp isField with ⟨record, isRecord, rfl⟩
      exact noField record (List.mem_append_right _ isRecord) (fieldsOwned record isRecord) rfl
    · rcases List.mem_map.mp isMethod with ⟨record, isRecord, rfl⟩
      exact noMethod record (List.mem_append_right _ isRecord) (methodsOwned record isRecord) rfl
  · intro isNew
    constructor
    · intro record isRecord owned named
      rcases List.mem_append.mp isRecord with isOld | isAdded
      · exact noneBefore.1 record isOld owned named
      · exact isNew (List.mem_append_left _ (List.mem_map.mpr ⟨record, isAdded, named⟩))
    · intro record isRecord owned named
      rcases List.mem_append.mp isRecord with isOld | isAdded
      · exact noneBefore.2 record isOld owned named
      · exact isNew (List.mem_append_right _ (List.mem_map.mpr ⟨record, isAdded, named⟩))

end Adds

end Registry

namespace Members

open Registry (Adds ChangesOnly)

variable {members : Members} {owner : ClassId} {base : Registry}
variable {Item Name : Type} {placeholder : DataType} {written : TypeName} {registry : Registry}
  {decl : FieldDecl} {found : ClassEntry} {scope : ScopeId} {signature : Registry.MethodSignature}
  {source : MethodSource} {decls : List VariableDecl} {types : List DataType}
  {inherited : Option MethodId}

/-! ## Complaints -/

/-- A list is worked off without complaints exactly if each item is fine behind the items in front
of it. -/
theorem foldl_errorFree_iff {step : Members → Item → Members} {Holds : List Item → Members → Prop}
    {Fine : List Item → Item → Prop}
    (grows : ∀ members item, members.diagnostics <+: (step members item).diagnostics)
    (errorFree_iff : ∀ {done members} item,
      Holds done members → ((step members item).diagnostics = [] ↔ Fine done item))
    (keeps : ∀ {done members} item, Holds done members → (step members item).diagnostics = [] →
      Holds (done ++ [item]) (step members item))
    (items : List Item) {start : Members} (holds : Holds [] start)
      (silent : start.diagnostics = []) :
    ((items.foldl step start).diagnostics = [] ↔ ∀ front item rest, items = front ++ item :: rest →
      Fine front item) ∧
      ((items.foldl step start).diagnostics = [] → Holds items (items.foldl step start)) := by
  induction items using List.reverseRecOn with
  | nil => exact ⟨by simp [silent], fun _ => holds⟩
  | append_singleton items last ih =>
    rw [List.foldl_append, List.foldl_cons, List.foldl_nil]
    have firstFree := errorFree_of_grows (grows (items.foldl step start) last)
    refine ⟨⟨fun errorFree front item rest itemsEq => ?_, fun allFine => ?_⟩, fun errorFree => ?_⟩
    · rcases List.eq_nil_or_concat rest with rfl | ⟨later, other, rfl⟩
      · obtain ⟨rfl, rfl⟩ : items = front ∧ last = item := by simpa using itemsEq
        exact (errorFree_iff last (ih.2 (firstFree errorFree))).mp errorFree
      · refine ih.1.mp (firstFree errorFree) front item later ?_
        rw [List.concat_eq_append, ← List.cons_append, ← List.append_assoc] at itemsEq
        exact (List.append_inj' itemsEq rfl).1
    · have earlierFree := ih.1.mpr fun front item rest itemsEq =>
        allFine front item (rest ++ [last]) (by simp [itemsEq])
      exact (errorFree_iff last (ih.2 earlierFree)).mpr (allFine items last [] rfl)
    · exact keeps last (ih.2 (firstFree errorFree)) errorFree

theorem nodup_map_iff {name : Item → Name} {items : List Item} :
    (items.map name).Nodup ↔ ∀ front item rest, items = front ++ item :: rest →
      name item ∉ front.map name := by
  constructor
  · rintro nodup front item rest rfl isEarlier
    rw [List.map_append, List.nodup_append] at nodup
    exact nodup.2.2 _ isEarlier _ (by simp) rfl
  · intro isNew
    induction items using List.reverseRecOn with
    | nil => exact List.nodup_nil
    | append_singleton items last ih =>
      have earlierNew := ih fun front item rest itemsEq =>
        isNew front item (rest ++ [last]) (by simp [itemsEq])
      rw [List.map_append, List.nodup_append]
      refine ⟨earlierNew, List.nodup_singleton _, ?_⟩
      rintro named isEarlier _ isLast rfl
      exact isNew items last [] rfl (List.mem_singleton.mp isLast ▸ isEarlier)

theorem nodup_and_forall_iff {name : Item → Name} {Good : Item → Prop} {items : List Item} :
    ((items.map name).Nodup ∧ ∀ item ∈ items, Good item) ↔
      ∀ front item rest, items = front ++ item :: rest → name item ∉ front.map name ∧
        Good item := by
  rw [nodup_map_iff]
  constructor
  · rintro ⟨isNew, allGood⟩ front item rest itemsEq
    exact ⟨isNew front item rest itemsEq, allGood item (by simp [itemsEq])⟩
  · intro each
    refine ⟨fun front item rest itemsEq => (each front item rest itemsEq).1, fun item isThere => ?_⟩
    rcases List.append_of_mem isThere with ⟨front, rest, itemsEq⟩
    exact (each front item rest itemsEq).2

theorem typeOr_errorFree_iff {position : Position} :
    (members.typeOr placeholder written position).2.diagnostics = [] ↔
      members.diagnostics = [] ∧ (members.registry.resolveType? written).isSome := by
  rw [typeOr]
  split <;> simp_all [report]

theorem fieldConflict?_eq_none_iff {name : String} :
    fieldConflict? registry owner name = none ↔
      registry.ownMember? owner name = none ∧ registry.findInherited? owner name = none := by
  refine ⟨fieldConflict?_eq_none, fun ⟨isNew, notInherited⟩ => ?_⟩
  simp [fieldConflict?, isNew, notInherited]

/-! ## Fields -/

theorem addField_errorFree_iff : (addField owner members decl).diagnostics = [] ↔
    members.diagnostics = [] ∧ members.registry.ownMember? owner decl.name = none ∧
      members.registry.findInherited? owner decl.name = none ∧
      (members.registry.resolveType? decl.type).isSome := by
  rw [addField]
  cases conflict : fieldConflict? members.registry owner decl.name with
  | some cause =>
    refine iff_of_false (by simp [report]) ?_
    rintro ⟨-, isNew, notInherited, -⟩
    simp [fieldConflict?_eq_none_iff.mpr ⟨isNew, notInherited⟩] at conflict
  | none =>
    rcases fieldConflict?_eq_none conflict with ⟨isNew, notInherited⟩
    have typedFree := @typeOr_errorFree_iff members .null decl.type decl.position
    generalize members.typeOr .null decl.type decl.position = typed at typedFree ⊢
    simp only [isNew, notInherited, true_and, ← typedFree]
    split <;> rfl

/-- A field about which there is no complaint is registered in its class. -/
theorem addField_of_errorFree (ownerFound : members.registry.classEntry? owner = some found)
    (errorFree : (addField owner members decl).diagnostics = []) :
    ∃ type, members.registry.resolveType? decl.type = some type ∧
      addField owner members decl =
        { members with
          registry :=
  members.registry.fieldAdded found.scope ⟨⟨members.registry.fields.size⟩, decl.name, type, owner,
            decl.visibility, decl.isStatic, decl.position⟩
          fieldCount := members.fieldCount + 1 } := by
  rcases addField_errorFree_iff.mp errorFree with ⟨-, isNew, notInherited, isType⟩
  rcases Option.isSome_iff_exists.mp isType with ⟨type, typeEq⟩
  refine ⟨type, typeEq, ?_⟩
  rw [addField, fieldConflict?_eq_none_iff.mpr ⟨isNew, notInherited⟩]
  simp only [typeOr, typeEq, Registry.registerField_eq _ _ _ _ _ ownerFound, isNew]

theorem adds_addField (building : Building base owner members.registry)
    (known : owner.index < base.classCount)
    (errorFree : (addField owner members decl).diagnostics = []) :
    Adds members.registry [decl.record members.registry owner] []
      (addField owner members decl).registry := by
  rcases building.exists_owner known with ⟨found, ownerFound⟩
  rcases addField_of_errorFree ownerFound errorFree with ⟨type, typeEq, added⟩
  have recordEq : decl.record members.registry owner =
      FieldEntry.record ⟨⟨members.registry.fields.size⟩, decl.name, type, owner, decl.visibility,
        decl.isStatic, decl.position⟩ := by
    simp [FieldDecl.record, FieldEntry.record, typeEq]
  rw [added, recordEq]
  exact .fieldAdded _ _

/-! ## Parameters -/

/-- The parameters that are registered in the scope of a method so far. -/
structure ParametersAdded (start : Registry) (scope : ScopeId)
    (done : List ((VariableDecl × DataType) × Nat)) (members : Members) : Prop where
  silent : members.diagnostics = []
  scope_known : (members.registry.scopes.get? scope).isSome
  declared_iff : ∀ name, members.registry.scopes.declared? scope name = none ↔
    name ∉ done.map fun declared => declared.1.1.name
  adds : Adds start [] [] members.registry

theorem parametersAdded_addParameter {start : Registry} {method : MethodId}
    {done : List ((VariableDecl × DataType) × Nat)} (declared : (VariableDecl × DataType) × Nat)
    (added : ParametersAdded start scope done members) :
    ((addParameter method scope members declared).diagnostics = [] ↔
      declared.1.1.name ∉ done.map fun declared => declared.1.1.name) ∧
      ((addParameter method scope members declared).diagnostics = [] →
        ParametersAdded start scope (done ++ [declared])
          (addParameter method scope members declared)) := by
  rcases declared with ⟨⟨decl, type⟩, rank⟩
  simp only [addParameter, Registry.registerVariable_eq, ← added.declared_iff]
  cases declaredEq : members.registry.scopes.declared? scope decl.name with
  | some existing => simp [report]
  | none =>
    dsimp only
    refine ⟨by simp [added.silent], fun _ => ⟨added.silent, ?_, ?_, ?_⟩⟩
    · simp [Registry.variableAdded, Registry.modifyMethod, ScopeTree.get?_extended,
        added.scope_known]
    · intro name
      change (members.registry.scopes.extended scope decl.name _).declared? scope name = none ↔ _
      rw [ScopeTree.declared?_extended, Option.or_eq_none_iff, added.declared_iff]
      simp [added.scope_known, eq_comm]
    · refine (added.adds.trans (.variableAdded _ _)).trans (.modifyMethod _ fun _ => rfl)

theorem zipIdx_zip_names (decls : List VariableDecl) (types : List DataType)
    (sameLength : types.length = decls.length) :
    ((decls.zip types).zipIdx.map fun declared => declared.1.1.name) =
      decls.map VariableDecl.name := by
  calc (decls.zip types).zipIdx.map (fun declared => declared.1.1.name)
      = (((decls.zip types).zipIdx.map Prod.fst).map Prod.fst).map VariableDecl.name := by
        rw [List.map_map, List.map_map]
        rfl
    _ = decls.map VariableDecl.name := by
        rw [List.zipIdx_map_fst, List.map_fst_zip (Nat.le_of_eq sameLength.symm)]

/-- The registry once a method is on record and linked to the one that it replaces. -/
def linkedMethod (registry : Registry) (scope : ScopeId) (signature : Registry.MethodSignature)
    (replaced : Option MethodId) : Registry :=
  (registry.methodAdded scope (registry.nextMethod signature)).modifyMethod ⟨registry.methods.size⟩
    fun entry => { entry with overrides := replaced }

theorem modify_concat {Entry : Type} (entries : List Entry) (last : Entry)
    (change : Entry → Entry) :
    (entries ++ [last]).modify entries.length change = entries ++ [change last] := by
  induction entries with
  | nil => rfl
  | cons entry entries ih => simpa using ih

theorem adds_linkedMethod (scope : ScopeId) (signature : Registry.MethodSignature)
    (replaced : Option MethodId) :
    Adds registry [] [(enteredMethod registry signature replaced).record]
      (linkedMethod registry scope signature replaced) where
  names_eq := (Adds.methodAdded scope (registry.nextMethod signature)).names_eq
  fields_eq := (Adds.methodAdded scope (registry.nextMethod signature)).fields_eq
  methods_eq := by
    have changed := modify_concat registry.methods.toList (registry.nextMethod signature)
      fun entry => { entry with overrides := replaced }
    simp only [linkedMethod, Registry.modifyMethod, Registry.methodAdded, Array.toList_modify,
      Array.toList_push, ← Array.length_toList, changed, List.map_append, List.map_singleton,
      enteredMethod]

theorem parametersAdded_start {replaced : Option MethodId} (silent : members.diagnostics = [])
    (sameRegistry : members.registry = linkedMethod base scope signature replaced) :
    ParametersAdded members.registry ⟨base.scopes.size⟩ [] members := by
  refine ⟨silent, ?_, fun name => ?_, .refl _⟩
  · simp [sameRegistry, linkedMethod, Registry.modifyMethod, Registry.methodAdded,
      ScopeTree.get?_push]
  · simp [sameRegistry, linkedMethod, Registry.modifyMethod, Registry.methodAdded,
      ScopeTree.declared?, ScopeTree.get?_push, Scope.get?]

/-- A method whose name is new is entered without complaints if its parameters have different
names. -/
theorem enterMethod_spec (known : members.registry.classEntry? signature.owner = some found)
    (fresh : members.registry.ownMember? signature.owner signature.name = none)
    (replaced : Option MethodId)
    (sameLength : signature.parameterTypes.length = source.decl.parameters.length)
    (silent : members.diagnostics = []) :
    ((members.enterMethod source signature replaced).diagnostics = [] ↔
      (source.decl.parameters.map VariableDecl.name).Nodup) ∧
      ((members.enterMethod source signature replaced).diagnostics = [] →
        Adds members.registry [] [(enteredMethod members.registry signature replaced).record]
          (members.enterMethod source signature replaced).registry) := by
  rw [enterMethod_eq known fresh]
  generalize linkedEq : Members.mk (linkedMethod members.registry found.scope signature replaced)
    (members.sources.push source) members.fieldCount
    (members.overrideCount + if replaced.isSome then 1 else 0)
      members.diagnostics = linked
  have sameRegistry : linked.registry = linkedMethod members.registry found.scope
      signature replaced := by
    rw [← linkedEq]
  have linkedSilent : linked.diagnostics = [] := by rw [← linkedEq, silent]
  have added :=
    @foldl_errorFree_iff _ (addParameter ⟨members.registry.methods.size⟩
      ⟨members.registry.scopes.size⟩)
    (ParametersAdded linked.registry ⟨members.registry.scopes.size⟩)
    (fun done declared => declared.1.1.name ∉ done.map fun declared => declared.1.1.name)
    (addParameter_grows _ _) (fun declared inside =>
      (parametersAdded_addParameter declared inside).1)
    (fun declared inside => (parametersAdded_addParameter declared inside).2)
    (source.decl.parameters.zip signature.parameterTypes).zipIdx _
      (parametersAdded_start linkedSilent sameRegistry)
    linkedSilent
  rw [← nodup_map_iff, zipIdx_zip_names _ _ sameLength] at added
  subst linkedEq
  refine ⟨added.1, fun errorFree => ?_⟩
  exact (adds_linkedMethod found.scope signature replaced).trans (added.2 errorFree).adds

/-! ## Methods -/

/-- A declared method can take the place of what its class inherits under its name. -/
structure MethodFits (registry : Registry) (owner : ClassId) (decl : MethodDecl) : Prop where
  parameters_known : ∀ parameter ∈ decl.parameters, (registry.resolveType? parameter.type).isSome
  result_known : (registry.resolveType? decl.returnType).isSome
  parameters_differ : (decl.parameters.map VariableDecl.name).Nodup
  inherited_agrees : ∀ symbol, registry.findInherited? owner decl.name = some symbol →
    ∃ id entry, symbol = .ofMethod id ∧ registry.methodEntry? id = some entry ∧
    decl.isStatic = entry.isStatic ∧
    (decl.parameters.map fun parameter => registry.resolveType? parameter.type) =
      entry.parameterTypes.map some ∧
    registry.resolveType? decl.returnType = some entry.returnType

theorem parameterTypes_known_of_errorFree
    (errorFree : (members.parameterTypes decls).2.diagnostics = []) :
    ∀ decl ∈ decls, (members.registry.resolveType? decl.type).isSome := by
  induction decls generalizing members with
  | nil => simp
  | cons decl rest ih =>
    have restFree : ((members.typeOr .null decl.type decl.position).2.parameterTypes
        rest).2.diagnostics = [] := errorFree
    have typeFree := errorFree_of_grows (parameterTypes_grows _ _) restFree
    rw [typeOr_of_errorFree typeFree] at restFree
    intro other isThere
    rcases List.mem_cons.mp isThere with rfl | isLater
    · exact (typeOr_errorFree_iff.mp typeFree).2
    · exact ih restFree other isLater

theorem typeOr_of_known {type : DataType} {position : Position}
    (known : members.registry.resolveType? written = some type) :
    members.typeOr placeholder written position = (type, members) := by
  simp [typeOr, known]

theorem parameterTypes_of_known
    (known : ∀ decl ∈ decls, (members.registry.resolveType? decl.type).isSome) :
    ∃ types, (decls.map fun decl => members.registry.resolveType? decl.type) = types.map some ∧
      members.parameterTypes decls = (types, members) := by
  induction decls with
  | nil => exact ⟨[], rfl, rfl⟩
  | cons decl rest ih =>
    rcases Option.isSome_iff_exists.mp (known decl (by simp)) with ⟨type, typeEq⟩
    rcases ih fun other isLater => known other (by simp [isLater]) with ⟨types, typesEq, restEq⟩
    exact ⟨type :: types, by simp [typeEq, typesEq],
      by simp [parameterTypes, typeOr_of_known typeEq, restEq]⟩

/-- With known types a method is compared to the one that it replaces, and entered. -/
theorem addMethod_of_known {type : DataType}
    (inheritedEq : inheritedMethod members.registry owner source.decl.name = .ok inherited)
    (typesEq : members.parameterTypes source.decl.parameters = (types, members))
    (typeEq : members.registry.resolveType? source.decl.returnType = some type) :
    addMethod owner members source =
      let signature : Registry.MethodSignature :=
  ⟨owner, source.decl.name, types, type, source.decl.visibility,
        source.decl.isStatic, source.decl.position⟩
      let replaced := members.overridden? signature (inherited.bind members.registry.methodEntry?)
      replaced.2.enterMethod source signature replaced.1 := by
  simp only [addMethod, inheritedEq, typesEq, typeOr_of_known typeEq]

theorem known_of_errorFree (errorFree : (addMethod owner members source).diagnostics = []) :
    (∃ inherited, inheritedMethod members.registry owner source.decl.name = .ok inherited) ∧
      (∀ parameter ∈ source.decl.parameters,
        (members.registry.resolveType? parameter.type).isSome) ∧
      (members.registry.resolveType? source.decl.returnType).isSome := by
  rw [addMethod] at errorFree
  dsimp only at errorFree
  split at errorFree
  · simp [report] at errorFree
  next inherited inheritedEq =>
    have overriddenFree := errorFree_of_grows (enterMethod_grows _ _ _) errorFree
    have typedFree := errorFree_of_grows (overridden?_grows _ _) overriddenFree
    have declaredFree := errorFree_of_grows (typeOr_grows _ _ _ _) typedFree
    rw [parameterTypes_of_errorFree declaredFree] at typedFree
    exact ⟨⟨inherited, inheritedEq⟩, parameterTypes_known_of_errorFree declaredFree,
      (typeOr_errorFree_iff.mp typedFree).2⟩

theorem overrideFault?_eq_none_iff {inherited : MethodEntry} :
    overrideFault? registry signature inherited = none ↔ signature.isStatic = inherited.isStatic ∧
      signature.parameterTypes = inherited.parameterTypes ∧ signature.returnType =
        inherited.returnType := by
  refine ⟨overrideFault?_eq_none, fun ⟨sameStatic, sameTypes, sameReturn⟩ => ?_⟩
  simp [overrideFault?, sameStatic, sameTypes, sameReturn]

/-- An inherited method is replaced without complaints if the signatures agree. -/
theorem overridden?_agrees {inherited : Option MethodEntry} :
    ((members.overridden? signature inherited).2.diagnostics = [] ↔ members.diagnostics = [] ∧
      ∀ entry, inherited = some entry → signature.isStatic = entry.isStatic ∧
        signature.parameterTypes = entry.parameterTypes ∧ signature.returnType = entry.returnType) ∧
      ((members.overridden? signature inherited).2.diagnostics = [] →
        members.overridden? signature inherited = (inherited.map MethodEntry.id, members)) := by
  refine ⟨?_, fun errorFree => (overridden?_of_errorFree errorFree).1⟩
  cases inherited with
  | none => simp [overridden?]
  | some entry =>
    have noFault := @overrideFault?_eq_none_iff members.registry signature entry
    rw [overridden?]
    split
    next faultless => simp [noFault.mp faultless]
    next reason faulty =>
      refine iff_of_false (by simp [report]) ?_
      rintro ⟨-, agrees⟩
      simp [noFault.mpr (agrees entry rfl)] at faulty

theorem inheritedMethod?_eq {name : String} {id : MethodId} :
    registry.inheritedMethod? owner name = some id ↔
      registry.findInherited? owner name = some (.ofMethod id) := by
  rw [Registry.inheritedMethod?, Registry.findInherited?]
  simp only [Option.bind_eq_some_iff, Registry.findMethod?_eq_some]

/-- What a class inherits under a name that is new to it. -/
theorem inheritedMethod_of_new {name : String} (isNew : registry.ownMember? owner name = none)
    (isMethod : ∀ symbol, registry.findInherited? owner name = some symbol → ∃ id,
      symbol = .ofMethod id) :
    inheritedMethod registry owner name = .ok (registry.inheritedMethod? owner name) := by
  cases found : registry.findInherited? owner name with
  | none =>
    have noMethod : registry.inheritedMethod? owner name = none := by
      rw [Option.eq_none_iff_forall_ne_some]
      simp [inheritedMethod?_eq, found]
    simp [inheritedMethod, isNew, found, noMethod]
  | some symbol =>
    rcases isMethod symbol found with ⟨id, rfl⟩
    simp [inheritedMethod, isNew, found, inheritedMethod?_eq.mpr found]

theorem inheritedMethod_eq_ok_iff {name : String} :
    inheritedMethod registry owner name = .ok inherited ↔ registry.ownMember? owner name = none ∧
      (∀ symbol, registry.findInherited? owner name = some symbol → ∃ id, symbol = .ofMethod id) ∧
      inherited = registry.inheritedMethod? owner name := by
  constructor
  · intro found
    rcases inheritedMethod_eq_ok found with ⟨isNew, ⟨notInherited, rfl⟩ | ⟨id, isInherited, rfl⟩⟩
    · have isMethod : ∀ symbol, registry.findInherited? owner name = some symbol → ∃ id,
          symbol = .ofMethod id := by
        simp [notInherited]
      have same := inheritedMethod_of_new isNew isMethod
      exact ⟨isNew, isMethod, Except.ok.inj (found.symm.trans same)⟩
    · refine ⟨isNew, fun symbol symbolFound => ⟨id, ?_⟩, (inheritedMethod?_eq.mpr isInherited).symm⟩
      exact Option.some.inj (symbolFound.symm.trans isInherited)
  · rintro ⟨isNew, isMethod, rfl⟩
    exact inheritedMethod_of_new isNew isMethod

/-- An inherited method is on record, so its signature can be compared. -/
theorem inherited_agrees_iff (wellFormed : members.registry.WellFormed) {decl : MethodDecl}
    {type : DataType}
    (typesEq : (decl.parameters.map fun parameter => members.registry.resolveType? parameter.type) =
      types.map some)
    (typeEq : members.registry.resolveType? decl.returnType = some type)
    (isMethod : ∀ symbol, members.registry.findInherited? owner decl.name = some symbol → ∃ id,
      symbol = .ofMethod id) :
    (∀ symbol, members.registry.findInherited? owner decl.name = some symbol →
      ∃ id entry, symbol = .ofMethod id ∧ members.registry.methodEntry? id = some entry ∧
        decl.isStatic = entry.isStatic ∧
        (decl.parameters.map fun parameter => members.registry.resolveType? parameter.type) =
          entry.parameterTypes.map some ∧
        members.registry.resolveType? decl.returnType = some entry.returnType) ↔
      ∀ entry, (members.registry.inheritedMethod? owner decl.name).bind
        members.registry.methodEntry? = some entry →
        decl.isStatic = entry.isStatic ∧ types = entry.parameterTypes ∧
        type = entry.returnType := by
  have sameTypes : ∀ entry : MethodEntry, types.map some = entry.parameterTypes.map some ↔
      types = entry.parameterTypes :=
    fun entry => (List.map_injective_iff.mpr fun _ _ => Option.some.inj).eq_iff
  simp only [typesEq, typeEq, sameTypes, Option.some.injEq, Option.bind_eq_some_iff,
    inheritedMethod?_eq]
  constructor
  · rintro agrees entry ⟨id, isInherited, entryFound⟩
    rcases agrees _ isInherited with ⟨same, sameEntry, sameSymbol, sameFound, agree⟩
    obtain rfl := Symbol.ofMethod.inj sameSymbol
    obtain rfl := Option.some.inj (entryFound.symm.trans sameFound)
    exact agree
  · intro agrees symbol isInherited
    rcases isMethod symbol isInherited with ⟨id, rfl⟩
    rcases Option.bind_eq_some_iff.mp isInherited with ⟨parent, _, inParent⟩
    rcases Registry.exists_methodEntry wellFormed (Registry.findMethod?_eq_some.mpr inParent) with
      ⟨entry, entryFound, _, _⟩
    exact ⟨id, entry, rfl, entryFound, agrees entry ⟨id, isInherited, entryFound⟩⟩

theorem map_id_inherited (wellFormed : registry.WellFormed) (owner : ClassId) (name : String) :
    ((registry.inheritedMethod? owner name).bind registry.methodEntry?).map MethodEntry.id =
      registry.inheritedMethod? owner name := by
  cases inheritedEq : registry.inheritedMethod? owner name with
  | none => rfl
  | some id =>
    rcases Option.bind_eq_some_iff.mp inheritedEq with ⟨parent, _, inParent⟩
    rcases Registry.exists_methodEntry wellFormed inParent with ⟨entry, entryFound, _, _⟩
    rw [Option.bind_some, entryFound, Option.map_some, wellFormed.method_id entryFound]

theorem overridden?_enterMethod_spec
    (known : members.registry.classEntry? signature.owner = some found)
    (fresh : members.registry.ownMember? signature.owner signature.name = none)
    {inherited : Option MethodEntry}
    (sameLength : signature.parameterTypes.length = source.decl.parameters.length)
    (silent : members.diagnostics = []) {replaced : Option MethodId × Members}
    (replacedEq : members.overridden? signature inherited = replaced) :
    ((replaced.2.enterMethod source signature replaced.1).diagnostics = [] ↔
      (∀ entry, inherited = some entry → signature.isStatic = entry.isStatic ∧
        signature.parameterTypes = entry.parameterTypes ∧ signature.returnType = entry.returnType) ∧
      (source.decl.parameters.map VariableDecl.name).Nodup) ∧
      ((replaced.2.enterMethod source signature replaced.1).diagnostics = [] →
        Adds members.registry []
          [(enteredMethod members.registry signature (inherited.map MethodEntry.id)).record]
          (replaced.2.enterMethod source signature replaced.1).registry) := by
  have agrees := @overridden?_agrees members signature inherited
  rw [replacedEq] at agrees
  have entered := @enterMethod_spec members found signature source known fresh
    (inherited.map MethodEntry.id) sameLength silent
  by_cases replacedFree : replaced.2.diagnostics = []
  · obtain rfl := agrees.2 replacedFree
    exact ⟨entered.1.trans (and_iff_right (agrees.1.mp replacedFree).2).symm, entered.2⟩
  · have faulty : (replaced.2.enterMethod source signature replaced.1).diagnostics ≠ [] :=
      fun errorFree => replacedFree (errorFree_of_grows (enterMethod_grows _ _ _) errorFree)
    refine ⟨iff_of_false faulty fun fits => replacedFree (agrees.1.mpr ⟨silent, fits.1⟩),
      fun errorFree => ?_⟩
    exact absurd errorFree faulty

/-- There is no complaint about a method exactly if its name is new and it can take the place of
what is inherited. -/
theorem addMethod_spec (wellFormed : members.registry.WellFormed)
    (ownerFound : members.registry.classEntry? owner = some found)
    (silent : members.diagnostics = []) (source : MethodSource) :
    ((addMethod owner members source).diagnostics = [] ↔
      members.registry.ownMember? owner source.decl.name = none ∧
        MethodFits members.registry owner source.decl) ∧
      ((addMethod owner members source).diagnostics = [] →
        Adds members.registry [] [source.decl.record members.registry owner]
          (addMethod owner members source).registry) := by
  by_cases ready : (∃ inherited,
      inheritedMethod members.registry owner source.decl.name = .ok inherited) ∧
      (∀ parameter ∈ source.decl.parameters,
        (members.registry.resolveType? parameter.type).isSome) ∧
      (members.registry.resolveType? source.decl.returnType).isSome
  · rcases ready with ⟨⟨_, inheritedEq⟩, parametersKnown, resultKnown⟩
    rcases inheritedMethod_eq_ok_iff.mp inheritedEq with ⟨isNew, isMethod, rfl⟩
    rcases parameterTypes_of_known parametersKnown with ⟨types, typesEq, collected⟩
    rcases Option.isSome_iff_exists.mp resultKnown with ⟨type, typeEq⟩
    have agrees := inherited_agrees_iff wellFormed typesEq typeEq isMethod
    let signature : Registry.MethodSignature :=
      ⟨owner, source.decl.name, types, type, source.decl.visibility, source.decl.isStatic,
        source.decl.position⟩
    have sameLength : signature.parameterTypes.length = source.decl.parameters.length := by
      simpa using (congrArg List.length typesEq).symm
    let inherited := (members.registry.inheritedMethod? owner source.decl.name).bind
      members.registry.methodEntry?
    have replaced := @overridden?_enterMethod_spec members found signature source
      ownerFound isNew inherited sameLength silent _ rfl
    rw [addMethod_of_known inheritedEq collected typeEq]
    refine ⟨replaced.1.trans ?_, fun errorFree => ?_⟩
    · constructor
      · rintro ⟨fits, differ⟩
        exact ⟨isNew, parametersKnown, resultKnown, differ, agrees.mpr fits⟩
      · rintro ⟨_, fits⟩
        exact ⟨agrees.mp fits.inherited_agrees, fits.parameters_differ⟩
    · have sameOverrides := map_id_inherited wellFormed owner source.decl.name
      have recordEq : source.decl.record members.registry owner =
          (enteredMethod members.registry signature (inherited.map MethodEntry.id)).record := by
        rw [MethodDecl.record, typesEq, typeEq, ← sameOverrides]
        rfl
      rw [recordEq]
      exact replaced.2 errorFree
  · refine ⟨iff_of_false (fun errorFree => ready (known_of_errorFree errorFree)) ?_,
      fun errorFree => absurd (known_of_errorFree errorFree) ready⟩
    rintro ⟨isNew, fits⟩
    refine ready ⟨⟨_, inheritedMethod_eq_ok_iff.mpr ⟨isNew, fun symbol isInherited => ?_, rfl⟩⟩,
      fits.parameters_known, fits.result_known⟩
    rcases fits.inherited_agrees symbol isInherited with ⟨id, _, rfl, _⟩
    exact ⟨id, rfl⟩

end Members

end Decaf
