import Decaf.Proofs.Registry.WellFormed

/-!
# Registrations keep the views in agreement

Every registration that succeeds leaves a well-formed registry well-formed, and so do the changes
that leave the names, numbers, scopes and members of the entries alone.
-/

namespace Decaf

namespace Registry

variable {registry : Registry}

theorem wellFormed_empty : Registry.empty.WellFormed where
  class_id found := by simp [Registry.empty, classEntry?] at found
  field_id found := by simp [Registry.empty, fieldEntry?] at found
  method_id found := by simp [Registry.empty, methodEntry?] at found
  class_scope found := by simp [Registry.empty, classEntry?] at found
  method_scope found := by simp [Registry.empty, methodEntry?] at found
  parent_known found := by simp [Registry.empty, parent?, classEntry?] at found
  field_owner found := by simp [Registry.empty, fieldEntry?] at found
  method_owner found := by simp [Registry.empty, methodEntry?] at found
  fields_eq found := by simp [Registry.empty, classEntry?] at found
  methods_eq found := by simp [Registry.empty, classEntry?] at found
  global_scope := ⟨_, rfl, rfl⟩
  global_iff := by
    intro name symbol
    simp [Registry.empty, classEntry?, ScopeTree.declared?, ScopeTree.get?, ScopeTree.start,
      ScopeTree.global, Scope.get?]
  own_iff := by
    intro owner name symbol
    cases symbol <;> simp [Registry.empty, ownMember?, classEntry?, Declares,
      fieldEntry?, methodEntry?]

/-! ## Classes -/

section

variable {entry : ClassEntry}

theorem ownMember?_classAdded (wellFormed : registry.WellFormed)
    (opened : entry.scope = ⟨registry.scopes.size⟩) (owner : ClassId) (name : String) :
    (registry.classAdded entry).ownMember? owner name = registry.ownMember? owner name := by
  rw [ownMember?, ownMember?, classEntry?_classAdded]
  split
  next isNew =>
    have unknown : registry.classEntry? owner = none := by
      subst isNew
      simp [Registry.classEntry?, classCount]
    simp [unknown, ScopeTree.declared?, classAdded, ScopeTree.get?_push, opened, Scope.get?]
  next =>
    cases found : registry.classEntry? owner with
    | none => rfl
    | some old =>
      rcases wellFormed.class_scope found with ⟨scope, scopeFound, _⟩
      have ownScope : registry.memberScope? owner = some old.scope := by
        rw [memberScope?, found]
        rfl
      have differs := (wellFormed.memberScope_ne ownScope wellFormed.global_scope (by simp)).symm
      have scopeKnown : old.scope.index <
          (registry.scopes.extended ScopeTree.global entry.name (.ofClass entry.id)).size := by
        simpa using ScopeTree.lt_size_of_get? scopeFound
      simp [classAdded, ScopeTree.declared?_push scopeKnown, ScopeTree.declared?_extended, differs]

theorem declared?_global_classAdded (wellFormed : registry.WellFormed) (name : String) :
    (registry.classAdded entry).scopes.declared? ScopeTree.global name =
      (registry.scopes.declared? ScopeTree.global name).or
        (if entry.name = name then some (.ofClass entry.id) else none) := by
  rcases wellFormed.global_scope with ⟨scope, scopeFound, _⟩
  have scopeKnown : ScopeTree.global.index <
      (registry.scopes.extended ScopeTree.global entry.name (.ofClass entry.id)).size := by
    simpa using ScopeTree.lt_size_of_get? scopeFound
  simp [classAdded, ScopeTree.declared?_push scopeKnown, ScopeTree.declared?_extended, scopeFound]

theorem WellFormed.classAdded (wellFormed : registry.WellFormed)
    (numbered : entry.id = ⟨registry.classCount⟩) (opened : entry.scope = ⟨registry.scopes.size⟩)
    (noParent : entry.parent = none) (noFields : entry.fields = []) (noMethods : entry.methods = [])
    (fresh : registry.scopes.declared? ScopeTree.global entry.name = none) :
    (registry.classAdded entry).WellFormed := by
  have grows : registry.scopes.Grows (registry.classAdded entry).scopes :=
    .trans (.extended _ _ _ _) (.push _ _ _)
  have more : (registry.classAdded entry).classCount = registry.classCount + 1 := by
    simp [Registry.classAdded, classCount]
  refine
    { class_id := ?_, field_id := wellFormed.field_id, method_id := wellFormed.method_id,
      class_scope := ?_, method_scope := ?_, parent_known := ?_, field_owner :=
        ?_, method_owner := ?_,
      fields_eq := ?_, methods_eq := ?_, global_scope := grows.kind_eq wellFormed.global_scope,
      global_iff := ?_, own_iff := ?_ }
  · intro id changed found
    rw [Registry.classEntry?_classAdded] at found
    split at found
    next isNew =>
      cases found
      exact numbered.trans isNew.symm
    next => exact wellFormed.class_id found
  · intro id changed found
    rw [Registry.classEntry?_classAdded] at found
    split at found
    next isNew =>
      cases found
      have memberScope : (registry.classAdded entry).scopes.get? entry.scope =
          some ⟨⟨registry.scopes.size⟩, .classMembers entry.id, some ScopeTree.global, []⟩ := by
        simp [opened, Registry.classAdded, ScopeTree.get?_push]
      exact ⟨_, memberScope, congrArg ScopeKind.classMembers (numbered.trans isNew.symm)⟩
    next => exact grows.kind_eq (wellFormed.class_scope found)
  · intro id method found
    exact grows.kind_eq (wellFormed.method_scope found)
  · intro id parent parentEq
    rw [more]
    rw [parent?, classEntry?_classAdded] at parentEq
    split at parentEq
    · simp [noParent] at parentEq
    · exact Nat.lt_succ_of_lt (wellFormed.parent_known parentEq)
  · intro id field found
    rw [more]
    exact Nat.lt_succ_of_lt (wellFormed.field_owner found)
  · intro id method found
    rw [more]
    exact Nat.lt_succ_of_lt (wellFormed.method_owner found)
  · intro id changed found
    rw [Registry.classEntry?_classAdded] at found
    split at found
    next isNew =>
      cases found
      refine noFields.trans (List.eq_nil_iff_forall_not_mem.mpr ?_).symm
      intro field fieldMem
      rcases wellFormed.mem_fieldsOf.mp fieldMem with ⟨entry, entryFound, owned⟩
      have ownerKnown := wellFormed.field_owner entryFound
      simp [owned, isNew] at ownerKnown
    next => exact wellFormed.fields_eq found
  · intro id changed found
    rw [Registry.classEntry?_classAdded] at found
    split at found
    next isNew =>
      cases found
      refine noMethods.trans (List.eq_nil_iff_forall_not_mem.mpr ?_).symm
      intro method methodMem
      rcases wellFormed.mem_methodsOf.mp methodMem with ⟨entry, entryFound, owned⟩
      have ownerKnown := wellFormed.method_owner entryFound
      simp [owned, isNew] at ownerKnown
    next => exact wellFormed.methods_eq found
  · intro name symbol
    rw [declared?_global_classAdded wellFormed, Option.or_eq_some_iff, wellFormed.global_iff]
    constructor
    · rintro (⟨id, rfl, nameEq⟩ | ⟨_, isNew⟩)
      · have isOld : id ≠ ⟨registry.classCount⟩ := by
          rintro rfl
          simp [Registry.classEntry?, classCount] at nameEq
        exact ⟨id, rfl, by rwa [Registry.classEntry?_classAdded, if_neg isOld]⟩
      · split at isNew
        next sameName =>
          cases isNew
          exact ⟨entry.id, rfl, by simp [Registry.classEntry?_classAdded, numbered, sameName]⟩
        next => cases isNew
    · rintro ⟨id, rfl, nameEq⟩
      rw [Registry.classEntry?_classAdded] at nameEq
      split at nameEq
      next isNew =>
        have sameName := Option.some.inj nameEq
        subst sameName
        exact .inr ⟨fresh, by simp [numbered, isNew]⟩
      next => exact .inl ⟨id, rfl, nameEq⟩
  · intro owner name symbol
    rw [ownMember?_classAdded wellFormed opened, wellFormed.own_iff]
    cases symbol <;> rfl

end

/-! ## Fields -/

section

variable {scope : ScopeId} {entry : FieldEntry}
variable {found : ClassEntry}

theorem classEntry?_fieldAdded_eq_some {id : ClassId} {changed : ClassEntry}
    (changedFound : Registry.classEntry? (registry.fieldAdded scope entry) id = some changed) :
    ∃ old, registry.classEntry? id = some old ∧ changed =
      { old with fields := old.fields ++ if entry.owner = id then [entry.id] else [] } := by
  rw [Registry.classEntry?_fieldAdded] at changedFound
  split at changedFound
  next owned =>
    rcases Option.map_eq_some_iff.mp changedFound with ⟨old, oldFound, rfl⟩
    exact ⟨old, oldFound, by simp [owned]⟩
  next notOwned => exact ⟨changed, changedFound, by simp [notOwned]⟩

theorem fieldsOf_fieldAdded (id : ClassId) :
    (registry.fieldAdded scope entry).fieldsOf id =
      registry.fieldsOf id ++ if entry.owner = id then [entry.id] else [] := by
  by_cases owned : entry.owner = id <;> simp [fieldsOf, fieldAdded, List.filter_append, owned]

@[simp]
theorem methodsOf_fieldAdded (id : ClassId) :
    (registry.fieldAdded scope entry).methodsOf id = registry.methodsOf id := rfl

theorem declares_fieldAdded (numbered : entry.id = ⟨registry.fields.size⟩) {owner : ClassId}
    {name : String} {symbol : Symbol} :
    (registry.fieldAdded scope entry).Declares owner name symbol ↔
      registry.Declares owner name symbol ∨
        (symbol = .ofField entry.id ∧ entry.owner = owner ∧ entry.name = name) := by
  cases symbol with
  | ofField id =>
    simp only [Declares, fieldEntry?_fieldAdded, Symbol.ofField.injEq, numbered]
    by_cases isNew : id = ⟨registry.fields.size⟩
    · have unknown : registry.fieldEntry? id = none := by
        subst isNew
        simp [Registry.fieldEntry?]
      simp [isNew, isNew ▸ unknown, eq_comm]
    · simp [isNew]
  | ofMethod id => simp [Declares]
  | ofClass id => simp [Declares]
  | ofVariable id => simp [Declares]

theorem ownMember?_fieldAdded (wellFormed : registry.WellFormed)
    (known : registry.classEntry? entry.owner = some found) (owner : ClassId) (name : String) :
    (registry.fieldAdded found.scope entry).ownMember? owner name =
      (registry.ownMember? owner name).or
        (if entry.owner = owner ∧ entry.name = name then some (.ofField entry.id) else none) :=
  ownMember?_of_extended wellFormed known (memberScope?_fieldAdded _ _)
    (fun _ _ _ _ => rfl) owner name

theorem WellFormed.fieldAdded (wellFormed : registry.WellFormed)
    (known : registry.classEntry? entry.owner = some found)
    (numbered : entry.id = ⟨registry.fields.size⟩)
    (fresh : registry.ownMember? entry.owner entry.name = none) :
    (registry.fieldAdded found.scope entry).WellFormed := by
  have grows : registry.scopes.Grows (registry.fieldAdded found.scope entry).scopes :=
    .extended _ _ _ _
  refine
    { class_id := ?_, field_id := ?_, method_id := wellFormed.method_id, class_scope := ?_,
      method_scope := ?_, parent_known := ?_, field_owner := ?_, method_owner :=
        ?_, fields_eq := ?_,
      methods_eq := ?_, global_scope := grows.kind_eq wellFormed.global_scope, global_iff := ?_,
      own_iff := ?_ }
  · intro id changed changedFound
    rcases classEntry?_fieldAdded_eq_some changedFound with ⟨old, oldFound, rfl⟩
    have sameId := wellFormed.class_id oldFound
    exact sameId
  · intro id changed changedFound
    rw [Registry.fieldEntry?_fieldAdded] at changedFound
    split at changedFound
    next isNew =>
      cases changedFound
      exact numbered.trans isNew.symm
    next => exact wellFormed.field_id changedFound
  · intro id changed changedFound
    rcases classEntry?_fieldAdded_eq_some changedFound with ⟨old, oldFound, rfl⟩
    have oldScope := wellFormed.class_scope oldFound
    exact grows.kind_eq oldScope
  · intro id method methodFound
    exact grows.kind_eq (wellFormed.method_scope methodFound)
  · intro id parent parentEq
    rw [parent?_fieldAdded] at parentEq
    simpa using wellFormed.parent_known parentEq
  · intro id changed changedFound
    rw [classCount_fieldAdded]
    rw [Registry.fieldEntry?_fieldAdded] at changedFound
    split at changedFound
    · cases changedFound
      exact lt_classCount known
    · exact wellFormed.field_owner changedFound
  · intro id method methodFound
    simpa using wellFormed.method_owner methodFound
  · intro id changed changedFound
    rcases classEntry?_fieldAdded_eq_some changedFound with ⟨old, oldFound, rfl⟩
    rw [fieldsOf_fieldAdded, wellFormed.fields_eq oldFound]
  · intro id changed changedFound
    rcases classEntry?_fieldAdded_eq_some changedFound with ⟨old, oldFound, rfl⟩
    have sameMethods := wellFormed.methods_eq oldFound
    exact sameMethods
  · intro name symbol
    have sameDeclared : (registry.fieldAdded found.scope entry).scopes.declared?
        ScopeTree.global name = registry.scopes.declared? ScopeTree.global name :=
      declared?_global_of_extended wellFormed known entry.name (.ofField entry.id) name
    rw [sameDeclared, wellFormed.global_iff]
    simp only [map_classEntry?_fieldAdded ClassEntry.name fun _ _ => rfl]
  · intro owner name symbol
    rw [ownMember?_fieldAdded wellFormed known, declares_fieldAdded numbered, ← wellFormed.own_iff,
      Option.or_eq_some_iff]
    constructor
    · rintro (isOld | ⟨_, isNew⟩)
      · exact .inl isOld
      · split at isNew
        next matching => exact .inr ⟨(Option.some.inj isNew).symm, matching⟩
        next => cases isNew
    · rintro (isOld | ⟨rfl, rfl, rfl⟩)
      · exact .inl isOld
      · exact .inr ⟨fresh, by simp⟩

end

/-! ## Methods -/

section

variable {scope : ScopeId} {entry : MethodEntry}
variable {found : ClassEntry}

theorem classEntry?_methodAdded_eq_some {id : ClassId} {changed : ClassEntry}
    (changedFound : Registry.classEntry? (registry.methodAdded scope entry) id = some changed) :
    ∃ old, registry.classEntry? id = some old ∧ changed =
      { old with methods := old.methods ++ if entry.owner = id then [entry.id] else [] } := by
  rw [Registry.classEntry?_methodAdded] at changedFound
  split at changedFound
  next owned =>
    rcases Option.map_eq_some_iff.mp changedFound with ⟨old, oldFound, rfl⟩
    exact ⟨old, oldFound, by simp [owned]⟩
  next notOwned => exact ⟨changed, changedFound, by simp [notOwned]⟩

theorem methodsOf_methodAdded (id : ClassId) :
    (registry.methodAdded scope entry).methodsOf id =
      registry.methodsOf id ++ if entry.owner = id then [entry.id] else [] := by
  by_cases owned : entry.owner = id <;> simp [methodsOf, methodAdded, List.filter_append, owned]

@[simp]
theorem fieldsOf_methodAdded (id : ClassId) :
    (registry.methodAdded scope entry).fieldsOf id = registry.fieldsOf id := rfl

theorem declares_methodAdded (numbered : entry.id = ⟨registry.methods.size⟩) {owner : ClassId}
    {name : String} {symbol : Symbol} :
    (registry.methodAdded scope entry).Declares owner name symbol ↔
      registry.Declares owner name symbol ∨
        (symbol = .ofMethod entry.id ∧ entry.owner = owner ∧ entry.name = name) := by
  cases symbol with
  | ofMethod id =>
    simp only [Declares, methodEntry?_methodAdded, Symbol.ofMethod.injEq, numbered]
    by_cases isNew : id = ⟨registry.methods.size⟩
    · have unknown : registry.methodEntry? id = none := by
        subst isNew
        simp [Registry.methodEntry?]
      simp [isNew, isNew ▸ unknown, eq_comm]
    · simp [isNew]
  | ofField id => simp [Declares]
  | ofClass id => simp [Declares]
  | ofVariable id => simp [Declares]

theorem ownMember?_methodAdded (wellFormed : registry.WellFormed)
    (known : registry.classEntry? entry.owner = some found) (owner : ClassId) (name : String) :
    (registry.methodAdded found.scope entry).ownMember? owner name =
      (registry.ownMember? owner name).or
        (if entry.owner = owner ∧ entry.name = name then some (.ofMethod entry.id) else none) := by
  refine ownMember?_of_extended wellFormed known (memberScope?_methodAdded _ _) ?_ owner name
  intro other scope otherName scopeEq
  rcases Option.isSome_iff_exists.mp (wellFormed.memberScope_known scopeEq) with ⟨_, scopeFound⟩
  refine ScopeTree.declared?_push ?_ otherName
  rw [ScopeTree.size_extended]
  exact ScopeTree.lt_size_of_get? scopeFound

theorem WellFormed.methodAdded (wellFormed : registry.WellFormed)
    (known : registry.classEntry? entry.owner = some found)
    (numbered : entry.id = ⟨registry.methods.size⟩) (opened : entry.scope = ⟨registry.scopes.size⟩)
    (fresh : registry.ownMember? entry.owner entry.name = none) :
    (registry.methodAdded found.scope entry).WellFormed := by
  have grows : registry.scopes.Grows (registry.methodAdded found.scope entry).scopes :=
    .trans (.extended _ _ _ _) (.push _ _ _)
  refine
    { class_id := ?_, field_id := wellFormed.field_id, method_id := ?_, class_scope := ?_,
      method_scope := ?_, parent_known := ?_, field_owner := ?_, method_owner :=
        ?_, fields_eq := ?_,
      methods_eq := ?_, global_scope := grows.kind_eq wellFormed.global_scope, global_iff := ?_,
      own_iff := ?_ }
  · intro id changed changedFound
    rcases classEntry?_methodAdded_eq_some changedFound with ⟨old, oldFound, rfl⟩
    have sameId := wellFormed.class_id oldFound
    exact sameId
  · intro id changed changedFound
    rw [Registry.methodEntry?_methodAdded] at changedFound
    split at changedFound
    next isNew =>
      cases changedFound
      exact numbered.trans isNew.symm
    next => exact wellFormed.method_id changedFound
  · intro id changed changedFound
    rcases classEntry?_methodAdded_eq_some changedFound with ⟨old, oldFound, rfl⟩
    have oldScope := wellFormed.class_scope oldFound
    exact grows.kind_eq oldScope
  · intro id method methodFound
    rw [Registry.methodEntry?_methodAdded] at methodFound
    split at methodFound
    next isNew =>
      cases methodFound
      have bodyScope : (registry.methodAdded found.scope entry).scopes.get? entry.scope =
          some ⟨⟨registry.scopes.size⟩, .methodBody entry.id, some found.scope, []⟩ := by
        simp [opened, Registry.methodAdded, ScopeTree.get?_push]
      exact ⟨_, bodyScope, congrArg ScopeKind.methodBody (numbered.trans isNew.symm)⟩
    next => exact grows.kind_eq (wellFormed.method_scope methodFound)
  · intro id parent parentEq
    rw [parent?_methodAdded] at parentEq
    simpa using wellFormed.parent_known parentEq
  · intro id field fieldFound
    simpa using wellFormed.field_owner fieldFound
  · intro id changed changedFound
    rw [classCount_methodAdded]
    rw [Registry.methodEntry?_methodAdded] at changedFound
    split at changedFound
    · cases changedFound
      exact lt_classCount known
    · exact wellFormed.method_owner changedFound
  · intro id changed changedFound
    rcases classEntry?_methodAdded_eq_some changedFound with ⟨old, oldFound, rfl⟩
    have sameFields := wellFormed.fields_eq oldFound
    exact sameFields
  · intro id changed changedFound
    rcases classEntry?_methodAdded_eq_some changedFound with ⟨old, oldFound, rfl⟩
    rw [methodsOf_methodAdded, wellFormed.methods_eq oldFound]
  · intro name symbol
    have globalKnown : ScopeTree.global.index <
        (registry.scopes.extended found.scope entry.name (.ofMethod entry.id)).size := by
      rcases wellFormed.global_scope with ⟨_, globalFound, _⟩
      simpa using ScopeTree.lt_size_of_get? globalFound
    have sameDeclared : (registry.methodAdded found.scope entry).scopes.declared?
        ScopeTree.global name = registry.scopes.declared? ScopeTree.global name :=
      (ScopeTree.declared?_push globalKnown name).trans
        (declared?_global_of_extended wellFormed known entry.name (.ofMethod entry.id) name)
    rw [sameDeclared, wellFormed.global_iff]
    simp only [map_classEntry?_methodAdded ClassEntry.name fun _ _ => rfl]
  · intro owner name symbol
    rw [ownMember?_methodAdded wellFormed known,
      declares_methodAdded numbered, ← wellFormed.own_iff, Option.or_eq_some_iff]
    constructor
    · rintro (isOld | ⟨_, isNew⟩)
      · exact .inl isOld
      · split at isNew
        next matching => exact .inr ⟨(Option.some.inj isNew).symm, matching⟩
        next => cases isNew
    · rintro (isOld | ⟨rfl, rfl, rfl⟩)
      · exact .inl isOld
      · exact .inr ⟨fresh, by simp⟩

end

/-! ## Variables, blocks and changed entries -/

/-- Declarations outside of the scopes of classes do not concern the views. -/
theorem WellFormed.of_scopes {after : Registry} (wellFormed : registry.WellFormed)
    (sameClasses : after.classes = registry.classes) (sameFields : after.fields = registry.fields)
    (sameMethods : after.methods = registry.methods) (grows : registry.scopes.Grows after.scopes)
    (sameDeclared : ∀ scope found, registry.scopes.get? scope = some found →
      (found.kind = .global ∨ ∃ owner, found.kind = .classMembers owner) → ∀ name,
        after.scopes.declared? scope name = registry.scopes.declared? scope name) :
    after.WellFormed := by
  have sameClass : ∀ id, after.classEntry? id = registry.classEntry? id := by
    simp [Registry.classEntry?, sameClasses]
  have sameField : ∀ id, after.fieldEntry? id = registry.fieldEntry? id := by
    simp [Registry.fieldEntry?, sameFields]
  have sameMethod : ∀ id, after.methodEntry? id = registry.methodEntry? id := by
    simp [Registry.methodEntry?, sameMethods]
  have sameCount : after.classCount = registry.classCount := by
    simp [classCount, sameClasses]
  have sameOwn : ∀ owner name, after.ownMember? owner name = registry.ownMember? owner name := by
    intro owner name
    rw [ownMember?, ownMember?, sameClass]
    cases classEq : registry.classEntry? owner with
    | none => rfl
    | some entry =>
      rcases wellFormed.class_scope classEq with ⟨found, foundEq, isMembers⟩
      exact sameDeclared entry.scope found foundEq (.inr ⟨owner, isMembers⟩) name
  have sameDeclares : ∀ owner name symbol,
      after.Declares owner name symbol ↔ registry.Declares owner name symbol := by
    intro owner name symbol
    cases symbol <;> simp [Declares, sameField, sameMethod]
  rcases wellFormed.global_scope with ⟨global, globalFound, isGlobal⟩
  refine
    { class_id := ?_, field_id := ?_, method_id := ?_, class_scope := ?_, method_scope := ?_,
      parent_known := ?_, field_owner := ?_, method_owner := ?_, fields_eq := ?_, methods_eq := ?_,
      global_scope := grows.kind_eq wellFormed.global_scope, global_iff := ?_, own_iff := ?_ }
  · intro id entry found
    exact wellFormed.class_id ((sameClass id).symm.trans found)
  · intro id entry found
    exact wellFormed.field_id ((sameField id).symm.trans found)
  · intro id entry found
    exact wellFormed.method_id ((sameMethod id).symm.trans found)
  · intro id entry found
    rw [sameClass] at found
    exact grows.kind_eq (wellFormed.class_scope found)
  · intro id entry found
    rw [sameMethod] at found
    exact grows.kind_eq (wellFormed.method_scope found)
  · intro id parent parentEq
    rw [parent?, sameClass] at parentEq
    rw [sameCount]
    exact wellFormed.parent_known parentEq
  · intro id entry found
    rw [sameCount]
    exact wellFormed.field_owner ((sameField id).symm.trans found)
  · intro id entry found
    rw [sameCount]
    exact wellFormed.method_owner ((sameMethod id).symm.trans found)
  · intro id entry found
    rw [wellFormed.fields_eq ((sameClass id).symm.trans found), fieldsOf, fieldsOf, sameFields]
  · intro id entry found
    rw [wellFormed.methods_eq ((sameClass id).symm.trans found), methodsOf, methodsOf, sameMethods]
  · intro name symbol
    rw [sameDeclared ScopeTree.global global globalFound (.inl isGlobal), wellFormed.global_iff]
    simp only [sameClass]
  · intro owner name symbol
    rw [sameOwn, sameDeclares, wellFormed.own_iff]

theorem WellFormed.variableAdded (wellFormed : registry.WellFormed) {scope : ScopeId}
    {found : Scope} (known : registry.scopes.get? scope = some found)
    (notGlobal : found.kind ≠ .global) (notMembers : ∀ owner, found.kind ≠ .classMembers owner)
    (entry : VariableEntry) : (registry.variableAdded scope entry).WellFormed := by
  refine wellFormed.of_scopes rfl rfl rfl (.extended _ _ _ _) ?_
  intro other otherFound otherEq outer name
  have differs : scope ≠ other := by
    rintro rfl
    rw [known] at otherEq
    cases otherEq
    rcases outer with isGlobal | ⟨owner, isMembers⟩
    · exact notGlobal isGlobal
    · exact notMembers owner isMembers
  simp [Registry.variableAdded, ScopeTree.declared?_extended, differs]

theorem WellFormed.openBlock (wellFormed : registry.WellFormed) (parent : ScopeId) :
    (registry.openBlock parent).2.WellFormed := by
  refine wellFormed.of_scopes rfl rfl rfl (.push _ _ _) ?_
  intro scope found foundEq _ name
  exact ScopeTree.declared?_push (ScopeTree.lt_size_of_get? foundEq) name

theorem map_filter_modify {Entry View : Type} {change : Entry → Entry} {keep : Entry → Bool}
    {view : Entry → View} (sameKeep : ∀ entry, keep (change entry) = keep entry)
    (sameView : ∀ entry, view (change entry) = view entry) (entries : List Entry) (place : Nat) :
    ((entries.modify place change).filter keep).map view = (entries.filter keep).map view := by
  induction entries generalizing place with
  | nil => simp
  | cons entry entries ih =>
    cases place with
    | zero => by_cases kept : keep entry <;> simp [sameKeep, sameView, kept]
    | succ place => by_cases kept : keep entry <;> simp [kept, ih]

theorem WellFormed.modifyMethod (wellFormed : registry.WellFormed) (id : MethodId)
    {change : MethodEntry → MethodEntry} (sameId : ∀ entry, (change entry).id = entry.id)
    (sameName : ∀ entry, (change entry).name = entry.name)
    (sameOwner : ∀ entry, (change entry).owner = entry.owner)
    (sameScope : ∀ entry, (change entry).scope = entry.scope) :
    (registry.modifyMethod id change).WellFormed := by
  have before : ∀ {other changed},
      Registry.methodEntry? (registry.modifyMethod id change) other = some changed →
      ∃ old, registry.methodEntry? other = some old ∧ changed.id = old.id ∧
      changed.owner = old.owner ∧
        changed.scope = old.scope := by
    intro other changed changedFound
    rw [Registry.methodEntry?_modifyMethod] at changedFound
    split at changedFound
    · rcases Option.map_eq_some_iff.mp changedFound with ⟨old, oldFound, rfl⟩
      exact ⟨old, oldFound, sameId old, sameOwner old, sameScope old⟩
    · exact ⟨changed, changedFound, rfl, rfl, rfl⟩
  have sameDeclares : ∀ owner name symbol,
      (registry.modifyMethod id change).Declares owner name symbol ↔
        registry.Declares owner name symbol := by
    intro owner name symbol
    cases symbol with
    | ofMethod other =>
      simp only [Declares, methodEntry?_modifyMethod]
      split
      · simp [sameOwner, sameName]
      · rfl
    | ofField other => simp [Declares]
    | ofClass other => simp [Declares]
    | ofVariable other => simp [Declares]
  refine
    { class_id := wellFormed.class_id, field_id := wellFormed.field_id, method_id := ?_,
      class_scope := wellFormed.class_scope, method_scope := ?_,
      parent_known := wellFormed.parent_known, field_owner := wellFormed.field_owner,
      method_owner := ?_, fields_eq := wellFormed.fields_eq, methods_eq := ?_,
      global_scope := wellFormed.global_scope, global_iff := wellFormed.global_iff, own_iff := ?_ }
  · intro other changed changedFound
    rcases before changedFound with ⟨old, oldFound, idEq, _, _⟩
    exact idEq.trans (wellFormed.method_id oldFound)
  · intro other changed changedFound
    rcases before changedFound with ⟨old, oldFound, _, _, scopeEq⟩
    rw [scopeEq]
    exact wellFormed.method_scope oldFound
  · intro other changed changedFound
    rcases before changedFound with ⟨old, oldFound, _, ownerEq, _⟩
    rw [ownerEq]
    exact wellFormed.method_owner oldFound
  · intro owner entry found
    rw [wellFormed.methods_eq found, methodsOf, methodsOf, Registry.modifyMethod,
      Array.toList_modify, map_filter_modify (fun entry => by rw [sameOwner]) sameId]
  · intro owner name symbol
    rw [sameDeclares, ← wellFormed.own_iff]
    rfl

theorem WellFormed.modifyClass (wellFormed : registry.WellFormed) (id : ClassId)
    {change : ClassEntry → ClassEntry} (sameId : ∀ entry, (change entry).id = entry.id)
    (sameName : ∀ entry, (change entry).name = entry.name)
    (sameScope : ∀ entry, (change entry).scope = entry.scope)
    (sameFields : ∀ entry, (change entry).fields = entry.fields)
    (sameMethods : ∀ entry, (change entry).methods = entry.methods)
    (parentKnown : ∀ entry parent, registry.classEntry? id = some entry →
      (change entry).parent = some parent → parent.index < registry.classCount) :
    (registry.modifyClass id change).WellFormed := by
  have before : ∀ {other changed},
      Registry.classEntry? (registry.modifyClass id change) other = some changed →
      ∃ old, registry.classEntry? other = some old ∧ changed.id = old.id ∧
      changed.scope = old.scope ∧
        changed.fields = old.fields ∧ changed.methods = old.methods := by
    intro other changed changedFound
    rw [Registry.classEntry?_modifyClass] at changedFound
    split at changedFound
    · rcases Option.map_eq_some_iff.mp changedFound with ⟨old, oldFound, rfl⟩
      exact ⟨old, oldFound, sameId old, sameScope old, sameFields old, sameMethods old⟩
    · exact ⟨changed, changedFound, rfl, rfl, rfl, rfl⟩
  refine
    { class_id := ?_, field_id := wellFormed.field_id, method_id := wellFormed.method_id,
      class_scope := ?_, method_scope := wellFormed.method_scope, parent_known :=
        ?_, field_owner := ?_,
      method_owner := ?_, fields_eq := ?_, methods_eq := ?_, global_scope :=
        wellFormed.global_scope,
      global_iff := ?_, own_iff := ?_ }
  · intro other changed changedFound
    rcases before changedFound with ⟨old, oldFound, idEq, _, _, _⟩
    exact idEq.trans (wellFormed.class_id oldFound)
  · intro other changed changedFound
    rcases before changedFound with ⟨old, oldFound, _, scopeEq, _, _⟩
    rw [scopeEq]
    exact wellFormed.class_scope oldFound
  · intro other parent parentEq
    rw [classCount_modifyClass]
    rw [parent?, classEntry?_modifyClass] at parentEq
    split at parentEq
    next same =>
      subst same
      rcases Option.bind_eq_some_iff.mp parentEq with ⟨changed, changedFound, changedParent⟩
      rcases Option.map_eq_some_iff.mp changedFound with ⟨old, oldFound, rfl⟩
      exact parentKnown old parent oldFound changedParent
    next => exact wellFormed.parent_known parentEq
  · intro other field found
    simpa using wellFormed.field_owner found
  · intro other method found
    simpa using wellFormed.method_owner found
  · intro other changed changedFound
    rcases before changedFound with ⟨old, oldFound, _, _, fieldsEq, _⟩
    exact fieldsEq.trans (wellFormed.fields_eq oldFound)
  · intro other changed changedFound
    rcases before changedFound with ⟨old, oldFound, _, _, _, methodsEq⟩
    exact methodsEq.trans (wellFormed.methods_eq oldFound)
  · intro name symbol
    simp only [map_classEntry?_modifyClass ClassEntry.name sameName]
    exact wellFormed.global_iff
  · intro owner name symbol
    have sameScopes : (registry.modifyClass id change).memberScope? owner =
        registry.memberScope? owner :=
      map_classEntry?_modifyClass ClassEntry.scope sameScope owner
    rw [ownMember?_eq, sameScopes, scopes_modifyClass, ← ownMember?_eq, wellFormed.own_iff]
    cases symbol <;> rfl

end Registry

end Decaf
