import Decaf.Registry

/-!
# What a registration changes

A registration in a class that is on record either fails, because the class itself already declares
the name, or adds one entry at the end of the entries of its kind, one symbol to one scope and one
number to one class. The lemmas here say so for every view of the registry.
-/

namespace Decaf

namespace Scope

@[simp]
theorem get?_extend (scope : Scope) (name other : String) (symbol : Symbol) :
    (scope.extend name symbol).get? other =
      (scope.get? other).or (if name = other then some symbol else none) := by
  rw [get?, extend, List.find?_append, get?]
  cases scope.symbols.find? fun entry => entry.1 = other with
  | some entry => simp
  | none => by_cases same : name = other <;> simp [same]

end Scope

namespace ScopeTree

variable {tree : ScopeTree}

/-- The tree in which a scope has one more declaration. -/
def extended (tree : ScopeTree) (scope : ScopeId) (name : String) (symbol : Symbol) : ScopeTree :=
  ⟨tree.scopes.modify scope.index fun found => found.extend name symbol⟩

theorem declare_eq (tree : ScopeTree) (scope : ScopeId) (name : String) (symbol : Symbol) :
    tree.declare scope name symbol =
      match tree.declared? scope name with
      | some existing => .error existing
      | none => .ok (tree.extended scope name symbol) := rfl

theorem get?_extended (scope other : ScopeId) (name : String) (symbol : Symbol) :
    (tree.extended scope name symbol).get? other =
      if scope = other then (tree.get? other).map fun found => found.extend name symbol
      else tree.get? other := by
  rcases scope with ⟨scope⟩
  rcases other with ⟨other⟩
  simp [get?, extended, Array.getElem?_modify]

@[simp]
theorem size_extended (scope : ScopeId) (name : String) (symbol : Symbol) :
    (tree.extended scope name symbol).size = tree.size := by
  simp [extended, size]

theorem get?_push (kind : ScopeKind) (parent other : ScopeId) :
    (tree.push kind parent).2.get? other =
      if other = ⟨tree.size⟩ then some ⟨⟨tree.size⟩, kind,
        some parent, []⟩ else tree.get? other := by
  rcases other with ⟨other⟩
  simp [get?, push, Array.getElem?_push, size]

@[simp]
theorem push_fst (kind : ScopeKind) (parent : ScopeId) :
    (tree.push kind parent).1 = ⟨tree.size⟩ := rfl

@[simp]
theorem size_push (kind : ScopeKind) (parent : ScopeId) :
    (tree.push kind parent).2.size = tree.size + 1 := by
  simp [push, size]

theorem lt_size_of_get? {id : ScopeId} {scope : Scope} (found : tree.get? id = some scope) :
    id.index < tree.size :=
  (Array.getElem?_eq_some_iff.mp found).1

end ScopeTree

namespace Registry

variable {registry : Registry}
variable {id owner : ClassId} {after : Registry} {name : String} {position : Position}
  {found : ClassEntry}

theorem lt_classCount {entry : ClassEntry} (found : registry.classEntry? id = some entry) :
    id.index < registry.classCount :=
  (Array.getElem?_eq_some_iff.mp found).1

theorem exists_classEntry (known : id.index < registry.classCount) :
    ∃ entry, registry.classEntry? id = some entry :=
  ⟨_, Array.getElem?_eq_getElem known⟩

/-! ## Changed entries -/

theorem classEntry?_modifyClass (id other : ClassId) (change : ClassEntry → ClassEntry) :
    Registry.classEntry? (registry.modifyClass id change) other =
      if id = other then (registry.classEntry? other).map change else registry.classEntry?
        other := by
  rcases id with ⟨id⟩
  rcases other with ⟨other⟩
  simp [modifyClass, classEntry?, Array.getElem?_modify]

@[simp]
theorem scopes_modifyClass (id : ClassId) (change : ClassEntry → ClassEntry) :
    (registry.modifyClass id change).scopes = registry.scopes := rfl

@[simp]
theorem classCount_modifyClass (id : ClassId) (change : ClassEntry → ClassEntry) :
    (registry.modifyClass id change).classCount = registry.classCount := by
  simp [modifyClass, classCount]

theorem methodEntry?_modifyMethod (id other : MethodId) (change : MethodEntry → MethodEntry) :
    Registry.methodEntry? (registry.modifyMethod id change) other =
      if id = other then (registry.methodEntry? other).map change else registry.methodEntry?
        other := by
  rcases id with ⟨id⟩
  rcases other with ⟨other⟩
  simp [modifyMethod, methodEntry?, Array.getElem?_modify]

@[simp]
theorem fieldEntry?_modifyMethod (id : MethodId) (change : MethodEntry → MethodEntry)
    (other : FieldId) :
    Registry.fieldEntry? (registry.modifyMethod id change) other = registry.fieldEntry? other := rfl

@[simp]
theorem variableEntry?_modifyMethod (id : MethodId) (change : MethodEntry → MethodEntry)
    (other : VariableId) :
    Registry.variableEntry? (registry.modifyMethod id change) other =
      registry.variableEntry? other := rfl

/-! ## New classes -/

/-- The registry with a class and its scope added. -/
def classAdded (registry : Registry) (entry : ClassEntry) : Registry :=
  { registry with
    classes := registry.classes.push entry
    scopes := ((registry.scopes.extended ScopeTree.global entry.name (.ofClass entry.id)).push
      (.classMembers entry.id) ScopeTree.global).2 }

/-- The entry of a class that is registered next. -/
def nextClass (registry : Registry) (name : String) (parentName : Option String)
    (position : Position) : ClassEntry :=
  { id := ⟨registry.classCount⟩
    name
    parentName
    parent := none
    scope := ⟨registry.scopes.size⟩
    fields := []
    methods := []
    vtable := []
    position }

theorem registerClass_eq (registry : Registry) (name : String) (parentName : Option String)
    (position : Position) :
    registry.registerClass name parentName position =
      match registry.scopes.declared? ScopeTree.global name with
      | some existing => .error existing
      | none =>
        .ok (⟨registry.classCount⟩,
            registry.classAdded (registry.nextClass name parentName position)) := by
  rw [registerClass, ScopeTree.declare_eq]
  cases declaredEq : registry.scopes.declared? ScopeTree.global name with
  | some existing => simp
  | none =>
    simp [classAdded, nextClass, ScopeTree.push, classCount, ScopeTree.size, ScopeTree.extended]

theorem classAdded_of_registerClass {parentName : Option String}
    (registered : registry.registerClass name parentName position = .ok (id, after)) :
    registry.scopes.declared? ScopeTree.global name = none ∧ id = ⟨registry.classCount⟩ ∧
      after = registry.classAdded (registry.nextClass name parentName position) := by
  rw [registerClass_eq] at registered
  split at registered
  next => cases registered
  next fresh =>
    cases registered
    exact ⟨fresh, rfl, rfl⟩

theorem classEntry?_classAdded (entry : ClassEntry) (other : ClassId) :
    Registry.classEntry? (registry.classAdded entry) other =
      if other = ⟨registry.classCount⟩ then some entry else registry.classEntry? other := by
  rcases other with ⟨other⟩
  simp [classAdded, classEntry?, Array.getElem?_push, classCount]

/-! ## New members -/

/-- The registry with one more field, declared in a scope. -/
def fieldAdded (registry : Registry) (scope : ScopeId) (entry : FieldEntry) : Registry :=
  { registry.modifyClass entry.owner fun found =>
      { found with fields := found.fields ++ [entry.id] } with
    fields := registry.fields.push entry
    scopes := registry.scopes.extended scope entry.name (.ofField entry.id) }

theorem registerField_eq (name : String) (type : DataType)
    (visibility : Visibility) (isStatic : Bool) (position : Position)
    (known : registry.classEntry? owner = some found) :
    registry.registerField owner name type visibility isStatic position =
      match registry.ownMember? owner name with
      | some existing => .error existing
      | none =>
        .ok (⟨registry.fields.size⟩, registry.fieldAdded found.scope
          { id := ⟨registry.fields.size⟩, name, type, owner, visibility, isStatic, position }) := by
  simp only [registerField, memberScope?, known, Option.map_some, Option.getD_some,
    ScopeTree.declare_eq, ownMember?, Option.bind_some]
  cases registry.scopes.declared? found.scope name <;> rfl

theorem fieldAdded_of_registerField {id : FieldId} {type : DataType} {visibility : Visibility}
    {isStatic : Bool} (known : owner.index < registry.classCount)
    (registered : registry.registerField owner name type visibility isStatic position =
      .ok (id, after)) :
    ∃ found, registry.classEntry? owner = some found ∧ registry.ownMember? owner name = none ∧
      id = ⟨registry.fields.size⟩ ∧ after = registry.fieldAdded found.scope
        { id := ⟨registry.fields.size⟩, name, type, owner, visibility, isStatic, position } := by
  rcases exists_classEntry known with ⟨found, foundEq⟩
  rw [registerField_eq _ _ _ _ _ foundEq] at registered
  split at registered
  next => cases registered
  next fresh =>
    cases registered
    exact ⟨found, foundEq, fresh, rfl, rfl⟩

/-- The registry with one more method, declared in a scope; the scope of its parameters is the next
one. -/
def methodAdded (registry : Registry) (scope : ScopeId) (entry : MethodEntry) : Registry :=
  { registry.modifyClass entry.owner fun found =>
      { found with methods := found.methods ++ [entry.id] } with
    methods := registry.methods.push entry
    scopes := ((registry.scopes.extended scope entry.name (.ofMethod entry.id)).push
      (.methodBody entry.id) scope).2 }

/-- The entry of a method that is registered next. -/
def nextMethod (registry : Registry) (signature : MethodSignature) : MethodEntry :=
  { id := ⟨registry.methods.size⟩
    name := signature.name
    parameters := []
    parameterTypes := signature.parameterTypes
    returnType := signature.returnType
    owner := signature.owner
    visibility := signature.visibility
    isStatic := signature.isStatic
    slot := none
    overrides := none
    scope := ⟨registry.scopes.size⟩
    position := signature.position }

theorem registerMethod_eq (signature : MethodSignature)
    (known : registry.classEntry? signature.owner = some found) :
    registry.registerMethod signature =
      match registry.ownMember? signature.owner signature.name with
      | some existing => .error existing
      | none =>
        .ok (⟨registry.methods.size⟩,
          registry.methodAdded found.scope (registry.nextMethod signature)) := by
  simp only [registerMethod, memberScope?, known, Option.map_some, Option.getD_some,
    ScopeTree.declare_eq, ownMember?, Option.bind_some]
  cases registry.scopes.declared? found.scope signature.name with
  | some existing => rfl
  | none =>
    simp [methodAdded, nextMethod, modifyClass, ScopeTree.push, ScopeTree.size, ScopeTree.extended]

theorem methodAdded_of_registerMethod {id : MethodId} {signature : MethodSignature}
    (known : signature.owner.index < registry.classCount)
    (registered : registry.registerMethod signature = .ok (id, after)) :
    ∃ found, registry.classEntry? signature.owner = some found ∧
      registry.ownMember? signature.owner signature.name = none ∧ id = ⟨registry.methods.size⟩ ∧
      after = registry.methodAdded found.scope (registry.nextMethod signature) := by
  rcases exists_classEntry known with ⟨found, foundEq⟩
  rw [registerMethod_eq _ foundEq] at registered
  split at registered
  next => cases registered
  next fresh =>
    cases registered
    exact ⟨found, foundEq, fresh, rfl, rfl⟩

section

variable (scope : ScopeId)

theorem classEntry?_fieldAdded (entry : FieldEntry) (other : ClassId) :
    Registry.classEntry? (registry.fieldAdded scope entry) other =
      if entry.owner = other then
        (registry.classEntry? other).map fun found =>
          { found with fields := found.fields ++ [entry.id] }
      else registry.classEntry? other :=
  classEntry?_modifyClass _ _ _

theorem fieldEntry?_fieldAdded (entry : FieldEntry) (other : FieldId) :
    Registry.fieldEntry? (registry.fieldAdded scope entry) other =
      if other = ⟨registry.fields.size⟩ then some entry else registry.fieldEntry? other := by
  rcases other with ⟨other⟩
  simp [fieldAdded, fieldEntry?, Array.getElem?_push]

@[simp]
theorem methodEntry?_fieldAdded (entry : FieldEntry) (other : MethodId) :
    Registry.methodEntry? (registry.fieldAdded scope entry) other = registry.methodEntry? other :=
  rfl

@[simp]
theorem classCount_fieldAdded (entry : FieldEntry) :
    (registry.fieldAdded scope entry).classCount = registry.classCount := by
  simp [fieldAdded, modifyClass, classCount]

theorem classEntry?_methodAdded (entry : MethodEntry) (other : ClassId) :
    Registry.classEntry? (registry.methodAdded scope entry) other =
      if entry.owner = other then
        (registry.classEntry? other).map fun found =>
          { found with methods := found.methods ++ [entry.id] }
      else registry.classEntry? other :=
  classEntry?_modifyClass _ _ _

theorem methodEntry?_methodAdded (entry : MethodEntry) (other : MethodId) :
    Registry.methodEntry? (registry.methodAdded scope entry) other =
      if other = ⟨registry.methods.size⟩ then some entry else registry.methodEntry? other := by
  rcases other with ⟨other⟩
  simp [methodAdded, methodEntry?, Array.getElem?_push]

@[simp]
theorem fieldEntry?_methodAdded (entry : MethodEntry) (other : FieldId) :
    Registry.fieldEntry? (registry.methodAdded scope entry) other = registry.fieldEntry? other :=
  rfl

@[simp]
theorem classCount_methodAdded (entry : MethodEntry) :
    (registry.methodAdded scope entry).classCount = registry.classCount := by
  simp [methodAdded, modifyClass, classCount]

end

/-! ## New variables and blocks -/

/-- The registry with one more variable, declared in a scope. -/
def variableAdded (registry : Registry) (scope : ScopeId) (entry : VariableEntry) : Registry :=
  { registry with
    variableEntries := registry.variableEntries.push entry
    scopes := registry.scopes.extended scope entry.name (.ofVariable entry.id) }

theorem registerVariable_eq (scope : ScopeId) (name : String) (type : DataType) (method : MethodId)
    (storage : Storage) (position : Position) :
    registry.registerVariable scope name type method storage position =
      match registry.scopes.declared? scope name with
      | some existing => .error existing
      | none =>
        .ok (⟨registry.variableEntries.size⟩, registry.variableAdded scope
          { id := ⟨registry.variableEntries.size⟩, name, type, method, storage, position }) := by
  rw [registerVariable, ScopeTree.declare_eq]
  cases registry.scopes.declared? scope name <;> rfl

theorem variableAdded_of_registerVariable {id : VariableId} {after : Registry} {scope : ScopeId}
    {name : String} {type : DataType} {method : MethodId} {storage : Storage} {position : Position}
    (registered : registry.registerVariable scope name type method storage position =
      .ok (id, after)) :
    registry.scopes.declared? scope name = none ∧ id = ⟨registry.variableEntries.size⟩ ∧
      after = registry.variableAdded scope
        { id := ⟨registry.variableEntries.size⟩, name, type, method, storage, position } := by
  rw [registerVariable_eq] at registered
  split at registered
  next => cases registered
  next fresh =>
    cases registered
    exact ⟨fresh, rfl, rfl⟩

theorem variableEntry?_variableAdded (scope : ScopeId) (entry : VariableEntry)
    (other : VariableId) : Registry.variableEntry? (registry.variableAdded scope entry) other =
      if other = ⟨registry.variableEntries.size⟩ then some entry else registry.variableEntry?
        other := by
  rcases other with ⟨other⟩
  simp [variableAdded, variableEntry?, Array.getElem?_push]

end Registry

end Decaf
