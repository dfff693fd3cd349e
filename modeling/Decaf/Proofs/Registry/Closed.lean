import Mathlib.Logic.Relation
import Decaf.Proofs.Registry.Effects

/-!
# Numbers in range

A registry is closed if every number in it names something that is on record.  Numbers stay in
range, since nothing is ever taken off the record; so a registry stays closed as long as its
operations are asked for things on record.
-/

namespace Decaf

namespace Registry

variable {registry before after : Registry}

/-- The number is that of a registered class. -/
def KnowsClass (registry : Registry) (id : ClassId) : Prop := id.index < registry.classes.size

/-- The number is that of a registered field. -/
def KnowsField (registry : Registry) (id : FieldId) : Prop := id.index < registry.fields.size

/-- The number is that of a registered method. -/
def KnowsMethod (registry : Registry) (id : MethodId) : Prop := id.index < registry.methods.size

/-- The number is that of a registered variable. -/
def KnowsVariable (registry : Registry) (id : VariableId) : Prop :=
  id.index < registry.variableEntries.size

/-- The number is that of an open scope. -/
def KnowsScope (registry : Registry) (id : ScopeId) : Prop := id.index < registry.scopes.size

/-- The class of an object type is registered. -/
def KnowsType (registry : Registry) : DataType → Prop
  | .object owner => registry.KnowsClass owner
  | .primitive _ | .null => True

/-- What a symbol stands for is registered. -/
def Knows (registry : Registry) : Symbol → Prop
  | .ofClass id => registry.KnowsClass id
  | .ofField id => registry.KnowsField id
  | .ofMethod id => registry.KnowsMethod id
  | .ofVariable id => registry.KnowsVariable id

/-- The class or the method of a scope is registered. -/
def KnowsKind (registry : Registry) : ScopeKind → Prop
  | .classMembers owner => registry.KnowsClass owner
  | .methodBody method => registry.KnowsMethod method
  | .global | .block => True

/-- Nothing is taken off the record. -/
structure Larger (before after : Registry) : Prop where
  classes_le : before.classes.size ≤ after.classes.size
  fields_le : before.fields.size ≤ after.fields.size
  methods_le : before.methods.size ≤ after.methods.size
  variables_le : before.variableEntries.size ≤ after.variableEntries.size
  scopes_le : before.scopes.size ≤ after.scopes.size

namespace Larger

theorem refl (registry : Registry) : Larger registry registry := by
  constructor <;> exact Nat.le_refl _

theorem trans {between : Registry} (early : Larger before between) (late : Larger between after) :
    Larger before after where
  classes_le := Nat.le_trans early.classes_le late.classes_le
  fields_le := Nat.le_trans early.fields_le late.fields_le
  methods_le := Nat.le_trans early.methods_le late.methods_le
  variables_le := Nat.le_trans early.variables_le late.variables_le
  scopes_le := Nat.le_trans early.scopes_le late.scopes_le

theorem knowsType (larger : Larger before after) {type : DataType} (known : before.KnowsType type) :
    after.KnowsType type := by
  cases type with
  | object owner => exact Nat.lt_of_lt_of_le known larger.classes_le
  | primitive kind => trivial
  | null => trivial

theorem knows (larger : Larger before after) {symbol : Symbol} (known : before.Knows symbol) :
    after.Knows symbol := by
  cases symbol with
  | ofClass id => exact Nat.lt_of_lt_of_le known larger.classes_le
  | ofField id => exact Nat.lt_of_lt_of_le known larger.fields_le
  | ofMethod id => exact Nat.lt_of_lt_of_le known larger.methods_le
  | ofVariable id => exact Nat.lt_of_lt_of_le known larger.variables_le

theorem knowsKind (larger : Larger before after) {kind : ScopeKind}
    (known : before.KnowsKind kind) : after.KnowsKind kind := by
  cases kind with
  | classMembers owner => exact Nat.lt_of_lt_of_le known larger.classes_le
  | methodBody method => exact Nat.lt_of_lt_of_le known larger.methods_le
  | global => trivial
  | block => trivial

end Larger

/-- A class names registered classes, members and scopes only. -/
structure ClosedClass (registry : Registry) (entry : ClassEntry) : Prop where
  id : registry.KnowsClass entry.id
  parent : ∀ {upper}, entry.parent = some upper → registry.KnowsClass upper
  scope : registry.KnowsScope entry.scope
  fields : ∀ {id}, id ∈ entry.fields → registry.KnowsField id
  methods : ∀ {id}, id ∈ entry.methods → registry.KnowsMethod id
  vtable : ∀ {id}, id ∈ entry.vtable → registry.KnowsMethod id

/-- A field names registered classes only. -/
structure ClosedField (registry : Registry) (entry : FieldEntry) : Prop where
  id : registry.KnowsField entry.id
  owner : registry.KnowsClass entry.owner
  type : registry.KnowsType entry.type

/-- A method names registered classes, variables and scopes only. -/
structure ClosedMethod (registry : Registry) (entry : MethodEntry) : Prop where
  id : registry.KnowsMethod entry.id
  owner : registry.KnowsClass entry.owner
  scope : registry.KnowsScope entry.scope
  parameters : ∀ {id}, id ∈ entry.parameters → registry.KnowsVariable id
  parameterTypes : ∀ {type}, type ∈ entry.parameterTypes → registry.KnowsType type
  returnType : registry.KnowsType entry.returnType
  overrides : ∀ {id}, entry.overrides = some id → registry.KnowsMethod id

/-- A variable names registered methods and classes only. -/
structure ClosedVariable (registry : Registry) (entry : VariableEntry) : Prop where
  id : registry.KnowsVariable entry.id
  method : registry.KnowsMethod entry.method
  type : registry.KnowsType entry.type

/-- A scope names known scopes and registered symbols only. -/
structure ClosedScope (registry : Registry) (scope : Scope) : Prop where
  kind : registry.KnowsKind scope.kind
  parent : ∀ {outer}, scope.parent = some outer → registry.KnowsScope outer
  symbols : ∀ {declaration}, declaration ∈ scope.symbols → registry.Knows declaration.2

/-- Every number that a registry mentions is in range. -/
structure Closed (registry : Registry) : Prop where
  classes : ∀ {entry}, entry ∈ registry.classes → registry.ClosedClass entry
  fields : ∀ {entry}, entry ∈ registry.fields → registry.ClosedField entry
  methods : ∀ {entry}, entry ∈ registry.methods → registry.ClosedMethod entry
  variableEntries : ∀ {entry}, entry ∈ registry.variableEntries → registry.ClosedVariable entry
  scopes : ∀ {scope}, scope ∈ registry.scopes.scopes → registry.ClosedScope scope
  global_known : registry.KnowsScope ScopeTree.global

namespace Larger

section

variable (larger : Larger before after)
include larger

theorem closedClass {entry : ClassEntry} (closed : before.ClosedClass entry) :
    after.ClosedClass entry where
  id := Nat.lt_of_lt_of_le closed.id larger.classes_le
  parent parentEq := Nat.lt_of_lt_of_le (closed.parent parentEq) larger.classes_le
  scope := Nat.lt_of_lt_of_le closed.scope larger.scopes_le
  fields isField := Nat.lt_of_lt_of_le (closed.fields isField) larger.fields_le
  methods isMethod := Nat.lt_of_lt_of_le (closed.methods isMethod) larger.methods_le
  vtable isListed := Nat.lt_of_lt_of_le (closed.vtable isListed) larger.methods_le

theorem closedField {entry : FieldEntry} (closed : before.ClosedField entry) :
    after.ClosedField entry where
  id := Nat.lt_of_lt_of_le closed.id larger.fields_le
  owner := Nat.lt_of_lt_of_le closed.owner larger.classes_le
  type := larger.knowsType closed.type

theorem closedMethod {entry : MethodEntry}
    (closed : before.ClosedMethod entry) : after.ClosedMethod entry where
  id := Nat.lt_of_lt_of_le closed.id larger.methods_le
  owner := Nat.lt_of_lt_of_le closed.owner larger.classes_le
  scope := Nat.lt_of_lt_of_le closed.scope larger.scopes_le
  parameters isParameter := Nat.lt_of_lt_of_le (closed.parameters isParameter) larger.variables_le
  parameterTypes isType := larger.knowsType (closed.parameterTypes isType)
  returnType := larger.knowsType closed.returnType
  overrides replaced := Nat.lt_of_lt_of_le (closed.overrides replaced) larger.methods_le

theorem closedVariable {entry : VariableEntry}
    (closed : before.ClosedVariable entry) : after.ClosedVariable entry where
  id := Nat.lt_of_lt_of_le closed.id larger.variables_le
  method := Nat.lt_of_lt_of_le closed.method larger.methods_le
  type := larger.knowsType closed.type

theorem closedScope {scope : Scope} (closed : before.ClosedScope scope) :
    after.ClosedScope scope where
  kind := larger.knowsKind closed.kind
  parent parentEq := Nat.lt_of_lt_of_le (closed.parent parentEq) larger.scopes_le
  symbols declared := larger.knows (closed.symbols declared)

end

end Larger

namespace Closed

theorem empty : Registry.empty.Closed where
  classes isEntry := by simp [Registry.empty] at isEntry
  fields isEntry := by simp [Registry.empty] at isEntry
  methods isEntry := by simp [Registry.empty] at isEntry
  variableEntries isEntry := by simp [Registry.empty] at isEntry
  scopes {scope} isScope := by
    have scopeEq : scope = (⟨ScopeTree.global, .global, none, []⟩ : Scope) := by
      simpa [Registry.empty, ScopeTree.start] using isScope
    subst scopeEq
    exact ⟨trivial, by simp, by simp⟩
  global_known := Nat.zero_lt_one

/-- What is on record later was there before, or mentions only things on record. -/
theorem grow (closed : before.Closed) (larger : Larger before after)
    (classes : ∀ {entry}, entry ∈ after.classes → entry ∈ before.classes ∨ after.ClosedClass entry)
    (fields : ∀ {entry}, entry ∈ after.fields → entry ∈ before.fields ∨ after.ClosedField entry)
    (methods : ∀ {entry}, entry ∈ after.methods → entry ∈ before.methods ∨ after.ClosedMethod entry)
    (variableEntries : ∀ {entry}, entry ∈ after.variableEntries →
      entry ∈ before.variableEntries ∨ after.ClosedVariable entry)
    (scopes : ∀ {scope}, scope ∈ after.scopes.scopes →
      scope ∈ before.scopes.scopes ∨ after.ClosedScope scope) : after.Closed where
  classes isEntry := (classes isEntry).elim (fun old => larger.closedClass (closed.classes old)) id
  fields isEntry := (fields isEntry).elim (fun old => larger.closedField (closed.fields old)) id
  methods isEntry := (methods isEntry).elim (fun old => larger.closedMethod (closed.methods old)) id
  variableEntries isEntry :=
    (variableEntries isEntry).elim (fun old =>
      larger.closedVariable (closed.variableEntries old)) id
  scopes isScope := (scopes isScope).elim (fun old => larger.closedScope (closed.scopes old)) id
  global_known := Nat.lt_of_lt_of_le closed.global_known larger.scopes_le

end Closed

variable {change : ClassEntry → ClassEntry} {entry : ClassEntry} {symbol : Symbol} {name : String}

theorem mem_modify {Entry : Type} {entries : Array Entry} {place : Nat} {change : Entry → Entry}
    {entry : Entry} (isEntry : entry ∈ entries.modify place change) :
    entry ∈ entries ∨ ∃ old ∈ entries, entry = change old := by
  rcases Array.getElem_of_mem isEntry with ⟨index, inRange, rfl⟩
  simp only [Array.size_modify] at inRange
  rw [Array.getElem_modify]
  split
  · exact .inr ⟨_, Array.getElem_mem inRange, rfl⟩
  · exact .inl (Array.getElem_mem inRange)

theorem mem_classes_modifyClass {id : ClassId}
    (isEntry : entry ∈ (registry.modifyClass id change).classes) :
    entry ∈ registry.classes ∨ ∃ old ∈ registry.classes, entry = change old :=
  mem_modify isEntry

theorem ClosedScope.extend {scope : Scope} (closed : registry.ClosedScope scope)
    (known : registry.Knows symbol) (name : String) :
    registry.ClosedScope (scope.extend name symbol) where
  kind := closed.kind
  parent parentEq := closed.parent parentEq
  symbols {declaration} declared := by
    simp only [Scope.extend, List.mem_append, List.mem_singleton] at declared
    rcases declared with old | rfl
    · exact closed.symbols old
    · exact known

theorem closedScope_extended (closed : before.Closed) (larger : Larger before after) {id : ScopeId}
    (known : after.Knows symbol) {scope : Scope}
    (isScope : scope ∈ (before.scopes.extended id name symbol).scopes) :
    after.ClosedScope scope := by
  have modified : scope ∈ before.scopes.scopes.modify id.index fun found =>
      found.extend name symbol :=
    isScope
  rcases mem_modify modified with old | ⟨old, oldMem, rfl⟩
  · exact larger.closedScope (closed.scopes old)
  · exact (larger.closedScope (closed.scopes oldMem)).extend known name

theorem closedScope_push {tree : ScopeTree} {kind : ScopeKind} {parent : ScopeId} {scope : Scope}
    (old : ∀ {scope}, scope ∈ tree.scopes → after.ClosedScope scope)
    (kindKnown : after.KnowsKind kind) (parentKnown : after.KnowsScope parent)
    (isScope : scope ∈ (tree.push kind parent).2.scopes) : after.ClosedScope scope := by
  simp only [ScopeTree.push, Array.mem_push] at isScope
  rcases isScope with isOld | rfl
  · exact old isOld
  · exact ⟨kindKnown, by rintro outer ⟨⟩; exact parentKnown, by simp⟩

theorem Closed.classNamed? (closed : registry.Closed) {id : ClassId}
    (named : registry.classNamed? name = some id) : registry.KnowsClass id := by
  have declared : registry.scopes.declared? ScopeTree.global name = some (.ofClass id) := by
    unfold Registry.classNamed? at named
    split at named <;> simp_all
  rcases Option.bind_eq_some_iff.mp declared with ⟨scope, scopeFound, symbolFound⟩
  rcases Option.map_eq_some_iff.mp symbolFound with ⟨declaration, declarationFound, symbolEq⟩
  have known := (closed.scopes (Array.mem_of_getElem? scopeFound)).symbols
    (List.mem_of_find?_eq_some declarationFound)
  rwa [symbolEq] at known

theorem Closed.resolveType? (closed : registry.Closed) {written : TypeName} {type : DataType}
    (resolved : registry.resolveType? written = some type) : registry.KnowsType type := by
  cases written with
  | primitive kind =>
    cases resolved
    trivial
  | named name =>
    rcases Option.map_eq_some_iff.mp resolved with ⟨id, named, rfl⟩
    exact closed.classNamed? named

/-! ## Operations in range -/

/-- One operation of the registry, asked for things on record. -/
inductive Step : Registry → Registry → Prop where
  | registerClass {before after : Registry} {id : ClassId} {name : String}
      {parentName : Option String}
      {position : Position} (registered : before.registerClass name parentName position =
        .ok (id, after)) :
      Step before after
  | registerField {before after : Registry} {id : FieldId} {owner : ClassId} {name : String}
      {type : DataType} {visibility : Visibility} {isStatic : Bool} {position : Position}
      (ownerKnown : before.KnowsClass owner) (typeKnown : before.KnowsType type)
      (registered : before.registerField owner name type visibility isStatic position =
        .ok (id, after)) :
      Step before after
  | registerMethod {before after : Registry} {id : MethodId} {signature : MethodSignature}
      (ownerKnown : before.KnowsClass signature.owner)
      (typesKnown : ∀ type ∈ signature.parameterTypes, before.KnowsType type)
      (returnKnown : before.KnowsType signature.returnType)
      (registered : before.registerMethod signature = .ok (id, after)) : Step before after
  | registerVariable {before after : Registry} {id : VariableId} {scope : ScopeId} {name : String}
      {type : DataType} {method : MethodId} {storage : Storage} {position : Position}
      (scopeKnown : before.KnowsScope scope) (typeKnown : before.KnowsType type)
      (methodKnown : before.KnowsMethod method)
      (registered : before.registerVariable scope name type method storage position =
        .ok (id, after)) :
      Step before after
  | openBlock {before : Registry} {scope : ScopeId} (scopeKnown : before.KnowsScope scope) :
      Step before (before.openBlock scope).2
  | setParent {before : Registry} {id : ClassId} {parent : Option ClassId}
      (known : before.KnowsClass id) (parentKnown : ∀ upper ∈ parent, before.KnowsClass upper) :
      Step before (before.modifyClass id fun entry => { entry with parent })
  | setVtable {before : Registry} {id : ClassId} {vtable : List MethodId}
      (known : before.KnowsClass id) (methodsKnown : ∀ method ∈ vtable, before.KnowsMethod method) :
      Step before (before.modifyClass id fun entry => { entry with vtable })
  | setOverrides {before : Registry} {id : MethodId} {overrides : Option MethodId}
      (known : before.KnowsMethod id) (replacedKnown : ∀ replaced ∈ overrides,
        before.KnowsMethod replaced) :
      Step before (before.modifyMethod id fun entry => { entry with overrides })
  | setSlot {before : Registry} {id : MethodId} {slot : Nat} (known : before.KnowsMethod id) :
      Step before (before.modifyMethod id fun entry => { entry with slot := some slot })
  | addParameter {before : Registry} {id : MethodId} {parameter : VariableId}
      (known : before.KnowsMethod id) (parameterKnown : before.KnowsVariable parameter) :
      Step before
        (before.modifyMethod id fun entry =>
          { entry with parameters := entry.parameters ++ [parameter] })

theorem larger_modifyClass (id : ClassId) (change : ClassEntry → ClassEntry) :
    Larger registry (registry.modifyClass id change) := by
  constructor <;> simp [modifyClass]

theorem larger_modifyMethod (id : MethodId) (change : MethodEntry → MethodEntry) :
    Larger registry (registry.modifyMethod id change) := by
  constructor <;> simp [modifyMethod]

section

variable (closed : registry.Closed)
include closed

theorem Closed.modifyClass {id : ClassId}
    (changed : ∀ {entry}, registry.ClosedClass entry → registry.ClosedClass (change entry)) :
    (registry.modifyClass id change).Closed := by
  have larger : Larger registry (registry.modifyClass id change) := larger_modifyClass id change
  refine closed.grow larger ?_ .inl .inl .inl .inl
  intro entry isEntry
  rcases mem_modify isEntry with old | ⟨old, oldMem, rfl⟩
  · exact .inl old
  · exact .inr (larger.closedClass (changed (closed.classes oldMem)))

theorem Closed.modifyMethod {id : MethodId} {change : MethodEntry → MethodEntry}
    (changed : ∀ {entry}, registry.ClosedMethod entry → registry.ClosedMethod (change entry)) :
    (registry.modifyMethod id change).Closed := by
  have larger : Larger registry (registry.modifyMethod id change) := larger_modifyMethod id change
  refine closed.grow larger .inl .inl ?_ .inl .inl
  intro entry isEntry
  rcases mem_modify isEntry with old | ⟨old, oldMem, rfl⟩
  · exact .inl old
  · exact .inr (larger.closedMethod (changed (closed.methods oldMem)))

theorem Closed.classAdded
    (numbered : entry.id = ⟨registry.classes.size⟩) (opened : entry.scope = ⟨registry.scopes.size⟩)
    (noParent : entry.parent = none) (noFields : entry.fields = []) (noMethods : entry.methods = [])
    (noVtable : entry.vtable = []) :
    Larger registry (registry.classAdded entry) ∧ (registry.classAdded entry).Closed := by
  have larger : Larger registry (registry.classAdded entry) := by
    constructor <;> simp [Registry.classAdded]
  have known : (registry.classAdded entry).Knows (.ofClass entry.id) := by
    simp [Knows, KnowsClass, numbered, Registry.classAdded]
  refine ⟨larger, closed.grow larger ?_ .inl .inl .inl ?_⟩
  · intro other isEntry
    simp only [Registry.classAdded, Array.mem_push] at isEntry
    rcases isEntry with old | rfl
    · exact .inl old
    · exact .inr ⟨known, by simp [noParent], by simp [KnowsScope, opened, Registry.classAdded],
        by simp [noFields], by simp [noMethods], by simp [noVtable]⟩
  · intro scope isScope
    have kindKnown : (registry.classAdded entry).KnowsKind (.classMembers entry.id) := known
    exact .inr (closedScope_push (closedScope_extended closed larger known) kindKnown
      (Nat.lt_of_lt_of_le closed.global_known larger.scopes_le) isScope)

theorem Closed.fieldAdded {entry : FieldEntry}
    (numbered : entry.id = ⟨registry.fields.size⟩) (ownerKnown : registry.KnowsClass entry.owner)
    (typeKnown : registry.KnowsType entry.type) (scope : ScopeId) :
    Larger registry (registry.fieldAdded scope entry) ∧
      (registry.fieldAdded scope entry).Closed := by
  have larger : Larger registry (registry.fieldAdded scope entry) := by
    constructor <;> simp [Registry.fieldAdded, Registry.modifyClass]
  have known : (registry.fieldAdded scope entry).Knows (.ofField entry.id) := by
    simp [Knows, KnowsField, numbered, Registry.fieldAdded]
  refine ⟨larger, closed.grow larger ?_ ?_ .inl .inl ?_⟩
  · intro other isEntry
    have modified : other ∈ (registry.modifyClass entry.owner fun found =>
      { found with fields := found.fields ++ [entry.id] }).classes := isEntry
    rcases mem_classes_modifyClass modified with old | ⟨old, oldMem, rfl⟩
    · exact .inl old
    · have oldClosed := larger.closedClass (closed.classes oldMem)
      refine .inr { oldClosed with fields := fun isField => ?_ }
      rcases List.mem_append.mp isField with isOld | isNew
      · exact oldClosed.fields isOld
      · exact List.mem_singleton.mp isNew ▸ known
  · intro other isEntry
    simp only [Registry.fieldAdded, Array.mem_push] at isEntry
    rcases isEntry with old | rfl
    · exact .inl old
    · exact .inr ⟨known, Nat.lt_of_lt_of_le ownerKnown larger.classes_le,
        larger.knowsType typeKnown⟩
  · intro other isScope
    exact .inr (closedScope_extended closed larger known isScope)

theorem Closed.methodAdded {entry : MethodEntry} {scope : ScopeId}
    (numbered : entry.id = ⟨registry.methods.size⟩) (opened : entry.scope = ⟨registry.scopes.size⟩)
    (ownerKnown : registry.KnowsClass entry.owner) (scopeKnown : registry.KnowsScope scope)
    (noParameters : entry.parameters = []) (noOverrides : entry.overrides = none)
    (typesKnown : ∀ type ∈ entry.parameterTypes, registry.KnowsType type)
    (returnKnown : registry.KnowsType entry.returnType) :
    Larger registry (registry.methodAdded scope entry) ∧
      (registry.methodAdded scope entry).Closed := by
  have larger : Larger registry (registry.methodAdded scope entry) := by
    constructor <;> simp [Registry.methodAdded, Registry.modifyClass]
  have known : (registry.methodAdded scope entry).Knows (.ofMethod entry.id) := by
    simp [Knows, KnowsMethod, numbered, Registry.methodAdded]
  refine ⟨larger, closed.grow larger ?_ .inl ?_ .inl ?_⟩
  · intro other isEntry
    have modified : other ∈ (registry.modifyClass entry.owner fun found =>
      { found with methods := found.methods ++ [entry.id] }).classes := isEntry
    rcases mem_classes_modifyClass modified with old | ⟨old, oldMem, rfl⟩
    · exact .inl old
    · have oldClosed := larger.closedClass (closed.classes oldMem)
      refine .inr { oldClosed with methods := fun isMethod => ?_ }
      rcases List.mem_append.mp isMethod with isOld | isNew
      · exact oldClosed.methods isOld
      · exact List.mem_singleton.mp isNew ▸ known
  · intro other isEntry
    simp only [Registry.methodAdded, Array.mem_push] at isEntry
    rcases isEntry with old | rfl
    · exact .inl old
    · refine .inr ⟨known, Nat.lt_of_lt_of_le ownerKnown larger.classes_le, ?_,
        by simp [noParameters], fun isType => larger.knowsType (typesKnown _ isType),
        larger.knowsType returnKnown,
        by simp [noOverrides]⟩
      simp [KnowsScope, opened, Registry.methodAdded]
  · intro other isScope
    have kindKnown : (registry.methodAdded scope entry).KnowsKind (.methodBody entry.id) := known
    exact .inr (closedScope_push (closedScope_extended closed larger known) kindKnown
      (Nat.lt_of_lt_of_le scopeKnown larger.scopes_le) isScope)

theorem Closed.variableAdded {entry : VariableEntry}
    (numbered : entry.id = ⟨registry.variableEntries.size⟩)
    (methodKnown : registry.KnowsMethod entry.method) (typeKnown : registry.KnowsType entry.type)
    (scope : ScopeId) :
    Larger registry (registry.variableAdded scope entry) ∧
      (registry.variableAdded scope entry).Closed := by
  have larger : Larger registry (registry.variableAdded scope entry) := by
    constructor <;> simp [Registry.variableAdded]
  have known : (registry.variableAdded scope entry).Knows (.ofVariable entry.id) := by
    simp [Knows, KnowsVariable, numbered, Registry.variableAdded]
  refine ⟨larger, closed.grow larger .inl .inl .inl ?_ ?_⟩
  · intro other isEntry
    simp only [Registry.variableAdded, Array.mem_push] at isEntry
    rcases isEntry with old | rfl
    · exact .inl old
    · exact .inr ⟨known, Nat.lt_of_lt_of_le methodKnown larger.methods_le,
        larger.knowsType typeKnown⟩
  · intro other isScope
    exact .inr (closedScope_extended closed larger known isScope)

theorem Closed.openBlock {scope : ScopeId} (known : registry.KnowsScope scope) :
    Larger registry (registry.openBlock scope).2 ∧ (registry.openBlock scope).2.Closed := by
  have larger : Larger registry (registry.openBlock scope).2 := by
    constructor <;> simp [Registry.openBlock]
  refine ⟨larger, closed.grow larger .inl .inl .inl .inl ?_⟩
  intro other isScope
  have kindKnown : (registry.openBlock scope).2.KnowsKind .block := trivial
  exact .inr (closedScope_push (fun old => larger.closedScope (closed.scopes old)) kindKnown
    (Nat.lt_of_lt_of_le known larger.scopes_le) isScope)

end

namespace Step

theorem larger_and_closed (step : Step before after) (closed : before.Closed) :
    Larger before after ∧ after.Closed := by
  cases step with
  | registerClass registered =>
    rcases classAdded_of_registerClass registered with ⟨-, -, rfl⟩
    exact closed.classAdded rfl rfl rfl rfl rfl rfl
  | registerField ownerKnown typeKnown registered =>
    rcases fieldAdded_of_registerField ownerKnown registered with ⟨_, -, -, -, rfl⟩
    exact closed.fieldAdded rfl ownerKnown typeKnown _
  | registerMethod ownerKnown typesKnown returnKnown registered =>
    rcases methodAdded_of_registerMethod ownerKnown registered with ⟨found, foundEq, -, -, rfl⟩
    have foundClosed := closed.classes (Array.mem_of_getElem? foundEq)
    exact closed.methodAdded rfl rfl ownerKnown foundClosed.scope rfl rfl typesKnown returnKnown
  | registerVariable scopeKnown typeKnown methodKnown registered =>
    rcases variableAdded_of_registerVariable registered with ⟨-, -, rfl⟩
    exact closed.variableAdded rfl methodKnown typeKnown _
  | openBlock scopeKnown => exact closed.openBlock scopeKnown
  | setParent known parentKnown =>
    refine ⟨larger_modifyClass _ _, closed.modifyClass fun entryClosed => ?_⟩
    exact { entryClosed with parent := fun parentEq => parentKnown _ parentEq }
  | setVtable known methodsKnown =>
    refine ⟨larger_modifyClass _ _, closed.modifyClass fun entryClosed => ?_⟩
    exact { entryClosed with vtable := fun isListed => methodsKnown _ isListed }
  | setOverrides known replacedKnown =>
    refine ⟨larger_modifyMethod _ _, closed.modifyMethod fun entryClosed => ?_⟩
    exact { entryClosed with overrides := fun replaced => replacedKnown _ replaced }
  | setSlot known =>
    refine ⟨larger_modifyMethod _ _, closed.modifyMethod fun entryClosed => ?_⟩
    exact { entryClosed with }
  | addParameter known parameterKnown =>
    refine ⟨larger_modifyMethod _ _, closed.modifyMethod fun entryClosed => ?_⟩
    refine { entryClosed with parameters := fun isParameter => ?_ }
    rcases List.mem_append.mp isParameter with isOld | isNew
    · exact entryClosed.parameters isOld
    · exact List.mem_singleton.mp isNew ▸ parameterKnown

end Step

/-- Any number of operations, each asked for things on record. -/
def Run : Registry → Registry → Prop := Relation.ReflTransGen Step

theorem Run.closed (run : Run before after) (closed : before.Closed) : after.Closed := by
  induction run with
  | refl => exact closed
  | tail _ step ih => exact (step.larger_and_closed ih).2

theorem Run.larger (run : Run before after) (closed : before.Closed) : Larger before after := by
  induction run with
  | refl => exact .refl before
  | tail run step ih =>
    have more := (step.larger_and_closed (Run.closed run closed)).1
    exact ih.trans more

end Registry

end Decaf
