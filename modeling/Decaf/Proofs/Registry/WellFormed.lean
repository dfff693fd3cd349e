import Mathlib.Data.List.Nodup
import Decaf.Proofs.Registry.Effects

/-!
# Registries whose parts agree

A class lists its members in its entry, the members name their class, and the scope of the class
maps their names to them. The three views agree in every registry that registrations lead to, and so
do the numbers of the entries with their places.
-/

namespace Decaf

namespace ScopeTree

/-- Scopes keep their places and what they declare. -/
def Grows (before after : ScopeTree) : Prop :=
  ∀ id scope, before.get? id = some scope → ∃ grown, after.get? id = some grown ∧
    grown.kind = scope.kind ∧ grown.parent = scope.parent ∧ scope.symbols <+: grown.symbols

namespace Grows

theorem kind_eq {tree grown : ScopeTree} (grows : tree.Grows grown) {id : ScopeId}
    {kind : ScopeKind} (found : ∃ scope, tree.get? id = some scope ∧ scope.kind = kind) :
    ∃ scope, grown.get? id = some scope ∧ scope.kind = kind := by
  rcases found with ⟨scope, scopeFound, kindEq⟩
  rcases grows id scope scopeFound with ⟨final, finalFound, sameKind, _, _⟩
  exact ⟨final, finalFound, sameKind.trans kindEq⟩

theorem refl (tree : ScopeTree) : Grows tree tree :=
  fun _ scope found => ⟨scope, found, rfl, rfl, List.prefix_rfl⟩

theorem trans {first second third : ScopeTree} (early : Grows first second)
    (late : Grows second third) : Grows first third := by
  intro id scope found
  rcases early id scope found with ⟨grown, grownFound, sameKind, sameParent, isPrefix⟩
  rcases late id grown grownFound with ⟨final, finalFound, finalKind, finalParent, finalPrefix⟩
  exact ⟨final, finalFound, finalKind.trans sameKind, finalParent.trans sameParent,
    isPrefix.trans finalPrefix⟩

theorem extended (tree : ScopeTree) (scope : ScopeId) (name : String) (symbol : Symbol) :
    Grows tree (tree.extended scope name symbol) := by
  intro id found foundEq
  rw [get?_extended, foundEq]
  split
  · exact ⟨_, rfl, rfl, rfl, List.prefix_append _ _⟩
  · exact ⟨found, rfl, rfl, rfl, List.prefix_rfl⟩

theorem push (tree : ScopeTree) (kind : ScopeKind) (parent : ScopeId) :
    Grows tree (tree.push kind parent).2 := by
  intro id found foundEq
  have isOld : id ≠ ⟨tree.size⟩ := by
    rintro rfl
    exact absurd (lt_size_of_get? foundEq) (Nat.lt_irrefl _)
  rw [get?_push, if_neg isOld]
  exact ⟨found, foundEq, rfl, rfl, List.prefix_rfl⟩

end Grows

variable {tree : ScopeTree}

theorem declared?_extended (scope other : ScopeId) (name otherName : String) (symbol : Symbol) :
    (tree.extended scope name symbol).declared? other otherName =
      (tree.declared? other otherName).or
        (if scope = other ∧ name = otherName ∧ (tree.get? other).isSome then some symbol
        else none) := by
  rw [declared?, get?_extended, declared?]
  cases tree.get? other with
  | none => by_cases same : scope = other <;> simp [same]
  | some found => by_cases same : scope = other <;> simp [same]

theorem declared?_push {kind : ScopeKind} {parent other : ScopeId} (known : other.index < tree.size)
    (name : String) :
    (tree.push kind parent).2.declared? other name = tree.declared? other name := by
  have isOld : other ≠ ⟨tree.size⟩ := by
    rintro rfl
    exact absurd known (Nat.lt_irrefl _)
  rw [declared?, get?_push, if_neg isOld, declared?]

end ScopeTree

namespace Registry

variable {registry : Registry}

/-- The fields of a class in the order of registration, found among all fields. -/
def fieldsOf (registry : Registry) (owner : ClassId) : List FieldId :=
  (registry.fields.toList.filter fun entry => entry.owner = owner).map FieldEntry.id

/-- The methods of a class in the order of registration, found among all methods. -/
def methodsOf (registry : Registry) (owner : ClassId) : List MethodId :=
  (registry.methods.toList.filter fun entry => entry.owner = owner).map MethodEntry.id

/-- A symbol is a member of a class, under its own name. -/
def Declares (registry : Registry) (owner : ClassId) (name : String) : Symbol → Prop
  | .ofField id =>
    ∃ entry, registry.fieldEntry? id = some entry ∧ entry.owner = owner ∧ entry.name = name
  | .ofMethod id =>
    ∃ entry, registry.methodEntry? id = some entry ∧ entry.owner = owner ∧ entry.name = name
  | .ofClass _ => False
  | .ofVariable _ => False

/-- All views of the classes and their members agree. -/
structure WellFormed (registry : Registry) : Prop where
  class_id : ∀ {id entry}, registry.classEntry? id = some entry → entry.id = id
  field_id : ∀ {id entry}, registry.fieldEntry? id = some entry → entry.id = id
  method_id : ∀ {id entry}, registry.methodEntry? id = some entry → entry.id = id
  class_scope : ∀ {id entry}, registry.classEntry? id = some entry →
    ∃ scope, registry.scopes.get? entry.scope = some scope ∧ scope.kind = .classMembers id
  method_scope : ∀ {id entry}, registry.methodEntry? id = some entry →
    ∃ scope, registry.scopes.get? entry.scope = some scope ∧ scope.kind = .methodBody id
  parent_known : ∀ {id parent}, registry.parent? id = some parent →
    parent.index < registry.classCount
  field_owner : ∀ {id entry}, registry.fieldEntry? id = some entry →
    entry.owner.index < registry.classCount
  method_owner : ∀ {id entry}, registry.methodEntry? id = some entry →
    entry.owner.index < registry.classCount
  fields_eq : ∀ {id entry}, registry.classEntry? id = some entry →
    entry.fields = registry.fieldsOf id
  methods_eq : ∀ {id entry}, registry.classEntry? id = some entry →
    entry.methods = registry.methodsOf id
  global_scope : ∃ scope, registry.scopes.get? ScopeTree.global = some scope ∧ scope.kind = .global
  global_iff : ∀ {name symbol}, registry.scopes.declared? ScopeTree.global name = some symbol ↔
    ∃ id, symbol = .ofClass id ∧ (registry.classEntry? id).map ClassEntry.name = some name
  own_iff : ∀ {owner name symbol}, registry.ownMember? owner name = some symbol ↔
    registry.Declares owner name symbol

theorem ownMember?_eq (owner : ClassId) (name : String) :
    registry.ownMember? owner name =
      (registry.memberScope? owner).bind fun scope => registry.scopes.declared? scope name := by
  rw [ownMember?, memberScope?]
  cases registry.classEntry? owner <;> rfl

theorem memberScope?_eq_some {owner : ClassId} {scope : ScopeId} :
    registry.memberScope? owner = some scope ↔
      ∃ entry, registry.classEntry? owner = some entry ∧ entry.scope = scope := by
  simp [memberScope?]

namespace WellFormed

variable {scope : ScopeId} {owner : ClassId}

section

variable (wellFormed : registry.WellFormed)
include wellFormed

theorem scope_unique {first second : ClassId}
    (firstScope : registry.memberScope? first = some scope)
    (secondScope : registry.memberScope? second = some scope) : first = second := by
  rcases memberScope?_eq_some.mp firstScope with ⟨firstEntry, firstFound, rfl⟩
  rcases memberScope?_eq_some.mp secondScope with ⟨secondEntry, secondFound, sameScope⟩
  rcases wellFormed.class_scope firstFound with ⟨found, foundEq, firstKind⟩
  rcases wellFormed.class_scope secondFound with ⟨other, otherEq, secondKind⟩
  rw [sameScope, foundEq] at otherEq
  cases otherEq
  exact ScopeKind.classMembers.inj (firstKind.symm.trans secondKind)

theorem memberScope_known
    (found : registry.memberScope? owner = some scope) : (registry.scopes.get? scope).isSome := by
  rcases memberScope?_eq_some.mp found with ⟨entry, entryFound, rfl⟩
  rcases wellFormed.class_scope entryFound with ⟨scope, scopeFound, _⟩
  rw [scopeFound]
  rfl

/-- The scope of a class is not that of another kind. -/
theorem memberScope_ne {other : ScopeId}
    {kind : ScopeKind} (ownScope : registry.memberScope? owner = some scope)
    (otherScope : ∃ found, registry.scopes.get? other = some found ∧ found.kind = kind)
    (differs : kind ≠ .classMembers owner) : scope ≠ other := by
  rintro rfl
  rcases memberScope?_eq_some.mp ownScope with ⟨entry, entryFound, rfl⟩
  rcases wellFormed.class_scope entryFound with ⟨found, foundEq, foundKind⟩
  rcases otherScope with ⟨same, sameEq, rfl⟩
  rw [foundEq] at sameEq
  cases sameEq
  exact differs foundKind

theorem mem_fields {entry : FieldEntry} :
    entry ∈ registry.fields.toList ↔ registry.fieldEntry? entry.id = some entry := by
  constructor
  · intro entryMem
    rcases List.getElem?_of_mem entryMem with ⟨place, placeEq⟩
    have found : registry.fieldEntry? ⟨place⟩ = some entry := by
      rw [Registry.fieldEntry?, ← Array.getElem?_toList]
      exact placeEq
    rw [wellFormed.field_id found]
    exact found
  · intro found
    rw [Registry.fieldEntry?, ← Array.getElem?_toList] at found
    exact List.mem_of_getElem? found

theorem mem_methods {entry : MethodEntry} :
    entry ∈ registry.methods.toList ↔ registry.methodEntry? entry.id = some entry := by
  constructor
  · intro entryMem
    rcases List.getElem?_of_mem entryMem with ⟨place, placeEq⟩
    have found : registry.methodEntry? ⟨place⟩ = some entry := by
      rw [Registry.methodEntry?, ← Array.getElem?_toList]
      exact placeEq
    rw [wellFormed.method_id found]
    exact found
  · intro found
    rw [Registry.methodEntry?, ← Array.getElem?_toList] at found
    exact List.mem_of_getElem? found

theorem mem_fieldsOf {id : FieldId} :
    id ∈ registry.fieldsOf owner ↔
      ∃ entry, registry.fieldEntry? id = some entry ∧ entry.owner = owner := by
  simp only [fieldsOf, List.mem_map, List.mem_filter, decide_eq_true_eq, wellFormed.mem_fields]
  constructor
  · rintro ⟨entry, ⟨found, owned⟩, rfl⟩
    exact ⟨entry, found, owned⟩
  · rintro ⟨entry, found, owned⟩
    have same := wellFormed.field_id found
    exact ⟨entry, ⟨by rwa [same], owned⟩, same⟩

theorem mem_methodsOf {id : MethodId} :
    id ∈ registry.methodsOf owner ↔
      ∃ entry, registry.methodEntry? id = some entry ∧ entry.owner = owner := by
  simp only [methodsOf, List.mem_map, List.mem_filter, decide_eq_true_eq, wellFormed.mem_methods]
  constructor
  · rintro ⟨entry, ⟨found, owned⟩, rfl⟩
    exact ⟨entry, found, owned⟩
  · rintro ⟨entry, found, owned⟩
    have same := wellFormed.method_id found
    exact ⟨entry, ⟨by rwa [same], owned⟩, same⟩

end

/-- Entries that are numbered by their places have different numbers. -/
theorem nodup_numbers {Entry Number : Type} {numberOf : Entry → Number} {number : Nat → Number}
    {entries : Array Entry}
    (injective : ∀ first second, number first = number second → first = second)
    (numbered : ∀ (place : Nat) entry, entries[place]? = some entry →
      numberOf entry = number place) :
    (entries.toList.map numberOf).Nodup := by
  have inOrder : entries.toList.map numberOf = (List.range entries.size).map number := by
    refine List.ext_getElem (by simp) ?_
    intro place placeLt _
    simp only [List.length_map, Array.length_toList] at placeLt
    simpa using numbered place _ (Array.getElem?_eq_getElem placeLt)
  rw [inOrder]
  exact List.nodup_range.map injective

theorem nodup_methodsOf (wellFormed : registry.WellFormed) (owner : ClassId) :
    (registry.methodsOf owner).Nodup := by
  have numbered : ∀ (place : Nat) entry, registry.methods[place]? = some entry →
      entry.id = ⟨place⟩ :=
    fun place entry (found : registry.methodEntry? ⟨place⟩ = some entry) =>
      wellFormed.method_id found
  exact (nodup_numbers (fun _ _ same => congrArg MethodId.index same) numbered).sublist
    (List.filter_sublist.map _)

theorem nodup_fieldsOf (wellFormed : registry.WellFormed) (owner : ClassId) :
    (registry.fieldsOf owner).Nodup := by
  have numbered : ∀ (place : Nat) entry, registry.fields[place]? = some entry →
      entry.id = ⟨place⟩ :=
    fun place entry (found : registry.fieldEntry? ⟨place⟩ = some entry) => wellFormed.field_id found
  exact (nodup_numbers (fun _ _ same => congrArg FieldId.index same) numbered).sublist
    (List.filter_sublist.map _)

end WellFormed

/-! ## Members of a class behind a registration -/

section

variable {owner : ClassId} {found : ClassEntry}
variable {View : Type}

/-- What a change leaves alone can be read off the entry before it. -/
theorem map_classEntry?_modifyClass (view : ClassEntry → View) {id : ClassId}
    {change : ClassEntry → ClassEntry} (same : ∀ entry, view (change entry) = view entry)
    (other : ClassId) :
    (Registry.classEntry? (registry.modifyClass id change) other).map view =
      (registry.classEntry? other).map view := by
  rw [Registry.classEntry?_modifyClass]
  split
  · rw [Option.map_map]
    exact congrArg (fun read => Option.map read _) (funext same)
  · rfl

theorem parent?_eq (id : ClassId) :
    registry.parent? id = ((registry.classEntry? id).map ClassEntry.parent).join := by
  rw [parent?]
  cases registry.classEntry? id <;> rfl

theorem map_classEntry?_fieldAdded (view : ClassEntry → View)
    (same : ∀ (entry : ClassEntry) (fields : List FieldId), view { entry with fields } = view entry)
    (scope : ScopeId) (entry : FieldEntry) (other : ClassId) :
    (Registry.classEntry? (registry.fieldAdded scope entry) other).map view =
      (registry.classEntry? other).map view :=
  map_classEntry?_modifyClass view (fun _ => same _ _) other

theorem map_classEntry?_methodAdded (view : ClassEntry → View)
    (same : ∀ (entry : ClassEntry) (methods : List MethodId),
      view { entry with methods } = view entry)
    (scope : ScopeId) (entry : MethodEntry) (other : ClassId) :
    (Registry.classEntry? (registry.methodAdded scope entry) other).map view =
      (registry.classEntry? other).map view :=
  map_classEntry?_modifyClass view (fun _ => same _ _) other

@[simp]
theorem parent?_fieldAdded (scope : ScopeId) (entry : FieldEntry) (other : ClassId) :
    (registry.fieldAdded scope entry).parent? other = registry.parent? other := by
  rw [parent?_eq, map_classEntry?_fieldAdded ClassEntry.parent (fun _ _ => rfl), parent?_eq]

@[simp]
theorem memberScope?_fieldAdded (scope : ScopeId) (entry : FieldEntry) (other : ClassId) :
    (registry.fieldAdded scope entry).memberScope? other = registry.memberScope? other :=
  map_classEntry?_fieldAdded ClassEntry.scope (fun _ _ => rfl) scope entry other

@[simp]
theorem parent?_methodAdded (scope : ScopeId) (entry : MethodEntry) (other : ClassId) :
    (registry.methodAdded scope entry).parent? other = registry.parent? other := by
  rw [parent?_eq, map_classEntry?_methodAdded ClassEntry.parent (fun _ _ => rfl), parent?_eq]

@[simp]
theorem memberScope?_methodAdded (scope : ScopeId) (entry : MethodEntry) (other : ClassId) :
    (registry.methodAdded scope entry).memberScope? other = registry.memberScope? other :=
  map_classEntry?_methodAdded ClassEntry.scope (fun _ _ => rfl) scope entry other

/-- Only the class in whose scope a symbol is declared has a member more. -/
theorem ownMember?_of_extended {after : Registry} {symbol : Symbol} {name : String}
    (wellFormed : registry.WellFormed) (known : registry.classEntry? owner = some found)
    (sameScopes : ∀ other, after.memberScope? other = registry.memberScope? other)
    (sameDeclared : ∀ other scope otherName, registry.memberScope? other = some scope →
      after.scopes.declared? scope otherName =
        (registry.scopes.extended found.scope name symbol).declared? scope otherName)
    (other : ClassId) (otherName : String) :
    after.ownMember? other otherName =
      (registry.ownMember? other otherName).or
        (if owner = other ∧ name = otherName then some symbol else none) := by
  rw [ownMember?_eq, ownMember?_eq, sameScopes]
  cases scopeEq : registry.memberScope? other with
  | none =>
    have differs : owner ≠ other := by
      rintro rfl
      simp [memberScope?, known] at scopeEq
    simp [differs]
  | some scope =>
    have isScope : (registry.scopes.get? scope).isSome := wellFormed.memberScope_known scopeEq
    have ownScope : registry.memberScope? owner = some found.scope := by
      rw [memberScope?, known]
      rfl
    have sameClass : found.scope = scope ↔ owner = other := by
      constructor
      · rintro rfl
        exact wellFormed.scope_unique ownScope scopeEq
      · rintro rfl
        exact Option.some.inj (ownScope.symm.trans scopeEq)
    rw [Option.bind_some, Option.bind_some, sameDeclared other scope otherName scopeEq,
      ScopeTree.declared?_extended]
    simp [isScope, sameClass]

theorem declared?_global_of_extended (wellFormed : registry.WellFormed)
    (known : registry.classEntry? owner = some found) (memberName : String) (symbol : Symbol)
    (name : String) :
    (registry.scopes.extended found.scope memberName symbol).declared? ScopeTree.global name =
      registry.scopes.declared? ScopeTree.global name := by
  have ownScope : registry.memberScope? owner = some found.scope := by
    rw [memberScope?, known]
    rfl
  have differs := wellFormed.memberScope_ne ownScope wellFormed.global_scope (by simp)
  simp [ScopeTree.declared?_extended, differs]

end

end Registry

end Decaf
