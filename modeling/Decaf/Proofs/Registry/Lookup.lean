import Decaf.Hierarchy
import Decaf.Proofs.Inheritance.Order
import Decaf.Proofs.Registry.WellFormed
import Decaf.Proofs.Registry.Enclosing

/-!
# Looking members and names up

In a registry without cycles the bound on the number of ancestors never cuts them short. So a member
name stands for what the class itself declares under it, and else for what it stands for in the
parent.
-/

namespace Decaf

namespace Registry

section

variable {registry : Registry}
variable {after : Registry} {child ancestor parent id owner : ClassId} {name : String}
  {symbol : Symbol}

/-- The parent links, as a bare relation, have no cycle. -/
def Acyclic (registry : Registry) : Prop := (Hierarchy.inheritance registry).Acyclic

/-- A class is another one or is below it. -/
def DescendsFrom (registry : Registry) (child ancestor : ClassId) : Prop :=
  Relation.ReflTransGen (fun lower upper => registry.parent? lower = some upper) child ancestor

theorem descendsFrom_congr (sameParents : ∀ id, after.parent? id = registry.parent? id) :
    after.DescendsFrom child ancestor ↔ registry.DescendsFrom child ancestor := by
  simp [DescendsFrom, sameParents]

@[simp]
theorem size_inheritance : (Hierarchy.inheritance registry).size = registry.classCount := by
  simp [Hierarchy.inheritance, Inheritance.size, classCount]

@[simp]
theorem parent?_inheritance (id : ClassId) :
    (Hierarchy.inheritance registry).parent? id = registry.parent? id := by
  rw [parent?_eq, Inheritance.parent?, Hierarchy.inheritance, Array.getElem?_map, classEntry?]

@[simp]
theorem extends_inheritance :
    (Hierarchy.inheritance registry).Extends child parent ↔
      registry.parent? child = some parent := by
  rw [Inheritance.Extends, parent?_inheritance]

theorem acyclic_congr (sameParents : ∀ id, after.parent? id = registry.parent? id)
    (acyclic : registry.Acyclic) : after.Acyclic := by
  have sameLinks : (Hierarchy.inheritance after).Extends =
      (Hierarchy.inheritance registry).Extends := by
    funext child parent
    simp [sameParents]
  intro id isAbove
  rw [Inheritance.IsAbove, sameLinks] at isAbove
  exact acyclic id isAbove

theorem lt_classCount_of_parent (parentEq : registry.parent? id = some parent) :
    id.index < registry.classCount := by
  rcases Option.bind_eq_some_iff.mp parentEq with ⟨entry, found, _⟩
  exact lt_classCount found

theorem classNamed?_eq_some (wellFormed : registry.WellFormed) :
    registry.classNamed? name = some id ↔
      (registry.classEntry? id).map ClassEntry.name = some name := by
  have named : registry.classNamed? name = some id ↔
      registry.scopes.declared? ScopeTree.global name = some (.ofClass id) := by
    rw [classNamed?]
    split <;> simp_all
  rw [named, wellFormed.global_iff]
  simp

theorem lt_classCount_of_named (wellFormed : registry.WellFormed)
    (named : registry.classNamed? name = some id) : id.index < registry.classCount := by
  rcases Option.map_eq_some_iff.mp ((classNamed?_eq_some wellFormed).mp named) with
    ⟨entry, found, _⟩
  exact lt_classCount found

theorem ancestorsWithin_succ {count : Nat}
    (ended : (Hierarchy.inheritance registry).up count id = none) :
    registry.ancestorsWithin (count + 1) id = registry.ancestorsWithin count id := by
  induction count generalizing id with
  | zero => simp [Inheritance.up] at ended
  | succ count ih =>
    rw [ancestorsWithin, ancestorsWithin]
    cases parentEq : registry.parent? id with
    | none => rfl
    | some parent =>
      simp only [Inheritance.up, parent?_inheritance, parentEq, Option.bind_some] at ended
      simp only [Option.map_some, Option.getD_some, ih ended]

theorem inRange_inheritance (known : ∀ {id parent}, registry.parent? id = some parent →
    parent.index < registry.classCount) : (Hierarchy.inheritance registry).InRange := by
  intro child parent isParent
  simpa using known (extends_inheritance.mp isParent)

/-- What holds of a class as soon as it holds of its parent holds of every class. -/
theorem Acyclic.induction (acyclic : registry.Acyclic) (wellFormed : registry.WellFormed)
    {motive : ClassId → Prop}
    (step : ∀ id, (∀ parent, registry.parent? id = some parent → motive parent) → motive id)
    (id : ClassId) : motive id := by
  have below : ∀ (count : Nat) (id : ClassId), (Hierarchy.inheritance registry).up count id = none →
      motive id := by
    intro count
    induction count with
    | zero => simp [Inheritance.up]
    | succ count ih =>
      intro id ended
      refine step id fun parent parentEq => ih parent ?_
      simpa [Inheritance.up, parentEq] using ended
  by_cases known : id.index < registry.classCount
  · refine below registry.classCount id ?_
    rw [← size_inheritance]
    exact Inheritance.up_size_eq_none acyclic (inRange_inheritance wellFormed.parent_known)
      (by simpa using known)
  · exact step id fun parent parentEq => absurd (lt_classCount_of_parent parentEq) known

theorem ancestors_eq_of_inRange (inRange : (Hierarchy.inheritance registry).InRange)
    (acyclic : registry.Acyclic) (known : id.index < registry.classCount) :
    registry.ancestors id = id :: ((registry.parent? id).map registry.ancestors).getD [] := by
  have ended : (Hierarchy.inheritance registry).up registry.classCount id = none := by
    rw [← size_inheritance]
    exact Inheritance.up_size_eq_none acyclic inRange (by simpa using known)
  rcases Nat.exists_eq_succ_of_ne_zero (Nat.ne_zero_of_lt known) with ⟨count, countEq⟩
  rw [countEq, Nat.succ_eq_add_one] at ended
  rw [ancestors, countEq, Nat.succ_eq_add_one, ancestorsWithin]
  cases parentEq : registry.parent? id with
  | none => rfl
  | some parent =>
    simp only [Inheritance.up, parent?_inheritance, parentEq, Option.bind_some] at ended
    simp only [Option.map_some, Option.getD_some, ancestors, countEq, Nat.succ_eq_add_one,
      ancestorsWithin_succ ended]

theorem ancestors_eq (wellFormed : registry.WellFormed) (acyclic : registry.Acyclic)
    (known : id.index < registry.classCount) :
    registry.ancestors id = id :: ((registry.parent? id).map registry.ancestors).getD [] :=
  ancestors_eq_of_inRange (inRange_inheritance wellFormed.parent_known) acyclic known

/-- The members of a class are its own and those of its parent. -/
theorem findMember?_eq (wellFormed : registry.WellFormed) (acyclic : registry.Acyclic)
    (owner : ClassId) (name : String) :
    registry.findMember? owner name =
      (registry.ownMember? owner name).or (registry.findInherited? owner name) := by
  rw [findMember?, findInherited?]
  by_cases known : owner.index < registry.classCount
  · rw [ancestors_eq wellFormed acyclic known, List.findSome?_cons]
    cases registry.ownMember? owner name with
    | some symbol => rfl
    | none =>
      cases registry.parent? owner with
      | none => rfl
      | some parent => rfl
  · have unknown : registry.classEntry? owner = none :=
      Array.getElem?_eq_none (Nat.le_of_not_lt known)
    have noMembers : ∀ ancestor ∈ registry.ancestors owner,
        registry.ownMember? ancestor name = none := by
      intro ancestor ancestorMem
      cases countEq : registry.classCount with
      | zero => simp [ancestors, countEq, ancestorsWithin] at ancestorMem
      | succ count =>
        simp only [ancestors, countEq, ancestorsWithin, parent?, unknown, Option.bind_none,
          Option.map_none, Option.getD_none, List.mem_singleton] at ancestorMem
        simp [ancestorMem, ownMember?, unknown]
    rw [List.findSome?_eq_none_iff.mpr noMembers]
    simp [ownMember?, parent?, unknown]

theorem descendsFrom_of_mem_ancestors
    (ancestorMem : ancestor ∈ registry.ancestors id) : registry.DescendsFrom id ancestor := by
  rw [ancestors] at ancestorMem
  generalize registry.classCount = count at ancestorMem
  induction count generalizing id with
  | zero => simp [ancestorsWithin] at ancestorMem
  | succ count ih =>
    rw [ancestorsWithin] at ancestorMem
    rcases List.mem_cons.mp ancestorMem with rfl | ancestorMem
    · exact .refl
    · cases parentEq : registry.parent? id with
      | none => simp [parentEq] at ancestorMem
      | some parent =>
        simp only [parentEq, Option.map_some, Option.getD_some] at ancestorMem
        exact .head parentEq (ih ancestorMem)

/-- Without cycles the walk upward comes to all ancestors. -/
theorem mem_ancestors_iff (inRange : (Hierarchy.inheritance registry).InRange)
    (acyclic : registry.Acyclic) (known : id.index < registry.classCount) :
    ancestor ∈ registry.ancestors id ↔ registry.DescendsFrom id ancestor := by
  refine ⟨descendsFrom_of_mem_ancestors, fun descends => ?_⟩
  induction descends using Relation.ReflTransGen.head_induction_on with
  | refl => simp [ancestors_eq_of_inRange inRange acyclic known]
  | head parentEq _ ih =>
    have parentKnown := inRange _ _ (extends_inheritance.mpr parentEq)
    rw [size_inheritance] at parentKnown
    rw [ancestors_eq_of_inRange inRange acyclic known, parentEq]
    exact List.mem_cons_of_mem _ (ih parentKnown)

theorem mem_ancestors_of_descendsFrom (wellFormed : registry.WellFormed)
    (acyclic : registry.Acyclic) (known : id.index < registry.classCount)
    (descends : registry.DescendsFrom id ancestor) : ancestor ∈ registry.ancestors id :=
  (mem_ancestors_iff (inRange_inheritance wellFormed.parent_known) acyclic known).mpr descends

/-- The walk upward depends on the parents only. -/
theorem ancestors_congr (sameCount : after.classCount = registry.classCount)
    (sameParents : ∀ id, after.parent? id = registry.parent? id) (id : ClassId) :
    after.ancestors id = registry.ancestors id := by
  have sameWalk : ∀ count id,
      after.ancestorsWithin count id = registry.ancestorsWithin count id := by
    intro count
    induction count with
    | zero => exact fun _ => rfl
    | succ count ih =>
      intro id
      rw [ancestorsWithin, ancestorsWithin, sameParents]
      cases registry.parent? id with
      | none => rfl
      | some parent => simp [ih parent]
  rw [ancestors, sameCount, sameWalk, ← ancestors]

/-- Lookups depend on the parents and on the members of the ancestors only. -/
theorem findMember?_congr (sameCount : after.classCount = registry.classCount)
    (sameParents : ∀ id, after.parent? id = registry.parent? id)
    (sameOwn : ∀ ancestor ∈ registry.ancestors id,
      after.ownMember? ancestor name = registry.ownMember? ancestor name) :
    after.findMember? id name = registry.findMember? id name := by
  rw [findMember?, findMember?, ancestors_congr sameCount sameParents]
  generalize registry.ancestors id = walk at sameOwn ⊢
  induction walk with
  | nil => rfl
  | cons first rest ih =>
    rw [List.findSome?_cons, List.findSome?_cons, sameOwn first List.mem_cons_self,
      ih fun ancestor ancestorMem => sameOwn ancestor (List.mem_cons_of_mem _ ancestorMem)]

theorem findMethod?_eq_some {id : MethodId} :
    registry.findMethod? owner name = some id ↔
      registry.findMember? owner name = some (.ofMethod id) := by
  rw [findMethod?]
  split <;> simp_all

theorem findField?_eq_some {id : FieldId} :
    registry.findField? owner name = some id ↔
      registry.findMember? owner name = some (.ofField id) := by
  rw [findField?]
  split <;> simp_all

/-- What is found in a class is declared there or further up. -/
theorem declares_of_findMember? (wellFormed : registry.WellFormed)
    (found : registry.findMember? owner name = some symbol) :
    ∃ ancestor, registry.DescendsFrom owner ancestor ∧ registry.Declares ancestor name symbol := by
  rcases List.exists_of_findSome?_eq_some found with ⟨ancestor, ancestorMem, own⟩
  exact ⟨ancestor, descendsFrom_of_mem_ancestors ancestorMem, wellFormed.own_iff.mp own⟩

theorem lt_classCount_of_findMember? (wellFormed : registry.WellFormed) (acyclic : registry.Acyclic)
    (found : registry.findMember? owner name = some symbol) :
    owner.index < registry.classCount := by
  rw [findMember?_eq wellFormed acyclic, Option.or_eq_some_iff] at found
  rcases found with own | ⟨_, inherited⟩
  · rcases Option.bind_eq_some_iff.mp own with ⟨entry, entryFound, _⟩
    exact lt_classCount entryFound
  · rcases Option.bind_eq_some_iff.mp inherited with ⟨parent, parentEq, _⟩
    exact lt_classCount_of_parent parentEq

theorem exists_methodEntry (wellFormed : registry.WellFormed)
    {id : MethodId} (found : registry.findMethod? owner name = some id) :
    ∃ entry, registry.methodEntry? id = some entry ∧ entry.name = name ∧
      registry.DescendsFrom owner entry.owner := by
  rcases declares_of_findMember? wellFormed (findMethod?_eq_some.mp found) with
    ⟨ancestor, descends, entry, entryFound, rfl, sameName⟩
  exact ⟨entry, entryFound, sameName, descends⟩

theorem exists_fieldEntry (wellFormed : registry.WellFormed)
    {id : FieldId} (found : registry.findField? owner name = some id) :
    ∃ entry, registry.fieldEntry? id = some entry ∧ entry.name = name ∧
      registry.DescendsFrom owner entry.owner := by
  rcases declares_of_findMember? wellFormed (findField?_eq_some.mp found) with
    ⟨ancestor, descends, entry, entryFound, rfl, sameName⟩
  exact ⟨entry, entryFound, sameName, descends⟩

theorem findInherited?_of_parent (parentEq : registry.parent? owner = some parent)
    (name : String) : registry.findInherited? owner name = registry.findMember? parent name := by
  rw [findInherited?, parentEq]
  rfl

/-- No class is below a class that is its own child. -/
theorem Acyclic.not_descendsFrom_parent (acyclic : registry.Acyclic)
    (parentEq : registry.parent? child = some parent) : ¬ registry.DescendsFrom parent child := by
  intro descends
  have isAbove : ∀ {lower upper}, registry.DescendsFrom lower upper →
      lower = upper ∨ (Hierarchy.inheritance registry).IsAbove lower upper := by
    intro lower upper walk
    induction walk with
    | refl => exact .inl rfl
    | tail _ step ih =>
      rcases ih with rfl | ih
      · exact .inr (.single (extends_inheritance.mpr step))
      · exact .inr (ih.tail (extends_inheritance.mpr step))
  rcases isAbove descends with rfl | isAbove
  · exact acyclic _ (.single (extends_inheritance.mpr parentEq))
  · exact acyclic _ (isAbove.tail (extends_inheritance.mpr parentEq))

/-! ## Registries with the same members -/

/-- Two registries have the same classes and members; their variables and scopes may be others. -/
structure SameMembers (registry other : Registry) : Prop where
  classes_eq : other.classes = registry.classes
  fields_eq : other.fields = registry.fields
  methods_eq : other.methods = registry.methods

namespace SameMembers

variable {other : Registry} (same : registry.SameMembers other)

include same

theorem parent?_eq (id : ClassId) : other.parent? id = registry.parent? id := by
  rw [parent?, parent?, classEntry?, classEntry?, same.classes_eq]

theorem methodEntry?_eq (id : MethodId) : other.methodEntry? id = registry.methodEntry? id := by
  rw [Registry.methodEntry?, Registry.methodEntry?, same.methods_eq]

theorem className_eq (id : ClassId) : other.className id = registry.className id := by
  rw [className, className, classEntry?, classEntry?, same.classes_eq]

theorem methodPath_eq (id : MethodId) : other.methodPath id = registry.methodPath id := by
  simp only [methodPath, same.methodEntry?_eq, same.className_eq]

theorem typeName_eq (type : DataType) : other.typeName type = registry.typeName type := by
  cases type with
  | object owner => exact same.className_eq owner
  | primitive | null => rfl

theorem isAssignable_eq (source target : DataType) :
    other.isAssignable source target = registry.isAssignable source target := by
  have sameCount : other.classCount = registry.classCount := by
    rw [classCount, classCount, same.classes_eq]
  simp only [isAssignable, isSubclass, ancestors_congr sameCount same.parent?_eq]

theorem declares_iff {owner : ClassId} {name : String} {symbol : Symbol} :
    other.Declares owner name symbol ↔ registry.Declares owner name symbol := by
  cases symbol with
  | ofField id => simp only [Declares, fieldEntry?, same.fields_eq]
  | ofMethod id => simp only [Declares, methodEntry?, same.methods_eq]
  | ofClass | ofVariable => rfl

variable (wellFormed : registry.WellFormed) (otherWellFormed : other.WellFormed)

include wellFormed otherWellFormed

theorem ownMember?_eq (owner : ClassId) (name : String) :
    other.ownMember? owner name = registry.ownMember? owner name :=
  Option.ext fun symbol => by rw [otherWellFormed.own_iff, wellFormed.own_iff, same.declares_iff]

theorem classNamed?_eq (name : String) : other.classNamed? name = registry.classNamed? name :=
  Option.ext fun id => by
    rw [classNamed?_eq_some otherWellFormed, classNamed?_eq_some wellFormed, classEntry?,
      classEntry?, same.classes_eq]

theorem resolveType?_eq (written : TypeName) :
    other.resolveType? written = registry.resolveType? written := by
  cases written with
  | primitive => rfl
  | named name => rw [resolveType?, resolveType?, same.classNamed?_eq wellFormed otherWellFormed]

theorem findMember?_eq (owner : ClassId) (name : String) :
    other.findMember? owner name = registry.findMember? owner name := by
  refine findMember?_congr ?_ same.parent?_eq fun ancestor _ =>
    same.ownMember?_eq wellFormed otherWellFormed ancestor name
  rw [classCount, classCount, same.classes_eq]

theorem findInherited?_eq (owner : ClassId) (name : String) :
    other.findInherited? owner name = registry.findInherited? owner name := by
  rw [findInherited?, findInherited?, same.parent?_eq]
  exact Option.bind_congr fun parent _ => same.findMember?_eq wellFormed otherWellFormed parent name

theorem findMethod?_eq (owner : ClassId) (name : String) :
    other.findMethod? owner name = registry.findMethod? owner name := by
  rw [findMethod?, findMethod?, same.findMember?_eq wellFormed otherWellFormed]

theorem findField?_eq (owner : ClassId) (name : String) :
    other.findField? owner name = registry.findField? owner name := by
  rw [findField?, findField?, same.findMember?_eq wellFormed otherWellFormed]

end SameMembers

end

/-!
## Looking names up

A name in a method body stands for something on record, and if it stands for a variable, then for
one of that method: the scopes around a body are its own, those of its class and the global one.
-/

section

variable {registry : Registry}
variable {count : Nat} {id : ScopeId} {scope candidate : Scope} {owner : ClassId}
  {method : MethodId} {name : String} {symbol : Symbol}

/-- Around the scope of a class there is only the global one. -/
theorem Housed.mem_chainWithin_members (housed : registry.Housed)
    (found : registry.scopes.get? id = some scope) (isMembers : scope.kind = .classMembers owner)
    (inChain : candidate ∈ registry.scopes.chainWithin count id) :
    (∃ place, registry.scopes.get? place = some candidate) ∧
      (candidate.kind = .classMembers owner ∨ candidate.kind = .global) := by
  cases count with
  | zero => simp [ScopeTree.chainWithin] at inChain
  | succ count =>
    rcases (housed.scopes found).members isMembers with ⟨outer, root, parentEq, rootFound, isGlobal⟩
    simp only [ScopeTree.chainWithin, found, parentEq, Option.map_some,
      Option.getD_some, List.mem_cons] at inChain
    rcases inChain with rfl | further
    · exact ⟨⟨id, found⟩, .inl isMembers⟩
    · cases count with
      | zero => simp [ScopeTree.chainWithin] at further
      | succ count =>
        simp only [ScopeTree.chainWithin, rootFound, (housed.scopes rootFound).global isGlobal,
          Option.map_none, Option.getD_none, List.mem_singleton] at further
        exact further ▸ ⟨⟨outer, rootFound⟩, .inr isGlobal⟩

/-- Around a scope of a method body there are scopes of that body, then that of the class, then the
global one. -/
theorem Housed.mem_chainWithin (housed : registry.Housed) (home : registry.scopes.Home id method)
    (inChain : candidate ∈ registry.scopes.chainWithin count id) :
    (∃ place, registry.scopes.get? place = some candidate ∧ registry.scopes.Home place method) ∨
      ∃ entry, registry.methodEntry? method = some entry ∧
        (∃ place, registry.scopes.get? place = some candidate) ∧
        (candidate.kind = .classMembers entry.owner ∨ candidate.kind = .global) := by
  induction home generalizing count with
  | @body id scope method found isBody =>
    cases count with
    | zero => simp [ScopeTree.chainWithin] at inChain
    | succ count =>
      rcases (housed.scopes found).body isBody with
        ⟨outer, entry, members, parentEq, methodFound, membersFound, isMembers⟩
      simp only [ScopeTree.chainWithin, found, parentEq, Option.map_some,
        Option.getD_some, List.mem_cons] at inChain
      rcases inChain with rfl | further
      · exact .inl ⟨id, found, .body found isBody⟩
      · exact .inr ⟨entry, methodFound,
          housed.mem_chainWithin_members membersFound isMembers further⟩
  | @block id parent scope method found isBlock parentEq home ih =>
    cases count with
    | zero => simp [ScopeTree.chainWithin] at inChain
    | succ count =>
      simp only [ScopeTree.chainWithin, found, parentEq, Option.map_some,
        Option.getD_some, List.mem_cons] at inChain
      rcases inChain with rfl | further
      · exact .inl ⟨id, found, .block found isBlock parentEq home⟩
      · exact ih further

theorem Closed.knows_of_get? (closed : registry.Closed)
    (found : registry.scopes.get? id = some scope)
    (symbolFound : scope.get? name = some symbol) : registry.Knows symbol := by
  rcases Option.map_eq_some_iff.mp symbolFound with ⟨declaration, declarationFound, rfl⟩
  exact (closed.scopes (Array.mem_of_getElem? found)).symbols
    (List.mem_of_find?_eq_some declarationFound)

theorem knows_of_declares (declares : registry.Declares owner name symbol) :
    registry.Knows symbol ∧ ∀ id, symbol ≠ .ofVariable id := by
  cases symbol with
  | ofClass id => exact declares.elim
  | ofVariable id => exact declares.elim
  | ofField id =>
    rcases declares with ⟨entry, found, _⟩
    exact ⟨(Array.getElem?_eq_some_iff.mp found).1, by simp⟩
  | ofMethod id =>
    rcases declares with ⟨entry, found, _⟩
    exact ⟨(Array.getElem?_eq_some_iff.mp found).1, by simp⟩

/-- What a symbol found in a method body stands for: a variable of the method, a field of its class
or of a class above, or something else that is on record. -/
structure SeenIn (registry : Registry) (method : MethodId) (symbol : Symbol) : Prop where
  known : registry.Knows symbol
  own : ∀ id, symbol = .ofVariable id → ∃ entry, registry.variableEntry? id = some entry ∧
    entry.method = method
  field : ∀ id, symbol = .ofField id → ∃ entry field, registry.methodEntry? method = some entry ∧
    registry.fieldEntry? id = some field ∧ registry.DescendsFrom entry.owner field.owner

/-- A symbol declared in a scope of a method body stands for a variable of the method. -/
theorem seenIn_of_home (consistent : registry.Consistent) (closed : registry.Closed)
    {place : ScopeId} (home : registry.scopes.Home place method)
    (found : registry.scopes.get? place = some scope) (declared : scope.get? name = some symbol) :
    registry.SeenIn method symbol := by
  have declaredHere : registry.scopes.declared? place name = some symbol := by
    simp [ScopeTree.declared?, found, declared]
  rcases consistent.declares home declaredHere with ⟨id, entry, rfl, entryFound, isOwn⟩
  refine ⟨closed.knows_of_get? found declared, ?_, by simp⟩
  rintro _ ⟨⟩
  exact ⟨entry, entryFound, isOwn⟩

/-- A member of the class or of a class above it may be named in a method. -/
theorem seenIn_of_declares {entry : MethodEntry}
    (methodFound : registry.methodEntry? method = some entry) {ancestor : ClassId}
    (descends : registry.DescendsFrom entry.owner ancestor)
    (declares : registry.Declares ancestor name symbol) : registry.SeenIn method symbol := by
  rcases knows_of_declares declares with ⟨known, notVariable⟩
  refine ⟨known, fun id isVariable => absurd isVariable (notVariable id), ?_⟩
  rintro id rfl
  rcases declares with ⟨field, fieldFound, rfl, _⟩
  exact ⟨entry, field, methodFound, fieldFound, descends⟩

theorem seenIn_of_lookup? (consistent : registry.Consistent) (closed : registry.Closed)
    (housed : registry.Housed) {scope : ScopeId} (home : registry.scopes.Home scope method)
    (found : registry.lookup? scope name = some symbol) : registry.SeenIn method symbol := by
  rcases List.exists_of_findSome?_eq_some found with ⟨candidate, inChain, visible⟩
  unfold visibleIn? at visible
  rcases housed.mem_chainWithin home inChain with
    ⟨place, candidateFound, isHome⟩ | ⟨entry, methodFound, ⟨place, candidateFound⟩, isOuter⟩
  · rcases isHome.kind with ⟨same, sameFound, _, notMembers⟩
    cases candidateFound.symm.trans sameFound
    split at visible
    next owned _ declared =>
      cases visible
      exact seenIn_of_home consistent closed isHome candidateFound declared
    next owner _ isMembers => exact absurd isMembers (notMembers owner)
    next => cases visible
  · split at visible
    next owned _ declared =>
      cases visible
      refine ⟨closed.knows_of_get? candidateFound declared, ?_, ?_⟩
      · rintro id rfl
        have outer : candidate.IsOuter := isOuter.symm.imp_right fun isMembers => ⟨_, isMembers⟩
        exact absurd declared (consistent.nested.no_variable candidateFound outer)
      · rintro id rfl
        rcases (housed.scopes candidateFound).field declared with ⟨field, fieldFound, isMembers⟩
        rcases isOuter with sameClass | isGlobal
        · have sameOwner := ScopeKind.classMembers.inj (isMembers.symm.trans sameClass)
          exact ⟨entry, field, methodFound, fieldFound, sameOwner ▸ .refl⟩
        · cases isMembers.symm.trans isGlobal
    next owner _ isMembers =>
      rcases isOuter with sameClass | isGlobal
      · cases isMembers.symm.trans sameClass
        rcases Option.bind_eq_some_iff.mp visible with ⟨parent, parentEq, inherited⟩
        rcases declares_of_findMember? consistent.toWellFormed inherited with
          ⟨ancestor, descends, declares⟩
        exact seenIn_of_declares methodFound (.head parentEq descends) declares
      · cases isMembers.symm.trans isGlobal
    next => cases visible

end

end Registry

end Decaf
