import Decaf.Members
import Decaf.Proofs.Registry.Lookup
import Decaf.Proofs.Registry.Lexical

/-!
# Registering the members of a class

While a class gets its members, the entries of all other classes and of their methods stay as they
are. So lookups in classes that are not below the class give the same answers as before.
-/

namespace Decaf

namespace Registry

section

/-- Only one class, its members and its methods' variables differ. -/
structure ChangesOnly (owner : ClassId) (before after : Registry) : Prop where
  classCount_eq : after.classCount = before.classCount
  parent_eq : ∀ id, after.parent? id = before.parent? id
  class_eq : ∀ {id}, id ≠ owner → after.classEntry? id = before.classEntry? id
  own_eq : ∀ {id}, id ≠ owner → ∀ name, after.ownMember? id name = before.ownMember? id name
  method_iff : ∀ {id : MethodId} {entry : MethodEntry}, entry.owner ≠ owner →
    (after.methodEntry? id = some entry ↔ before.methodEntry? id = some entry)

namespace ChangesOnly

variable {owner : ClassId} {before after : Registry}
variable {id : ClassId} {found : ClassEntry}

theorem refl (owner : ClassId) (registry : Registry) : ChangesOnly owner registry registry :=
  ⟨rfl, fun _ => rfl, fun _ => rfl, fun _ _ => rfl, fun _ => Iff.rfl⟩

theorem trans {final : Registry} (early : ChangesOnly owner before after)
    (late : ChangesOnly owner after final) : ChangesOnly owner before final where
  classCount_eq := late.classCount_eq.trans early.classCount_eq
  parent_eq id := (late.parent_eq id).trans (early.parent_eq id)
  class_eq differs := (late.class_eq differs).trans (early.class_eq differs)
  own_eq differs name := (late.own_eq differs name).trans (early.own_eq differs name)
  method_iff differs := (late.method_iff differs).trans (early.method_iff differs)

section

variable (changes : ChangesOnly owner before after)
include changes

theorem acyclic (acyclic : before.Acyclic) : after.Acyclic :=
  acyclic_congr changes.parent_eq acyclic

theorem findMember?_eq (apart : ¬ before.DescendsFrom id owner) (name : String) :
    after.findMember? id name = before.findMember? id name := by
  refine findMember?_congr changes.classCount_eq changes.parent_eq ?_
  intro ancestor ancestorMem
  refine changes.own_eq ?_ name
  rintro rfl
  exact apart (descendsFrom_of_mem_ancestors ancestorMem)

theorem findMethod?_eq (apart : ¬ before.DescendsFrom id owner) (name : String) :
    after.findMethod? id name = before.findMethod? id name := by
  rw [findMethod?, findMethod?, changes.findMember?_eq apart]

theorem findInherited?_eq (acyclic : before.Acyclic)
    (name : String) : after.findInherited? owner name = before.findInherited? owner name := by
  rw [findInherited?, findInherited?, changes.parent_eq]
  cases parentEq : before.parent? owner with
  | none => rfl
  | some parent => exact changes.findMember?_eq (acyclic.not_descendsFrom_parent parentEq) name

end

/-! ## The changes in question -/

variable {registry : Registry}

theorem fieldAdded (wellFormed : registry.WellFormed) {entry : FieldEntry}
    (known : registry.classEntry? entry.owner = some found) :
    ChangesOnly entry.owner registry (registry.fieldAdded found.scope entry) where
  classCount_eq := classCount_fieldAdded _ _
  parent_eq := parent?_fieldAdded _ _
  class_eq differs := by rw [Registry.classEntry?_fieldAdded, if_neg (Ne.symm differs)]
  own_eq differs name := by simp [ownMember?_fieldAdded wellFormed known, Ne.symm differs]
  method_iff _ := Iff.rfl

theorem methodAdded (wellFormed : registry.WellFormed) {entry : MethodEntry}
    (known : registry.classEntry? entry.owner = some found) :
    ChangesOnly entry.owner registry (registry.methodAdded found.scope entry) where
  classCount_eq := classCount_methodAdded _ _
  parent_eq := parent?_methodAdded _ _
  class_eq differs := by rw [Registry.classEntry?_methodAdded, if_neg (Ne.symm differs)]
  own_eq differs name := by simp [ownMember?_methodAdded wellFormed known, Ne.symm differs]
  method_iff := by
    intro id other differs
    rw [Registry.methodEntry?_methodAdded]
    split
    next isNew =>
      have unknown : registry.methodEntry? id = none := by
        subst isNew
        simp [Registry.methodEntry?]
      rw [unknown]
      constructor
      · rintro ⟨⟩
        exact absurd rfl differs
      · rintro ⟨⟩
    next => exact Iff.rfl

theorem modifyMethod {id : MethodId} {method : MethodEntry} {change : MethodEntry → MethodEntry}
    (found : registry.methodEntry? id = some method) (owned : method.owner = owner)
    (sameOwner : ∀ entry, (change entry).owner = entry.owner) :
    ChangesOnly owner registry (registry.modifyMethod id change) where
  classCount_eq := rfl
  parent_eq _ := rfl
  class_eq _ := rfl
  own_eq _ _ := rfl
  method_iff := by
    intro other entry differs
    rw [Registry.methodEntry?_modifyMethod]
    split
    next same =>
      subst same
      rw [found]
      constructor
      · rintro ⟨⟩
        exact absurd ((sameOwner method).trans owned) differs
      · rintro ⟨⟩
        exact absurd owned differs
    next => exact Iff.rfl

theorem modifyClass {change : ClassEntry → ClassEntry}
    (sameParent : ∀ entry, (change entry).parent = entry.parent)
    (sameScope : ∀ entry, (change entry).scope = entry.scope) :
    ChangesOnly id registry (registry.modifyClass id change) where
  classCount_eq := classCount_modifyClass _ _
  parent_eq other := by
    rw [parent?_eq, map_classEntry?_modifyClass ClassEntry.parent sameParent, parent?_eq]
  class_eq differs := by rw [Registry.classEntry?_modifyClass, if_neg (Ne.symm differs)]
  own_eq := by
    intro other _ name
    have sameScopes : (registry.modifyClass id change).memberScope? other =
        registry.memberScope? other :=
      map_classEntry?_modifyClass ClassEntry.scope sameScope other
    rw [ownMember?_eq, sameScopes, scopes_modifyClass, ← ownMember?_eq]
  method_iff _ := Iff.rfl

theorem variableAdded (wellFormed : registry.WellFormed) {scope : ScopeId} {method : MethodId}
    (home : registry.scopes.Home scope method) (entry : VariableEntry) (owner : ClassId) :
    ChangesOnly owner registry (registry.variableAdded scope entry) where
  classCount_eq := rfl
  parent_eq _ := rfl
  class_eq _ := rfl
  own_eq _ name := ownMember?_variableAdded wellFormed home entry _ name
  method_iff _ := Iff.rfl

end ChangesOnly

end

/-!
## Members without faults

A declared field or method about which there is no complaint is registered, and fits what its class
inherits: a field has a name that means nothing above its class, and a method has a new name or
takes over the name and the signature of an inherited method.
-/

section

variable {before after : Registry} {owner : ClassId}

/-- Two methods that one call can mean. -/
structure SameSignature (left right : MethodEntry) : Prop where
  isStatic_eq : left.isStatic = right.isStatic
  parameterTypes_eq : left.parameterTypes = right.parameterTypes
  returnType_eq : left.returnType = right.returnType

/-- A method has a name that is new to its class, or replaces the inherited method of that name. -/
def Replaces (registry : Registry) (owner : ClassId) (method : MethodEntry) : Prop :=
  (registry.findInherited? owner method.name = none ∧ method.overrides = none) ∨
    ∃ replaced inherited, registry.findInherited? owner method.name = some (.ofMethod replaced) ∧
      registry.methodEntry? replaced = some inherited ∧ method.overrides = some replaced ∧
      SameSignature method inherited

/-- The own members of a class fit what it inherits, and no own method has a slot yet. -/
structure Fits (registry : Registry) (owner : ClassId) : Prop where
  field_fresh : ∀ {id field}, registry.fieldEntry? id = some field → field.owner = owner →
    registry.findInherited? owner field.name = none
  method_fits : ∀ {id method}, registry.methodEntry? id = some method → method.owner = owner →
    method.slot = none ∧ registry.Replaces owner method

theorem Replaces.change {method : MethodEntry} (wellFormed : before.WellFormed)
    (acyclic : before.Acyclic) (changes : ChangesOnly owner before after)
    (replaces : before.Replaces owner method) : after.Replaces owner method := by
  rcases replaces with ⟨isNew, overridesNone⟩ | ⟨replaced, inherited, found, entryFound,
    overridesEq, same⟩
  · left
    exact ⟨by rw [changes.findInherited?_eq acyclic, isNew], overridesNone⟩
  · right
    refine ⟨replaced, inherited, by rw [changes.findInherited?_eq acyclic, found], ?_,
      overridesEq, same⟩
    refine (changes.method_iff ?_).mpr entryFound
    rintro rfl
    rcases Option.bind_eq_some_iff.mp found with ⟨parent, parentEq, inParent⟩
    rcases declares_of_findMember? wellFormed inParent with
      ⟨ancestor, descends, entry, sameFound, rfl, _⟩
    cases entryFound.symm.trans sameFound
    exact acyclic.not_descendsFrom_parent parentEq descends

theorem Fits.of_changes (fits : before.Fits owner) (wellFormed : before.WellFormed)
    (acyclic : before.Acyclic) (changes : ChangesOnly owner before after)
    (fields : ∀ {id field}, after.fieldEntry? id = some field → field.owner = owner →
      before.fieldEntry? id = some field ∨ before.findInherited? owner field.name = none)
    (methods : ∀ {id method}, after.methodEntry? id = some method → method.owner = owner →
      before.methodEntry? id = some method ∨ (method.slot = none ∧ before.Replaces owner method)) :
    after.Fits owner := by
  refine ⟨?_, ?_⟩
  · intro id field found owned
    rw [changes.findInherited?_eq acyclic]
    rcases fields found owned with isOld | isFresh
    · exact fits.field_fresh isOld owned
    · exact isFresh
  · intro id method found owned
    have fitsBefore : method.slot = none ∧ before.Replaces owner method := by
      rcases methods found owned with isOld | fitsNew
      · exact fits.method_fits isOld owned
      · exact fitsNew
    exact ⟨fitsBefore.1, fitsBefore.2.change wellFormed acyclic changes⟩

end

end Registry

namespace Members

open Registry (ChangesOnly Fits Replaces SameSignature)

variable {members : Members} {owner : ClassId}
variable {Item : Type} {registry start : Registry} {name : String}
  {signature : Registry.MethodSignature} {entry : MethodEntry} {next : Nat} {found : ClassEntry}
  {source : MethodSource}

/-! ## Complaints -/

theorem errorFree_of_grows {before after : Members}
    (grows : before.diagnostics <+: after.diagnostics) (errorFree : after.diagnostics = []) :
    before.diagnostics = [] := by
  rw [errorFree] at grows
  exact List.prefix_nil.mp grows

theorem foldl_grows {step : Members → Item → Members}
    (grows : ∀ members item, members.diagnostics <+: (step members item).diagnostics)
    (items : List Item) (start : Members) :
    start.diagnostics <+: (items.foldl step start).diagnostics := by
  induction items generalizing start with
  | nil => exact List.prefix_rfl
  | cons item items ih => exact (grows start item).trans (ih _)

/-- What every step without a complaint keeps holds behind a list without complaints. -/
theorem foldl_induction {step : Members → Item → Members} {Holds : Members → Prop}
    (grows : ∀ members item, members.diagnostics <+: (step members item).diagnostics)
    {items : List Item}
    (keeps : ∀ item ∈ items, ∀ members, Holds members → (step members item).diagnostics = [] →
      Holds (step members item))
    {start : Members} (holds : Holds start)
      (errorFree : (items.foldl step start).diagnostics = []) :
    Holds (items.foldl step start) := by
  induction items generalizing start with
  | nil => exact holds
  | cons item items ih =>
    have firstFree := errorFree_of_grows (foldl_grows grows items (step start item)) errorFree
    exact ih (fun other otherMem => keeps other (List.mem_cons_of_mem _ otherMem))
      (keeps item List.mem_cons_self start holds firstFree) errorFree

theorem report_grows (position : Position) (cause : Cause) :
    members.diagnostics <+: (members.report position cause).diagnostics :=
  List.prefix_append _ _

theorem typeOr_grows (members : Members) (placeholder : DataType) (written : TypeName)
    (position : Position) :
    members.diagnostics <+: (members.typeOr placeholder written position).2.diagnostics := by
  rw [typeOr]
  split
  · exact List.prefix_rfl
  · exact report_grows _ _

theorem typeOr_of_errorFree {placeholder : DataType} {written : TypeName} {position : Position}
    (errorFree : (members.typeOr placeholder written position).2.diagnostics = []) :
    (members.typeOr placeholder written position).2 = members := by
  rw [typeOr] at errorFree ⊢
  split at errorFree
  · rfl
  · simp [report] at errorFree

theorem addField_grows (owner : ClassId) (members : Members) (decl : FieldDecl) :
    members.diagnostics <+: (addField owner members decl).diagnostics := by
  rw [addField]
  split
  · exact report_grows _ _
  · have typeGrows := typeOr_grows members .null decl.type decl.position
    dsimp only
    split <;> exact typeGrows

/-! ## Fields -/

/-- A class is getting its members; `base` is the registry before it has any. -/
structure Building (base : Registry) (owner : ClassId) (registry : Registry) : Prop where
  consistent : registry.Consistent
  changes : ChangesOnly owner base registry
  fits : registry.Fits owner

theorem fieldConflict?_eq_none (noConflict : fieldConflict? registry owner name = none) :
    registry.ownMember? owner name = none ∧ registry.findInherited? owner name = none := by
  rw [fieldConflict?] at noConflict
  split at noConflict <;> simp_all

variable {base : Registry}

theorem Building.exists_owner (building : Building base owner members.registry)
    (known : owner.index < base.classCount) :
    ∃ found, members.registry.classEntry? owner = some found :=
  Registry.exists_classEntry (by rwa [building.changes.classCount_eq])

theorem building_addField (acyclic : base.Acyclic) (known : owner.index < base.classCount)
    {decl : FieldDecl} (building : Building base owner members.registry)
    (errorFree : (addField owner members decl).diagnostics = []) :
    Building base owner (addField owner members decl).registry := by
  rw [addField] at errorFree ⊢
  split at errorFree
  · simp [report] at errorFree
  · next noConflict =>
      rcases fieldConflict?_eq_none noConflict with ⟨fresh, notInherited⟩
      rcases typeEq : members.typeOr .null decl.type decl.position with ⟨type, typed⟩
      have typedFree : (members.typeOr .null decl.type decl.position).2.diagnostics = [] := by
        rw [typeEq] at errorFree ⊢
        dsimp only at errorFree ⊢
        split at errorFree <;> exact errorFree
      have sameMembers := typeOr_of_errorFree typedFree
      rw [typeEq] at sameMembers
      dsimp only at sameMembers
      subst sameMembers
      rcases building.exists_owner known with ⟨found, ownerFound⟩
      have wellFormed := building.consistent.toWellFormed
      have sameAcyclic := building.changes.acyclic acyclic
      simp only [Registry.registerField_eq _ _ _ _ _ ownerFound, fresh]
      generalize entryEq : FieldEntry.mk ⟨typed.registry.fields.size⟩ decl.name
        type owner decl.visibility decl.isStatic decl.position = entry
      have owned : entry.owner = owner := by rw [← entryEq]
      have named : entry.name = decl.name := by rw [← entryEq]
      have numbered : entry.id = ⟨typed.registry.fields.size⟩ := by rw [← entryEq]
      rw [← owned] at ownerFound fresh building notInherited
      rw [← named] at fresh notInherited
      rw [← owned]
      have changes := ChangesOnly.fieldAdded wellFormed ownerFound
      refine ⟨⟨wellFormed.fieldAdded ownerFound numbered fresh,
        building.consistent.toLexical.fieldAdded wellFormed ownerFound⟩,
        building.changes.trans changes, ?_⟩
      refine building.fits.of_changes wellFormed sameAcyclic changes ?_ fun found _ => .inl found
      intro id field fieldFound _
      rw [Registry.fieldEntry?_fieldAdded] at fieldFound
      split at fieldFound
      · cases fieldFound
        exact .inr notInherited
      · exact .inl fieldFound

/-! ## Methods -/

theorem inheritedMethod_eq_ok {inherited : Option MethodId}
    (found : inheritedMethod registry owner name = .ok inherited) :
    registry.ownMember? owner name = none ∧
      ((registry.findInherited? owner name = none ∧ inherited = none) ∨
        ∃ id, registry.findInherited? owner name = some (.ofMethod id) ∧ inherited = some id) := by
  rw [inheritedMethod] at found
  split at found <;> simp_all

theorem parameterTypes_grows (members : Members) (decls : List VariableDecl) :
    members.diagnostics <+: (members.parameterTypes decls).2.diagnostics := by
  induction decls generalizing members with
  | nil => exact List.prefix_rfl
  | cons decl rest ih => exact (typeOr_grows members .null decl.type decl.position).trans (ih _)

theorem parameterTypes_of_errorFree {decls : List VariableDecl}
    (errorFree : (members.parameterTypes decls).2.diagnostics = []) :
    (members.parameterTypes decls).2 = members := by
  induction decls generalizing members with
  | nil => rfl
  | cons decl rest ih =>
    have restFree : ((members.typeOr .null decl.type decl.position).2.parameterTypes
        rest).2.diagnostics = [] := errorFree
    have typeFree := errorFree_of_grows (parameterTypes_grows _ _) restFree
    exact (ih restFree).trans (typeOr_of_errorFree typeFree)

theorem length_parameterTypes (members : Members) (decls : List VariableDecl) :
    (members.parameterTypes decls).1.length = decls.length := by
  induction decls generalizing members with
  | nil => rfl
  | cons decl rest ih => exact congrArg Nat.succ (ih _)

theorem overrideFault?_eq_none
    {inherited : MethodEntry} (noFault : overrideFault? registry signature inherited = none) :
    signature.isStatic = inherited.isStatic ∧ signature.parameterTypes = inherited.parameterTypes ∧
      signature.returnType = inherited.returnType := by
  rw [overrideFault?] at noFault
  split at noFault
  · cases noFault
  · split at noFault
    · cases noFault
    · split at noFault
      · cases noFault
      · simp_all

theorem overridden?_grows (signature : Registry.MethodSignature) (inherited : Option MethodEntry) :
    members.diagnostics <+: (members.overridden? signature inherited).2.diagnostics := by
  cases inherited with
  | none => exact List.prefix_rfl
  | some entry =>
    simp only [overridden?]
    split
    · exact List.prefix_rfl
    · exact report_grows _ _

theorem overridden?_of_errorFree {inherited : Option MethodEntry}
    (errorFree : (members.overridden? signature inherited).2.diagnostics = []) :
    members.overridden? signature inherited = (inherited.map MethodEntry.id, members) ∧
      ∀ entry, inherited = some entry → signature.isStatic = entry.isStatic ∧
        signature.parameterTypes = entry.parameterTypes ∧
        signature.returnType = entry.returnType := by
  cases inherited with
  | none => exact ⟨rfl, by rintro entry ⟨⟩⟩
  | some entry =>
    simp only [overridden?] at errorFree ⊢
    split at errorFree
    next noFault => exact ⟨by simp, by rintro _ ⟨⟩; exact overrideFault?_eq_none noFault⟩
    next => simp [report] at errorFree

/-! ## Parameters -/

/-- A method has been entered and is getting its parameters; those registered so far have ranks
below `next`. -/
structure Entered (start : Registry) (entry : MethodEntry) (next : Nat) (registry : Registry) :
    Prop where
  consistent : registry.Consistent
  changes : ChangesOnly entry.owner start registry
  sameFields : ∀ id, registry.fieldEntry? id = start.fieldEntry? id
  others : ∀ {id}, id ≠ entry.id → registry.methodEntry? id = start.methodEntry? id
  entered : ∃ parameters, registry.methodEntry? entry.id = some { entry with parameters }
  home : registry.scopes.Home entry.scope entry.id
  ranks : ∀ {id parameter}, registry.variableEntry? id = some parameter →
    parameter.method = entry.id →
    ∃ rank < next, parameter.storage = .parameter rank

theorem addParameter_grows (method : MethodId) (scope : ScopeId) (members : Members)
    (declared : (VariableDecl × DataType) × Nat) :
    members.diagnostics <+: (addParameter method scope members declared).diagnostics := by
  rw [addParameter]
  dsimp only
  split
  · exact List.prefix_rfl
  · exact report_grows _ _

theorem entered_addParameter
    (inside : Entered start entry next members.registry) (inRange : next < entry.arity)
    (declared : VariableDecl × DataType) :
    Entered start entry (next + 1)
      (addParameter entry.id entry.scope members (declared, next)).registry := by
  rcases declared with ⟨decl, type⟩
  simp only [addParameter, Registry.registerVariable_eq]
  cases declaredEq : members.registry.scopes.declared? entry.scope decl.name with
  | some existing =>
    refine { inside with ranks := ?_ }
    intro id parameter found sameMethod
    rcases inside.ranks found sameMethod with ⟨rank, rankLt, storageEq⟩
    exact ⟨rank, by omega, storageEq⟩
  | none =>
    rcases inside.entered with ⟨parameters, enteredEq⟩
    rcases inside.home.kind with ⟨scope, scopeFound, notGlobal, notMembers⟩
    have wellFormed := inside.consistent.toWellFormed
    have lexical := inside.consistent.toLexical
    generalize newEq : VariableEntry.mk ⟨members.registry.variableEntries.size⟩
      decl.name type entry.id (.parameter next) decl.position = new
    have sameMethod : new.method = entry.id := by rw [← newEq]
    have storageEq : new.storage = .parameter next := by rw [← newEq]
    have numbered : new.id = ⟨members.registry.variableEntries.size⟩ := by rw [← newEq]
    have homeNew : members.registry.scopes.Home entry.scope new.method := by
      rw [sameMethod]
      exact inside.home
    have added : (members.registry.variableAdded entry.scope new).Consistent := by
      refine ⟨wellFormed.variableAdded scopeFound notGlobal notMembers new, ?_⟩
      refine lexical.variableAdded homeNew numbered (by rw [sameMethod]; exact enteredEq) ?_ ?_
      · intro rank isParameter
        cases storageEq.symm.trans isParameter
        exact inRange
      · intro id other otherFound otherMethod sameStorage
        rcases inside.ranks otherFound (otherMethod.trans sameMethod) with
          ⟨rank, rankLt, otherStorage⟩
        cases otherStorage.symm.trans (sameStorage.trans storageEq)
        exact absurd rankLt (Nat.lt_irrefl _)
    have stillEntered : Registry.methodEntry? (members.registry.variableAdded entry.scope new)
        entry.id = some { entry with parameters } := enteredEq
    dsimp only
    refine
      { consistent := ⟨?_, ?_⟩, changes := ?_, sameFields := inside.sameFields, others := ?_,
        entered := ?_, home := ?_, ranks := ?_ }
    · exact added.toWellFormed.modifyMethod entry.id (fun _ => rfl) (fun _ => rfl) (fun _ => rfl)
        (fun _ => rfl)
    · exact added.toLexical.modifyMethod entry.id (fun _ => rfl)
    · refine (inside.changes.trans (.variableAdded wellFormed inside.home new entry.owner)).trans ?_
      exact .modifyMethod stillEntered rfl (fun _ => rfl)
    · intro id differs
      rw [Registry.methodEntry?_modifyMethod, if_neg (Ne.symm differs)]
      exact inside.others differs
    · rw [Registry.methodEntry?_modifyMethod, if_pos rfl, stillEntered]
      exact ⟨_, rfl⟩
    · exact inside.home.grow (.extended _ _ _ _)
    · intro id parameter found parameterMethod
      rw [Registry.variableEntry?_modifyMethod, Registry.variableEntry?_variableAdded] at found
      split at found
      · cases found
        exact ⟨next, by omega, storageEq⟩
      · rcases inside.ranks found parameterMethod with ⟨rank, rankLt, parameterStorage⟩
        exact ⟨rank, by omega, parameterStorage⟩

theorem entered_foldl_addParameter (declared : List (VariableDecl × DataType))
    (inside : Entered start entry next members.registry)
    (inRange : next + declared.length ≤ entry.arity) :
    Entered start entry (next + declared.length)
      ((declared.zipIdx next).foldl (addParameter entry.id entry.scope) members).registry := by
  induction declared generalizing members next with
  | nil => exact inside
  | cons first rest ih =>
    rw [List.length_cons] at inRange ⊢
    rw [List.zipIdx_cons, List.foldl_cons, Nat.add_comm rest.length, ← Nat.add_assoc]
    exact ih (entered_addParameter inside (by omega) first) (by omega)

/-! ## Entering a method -/

/-- The entry of a method that is registered next, before it has its parameters. -/
def enteredMethod (registry : Registry) (signature : Registry.MethodSignature)
    (replaced : Option MethodId) : MethodEntry :=
  { registry.nextMethod signature with overrides := replaced }

theorem entered_start (consistent : registry.Consistent)
    (known : registry.classEntry? signature.owner = some found)
    (fresh : registry.ownMember? signature.owner signature.name = none)
      (replaced : Option MethodId) :
    Entered registry (enteredMethod registry signature replaced) 0
      ((registry.methodAdded found.scope (registry.nextMethod signature)).modifyMethod
        ⟨registry.methods.size⟩ fun entry => { entry with overrides := replaced }) := by
  have wellFormed := consistent.toWellFormed
  have lexical := consistent.toLexical
  have ownerFound : registry.classEntry? (registry.nextMethod signature).owner = some found := known
  have added := wellFormed.methodAdded ownerFound rfl rfl fresh
  have newFound : Registry.methodEntry?
      (registry.methodAdded found.scope (registry.nextMethod signature))
      ⟨registry.methods.size⟩ = some (registry.nextMethod signature) := by
    rw [Registry.methodEntry?_methodAdded, if_pos rfl]
  refine
    { consistent := ⟨?_,
        ?_⟩, changes := ?_, sameFields := fun _ => rfl, others := ?_, entered := ?_,
      home := ?_, ranks := ?_ }
  · exact added.modifyMethod _ (fun _ => rfl) (fun _ => rfl) (fun _ => rfl) (fun _ => rfl)
  · exact (lexical.methodAdded wellFormed known).modifyMethod _ (fun _ => rfl)
  · have changes := ChangesOnly.methodAdded wellFormed ownerFound
    exact changes.trans (.modifyMethod newFound rfl (fun _ => rfl))
  · intro id isOld
    have differs : id ≠ ⟨registry.methods.size⟩ := isOld
    rw [Registry.methodEntry?_modifyMethod, if_neg (Ne.symm differs),
      Registry.methodEntry?_methodAdded, if_neg differs]
  · have stillFound : Registry.methodEntry?
        ((registry.methodAdded found.scope (registry.nextMethod signature)).modifyMethod
        ⟨registry.methods.size⟩ fun entry => { entry with overrides := replaced })
          ⟨registry.methods.size⟩ = some (enteredMethod registry signature replaced) := by
      rw [Registry.methodEntry?_modifyMethod, if_pos rfl, newFound]
      rfl
    exact ⟨[], stillFound⟩
  · have bodyScope : (registry.methodAdded found.scope (registry.nextMethod signature)).scopes.get?
        ⟨registry.scopes.size⟩ = some ⟨⟨registry.scopes.size⟩, .methodBody ⟨registry.methods.size⟩,
          some found.scope, []⟩ := by
      simp [Registry.methodAdded, Registry.nextMethod, ScopeTree.get?_push]
    exact .body bodyScope rfl
  · intro id parameter parameterFound sameMethod
    rcases lexical.variable_method parameterFound with ⟨method, methodFound, _⟩
    rw [sameMethod] at methodFound
    simp [enteredMethod, Registry.nextMethod, Registry.methodEntry?] at methodFound

theorem enterMethod_eq
    (known : members.registry.classEntry? signature.owner = some found)
    (fresh : members.registry.ownMember? signature.owner signature.name = none)
    (replaced : Option MethodId) :
    members.enterMethod source signature replaced =
      (source.decl.parameters.zip signature.parameterTypes).zipIdx.foldl
        (addParameter ⟨members.registry.methods.size⟩ ⟨members.registry.scopes.size⟩)
        { members with
          registry := (members.registry.methodAdded found.scope
            (members.registry.nextMethod signature)).modifyMethod ⟨members.registry.methods.size⟩
              fun entry => { entry with overrides := replaced }
          sources := members.sources.push source
          overrideCount := members.overrideCount + if replaced.isSome then 1 else 0 } := by
  simp only [enterMethod, Registry.registerMethod_eq signature known, fresh]
  simp only [Registry.methodEntry?_modifyMethod, Registry.methodEntry?_methodAdded, if_true,
    Option.map_some]
  rfl

theorem enterMethod_grows (source : MethodSource) (signature : Registry.MethodSignature)
    (replaced : Option MethodId) :
    members.diagnostics <+: (members.enterMethod source signature replaced).diagnostics := by
  rw [enterMethod]
  split
  · exact List.prefix_rfl
  · dsimp only
    split
    · exact List.prefix_rfl
    · refine List.IsPrefix.trans ?_ (foldl_grows (addParameter_grows _ _) _ _)
      exact List.prefix_rfl

theorem entered_enterMethod (consistent : members.registry.Consistent)
    (known : members.registry.classEntry? signature.owner = some found)
    (fresh : members.registry.ownMember? signature.owner signature.name = none)
    (replaced : Option MethodId) :
    ∃ next, Entered members.registry (enteredMethod members.registry signature replaced) next
      (members.enterMethod source signature replaced).registry := by
  rw [enterMethod_eq known fresh]
  have enough : 0 + (source.decl.parameters.zip signature.parameterTypes).length ≤
      (enteredMethod members.registry signature replaced).arity := by
    rw [Nat.zero_add, List.length_zip]
    exact Nat.min_le_right _ _
  exact ⟨_, @entered_foldl_addParameter _ _ (enteredMethod members.registry signature replaced) 0 _
    (entered_start consistent known fresh replaced) enough⟩

theorem building_enterMethod (acyclic : base.Acyclic) (known : owner.index < base.classCount)
    (building : Building base owner members.registry) (owned : signature.owner = owner)
    (fresh : members.registry.ownMember? owner signature.name = none) {replaced : Option MethodId}
    (replaces : members.registry.Replaces owner
      (enteredMethod members.registry signature replaced)) :
    Building base owner (members.enterMethod source signature replaced).registry := by
  rcases building.exists_owner known with ⟨found, ownerFound⟩
  rw [← owned] at ownerFound fresh
  rcases @entered_enterMethod _ _ _ source building.consistent ownerFound fresh replaced with
    ⟨next, inside⟩
  have changes : ChangesOnly owner members.registry
      (members.enterMethod source signature replaced).registry := owned ▸ inside.changes
  refine ⟨inside.consistent, building.changes.trans changes, ?_⟩
  refine building.fits.of_changes building.consistent.toWellFormed
    (building.changes.acyclic acyclic) changes ?_ ?_
  · intro id field fieldFound _
    rw [inside.sameFields] at fieldFound
    exact .inl fieldFound
  · intro id method methodFound _
    by_cases isNew : id = (enteredMethod members.registry signature replaced).id
    · rcases inside.entered with ⟨parameters, enteredEq⟩
      rw [isNew, enteredEq] at methodFound
      cases methodFound
      refine .inr ⟨rfl, ?_⟩
      rcases replaces with newName | ⟨taken, inherited, takenFound, inheritedFound,
        overridesEq, same⟩
      · exact .inl newName
      · exact .inr ⟨taken, inherited, takenFound, inheritedFound, overridesEq,
          ⟨same.isStatic_eq, same.parameterTypes_eq, same.returnType_eq⟩⟩
    · rw [inside.others isNew] at methodFound
      exact .inl methodFound

theorem addMethod_grows (owner : ClassId) (members : Members) (source : MethodSource) :
    members.diagnostics <+: (addMethod owner members source).diagnostics := by
  rw [addMethod]
  dsimp only
  split
  · exact report_grows _ _
  · exact (((parameterTypes_grows _ _).trans (typeOr_grows _ _ _ _)).trans
      (overridden?_grows _ _)).trans (enterMethod_grows _ _ _)

/-- A declared method without complaints is entered with its signature, under a name that is new to
its class. -/
theorem addMethod_of_errorFree (wellFormed : members.registry.WellFormed)
    (errorFree : (addMethod owner members source).diagnostics = []) :
    ∃ signature replaced, addMethod owner members source =
      members.enterMethod source signature replaced ∧
      signature.owner = owner ∧ signature.parameterTypes.length = source.decl.parameters.length ∧
      members.registry.ownMember? owner signature.name = none ∧
      members.registry.Replaces owner (enteredMethod members.registry signature replaced) := by
  rw [addMethod] at errorFree ⊢
  dsimp only at errorFree ⊢
  split at errorFree
  · simp [report] at errorFree
  next inherited inheritedEq =>
    rcases inheritedMethod_eq_ok inheritedEq with ⟨fresh, inheritedCases⟩
    have overriddenFree := errorFree_of_grows (enterMethod_grows _ _ _) errorFree
    have typedFree := errorFree_of_grows (overridden?_grows _ _) overriddenFree
    have declaredFree := errorFree_of_grows (typeOr_grows _ _ _ _) typedFree
    have sameDeclared := parameterTypes_of_errorFree declaredFree
    rw [sameDeclared] at typedFree overriddenFree ⊢
    have sameTyped := typeOr_of_errorFree typedFree
    rw [sameTyped] at overriddenFree ⊢
    generalize signatureEq : Registry.MethodSignature.mk owner source.decl.name
      (members.parameterTypes source.decl.parameters).1
      (members.typeOr .void source.decl.returnType source.decl.position).1 source.decl.visibility
      source.decl.isStatic source.decl.position = signature at overriddenFree ⊢
    have owned : signature.owner = owner := by rw [← signatureEq]
    have named : signature.name = source.decl.name := by rw [← signatureEq]
    have sameLength : signature.parameterTypes.length = source.decl.parameters.length := by
      rw [← signatureEq, length_parameterTypes]
    rcases overridden?_of_errorFree overriddenFree with ⟨overriddenEq, sameSignature⟩
    rw [overriddenEq]
    rw [← named] at fresh inheritedCases
    refine ⟨signature, _, rfl, owned, sameLength, fresh, ?_⟩
    rcases inheritedCases with ⟨notInherited, rfl⟩ | ⟨id, found, rfl⟩
    · exact .inl ⟨notInherited, rfl⟩
    · rcases Option.bind_eq_some_iff.mp found with ⟨parent, _, inParent⟩
      rcases Registry.exists_methodEntry wellFormed (Registry.findMethod?_eq_some.mpr inParent) with
        ⟨entry, entryFound, _, _⟩
      have replacedEq : ((some id).bind members.registry.methodEntry?) = some entry := entryFound
      rcases sameSignature entry replacedEq with ⟨sameStatic, sameTypes, sameReturn⟩
      refine .inr ⟨id, entry, found, entryFound, ?_, ⟨sameStatic, sameTypes, sameReturn⟩⟩
      rw [replacedEq, Option.map_some, wellFormed.method_id entryFound]
      rfl

theorem building_addMethod (acyclic : base.Acyclic) (known : owner.index < base.classCount)
    (building : Building base owner members.registry)
    (errorFree : (addMethod owner members source).diagnostics = []) :
    Building base owner (addMethod owner members source).registry := by
  rcases addMethod_of_errorFree building.consistent.toWellFormed errorFree with
    ⟨signature, replaced, entered, owned, -, fresh, replaces⟩
  rw [entered]
  exact building_enterMethod acyclic known building owned fresh replaces

end Members

end Decaf
