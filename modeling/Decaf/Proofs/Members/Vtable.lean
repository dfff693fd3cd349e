import Decaf.Proofs.Members.Registration

/-!
# Vtables

A vtable lists the instance methods that a class can be asked for, each in its own slot. It starts
as that of the parent; a method that replaces an inherited one takes its slot, and one with a new
name gets a new slot. So a method keeps the slot of the methods that it replaces, in all classes
below.
-/

namespace Decaf

namespace Registry

/-- The vtable of a class lists the instance methods found in the class, each in its slot, and an
instance method found in the parent is found in the class too, perhaps replaced, with the same
signature and slot. -/
structure Dispatches (registry : Registry) (owner : ClassId) : Prop where
  listed : ∀ {found slot id}, registry.classEntry? owner = some found →
    found.vtable[slot]? = some id →
    ∃ method, registry.methodEntry? id = some method ∧ method.isStatic = false ∧
      method.slot = some slot ∧ registry.findMethod? owner method.name = some id
  hasSlot : ∀ {found name id method}, registry.classEntry? owner = some found →
    registry.findMethod? owner name = some id → registry.methodEntry? id = some method →
      method.isStatic = false → ∃ slot, method.slot = some slot ∧ found.vtable[slot]? = some id
  keeps : ∀ {parent name id method}, registry.parent? owner = some parent →
    registry.findMethod? parent name = some id → registry.methodEntry? id = some method →
      method.isStatic = false → ∃ own entry, registry.findMethod? owner name = some own ∧
        registry.methodEntry? own = some entry ∧ SameSignature entry method ∧
        entry.slot = method.slot
  keepsField : ∀ {parent name id}, registry.parent? owner = some parent →
    registry.findField? parent name = some id → registry.findField? owner name = some id

@[simp]
theorem parent?_modifyVtable (registry : Registry) (owner other : ClassId)
    (vtable : List MethodId) :
    (registry.modifyClass owner fun entry => { entry with vtable }).parent? other =
      registry.parent? other := by
  rw [parent?_eq, parent?_eq]
  refine congrArg Option.join (map_classEntry?_modifyClass ClassEntry.parent ?_ other)
  exact fun _ => rfl

@[simp]
theorem memberScope?_modifyVtable (registry : Registry) (owner other : ClassId)
    (vtable : List MethodId) :
    (registry.modifyClass owner fun entry => { entry with vtable }).memberScope? other =
      registry.memberScope? other := by
  refine map_classEntry?_modifyClass ClassEntry.scope ?_ other
  exact fun _ => rfl

namespace ChangesOnly

variable {owner id : ClassId} {before after : Registry}

/-- A method that a class apart from the changed one finds is not a member of the changed one. -/
theorem methodEntry?_eq (changes : ChangesOnly owner before after) (wellFormed : before.WellFormed)
    (apart : ¬ before.DescendsFrom id owner) {name : String} {method : MethodId}
    (found : before.findMethod? id name = some method) :
    after.methodEntry? method = before.methodEntry? method := by
  rcases exists_methodEntry wellFormed found with ⟨entry, entryFound, _, descends⟩
  rw [entryFound]
  refine (changes.method_iff ?_).mpr entryFound
  rintro rfl
  exact apart descends

theorem dispatches (changes : ChangesOnly owner before after) (wellFormed : before.WellFormed)
    (apart : ¬ before.DescendsFrom id owner) (dispatches : before.Dispatches id) :
    after.Dispatches id := by
  have differs : id ≠ owner := by
    rintro rfl
    exact apart .refl
  refine ⟨?_, ?_, ?_, ?_⟩
  · intro found slot listed classFound listedEq
    rw [changes.class_eq differs] at classFound
    rcases dispatches.listed classFound listedEq with
      ⟨method, methodFound, isInstance, slotEq, inClass⟩
    refine ⟨method, ?_, isInstance, slotEq, ?_⟩
    · rw [changes.methodEntry?_eq wellFormed apart inClass, methodFound]
    · rw [changes.findMethod?_eq apart, inClass]
  · intro found name listed method classFound inClass methodFound isInstance
    rw [changes.class_eq differs] at classFound
    rw [changes.findMethod?_eq apart] at inClass
    rw [changes.methodEntry?_eq wellFormed apart inClass] at methodFound
    exact dispatches.hasSlot classFound inClass methodFound isInstance
  · intro parent name listed method parentEq inParent methodFound isInstance
    rw [changes.parent_eq] at parentEq
    have parentApart : ¬ before.DescendsFrom parent owner := fun descends =>
      apart (.head parentEq descends)
    rw [changes.findMethod?_eq parentApart] at inParent
    rw [changes.methodEntry?_eq wellFormed parentApart inParent] at methodFound
    rcases dispatches.keeps parentEq inParent methodFound isInstance with
      ⟨own, entry, inClass, entryFound, same, slotEq⟩
    refine ⟨own, entry, ?_, ?_, same, slotEq⟩
    · rw [changes.findMethod?_eq apart, inClass]
    · rw [changes.methodEntry?_eq wellFormed apart inClass, entryFound]
  · intro parent name field parentEq inParent
    rw [changes.parent_eq] at parentEq
    have parentApart : ¬ before.DescendsFrom parent owner := fun descends =>
      apart (.head parentEq descends)
    rw [findField?_eq_some, changes.findMember?_eq parentApart, ← findField?_eq_some] at inParent
    rw [findField?_eq_some, changes.findMember?_eq apart, ← findField?_eq_some]
    exact dispatches.keepsField parentEq inParent

end ChangesOnly

end Registry

namespace Members

open Registry (ChangesOnly Fits Replaces SameSignature Dispatches)

variable {start registry : Registry} {owner : ClassId}
variable {method : MethodEntry} {done vtable : List MethodId}

/-- The own methods in `done` have got their places in the vtable of a class; `start` is the
registry before any of them had. -/
structure Placing (start : Registry) (owner : ClassId) (done : List MethodId)
    (vtable : List MethodId) (registry : Registry) : Prop where
  sameClasses : registry.classes = start.classes
  sameFields : registry.fields = start.fields
  sameScopes : registry.scopes = start.scopes
  consistent : registry.Consistent
  changes : ChangesOnly owner start registry
  own : ∀ {id}, id ∈ done → ∃ method, start.methodEntry? id = some method ∧ method.owner = owner
  others : ∀ {id}, id ∉ done → registry.methodEntry? id = start.methodEntry? id
  static : ∀ {id method}, id ∈ done → start.methodEntry? id = some method → method.isStatic = true →
    registry.methodEntry? id = some method
  placed : ∀ {id method}, id ∈ done → start.methodEntry? id = some method →
    method.isStatic = false →
    ∃ slot, registry.methodEntry? id = some { method with slot := some slot } ∧
    vtable[slot]? = some id ∧
    ∀ replaced inherited, method.overrides = some replaced →
    start.methodEntry? replaced = some inherited →
      inherited.slot = some slot
  listed : ∀ {slot id}, vtable[slot]? = some id → ∃ method, registry.methodEntry? id = some method ∧
    method.isStatic = false ∧ method.slot = some slot ∧
    (id ∈ done ∨ (start.findInherited? owner method.name = some (.ofMethod id) ∧
      ∀ other ∈ done, ∀ entry, start.methodEntry? other = some entry → entry.name ≠ method.name))
  inherited : ∀ {name id method}, start.findInherited? owner name = some (.ofMethod id) →
    start.methodEntry? id = some method → method.isStatic = false →
      (∀ other ∈ done, ∀ entry, start.methodEntry? other = some entry → entry.name ≠ name) →
        ∃ slot, method.slot = some slot ∧ vtable[slot]? = some id

section

variable (wellFormed : start.WellFormed)
include wellFormed

theorem inherited_owner_ne (acyclic : start.Acyclic) {name : String} {id : MethodId}
    (found : start.findInherited? owner name = some (.ofMethod id))
    (methodFound : start.methodEntry? id = some method) :
    method.owner ≠ owner ∧ method.name = name := by
  rcases Option.bind_eq_some_iff.mp found with ⟨parent, parentEq, inParent⟩
  rcases Registry.exists_methodEntry wellFormed (Registry.findMethod?_eq_some.mpr inParent) with
    ⟨entry, entryFound, named, descends⟩
  cases methodFound.symm.trans entryFound
  refine ⟨?_, named⟩
  rintro rfl
  exact acyclic.not_descendsFrom_parent parentEq descends

/-- Static methods have no place. -/
theorem placing_static (acyclic : start.Acyclic) (fits : start.Fits owner) {id : MethodId}
    (placing : Placing start owner done vtable registry) (isNew : id ∉ done)
    (methodFound : start.methodEntry? id = some method) (owned : method.owner = owner)
    (isStatic : method.isStatic = true) : Placing start owner (id :: done) vtable registry := by
  refine
    { placing with
      own := ?_, others := ?_, static := ?_, placed := ?_, listed := ?_, inherited := ?_ }
  · intro other otherMem
    rcases List.mem_cons.mp otherMem with rfl | otherMem
    · exact ⟨method, methodFound, owned⟩
    · exact placing.own otherMem
  · intro other otherMem
    exact placing.others fun isDone => otherMem (List.mem_cons_of_mem _ isDone)
  · intro other entry otherMem entryFound entryStatic
    rcases List.mem_cons.mp otherMem with rfl | otherMem
    · rw [placing.others isNew, entryFound]
    · exact placing.static otherMem entryFound entryStatic
  · intro other entry otherMem entryFound isInstance
    rcases List.mem_cons.mp otherMem with rfl | otherMem
    · cases methodFound.symm.trans entryFound
      simp [isStatic] at isInstance
    · exact placing.placed otherMem entryFound isInstance
  · intro slot other listed
    rcases placing.listed listed with
      ⟨entry, entryFound, isInstance, slotEq, isDone | ⟨found, apart⟩⟩
    · exact ⟨entry, entryFound, isInstance, slotEq, .inl (List.mem_cons_of_mem _ isDone)⟩
    · refine ⟨entry, entryFound, isInstance, slotEq, .inr ⟨found, ?_⟩⟩
      intro earlier earlierMem earlierEntry earlierFound
      rcases List.mem_cons.mp earlierMem with rfl | earlierMem
      · cases methodFound.symm.trans earlierFound
        intro sameName
        have notDone : other ∉ done := by
          intro isDone
          rcases placing.own isDone with ⟨ownEntry, ownFound, ownOwned⟩
          exact (inherited_owner_ne wellFormed acyclic found ownFound).1 ownOwned
        rw [placing.others notDone] at entryFound
        rcases (fits.method_fits methodFound owned).2 with
          ⟨notInherited, _⟩ | ⟨replaced, inherited, sameFound, inheritedFound, _, same⟩
        · rw [sameName, found] at notInherited
          cases notInherited
        · rw [sameName, found] at sameFound
          cases sameFound
          cases entryFound.symm.trans inheritedFound
          have isSame := same.isStatic_eq
          simp [isStatic, isInstance] at isSame
      · exact apart earlier earlierMem earlierEntry earlierFound
  · intro name other entry found entryFound isInstance apart
    exact placing.inherited found entryFound isInstance fun earlier earlierMem =>
      apart earlier (List.mem_cons_of_mem _ earlierMem)

/-- An instance method gets a slot that is new, or that of the inherited method of its name. -/
theorem placing_slot (acyclic : start.Acyclic)
    {changed : List MethodId} {id : MethodId} {slot : Nat}
    (placing : Placing start owner done vtable registry) (isNew : id ∉ done)
    (methodFound : start.methodEntry? id = some method) (owned : method.owner = owner)
    (isInstance : method.isStatic = false) (noSlot : method.slot = none)
    (atSlot : changed[slot]? = some id)
    (elsewhere : ∀ other, other ≠ slot → changed[other]? = vtable[other]?)
    (vacant : ∀ old, vtable[slot]? = some old →
      start.findInherited? owner method.name = some (.ofMethod old))
    (inheritedAt : ∀ old, start.findInherited? owner method.name = some (.ofMethod old) →
      vtable[slot]? = some old)
    (slotAgrees : ∀ replaced inherited, method.overrides = some replaced →
      start.methodEntry? replaced = some inherited → inherited.slot = some slot) :
    Placing start owner (id :: done) changed
      (registry.modifyMethod id fun entry => { entry with slot := some slot }) := by
  have current : registry.methodEntry? id = some method := (placing.others isNew).trans methodFound
  have unchanged : ∀ {other}, other ≠ id →
      Registry.methodEntry? (registry.modifyMethod id fun entry =>
        { entry with slot := some slot }) other = registry.methodEntry? other := by
    intro other differs
    rw [Registry.methodEntry?_modifyMethod, if_neg (Ne.symm differs)]
  refine
    { sameClasses := placing.sameClasses, sameFields := placing.sameFields,
      sameScopes := placing.sameScopes, consistent := ⟨?_, ?_⟩, changes := ?_, own :=
        ?_, others := ?_,
      static := ?_, placed := ?_, listed := ?_, inherited := ?_ }
  · exact placing.consistent.toWellFormed.modifyMethod id (fun _ => rfl)
      (fun _ => rfl) (fun _ => rfl) (fun _ => rfl)
  · exact placing.consistent.toLexical.modifyMethod id (fun _ => rfl)
  · exact placing.changes.trans (.modifyMethod current owned (fun _ => rfl))
  · intro other otherMem
    rcases List.mem_cons.mp otherMem with rfl | otherMem
    · exact ⟨method, methodFound, owned⟩
    · exact placing.own otherMem
  · intro other otherMem
    rw [unchanged fun same => otherMem (same ▸ List.mem_cons_self)]
    exact placing.others fun isDone => otherMem (List.mem_cons_of_mem _ isDone)
  · intro other entry otherMem entryFound entryStatic
    rcases List.mem_cons.mp otherMem with rfl | otherMem
    · cases methodFound.symm.trans entryFound
      simp [entryStatic] at isInstance
    · rw [unchanged fun same => isNew (same ▸ otherMem)]
      exact placing.static otherMem entryFound entryStatic
  · intro other entry otherMem entryFound entryInstance
    rcases List.mem_cons.mp otherMem with rfl | otherMem
    · cases methodFound.symm.trans entryFound
      refine ⟨slot, ?_, atSlot, slotAgrees⟩
      rw [Registry.methodEntry?_modifyMethod, if_pos rfl, current]
      rfl
    · rcases placing.placed otherMem entryFound entryInstance with
        ⟨place, placedFound, placeEq, agrees⟩
      rw [unchanged fun same => isNew (same ▸ otherMem)]
      refine ⟨place, placedFound, ?_, agrees⟩
      rw [elsewhere place ?_, placeEq]
      rintro rfl
      rcases placing.own otherMem with ⟨ownEntry, ownFound, ownOwned⟩
      exact (inherited_owner_ne wellFormed acyclic (vacant other placeEq) ownFound).1 ownOwned
  · intro place other listed
    by_cases here : place = slot
    · subst here
      cases atSlot.symm.trans listed
      refine ⟨{ method with slot := some place }, ?_, isInstance, rfl, .inl List.mem_cons_self⟩
      rw [Registry.methodEntry?_modifyMethod, if_pos rfl, current]
      rfl
    · rw [elsewhere place here] at listed
      rcases placing.listed listed with ⟨entry, entryFound, entryInstance, slotEq, origin⟩
      have differs : other ≠ id := by
        rintro rfl
        cases current.symm.trans entryFound
        cases noSlot.symm.trans slotEq
      refine ⟨entry, (unchanged differs).trans entryFound, entryInstance, slotEq, ?_⟩
      rcases origin with isDone | ⟨found, apart⟩
      · exact .inl (List.mem_cons_of_mem _ isDone)
      · refine .inr ⟨found, ?_⟩
        intro earlier earlierMem earlierEntry earlierFound
        rcases List.mem_cons.mp earlierMem with rfl | earlierMem
        · cases methodFound.symm.trans earlierFound
          intro sameName
          rw [← sameName] at found
          rcases placing.listed (inheritedAt other found) with ⟨same, sameFound, _, sameSlot, _⟩
          cases entryFound.symm.trans sameFound
          exact here (Option.some.inj (slotEq.symm.trans sameSlot))
        · exact apart earlier earlierMem earlierEntry earlierFound
  · intro name other entry found entryFound entryInstance apart
    rcases placing.inherited found entryFound entryInstance fun earlier earlierMem =>
      apart earlier (List.mem_cons_of_mem _ earlierMem) with ⟨place, slotEq, placeEq⟩
    refine ⟨place, slotEq, ?_⟩
    rw [elsewhere place ?_, placeEq]
    rintro rfl
    have otherName := (inherited_owner_ne wellFormed acyclic (vacant other placeEq) entryFound).2
    have sameName := (inherited_owner_ne wellFormed acyclic found entryFound).2
    exact apart id List.mem_cons_self method methodFound (otherName.symm.trans sameName)

/-- A method that replaces an inherited one finds the slot of that one taken by it. -/
theorem Placing.exists_inheritedSlot (acyclic : start.Acyclic) {inherited : MethodEntry}
    {replaced : MethodId} (placing : Placing start owner done vtable registry)
    (found : start.findInherited? owner method.name = some (.ofMethod replaced))
    (inheritedFound : start.methodEntry? replaced = some inherited)
    (isInstance : inherited.isStatic = false) (overridesEq : method.overrides = some replaced)
    (named : ∀ other ∈ done, ∀ entry, start.methodEntry? other = some entry →
      entry.name ≠ method.name) :
    ∃ slot, inheritedSlot? registry method = some slot ∧ inherited.slot = some slot ∧
      vtable[slot]? = some replaced := by
  rcases placing.inherited found inheritedFound isInstance named with ⟨slot, slotEq, atSlot⟩
  have apart := (inherited_owner_ne wellFormed acyclic found inheritedFound).1
  have stillFound := (placing.changes.method_iff apart).mpr inheritedFound
  refine ⟨slot, ?_, slotEq, atSlot⟩
  rw [inheritedSlot?, overridesEq, Option.bind_some, stillFound, Option.bind_some, slotEq]

/-- The own methods of a class have different names. -/
theorem Placing.name_ne {id : MethodId}
    (placing : Placing start owner done vtable registry) (isNew : id ∉ done)
    (methodFound : start.methodEntry? id = some method) (owned : method.owner = owner) :
    ∀ other ∈ done, ∀ entry, start.methodEntry? other = some entry → entry.name ≠ method.name := by
  intro other otherMem entry entryFound sameName
  rcases placing.own otherMem with ⟨same, sameFound, otherOwned⟩
  cases entryFound.symm.trans sameFound
  have declared : start.ownMember? owner method.name = some (.ofMethod id) :=
    wellFormed.own_iff.mpr ⟨method, methodFound, owned, rfl⟩
  have otherDeclared : start.ownMember? owner method.name = some (.ofMethod other) :=
    wellFormed.own_iff.mpr ⟨entry, entryFound, otherOwned, sameName⟩
  cases declared.symm.trans otherDeclared
  exact isNew otherMem

theorem placing_placeMethod (acyclic : start.Acyclic) (fits : start.Fits owner) {id : MethodId}
    (placing : Placing start owner done vtable registry) (isNew : id ∉ done)
    (methodFound : start.methodEntry? id = some method) (owned : method.owner = owner)
    (named : ∀ other ∈ done, ∀ entry, start.methodEntry? other = some entry →
      entry.name ≠ method.name) :
    Placing start owner (id :: done) (placeMethod (vtable, registry) id).1
      (placeMethod (vtable, registry) id).2 := by
  have current : registry.methodEntry? id = some method := (placing.others isNew).trans methodFound
  rcases fits.method_fits methodFound owned with ⟨noSlot, replaces⟩
  cases isStatic : method.isStatic with
  | true =>
    simp only [placeMethod, current, isStatic, if_true]
    exact placing_static wellFormed acyclic fits placing isNew methodFound owned isStatic
  | false =>
    simp only [placeMethod, current, isStatic, Bool.false_eq_true, if_false]
    rcases replaces with ⟨notInherited, noOverride⟩ | ⟨replaced, inherited, found, inheritedFound,
      overridesEq, same⟩
    · have noInheritedSlot : inheritedSlot? registry method = none := by
        rw [inheritedSlot?, noOverride]
        rfl
      simp only [noInheritedSlot]
      refine placing_slot wellFormed acyclic placing isNew methodFound owned
        isStatic noSlot (by simp) ?_ (by simp) ?_ ?_
      · intro other differs
        rw [List.getElem?_append]
        split
        next => rfl
        next behind =>
          have far : 1 ≤ other - vtable.length := by omega
          rw [List.getElem?_eq_none (by simpa using far), List.getElem?_eq_none (by omega)]
      · intro old oldFound
        cases notInherited.symm.trans oldFound
      · intro replaced _ overridesEq
        cases noOverride.symm.trans overridesEq
    · have inheritedInstance : inherited.isStatic = false := same.isStatic_eq.symm.trans isStatic
      rcases placing.exists_inheritedSlot wellFormed acyclic found inheritedFound inheritedInstance
        overridesEq named with
        ⟨slot, inheritedSlotEq, slotEq, atSlot⟩
      simp only [inheritedSlotEq]
      have inRange : slot < vtable.length := (List.getElem?_eq_some_iff.mp atSlot).1
      refine placing_slot wellFormed acyclic placing isNew methodFound owned isStatic noSlot
        (by simp [inRange]) ?_ ?_ ?_ ?_
      · intro other differs
        rw [List.getElem?_set_ne (Ne.symm differs)]
      · intro old oldAt
        cases atSlot.symm.trans oldAt
        exact found
      · intro old oldFound
        cases found.symm.trans oldFound
        exact atSlot
      · intro other entry otherEq entryFound
        cases overridesEq.symm.trans otherEq
        cases inheritedFound.symm.trans entryFound
        exact slotEq

theorem placing_foldl (acyclic : start.Acyclic) (fits : start.Fits owner)
    {methods : List MethodId} (placing : Placing start owner done vtable registry)
    (nodup : (methods ++ done).Nodup)
    (own : ∀ id ∈ methods, ∃ method, start.methodEntry? id = some method ∧ method.owner = owner) :
    Placing start owner (methods.reverse ++ done) (methods.foldl placeMethod (vtable, registry)).1
      (methods.foldl placeMethod (vtable, registry)).2 := by
  induction methods generalizing done vtable registry with
  | nil => exact placing
  | cons id methods ih =>
    rcases own id List.mem_cons_self with ⟨method, methodFound, owned⟩
    have apart := List.nodup_cons.mp nodup
    have isNew : id ∉ done := fun isDone => apart.1 (List.mem_append_right _ isDone)
    have named := placing.name_ne wellFormed isNew methodFound owned
    have next := placing_placeMethod wellFormed acyclic fits placing isNew methodFound owned named
    rw [List.foldl_cons, List.reverse_cons, List.append_assoc]
    refine ih next ?_ fun other otherMem => own other (List.mem_cons_of_mem _ otherMem)
    exact List.nodup_middle.mpr nodup

end

/-- Before any own method has its place, the vtable is that of the parent. -/
theorem placing_start (consistent : start.Consistent)
    (parentDispatches : ∀ parent, start.parent? owner = some parent → start.Dispatches parent) :
    Placing start owner [] (inheritedVtable start owner) start := by
  have fromParent : ∀ {slot : Nat} {id : MethodId}, (inheritedVtable start owner)[slot]? = some id →
      ∃ (parent : ClassId) (found : ClassEntry), start.parent? owner = some parent ∧
        start.classEntry? parent = some found ∧ found.vtable[slot]? = some id := by
    intro slot id listed
    rw [inheritedVtable] at listed
    cases parentEq : start.parent? owner with
    | none => simp [parentEq] at listed
    | some parent =>
      cases foundEq : start.classEntry? parent with
      | none => simp [parentEq, foundEq] at listed
      | some found =>
        refine ⟨parent, found, rfl, foundEq, ?_⟩
        simpa [parentEq, foundEq] using listed
  refine
    { sameClasses := rfl, sameFields := rfl, sameScopes := rfl, consistent, changes := .refl _ _,
      own := by simp, others := by simp, static := by simp, placed := by simp, listed := ?_,
      inherited := ?_ }
  · intro slot id listed
    rcases fromParent listed with ⟨parent, found, parentEq, foundEq, inParent⟩
    rcases (parentDispatches parent parentEq).listed foundEq inParent with
      ⟨method, methodFound, isInstance, slotEq, found⟩
    refine ⟨method, methodFound, isInstance, slotEq, .inr ⟨?_, by simp⟩⟩
    rw [Registry.findInherited?_of_parent parentEq]
    exact Registry.findMethod?_eq_some.mp found
  · intro name id method found methodFound isInstance _
    rcases Option.bind_eq_some_iff.mp found with ⟨parent, parentEq, inParent⟩
    rcases Registry.exists_classEntry (consistent.parent_known parentEq) with ⟨entry, entryFound⟩
    rcases (parentDispatches parent parentEq).hasSlot entryFound
      (Registry.findMethod?_eq_some.mpr inParent) methodFound isInstance with ⟨slot, slotEq, listed⟩
    refine ⟨slot, slotEq, ?_⟩
    rw [inheritedVtable, parentEq, Option.bind_some, entryFound]
    exact listed

section

variable {vtable done : List MethodId}
variable {name : String} {method : MethodEntry}

/-- A name of an own method stands for that method, any other for what is inherited under it. -/
theorem own_or_inherited (wellFormed : start.WellFormed) (fits : start.Fits owner)
    (allDone : ∀ {id method}, start.methodEntry? id = some method → method.owner = owner →
      id ∈ done)
    {id : MethodId} (found : start.findInherited? owner name = some (.ofMethod id)) :
    start.ownMember? owner name = none ∨ ∃ own entry, own ∈ done ∧
      start.ownMember? owner name = some (.ofMethod own) ∧ start.methodEntry? own = some entry ∧
      entry.owner = owner ∧ entry.name = name := by
  cases ownEq : start.ownMember? owner name with
  | none => exact .inl rfl
  | some symbol =>
    have declares := wellFormed.own_iff.mp ownEq
    cases symbol with
    | ofMethod own =>
      rcases declares with ⟨entry, entryFound, owned, named⟩
      exact .inr ⟨own, entry, allDone entryFound owned, rfl, entryFound, owned, named⟩
    | ofField field =>
      rcases declares with ⟨entry, entryFound, owned, rfl⟩
      cases found.symm.trans (fits.field_fresh entryFound owned)
    | ofClass => exact declares.elim
    | ofVariable => exact declares.elim

theorem findMethod?_of_own (acyclic : start.Acyclic) (wellFormed : start.WellFormed) {id : MethodId}
    (found : start.methodEntry? id = some method) (owned : method.owner = owner) :
    start.findMethod? owner method.name = some id := by
  have declared : start.ownMember? owner method.name = some (.ofMethod id) :=
    wellFormed.own_iff.mpr ⟨method, found, owned, rfl⟩
  rw [Registry.findMethod?_eq_some, Registry.findMember?_eq wellFormed acyclic, declared]
  rfl

/-- Placing the own methods changes none that is inherited. -/
theorem Placing.methodEntry?_of_inherited (acyclic : start.Acyclic) (wellFormed : start.WellFormed)
    (placing : Placing start owner done vtable registry) {id : MethodId}
    (inherited : start.findInherited? owner name = some (.ofMethod id))
    (found : registry.methodEntry? id = some method) : start.methodEntry? id = some method := by
  rcases Option.bind_eq_some_iff.mp inherited with ⟨parent, _, inParent⟩
  rcases Registry.exists_methodEntry wellFormed (Registry.findMethod?_eq_some.mpr inParent) with
    ⟨entry, entryFound, _, _⟩
  have apart := (inherited_owner_ne wellFormed acyclic inherited entryFound).1
  cases found.symm.trans ((placing.changes.method_iff apart).mpr entryFound)
  exact entryFound

theorem Placing.name_eq (placing : Placing start owner done vtable registry) {id : MethodId}
    {entry : MethodEntry} (isDone : id ∈ done) (before : start.methodEntry? id = some method)
    (after : registry.methodEntry? id = some entry) : entry.name = method.name := by
  cases isStatic : method.isStatic with
  | true =>
    cases after.symm.trans (placing.static isDone before isStatic)
    rfl
  | false =>
    rcases placing.placed isDone before isStatic with ⟨slot, placed, _⟩
    cases after.symm.trans placed
    rfl

theorem Placing.findMember?_eq (placing : Placing start owner done vtable registry) (id : ClassId)
    (name : String) :
    (registry.modifyClass owner fun entry => { entry with vtable }).findMember? id name =
      start.findMember? id name := by
  have sameEntries : ∀ other, registry.classEntry? other = start.classEntry? other := by
    simp [Registry.classEntry?, placing.sameClasses]
  refine Registry.findMember?_congr ?_ ?_ ?_
  · rw [Registry.classCount_modifyClass, Registry.classCount, placing.sameClasses,
      Registry.classCount]
  · intro other
    rw [Registry.parent?_modifyVtable, Registry.parent?, sameEntries, Registry.parent?]
  · intro ancestor _
    rw [Registry.ownMember?_eq, Registry.memberScope?_modifyVtable, Registry.scopes_modifyClass,
      placing.sameScopes, Registry.memberScope?, sameEntries, ← Registry.memberScope?,
      ← Registry.ownMember?_eq]

/-- A class declares nothing under the name of an inherited field. -/
theorem ownMember?_eq_none_of_inherited (wellFormed : start.WellFormed) (fits : start.Fits owner)
    {id : FieldId} (inherited : start.findInherited? owner name = some (.ofField id)) :
    start.ownMember? owner name = none := by
  cases declared : start.ownMember? owner name with
  | none => rfl
  | some symbol =>
    have declares := wellFormed.own_iff.mp declared
    cases symbol with
    | ofField own =>
      rcases declares with ⟨field, found, owned, rfl⟩
      rw [fits.field_fresh found owned] at inherited
      cases inherited
    | ofMethod own =>
      rcases declares with ⟨method, found, owned, rfl⟩
      rcases (fits.method_fits found owned).2 with ⟨isNew, _⟩ | ⟨_, _, replaced, _⟩
      · rw [isNew] at inherited
        cases inherited
      · rw [replaced] at inherited
        cases inherited
    | ofClass _ => exact declares.elim
    | ofVariable _ => exact declares.elim

theorem Placing.findMethod?_eq (placing : Placing start owner done vtable registry) (id : ClassId)
    (name : String) :
    (registry.modifyClass owner fun entry => { entry with vtable }).findMethod? id name =
      start.findMethod? id name := by
  rw [Registry.findMethod?, Registry.findMethod?, placing.findMember?_eq]

/-- The vtable that is made has only methods that are found in the class. -/
theorem Placing.found_of_listed (acyclic : start.Acyclic) (fits : start.Fits owner)
    (wellFormed : start.WellFormed) (placing : Placing start owner done vtable registry)
    (allDone : ∀ {id method}, start.methodEntry? id = some method → method.owner = owner →
      id ∈ done)
    {slot : Nat} {id : MethodId} (listed : vtable[slot]? = some id) :
    ∃ method, registry.methodEntry? id = some method ∧ method.isStatic = false ∧
      method.slot = some slot ∧
      start.findMethod? owner method.name = some id := by
  rcases placing.listed listed with ⟨method, methodFound, isInstance, slotEq, origin⟩
  refine ⟨method, methodFound, isInstance, slotEq, ?_⟩
  rcases origin with isDone | ⟨inheritedFound, apart⟩
  · rcases placing.own isDone with ⟨before, beforeFound, owned⟩
    rw [placing.name_eq isDone beforeFound methodFound]
    exact findMethod?_of_own acyclic wellFormed beforeFound owned
  · rw [Registry.findMethod?_eq_some, Registry.findMember?_eq wellFormed acyclic]
    rcases own_or_inherited wellFormed fits allDone inheritedFound with
      noOwn | ⟨own, entry, isDone, _, entryFound, _, named⟩
    · rw [noOwn, Option.none_or, inheritedFound]
    · exact absurd named (apart own isDone entry entryFound)

/-- The vtable that is made has every instance method that is found in the class. -/
theorem Placing.listed_of_found (acyclic : start.Acyclic) (wellFormed : start.WellFormed)
    (placing : Placing start owner done vtable registry)
    (allDone : ∀ {id method}, start.methodEntry? id = some method → method.owner = owner →
      id ∈ done)
    {id : MethodId} (inClass : start.findMethod? owner name = some id)
    (methodFound : registry.methodEntry? id = some method) (isInstance : method.isStatic = false) :
    ∃ slot, method.slot = some slot ∧ vtable[slot]? = some id := by
  rw [Registry.findMethod?_eq_some, Registry.findMember?_eq wellFormed acyclic,
    Option.or_eq_some_iff] at inClass
  rcases inClass with declared | ⟨noOwn, inheritedFound⟩
  · rcases wellFormed.own_iff.mp declared with ⟨before, beforeFound, owned, _⟩
    have isDone := allDone beforeFound owned
    cases isStatic : before.isStatic with
    | true =>
      cases methodFound.symm.trans (placing.static isDone beforeFound isStatic)
      simp [isStatic] at isInstance
    | false =>
      rcases placing.placed isDone beforeFound isStatic with ⟨slot, placed, listed, _⟩
      cases methodFound.symm.trans placed
      exact ⟨slot, rfl, listed⟩
  · refine placing.inherited inheritedFound
      (placing.methodEntry?_of_inherited acyclic wellFormed inheritedFound methodFound)
      isInstance ?_
    intro other otherMem entry entryFound sameName
    rcases placing.own otherMem with ⟨same, sameFound, owned⟩
    cases entryFound.symm.trans sameFound
    have declared := wellFormed.own_iff.mpr
      (show start.Declares owner name (.ofMethod other) from ⟨entry, entryFound, owned, sameName⟩)
    cases noOwn.symm.trans declared

section

variable (acyclic : start.Acyclic) (fits : start.Fits owner) (wellFormed : start.WellFormed)
  (placing : Placing start owner done vtable registry)
  (allDone : ∀ {id method}, start.methodEntry? id = some method → method.owner = owner → id ∈ done)
include acyclic fits wellFormed placing allDone

/-- Under the name of an inherited instance method a class has that method or one that takes its
place. -/
theorem Placing.exists_replacement {id : MethodId}
    (inheritedFound : start.findInherited? owner name = some (.ofMethod id))
    (methodFound : registry.methodEntry? id = some method) (isInstance : method.isStatic = false) :
    ∃ own entry, start.findMethod? owner name = some own ∧ registry.methodEntry? own = some entry ∧
      SameSignature entry method ∧ entry.slot = method.slot := by
  have before := placing.methodEntry?_of_inherited acyclic wellFormed inheritedFound methodFound
  rcases own_or_inherited wellFormed fits allDone inheritedFound with
    noOwn | ⟨own, entry, isDone, declared, entryFound, owned, named⟩
  · refine ⟨id, method, ?_, methodFound, ⟨rfl, rfl, rfl⟩, rfl⟩
    rw [Registry.findMethod?_eq_some, Registry.findMember?_eq wellFormed acyclic, noOwn,
      Option.none_or, inheritedFound]
  · rcases (fits.method_fits entryFound owned).2 with
      ⟨notInherited, _⟩ | ⟨replaced, inherited, replacedFound, replacedEntry, overridesEq, same⟩
    · rw [named, inheritedFound] at notInherited
      cases notInherited
    · rw [named, inheritedFound] at replacedFound
      cases replacedFound
      cases before.symm.trans replacedEntry
      rcases placing.placed isDone entryFound (same.isStatic_eq.trans isInstance) with
        ⟨slot, placed, _, agrees⟩
      refine ⟨own, _, ?_, placed,
        ⟨same.isStatic_eq, same.parameterTypes_eq, same.returnType_eq⟩, ?_⟩
      · rw [← named]
        exact findMethod?_of_own acyclic wellFormed entryFound owned
      · exact (agrees id method overridesEq before).symm

theorem dispatches_of_placing :
    (registry.modifyClass owner fun entry => { entry with vtable }).Dispatches owner := by
  have ofParent : ∀ {parent},
      (registry.modifyClass owner fun entry => { entry with vtable }).parent? owner = some parent →
      start.parent? owner = some parent := by
    intro parent parentEq
    rwa [Registry.parent?_modifyVtable, placing.changes.parent_eq] at parentEq
  refine ⟨?_, ?_, ?_, ?_⟩
  · intro found slot id foundEq listed
    rw [Registry.classEntry?_modifyClass, if_pos rfl] at foundEq
    rcases Option.map_eq_some_iff.mp foundEq with ⟨old, _, rfl⟩
    simp only [placing.findMethod?_eq]
    exact placing.found_of_listed acyclic fits wellFormed allDone listed
  · intro found name id method foundEq inClass methodFound isInstance
    rw [Registry.classEntry?_modifyClass, if_pos rfl] at foundEq
    rcases Option.map_eq_some_iff.mp foundEq with ⟨old, _, rfl⟩
    rw [placing.findMethod?_eq] at inClass
    exact placing.listed_of_found acyclic wellFormed allDone inClass methodFound isInstance
  · intro parent name id method parentEq inParent methodFound isInstance
    rw [placing.findMethod?_eq, Registry.findMethod?_eq_some] at inParent
    simp only [placing.findMethod?_eq]
    have inherited : start.findInherited? owner name = some (.ofMethod id) := by
      rw [Registry.findInherited?_of_parent (ofParent parentEq), inParent]
    have replaced := placing.exists_replacement acyclic fits wellFormed allDone inherited
      methodFound isInstance
    exact replaced
  · intro parent name id parentEq inParent
    rw [Registry.findField?_eq_some, placing.findMember?_eq] at inParent ⊢
    have inherited : start.findInherited? owner name = some (.ofField id) := by
      rw [Registry.findInherited?_of_parent (ofParent parentEq), inParent]
    rw [Registry.findMember?_eq wellFormed acyclic,
      ownMember?_eq_none_of_inherited wellFormed fits inherited, Option.none_or, inherited]

end

end

/-- Building the vtable of a class completes the class. -/
theorem building_buildVtable {base : Registry} (acyclic : base.Acyclic)
    (known : owner.index < base.classCount) (building : Building base owner start)
    (parentDispatches : ∀ parent, start.parent? owner = some parent → start.Dispatches parent) :
    (buildVtable start owner).Consistent ∧ ChangesOnly owner base (buildVtable start owner) ∧
      (buildVtable start owner).Dispatches owner := by
  have wellFormed := building.consistent.toWellFormed
  have startAcyclic := building.changes.acyclic acyclic
  have stillKnown : owner.index < start.classCount := by rwa [building.changes.classCount_eq]
  rcases Registry.exists_classEntry stillKnown with ⟨found, foundEq⟩
  have own : ∀ id ∈ found.methods, ∃ method,
      start.methodEntry? id = some method ∧ method.owner = owner := by
    intro id idMem
    rw [wellFormed.methods_eq foundEq] at idMem
    exact wellFormed.mem_methodsOf.mp idMem
  have nodup : (found.methods ++ []).Nodup := by
    rw [List.append_nil, wellFormed.methods_eq foundEq]
    exact wellFormed.nodup_methodsOf owner
  have placing := placing_foldl wellFormed startAcyclic building.fits
    (placing_start building.consistent parentDispatches) nodup own
  have allDone : ∀ {id method}, start.methodEntry? id = some method → method.owner = owner →
      id ∈ found.methods.reverse ++ [] := by
    intro id method methodFound owned
    rw [List.append_nil, List.mem_reverse, wellFormed.methods_eq foundEq]
    exact wellFormed.mem_methodsOf.mpr ⟨method, methodFound, owned⟩
  simp only [buildVtable, foundEq]
  refine ⟨⟨?_, ?_⟩, ?_, dispatches_of_placing startAcyclic building.fits wellFormed placing allDone⟩
  · refine placing.consistent.toWellFormed.modifyClass owner (fun _ => rfl)
      (fun _ => rfl) (fun _ => rfl) (fun _ => rfl) (fun _ => rfl) ?_
    intro entry parent entryFound parentEq
    exact placing.consistent.parent_known (by rw [Registry.parent?, entryFound]; exact parentEq)
  · exact placing.consistent.toLexical.modifyClass owner _
  · exact (building.changes.trans placing.changes).trans
      (.modifyClass (fun _ => rfl) (fun _ => rfl))

end Members

end Decaf
