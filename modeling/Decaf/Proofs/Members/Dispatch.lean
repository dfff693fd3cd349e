import Decaf.Proofs.Hierarchy
import Decaf.Proofs.Members.Vtable

/-!
# Dispatch

The classes of a program get their members one after the other, parents first. When a class is
complete its vtable agrees with what is found in it by name, and the classes behind it change
nothing about that. So in a program whose declarations have no faults, a slot that is found in a
class leads, in every class below, to the method that is found there.
-/

namespace Decaf

namespace Registry

/-- The names of the methods in a vtable, by slot. -/
def vtableNames (registry : Registry) (owner : ClassId) : List (Option String) :=
  (((registry.classEntry? owner).map ClassEntry.vtable).getD []).map fun id =>
    (registry.methodEntry? id).map MethodEntry.name

/-- A name stands for an instance method of a class. -/
def IsInstanceName (registry : Registry) (owner : ClassId) (name : String) : Prop :=
  ∃ id method, registry.findMethod? owner name = some id ∧ registry.methodEntry? id = some method ∧
    method.isStatic = false

/-- Slots lead to the methods that names stand for. -/
structure SoundDispatch (registry : Registry) : Prop where
  /-- Every instance method that a class can be asked for has a slot. -/
  slot_exists : ∀ {owner name id method}, registry.findMethod? owner name = some id →
    registry.methodEntry? id = some method → method.isStatic = false → ∃ slot,
    method.slot = some slot
  /-- In every class below, the slot holds the method of that name, which has the same signature. -/
  slot_reaches : ∀ {lower upper name id method slot}, registry.DescendsFrom lower upper →
    registry.findMethod? upper name = some id → registry.methodEntry? id = some method →
      method.isStatic = false → method.slot = some slot → ∃ found target entry,
        registry.classEntry? lower = some found ∧ found.vtable[slot]? = some target ∧
          registry.findMethod? lower name = some target ∧
          registry.methodEntry? target = some entry ∧
          entry.isStatic = false ∧ entry.parameterTypes = method.parameterTypes ∧
          entry.returnType = method.returnType ∧ entry.slot = some slot
  listed_once : ∀ {owner name}, registry.IsInstanceName owner name →
    (registry.vtableNames owner).count (some name) = 1
  listed_only : ∀ {owner name}, name ∈ registry.vtableNames owner →
    ∃ known, name = some known ∧ registry.IsInstanceName owner known
  parent_prefix : ∀ {owner parent}, registry.parent? owner = some parent →
    registry.vtableNames parent <+: registry.vtableNames owner

namespace Dispatches

variable {registry : Registry} {owner : ClassId} {found : ClassEntry}
variable {name : String}

theorem vtableNames_eq (classFound : registry.classEntry? owner = some found) :
    registry.vtableNames owner =
      found.vtable.map fun id => (registry.methodEntry? id).map MethodEntry.name := by
  simp [vtableNames, classFound]

section

variable (dispatches : registry.Dispatches owner)
  (classFound : registry.classEntry? owner = some found)
include dispatches classFound

theorem name_at {slot : Nat} : (registry.vtableNames owner)[slot]? = some (some name) ↔
      ∃ id method, found.vtable[slot]? = some id ∧ registry.methodEntry? id = some method ∧
        method.name = name ∧ method.isStatic = false ∧ method.slot = some slot ∧
        registry.findMethod? owner name = some id := by
  rw [vtableNames_eq classFound, List.getElem?_map]
  constructor
  · intro named
    rcases Option.map_eq_some_iff.mp named with ⟨id, listed, nameEq⟩
    rcases dispatches.listed classFound listed with
      ⟨method, methodFound, isInstance, slotEq, inClass⟩
    rw [methodFound, Option.map_some, Option.some_inj] at nameEq
    exact ⟨id, method, listed, methodFound, nameEq, isInstance, slotEq, by rwa [← nameEq]⟩
  · rintro ⟨id, method, listed, methodFound, rfl, _⟩
    simp [listed, methodFound]

theorem isSome_of_mem {name : Option String}
    (nameMem : name ∈ registry.vtableNames owner) : ∃ known, name = some known ∧
      registry.IsInstanceName owner known := by
  rw [vtableNames_eq classFound] at nameMem
  rcases List.mem_map.mp nameMem with ⟨id, idMem, rfl⟩
  rcases List.getElem?_of_mem idMem with ⟨slot, listed⟩
  rcases dispatches.listed classFound listed with ⟨method, methodFound, isInstance, _, inClass⟩
  exact ⟨method.name, by simp [methodFound], id, method, inClass, methodFound, isInstance⟩

theorem nodup_names : (registry.vtableNames owner).Nodup := by
  rw [List.nodup_iff_getElem?_ne_getElem?]
  intro first second firstLt secondLt same
  have secondEq := List.getElem?_eq_getElem secondLt
  rcases dispatches.isSome_of_mem classFound (List.mem_of_getElem? secondEq) with ⟨name, nameEq, _⟩
  rw [nameEq] at secondEq
  rcases (dispatches.name_at classFound).mp secondEq with
    ⟨id, method, _, methodFound, _, _, slotEq, inClass⟩
  rcases (dispatches.name_at classFound).mp (same.trans secondEq) with
    ⟨other, otherMethod, _, otherFound, _, _, otherSlot, otherInClass⟩
  cases inClass.symm.trans otherInClass
  cases methodFound.symm.trans otherFound
  cases slotEq.symm.trans otherSlot
  exact Nat.lt_irrefl _ firstLt

end

theorem count_name (dispatches : registry.Dispatches owner) (wellFormed : registry.WellFormed)
    (classFound : registry.classEntry? owner = some found)
    (isInstanceName : registry.IsInstanceName owner name) :
    (registry.vtableNames owner).count (some name) = 1 := by
  rcases isInstanceName with ⟨id, method, inClass, methodFound, isInstance⟩
  rcases dispatches.hasSlot classFound inClass methodFound isInstance with ⟨slot, slotEq, listed⟩
  rcases exists_methodEntry wellFormed inClass with ⟨same, sameFound, named, _⟩
  cases methodFound.symm.trans sameFound
  have atSlot := (dispatches.name_at classFound).mpr
    ⟨id, method, listed, methodFound, named, isInstance, slotEq, inClass⟩
  exact List.count_eq_one_of_mem (dispatches.nodup_names classFound) (List.mem_of_getElem? atSlot)

/-- A class keeps the slots of its parent. -/
theorem names_grow {parent : ClassId} (dispatches : registry.Dispatches owner)
    (parentDispatches : registry.Dispatches parent) (wellFormed : registry.WellFormed)
    (classFound : registry.classEntry? owner = some found)
    (parentEq : registry.parent? owner = some parent) :
    registry.vtableNames parent <+: registry.vtableNames owner := by
  rcases exists_classEntry (wellFormed.parent_known parentEq) with ⟨parentEntry, parentFound⟩
  rw [List.prefix_iff_getElem?]
  intro slot slotLt
  have parentAt := List.getElem?_eq_getElem slotLt
  rcases parentDispatches.isSome_of_mem parentFound (List.mem_of_getElem? parentAt) with
    ⟨name, nameEq, _⟩
  rw [nameEq] at parentAt ⊢
  rcases (parentDispatches.name_at parentFound).mp parentAt with
    ⟨id, method, _, methodFound, named, isInstance, slotEq, inParent⟩
  rcases dispatches.keeps parentEq inParent methodFound isInstance with
    ⟨own, entry, inClass, entryFound, same, sameSlot⟩
  have ownInstance := same.isStatic_eq.trans isInstance
  rcases dispatches.hasSlot classFound inClass entryFound ownInstance with ⟨place, placeEq, listed⟩
  cases placeEq.symm.trans (sameSlot.trans slotEq)
  rcases exists_methodEntry wellFormed inClass with ⟨again, againFound, ownNamed, _⟩
  cases entryFound.symm.trans againFound
  exact (dispatches.name_at classFound).mpr
    ⟨own, entry, listed, entryFound, ownNamed, ownInstance, placeEq, inClass⟩

end Dispatches

variable {registry : Registry} {lower upper : ClassId} {name : String}

section

variable (dispatches : ∀ id : ClassId, id.index < registry.classCount → registry.Dispatches id)
  (descends : registry.DescendsFrom lower upper)
include dispatches descends

/-- Down the hierarchy a method may be replaced, but neither its signature nor its slot changes. -/
theorem keeps_of_descendsFrom {id : MethodId}
    {method : MethodEntry} (found : registry.findMethod? upper name = some id)
    (methodFound : registry.methodEntry? id = some method) (isInstance : method.isStatic = false) :
    ∃ own entry, registry.findMethod? lower name = some own ∧
      registry.methodEntry? own = some entry ∧
      SameSignature entry method ∧ entry.slot = method.slot := by
  induction descends using Relation.ReflTransGen.head_induction_on with
  | refl => exact ⟨id, method, found, methodFound, ⟨rfl, rfl, rfl⟩, rfl⟩
  | head parentEq _ ih =>
    rcases ih with ⟨middle, middleEntry, middleFound, middleEntryFound, same, sameSlot⟩
    have middleInstance := same.isStatic_eq.trans isInstance
    rcases (dispatches _ (lt_classCount_of_parent parentEq)).keeps parentEq
      middleFound middleEntryFound
      middleInstance with ⟨own, entry, ownFound, entryFound, ownSame, ownSlot⟩
    exact ⟨own, entry, ownFound, entryFound,
      ⟨ownSame.isStatic_eq.trans same.isStatic_eq,
        ownSame.parameterTypes_eq.trans same.parameterTypes_eq,
        ownSame.returnType_eq.trans same.returnType_eq⟩, ownSlot.trans sameSlot⟩

/-- Down the hierarchy a field's name stands for the same field. -/
theorem keepsField_of_descendsFrom {id : FieldId}
    (found : registry.findField? upper name = some id) :
    registry.findField? lower name = some id := by
  induction descends using Relation.ReflTransGen.head_induction_on with
  | refl => exact found
  | head parentEq _ ih =>
    exact (dispatches _ (lt_classCount_of_parent parentEq)).keepsField parentEq ih

end

end Registry

namespace Members

open Registry (ChangesOnly Fits Replaces SameSignature Dispatches)

variable {classes : List ClassDecl} {hierarchy : Hierarchy} {members : Members} {owner : ClassId}
variable {classIndex : Nat} {decl : ClassDecl} {front rest : List ClassId}

theorem addClass_grows (owner : ClassId) (classIndex : Nat) (decl : ClassDecl) :
    members.diagnostics <+: (addClass members owner classIndex decl).diagnostics := by
  have fieldsGrow := foldl_grows (addField_grows owner) decl.fields members
  exact fieldsGrow.trans (foldl_grows (addMethod_grows owner) (sourcesOf classIndex decl) _)

theorem addClassById_grows (classes : List ClassDecl) (hierarchy : Hierarchy) (members : Members)
    (owner : ClassId) :
    members.diagnostics <+: (addClassById classes hierarchy members owner).diagnostics := by
  rw [addClassById]
  split
  · exact List.prefix_rfl
  · split
    · exact List.prefix_rfl
    · exact addClass_grows _ _ _

/-- A class without members is ready to get some. -/
theorem building_start (consistent : members.registry.Consistent) {found : ClassEntry}
    (known : members.registry.classEntry? owner = some found) (noFields : found.fields = [])
    (noMethods : found.methods = []) : Building members.registry owner members.registry := by
  have wellFormed := consistent.toWellFormed
  refine ⟨consistent, .refl _ _, ?_, ?_⟩
  · intro id field fieldFound owned
    have isMember := wellFormed.mem_fieldsOf.mpr ⟨field, fieldFound, owned⟩
    rw [← wellFormed.fields_eq known, noFields] at isMember
    cases isMember
  · intro id method methodFound owned
    have isMember := wellFormed.mem_methodsOf.mpr ⟨method, methodFound, owned⟩
    rw [← wellFormed.methods_eq known, noMethods] at isMember
    cases isMember

/-- Members that are declared without faults are registered, and fit what their class inherits. -/
theorem building_members (acyclic : members.registry.Acyclic)
    (inRange : owner.index < members.registry.classCount)
    (started : Building members.registry owner members.registry)
    (errorFree : (addClass members owner classIndex decl).diagnostics = []) :
    Building members.registry owner
      ((sourcesOf classIndex decl).foldl (addMethod owner)
        (decl.fields.foldl (addField owner) members)).registry := by
  have fieldsFree := errorFree_of_grows
    (foldl_grows (addMethod_grows owner) (sourcesOf classIndex decl) _) errorFree
  have withFields :=
    @foldl_induction _ _ (fun built => Building members.registry owner built.registry)
      (addField_grows owner) _ (fun _ _ _ => building_addField acyclic inRange) _ started fieldsFree
  exact @foldl_induction _ _ (fun built => Building members.registry owner built.registry)
    (addMethod_grows owner) _ (fun _ _ _ => building_addMethod acyclic inRange)
    _ withFields errorFree

/-- The classes above a class are complete by the time its members are registered. -/
theorem Building.dispatches_parent {base registry : Registry}
    (building : Building base owner registry) (wellFormed : base.WellFormed)
    (acyclic : base.Acyclic)
    (parentDispatches : ∀ parent, base.parent? owner = some parent → base.Dispatches parent) :
    ∀ parent, registry.parent? owner = some parent → registry.Dispatches parent := by
  intro parent parentEq
  rw [building.changes.parent_eq] at parentEq
  exact building.changes.dispatches wellFormed (acyclic.not_descendsFrom_parent parentEq)
    (parentDispatches parent parentEq)

/-- A class whose members are declared without faults is complete. -/
theorem complete_addClass (acyclic : members.registry.Acyclic)
    (inRange : owner.index < members.registry.classCount)
    (started : Building members.registry owner members.registry)
    (parentDispatches : ∀ parent, members.registry.parent? owner = some parent →
      members.registry.Dispatches parent)
    (errorFree : (addClass members owner classIndex decl).diagnostics = []) :
    (addClass members owner classIndex decl).registry.Consistent ∧
      ChangesOnly owner members.registry (addClass members owner classIndex decl).registry ∧
      (addClass members owner classIndex decl).registry.Dispatches owner := by
  have withMembers := building_members acyclic inRange started errorFree
  exact building_buildVtable acyclic inRange withMembers
    (withMembers.dispatches_parent started.consistent.toWellFormed acyclic parentDispatches)

/-- The classes in `front` are complete, and the others have no members yet. -/
structure Completing (hierarchy : Hierarchy) (front : List ClassId) (members : Members) : Prop where
  consistent : members.registry.Consistent
  classCount_eq : members.registry.classCount = hierarchy.registry.classCount
  parent_eq : ∀ id, members.registry.parent? id = hierarchy.registry.parent? id
  others : ∀ {id}, id ∉ front → members.registry.classEntry? id = hierarchy.registry.classEntry? id
  dispatches : ∀ {id}, id ∈ front → members.registry.Dispatches id

theorem Completing.acyclic (completing : Completing hierarchy front members)
    (acyclic : hierarchy.registry.Acyclic) : members.registry.Acyclic :=
  Registry.acyclic_congr completing.parent_eq acyclic

section

variable (settled : hierarchy.Settled classes.length)
include settled

/-- A class whose turn it is has no members yet. -/
theorem Completing.building
    (completing : Completing hierarchy front members) (turn : hierarchy.Turn front owner) :
    Building members.registry owner members.registry := by
  rcases Registry.exists_classEntry turn.known with ⟨found, foundEq⟩
  have bare := settled.bare
  refine building_start completing.consistent ((completing.others turn.isNew).trans foundEq) ?_ ?_
  · rw [bare.consistent.fields_eq foundEq, Registry.fieldsOf, bare.noFields]
    rfl
  · rw [bare.consistent.methods_eq foundEq, Registry.methodsOf, bare.noMethods]
    rfl

theorem completing_addClassById (orderEq : hierarchy.order = front ++ owner :: rest)
    (completing : Completing hierarchy front members)
    (errorFree : (addClassById classes hierarchy members owner).diagnostics = []) :
    Completing hierarchy (front ++ [owner]) (addClassById classes hierarchy members owner) := by
  have turn := settled.turn orderEq
  have known : owner.index < members.registry.classCount := completing.classCount_eq ▸ turn.known
  have apart : ∀ {id}, id ∈ front → ¬ members.registry.DescendsFrom id owner := by
    intro id inFront
    rw [Registry.descendsFrom_congr completing.parent_eq]
    exact turn.apart inFront
  rcases settled.exists_declaration turn.known with ⟨index, decl, indexEq, declEq⟩
  simp only [addClassById, indexEq, declEq] at errorFree ⊢
  rcases complete_addClass (completing.acyclic settled.acyclic) known
    (completing.building settled turn) (fun parent parentEq => completing.dispatches
      (turn.parent_done ((completing.parent_eq owner).symm.trans parentEq))) errorFree with
    ⟨consistent, changes, dispatches⟩
  refine ⟨consistent, changes.classCount_eq.trans completing.classCount_eq, ?_, ?_, ?_⟩
  · intro id
    rw [changes.parent_eq, completing.parent_eq]
  · intro id notDone
    rw [List.mem_append, List.mem_singleton, not_or] at notDone
    rw [changes.class_eq notDone.2, completing.others notDone.1]
  · intro id isDone
    rcases List.mem_append.mp isDone with inFront | isOwner
    · exact changes.dispatches completing.consistent.toWellFormed (apart inFront)
        (completing.dispatches inFront)
    · cases List.mem_singleton.mp isOwner
      exact dispatches

theorem completing_foldl
    (orderEq : hierarchy.order = front ++ rest) (completing : Completing hierarchy front members)
    (errorFree : (rest.foldl (addClassById classes hierarchy) members).diagnostics = []) :
    Completing hierarchy hierarchy.order (rest.foldl (addClassById classes hierarchy) members) := by
  induction rest generalizing front members with
  | nil =>
    rw [List.append_nil] at orderEq
    rw [orderEq]
    exact completing
  | cons owner rest ih =>
    have firstFree := errorFree_of_grows
      (foldl_grows (addClassById_grows classes hierarchy) rest _) errorFree
    exact ih (by rw [orderEq]; simp) (completing_addClassById settled orderEq completing firstFree)
      errorFree

theorem completing_start : Completing hierarchy [] { registry := hierarchy.registry } :=
  ⟨settled.bare.consistent, rfl, fun _ => rfl, fun _ => rfl, by simp⟩

end

/-- In a program without faulty declarations all classes are complete. -/
theorem completing_ofHierarchy {classes : List ClassDecl}
    (errorFree : (ofHierarchy classes (Hierarchy.ofClasses classes)).diagnostics = []) :
    (Hierarchy.ofClasses classes).Settled classes.length ∧
      Completing (Hierarchy.ofClasses classes) (Hierarchy.ofClasses classes).order
        (ofHierarchy classes (Hierarchy.ofClasses classes)) := by
  have settled := Hierarchy.settled_ofClasses classes
  exact ⟨settled, completing_foldl settled rfl (completing_start settled) errorFree⟩

theorem Completing.dispatches_of_known (settled : hierarchy.Settled classes.length)
    (completing : Completing hierarchy hierarchy.order members) (id : ClassId)
    (known : id.index < members.registry.classCount) : members.registry.Dispatches id :=
  completing.dispatches (settled.mem_order.mpr (completing.classCount_eq ▸ known))

theorem Completing.soundDispatch (settled : hierarchy.Settled classes.length)
    (completing : Completing hierarchy hierarchy.order members) :
    members.registry.SoundDispatch := by
  have wellFormed := completing.consistent.toWellFormed
  have acyclic := completing.acyclic settled.acyclic
  have dispatches := completing.dispatches_of_known settled
  have foundKnown : ∀ {owner : ClassId} {name : String} {id : MethodId},
      members.registry.findMethod? owner name = some id →
        owner.index < members.registry.classCount := fun found =>
    Registry.lt_classCount_of_findMember? wellFormed acyclic (Registry.findMethod?_eq_some.mp found)
  refine ⟨?_, ?_, ?_, ?_, ?_⟩
  · intro owner name id method found methodFound isInstance
    rcases Registry.exists_classEntry (foundKnown found) with ⟨entry, entryFound⟩
    rcases (dispatches owner (foundKnown found)).hasSlot entryFound found
      methodFound isInstance with
      ⟨slot, slotEq, _⟩
    exact ⟨slot, slotEq⟩
  · intro lower upper name id method slot descends found methodFound isInstance slotEq
    rcases Registry.keeps_of_descendsFrom dispatches descends found methodFound isInstance with
      ⟨own, entry, ownFound, entryFound, same, sameSlot⟩
    have known := foundKnown ownFound
    have ownInstance := same.isStatic_eq.trans isInstance
    rcases Registry.exists_classEntry known with ⟨classEntry, classFound⟩
    rcases (dispatches lower known).hasSlot classFound ownFound entryFound ownInstance with
      ⟨place, placeEq, listed⟩
    cases placeEq.symm.trans (sameSlot.trans slotEq)
    exact ⟨classEntry, own, entry, classFound, listed, ownFound, entryFound, ownInstance,
      same.parameterTypes_eq, same.returnType_eq, placeEq⟩
  · intro owner name isInstanceName
    rcases isInstanceName with ⟨id, method, found, methodFound, isInstance⟩
    rcases Registry.exists_classEntry (foundKnown found) with ⟨entry, entryFound⟩
    exact (dispatches owner (foundKnown found)).count_name wellFormed entryFound
      ⟨id, method, found, methodFound, isInstance⟩
  · intro owner name nameMem
    cases classFound : members.registry.classEntry? owner with
    | none => simp [Registry.vtableNames, classFound] at nameMem
    | some entry =>
      exact (dispatches owner (Registry.lt_classCount classFound)).isSome_of_mem classFound nameMem
  · intro owner parent parentEq
    have known := Registry.lt_classCount_of_parent parentEq
    rcases Registry.exists_classEntry known with ⟨entry, entryFound⟩
    exact (dispatches owner known).names_grow (dispatches parent (wellFormed.parent_known parentEq))
      wellFormed entryFound parentEq

/-- A program whose members are declared without faults dispatches by name. -/
theorem soundDispatch_ofHierarchy (program : Program)
    (membersFree : (ofHierarchy program.classes (Hierarchy.ofClasses program.classes)).diagnostics =
      []) :
    (ofHierarchy program.classes (Hierarchy.ofClasses program.classes)).registry.SoundDispatch := by
  rcases completing_ofHierarchy membersFree with ⟨settled, completing⟩
  exact completing.soundDispatch settled

/-- A class with a method, and behind it one that replaces the method. -/
def replacingProgram : Program :=
  let origin : Position := ⟨1, 1⟩
  let run : MethodDecl :=
    ⟨"run", .primitive .void, [], .block ⟨⟨0⟩, origin⟩ [], .publicMember, false, origin⟩
  { classes :=
      [⟨"Child", some ⟨"Parent", origin⟩, [], [run], origin⟩, ⟨"Parent", none, [], [run], origin⟩] }

theorem soundDispatch_replacingProgram :
    (ofHierarchy replacingProgram.classes
      (Hierarchy.ofClasses replacingProgram.classes)).diagnostics = [] ∧
      (ofHierarchy replacingProgram.classes
        (Hierarchy.ofClasses replacingProgram.classes)).registry.SoundDispatch := by
  have membersFree : (ofHierarchy replacingProgram.classes
      (Hierarchy.ofClasses replacingProgram.classes)).diagnostics = [] := by
    decide +kernel
  exact ⟨membersFree, soundDispatch_ofHierarchy _ membersFree⟩

end Members

end Decaf
