import Decaf.Proofs.Members.Accepted

/-!
# The order of slots

The slots of a class are those of its parent, and behind them one for each of its own methods that
objects can be asked for and that replaces none, in the order in which these are registered.
-/

namespace Decaf

/-- The method gets a slot of its own. -/
def MethodRecord.opensSlot (record : MethodRecord) : Bool :=
  !record.isStatic && record.overrides.isNone

namespace Registry

/-- The name of a method, given its number. -/
def methodName? (registry : Registry) (id : MethodId) : Option String :=
  (registry.methodEntry? id).map MethodEntry.name

/-- What is on record of a method, given its number. -/
def methodRecord? (registry : Registry) (id : MethodId) : Option MethodRecord :=
  (registry.methodEntry? id).map MethodEntry.record

theorem methodName?_eq (registry : Registry) (id : MethodId) :
    registry.methodName? id = (registry.methodRecord? id).map MethodRecord.name := by
  rw [methodRecord?, Option.map_map]
  rfl

/-- What is on record of a field, given its number. -/
def fieldRecord? (registry : Registry) (id : FieldId) : Option FieldRecord :=
  (registry.fieldEntry? id).map FieldEntry.record

/-- The names for which methods get slots of their own. -/
def newNames (registry : Registry) (methods : List MethodId) : List (Option String) :=
  ((methods.filterMap registry.methodRecord?).filter MethodRecord.opensSlot).map fun record =>
    some record.name

/-- The vtable of a class begins with that of its parent, and has the new names behind it. -/
def NamesInOrder (registry : Registry) (owner : ClassId) : Prop :=
  registry.vtableNames owner = ((registry.parent? owner).map registry.vtableNames).getD [] ++
    registry.newNames (registry.methodsOf owner)

theorem newNames_append (registry : Registry) (front back : List MethodId) :
    registry.newNames (front ++ back) = registry.newNames front ++ registry.newNames back := by
  simp [newNames]

theorem newNames_congr {registry after : Registry} {methods : List MethodId}
    (same : ∀ id ∈ methods, after.methodRecord? id = registry.methodRecord? id) :
    after.newNames methods = registry.newNames methods := by
  rw [newNames, newNames, List.filterMap_congr same]

end Registry

namespace Members

open Registry (ChangesOnly Fits Replaces Dispatches)

variable {start registry : Registry} {owner : ClassId} {done vtable : List MethodId}

/-! ## Laying out a vtable -/

/-- Only the slots of methods change. -/
theorem Placing.methodRecord?_eq (placing : Placing start owner done vtable registry)
    (id : MethodId) : registry.methodRecord? id = start.methodRecord? id := by
  rw [Registry.methodRecord?, Registry.methodRecord?]
  rcases Classical.em (id ∈ done) with isDone | isLater
  · rcases placing.own isDone with ⟨method, found, _⟩
    cases isStatic : method.isStatic with
    | true => rw [placing.static isDone found isStatic, found]
    | false =>
      rcases placing.placed isDone found isStatic with ⟨slot, placed, _⟩
      rw [placed, found]
      rfl
  · rw [placing.others isLater]

section

variable (wellFormed : start.WellFormed) (acyclic : start.Acyclic) (fits : start.Fits owner)

include wellFormed acyclic fits

/-- A method that replaces an inherited one leaves the names in the vtable as they are. -/
theorem names_placeMethod (placing : Placing start owner done vtable registry) {id : MethodId}
    {method : MethodEntry} (isNew : id ∉ done) (methodFound : start.methodEntry? id = some method)
    (owned : method.owner = owner) :
    (placeMethod (vtable, registry) id).1.map start.methodName? =
      vtable.map start.methodName? ++ start.newNames [id] := by
  have current : registry.methodEntry? id = some method := (placing.others isNew).trans methodFound
  have recordEq : start.methodRecord? id = some method.record :=
    congrArg (Option.map MethodEntry.record) methodFound
  have nameEq : start.methodName? id = some method.name :=
    congrArg (Option.map MethodEntry.name) methodFound
  have newEq : start.newNames [id] =
      if method.record.opensSlot then [some method.name] else [] := by
    rw [Registry.newNames, List.filterMap_cons, recordEq]
    dsimp only
    rw [List.filterMap_nil, List.filter_cons]
    split <;> rfl
  rw [newEq]
  cases isStatic : method.isStatic with
  | true =>
    simp [placeMethod, current, isStatic, MethodRecord.opensSlot, MethodEntry.record]
  | false =>
    rcases (fits.method_fits methodFound owned).2 with
      ⟨_, noOverride⟩ | ⟨replaced, inherited, found, inheritedFound, overridesEq, same⟩
    · have noInheritedSlot : inheritedSlot? registry method = none := by
        rw [inheritedSlot?, noOverride]
        rfl
      simp [placeMethod, current, isStatic, noInheritedSlot, MethodRecord.opensSlot,
        MethodEntry.record, noOverride, nameEq]
    · have isInstance : inherited.isStatic = false := same.isStatic_eq.symm.trans isStatic
      rcases placing.exists_inheritedSlot wellFormed acyclic found inheritedFound
        isInstance overridesEq
        (placing.name_ne wellFormed isNew methodFound owned) with ⟨slot, inheritedSlotEq, _, atSlot⟩
      have sameName : inherited.name = method.name :=
        (inherited_owner_ne wellFormed acyclic found inheritedFound).2
      have nameAt : (vtable.map start.methodName?)[slot]? = some (some method.name) := by
        rw [List.getElem?_map, atSlot, Option.map_some, Registry.methodName?, inheritedFound,
          Option.map_some, sameName]
      rcases List.getElem?_eq_some_iff.mp nameAt with ⟨inRange, atEq⟩
      simp only [placeMethod, current, isStatic, Bool.false_eq_true, if_false, inheritedSlotEq,
        List.map_set, nameEq, MethodRecord.opensSlot, MethodEntry.record, overridesEq,
        Option.isNone_some, Bool.and_false, List.append_nil]
      rw [← atEq]
      exact List.set_getElem_self inRange

theorem names_foldl (placing : Placing start owner [] vtable start) (methods : List MethodId)
    (nodup : methods.Nodup)
    (own : ∀ id ∈ methods, ∃ method, start.methodEntry? id = some method ∧ method.owner = owner) :
    (methods.foldl placeMethod (vtable, start)).1.map start.methodName? =
      vtable.map start.methodName? ++ start.newNames methods := by
  induction methods using List.reverseRecOn with
  | nil => simp [Registry.newNames]
  | append_singleton front id ih =>
    have frontOwn := fun other isThere => own other (List.mem_append_left [id] isThere)
    rw [List.nodup_append] at nodup
    have placed := placing_foldl wellFormed acyclic fits placing (by simpa using nodup.1) frontOwn
    have isNew : id ∉ front.reverse ++ [] := by
      intro isThere
      exact nodup.2.2 id (by simpa using isThere) id List.mem_cons_self rfl
    rcases own id (by simp) with ⟨method, methodFound, owned⟩
    rw [List.foldl_append, List.foldl_cons, List.foldl_nil,
      Registry.newNames_append, ← List.append_assoc, ← ih nodup.1 frontOwn]
    exact names_placeMethod wellFormed acyclic fits placed isNew methodFound owned

end

/-- The vtable of a class is laid out behind that of its parent. -/
theorem namesInOrder_buildVtable (consistent : start.Consistent) (acyclic : start.Acyclic)
    (fits : start.Fits owner) (known : owner.index < start.classCount)
    (parentDispatches : ∀ parent, start.parent? owner = some parent → start.Dispatches parent) :
    (buildVtable start owner).NamesInOrder owner := by
  have wellFormed := consistent.toWellFormed
  rcases Registry.exists_classEntry known with ⟨found, foundEq⟩
  have methodsEq := wellFormed.methods_eq foundEq
  have own : ∀ id ∈ found.methods, ∃ method,
      start.methodEntry? id = some method ∧ method.owner = owner := by
    intro id isThere
    rw [methodsEq] at isThere
    exact wellFormed.mem_methodsOf.mp isThere
  have nodup : found.methods.Nodup := methodsEq ▸ wellFormed.nodup_methodsOf owner
  have started := placing_start consistent parentDispatches
  have placing := placing_foldl wellFormed acyclic fits started (by simpa using nodup) own
  have names := names_foldl wellFormed acyclic fits started found.methods nodup own
  rw [buildVtable, foundEq]
  dsimp only
  generalize found.methods.foldl placeMethod (inheritedVtable start owner, start) =
    state at placing names
  rcases state with ⟨vtable, registry⟩
  dsimp only at placing names ⊢
  have sameEntries : registry.classEntry? = start.classEntry? := by
    funext id
    rw [Registry.classEntry?, placing.sameClasses, Registry.classEntry?]
  have sameRecords := placing.methodRecord?_eq
  have sameNames : registry.methodName? = start.methodName? := by
    funext id
    rw [Registry.methodName?_eq, sameRecords, ← Registry.methodName?_eq]
  have ownNames : (registry.modifyClass owner fun entry =>
      { entry with vtable }).vtableNames owner = vtable.map start.methodName? := by
    rw [← sameNames, Registry.vtableNames, Registry.classEntry?_modifyClass, if_pos rfl,
      sameEntries, foundEq]
    rfl
  have sameMethods : (registry.modifyClass owner fun entry => { entry with vtable }).methodsOf
      owner = found.methods := by
    have stillFound : registry.classEntry? owner = some found := by rw [sameEntries, foundEq]
    exact (placing.consistent.methods_eq stillFound).symm
  have parentNames : ((start.parent? owner).map
      (registry.modifyClass owner fun entry => { entry with vtable }).vtableNames).getD [] =
        (inheritedVtable start owner).map start.methodName? := by
    rw [inheritedVtable, ← sameNames]
    cases parentEq : start.parent? owner with
    | none => rfl
    | some parent =>
      have differs : owner ≠ parent := by
        rintro rfl
        exact acyclic.not_descendsFrom_parent parentEq .refl
      rw [Option.map_some, Option.getD_some, Registry.vtableNames, Registry.classEntry?_modifyClass,
        if_neg differs, sameEntries, Option.bind_some]
      rfl
  rw [Registry.NamesInOrder, ownNames, names, Registry.parent?_modifyVtable,
    placing.changes.parent_eq, parentNames, sameMethods]
  refine congrArg _ (Registry.newNames_congr fun id _ => ?_)
  exact (sameRecords id).symm

end Members

/-! ## Other classes -/

namespace Registry.ChangesOnly

variable {owner id : ClassId} {before after : Registry}

section

variable (changes : ChangesOnly owner before after) (wellFormed : before.WellFormed)
include changes wellFormed

theorem vtableNames_eq
    (apart : ¬ before.DescendsFrom id owner) (dispatches : before.Dispatches id) :
    after.vtableNames id = before.vtableNames id := by
  have differs : id ≠ owner := by
    rintro rfl
    exact apart .refl
  rw [vtableNames, vtableNames, changes.class_eq differs]
  cases found : before.classEntry? id with
  | none => rfl
  | some entry =>
    refine List.map_congr_left fun method isThere => ?_
    rcases List.getElem?_of_mem isThere with ⟨slot, listed⟩
    rcases dispatches.listed found listed with ⟨_, _, _, _, inClass⟩
    rw [changes.methodEntry?_eq wellFormed apart inClass]

theorem newNames_eq (afterWellFormed : after.WellFormed) (known : id.index < before.classCount)
    (differs : id ≠ owner) :
    after.newNames (after.methodsOf id) = before.newNames (before.methodsOf id) := by
  rcases exists_classEntry known with ⟨entry, found⟩
  rw [← afterWellFormed.methods_eq ((changes.class_eq differs).trans found),
    wellFormed.methods_eq found]
  refine newNames_congr fun method isThere => ?_
  rcases wellFormed.mem_methodsOf.mp isThere with ⟨own, ownFound, rfl⟩
  rw [methodRecord?, methodRecord?, ownFound, (changes.method_iff differs).mpr ownFound]

theorem namesInOrder (afterWellFormed : after.WellFormed) (known : id.index < before.classCount)
    (apart : ¬ before.DescendsFrom id owner) (dispatches : before.Dispatches id)
    (parentDispatches : ∀ parent, before.parent? id = some parent → before.Dispatches parent)
    (inOrder : before.NamesInOrder id) : after.NamesInOrder id := by
  have differs : id ≠ owner := by
    rintro rfl
    exact apart .refl
  have sameParent : ((before.parent? id).map after.vtableNames).getD [] =
      ((before.parent? id).map before.vtableNames).getD [] := by
    cases parentEq : before.parent? id with
    | none => rfl
    | some parent =>
      rw [Option.map_some, Option.map_some, changes.vtableNames_eq wellFormed (fun descends =>
        apart (.head parentEq descends)) (parentDispatches parent parentEq)]
  rw [NamesInOrder, changes.parent_eq, changes.vtableNames_eq wellFormed apart dispatches,
    sameParent, changes.newNames_eq wellFormed afterWellFormed known differs]
  exact inOrder

end

end Registry.ChangesOnly

/-! ## All classes -/

namespace Members

variable {classes : List ClassDecl} {hierarchy : Hierarchy} {members : Members} {owner : ClassId}
  {front rest : List ClassId}

theorem namesInOrder_addClassById (settled : hierarchy.Settled classes.length)
    (orderEq : hierarchy.order = front ++ owner :: rest)
    (completing : Completing hierarchy front members)
    (inOrder : ∀ id ∈ front, members.registry.NamesInOrder id)
    (errorFree : (addClassById classes hierarchy members owner).diagnostics = []) :
    ∀ id ∈ front ++ [owner],
      (addClassById classes hierarchy members owner).registry.NamesInOrder id := by
  have turn := settled.turn orderEq
  have known : owner.index < members.registry.classCount := completing.classCount_eq ▸ turn.known
  have acyclic := completing.acyclic settled.acyclic
  have wellFormed := completing.consistent.toWellFormed
  have started := completing.building settled turn
  have parentDone {child parent : ClassId} {front rest : List ClassId}
      (orderEq : hierarchy.order = front ++ child :: rest)
      (parentEq : members.registry.parent? child = some parent) : parent ∈ front :=
    (settled.turn orderEq).parent_done ((completing.parent_eq child).symm.trans parentEq)
  have parentDispatches : ∀ parent, members.registry.parent? owner = some parent →
      members.registry.Dispatches parent :=
    fun parent parentEq => completing.dispatches (parentDone orderEq parentEq)
  have completed :=
    (completing_addClassById settled orderEq completing errorFree).consistent.toWellFormed
  rcases settled.exists_declaration turn.known with ⟨index, decl, indexEq, declEq⟩
  simp only [addClassById, indexEq, declEq] at errorFree completed ⊢
  rcases complete_addClass acyclic known started parentDispatches errorFree with ⟨_, changes, _⟩
  intro id isDone
  rcases List.mem_append.mp isDone with isEarlier | isLast
  · have apart : ¬ members.registry.DescendsFrom id owner := by
      rw [Registry.descendsFrom_congr completing.parent_eq]
      exact turn.apart isEarlier
    have idKnown : id.index < members.registry.classCount := by
      rw [completing.classCount_eq]
      exact settled.mem_order.mp (orderEq ▸ List.mem_append_left _ isEarlier)
    refine changes.namesInOrder wellFormed completed idKnown apart (completing.dispatches isEarlier)
      ?_ (inOrder id isEarlier)
    intro parent parentEq
    rcases List.append_of_mem isEarlier with ⟨before, behind, rfl⟩
    have isFront : hierarchy.order = before ++ id :: (behind ++ owner :: rest) := by
      rw [orderEq]; simp
    exact completing.dispatches (List.mem_append_left _ (parentDone isFront parentEq))
  · obtain rfl := List.mem_singleton.mp isLast
    have withMembers := building_members acyclic known started errorFree
    exact namesInOrder_buildVtable withMembers.consistent (withMembers.changes.acyclic acyclic)
      withMembers.fits
      (withMembers.changes.classCount_eq ▸ known)
      (withMembers.dispatches_parent wellFormed acyclic parentDispatches)

theorem namesInOrder_foldl (settled : hierarchy.Settled classes.length)
    (orderEq : hierarchy.order = front ++ rest) (completing : Completing hierarchy front members)
    (inOrder : ∀ id ∈ front, members.registry.NamesInOrder id)
    (errorFree : (rest.foldl (addClassById classes hierarchy) members).diagnostics = []) :
    ∀ id ∈ hierarchy.order,
      (rest.foldl (addClassById classes hierarchy) members).registry.NamesInOrder id := by
  induction rest generalizing front members with
  | nil => rwa [orderEq, List.append_nil]
  | cons owner rest ih =>
    have firstFree :=
      errorFree_of_grows (foldl_grows (addClassById_grows classes hierarchy) rest _) errorFree
    exact ih (by rw [orderEq]; simp) (completing_addClassById settled orderEq completing firstFree)
      (namesInOrder_addClassById settled orderEq completing inOrder firstFree) errorFree

/-- In a program without faulty declarations all vtables are in order. -/
theorem namesInOrder_ofHierarchy {classes : List ClassDecl}
    (errorFree : (ofHierarchy classes (Hierarchy.ofClasses classes)).diagnostics = [])
    {id : ClassId}
    (known : id.index < (ofHierarchy classes (Hierarchy.ofClasses classes)).registry.classCount) :
    (ofHierarchy classes (Hierarchy.ofClasses classes)).registry.NamesInOrder id := by
  have settled := Hierarchy.settled_ofClasses classes
  have completing := (completing_ofHierarchy errorFree).2
  exact namesInOrder_foldl settled rfl (completing_start settled) (by simp) errorFree id
    (settled.mem_order.mpr (completing.classCount_eq ▸ known))

/-! ## The order of declarations -/

/-- What belongs to one of several holders is a stretch of what belongs to all of them. -/
theorem filter_flatMap_owner {Holder Item Key : Type} [DecidableEq Key] {items : Holder → List Item}
    {key : Holder → Key} {owner : Item → Key}
    (owned : ∀ {holder item}, item ∈ items holder → owner item = key holder) {holders : List Holder}
    (nodup : (holders.map key).Nodup) {holder : Holder} (isThere : holder ∈ holders) :
    (holders.flatMap items).filter (fun item => owner item = key holder) = items holder := by
  induction holders with
  | nil => cases isThere
  | cons first holders ih =>
    rw [List.map_cons, List.nodup_cons] at nodup
    rw [List.flatMap_cons, List.filter_append]
    rcases List.mem_cons.mp isThere with rfl | isLater
    · have others : (holders.flatMap items).filter (fun item => owner item = key holder) = [] := by
        refine List.filter_eq_nil_iff.mpr fun item isItem => ?_
        rcases List.mem_flatMap.mp isItem with ⟨other, isOther, inOther⟩
        rw [owned inOther, decide_eq_true_eq]
        exact fun sameKey => nodup.1 (List.mem_map.mpr ⟨other, isOther, sameKey⟩)
      rw [others, List.append_nil, List.filter_eq_self]
      exact fun item isItem => decide_eq_true (owned isItem)
    · have apart : (items first).filter (fun item => owner item = key holder) = [] := by
        refine List.filter_eq_nil_iff.mpr fun item isItem => ?_
        rw [owned isItem, decide_eq_true_eq]
        exact fun sameKey => nodup.1 (sameKey ▸ List.mem_map_of_mem isLater)
      rw [apart, List.nil_append, ih nodup.2 isLater]

section

variable (settled : hierarchy.Settled classes.length)
  (tabled : Tabled classes hierarchy hierarchy.order members) {id : ClassId}
  (known : id.index < members.registry.classCount)

include settled tabled known

/-- The methods of a class are on record in the order in which it declares them. -/
theorem Tabled.methodRecords_eq :
    (members.registry.methodsOf id).map members.registry.methodRecord? =
      (declaredMethods classes members.registry id).map some := by
  have wellFormed := tabled.consistent.toWellFormed
  have isOrdered : id ∈ hierarchy.order := settled.mem_order.mpr (tabled.classCount_eq ▸ known)
  have distinct : (hierarchy.order.map fun id => id).Nodup := by simpa using settled.arranged.nodup
  have stretch : (hierarchy.order.flatMap (declaredMethods classes members.registry)).filter
      (fun method => method.owner = id) = declaredMethods classes members.registry id :=
    filter_flatMap_owner owner_of_mem_declaredMethods distinct isOrdered
  rw [← stretch, ← tabled.methods_eq,
    List.filter_map, List.map_map, Registry.methodsOf, List.map_map]
  refine List.map_congr_left fun entry isThere => ?_
  rw [Function.comp_apply, Registry.methodRecord?,
    wellFormed.mem_methods.mp (List.mem_filter.mp isThere).1]
  rfl

/-- The fields of a class are on record in the order in which it declares them. -/
theorem Tabled.fieldRecords_eq :
    (members.registry.fieldsOf id).map members.registry.fieldRecord? =
      (declaredFields classes members.registry id).map some := by
  have wellFormed := tabled.consistent.toWellFormed
  have isOrdered : id ∈ hierarchy.order := settled.mem_order.mpr (tabled.classCount_eq ▸ known)
  have distinct : (hierarchy.order.map fun id => id).Nodup := by simpa using settled.arranged.nodup
  have stretch : (hierarchy.order.flatMap (declaredFields classes members.registry)).filter
      (fun field => field.owner = id) = declaredFields classes members.registry id :=
    filter_flatMap_owner owner_of_mem_declaredFields distinct isOrdered
  rw [← stretch, ← tabled.fields_eq,
    List.filter_map, List.map_map, Registry.fieldsOf, List.map_map]
  refine List.map_congr_left fun entry isThere => ?_
  rw [Function.comp_apply, Registry.fieldRecord?,
    wellFormed.mem_fields.mp (List.mem_filter.mp isThere).1]
  rfl

end

end Members

end Decaf
