import Decaf.Proofs.Checked

/-!
# Addresses of fields

The instance fields of a class fill the words of its objects behind the first one, which is for the
vtable, and the static fields of all classes fill the static area: every field has a word of its
own, and no word is left over. A field that a class can be asked for has the same place in the
objects of all classes below.
-/

namespace Decaf

namespace Registry

variable {registry : Registry}

/-- The field that a class declares under a name is what the name stands for there. -/
theorem findField?_of_own (wellFormed : registry.WellFormed) (acyclic : registry.Acyclic)
    {id : FieldId} {field : FieldEntry} (found : registry.fieldEntry? id = some field) :
    registry.findField? field.owner field.name = some id := by
  have own : registry.ownMember? field.owner field.name = some (.ofField id) :=
    wellFormed.own_iff.mpr ⟨field, found, rfl, rfl⟩
  rw [findField?_eq_some, findMember?_eq wellFormed acyclic, own, Option.some_or]

end Registry

namespace Layout

variable {registry : Registry} {layout : Layout} {order : List ClassId}
variable {ids : List FieldId} {id : FieldId}

/-- The address of a registered field. -/
def address? (registry : Registry) (layout : Layout) (id : FieldId) : Option Nat :=
  (registry.fieldEntry? id).bind layout.offset?

/-- Fields are where code looks for them. -/
structure SoundAddresses (layout : Layout) (registry : Registry) : Prop where
  /-- An instance field that a class can be asked for lies behind the first word of its objects, and
  at the same place in the objects of every class below. -/
  field_reaches : ∀ {lower upper name id field}, registry.DescendsFrom lower upper →
    registry.findField? upper name = some id → registry.fieldEntry? id = some field →
    field.isStatic = false →
      ∃ offset, layout.offset? field = some offset ∧ 1 ≤ offset ∧ offset < layout.objectSize upper ∧
        layout.objectSize upper ≤ layout.objectSize lower ∧
        (layout.instanceFieldsOf lower)[offset - 1]? = some id
  /-- The fields of an object are those that its class can be asked for. -/
  mem_instanceFieldsOf : ∀ {owner id}, owner.index < registry.classCount →
    (id ∈ layout.instanceFieldsOf owner ↔ ∃ name field, registry.findField? owner name = some id ∧
      registry.fieldEntry? id = some field ∧ field.isStatic = false)
  /-- Their addresses are the numbers from one up to the size of the object. -/
  object_filled : ∀ {owner}, owner.index < registry.classCount →
    (layout.instanceFieldsOf owner).map (address? registry layout) =
      (List.range' 1 (layout.objectSize owner - 1)).map some
  /-- The static area has the static fields of all classes. -/
  mem_staticFields : ∀ {id}, id ∈ layout.staticFields ↔
    ∃ field, registry.fieldEntry? id = some field ∧ field.isStatic = true
  /-- Their addresses are the numbers from zero up to the size of the area. -/
  static_filled : layout.staticFields.map (address? registry layout) =
    (List.range layout.staticSize).map some

/-! ## Places in a list -/

theorem map_address_eq {base : Nat}
    (each : ∀ place id, ids[place]? = some id → address? registry layout id = some (base + place)) :
    ids.map (address? registry layout) = (List.range' base ids.length).map some := by
  refine List.ext_getElem (by simp) ?_
  intro place inIds _
  rw [List.length_map] at inIds
  simpa using each place ids[place] (List.getElem?_eq_getElem inIds)

theorem idxOf?_of_nodup (nodup : ids.Nodup) {place : Nat}
    (isThere : ids[place]? = some id) : ids.idxOf? id = some place := by
  rcases exists_idxOf? (List.mem_of_getElem? isThere) with ⟨found, foundEq⟩
  have foundThere := getElem?_of_idxOf? foundEq
  have inRange := (List.getElem?_eq_some_iff.mp foundThere).1
  rw [foundEq, (List.getElem?_inj inRange nodup).mp (foundThere.trans isThere.symm)]

/-! ## Fields of objects -/

theorem mem_ownFields (wellFormed : registry.WellFormed) {owner : ClassId}
    (known : owner.index < registry.classCount) :
    id ∈ ownFields registry owner ↔
      ∃ field, registry.fieldEntry? id = some field ∧ field.isStatic = false ∧
        field.owner = owner := by
  rcases Registry.exists_classEntry known with ⟨entry, found⟩
  simp only [ownFields, found, Option.map_some, Option.getD_some, wellFormed.fields_eq found,
    List.mem_filter, wellFormed.mem_fieldsOf, isStaticField]
  constructor
  · rintro ⟨⟨field, fieldFound, owned⟩, isInstance⟩
    exact ⟨field, fieldFound, by simpa [fieldFound] using isInstance, owned⟩
  · rintro ⟨field, fieldFound, isInstance, owned⟩
    exact ⟨⟨field, fieldFound, owned⟩, by simp [fieldFound, isInstance]⟩

section

variable (wellFormed : registry.WellFormed) (acyclic : registry.Acyclic)
  (ordered : Ordered registry order)

include wellFormed acyclic ordered

variable {owner : ClassId} {id : FieldId}

theorem mem_instanceFieldsOf (known : owner.index < registry.classCount) :
    id ∈ (ofRegistry registry order).instanceFieldsOf owner ↔ ∃ field,
      registry.fieldEntry? id = some field ∧
      field.isStatic = false ∧ registry.DescendsFrom owner field.owner := by
  constructor
  · intro isListed
    induction owner using acyclic.induction wellFormed with
    | step owner ih =>
      rw [(places_ofRegistry ordered).fields_eq owner (ordered.complete.mpr known)] at isListed
      rcases List.mem_append.mp isListed with isInherited | isOwn
      · cases parentEq : registry.parent? owner with
        | none => simp [parentEq] at isInherited
        | some parent =>
          rw [parentEq, Option.map_some, Option.getD_some] at isInherited
          rcases ih parent parentEq (wellFormed.parent_known parentEq) isInherited with
            ⟨field, found, isInstance, descends⟩
          exact ⟨field, found, isInstance, .head parentEq descends⟩
      · rcases (mem_ownFields wellFormed known).mp isOwn with ⟨field, found, isInstance, rfl⟩
        exact ⟨field, found, isInstance, .refl⟩
  · rintro ⟨field, found, isInstance, descends⟩
    have ownerKnown := wellFormed.field_owner found
    have isOwn := (mem_ownFields wellFormed ownerKnown).mpr ⟨field, found, isInstance, rfl⟩
    have isPrefix := instanceFieldsOf_prefix ordered descends
    exact isPrefix.subset (ownFields_subset ordered ownerKnown isOwn)

/-- The fields of the parent belong to classes above, so an own field is none of them. -/
theorem nodup_instanceFieldsOf (known : owner.index < registry.classCount) :
    ((ofRegistry registry order).instanceFieldsOf owner).Nodup := by
  induction owner using acyclic.induction wellFormed with
  | step owner ih =>
    rcases Registry.exists_classEntry known with ⟨entry, entryFound⟩
    have ownNodup : (ownFields registry owner).Nodup := by
      simp only [ownFields, entryFound, Option.map_some, Option.getD_some,
        wellFormed.fields_eq entryFound]
      exact (wellFormed.nodup_fieldsOf owner).filter _
    rw [(places_ofRegistry ordered).fields_eq owner (ordered.complete.mpr known)]
    cases parentEq : registry.parent? owner with
    | none => simpa using ownNodup
    | some parent =>
      have parentKnown := wellFormed.parent_known parentEq
      rw [Option.map_some, Option.getD_some]
      refine List.nodup_append.mpr ⟨ih parent parentEq parentKnown, ownNodup, ?_⟩
      rintro id isInherited _ isOwn rfl
      rcases (mem_instanceFieldsOf wellFormed acyclic ordered parentKnown).mp isInherited with
        ⟨field, found, _, descends⟩
      rcases (mem_ownFields wellFormed known).mp isOwn with ⟨same, sameFound, _, owned⟩
      obtain rfl := Option.some.inj (found.symm.trans sameFound)
      exact acyclic.not_descendsFrom_parent parentEq (owned ▸ descends)

/-- The address of a field tells its place in every object that has it. -/
theorem address?_of_instance (known : owner.index < registry.classCount) {place : Nat}
    (isThere : ((ofRegistry registry order).instanceFieldsOf owner)[place]? = some id) :
    address? registry (ofRegistry registry order) id = some (1 + place) := by
  rcases (mem_instanceFieldsOf wellFormed acyclic ordered known).mp
    (List.mem_of_getElem? isThere) with
    ⟨field, found, isInstance, descends⟩
  rcases exists_offset wellFormed ordered found with ⟨offset, offsetEq⟩
  rcases getElem?_of_instance ordered isInstance offsetEq descends with ⟨other, rfl, otherThere⟩
  rw [wellFormed.field_id found] at otherThere
  have inRange := (List.getElem?_eq_some_iff.mp isThere).1
  have sameThere := isThere.trans otherThere.symm
  have nodup := nodup_instanceFieldsOf wellFormed acyclic ordered known
  obtain rfl := (List.getElem?_inj inRange nodup).mp sameThere
  rw [address?, found, Option.bind_some, offsetEq]

end

/-! ## Static fields -/

section

variable (wellFormed : registry.WellFormed)

include wellFormed

variable {id : FieldId}

theorem mem_fields_iff {entry : ClassEntry} {owner : ClassId}
    (found : registry.classEntry? owner = some entry) :
    id ∈ entry.fields ↔ ∃ field, registry.fieldEntry? id = some field ∧ field.owner = owner := by
  rw [wellFormed.fields_eq found, wellFormed.mem_fieldsOf]

theorem mem_staticFieldsOf :
    id ∈ staticFieldsOf registry ↔ ∃ field,
      registry.fieldEntry? id = some field ∧ field.isStatic = true := by
  simp only [staticFieldsOf, List.mem_filter, List.mem_flatMap, isStaticField, Option.any_eq_true]
  constructor
  · rintro ⟨_, field, found, isStatic⟩
    exact ⟨field, found, isStatic⟩
  · rintro ⟨field, found, isStatic⟩
    rcases Registry.exists_classEntry (wellFormed.field_owner found) with ⟨entry, entryFound⟩
    have isListed := (mem_fields_iff wellFormed entryFound).mpr ⟨field, found, rfl⟩
    have isClass := Array.mem_toList_iff.mpr (Array.mem_of_getElem? entryFound)
    exact ⟨⟨entry, isClass, isListed⟩, field, found, isStatic⟩

/-- A field belongs to one class only, so none is listed twice. -/
theorem nodup_staticFieldsOf : (staticFieldsOf registry).Nodup := by
  refine (List.nodup_flatMap.mpr ⟨?_, ?_⟩).filter _
  · intro entry isClass
    rcases List.getElem?_of_mem isClass with ⟨place, found⟩
    rw [Array.getElem?_toList] at found
    have classFound : registry.classEntry? ⟨place⟩ = some entry := found
    rw [wellFormed.fields_eq classFound]
    exact wellFormed.nodup_fieldsOf _
  · rw [List.pairwise_iff_getElem]
    intro first second firstLt secondLt isEarlier id isFirst isSecond
    rw [Array.length_toList] at firstLt secondLt
    have firstFound : registry.classEntry? ⟨first⟩ = some registry.classes[first] :=
      Array.getElem?_eq_getElem firstLt
    have secondFound : registry.classEntry? ⟨second⟩ = some registry.classes[second] :=
      Array.getElem?_eq_getElem secondLt
    rcases (mem_fields_iff wellFormed firstFound).mp isFirst with ⟨field, found, owned⟩
    rcases (mem_fields_iff wellFormed secondFound).mp isSecond with ⟨same, sameFound, sameOwned⟩
    obtain rfl := Option.some.inj (found.symm.trans sameFound)
    have samePlace := congrArg ClassId.index (owned.symm.trans sameOwned)
    exact Nat.ne_of_lt isEarlier samePlace

theorem address?_of_static (ordered : Ordered registry order) {place : Nat}
    (isThere : (ofRegistry registry order).staticFields[place]? = some id) :
    address? registry (ofRegistry registry order) id = some place := by
  have listed := (places_ofRegistry ordered).static_eq
  have isStaticField := List.mem_of_getElem? isThere
  rw [listed] at isStaticField
  rcases (mem_staticFieldsOf wellFormed).mp isStaticField with ⟨field, found, isStatic⟩
  rw [address?, found, Option.bind_some, offset?, if_pos isStatic, wellFormed.field_id found]
  exact idxOf?_of_nodup (listed ▸ nodup_staticFieldsOf wellFormed) isThere

end

/-! ## All fields -/

section

variable (wellFormed : registry.WellFormed) (acyclic : registry.Acyclic)
  (ordered : Ordered registry order)
  (keepsField : ∀ {lower upper name id}, registry.DescendsFrom lower upper →
    registry.findField? upper name = some id → registry.findField? lower name = some id)
include wellFormed acyclic ordered keepsField

/-- A class can be asked for the instance fields of the classes above it, if none of them is
hidden. -/
theorem mem_instanceFieldsOf_iff_findField?
    {owner : ClassId} (known : owner.index < registry.classCount) {id : FieldId} :
    id ∈ (ofRegistry registry order).instanceFieldsOf owner ↔ ∃ name field,
      registry.findField? owner name = some id ∧ registry.fieldEntry? id = some field ∧
        field.isStatic = false := by
  rw [mem_instanceFieldsOf wellFormed acyclic ordered known]
  constructor
  · rintro ⟨field, found, isInstance, descends⟩
    exact ⟨field.name, field,
      keepsField descends (Registry.findField?_of_own wellFormed acyclic found), found, isInstance⟩
  · rintro ⟨name, field, inClass, found, isInstance⟩
    rcases Registry.declares_of_findMember? wellFormed (Registry.findField?_eq_some.mp inClass) with
      ⟨ancestor, descends, same, sameFound, rfl, _⟩
    obtain rfl := Option.some.inj (found.symm.trans sameFound)
    exact ⟨field, found, isInstance, descends⟩

/-- Fields are where code looks for them if the classes are laid out in order and no field is
hidden. -/
theorem soundAddresses_ofRegistry : (ofRegistry registry order).SoundAddresses registry where
  field_reaches {lower upper name id field} descends inClass found isInstance := by
    have upperKnown := Registry.lt_classCount_of_findMember? wellFormed acyclic
      (Registry.findField?_eq_some.mp inClass)
    have isListed :=
      (mem_instanceFieldsOf_iff_findField? wellFormed acyclic ordered keepsField upperKnown).mpr
        ⟨name, field, inClass, found, isInstance⟩
    rcases List.getElem?_of_mem isListed with ⟨place, isThere⟩
    have placeLt := (List.getElem?_eq_some_iff.mp isThere).1
    have addressEq := address?_of_instance wellFormed acyclic ordered upperKnown isThere
    rw [address?, found, Option.bind_some] at addressEq
    have isPrefix := instanceFieldsOf_prefix ordered descends
    refine ⟨1 + place, addressEq, Nat.le_add_right _ _, Nat.add_lt_add_left placeLt 1,
      Nat.add_le_add_left isPrefix.length_le 1, ?_⟩
    rcases isPrefix with ⟨behind, behindEq⟩
    rw [Nat.add_sub_cancel_left, ← behindEq, List.getElem?_append_left placeLt, isThere]
  mem_instanceFieldsOf known :=
    mem_instanceFieldsOf_iff_findField? wellFormed acyclic ordered keepsField known
  object_filled {owner} known := by
    rw [objectSize, Nat.add_sub_cancel_left]
    exact map_address_eq fun _ _ => address?_of_instance wellFormed acyclic ordered known
  mem_staticFields := by
    rw [(places_ofRegistry ordered).static_eq]
    exact mem_staticFieldsOf wellFormed
  static_filled := by
    rw [staticSize, List.range_eq_range']
    refine map_address_eq fun place id isThere => ?_
    rw [Nat.zero_add]
    exact address?_of_static wellFormed ordered isThere

end

end Layout

namespace Analysis

/-- Once the declarations of a program are registered without complaints, the fields of its classes
are where code looks for them. -/
theorem soundAddresses_ofProgram (program : Program)
    (silent : (ofProgram program).declarationDiagnostics = []) :
    (Layout.ofRegistry (ofProgram program).registry
      (ofProgram program).hierarchy.order).SoundAddresses (ofProgram program).registry := by
  rcases List.append_eq_nil_iff.mp silent with ⟨_, membersFree⟩
  rw [members_ofProgram] at membersFree
  rcases Members.completing_ofHierarchy membersFree with ⟨settled, completing⟩
  rcases Members.recorded_ofHierarchy program.classes with ⟨recorded, parameters, _⟩
  have run := (Hierarchy.inRange_ofClasses program.classes).run.trans recorded
  rcases Resolution.extends_ofMembers completing.consistent run parameters with ⟨valid, extended⟩
  rw [registry, resolution_ofProgram silent, Option.map_some, Option.getD_some, members_ofProgram,
    hierarchy_ofProgram]
  have sameParents : ∀ id, (Resolution.ofMembers (Members.ofHierarchy program.classes
      (Hierarchy.ofClasses program.classes))).registry.parent? id =
        (Hierarchy.ofClasses program.classes).registry.parent? id :=
    fun id => (extended.parent?_eq id).trans (completing.parent_eq id)
  have sameClasses := (congrArg Array.size extended.classes_eq).trans completing.classCount_eq
  have wellFormed := valid.consistent.toWellFormed
  refine Layout.soundAddresses_ofRegistry wellFormed
    (Registry.acyclic_congr sameParents settled.acyclic)
    (settled.ordered sameClasses sameParents) ?_
  intro lower upper name id descends found
  have sameField := extended.findField?_eq completing.consistent.toWellFormed wellFormed
  rw [Registry.descendsFrom_congr extended.parent?_eq] at descends
  rw [sameField] at found ⊢
  exact Registry.keepsField_of_descendsFrom (completing.dispatches_of_known settled) descends found

/-- A class below another one, both with static fields between the others. -/
def countingProgram : Program :=
  let origin : Position := ⟨1, 1⟩
  let field (name : String) (isStatic : Bool) : FieldDecl :=
    ⟨name, .primitive .int, .publicMember, isStatic, origin⟩
  { classes :=
      [⟨"Lower", some ⟨"Upper", origin⟩, [field "third" false, field "total" true], [], origin⟩,
        ⟨"Upper", none, [field "first" false, field "count" true, field "second" false], [],
          origin⟩] }

theorem soundAddresses_countingProgram :
    (ofProgram countingProgram).declarationDiagnostics = [] ∧
      (Layout.ofRegistry (ofProgram countingProgram).registry
        (ofProgram countingProgram).hierarchy.order).SoundAddresses
          (ofProgram countingProgram).registry ∧
      (Layout.ofRegistry (ofProgram countingProgram).registry
        (ofProgram countingProgram).hierarchy.order).instanceFieldsOf ⟨0⟩ = [⟨0⟩, ⟨2⟩, ⟨3⟩] := by
  have silent : (ofProgram countingProgram).declarationDiagnostics = [] := by decide +kernel
  exact ⟨silent, soundAddresses_ofProgram _ silent, by decide +kernel⟩

end Analysis

end Decaf
