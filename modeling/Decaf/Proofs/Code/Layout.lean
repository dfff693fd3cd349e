import Decaf.Code.Layout
import Decaf.Proofs.Registry.Lookup

/-!
# Places of fields

Every registered field has a place: a static one in the static area, an instance field in the
objects of the class that declares it, once that class is laid out.
-/

namespace Decaf

namespace Registry

variable {registry : Registry}

theorem mem_fieldsOf (wellFormed : registry.WellFormed) {id : FieldId} {field : FieldEntry}
    (found : registry.fieldEntry? id = some field) : id ∈ registry.fieldsOf field.owner := by
  refine List.mem_map.mpr ⟨field, List.mem_filter.mpr ⟨?_, by simp⟩, wellFormed.field_id found⟩
  exact Array.mem_toList_iff.mpr (Array.mem_of_getElem? found)

end Registry

namespace Layout

variable {registry : Registry} {layout : Layout}
variable {id lower : ClassId} {order : List ClassId} {fields : List FieldId} {field : FieldEntry}
  {offset : Nat}

/-- The instance fields that a class declares itself. -/
def ownFields (registry : Registry) (id : ClassId) : List FieldId :=
  (((registry.classEntry? id).map ClassEntry.fields).getD []).filter fun field =>
    !isStaticField registry field

theorem instanceFieldsOf_placeClass_of_ne {other : ClassId} (differs : other ≠ id) :
    (placeClass registry layout id).instanceFieldsOf other = layout.instanceFieldsOf other := by
  have different : id.index ≠ other.index := fun equal => differs (congrArg ClassId.mk equal.symm)
  unfold placeClass
  split
  · rfl
  · simp [instanceFieldsOf, different]

/-- The fields of a class stand behind those of its parent. -/
theorem instanceFieldsOf_placeClass_self (inRange : id.index < layout.instanceFields.size)
    (known : id.index < registry.classCount) :
    (placeClass registry layout id).instanceFieldsOf id =
      ((registry.parent? id).map layout.instanceFieldsOf).getD [] ++ ownFields registry id := by
  rcases Registry.exists_classEntry known with ⟨entry, found⟩
  simp [placeClass, ownFields, Registry.parent?, instanceFieldsOf, found, inRange]

@[simp]
theorem size_placeClass (id : ClassId) :
    (placeClass registry layout id).instanceFields.size = layout.instanceFields.size := by
  unfold placeClass
  split <;> simp

@[simp]
theorem staticFields_placeClass (id : ClassId) :
    (placeClass registry layout id).staticFields = layout.staticFields := by
  unfold placeClass
  split <;> rfl

/-- The classes that are laid out so far have places for their fields, the inherited ones first. -/
structure Places (registry : Registry) (placed : List ClassId) (layout : Layout) : Prop where
  size_eq : layout.instanceFields.size = registry.classCount
  static_eq : layout.staticFields = staticFieldsOf registry
  parent_placed : ∀ id ∈ placed, ∀ parent, registry.parent? id = some parent → parent ∈ placed
  fields_eq : ∀ id ∈ placed, layout.instanceFieldsOf id =
    ((registry.parent? id).map layout.instanceFieldsOf).getD [] ++ ownFields registry id

theorem places_placeClass {placed : List ClassId} (places : Places registry placed layout)
    (known : id.index < registry.classCount) (isNew : id ∉ placed)
    (parentPlaced : ∀ parent, registry.parent? id = some parent → parent ∈ placed) :
    Places registry (placed ++ [id]) (placeClass registry layout id) := by
  have sameParent : ∀ other, (∀ parent, registry.parent? other = some parent → parent ∈ placed) →
      (registry.parent? other).map (placeClass registry layout id).instanceFieldsOf =
        (registry.parent? other).map layout.instanceFieldsOf := by
    intro other above
    cases parentEq : registry.parent? other with
    | none => rfl
    | some parent =>
      have differs : parent ≠ id := fun same => isNew (same ▸ above parent parentEq)
      rw [Option.map_some, Option.map_some, instanceFieldsOf_placeClass_of_ne differs]
  refine ⟨by simp [places.size_eq], by simp [places.static_eq], ?_, ?_⟩
  · intro other isPlaced parent parentEq
    rcases List.mem_append.mp isPlaced with isOld | isLast
    · exact List.mem_append_left _ (places.parent_placed other isOld parent parentEq)
    · obtain rfl := List.mem_singleton.mp isLast
      exact List.mem_append_left _ (parentPlaced parent parentEq)
  · intro other isPlaced
    rcases List.mem_append.mp isPlaced with isOld | isLast
    · have differs : other ≠ id := fun same => isNew (same ▸ isOld)
      rw [instanceFieldsOf_placeClass_of_ne differs,
        sameParent other (places.parent_placed other isOld), places.fields_eq other isOld]
    · obtain rfl := List.mem_singleton.mp isLast
      rw [instanceFieldsOf_placeClass_self (places.size_eq ▸ known) known,
        sameParent other parentPlaced]

/-- An order of all classes in which parents come first. -/
structure Ordered (registry : Registry) (order : List ClassId) : Prop where
  complete : ∀ {id : ClassId}, id ∈ order ↔ id.index < registry.classCount
  nodup : order.Nodup
  parent_first : ∀ {front rest owner parent}, order = front ++ owner :: rest →
    registry.parent? owner = some parent → parent ∈ front

theorem places_ofRegistry (ordered : Ordered registry order) :
    Places registry order (ofRegistry registry order) := by
  have all : ∀ (rest placed : List ClassId) (layout : Layout), order = placed ++ rest →
      Places registry placed layout →
        Places registry (placed ++ rest) (rest.foldl (placeClass registry) layout) := by
    intro rest
    induction rest with
    | nil => intro placed layout _ places; simpa using places
    | cons id rest ih =>
      intro placed layout orderEq places
      have isNew : id ∉ placed := by
        intro isOld
        have distinct := orderEq ▸ ordered.nodup
        exact List.nodup_append.mp distinct |>.2.2 id isOld id List.mem_cons_self rfl
      have known := ordered.complete.mp (orderEq ▸ List.mem_append_right _ List.mem_cons_self)
      rw [List.append_cons, List.foldl_cons]
      exact ih _ _ (by rw [orderEq, List.append_cons])
        (places_placeClass places known isNew fun _ => ordered.parent_first orderEq)
  exact all order [] _ rfl ⟨by simp, rfl, by simp, by simp⟩

theorem ownFields_subset (ordered : Ordered registry order)
    (known : id.index < registry.classCount) :
    ownFields registry id ⊆ (ofRegistry registry order).instanceFieldsOf id := by
  rw [(places_ofRegistry ordered).fields_eq id (ordered.complete.mpr known)]
  exact List.subset_append_right _ _

/-- Objects of a class begin like the objects of the classes above. -/
theorem instanceFieldsOf_prefix (ordered : Ordered registry order) {upper : ClassId}
    (descends : registry.DescendsFrom lower upper) :
    (ofRegistry registry order).instanceFieldsOf upper <+:
      (ofRegistry registry order).instanceFieldsOf lower := by
  induction descends using Relation.ReflTransGen.head_induction_on with
  | refl => exact List.prefix_rfl
  | @head child parent parentEq _ ih =>
    have placed := ordered.complete.mpr (Registry.lt_classCount_of_parent parentEq)
    rw [(places_ofRegistry ordered).fields_eq child placed, parentEq, Option.map_some,
      Option.getD_some]
    exact ih.trans (List.prefix_append _ _)

theorem exists_idxOf? {id : FieldId} (idMem : id ∈ fields) :
    ∃ place, fields.idxOf? id = some place :=
  Option.isSome_iff_exists.mp (List.isSome_idxOf?.mpr idMem)

/-- Every field has a place once all classes are laid out. -/
theorem exists_offset (wellFormed : registry.WellFormed) (ordered : Ordered registry order)
    {id : FieldId} (found : registry.fieldEntry? id = some field) :
    ∃ offset, (ofRegistry registry order).offset? field = some offset := by
  have places := places_ofRegistry ordered
  have ownerKnown := wellFormed.field_owner found
  rcases Registry.exists_classEntry ownerKnown with ⟨entry, entryFound⟩
  have declared : id ∈ entry.fields := by
    rw [wellFormed.fields_eq entryFound]
    exact Registry.mem_fieldsOf wellFormed found
  have sameStatic : isStaticField registry id = field.isStatic := by simp [isStaticField, found]
  unfold offset?
  rw [wellFormed.field_id found]
  split
  next isStatic =>
    rw [places.static_eq]
    refine exists_idxOf? (List.mem_filter.mpr ⟨List.mem_flatMap.mpr ⟨entry, ?_, declared⟩, ?_⟩)
    · exact Array.mem_toList_iff.mpr (Array.mem_of_getElem? entryFound)
    · rw [sameStatic, isStatic]
  next notStatic =>
    have isOwn : id ∈ ownFields registry field.owner := by
      simp [ownFields, entryFound, declared, sameStatic, notStatic]
    rcases exists_idxOf? (ownFields_subset ordered ownerKnown isOwn) with ⟨place, placeEq⟩
    exact ⟨1 + place, by rw [placeEq]; rfl⟩

theorem getElem?_of_idxOf? {id : FieldId} {place : Nat}
    (placeEq : fields.idxOf? id = some place) : fields[place]? = some id := by
  rcases List.findIdx?_eq_some_iff_getElem.mp placeEq with ⟨inRange, isThere, _⟩
  rw [List.getElem?_eq_getElem inRange, eq_of_beq isThere]

/-- A static field stands at its place in the static area. -/
theorem getElem?_of_static (isStatic : field.isStatic = true)
    (offsetEq : layout.offset? field = some offset) :
    layout.staticFields[offset]? = some field.id := by
  rw [offset?, if_pos isStatic] at offsetEq
  exact getElem?_of_idxOf? offsetEq

/-- An instance field stands at its place in every object that has it. -/
theorem getElem?_of_instance (ordered : Ordered registry order)
    (isInstance : field.isStatic = false)
    (offsetEq : (ofRegistry registry order).offset? field = some offset)
    (descends : registry.DescendsFrom lower field.owner) :
    ∃ place, offset = 1 + place ∧ ((ofRegistry registry order).instanceFieldsOf lower)[place]? =
      some field.id := by
  rw [offset?, if_neg (by simp [isInstance])] at offsetEq
  rcases Option.map_eq_some_iff.mp offsetEq with ⟨place, placeEq, rfl⟩
  have atOwner := getElem?_of_idxOf? placeEq
  rcases instanceFieldsOf_prefix ordered descends with ⟨behind, behindEq⟩
  refine ⟨place, rfl, ?_⟩
  rw [← behindEq, List.getElem?_append_left (List.getElem?_eq_some_iff.mp atOwner).1, atOwner]

end Layout

end Decaf
