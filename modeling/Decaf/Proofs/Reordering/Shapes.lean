import Decaf.Proofs.Listing.Labels
import Decaf.Proofs.Reordering.Registries

/-!
# Classes of a reordered program

The vtable of a class and the places of its fields depend on what the class and the classes above
declare, and on the order in which they declare it. So a class keeps them when the classes of the
program are reordered, but for the numbers of methods and fields.
-/

namespace Decaf

/-- Items stand at the same place as what is known of them, if nothing else in the list shares
that. -/
theorem idxOf?_map {Item Key : Type} [DecidableEq Item] [DecidableEq Key] (key : Item → Key)
    {item : Item} {items : List Item}
    (unique : ∀ other ∈ items, key other = key item → other = item) :
    (items.map key).idxOf? (key item) = items.idxOf? item := by
  induction items with
  | nil => rfl
  | cons first items ih =>
    have sameTest : (key first == key item) = (first == item) := by
      rw [Bool.eq_iff_iff, beq_iff_eq, beq_iff_eq]
      exact ⟨unique first List.mem_cons_self, congrArg key⟩
    rw [List.map_cons, List.idxOf?_cons, List.idxOf?_cons, sameTest,
      ih fun other isThere => unique other (List.mem_cons_of_mem _ isThere)]

namespace Registry

/-- The class that declares a field, and the name of the field. -/
def fieldKey (registry : Registry) (record : FieldRecord) : String × String :=
  (registry.className record.owner, record.name)

/-- The class and the name of a field, given its number. -/
def fieldKey? (registry : Registry) (id : FieldId) : Option (String × String) :=
  (registry.fieldRecord? id).map registry.fieldKey

theorem fieldKey?_eq {registry : Registry} {id : FieldId} {field : FieldEntry}
    (found : registry.fieldEntry? id = some field) :
    registry.fieldKey? id = some (registry.className field.owner, field.name) := by
  rw [fieldKey?, fieldRecord?, found]
  rfl

end Registry

variable {classes other : List ClassDecl} {registry otherRegistry : Registry}

/-! ## Down the hierarchy -/

theorem Registry.Holds.known (holds : registry.Holds classes) {id : ClassId} {decl : ClassDecl}
    (declared : classes[id.index]? = some decl) :
    ∃ entry, registry.classEntry? id = some entry ∧ entry.name = decl.name := by
  have nameEq := holds.name_eq id
  rw [declared, Option.map_some] at nameEq
  exact Option.map_eq_some_iff.mp nameEq

namespace Reordering

variable (reordering : Reordering classes other registry otherRegistry) {id otherId : ClassId}

include reordering

variable {fieldId otherFieldId : FieldId} {field : FieldEntry}

/-- What each class adds to what it inherits decides what it has. -/
theorem eq_of_inherited {Item : Type} {view own otherView otherOwn : ClassId → List Item}
    (viewEq : ∀ id : ClassId, id.index < registry.classCount →
      view id = ((registry.parent? id).map view).getD [] ++ own id)
    (otherViewEq : ∀ id : ClassId, id.index < otherRegistry.classCount →
      otherView id = ((otherRegistry.parent? id).map otherView).getD [] ++ otherOwn id)
    (ownEq : ∀ {id otherId}, SameClass classes other id otherId → otherOwn otherId = own id)
    (same : SameClass classes other id otherId) : otherView otherId = view id := by
  induction id using reordering.holds.acyclic.induction reordering.holds.wellFormed
    generalizing otherId with
  | step id ih =>
    have ownSame := ownEq same
    rcases same with ⟨decl, declared, otherDeclared⟩
    rcases reordering.holds.known declared with ⟨entry, found, _⟩
    rcases reordering.otherHolds.known otherDeclared with ⟨otherEntry, otherFound, _⟩
    rw [viewEq id (Registry.lt_classCount found),
      otherViewEq otherId (Registry.lt_classCount otherFound), ownSame]
    have same : SameClass classes other id otherId := ⟨decl, declared, otherDeclared⟩
    cases parentEq : registry.parent? id with
    | none => rw [reordering.parent?_eq_none same parentEq]; rfl
    | some parent =>
      rcases reordering.exists_parent same parentEq with ⟨otherParent, otherParentEq, parentSame⟩
      rw [otherParentEq, Option.map_some, Option.map_some, ih parent parentEq parentSame]

theorem className_eq (same : SameClass classes other id otherId) :
    otherRegistry.className otherId = registry.className id := by
  rcases same with ⟨decl, declared, otherDeclared⟩
  rcases reordering.holds.known declared with ⟨entry, found, named⟩
  rcases reordering.otherHolds.known otherDeclared with ⟨otherEntry, otherFound, otherNamed⟩
  rw [Registry.className_eq found, Registry.className_eq otherFound, named, otherNamed]

/-! ## Vtables -/

section

variable (same : SameClass classes other id otherId)
include same

theorem exists_inheritedMethod {name : String} {method : MethodId}
    (found : registry.inheritedMethod? id name = some method) :
    ∃ otherMethod, otherRegistry.inheritedMethod? otherId name = some otherMethod := by
  rcases Option.bind_eq_some_iff.mp found with ⟨parent, parentEq, inParent⟩
  rcases reordering.exists_parent same parentEq with ⟨otherParent, otherParentEq, parentSame⟩
  rcases Registry.exists_methodEntry reordering.holds.wellFormed inParent with
    ⟨entry, entryFound, _⟩
  rcases reordering.exists_method parentSame inParent entryFound with
    ⟨otherMethod, _, otherFound, _⟩
  exact ⟨otherMethod,
    by rw [Registry.inheritedMethod?, otherParentEq, Option.bind_some, otherFound]⟩

theorem inheritedMethod?_isNone_eq (name : String) :
    (otherRegistry.inheritedMethod? otherId name).isNone =
      (registry.inheritedMethod? id name).isNone := by
  cases found : registry.inheritedMethod? id name with
  | some method =>
    rcases reordering.exists_inheritedMethod same found with ⟨otherMethod, otherFound⟩
    rw [otherFound]
    rfl
  | none =>
    cases otherFound : otherRegistry.inheritedMethod? otherId name with
    | none => rfl
    | some otherMethod =>
      rcases reordering.symm.exists_inheritedMethod same.symm otherFound with ⟨method, again⟩
      cases found.symm.trans again

/-- A class gives slots to the same names. -/
theorem newNames_eq :
    otherRegistry.newNames (otherRegistry.methodsOf otherId) =
      registry.newNames (registry.methodsOf id) := by
  have inherits := reordering.inheritedMethod?_isNone_eq same
  rcases same with ⟨decl, declared, otherDeclared⟩
  have records := reordering.holds.methodRecords_eq declared
  have otherRecords := reordering.otherHolds.methodRecords_eq otherDeclared
  have names {registry : Registry} {id : ClassId}
      (records : (registry.methodsOf id).map registry.methodRecord? =
        decl.methods.map fun method => some (method.record registry id)) :
      registry.newNames (registry.methodsOf id) = (decl.methods.filter fun method =>
        !method.isStatic && (registry.inheritedMethod? id method.name).isNone).map fun method =>
            some method.name := by
    have recordsEq : (registry.methodsOf id).filterMap registry.methodRecord? =
        decl.methods.map fun method => method.record registry id := by
      simpa [List.filterMap_map, Function.comp_def] using congrArg (List.filterMap fun record =>
        record) records
    rw [Registry.newNames, recordsEq, List.filter_map, List.map_map]
    rfl
  rw [names records, names otherRecords]
  simp only [inherits]

theorem vtableNames_eq : otherRegistry.vtableNames otherId = registry.vtableNames id :=
  reordering.eq_of_inherited (fun _ => reordering.holds.namesInOrder) (fun _ =>
    reordering.otherHolds.namesInOrder) reordering.newNames_eq same

end

theorem methodLabel_eq {method otherMethod : MethodEntry} {methodId otherMethodId : MethodId}
    (found : registry.methodEntry? methodId = some method)
    (otherFound : otherRegistry.methodEntry? otherMethodId = some otherMethod)
    (same : SameMethod classes other method otherMethod) :
    otherRegistry.methodLabel otherMethodId = registry.methodLabel methodId := by
  rw [Registry.methodLabel_eq found, Registry.methodLabel_eq otherFound,
    reordering.className_eq same.owner, same.name_eq]

/-- The vtables of a class have the same labels. -/
theorem vtable_labels_eq (same : SameClass classes other id otherId) {entry otherEntry : ClassEntry}
    (found : registry.classEntry? id = some entry)
    (otherFound : otherRegistry.classEntry? otherId = some otherEntry) :
    otherEntry.vtable.map otherRegistry.methodLabel = entry.vtable.map registry.methodLabel := by
  have names := reordering.vtableNames_eq same
  rw [Registry.Dispatches.vtableNames_eq found,
    Registry.Dispatches.vtableNames_eq otherFound] at names
  refine List.ext_getElem? fun slot => ?_
  have nameAt := congrArg (·[slot]?) names
  simp only [List.getElem?_map] at nameAt ⊢
  cases listed : entry.vtable[slot]? with
  | none =>
    rw [listed, Option.map_none, Option.map_eq_none_iff] at nameAt
    rw [nameAt]
    rfl
  | some methodId =>
    rcases reordering.holds.listed found (List.mem_of_getElem? listed) with
      ⟨method, methodFound, inClass⟩
    rw [listed, Option.map_some, methodFound, Option.map_some] at nameAt
    rcases Option.map_eq_some_iff.mp nameAt with ⟨otherMethodId, otherListed, otherNamed⟩
    rcases reordering.otherHolds.listed otherFound (List.mem_of_getElem? otherListed) with
      ⟨otherMethod, otherMethodFound, otherInClass⟩
    rw [otherMethodFound, Option.map_some, Option.some.injEq] at otherNamed
    rcases reordering.exists_method same inClass methodFound with
      ⟨again, againEntry, againFound, againEntryFound, methods⟩
    obtain rfl : again = otherMethodId := by
      rw [otherNamed] at otherInClass
      exact Option.some.inj (againFound.symm.trans otherInClass)
    rw [otherListed, Option.map_some, Option.map_some,
      reordering.methodLabel_eq methodFound againEntryFound methods]

/-! ## Places of fields -/

omit reordering in
/-- A registered field is the only one of its name in the class of its name. -/
theorem fieldKey_inj (wellFormed : registry.WellFormed)
    (found : registry.fieldEntry? fieldId = some field)
    (same : registry.fieldKey? otherFieldId = registry.fieldKey? fieldId) :
    otherFieldId = fieldId := by
  rw [Registry.fieldKey?_eq found] at same
  rcases Option.map_eq_some_iff.mp same with ⟨record, recorded, _⟩
  rcases Option.map_eq_some_iff.mp recorded with ⟨otherField, otherFound, _⟩
  rw [Registry.fieldKey?_eq otherFound, Option.some.injEq, Prod.mk.injEq] at same
  rcases Registry.exists_classEntry (wellFormed.field_owner found) with ⟨entry, entryFound⟩
  rcases Registry.exists_classEntry (wellFormed.field_owner otherFound) with
    ⟨otherEntry, otherEntryFound⟩
  rw [Registry.className_eq entryFound, Registry.className_eq otherEntryFound] at same
  have sameOwner := Registry.eq_of_className wellFormed otherEntryFound entryFound same.1
  have declares : registry.ownMember? field.owner field.name = some (.ofField fieldId) :=
    wellFormed.own_iff.mpr ⟨field, found, rfl, rfl⟩
  have otherDeclares : registry.ownMember? field.owner field.name = some (.ofField otherFieldId) :=
    wellFormed.own_iff.mpr ⟨otherField, otherFound, sameOwner, same.2⟩
  exact Symbol.ofField.inj (Option.some.inj (otherDeclares.symm.trans declares))

omit reordering in
/-- A class adds places for the instance fields that it declares. -/
theorem ownFields_keys (holds : registry.Holds classes) {decl : ClassDecl}
    (declared : classes[id.index]? = some decl) :
    (Layout.ownFields registry id).map registry.fieldKey? =
      (decl.fields.filter fun field => !field.isStatic).map fun field =>
        some (decl.name, field.name) := by
  rcases holds.known declared with ⟨entry, found, named⟩
  have staticEq : ∀ field,
      Layout.isStaticField registry field = (registry.fieldRecord? field).any
      FieldRecord.isStatic := by
    intro field
    rw [Layout.isStaticField, Registry.fieldRecord?, Option.any_map]
    rfl
  have fieldsEq : Layout.ownFields registry id =
      (registry.fieldsOf id).filter fun field =>
        !(registry.fieldRecord? field).any FieldRecord.isStatic := by
    simp only [Layout.ownFields, found, Option.map_some, Option.getD_some,
      holds.wellFormed.fields_eq found, staticEq]
  have records := holds.fieldRecords_eq declared
  calc (Layout.ownFields registry id).map registry.fieldKey?
      = (((registry.fieldsOf id).map registry.fieldRecord?).filter fun record =>
        !record.any FieldRecord.isStatic).map
          (Option.map registry.fieldKey) := by
        rw [fieldsEq, List.filter_map, List.map_map]
        rfl
    _ = ((decl.fields.map fun field => some (field.record registry id)).filter fun record =>
          !record.any FieldRecord.isStatic).map (Option.map registry.fieldKey) := by rw [records]
    _ = (decl.fields.filter fun field => !field.isStatic).map fun field =>
        some (decl.name, field.name) := by
        rw [List.filter_map, List.map_map]
        refine List.map_congr_left fun field _ => congrArg some ?_
        exact Prod.ext ((Registry.className_eq found).trans named) rfl

variable {order otherOrder : List ClassId} (ordered : Layout.Ordered registry order)
  (otherOrdered : Layout.Ordered otherRegistry otherOrder)

include ordered otherOrdered

/-- The instance fields of a class stand in the same order. -/
theorem fieldKeys_eq (same : SameClass classes other id otherId) :
    ((Layout.ofRegistry otherRegistry otherOrder).instanceFieldsOf otherId).map
      otherRegistry.fieldKey? =
        ((Layout.ofRegistry registry order).instanceFieldsOf id).map registry.fieldKey? := by
  have keysEq {registry : Registry} {order : List ClassId} (ordered : Layout.Ordered registry order)
      (id : ClassId) (known : id.index < registry.classCount) :
      ((Layout.ofRegistry registry order).instanceFieldsOf id).map registry.fieldKey? =
        ((registry.parent? id).map fun parent =>
          ((Layout.ofRegistry registry order).instanceFieldsOf parent).map
            registry.fieldKey?).getD [] ++
            (Layout.ownFields registry id).map registry.fieldKey? := by
    rw [(Layout.places_ofRegistry ordered).fields_eq id (ordered.complete.mpr known),
      List.map_append]
    cases registry.parent? id <;> rfl
  refine reordering.eq_of_inherited (keysEq ordered) (keysEq otherOrdered) (fun same => ?_) same
  rcases same with ⟨decl, declared, otherDeclared⟩
  rw [ownFields_keys reordering.holds declared, ownFields_keys reordering.otherHolds otherDeclared]

theorem objectSize_eq (same : SameClass classes other id otherId) :
    (Layout.ofRegistry otherRegistry otherOrder).objectSize otherId =
      (Layout.ofRegistry registry order).objectSize id := by
  have lengths := congrArg List.length (reordering.fieldKeys_eq ordered otherOrdered same)
  rw [List.length_map, List.length_map] at lengths
  rw [Layout.objectSize, Layout.objectSize, lengths]

theorem offset?_eq {otherField : FieldEntry} (found : registry.fieldEntry? fieldId = some field)
    (otherFound : otherRegistry.fieldEntry? otherFieldId = some otherField)
    (same : SameField classes other field otherField) (isInstance : field.isStatic = false) :
    (Layout.ofRegistry otherRegistry otherOrder).offset? otherField =
      (Layout.ofRegistry registry order).offset? field := by
  have wellFormed := reordering.holds.wellFormed
  have otherWellFormed := reordering.otherHolds.wellFormed
  have keyEq : otherRegistry.fieldKey? otherFieldId = registry.fieldKey? fieldId := by
    rw [Registry.fieldKey?_eq found, Registry.fieldKey?_eq otherFound,
      reordering.className_eq same.owner, same.name_eq]
  rw [Layout.offset?, Layout.offset?, same.isStatic_eq, isInstance, if_neg Bool.false_ne_true,
    if_neg Bool.false_ne_true, wellFormed.field_id found, otherWellFormed.field_id otherFound,
    ← idxOf?_map registry.fieldKey? fun another _ => fieldKey_inj wellFormed found,
    ← idxOf?_map otherRegistry.fieldKey? fun another _ => fieldKey_inj otherWellFormed otherFound,
    reordering.fieldKeys_eq ordered otherOrdered same.owner, keyEq]

end Reordering

/-! ## Checked programs -/

/-- The classes of two checked programs are laid out alike, name by name. -/
structure CheckedProgram.LaidOutAlike (program other : CheckedProgram) : Prop where
  names_perm : (program.registry.classes.toList.map ClassEntry.name).Perm
    (other.registry.classes.toList.map ClassEntry.name)
  names_differ : (program.registry.classes.toList.map ClassEntry.name).Nodup
  vtable_eq : ∀ entry ∈ program.registry.classes, ∀ otherEntry ∈ other.registry.classes,
    otherEntry.name = entry.name →
    otherEntry.vtable.map other.registry.methodLabel = entry.vtable.map program.registry.methodLabel
  objectSize_eq : ∀ entry ∈ program.registry.classes, ∀ otherEntry ∈ other.registry.classes,
    otherEntry.name = entry.name →
    other.layout.objectSize otherEntry.id = program.layout.objectSize entry.id
  /-- Every instance field that a class has has the same place, also one that it inherits. -/
  offset_eq : ∀ entry ∈ program.registry.classes, ∀ otherEntry ∈ other.registry.classes,
    otherEntry.name = entry.name →
    ∀ {name id field}, program.registry.findField? entry.id name = some id →
      program.registry.fieldEntry? id = some field → field.isStatic = false →
      ∃ otherId otherField offset,
        other.registry.findField? otherEntry.id name = some otherId ∧
          other.registry.fieldEntry? otherId = some otherField ∧ otherField.isStatic = false ∧
          other.registry.className otherField.owner = program.registry.className field.owner ∧
          program.layout.offset? field = some offset ∧
          other.layout.offset? otherField = some offset

namespace Reordering

theorem classNames_eq (holds : registry.Holds classes) :
    registry.classes.toList.map ClassEntry.name = classes.map ClassDecl.name := by
  refine List.ext_getElem? fun place => ?_
  rw [List.getElem?_map, List.getElem?_map, Array.getElem?_toList]
  exact holds.name_eq ⟨place⟩

theorem exists_id (wellFormed : registry.WellFormed) {entry : ClassEntry}
    (isThere : entry ∈ registry.classes) : registry.classEntry? entry.id = some entry := by
  rcases Array.mem_iff_getElem?.mp isThere with ⟨place, isPlace⟩
  have found : registry.classEntry? ⟨place⟩ = some entry := isPlace
  rw [wellFormed.class_id found, found]

variable (reordering : Reordering classes other registry otherRegistry)

include reordering

/-- Classes of one name are the same. -/
theorem sameClass_of_name {id otherId : ClassId} {entry otherEntry : ClassEntry}
    (found : registry.classEntry? id = some entry)
    (otherFound : otherRegistry.classEntry? otherId = some otherEntry)
    (named : otherEntry.name = entry.name) : SameClass classes other id otherId := by
  have isNamed : registry.classNamed? entry.name = some id :=
    (Registry.classNamed?_eq_some reordering.holds.wellFormed).mpr (by rw [found, Option.map_some])
  rcases reordering.exists_classNamed isNamed with ⟨again, otherNamed, same⟩
  rw [Registry.classNamed?_eq_some reordering.otherHolds.wellFormed] at otherNamed
  rcases Option.map_eq_some_iff.mp otherNamed with ⟨againEntry, againFound, againEq⟩
  obtain rfl := Registry.eq_of_className reordering.otherHolds.wellFormed againFound otherFound
    (againEq.trans named.symm)
  exact same

end Reordering

theorem CheckedProgram.laidOutAlike {program otherProgram : CheckedProgram}
    (reordering : Reordering classes other program.registry otherProgram.registry)
    (ordered : Layout.Ordered program.registry program.order)
    (otherOrdered : Layout.Ordered otherProgram.registry otherProgram.order) :
    program.LaidOutAlike otherProgram := by
  have wellFormed := reordering.holds.wellFormed
  have same : ∀ entry ∈ program.registry.classes, ∀ otherEntry ∈ otherProgram.registry.classes,
      otherEntry.name = entry.name → SameClass classes other entry.id otherEntry.id :=
    fun _ isThere _ isOther named =>
      reordering.sameClass_of_name (Reordering.exists_id wellFormed isThere)
        (Reordering.exists_id reordering.otherHolds.wellFormed isOther) named
  exact
    { names_perm := by
        rw [Reordering.classNames_eq reordering.holds,
          Reordering.classNames_eq reordering.otherHolds]
        exact reordering.perm.map _
      names_differ := Reordering.classNames_eq reordering.holds ▸ reordering.holds.nodup
      vtable_eq := fun entry isThere otherEntry isOther named =>
        reordering.vtable_labels_eq (same entry isThere otherEntry isOther named)
          (Reordering.exists_id wellFormed isThere)
          (Reordering.exists_id reordering.otherHolds.wellFormed isOther)
      objectSize_eq := fun entry isThere otherEntry isOther named =>
        reordering.objectSize_eq ordered otherOrdered (same entry isThere otherEntry isOther named)
      offset_eq :=
          fun entry isThere otherEntry isOther named {_ _ field} found fieldFound isInstance => by
        rcases reordering.exists_field (same entry isThere otherEntry isOther named)
          found fieldFound with
          ⟨otherId, otherField, otherFound, otherFieldFound, fieldSame⟩
        rcases Layout.exists_offset wellFormed ordered fieldFound with ⟨offset, offsetEq⟩
        exact ⟨otherId, otherField, offset, otherFound, otherFieldFound,
          fieldSame.isStatic_eq.trans isInstance, reordering.className_eq fieldSame.owner, offsetEq,
          (reordering.offset?_eq ordered otherOrdered fieldFound otherFieldFound fieldSame
            isInstance).trans offsetEq⟩ }

end Decaf
