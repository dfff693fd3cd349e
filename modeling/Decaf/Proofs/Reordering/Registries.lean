import Decaf.Proofs.Members.Accepted
import Decaf.Proofs.Checked
import Decaf.Proofs.Members.Order
import Decaf.Proofs.Resolution.Lexical

/-!
# Declared classes in another order

What the declarations of a program say about a class does not depend on the place of any class among
them. So they make up a hierarchy and fit each other in every order or in none, and the nodes of the
program still hang in one place each.
-/

namespace Decaf

variable {classes other : List ClassDecl} {lower upper decl : ClassDecl}

section

variable (perm : classes.Perm other)

include perm

theorem isParent_of_perm : IsParent other = IsParent classes := by
  funext lower upper
  rw [IsParent, IsParent, perm.mem_iff]

theorem isAncestor_of_perm : IsAncestor other = IsAncestor classes := by
  rw [IsAncestor, IsAncestor, isParent_of_perm perm]

theorem NearestAbove.of_perm {property : ClassDecl → Prop}
    (nearest : NearestAbove classes property lower upper) :
    NearestAbove other property lower upper := by
  induction nearest with
  | parent isParent holds => exact .parent (isParent_of_perm perm ▸ isParent) holds
  | above isParent notHolds _ ih => exact .above (isParent_of_perm perm ▸ isParent) notHolds ih

theorem isType_of_perm {written : TypeName} (isType : IsType classes written) :
    IsType other written := by
  cases written with
  | primitive kind => trivial
  | named name => exact (perm.map ClassDecl.name).mem_iff.mp isType

theorem WellFormedClass.of_perm (fits : WellFormedClass classes decl) :
    WellFormedClass other decl where
  names_differ := fits.names_differ
  fields_new := isAncestor_of_perm perm ▸ fits.fields_new
  methods_no_fields := isAncestor_of_perm perm ▸ fits.methods_no_fields
  methods_agree method isThere upper nearest :=
    fits.methods_agree method isThere upper (nearest.of_perm perm.symm)
  parameters_differ := fits.parameters_differ
  types_exist written isWritten := isType_of_perm perm (fits.types_exist written isWritten)

theorem ParentDeclared.of_perm (declared : ParentDeclared classes decl) :
    ParentDeclared other decl :=
  fun written isWritten => (perm.map ClassDecl.name).mem_iff.mp (declared written isWritten)

theorem namesParent_of_perm : NamesParent other = NamesParent classes := by
  funext child parent
  simp only [NamesParent, perm.mem_iff]

theorem WellDeclared.of_perm (wellDeclared : WellDeclared classes) : WellDeclared other where
  names_differ := (perm.map ClassDecl.name).nodup_iff.mp wellDeclared.names_differ
  parents_declared decl isThere :=
    (wellDeclared.parents_declared decl (perm.mem_iff.mpr isThere)).of_perm perm
  acyclic := namesParent_of_perm perm ▸ wellDeclared.acyclic

end

namespace Program

/-- The program with its classes in another order. -/
def reordered (program : Program) (classes : List ClassDecl) : Program := { program with classes }

theorem IsForest.reordered {program : Program} (isForest : program.IsForest)
    (perm : program.classes.Perm classes) : (program.reordered classes).IsForest where
  expr_at isNode := isForest.expr_at ((perm.flatMap_right _).mem_iff.mpr isNode)
  stmt_at isNode := isForest.stmt_at ((perm.flatMap_right _).mem_iff.mpr isNode)
  expr_ids := ((perm.flatMap_right _).map Expr.id).nodup_iff.mp isForest.expr_ids
  stmt_ids := ((perm.flatMap_right _).map Stmt.id).nodup_iff.mp isForest.stmt_ids

end Program

namespace Analysis

/-- Declarations are accepted in every order or in none. -/
theorem declarations_of_perm (perm : classes.Perm other)
    (hierarchyFree : (Hierarchy.ofClasses classes).diagnostics = [])
    (membersFree : (Members.ofHierarchy classes (Hierarchy.ofClasses classes)).diagnostics = []) :
    (Hierarchy.ofClasses other).diagnostics = [] ∧
      (Members.ofHierarchy other (Hierarchy.ofClasses other)).diagnostics = [] := by
  have allFit := (Members.accepts_ofHierarchy hierarchyFree).1.mp membersFree
  have otherFree := (Hierarchy.silent_ofClasses other).mpr
    (((Hierarchy.silent_ofClasses classes).mp hierarchyFree).of_perm perm)
  exact ⟨otherFree, (Members.accepts_ofHierarchy otherFree).1.mpr
    fun decl isThere => (allFit decl (perm.mem_iff.mpr isThere)).of_perm perm⟩

end Analysis

/-!
## Registries that hold the same classes

Two registries may hold the same declared classes in different orders. Then a class, a field and a
method have different numbers in them, but whatever is found in one registry by its name is found in
the other one too, and stands for the same declaration.
-/

/-! ## One registry -/

/-- A registry has the declared classes under the numbers of their places, with all their
members. -/
structure Registry.Holds (registry : Registry) (classes : List ClassDecl) : Prop where
  wellFormed : registry.WellFormed
  acyclic : registry.Acyclic
  nodup : (classes.map ClassDecl.name).Nodup
  name_eq : ∀ id : ClassId,
    (registry.classEntry? id).map ClassEntry.name = classes[id.index]?.map ClassDecl.name
  parent_iff : ∀ {child lower}, classes[child.index]? = some lower → ∀ parent,
    registry.parent? child = some parent ↔
      ∃ upper, classes[parent.index]? = some upper ∧ IsParent classes lower upper
  members : Members.HoldsMembers classes registry
  hasSlot : ∀ {owner name id method}, registry.findMethod? owner name = some id →
    registry.methodEntry? id = some method → method.isStatic = false → ∃ slot,
    method.slot = some slot
  listed : ∀ {owner entry id}, registry.classEntry? owner = some entry → id ∈ entry.vtable →
    ∃ method, registry.methodEntry? id = some method ∧
    registry.findMethod? owner method.name = some id
  namesInOrder : ∀ {id : ClassId}, id.index < registry.classCount → registry.NamesInOrder id
  fieldRecords_eq : ∀ {id : ClassId} {decl : ClassDecl}, classes[id.index]? = some decl →
    (registry.fieldsOf id).map registry.fieldRecord? = decl.fields.map fun field =>
      some (field.record registry id)
  methodRecords_eq : ∀ {id : ClassId} {decl : ClassDecl}, classes[id.index]? = some decl →
    (registry.methodsOf id).map registry.methodRecord? = decl.methods.map fun method =>
      some (method.record registry id)

namespace Registry

variable {registry after : Registry} {classes : List ClassDecl}

theorem holds_ofHierarchy (hierarchyFree : (Hierarchy.ofClasses classes).diagnostics = [])
    (membersFree : (Members.ofHierarchy classes (Hierarchy.ofClasses classes)).diagnostics = []) :
    (Members.ofHierarchy classes (Hierarchy.ofClasses classes)).registry.Holds classes := by
  have tabled := Members.tabled_ofHierarchy hierarchyFree membersFree
  have follows := Hierarchy.follows_ofClasses hierarchyFree
  have settled := Hierarchy.settled_ofClasses classes
  have inRange {id : ClassId} {decl : ClassDecl} (declared : classes[id.index]? = some decl) :
      id.index <
      (Members.ofHierarchy classes (Hierarchy.ofClasses classes)).registry.classCount := by
    rw [tabled.classCount_eq, follows.records.classCount_eq]
    exact (List.getElem?_eq_some_iff.mp declared).1
  exact
    { wellFormed := tabled.consistent.toWellFormed
      acyclic := tabled.toCompleting.acyclic settled.acyclic
      nodup := follows.nodup
      name_eq := fun id => (tabled.names_eq id).trans (follows.records.name_eq id)
      parent_iff := fun declared parent =>
        (tabled.parent_eq _).symm ▸ follows.parent_iff declared parent
      members := (Members.accepts_ofHierarchy hierarchyFree).2 membersFree
      hasSlot := (tabled.toCompleting.soundDispatch settled).slot_exists
      listed := fun found isThere => by
        rcases List.getElem?_of_mem isThere with ⟨slot, isListed⟩
        rcases (tabled.dispatches_of_known settled _ (lt_classCount found)).listed
          found isListed with
          ⟨method, methodFound, _, _, inClass⟩
        exact ⟨method, methodFound, inClass⟩
      namesInOrder := Members.namesInOrder_ofHierarchy membersFree
      fieldRecords_eq := fun declared => by
        rw [tabled.fieldRecords_eq settled (inRange declared), Members.declaredFields, declared,
          Option.map_some, Option.getD_some, List.map_map]
        rfl
      methodRecords_eq := fun declared => by
        rw [tabled.methodRecords_eq settled (inRange declared), Members.declaredMethods, declared,
          Option.map_some, Option.getD_some, List.map_map]
        rfl }

namespace Holds

variable (holds : registry.Holds classes)

include holds

variable {decl : ClassDecl}

/-- Classes and members stay as they are while method bodies are resolved. -/
theorem later (extended : registry.Extends after) (laterWellFormed : after.WellFormed) :
    after.Holds classes := by
  have sameTypes : after.resolveType? = registry.resolveType? :=
    funext (extended.resolveType?_eq holds.wellFormed laterWellFormed)
  have sameMethods := extended.findMethod?_eq holds.wellFormed laterWellFormed
  have sameField : ∀ (owner : ClassId) (field : FieldDecl),
      field.record after owner = field.record registry owner := by
    intro owner field
    rw [FieldDecl.record, FieldDecl.record, sameTypes]
  have sameMethod : ∀ (owner : ClassId) (method : MethodDecl),
      method.record after owner = method.record registry owner := by
    intro owner method
    simp only [MethodDecl.record, inheritedMethod?, sameTypes, extended.parent?_eq, sameMethods]
  have sameFieldRecord : after.fieldRecord? = registry.fieldRecord? := by
    funext id
    rw [fieldRecord?, fieldRecord?, fieldEntry?, fieldEntry?, extended.fields_eq]
  have sameMethodRecord : after.methodRecord? = registry.methodRecord? := by
    funext id
    rw [methodRecord?, methodRecord?, extended.methodEntry?_eq]
  have sameNames : after.vtableNames = registry.vtableNames := by
    funext id
    simp only [vtableNames, classEntry?, extended.classes_eq, extended.methodEntry?_eq]
  exact
    { wellFormed := laterWellFormed
      acyclic := acyclic_congr extended.parent?_eq holds.acyclic
      nodup := holds.nodup
      name_eq := fun id => by rw [Registry.classEntry?, extended.classes_eq]; exact holds.name_eq id
      parent_iff := fun declared parent => extended.parent?_eq _ ▸ holds.parent_iff declared parent
      members :=
        { fields_perm := by simpa only [extended.fields_eq,
            sameField] using holds.members.fields_perm
          methods_perm := by
            simpa only [extended.methods_eq, sameMethod] using holds.members.methods_perm
          replaces := fun found => by
            rw [extended.methodEntry?_eq] at found
            rcases holds.members.replaces found with ⟨decl, declared, replaces⟩
            exact ⟨decl, declared,
              by simpa only [extended.methodEntry?_eq] using replaces.overrides_iff,
              replaces.overrides_eq_none_iff⟩ }
      hasSlot := fun inClass found isInstance => by
        rw [sameMethods] at inClass
        rw [extended.methodEntry?_eq] at found
        exact holds.hasSlot inClass found isInstance
      listed := fun found isThere => by
        rw [Registry.classEntry?, extended.classes_eq] at found
        rcases holds.listed found isThere with ⟨method, methodFound, inClass⟩
        exact ⟨method, (extended.methodEntry?_eq _).trans methodFound,
          (sameMethods _ _).trans inClass⟩
      namesInOrder := fun known => by
        rw [classCount, extended.classes_eq] at known
        simpa only [NamesInOrder, newNames, methodsOf, extended.methods_eq, extended.parent?_eq,
          sameMethodRecord, sameNames] using holds.namesInOrder known
      fieldRecords_eq := fun declared => by
        simpa only [fieldsOf, extended.fields_eq,
          sameFieldRecord, sameField] using holds.fieldRecords_eq declared
      methodRecords_eq := fun declared => by
        simpa only [methodsOf, extended.methods_eq,
          sameMethodRecord, sameMethod] using holds.methodRecords_eq declared }

theorem classNamed?_iff {name : String} {id : ClassId} :
    registry.classNamed? name = some id ↔ classes[id.index]?.map ClassDecl.name = some name := by
  rw [classNamed?_eq_some holds.wellFormed, holds.name_eq]

theorem field_of_entry {id : FieldId} {entry : FieldEntry}
    (found : registry.fieldEntry? id = some entry) :
    ∃ decl, classes[entry.owner.index]? = some decl ∧ ∃ field ∈ decl.fields,
      entry.record = field.record registry entry.owner := by
  have isRecord :=
    List.mem_map_of_mem (f := FieldEntry.record)
      (Array.mem_toList_iff.mpr (Array.mem_of_getElem? found))
  rcases List.mem_flatMap.mp (holds.members.fields_perm.mem_iff.mp isRecord) with
    ⟨pair, isPair, isThere⟩
  rcases List.mem_map.mp isThere with ⟨field, isField, recordEq⟩
  have owned : (⟨pair.2⟩ : ClassId) = entry.owner := congrArg FieldRecord.owner recordEq
  rw [← owned]
  exact ⟨pair.1, List.mem_zipIdx_iff_getElem?.mp isPair, field, isField, recordEq.symm⟩

theorem entry_of_field {owner : ClassId} (declared : classes[owner.index]? = some decl)
    {field : FieldDecl} (isField : field ∈ decl.fields) :
    ∃ id entry, registry.fieldEntry? id = some entry ∧ entry.record =
      field.record registry owner := by
  have isPair : (decl, owner.index) ∈ classes.zipIdx := List.mem_zipIdx_iff_getElem?.mpr declared
  have isRecord := holds.members.fields_perm.mem_iff.mpr
    (List.mem_flatMap.mpr ⟨_, isPair, List.mem_map_of_mem isField⟩)
  rcases List.mem_map.mp isRecord with ⟨entry, isEntry, recordEq⟩
  rcases Array.mem_iff_getElem?.mp (Array.mem_toList_iff.mp isEntry) with ⟨place, found⟩
  exact ⟨⟨place⟩, entry, found, recordEq⟩

theorem method_of_entry {id : MethodId} {entry : MethodEntry}
    (found : registry.methodEntry? id = some entry) :
    ∃ decl, classes[entry.owner.index]? = some decl ∧ ∃ method ∈ decl.methods,
      entry.record = method.record registry entry.owner := by
  have isRecord :=
    List.mem_map_of_mem (f := MethodEntry.record)
      (Array.mem_toList_iff.mpr (Array.mem_of_getElem? found))
  rcases List.mem_flatMap.mp (holds.members.methods_perm.mem_iff.mp isRecord) with
    ⟨pair, isPair, isThere⟩
  rcases List.mem_map.mp isThere with ⟨method, isMethod, recordEq⟩
  have owned : (⟨pair.2⟩ : ClassId) = entry.owner := congrArg MethodRecord.owner recordEq
  rw [← owned]
  exact ⟨pair.1, List.mem_zipIdx_iff_getElem?.mp isPair, method, isMethod, recordEq.symm⟩

theorem entry_of_method {owner : ClassId} (declared : classes[owner.index]? = some decl)
    {method : MethodDecl} (isMethod : method ∈ decl.methods) :
    ∃ id entry, registry.methodEntry? id = some entry ∧ entry.record =
      method.record registry owner := by
  have isPair : (decl, owner.index) ∈ classes.zipIdx := List.mem_zipIdx_iff_getElem?.mpr declared
  have isRecord := holds.members.methods_perm.mem_iff.mpr
    (List.mem_flatMap.mpr ⟨_, isPair, List.mem_map_of_mem isMethod⟩)
  rcases List.mem_map.mp isRecord with ⟨entry, isEntry, recordEq⟩
  rcases Array.mem_iff_getElem?.mp (Array.mem_toList_iff.mp isEntry) with ⟨place, found⟩
  exact ⟨⟨place⟩, entry, found, recordEq⟩

end Holds

end Registry

/-! ## The same declarations in two registries -/

/-- Two numbers belong to the same declared class. -/
def SameClass (classes other : List ClassDecl) (id otherId : ClassId) : Prop :=
  ∃ decl, classes[id.index]? = some decl ∧ other[otherId.index]? = some decl

/-- Two types are alike but for the numbers of classes. -/
inductive SameType (classes other : List ClassDecl) : DataType → DataType → Prop
  | primitive {kind : Primitive} : SameType classes other (.primitive kind) (.primitive kind)
  | object {id otherId : ClassId} (same : SameClass classes other id otherId) :
      SameType classes other (.object id) (.object otherId)
  | null : SameType classes other .null .null

/-- Two entries are those of the same declared field. -/
structure SameField (classes other : List ClassDecl) (field otherField : FieldEntry) : Prop where
  owner : SameClass classes other field.owner otherField.owner
  name_eq : otherField.name = field.name
  type : SameType classes other field.type otherField.type
  visibility_eq : otherField.visibility = field.visibility
  isStatic_eq : otherField.isStatic = field.isStatic

/-- Two entries are those of the same declared method. -/
structure SameMethod (classes other : List ClassDecl) (method otherMethod : MethodEntry) :
    Prop where
  owner : SameClass classes other method.owner otherMethod.owner
  name_eq : otherMethod.name = method.name
  parameterTypes : List.Forall₂ (SameType classes other) method.parameterTypes
    otherMethod.parameterTypes
  returnType : SameType classes other method.returnType otherMethod.returnType
  visibility_eq : otherMethod.visibility = method.visibility
  isStatic_eq : otherMethod.isStatic = method.isStatic

/-- Two symbols stand for the same declaration, given which variables do. -/
inductive SameSymbol (classes other : List ClassDecl) (registry otherRegistry : Registry)
    (sameVariable : VariableId → VariableId → Prop) : Symbol → Symbol → Prop
  | ofClass {id otherId : ClassId} (same : SameClass classes other id otherId) :
      SameSymbol classes other registry otherRegistry sameVariable (.ofClass id) (.ofClass otherId)
  | ofField {id otherId : FieldId} {field otherField : FieldEntry}
      (found : registry.fieldEntry? id = some field)
      (otherFound : otherRegistry.fieldEntry? otherId = some otherField)
      (same : SameField classes other field otherField) :
      SameSymbol classes other registry otherRegistry sameVariable (.ofField id) (.ofField otherId)
  | ofMethod {id otherId : MethodId} {method otherMethod : MethodEntry}
      (found : registry.methodEntry? id = some method)
      (otherFound : otherRegistry.methodEntry? otherId = some otherMethod)
      (same : SameMethod classes other method otherMethod) :
      SameSymbol classes other registry otherRegistry sameVariable (.ofMethod id)
      (.ofMethod otherId)
  | ofVariable {id otherId : VariableId} (same : sameVariable id otherId) :
      SameSymbol classes other registry otherRegistry sameVariable (.ofVariable id)
      (.ofVariable otherId)

/-- Two registries hold the same classes, perhaps in another order. -/
structure Reordering (classes other : List ClassDecl) (registry otherRegistry : Registry) :
    Prop where
  perm : classes.Perm other
  holds : registry.Holds classes
  otherHolds : otherRegistry.Holds other

variable {classes other : List ClassDecl} {registry otherRegistry : Registry}

namespace SameClass

variable {id otherId : ClassId}

theorem symm (same : SameClass classes other id otherId) : SameClass other classes otherId id := by
  rcases same with ⟨decl, declared, otherDeclared⟩
  exact ⟨decl, otherDeclared, declared⟩

theorem unique (nodup : (other.map ClassDecl.name).Nodup)
    (same : SameClass classes other id otherId) {another : ClassId}
    (alsoSame : SameClass classes other id another) : another = otherId := by
  rcases same with ⟨decl, declared, otherDeclared⟩
  rcases alsoSame with ⟨again, againDeclared, anotherDeclared⟩
  obtain rfl := Option.some.inj (declared.symm.trans againDeclared)
  have inRange := (List.getElem?_eq_some_iff.mp anotherDeclared).1
  exact congrArg ClassId.mk
    ((List.getElem?_inj inRange (nodup.of_map _)).mp (anotherDeclared.trans otherDeclared.symm))

theorem of_declared (perm : classes.Perm other) {decl : ClassDecl}
    (declared : classes[id.index]? = some decl) :
    ∃ otherId : ClassId, other[otherId.index]? = some decl ∧
      SameClass classes other id otherId := by
  rcases List.getElem?_of_mem (perm.mem_iff.mp (List.mem_of_getElem? declared)) with
    ⟨place, isPlace⟩
  exact ⟨⟨place⟩, isPlace, decl, declared, isPlace⟩

end SameClass

theorem SameType.symm {type otherType : DataType} (same : SameType classes other type otherType) :
    SameType other classes otherType type := by
  cases same with
  | primitive => exact .primitive
  | object same => exact .object same.symm
  | null => exact .null

theorem SameMethod.symm {method otherMethod : MethodEntry}
    (same : SameMethod classes other method otherMethod) :
    SameMethod other classes otherMethod method where
  owner := same.owner.symm
  name_eq := same.name_eq.symm
  parameterTypes := same.parameterTypes.flip.imp fun _ _ typeSame => typeSame.symm
  returnType := same.returnType.symm
  visibility_eq := same.visibility_eq.symm
  isStatic_eq := same.isStatic_eq.symm

theorem SameType.unique (nodup : (other.map ClassDecl.name).Nodup)
    {type otherType another : DataType} (same : SameType classes other type otherType)
    (alsoSame : SameType classes other type another) : another = otherType := by
  cases same with
  | primitive =>
    cases alsoSame
    rfl
  | object same =>
    cases alsoSame with
    | object alsoSame => rw [same.unique nodup alsoSame]
  | null =>
    cases alsoSame
    rfl

namespace Reordering

variable (reordering : Reordering classes other registry otherRegistry)

include reordering

variable {written : TypeName} {child otherChild : ClassId} {field : FieldEntry}
  {method : MethodEntry}

theorem symm : Reordering other classes otherRegistry registry :=
  ⟨reordering.perm.symm, reordering.otherHolds, reordering.holds⟩

/-! ### Classes and types -/

theorem exists_classNamed {name : String} {id : ClassId}
    (found : registry.classNamed? name = some id) :
    ∃ otherId, otherRegistry.classNamed? name = some otherId ∧
      SameClass classes other id otherId := by
  rcases Option.map_eq_some_iff.mp (reordering.holds.classNamed?_iff.mp found) with
    ⟨decl, declared, named⟩
  rcases SameClass.of_declared reordering.perm declared with ⟨otherId, otherDeclared, same⟩
  exact ⟨otherId,
    reordering.otherHolds.classNamed?_iff.mpr (by rw [otherDeclared, Option.map_some, named]), same⟩

theorem exists_type {type : DataType} (found : registry.resolveType? written = some type) :
    ∃ otherType, otherRegistry.resolveType? written = some otherType ∧
      SameType classes other type otherType := by
  cases written with
  | primitive kind =>
    cases found
    exact ⟨_, rfl, .primitive⟩
  | named name =>
    rcases Option.map_eq_some_iff.mp found with ⟨id, isNamed, rfl⟩
    rcases reordering.exists_classNamed isNamed with ⟨otherId, otherNamed, same⟩
    exact ⟨_, by rw [Registry.resolveType?, otherNamed, Option.map_some], .object same⟩

theorem sameType_of_resolved {type otherType : DataType}
    (resolved : some type = registry.resolveType? written)
    (otherResolved : some otherType = otherRegistry.resolveType? written) :
    SameType classes other type otherType := by
  rcases reordering.exists_type resolved.symm with ⟨found, foundEq, same⟩
  obtain rfl := Option.some.inj (otherResolved.trans foundEq)
  exact same

theorem sameTypes_of_resolved {written : List TypeName} {types otherTypes : List DataType}
    (resolved : types.map some = written.map registry.resolveType?)
    (otherResolved : otherTypes.map some = written.map otherRegistry.resolveType?) :
    List.Forall₂ (SameType classes other) types otherTypes := by
  induction written generalizing types otherTypes with
  | nil =>
    obtain rfl := List.map_eq_nil_iff.mp resolved
    obtain rfl := List.map_eq_nil_iff.mp otherResolved
    exact .nil
  | cons first written ih =>
    rcases List.map_eq_cons_iff.mp resolved with ⟨type, rest, rfl, typeEq, restEq⟩
    rcases List.map_eq_cons_iff.mp otherResolved with
      ⟨otherType, otherRest, rfl, otherTypeEq, otherRestEq⟩
    exact .cons (reordering.sameType_of_resolved typeEq otherTypeEq) (ih restEq otherRestEq)

theorem exists_parent {parent : ClassId} (same : SameClass classes other child otherChild)
    (isParent : registry.parent? child = some parent) :
    ∃ otherParent, otherRegistry.parent? otherChild = some otherParent ∧
      SameClass classes other parent otherParent := by
  rcases same with ⟨lower, declared, otherDeclared⟩
  rcases (reordering.holds.parent_iff declared parent).mp isParent with
    ⟨upper, upperDeclared, above⟩
  rcases SameClass.of_declared reordering.perm upperDeclared with
    ⟨otherParent, otherUpper, sameParent⟩
  have otherAbove : IsParent other lower upper := isParent_of_perm reordering.perm ▸ above
  exact ⟨otherParent, (reordering.otherHolds.parent_iff otherDeclared otherParent).mpr ⟨upper,
    otherUpper, otherAbove⟩, sameParent⟩

theorem parent?_eq_none (same : SameClass classes other child otherChild)
    (noParent : registry.parent? child = none) : otherRegistry.parent? otherChild = none := by
  refine Option.eq_none_iff_forall_ne_some.mpr fun otherParent isParent => ?_
  rcases reordering.symm.exists_parent same.symm isParent with ⟨parent, found, _⟩
  cases noParent.symm.trans found

theorem exists_descends {lower otherLower upper : ClassId}
    (same : SameClass classes other lower otherLower)
      (descends : registry.DescendsFrom lower upper) :
    ∃ otherUpper, otherRegistry.DescendsFrom otherLower otherUpper ∧
      SameClass classes other upper otherUpper := by
  induction descends using Relation.ReflTransGen.head_induction_on generalizing otherLower with
  | refl => exact ⟨otherLower, .refl, same⟩
  | head isParent _ ih =>
    rcases reordering.exists_parent same isParent with ⟨otherParent, otherIsParent, sameParent⟩
    rcases ih sameParent with ⟨otherUpper, otherDescends, sameUpper⟩
    exact ⟨otherUpper, .head otherIsParent otherDescends, sameUpper⟩

/-! ### Members -/

variable {owner otherOwner : ClassId} {name : String} {symbol : Symbol}

theorem sameField {otherField : FieldEntry}
    (ownerSame : SameClass classes other field.owner otherField.owner) {decl : FieldDecl}
    (recordEq : field.record = decl.record registry field.owner)
    (otherRecordEq : otherField.record = decl.record otherRegistry otherField.owner) :
    SameField classes other field otherField where
  owner := ownerSame
  name_eq :=
    (congrArg FieldRecord.name otherRecordEq).trans (congrArg FieldRecord.name recordEq).symm
  type := reordering.sameType_of_resolved (congrArg FieldRecord.type recordEq)
    (congrArg FieldRecord.type otherRecordEq)
  visibility_eq :=
    (congrArg FieldRecord.visibility otherRecordEq).trans
      (congrArg FieldRecord.visibility recordEq).symm
  isStatic_eq :=
    (congrArg FieldRecord.isStatic otherRecordEq).trans
      (congrArg FieldRecord.isStatic recordEq).symm

theorem sameMethod {otherMethod : MethodEntry}
    (ownerSame : SameClass classes other method.owner otherMethod.owner) {decl : MethodDecl}
    (recordEq : method.record = decl.record registry method.owner)
    (otherRecordEq : otherMethod.record = decl.record otherRegistry otherMethod.owner) :
    SameMethod classes other method otherMethod where
  owner := ownerSame
  name_eq :=
    (congrArg MethodRecord.name otherRecordEq).trans (congrArg MethodRecord.name recordEq).symm
  parameterTypes := by
    have resolved : method.parameterTypes.map some =
        (decl.parameters.map VariableDecl.type).map registry.resolveType? := by
      rw [List.map_map]
      exact congrArg MethodRecord.parameterTypes recordEq
    refine reordering.sameTypes_of_resolved resolved ?_
    rw [List.map_map]
    exact congrArg MethodRecord.parameterTypes otherRecordEq
  returnType := reordering.sameType_of_resolved (congrArg MethodRecord.returnType recordEq)
    (congrArg MethodRecord.returnType otherRecordEq)
  visibility_eq :=
    (congrArg MethodRecord.visibility otherRecordEq).trans
      (congrArg MethodRecord.visibility recordEq).symm
  isStatic_eq :=
    (congrArg MethodRecord.isStatic otherRecordEq).trans
      (congrArg MethodRecord.isStatic recordEq).symm

section

variable (sameVariable : VariableId → VariableId → Prop)
  (same : SameClass classes other owner otherOwner)
include sameVariable same

/-- A class declares the same names in both registries. -/
theorem exists_declares (declares : registry.Declares owner name symbol) :
    ∃ otherSymbol, otherRegistry.Declares otherOwner name otherSymbol ∧
      SameSymbol classes other registry otherRegistry sameVariable symbol otherSymbol := by
  cases symbol with
  | ofField id =>
    rcases declares with ⟨field, found, rfl, rfl⟩
    rcases reordering.holds.field_of_entry found with ⟨decl, declared, written, isField, recordEq⟩
    rcases same with ⟨again, againDeclared, otherDeclared⟩
    obtain rfl := Option.some.inj (declared.symm.trans againDeclared)
    rcases reordering.otherHolds.entry_of_field otherDeclared isField with
      ⟨otherId, otherField, otherFound, otherRecordEq⟩
    obtain rfl : otherField.owner = otherOwner := congrArg FieldRecord.owner otherRecordEq
    have fields := reordering.sameField ⟨decl, declared, otherDeclared⟩ recordEq otherRecordEq
    exact ⟨.ofField otherId, ⟨otherField, otherFound, rfl, fields.name_eq⟩,
      .ofField found otherFound fields⟩
  | ofMethod id =>
    rcases declares with ⟨method, found, rfl, rfl⟩
    rcases reordering.holds.method_of_entry found with ⟨decl, declared, written, isMethod, recordEq⟩
    rcases same with ⟨again, againDeclared, otherDeclared⟩
    obtain rfl := Option.some.inj (declared.symm.trans againDeclared)
    rcases reordering.otherHolds.entry_of_method otherDeclared isMethod with
      ⟨otherId, otherMethod, otherFound, otherRecordEq⟩
    obtain rfl : otherMethod.owner = otherOwner := congrArg MethodRecord.owner otherRecordEq
    have methods := reordering.sameMethod ⟨decl, declared, otherDeclared⟩ recordEq otherRecordEq
    exact ⟨.ofMethod otherId, ⟨otherMethod, otherFound, rfl, methods.name_eq⟩,
      .ofMethod found otherFound methods⟩
  | ofClass | ofVariable => exact declares.elim

/-- A member name stands for the same declaration in both registries. -/
theorem exists_hasMember (has : registry.HasMember name owner symbol) :
    ∃ otherSymbol, otherRegistry.HasMember name otherOwner otherSymbol ∧
      SameSymbol classes other registry otherRegistry sameVariable symbol otherSymbol := by
  induction has generalizing otherOwner with
  | own declares =>
    rcases reordering.exists_declares sameVariable same declares with
      ⟨otherSymbol, otherDeclares, sameSymbol⟩
    exact ⟨otherSymbol, .own otherDeclares, sameSymbol⟩
  | inherited hasNone isParent _ ih =>
    rcases reordering.exists_parent same isParent with ⟨otherParent, otherIsParent, sameParent⟩
    rcases ih sameParent with ⟨otherSymbol, otherHas, sameSymbol⟩
    refine ⟨otherSymbol, .inherited (fun found otherDeclares => ?_) otherIsParent otherHas,
      sameSymbol⟩
    rcases reordering.symm.exists_declares sameVariable same.symm otherDeclares with
      ⟨declaredHere, declares, _⟩
    exact hasNone declaredHere declares

theorem exists_member (found : registry.findMember? owner name = some symbol) :
    ∃ otherSymbol, otherRegistry.findMember? otherOwner name = some otherSymbol ∧
      SameSymbol classes other registry otherRegistry sameVariable symbol otherSymbol := by
  have has :=
    (Registry.findMember?_eq_some reordering.holds.wellFormed reordering.holds.acyclic).mp found
  rcases reordering.exists_hasMember sameVariable same has with ⟨otherSymbol, otherHas, sameSymbol⟩
  exact ⟨otherSymbol,
    (Registry.findMember?_eq_some reordering.otherHolds.wellFormed
      reordering.otherHolds.acyclic).mpr otherHas, sameSymbol⟩

end

theorem exists_field (same : SameClass classes other owner otherOwner) {id : FieldId}
    (found : registry.findField? owner name = some id)
    (fieldFound : registry.fieldEntry? id = some field) :
    ∃ otherId otherField, otherRegistry.findField? otherOwner name = some otherId ∧
      otherRegistry.fieldEntry? otherId = some otherField ∧
      SameField classes other field otherField := by
  rcases reordering.exists_member (fun _ _ => True) same (Registry.findField?_eq_some.mp found) with
    ⟨_, otherFound, sameSymbol⟩
  cases sameSymbol with
  | ofField again otherField fields =>
    obtain rfl := Option.some.inj (fieldFound.symm.trans again)
    exact ⟨_, _, Registry.findField?_eq_some.mpr otherFound, otherField, fields⟩

theorem exists_method (same : SameClass classes other owner otherOwner) {id : MethodId}
    (found : registry.findMethod? owner name = some id)
    (methodFound : registry.methodEntry? id = some method) :
    ∃ otherId otherMethod, otherRegistry.findMethod? otherOwner name = some otherId ∧
      otherRegistry.methodEntry? otherId = some otherMethod ∧
      SameMethod classes other method otherMethod := by
  rcases reordering.exists_member (fun _ _ => True) same
    (Registry.findMethod?_eq_some.mp found) with
    ⟨_, otherFound, sameSymbol⟩
  cases sameSymbol with
  | ofMethod again otherMethod methods =>
    obtain rfl := Option.some.inj (methodFound.symm.trans again)
    exact ⟨_, _, Registry.findMethod?_eq_some.mpr otherFound, otherMethod, methods⟩

end Reordering

end Decaf
