import Decaf.Proofs.Hierarchy.Sound
import Decaf.Proofs.Members.Acceptance
import Decaf.Proofs.Members.Declared

/-!
# Class tables

Every class gets its members behind its parent, so whatever it inherits is on record by then. Hence
the members of all classes are accepted exactly if the declarations make up a well-formed class
table: names stand for one thing in a class and the classes above, with methods that replace each
other as the only exception, and all types exist. The registry then holds that table, and each
method knows the one that it replaces.
-/

namespace Decaf

/-! ## Well-formed declarations -/

/-- One declared class is the parent of another. -/
def IsParent (classes : List ClassDecl) (lower upper : ClassDecl) : Prop :=
  upper ∈ classes ∧ ∃ written, lower.parent = some written ∧ written.name = upper.name

/-- One declared class is above another. -/
def IsAncestor (classes : List ClassDecl) : ClassDecl → ClassDecl → Prop :=
  Relation.TransGen (IsParent classes)

/-- The nearest class above a class that has a property. -/
inductive NearestAbove (classes : List ClassDecl) (property : ClassDecl → Prop) :
    ClassDecl → ClassDecl → Prop
  | parent {lower upper} : IsParent classes lower upper → property upper →
      NearestAbove classes property lower upper
  | above {lower middle upper} : IsParent classes lower middle → ¬ property middle →
      NearestAbove classes property middle upper → NearestAbove classes property lower upper

namespace ClassDecl

/-- The names of the declared fields. -/
def fieldNames (decl : ClassDecl) : List String := decl.fields.map FieldDecl.name

/-- The names of the declared methods. -/
def methodNames (decl : ClassDecl) : List String := decl.methods.map MethodDecl.name

/-- The names of the members, fields first. -/
def memberNames (decl : ClassDecl) : List String := decl.fieldNames ++ decl.methodNames

/-- The types that the declarations of members mention. -/
def writtenTypes (decl : ClassDecl) : List TypeName :=
  decl.fields.map FieldDecl.type ++
    decl.methods.flatMap fun method => method.returnType :: method.parameters.map VariableDecl.type

end ClassDecl

variable {classes : List ClassDecl} {property : ClassDecl → Prop} {lower upper : ClassDecl}

/-- A written type is primitive or the name of a declared class. -/
def IsType (classes : List ClassDecl) : TypeName → Prop
  | .primitive _ => True
  | .named name => name ∈ classes.map ClassDecl.name

/-- Two declared methods are static or not alike, and have equal types. -/
structure MethodDecl.Agrees (left right : MethodDecl) : Prop where
  isStatic_eq : left.isStatic = right.isStatic
  parameterTypes_eq : left.parameters.map VariableDecl.type = right.parameters.map VariableDecl.type
  returnType_eq : left.returnType = right.returnType

/-- The members of a declared class fit each other and the classes above. -/
structure WellFormedClass (classes : List ClassDecl) (decl : ClassDecl) : Prop where
  names_differ : decl.memberNames.Nodup
  fields_new : ∀ name ∈ decl.fieldNames, ∀ upper, IsAncestor classes decl upper →
    name ∉ upper.memberNames
  methods_no_fields : ∀ name ∈ decl.methodNames, ∀ upper, IsAncestor classes decl upper →
    name ∉ upper.fieldNames
  methods_agree : ∀ method ∈ decl.methods, ∀ upper,
    NearestAbove classes (fun other => method.name ∈ other.methodNames) decl upper →
      ∀ inherited ∈ upper.methods, inherited.name = method.name → method.Agrees inherited
  parameters_differ : ∀ method ∈ decl.methods, (method.parameters.map VariableDecl.name).Nodup
  types_exist : ∀ written ∈ decl.writtenTypes, IsType classes written

theorem NearestAbove.isAncestor
    (nearest : NearestAbove classes property lower upper) : IsAncestor classes lower upper := by
  induction nearest with
  | parent isParent _ => exact .single isParent
  | above isParent _ _ ih => exact .head isParent ih

theorem NearestAbove.holds
    (nearest : NearestAbove classes property lower upper) : property upper := by
  induction nearest with
  | parent _ holds => exact holds
  | above _ _ _ ih => exact ih

section

variable {classes : List ClassDecl} {lower upper other : ClassDecl}
  {property weaker : ClassDecl → Prop} (nodup : (classes.map ClassDecl.name).Nodup)

include nodup

theorem IsParent.unique (isParent : IsParent classes lower upper)
    (isOther : IsParent classes lower other) : upper = other := by
  rcases isParent with ⟨isClass, written, isWritten, named⟩
  rcases isOther with ⟨otherClass, same, sameWritten, otherNamed⟩
  obtain rfl := Option.some.inj (isWritten.symm.trans sameWritten)
  exact List.inj_on_of_nodup_map nodup isClass otherClass (named.symm.trans otherNamed)

theorem NearestAbove.unique (nearest : NearestAbove classes property lower upper)
    (isOther : NearestAbove classes property lower other) : upper = other := by
  induction nearest with
  | parent isParent holds =>
    cases isOther with
    | parent otherParent _ => exact isParent.unique nodup otherParent
    | above otherParent notHolds _ =>
      exact absurd (isParent.unique nodup otherParent ▸ holds) notHolds
  | above isParent notHolds _ ih =>
    cases isOther with
    | parent otherParent holds =>
      exact absurd ((isParent.unique nodup otherParent).symm ▸ holds) notHolds
    | above otherParent _ rest => exact ih ((isParent.unique nodup otherParent).symm ▸ rest)

/-- The classes above a class are those up to the nearest one with a property and those above
that. -/
theorem NearestAbove.trichotomy (nearest : NearestAbove classes property lower upper)
    (isAncestor : IsAncestor classes lower other) :
    ¬ property other ∨ other = upper ∨ IsAncestor classes upper other := by
  induction nearest with
  | parent isParent _ =>
    rcases Relation.TransGen.head'_iff.mp isAncestor with ⟨next, isNext, rest⟩
    obtain rfl := isParent.unique nodup isNext
    rcases Relation.reflTransGen_iff_eq_or_transGen.mp rest with same | further
    · exact .inr (.inl same)
    · exact .inr (.inr further)
  | above isParent notHolds _ ih =>
    rcases Relation.TransGen.head'_iff.mp isAncestor with ⟨next, isNext, rest⟩
    obtain rfl := isParent.unique nodup isNext
    rcases Relation.reflTransGen_iff_eq_or_transGen.mp rest with rfl | further
    · exact .inl notHolds
    · exact ih further

end

theorem NearestAbove.strengthen {classes : List ClassDecl} {lower upper : ClassDecl}
    {property stronger : ClassDecl → Prop} (implies : ∀ decl, stronger decl → property decl)
    (nearest : NearestAbove classes property lower upper) (holds : stronger upper) :
    NearestAbove classes stronger lower upper := by
  induction nearest with
  | parent isParent _ => exact .parent isParent holds
  | above isParent notHolds _ ih =>
    exact .above isParent (fun isStronger => notHolds (implies _ isStronger)) (ih holds)

namespace Members

open Registry (Adds ChangesOnly)

variable {classes : List ClassDecl} {hierarchy : Hierarchy} {members : Members} {owner : ClassId}
  {front rest : List ClassId}
variable {registry : Registry} {id : ClassId} {decl : ClassDecl}

/-! ## Classes in turn -/

/-- The records of the fields that a class declares. -/
def declaredFields (classes : List ClassDecl) (registry : Registry) (id : ClassId) :
    List FieldRecord :=
  ((classes[id.index]?).map fun decl =>
    decl.fields.map fun field => field.record registry id).getD []

/-- The records of the methods that a class declares. -/
def declaredMethods (classes : List ClassDecl) (registry : Registry) (id : ClassId) :
    List MethodRecord :=
  ((classes[id.index]?).map fun decl =>
    decl.methods.map fun method => method.record registry id).getD []

/-- The registry holds the members of the classes in `front`, and nothing else. -/
structure Tabled (classes : List ClassDecl) (hierarchy : Hierarchy) (front : List ClassId)
    (members : Members) : Prop extends Completing hierarchy front members where
  silent : members.diagnostics = []
  names_eq : ∀ id, (members.registry.classEntry? id).map ClassEntry.name =
    (hierarchy.registry.classEntry? id).map ClassEntry.name
  fields_eq : members.registry.fields.toList.map FieldEntry.record =
    front.flatMap (declaredFields classes members.registry)
  methods_eq : members.registry.methods.toList.map MethodEntry.record =
    front.flatMap (declaredMethods classes members.registry)

theorem owner_of_mem_declaredFields {record : FieldRecord}
    (isThere : record ∈ declaredFields classes registry id) : record.owner = id := by
  unfold declaredFields at isThere
  cases found : classes[id.index]? with
  | none => simp [found] at isThere
  | some decl =>
    rw [found, Option.map_some, Option.getD_some] at isThere
    rcases List.mem_map.mp isThere with ⟨field, _, rfl⟩
    rfl

theorem owner_of_mem_declaredMethods {record : MethodRecord}
    (isThere : record ∈ declaredMethods classes registry id) : record.owner = id := by
  unfold declaredMethods at isThere
  cases found : classes[id.index]? with
  | none => simp [found] at isThere
  | some decl =>
    rw [found, Option.map_some, Option.getD_some] at isThere
    rcases List.mem_map.mp isThere with ⟨method, _, rfl⟩
    rfl

/-- The names that a class on record knows are those that it declares. -/
theorem Tabled.ownMember?_eq_none (tabled : Tabled classes hierarchy front members)
    (declared : classes[id.index]? = some decl) {name : String} :
    members.registry.ownMember? id name = none ↔ id ∈ front → name ∉ decl.memberNames := by
  rw [Registry.ownMember?_eq_none tabled.consistent.toWellFormed, tabled.fields_eq,
    tabled.methods_eq, ClassDecl.memberNames, List.mem_append, not_or]
  have fieldsOf : declaredFields classes members.registry id =
      decl.fields.map fun field =>
        field.record members.registry id := by simp [declaredFields, declared]
  have methodsOf : declaredMethods classes members.registry id =
      decl.methods.map fun method =>
        method.record members.registry id := by simp [declaredMethods, declared]
  constructor
  · rintro ⟨noField, noMethod⟩ isDone
    constructor
    · rintro isField
      rcases List.mem_map.mp isField with ⟨field, isThere, rfl⟩
      have isRecord := List.mem_map_of_mem (f := fun field =>
        field.record members.registry id) isThere
      exact noField _ (List.mem_flatMap.mpr ⟨id, isDone, fieldsOf ▸ isRecord⟩) rfl rfl
    · rintro isMethod
      rcases List.mem_map.mp isMethod with ⟨method, isThere, rfl⟩
      have isRecord := List.mem_map_of_mem (f := fun method =>
        method.record members.registry id) isThere
      exact noMethod _ (List.mem_flatMap.mpr ⟨id, isDone, methodsOf ▸ isRecord⟩) rfl rfl
  · intro isNew
    constructor
    · rintro record isRecord rfl rfl
      rcases List.mem_flatMap.mp isRecord with ⟨other, isDone, isThere⟩
      obtain rfl := owner_of_mem_declaredFields isThere
      rw [fieldsOf] at isThere
      rcases List.mem_map.mp isThere with ⟨field, isField, recordEq⟩
      exact (isNew isDone).1 (List.mem_map.mpr ⟨field, isField, congrArg FieldRecord.name recordEq⟩)
    · rintro record isRecord rfl rfl
      rcases List.mem_flatMap.mp isRecord with ⟨other, isDone, isThere⟩
      obtain rfl := owner_of_mem_declaredMethods isThere
      rw [methodsOf] at isThere
      rcases List.mem_map.mp isThere with ⟨method, isMethod, recordEq⟩
      exact (isNew isDone).2 (List.mem_map.mpr ⟨method, isMethod,
        congrArg MethodRecord.name recordEq⟩)

theorem record_congr {other : Registry} (sameTypes : other.resolveType? = registry.resolveType?)
    (sameMethods : ∀ name, other.inheritedMethod? id name = registry.inheritedMethod? id name) :
    declaredFields classes other id = declaredFields classes registry id ∧
      declaredMethods classes other id = declaredMethods classes registry id := by
  have sameField : ∀ field : FieldDecl, field.record other id = field.record registry id := by
    intro field
    rw [FieldDecl.record, FieldDecl.record, sameTypes]
  have sameMethod : ∀ method : MethodDecl, method.record other id = method.record registry id := by
    intro method
    rw [MethodDecl.record, MethodDecl.record, sameTypes, sameMethods]
  simp [declaredFields, declaredMethods, sameField, sameMethod]

/-- What the classes on record inherit does not change while another class gets its members. -/
theorem inheritedMethod?_eq_of_changes {after : Registry}
    (changes : ChangesOnly owner registry after) (acyclic : registry.Acyclic)
    (apart : id = owner ∨ ¬ registry.DescendsFrom id owner) (name : String) :
    after.inheritedMethod? id name = registry.inheritedMethod? id name := by
  rw [Registry.inheritedMethod?, Registry.inheritedMethod?, changes.parent_eq]
  cases parentEq : registry.parent? id with
  | none => rfl
  | some parent =>
    refine changes.findMethod?_eq ?_ name
    rcases apart with rfl | apart
    · exact acyclic.not_descendsFrom_parent parentEq
    · exact fun descends => apart (.head parentEq descends)

/-- A class whose turn it is is accepted exactly if its members fit, and then they are on record,
too. -/
theorem tabled_addClassById (settled : hierarchy.Settled classes.length)
    (allNumbered : hierarchy.AllNumbered) (orderEq : hierarchy.order = front ++ owner :: rest)
    (tabled : Tabled classes hierarchy front members)
      (declared : classes[owner.index]? = some decl) :
    ((addClassById classes hierarchy members owner).diagnostics = [] ↔
      ClassFits members.registry owner decl) ∧
      ((addClassById classes hierarchy members owner).diagnostics = [] →
        Tabled classes hierarchy (front ++ [owner])
          (addClassById classes hierarchy members owner)) := by
  have turn := settled.turn orderEq
  have known : owner.index < members.registry.classCount := tabled.classCount_eq ▸ turn.known
  have acyclic := tabled.toCompleting.acyclic settled.acyclic
  have started := tabled.toCompleting.building settled turn
  have isBare : ∀ name, members.registry.ownMember? owner name = none :=
    fun _ => (tabled.ownMember?_eq_none declared).mpr fun isDone => absurd isDone turn.isNew
  have completed := completing_addClassById settled orderEq tabled.toCompleting
  have added : addClassById classes hierarchy members owner =
      addClass members owner owner.index decl := by
    simp only [addClassById, allNumbered.declarationOf?_eq turn.known, declared]
  rw [added] at completed ⊢
  have spec := @addClass_spec members owner owner.index decl acyclic known
    isBare started tabled.silent
  refine ⟨spec.1, fun errorFree => ?_⟩
  have adds := spec.2 errorFree
  have completing := completed errorFree
  rcases complete_addClass acyclic known started (fun parent parentEq => tabled.dispatches
    (turn.parent_done ((tabled.parent_eq owner).symm.trans parentEq))) errorFree with ⟨_,
    changes, _⟩
  have sameTypes :=
    adds.resolveType?_eq tabled.consistent.toWellFormed completing.consistent.toWellFormed
  have sameRecords : ∀ id ∈ front ++ [owner], _ := fun id isDone =>
    @record_congr classes _ id _ sameTypes (inheritedMethod?_eq_of_changes changes acyclic (by
      rcases List.mem_append.mp isDone with isEarlier | isLast
      · exact .inr fun descends =>
          turn.apart isEarlier ((Registry.descendsFrom_congr tabled.parent_eq).mp descends)
      · exact .inl (List.mem_singleton.mp isLast)))
  refine ⟨completing, errorFree, fun id => (adds.names_eq id).trans (tabled.names_eq id), ?_, ?_⟩
  · rw [adds.fields_eq, tabled.fields_eq,
      List.flatMap_congr fun id isDone => (sameRecords id isDone).1]
    simp [declaredFields, declared]
  · rw [adds.methods_eq, tabled.methods_eq,
      List.flatMap_congr fun id isDone => (sameRecords id isDone).2]
    simp [declaredMethods, declared]

end Members

end Decaf
