import Decaf.Proofs.Members.Tables

/-!
# Accepted class tables

What a class inherits under a name can be read off the declarations of the classes above it once
these are on record. So a class is accepted behind its parent exactly if it is well formed. No class
is reached that was not accepted up to there, hence all of them are accepted exactly if all are well
formed.
-/

namespace Decaf

variable {classes : List ClassDecl}

/-! ## Declared links -/

/-- The declared classes are numbered by their places, and linked to the classes that they name. -/
structure Hierarchy.Follows (hierarchy : Hierarchy) (classes : List ClassDecl) : Prop where
  nodup : (classes.map ClassDecl.name).Nodup
  records : hierarchy.Records classes
  parent_iff : ∀ {child lower}, classes[child.index]? = some lower → ∀ parent,
    hierarchy.registry.parent? child = some parent ↔
      ∃ upper, classes[parent.index]? = some upper ∧ IsParent classes lower upper

theorem Hierarchy.follows_ofClasses (silent : (ofClasses classes).diagnostics = []) :
    (ofClasses classes).Follows classes := by
  have wellDeclared := (silent_ofClasses classes).mp silent
  have sameClasses := registeredClasses_of_nodup wellDeclared.names_differ
  have acyclic := (acyclic_links_iff wellDeclared.names_differ wellDeclared.parents_declared).mpr
    wellDeclared.acyclic
  have records := records_ofClasses classes
  rw [sameClasses] at records
  refine ⟨wellDeclared.names_differ, records, ?_⟩
  intro child lower declared parent
  rw [parent?_ofClasses, and_iff_left (acyclic child), ClassLink, sameClasses]
  constructor
  · rintro ⟨decl, written, isThere, isWritten, named⟩
    obtain rfl := Option.some.inj (declared.symm.trans isThere)
    rcases Option.map_eq_some_iff.mp named with ⟨upper, isUpper, sameName⟩
    exact ⟨upper, isUpper, List.mem_of_getElem? isUpper, written, isWritten, sameName.symm⟩
  · rintro ⟨upper, isUpper, _, written, isWritten, sameName⟩
    exact ⟨lower, written, declared, isWritten, by rw [isUpper, sameName]; rfl⟩

/-- A class is declared in one place. -/
theorem Hierarchy.Follows.place_eq {hierarchy : Hierarchy} (follows : hierarchy.Follows classes)
    {place other : ClassId} {decl : ClassDecl} (declared : classes[place.index]? = some decl)
    (otherDeclared : classes[other.index]? = some decl) : place = other := by
  have inRange := (List.getElem?_eq_some_iff.mp declared).1
  exact congrArg ClassId.mk
    ((List.getElem?_inj inRange (follows.nodup.of_map _)).mp (declared.trans otherDeclared.symm))

namespace Members

variable {classes : List ClassDecl} {hierarchy : Hierarchy} {members : Members}
  {front rest : List ClassId}
variable {upper : ClassDecl} {registry : Registry}

/-! ## Members of the classes on record -/

theorem Tabled.mem_fieldNames (tabled : Tabled classes hierarchy front members) {place : ClassId}
    (declared : classes[place.index]? = some upper) {name : String} {id : FieldId}
    (declares : members.registry.Declares place name (.ofField id)) : name ∈ upper.fieldNames := by
  rcases declares with ⟨entry, found, rfl, rfl⟩
  have isRecord :=
    List.mem_map_of_mem (f := FieldEntry.record)
      (Array.mem_toList_iff.mpr (Array.mem_of_getElem? found))
  rw [tabled.fields_eq] at isRecord
  rcases List.mem_flatMap.mp isRecord with ⟨other, _, isThere⟩
  obtain rfl : entry.owner = other := owner_of_mem_declaredFields isThere
  simp only [declaredFields, declared, Option.map_some, Option.getD_some] at isThere
  rcases List.mem_map.mp isThere with ⟨field, isField, recordEq⟩
  exact List.mem_map.mpr ⟨field, isField, congrArg FieldRecord.name recordEq⟩

theorem Tabled.exists_method (tabled : Tabled classes hierarchy front members) {id : MethodId}
    {entry : MethodEntry} (found : members.registry.methodEntry? id = some entry)
    (declared : classes[entry.owner.index]? = some upper) :
    ∃ method ∈ upper.methods, entry.record = method.record members.registry entry.owner := by
  have isRecord :=
    List.mem_map_of_mem (f := MethodEntry.record)
      (Array.mem_toList_iff.mpr (Array.mem_of_getElem? found))
  rw [tabled.methods_eq] at isRecord
  rcases List.mem_flatMap.mp isRecord with ⟨other, _, isThere⟩
  obtain rfl : entry.owner = other := owner_of_mem_declaredMethods isThere
  simp only [declaredMethods, declared, Option.map_some, Option.getD_some] at isThere
  rcases List.mem_map.mp isThere with ⟨method, isMethod, recordEq⟩
  exact ⟨method, isMethod, recordEq.symm⟩

/-! ## Types -/

theorem Tabled.isSome_resolveType?_iff (follows : hierarchy.Follows classes)
    (tabled : Tabled classes hierarchy front members) (written : TypeName) :
    (members.registry.resolveType? written).isSome ↔ IsType classes written := by
  cases written with
  | primitive kind => exact iff_of_true rfl trivial
  | named name =>
    have named (id : ClassId) : members.registry.classNamed? name = some id ↔
        classes[id.index]?.map ClassDecl.name = some name := by
      rw [Registry.classNamed?_eq_some tabled.consistent.toWellFormed, tabled.names_eq,
        follows.records.name_eq]
    simp only [Registry.resolveType?, Option.isSome_map, Option.isSome_iff_exists, named, IsType,
      List.mem_iff_getElem?, List.getElem?_map]
    constructor
    · rintro ⟨id, isThere⟩
      exact ⟨id.index, isThere⟩
    · rintro ⟨place, isThere⟩
      exact ⟨⟨place⟩, isThere⟩

/-- Different names of types that exist stand for different types. -/
theorem resolveType?_inj (wellFormed : registry.WellFormed) {left right : TypeName}
    (known : (registry.resolveType? left).isSome)
    (same : registry.resolveType? left = registry.resolveType? right) : left = right := by
  rcases Option.isSome_iff_exists.mp known with ⟨type, leftEq⟩
  have rightEq := same.symm.trans leftEq
  cases left with
  | primitive kind =>
    obtain rfl := Option.some.inj leftEq
    cases right with
    | primitive other => simpa [Registry.resolveType?, eq_comm] using rightEq
    | named name => simp [Registry.resolveType?] at rightEq
  | named name =>
    rcases Option.map_eq_some_iff.mp leftEq with ⟨id, isClass, rfl⟩
    cases right with
    | primitive other => simp [Registry.resolveType?] at rightEq
    | named other =>
      rcases Option.map_eq_some_iff.mp rightEq with ⟨otherId, otherClass, sameType⟩
      obtain rfl := DataType.object.inj sameType
      rw [Registry.classNamed?_eq_some wellFormed] at isClass otherClass
      rw [Option.some.inj (isClass.symm.trans otherClass)]

theorem map_resolveType?_inj (wellFormed : registry.WellFormed) {left right : List TypeName}
    (known : ∀ written ∈ left, (registry.resolveType? written).isSome)
    (same : left.map registry.resolveType? = right.map registry.resolveType?) : left = right := by
  induction left generalizing right with
  | nil => exact (List.map_eq_nil_iff.mp same.symm).symm
  | cons first left ih =>
    cases right with
    | nil => simp at same
    | cons other right =>
      rw [List.map_cons, List.map_cons, List.cons.injEq] at same
      rw [resolveType?_inj wellFormed (known first (by simp)) same.1,
        ih (fun written isThere => known written (by simp [isThere])) same.2]

/-! ## Inherited members -/

/-- What a class inherits under a name, told by the declarations of the classes above it. -/
inductive Inherits (classes : List ClassDecl) (registry : Registry) (decl : ClassDecl)
    (name : String) :
    Option Symbol → Prop
  | nothing : (∀ upper, IsAncestor classes decl upper → name ∉ upper.memberNames) →
      Inherits classes registry decl name none
  | nearest {place upper symbol} : classes[place.index]? = some upper →
      NearestAbove classes (fun other => name ∈ other.memberNames) decl upper →
      registry.Declares place name symbol → Inherits classes registry decl name (some symbol)

section

variable (settled : hierarchy.Settled classes.length) (follows : hierarchy.Follows classes)
  (tabled : Tabled classes hierarchy front members)
  (parents : ∀ id ∈ front, ∀ parent, members.registry.parent? id = some parent → parent ∈ front)

include settled follows tabled parents

variable {id : ClassId} {decl : ClassDecl}

section

variable (declared : classes[id.index]? = some decl)
  (parentDone : ∀ parent, members.registry.parent? id = some parent → parent ∈ front)
include declared parentDone

theorem Tabled.inherits (name : String) :
    Inherits classes members.registry decl name (members.registry.findInherited? id name) := by
  have wellFormed := tabled.consistent.toWellFormed
  have acyclic := tabled.toCompleting.acyclic settled.acyclic
  induction id using acyclic.induction wellFormed generalizing decl with
  | step id ih =>
    have parent_iff := fun parent => (tabled.parent_eq id).symm ▸ follows.parent_iff declared parent
    cases parentEq : members.registry.parent? id with
    | none =>
      have noMember : members.registry.findInherited? id name = none := by
        simp [Registry.findInherited?, parentEq]
      rw [noMember]
      refine .nothing fun upper isAncestor => ?_
      rcases Relation.TransGen.head'_iff.mp isAncestor with ⟨next, isParent, _⟩
      rcases List.getElem?_of_mem isParent.1 with ⟨place, isPlace⟩
      have linked := (parent_iff ⟨place⟩).mpr ⟨next, isPlace, isParent⟩
      simp [parentEq] at linked
    | some parent =>
      rcases (parent_iff parent).mp parentEq with ⟨upper, upperDeclared, isParent⟩
      have isDone := parentDone parent parentEq
      have isOwn : members.registry.ownMember? parent name = none ↔ _ :=
        tabled.ownMember?_eq_none upperDeclared
      rw [Registry.findInherited?_of_parent parentEq, Registry.findMember?_eq wellFormed acyclic]
      cases own : members.registry.ownMember? parent name with
      | some symbol =>
        refine .nearest upperDeclared (.parent isParent ?_) (wellFormed.own_iff.mp own)
        by_contra isNew
        simp [isOwn.mpr fun _ => isNew] at own
      | none =>
        have isNew := isOwn.mp own isDone
        have further := ih parent parentEq upperDeclared (parents parent isDone)
        rw [Option.none_or]
        generalize members.registry.findInherited? parent name = found at further ⊢
        cases further with
        | nothing nowhere =>
          refine .nothing fun other isAncestor => ?_
          rcases Relation.TransGen.head'_iff.mp isAncestor with ⟨next, isNext, above⟩
          obtain rfl := isParent.unique follows.nodup isNext
          rcases Relation.reflTransGen_iff_eq_or_transGen.mp above with rfl | further
          · exact isNew
          · exact nowhere other further
        | nearest placeDeclared nearest declares =>
          exact .nearest placeDeclared (.above isParent isNew nearest) declares

/-- Nothing is inherited under a name exactly if no class above has it. -/
theorem Tabled.findInherited?_eq_none_iff (name : String) :
    members.registry.findInherited? id name = none ↔
      ∀ upper, IsAncestor classes decl upper → name ∉ upper.memberNames := by
  have inherits := tabled.inherits settled follows parents declared parentDone name
  generalize members.registry.findInherited? id name = found at inherits ⊢
  cases inherits with
  | nothing nowhere => exact iff_of_true rfl nowhere
  | nearest _ nearest _ =>
    exact iff_of_false (by simp) fun nowhere => nowhere _ nearest.isAncestor nearest.holds

/-- A name under which only methods are inherited stands for the nearest of them. -/
theorem Tabled.findInherited?_eq_method_iff {name : String}
    (noField : ∀ upper, IsAncestor classes decl upper → name ∉ upper.fieldNames)
      (target : MethodId) :
    members.registry.findInherited? id name = some (.ofMethod target) ↔
      ∃ upper entry, NearestAbove classes (fun other => name ∈ other.methodNames) decl upper ∧
        members.registry.methodEntry? target = some entry ∧ entry.name = name ∧
        classes[entry.owner.index]? = some upper := by
  have inherits := tabled.inherits settled follows parents declared parentDone name
  have isMember : ∀ upper, name ∈ ClassDecl.methodNames upper → name ∈ upper.memberNames :=
    fun upper isMethod => List.mem_append_right _ isMethod
  constructor
  · intro found
    rw [found] at inherits
    cases inherits with
    | nearest placeDeclared nearest declares =>
      rcases declares with ⟨entry, entryFound, rfl, named⟩
      have isMethod :=
        (List.mem_append.mp nearest.holds).resolve_left (noField _ nearest.isAncestor)
      have weaker := fun other (isMethod : name ∈ ClassDecl.methodNames other) =>
        isMember other isMethod
      exact ⟨_, entry, nearest.strengthen weaker isMethod, entryFound, named, placeDeclared⟩
  · rintro ⟨upper, entry, nearest, entryFound, named, upperDeclared⟩
    generalize members.registry.findInherited? id name = found at inherits ⊢
    cases inherits with
    | nothing nowhere => exact absurd (isMember _ nearest.holds) (nowhere _ nearest.isAncestor)
    | @nearest place other symbol placeDeclared otherNearest declares =>
      have isMethod :=
        (List.mem_append.mp otherNearest.holds).resolve_left (noField _ otherNearest.isAncestor)
      obtain rfl := nearest.unique follows.nodup (otherNearest.strengthen isMember isMethod)
      have samePlace : entry.owner = place := follows.place_eq upperDeclared placeDeclared
      have isSame := tabled.consistent.toWellFormed.own_iff.mpr declares
      rw [← isSame, tabled.consistent.toWellFormed.own_iff]
      exact ⟨entry, entryFound, samePlace, named⟩

end

/-! ## One class -/

section

variable {owner : ClassId} {decl : ClassDecl} (declared : classes[owner.index]? = some decl)
  (parentDone : ∀ parent, members.registry.parent? owner = some parent → parent ∈ front)

include declared parentDone

variable {name : String} {upper : ClassDecl}

theorem Tabled.exists_inheritedMethod
    (noField : ∀ upper, IsAncestor classes decl upper → name ∉ upper.fieldNames)
    (isAncestor : IsAncestor classes decl upper) (isMethod : name ∈ upper.methodNames) :
    ∃ id, members.registry.findInherited? owner name = some (.ofMethod id) := by
  have inherits := tabled.inherits settled follows parents declared parentDone name
  generalize members.registry.findInherited? owner name = found at inherits ⊢
  cases inherits with
  | nothing nowhere => exact absurd (List.mem_append_right _ isMethod) (nowhere _ isAncestor)
  | @nearest place other symbol placeDeclared nearest declares =>
    cases symbol with
    | ofMethod id => exact ⟨id, rfl⟩
    | ofField id =>
      exact absurd (tabled.mem_fieldNames placeDeclared declares) (noField _ nearest.isAncestor)
    | ofClass | ofVariable => exact declares.elim

variable (above : ∀ upper, IsAncestor classes decl upper → WellFormedClass classes upper)

include above

/-- A method that stands for a name hides no field of that name. -/
theorem Tabled.noField_of_method {id : MethodId}
    (isMethod : members.registry.findInherited? owner name = some (.ofMethod id))
    (isAncestor : IsAncestor classes decl upper) : name ∉ upper.fieldNames := by
  intro isField
  have inherits := tabled.inherits settled follows parents declared parentDone name
  rw [isMethod] at inherits
  cases inherits with
  | nearest placeDeclared nearest declares =>
    rcases declares with ⟨entry, entryFound, rfl, rfl⟩
    have nearestFits := above _ nearest.isAncestor
    rcases tabled.exists_method entryFound placeDeclared with ⟨method, isThere, recordEq⟩
    have isMethod := List.mem_map_of_mem (f := MethodDecl.name) isThere
    rw [← show entry.name = method.name from congrArg MethodRecord.name recordEq] at isMethod
    rcases nearest.trichotomy follows.nodup isAncestor with hidden | rfl | further
    · exact hidden (List.mem_append_left _ isField)
    · exact (List.nodup_append.mp nearestFits.names_differ).2.2 _ isField _ isMethod rfl
    · exact nearestFits.methods_no_fields _ isMethod _ further isField

/-- The signature of what a class inherits under a name is that of the nearest declared method. -/
theorem Tabled.inherited_agrees_iff {method : MethodDecl}
    (noField : ∀ upper, IsAncestor classes decl upper → method.name ∉ upper.fieldNames)
    (parametersKnown : ∀ written ∈ method.parameters.map VariableDecl.type,
      (members.registry.resolveType? written).isSome)
    (resultKnown : (members.registry.resolveType? method.returnType).isSome) :
    (∀ id entry, members.registry.findInherited? owner method.name = some (.ofMethod id) →
      members.registry.methodEntry? id = some entry → method.isStatic = entry.isStatic ∧
        (method.parameters.map fun parameter => members.registry.resolveType? parameter.type) =
          entry.parameterTypes.map some ∧
        members.registry.resolveType? method.returnType = some entry.returnType) ↔
      ∀ upper, NearestAbove classes (fun other => method.name ∈ other.methodNames) decl upper →
        ∀ inherited ∈ upper.methods, inherited.name = method.name → method.Agrees inherited := by
  have wellFormed := tabled.consistent.toWellFormed
  have method_iff := tabled.findInherited?_eq_method_iff settled follows parents
    declared parentDone noField
  constructor
  · intro agree upper nearest inherited isThere sameName
    rcases tabled.exists_inheritedMethod settled follows parents declared parentDone
      noField nearest.isAncestor nearest.holds with ⟨id, found⟩
    rcases (method_iff id).mp found with
      ⟨other, entry, otherNearest, entryFound, named, otherDeclared⟩
    obtain rfl := nearest.unique follows.nodup otherNearest
    rcases tabled.exists_method entryFound otherDeclared with ⟨same, isSame, recordEq⟩
    have methodsDiffer := (List.nodup_append.mp (above _ nearest.isAncestor).names_differ).2.1
    obtain rfl : same = inherited := List.inj_on_of_nodup_map methodsDiffer isSame isThere
      ((congrArg MethodRecord.name recordEq).symm.trans (named.trans sameName.symm))
    rcases agree id entry found entryFound with ⟨sameKind, sameParameters, sameResult⟩
    refine ⟨sameKind.trans (congrArg MethodRecord.isStatic recordEq), ?_, ?_⟩
    · refine map_resolveType?_inj wellFormed parametersKnown ?_
      rw [List.map_map, List.map_map]
      exact sameParameters.trans (congrArg MethodRecord.parameterTypes recordEq)
    · exact resolveType?_inj wellFormed resultKnown
        (sameResult.trans (congrArg MethodRecord.returnType recordEq))
  · intro agree id entry found entryFound
    rcases (method_iff id).mp found with ⟨upper, same, nearest, sameFound, named, upperDeclared⟩
    obtain rfl := Option.some.inj (sameFound.symm.trans entryFound)
    rcases tabled.exists_method entryFound upperDeclared with ⟨inherited, isThere, recordEq⟩
    have sameName := (congrArg MethodRecord.name recordEq).symm.trans named
    have agrees := agree upper nearest inherited isThere sameName
    refine ⟨agrees.isStatic_eq.trans (congrArg MethodRecord.isStatic recordEq).symm, ?_, ?_⟩
    · have sameTypes := congrArg (List.map members.registry.resolveType?) agrees.parameterTypes_eq
      rw [List.map_map, List.map_map] at sameTypes
      exact sameTypes.trans (congrArg MethodRecord.parameterTypes recordEq).symm
    · exact (congrArg members.registry.resolveType? agrees.returnType_eq).trans
        (congrArg MethodRecord.returnType recordEq).symm

/-- A declared method can take the place of what its class inherits exactly if the declarations
above allow it. -/
theorem Tabled.methodFits_iff (method : MethodDecl) : MethodFits members.registry owner method ↔
    (∀ upper, IsAncestor classes decl upper → method.name ∉ upper.fieldNames) ∧
      (∀ upper, NearestAbove classes (fun other => method.name ∈ other.methodNames) decl upper →
        ∀ inherited ∈ upper.methods, inherited.name = method.name → method.Agrees inherited) ∧
      (method.parameters.map VariableDecl.name).Nodup ∧
      ∀ written ∈ method.returnType :: method.parameters.map VariableDecl.type,
      IsType classes written := by
  have isType := tabled.isSome_resolveType?_iff follows
  have agrees_iff := @Tabled.inherited_agrees_iff _ _ _ _ settled follows tabled parents _
    _ declared parentDone above method
  simp only [← isType, List.forall_mem_cons, List.forall_mem_map]
  constructor
  · rintro ⟨parametersKnown, resultKnown, differ, agrees⟩
    have noField : ∀ upper, IsAncestor classes decl upper → method.name ∉ upper.fieldNames := by
      intro upper isAncestor isField
      cases found : members.registry.findInherited? owner method.name with
      | none =>
        have nowhere :=
          (tabled.findInherited?_eq_none_iff settled follows parents declared parentDone _).mp found
        exact nowhere upper isAncestor (List.mem_append_left _ isField)
      | some symbol =>
        rcases agrees symbol found with ⟨id, _, rfl, _⟩
        exact tabled.noField_of_method settled follows parents declared parentDone above
          found isAncestor isField
    refine ⟨noField, (agrees_iff noField (by simpa using parametersKnown) resultKnown).mp ?_,
      differ, resultKnown, parametersKnown⟩
    intro id entry found entryFound
    rcases agrees _ found with ⟨same, other, sameId, otherFound, agree⟩
    obtain rfl := Symbol.ofMethod.inj sameId
    obtain rfl := Option.some.inj (otherFound.symm.trans entryFound)
    exact agree
  · rintro ⟨noField, agree, differ, resultKnown, parametersKnown⟩
    refine ⟨parametersKnown, resultKnown, differ, fun symbol found => ?_⟩
    have inherits := tabled.inherits settled follows parents declared parentDone method.name
    rw [found] at inherits
    cases inherits with
    | nearest placeDeclared nearest declares =>
      cases symbol with
      | ofMethod id =>
        rcases declares with ⟨entry, entryFound, _⟩
        exact ⟨id, entry, rfl, entryFound,
          (agrees_iff noField (by simpa using parametersKnown) resultKnown).mpr agree
          id entry found entryFound⟩
      | ofField id =>
        exact absurd (tabled.mem_fieldNames placeDeclared declares) (noField _ nearest.isAncestor)
      | ofClass | ofVariable => exact declares.elim

/-- Behind its parent a class is accepted exactly if it is well formed. -/
theorem Tabled.classFits_iff :
    ClassFits members.registry owner decl ↔ WellFormedClass classes decl := by
  have isType := tabled.isSome_resolveType?_iff follows
  have notInherited := tabled.findInherited?_eq_none_iff settled follows parents declared parentDone
  have methodFits := tabled.methodFits_iff settled follows parents declared parentDone above
  constructor
  · rintro ⟨differ, fieldsFit, methodsFit⟩
    simp only [notInherited, isType] at fieldsFit
    simp only [methodFits] at methodsFit
    refine ⟨differ, List.forall_mem_map.mpr fun field isThere => (fieldsFit field isThere).1,
      List.forall_mem_map.mpr fun method isThere => (methodsFit method isThere).1,
      fun method isThere => (methodsFit method isThere).2.1,
      fun method isThere => (methodsFit method isThere).2.2.1, fun written isThere => ?_⟩
    rcases List.mem_append.mp isThere with inFields | inMethods
    · rcases List.mem_map.mp inFields with ⟨field, isField, rfl⟩
      exact (fieldsFit field isField).2
    · rcases List.mem_flatMap.mp inMethods with ⟨method, isMethod, isWritten⟩
      exact (methodsFit method isMethod).2.2.2 written isWritten
  · rintro ⟨differ, fieldsNew, noFields, agree, parametersDiffer, typesExist⟩
    refine ⟨differ, fun field isThere => ?_, fun method isThere => ?_⟩
    · rw [notInherited, isType]
      exact ⟨fieldsNew _ (List.mem_map_of_mem isThere),
        typesExist _ (List.mem_append_left _ (List.mem_map_of_mem isThere))⟩
    · rw [methodFits]
      exact ⟨noFields _ (List.mem_map_of_mem isThere), agree method isThere,
        parametersDiffer method isThere, fun written isWritten => typesExist written
          (List.mem_append_right _ (List.mem_flatMap.mpr ⟨method, isThere, isWritten⟩))⟩

end

omit settled in
/-- The classes above a class whose turn it is are on record. -/
theorem Tabled.ancestor_done {lower upper : ClassDecl} (isAncestor : IsAncestor classes lower upper)
    {id : ClassId} (declared : classes[id.index]? = some lower)
    (parentDone : ∀ parent, members.registry.parent? id = some parent → parent ∈ front) :
    ∃ place ∈ front, classes[place.index]? = some upper := by
  have done {lower next : ClassDecl} (isParent : IsParent classes lower next) {id : ClassId}
      (declared : classes[id.index]? = some lower)
      (parentDone : ∀ parent, members.registry.parent? id = some parent → parent ∈ front) :
      ∃ place ∈ front, classes[place.index]? = some next := by
    rcases List.getElem?_of_mem isParent.1 with ⟨place, isPlace⟩
    have linked := (follows.parent_iff declared ⟨place⟩).mpr ⟨next, isPlace, isParent⟩
    exact ⟨⟨place⟩, parentDone _ ((tabled.parent_eq id).trans linked), isPlace⟩
  induction isAncestor using Relation.TransGen.head_induction_on generalizing id with
  | single isParent => exact done isParent declared parentDone
  | head isParent _ ih =>
    rcases done isParent declared parentDone with ⟨place, isDone, placeDeclared⟩
    exact ih placeDeclared (parents place isDone)

end

variable {classes : List ClassDecl}

/-! ## All classes -/

/-- The classes are accepted in their order exactly if they are well formed. -/
theorem tabled_foldl_addClassById (settled : hierarchy.Settled classes.length)
    (allNumbered : hierarchy.AllNumbered) (follows : hierarchy.Follows classes)
    (orderEq : hierarchy.order = front ++ rest) (tabled : Tabled classes hierarchy front members)
    (frontFits : ∀ id ∈ front, ∀ decl, classes[id.index]? = some decl →
      WellFormedClass classes decl) :
    ((rest.foldl (addClassById classes hierarchy) members).diagnostics = [] ↔
      ∀ id ∈ rest, ∀ decl, classes[id.index]? = some decl → WellFormedClass classes decl) ∧
      ((rest.foldl (addClassById classes hierarchy) members).diagnostics = [] →
        Tabled classes hierarchy hierarchy.order
          (rest.foldl (addClassById classes hierarchy) members)) := by
  induction rest generalizing front members with
  | nil =>
    rw [List.append_nil] at orderEq
    exact ⟨iff_of_true tabled.silent (by simp), fun _ => orderEq ▸ tabled⟩
  | cons owner rest ih =>
    have turn := settled.turn orderEq
    have inRange : owner.index < classes.length := follows.records.classCount_eq ▸ turn.known
    have declared := List.getElem?_eq_getElem inRange
    have parents : ∀ id ∈ front, ∀ parent, members.registry.parent? id = some parent →
        parent ∈ front := by
      intro id isDone parent parentEq
      rcases List.append_of_mem isDone with ⟨early, late, frontEq⟩
      have earlier : hierarchy.order = early ++ id :: (late ++ owner :: rest) := by
        simp [orderEq, frontEq]
      rw [frontEq]
      exact List.mem_append_left _
        ((settled.turn earlier).parent_done ((tabled.parent_eq id).symm.trans parentEq))
    have parentDone : ∀ parent, members.registry.parent? owner = some parent → parent ∈ front :=
      fun parent parentEq => turn.parent_done ((tabled.parent_eq owner).symm.trans parentEq)
    have above : ∀ upper, IsAncestor classes classes[owner.index] upper →
        WellFormedClass classes upper := by
      intro upper isAncestor
      rcases tabled.ancestor_done follows parents isAncestor declared parentDone with
        ⟨place, isDone, isUpper⟩
      exact frontFits place isDone upper isUpper
    have fits := tabled.classFits_iff settled follows parents declared parentDone above
    have accepted := tabled_addClassById settled allNumbered orderEq tabled declared
    rw [fits] at accepted
    have step := errorFree_of_grows (foldl_grows (addClassById_grows classes hierarchy) rest
      (addClassById classes hierarchy members owner))
    have later (stepFree : (addClassById classes hierarchy members owner).diagnostics = []) := by
      refine ih (orderEq.trans (by simp)) (accepted.2 stepFree) fun id isDone decl isDecl => ?_
      rcases List.mem_append.mp isDone with isEarlier | isLast
      · exact frontFits id isEarlier decl isDecl
      · obtain rfl := List.mem_singleton.mp isLast
        exact Option.some.inj (declared.symm.trans isDecl) ▸ accepted.1.mp stepFree
    rw [List.foldl_cons]
    refine ⟨⟨fun errorFree => ?_, fun allFit => ?_⟩, fun errorFree =>
      (later (step errorFree)).2 errorFree⟩
    · rw [List.forall_mem_cons]
      refine ⟨fun decl isDecl => ?_, (later (step errorFree)).1.mp errorFree⟩
      exact Option.some.inj (declared.symm.trans isDecl) ▸ accepted.1.mp (step errorFree)
    · rw [List.forall_mem_cons] at allFit
      exact (later (accepted.1.mpr (allFit.1 _ declared))).1.mpr allFit.2

theorem flatMap_declared {Entry : Type} (entries : ClassId → ClassDecl → List Entry) :
    ((List.range classes.length).map ClassId.mk).flatMap (fun id =>
      (classes[id.index]?.map (entries id)).getD []) =
        classes.zipIdx.flatMap fun declared => entries ⟨declared.2⟩ declared.1 := by
  have places : List.range classes.length = classes.zipIdx.map Prod.snd := by
    rw [List.range_eq_range', List.zipIdx_map_snd]
  rw [places, List.map_map, List.flatMap_map]
  refine List.flatMap_congr fun declared isThere => ?_
  simp [List.mem_zipIdx_iff_getElem?.mp isThere]

/-- What the registry says about a method that stands for another one of its name. -/
structure ReplacesNearest (classes : List ClassDecl) (registry : Registry) (decl : ClassDecl)
    (entry : MethodEntry) : Prop where
  overrides_iff : ∀ target, entry.overrides = some target ↔ ∃ upper replaced,
    NearestAbove classes (fun other => entry.name ∈ other.methodNames) decl upper ∧
      registry.methodEntry? target = some replaced ∧ replaced.name = entry.name ∧
      classes[replaced.owner.index]? = some upper
  overrides_eq_none_iff : entry.overrides = none ↔
    ∀ upper, IsAncestor classes decl upper → entry.name ∉ upper.methodNames

/-- The registry has one entry for each declared member, and knows which methods replace which. -/
structure HoldsMembers (classes : List ClassDecl) (registry : Registry) : Prop where
  fields_perm : (registry.fields.toList.map FieldEntry.record).Perm
    (classes.zipIdx.flatMap fun declared => declared.1.fields.map fun field =>
      field.record registry ⟨declared.2⟩)
  methods_perm : (registry.methods.toList.map MethodEntry.record).Perm
    (classes.zipIdx.flatMap fun declared => declared.1.methods.map fun method =>
      method.record registry ⟨declared.2⟩)
  replaces : ∀ {id entry}, registry.methodEntry? id = some entry →
    ∃ decl, classes[entry.owner.index]? = some decl ∧ ReplacesNearest classes registry decl entry

section

variable (settled : hierarchy.Settled classes.length) (follows : hierarchy.Follows classes)
  (tabled : Tabled classes hierarchy hierarchy.order members)
  (allFit : ∀ decl ∈ classes, WellFormedClass classes decl)
include settled follows tabled allFit

/-- Once all classes are on record, each method knows the nearest one that it replaces. -/
theorem Tabled.replacesNearest {id : MethodId} {entry : MethodEntry}
    (found : members.registry.methodEntry? id = some entry) {decl : ClassDecl}
    (declared : classes[entry.owner.index]? = some decl) :
    ReplacesNearest classes members.registry decl entry := by
  have wellFormed := tabled.consistent.toWellFormed
  have allDone : ∀ id parent, members.registry.parent? id = some parent →
      parent ∈ hierarchy.order :=
    fun id parent parentEq =>
      settled.mem_order.mpr (tabled.classCount_eq ▸ wellFormed.parent_known parentEq)
  have parents := fun id (_ : id ∈ hierarchy.order) => allDone id
  have parentDone := allDone entry.owner
  rcases tabled.exists_method found declared with ⟨method, isThere, recordEq⟩
  have named : entry.name = method.name := congrArg MethodRecord.name recordEq
  have isMethod : entry.name ∈ decl.methodNames := named ▸ List.mem_map_of_mem isThere
  have noField := (allFit decl (List.mem_of_getElem? declared)).methods_no_fields _ isMethod
  have overrides : ∀ target, entry.overrides = some target ↔
      members.registry.findInherited? entry.owner entry.name = some (.ofMethod target) := by
    intro target
    rw [← inheritedMethod?_eq, named,
      show entry.overrides = _ from congrArg MethodRecord.overrides recordEq]
    rfl
  constructor
  · intro target
    rw [overrides, tabled.findInherited?_eq_method_iff settled follows parents
      declared parentDone noField]
  · rw [Option.eq_none_iff_forall_ne_some]
    constructor
    · intro noTarget upper isAncestor isUpper
      rcases tabled.exists_inheritedMethod settled follows parents declared parentDone
        noField isAncestor isUpper with ⟨target, isInherited⟩
      exact noTarget target ((overrides target).mpr isInherited)
    · intro nowhere target isTarget
      rcases (tabled.findInherited?_eq_method_iff settled follows parents declared
        parentDone noField target).mp ((overrides target).mp isTarget) with ⟨upper, _, nearest, _⟩
      exact nowhere upper nearest.isAncestor nearest.holds

/-- Once all classes are on record, so are their members, and nothing else is. -/
theorem Tabled.holdsMembers : HoldsMembers classes members.registry := by
  have perm : hierarchy.order.Perm ((List.range classes.length).map ClassId.mk) := by
    rw [← follows.records.classCount_eq, ← Registry.size_inheritance]
    exact settled.perm
  refine ⟨?_, ?_, fun {id entry} found => ?_⟩
  · rw [tabled.fields_eq, ← flatMap_declared fun id decl => decl.fields.map fun field =>
      field.record members.registry id]
    exact perm.flatMap_right _
  · rw [tabled.methods_eq,
      ← flatMap_declared fun id decl => decl.methods.map fun method =>
        method.record members.registry id]
    exact perm.flatMap_right _
  · have known := tabled.consistent.toWellFormed.method_owner found
    rw [tabled.classCount_eq, follows.records.classCount_eq] at known
    exact ⟨_, List.getElem?_eq_getElem known,
      tabled.replacesNearest settled follows allFit found (List.getElem?_eq_getElem known)⟩

end

theorem tabled_start (settled : (Hierarchy.ofClasses classes).Settled classes.length) :
    Tabled classes (Hierarchy.ofClasses classes) []
      { registry := (Hierarchy.ofClasses classes).registry } :=
  ⟨completing_start settled, rfl, fun _ => rfl, by simp [settled.bare.noFields],
    by simp [settled.bare.noMethods]⟩

theorem tabled_ofHierarchy (silent : (Hierarchy.ofClasses classes).diagnostics = [])
    (errorFree : (ofHierarchy classes (Hierarchy.ofClasses classes)).diagnostics = []) :
    Tabled classes (Hierarchy.ofClasses classes) (Hierarchy.ofClasses classes).order
      (ofHierarchy classes (Hierarchy.ofClasses classes)) := by
  have settled := Hierarchy.settled_ofClasses classes
  exact (tabled_foldl_addClassById settled (Hierarchy.allNumbered_ofClasses silent)
    (Hierarchy.follows_ofClasses silent)
    (List.nil_append _).symm (tabled_start settled) (by simp)).2 errorFree

/-- In a program whose classes form a hierarchy just the well-formed class tables are accepted, and
then they are on record. -/
theorem accepts_ofHierarchy {classes : List ClassDecl}
    (silent : (Hierarchy.ofClasses classes).diagnostics = []) :
    ((ofHierarchy classes (Hierarchy.ofClasses classes)).diagnostics = [] ↔
      ∀ decl ∈ classes, WellFormedClass classes decl) ∧
      ((ofHierarchy classes (Hierarchy.ofClasses classes)).diagnostics = [] →
        HoldsMembers classes (ofHierarchy classes (Hierarchy.ofClasses classes)).registry) := by
  have settled := Hierarchy.settled_ofClasses classes
  have follows := Hierarchy.follows_ofClasses silent
  have folded := tabled_foldl_addClassById settled (Hierarchy.allNumbered_ofClasses silent) follows
    (List.nil_append _).symm (tabled_start settled) (by simp)
  have allFit : (∀ id ∈ (Hierarchy.ofClasses classes).order, ∀ decl,
      classes[id.index]? = some decl →
      WellFormedClass classes decl) ↔ ∀ decl ∈ classes, WellFormedClass classes decl := by
    constructor
    · intro fit decl isThere
      rcases List.getElem?_of_mem isThere with ⟨place, isPlace⟩
      have inRange := (List.getElem?_eq_some_iff.mp isPlace).1
      exact fit ⟨place⟩ (settled.mem_order.mpr (follows.records.classCount_eq ▸ inRange))
        decl isPlace
    · exact fun fit id _ decl isPlace => fit decl (List.mem_of_getElem? isPlace)
  rw [allFit] at folded
  exact ⟨folded.1, fun errorFree =>
    (folded.2 errorFree).holdsMembers settled follows (folded.1.mp errorFree)⟩

theorem holdsMembers_replacingProgram :
    (Hierarchy.ofClasses replacingProgram.classes).diagnostics = [] ∧
      (∀ decl ∈ replacingProgram.classes, WellFormedClass replacingProgram.classes decl) ∧
        HoldsMembers replacingProgram.classes
          (ofHierarchy replacingProgram.classes
            (Hierarchy.ofClasses replacingProgram.classes)).registry := by
  have silent : (Hierarchy.ofClasses replacingProgram.classes).diagnostics = [] := by decide +kernel
  have membersFree : (ofHierarchy replacingProgram.classes
      (Hierarchy.ofClasses replacingProgram.classes)).diagnostics = [] := by
    decide +kernel
  have accepts := accepts_ofHierarchy silent
  exact ⟨silent, accepts.1.mp membersFree, accepts.2 membersFree⟩

end Members

end Decaf
