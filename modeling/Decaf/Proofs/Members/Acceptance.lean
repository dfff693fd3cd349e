import Decaf.Proofs.Members.Entries
import Decaf.Proofs.Members.Vtable

/-!
# Classes that are accepted

The members of a class are accepted exactly if they fit each other and what the class inherits, and
then each of them has an entry.
-/

namespace Decaf

namespace Members

open Registry (Adds ChangesOnly)

variable {members : Members} {owner : ClassId} {base : Registry}

/-! ## One class -/

/-- The members of a class fit each other and what the class inherits. -/
structure ClassFits (registry : Registry) (owner : ClassId) (decl : ClassDecl) : Prop where
  names_differ : (decl.fields.map FieldDecl.name ++ decl.methods.map MethodDecl.name).Nodup
  fields_fit : ∀ field ∈ decl.fields, registry.findInherited? owner field.name = none ∧
    (registry.resolveType? field.type).isSome
  methods_fit : ∀ method ∈ decl.methods, MethodFits registry owner method

/-- Some members of a class are on record, all without complaints. -/
structure ClassAdded (base : Registry) (owner : ClassId) (fields : List FieldDecl)
    (methods : List MethodDecl) (members : Members) : Prop where
  silent : members.diagnostics = []
  building : Building base owner members.registry
  adds : Adds base (fields.map fun field => field.record base owner) (methods.map fun method =>
    method.record base owner) members.registry

section

variable {fields : List FieldDecl} {methods : List MethodDecl} (wellFormed : base.WellFormed)
  (acyclic : base.Acyclic) (known : owner.index < base.classCount)
  (isBare : ∀ name, base.ownMember? owner name = none)
  (added : ClassAdded base owner fields methods members)

include wellFormed added

variable {name : String}

theorem ClassAdded.resolveType?_eq : members.registry.resolveType? = base.resolveType? :=
  added.adds.resolveType?_eq wellFormed added.building.consistent.toWellFormed

include isBare in
theorem ClassAdded.ownMember?_eq_none : members.registry.ownMember? owner name = none ↔
    name ∉ fields.map FieldDecl.name ++ methods.map MethodDecl.name := by
  have same : members.registry.ownMember? owner name = none ↔ _ :=
    added.adds.ownMember?_eq_none wellFormed added.building.consistent.toWellFormed isBare
      (by simp [FieldDecl.record]) (by simp [MethodDecl.record])
  simpa [FieldDecl.record, MethodDecl.record, Function.comp_def] using same

include acyclic

/-- What is inherited stays the same while a class gets its members. -/
theorem ClassAdded.methodEntry?_iff {id : MethodId}
    (isInherited : base.findInherited? owner name = some (.ofMethod id)) {entry : MethodEntry} :
    members.registry.methodEntry? id = some entry ↔ base.methodEntry? id = some entry := by
  rcases Option.bind_eq_some_iff.mp isInherited with ⟨parent, _, inParent⟩
  rcases Registry.exists_methodEntry wellFormed (Registry.findMethod?_eq_some.mpr inParent) with
    ⟨inherited, inheritedFound, _, _⟩
  have foreign := (inherited_owner_ne wellFormed acyclic isInherited inheritedFound).1
  rw [inheritedFound, (added.building.changes.method_iff foreign).mpr inheritedFound]

theorem ClassAdded.methodFits_iff {decl : MethodDecl} :
    MethodFits members.registry owner decl ↔ MethodFits base owner decl := by
  have sameTypes := added.resolveType?_eq wellFormed
  have sameInherited := added.building.changes.findInherited?_eq acyclic decl.name
  constructor
  · rintro ⟨parametersKnown, resultKnown, differ, agrees⟩
    rw [sameTypes] at parametersKnown resultKnown agrees
    refine ⟨parametersKnown, resultKnown, differ, fun symbol isInherited => ?_⟩
    rcases agrees symbol (sameInherited ▸ isInherited) with ⟨id, entry, rfl, entryFound, agree⟩
    exact ⟨id, entry, rfl,
      (added.methodEntry?_iff wellFormed acyclic isInherited).mp entryFound, agree⟩
  · rintro ⟨parametersKnown, resultKnown, differ, agrees⟩
    rw [← sameTypes] at parametersKnown resultKnown agrees
    refine ⟨parametersKnown, resultKnown, differ, fun symbol isInherited => ?_⟩
    rw [sameInherited] at isInherited
    rcases agrees symbol isInherited with ⟨id, entry, rfl, entryFound, agree⟩
    exact ⟨id, entry, rfl,
      (added.methodEntry?_iff wellFormed acyclic isInherited).mpr entryFound, agree⟩

theorem ClassAdded.methodRecord_eq (decl : MethodDecl) :
    decl.record members.registry owner = decl.record base owner := by
  have sameInherited : members.registry.inheritedMethod? owner decl.name =
      base.inheritedMethod? owner decl.name := by
    refine Option.ext fun id => ?_
    rw [inheritedMethod?_eq, inheritedMethod?_eq, added.building.changes.findInherited?_eq acyclic]
  rw [MethodDecl.record, MethodDecl.record, added.resolveType?_eq wellFormed, sameInherited]

end

/-- The fields of a class are accepted if their names are new and their types are known. -/
theorem foldl_addField_spec (acyclic : members.registry.Acyclic)
    (known : owner.index < members.registry.classCount)
    (isBare : ∀ name, members.registry.ownMember? owner name = none)
    (started : Building members.registry owner members.registry) (silent : members.diagnostics = [])
    (fields : List FieldDecl) :
    ((fields.foldl (addField owner) members).diagnostics = [] ↔ (fields.map FieldDecl.name).Nodup ∧
      ∀ field ∈ fields, members.registry.findInherited? owner field.name = none ∧
        (members.registry.resolveType? field.type).isSome) ∧
      ((fields.foldl (addField owner) members).diagnostics = [] →
        ClassAdded members.registry owner fields [] (fields.foldl (addField owner) members)) := by
  have wellFormed := started.consistent.toWellFormed
  have folded := @foldl_errorFree_iff _ (addField owner) (fun done =>
    ClassAdded members.registry owner done [])
      (fun done field => field.name ∉ done.map FieldDecl.name ∧
        members.registry.findInherited? owner field.name = none ∧
        (members.registry.resolveType? field.type).isSome)
      (addField_grows owner) ?_ ?_ fields members ⟨silent, started, .refl _⟩ silent
  · exact ⟨folded.1.trans nodup_and_forall_iff.symm, folded.2⟩
  · intro done built field added
    rw [addField_errorFree_iff, added.ownMember?_eq_none wellFormed isBare,
      added.resolveType?_eq wellFormed, added.building.changes.findInherited?_eq acyclic]
    simp [added.silent]
  · intro done built field added errorFree
    have more := adds_addField added.building known errorFree
    have sameRecord : field.record built.registry owner = field.record members.registry owner := by
      rw [FieldDecl.record, FieldDecl.record, added.resolveType?_eq wellFormed]
    rw [sameRecord] at more
    refine ⟨errorFree, building_addField acyclic known added.building errorFree, ?_⟩
    simpa using added.adds.trans more

theorem foldl_addMethod_spec (wellFormed : base.WellFormed) (acyclic : base.Acyclic)
    (known : owner.index < base.classCount) (isBare : ∀ name, base.ownMember? owner name = none)
    {fields : List FieldDecl} (added : ClassAdded base owner fields [] members)
    (sources : List MethodSource) :
    ((sources.foldl (addMethod owner) members).diagnostics = [] ↔
      ((sources.map MethodSource.decl).map MethodDecl.name).Nodup ∧
        ∀ method ∈ sources.map MethodSource.decl,
        method.name ∉ fields.map FieldDecl.name ∧ MethodFits base owner method) ∧
      ((sources.foldl (addMethod owner) members).diagnostics = [] →
        ClassAdded base owner fields (sources.map MethodSource.decl)
          (sources.foldl (addMethod owner) members)) := by
  have folded := @foldl_errorFree_iff _ (addMethod owner)
    (fun done => ClassAdded base owner fields (done.map MethodSource.decl))
    (fun done source => source.decl.name ∉ done.map (fun source => source.decl.name) ∧
      source.decl.name ∉ fields.map FieldDecl.name ∧ MethodFits base owner source.decl)
    (addMethod_grows owner) ?_ ?_ sources members added added.silent
  · rw [List.map_map, List.forall_mem_map]
    exact ⟨folded.1.trans nodup_and_forall_iff.symm, folded.2⟩
  · intro done built source added
    rcases added.building.exists_owner known with ⟨found, ownerFound⟩
    rw [(addMethod_spec added.building.consistent.toWellFormed ownerFound added.silent source).1,
      added.ownMember?_eq_none wellFormed isBare, added.methodFits_iff wellFormed acyclic,
      List.mem_append, not_or, List.map_map, and_assoc, and_left_comm]
    rfl
  · intro done built source added errorFree
    rcases added.building.exists_owner known with ⟨found, ownerFound⟩
    have more :=
      (addMethod_spec added.building.consistent.toWellFormed ownerFound added.silent source).2
      errorFree
    rw [added.methodRecord_eq wellFormed acyclic] at more
    refine ⟨errorFree, building_addMethod acyclic known added.building errorFree, ?_⟩
    simpa using added.adds.trans more

/-! ## The vtable of a class -/

theorem adds_placeMethod (state : List MethodId × Registry) (id : MethodId) :
    Adds state.2 [] [] (placeMethod state id).2 := by
  unfold placeMethod
  dsimp only
  split
  · exact .refl _
  · split
    · exact .refl _
    · split <;> exact .modifyMethod _ fun _ => rfl

/-- The vtable of a class says nothing new about its members. -/
theorem adds_buildVtable (registry : Registry) (owner : ClassId) :
    Adds registry [] [] (buildVtable registry owner) := by
  have placed : ∀ (ids : List MethodId) (state : List MethodId × Registry),
      Adds state.2 [] [] (ids.foldl placeMethod state).2 := by
    intro ids
    induction ids with
    | nil => exact fun state => .refl _
    | cons id ids ih => exact fun state => (adds_placeMethod state id).trans (ih _)
  unfold buildVtable
  split
  · exact .refl _
  next entry _ =>
    have laidOut := placed entry.methods (inheritedVtable registry owner, registry)
    generalize entry.methods.foldl placeMethod (inheritedVtable registry owner, registry) =
      state at laidOut
    exact laidOut.trans (.modifyClass _ fun _ => rfl)

/-- The members of a class are accepted exactly if they fit each other and what is inherited, and
then they are on record. -/
theorem addClass_spec {classIndex : Nat} {decl : ClassDecl} (acyclic : members.registry.Acyclic)
    (known : owner.index < members.registry.classCount)
    (isBare : ∀ name, members.registry.ownMember? owner name = none)
    (started : Building members.registry owner members.registry)
      (silent : members.diagnostics = []) :
    ((addClass members owner classIndex decl).diagnostics = [] ↔
      ClassFits members.registry owner decl) ∧
      ((addClass members owner classIndex decl).diagnostics = [] →
        Adds members.registry (decl.fields.map fun field => field.record members.registry owner)
          (decl.methods.map fun method => method.record members.registry owner)
          (addClass members owner classIndex decl).registry) := by
  have wellFormed := started.consistent.toWellFormed
  have withFields := foldl_addField_spec acyclic known isBare started silent decl.fields
  have decls : (sourcesOf classIndex decl).map MethodSource.decl = decl.methods := by
    simp only [sourcesOf, List.map_map]
    exact List.zipIdx_map_fst _ _
  have fieldsGrow :=
    errorFree_of_grows (foldl_grows (addMethod_grows owner) (sourcesOf classIndex decl)
      (decl.fields.foldl (addField owner) members))
  have classFits : ClassFits members.registry owner decl ↔
      ((decl.fields.map FieldDecl.name).Nodup ∧ ∀ field ∈ decl.fields,
        members.registry.findInherited? owner field.name = none ∧
        (members.registry.resolveType? field.type).isSome) ∧
      (decl.methods.map MethodDecl.name).Nodup ∧ ∀ method ∈ decl.methods,
        method.name ∉ decl.fields.map FieldDecl.name ∧
        MethodFits members.registry owner method := by
    have namesDiffer : (decl.fields.map FieldDecl.name ++ decl.methods.map MethodDecl.name).Nodup ↔
        (decl.fields.map FieldDecl.name).Nodup ∧ (decl.methods.map MethodDecl.name).Nodup ∧
          ∀ method ∈ decl.methods, method.name ∉ decl.fields.map FieldDecl.name := by
      rw [List.nodup_append', List.disjoint_right, List.forall_mem_map]
    constructor
    · rintro ⟨differ, fieldsFit, methodsFit⟩
      rcases namesDiffer.mp differ with ⟨fieldsDiffer, methodsDiffer, apart⟩
      exact ⟨⟨fieldsDiffer, fieldsFit⟩, methodsDiffer, fun method isMethod =>
        ⟨apart method isMethod, methodsFit method isMethod⟩⟩
    · rintro ⟨⟨fieldsDiffer, fieldsFit⟩, methodsDiffer, methodsFit⟩
      exact ⟨namesDiffer.mpr ⟨fieldsDiffer, methodsDiffer, fun method isMethod =>
        (methodsFit method isMethod).1⟩, fieldsFit, fun method isMethod =>
          (methodsFit method isMethod).2⟩
  constructor
  · constructor
    · intro errorFree
      have added := withFields.2 (fieldsGrow errorFree)
      have withMethods := foldl_addMethod_spec wellFormed acyclic known isBare added
        (sourcesOf classIndex decl)
      rw [decls] at withMethods
      exact classFits.mpr ⟨withFields.1.mp (fieldsGrow errorFree), withMethods.1.mp errorFree⟩
    · intro fits
      rcases classFits.mp fits with ⟨fieldsFit, methodsFit⟩
      have added := withFields.2 (withFields.1.mpr fieldsFit)
      have withMethods := foldl_addMethod_spec wellFormed acyclic known isBare added
        (sourcesOf classIndex decl)
      rw [decls] at withMethods
      exact withMethods.1.mpr methodsFit
  · intro errorFree
    have added := withFields.2 (fieldsGrow errorFree)
    have withMethods := foldl_addMethod_spec wellFormed acyclic known isBare added
      (sourcesOf classIndex decl)
    have gathered := (withMethods.2 errorFree).adds
    rw [decls] at gathered
    have whole := gathered.trans (adds_buildVtable _ owner)
    rw [List.append_nil, List.append_nil] at whole
    exact whole

end Members

end Decaf
