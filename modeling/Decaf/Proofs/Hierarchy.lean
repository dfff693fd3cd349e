import Decaf.Proofs.Registry.Lookup
import Decaf.Proofs.Registry.Closed
import Decaf.Proofs.Registry.Lexical

/-!
# Hierarchies of declared classes

The hierarchy of a program is a registry of classes without members. Every class has its
declaration, no class is above itself, and the order lists every class once and behind its parent.
That holds whether or not the declarations have faults, since cycles are taken apart.
-/

namespace Decaf

/-- Classes on record that have no members yet. -/
structure Registry.Bare (registry : Registry) : Prop where
  consistent : registry.Consistent
  noFields : registry.fields = #[]
  noMethods : registry.methods = #[]
  noVariables : registry.variableEntries = #[]
  noVtables : ∀ {id entry}, registry.classEntry? id = some entry → entry.vtable = []

namespace Registry.Bare

variable {registry : Registry}

theorem empty : Registry.empty.Bare :=
  ⟨⟨wellFormed_empty, .empty⟩, rfl, rfl, rfl,
    fun found => by simp [Registry.empty, classEntry?] at found⟩

theorem classAdded (bare : registry.Bare) {name : String}
    (fresh : registry.scopes.declared? ScopeTree.global name = none) (parentName : Option String)
    (position : Position) :
    (registry.classAdded (registry.nextClass name parentName position)).Bare := by
  refine ⟨⟨?_, ?_⟩, bare.noFields, bare.noMethods, bare.noVariables, ?_⟩
  · exact bare.consistent.toWellFormed.classAdded rfl rfl rfl rfl rfl fresh
  · exact bare.consistent.toLexical.classAdded bare.consistent.toWellFormed _
  · intro id entry found
    rw [Registry.classEntry?_classAdded] at found
    split at found
    · cases found
      rfl
    · exact bare.noVtables found

/-- Linking a class to a parent that is on record, or to none. -/
theorem linked (bare : registry.Bare) (id : ClassId) {parent : Option ClassId}
    (known : ∀ upper, parent = some upper → upper.index < registry.classCount) :
    (registry.modifyClass id fun entry => { entry with parent }).Bare := by
  refine ⟨⟨?_, bare.consistent.toLexical.modifyClass id _⟩, bare.noFields, bare.noMethods,
    bare.noVariables, ?_⟩
  · refine bare.consistent.toWellFormed.modifyClass id (fun _ => rfl) (fun _ => rfl)
      (fun _ => rfl) (fun _ => rfl) (fun _ => rfl) ?_
    intro entry upper _ parentEq
    exact known upper parentEq
  · intro other entry found
    rw [Registry.classEntry?_modifyClass] at found
    split at found
    · rcases Option.map_eq_some_iff.mp found with ⟨old, oldFound, rfl⟩
      have noVtable := bare.noVtables oldFound
      exact noVtable
    · exact bare.noVtables found

end Registry.Bare

namespace Hierarchy

variable {hierarchy : Hierarchy}
variable {declared : Nat} {id : ClassId}

/-- Every class has its declaration among the declared ones. -/
structure Covers (hierarchy : Hierarchy) (declared : Nat) : Prop where
  bare : hierarchy.registry.Bare
  length_eq : hierarchy.classIds.length = declared
  covers : ∀ id : ClassId, id.index < hierarchy.registry.classCount → some id ∈ hierarchy.classIds

section

variable (covered : hierarchy.Covers declared)
include covered

theorem covers_addClass (decl : ClassDecl) : (hierarchy.addClass decl).Covers (declared + 1) := by
  rw [addClass, Registry.registerClass_eq]
  cases declaredEq : hierarchy.registry.scopes.declared? ScopeTree.global decl.name with
  | some existing =>
    refine ⟨covered.bare, by simp [covered.length_eq], ?_⟩
    intro id known
    exact List.mem_append_left _ (covered.covers id known)
  | none =>
    refine ⟨covered.bare.classAdded declaredEq _ _, by simp [covered.length_eq], ?_⟩
    intro id known
    have inRange : id.index < hierarchy.registry.classCount + 1 := by
      simpa [Registry.classAdded, Registry.classCount] using known
    rcases Nat.lt_succ_iff_lt_or_eq.mp inRange with isOld | isNew
    · exact List.mem_append_left _ (covered.covers id isOld)
    · exact List.mem_append_right _ (by simp [← isNew])

theorem covers_foldl_addClass (classes : List ClassDecl) :
    (classes.foldl addClass hierarchy).Covers (declared + classes.length) := by
  induction classes generalizing hierarchy declared with
  | nil => exact covered
  | cons decl classes ih =>
    rw [List.foldl_cons, List.length_cons, Nat.add_comm classes.length, ← Nat.add_assoc]
    exact ih (covers_addClass covered decl)

theorem covers_linkDeclared
    (pair : ClassDecl × Option ClassId) : (hierarchy.linkDeclared pair).Covers declared := by
  rcases pair with ⟨decl, _ | id⟩
  · exact covered
  · simp only [linkDeclared, linkParent]
    split
    · exact covered
    · split
      next parent named =>
        refine ⟨covered.bare.linked id ?_, covered.length_eq, ?_⟩
        · rintro upper ⟨⟩
          exact Registry.lt_classCount_of_named covered.bare.consistent.toWellFormed named
        · simpa using covered.covers
      next => exact ⟨covered.bare, covered.length_eq, covered.covers⟩

theorem covers_foldl_linkDeclared (pairs : List (ClassDecl × Option ClassId)) :
    (pairs.foldl linkDeclared hierarchy).Covers declared := by
  induction pairs generalizing hierarchy with
  | nil => exact covered
  | cons pair pairs ih => exact ih (covers_linkDeclared covered pair)

end

theorem parent?_foldl_unlink (ids : List ClassId) (registry : Registry) (id : ClassId) :
    (ids.foldl unlink registry).parent? id = if id ∈ ids then none else registry.parent? id := by
  induction ids generalizing registry with
  | nil => simp
  | cons first ids ih =>
    rw [List.foldl_cons, ih, unlink, Registry.parent?, Registry.classEntry?_modifyClass]
    by_cases same : first = id
    · cases found : registry.classEntry? id <;> simp [same]
    · simp [same, Ne.symm same, Registry.parent?]

theorem covers_breakCycles (covered : hierarchy.Covers declared) :
    hierarchy.breakCycles.Covers declared := by
  have unlinked : ∀ (ids : List ClassId) (registry : Registry), registry.Bare →
      (ids.foldl unlink registry).Bare ∧ (ids.foldl unlink registry).classCount =
        registry.classCount := by
    intro ids
    induction ids with
    | nil => exact fun _ bare => ⟨bare, rfl⟩
    | cons id ids ih =>
      intro registry bare
      have rest := ih (unlink registry id) (bare.linked id (by simp))
      exact ⟨rest.1, by rw [List.foldl_cons, rest.2, unlink, Registry.classCount_modifyClass]⟩
  have after := unlinked (inheritance hierarchy.registry).cycles.flatten
    hierarchy.registry covered.bare
  refine ⟨after.1, covered.length_eq, fun id known => covered.covers id ?_⟩
  rw [← after.2]
  exact known

/-- A cycle that was left would have been there before, and then its classes have lost their
parents. -/
theorem acyclic_breakCycles (hierarchy : Hierarchy) : hierarchy.breakCycles.registry.Acyclic := by
  intro id cyclic
  have keeps : ∀ {child parent}, (inheritance hierarchy.breakCycles.registry).Extends child parent →
      child ∉ (inheritance hierarchy.registry).cycles.flatten ∧
        (inheritance hierarchy.registry).Extends child parent := by
    intro child parent isParent
    rw [Registry.extends_inheritance, breakCycles, parent?_foldl_unlink] at isParent
    split at isParent
    · cases isParent
    · exact ⟨‹_›, Registry.extends_inheritance.mpr isParent⟩
  have before : (inheritance hierarchy.registry).IsAbove id id :=
    Relation.TransGen.mono (fun _ _ isParent => (keeps isParent).2) _ _ cyclic
  rcases Relation.TransGen.head'_iff.mp cyclic with ⟨_, isParent, _⟩
  exact (keeps isParent).1 (Inheritance.mem_flatten_cycles.mpr before)

/-- The classes form a forest, each has its declaration, and the order puts parents in front of
their children. -/
structure Settled (hierarchy : Hierarchy) (declared : Nat) :
    Prop extends hierarchy.Covers declared where
  acyclic : hierarchy.registry.Acyclic
  arranged : (inheritance hierarchy.registry).Arranged hierarchy.order
  perm : hierarchy.order.Perm (inheritance hierarchy.registry).classIds

theorem settled_ofClasses (classes : List ClassDecl) :
    (ofClasses classes).Settled classes.length := by
  have started : ({} : Hierarchy).Covers 0 :=
    ⟨.empty, rfl, fun id known => absurd known (Nat.not_lt_zero _)⟩
  have registered := covers_foldl_addClass started classes
  rw [Nat.zero_add] at registered
  have linked := covers_breakCycles (covers_foldl_linkDeclared registered
    (classes.zip (classes.foldl addClass {}).classIds))
  have acyclic := acyclic_breakCycles
    ((classes.zip (classes.foldl addClass {}).classIds).foldl linkDeclared
      (classes.foldl addClass {}))
  rcases Inheritance.parentsFirst?_of_acyclic acyclic with ⟨order, orderEq, arranged, perm⟩
  simp only [ofClasses, arrange, orderEq, Option.getD_some]
  exact
    { bare := linked.bare, length_eq := linked.length_eq, covers := linked.covers
      acyclic, arranged, perm }

theorem Settled.exists_declaration {classes : List ClassDecl}
    (settled : hierarchy.Settled classes.length)
      (known : id.index < hierarchy.registry.classCount) :
    ∃ index decl, hierarchy.declarationOf? id = some index ∧ classes[index]? = some decl := by
  have declared := settled.covers id known
  rcases Option.isSome_iff_exists.mp (List.isSome_idxOf?.mpr declared) with ⟨index, indexEq⟩
  rcases List.idxOf?_eq_some_iff.mp indexEq with ⟨indexLt, _⟩
  rw [settled.length_eq] at indexLt
  exact ⟨index, classes[index], indexEq, List.getElem?_eq_getElem indexLt⟩

/-- Where a class stands in the order: its parent is in front of it, and what is below it comes
behind. -/
structure Turn (hierarchy : Hierarchy) (front : List ClassId) (owner : ClassId) : Prop where
  known : owner.index < hierarchy.registry.classCount
  isNew : owner ∉ front
  parent_done : ∀ {parent}, hierarchy.registry.parent? owner = some parent → parent ∈ front
  apart : ∀ {id}, id ∈ front → ¬ hierarchy.registry.DescendsFrom id owner

theorem Settled.mem_order (settled : hierarchy.Settled declared) :
    id ∈ hierarchy.order ↔ id.index < hierarchy.registry.classCount := by
  rw [settled.perm.mem_iff, Inheritance.mem_classIds, Registry.size_inheritance]

theorem Settled.turn (settled : hierarchy.Settled declared) {front rest : List ClassId}
    {owner : ClassId} (orderEq : hierarchy.order = front ++ owner :: rest) :
    hierarchy.Turn front owner := by
  have arranged := settled.arranged
  rw [orderEq] at arranged
  have disjoint := (List.nodup_append.mp arranged.nodup).2.2
  refine ⟨settled.mem_order.mp (by simp [orderEq]), ?_, ?_, ?_⟩
  · exact fun inFront => disjoint owner inFront owner List.mem_cons_self rfl
  · intro parent parentEq
    have parentMem := settled.mem_order.mpr (settled.bare.consistent.parent_known parentEq)
    rw [orderEq] at parentMem
    exact arranged.parent_mem_front (Registry.extends_inheritance.mpr parentEq) parentMem
  · intro id inFront descends
    have behind : id ∈ owner :: rest := by
      clear inFront
      induction descends using Relation.ReflTransGen.head_induction_on with
      | refl => exact List.mem_cons_self
      | head parentEq _ ih =>
        exact arranged.of_append.child_mem ih (Registry.extends_inheritance.mpr parentEq)
    exact disjoint id inFront id behind rfl

/-! ## Numbers in range -/

/-- The registry came about by registrations, and it knows the classes on record. -/
structure InRange (hierarchy : Hierarchy) : Prop where
  run : Registry.Run .empty hierarchy.registry
  known : ∀ {id}, some id ∈ hierarchy.classIds → hierarchy.registry.KnowsClass id

theorem InRange.closed (inRange : hierarchy.InRange) : hierarchy.registry.Closed :=
  inRange.run.closed .empty

theorem inRange_addClass (inRange : hierarchy.InRange) (decl : ClassDecl) :
    (hierarchy.addClass decl).InRange := by
  rw [addClass]
  cases registered : hierarchy.registry.registerClass decl.name (decl.parent.map ParentName.name)
    decl.position with
  | error existing => exact ⟨inRange.run, fun isId => inRange.known (by simpa using isId)⟩
  | ok pair =>
    have step := Registry.Step.registerClass registered
    have larger := (step.larger_and_closed inRange.closed).1
    refine ⟨inRange.run.tail step, fun {id} isId => ?_⟩
    rcases List.mem_append.mp isId with isOld | isNew
    · exact Nat.lt_of_lt_of_le (inRange.known isOld) larger.classes_le
    · rcases Registry.classAdded_of_registerClass registered with ⟨-, sameId, sameRegistry⟩
      simp only [sameId, List.mem_singleton, Option.some.injEq] at isNew
      simp [isNew, sameRegistry, Registry.KnowsClass, Registry.classAdded, Registry.classCount]

theorem inRange_linkDeclared (inRange : hierarchy.InRange) {pair : ClassDecl × Option ClassId}
    (isDeclared : pair.2 ∈ hierarchy.classIds) : (hierarchy.linkDeclared pair).InRange := by
  rcases pair with ⟨decl, _ | id⟩
  · exact inRange
  · simp only [linkDeclared, linkParent]
    split
    · exact inRange
    · split
      next parent named =>
        have step : Registry.Step hierarchy.registry
            (hierarchy.registry.modifyClass id fun entry => { entry with parent := some parent }) :=
          .setParent (inRange.known isDeclared) fun upper isParent =>
            Option.some.inj isParent ▸ inRange.closed.classNamed? named
        refine ⟨inRange.run.tail step, fun isId => ?_⟩
        exact Nat.lt_of_lt_of_le (inRange.known isId)
          (step.larger_and_closed inRange.closed).1.classes_le
      next => exact ⟨inRange.run, inRange.known⟩

theorem run_foldl_unlink (ids : List ClassId) {registry : Registry}
    (known : ∀ id ∈ ids, registry.KnowsClass id) :
    Registry.Run registry (ids.foldl unlink registry) := by
  induction ids generalizing registry with
  | nil => exact .refl
  | cons id ids ih =>
    have step : Registry.Step registry (unlink registry id) :=
      .setParent (known id (by simp)) (by simp)
    refine .head step (ih fun other isOther => ?_)
    have otherKnown := known other (by simp [isOther])
    simpa [Registry.KnowsClass, unlink, Registry.modifyClass] using otherKnown

/-- Registering the classes of any program keeps all numbers in range. -/
theorem inRange_ofClasses (classes : List ClassDecl) : (ofClasses classes).InRange := by
  have registered : ∀ (decls : List ClassDecl) {hierarchy : Hierarchy}, hierarchy.InRange →
      (decls.foldl addClass hierarchy).InRange := by
    intro decls
    induction decls with
    | nil => exact id
    | cons decl decls ih => exact fun inRange => ih (inRange_addClass inRange decl)
  have linked : ∀ (pairs : List (ClassDecl × Option ClassId)) {hierarchy : Hierarchy},
      hierarchy.InRange → (∀ pair ∈ pairs, pair.2 ∈ hierarchy.classIds) →
        (pairs.foldl linkDeclared hierarchy).InRange := by
    intro pairs
    induction pairs with
    | nil => exact fun inRange _ => inRange
    | cons pair pairs ih =>
      intro hierarchy inRange declared
      refine ih (inRange_linkDeclared inRange (declared pair (by simp))) ?_
      intro other isOther
      have sameIds : (hierarchy.linkDeclared pair).classIds = hierarchy.classIds := by
        simp only [linkDeclared, linkParent]
        repeat' split
        all_goals rfl
      rw [sameIds]
      exact declared other (by simp [isOther])
  have started : ({} : Hierarchy).InRange := ⟨.refl, by simp⟩
  have before := linked (classes.zip (classes.foldl addClass {}).classIds)
    (registered classes started) fun pair isPair => (List.of_mem_zip isPair).2
  have onCycles : ∀ (registry : Registry), ∀ id ∈ (inheritance registry).cycles.flatten,
      registry.KnowsClass id := by
    intro registry id isOnCycle
    have isKnown := Inheritance.index_lt_of_cyclic (Inheritance.mem_flatten_cycles.mp isOnCycle)
    rwa [Registry.size_inheritance] at isKnown
  have unlinked :=
    run_foldl_unlink _
      (onCycles ((classes.zip (classes.foldl addClass {}).classIds).foldl linkDeclared
      (classes.foldl addClass {})).registry)
  refine ⟨before.run.trans unlinked, fun isId => ?_⟩
  exact Nat.lt_of_lt_of_le (before.known isId) (unlinked.larger before.closed).classes_le

end Hierarchy

end Decaf
