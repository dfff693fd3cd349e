import Decaf.Proofs.Hierarchy
import Decaf.Proofs.Inheritance.Order

/-!
# Declared links and their faults

Of the declarations with one name the first one is registered, and the numbers of the classes are
the places of their declarations among the registered ones. Before cycles are looked for, every
registered class is linked to the class that its declaration names, if there is such a class.
-/

namespace Decaf

/-! ## Registered declarations -/

/-- The declarations that become classes: each name belongs to the first declaration that has it. -/
def registeredClasses : List ClassDecl → List ClassDecl
  | [] => []
  | decl :: later => decl :: (registeredClasses later).filter fun other => other.name ≠ decl.name

/-- The declaration of one registered class names another registered class as its parent. -/
def ClassLink (classes : List ClassDecl) (child parent : ClassId) : Prop :=
  ∃ decl written, (registeredClasses classes)[child.index]? = some decl ∧
    decl.parent = some written ∧
    ((registeredClasses classes)[parent.index]?).map ClassDecl.name = some written.name

/-- The parent of a declared class is a declared class, too. -/
def ParentDeclared (classes : List ClassDecl) (decl : ClassDecl) : Prop :=
  ∀ written, decl.parent = some written → written.name ∈ classes.map ClassDecl.name

variable {classes : List ClassDecl}

theorem mem_names_registeredClasses {name : String} :
    name ∈ (registeredClasses classes).map ClassDecl.name ↔ name ∈ classes.map ClassDecl.name := by
  induction classes with
  | nil => rfl
  | cons decl later ih =>
    by_cases same : name = decl.name
    · simp [registeredClasses, same]
    · simp only [List.mem_map] at ih
      simp only [registeredClasses, List.map_cons, List.mem_cons, same, false_or, List.mem_map,
        List.mem_filter, ← ih]
      constructor
      · rintro ⟨other, ⟨isThere, _⟩, named⟩
        exact ⟨other, isThere, named⟩
      · rintro ⟨other, isThere, rfl⟩
        exact ⟨other, ⟨isThere, by simpa using same⟩, rfl⟩

theorem registeredClasses_sublist : (registeredClasses classes).Sublist classes := by
  induction classes with
  | nil => exact .slnil
  | cons decl later ih => exact (List.filter_sublist.trans ih).cons_cons decl

/-- Nothing is dropped if all names differ. -/
theorem registeredClasses_of_nodup (nodup : (classes.map ClassDecl.name).Nodup) :
    registeredClasses classes = classes := by
  induction classes with
  | nil => rfl
  | cons decl later ih =>
    rw [List.map_cons, List.nodup_cons] at nodup
    rw [registeredClasses, ih nodup.2, List.filter_eq_self.mpr]
    intro other isLater
    simpa using fun same => nodup.1 (List.mem_map.mpr ⟨other, isLater, same⟩)

theorem registeredClasses_concat (front : List ClassDecl) (decl : ClassDecl) :
    registeredClasses (front ++ [decl]) =
      registeredClasses front ++ if decl.name ∈ front.map ClassDecl.name then [] else [decl] := by
  induction front with
  | nil => rfl
  | cons first front ih =>
    rw [List.cons_append, registeredClasses, ih, registeredClasses, List.filter_append,
      List.cons_append]
    by_cases same : decl.name = first.name
    · split <;> simp [same]
    · split <;> simp_all

/-! ## Registration -/

namespace Hierarchy

variable {hierarchy : Hierarchy}
variable {decls front : List ClassDecl} {name : String} {id : ClassId}

/-- The registered classes are those declared. -/
def Records (hierarchy : Hierarchy) (decls : List ClassDecl) : Prop :=
  ∀ id : ClassId, (hierarchy.registry.classEntry? id).map
    (fun entry => (entry.name, entry.position)) =
      decls[id.index]?.map fun decl => (decl.name, decl.position)

section

variable (records : hierarchy.Records decls)
include records

theorem Records.name_eq (id : ClassId) :
    (hierarchy.registry.classEntry? id).map ClassEntry.name =
      decls[id.index]?.map ClassDecl.name := by
  simpa [Function.comp_def] using congrArg (Option.map Prod.fst) (records id)

theorem Records.classCount_eq : hierarchy.registry.classCount = decls.length := by
  have sameRange : ∀ index, index < hierarchy.registry.classCount ↔ index < decls.length := by
    intro index
    have isKnown := congrArg Option.isSome (records ⟨index⟩)
    rw [Option.isSome_map, Option.isSome_map, Bool.eq_iff_iff] at isKnown
    simpa [Registry.classEntry?, Registry.classCount] using isKnown
  exact Nat.le_antisymm (Nat.le_of_not_lt fun less => Nat.lt_irrefl _ ((sameRange _).mp less))
    (Nat.le_of_not_lt fun less => Nat.lt_irrefl _ ((sameRange _).mpr less))

theorem Records.classNamed?_eq_some (wellFormed : hierarchy.registry.WellFormed) :
    hierarchy.registry.classNamed? name = some id ↔
      decls[id.index]?.map ClassDecl.name = some name := by
  rw [Registry.classNamed?_eq_some wellFormed, records.name_eq]

theorem Records.classNamed?_eq_none (wellFormed : hierarchy.registry.WellFormed) :
    hierarchy.registry.classNamed? name = none ↔ name ∉ decls.map ClassDecl.name := by
  rw [Option.eq_none_iff_forall_ne_some, List.mem_iff_getElem?]
  constructor
  · rintro noClass ⟨place, isThere⟩
    exact noClass ⟨place⟩ ((records.classNamed?_eq_some wellFormed).mpr (by simpa using isThere))
  · intro isUnknown id named
    exact isUnknown ⟨id.index, by simpa using (records.classNamed?_eq_some wellFormed).mp named⟩

end

/-- The first declarations are looked at. -/
structure Registered (hierarchy : Hierarchy) (front : List ClassDecl) : Prop extends
    hierarchy.Covers front.length where
  records : hierarchy.Records (registeredClasses front)
  noParents : ∀ id, hierarchy.registry.parent? id = none
  numbered : (front.zip hierarchy.classIds).filter (fun pair => pair.2.isSome) =
    (registeredClasses front).zipIdx.map fun pair => (pair.1, some ⟨pair.2⟩)
  duplicates : ∀ diagnostic ∈ hierarchy.diagnostics, ∃ name scope,
    diagnostic.cause = .duplicateDeclaration name scope
  silent_iff : hierarchy.diagnostics = [] ↔ (front.map ClassDecl.name).Nodup

theorem registered_addClass (registered : hierarchy.Registered front) (decl : ClassDecl) :
    (hierarchy.addClass decl).Registered (front ++ [decl]) := by
  have covers : (hierarchy.addClass decl).Covers (front ++ [decl]).length := by
    simpa using covers_addClass registered.toCovers decl
  have lengths : front.length = hierarchy.classIds.length := registered.length_eq.symm
  have wellFormed := registered.bare.consistent.toWellFormed
  have isTaken : hierarchy.registry.classNamed? decl.name = none ↔
      decl.name ∉ front.map ClassDecl.name := by
    rw [registered.records.classNamed?_eq_none wellFormed, mem_names_registeredClasses]
  have free : hierarchy.registry.scopes.declared? ScopeTree.global decl.name = none ↔
      decl.name ∉ front.map ClassDecl.name := by
    rw [← isTaken, Option.eq_none_iff_forall_ne_some, Option.eq_none_iff_forall_ne_some]
    simp only [ne_eq, Registry.classNamed?_eq_some wellFormed, wellFormed.global_iff]
    exact ⟨fun none id named => none _ ⟨id, rfl, named⟩,
      fun none symbol ⟨id, _, named⟩ => none id named⟩
  rw [addClass, Registry.registerClass_eq] at covers ⊢
  cases declaredEq : hierarchy.registry.scopes.declared? ScopeTree.global decl.name with
  | some existing =>
    have isOld : decl.name ∈ front.map ClassDecl.name := by
      by_contra isNew
      simp [free.mpr isNew] at declaredEq
    simp only [declaredEq] at covers ⊢
    refine ⟨covers, ?_, registered.noParents, ?_, ?_, ?_⟩
    · rw [registeredClasses_concat, if_pos isOld, List.append_nil]
      exact registered.records
    · simp [List.zip_append lengths, registered.numbered, registeredClasses_concat, isOld]
    · intro diagnostic isThere
      rcases List.mem_append.mp isThere with isEarlier | isLast
      · exact registered.duplicates diagnostic isEarlier
      · exact List.mem_singleton.mp isLast ▸ ⟨_, _, rfl⟩
    · simpa [List.nodup_append] using fun _ => by simpa using isOld
  | none =>
    have isNew := free.mp declaredEq
    simp only [declaredEq] at covers ⊢
    refine ⟨covers, ?_, ?_, ?_, registered.duplicates, ?_⟩
    · intro id
      have count := registered.records.classCount_eq
      rw [registeredClasses_concat, if_neg isNew, Registry.classEntry?_classAdded]
      split
      next same => simp [same, count, Registry.nextClass]
      next differs =>
        rw [registered.records id]
        have differs : id.index ≠ (registeredClasses front).length := fun same =>
          differs (congrArg ClassId.mk (same.trans count.symm))
        rcases Nat.lt_or_gt_of_ne differs with isEarlier | isLater
        · rw [List.getElem?_append_left isEarlier]
        · have outside : (registeredClasses front ++ [decl]).length ≤ id.index := by
            rwa [List.length_append, List.length_singleton]
          rw [List.getElem?_eq_none (Nat.le_of_lt isLater), List.getElem?_eq_none outside]
    · intro id
      have noParent := registered.noParents id
      rw [Registry.parent?, Registry.classEntry?_classAdded]
      split
      · rfl
      · exact noParent
    · simp [List.zip_append lengths, registered.numbered, registeredClasses_concat, isNew,
        List.zipIdx_append, registered.records.classCount_eq]
    · rw [registered.silent_iff, List.map_append, List.nodup_append]
      simpa using fun _ => by simpa using isNew

theorem registered_foldl (later : List ClassDecl) (registered : hierarchy.Registered front) :
    (later.foldl addClass hierarchy).Registered (front ++ later) := by
  induction later generalizing hierarchy front with
  | nil => simpa using registered
  | cons decl later ih => simpa using ih (registered_addClass registered decl)

theorem registered_all (classes : List ClassDecl) :
    (classes.foldl addClass {}).Registered classes := by
  have started : ({} : Hierarchy).Registered [] :=
    { bare := .empty
      length_eq := rfl
      covers := fun id known => absurd known (Nat.not_lt_zero _)
      records := fun id => by simp [Registry.classEntry?, Registry.empty, registeredClasses]
      noParents := fun id => by simp [Registry.parent?, Registry.classEntry?, Registry.empty]
      numbered := rfl
      duplicates := by simp
      silent_iff := by simp }
  simpa using registered_foldl classes started

/-! ## Links -/

/-- The first of the registered classes are linked to their parents. -/
structure Linked (classes : List ClassDecl) (start : List Diagnostic) (done : List ClassDecl)
    (hierarchy : Hierarchy) : Prop extends hierarchy.Covers classes.length where
  records : hierarchy.Records (registeredClasses classes)
  parent_iff : ∀ child parent, hierarchy.registry.parent? child = some parent ↔
    child.index < done.length ∧ ClassLink classes child parent
  complaints : ∃ unknown, hierarchy.diagnostics = start ++ unknown ∧
    (∀ diagnostic ∈ unknown, ∃ child parent, diagnostic.cause = .unknownParent child parent) ∧
    (unknown = [] ↔ ∀ decl ∈ done, ParentDeclared classes decl)

/-- A new link changes nothing but the parent of its class. -/
theorem parent?_linked {registry : Registry} {parent : ClassId}
    (known : id.index < registry.classCount) (other : ClassId) :
    Registry.parent? (registry.modifyClass id fun entry =>
      { entry with parent := some parent }) other =
        if id = other then some parent else registry.parent? other := by
  rw [Registry.parent?, Registry.classEntry?_modifyClass]
  split
  next same =>
    rcases Registry.exists_classEntry (same ▸ known) with ⟨entry, found⟩
    simp [found]
  next => rfl

theorem Records.linked (records : hierarchy.Records decls) (id : ClassId)
    (parent : Option ClassId) : Records
      { hierarchy with registry := hierarchy.registry.modifyClass id fun entry =>
        { entry with parent } } decls := by
  intro other
  rw [← records other, Registry.classEntry?_modifyClass]
  split
  · simp [Function.comp_def]
  · rfl

section

variable {start : List Diagnostic} {done rest : List ClassDecl} {decl : ClassDecl}

theorem classLink_iff (wellFormed : hierarchy.registry.WellFormed)
    (records : hierarchy.Records (registeredClasses classes))
    (orderEq : registeredClasses classes = done ++ decl :: rest) {parent : ClassId} :
    ClassLink classes ⟨done.length⟩ parent ↔
      decl.parent.bind (fun written => hierarchy.registry.classNamed? written.name) =
        some parent := by
  have isThere : (registeredClasses classes)[done.length]? = some decl := by simp [orderEq]
  simp only [ClassLink, isThere, Option.some.injEq, Option.bind_eq_some_iff,
    records.classNamed?_eq_some wellFormed]
  constructor
  · rintro ⟨_, written, rfl, isWritten, named⟩
    exact ⟨written, isWritten, named⟩
  · rintro ⟨written, isWritten, named⟩
    exact ⟨decl, written, rfl, isWritten, named⟩

theorem linked_linkDeclared (linked : Linked classes start done hierarchy)
    (orderEq : registeredClasses classes = done ++ decl :: rest) :
    Linked classes start (done ++ [decl]) (hierarchy.linkDeclared (decl, some ⟨done.length⟩)) := by
  have covers := covers_linkDeclared linked.toCovers (decl, some ⟨done.length⟩)
  have wellFormed := linked.bare.consistent.toWellFormed
  have isLink : ∀ parent, ClassLink classes ⟨done.length⟩ parent ↔ _ :=
    fun _ => classLink_iff wellFormed linked.records orderEq
  have known : done.length < hierarchy.registry.classCount := by
    rw [linked.records.classCount_eq, orderEq]
    simp
  have inDone : ∀ child : ClassId, child.index < (done ++ [decl]).length ↔
      child.index < done.length ∨ ⟨done.length⟩ = child := by
    rintro ⟨child⟩
    simp only [List.length_append, List.length_singleton, ClassId.mk.injEq]
    omega
  have allDeclared : (∀ other ∈ done ++ [decl], ParentDeclared classes other) ↔
      (∀ other ∈ done, ParentDeclared classes other) ∧ ParentDeclared classes decl := by
    simp [or_imp, forall_and]
  -- Without a link, the class is linked as it was before, namely to none.
  have unlinked : (∀ parent, ¬ ClassLink classes ⟨done.length⟩ parent) → ∀ child parent,
      hierarchy.registry.parent? child = some parent ↔
        child.index < (done ++ [decl]).length ∧ ClassLink classes child parent := by
    intro noLink child parent
    rw [linked.parent_iff, inDone]
    refine and_congr_left fun isLink => (or_iff_left ?_).symm
    rintro rfl
    exact noLink parent isLink
  rcases linked.complaints with ⟨unknown, diagnosticsEq, onlyUnknown, silent⟩
  simp only [linkDeclared, linkParent] at covers ⊢
  cases parentEq : decl.parent with
  | none =>
    refine ⟨linked.toCovers, linked.records, unlinked fun parent => ?_, unknown, diagnosticsEq,
      onlyUnknown, ?_⟩
    · simp [isLink, parentEq]
    · rw [silent, allDeclared, and_iff_left (by simp [ParentDeclared, parentEq])]
  | some written =>
    simp only [parentEq] at covers ⊢
    cases named : hierarchy.registry.classNamed? written.name with
    | some above =>
      simp only [named] at covers ⊢
      refine ⟨covers, linked.records.linked _ _, fun child parent => ?_, unknown,
        diagnosticsEq, onlyUnknown, ?_⟩
      · rw [parent?_linked known, inDone]
        split
        next same => simp [← same, isLink, parentEq, named]
        next differs => rw [linked.parent_iff, or_iff_left differs]
      · have isDeclared : written.name ∈ classes.map ClassDecl.name := by
          by_contra isUnknown
          rw [← mem_names_registeredClasses, ← linked.records.classNamed?_eq_none wellFormed, named]
            at isUnknown
          cases isUnknown
        rw [silent, allDeclared,
          and_iff_left (by simpa [ParentDeclared, parentEq] using isDeclared)]
    | none =>
      simp only [named] at covers ⊢
      refine ⟨covers, linked.records, unlinked fun parent => ?_,
        unknown ++ [⟨written.position, .unknownParent decl.name written.name⟩], ?_, ?_, ?_⟩
      · simp [isLink, parentEq, named]
      · rw [diagnosticsEq, List.append_assoc]
      · intro diagnostic isThere
        rcases List.mem_append.mp isThere with isEarlier | isLast
        · exact onlyUnknown diagnostic isEarlier
        · exact List.mem_singleton.mp isLast ▸ ⟨_, _, rfl⟩
      · have isUnknown : written.name ∉ classes.map ClassDecl.name := by
          rw [← mem_names_registeredClasses, ← linked.records.classNamed?_eq_none wellFormed, named]
        refine iff_of_false (by simp) fun declared => isUnknown ?_
        exact (allDeclared.mp declared).2 written parentEq

theorem linked_foldl (linked : Linked classes start done hierarchy)
    (orderEq : registeredClasses classes = done ++ rest) :
    Linked classes start (registeredClasses classes)
      (((rest.zipIdx done.length).map fun pair => (pair.1, some ⟨pair.2⟩)).foldl
        linkDeclared hierarchy) := by
  induction rest generalizing hierarchy done with
  | nil => simpa [orderEq] using linked
  | cons decl rest ih =>
    have more := ih (linked_linkDeclared linked orderEq) (by simp [orderEq])
    simpa using more

end

/-- Links are only made for registered classes. -/
theorem foldl_linkDeclared_filter (pairs : List (ClassDecl × Option ClassId)) :
    pairs.foldl linkDeclared hierarchy = (pairs.filter fun pair => pair.2.isSome).foldl
      linkDeclared hierarchy := by
  rw [List.foldl_filter]
  congr 1
  funext hierarchy ⟨decl, id⟩
  cases id <;> rfl

theorem linked_all (classes : List ClassDecl) :
    Linked classes (classes.foldl addClass {}).diagnostics (registeredClasses classes)
      ((classes.zip (classes.foldl addClass {}).classIds).foldl linkDeclared
        (classes.foldl addClass {})) := by
  have registered := registered_all classes
  generalize classes.foldl addClass {} = hierarchy at registered ⊢
  rw [foldl_linkDeclared_filter, registered.numbered]
  have started : Linked classes hierarchy.diagnostics [] hierarchy :=
    { toCovers := registered.toCovers
      records := registered.records
      parent_iff := by simp [registered.noParents]
      complaints := ⟨[], by simp, by simp, by simp⟩ }
  exact linked_foldl started rfl

end Hierarchy

/-!
## Hierarchies without faults

The registered classes form a forest, whatever the declarations look like: a class on a cycle has no
parent, and any other class has the parent that its declaration names. Every cycle is reported once.
There is nothing to report exactly if the names differ, the named parents are declared, and no class
is above itself.
-/

/-- One class name stands behind another one's `extends`. -/
def NamesParent (classes : List ClassDecl) (child parent : String) : Prop :=
  ∃ decl ∈ classes, decl.name = child ∧ ∃ written,
    decl.parent = some written ∧ written.name = parent

/-- Declarations that make up a class hierarchy. -/
structure WellDeclared (classes : List ClassDecl) : Prop where
  names_differ : (classes.map ClassDecl.name).Nodup
  parents_declared : ∀ decl ∈ classes, ParentDeclared classes decl
  acyclic : ∀ name, ¬ Relation.TransGen (NamesParent classes) name name

/-- The name of a registered class. -/
def declaredName (classes : List ClassDecl) (id : ClassId) : String :=
  (((registeredClasses classes)[id.index]?).map ClassDecl.name).getD ""

/-- A complaint about a cycle stands at its class of lowest number and follows the links from there
and back. -/
def ReportsCycle (classes : List ClassDecl) (cycle : List ClassId) (diagnostic : Diagnostic) :
    Prop :=
  ∃ first ∈ cycle, (∀ id ∈ cycle, first.index ≤ id.index) ∧
    ((registeredClasses classes)[first.index]?).map ClassDecl.position = some diagnostic.position ∧
    ∃ round, List.IsChain (ClassLink classes) (first :: round ++ [first]) ∧ first ∉ round ∧
      diagnostic.cause = .circularInheritance
        (" -> ".intercalate ((first :: round ++ [first]).map (declaredName classes)))

/-- Whether it is a cycle that is complained about. -/
def Cause.isCircular : Cause → Bool
  | .circularInheritance _ => true
  | _ => false

/-- The hierarchy that the declarations of a program describe, taken apart where it is circular. -/
structure Hierarchy.Sound (hierarchy : Hierarchy) (classes : List ClassDecl) : Prop where
  records : hierarchy.Records (registeredClasses classes)
  acyclic : hierarchy.registry.Acyclic
  order_perm : hierarchy.order.Perm ((List.range (registeredClasses classes).length).map ClassId.mk)
  parent_first : ∀ {front rest owner parent}, hierarchy.order = front ++ owner :: rest →
    hierarchy.registry.parent? owner = some parent → parent ∈ front
  parent_iff : ∀ {child parent}, hierarchy.registry.parent? child = some parent ↔
    ClassLink classes child parent ∧ ¬ Relation.TransGen (ClassLink classes) child child
  cycles_reported : ∃ cycles,
    ListsCycles (ClassLink classes) cycles ∧ List.Forall₂ (ReportsCycle classes) cycles
    (hierarchy.diagnostics.filter fun diagnostic => diagnostic.cause.isCircular)
  silent_iff : hierarchy.diagnostics = [] ↔ WellDeclared classes

variable {classes : List ClassDecl}

/-! ## Cycles of names -/

/-- If the names differ, a class is above itself exactly if its name is. -/
theorem acyclic_links_iff (nodup : (classes.map ClassDecl.name).Nodup)
    (declared : ∀ decl ∈ classes, ParentDeclared classes decl) :
    (∀ id, ¬ Relation.TransGen (ClassLink classes) id id) ↔
      ∀ name, ¬ Relation.TransGen (NamesParent classes) name name := by
  have sameClasses := registeredClasses_of_nodup nodup
  constructor
  · intro acyclic name cyclic
    let numbered (name : String) : ClassId := ⟨(classes.map ClassDecl.name).idxOf name⟩
    refine acyclic _ (Relation.TransGen.lift numbered ?_ _ _ cyclic)
    rintro _ _ ⟨decl, isThere, rfl, written, isWritten, rfl⟩
    rcases List.getElem_of_mem isThere with ⟨place, placeLt, rfl⟩
    have isPlace : (classes.map ClassDecl.name).idxOf classes[place].name = place := by
      have inNames : place < (classes.map ClassDecl.name).length := by simpa using placeLt
      simpa using nodup.idxOf_getElem place inNames
    refine ⟨classes[place], written, ?_, isWritten, ?_⟩
    · simp [sameClasses, numbered, isPlace]
    · have isKnown := List.getElem?_idxOf (declared _ isThere written isWritten)
      rw [sameClasses, ← List.getElem?_map, isKnown]
  · intro acyclic id cyclic
    refine acyclic _ (Relation.TransGen.lift (declaredName classes) ?_ _ _ cyclic)
    rintro child parent ⟨decl, written, isThere, isWritten, named⟩
    refine ⟨decl, registeredClasses_sublist.subset (List.mem_of_getElem? isThere), ?_,
      written, isWritten, ?_⟩
    · simp [declaredName, isThere]
    · simp [declaredName, named]

theorem forall₂_filterMap {Item Found : Type} {relation : Item → Found → Prop}
    {find : Item → Option Found} {items : List Item}
    (each : ∀ item ∈ items, ∃ found, find item = some found ∧ relation item found) :
    List.Forall₂ relation items (items.filterMap find) := by
  induction items with
  | nil => exact .nil
  | cons item items ih =>
    rcases each item (by simp) with ⟨found, findEq, related⟩
    rw [List.filterMap_cons_some findEq]
    exact .cons related (ih fun other isOther => each other (by simp [isOther]))

namespace Hierarchy

variable {hierarchy : Hierarchy} {start : List Diagnostic}
variable {child parent : ClassId} {cycles : List (List ClassId)}
  {circular unknown : List Diagnostic}

section

variable (linked : Linked classes start (registeredClasses classes) hierarchy)
include linked

theorem Linked.parent_iff_all :
    hierarchy.registry.parent? child = some parent ↔ ClassLink classes child parent := by
  rw [linked.parent_iff, and_iff_right_iff_imp]
  rintro ⟨decl, _, isThere, _⟩
  exact (List.getElem?_eq_some_iff.mp isThere).1

theorem Linked.extends_eq : (inheritance hierarchy.registry).Extends = ClassLink classes := by
  funext child parent
  rw [Registry.extends_inheritance, linked.parent_iff_all]

theorem Linked.reportsCycle
    {cycle : List ClassId} (isCycle : cycle ∈ (inheritance hierarchy.registry).cycles) :
    ∃ diagnostic, cycleDiagnostic? hierarchy.registry cycle = some diagnostic ∧
      ReportsCycle classes cycle diagnostic := by
  rcases Inheritance.mem_cycles.mp isCycle with ⟨first, cyclic, isLowest, rfl⟩
  have known := Inheritance.index_lt_of_cyclic cyclic
  rw [Registry.size_inheritance] at known
  rcases Registry.exists_classEntry known with ⟨entry, found⟩
  have position : ((registeredClasses classes)[first.index]?).map ClassDecl.position =
      some entry.position := by
    have sameRecord := congrArg (Option.map Prod.snd) (linked.records first)
    simpa [Function.comp_def, found, eq_comm] using sameRecord
  have names : hierarchy.registry.className = declaredName classes := by
    funext id
    rw [Registry.className, declaredName, linked.records.name_eq]
  have isChain := Inheritance.isChain_walkRound cyclic
  rw [linked.extends_eq] at isChain
  refine ⟨⟨entry.position, .circularInheritance (cycleText hierarchy.registry first)⟩, ?_, first,
    (Inheritance.mem_cycleOf cyclic).mpr cyclic, ?_, position, _, isChain, ?_, ?_⟩
  · simp [cycleDiagnostic?, Inheritance.head?_cycleOf cyclic isLowest, found]
  · exact fun id isThere => isLowest id ((Inheritance.mem_cycleOf cyclic).mp isThere)
  · exact fun isBehind => by simpa using List.all_eq_true.mp List.all_takeWhile _ isBehind
  · rw [cycleText, names]
    rfl

end

theorem Records.foldl_unlink {decls : List ClassDecl} (records : hierarchy.Records decls)
    (ids : List ClassId) :
    Records { hierarchy with registry := ids.foldl unlink hierarchy.registry } decls := by
  induction ids generalizing hierarchy with
  | nil => exact records
  | cons id ids ih => exact ih (records.linked id none)

/-- Links that lead round are taken away, the others stay. -/
theorem Linked.parent?_breakCycles
    (linked : Linked classes start (registeredClasses classes) hierarchy) :
    hierarchy.breakCycles.registry.parent? child = some parent ↔
      ClassLink classes child parent ∧ ¬ Relation.TransGen (ClassLink classes) child child := by
  have onCycle : child ∈ (inheritance hierarchy.registry).cycles.flatten ↔
      Relation.TransGen (ClassLink classes) child child := by
    rw [Inheritance.mem_flatten_cycles, Inheritance.IsAbove, linked.extends_eq]
  rw [breakCycles, parent?_foldl_unlink]
  split
  next cyclic => simp [onCycle.mp cyclic]
  next acyclic => simp [mt onCycle.mpr acyclic, linked.parent_iff_all]

/-- The complaints about declarations come in three groups. -/
theorem silent_iff_wellDeclared (lists : ListsCycles (ClassLink classes) cycles)
    (reported : List.Forall₂ (ReportsCycle classes) cycles circular)
    (registered : start = [] ↔ (classes.map ClassDecl.name).Nodup)
    (unknownFree : unknown = [] ↔ ∀ decl ∈ registeredClasses classes, ParentDeclared classes decl) :
    start ++ unknown ++ circular = [] ↔ WellDeclared classes := by
  have acyclicFree : circular = [] ↔ ∀ id, ¬ Relation.TransGen (ClassLink classes) id id := by
    rw [← lists.nil_iff, ← List.length_eq_zero_iff, ← reported.length_eq, List.length_eq_zero_iff]
  rw [List.append_eq_nil_iff, List.append_eq_nil_iff, registered, unknownFree, acyclicFree]
  constructor
  · rintro ⟨⟨nodup, declared⟩, acyclic⟩
    rw [registeredClasses_of_nodup nodup] at declared
    exact ⟨nodup, declared, (acyclic_links_iff nodup declared).mp acyclic⟩
  · rintro ⟨nodup, declared, acyclic⟩
    rw [registeredClasses_of_nodup nodup]
    exact ⟨⟨nodup, declared⟩, (acyclic_links_iff nodup declared).mpr acyclic⟩

theorem filter_circular (reported : List.Forall₂ (ReportsCycle classes) cycles circular)
    (duplicates : ∀ diagnostic ∈ start, ∃ name scope,
      diagnostic.cause = .duplicateDeclaration name scope)
    (onlyUnknown : ∀ diagnostic ∈ unknown, ∃ child parent,
      diagnostic.cause = .unknownParent child parent) :
    (start ++ unknown ++ circular).filter (fun diagnostic => diagnostic.cause.isCircular) =
      circular := by
  have noDuplicates : start.filter (fun diagnostic => diagnostic.cause.isCircular) = [] := by
    refine List.filter_eq_nil_iff.mpr fun diagnostic isThere => ?_
    rcases duplicates diagnostic isThere with ⟨_, _, causeEq⟩
    simp [causeEq, Cause.isCircular]
  have noUnknown : unknown.filter (fun diagnostic => diagnostic.cause.isCircular) = [] := by
    refine List.filter_eq_nil_iff.mpr fun diagnostic isThere => ?_
    rcases onlyUnknown diagnostic isThere with ⟨_, _, causeEq⟩
    simp [causeEq, Cause.isCircular]
  have allCircular : circular.filter (fun diagnostic => diagnostic.cause.isCircular) =
      circular := by
    induction reported with
    | nil => rfl
    | cons reports _ ih =>
      rcases reports with ⟨_, _, _, _, _, _, _, causeEq⟩
      simpa [causeEq, Cause.isCircular] using ih
  rw [List.filter_append, List.filter_append, noDuplicates, noUnknown, allCircular, List.nil_append,
    List.nil_append]

/-- Everything that the registration of classes does before it takes cycles apart. -/
def linkAll (classes : List ClassDecl) : Hierarchy :=
  (classes.zip (classes.foldl addClass {}).classIds).foldl linkDeclared (classes.foldl addClass {})

theorem records_ofClasses (classes : List ClassDecl) :
    (ofClasses classes).Records (registeredClasses classes) :=
  (linked_all classes).records.foldl_unlink _

theorem parent?_ofClasses : (ofClasses classes).registry.parent? child = some parent ↔
    ClassLink classes child parent ∧ ¬ Relation.TransGen (ClassLink classes) child child :=
  (linked_all classes).parent?_breakCycles

/-- The complaints about classes come from one cycle each, or are about names. -/
theorem diagnostics_ofClasses (classes : List ClassDecl) :
    ∃ cycles, ListsCycles (ClassLink classes) cycles ∧
      List.Forall₂ (ReportsCycle classes) cycles
        ((ofClasses classes).diagnostics.filter fun diagnostic => diagnostic.cause.isCircular) ∧
      ((ofClasses classes).diagnostics = [] ↔ WellDeclared classes) := by
  have registered := registered_all classes
  have linked := linked_all classes
  change Linked classes _ _ (linkAll classes) at linked
  have lists := (inheritance (linkAll classes).registry).listsCycles_cycles
  rw [linked.extends_eq] at lists
  have reported := forall₂_filterMap fun cycle isCycle => linked.reportsCycle isCycle
  rcases linked.complaints with ⟨unknown, diagnosticsEq, onlyUnknown, unknownFree⟩
  have diagnosticsAll : (ofClasses classes).diagnostics = (classes.foldl addClass {}).diagnostics ++
      unknown ++
      (inheritance (linkAll classes).registry).cycles.filterMap
      (cycleDiagnostic? (linkAll classes).registry) := by
    rw [← diagnosticsEq]
    rfl
  rw [diagnosticsAll, filter_circular reported registered.duplicates onlyUnknown]
  exact ⟨_, lists, reported,
    silent_iff_wellDeclared lists reported registered.silent_iff unknownFree⟩

theorem silent_ofClasses (classes : List ClassDecl) :
    (ofClasses classes).diagnostics = [] ↔ WellDeclared classes := by
  rcases diagnostics_ofClasses classes with ⟨_, _, _, silent⟩
  exact silent

/-- The hierarchy of any declarations is sound. -/
theorem sound_ofClasses (classes : List ClassDecl) : (ofClasses classes).Sound classes := by
  have settled := settled_ofClasses classes
  have records := records_ofClasses classes
  rcases diagnostics_ofClasses classes with ⟨cycles, lists, reported, silent⟩
  refine ⟨records, settled.acyclic, ?_, fun orderEq => (settled.turn orderEq).parent_done,
    parent?_ofClasses, ⟨cycles, lists, reported⟩, silent⟩
  rw [← records.classCount_eq, ← Registry.size_inheritance]
  exact settled.perm

end Hierarchy

end Decaf
