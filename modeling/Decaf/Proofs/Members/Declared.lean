import Mathlib.Data.List.Flatten
import Mathlib.Data.List.Perm.Subperm
import Decaf.Proofs.Members.Records
import Decaf.Proofs.Tree.Decode
import Decaf.Proofs.Members.Dispatch

/-!
# Registered and declared methods

Each registered method has a declaration of its own in the program, so the bodies of registered
methods share no nodes.
-/

namespace Decaf

namespace Members

variable {index : Nat} {classes : List ClassDecl} {hierarchy : Hierarchy} {Item Node : Type}

/-- The bodies of all declared methods, class by class. -/
def allSources (classes : List ClassDecl) : List MethodSource :=
  classes.zipIdx.flatMap fun (decl, index) => sourcesOf index decl

theorem mem_sourcesOf {decl : ClassDecl} {source : MethodSource} :
    source ∈ sourcesOf index decl ↔
      source.classIndex = index ∧ decl.methods[source.methodIndex]? = some source.decl := by
  rcases source with ⟨classIndex, methodIndex, method⟩
  simp only [sourcesOf, List.mem_map, MethodSource.mk.injEq, Prod.exists,
    List.mem_zipIdx_iff_getElem?]
  constructor
  · rintro ⟨written, place, found, rfl, rfl, rfl⟩
    exact ⟨rfl, found⟩
  · rintro ⟨rfl, found⟩
    exact ⟨method, methodIndex, found, rfl, rfl, rfl⟩

theorem mem_allSources {source : MethodSource} :
    source ∈ allSources classes ↔ ∃ decl, classes[source.classIndex]? = some decl ∧
      decl.methods[source.methodIndex]? = some source.decl := by
  simp only [allSources, List.mem_flatMap, Prod.exists, List.mem_zipIdx_iff_getElem?, mem_sourcesOf]
  constructor
  · rintro ⟨decl, index, found, rfl, methodFound⟩
    exact ⟨decl, found, methodFound⟩
  · rintro ⟨decl, found, methodFound⟩
    exact ⟨decl, _, found, rfl, methodFound⟩

theorem nodup_sourcesOf (index : Nat) (decl : ClassDecl) : (sourcesOf index decl).Nodup := by
  refine List.Nodup.of_map MethodSource.methodIndex ?_
  have places : (sourcesOf index decl).map MethodSource.methodIndex =
      List.range' 0 decl.methods.length := by
    simp [sourcesOf, Function.comp_def, ← List.zipIdx_map_snd]
  rw [places]
  exact List.nodup_range'

theorem mem_declaredSources {id : ClassId}
    {source : MethodSource} (isDeclared : source ∈ declaredSources classes hierarchy id) :
    hierarchy.declarationOf? id = some source.classIndex ∧ source ∈ allSources classes := by
  unfold declaredSources at isDeclared
  split at isDeclared
  · cases isDeclared
  next index indexEq =>
    cases declEq : classes[index]? with
    | none => simp [declEq] at isDeclared
    | some decl =>
      simp only [declEq, Option.map_some, Option.getD_some, mem_sourcesOf] at isDeclared
      rcases isDeclared with ⟨rfl, methodFound⟩
      exact ⟨indexEq, mem_allSources.mpr ⟨decl, declEq, methodFound⟩⟩

theorem declarationOf?_inj {first second : ClassId}
    (firstEq : hierarchy.declarationOf? first = some index)
    (secondEq : hierarchy.declarationOf? second = some index) : first = second := by
  rcases List.idxOf?_eq_some_iff.mp firstEq with ⟨_, firstAt, _⟩
  rcases List.idxOf?_eq_some_iff.mp secondEq with ⟨_, secondAt, _⟩
  simp_all

theorem nodup_declaredSources (classes : List ClassDecl) (hierarchy : Hierarchy)
    {order : List ClassId} (nodup : order.Nodup) :
    (order.flatMap (declaredSources classes hierarchy)).Nodup := by
  refine List.nodup_flatMap.mpr ⟨?_, ?_⟩
  · intro id _
    unfold declaredSources
    split
    · exact List.nodup_nil
    next index _ => cases classes[index]? <;> simp [nodup_sourcesOf]
  · refine nodup.imp fun {first second} differs source inFirst inSecond => ?_
    exact differs (declarationOf?_inj (mem_declaredSources inFirst).1
      (mem_declaredSources inSecond).1)

theorem sources_subperm (classes : List ClassDecl) :
    (ofHierarchy classes (Hierarchy.ofClasses classes)).sources.toList.Subperm
      (allSources classes) := by
  rcases recorded_ofHierarchy classes with ⟨_, _, _, isSublist⟩
  have nodup := (Hierarchy.settled_ofClasses classes).arranged.nodup
  refine isSublist.subperm.trans (List.subperm_of_subset (nodup_declaredSources classes _ nodup) ?_)
  intro source isDeclared
  rcases List.mem_flatMap.mp isDeclared with ⟨id, _, inClass⟩
  exact (mem_declaredSources inClass).2

theorem subperm_flatMap {items others : List Item} (subperm : items.Subperm others)
    (nodes : Item → List Node) : (items.flatMap nodes).Subperm (others.flatMap nodes) := by
  rcases subperm with ⟨middle, perm, isSublist⟩
  exact ⟨middle.flatMap nodes, perm.flatMap_right nodes, isSublist.flatMap nodes⟩

theorem flatMap_zipIdx (items : List Item) (nodes : Item → List Node) (first : Nat) :
    ((items.zipIdx first).flatMap fun pair => nodes pair.1) = items.flatMap nodes := by
  rw [← List.flatMap_map Prod.fst nodes, List.zipIdx_map_fst]

theorem flatMap_allSources (classes : List ClassDecl) (nodes : MethodDecl → List Node) :
    ((allSources classes).flatMap fun source => nodes source.decl) =
      classes.flatMap fun decl => decl.methods.flatMap nodes := by
  simp only [allSources, List.flatMap_assoc, sourcesOf, List.flatMap_map]
  simp only [flatMap_zipIdx]
  exact flatMap_zipIdx classes (fun decl => decl.methods.flatMap nodes) 0

end Members

namespace Program

variable {program : Program}

/-- The bodies of registered methods have different nodes, and all are on record. -/
structure Bodies (program : Program) (sources : List MethodSource) : Prop where
  expr_known : ∀ source ∈ sources, source.decl.body.exprNodes ⊆ program.exprNodes
  expr_ids : ((sources.flatMap fun source => source.decl.body.exprNodes).map Expr.id).Nodup
  stmt_known : ∀ source ∈ sources, source.decl.body.nodes ⊆ program.stmtNodes
  stmt_ids : ((sources.flatMap fun source => source.decl.body.nodes).map Stmt.id).Nodup

theorem nodup_ids {Node Id : Type} {id : Node → Id} {nodes part : List Node}
    (distinct : (nodes.map id).Nodup) (subperm : part.Subperm nodes) : (part.map id).Nodup := by
  rcases subperm with ⟨middle, perm, isSublist⟩
  exact (perm.map id).nodup_iff.mp ((isSublist.map id).nodup distinct)

theorem exprs_subperm (program : Program) :
    ((Members.ofHierarchy program.classes
      (Hierarchy.ofClasses program.classes)).sources.toList.flatMap
      fun source => source.decl.body.exprNodes).Subperm program.exprNodes := by
  have subperm := Members.subperm_flatMap (Members.sources_subperm program.classes) fun source =>
    source.decl.body.exprNodes
  rwa [Members.flatMap_allSources program.classes fun method => method.body.exprNodes] at subperm

theorem stmts_subperm (program : Program) :
    ((Members.ofHierarchy program.classes
      (Hierarchy.ofClasses program.classes)).sources.toList.flatMap
      fun source => source.decl.body.nodes).Subperm program.stmtNodes := by
  have subperm := Members.subperm_flatMap (Members.sources_subperm program.classes) fun source =>
    source.decl.body.nodes
  rwa [Members.flatMap_allSources program.classes fun method => method.body.nodes] at subperm

theorem IsForest.bodies (isForest : program.IsForest) :
    program.Bodies
      (Members.ofHierarchy program.classes
        (Hierarchy.ofClasses program.classes)).sources.toList where
  expr_known source isSource _ isNode :=
    program.exprs_subperm.subset (List.mem_flatMap.mpr ⟨source, isSource, isNode⟩)
  expr_ids := nodup_ids isForest.expr_ids program.exprs_subperm
  stmt_known source isSource _ isNode :=
    program.stmts_subperm.subset (List.mem_flatMap.mpr ⟨source, isSource, isNode⟩)
  stmt_ids := nodup_ids isForest.stmt_ids program.stmts_subperm

end Program

/-!
## Registration is complete

In a program whose declarations have no faults, nothing that is declared is dropped: every class has
a number, and every method stands on record with its declaration.
-/

namespace Hierarchy

variable {hierarchy : Hierarchy}

/-! ## Classes -/

theorem addClass_grows (hierarchy : Hierarchy) (decl : ClassDecl) :
    hierarchy.diagnostics <+: (hierarchy.addClass decl).diagnostics := by
  unfold addClass
  split
  · exact List.prefix_rfl
  · exact List.prefix_append _ _

theorem linkDeclared_grows (hierarchy : Hierarchy) (pair : ClassDecl × Option ClassId) :
    hierarchy.diagnostics <+: (hierarchy.linkDeclared pair).diagnostics := by
  unfold linkDeclared linkParent
  split
  · split
    · exact List.prefix_rfl
    · split
      · exact List.prefix_rfl
      · exact List.prefix_append _ _
  · exact List.prefix_rfl

theorem foldl_grows {Item : Type} {step : Hierarchy → Item → Hierarchy}
    (grows : ∀ hierarchy item, hierarchy.diagnostics <+: (step hierarchy item).diagnostics)
    (items : List Item) (start : Hierarchy) :
    start.diagnostics <+: (items.foldl step start).diagnostics := by
  induction items generalizing start with
  | nil => exact List.prefix_rfl
  | cons item items ih => exact (grows start item).trans (ih _)

/-- The declared classes have the numbers of all classes, in their order. -/
def AllNumbered (hierarchy : Hierarchy) : Prop :=
  hierarchy.classIds = (List.range hierarchy.registry.classCount).map fun index => some ⟨index⟩

theorem allNumbered_addClass (allNumbered : hierarchy.AllNumbered) {decl : ClassDecl}
    (errorFree : (hierarchy.addClass decl).diagnostics = []) :
    (hierarchy.addClass decl).AllNumbered := by
  rw [addClass, Registry.registerClass_eq] at errorFree ⊢
  cases declaredEq : hierarchy.registry.scopes.declared? ScopeTree.global decl.name with
  | some existing => simp [declaredEq] at errorFree
  | none =>
    have count : (hierarchy.registry.classAdded
        (hierarchy.registry.nextClass decl.name (decl.parent.map ParentName.name)
          decl.position)).classCount = hierarchy.registry.classCount + 1 := by
      simp [Registry.classAdded, Registry.classCount]
    simp only [AllNumbered, count, List.range_succ, List.map_append, List.map_cons, List.map_nil]
    exact congrArg (· ++ _) allNumbered

theorem allNumbered_foldl_addClass (classes : List ClassDecl) (allNumbered : hierarchy.AllNumbered)
    (errorFree : (classes.foldl addClass hierarchy).diagnostics = []) :
    (classes.foldl addClass hierarchy).AllNumbered := by
  induction classes generalizing hierarchy with
  | nil => exact allNumbered
  | cons decl classes ih =>
    have grows := foldl_grows addClass_grows classes (hierarchy.addClass decl)
    have firstFree := List.prefix_nil.mp (errorFree ▸ grows)
    exact ih (allNumbered_addClass allNumbered firstFree) errorFree

theorem classIds_linkDeclared (hierarchy : Hierarchy) (pair : ClassDecl × Option ClassId) :
    (hierarchy.linkDeclared pair).classIds = hierarchy.classIds ∧
      (hierarchy.linkDeclared pair).registry.classCount = hierarchy.registry.classCount := by
  unfold linkDeclared linkParent
  split
  · split
    · exact ⟨rfl, rfl⟩
    · split
      · exact ⟨rfl, Registry.classCount_modifyClass _ _⟩
      · exact ⟨rfl, rfl⟩
  · exact ⟨rfl, rfl⟩

theorem allNumbered_foldl_linkDeclared (pairs : List (ClassDecl × Option ClassId))
    (allNumbered : hierarchy.AllNumbered) : (pairs.foldl linkDeclared hierarchy).AllNumbered := by
  induction pairs generalizing hierarchy with
  | nil => exact allNumbered
  | cons pair pairs ih =>
    refine ih ?_
    rw [AllNumbered, (classIds_linkDeclared hierarchy pair).1,
      (classIds_linkDeclared hierarchy pair).2]
    exact allNumbered

theorem classCount_foldl_unlink (ids : List ClassId) (registry : Registry) :
    (ids.foldl unlink registry).classCount = registry.classCount := by
  induction ids generalizing registry with
  | nil => rfl
  | cons id ids ih => exact (ih _).trans (Registry.classCount_modifyClass _ _)

/-- A class has the number of its declaration. -/
theorem AllNumbered.declarationOf?_eq (allNumbered : hierarchy.AllNumbered) {id : ClassId}
    (known : id.index < hierarchy.registry.classCount) :
    hierarchy.declarationOf? id = some id.index := by
  rw [declarationOf?, allNumbered, List.idxOf?_eq_some_iff]
  refine ⟨by simpa using known, by simp, ?_⟩
  intro earlier isEarlier
  simp only [List.getElem_map, List.getElem_range, Option.some.injEq]
  rintro rfl
  exact Nat.lt_irrefl _ isEarlier

/-- Without faults, every declared class is registered. -/
theorem allNumbered_ofClasses {classes : List ClassDecl}
    (errorFree : (ofClasses classes).diagnostics = []) : (ofClasses classes).AllNumbered := by
  have linkedFree := (List.append_eq_nil_iff.mp errorFree).1
  have grows := foldl_grows linkDeclared_grows (classes.zip (classes.foldl addClass {}).classIds)
    (classes.foldl addClass {})
  have registeredFree := List.prefix_nil.mp (linkedFree ▸ grows)
  have registered := @allNumbered_foldl_addClass {} classes rfl registeredFree
  have linked :=
    allNumbered_foldl_linkDeclared (classes.zip (classes.foldl addClass {}).classIds) registered
  refine linked.trans ?_
  simp only [ofClasses, arrange, breakCycles, classCount_foldl_unlink]

end Hierarchy

namespace Members

open Registry (ChangesOnly)

variable {classes : List ClassDecl} {hierarchy : Hierarchy} {members : Members} {owner : ClassId}
  {base : Registry}
variable {front rest : List ClassId}

/-! ## Methods -/

theorem sources_typeOr (members : Members) (placeholder : DataType) (written : TypeName)
    (position : Position) :
    (members.typeOr placeholder written position).2.sources = members.sources := by
  unfold typeOr
  split <;> rfl

theorem sources_addField (owner : ClassId) (members : Members) (decl : FieldDecl) :
    (addField owner members decl).sources = members.sources := by
  unfold addField
  split
  · rfl
  · dsimp only
    split <;> exact sources_typeOr members _ _ _

theorem sources_addParameter (method : MethodId) (scope : ScopeId) (members : Members)
    (declared : (VariableDecl × DataType) × Nat) :
    (addParameter method scope members declared).sources = members.sources := by
  unfold addParameter
  dsimp only
  split <;> rfl

/-- Steps that put no method on record. -/
theorem sources_foldl {Item : Type} {step : Members → Item → Members}
    (same : ∀ members item, (step members item).sources = members.sources) (items : List Item)
    (members : Members) : (items.foldl step members).sources = members.sources := by
  induction items generalizing members with
  | nil => rfl
  | cons item items ih => exact (ih _).trans (same members item)

theorem sources_addMethod (known : owner.index < base.classCount) {source : MethodSource}
    (building : Building base owner members.registry)
    (errorFree : (addMethod owner members source).diagnostics = []) :
    (addMethod owner members source).sources = members.sources.push source := by
  rcases addMethod_of_errorFree building.consistent.toWellFormed errorFree with
    ⟨signature, replaced, entered, owned, -, fresh, -⟩
  rcases building.exists_owner known with ⟨found, ownerFound⟩
  rw [← owned] at ownerFound fresh
  rw [entered, enterMethod_eq ownerFound fresh]
  exact sources_foldl (sources_addParameter _ _) _ _

theorem sources_foldl_addMethod (acyclic : base.Acyclic) (known : owner.index < base.classCount)
    (sources : List MethodSource) (building : Building base owner members.registry)
    (errorFree : (sources.foldl (addMethod owner) members).diagnostics = []) :
    (sources.foldl (addMethod owner) members).sources.toList = members.sources.toList ++
      sources := by
  induction sources generalizing members with
  | nil => exact (List.append_nil _).symm
  | cons source sources ih =>
    have firstFree := errorFree_of_grows (foldl_grows (addMethod_grows owner) sources _) errorFree
    rw [List.foldl_cons, ih (building_addMethod acyclic known building firstFree) errorFree,
      sources_addMethod known building firstFree]
    simp

/-- A class whose members are declared without faults has all its methods on record. -/
theorem sources_addClass {classIndex : Nat} {decl : ClassDecl} (acyclic : members.registry.Acyclic)
    (known : owner.index < members.registry.classCount)
    (started : Building members.registry owner members.registry)
    (errorFree : (addClass members owner classIndex decl).diagnostics = []) :
    (addClass members owner classIndex decl).sources.toList =
      members.sources.toList ++ sourcesOf classIndex decl := by
  have fieldsFree := errorFree_of_grows
    (foldl_grows (addMethod_grows owner) (sourcesOf classIndex decl) _) errorFree
  have withFields :=
    @foldl_induction _ _ (fun built => Building members.registry owner built.registry)
      (addField_grows owner) _ (fun _ _ _ => building_addField acyclic known) _ started fieldsFree
  have recorded :=
    sources_foldl_addMethod acyclic known (sourcesOf classIndex decl) withFields errorFree
  rw [sources_foldl (sources_addField owner)] at recorded
  exact recorded

theorem sources_addClassById (settled : hierarchy.Settled classes.length)
    (orderEq : hierarchy.order = front ++ owner :: rest)
    (completing : Completing hierarchy front members)
    (errorFree : (addClassById classes hierarchy members owner).diagnostics = []) :
    (addClassById classes hierarchy members owner).sources.toList =
      members.sources.toList ++ declaredSources classes hierarchy owner := by
  have turn := settled.turn orderEq
  rcases settled.exists_declaration turn.known with ⟨index, decl, indexEq, declEq⟩
  simp only [addClassById, declaredSources, indexEq, declEq, Option.map_some,
    Option.getD_some] at errorFree ⊢
  refine sources_addClass (completing.acyclic settled.acyclic) ?_ (completing.building settled turn)
    errorFree
  rw [completing.classCount_eq]
  exact turn.known

theorem sources_foldl_addClassById (settled : hierarchy.Settled classes.length)
    (orderEq : hierarchy.order = front ++ rest) (completing : Completing hierarchy front members)
    (errorFree : (rest.foldl (addClassById classes hierarchy) members).diagnostics = []) :
    (rest.foldl (addClassById classes hierarchy) members).sources.toList =
      members.sources.toList ++ rest.flatMap (declaredSources classes hierarchy) := by
  induction rest generalizing front members with
  | nil => exact (List.append_nil _).symm
  | cons owner rest ih =>
    have firstFree := errorFree_of_grows
      (foldl_grows (addClassById_grows classes hierarchy) rest _) errorFree
    rw [List.foldl_cons,
      ih (by rw [orderEq]; simp) (completing_addClassById settled orderEq completing firstFree)
      errorFree, sources_addClassById settled orderEq completing firstFree, List.flatMap_cons,
      List.append_assoc]

/-- In a program without faulty declarations just the declared methods are on record. -/
theorem mem_sources_iff {classes : List ClassDecl}
    (hierarchyFree : (Hierarchy.ofClasses classes).diagnostics = [])
    (membersFree : (ofHierarchy classes (Hierarchy.ofClasses classes)).diagnostics = [])
    {source : MethodSource} :
    source ∈ (ofHierarchy classes (Hierarchy.ofClasses classes)).sources.toList ↔
      source ∈ allSources classes := by
  refine ⟨fun isRecorded => (sources_subperm classes).subset isRecorded, fun isDeclared => ?_⟩
  have settled := Hierarchy.settled_ofClasses classes
  have allNumbered := Hierarchy.allNumbered_ofClasses hierarchyFree
  have recorded : (ofHierarchy classes (Hierarchy.ofClasses classes)).sources.toList = _ :=
    sources_foldl_addClassById settled rfl (completing_start settled) membersFree
  rw [recorded]
  rcases mem_allSources.mp isDeclared with ⟨decl, declEq, methodEq⟩
  have inRange : source.classIndex < (Hierarchy.ofClasses classes).registry.classCount := by
    have lengths := congrArg List.length allNumbered
    rw [settled.length_eq, List.length_map, List.length_range] at lengths
    rw [← lengths]
    exact (List.getElem?_eq_some_iff.mp declEq).1
  have numberedAt : (Hierarchy.ofClasses classes).declarationOf? ⟨source.classIndex⟩ =
      some source.classIndex :=
    allNumbered.declarationOf?_eq inRange
  refine List.mem_append_right _
    (List.mem_flatMap.mpr ⟨⟨source.classIndex⟩, settled.mem_order.mpr inRange, ?_⟩)
  simp only [declaredSources, numberedAt, declEq, Option.map_some, Option.getD_some]
  exact mem_sourcesOf.mpr ⟨rfl, methodEq⟩

end Members

end Decaf
