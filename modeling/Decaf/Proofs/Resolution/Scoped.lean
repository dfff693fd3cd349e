import Decaf.Proofs.Checked
import Decaf.Proofs.Compiler
import Decaf.Proofs.Resolution.Coverage
import Decaf.Proofs.Resolution.Lexical
import Decaf.Proofs.Tree.Forest
import Decaf.Proofs.Members.Order

/-!
# Names stand for what the rules of scoping say

Once the declarations of a program are registered, resolution binds every name in its method bodies
to what a walk by the rules of scoping finds for it, complains about what the walk cannot find or
finds declared twice, and lists all other locals in the order in which the walk comes by them.
-/

namespace Decaf

open Resolution (Follows foldl_record localsOf_record declarationsOf_record)

/-! ## What a record says about one finding -/

theorem filterMap_sublist_filterMap {Item Part : Type} {fewer more : Item → Option Part}
    (isMore : ∀ item part, fewer item = some part → more item = some part) (items : List Item) :
    (items.filterMap fewer).Sublist (items.filterMap more) := by
  induction items with
  | nil => exact .refl _
  | cons item items ih =>
    rw [List.filterMap_cons, List.filterMap_cons]
    cases fewerEq : fewer item with
    | none => cases more item <;> simp [ih]
    | some part => simpa [isMore item part fewerEq] using ih

namespace Finding

variable {findings : List Finding}
variable {id : ExprId} {finding : Finding} {node : Expr}

theorem symbol?_record_of_apart
    (isApart : ∀ node, finding.node? = some node → node.id ≠ id) (bindings : Bindings) :
    (finding.record bindings).symbol? id = bindings.symbol? id := by
  cases finding with
  | used site name meaning =>
    cases meaning with
    | none => rfl
    | some symbol =>
      rw [record, Bindings.symbol?_bind, if_neg]
      rintro rfl
      exact isApart _ rfl rfl
  | created site className owner =>
    cases owner with
    | none => rfl
    | some owner =>
      rw [record, Bindings.symbol?_bind, if_neg]
      rintro rfl
      exact isApart _ rfl rfl
  | misplaced | untyped | declared | repeated => rfl

theorem symbol?_foldl_of_apart (isApart : id ∉ (findings.filterMap node?).map Expr.id)
    (bindings : Bindings) : (findings.foldl record bindings).symbol? id = bindings.symbol? id := by
  induction findings generalizing bindings with
  | nil => rfl
  | cons finding findings ih =>
    have firstApart (node : Expr) (isAbout : finding.node? = some node) : node.id ≠ id := by
      rintro rfl
      exact isApart
        (List.mem_map_of_mem (List.mem_filterMap.mpr ⟨finding, List.mem_cons_self, isAbout⟩))
    rw [List.foldl_cons, ih, symbol?_record_of_apart firstApart]
    intro isLater
    rcases List.mem_map.mp isLater with ⟨node, isThere, rfl⟩
    rcases List.mem_filterMap.mp isThere with ⟨other, isOther, isAbout⟩
    exact isApart
      (List.mem_map_of_mem (List.mem_filterMap.mpr ⟨other,
        List.mem_cons_of_mem _ isOther, isAbout⟩))

theorem exists_used {site : Site ExprId} {name : String}
    (isThere : .identifier site name ∈ findings.filterMap node?) :
    ∃ meaning, .used site name meaning ∈ findings := by
  rcases List.mem_filterMap.mp isThere with ⟨finding, isFinding, isAbout⟩
  cases finding with
  | used other otherName meaning =>
    cases isAbout
    exact ⟨meaning, isFinding⟩
  | created | misplaced | untyped | declared | repeated => cases isAbout

/-- What the name that a finding is about is bound to. -/
def symbol? : Finding → Option Symbol
  | .used _ _ meaning => meaning
  | .created _ _ owner => owner.map Symbol.ofClass
  | .misplaced .. | .untyped .. | .declared .. | .repeated .. => none

theorem symbol?_record (isAbout : finding.node? = some node) {bindings : Bindings}
    (unbound : bindings.symbol? node.id = none) :
    (finding.record bindings).symbol? node.id = finding.symbol? := by
  cases finding with
  | used site name meaning =>
    cases isAbout
    cases meaning with
    | none => exact unbound
    | some symbol => exact (Bindings.symbol?_bind _ _ _).trans (if_pos rfl)
  | created site className owner =>
    cases isAbout
    cases owner with
    | none => exact unbound
    | some owner => exact (Bindings.symbol?_bind _ _ _).trans (if_pos rfl)
  | misplaced | untyped | declared | repeated => cases isAbout

/-- When all names have numbers of their own, each is bound to what was found for it. -/
theorem symbol?_of_node (distinct : ((findings.filterMap node?).map Expr.id).Nodup)
    (isFound : finding ∈ findings) (isAbout : finding.node? = some node) :
    (findings.foldl record .empty).symbol? node.id = finding.symbol? := by
  rcases List.append_of_mem isFound with ⟨front, back, rfl⟩
  have about : (front ++ finding :: back).filterMap node? = front.filterMap node? ++ node ::
      back.filterMap node? := by
    rw [List.filterMap_append, List.filterMap_cons, isAbout]
  rw [about, List.map_append, List.map_cons, List.nodup_append] at distinct
  have apartFront : node.id ∉ (front.filterMap node?).map Expr.id :=
    fun isThere => distinct.2.2 _ isThere _ List.mem_cons_self rfl
  have apartBack : node.id ∉ (back.filterMap node?).map Expr.id :=
    (List.nodup_cons.mp distinct.2.1).1
  rw [List.foldl_append, List.foldl_cons, symbol?_foldl_of_apart apartBack]
  exact symbol?_record isAbout (symbol?_foldl_of_apart apartFront .empty)

/-- Whichever declared variables are listed, none is listed twice. -/
theorem InOrder.nodup_filterMap {registry : Registry} (ordered : InOrder registry findings)
    {found? : Finding → Option VariableId}
    (isId : ∀ finding id, found? finding = some id →
      finding.entry?.map VariableEntry.id = some id) :
    (findings.filterMap found?).Nodup := by
  refine (filterMap_sublist_filterMap isId findings).nodup ?_
  rw [← List.map_filterMap, ordered.ids_eq]
  refine List.nodup_range.map fun early late same => ?_
  simpa using same

end Finding

/-! ## Resolution -/

/-- What resolution leaves behind is what a walk by the rules of scoping finds. -/
structure Resolution.BindsLexically (program : Program) (members : Members)
    (resolution : Resolution) : Prop where
  /-- A name stands for what is declared nearest around the place. -/
  means : ∀ {owner blocks name symbol}, members.registry.meaning? owner blocks name = some symbol ↔
    members.registry.Means owner blocks name symbol
  /-- The walk goes through the bodies of all declared methods. -/
  bodies : ∀ {source}, source ∈ members.sources.toList ↔ source ∈ Members.allSources program.classes
  parameters : ∀ {index source}, members.sources[index]? = some source → ∃ method,
    members.registry.methodEntry? ⟨index⟩ = some method ∧
      method.parameters.length = source.decl.parameters.length
  /-- It comes by each name once, and by each declaration. -/
  names_eq : (ScopeWalk.throughMembers members).findings.filterMap Finding.node? =
    (members.sources.toList.flatMap fun source => source.decl.body.exprNodes).filter Expr.isName
  locals_eq : (ScopeWalk.throughMembers members).findings.filterMap Finding.local? =
    members.sources.toList.zipIdx.flatMap fun pair =>
      pair.1.decl.body.nodes.flatMap (Stmt.localSites ⟨pair.2⟩)
  used_of_identifier : ∀ {source}, source ∈ Members.allSources program.classes → ∀ {site name},
    .identifier site name ∈ source.decl.body.exprNodes → ∃ meaning,
      .used site name meaning ∈ (ScopeWalk.throughMembers members).findings
  /-- Each name is bound to its meaning, if it has one. -/
  symbol?_eq : ∀ {site name meaning},
    .used site name meaning ∈ (ScopeWalk.throughMembers members).findings →
    resolution.bindings.symbol? site.id = meaning
  complaints_eq : resolution.diagnostics =
    (ScopeWalk.throughMembers members).findings.filterMap (Finding.complaint? members.registry)
  declarationsOf_eq : ∀ stmt, resolution.bindings.declarationsOf stmt =
    (ScopeWalk.throughMembers members).findings.filterMap (Finding.declaredBy? stmt)
  localsOf_eq : ∀ method, resolution.bindings.localsOf method =
    (ScopeWalk.throughMembers members).findings.filterMap (Finding.declaredIn? method)
  /-- Each declared local is listed once, at the place that its storage names. -/
  declared_once : ∀ {stmt decl entry},
    .declared stmt decl entry ∈ (ScopeWalk.throughMembers members).findings →
    resolution.registry.variableEntry? entry.id = some entry ∧
      (resolution.bindings.declarationsOf stmt).count entry.id = 1 ∧
      (resolution.bindings.localsOf entry.method).count entry.id = 1 ∧ ∃ rank,
        entry.storage = .body rank ∧
          (resolution.bindings.localsOf entry.method)[rank]? = some entry.id

namespace Resolution

variable {members : Members} {resolution : Resolution} {findings : List Finding} {base : Registry}
variable {stmt : StmtId} {decl : VariableDecl} {entry : VariableEntry}

section

variable (records : Records base findings resolution)
include records

theorem Records.declarationsOf_eq (stmt : StmtId) :
    resolution.bindings.declarationsOf stmt = findings.filterMap (Finding.declaredBy? stmt) := by
  rw [records.bindings_eq]
  exact foldl_record (fun bindings => bindings.declarationsOf stmt) _
    (declarationsOf_record stmt) _ _

theorem Records.localsOf_eq (method : MethodId) :
    resolution.bindings.localsOf method = findings.filterMap (Finding.declaredIn? method) := by
  rw [records.bindings_eq]
  exact foldl_record (fun bindings => bindings.localsOf method) _ (localsOf_record method) _ _

/-- A declared variable is on record under its number. -/
theorem Records.variableEntry?_eq (ordered : Finding.InOrder base findings)
    (isDeclared : .declared stmt decl entry ∈ findings) :
    resolution.registry.variableEntry? entry.id = some entry := by
  rcases ordered.exists_front isDeclared with ⟨front, back, rfl, idEq, _⟩
  rw [Registry.variableEntry?, idEq, ← Array.getElem?_toList,
    records.entries_eq, ← Array.length_toList, List.getElem?_append_right (Nat.le_add_right _ _),
    Nat.add_sub_cancel_left, List.filterMap_append,
    List.getElem?_append_right (Nat.le_refl _), Nat.sub_self]
  rfl

theorem Records.declared_once (ordered : Finding.InOrder base findings)
    (isDeclared : .declared stmt decl entry ∈ findings) :
    (resolution.bindings.declarationsOf stmt).count entry.id = 1 ∧
      (resolution.bindings.localsOf entry.method).count entry.id = 1 ∧ ∃ rank,
        entry.storage = .body rank ∧ (resolution.bindings.localsOf entry.method)[rank]? =
          some entry.id := by
  rw [records.declarationsOf_eq, records.localsOf_eq]
  refine ⟨List.count_eq_one_of_mem (ordered.nodup_filterMap ?_) ?_,
    List.count_eq_one_of_mem (ordered.nodup_filterMap ?_) ?_, ?_⟩
  · intro finding id isFound
    cases finding with
    | declared declaring _ other =>
      rw [Finding.declaredBy?] at isFound
      split at isFound
      · exact isFound
      · cases isFound
    | used | created | misplaced | untyped | repeated => cases isFound
  · exact List.mem_filterMap.mpr ⟨_, isDeclared, if_pos rfl⟩
  · intro finding id isFound
    cases finding with
    | declared declaring _ other =>
      rw [Finding.declaredIn?] at isFound
      split at isFound
      · exact isFound
      · cases isFound
    | used | created | misplaced | untyped | repeated => cases isFound
  · exact List.mem_filterMap.mpr ⟨_, isDeclared, if_pos rfl⟩
  · rcases ordered.exists_front isDeclared with ⟨front, back, rfl, _, storageEq⟩
    refine ⟨_, storageEq, ?_⟩
    rw [List.filterMap_append, List.getElem?_append_right (Nat.le_refl _), Nat.sub_self,
      List.filterMap_cons, Finding.declaredIn?, if_pos rfl]
    rfl

end

end Resolution

/-- Where no declaration is faulty, resolution keeps to the rules of scoping. -/
theorem Resolution.follows_ofHierarchy {classes : List ClassDecl}
    (membersFree : (Members.ofHierarchy classes (Hierarchy.ofClasses classes)).diagnostics = []) :
    Follows (Members.ofHierarchy classes (Hierarchy.ofClasses classes)).registry
      (Members.ofHierarchy classes (Hierarchy.ofClasses classes)).sources.size
      (ScopeWalk.throughMembers (.ofHierarchy classes (Hierarchy.ofClasses classes)))
      (ofMembers (.ofHierarchy classes (Hierarchy.ofClasses classes))) := by
  have consistent := (Members.completing_ofHierarchy membersFree).2.consistent
  have held := Members.parametersHeld_ofHierarchy membersFree
  rcases Members.recorded_ofHierarchy classes with ⟨recorded, onlyParameters, _, _⟩
  exact follows_ofMembers consistent ((Hierarchy.inRange_ofClasses classes).run.trans recorded)
    onlyParameters held

/-- Resolution of registered members is lexical scoping. -/
theorem Resolution.bindsLexically_ofMembers {program : Program} (isForest : program.IsForest)
    (hierarchyFree : (Hierarchy.ofClasses program.classes).diagnostics = [])
    (membersFree : (Members.ofHierarchy program.classes
      (Hierarchy.ofClasses program.classes)).diagnostics = []) :
    (Resolution.ofMembers (.ofHierarchy program.classes
      (Hierarchy.ofClasses program.classes))).BindsLexically program
      (.ofHierarchy program.classes (Hierarchy.ofClasses program.classes)) := by
  rcases Members.completing_ofHierarchy membersFree with ⟨settled, completing⟩
  rcases Members.recorded_ofHierarchy program.classes with ⟨_, _, count, _⟩
  have isSource := @Members.mem_sources_iff program.classes hierarchyFree membersFree
  have bodies := isForest.bodies
  have held := Members.parametersHeld_ofHierarchy membersFree
  have records := (follows_ofHierarchy membersFree).records
  generalize Members.ofHierarchy program.classes (Hierarchy.ofClasses program.classes) =
    members at *
  have wellFormed := completing.consistent.toWellFormed
  have registered {index : Nat} {source : MethodSource}
      (isThere : members.sources[index]? = some source) :
      ∃ method, members.registry.methodEntry? ⟨index⟩ = some method :=
    ⟨_, Array.getElem?_eq_getElem (count ▸ (Array.getElem?_eq_some_iff.mp isThere).1)⟩
  have covers := ScopeWalk.covers_methods wellFormed members.sources.toList.zipIdx {}
    fun pair isPair => registered (by simpa using List.mem_zipIdx_iff_getElem?.mp isPair)
  rw [Members.flatMap_zipIdx _ (fun source : MethodSource => source.decl.body.exprNodes)] at covers
  have ordered := covers.ordered .nil
  have distinct : (((ScopeWalk.throughMembers members).findings.filterMap Finding.node?).map
      Expr.id).Nodup := by
    rw [ScopeWalk.throughMembers, covers.names_eq]
    exact (List.filter_sublist.map Expr.id).nodup bodies.expr_ids
  have found {source : MethodSource} (isDeclared : source ∈ Members.allSources program.classes)
      {site : Site ExprId}
      {name : String} (isNode : .identifier site name ∈ source.decl.body.exprNodes) :
      ∃ meaning, .used site name meaning ∈ (ScopeWalk.throughMembers members).findings := by
    refine Finding.exists_used ?_
    rw [ScopeWalk.throughMembers, covers.names_eq]
    exact List.mem_filter.mpr ⟨List.mem_flatMap.mpr ⟨source, isSource.mpr isDeclared, isNode⟩, rfl⟩
  exact
    { means := Registry.meaning?_eq_some wellFormed (completing.acyclic settled.acyclic)
      bodies := isSource
      parameters := fun isThere =>
        let ⟨method, found⟩ := registered isThere
        ⟨method, found, (held.holds isThere method found).length_eq⟩
      names_eq := covers.names_eq
      locals_eq := covers.locals_eq
      used_of_identifier := found
      symbol?_eq := fun isUsed => records.bindings_eq ▸ Finding.symbol?_of_node distinct isUsed rfl
      complaints_eq := records.diagnostics_eq
      declarationsOf_eq := records.declarationsOf_eq
      localsOf_eq := records.localsOf_eq
      declared_once := fun isDeclared =>
        ⟨records.variableEntry?_eq ordered isDeclared, records.declared_once ordered isDeclared⟩ }

namespace Analysis

/-- Name resolution is lexical scoping. -/
theorem bindsLexically_ofProgram {value : Json} {program : Program}
    (decoded : Program.ofJson value = .ok program)
    (silent : (ofProgram program).declarationDiagnostics = []) : ∃ resolution,
    (ofProgram program).resolution = some resolution ∧
      resolution.BindsLexically program (ofProgram program).members := by
  refine ⟨_, resolution_ofProgram silent, ?_⟩
  rcases List.append_eq_nil_iff.mp silent with ⟨hierarchyFree, membersFree⟩
  rw [hierarchy_ofProgram] at hierarchyFree
  rw [members_ofProgram] at membersFree ⊢
  exact Resolution.bindsLexically_ofMembers (Program.isForest_ofJson decoded)
    hierarchyFree membersFree

/-- `int pick(int x) { { int x; x; } return x; }` -/
def shadowingProgram : Json :=
  .oneClass "Main" [.method "pick" "int" [.variableOf "x" "int"]
    [.block [.node "VarDeclStmt" [("vars", .array [.variableOf "x" "int"])],
        .node "ExprStmt" [("expr", .identifier "x")]],
      .node "Return" [("value", .identifier "x")]]]

/-- In the block the name stands for the local, and behind it for the parameter again. -/
theorem bindsLexically_shadowingProgram : ∃ program, ∃ resolution : Resolution,
    Program.ofJson shadowingProgram = .ok program ∧
      (ofProgram program).declarationDiagnostics = [] ∧
      resolution.BindsLexically program (ofProgram program).members ∧
      resolution.bindings.symbol? ⟨0⟩ = some (.ofVariable ⟨1⟩) ∧
      resolution.bindings.symbol? ⟨1⟩ = some (.ofVariable ⟨0⟩) := by
  rcases Program.exists_of_test shadowingProgram
    (fun program => (ofProgram program).declarationDiagnostics = [] ∧
      ((ofProgram program).resolution.map fun resolution =>
        (resolution.bindings.symbol? ⟨0⟩, resolution.bindings.symbol? ⟨1⟩)) =
          some (some (.ofVariable ⟨1⟩), some (.ofVariable ⟨0⟩)))
    (by decide +kernel) with ⟨program, decoded, tested⟩
  rcases of_decide_eq_true tested with ⟨silent, symbolsEq⟩
  rcases bindsLexically_ofProgram decoded silent with ⟨resolution, found, binds⟩
  rw [found, Option.map_some, Option.some.injEq, Prod.mk.injEq] at symbolsEq
  exact ⟨program, resolution, decoded, silent, binds, symbolsEq⟩

end Analysis

/-!
## Counting locals

When there are no complaints about names, every declared variable is on record: a declaration
statement introduces as many variables as it has declarations, and a method has as many locals as
there are declarations in its body.
-/

variable {stmt : Stmt} {method : MethodId} {site : LocalSite}

/-- How many variables a statement declares does not depend on the method it stands in. -/
theorem Stmt.length_localSites (stmt : Stmt) (method other : MethodId) :
    (stmt.localSites method).length = (stmt.localSites other).length := by
  cases stmt <;> simp [localSites]

theorem Stmt.method_of_mem_localSites
    (isSite : site ∈ stmt.localSites method) : site.method = method := by
  cases stmt <;> simp [localSites] at isSite
  rcases isSite with ⟨_, _, rfl⟩
  rfl

theorem Stmt.stmt_of_mem_localSites
    (isSite : site ∈ stmt.localSites method) : site.stmt = stmt.id := by
  cases stmt <;> simp [localSites] at isSite
  rcases isSite with ⟨_, _, rfl⟩
  rfl

namespace Finding

variable {registry : Registry} {findings : List Finding}

/-- Variables are declared at the places that are chosen. -/
theorem length_filterMap_eq {declared? : Finding → Option VariableId} {isChosen : LocalSite → Bool}
    (same : ∀ finding ∈ findings,
      (declared? finding).isSome = (finding.local?.map isChosen).getD false) :
    (findings.filterMap declared?).length =
      ((findings.filterMap local?).filter isChosen).length := by
  rw [List.length_filterMap_eq_countP, ← List.countP_eq_length_filter, List.countP_filterMap]
  exact List.countP_congr fun finding isFound => by rw [same finding isFound]

theorem length_declaredBy (silent : ∀ finding ∈ findings, finding.complaint? registry = none)
    (stmt : StmtId) :
    (findings.filterMap (declaredBy? stmt)).length =
      ((findings.filterMap local?).filter fun site => site.stmt = stmt).length := by
  refine length_filterMap_eq fun finding isFound => ?_
  cases finding with
  | declared declaring decl entry =>
    rw [declaredBy?, local?]
    split
    next same => simp [same]
    next differs => simp [differs]
  | repeated => cases silent _ isFound
  | used | created | misplaced | untyped => rfl

theorem length_declaredIn (silent : ∀ finding ∈ findings, finding.complaint? registry = none)
    (method : MethodId) :
    (findings.filterMap (declaredIn? method)).length =
      ((findings.filterMap local?).filter fun site => site.method = method).length := by
  refine length_filterMap_eq fun finding isFound => ?_
  cases finding with
  | declared declaring decl entry =>
    rw [declaredIn?, local?]
    split
    next same => simp [same]
    next differs => simp [differs]
  | repeated => cases silent _ isFound
  | used | created | misplaced | untyped => rfl

end Finding

namespace Resolution.BindsLexically

variable {program : Program} {members : Members} {resolution : Resolution}
  (binds : resolution.BindsLexically program members) (silent : resolution.diagnostics = [])
  {index : Nat} {source : MethodSource} (recorded : members.sources[index]? = some source)

include binds silent recorded

/-- A method has the locals that are declared in its body. -/
theorem length_localsOf : (resolution.bindings.localsOf ⟨index⟩).length =
    (source.decl.body.nodes.flatMap (Stmt.localSites ⟨index⟩)).length := by
  rw [binds.complaints_eq, List.filterMap_eq_nil_iff] at silent
  rw [binds.localsOf_eq, Finding.length_declaredIn silent, binds.locals_eq]
  have distinct : (members.sources.toList.zipIdx.map fun pair => (⟨pair.2⟩ : MethodId)).Nodup := by
    refine .of_map MethodId.index ?_
    rw [List.map_map]
    change (members.sources.toList.zipIdx.map Prod.snd).Nodup
    rw [List.zipIdx_map_snd]
    exact List.nodup_range'
  have isThere : (source, index) ∈ members.sources.toList.zipIdx := by
    rw [List.mem_zipIdx_iff_getElem?, Array.getElem?_toList]
    exact recorded
  refine congrArg List.length (Members.filter_flatMap_owner (fun isSite => ?_) distinct isThere)
  rcases List.mem_flatMap.mp isSite with ⟨stmt, _, inStmt⟩
  exact Stmt.method_of_mem_localSites inStmt

/-- A declaration statement introduces a variable for each of its declarations. -/
theorem length_declarationsOf (bodies : program.Bodies members.sources.toList) {node : Stmt}
    (isNode : node ∈ source.decl.body.nodes) :
    (resolution.bindings.declarationsOf node.id).length = (node.localSites ⟨index⟩).length := by
  rw [binds.complaints_eq, List.filterMap_eq_nil_iff] at silent
  rw [binds.declarationsOf_eq, Finding.length_declaredBy silent, binds.locals_eq]
  have flattened : (members.sources.toList.zipIdx.flatMap fun pair =>
      pair.1.decl.body.nodes.flatMap (Stmt.localSites ⟨pair.2⟩)) =
        (members.sources.toList.zipIdx.flatMap fun pair =>
          pair.1.decl.body.nodes.map (Prod.mk pair.2)).flatMap
          fun pair => pair.2.localSites ⟨pair.1⟩ := by
    simp only [List.flatMap_assoc, List.flatMap_map]
  have distinct : ((members.sources.toList.zipIdx.flatMap fun pair =>
      pair.1.decl.body.nodes.map (Prod.mk pair.2)).map fun pair => pair.2.id).Nodup := by
    have ids := bodies.stmt_ids
    rw [← Members.flatMap_zipIdx _ (fun source : MethodSource => source.decl.body.nodes) 0] at ids
    simpa [List.map_flatMap, Function.comp_def] using ids
  have isThere : (index, node) ∈ members.sources.toList.zipIdx.flatMap fun pair =>
      pair.1.decl.body.nodes.map (Prod.mk pair.2) := by
    refine List.mem_flatMap.mpr ⟨(source, index), ?_, List.mem_map_of_mem isNode⟩
    rw [List.mem_zipIdx_iff_getElem?, Array.getElem?_toList]
    exact recorded
  rw [flattened]
  exact congrArg List.length
    (Members.filter_flatMap_owner Stmt.stmt_of_mem_localSites distinct isThere)

end Resolution.BindsLexically

end Decaf
