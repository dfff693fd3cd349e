import Decaf.Proofs.Renaming.Walks

/-!
# Names in a renamed program

Resolution of a renamed program finds nothing wrong when that of the program does not. It numbers
the variables in the same way and binds every name to the same thing.
-/

namespace Decaf

/-! ## Methods -/

theorem Stmt.length_declarations (stmt : Stmt) (method : MethodId) :
    (stmt.localSites method).length = stmt.declarations.length := by
  cases stmt <;> simp [localSites, declarations]

namespace MethodDecl

variable (decl : MethodDecl) (names : Storage → String) (ids : Storage → VariableId)
  {method : MethodEntry}

section

variable
  (numbered : ∀ rank (inRange : rank < method.parameters.length),
    ids (.parameter rank) = method.parameters[rank])
  (length_eq : method.parameters.length = decl.parameters.length)
include numbered length_eq

theorem parameterBlock_eq_written :
    parameterBlock decl method = writtenBlock ids decl.parameterWalk.block := by
  apply List.ext_getElem
  · simp [parameterBlock, writtenBlock, parameterWalk, length_eq]
  · intro rank inRange otherInRange
    have known : rank < method.parameters.length := by
      simp only [parameterBlock, List.length_zip, length_eq] at inRange ⊢
      omega
    simp [parameterBlock, writtenBlock, parameterWalk, numbered rank known]

theorem parameterBlock_eq_renamed :
    parameterBlock (decl.renamed names) method =
      renamedBlock names ids decl.parameterWalk.block := by
  apply List.ext_getElem
  · simp [parameterBlock, renamed, renamedBlock, parameterWalk, length_eq]
  · intro rank inRange otherInRange
    have known : rank < method.parameters.length := by
      simp only [parameterBlock, List.length_zip, length_eq] at inRange ⊢
      omega
    simp [parameterBlock, renamed, renamedBlock, parameterWalk, numbered rank known]

end

end MethodDecl

namespace ScopeWalk

/-- A walk through methods in front of a number has come by words of a program only. -/
structure UpTo (words : List String) (next : Nat) (walk : ScopeWalk) : Prop where
  earlier : ∀ site ∈ walk.findings.filterMap Finding.local?, site.method.index < next
  named : ∀ node ∈ walk.findings.filterMap Finding.node?, ∀ name ∈ node.ownNames, name ∈ words

namespace UpTo

variable {registry : Registry} {words : List String} {next : Nat} {walk : ScopeWalk}
  {method : MethodEntry} {decl : MethodDecl} (upTo : walk.UpTo words next)
  (sameId : method.id = ⟨next⟩)

include upTo sameId

theorem method_ne {site : LocalSite} (isEarlier : site ∈ walk.findings.filterMap Finding.local?) :
    site.method ≠ method.id := by
  intro isNext
  have lt := upTo.earlier site isEarlier
  rw [isNext, sameId] at lt
  exact Nat.lt_irrefl _ lt

theorem localsOf_eq_nil : walk.localsOf method.id = [] := by
  apply List.filterMap_eq_nil_iff.mpr
  intro finding isThere
  cases finding with
  | declared stmt declared entry =>
    rw [Finding.declaredIn?, if_neg]
    exact upTo.method_ne sameId (List.mem_filterMap.mpr ⟨_, isThere, rfl⟩)
  | used | created | misplaced | untyped | repeated => rfl

theorem throughBody (written : ∀ node ∈ decl.body.exprNodes, ∀ name ∈ node.ownNames, name ∈ words) :
    (ScopeWalk.throughBody registry method decl.body
      { walk with block := parameterBlock decl method }).UpTo words
      (next + 1) := by
  have covers :=
    @covers_body registry method decl.body { walk with block := parameterBlock decl method }
  constructor
  case earlier =>
    intro site isSite
    rw [covers.locals_eq] at isSite
    rcases List.mem_append.mp isSite with isEarlier | isOwn
    · exact Nat.lt_succ_of_lt (upTo.earlier site isEarlier)
    · rcases List.mem_flatMap.mp isOwn with ⟨stmt, _, inStmt⟩
      rw [Stmt.method_of_mem_localSites inStmt, sameId]
      exact Nat.lt_succ_self next
  case named =>
    intro node isNode
    rw [covers.names_eq] at isNode
    rcases List.mem_append.mp isNode with isEarlier | isOwn
    · exact upTo.named node isEarlier
    · exact written node (List.mem_filter.mp isOwn).1

end UpTo

end ScopeWalk

namespace RenamedBody

/-- A method that two walks have come to, and what the first one will have found behind it. -/
def ofMethod (registry otherRegistry : Registry) (method : MethodEntry) (decl : MethodDecl)
    (names : Storage → String) (walk : ScopeWalk) : RenamedBody where
  registry
  otherRegistry
  method
  names
  ids storage :=
    match storage with
    | .parameter rank => (method.parameters[rank]?).getD ⟨0⟩
    | .body rank => ⟨registry.variableEntries.size + walk.entries.length + rank⟩
  parameters := decl.parameters.length
  locals := decl.body.localCount
  found := (ScopeWalk.throughBody registry method decl.body
    { walk with block := parameterBlock decl method }).findings

variable {registry otherRegistry : Registry} {words : List String} {next : Nat}
  {walk other : ScopeWalk} {decl : MethodDecl} {names : Storage → String} {method : MethodEntry}
  (upTo : walk.UpTo words next) (sameId : method.id = ⟨next⟩)

include upTo sameId

theorem fits_ofMethod (same : registry.SameButNames otherRegistry)
    (wellFormed : registry.WellFormed) (otherWellFormed : otherRegistry.WellFormed)
    (distinct : (decl.storages.map names).Nodup)
    (fresh : ∀ storage ∈ decl.storages, names storage ∉ words)
    (written : ∀ node ∈ decl.body.exprNodes, ∀ name ∈ node.ownNames, name ∈ words)
    (silent : ∀ finding ∈ (ofMethod registry otherRegistry method decl names walk).found,
      finding.complaint? registry = none) :
    (ofMethod registry otherRegistry method decl names walk).Fits where
  same := same
  wellFormed := wellFormed
  otherWellFormed := otherWellFormed
  silent := silent
  locals_le := by
    have covers :=
      @ScopeWalk.covers_body registry method decl.body
      { walk with block := parameterBlock decl method }
    have noneBefore : (walk.findings.filterMap Finding.local?).filter
        (fun site => site.method = method.id) = [] := by
      apply List.filter_eq_nil_iff.mpr
      intro site isEarlier isNext
      exact upTo.method_ne sameId isEarlier (of_decide_eq_true isNext)
    rw [Finding.length_declaredIn silent]
    change ((ScopeWalk.findings _).filterMap Finding.local? |>.filter fun site =>
      site.method = method.id).length ≤ decl.body.localCount
    rw [covers.locals_eq, List.filter_append, noneBefore, List.nil_append]
    apply (List.length_filter_le _ _).trans
    simp [Stmt.localCount, List.length_flatMap, Stmt.length_declarations]
  injective isVariable otherIsVariable sameName :=
    List.inj_on_of_nodup_map distinct (MethodDecl.mem_storages.mpr isVariable)
      (MethodDecl.mem_storages.mpr otherIsVariable) sameName
  fresh {site name meaning} isUsed {storage} isVariable sameName := by
    have isWord := (upTo.throughBody sameId written).named (.identifier site name)
      (List.mem_filterMap.mpr ⟨_, isUsed, rfl⟩) name List.mem_cons_self
    apply fresh storage (MethodDecl.mem_storages.mpr isVariable)
    change names storage = name at sameName
    rwa [sameName]

/-- In front of the body both walks see the parameters. -/
theorem inStep_ofMethod (length_eq : method.parameters.length = decl.parameters.length)
    (findings_eq : other.findings.map Finding.nameless = walk.findings.map Finding.nameless) :
    (ofMethod registry otherRegistry method decl names walk).InStep [] decl.parameterWalk
      { walk with block := parameterBlock decl method }
      { other with block := parameterBlock (decl.renamed names) method } := by
  have numbered : ∀ rank (inRange : rank < method.parameters.length),
      (ofMethod registry otherRegistry method decl names walk).ids (.parameter rank) =
        method.parameters[rank] := by
    intro rank inRange
    simp [ofMethod, inRange]
  constructor
  case block_eq => exact decl.parameterBlock_eq_written _ numbered length_eq
  case otherBlock_eq => exact decl.parameterBlock_eq_renamed _ _ numbered length_eq
  case among =>
    intro block isBlock declared isDeclared
    obtain rfl := List.mem_singleton.mp isBlock
    rcases List.mem_map.mp isDeclared with ⟨⟨parameter, rank⟩, isParameter, rfl⟩
    exact (List.getElem?_eq_some_iff.mp (List.mem_zipIdx_iff_getElem?.mp isParameter)).1
  case ids_eq =>
    intro rank
    simp only [ofMethod, MethodDecl.parameterWalk, Nat.zero_add]
    rfl
  case ranks =>
    change (walk.localsOf method.id).length = 0
    rw [upTo.localsOf_eq_nil sameId, List.length_nil]
  case findings_eq => exact findings_eq

end RenamedBody

namespace ScopeWalk

/-- Two walks have come by the same in the methods in front of a number. -/
structure Beside (words : List String) (next : Nat) (walk other : ScopeWalk) :
    Prop extends UpTo words next walk where
  findings_eq : other.findings.map Finding.nameless = walk.findings.map Finding.nameless

/-- What renaming a method relies on: the method is on record, and its variables get new names. -/
structure Renames (words : List String) (registry : Registry) (given : Program.Renaming)
    (source : MethodSource) (index : Nat) : Prop where
  registered : ∃ method, registry.methodEntry? ⟨index⟩ = some method ∧
    method.parameters.length = source.decl.parameters.length
  distinct : (source.decl.storages.map (given source.classIndex source.methodIndex)).Nodup
  fresh : ∀ storage ∈ source.decl.storages,
    given source.classIndex source.methodIndex storage ∉ words
  written : ∀ node ∈ source.decl.body.exprNodes, ∀ name ∈ node.ownNames, name ∈ words

variable {registry otherRegistry : Registry} {words : List String} {given : Program.Renaming}
  {walk other : ScopeWalk}

section

variable (same : registry.SameButNames otherRegistry) (wellFormed : registry.WellFormed)
  (otherWellFormed : otherRegistry.WellFormed)

include same wellFormed otherWellFormed

variable {next : Nat}

/-- The walks come out of the next method side by side. -/
theorem Beside.throughMethod (beside : Beside words next walk other) {source : MethodSource}
    (renames : Renames words registry given source next)
    (silent : ∀ finding ∈ (walk.throughMethod registry (source, next)).findings,
      finding.complaint? registry = none) :
    Beside words (next + 1) (walk.throughMethod registry (source, next))
      (other.throughMethod otherRegistry (source.renamed given, next)) := by
  rcases renames.registered with ⟨method, found, length_eq⟩
  have otherFound : otherRegistry.methodEntry? ⟨next⟩ = some method :=
    (same.methodEntry?_eq _).trans found
  have sameId : method.id = ⟨next⟩ := wellFormed.method_id found
  simp only [ScopeWalk.throughMethod, found, otherFound] at silent ⊢
  have fits := RenamedBody.fits_ofMethod beside.toUpTo sameId same wellFormed
    otherWellFormed renames.distinct renames.fresh renames.written silent
  have start := @RenamedBody.inStep_ofMethod registry otherRegistry words
    next walk other source.decl
    (given source.classIndex source.methodIndex) method beside.toUpTo sameId
    length_eq beside.findings_eq
  rcases start.throughBody fits List.prefix_rfl with ⟨_, done⟩
  exact ⟨beside.toUpTo.throughBody sameId renames.written, done.findings_eq⟩

theorem Beside.throughMethods (beside : Beside words next walk other) {sources : List MethodSource}
    (renames : ∀ index source, sources[index]? = some source →
      Renames words registry given source (next + index))
    (silent :
      ∀ finding ∈ ((sources.zipIdx next).foldl (ScopeWalk.throughMethod registry) walk).findings,
      finding.complaint? registry = none) :
    Beside words (next + sources.length)
      ((sources.zipIdx next).foldl (ScopeWalk.throughMethod registry) walk)
      (((sources.map (MethodSource.renamed · given)).zipIdx next).foldl
        (ScopeWalk.throughMethod otherRegistry) other) := by
  induction sources generalizing next walk other with
  | nil => exact beside
  | cons source sources ih =>
    rw [List.map_cons, List.zipIdx_cons, List.zipIdx_cons, List.foldl_cons, List.foldl_cons,
      List.length_cons, ← Nat.succ_add_eq_add_succ]
    rw [List.zipIdx_cons, List.foldl_cons] at silent
    have later : ∀ index source, sources[index]? = some source →
        Renames words registry given source (next + 1 + index) := by
      intro index other isLater
      rw [Nat.succ_add_eq_add_succ]
      exact renames (index + 1) other isLater
    have grows := grows_throughMethods registry (sources.zipIdx (next + 1))
      (walk.throughMethod registry (source, next))
    have first := beside.throughMethod same wellFormed otherWellFormed (renames 0 source rfl)
      fun finding isThere => silent finding (grows.subset isThere)
    exact ih first later silent

end

end ScopeWalk

/-! ## Resolution -/

namespace Program.Renames

variable {program : Program} {given : Program.Renaming} (renames : program.Renames given)
  {source : MethodSource} (isDeclared : source ∈ Members.allSources program.classes)

include renames isDeclared

/-- No name in the program is given to a variable. -/
theorem fresh_storages : ∀ storage ∈ source.decl.storages,
    given source.classIndex source.methodIndex storage ∉ program.names := by
  intro storage isStorage
  rcases Members.mem_allSources.mp isDeclared with ⟨owner, ownerFound, found⟩
  apply renames.fresh
  refine List.mem_flatMap.mpr ⟨(owner, source.classIndex),
    List.mem_zipIdx_iff_getElem?.mpr ownerFound, ?_⟩
  refine List.mem_flatMap.mpr ⟨(source.decl, source.methodIndex),
    List.mem_zipIdx_iff_getElem?.mpr found, ?_⟩
  exact List.mem_map_of_mem isStorage

omit renames in
theorem mem_names :
    ∀ node ∈ source.decl.body.exprNodes, ∀ name ∈ node.ownNames, name ∈ program.names := by
  intro node isNode name isName
  rcases Members.mem_allSources.mp isDeclared with ⟨owner, ownerFound, found⟩
  refine List.mem_flatMap.mpr ⟨owner, List.mem_of_getElem? ownerFound, ?_⟩
  apply List.mem_append_right
  refine List.mem_flatMap.mpr ⟨source.decl, List.mem_of_getElem? found, ?_⟩
  apply List.mem_append_left
  apply List.mem_append_right
  exact List.mem_flatMap.mpr ⟨node, isNode, isName⟩

end Program.Renames

namespace Resolution

/-- Two programs are resolved without complaints, and to the same but for the names of variables. -/
structure SameButNames (resolution other : Resolution) : Prop where
  registries : resolution.registry.SameButNames other.registry
  bindings_eq : other.bindings = resolution.bindings
  otherSilent : other.diagnostics = []

variable {program : Program} {given : Program.Renaming}

theorem Records.sameButNames {base otherBase : Registry} {findings others : List Finding}
    {resolution other : Resolution} (records : Records base findings resolution)
    (otherRecords : Records otherBase others other) (extended : base.Extends resolution.registry)
    (otherExtended : otherBase.Extends other.registry) (same : base.SameButNames otherBase)
    (findings_eq : others.map Finding.nameless = findings.map Finding.nameless)
    (silent : resolution.diagnostics = []) : resolution.SameButNames other where
  registries :=
    { classes_eq := by rw [otherExtended.classes_eq, extended.classes_eq, same.classes_eq]
      fields_eq := by rw [otherExtended.fields_eq, extended.fields_eq, same.fields_eq]
      methods_eq := by rw [otherExtended.methods_eq, extended.methods_eq, same.methods_eq]
      variables_eq := by
        apply Array.toList_inj.mp
        rw [Array.toList_map, Array.toList_map, records.entries_eq, otherRecords.entries_eq,
          List.map_append, List.map_append, Finding.entries_eq_of_nameless findings_eq]
        have bases := congrArg Array.toList same.variables_eq
        rw [Array.toList_map, Array.toList_map] at bases
        rw [bases] }
  bindings_eq := by
    rw [records.bindings_eq, otherRecords.bindings_eq]
    exact Finding.foldl_record_eq_of_nameless findings_eq .empty
  otherSilent := by
    rw [records.diagnostics_eq] at silent
    rw [otherRecords.diagnostics_eq]
    apply List.filterMap_eq_nil_iff.mpr
    exact Finding.silent_of_nameless findings_eq (List.filterMap_eq_nil_iff.mp silent)

/-- Resolution of a renamed program ends up as that of the program does. -/
theorem sameButNames_ofMembers (renames : program.Renames given)
    (hierarchyFree : (Hierarchy.ofClasses program.classes).diagnostics = [])
    (membersFree : (Members.ofHierarchy program.classes
      (Hierarchy.ofClasses program.classes)).diagnostics = [])
    (silent :
      (ofMembers (.ofHierarchy program.classes (Hierarchy.ofClasses program.classes))).diagnostics =
        []) :
    (ofMembers (.ofHierarchy program.classes (Hierarchy.ofClasses program.classes))).SameButNames
      (ofMembers (.ofHierarchy (program.renamedClasses given)
        (Hierarchy.ofClasses (program.renamedClasses given)))) := by
  have renamedTo := Members.renamedTo_ofHierarchy renames membersFree
  have wellFormed := (Members.completing_ofHierarchy membersFree).2.consistent.toWellFormed
  have otherWellFormed :=
    (Members.completing_ofHierarchy renamedTo.otherSilent).2.consistent.toWellFormed
  have held := Members.parametersHeld_ofHierarchy membersFree
  have isSource := @Members.mem_sources_iff program.classes hierarchyFree membersFree
  have follows := follows_ofHierarchy membersFree
  have otherFollows := follows_ofHierarchy renamedTo.otherSilent
  rcases Members.recorded_ofHierarchy program.classes with ⟨_, _, count, _⟩
  generalize Members.ofHierarchy program.classes (Hierarchy.ofClasses program.classes) =
    members at *
  generalize Members.ofHierarchy (program.renamedClasses given)
    (Hierarchy.ofClasses (program.renamedClasses given)) = other at *
  have found := silent
  rw [follows.records.diagnostics_eq, List.filterMap_eq_nil_iff, ScopeWalk.throughMembers] at found
  have start : ScopeWalk.Beside program.names 0 {} {} := ⟨⟨by simp, by simp⟩, rfl⟩
  have methods : ∀ index source, members.sources.toList[index]? = some source →
      ScopeWalk.Renames program.names members.registry given source (0 + index) := by
    intro index source isThere
    rw [Nat.zero_add]
    rw [Array.getElem?_toList] at isThere
    have isDeclared := isSource.mp (Array.mem_toList_iff.mpr (Array.mem_of_getElem? isThere))
    have inRange : index < members.registry.methods.size :=
      count ▸ (Array.getElem?_eq_some_iff.mp isThere).1
    have registered : members.registry.methodEntry? ⟨index⟩ =
        some members.registry.methods[index] :=
      Array.getElem?_eq_getElem inRange
    exact
      { registered := ⟨_, registered, (held.holds isThere _ registered).length_eq⟩
        distinct := renames.nodup_storages isDeclared
        fresh := renames.fresh_storages isDeclared
        written := Program.Renames.mem_names isDeclared }
  have beside := start.throughMethods renamedTo.registries.toSameButNames wellFormed
    otherWellFormed methods found
  have findings_eq : (ScopeWalk.throughMembers other).findings.map Finding.nameless =
      (ScopeWalk.throughMembers members).findings.map Finding.nameless := by
    rw [ScopeWalk.throughMembers, renamedTo.sources_eq, Array.toList_map]
    exact beside.findings_eq
  exact follows.records.sameButNames otherFollows.records follows.extended otherFollows.extended
    renamedTo.registries.toSameButNames findings_eq silent

end Resolution

end Decaf
