import Decaf.Proofs.Renaming.Registries
import Decaf.Proofs.Resolution.Scoped

/-!
# Walks through a renamed method

A walk by the rules of scoping comes by the same in a method and in the renamed one: under its new
name a variable is declared at the same place with the same number, and what was a name for it finds
it. No other name can find it, as no two variables have the same new name, and no name in the
program is one.
-/

namespace Decaf

/-! ## Findings without names -/

namespace Finding

variable {finding : Finding}

/-- The finding without the name of the variable that it is about. -/
def nameless : Finding → Finding
  | .used site _ meaning => .used site "" meaning
  | .created site className owner => .created site className owner
  | .misplaced site keyword reason => .misplaced site keyword reason
  | .untyped decl => .untyped { decl with name := "" }
  | .declared stmt decl entry => .declared stmt { decl with name := "" } entry.nameless
  | .repeated stmt decl method => .repeated stmt { decl with name := "" } method

theorem record_nameless (bindings : Bindings) (finding : Finding) :
    finding.nameless.record bindings = finding.record bindings := by
  rcases finding with ⟨_, _, _ | _⟩ | ⟨_, _, _ | _⟩ | _ | _ | _ | _ <;> rfl

theorem entry?_nameless (finding : Finding) :
    finding.nameless.entry? = finding.entry?.map VariableEntry.nameless := by
  cases finding <;> rfl

theorem declaredIn?_nameless (method : MethodId) (finding : Finding) :
    finding.nameless.declaredIn? method = finding.declaredIn? method := by
  cases finding <;> rfl

/-- Whether there is a complaint depends on no names. -/
theorem complaint?_nameless (registry other : Registry) (finding : Finding) :
    finding.nameless.complaint? other = none ↔ finding.complaint? registry = none := by
  rcases finding with ⟨_, _, _ | _⟩ | ⟨_, _, _ | _⟩ | _ | _ | _ | _ <;> simp [nameless, complaint?]

variable {findings others : List Finding}

/-- What names have no part in is the same. -/
theorem filterMap_eq_of_nameless {Item : Type} {view : Finding → Option Item}
    (each : ∀ finding, view finding.nameless = view finding)
    (same : others.map nameless = findings.map nameless) :
    others.filterMap view = findings.filterMap view := by
  have viewed := congrArg (List.filterMap view) same
  simpa only [List.filterMap_map, Function.comp_def, each] using viewed

theorem entries_eq_of_nameless (same : others.map nameless = findings.map nameless) :
    (others.filterMap entry?).map VariableEntry.nameless = (findings.filterMap entry?).map
      VariableEntry.nameless := by
  have viewed := congrArg (List.filterMap entry?) same
  simpa only [List.filterMap_map, Function.comp_def, entry?_nameless,
    List.map_filterMap] using viewed

theorem foldl_record_eq_of_nameless (same : others.map nameless = findings.map nameless)
    (bindings : Bindings) : others.foldl record bindings = findings.foldl record bindings := by
  have folded := congrArg (List.foldl record bindings) same
  simpa only [List.foldl_map, record_nameless] using folded

theorem silent_of_nameless {registry other : Registry}
    (same : others.map nameless = findings.map nameless)
    (silent : ∀ finding ∈ findings, finding.complaint? registry = none) :
    ∀ finding ∈ others, finding.complaint? other = none := by
  intro finding isThere
  have isNameless := List.mem_map_of_mem (f := nameless) isThere
  rw [same] at isNameless
  rcases List.mem_map.mp isNameless with ⟨original, isOriginal, sameFinding⟩
  apply (complaint?_nameless other registry finding).mp
  rw [← sameFinding]
  exact (complaint?_nameless registry registry original).mpr (silent original isOriginal)

/-- A finding that declares nothing has no variable. -/
theorem entry?_of_local? (noLocal : finding.local? = none) : finding.entry? = none := by
  cases finding with
  | declared | repeated => cases noLocal
  | used | created | misplaced | untyped => rfl

theorem declaredIn?_of_local? (noLocal : finding.local? = none) (method : MethodId) :
    finding.declaredIn? method = none := by
  cases finding with
  | declared | repeated => cases noLocal
  | used | created | misplaced | untyped => rfl

end Finding

variable {storage : Storage}

/-! ## Blocks -/

/-- The storage of a parameter or of one of the first locals of a method. -/
def Storage.IsAmong (parameters locals : Nat) : Storage → Prop
  | .parameter rank => rank < parameters
  | .body rank => rank < locals

theorem Storage.IsAmong.later {parameters locals more : Nat}
    (among : storage.IsAmong parameters locals) (le : locals ≤ more) :
    storage.IsAmong parameters more := by
  cases storage with
  | parameter rank => exact among
  | body rank => exact Nat.lt_of_lt_of_le among le

theorem MethodDecl.mem_storages {method : MethodDecl} :
    storage ∈ method.storages ↔
      storage.IsAmong method.parameters.length method.body.localCount := by
  cases storage <;> simp [storages, Storage.IsAmong]

/-- The variables of a block under the names that they are declared with. -/
def writtenBlock (ids : Storage → VariableId) (block : StorageBlock) : Block :=
  block.map fun declared => (declared.1, ids declared.2)

/-- The variables of a block under their new names. -/
def renamedBlock (names : Storage → String) (ids : Storage → VariableId) (block : StorageBlock) :
    Block :=
  block.map fun declared => (names declared.2, ids declared.2)

section

variable {names : Storage → String} {ids : Storage → VariableId} {blocks : List StorageBlock}
  {name : String}
variable {storage : Storage}

theorem lookup_writtenBlock (ids : Storage → VariableId) (block : StorageBlock) (name : String) :
    (writtenBlock ids block).lookup name = (block.lookup name).map ids := by
  induction block with
  | nil => rfl
  | cons declared block ih =>
    rw [writtenBlock, List.map_cons, List.lookup_cons, List.lookup_cons]
    cases name == declared.1 with
    | true => rfl
    | false => exact ih

theorem findSome?_writtenBlock (ids : Storage → VariableId) (blocks : List StorageBlock)
    (name : String) :
    (blocks.map (writtenBlock ids)).findSome? (fun block => block.lookup name) =
      (blocks.findSome? (List.lookup name)).map ids := by
  induction blocks with
  | nil => rfl
  | cons block blocks ih =>
    rw [List.map_cons, List.findSome?_cons, List.findSome?_cons, lookup_writtenBlock, ih]
    cases block.lookup name <;> rfl

theorem exists_of_lookup_renamedBlock {block : StorageBlock} {id : VariableId}
    (found : (renamedBlock names ids block).lookup name = some id) :
    ∃ declared ∈ block, names declared.2 = name ∧ ids declared.2 = id := by
  rcases List.lookup_eq_some_iff.mp found with ⟨front, back, blockEq, _⟩
  have isThere : (name, id) ∈ renamedBlock names ids block := by
    rw [blockEq]
    simp
  rcases List.mem_map.mp isThere with ⟨declared, isDeclared, pairEq⟩
  exact ⟨declared, isDeclared, congrArg Prod.fst pairEq, congrArg Prod.snd pairEq⟩

/-- A name that no variable is given finds no variable. -/
theorem findSome?_renamedBlock_eq_none
    (others : ∀ block ∈ blocks, ∀ declared ∈ block, names declared.2 ≠ name) :
    (blocks.map (renamedBlock names ids)).findSome? (fun block => block.lookup name) = none := by
  apply List.findSome?_eq_none_iff.mpr
  intro renamed isRenamed
  rcases List.mem_map.mp isRenamed with ⟨block, isBlock, rfl⟩
  apply Option.eq_none_iff_forall_ne_some.mpr
  intro id found
  rcases exists_of_lookup_renamedBlock found with ⟨declared, isDeclared, sameName, _⟩
  exact others block isBlock declared isDeclared sameName

/-- The new name of a variable finds this variable. -/
theorem findSome?_renamedBlock
    (isThere : ∃ block ∈ blocks, ∃ declared ∈ block, declared.2 = storage)
    (alone : ∀ block ∈ blocks, ∀ declared ∈ block, names declared.2 = names storage →
      declared.2 = storage) :
    (blocks.map (renamedBlock names ids)).findSome? (fun block => block.lookup (names storage)) =
      some (ids storage) := by
  cases found : (blocks.map (renamedBlock names ids)).findSome?
    (fun block => block.lookup (names storage)) with
  | some id =>
    rcases List.exists_of_findSome?_eq_some found with ⟨renamed, isRenamed, foundThere⟩
    rcases List.mem_map.mp isRenamed with ⟨block, isBlock, rfl⟩
    rcases exists_of_lookup_renamedBlock foundThere with ⟨declared, isDeclared, sameName, rfl⟩
    rw [alone block isBlock declared isDeclared sameName]
  | none =>
    rcases isThere with ⟨block, isBlock, declared, isDeclared, rfl⟩
    have nothing := List.findSome?_eq_none_iff.mp found _ (List.mem_map_of_mem isBlock)
    have differs := List.lookup_eq_none_iff.mp nothing (names declared.2, ids declared.2)
      (List.mem_map_of_mem (f := fun declared => (names declared.2, ids declared.2)) isDeclared)
    simp at differs

theorem exists_declared_of_findSome? (found : blocks.findSome? (List.lookup name) = some storage) :
    ∃ block ∈ blocks, ∃ declared ∈ block, declared.2 = storage := by
  rcases List.exists_of_findSome?_eq_some found with ⟨block, isBlock, foundThere⟩
  rcases List.lookup_eq_some_iff.mp foundThere with ⟨front, back, blockEq, _⟩
  refine ⟨block, isBlock, (name, storage), ?_, rfl⟩
  rw [blockEq]
  simp

end

/-! ## What is compared -/

/-- A method of a program and the renamed one, with all that a walk finds up to the end of the
method. -/
structure RenamedBody where
  registry : Registry
  otherRegistry : Registry
  method : MethodEntry
  names : Storage → String
  ids : Storage → VariableId
  parameters : Nat
  locals : Nat
  found : List Finding

namespace RenamedBody

/-- The method has a variable there. -/
def IsVariable (body : RenamedBody) (storage : Storage) : Prop :=
  storage.IsAmong body.parameters body.locals

/-- Nothing is wrong with the names in the method, and the new names can be told apart from them and
from each other. -/
structure Fits (body : RenamedBody) : Prop where
  same : body.registry.SameButNames body.otherRegistry
  wellFormed : body.registry.WellFormed
  otherWellFormed : body.otherRegistry.WellFormed
  silent : ∀ finding ∈ body.found, finding.complaint? body.registry = none
  locals_le : (body.found.filterMap (Finding.declaredIn? body.method.id)).length ≤ body.locals
  injective : ∀ {storage other}, body.IsVariable storage → body.IsVariable other →
    body.names storage = body.names other → storage = other
  fresh : ∀ {site name meaning}, .used site name meaning ∈ body.found → ∀ {storage},
    body.IsVariable storage →
    body.names storage ≠ name

/-- The open blocks with the names as they are written. -/
def written (body : RenamedBody) (blocks : List StorageBlock) : List Block :=
  blocks.map (writtenBlock body.ids)

/-- The open blocks with the new names. -/
def renamed (body : RenamedBody) (blocks : List StorageBlock) : List Block :=
  blocks.map (renamedBlock body.names body.ids)

/-- Two walks have come to the same place of the method. -/
structure InStep (body : RenamedBody) (around : List StorageBlock) (state : LocalWalk)
    (walk other : ScopeWalk) : Prop where
  block_eq : walk.block = writtenBlock body.ids state.block
  otherBlock_eq : other.block = renamedBlock body.names body.ids state.block
  among : ∀ block ∈ state.block :: around, ∀ declared ∈ block,
    declared.2.IsAmong body.parameters state.count
  ids_eq : ∀ rank, body.ids (.body (state.count + rank)) =
    ⟨body.registry.variableEntries.size + walk.entries.length + rank⟩
  ranks : (walk.localsOf body.method.id).length = state.count
  findings_eq : other.findings.map Finding.nameless = walk.findings.map Finding.nameless

variable {body : RenamedBody} {around : List StorageBlock} {state : LocalWalk}
  {walk other : ScopeWalk}

namespace InStep

variable (inStep : body.InStep around state walk other)

include inStep

theorem entries_length_eq : other.entries.length = walk.entries.length := by
  have lengths := congrArg List.length (Finding.entries_eq_of_nameless inStep.findings_eq)
  rw [List.length_map, List.length_map] at lengths
  exact lengths

theorem localsOf_eq (method : MethodId) : other.localsOf method = walk.localsOf method :=
  Finding.filterMap_eq_of_nameless (Finding.declaredIn?_nameless method) inStep.findings_eq

theorem blocks_eq : walk.block :: body.written around = body.written (state.block :: around) := by
  rw [inStep.block_eq]
  rfl

theorem otherBlocks_eq :
    other.block :: body.renamed around = body.renamed (state.block :: around) := by
  rw [inStep.otherBlock_eq]
  rfl

theorem enter : body.InStep (state.block :: around) state.enter walk.enter other.enter where
  block_eq := rfl
  otherBlock_eq := rfl
  among block isBlock declared isDeclared := by
    rcases List.mem_cons.mp isBlock with rfl | isAround
    · cases isDeclared
    · exact inStep.among block isAround declared isDeclared
  ids_eq := inStep.ids_eq
  ranks := inStep.ranks
  findings_eq := inStep.findings_eq

theorem leave {inside : LocalWalk} {insideWalk insideOther : ScopeWalk}
    (inner : body.InStep (state.block :: around) inside insideWalk insideOther) :
    body.InStep around (state.leave inside) (walk.leave insideWalk) (other.leave insideOther) where
  block_eq := inStep.block_eq
  otherBlock_eq := inStep.otherBlock_eq
  among block isBlock := inner.among block (List.mem_cons_of_mem _ isBlock)
  ids_eq := inner.ids_eq
  ranks := inner.ranks
  findings_eq := inner.findings_eq

/-- Findings that declare nothing. -/
theorem note {more otherMore : List Finding}
    (same : otherMore.map Finding.nameless = more.map Finding.nameless)
    (nothing : ∀ finding ∈ more, finding.local? = none) :
    body.InStep around state (walk.note more) (other.note otherMore) where
  block_eq := inStep.block_eq
  otherBlock_eq := inStep.otherBlock_eq
  among := inStep.among
  ids_eq := by
    have noEntries : more.filterMap Finding.entry? = [] := by
      apply List.filterMap_eq_nil_iff.mpr
      intro finding isThere
      exact Finding.entry?_of_local? (nothing finding isThere)
    have sameEntries : (walk.note more).entries = walk.entries := by
      simp [ScopeWalk.note, ScopeWalk.entries, noEntries]
    rw [sameEntries]
    exact inStep.ids_eq
  ranks := by
    have noLocals : more.filterMap (Finding.declaredIn? body.method.id) = [] := by
      apply List.filterMap_eq_nil_iff.mpr
      intro finding isThere
      exact Finding.declaredIn?_of_local? (nothing finding isThere) _
    have sameLocals : (walk.note more).localsOf body.method.id = walk.localsOf body.method.id := by
      simp [ScopeWalk.note, ScopeWalk.localsOf, noLocals]
    rw [sameLocals]
    exact inStep.ranks
  findings_eq := by simp [ScopeWalk.note, inStep.findings_eq, same]

end InStep

section

variable (fits : body.Fits)

include fits

variable {blocks : List StorageBlock}

/-! ## Names -/

theorem Fits.isVariable_of_mem (inStep : body.InStep around state walk other)
    (grows : walk.findings <+: body.found) {block : StorageBlock}
    (isBlock : block ∈ state.block :: around) {declared : String × Storage}
    (isDeclared : declared ∈ block) : body.IsVariable declared.2 := by
  apply (inStep.among block isBlock declared isDeclared).later
  rw [← inStep.ranks]
  exact Nat.le_trans (grows.filterMap _).length_le fits.locals_le

/-- The renamed name stands for what the name stands for. -/
theorem Fits.meaning?_eq
    (areVariables : ∀ block ∈ blocks, ∀ declared ∈ block, body.IsVariable declared.2)
    {name : String} (fresh : ∀ {storage}, body.IsVariable storage → body.names storage ≠ name)
    (owner : ClassId) :
    body.otherRegistry.meaning? owner (body.renamed blocks) (renamedIn body.names blocks name) =
      body.registry.meaning? owner (body.written blocks) name := by
  rw [fits.same.meaning?_eq fits.wellFormed fits.otherWellFormed, Registry.meaning?,
    Registry.meaning?, written, findSome?_writtenBlock, renamed, renamedIn]
  cases found : blocks.findSome? (List.lookup name) with
  | none =>
    rw [findSome?_renamedBlock_eq_none]
    · rfl
    · intro block isBlock declared isDeclared
      exact fresh (areVariables block isBlock declared isDeclared)
  | some storage =>
    have isThere := exists_declared_of_findSome? found
    dsimp only
    rw [findSome?_renamedBlock isThere]
    · rfl
    · intro block isBlock declared isDeclared sameName
      rcases isThere with ⟨home, isHome, original, isOriginal, rfl⟩
      exact fits.injective (areVariables block isBlock declared isDeclared)
        (areVariables home isHome original isOriginal) sameName

theorem Fits.finding?_eq
    (areVariables : ∀ block ∈ blocks, ∀ declared ∈ block, body.IsVariable declared.2) {node : Expr}
    (found : ∀ finding ∈ ScopeWalk.finding? body.registry body.method (body.written blocks) node,
      finding ∈ body.found) :
    (ScopeWalk.finding? body.otherRegistry body.method (body.renamed blocks)
      (node.withNames (renamedIn body.names blocks))).map Finding.nameless =
        (ScopeWalk.finding? body.registry body.method (body.written blocks) node).map
          Finding.nameless := by
  cases node with
  | identifier site name =>
    have isUsed := found _ rfl
    simp only [Expr.withNames, ScopeWalk.finding?, Option.map_some, Finding.nameless]
    rw [fits.meaning?_eq areVariables (fits.fresh isUsed)]
  | new site className =>
    rw [Expr.withNames, ScopeWalk.finding?, ScopeWalk.finding?,
      fits.same.classNamed?_eq fits.wellFormed fits.otherWellFormed]
  | super site =>
    have sameFault : Resolution.superFault? body.otherRegistry body.method =
        Resolution.superFault? body.registry body.method := by
      rw [Resolution.superFault?, Resolution.superFault?, fits.same.parent?_eq]
    rw [Expr.withNames, ScopeWalk.finding?, ScopeWalk.finding?, sameFault]
  | call site receiver method arguments => cases receiver <;> rfl
  | literal | this | fieldAccess | unary | binary | step => rfl

namespace InStep

variable {stmt : StmtId} {decl : VariableDecl}

/-! ## Expressions and declarations -/

theorem read (inStep : body.InStep around state walk other) {nodes : List Expr}
    (grows : (walk.read body.registry body.method (body.written around) nodes).findings <+:
      body.found) :
    body.InStep around state (walk.read body.registry body.method (body.written around) nodes)
      (other.read body.otherRegistry body.method (body.renamed around)
        (nodes.map (Expr.withNames (renamedIn body.names (state.block :: around))))) := by
  have areVariables : ∀ block ∈ state.block :: around, ∀ declared ∈ block,
      body.IsVariable declared.2 :=
    fun block isBlock declared isDeclared =>
      fits.isVariable_of_mem inStep ((List.prefix_append _ _).trans grows) isBlock isDeclared
  rw [ScopeWalk.read, inStep.blocks_eq] at grows ⊢
  rw [ScopeWalk.read, inStep.otherBlocks_eq]
  have isFound {finding : Finding} (isNoted : finding ∈ nodes.filterMap
      (ScopeWalk.finding? body.registry body.method (body.written (state.block :: around)))) :
      finding ∈ body.found :=
    grows.subset (List.mem_append_right _ isNoted)
  apply inStep.note
  · rw [List.filterMap_map, List.map_filterMap, List.map_filterMap]
    apply List.filterMap_congr
    intro node isNode
    apply fits.finding?_eq areVariables
    intro finding isSaid
    exact isFound (List.mem_filterMap.mpr ⟨node, isNode, isSaid⟩)
  · intro finding isThere
    rcases List.mem_filterMap.mp isThere with ⟨node, _, said⟩
    simpa [said] using
      (@ScopeWalk.finds_of_finding? body.registry body.method
        (body.written (state.block :: around)) node).2

theorem readExpr (inStep : body.InStep around state walk other) {expr : Expr}
    (grows : (walk.read body.registry body.method (body.written around) expr.nodes).findings <+:
      body.found) :
    body.InStep around state (walk.read body.registry body.method (body.written around) expr.nodes)
      (other.read body.otherRegistry body.method (body.renamed around)
        (expr.withNames (renamedIn body.names (state.block :: around))).nodes) := by
  rw [Expr.nodes_withNames]
  exact inStep.read fits grows

theorem readOption (inStep : body.InStep around state walk other) {expr : Option Expr}
    (grows : (walk.read body.registry body.method (body.written around)
      (Expr.nodesOption expr)).findings <+: body.found) :
    body.InStep around state
      (walk.read body.registry body.method (body.written around) (Expr.nodesOption expr))
      (other.read body.otherRegistry body.method (body.renamed around)
        (Expr.nodesOption
          (expr.map (Expr.withNames (renamedIn body.names (state.block :: around)))))) := by
  rw [Expr.nodesOption_withNames]
  exact inStep.read fits grows

/-- Nothing is wrong with a declaration, and so its variable is there behind it. -/
theorem declare_eq
    (grows : (walk.declare body.registry body.method stmt decl).findings <+: body.found) :
    (body.registry.resolveType? decl.type).isSome ∧
      walk.declare body.registry body.method stmt decl =
        { walk.note [.declared stmt decl (walk.nextLocal body.registry body.method decl)] with
          block :=
            walk.block ++ [(decl.name, (walk.nextLocal body.registry body.method decl).id)] } := by
  unfold ScopeWalk.declare ScopeWalk.typed at grows ⊢
  cases typeEq : body.registry.resolveType? decl.type with
  | none =>
    have isFound : .untyped decl ∈ body.found := by
      apply grows.subset
      simp only [typeEq]
      split <;> simp [ScopeWalk.note]
    cases fits.silent _ isFound
  | some type =>
    simp only [typeEq] at grows ⊢
    cases taken : walk.block.lookup decl.name with
    | some existing =>
      have isFound : .repeated stmt decl body.method.id ∈ body.found := by
        apply grows.subset
        simp [taken, ScopeWalk.note]
      cases fits.silent _ isFound
    | none => exact ⟨rfl, rfl⟩

omit fits in
/-- A variable is there under both names. -/
theorem added (inStep : body.InStep around state walk other) (stmt : StmtId) (decl : VariableDecl)
    {entry otherEntry : VariableEntry} (sameEntry : otherEntry.nameless = entry.nameless)
    (isNext : entry.id = ⟨body.registry.variableEntries.size + walk.entries.length⟩)
    (isOwn : entry.method = body.method.id) :
    body.InStep around (state.declare decl)
      { walk.note [.declared stmt decl entry] with block := walk.block ++ [(decl.name, entry.id)] }
      { other.note [.declared stmt { decl with name := body.names (.body state.count) }
          otherEntry] with
        block := other.block ++ [(body.names (.body state.count), otherEntry.id)] } := by
  have idEq : entry.id = body.ids (.body state.count) := isNext.trans (inStep.ids_eq 0).symm
  have sameId : otherEntry.nameless.id = entry.nameless.id := congrArg VariableEntry.id sameEntry
  change otherEntry.id = entry.id at sameId
  constructor
  case block_eq =>
    simp [LocalWalk.declare, writtenBlock, inStep.block_eq, idEq]
  case otherBlock_eq =>
    simp [LocalWalk.declare, renamedBlock, inStep.otherBlock_eq, idEq, sameId]
  case among =>
    intro block isBlock declared isDeclared
    rcases List.mem_cons.mp isBlock with rfl | isAround
    · rcases List.mem_append.mp isDeclared with isOld | isNew
      · exact (inStep.among _ List.mem_cons_self declared isOld).later (Nat.le_succ _)
      · obtain rfl := List.mem_singleton.mp isNew
        exact Nat.lt_succ_self state.count
    · exact (inStep.among block (List.mem_cons_of_mem _ isAround) declared isDeclared).later
        (Nat.le_succ _)
  case ids_eq =>
    intro rank
    have nextEq := inStep.ids_eq (rank + 1)
    simp only [LocalWalk.declare, ScopeWalk.entries, ScopeWalk.note, List.filterMap_append,
      List.length_append] at nextEq ⊢
    rw [Nat.add_right_comm, Nat.add_assoc, nextEq]
    simp only [Finding.entry?, List.filterMap_cons, List.filterMap_nil, List.length_cons,
      List.length_nil]
    congr 1
    omega
  case ranks =>
    have ranks := inStep.ranks
    simp only [LocalWalk.declare, ScopeWalk.localsOf, ScopeWalk.note, List.filterMap_append,
      List.length_append] at ranks ⊢
    rw [ranks]
    simp [Finding.declaredIn?, isOwn]
  case findings_eq =>
    simp [ScopeWalk.note, inStep.findings_eq, Finding.nameless, sameEntry]

theorem declare (inStep : body.InStep around state walk other)
    (grows : (walk.declare body.registry body.method stmt decl).findings <+: body.found) :
    body.InStep around (state.declare decl) (walk.declare body.registry body.method stmt decl)
      (other.declare body.otherRegistry body.method stmt
        { decl with name := body.names (.body state.count) }) := by
  rcases declare_eq fits grows with ⟨typeKnown, declareEq⟩
  rw [declareEq] at grows ⊢
  have bound : state.count < body.locals := by
    have counted := Nat.le_trans (grows.filterMap (Finding.declaredIn? body.method.id)).length_le
      fits.locals_le
    have ranks := inStep.ranks
    rw [ScopeWalk.localsOf] at ranks
    simp only [ScopeWalk.note, List.filterMap_append, List.length_append, ranks] at counted
    simp [Finding.declaredIn?, ScopeWalk.nextLocal] at counted
    omega
  have isVariable : body.IsVariable (.body state.count) := bound
  have sameType : body.otherRegistry.resolveType? decl.type =
      body.registry.resolveType? decl.type :=
    fits.same.resolveType?_eq fits.wellFormed fits.otherWellFormed decl.type
  have vacant : other.block.lookup (body.names (.body state.count)) = none := by
    rw [inStep.otherBlock_eq]
    apply Option.eq_none_iff_forall_ne_some.mpr
    intro id found
    rcases exists_of_lookup_renamedBlock found with ⟨declared, isDeclared, sameName, _⟩
    have isOld := fits.isVariable_of_mem inStep ((List.prefix_append _ _).trans grows)
      List.mem_cons_self isDeclared
    have among := inStep.among _ List.mem_cons_self declared isDeclared
    rw [fits.injective isOld isVariable sameName] at among
    exact Nat.lt_irrefl _ among
  have sameEntry : (other.nextLocal body.otherRegistry body.method
      { decl with name := body.names (.body state.count) }).nameless =
        (walk.nextLocal body.registry body.method decl).nameless := by
    simp only [ScopeWalk.nextLocal, VariableEntry.nameless, sameType, fits.same.variables_size_eq,
      inStep.entries_length_eq, inStep.localsOf_eq]
  have otherEq : other.declare body.otherRegistry body.method stmt
      { decl with name := body.names (.body state.count) } =
        { other.note [.declared stmt { decl with name := body.names (.body state.count) }
            (other.nextLocal body.otherRegistry body.method
              { decl with name := body.names (.body state.count) })] with
          block :=
            other.block ++ [(body.names (.body state.count),
              (other.nextLocal body.otherRegistry body.method
            { decl with name := body.names (.body state.count) }).id)] } := by
    unfold ScopeWalk.declare ScopeWalk.typed
    rcases Option.isSome_iff_exists.mp typeKnown with ⟨type, typeFound⟩
    simp only [sameType, typeFound, vacant]
  rw [otherEq]
  exact inStep.added stmt decl sameEntry rfl rfl

theorem locals (inStep : body.InStep around state walk other) (site : Site StmtId)
    {declared : List VariableDecl}
    (grows : (declared.foldl (ScopeWalk.declare body.registry body.method site.id)
      walk).findings <+: body.found) :
    body.InStep around (declared.foldl LocalWalk.declare state)
      (declared.foldl (ScopeWalk.declare body.registry body.method site.id) walk)
      ((Stmt.renamedLocals body.names state.count declared).foldl
        (ScopeWalk.declare body.otherRegistry body.method site.id) other) := by
  induction declared generalizing state walk other with
  | nil => exact inStep
  | cons decl declared ih =>
    have first := (ScopeWalk.covers_locals site declared _).grows.trans grows
    exact ih (inStep.declare fits first) grows

/-! ## Statements -/

end InStep

omit fits in
/-- Walks that are in step in front of a statement are in step behind it. -/
def StaysInStep (body : RenamedBody) (stmt : Stmt) : Prop :=
  ∀ {around : List StorageBlock} {state : LocalWalk} {walk other : ScopeWalk},
    body.InStep around state walk other →
    (walk.throughStmt body.registry body.method (body.written around) stmt).findings <+:
      body.found →
        body.InStep around (stmt.declares state)
        (walk.throughStmt body.registry body.method (body.written around) stmt)
          (other.throughStmt body.otherRegistry body.method (body.renamed around)
            (stmt.renamed body.names around state))

namespace InStep

omit fits in
theorem option (inStep : body.InStep around state walk other) {part : Option Stmt}
    (each : ∀ stmt ∈ part, body.StaysInStep stmt)
    (grows : (walk.throughOption body.registry body.method (body.written around) part).findings <+:
      body.found) :
    body.InStep around (Stmt.declaresOption part state)
      (walk.throughOption body.registry body.method (body.written around) part)
      (other.throughOption body.otherRegistry body.method (body.renamed around)
        (Stmt.renamedOption body.names around part state)) := by
  cases part with
  | none => exact inStep
  | some stmt => exact each stmt rfl inStep grows

omit fits in
theorem stmts (inStep : body.InStep around state walk other) {statements : List Stmt}
    (each : ∀ stmt ∈ statements, body.StaysInStep stmt)
    (grows : (walk.throughStmts body.registry body.method (body.written around)
      statements).findings <+: body.found) :
    body.InStep around (Stmt.declaresAll statements state)
      (walk.throughStmts body.registry body.method (body.written around) statements)
      (other.throughStmts body.otherRegistry body.method (body.renamed around)
        (Stmt.renamedAll body.names around statements state)) := by
  induction statements generalizing state walk other with
  | nil => exact inStep
  | cons stmt rest ih =>
    have covers := @ScopeWalk.covers_stmts body.registry body.method rest
      (fun stmt _ around => ScopeWalk.covers_stmt around stmt) (body.written around)
      (walk.throughStmt body.registry body.method (body.written around) stmt)
    have first := each stmt List.mem_cons_self inStep (covers.grows.trans grows)
    exact ih first (fun later isLater => each later (List.mem_cons_of_mem _ isLater)) grows

end InStep

theorem staysInStep (stmt : Stmt) : body.StaysInStep stmt := by
  induction stmt with
  | block site statements ih =>
    intro around state walk other inStep grows
    rw [ScopeWalk.throughStmt, inStep.blocks_eq] at grows ⊢
    rw [Stmt.renamed, ScopeWalk.throughStmt, inStep.otherBlocks_eq]
    exact inStep.leave (inStep.enter.stmts ih grows)
  | ifElse site condition thenBranch elseBranch thenIh elseIh =>
    intro around state walk other inStep grows
    rw [Stmt.renamed_ifElse]
    cases elseBranch with
    | none =>
      have tested := (ScopeWalk.covers_stmt (body.written around) thenBranch _).grows.trans grows
      exact thenIh (inStep.readExpr fits tested) grows
    | some elseBranch =>
      have chosen := (ScopeWalk.covers_stmt (body.written around) elseBranch _).grows.trans grows
      have tested := (ScopeWalk.covers_stmt (body.written around) thenBranch _).grows.trans chosen
      exact elseIh elseBranch rfl (thenIh (inStep.readExpr fits tested) chosen) grows
  | whileLoop site condition body ih =>
    intro around state walk other inStep grows
    exact ih (inStep.readExpr fits ((ScopeWalk.covers_stmt _ body _).grows.trans grows)) grows
  | forLoop site init condition update loopBody initIh updateIh bodyIh =>
    intro around state walk other inStep grows
    rw [ScopeWalk.throughStmt_forLoop, inStep.blocks_eq] at grows ⊢
    rw [Stmt.renamed_forLoop, ScopeWalk.throughStmt_forLoop, inStep.otherBlocks_eq,
      Stmt.declares_forLoop]
    dsimp only at grows ⊢
    have updated :=
      (ScopeWalk.covers_stmt (body.written (state.block :: around)) loopBody _).grows.trans grows
    have tested := (ScopeWalk.covers_option (body.written (state.block :: around)) _ update
      fun stmt _ around => ScopeWalk.covers_stmt around stmt).grows.trans updated
    have started :=
      (ScopeWalk.covers_read body.registry body.method (body.written (state.block :: around))
        (Expr.nodesOption condition) _).grows.trans tested
    apply inStep.leave
    have first := inStep.enter.option initIh started
    have second := first.readOption fits tested
    exact bodyIh (second.option updateIh updated) grows
  | ret site value => exact fun inStep grows => inStep.readOption fits grows
  | evaluate site expr => exact fun inStep grows => inStep.readExpr fits grows
  | assign site target value =>
    intro around state walk other inStep grows
    have both := inStep.read fits grows
    rw [List.map_append, ← Expr.nodes_withNames, ← Expr.nodes_withNames] at both
    exact both
  | declare site declared => exact fun inStep grows => inStep.locals fits site grows
  | print site value => exact fun inStep grows => inStep.readExpr fits grows
  | breakLoop | continueLoop | skip => exact fun inStep _ => inStep

/-- Both walks come out of the body in step. -/
theorem InStep.throughBody (inStep : body.InStep [] state walk other) {stmt : Stmt}
    (grows : (walk.throughBody body.registry body.method stmt).findings <+: body.found) :
    ∃ after, body.InStep [] after (walk.throughBody body.registry body.method stmt)
      (other.throughBody body.otherRegistry body.method (stmt.renamedBody body.names state)) := by
  cases stmt with
  | block site statements =>
    exact ⟨_, inStep.stmts (fun stmt _ => staysInStep fits stmt) grows⟩
  | ifElse site condition thenBranch elseBranch =>
    have after := staysInStep fits _ inStep grows
    rw [Stmt.renamed_ifElse] at after
    rw [Stmt.renamedBody, Stmt.renamed_ifElse]
    · exact ⟨_, after⟩
    · simp
  | forLoop site init condition update loopBody =>
    have after := staysInStep fits _ inStep grows
    rw [Stmt.renamed_forLoop] at after
    rw [Stmt.renamedBody, Stmt.renamed_forLoop]
    · exact ⟨_, after⟩
    · simp
  | whileLoop | ret | evaluate | assign | declare | print | breakLoop | continueLoop | skip =>
    exact ⟨_, staysInStep fits _ inStep grows⟩

end

end RenamedBody

end Decaf
