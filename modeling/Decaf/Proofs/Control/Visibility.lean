import Decaf.Proofs.Control.Bodies
import Decaf.Proofs.Control.Completion
import Decaf.Proofs.Resolution.Scoped

/-!
# Visible locals are declared

The name of a local is visible behind its declaration, up to the end of the block or loop around it.
Where each declaration stands in a block or in the initializer of a loop, a reading comes by the
declaration before it comes to a place where the local is visible.
-/

namespace Decaf

namespace Stmt

variable {site : Site StmtId}

/-- Whether a statement declares variables. -/
def isDeclaration : Stmt → Bool
  | .declare .. => true
  | .block .. | .ifElse .. | .whileLoop .. | .forLoop .. | .ret .. | .evaluate .. | .assign ..
  | .print .. | .breakLoop .. | .continueLoop .. | .skip .. => false

/-- Whether a declaration is a branch, or the body or the update of a loop. -/
def declaresAside : Stmt → Bool
  | .ifElse _ _ thenBranch elseBranch => thenBranch.isDeclaration || elseBranch.any isDeclaration
  | .whileLoop _ _ body => body.isDeclaration
  | .forLoop _ _ _ update body => update.any isDeclaration || body.isDeclaration
  | .block .. | .ret .. | .evaluate .. | .assign .. | .declare .. | .print .. | .breakLoop ..
  | .continueLoop .. | .skip .. => false

theorem isDeclaration_branches {condition : Expr} {thenBranch : Stmt} {elseBranch : Option Stmt}
    (inBlocks : (Stmt.ifElse site condition thenBranch elseBranch).declaresAside = false) :
    thenBranch.isDeclaration = false ∧ ∀ stmt ∈ elseBranch, stmt.isDeclaration = false := by
  rw [declaresAside, Bool.or_eq_false_iff, Option.any_eq_false] at inBlocks
  exact ⟨inBlocks.1, fun stmt isElse => by simpa using inBlocks.2 stmt isElse⟩

theorem isDeclaration_update {init update : Option Stmt} {condition : Option Expr} {body : Stmt}
    (inBlocks : (Stmt.forLoop site init condition update body).declaresAside = false) :
    ∀ stmt ∈ update, stmt.isDeclaration = false := by
  rw [declaresAside, Bool.or_eq_false_iff, Option.any_eq_false] at inBlocks
  exact fun stmt isUpdate => by simpa using inBlocks.1 stmt isUpdate

end Stmt

namespace Block

/-- The variables of a block. -/
def ids (block : Block) : List VariableId := block.map Prod.snd

theorem mem_ids_of_lookup {block : Block} {name : String} {id : VariableId}
    (found : block.lookup name = some id) : id ∈ block.ids := by
  rcases List.lookup_eq_some_iff.mp found with ⟨front, back, rfl, _⟩
  simp [ids]

end Block

namespace ScopeWalk

variable {registry : Registry} {method : MethodEntry}
variable {id : VariableId} {members : Members}

/-- Only a declaration in the block itself adds to the block. -/
theorem block_throughStmt (around : List Block) {stmt : Stmt}
    (inBlocks : stmt.Never Stmt.declaresAside) (notDeclaration : stmt.isDeclaration = false)
    (walk : ScopeWalk) : (throughStmt registry method around stmt walk).block = walk.block := by
  induction stmt generalizing walk with
  | declare site declared => cases notDeclaration
  | ifElse site condition thenBranch elseBranch thenIh elseIh =>
    rcases Stmt.isDeclaration_branches inBlocks.here with ⟨thenApart, elseApart⟩
    have thenEq := thenIh inBlocks.child thenApart
    cases elseBranch with
    | none => exact thenEq _
    | some elseBranch =>
      have elseEq := elseIh elseBranch rfl inBlocks.child (elseApart elseBranch rfl)
      exact (elseEq _).trans (thenEq _)
  | whileLoop site condition body ih => exact ih inBlocks.child inBlocks.here _
  | forLoop site init condition update body => cases init <;> cases update <;> rfl
  | block | ret | evaluate | assign | print | breakLoop | continueLoop | skip => rfl

/-- The variable of a declaration that is a branch gets into the block around the branch. -/
example (method : MethodEntry) (condition : Expr) :
    let site : Site StmtId := ⟨⟨0⟩, ⟨1, 1⟩⟩
    let branch : Stmt := .declare site [⟨"x", .primitive .int, ⟨1, 1⟩⟩]
    (({} : ScopeWalk).throughStmt .empty method [] (.ifElse site condition branch none)).block.map
        Prod.fst = ["x"] :=
  rfl

/-- The variables of a block behind declarations are those in front of them and the declared
ones. -/
theorem mem_block_declare (stmt : StmtId) (decl : VariableDecl) (walk : ScopeWalk)
    (isVisible : id ∈ (walk.declare registry method stmt decl).block.ids) :
    id ∈ walk.block.ids ∨ ∃ entry : VariableEntry, entry.id = id ∧
      .declared stmt decl entry ∈ (walk.declare registry method stmt decl).findings := by
  have sameBlock : (walk.typed registry decl).block = walk.block := by
    unfold typed
    split <;> rfl
  unfold declare at isVisible ⊢
  dsimp only at isVisible ⊢
  split at isVisible
  · exact .inl (sameBlock ▸ isVisible)
  · rw [Block.ids, List.map_append, List.mem_append, sameBlock] at isVisible
    rcases isVisible with isOld | isNew
    · exact .inl isOld
    · exact .inr ⟨_, (List.mem_singleton.mp isNew).symm,
        List.mem_append_right _ (List.mem_singleton_self _)⟩

theorem mem_block_locals (stmt : Site StmtId) (declared : List VariableDecl) (walk : ScopeWalk)
    (isVisible : id ∈ (declared.foldl (declare registry method stmt.id) walk).block.ids) :
    id ∈ walk.block.ids ∨ ∃ (decl : VariableDecl) (entry : VariableEntry), entry.id = id ∧
      .declared stmt.id decl entry ∈
        (declared.foldl (declare registry method stmt.id) walk).findings := by
  induction declared generalizing walk with
  | nil => exact .inl isVisible
  | cons decl declared ih =>
    rcases ih _ isVisible with isEarlier | isLater
    · rcases mem_block_declare stmt.id decl walk isEarlier with isOld | ⟨entry, sameId, isNew⟩
      · exact .inl isOld
      · have grows := (@covers_locals registry method stmt declared
          (walk.declare registry method stmt.id decl)).grows
        exact .inr ⟨decl, entry, sameId, grows.subset isNew⟩
    · exact .inr isLater

/-- A place that the walk through all bodies comes by. -/
def OnWay (members : Members) (walk : ScopeWalk) : Prop :=
  walk.findings <+: (throughMembers members).findings

theorem OnWay.earlier {names : List Expr} {locals : List LocalSite} {before after : ScopeWalk}
    (onWay : after.OnWay members) (covers : Covers registry names locals before after) :
    before.OnWay members :=
  covers.grows.trans onWay

/-- The walk through all bodies goes through the body of every method. -/
theorem exists_onWay (wellFormed : members.registry.WellFormed)
    (registered : ∀ {index source}, members.sources[index]? = some source → ∃ method,
      members.registry.methodEntry? ⟨index⟩ = some method)
    {pair : MethodSource × Nat} (isPair : pair ∈ members.sources.toList.zipIdx)
    {method : MethodEntry} (found : members.registry.methodEntry? ⟨pair.2⟩ = some method) :
    ∃ walk : ScopeWalk, walk.block = parameterBlock pair.1.decl method ∧
      (walk.throughBody members.registry method pair.1.decl.body).OnWay members := by
  rcases List.append_of_mem isPair with ⟨front, back, pairsEq⟩
  let before := front.foldl (throughMethod members.registry) {}
  refine ⟨{ before with block := parameterBlock pair.1.decl method }, rfl, ?_⟩
  have behind := covers_methods wellFormed back (throughMethod members.registry before pair)
    fun other isOther => by
      have isThere : other ∈ members.sources.toList.zipIdx := by simp [pairsEq, isOther]
      exact registered (by simpa using List.mem_zipIdx_iff_getElem?.mp isThere)
  rw [OnWay, throughMembers, pairsEq, List.foldl_append, List.foldl_cons]
  have throughEq : throughMethod members.registry before pair =
      throughBody members.registry method pair.1.decl.body
        { before with block := parameterBlock pair.1.decl method } := by
    rw [throughMethod, found]
  exact throughEq ▸ behind.grows

end ScopeWalk

/-- A variable is not a member. -/
theorem Registry.HasMember.not_variable {registry : Registry} {name : String} {owner : ClassId}
    {symbol : Symbol} (has : registry.HasMember name owner symbol) (id : VariableId) :
    symbol ≠ .ofVariable id := by
  induction has with
  | own declares =>
    rintro rfl
    exact declares
  | inherited _ _ _ ih => exact ih

namespace Control

variable {program : Program} {members : Members} {resolution : Resolution}
  {isLocal : VariableId → Prop} {method : MethodEntry} {around : List Block} {walk : ScopeWalk}
  {oracle : Oracle} {fuel : Nat}

/-- The expressions that are evaluated at an event. -/
def Event.exprNodes : Event → List Expr
  | .act stmt => stmt.exprNodes
  | .test condition => condition.nodes

/-- A local has to be declared before its name is come by. -/
def Supplies.ofBindings (bindings : Bindings) (isLocal : VariableId → Prop) : Supplies where
  needs event id := isLocal id ∧ ∃ site name, .identifier site name ∈ event.exprNodes ∧
    bindings.symbol? site.id = some (.ofVariable id)
  gives event id := ∃ site declared,
    event = .act (.declare site declared) ∧ id ∈ bindings.declarationsOf site.id

/-- The locals that are visible with some blocks around. -/
def Visible (isLocal : VariableId → Prop) (blocks : List Block) (id : VariableId) : Prop :=
  isLocal id ∧ ∃ block ∈ blocks, id ∈ block.ids

theorem Visible.of_enter {blocks : List Block} {id : VariableId}
    (visible : Visible isLocal ([] :: blocks) id) : Visible isLocal blocks id := by
  rcases visible with ⟨isLocalId, block, isBlock, isThere⟩
  rcases List.mem_cons.mp isBlock with rfl | isAround
  · cases isThere
  · exact ⟨isLocalId, block, isAround, isThere⟩

/-- Where the locals that are visible in front of a statement are declared, a reading of the
statement comes by no other locals that are not, and behind it those that are visible there are
declared. -/
def ReadsSafely (members : Members) (bindings : Bindings) (isLocal : VariableId → Prop)
    (method : MethodEntry) (oracle : Oracle) (fuel : Nat) (stmt : Stmt) : Prop :=
  ∀ (around : List Block) (walk : ScopeWalk),
    (walk.throughStmt members.registry method around stmt).OnWay members →
      Way.Safe (.ofBindings bindings isLocal) (Visible isLocal (walk.block :: around))
        (Visible isLocal ((walk.throughStmt members.registry method around stmt).block :: around))
        (read oracle fuel stmt)

section

variable (binds : resolution.BindsLexically program members)

include binds

variable {stmt body : Stmt} {bindings : Bindings}

/-- A name that is bound to a local is read where the local is visible. -/
theorem visible_of_needs {event : Event} {nodes : List Expr}
    (onWay : (walk.read members.registry method around nodes).OnWay members)
    (nodesEq : event.exprNodes = nodes) {id : VariableId}
    (needs : (Supplies.ofBindings resolution.bindings isLocal).needs event id) :
    Visible isLocal (walk.block :: around) id := by
  rcases needs with ⟨isLocalId, site, name, isNode, bound⟩
  have isUsed : .used site name
      (members.registry.meaning? method.owner (walk.block :: around) name) ∈
        (walk.read members.registry method around nodes).findings :=
    List.mem_append_right _ (List.mem_filterMap.mpr ⟨_, nodesEq ▸ isNode, rfl⟩)
  refine ⟨isLocalId, ?_⟩
  cases binds.means.mp ((binds.symbol?_eq (onWay.subset isUsed)).symm.trans bound) with
  | ofBlock innermost =>
    rcases List.exists_of_findSome?_eq_some innermost with ⟨block, isBlock, isThere⟩
    exact ⟨block, isBlock, Block.mem_ids_of_lookup isThere⟩
  | ofMember _ has => exact absurd rfl (has.not_variable id)

/-- A simple statement that declares nothing has what it needs. -/
theorem readsSafely_of_read (isSimple : stmt.isSimple = true)
    (throughEq : ∀ around (walk : ScopeWalk), walk.throughStmt members.registry method around stmt =
      walk.read members.registry method around stmt.exprNodes) :
    ReadsSafely members resolution.bindings isLocal method oracle fuel stmt := by
  intro around walk onWay
  rw [throughEq] at onWay ⊢
  rw [read_of_isSimple isSimple]
  exact .act (fun _ =>
    visible_of_needs binds onWay (show Event.exprNodes (.act stmt) = stmt.exprNodes from rfl))
    fun _ => .inl

/-- Behind a declaration its locals are declared. -/
theorem safe_declare (site : Site StmtId) (declared : List VariableDecl)
    (onWay : (walk.throughStmt members.registry method around (.declare site declared)).OnWay
      members) :
    Way.Safe (.ofBindings resolution.bindings isLocal) (Visible isLocal (walk.block :: around))
      (Visible isLocal
        ((walk.throughStmt members.registry method around
          (.declare site declared)).block :: around))
      (.act (.declare site declared)) := by
  refine .act (fun id ⟨_, _, _, isNode, _⟩ => by cases isNode)
    fun id ⟨isLocalId, block, isBlock, isThere⟩ => ?_
  rcases List.mem_cons.mp isBlock with rfl | isAround
  · rcases ScopeWalk.mem_block_locals site declared walk isThere with
      isOld | ⟨decl, entry, rfl, isNew⟩
    · exact .inl ⟨isLocalId, _, List.mem_cons_self, isOld⟩
    · refine .inr ⟨site, declared, rfl, ?_⟩
      rw [binds.declarationsOf_eq]
      exact List.mem_filterMap.mpr ⟨_, onWay.subset isNew, if_pos rfl⟩
  · exact .inl ⟨isLocalId, block, List.mem_cons_of_mem _ isAround, isThere⟩

theorem safe_guarded (oracle : Oracle) (condition : Option Expr) {way : Way}
    (onWay : (walk.read members.registry method around (Expr.nodesOption condition)).OnWay members)
    (safe : Way.Safe (.ofBindings resolution.bindings isLocal)
      (Visible isLocal (walk.block :: around)) (Visible isLocal (walk.block :: around)) way) :
    Way.Safe (.ofBindings resolution.bindings isLocal) (Visible isLocal (walk.block :: around))
      (Visible isLocal (walk.block :: around)) (.guarded oracle condition way) := by
  refine .guarded (fun expr isCondition id => ?_) safe
  obtain rfl := Option.mem_def.mp isCondition
  exact visible_of_needs binds onWay
    (show Event.exprNodes (.test expr) = Expr.nodesOption (some expr) from rfl)

/-! ## Statements -/

omit binds in
theorem safe_readAll (around : List Block) (walk : ScopeWalk) {statements : List Stmt}
    (each : ∀ stmt ∈ statements, ReadsSafely members bindings isLocal method oracle fuel stmt)
    (onWay : (walk.throughStmts members.registry method around statements).OnWay members) :
    Way.Safe (.ofBindings bindings isLocal) (Visible isLocal (walk.block :: around))
      (Visible isLocal
        ((walk.throughStmts members.registry method around statements).block :: around))
      (readAll oracle fuel statements) := by
  induction statements generalizing walk with
  | nil => exact .leave .done
  | cons stmt rest ih =>
    have covers := @ScopeWalk.covers_stmts members.registry method rest
      (fun stmt _ around => ScopeWalk.covers_stmt around stmt) around
      (walk.throughStmt members.registry method around stmt)
    exact (each stmt (by simp) around walk (onWay.earlier covers)).andThen
      (ih _ (fun other isOther => each other (by simp [isOther])) onWay)

omit binds in
theorem safe_readOption (around : List Block) (walk : ScopeWalk) {part : Option Stmt}
    (each : ∀ stmt ∈ part, ReadsSafely members bindings isLocal method oracle fuel stmt)
    (onWay : (walk.throughOption members.registry method around part).OnWay members) :
    Way.Safe (.ofBindings bindings isLocal) (Visible isLocal (walk.block :: around))
      (Visible isLocal ((walk.throughOption members.registry method around part).block :: around))
      (readOption oracle fuel part) := by
  cases part with
  | none => exact .leave .done
  | some stmt => exact each stmt rfl around walk onWay

/-- Behind the initializer nothing is added to the block of a loop. -/
theorem readsSafely_forLoop {site : Site StmtId} {init update : Option Stmt}
    {condition : Option Expr}
    (inBlocks : (Stmt.forLoop site init condition update body).Never Stmt.declaresAside)
    (initSafe : ∀ stmt ∈ init,
      ReadsSafely members resolution.bindings isLocal method oracle fuel stmt)
    (updateSafe : ∀ stmt ∈ update,
      ReadsSafely members resolution.bindings isLocal method oracle fuel stmt)
    (bodySafe : ReadsSafely members resolution.bindings isLocal method oracle fuel body) :
    ReadsSafely members resolution.bindings isLocal method oracle fuel
      (.forLoop site init condition update body) := by
  intro around walk onWay
  rw [ScopeWalk.block_throughStmt around inBlocks rfl, read_forLoop]
  rw [ScopeWalk.throughStmt_forLoop] at onWay
  let started := walk.enter.throughOption members.registry method (walk.block :: around) init
  let tested := started.read members.registry method (walk.block :: around)
    (Expr.nodesOption condition)
  let updated := tested.throughOption members.registry method (walk.block :: around) update
  have onBody : (updated.throughStmt members.registry method (walk.block :: around) body).OnWay
    members := onWay
  have onUpdate : updated.OnWay members := onBody.earlier (ScopeWalk.covers_stmt _ body updated)
  have onTest : tested.OnWay members :=
    onUpdate.earlier (ScopeWalk.covers_option _ tested update fun stmt _ around =>
      ScopeWalk.covers_stmt around stmt)
  have onInit : started.OnWay members := onTest.earlier (ScopeWalk.covers_read _ method _ _ started)
  have sameBlock : updated.block = started.block := by
    cases update with
    | none => rfl
    | some stmt =>
      exact ScopeWalk.block_throughStmt _ inBlocks.child
        (Stmt.isDeclaration_update inBlocks.here stmt rfl) tested
  have first := safe_readOption (walk.block :: around) walk.enter initSafe onInit
  have again := (safe_readOption (walk.block :: around) tested updateSafe onUpdate).keep
  have iteration := (bodySafe (walk.block :: around) updated onBody).keep.resume
  rw [sameBlock] at iteration
  have guarded := safe_guarded binds oracle condition onTest (iteration.andThen (again.rerun fuel))
  exact (first.andThen (guarded.loop fuel)).inBlock fun _ => .of_enter

/-- No reading comes by a local that is not declared. -/
theorem readsSafely (inBlocks : stmt.Never Stmt.declaresAside) :
    ReadsSafely members resolution.bindings isLocal method oracle fuel stmt := by
  induction stmt with
  | block site statements ih =>
    intro around walk onWay
    have inner := safe_readAll (walk.block :: around) walk.enter
      (fun stmt isThere => ih stmt isThere (inBlocks.child isThere)) onWay
    exact inner.inBlock fun _ => .of_enter
  | ifElse site condition thenBranch elseBranch thenIh elseIh =>
    intro around walk onWay
    have thenInside := inBlocks.child (show thenBranch ∈ _ by simp [Stmt.children])
    rcases Stmt.isDeclaration_branches inBlocks.here with ⟨thenApart, elseApart⟩
    rw [ScopeWalk.block_throughStmt around inBlocks rfl]
    cases elseBranch with
    | none =>
      have thenSafe := thenIh thenInside around _ onWay
      exact .choose (fun _ =>
        visible_of_needs binds (onWay.earlier (ScopeWalk.covers_stmt _ _ _)) rfl)
        thenSafe.keep (.leave .done)
    | some elseBranch =>
      have elseSafe := elseIh elseBranch rfl inBlocks.child around _ onWay
      rw [ScopeWalk.block_throughStmt around thenInside thenApart] at elseSafe
      have onThen := onWay.earlier (ScopeWalk.covers_stmt around elseBranch _)
      have thenSafe := thenIh thenInside around _ onThen
      exact .choose (fun _ =>
        visible_of_needs binds (onThen.earlier (ScopeWalk.covers_stmt _ _ _)) rfl)
        thenSafe.keep elseSafe.keep
  | whileLoop site condition body ih =>
    intro around walk onWay
    rw [ScopeWalk.block_throughStmt around inBlocks rfl]
    have bodySafe := ih inBlocks.child around _ onWay
    have tested := onWay.earlier (ScopeWalk.covers_stmt around body _)
    exact .loop (safe_guarded binds oracle (some condition) tested bodySafe.keep.resume) fuel
  | forLoop site init condition update body initIh updateIh bodyIh =>
    exact readsSafely_forLoop binds inBlocks
      (fun stmt isInit =>
        initIh stmt isInit (inBlocks.child (by simp [Stmt.children, Option.mem_def.mp isInit])))
      (fun stmt isUpdate =>
        updateIh stmt isUpdate
          (inBlocks.child (by simp [Stmt.children, Option.mem_def.mp isUpdate])))
      (bodyIh inBlocks.child)
  | declare site declared => exact fun around walk => safe_declare binds site declared
  | ret | evaluate | assign | print => exact readsSafely_of_read binds rfl fun _ _ => rfl
  | skip site =>
    exact readsSafely_of_read binds rfl fun around walk => (walk.read_nil _ _ around).symm
  | breakLoop | continueLoop => exact fun around walk _ => .leave _

/-! ## Bodies -/

theorem safe_readBody (inBlocks : body.Never Stmt.declaresAside)
    (onWay : (walk.throughBody members.registry method body).OnWay members) :
    Way.Safe (.ofBindings resolution.bindings isLocal) (Visible isLocal [walk.block])
      (Visible isLocal [(walk.throughBody members.registry method body).block])
        (read oracle fuel body) := by
  cases body with
  | block site statements =>
    exact safe_readAll [] walk (fun stmt isThere =>
      readsSafely binds (inBlocks.child isThere)) onWay
  | ifElse | whileLoop | forLoop | ret | evaluate | assign | declare | print | breakLoop
  | continueLoop | skip =>
    exact @readsSafely _ _ _ _ method _ _ binds _ inBlocks [] walk onWay

end

/-- Where no parameter is a local, every reading of a body comes to the declarations of locals
before it comes to their names. -/
theorem meets_read (binds : resolution.BindsLexically program members)
    (wellFormed : members.registry.WellFormed) {pair : MethodSource × Nat}
    (isPair : pair ∈ members.sources.toList.zipIdx)
    (found : members.registry.methodEntry? ⟨pair.2⟩ = some method)
    (apart : ∀ id ∈ method.parameters, ¬isLocal id)
    (inBlocks : pair.1.decl.body.Never Stmt.declaresAside) :
    (Supplies.ofBindings resolution.bindings isLocal).Meets
      (read oracle fuel pair.1.decl.body []).met := by
  rcases ScopeWalk.exists_onWay wellFormed
    (fun recorded => (binds.parameters recorded).imp fun method found => found.1) isPair found with
    ⟨walk, blockEq, onWay⟩
  refine (@safe_readBody _ _ _ _ method walk oracle fuel binds _ inBlocks onWay [] .nil
    fun id visible => ?_).2.1
  rcases visible with ⟨isLocalId, block, isBlock, isThere⟩
  obtain rfl := List.mem_singleton.mp isBlock
  rcases List.mem_map.mp isThere with ⟨declared, isDeclared, rfl⟩
  rw [blockEq] at isDeclared
  exact absurd isLocalId (apart _ (List.of_mem_zip isDeclared).2)

end Control

end Decaf
