import Decaf.Proofs.Typing.Expressions
import Decaf.Proofs.Members.Dispatch
import Decaf.Proofs.Resolution.Methods

/-!
# Soundness of type checking

When checking a statement adds no complaint, the statement is accepted by the rules.
-/

namespace Decaf

namespace Checking

variable {setting : Setting} {count : Nat} {inLoop : Bool}
variable {expr : Expr}

/-! ## Conditions and values -/

theorem ensures_checkValue (sound : setting.Sound)
    (checkable : Checkable setting count expr.nodes) :
    Ensures count (expr.nodes.map Expr.id) (checkValue setting expr) fun result table =>
      ∃ type, result = some type ∧ HasType setting table expr type := by
  rw [← List.append_nil (expr.nodes.map Expr.id)]
  refine (ensures_checkExpr sound expr checkable).bind fun meaning => ?_
  refine (ensures_asValue setting expr meaning).mono (List.Subset.refl _) ?_
  rintro _ table valued earlier ⟨found, foundEq, means⟩ agrees
  rcases valued found foundEq with ⟨type, rfl, notVoid, resultEq⟩
  exact ⟨type, resultEq, means.congr fun node _ => agrees node.id (by simp), notVoid⟩

theorem ensures_checkCondition (sound : setting.Sound) (construct : String) {condition : Expr}
    (checkable : Checkable setting count condition.nodes) :
    Ensures count (condition.nodes.map Expr.id) (checkCondition setting construct condition)
      fun _ table => HasType setting table condition .bool := by
  rw [← List.append_nil (condition.nodes.map Expr.id)]
  refine (ensures_checkValue sound checkable).bind fun result => ?_
  cases result with
  | none => exact (ensures_pure ()).mono (List.Subset.refl _) (by simp)
  | some type =>
    dsimp only
    split
    next isBool =>
      refine (ensures_pure ()).mono (List.Subset.refl _) ?_
      rintro _ table - earlier ⟨_, ⟨⟩, hasType⟩ agrees
      exact isBool ▸ hasType.congr fun node _ => agrees node.id (by simp)
    next => exact (ensures_report _ (by simp [Cause.category])).mono (List.Subset.refl _) (by simp)

/-! ## Simple statements -/

section

variable (sound : setting.Sound) (site : Site StmtId)
include sound site

theorem ensures_checkReturn (value : Option Expr)
    (checkable : Checkable setting count (Expr.nodesOption value)) :
    Ensures count ((Expr.nodesOption value).map Expr.id) (checkReturn setting site.position value)
      fun _ table => Accepted setting table inLoop (.ret site value) := by
  unfold checkReturn
  cases value with
  | none =>
    dsimp only
    split
    next isVoid => exact (ensures_pure ()).mono (by simp) fun _ _ _ => .retNone isVoid
    next => exact (ensures_report _ (by simp [Cause.category])).mono (by simp) (by simp)
  | some value =>
    dsimp only
    rw [← List.append_nil ((Expr.nodesOption (some value)).map Expr.id)]
    split
    next =>
      refine (ensures_checkExpr sound value checkable).bind fun _ => ?_
      exact (ensures_report _ (by simp [Cause.category])).mono (List.Subset.refl _) (by simp)
    next notVoid =>
      refine (ensures_checkValue sound checkable).bind fun result => ?_
      cases result with
      | none => exact (ensures_pure ()).mono (List.Subset.refl _) (by simp)
      | some type =>
        dsimp only
        split
        next fits =>
          refine (ensures_pure ()).mono (List.Subset.refl _) ?_
          rintro _ table - earlier ⟨_, ⟨⟩, hasType⟩ agrees
          exact .retValue notVoid (hasType.congr fun node _ => agrees node.id (by simp)) fits
        next =>
          exact (ensures_report _ (by simp [Cause.category])).mono (List.Subset.refl _) (by simp)

theorem ensures_checkAssign (target value : Expr)
    (checkable : Checkable setting count (target.nodes ++ value.nodes)) :
    Ensures count ((target.nodes ++ value.nodes).map Expr.id) (checkAssign setting target value)
      fun _ table => Accepted setting table inLoop (.assign site target value) := by
  have targetPart := checkable.part (List.sublist_append_left _ _)
  have valuePart := checkable.part (List.sublist_append_right _ _)
  unfold checkAssign
  split
  next assignable =>
    rw [List.map_append, ← List.append_nil (value.nodes.map Expr.id)]
    refine (ensures_checkExpr sound target targetPart).bind fun meaning => ?_
    refine (ensures_checkValue sound valuePart).bind fun result => ?_
    split
    next expected type =>
      split
      next fits =>
        refine (ensures_pure ()).mono (List.Subset.refl _) ?_
        rintro _ table - between ⟨_, ⟨⟩, hasType⟩ agrees earlier ⟨_, ⟨⟩, targetMeans⟩ targetAgrees
        refine .assign assignable (targetMeans.congr fun node nodeMem => targetAgrees node.id ?_)
          (hasType.congr fun node _ => agrees node.id (by simp)) fits
        rw [List.append_nil]
        exact not_mem_ids checkable.nodup nodeMem
      next =>
        exact (ensures_report _ (by simp [Cause.category])).mono (List.Subset.refl _) (by simp)
    next unknown =>
      refine (ensures_pure ()).mono (List.Subset.refl _) ?_
      rintro _ table - between ⟨type, rfl, -⟩ - earlier ⟨found, rfl, targetMeans⟩ -
      rcases targetMeans.value_of_isAssignable assignable with ⟨expected, rfl⟩
      exact (unknown expected type rfl rfl).elim
  next =>
    have silenced : Ensures count (value.nodes.map Expr.id) (do
        report target.position .notAssignable
        let _ ← checkExpr setting value) fun _ _ => False := by
      rw [← List.append_nil (value.nodes.map Expr.id), ← List.nil_append
        (value.nodes.map Expr.id ++ [])]
      refine (ensures_report _ (by simp [Cause.category])).bind fun _ => ?_
      refine (ensures_checkExpr sound value valuePart).bind fun _ => ?_
      exact (ensures_pure ()).mono (List.Subset.refl _) fun _ _ _ _ _ _ _ absurd _ => absurd
    exact silenced.mono (by simp) fun _ _ absurd => absurd.elim

theorem ensures_checkEvaluate (checkable : Checkable setting count expr.nodes) :
    Ensures count (expr.nodes.map Expr.id) (checkEvaluate setting expr) fun _ table =>
      Accepted setting table inLoop (.evaluate site expr) := by
  rw [← List.append_nil (expr.nodes.map Expr.id)]
  refine (ensures_checkExpr sound expr checkable).bind fun meaning => ?_
  split
  next type =>
    refine (ensures_pure ()).mono (List.Subset.refl _) ?_
    rintro _ table - earlier ⟨_, ⟨⟩, means⟩ agrees
    exact .evaluate (means.congr fun node _ => agrees node.id (by simp))
  next notValue =>
    rw [← List.nil_append []]
    refine (ensures_asValue setting expr meaning).bind fun _ => ?_
    refine (ensures_pure ()).mono (List.Subset.refl _) ?_
    rintro _ table - _ valued - earlier ⟨found, rfl, -⟩ -
    rcases valued found rfl with ⟨type, rfl, -⟩
    exact (notValue type rfl).elim

theorem ensures_checkPrint {value : Expr} (checkable : Checkable setting count value.nodes) :
    Ensures count (value.nodes.map Expr.id) (checkPrint setting value) fun _ table =>
      Accepted setting table inLoop (.print site value) := by
  rw [← List.append_nil (value.nodes.map Expr.id)]
  refine (ensures_checkValue sound checkable).bind fun result => ?_
  cases result with
  | none => exact (ensures_pure ()).mono (List.Subset.refl _) (by simp)
  | some type =>
    dsimp only
    split
    next printable =>
      refine (ensures_pure ()).mono (List.Subset.refl _) ?_
      rintro _ table - earlier ⟨_, ⟨⟩, hasType⟩ agrees
      exact .print (hasType.congr fun node _ => agrees node.id (by simp)) printable
    next => exact (ensures_report _ (by simp [Cause.category])).mono (List.Subset.refl _) (by simp)

end

theorem ensures_checkLoopExit (position : Position) (keyword : String) :
    Ensures count [] (checkLoopExit inLoop position keyword) fun _ _ => inLoop = true := by
  unfold checkLoopExit
  split
  next isInLoop => exact (ensures_pure ()).mono (List.Subset.refl _) fun _ _ _ => isInLoop
  next => exact (ensures_report _ (by simp [Cause.category])).mono (List.Subset.refl _) (by simp)

/-! ## Statements -/

theorem ensures_checkStmts {statements : List Stmt}
    (each : ∀ stmt ∈ statements, Checkable setting count stmt.exprNodes →
      Ensures count (stmt.exprNodes.map Expr.id) (checkStmt setting inLoop stmt) fun _ table =>
        Accepted setting table inLoop stmt)
    (checkable : Checkable setting count (Stmt.exprNodesAll statements)) :
    Ensures count ((Stmt.exprNodesAll statements).map Expr.id)
      (checkStmts setting inLoop statements)
      fun _ table => ∀ stmt ∈ statements, Accepted setting table inLoop stmt := by
  induction statements with
  | nil => exact (ensures_pure ()).mono (by simp) (by simp)
  | cons stmt statements ih =>
    rw [Stmt.exprNodesAll] at checkable ⊢
    rw [List.map_append]
    have firstPart := checkable.part (List.sublist_append_left _ _)
    have restPart := checkable.part (List.sublist_append_right _ _)
    refine (each stmt (by simp) firstPart).bind fun _ => ?_
    refine (ih (fun other isOther => each other (by simp [isOther])) restPart).mono
      (List.Subset.refl _) ?_
    intro _ table restAccepted earlier accepted agrees other isOther
    rcases List.mem_cons.mp isOther with rfl | inRest
    · exact accepted.congr fun node nodeMem => agrees node.id (not_mem_ids checkable.nodup nodeMem)
    · exact restAccepted other inRest

/-- A check of something that may be absent. -/
theorem ensures_part {Item : Type} {part : Option Item} {nodes : Item → List Expr}
    {check : Item → Checking Unit} {holds : Item → TypeTable → Prop}
    (each : ∀ item ∈ part, Checkable setting count (nodes item) →
      Ensures count ((nodes item).map Expr.id) (check item) fun _ => holds item)
    (checkable : Checkable setting count ((part.map nodes).getD [])) :
    Ensures count (((part.map nodes).getD []).map Expr.id) (part.elim (pure ()) check)
      fun _ table => ∀ item ∈ part, holds item table := by
  cases part with
  | none => exact (ensures_pure ()).mono (by simp) (by simp)
  | some item =>
    refine (each item rfl checkable).mono (List.Subset.refl _) ?_
    rintro _ _ itemHolds _ ⟨⟩
    exact itemHolds

theorem checkStmt_ifElse (site : Site StmtId) (condition : Expr) (thenBranch : Stmt)
    (elseBranch : Option Stmt) :
    checkStmt setting inLoop (.ifElse site condition thenBranch elseBranch) = (do
      checkCondition setting "if" condition
      checkStmt setting inLoop thenBranch
      elseBranch.elim (pure ()) (checkStmt setting inLoop)) := by
  cases elseBranch <;> rfl

theorem checkStmt_forLoop (site : Site StmtId) (init update : Option Stmt) (condition : Option Expr)
    (body : Stmt) :
    checkStmt setting inLoop (.forLoop site init condition update body) = (do
      condition.elim (pure ()) (checkCondition setting "for")
      init.elim (pure ()) (checkStmt setting inLoop)
      checkStmt setting true body
      update.elim (pure ()) (checkStmt setting true)) := by
  cases init <;> cases condition <;> cases update <;> rfl

theorem ensures_checkStmt (sound : setting.Sound) (stmt : Stmt)
    (checkable : Checkable setting count stmt.exprNodes) :
    Ensures count (stmt.exprNodes.map Expr.id) (checkStmt setting inLoop stmt) fun _ table =>
      Accepted setting table inLoop stmt := by
  induction stmt generalizing inLoop with
  | block site statements ih =>
    exact (ensures_checkStmts (fun stmt stmtMem part => ih stmt stmtMem part) checkable).mono
      (List.Subset.refl _) fun _ _ => .block
  | ifElse site condition thenBranch elseBranch thenIh elseIh =>
    have nodesEq : Stmt.exprNodes (.ifElse site condition thenBranch elseBranch) =
        condition.nodes ++ (thenBranch.exprNodes ++ (elseBranch.map Stmt.exprNodes).getD []) := by
      cases elseBranch <;> simp [Stmt.exprNodes]
    rw [nodesEq] at checkable ⊢
    have branches := checkable.part (List.sublist_append_right _ _)
    rw [checkStmt_ifElse, List.map_append, List.map_append]
    refine (ensures_checkCondition sound "if" (checkable.part (List.sublist_append_left _ _))).bind
      fun _ => ?_
    refine (thenIh (branches.part (List.sublist_append_left _ _))).bind fun _ => ?_
    refine (ensures_part (fun stmt isElse part => elseIh stmt isElse part)
      (branches.part (List.sublist_append_right _ _))).mono (List.Subset.refl _) ?_
    intro _ table elseAccepted between thenAccepted thenAgrees earlier conditionTyped agrees
    refine .ifElse (conditionTyped.congr fun node nodeMem => agrees node.id ?_)
      (thenAccepted.congr fun node nodeMem => thenAgrees node.id ?_) elseAccepted
    · rw [← List.map_append]
      exact not_mem_ids checkable.nodup nodeMem
    · exact not_mem_ids branches.nodup nodeMem
  | whileLoop site condition body ih =>
    have nodesEq : Stmt.exprNodes (.whileLoop site condition body) = condition.nodes ++
      body.exprNodes := rfl
    rw [nodesEq] at checkable ⊢
    rw [List.map_append]
    refine (ensures_checkCondition sound "while"
      (checkable.part (List.sublist_append_left _ _))).bind fun _ => ?_
    refine (ih (checkable.part (List.sublist_append_right _ _))).mono (List.Subset.refl _) ?_
    intro _ table bodyAccepted earlier conditionTyped agrees
    refine .whileLoop (conditionTyped.congr fun node nodeMem => agrees node.id ?_) bodyAccepted
    exact not_mem_ids checkable.nodup nodeMem
  | forLoop site init condition update body initIh updateIh bodyIh =>
    -- The condition is checked first, and the update last.
    have perm : (Expr.nodesOption condition ++
        ((init.map Stmt.exprNodes).getD [] ++ (body.exprNodes ++
        (update.map Stmt.exprNodes).getD []))).Perm
        (Stmt.forLoop site init condition update body).exprNodes := by
      rw [Stmt.exprNodes_forLoop, ← List.append_assoc, List.append_assoc (_ ++ _)]
      exact List.perm_append_comm.append List.perm_append_comm
    have all := checkable.perm perm
    have afterCondition := all.part (List.sublist_append_right _ _)
    have afterInit := afterCondition.part (List.sublist_append_right _ _)
    rw [checkStmt_forLoop]
    have typing : Ensures count
        ((Expr.nodesOption condition).map Expr.id ++
          (((init.map Stmt.exprNodes).getD []).map Expr.id ++
          (body.exprNodes.map Expr.id ++ ((update.map Stmt.exprNodes).getD []).map Expr.id))) (do
        condition.elim (pure ()) (checkCondition setting "for")
        init.elim (pure ()) (checkStmt setting inLoop)
        checkStmt setting true body
        update.elim (pure ()) (checkStmt setting true)) fun _ table =>
          Accepted setting table inLoop (.forLoop site init condition update body) := by
      refine (ensures_part (fun expr _ part => ensures_checkCondition sound "for" part)
        (all.part (List.sublist_append_left _ _))).bind fun _ => ?_
      refine (ensures_part (fun stmt isInit part => initIh stmt isInit part)
        (afterCondition.part (List.sublist_append_left _ _))).bind fun _ => ?_
      refine (bodyIh (afterInit.part (List.sublist_append_left _ _))).bind fun _ => ?_
      refine (ensures_part (fun stmt isUpdate part => updateIh stmt isUpdate part)
        (afterInit.part (List.sublist_append_right _ _))).mono (List.Subset.refl _) ?_
      intro _ table updateAccepted third bodyAccepted bodyAgrees second
        initAccepted initAgrees first conditionTyped conditionAgrees
      refine .forLoop (fun stmt isInit => (initAccepted stmt isInit).congr fun node nodeMem =>
          initAgrees node.id ?_)
        (fun expr isCondition => (conditionTyped expr isCondition).congr fun node nodeMem =>
          conditionAgrees node.id ?_) updateAccepted
        (bodyAccepted.congr fun node nodeMem =>
          bodyAgrees node.id (not_mem_ids afterInit.nodup nodeMem))
      · rw [← List.map_append]
        exact not_mem_ids afterCondition.nodup (by cases isInit; exact nodeMem)
      · rw [← List.map_append, ← List.map_append]
        exact not_mem_ids all.nodup (by cases isCondition; exact nodeMem)
    refine typing.mono ?_ fun _ _ accepted => accepted
    rw [← List.map_append, ← List.map_append, ← List.map_append]
    exact (perm.map Expr.id).subset
  | ret site value => exact ensures_checkReturn sound site value checkable
  | evaluate site expr => exact ensures_checkEvaluate sound site checkable
  | assign site target value => exact ensures_checkAssign sound site target value checkable
  | declare site declared => exact (ensures_pure ()).mono (List.Subset.refl _) fun _ _ _ => .declare
  | print site value => exact ensures_checkPrint sound site checkable
  | breakLoop site =>
    refine (ensures_checkLoopExit site.position "break").mono (List.Subset.refl _) ?_
    rintro _ _ rfl
    exact .breakLoop
  | continueLoop site =>
    refine (ensures_checkLoopExit site.position "continue").mono (List.Subset.refl _) ?_
    rintro _ _ rfl
    exact .continueLoop
  | skip site => exact (ensures_pure ()).mono (List.Subset.refl _) fun _ _ _ => .skip

end Checking

/-!
## Soundness of type checking

Type checking a resolved program raises no internal error. When it raises none at all, every body is
accepted by the rules, and the table holds what they ask for.
-/

namespace Registry.Extends

variable {before after : Registry}

theorem findMethod?_eq (grows : Extends before after) (wellFormed : before.WellFormed)
    (laterWellFormed : after.WellFormed) (owner : ClassId) (name : String) :
    after.findMethod? owner name = before.findMethod? owner name :=
  grows.sameMembers.findMethod?_eq wellFormed laterWellFormed owner name

theorem findField?_eq (grows : Extends before after) (wellFormed : before.WellFormed)
    (laterWellFormed : after.WellFormed) (owner : ClassId) (name : String) :
    after.findField? owner name = before.findField? owner name :=
  grows.sameMembers.findField?_eq wellFormed laterWellFormed owner name

end Registry.Extends

namespace Checking

variable {registry : Registry} {bindings : Bindings} {count : Nat}

/-- A method body follows the rules, and a method with a result does not reach the end of its
body. -/
structure BodyAccepted (setting : Setting) (table : TypeTable) (body : Stmt) : Prop where
  accepted : Accepted setting table false body
  returns : setting.method.returnType ≠ .void → body.canComplete = false

theorem BodyAccepted.congr {setting : Setting} {table other : TypeTable} {body : Stmt}
    (bodyAccepted : BodyAccepted setting table body)
    (agrees : ∀ node ∈ body.exprNodes, other.AgreesAt table node.id) :
    BodyAccepted setting other body :=
  ⟨bodyAccepted.accepted.congr agrees, bodyAccepted.returns⟩

theorem ensures_checkMethod (body : MethodBody)
    (sound : ∀ method, Setting.Sound ⟨registry, bindings, method⟩)
    (checkable : ∀ method, registry.methodEntry? body.id = some method →
      Checkable ⟨registry, bindings, method⟩ count body.source.decl.body.exprNodes) :
    Ensures count (body.source.decl.body.exprNodes.map Expr.id) (checkMethod registry bindings body)
      fun _ table => ∀ method, registry.methodEntry? body.id = some method →
        BodyAccepted ⟨registry, bindings, method⟩ table body.source.decl.body := by
  unfold checkMethod
  cases found : registry.methodEntry? body.id with
  | none => exact (ensures_pure ()).mono (List.nil_subset _) (by simp)
  | some method =>
    dsimp only
    rw [← List.append_nil (body.source.decl.body.exprNodes.map Expr.id)]
    refine (ensures_checkStmt (sound method) body.source.decl.body (checkable method found)).bind
      fun _ => ?_
    unfold checkCompletion
    split
    · exact (ensures_report _ (by simp [Cause.category])).mono (List.Subset.refl _) (by simp)
    next completes =>
      refine (ensures_pure ()).mono (List.Subset.refl _) ?_
      rintro _ table - earlier accepted agrees _ ⟨⟩
      refine ⟨accepted.congr fun node _ => agrees node.id (by simp), fun notVoid => ?_⟩
      rw [not_and] at completes
      simpa using completes notVoid

theorem ensures_checkMethods (bodies : List MethodBody)
    (sound : ∀ method, Setting.Sound ⟨registry, bindings, method⟩)
    (checkable : ∀ body ∈ bodies, ∀ method, registry.methodEntry? body.id = some method →
      Checkable ⟨registry, bindings, method⟩ count body.source.decl.body.exprNodes)
    (nodup : ((bodies.flatMap fun body => body.source.decl.body.exprNodes).map Expr.id).Nodup) :
    Ensures count ((bodies.flatMap fun body => body.source.decl.body.exprNodes).map Expr.id)
      (checkMethods registry bindings bodies) fun _ table => ∀ body ∈ bodies, ∀ method,
        registry.methodEntry? body.id = some method →
          BodyAccepted ⟨registry, bindings, method⟩ table body.source.decl.body := by
  induction bodies with
  | nil => exact (ensures_pure ()).mono (by simp) (by simp)
  | cons body bodies ih =>
    rw [List.flatMap_cons] at nodup ⊢
    rw [List.map_append]
    refine (ensures_checkMethod body sound (checkable body (by simp))).bind fun _ => ?_
    refine (ih (fun other isOther => checkable other (by simp [isOther])) ?_).mono
      (List.Subset.refl _) ?_
    · rw [List.map_append] at nodup
      exact (List.nodup_append.mp nodup).2.1
    · intro _ table restAccepted earlier bodyAccepted agrees other isOther method found
      rcases List.mem_cons.mp isOther with rfl | inRest
      · exact (bodyAccepted method found).congr fun node nodeMem =>
          agrees node.id (not_mem_ids nodup nodeMem)
      · exact restAccepted other inRest method found

end Checking

namespace Findings

/-- The bodies in the order of checking are those of all sources. -/
theorem perm_inSourceOrder (sources : Array MethodSource) :
    (MethodBody.inSourceOrder sources).Perm
      (sources.toList.zipIdx.map fun (source, index) => ⟨⟨index⟩, source⟩) :=
  perm_sortBy _ _

/-- A source is checked under the number of its place. -/
theorem mem_inSourceOrder {sources : Array MethodSource} {body : MethodBody} :
    body ∈ MethodBody.inSourceOrder sources ↔ sources[body.id.index]? = some body.source := by
  rw [(perm_inSourceOrder sources).mem_iff, List.mem_map]
  constructor
  · rintro ⟨pair, isPair, rfl⟩
    rw [← Array.getElem?_toList]
    exact List.mem_zipIdx_iff_getElem?.mp isPair
  · intro recorded
    refine ⟨(body.source, body.id.index), ?_, rfl⟩
    rw [List.mem_zipIdx_iff_getElem?, Array.getElem?_toList]
    exact recorded

theorem flatMap_inSourceOrder {Node : Type} (sources : Array MethodSource)
    (nodes : MethodSource → List Node) :
    ((MethodBody.inSourceOrder sources).flatMap fun body => nodes body.source).Perm
      (sources.toList.flatMap nodes) := by
  have perm := (perm_inSourceOrder sources).flatMap_right fun body => nodes body.source
  rw [List.flatMap_map] at perm
  rwa [Members.flatMap_zipIdx sources.toList nodes] at perm

theorem checked_ofResolution {program : Program} {members : Members} {resolution : Resolution}
    (isForest : program.IsForest) (bodies : program.Bodies members.sources.toList)
    (dispatch : members.registry.SoundDispatch) (wellFormed : members.registry.WellFormed)
    (resolved : Resolution.Resolved members.registry members.sources.toList.zipIdx resolution)
    (silent : resolution.diagnostics = []) :
    (∀ diagnostic ∈ (ofResolution program.exprs.size members.sources resolution).diagnostics,
      diagnostic.cause.category ≠ .internal) ∧
    ((ofResolution program.exprs.size members.sources resolution).diagnostics = [] →
      ∀ body ∈ MethodBody.inSourceOrder members.sources, ∀ method,
        resolution.registry.methodEntry? body.id = some method →
          Checking.BodyAccepted ⟨resolution.registry, resolution.bindings, method⟩
            (ofResolution program.exprs.size members.sources resolution).table
              body.source.decl.body) := by
  have sound : ∀ method, Setting.Sound ⟨resolution.registry, resolution.bindings, method⟩ := by
    intro method
    refine ⟨resolved.valid.closed, ?_⟩
    intro owner name found foundEq notStatic
    unfold Setting.methodIn at foundEq
    dsimp only at foundEq
    split at foundEq <;> cases foundEq
    next isFound =>
      rcases Option.bind_eq_some_iff.mp isFound with ⟨id, named, entryFound⟩
      rw [resolved.registry.findMethod?_eq wellFormed
        resolved.valid.consistent.toWellFormed] at named
      rw [resolved.registry.methodEntry?_eq] at entryFound
      exact dispatch.slot_exists named entryFound notStatic
  have perm := flatMap_inSourceOrder members.sources fun source => source.decl.body.exprNodes
  have nodup := (perm.map Expr.id).nodup_iff.mpr bodies.expr_ids
  have listed : ∀ body ∈ MethodBody.inSourceOrder members.sources,
      (body.source, body.id.index) ∈ members.sources.toList.zipIdx := by
    intro body bodyMem
    rcases List.mem_map.mp ((perm_inSourceOrder members.sources).mem_iff.mp bodyMem) with
      ⟨pair, pairMem, rfl⟩
    exact pairMem
  have checkable : ∀ body ∈ MethodBody.inSourceOrder members.sources, ∀ method,
      resolution.registry.methodEntry? body.id = some method →
        Checking.Checkable ⟨resolution.registry, resolution.bindings, method⟩ program.exprs.size
          body.source.decl.body.exprNodes := by
    intro body bodyMem method found
    have settled := resolved.settled silent _ (listed body bodyMem) method found
    have sourceMem := List.fst_mem_of_mem_zipIdx (listed body bodyMem)
    refine ⟨settled.exprs, ?_, ?_⟩
    · intro node nodeMem
      have stands := isForest.expr_at (bodies.expr_known _ sourceMem nodeMem)
      exact (Array.getElem?_eq_some_iff.mp stands).1
    · refine nodup.sublist (List.Sublist.map _ ?_)
      exact List.sublist_flatten_of_mem (List.mem_map_of_mem bodyMem)
  have checked := Checking.ensures_checkMethods _ sound checkable nodup
    { table := .ofSize program.exprs.size } (by simp [TypeTable.ofSize])
  exact ⟨checked.1.ordinary (by simp), fun noFaults => checked.2 noFaults⟩

end Findings

end Decaf
