import Decaf.Proofs.Code.Methods
import Decaf.Proofs.Code.Statements
import Decaf.Proofs.Reordering.Expressions

/-!
# The code of bodies side by side

Where two contexts agree on what the parts of a body stand for, its code is there in both of them or
in none, however many registers there are.
-/

namespace Decaf

variable {context other : MethodContext}

/-- Two contexts agree on what the parts of a statement stand for. -/
structure MethodContext.BodiesAlike (context other : MethodContext) (body : Stmt) : Prop where
  receivers : other.frame.hasReceiver = context.frame.hasReceiver
  exprs : ∀ node ∈ body.exprNodes, context.NodesAlike other node
  locals : ∀ node ∈ body.nodes,
    List.Forall₂ (fun id otherId =>
      Option.Rel (fun _ _ => True) (context.slotOf? id) (other.slotOf? otherId))
        (context.bindings.declarationsOf node.id) (other.bindings.declarationsOf node.id)

namespace MethodContext.BodiesAlike

variable {stmt : Stmt}

theorem child (alike : context.BodiesAlike other stmt) {child : Stmt}
    (isChild : child ∈ stmt.children := by simp [Stmt.children]) :
    context.BodiesAlike other child where
  receivers := alike.receivers
  exprs node isNode :=
    alike.exprs node (Stmt.exprNodes_subset_of_child (List.Subset.refl _) isChild isNode)
  locals node isNode := alike.locals node (Stmt.mem_nodes_iff.mpr (.inr ⟨child, isChild, isNode⟩))

theorem expr (alike : context.BodiesAlike other stmt) {expr : Expr}
    (isExpr : expr ∈ stmt.exprs := by simp [Stmt.exprs]) :
    ∀ node ∈ expr.nodes, context.NodesAlike other node :=
  fun node isNode => alike.exprs node (Stmt.nodes_subset_of_expr (List.Subset.refl _) isExpr isNode)

end MethodContext.BodiesAlike

namespace Generating

variable {position otherPosition : Position}

open MethodContext

/-! ## Conditions and loops -/

theorem matches_enterLoop (labels otherLabels : LoopLabels) :
    Matches Eq (enterLoop labels) (enterLoop otherLabels) :=
  matches_modify fun _ _ alike => ⟨alike.pool_eq, congrArg Nat.succ alike.depth_eq⟩

theorem matches_exitLoop : Matches Eq exitLoop exitLoop := by
  refine matches_modify fun generation other alike => ⟨alike.pool_eq, ?_⟩
  simp only [Emitter.exitLoop, List.length_tail, alike.depth_eq]

theorem matches_leaveLoop (keyword : String) (label : LoopLabels → String) :
    Matches Eq (leaveLoop position keyword label) (leaveLoop position keyword label) := by
  refine matches_get.bind fun generation other alike => ?_
  have loops : Option.Rel (fun _ _ => True) generation.emitter.innermostLoop?
      other.emitter.innermostLoop? := by
    have depths := alike.depth_eq
    rw [Emitter.innermostLoop?, Emitter.innermostLoop?]
    generalize generation.emitter.loops = loops, other.emitter.loops = otherLoops at depths
    cases loops with
    | nil =>
      obtain rfl := List.length_eq_zero_iff.mp depths.symm
      exact .none
    | cons =>
      cases otherLoops with
      | nil => cases depths
      | cons => exact .some trivial
  exact (matches_orFail loops _ _).bind fun _ _ _ => matches_emit _ _

theorem Matches.settle {code otherCode : Generating Unit} (matched : Matches Eq code otherCode) :
    Matches Eq (Generating.settle position code) (Generating.settle otherPosition otherCode) := by
  refine matched.conclude.andThen fun _ => matches_get.bind fun generation other alike => ?_
  exact .ite (by rw [alike.pool_eq]) (matches_fail _ _) (.pure rfl)

section

variable (receivers : other.frame.hasReceiver = context.frame.hasReceiver)

include receivers

variable {target value : Expr}

theorem matches_branchUnless {condition : Expr}
    (alike : ∀ node ∈ condition.nodes, context.NodesAlike other node) (label otherLabel : String) :
    Matches Eq (branchUnless context condition label)
      (branchUnless other condition otherLabel) := by
  refine (matches_generateValue receivers alike).andThen fun value =>
    (matches_load value).andThen fun _ => ?_
  exact (matches_emit _ _).andThen fun _ => (matches_release value).andThen fun _ =>
    matches_unpinAll

/-! ## Simple statements -/

theorem matches_generateReturn {value : Option Expr}
    (alike : ∀ expr ∈ value, ∀ node ∈ expr.nodes, context.NodesAlike other node) :
    Matches Eq (generateReturn context position value) (generateReturn other position value) := by
  cases value with
  | none => exact matches_emit _ _
  | some value =>
    refine (matches_generateValue receivers (alike value rfl)).andThen fun value => ?_
    exact (matches_load value).andThen fun _ => (matches_emit _ _).andThen fun _ =>
      matches_release value

theorem matches_generateEvaluate {expr : Expr}
    (alike : ∀ node ∈ expr.nodes, context.NodesAlike other node) :
    Matches Eq (generateEvaluate context expr) (generateEvaluate other expr) := by
  refine (matches_generateExpr receivers alike).andThen fun value => ?_
  cases value with
  | none => exact .pure rfl
  | some value => exact matches_release value

theorem matches_generateReceiver (alike : ∀ node ∈ target.nodes, context.NodesAlike other node) :
    Matches Eq (generateReceiver context target) (generateReceiver other target) := by
  cases target with
  | fieldAccess site receiver name =>
    have fields := (alike _ (Expr.self_mem_nodes _)).field
    refine (matches_orFail fields _ _).bind fun field otherField same => ?_
    refine .ite (by rw [needsObject, needsObject, same.isStatic_eq]) (Matches.some ?_) (.pure rfl)
    refine matches_generateValue receivers fun node isNode => alike node ?_
    exact Expr.nodes_subset_of_child (List.Subset.refl _) (by simp [Expr.children]) isNode
  | literal | identifier | this | super | new | call | unary | binary | step => exact .pure rfl

theorem matches_generateAssign (targetAlike : ∀ node ∈ target.nodes, context.NodesAlike other node)
    (valueAlike : ∀ node ∈ value.nodes, context.NodesAlike other node) :
    Matches Eq (generateAssign context position target value)
      (generateAssign other position target value) := by
  refine (matches_generateReceiver receivers targetAlike).andThen fun object => ?_
  refine (matches_generateValue receivers valueAlike).andThen fun value => ?_
  refine (matches_place receivers (targetAlike _ (Expr.self_mem_nodes _)) object).bind
    fun place otherPlace same => ?_
  refine (matches_load value).andThen fun source =>
    (matches_writePlace source same).andThen fun _ => ?_
  exact matches_release value

theorem matches_generatePrint (alike : ∀ node ∈ value.nodes, context.NodesAlike other node) :
    Matches Eq (generatePrint context position value) (generatePrint other position value) := by
  refine (matches_orFail (alike _ (Expr.self_mem_nodes _)).kind _ _).bind fun _ _ _ => ?_
  refine (matches_generateValue receivers alike).andThen fun value =>
    (matches_load value).andThen fun _ => ?_
  exact (matches_emit _ _).andThen fun _ => matches_release value

omit receivers in
theorem matches_clearVariable {id otherId : VariableId}
    (placed : Option.Rel (fun _ _ => True) (context.slotOf? id) (other.slotOf? otherId)) :
    Matches Eq (clearVariable context position id) (clearVariable other position otherId) := by
  refine (matches_orFail placed _ _).bind fun _ _ _ => matches_acquire.andThen ?_
  rintro ⟨value, register⟩
  exact (matches_emit _ _).andThen fun _ => (matches_emit _ _).andThen fun _ =>
    matches_release value

end

variable {condition : Expr} {body : Stmt}

/-! ## Statements -/

theorem matches_nothing :
    Matches Eq (settle position (return ())) (settle otherPosition (return ())) :=
  Matches.settle (.pure rfl)

theorem matches_block (site : Site StmtId) {statements : List Stmt}
    (each : ∀ stmt ∈ statements, Matches Eq (generateStmt context stmt) (generateStmt other stmt)) :
    Matches Eq (generateStmt context (.block site statements))
      (generateStmt other (.block site statements)) := by
  refine matches_nothing.andThen fun _ => ?_
  induction statements with
  | nil => exact .pure rfl
  | cons first rest ih =>
    refine (each first List.mem_cons_self).andThen fun _ => ?_
    exact ih fun stmt isStmt => each stmt (List.mem_cons_of_mem _ isStmt)

theorem matches_ifElse (site : Site StmtId) {thenBranch : Stmt} {elseBranch : Option Stmt}
    (receivers : other.frame.hasReceiver = context.frame.hasReceiver)
    (alike : ∀ node ∈ condition.nodes, context.NodesAlike other node)
    (thenMatches : Matches Eq (generateStmt context thenBranch) (generateStmt other thenBranch))
    (elseMatches : ∀ stmt ∈ elseBranch,
      Matches Eq (generateStmt context stmt) (generateStmt other stmt)) :
    Matches Eq (generateStmt context (.ifElse site condition thenBranch elseBranch))
      (generateStmt other (.ifElse site condition thenBranch elseBranch)) := by
  cases elseBranch with
  | none =>
    refine matches_freshLabel.bind fun _ _ _ => ?_
    refine (matches_branchUnless receivers alike _ _).settle.andThen fun _ => ?_
    exact thenMatches.andThen fun _ => matches_emit _ _
  | some elseBranch =>
    refine matches_freshLabel.bind fun _ _ _ => matches_freshLabel.bind fun _ _ _ => ?_
    refine (matches_branchUnless receivers alike _ _).settle.andThen fun _ =>
      thenMatches.andThen fun _ => ?_
    refine (matches_emit _ _).andThen fun _ => (matches_emit _ _).andThen fun _ => ?_
    exact (elseMatches elseBranch rfl).andThen fun _ => matches_emit _ _

theorem matches_whileLoop (site : Site StmtId)
    (receivers : other.frame.hasReceiver = context.frame.hasReceiver)
    (alike : ∀ node ∈ condition.nodes, context.NodesAlike other node)
    (bodyMatches : Matches Eq (generateStmt context body) (generateStmt other body)) :
    Matches Eq (generateStmt context (.whileLoop site condition body))
      (generateStmt other (.whileLoop site condition body)) := by
  refine matches_freshLabel.bind fun _ _ _ => matches_freshLabel.bind fun _ _ _ =>
    (matches_emit _ _).andThen fun _ => ?_
  refine (matches_branchUnless receivers alike _ _).settle.andThen fun _ => ?_
  refine (matches_enterLoop _ _).andThen fun _ => bodyMatches.andThen fun _ =>
    (matches_emit _ _).andThen fun _ => ?_
  exact matches_exitLoop.andThen fun _ => matches_emit _ _

theorem matches_optional {part : Option Stmt}
    (partMatches : ∀ stmt ∈ part,
      Matches Eq (generateStmt context stmt) (generateStmt other stmt)) :
    Matches Eq (part.elim (pure ()) (generateStmt context))
      (part.elim (pure ()) (generateStmt other)) := by
  cases part with
  | none => exact .pure rfl
  | some stmt => exact partMatches stmt rfl

theorem matches_forLoop (site : Site StmtId) {init update : Option Stmt} {condition : Option Expr}
    (receivers : other.frame.hasReceiver = context.frame.hasReceiver)
    (alike : ∀ expr ∈ condition, ∀ node ∈ expr.nodes, context.NodesAlike other node)
    (initMatches : ∀ stmt ∈ init, Matches Eq (generateStmt context stmt) (generateStmt other stmt))
    (updateMatches : ∀ stmt ∈ update,
      Matches Eq (generateStmt context stmt) (generateStmt other stmt))
    (bodyMatches : Matches Eq (generateStmt context body) (generateStmt other body)) :
    Matches Eq (generateStmt context (.forLoop site init condition update body))
      (generateStmt other (.forLoop site init condition update body)) := by
  have tests (label otherLabel : String) : Matches Eq (condition.elim (pure ()) fun expr =>
      branchUnless context expr label)
        (condition.elim (pure ()) fun expr => branchUnless other expr otherLabel) := by
    cases condition with
    | none => exact .pure rfl
    | some condition => exact matches_branchUnless receivers (alike condition rfl) _ _
  rw [generateStmt_forLoop, generateStmt_forLoop]
  refine matches_freshLabel.bind fun _ _ _ => matches_freshLabel.bind fun _ _ _ =>
    matches_freshLabel.bind fun _ _ _ => ?_
  refine matches_nothing.andThen fun _ => (matches_optional initMatches).andThen fun _ => ?_
  refine (matches_emit _ _).andThen fun _ => (tests _ _).andThen fun _ =>
    (matches_enterLoop _ _).andThen fun _ => ?_
  refine bodyMatches.andThen fun _ => (matches_emit _ _).andThen fun _ => ?_
  refine (matches_optional updateMatches).andThen fun _ => (matches_emit _ _).andThen fun _ => ?_
  exact matches_exitLoop.andThen fun _ => matches_emit _ _

theorem matches_declare (site : Site StmtId) (declared : List VariableDecl)
    (placed : List.Forall₂ (fun id otherId =>
      Option.Rel (fun _ _ => True) (context.slotOf? id) (other.slotOf? otherId))
        (context.bindings.declarationsOf site.id) (other.bindings.declarationsOf site.id)) :
    Matches Eq (generateStmt context (.declare site declared))
      (generateStmt other (.declare site declared)) := by
  refine Matches.settle (.forM ?_ placed)
  intro id otherId same
  exact matches_clearVariable same

/-- The code of a statement is generated side by side. -/
theorem matches_generateStmt {stmt : Stmt} (alike : context.BodiesAlike other stmt) :
    Matches Eq (generateStmt context stmt) (generateStmt other stmt) := by
  have receivers := alike.receivers
  induction stmt with
  | block site statements ih =>
    exact matches_block site fun stmt isStmt => ih stmt isStmt (alike.child isStmt)
  | ifElse site condition thenBranch elseBranch thenIh elseIh =>
    refine matches_ifElse site receivers alike.expr ?_ fun stmt isStmt => ?_
    · exact thenIh alike.child
    · exact elseIh stmt isStmt (alike.child (by simp [Stmt.children, Option.mem_def.mp isStmt]))
  | whileLoop site condition body ih =>
    exact matches_whileLoop site receivers alike.expr (ih alike.child)
  | forLoop site init condition update body initIh updateIh bodyIh =>
    refine matches_forLoop site receivers (fun expr isExpr => ?_) (fun stmt isStmt => ?_)
      (fun stmt isStmt => ?_) ?_
    · exact alike.expr (by simp [Stmt.exprs, Option.mem_def.mp isExpr])
    · exact initIh stmt isStmt (alike.child (by simp [Stmt.children, Option.mem_def.mp isStmt]))
    · exact updateIh stmt isStmt (alike.child (by simp [Stmt.children, Option.mem_def.mp isStmt]))
    · exact bodyIh alike.child
  | ret site value =>
    refine Matches.settle (matches_generateReturn receivers fun expr isExpr => alike.expr ?_)
    simp [Stmt.exprs, Option.mem_def.mp isExpr]
  | evaluate site expr => exact Matches.settle (matches_generateEvaluate receivers alike.expr)
  | assign site target value =>
    refine Matches.settle (matches_generateAssign receivers ?_ ?_)
    · exact alike.expr
    · exact alike.expr
  | declare site declared =>
    exact matches_declare site declared (alike.locals _ (Stmt.self_mem_nodes _))
  | print site value => exact Matches.settle (matches_generatePrint receivers alike.expr)
  | breakLoop site => exact Matches.settle (matches_leaveLoop _ _)
  | continueLoop site => exact Matches.settle (matches_leaveLoop _ _)
  | skip site => exact matches_nothing

theorem matches_generateBody (alike : context.BodiesAlike other body) :
    Matches Eq (generateBody context body) (generateBody other body) :=
  (matches_generateStmt alike).andThen fun _ => matches_get.bind fun _ _ _ => matches_emitIf _ _ _ _

end Generating

/-! ## Methods -/

/-- The code of a method is there in both contexts or in none, wherever its labels start. -/
theorem MethodContext.exists_generate_of_alike {body : Stmt}
    (alike : context.BodiesAlike other body)
    (spillBase_eq : context.frame.spillBase = other.frame.spillBase) {registerCount first : Nat}
    {outcome : Array Instruction × Nat}
    (generated : context.generate registerCount first body = .ok outcome) (otherFirst : Nat) :
    ∃ otherOutcome, other.generate registerCount otherFirst body = .ok otherOutcome := by
  have started : (context.start registerCount first).Alike (other.start registerCount otherFirst) :=
    ⟨congrArg (RegisterPool.start registerCount) spillBase_eq, rfl⟩
  have ends := Generating.matches_generateBody alike _ _ started
  rw [generate] at generated
  rw [generate]
  generalize (Generating.generateBody context body).run (context.start registerCount first) = ended,
    (Generating.generateBody other body).run (other.start registerCount otherFirst) =
      otherEnded at ends generated
  cases ends with
  | failed => cases generated
  | done => exact ⟨_, rfl⟩

namespace CheckedProgram

variable {program : CheckedProgram} {options : Options}

/-- When the listing is there, the code of every method is. -/
theorem exists_generate_of_listing {listing : Listing}
    (listed : program.listing options = .ok listing) {body : MethodBody}
    (isBody : body ∈ program.bodies) {method : MethodEntry}
    (found : program.registry.methodEntry? body.id = some method) :
    ∃ first outcome, (program.contextOf program.layout method).generate options.registerCount
      first body.source.decl.body = .ok outcome := by
  rcases List.append_of_mem isBody with ⟨front, back, bodiesEq⟩
  have silent : (program.methodCode options.registerCount).diagnostics = [] := by
    by_contra isLoud
    rw [CheckedProgram.listing, if_neg isLoud] at listed
    cases listed
  rw [methodCode, bodiesEq, List.foldl_append, List.foldl_cons] at silent
  have added := diagnostics_foldl_addMethod _ _ _ silent
  generalize front.foldl (program.addMethod program.layout options.registerCount) {} =
    before at added
  cases generated : (program.contextOf program.layout method).generate options.registerCount
      before.nextLabel body.source.decl.body with
  | ok outcome => exact ⟨before.nextLabel, outcome, generated⟩
  | error diagnostic => simp [addMethod, found, generated] at added

/-- When the code of every method is there, wherever its labels start, the listing is there. -/
theorem exists_listing_of_methods
    (generates : ∀ body ∈ program.bodies, ∀ method,
      program.registry.methodEntry? body.id = some method → ∀ first, ∃ outcome,
      (program.contextOf program.layout method).generate options.registerCount first
      body.source.decl.body = .ok outcome) :
    ∃ listing, program.listing options = .ok listing := by
  have silent : ∀ bodies ⊆ program.bodies, ∀ before : MethodCode, before.diagnostics = [] →
      (bodies.foldl (program.addMethod program.layout options.registerCount)
        before).diagnostics = [] := by
    intro bodies areBodies
    induction bodies with
    | nil => exact fun _ => id
    | cons body rest ih =>
      intro before quiet
      refine ih (List.subset_of_cons_subset areBodies) _ ?_
      cases found : program.registry.methodEntry? body.id with
      | none => simpa only [addMethod, found] using quiet
      | some method =>
        rcases generates body (areBodies List.mem_cons_self) method found before.nextLabel with
          ⟨outcome, generated⟩
        simpa only [addMethod, found, generated] using quiet
  have quiet : (program.methodCode options.registerCount).diagnostics = [] :=
    silent _ (List.Subset.refl _) {} rfl
  rw [listing, if_pos quiet]
  exact ⟨_, rfl⟩

end CheckedProgram

end Decaf
