import Decaf.Code.Method
import Decaf.Proofs.Code.Statements
import Decaf.Proofs.Listing.Expressions

/-!
# Bodies that are accounted for

The code of a statement does what its tree asks for and stands behind the code that was there
before, so a label that was placed stays in reach. The labels that a statement takes are open until
they are placed, each of them once.
-/

namespace Decaf

open Generation

namespace Generating

variable {context : MethodContext} {registerCount first : Nat} {more : List Action}
  {position : Position}

/-! ## Simple statements -/

section

variable (keeps : context.KeepsVariables)
include keeps

/-- The value of an expression goes into an instruction. -/
theorem enacts_consume (expr : Expr) {instruction : Register → Instruction}
    (isPassive : ∀ register, (instruction register).isPassive = true) :
    Enacts context registerCount first (context.actions expr) (do
      let value ← generateValue context expr
      let register ← load position value
      emit (instruction register)
      release value) fun _ => True :=
  (enacts_generateValue keeps expr).finish fun value _ =>
    (enacts_load value).andThen fun register =>
    (enacts_passive (isPassive register)).andThen fun _ => enacts_release value

theorem enacts_generateReturn (value : Option Expr) :
    Enacts context registerCount first (context.actionsOfOption value)
      (generateReturn context position value) fun _ => True := by
  cases value with
  | none => exact enacts_passive rfl
  | some value => exact enacts_consume keeps value fun _ => rfl

theorem enacts_generatePrint (value : Expr) :
    Enacts context registerCount first (context.actions value)
      (generatePrint context position value) fun _ => True :=
  enacts_found fun _ _ => enacts_consume keeps value fun _ => rfl

theorem enacts_generateEvaluate (expr : Expr) :
    Enacts context registerCount first (context.actions expr) (generateEvaluate context expr)
      fun _ => True := by
  refine (enacts_generate keeps expr).1.finish fun value _ => ?_
  cases value with
  | none => exact .pure trivial
  | some value => exact enacts_release value

theorem enacts_generateReceiver (target : Expr) :
    Enacts context registerCount first (context.actionsOfTarget target)
      (generateReceiver context target) fun _ => True := by
  cases target with
  | fieldAccess site receiver name =>
    refine enacts_found fun field found => ?_
    rw [MethodContext.actionsOfTarget, context.needs_eq receiver found]
    split
    · exact (enacts_generateValue keeps receiver).map fun _ _ => trivial
    · exact .pure trivial
  | literal | identifier | this | super | new | call | unary | binary | step => exact .pure trivial

/-- The variable is written to when the value is there. -/
theorem enacts_generateAssign (target value : Expr) :
    Enacts context registerCount first
      (context.actionsOfTarget target ++ context.actions value ++ context.writes target)
      (generateAssign context position target value) fun _ => True := by
  rw [List.append_assoc]
  refine (enacts_generateReceiver keeps target).bind fun object _ => ?_
  refine (enacts_generateValue keeps value).bind fun temporary _ => ?_
  refine (enacts_place target object).andUse fun place has => ?_
  refine (enacts_load temporary).andThen fun source => ?_
  exact (enacts_writePlace keeps source has).finish fun _ _ => enacts_release temporary

theorem enacts_clearVariable (id : VariableId) :
    Enacts context registerCount first ((context.slotOf? id).toList.map .write)
      (clearVariable context position id) fun _ => True := by
  refine enacts_found fun slot isSlot => ?_
  have isSlot : context.slotOf? id = some slot := isSlot
  have zero (isDouble : Bool) (register : Register) :
      (loadZero isDouble register).isPassive = true := by
    cases isDouble <;> rfl
  rw [isSlot]
  refine enacts_acquire.andThen fun acquired => (enacts_passive (zero _ _)).andThen fun _ => ?_
  exact (enacts_storeStack isSlot (keeps id slot isSlot)).finish fun _ _ => enacts_release _

theorem enacts_clearVariables (ids : List VariableId) :
    Enacts context registerCount first ((ids.filterMap context.slotOf?).map .write)
      (ids.forM (clearVariable context position)) fun _ => True := by
  induction ids with
  | nil => exact .pure trivial
  | cons id rest ih =>
    have split : ((id :: rest).filterMap context.slotOf?).map Action.write =
        (context.slotOf? id).toList.map .write ++ (rest.filterMap context.slotOf?).map .write := by
      cases slotEq : context.slotOf? id <;> simp [slotEq]
    rw [split]
    exact (enacts_clearVariable keeps id).bind fun _ _ => ih

end

theorem Enacts.settle {code : Generating Unit}
    (enacts : Enacts context registerCount first more code fun _ => True) :
    Enacts context registerCount first more (Generating.settle position code) fun _ => True := by
  refine enacts.conclude.finish fun _ _ => enacts_get.andThen fun now => ?_
  dsimp only
  split
  · exact enacts_fail _
  · exact .pure trivial

end Generating

/-! ## Branches and loops -/

namespace Generation

variable {context : MethodContext} {registerCount first : Nat} {opened : List String}
  {acts more : List Action} {before between after : Generation} {name : String}

/-- A label that was placed stays where it is. -/
theorem Gains.keeps_label (gains : before.Gains context registerCount first opened acts after)
    (isThere : name ∈ labelsOf before.emitter.code.toList) :
    name ∈ labelsOf after.emitter.code.toList := by
  rcases gains.isPrefix with ⟨block, codeEq⟩
  rw [← codeEq, labelsOf_append]
  exact List.mem_append_left _ isThere

theorem labelsOf_placed (before : Generation) (name : String) :
    labelsOf (before.emitted [.label name]).emitter.code.toList =
      labelsOf before.emitter.code.toList ++ [name] := by
  simp [emitted, Emitter.append, labelsOf, Instruction.label?]

theorem Accounted.entered (accounted : before.Accounted context registerCount first opened acts)
    {labels : LoopLabels} (breaks : labels.breakTo ∈ labelsOf before.emitter.code.toList ++ opened)
    (continues : labels.continueTo ∈ labelsOf before.emitter.code.toList ++ opened) :
    (before.entered labels).Accounted context registerCount first opened acts :=
  { accounted with
    labels :=
      { accounted.labels with
        loops := fun other isLoop => by
          rcases List.mem_cons.mp isLoop with rfl | isOuter
          · exact ⟨breaks, continues⟩
          · exact accounted.labels.loops other isOuter } }

theorem Accounted.exited (accounted : before.Accounted context registerCount first opened acts) :
    before.exited.Accounted context registerCount first opened acts :=
  { accounted with
    labels :=
      { accounted.labels with
        loops := fun other isLoop =>
          accounted.labels.loops other (List.mem_of_mem_tail isLoop) } }

end Generation

namespace Generating

variable {context : MethodContext} {registerCount first : Nat} {opened : List String}
  {acts more : List Action} {before : Generation} {position : Position}

theorem Enacts.gains {step : Generating Unit} {post : Unit → Prop}
    (enacts : Enacts context registerCount first more step post)
    (accounted : before.Accounted context registerCount first opened acts) :
    Whenever step before fun _ after =>
      before.Gains context registerCount first opened (acts ++ more) after :=
  (enacts opened acts before accounted).mono fun _ _ => And.right

/-- Nothing is added at the end of a statement. -/
theorem gains_settle {code : Generating Unit}
    (gains : Whenever code before fun _ after =>
      before.Gains context registerCount first opened acts after) :
    Whenever (settle position code) before fun _ after =>
      before.Gains context registerCount first opened acts after := by
  have concludes : Whenever (conclude code) before fun _ after =>
      before.Gains context registerCount first opened acts after := by
    refine gains.bind fun _ between gains => ?_
    refine succeeds_unpinAll.whenever.goOn ?_
    exact .pure gains.unpinned
  refine concludes.bind fun _ between gains => ?_
  refine whenever_get.goOnWith ?_
  dsimp only
  split
  · exact whenever_fail _ _
  · exact .pure gains

/-- The loops around a statement have been entered, so their labels are there. -/
theorem gains_leaveLoop (keyword : String) {label : LoopLabels → String}
    (isOne : label = LoopLabels.breakTo ∨ label = LoopLabels.continueTo)
    (accounted : before.Accounted context registerCount first opened acts) :
    Whenever (leaveLoop position keyword label) before fun _ after =>
      before.Gains context registerCount first opened acts after := by
  refine whenever_get.goOnWith ?_
  refine whenever_found fun labels isInnermost => ?_
  refine (succeeds_emit _).whenever.goesTo ?_
  have known := accounted.labels.loops labels (List.mem_of_head? isInnermost)
  refine ⟨prefix_emitted _ _, accounted.lead (.jump (label labels)) rfl ?_⟩
  rcases isOne with rfl | rfl
  · exact known.1
  · exact known.2

/-- A condition is tested; the label that its failure leads to stays open. -/
theorem gains_branchUnless (keeps : context.KeepsVariables) {label : String} (condition : Expr)
    (accounted : before.Accounted context registerCount first opened acts)
      (isOpen : label ∈ opened) :
    Whenever (branchUnless context condition label) before fun _ after =>
      before.Gains context registerCount first opened (acts ++ context.actions condition)
        after := by
  refine (enacts_generateValue keeps condition opened acts before accounted).bind
    fun value valued ⟨_, isValued⟩ => ?_
  refine (enacts_load value opened _ valued isValued.accounted).bind
    fun register loaded ⟨_, isLoaded⟩ => ?_
  rw [List.append_nil] at isLoaded
  refine (succeeds_emit _).whenever.goOn ?_
  have branched := isLoaded.accounted.lead (.branchIfZero register label) rfl
    (List.mem_append_right _ isOpen)
  refine (succeeds_release value).whenever.goOn ?_
  refine succeeds_unpinAll.whenever.goesTo ?_
  exact (((isValued.trans isLoaded).trans ⟨prefix_emitted _ _, branched⟩).released value).unpinned

section

variable {outer : List String} {total : List Action} {next : Generating Unit}
variable {name : String}

theorem gains_bind {step : Generating Unit}
    (early : Whenever step before fun _ after =>
      before.Gains context registerCount first opened acts after)
    (rest : ∀ between, before.Gains context registerCount first opened acts between →
      Whenever next between fun _ after =>
        between.Gains context registerCount first outer total after) :
    Whenever (do step; next) before fun _ after =>
      before.Gains context registerCount first outer total after :=
  early.bind fun _ between isEarly => (rest between isEarly).mono fun _ _ isLate =>
    isEarly.trans isLate

/-- A label is handed out. -/
theorem gains_freshLabel (accounted : before.Accounted context registerCount first opened acts)
    {next : String → Generating Unit}
    (rest : ∀ label between, between.Accounted context registerCount first (label :: opened) acts →
      Whenever (next label) between fun _ after =>
        between.Gains context registerCount first outer total after) :
    Whenever (do let label ← freshLabel; next label) before fun _ after =>
      before.Gains context registerCount first outer total after := by
  refine whenever_freshLabel.goOnWith ?_
  exact (rest _ _ accounted.freshLabel).mono fun _ _ gains => ⟨gains.isPrefix, gains.accounted⟩

/-- A label is placed. -/
theorem gains_label (accounted : before.Accounted context registerCount first (name :: opened) acts)
    (rest : ∀ between, between.Accounted context registerCount first opened acts →
      labelsOf between.emitter.code.toList = labelsOf before.emitter.code.toList ++ [name] →
      Whenever next between fun _ after =>
        between.Gains context registerCount first outer total after) :
    Whenever (do emit (.label name); next) before fun _ after =>
      before.Gains context registerCount first outer total after := by
  refine (succeeds_emit _).whenever.goOn ?_
  refine (rest _ accounted.place (labelsOf_placed before name)).mono fun _ _ gains => ?_
  exact ⟨(prefix_emitted _ _).trans gains.isPrefix, gains.accounted⟩

theorem gains_lastLabel
    (accounted : before.Accounted context registerCount first (name :: opened) acts) :
    Whenever (emit (.label name)) before fun _ after =>
      before.Gains context registerCount first opened acts after := by
  refine (succeeds_emit _).whenever.goesTo ?_
  exact ⟨prefix_emitted _ _, accounted.place⟩

theorem gains_jump (accounted : before.Accounted context registerCount first opened acts)
    (isKnown : name ∈ labelsOf before.emitter.code.toList ++ opened) :
    Whenever (emit (.jump name)) before fun _ after =>
      before.Gains context registerCount first opened acts after := by
  refine (succeeds_emit _).whenever.goesTo ?_
  exact ⟨prefix_emitted _ _, accounted.lead _ rfl isKnown⟩

theorem gains_enterLoop {labels : LoopLabels}
    (accounted : before.Accounted context registerCount first opened acts)
    (breaks : labels.breakTo ∈ labelsOf before.emitter.code.toList ++ opened)
    (continues : labels.continueTo ∈ labelsOf before.emitter.code.toList ++ opened)
    (rest : ∀ between, between.Accounted context registerCount first opened acts →
      between.emitter.code = before.emitter.code → Whenever next between fun _ after =>
        between.Gains context registerCount first outer total after) :
    Whenever (do enterLoop labels; next) before fun _ after =>
      before.Gains context registerCount first outer total after := by
  refine (succeeds_enterLoop _).whenever.goOn ?_
  exact (rest _ (accounted.entered breaks continues) rfl).mono fun _ _ gains =>
    ⟨gains.isPrefix, gains.accounted⟩

/-- At the end of a loop control goes back to its top, and the label behind the loop is placed. -/
theorem gains_loopEnd {top behind : String}
    (accounted : before.Accounted context registerCount first (behind :: opened) acts)
    (isPlaced : top ∈ labelsOf before.emitter.code.toList) :
    Whenever (do emit (.jump top); exitLoop; emit (.label behind)) before fun _ after =>
      before.Gains context registerCount first opened acts after := by
  refine gains_bind (gains_jump accounted (List.mem_append_left _ isPlaced)) fun between gains => ?_
  refine succeeds_exitLoop.whenever.goOn ?_
  exact (gains_lastLabel gains.accounted.exited).mono fun _ _ last =>
    ⟨last.isPrefix, last.accounted⟩

end

/-- A part of a statement that need not be there. -/
theorem gains_part {Part : Type} {part : Option Part} {code : Part → Generating Unit}
    {asked : Part → List Action}
    (each : ∀ given ∈ part, Whenever (code given) before fun _ after =>
      before.Gains context registerCount first opened (acts ++ asked given) after)
    (accounted : before.Accounted context registerCount first opened acts) :
    Whenever (part.elim (pure ()) code) before fun _ after =>
      before.Gains context registerCount first opened (acts ++ part.elim [] asked) after := by
  cases part with
  | none =>
    refine .pure ?_
    rw [Option.elim_none, List.append_nil]
    exact .refl accounted
  | some given => exact each given rfl

theorem actionsOfStmt_forLoop (site : Site StmtId) (init : Option Stmt) (condition : Option Expr)
    (update : Option Stmt) (body : Stmt) :
    context.actionsOfStmt (.forLoop site init condition update body) =
      init.elim [] context.actionsOfStmt ++ condition.elim [] context.actions ++
        context.actionsOfStmt body ++ update.elim [] context.actionsOfStmt := by
  cases init <;> cases condition <;> cases update <;> rfl

/-- The code of a statement does what the statement asks for. -/
theorem gains_generateStmt (keeps : context.KeepsVariables) (stmt : Stmt) {opened : List String}
    {acts : List Action} {before : Generation}
    (accounted : before.Accounted context registerCount first opened acts) :
    Whenever (generateStmt context stmt) before fun _ after =>
      before.Gains context registerCount first opened (acts ++ context.actionsOfStmt stmt)
        after := by
  induction stmt generalizing opened acts before with
  | block site statements ih =>
    refine gains_bind (gains_settle (.pure (.refl accounted))) fun between early => ?_
    have isAccounted := early.accounted
    clear early accounted
    induction statements generalizing acts between with
    | nil =>
      exact .pure ⟨List.prefix_refl _,
        by rwa [MethodContext.actionsOfStmt, MethodContext.actionsOfStmts, List.append_nil]⟩
    | cons stmt rest ihRest =>
      refine gains_bind (ih stmt List.mem_cons_self isAccounted) fun middle early => ?_
      have late := ihRest (fun other isOther => ih other (List.mem_cons_of_mem _ isOther))
        middle early.accounted
      rwa [MethodContext.actionsOfStmt, List.append_assoc] at late
  | ret site value =>
    exact (enacts_generateReturn keeps value).settle.gains accounted
  | evaluate site expr =>
    exact (enacts_generateEvaluate keeps expr).settle.gains accounted
  | assign site target value =>
    exact (enacts_generateAssign keeps target value).settle.gains accounted
  | declare site declared =>
    exact (enacts_clearVariables keeps _).settle.gains accounted
  | print site value =>
    exact (enacts_generatePrint keeps value).settle.gains accounted
  | breakLoop site =>
    rw [MethodContext.actionsOfStmt, List.append_nil]
    exact gains_settle (gains_leaveLoop _ (.inl rfl) accounted)
  | continueLoop site =>
    rw [MethodContext.actionsOfStmt, List.append_nil]
    exact gains_settle (gains_leaveLoop _ (.inr rfl) accounted)
  | skip site =>
    rw [MethodContext.actionsOfStmt, List.append_nil]
    exact gains_settle (.pure (.refl accounted))
  | ifElse site condition thenBranch elseBranch thenIh elseIh =>
    cases elseBranch with
    | none =>
      refine gains_freshLabel accounted fun behind _ accounted => ?_
      refine gains_bind
        (gains_settle (gains_branchUnless keeps condition accounted List.mem_cons_self))
        fun _ tested => ?_
      refine gains_bind (thenIh tested.accounted) fun _ chosen => ?_
      rw [MethodContext.actionsOfStmt, ← List.append_assoc]
      exact gains_lastLabel chosen.accounted
    | some elseBranch =>
      refine gains_freshLabel accounted fun otherwise _ accounted => ?_
      refine gains_freshLabel accounted fun behind _ accounted => ?_
      have accounted := accounted.perm (.swap _ _ _)
      refine gains_bind
        (gains_settle (gains_branchUnless keeps condition accounted List.mem_cons_self))
        fun _ tested => ?_
      refine gains_bind (thenIh tested.accounted) fun _ chosen => ?_
      refine gains_bind (gains_jump chosen.accounted
        (List.mem_append_right _ (List.mem_cons_of_mem _ List.mem_cons_self))) fun _ left => ?_
      refine gains_label left.accounted fun _ accounted _ => ?_
      refine gains_bind (elseIh elseBranch rfl accounted) fun _ last => ?_
      rw [MethodContext.actionsOfStmt, ← List.append_assoc, ← List.append_assoc]
      exact gains_lastLabel last.accounted
  | whileLoop site condition body ih =>
    refine gains_freshLabel accounted fun top _ accounted => ?_
    refine gains_freshLabel accounted fun behind _ accounted => ?_
    refine gains_label (accounted.perm (.swap _ _ _)) fun _ accounted labels => ?_
    refine gains_bind
      (gains_settle (gains_branchUnless keeps condition accounted List.mem_cons_self))
      fun tested early => ?_
    have isStill := early.keeps_label (labels ▸ List.mem_append_right _ List.mem_cons_self)
    refine gains_enterLoop early.accounted (List.mem_append_right _ List.mem_cons_self)
      (List.mem_append_left _ isStill) fun _ accounted same => ?_
    refine gains_bind (ih accounted) fun _ late => ?_
    rw [MethodContext.actionsOfStmt, ← List.append_assoc]
    exact gains_loopEnd late.accounted (late.keeps_label (same ▸ isStill))
  | forLoop site init condition update body initIh updateIh bodyIh =>
    rw [generateStmt_forLoop, actionsOfStmt_forLoop]
    refine gains_freshLabel accounted fun top _ accounted => ?_
    refine gains_freshLabel accounted fun next _ accounted => ?_
    refine gains_freshLabel accounted fun behind _ accounted => ?_
    refine gains_bind (gains_settle (.pure (.refl accounted))) fun _ begun => ?_
    refine gains_bind (gains_part (fun stmt isInit =>
      initIh stmt isInit begun.accounted) begun.accounted) fun _ started => ?_
    have turned : (behind :: next :: top :: opened).Perm (top :: behind :: next :: opened) :=
      (List.Perm.cons _ (.swap _ _ _)).trans (.swap _ _ _)
    have opening := started.accounted.perm turned
    refine gains_label opening fun _ accounted labels => ?_
    refine gains_bind (gains_part (fun test isTest =>
      gains_branchUnless keeps test accounted List.mem_cons_self) accounted) fun _ tested => ?_
    have isStill := tested.keeps_label (labels ▸ List.mem_append_right _ List.mem_cons_self)
    refine gains_enterLoop tested.accounted (List.mem_append_right _ List.mem_cons_self)
      (List.mem_append_right _ (List.mem_cons_of_mem _ List.mem_cons_self))
      fun _ accounted same => ?_
    refine gains_bind (bodyIh accounted) fun _ walked => ?_
    have isStill := walked.keeps_label (same ▸ isStill)
    refine gains_label (walked.accounted.perm (.swap _ _ _)) fun last accounted labels => ?_
    refine gains_bind (gains_part (fun stmt isUpdate => updateIh stmt isUpdate accounted) accounted)
      fun _ updated => ?_
    rw [← List.append_assoc, ← List.append_assoc, ← List.append_assoc]
    exact gains_loopEnd updated.accounted
      (updated.keeps_label (labels ▸ List.mem_append_left _ isStill))

theorem accounted_generateBody (keeps : context.KeepsVariables) (body : Stmt)
    (accounted : before.Accounted context registerCount first opened acts) :
    Whenever (generateBody context body) before fun _ after =>
      after.Accounted context registerCount first opened (acts ++ context.actionsOfStmt body) := by
  refine (gains_generateStmt keeps body accounted).bind fun _ between gains => ?_
  refine whenever_get.goOnWith ?_
  split
  · have returns : Enacts context registerCount first [] (emit .ret) fun _ => True :=
      enacts_passive rfl
    refine (returns opened _ _ gains.accounted).mono fun _ _ returned => ?_
    rw [← List.append_nil (acts ++ _)]
    exact returned.2.accounted
  · exact .pure gains.accounted

end Generating

namespace MethodContext

variable {context : MethodContext}

theorem accounted_start (context : MethodContext) (registerCount first : Nat) :
    (context.start registerCount first).Accounted context registerCount first [] [] where
  first_le := Nat.le_refl first
  labels := ⟨nofun, List.nodup_nil, List.nil_subset _, nofun⟩
  acts := ⟨.nil, fun front _ _ codeEq => absurd codeEq (by cases front <;> nofun), rfl⟩
  frame := nofun
  pool := ⟨rfl, List.length_replicate, ⟨nofun, nofun⟩, fun named =>
    RegisterPool.wellFormed_start named _⟩

/-- The code of a method is that of its body, behind its label and the room that is made for its
frame. -/
theorem accounted_generate (keeps : context.KeepsVariables) {registerCount first last : Nat}
    {body : Stmt} {code : Array Instruction}
    (generated : context.generate registerCount first body = .ok (code, last)) :
    ∃ after : Generation, after.Accounted context registerCount first []
      (context.actionsOfStmt body) ∧
      after.emitter.nextLabel = last ∧
      code.toList = .label (context.registry.methodLabel context.method.id) ::
      .enter (context.frame.localCount + after.pool.slotCount) :: after.emitter.code.toList := by
  unfold MethodContext.generate at generated
  split at generated
  next generation ran =>
    obtain ⟨rfl, rfl⟩ := Prod.mk.inj (Except.ok.inj generated)
    have accounted :=
      Generating.accounted_generateBody keeps body (context.accounted_start registerCount first)
    exact ⟨generation, accounted () generation ran, rfl, by simp [assemble]⟩
  next => cases generated

end MethodContext

end Decaf
