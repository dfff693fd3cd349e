import Decaf.Proofs.Listing.Calls
import Decaf.Proofs.Tree.Nodes

/-!
# Expressions that are accounted for

By induction over the tree, the code of an expression does what the tree asks for, in that order,
and no more. The label behind the right operand of `&&` or `||` is open while that operand is
evaluated.
-/

namespace Decaf

namespace Generating

open Generation

variable {Result : Type} {context : MethodContext} {registerCount first : Nat}
  {opened : List String} {acts more : List Action} {start before : Generation} {position : Position}

/-! ## Short circuits -/

theorem gains_conclude {step : Generating Result}
    (gains : Whenever step before fun _ after =>
      start.Gains context registerCount first opened acts after) :
    Whenever (conclude step) before fun _ after =>
      start.Gains context registerCount first opened acts after := by
  refine gains.bind fun result between gains => ?_
  refine succeeds_unpinAll.whenever.goOn ?_
  exact .pure gains.unpinned

theorem whenever_load_lt (accounted : before.Accounted context registerCount first opened acts)
    (temporary : Temporary) :
    Whenever (load position temporary) before fun register after =>
      (∀ index, register = .general index → registerCount ≤ Register.nameCount →
        index < registerCount) ∧
        before.Gains context registerCount first opened acts after := by
  intro register after ran
  have performed := enacts_load temporary opened acts before accounted register after ran
  rw [List.append_nil] at performed
  have inRange : Whenever (load position temporary) before fun register _ =>
      ∀ index, register = .general index → registerCount ≤ Register.nameCount →
          index < registerCount := by
    refine whenever_withPool fun register session loaded index isGeneral named => ?_
    rcases RegisterPool.shuffle_of_run_loadOne (accounted.pool.wellFormed named) loaded with
      ⟨found, _, _, rfl, isLess, -⟩
    obtain rfl := Register.general.inj isGeneral
    exact Nat.lt_of_lt_of_eq isLess accounted.pool.length_eq
  exact ⟨inRange register after ran, performed.2⟩

/-- The label behind the right operand stays open. -/
theorem gains_branchPast (accounted : before.Accounted context registerCount first opened acts)
    (operator : BinaryOperator) (left : Option Temporary) :
    Whenever (branchPast position operator left) before fun branch after =>
      (∀ index, branch.1 = .general index → registerCount ≤ Register.nameCount →
        index < registerCount) ∧
        before.Gains context registerCount first (branch.2 :: opened) acts after := by
  refine whenever_found ?_
  rintro left rfl
  refine (enacts_spillAllExcept [left] opened acts before accounted).bind
    fun _ cleared ⟨_, isCleared⟩ => ?_
  rw [List.append_nil] at isCleared
  refine (whenever_load_lt isCleared.accounted left).bind
    fun register loaded ⟨inRange, isLoaded⟩ => ?_
  refine whenever_freshLabel.goOnWith ?_
  refine (succeeds_emit _).whenever.goOn ?_
  have branched := isLoaded.accounted.freshLabel.lead
    (if operator = .or then .branchIfNonzero register (Label.inner loaded.emitter.nextLabel)
      else .branchIfZero register (Label.inner loaded.emitter.nextLabel)) (by split <;> rfl)
    (List.mem_append_right _ List.mem_cons_self)
  refine (succeeds_release left).whenever.goOn ?_
  refine succeeds_unpinAll.whenever.goOn ?_
  have gains := (isCleared.trans isLoaded).trans ⟨by exact prefix_emitted loaded _, branched⟩
  exact .pure ⟨inRange, (gains.released left).unpinned⟩

/-- The label behind the right operand is placed. -/
theorem gains_joinRight {target : Register} {label : String} {right : Option Temporary}
    (accounted : before.Accounted context registerCount first (label :: opened) acts)
    (inRange : ∀ index, target = .general index → registerCount ≤ Register.nameCount →
      index < registerCount) :
    Whenever (joinRight position target label right) before fun _ after =>
      before.Gains context registerCount first opened acts after := by
  refine whenever_found ?_
  rintro right rfl
  refine (enacts_load right (label :: opened) acts before accounted).bind
    fun source loaded ⟨_, isLoaded⟩ => ?_
  have moved : Enacts context registerCount first []
      (if source ≠ target then emit (.move target source) else pure ()) fun _ => True := by
    split
    · exact enacts_passive rfl
    · exact .pure trivial
  refine Whenever.bind_if (moved _ _ _ isLoaded.accounted) fun between ⟨_, isMoved⟩ => ?_
  have gains := isLoaded.trans isMoved
  rw [List.append_nil, List.append_nil] at gains
  refine (succeeds_release right).whenever.goOn ?_
  refine (succeeds_emit _).whenever.goOn ?_
  have placed := (gains.accounted.released right).place
  have toLabel := (gains.released right).trans ⟨prefix_emitted _ _, placed⟩
  cases target with
  | general index =>
    refine (gains_withPool (RegisterPool.onlySpills_acquireSpecific index)
      placed fun named => ?_).bind fun _ _ acquired => .pure (toLabel.trans acquired)
    refine RegisterPool.wellFormed_acquireSpecific (placed.pool.wellFormed named) ?_
    exact Nat.lt_of_lt_of_eq (inRange index rfl named) placed.pool.length_eq.symm
  | result => exact whenever_fail _ _

/-! ## Expressions -/

theorem enacts_generateExprs {exprs : List Expr}
    (each : ∀ expr ∈ exprs, Enacts context registerCount first (context.actions expr)
      (generateExpr context expr) fun _ => True) :
    Enacts context registerCount first (context.actionsOfAll exprs) (generateExprs context exprs)
      fun _ => True := by
  induction exprs with
  | nil => exact .pure trivial
  | cons expr rest ih =>
    refine (each expr List.mem_cons_self).bind fun value _ => ?_
    exact (ih fun other isOther => each other (List.mem_cons_of_mem _ isOther)).finish
      fun values _ => .pure trivial

section

variable {site : Site ExprId} {name : String} {arguments : List Expr}
  (each : ∀ expr ∈ arguments,
    Enacts context registerCount first (context.actions expr) (generateExpr context expr)
    fun _ => True)

include each

variable {target : CallTarget}

/-- A call that evaluates nothing but its arguments. -/
theorem enacts_ownCall {receiver : Option Expr} (found : context.table.call? site.id = some target)
    (isOwn : receiver = none ∨ evaluatesReceiver target.dispatch = false) :
    Enacts context registerCount first
      (context.actionsOfAll arguments ++ [.perform (.call site receiver name arguments)]) (do
        let values ← generateExprs context arguments
        conclude (generateCall context position target none values)) fun _ => True := by
  intro opened acts before accounted
  rw [← List.append_assoc]
  refine (enacts_generateExprs each opened acts before accounted).withRun.bind
    fun values between ⟨⟨_, gains⟩, ran⟩ => ?_
  exact (gains_conclude (gains_generateCall_own gains.accounted found isOwn ran)).mono
    fun _ _ called => ⟨trivial, gains.trans called⟩

/-- A call that evaluates what stands in front of the dot. -/
theorem enacts_callOn {receiver : Expr} (found : context.table.call? site.id = some target)
    (evaluates : evaluatesReceiver target.dispatch = true)
    (enacts : Enacts context registerCount first (context.actions receiver)
      (generateExpr context receiver) fun _ => True) :
    Enacts context registerCount first
      (context.actions receiver ++ context.actionsOfAll arguments ++
      [.perform (.call site (some receiver) name arguments)]) (do
        let object ← generateExpr context receiver
        let values ← generateExprs context arguments
        conclude (generateCall context position target (some object) values)) fun _ => True := by
  intro opened acts before accounted
  rw [← List.append_assoc, ← List.append_assoc]
  refine (enacts opened acts before accounted).withRun.bind
    fun object middle ⟨⟨_, early⟩, receiverRan⟩ => ?_
  refine (enacts_generateExprs each opened _ middle early.accounted).withRun.bind
    fun values between ⟨⟨_, late⟩, argumentsRan⟩ => ?_
  obtain ⟨slot, isVirtual⟩ : ∃ slot, target.dispatch = .virtual slot := by
    cases dispatchEq : target.dispatch with
    | virtual slot => exact ⟨slot, rfl⟩
    | super | static => simp [dispatchEq, evaluatesReceiver] at evaluates
  exact (gains_conclude (gains_generateCall_on late.accounted found isVirtual
    receiverRan argumentsRan)).mono fun _ _ called => ⟨trivial, (early.trans late).trans called⟩

end

/-- The right operand of `&&` or `||` stands between a branch and the label that it leads to. -/
theorem enacts_shortCircuit {left right : Expr} (operator : BinaryOperator)
    (leftEnacts : Enacts context registerCount first (context.actions left)
      (generateExpr context left) fun _ => True)
    (rightEnacts : Enacts context registerCount first (context.actions right)
      (generateExpr context right) fun _ => True) :
    Enacts context registerCount first (context.actions left ++ context.actions right) (do
      let leftValue ← generateExpr context left
      let (register, label) ← branchPast position operator leftValue
      let rightValue ← generateExpr context right
      conclude (some <$> joinRight position register label rightValue)) fun _ => True := by
  intro opened acts before accounted
  rw [← List.append_assoc]
  refine (leftEnacts opened acts before accounted).bind fun leftValue evaluated ⟨_, early⟩ => ?_
  refine (gains_branchPast early.accounted operator leftValue).bind ?_
  rintro ⟨register, label⟩ branched ⟨inRange, isBranched⟩
  refine (rightEnacts _ _ branched isBranched.accounted).bind fun rightValue between ⟨_, late⟩ => ?_
  have reached := (early.trans isBranched).trans late
  refine (gains_conclude ?_).mono fun _ _ joined => ⟨trivial, reached.trans joined⟩
  exact (gains_joinRight late.accounted inRange).map fun _ _ joined => joined

/-- The code of an expression, and of the object in front of its dot, does what the expression asks
for. -/
theorem enacts_generate (keeps : context.KeepsVariables) (expr : Expr) :
    Enacts context registerCount first (context.actions expr) (generateExpr context expr)
      (fun _ => True) ∧
      Enacts context registerCount first (context.actionsOfTarget expr)
        (generateTarget context expr) (fun _ => True) := by
  induction expr with
  | literal site value =>
    refine ⟨(enacts_produce fun register => enacts_passive ?_).concludeSome, .pure trivial⟩
    cases value <;> rfl
  | identifier site name => exact ⟨(enacts_readIdentifier site).concludeSome, .pure trivial⟩
  | this site => exact ⟨enacts_readThis.concludeSome, .pure trivial⟩
  | super site => exact ⟨enacts_fail _, .pure trivial⟩
  | new site className => exact ⟨(enacts_newObject site className).concludeSome, .pure trivial⟩
  | unary site operator operand ih =>
    exact ⟨ih.1.finish fun value _ => (enacts_applyUnary _ value).concludeSome, .pure trivial⟩
  | binary site operator left right leftIh rightIh =>
    refine ⟨?_, .pure trivial⟩
    rw [generateExpr]
    split
    · exact enacts_shortCircuit operator leftIh.1 rightIh.1
    · exact leftIh.1.bind fun leftValue _ => rightIh.1.finish fun rightValue _ =>
        (enacts_applyBinary _ leftValue rightValue).concludeSome
  | call site receiver name arguments receiverIh argumentsIh =>
    refine ⟨?_, .pure trivial⟩
    have each := fun argument isArgument => (argumentsIh argument isArgument).1
    cases receiver with
    | none => exact enacts_found fun target found => enacts_ownCall each found (.inl rfl)
    | some receiver =>
      refine enacts_found fun target found => ?_
      rw [MethodContext.actions, context.evaluates_eq found]
      split
      next evaluates => exact enacts_callOn each found evaluates (receiverIh receiver rfl).1
      next notEvaluated =>
        rw [List.nil_append]
        exact enacts_ownCall each found (.inr (Bool.eq_false_of_not_eq_true notEvaluated))
  | fieldAccess site receiver name ih =>
    constructor
    · refine enacts_found fun field found => ?_
      rw [MethodContext.actions, context.needs_eq receiver found]
      split
      · exact ih.1.finish fun object _ => (enacts_readObjectField field object).concludeSome
      · exact (enacts_readOwnField field).concludeSome
    · refine enacts_found fun field found => ?_
      rw [MethodContext.actionsOfTarget, context.needs_eq receiver found]
      split
      · exact ih.1
      · exact .pure trivial
  | step site operator yieldsNew target ih =>
    refine ⟨?_, .pure trivial⟩
    refine ih.2.bind fun object _ => Enacts.conclude ?_
    refine (enacts_place target object).andUse fun place has => ?_
    exact (enacts_stepPlace keeps _ _ _ has).map fun _ _ => trivial

theorem enacts_generateValue (keeps : context.KeepsVariables) (expr : Expr) :
    Enacts context registerCount first (context.actions expr) (generateValue context expr)
      fun _ => True :=
  (enacts_generate keeps expr).1.finish fun value _ =>
    (enacts_operand value).mono fun _ _ => trivial

end Generating

end Decaf
