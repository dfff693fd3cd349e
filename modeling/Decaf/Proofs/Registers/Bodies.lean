import Decaf.Proofs.Code.Statements
import Decaf.Proofs.Registers.Calls

/-!
# Registers in the code of bodies

The code of an expression keeps the registers in order whatever is in them, and so does the code of
a statement that starts with nothing in registers.
-/

namespace Decaf

namespace Generating

open Generation

variable {count : Nat} {facts : String → Option (Set Nat)} {here : Set Temporary}
  {before : Generation} {position : Position} {context : MethodContext}
variable {facts : String → Option (Set Nat)} {before after : Generation} {label : String}
  {rest : Unit → Generating Unit}

/-! ## Expressions -/

/-- The code of several expressions leaves at most their values in registers. -/
structure EvaluatesAll (count : Nat) (facts : String → Option (Set Nat)) (before : Generation)
    (values : List (Option Temporary)) (after : Generation) : Prop where
  disciplined : ∃ more, Extends facts more ∧ after.Disciplined count more Set.univ []
  next_le : before.pool.nextTemporary ≤ after.pool.nextTemporary
  made : ∀ temporary, some temporary ∈ values → temporary.index < after.pool.nextTemporary

theorem evaluates_generateExprs {exprs : List Expr}
    (each : ∀ expr ∈ exprs,
      ∀ {facts : String → Option (Set Nat)} {here : Set Temporary} {before : Generation},
      before.Disciplined count facts here [] →
      Whenever (generateExpr context expr) before (Evaluates count facts here before))
    (disciplined : before.Disciplined count facts Set.univ []) :
    Whenever (generateExprs context exprs) before (EvaluatesAll count facts before) := by
  induction exprs generalizing facts before with
  | nil => exact .pure ⟨⟨facts, .refl facts, disciplined⟩, Nat.le_refl _, by simp⟩
  | cons expr rest ih =>
    refine (each expr List.mem_cons_self disciplined).bind ?_
    rintro value between ⟨⟨more, isMore, evaluated⟩, nextLe, made⟩
    refine (ih (fun other isOther => each other (List.mem_cons_of_mem _ isOther))
      (evaluated.mono (Set.subset_univ _))).bind ?_
    rintro values after ⟨⟨most, isMost, last⟩, laterLe, restMade⟩
    refine .pure ⟨⟨most, isMore.trans isMost, last⟩, Nat.le_trans nextLe laterLe,
      fun temporary isValue => ?_⟩
    rcases List.mem_cons.mp isValue with same | inRest
    · exact Nat.lt_of_lt_of_le (made temporary same.symm) laterLe
    · exact restMade temporary inRest

theorem evaluates_none (disciplined : before.Disciplined count facts here []) :
    Evaluates count facts here before none before :=
  ⟨⟨facts, .refl facts, disciplined⟩, Nat.le_refl _, nofun⟩

theorem whenever_noTarget (expr : Expr) (disciplined : before.Disciplined count facts here []) :
    Whenever (pure none) before fun object after =>
      FitsTarget context expr object ∧ Evaluates count facts here before object after :=
  .pure ⟨.inl rfl, evaluates_none disciplined⟩

/-- The code of an expression, and of the object in front of its dot, leaves nothing in registers
but the value. -/
theorem evaluates_generate (expr : Expr) {here : Set Temporary}
    (disciplined : before.Disciplined count facts here []) :
    Whenever (generateExpr context expr) before (Evaluates count facts here before) ∧
      Whenever (generateTarget context expr) before fun object after =>
        FitsTarget context expr object ∧ Evaluates count facts here before object after := by
  induction expr generalizing facts here before with
  | literal site value =>
    exact ⟨Gives.conclude (gives_literal disciplined value), whenever_noTarget _ disciplined⟩
  | identifier site name =>
    exact ⟨Gives.conclude (gives_readIdentifier disciplined site), whenever_noTarget _ disciplined⟩
  | this site =>
    exact ⟨Gives.conclude (gives_readThis disciplined), whenever_noTarget _ disciplined⟩
  | super site => exact ⟨whenever_fail _ _, whenever_noTarget _ disciplined⟩
  | new site className =>
    exact ⟨Gives.conclude (gives_newObject disciplined site), whenever_noTarget _ disciplined⟩
  | unary site operator operand ih =>
    refine ⟨(ih disciplined).1.bind ?_, whenever_noTarget _ disciplined⟩
    rintro value between ⟨⟨more, isMore, evaluated⟩, nextLe, made⟩
    exact (Gives.conclude (gives_applyUnary evaluated made _)).mono fun _ _ last =>
      last.follow isMore nextLe
  | binary site operator left right leftIh rightIh =>
    refine ⟨?_, whenever_noTarget _ disciplined⟩
    rw [generateExpr]
    split
    · refine (leftIh disciplined).1.bind ?_
      rintro leftValue evaluated ⟨⟨more, isMore, disciplinedLeft⟩, nextLe, leftMade⟩
      refine (disciplined_branchPast disciplinedLeft leftMade operator).bind ?_
      rintro ⟨_, label⟩ branched ⟨index, inRange, most, rfl, isMost, isKnown, alone, branchLe⟩
      refine (rightIh alone).1.bind ?_
      rintro rightValue between ⟨⟨others, isOthers, disciplinedRight⟩, rightLe, rightMade⟩
      refine (Gives.conclude (gives_joinRight disciplinedRight rightMade inRange
        (isOthers _ _ isKnown))).mono ?_
      intro value after joined
      exact (joined.mono (Set.empty_subset here)).follow (isMore.trans (isMost.trans isOthers))
        (Nat.le_trans nextLe (Nat.le_trans branchLe rightLe))
    · refine (leftIh disciplined).1.bind ?_
      rintro leftValue evaluated ⟨⟨more, isMore, disciplinedLeft⟩, nextLe, leftMade⟩
      refine (rightIh disciplinedLeft).1.bind ?_
      rintro rightValue between ⟨⟨most, isMost, disciplinedRight⟩, rightLe, rightMade⟩
      refine (Gives.conclude (gives_applyBinary disciplinedRight (fun temporary isLeft =>
        Nat.lt_of_lt_of_le (leftMade temporary isLeft) rightLe) rightMade _)).mono ?_
      exact fun _ _ last => last.follow (isMore.trans isMost) (Nat.le_trans nextLe rightLe)
  | call site receiver name arguments receiverIh argumentsIh =>
    refine ⟨?_, whenever_noTarget _ disciplined⟩
    -- a call clears the registers whatever its operands leave there
    have calling {others : String → Option (Set Nat)} {live : Set Temporary}
        {evaluated : Generation} {object : Option (Option Temporary)} (target : CallTarget)
        (disciplinedHere : evaluated.Disciplined count others live [])
        (isMore : Extends facts others)
        (nextLe : before.pool.nextTemporary ≤ evaluated.pool.nextTemporary)
        (objectMade : ∀ temporary, object = some (some temporary) →
          temporary.index < evaluated.pool.nextTemporary) :
        Whenever (do
          let values ← generateExprs context arguments
          conclude (generateCall context site.position target object values)) evaluated
          (Evaluates count facts here before) := by
      refine (evaluates_generateExprs (fun argument isArgument _ _ _ inOrder =>
        (argumentsIh argument isArgument inOrder).1)
          (disciplinedHere.mono (Set.subset_univ _))).bind ?_
      rintro values between ⟨⟨most, isMost, disciplinedValues⟩, valuesLe, made⟩
      have stillMade := fun temporary isObject =>
        Nat.lt_of_lt_of_le (objectMade temporary isObject) valuesLe
      refine (Evaluates.conclude
        (evaluates_generateCall disciplinedValues stillMade made target)).mono ?_
      intro value after called
      exact (called.mono (Set.empty_subset here)).follow (isMore.trans isMost)
        (Nat.le_trans nextLe valuesLe)
    cases receiver with
    | none =>
      refine whenever_found fun target _ => ?_
      exact calling target disciplined (.refl facts) (Nat.le_refl _) (by rintro _ ⟨⟩)
    | some receiver =>
      refine whenever_found fun target _ => ?_
      split
      · refine (receiverIh receiver rfl disciplined).1.bind ?_
        rintro object between ⟨⟨more, isMore, evaluated⟩, nextLe, made⟩
        refine calling target evaluated isMore nextLe fun temporary isObject => made temporary ?_
        exact Option.some.inj isObject
      · exact calling target disciplined (.refl facts) (Nat.le_refl _) (by rintro _ ⟨⟩)
  | fieldAccess site receiver name ih =>
    constructor
    · refine whenever_found fun field _ => ?_
      split
      · refine (ih disciplined).1.bind ?_
        rintro object between ⟨⟨more, isMore, evaluated⟩, nextLe, made⟩
        refine (Gives.conclude (gives_readObjectField evaluated made field)).mono ?_
        exact fun _ _ last => last.follow isMore nextLe
      · exact Gives.conclude (gives_readOwnField disciplined field)
    · refine whenever_found fun field found => ?_
      split
      next needed =>
        refine (ih disciplined).1.mono fun value after evaluated => ⟨.inr ?_, evaluated⟩
        exact ⟨site, receiver, name, field, rfl, found, needed⟩
      next => exact whenever_noTarget _ disciplined
  | step site operator yieldsNew target ih =>
    refine ⟨(ih disciplined).2.bind ?_, whenever_noTarget _ disciplined⟩
    rintro object evaluated ⟨fits, ⟨more, isMore, disciplinedObject⟩, nextLe, made⟩
    refine Evaluates.conclude ((finds_place fits disciplinedObject made).bind ?_)
    rintro place between ⟨found, foundLe, objectMade⟩
    refine (gives_stepPlace found objectMade _ _ _).map ?_
    intro result after gives
    exact gives.evaluates.follow isMore (Nat.le_trans nextLe foundLe)

theorem gives_generateValue (disciplined : before.Disciplined count facts here []) (expr : Expr) :
    Whenever (generateValue context expr) before fun value after =>
      Evaluates count facts here before (some value) after := by
  refine (evaluates_generate expr disciplined).1.bind ?_
  rintro value between evaluated
  refine (whenever_operand _ _).mono ?_
  rintro result _ ⟨rfl, rfl⟩
  exact evaluated

/-! ## Simple statements -/

/-- Registers are in order, whatever is in them. -/
def InOrder (count : Nat) (facts : String → Option (Set Nat)) (after : Generation) : Prop :=
  ∃ more, Extends facts more ∧ after.Disciplined count more Set.univ []

/-- Registers are in order, and no temporary is in a register. -/
def Rests (count : Nat) (facts : String → Option (Set Nat)) (after : Generation) : Prop :=
  ∃ more, Extends facts more ∧ after.Disciplined count more ∅ []

theorem Rests.extend {others : String → Option (Set Nat)} (rests : Rests count others after)
    (isMore : Extends facts others) : Rests count facts after := by
  rcases rests with ⟨more, isStillMore, disciplined⟩
  exact ⟨more, isMore.trans isStillMore, disciplined⟩

/-- At the end of a statement no temporary is left. -/
theorem rests_settle {code : Generating Unit}
    (inOrder : Whenever code before fun _ after => InOrder count facts after) :
    Whenever (settle position code) before fun _ after => Rests count facts after := by
  have concludes : Whenever (conclude code) before fun _ after => InOrder count facts after := by
    refine inOrder.bind ?_
    rintro _ between ⟨more, isMore, disciplined⟩
    refine succeeds_unpinAll.whenever.goOn ?_
    exact .pure ⟨more, isMore, disciplined.unpinned⟩
  refine concludes.bind ?_
  rintro _ between ⟨more, isMore, disciplined⟩
  refine whenever_get.goOnWith ?_
  dsimp only
  split
  · exact whenever_fail _ _
  next isLive =>
    refine .pure ⟨more, isMore,
      ⟨disciplined.orderly.change rfl disciplined.orderly.unique (Nat.le_refl _) ?_,
        disciplined.fresh, disciplined.loops⟩⟩
    intro register resident isThere
    have noResidents : _ = [] :=
      List.eq_nil_of_length_eq_zero (Nat.add_eq_zero_iff.mp (Classical.not_not.mp isLive)).1
    rw [noResidents] at isThere
    cases isThere

/-- The value of an expression goes into an instruction. -/
theorem rests_consume {instruction : Register → Instruction}
    (disciplined : before.Disciplined count facts ∅ []) (expr : Expr)
    (emits : ∀ {more : String → Option (Set Nat)} {here : Set Temporary} {between : Generation}
      {register : Register}, Extends facts more → between.Disciplined count more here [] →
      between.IsFilled count more register →
      (between.emitted [instruction register]).Disciplined count more here []) :
    Whenever (do
      let value ← generateValue context expr
      let register ← load position value
      emit (instruction register)
      release value) before fun _ after => Rests count facts after := by
  refine (gives_generateValue disciplined expr).bind ?_
  rintro value evaluated ⟨⟨more, isMore, disciplinedValue⟩, -, made⟩
  refine (disciplined_load disciplinedValue (Set.mem_insert _ _) (made _ rfl) nofun).bind ?_
  rintro register between ⟨-, isFilled, loaded⟩
  refine (succeeds_emit _).whenever.goOn ?_
  refine (succeeds_release value).whenever.goesTo ?_
  exact ⟨more, isMore, (emits isMore loaded isFilled).released⟩

theorem Rests.inOrder (rests : Rests count facts after) : InOrder count facts after := by
  rcases rests with ⟨more, isMore, disciplined⟩
  exact ⟨more, isMore, disciplined.mono (Set.empty_subset _)⟩

section

variable (disciplined : before.Disciplined count facts ∅ [])
include disciplined

theorem rests_branchUnless (isKnown : facts label = some ∅) (condition : Expr) :
    Whenever (branchUnless context condition label) before fun _ after =>
      Rests count facts after := by
  have parts : branchUnless context condition label = (do
      (do
        let value ← generateValue context condition
        let register ← load condition.position value
        emit (.branchIfZero register label)
        release value)
      unpinAll) := by simp only [branchUnless, bind_assoc]
  rw [parts]
  refine (rests_consume disciplined condition fun isMore loaded isFilled => ?_).bind ?_
  · refine loaded.emitted (.branchIfZero _ label) rfl ?_ ?_ nofun
    · rintro _ ⟨⟩
      exact ⟨∅, Set.empty_subset _, isMore _ _ isKnown⟩
    · simpa [Instruction.reads] using isFilled
  · rintro _ between ⟨more, isMore, disciplinedBetween⟩
    refine succeeds_unpinAll.whenever.goesTo ?_
    exact ⟨more, isMore, disciplinedBetween.unpinned⟩

theorem rests_generateReturn (value : Option Expr) :
    Whenever (generateReturn context position value) before fun _ after =>
      Rests count facts after := by
  cases value with
  | none =>
    refine (succeeds_emit _).whenever.goesTo ?_
    exact ⟨facts, .refl facts, disciplined.emitted_ending .ret rfl nofun nofun⟩
  | some value =>
    refine rests_consume disciplined value fun _ loaded isFilled => ?_
    refine loaded.emitted_ending (.retValue _) rfl nofun ?_
    simpa [Instruction.reads] using isFilled

theorem rests_generatePrint (value : Expr) :
    Whenever (generatePrint context position value) before fun _ after =>
      Rests count facts after := by
  refine whenever_found fun kind _ => ?_
  refine rests_consume disciplined value fun _ loaded isFilled => ?_
  refine loaded.emitted (.print kind _) rfl nofun ?_ nofun
  simpa [Instruction.reads] using isFilled

theorem rests_generateEvaluate (expr : Expr) :
    Whenever (generateEvaluate context expr) before fun _ after => Rests count facts after := by
  refine (evaluates_generate expr disciplined).1.bind ?_
  rintro value between ⟨⟨more, isMore, evaluated⟩, -, -⟩
  cases value with
  | none => exact .pure ⟨more, isMore, evaluated⟩
  | some value =>
    refine (succeeds_release value).whenever.goesTo ?_
    exact ⟨more, isMore, evaluated.released⟩

end

theorem evaluates_generateReceiver (disciplined : before.Disciplined count facts here [])
    (target : Expr) :
    Whenever (generateReceiver context target) before fun object after =>
      FitsTarget context target object ∧ Evaluates count facts here before object after := by
  cases target with
  | fieldAccess site receiver name =>
    refine whenever_found fun field found => ?_
    split
    next needed =>
      refine (gives_generateValue disciplined receiver).map fun value after evaluated =>
        ⟨.inr ?_, evaluated⟩
      exact ⟨site, receiver, name, field, rfl, found, needed⟩
    next => exact whenever_noTarget _ disciplined
  | literal | identifier | this | super | new | call | unary | binary | step =>
    exact whenever_noTarget _ disciplined

section

variable (disciplined : before.Disciplined count facts ∅ [])
include disciplined

theorem inOrder_generateAssign (target value : Expr) :
    Whenever (generateAssign context position target value) before fun _ after =>
      InOrder count facts after := by
  refine (evaluates_generateReceiver disciplined target).bind ?_
  rintro object received ⟨fits, ⟨more, isMore, disciplinedObject⟩, -, objectMade⟩
  refine (gives_generateValue disciplinedObject value).bind ?_
  rintro value evaluated ⟨⟨most, isMost, disciplinedValue⟩, valueLe, valueMade⟩
  have swapped : evaluated.Disciplined count most (having (insert value ∅) object) [] := by
    refine disciplinedValue.mono ?_
    cases object with
    | none => exact fun _ isHere => isHere
    | some object => exact (Set.insert_comm _ _ _).subset
  refine (finds_place fits swapped fun temporary isObject =>
    Nat.lt_of_lt_of_le (objectMade temporary isObject) valueLe).bind ?_
  rintro place found ⟨disciplinedPlace, placeLe, placeMade⟩
  have isHere : value ∈ having (insert value ∅) (Place.object? place) :=
    having_subset (Set.Subset.refl _) _ (by cases Place.object? place <;> simp [having])
  refine (disciplined_load disciplinedPlace isHere (Nat.lt_of_lt_of_le (valueMade _ rfl) placeLe)
    (by rintro _ ⟨⟩)).bind ?_
  rintro source loaded ⟨loads, isFilled, disciplinedLoaded⟩
  refine (disciplined_writePlace disciplinedLoaded isFilled fun object isObject =>
    Nat.lt_of_lt_of_le (placeMade object isObject) loads.next_le).bind ?_
  rintro _ written ⟨-, disciplinedWritten⟩
  refine (succeeds_release value).whenever.goesTo ?_
  exact ⟨most, isMore.trans isMost,
    (disciplinedWritten.mono (Set.insert_subset_insert (Set.empty_subset Set.univ))).released⟩

theorem rests_clearVariable (id : VariableId) :
    Whenever (clearVariable context position id) before fun _ after =>
      after.Disciplined count facts ∅ [] := by
  refine whenever_found fun slot _ => ?_
  refine (disciplined_acquire disciplined).bind ?_
  rintro ⟨value, _⟩ between ⟨index, inRange, rfl, -, -, -, acquired⟩
  dsimp only
  generalize (context.registry.variableEntry? id).any (fun entry => entry.type = .double) = isDouble
  have fills : Instruction.Fills (loadZero isDouble) ∧ ∀ register,
      (loadZero isDouble register).reads = [] := by
    cases isDouble <;> exact ⟨fun _ => ⟨rfl, rfl, rfl⟩, fun _ => rfl⟩
  rcases acquired.filled _ fills.1 inRange (by simp [fills.2]) with ⟨-, filled, loaded⟩
  refine (succeeds_emit _).whenever.goOn ?_
  have stored := loaded.emitted (.storeStack slot (.general index)) rfl nofun
    (by simpa [Instruction.reads] using filled) nofun
  refine (succeeds_emit _).whenever.goOn ?_
  refine (succeeds_release value).whenever.goesTo ?_
  exact stored.released

theorem rests_clearVariables (ids : List VariableId) :
    Whenever (ids.forM (clearVariable context position)) before fun _ after =>
      Rests count facts after := by
  induction ids generalizing before with
  | nil => exact .pure ⟨facts, .refl facts, disciplined⟩
  | cons id rest ih => exact (rests_clearVariable disciplined id).bind fun _ _ cleared => ih cleared

theorem rests_leaveLoop (keyword : String) (label : LoopLabels → String)
    (isTaken : label = LoopLabels.breakTo ∨ label = LoopLabels.continueTo) :
    Whenever (leaveLoop position keyword label) before fun _ after => Rests count facts after := by
  refine whenever_get.goOnWith ?_
  refine whenever_found fun labels found => ?_
  have isLoop := disciplined.loops labels (List.mem_of_mem_head? found)
  refine (succeeds_emit _).whenever.goesTo ?_
  refine ⟨facts, .refl facts, disciplined.emitted_ending (.jump (label labels)) rfl ?_ nofun⟩
  rintro _ ⟨⟩
  rcases isTaken with rfl | rfl
  · exact ⟨∅, Set.empty_subset _, isLoop.1⟩
  · exact ⟨∅, Set.empty_subset _, isLoop.2⟩

end

/-! ## Statements -/

theorem disciplined_label (disciplined : before.Disciplined count facts ∅ [])
    (isKnown : facts label = some ∅) :
    (before.emitted [.label label]).Disciplined count facts ∅ [] := by
  refine disciplined.emitted_alone (.label label) ?_ nofun rfl
  rintro _ (⟨⟨⟩⟩ | ⟨⟨⟩⟩)
  exact ⟨∅, Set.empty_subset _, isKnown⟩

theorem disciplined_jump (disciplined : before.Disciplined count facts ∅ [])
    (isKnown : facts label = some ∅) :
    (before.emitted [.jump label]).Disciplined count facts ∅ [] := by
  refine disciplined.emitted_ending (.jump label) rfl ?_ nofun
  rintro _ ⟨⟩
  exact ⟨∅, Set.empty_subset _, isKnown⟩

/-- A part of a statement, and what comes behind it. -/
theorem rests_bind {first : Generating Unit}
    (rests : Whenever first before fun _ after => Rests count facts after)
    (restsBehind : ∀ {more : String → Option (Set Nat)} {between : Generation},
      Extends facts more → between.Disciplined count more ∅ [] →
      Whenever (rest ()) between fun _ after => Rests count more after) :
    Whenever (first >>= rest) before fun _ after => Rests count facts after := by
  refine rests.bind ?_
  rintro _ between ⟨more, isMore, disciplined⟩
  exact (restsBehind isMore disciplined).mono fun _ _ last => last.extend isMore

theorem rests_label (disciplined : before.Disciplined count facts ∅ [])
    (isKnown : facts label = some ∅)
    (restsBehind : ∀ {between : Generation}, between.Disciplined count facts ∅ [] →
      Whenever (rest ()) between fun _ after => Rests count facts after) :
    Whenever (emit (.label label) >>= rest) before fun _ after => Rests count facts after := by
  refine (succeeds_emit _).whenever.goOn ?_
  exact restsBehind (disciplined_label disciplined isKnown)

theorem rests_freshLabel {rest : String → Generating Unit}
    (disciplined : before.Disciplined count facts ∅ [])
    (restsBehind : ∀ {more : String → Option (Set Nat)} {between : Generation} {label : String},
      Extends facts more → more label = some ∅ → between.Disciplined count more ∅ [] →
      Whenever (rest label) between fun _ after => Rests count more after) :
    Whenever (freshLabel >>= rest) before fun _ after => Rests count facts after := by
  refine (disciplined_freshLabel disciplined ∅).bind ?_
  rintro label between ⟨more, isMore, isKnown, extended⟩
  exact (restsBehind isMore isKnown extended).mono fun _ _ last => last.extend isMore

theorem rests_lastLabel (disciplined : before.Disciplined count facts ∅ [])
    (isKnown : facts label = some ∅) :
    Whenever (emit (.label label)) before fun _ after => Rests count facts after := by
  refine (succeeds_emit _).whenever.goesTo ?_
  exact ⟨facts, .refl facts, disciplined_label disciplined isKnown⟩

/-- The end of a loop. -/
theorem rests_loopEnd (disciplined : before.Disciplined count facts ∅ []) {top behind : String}
    (topKnown : facts top = some ∅) (behindKnown : facts behind = some ∅) :
    Whenever (do
      emit (.jump top)
      exitLoop
      emit (.label behind)) before fun _ after => Rests count facts after := by
  refine (succeeds_emit _).whenever.goOn ?_
  have jumps := disciplined_jump disciplined topKnown
  refine succeeds_exitLoop.whenever.goOn ?_
  have left : (before.emitted [.jump top]).exited.Disciplined count facts ∅ [] :=
    ⟨jumps.orderly, jumps.fresh, fun labels isLoop =>
      jumps.loops labels (List.mem_of_mem_tail isLoop)⟩
  exact rests_lastLabel left behindKnown

theorem rests_enterLoop (disciplined : before.Disciplined count facts ∅ []) {labels : LoopLabels}
    (breakKnown : facts labels.breakTo = some ∅) (continueKnown : facts labels.continueTo = some ∅)
    (restsBehind : ∀ {between : Generation}, between.Disciplined count facts ∅ [] →
      Whenever (rest ()) between fun _ after => Rests count facts after) :
    Whenever (enterLoop labels >>= rest) before fun _ after => Rests count facts after := by
  refine (succeeds_enterLoop labels).whenever.goOn ?_
  refine restsBehind ⟨disciplined.orderly, disciplined.fresh, fun other isLoop => ?_⟩
  rcases List.mem_cons.mp isLoop with rfl | isOuter
  · exact ⟨breakKnown, continueKnown⟩
  · exact disciplined.loops other isOuter

theorem rests_generateStmt (stmt : Stmt) (disciplined : before.Disciplined count facts ∅ []) :
    Whenever (generateStmt context stmt) before fun _ after => Rests count facts after := by
  have nothing {start : Generation} {known : String → Option (Set Nat)}
      (inOrder : start.Disciplined count known ∅ [])
      (place : Position) : Whenever (settle place (return ())) start fun _ after =>
        Rests count known after :=
    rests_settle (.pure ⟨known, .refl known, inOrder.mono (Set.empty_subset _)⟩)
  have settling {place : Position} {code : Generating Unit} {start : Generation}
      {known : String → Option (Set Nat)}
      (rests : Whenever code start fun _ after => Rests count known after) :
      Whenever (settle place code) start fun _ after => Rests count known after :=
    rests_settle (rests.mono fun _ _ => Rests.inOrder)
  induction stmt generalizing facts before with
  | block site statements ih =>
    refine rests_bind (nothing disciplined _) fun {more between} isMore inOrder => ?_
    clear isMore
    induction statements generalizing more between with
    | nil => exact .pure ⟨more, .refl more, inOrder⟩
    | cons first rest ihRest =>
      refine rests_bind (ih first List.mem_cons_self inOrder) fun _ later => ?_
      exact ihRest (fun stmt isStmt => ih stmt (List.mem_cons_of_mem _ isStmt)) later
  | ret site value => exact settling (rests_generateReturn disciplined value)
  | evaluate site expr => exact settling (rests_generateEvaluate disciplined expr)
  | assign site target value => exact rests_settle (inOrder_generateAssign disciplined target value)
  | declare site declared => exact settling (rests_clearVariables disciplined _)
  | print site value => exact settling (rests_generatePrint disciplined value)
  | breakLoop site => exact settling (rests_leaveLoop disciplined _ _ (.inl rfl))
  | continueLoop site => exact settling (rests_leaveLoop disciplined _ _ (.inr rfl))
  | skip site => exact nothing disciplined _
  | ifElse site condition thenBranch elseBranch thenIh elseIh =>
    cases elseBranch with
    | none =>
      refine rests_freshLabel disciplined fun {_ _ behind} _ behindKnown inOrder => ?_
      refine rests_bind (settling (rests_branchUnless inOrder behindKnown condition))
        fun isMore branched => ?_
      refine rests_bind (thenIh branched) fun isMost left => ?_
      exact rests_lastLabel left (isMost _ _ (isMore _ _ behindKnown))
    | some elseBranch =>
      refine rests_freshLabel disciplined fun {_ _ otherwise} _ otherwiseKnown inOrder => ?_
      refine rests_freshLabel inOrder fun {_ _ behind} isFirst behindKnown inOrder => ?_
      refine rests_bind
        (settling (rests_branchUnless inOrder (isFirst _ _ otherwiseKnown) condition))
        fun isMore branched => ?_
      refine rests_bind (thenIh branched) fun isMost left => ?_
      have early := isMore.trans isMost
      refine (succeeds_emit _).whenever.goOn ?_
      refine rests_label (disciplined_jump left (early _ _ behindKnown))
        (early _ _ (isFirst _ _ otherwiseKnown)) fun inOrder => ?_
      refine rests_bind (elseIh elseBranch rfl inOrder) fun isLast left => ?_
      exact rests_lastLabel left (isLast _ _ (early _ _ behindKnown))
  | whileLoop site condition body ih =>
    refine rests_freshLabel disciplined fun {_ _ top} _ topKnown inOrder => ?_
    refine rests_freshLabel inOrder fun {_ _ behind} isFirst behindKnown inOrder => ?_
    refine rests_label inOrder (isFirst _ _ topKnown) fun inOrder => ?_
    refine rests_bind (settling (rests_branchUnless inOrder behindKnown condition))
      fun isMore branched => ?_
    have topStill := isMore _ _ (isFirst _ _ topKnown)
    have behindStill := isMore _ _ behindKnown
    refine rests_enterLoop branched behindStill topStill fun inOrder => ?_
    refine rests_bind (ih inOrder) fun isMost left => ?_
    exact rests_loopEnd left (isMost _ _ topStill) (isMost _ _ behindStill)
  | forLoop site init condition update body initIh updateIh bodyIh =>
    have optional {part : Option Stmt} (partIh : ∀ stmt ∈ part,
        ∀ {facts : String → Option (Set Nat)}
        {before : Generation}, before.Disciplined count facts ∅ [] →
          Whenever (generateStmt context stmt) before fun _ after => Rests count facts after)
        {start : Generation} {known : String → Option (Set Nat)}
          (inOrder : start.Disciplined count known ∅ []) :
        Whenever (part.elim (pure ()) (generateStmt context)) start fun _ after =>
            Rests count known after := by
      cases part with
      | none => exact .pure ⟨known, .refl known, inOrder⟩
      | some stmt => exact partIh stmt rfl inOrder
    rw [generateStmt_forLoop]
    refine rests_freshLabel disciplined fun {_ _ top} _ topKnown inOrder => ?_
    refine rests_freshLabel inOrder fun {_ _ next} isFirst nextKnown inOrder => ?_
    refine rests_freshLabel inOrder fun {_ _ behind} isSecond behindKnown inOrder => ?_
    have topKnown := isSecond _ _ (isFirst _ _ topKnown)
    have nextKnown := isSecond _ _ nextKnown
    refine rests_bind (nothing inOrder _) fun isMore inOrder => ?_
    refine rests_bind (optional initIh inOrder) fun isInit inOrder => ?_
    have early := isMore.trans isInit
    refine rests_label inOrder (early _ _ topKnown) fun inOrder => ?_
    have tests {start : Generation} {known : String → Option (Set Nat)}
        (inOrder : start.Disciplined count known ∅ []) (isKnown : known behind = some ∅) :
        Whenever (condition.elim (pure ()) fun expr => branchUnless context expr behind) start
          fun _ after => Rests count known after := by
      cases condition with
      | none => exact .pure ⟨known, .refl known, inOrder⟩
      | some condition => exact rests_branchUnless inOrder isKnown condition
    refine rests_bind (tests inOrder (early _ _ behindKnown)) fun isTest inOrder => ?_
    have early := early.trans isTest
    refine rests_enterLoop inOrder (early _ _ behindKnown) (early _ _ nextKnown) fun inOrder => ?_
    refine rests_bind (bodyIh inOrder) fun isBody inOrder => ?_
    have early := early.trans isBody
    refine rests_label inOrder (early _ _ nextKnown) fun inOrder => ?_
    refine rests_bind (optional updateIh inOrder) fun isLast inOrder => ?_
    have early := early.trans isLast
    exact rests_loopEnd inOrder (early _ _ topKnown) (early _ _ behindKnown)

end Generating

end Decaf
