import Decaf.Proofs.Code.Statements
import Decaf.Proofs.Spilling.ShortCircuits
import Decaf.Proofs.Tree.Nodes

/-!
# Bodies that leave no spilled temporaries

By induction over the tree, the code of an expression leaves alone whatever waits in its spill slot.
Each statement begins and ends with no temporary that waits for its use. So nothing is to be known
of the labels of branches and loops, and all that the code of a method ever loads from its spill
slots was stored there on every way.
-/

namespace Decaf

open RegisterPool (Guards Session Transfer Transfers)

/-- All moves of temporaries since some session are on record, and none but the given temporaries
waits for its use. -/
structure Generation.Recorded (start : Session) (base first : Nat)
    (facts : String → Option (Set (Nat × Nat))) (here : Set Temporary) (generation : Generation) :
    Prop where
  history : ∃ history, Transfers (Instruction.Spares base) start history generation.session ∧
    generation.Traced first facts history
  guards : Guards base ∅ here generation.pool

namespace Generating

open Generation

variable {Result : Type} {start : Session} {base first : Nat}
  {facts : String → Option (Set (Nat × Nat))} {here : Set Temporary} {before : Generation}
  {position : Position} {context : MethodContext}
variable {loads : Nat → Prop} {nodes : List Expr}

/-! ## Expressions -/

theorem tends_generateExprs {exprs : List Expr}
    (each : ∀ expr ∈ exprs, ∀ here,
      Tends base loads here (generateExpr context expr) (having here) fun _ => True) :
    Tends base loads here (generateExprs context exprs) (havingAll here) fun _ => True := by
  induction exprs generalizing here with
  | nil => exact .pure rfl trivial
  | cons expr rest ih =>
    refine (each expr List.mem_cons_self here).andThen fun value => ?_
    exact (ih fun other isOther => each other (List.mem_cons_of_mem _ isOther)).andThen fun _ =>
      .pure rfl trivial

/-- The end of a step: the value in a place is changed. -/
theorem tends_finishStep (grants : context.Grants base loads nodes) {target : Expr}
    (isNode : target ∈ nodes) {object : Option Temporary} (fits : FitsTarget context target object)
    (opcode : BinaryOpcode) (isDouble yieldsNew : Bool) :
    Tends base loads (having here object) (do
      let place ← place context position target object
      some <$> stepPlace position opcode isDouble yieldsNew place) (having here) fun _ => True :=
  (tends_place grants isNode fits).bind fun _ stays =>
    Tends.map (having here) (tends_stepPlace stays _ _ _) fun _ _ => trivial

/-- The code of an expression, and of the object in front of its dot, leaves all spilled temporaries
alone that wait while it is evaluated. -/
theorem tends_generate (grants : context.Grants base loads nodes) {expr : Expr}
    (isPart : expr.nodes ⊆ nodes) :
    (∀ here, Tends base loads here (generateExpr context expr) (having here) fun _ => True) ∧
      ∀ here, Tends base loads here (generateTarget context expr) (having here)
        (FitsTarget context expr) := by
  have noTarget (expr : Expr) (here : Set Temporary) :
      Tends base loads here (pure none) (having here) (FitsTarget context expr) :=
      .pure rfl (.inl rfl)
  induction expr with
  | literal site value => exact ⟨fun here => (tends_literal value).concludeSome, noTarget _⟩
  | identifier site name =>
    exact ⟨fun here => (tends_readIdentifier grants (isPart (Expr.self_mem_nodes _))).concludeSome,
      noTarget _⟩
  | this site => exact ⟨fun here => (tends_readThis grants).concludeSome, noTarget _⟩
  | super site => exact ⟨fun here => tends_fail _ _, noTarget _⟩
  | new site className => exact ⟨fun here => (tends_newObject site).concludeSome, noTarget _⟩
  | unary site operator operand ih =>
    have inner := (ih (Expr.nodes_subset_of_child isPart)).1
    exact ⟨fun here => (inner here).andThen fun value => (tends_applyUnary _ value).concludeSome,
      noTarget _⟩
  | binary site operator left right leftIh rightIh =>
    have inLeft := (leftIh (Expr.nodes_subset_of_child isPart)).1
    have inRight := (rightIh (Expr.nodes_subset_of_child isPart)).1
    refine ⟨fun here => ?_, noTarget _⟩
    rw [generateExpr]
    split
    · exact tends_shortCircuit operator (inLeft here) (inRight ∅)
    · exact (inLeft here).andThen fun leftValue => (inRight _).andThen fun rightValue =>
        (tends_applyBinary _ leftValue rightValue).concludeSome
  | call site receiver name arguments receiverIh argumentsIh =>
    refine ⟨fun here => ?_, noTarget _⟩
    have each := fun argument isArgument => (argumentsIh argument isArgument
      (Expr.nodes_subset_of_child isPart (by simp [Expr.children, isArgument]))).1
    have ownCall (target : CallTarget) (here : Set Temporary) : Tends base loads here (do
        let values ← generateExprs context arguments
        conclude (generateCall context site.position target none values))
            (having here) fun _ => True :=
      (tends_generateExprs each).andThen fun values =>
        Tends.conclude (tends_generateCall grants (.inl rfl) values)
    cases receiver with
    | none => exact Tends.bind (tends_orFail _ _ _) fun target _ => ownCall target here
    | some receiver =>
      refine Tends.bind (tends_orFail _ _ _) fun target _ => ?_
      split
      next evaluates =>
        have inReceiver := (receiverIh receiver rfl (Expr.nodes_subset_of_child isPart)).1
        refine (inReceiver here).andThen fun object =>
          (tends_generateExprs each).andThen fun values => ?_
        exact Tends.conclude (@tends_generateCall _ _ _ here _ _ grants _ (some object)
          (.inr evaluates) values)
      next => exact ownCall target here
  | fieldAccess site receiver name ih =>
    have inner := (ih (Expr.nodes_subset_of_child isPart)).1
    constructor
    · refine fun here => Tends.bind (tends_orFail _ _ _) fun field _ => ?_
      split
      · exact (inner here).andThen fun object => (tends_readObjectField field object).concludeSome
      · exact (tends_readOwnField grants field).concludeSome
    · refine fun here => Tends.bind (tends_orFail _ _ _) fun field found => ?_
      split
      next needed => exact (inner here).mono fun _ _ => .inr ⟨_, _, _, _, rfl, found, needed⟩
      next => exact noTarget _ here
  | step site operator yieldsNew target ih =>
    have inside := Expr.nodes_subset_of_child isPart (by simp [Expr.children] : target ∈ _)
    exact ⟨fun here => ((ih inside).2 here).bind fun object fits =>
      (tends_finishStep grants (inside (Expr.self_mem_nodes _)) fits _ _ _).conclude, noTarget _⟩

theorem tends_generateValue (grants : context.Grants base loads nodes) {expr : Expr}
    (isPart : expr.nodes ⊆ nodes) :
    Tends base loads here (generateValue context expr) (fun result => insert result here)
      fun _ => True :=
  ((tends_generate grants isPart).1 here).andThen fun value => by
    cases value with
    | none => exact tends_fail _ _
    | some value => exact .pure rfl trivial

/-! ## Simple statements -/

/-- What is checked at the end of a statement changes nothing. -/
theorem tends_settle {code : Generating Unit}
    (tends : Tends base loads here code (fun _ => here) fun _ => True) :
    Tends base loads here (settle position code) (fun _ => here) fun _ => True := by
  refine tends.conclude.andThen fun _ kept between guards => ?_
  refine whenever_get.goOnWith ?_
  dsimp only
  split
  · exact whenever_fail _ _
  · exact .pure ⟨.refl _, guards, trivial⟩

section

variable (grants : context.Grants base loads nodes)
include grants

/-- The value of an expression is brought into a register. -/
theorem tends_evaluated {expr : Expr} (isPart : expr.nodes ⊆ nodes) :
    Tends base loads here (do
      let value ← generateValue context expr
      let register ← load position value
      return (value, register)) (fun answer => insert answer.1 here) fun _ => True :=
  (tends_generateValue grants isPart).andThen fun _ =>
    (tends_load (Set.mem_insert _ _)).andThen fun _ => .pure rfl trivial

omit grants in
/-- A value goes into an instruction. -/
theorem tends_use {instruction : Register → Instruction}
    (aside : ∀ register, (instruction register).IsAside base loads) (value : Temporary) :
    Tends base loads (insert value here) (do
      let register ← load position value
      emit (instruction register)
      release value) (fun _ => here) fun _ => True :=
  (tends_load (Set.mem_insert _ _)).andThen fun register =>
    (tends_emit (aside register)).andThen fun _ => tends_release rfl

/-- The value of an expression goes into an instruction. -/
theorem tends_consume {instruction : Register → Instruction}
    (aside : ∀ register, (instruction register).IsAside base loads) {expr : Expr}
    (isPart : expr.nodes ⊆ nodes) :
    Tends base loads here (do
      let value ← generateValue context expr
      let register ← load position value
      emit (instruction register)
      release value) (fun _ => here) fun _ => True :=
  (tends_generateValue grants isPart).andThen fun value => tends_use aside value

theorem tends_generateReceiver {target : Expr} (isPart : target.nodes ⊆ nodes) :
    Tends base loads here (generateReceiver context target) (having here)
      (FitsTarget context target) := by
  cases target with
  | fieldAccess site receiver name =>
    have inside : receiver.nodes ⊆ nodes := Expr.nodes_subset_of_child isPart
    refine Tends.bind (tends_orFail _ _ _) fun field found => ?_
    split
    next needed =>
      refine Tends.map (having here) (tends_generateValue grants inside) fun _ _ => .inr ?_
      exact ⟨site, receiver, name, field, rfl, found, needed⟩
    next => exact .pure rfl (.inl rfl)
  | literal | identifier | this | super | new | call | unary | binary | step =>
    exact .pure rfl (.inl rfl)

/-- The end of an assignment: the value is written to its place. -/
theorem tends_finishAssign {target : Expr} (isNode : target ∈ nodes) {object : Option Temporary}
    (fits : FitsTarget context target object) (value : Temporary) :
    Tends base loads (insert value (having here object)) (do
      let place ← place context position target object
      let source ← load position value
      writePlace position source place
      release value) (fun _ => here) fun _ => True := by
  rw [insert_having]
  refine Tends.bind (tends_place grants isNode fits) fun place stays => ?_
  refine (tends_load (mem_having (Set.mem_insert _ _) _)).andThen fun source => ?_
  exact (tends_writePlace stays source).andThen fun _ => tends_release rfl

theorem tends_clearVariables (ids : List VariableId) :
    Tends base loads here (ids.forM (clearVariable context position)) (fun _ => here) fun _ =>
      True := by
  have clears (id : VariableId) : Tends base loads here (clearVariable context position id)
      (fun _ => here) fun _ => True := by
    refine Tends.bind (tends_orFail _ _ _) fun slot isSlot => ?_
    have stores (register : Register) : (Instruction.storeStack slot register).IsAside base loads :=
      ⟨rfl, rfl, grants.inFront slot (.inr ⟨id, isSlot⟩), nofun⟩
    refine tends_acquire.andThen fun acquired => Tends.andThen (tends_passive ?_) fun _ => ?_
    · unfold loadZero
      split <;> rfl
    · exact (tends_emit (stores acquired.2)).andThen fun _ => tends_release rfl
  induction ids with
  | nil => exact .pure rfl trivial
  | cons id rest ih => exact (clears id).andThen fun _ => ih

/-- The code of a simple statement leaves all temporaries alone that wait in their slots. -/
theorem tends_generateStmt {stmt : Stmt} (isPart : stmt.exprNodes ⊆ nodes)
    (isSimple : stmt.isSimple = true) :
    Tends base loads here (generateStmt context stmt) (fun _ => here) fun _ => True := by
  cases stmt with
  | ret site value =>
    refine tends_settle ?_
    cases value with
    | none => exact tends_emit ⟨rfl, rfl, trivial, nofun⟩
    | some value =>
      refine tends_consume grants (fun register => ?_) isPart
      exact ⟨rfl, rfl, trivial, nofun⟩
  | evaluate site expr =>
    refine tends_settle (((tends_generate grants isPart).1 here).andThen fun value => ?_)
    cases value with
    | none => exact .pure rfl trivial
    | some value => exact tends_release rfl
  | assign site target value =>
    have inTarget := List.Subset.trans (List.subset_append_left _ _) isPart
    have inValue := List.Subset.trans (List.subset_append_right _ _) isPart
    refine tends_settle (Tends.bind (tends_generateReceiver grants inTarget) fun object fits => ?_)
    refine (tends_generateValue grants inValue).andThen fun value => ?_
    exact tends_finishAssign grants (inTarget (Expr.self_mem_nodes _)) fits value
  | declare site declared => exact tends_settle (tends_clearVariables grants _)
  | print site value =>
    refine tends_settle (Tends.bind (tends_orFail _ _ _) fun kind _ =>
      tends_consume grants (fun register => ?_) isPart)
    exact ⟨rfl, rfl, trivial, nofun⟩
  | skip site => exact tends_settle (.pure rfl trivial)
  | block | ifElse | whileLoop | forLoop | breakLoop | continueLoop => cases isSimple

end

theorem branchUnless_eq (condition : Expr) (label : String) :
    branchUnless context condition label = (do
      let answer ← (do
        let value ← generateValue context condition
        let register ← load condition.position value
        return (value, register))
      emit (.branchIfZero answer.2 label)
      release answer.1
      unpinAll) := by simp only [branchUnless, bind_assoc, pure_bind]

/-! ## What pieces load -/

/-- Code that is written by steps on record loads from spill slots, and besides from the slots that
it may load. -/
theorem loads_of_transfers {history : List Transfer} {before after : Session}
    {code : List Instruction}
    (transfers : Transfers (Instruction.Keeps base loads) before history after)
    (wellFormed : before.pool.WellFormed) (codeEq : after.code.toList = before.code.toList ++ code)
    {target : Register} {slot : Nat} (isThere : .loadStack target slot ∈ code) :
    before.pool.spillBase ≤ slot ∨ loads slot := by
  rcases List.getElem?_of_mem isThere with ⟨place, found⟩
  have isLater : before.code.size ≤ before.code.size + place := Nat.le_add_right _ _
  have foundLater : after.code[before.code.size + place]? = some (.loadStack target slot) := by
    rw [← Array.getElem?_toList, codeEq, List.getElem?_append_right isLater, Array.length_toList,
      Nat.add_sub_cancel_left, found]
  rcases transfers.mem_of_added wellFormed isLater foundLater with
    keeps | ⟨_, -, -, ⟨-, _, _, isStore⟩ | ⟨-, isSpill⟩⟩
  · exact .inr (keeps.2 target slot rfl)
  · cases isStore
  · rcases isSpill with ⟨other, _, isSpill, same⟩
    cases same
    exact .inl isSpill

end Generating

section

open Generation Generating

variable {context : MethodContext} {code : List Instruction} {target : Register} {slot : Nat}

/-- The code of a simple statement loads what its expressions name, and what was spilled. -/
theorem ActCode.loads {stmt : Stmt} (fits : ActCode context stmt code)
    (inFront : context.StaysBelow context.frame.spillBase) (isSimple : stmt.isSimple = true)
    (isThere : .loadStack target slot ∈ code) :
    context.frame.spillBase ≤ slot ∨ context.Reads stmt.exprNodes slot := by
  rcases fits.generated with ⟨before, after, wellFormed, baseEq, ran, codeEq⟩
  have guards := Guards.of_wellFormed wellFormed baseEq
  have grants : context.Grants context.frame.spillBase (context.Reads stmt.exprNodes)
      stmt.exprNodes :=
    ⟨inFront, fun _ reads => reads⟩
  rcases tends_generateStmt grants (List.Subset.refl _) isSimple _ before guards () after ran with
    ⟨⟨_, transfers, -⟩, -⟩
  exact baseEq ▸ loads_of_transfers transfers wellFormed codeEq isThere

theorem TestCode.loads {condition : Expr} {register : Register}
    (fits : TestCode context condition code register)
    (inFront : context.StaysBelow context.frame.spillBase)
      (isThere : .loadStack target slot ∈ code) :
    context.frame.spillBase ≤ slot ∨ context.Reads condition.nodes slot := by
  rcases fits.generated with ⟨before, after, label, wellFormed, baseEq, ran, codeEq⟩
  have guards := Guards.of_wellFormed wellFormed baseEq
  have grants : context.Grants context.frame.spillBase (context.Reads condition.nodes)
      condition.nodes :=
    ⟨inFront, fun _ reads => reads⟩
  have moves : Whenever (branchUnless context condition label) before fun _ after => ∃ history,
      Transfers (Instruction.Keeps context.frame.spillBase (context.Reads condition.nodes))
      before.session history
        after.session := by
    rw [branchUnless_eq]
    refine (tends_evaluated grants (List.Subset.refl _) _ before guards).bind ?_
    rintro ⟨value, source⟩ loaded ⟨⟨history, transfers, -⟩, -⟩
    refine (succeeds_emit _).whenever.goOn ?_
    refine (succeeds_release value).whenever.goOn ?_
    refine succeeds_unpinAll.whenever.goesTo ?_
    have branched : Transfers
        (Instruction.Keeps context.frame.spillBase (context.Reads condition.nodes)) before.session
        history (loaded.emitted [.branchIfZero source label]).session := by
      rw [session_emitted]
      exact transfers.emit _ ⟨trivial, nofun⟩
    exact ⟨history, (branched.release value).unpin⟩
  rcases moves () after ran with ⟨history, transfers⟩
  exact baseEq ▸ loads_of_transfers transfers wellFormed codeEq (List.mem_append_left _ isThere)

end

namespace Generating

open Generation

variable {start : Session} {base first : Nat} {facts : String → Option (Set (Nat × Nat))}
  {here : Set Temporary} {before : Generation} {position : Position} {context : MethodContext}
variable {Result : Type} {label : String} {rest : Unit → Generating Unit}

/-- Where it does not matter which variables are loaded, all may be. -/
theorem grantsAll (inFront : context.StaysBelow base) {nodes : List Expr} :
    context.Grants base (fun _ => True) nodes :=
  ⟨inFront, fun _ _ => trivial⟩

/-! ## Labels and jumps -/

/-- What a piece of code does is on record, and it leaves the given temporaries at most. -/
def Records (start : Session) (base first : Nat) (facts : String → Option (Set (Nat × Nat)))
    (here : Set Temporary) (after : Generation) : Prop :=
  ∃ more, Extends facts more ∧ after.Recorded start base first more here

theorem Records.extend {others : String → Option (Set (Nat × Nat))} {after : Generation}
    (records : Records start base first others here after) (isMore : Extends facts others) :
    Records start base first facts here after := by
  rcases records with ⟨more, isStillMore, recorded⟩
  exact ⟨more, isMore.trans isStillMore, recorded⟩

/-- Whatever leaves spilled temporaries alone is on record. -/
theorem Tends.records {step : Generating Result} {there : Result → Set Temporary}
    {holds : Result → Prop} (tends : Tends base loads here step there holds)
    (recorded : before.Recorded start base first facts here) :
    Whenever step before fun result after =>
      Records start base first facts (there result) after := by
  refine (tends ∅ before recorded.guards).mono ?_
  rintro result after ⟨⟨later, transfers, -, keeps⟩, guards, -⟩
  rcases recorded.history with ⟨history, early, traced⟩
  rcases keeps first facts history traced with ⟨more, isMore, tracedAfter⟩
  exact ⟨more, isMore,
    ⟨_, early.trans (transfers.mono fun _ keeps => keeps.1), tracedAfter⟩, guards⟩

/-- An instruction may lead to labels of which nothing is known. -/
theorem recorded_emitted (recorded : before.Recorded start base first facts here)
    {instruction : Instruction} (notLabel : instruction.label? = none)
    (spares : instruction.Spares base)
    (leads : ∀ name, instruction.target? = some name → facts name = some ∅) :
    (before.emitted [instruction]).Recorded start base first facts here := by
  rcases recorded.history with ⟨history, early, traced⟩
  refine ⟨⟨history, ?_, ?_⟩, recorded.guards⟩
  · rw [session_emitted]
    exact early.emit instruction spares
  · refine traced.emitted_spares notLabel (recorded.guards.base_eq.symm ▸ spares)
      fun name isNamed => ?_
    exact ⟨∅, Set.empty_subset _, leads name (isNamed.resolve_left (by rw [notLabel]; nofun))⟩

theorem recorded_label (recorded : before.Recorded start base first facts ∅)
    (isKnown : facts label = some ∅) :
    (before.emitted [.label label]).Recorded start base first facts ∅ := by
  rcases recorded.history with ⟨history, early, traced⟩
  refine ⟨⟨history, ?_, traced.emitted (.label label) ?_ fun entry isSpilled => ?_⟩,
    recorded.guards⟩
  · rw [session_emitted]
    exact early.emit (.label label) trivial
  · rintro _ (⟨⟨⟩⟩ | ⟨⟨⟩⟩)
    exact ⟨∅, Set.empty_subset _, isKnown⟩
  · cases @Guards.kept_of_spilled _ ∅ before.session entry recorded.guards isSpilled

theorem recorded_jump (recorded : before.Recorded start base first facts ∅)
    (isKnown : facts label = some ∅) :
    (before.emitted [.jump label]).Recorded start base first facts ∅ :=
  recorded_emitted recorded rfl trivial fun _ isTarget => Option.some.inj isTarget ▸ isKnown

/-- A part of a statement, and what comes behind it. -/
theorem records_bind {step : Generating Unit}
    (records : Whenever step before fun _ after => Records start base first facts ∅ after)
    (recordsBehind : ∀ {more : String → Option (Set (Nat × Nat))} {between : Generation},
      Extends facts more → between.Recorded start base first more ∅ →
      Whenever (rest ()) between fun _ after => Records start base first more ∅ after) :
    Whenever (step >>= rest) before fun _ after => Records start base first facts ∅ after := by
  refine records.bind ?_
  rintro _ between ⟨more, isMore, recorded⟩
  exact (recordsBehind isMore recorded).mono fun _ _ last => last.extend isMore

theorem records_label (recorded : before.Recorded start base first facts ∅)
    (isKnown : facts label = some ∅)
    (recordsBehind : ∀ {between : Generation}, between.Recorded start base first facts ∅ →
      Whenever (rest ()) between fun _ after => Records start base first facts ∅ after) :
    Whenever (emit (.label label) >>= rest) before fun _ after =>
      Records start base first facts ∅ after := by
  refine (succeeds_emit _).whenever.goOn ?_
  exact recordsBehind (recorded_label recorded isKnown)

theorem records_lastLabel (recorded : before.Recorded start base first facts ∅)
    (isKnown : facts label = some ∅) :
    Whenever (emit (.label label)) before fun _ after =>
      Records start base first facts ∅ after := by
  refine (succeeds_emit _).whenever.goesTo ?_
  exact ⟨facts, .refl facts, recorded_label recorded isKnown⟩

theorem records_freshLabel {rest : String → Generating Unit}
    (recorded : before.Recorded start base first facts ∅)
    (recordsBehind :
      ∀ {more : String → Option (Set (Nat × Nat))} {between : Generation} {label : String},
      Extends facts more → more label = some ∅ → between.Recorded start base first more ∅ →
      Whenever (rest label) between fun _ after => Records start base first more ∅ after) :
    Whenever (freshLabel >>= rest) before fun _ after =>
      Records start base first facts ∅ after := by
  refine whenever_freshLabel.goOnWith ?_
  rcases recorded.history with ⟨history, early, traced⟩
  rcases traced.labelTaken ∅ with ⟨isMore, taken⟩
  have recordedTaken : before.labelTaken.Recorded start base first _ ∅ :=
    ⟨⟨history, early, taken⟩, recorded.guards⟩
  exact (recordsBehind isMore (Function.update_self _ _ _) recordedTaken).mono fun _ _ last =>
    last.extend isMore

section

variable (recorded : before.Recorded start base first facts ∅)
include recorded

theorem records_leaveLoop (keyword : String) (label : LoopLabels → String)
    (isTaken : label = LoopLabels.breakTo ∨ label = LoopLabels.continueTo) :
    Whenever (leaveLoop position keyword label) before fun _ after =>
      Records start base first facts ∅ after := by
  refine whenever_get.goOnWith ?_
  refine whenever_found fun labels found => ?_
  rcases recorded.history with ⟨_, -, traced⟩
  have isLoop := traced.loops labels (List.mem_of_mem_head? found)
  refine (succeeds_emit _).whenever.goesTo ?_
  refine ⟨facts, .refl facts, recorded_jump recorded ?_⟩
  rcases isTaken with rfl | rfl
  · exact isLoop.1
  · exact isLoop.2

theorem records_enterLoop {labels : LoopLabels} (breakKnown : facts labels.breakTo = some ∅)
    (continueKnown : facts labels.continueTo = some ∅)
    (recordsBehind : ∀ {between : Generation}, between.Recorded start base first facts ∅ →
      Whenever (rest ()) between fun _ after => Records start base first facts ∅ after) :
    Whenever (enterLoop labels >>= rest) before fun _ after =>
      Records start base first facts ∅ after := by
  refine (succeeds_enterLoop labels).whenever.goOn ?_
  rcases recorded.history with ⟨history, early, traced⟩
  refine recordsBehind ⟨⟨history, early, traced.traces, traced.fresh, fun other isLoop => ?_⟩,
    recorded.guards⟩
  rcases List.mem_cons.mp isLoop with rfl | isOuter
  · exact ⟨breakKnown, continueKnown⟩
  · exact traced.loops other isOuter

/-- The end of a loop. -/
theorem records_loopEnd {top behind : String}
    (topKnown : facts top = some ∅) (behindKnown : facts behind = some ∅) :
    Whenever (do
      emit (.jump top)
      exitLoop
      emit (.label behind)) before fun _ after => Records start base first facts ∅ after := by
  refine (succeeds_emit _).whenever.goOn ?_
  have jumps := recorded_jump recorded topKnown
  refine succeeds_exitLoop.whenever.goOn ?_
  rcases jumps.history with ⟨history, early, traced⟩
  have left : (before.emitted [.jump top]).exited.Recorded start base first facts ∅ :=
    ⟨⟨history, early, traced.traces, traced.fresh, fun labels isLoop =>
      traced.loops labels (List.mem_of_mem_tail isLoop)⟩, jumps.guards⟩
  exact records_lastLabel left behindKnown

end

theorem records_branchUnless (inFront : context.StaysBelow base)
    (recorded : before.Recorded start base first facts ∅) (isKnown : facts label = some ∅)
    (condition : Expr) :
    Whenever (branchUnless context condition label) before fun _ after =>
      Records start base first facts ∅ after := by
  rw [branchUnless_eq]
  refine ((tends_evaluated (grantsAll inFront) (List.Subset.refl _)).records recorded).bind ?_
  rintro ⟨value, register⟩ loaded ⟨more, isMore, recordedLoaded⟩
  refine (succeeds_emit _).whenever.goOn ?_
  have branched : (loaded.emitted [.branchIfZero register label]).Recorded start base first
      more (insert value ∅) :=
    recorded_emitted recordedLoaded rfl trivial fun _ isTarget =>
      Option.some.inj isTarget ▸ isMore _ _ isKnown
  have gives : Tends base (fun _ => True) (insert value ∅) (do
      release value
      unpinAll) (fun _ => ∅) fun _ => True := (tends_release rfl).andThen fun _ => tends_unpinAll
  exact (gives.records branched).mono fun _ _ last => last.extend isMore

/-! ## Statements -/

theorem records_settle {code : Generating Unit}
    (records : Whenever code before fun _ after => Records start base first facts ∅ after) :
    Whenever (settle position code) before fun _ after =>
      Records start base first facts ∅ after := by
  have parts : settle position code = code >>= fun _ => settle position (return ()) := by
    simp only [settle, conclude, bind_assoc, pure_bind]
  have checks : Tends base (fun _ => True) ∅ (settle position (return ()))
      (fun _ => ∅) fun _ => True :=
    tends_settle (.pure rfl trivial)
  rw [parts]
  exact records_bind records fun _ recorded => checks.records recorded

/-- What the code of a statement moves is on record. -/
theorem records_generateStmt (inFront : context.StaysBelow base) (stmt : Stmt)
    {facts : String → Option (Set (Nat × Nat))} {before : Generation}
    (recorded : before.Recorded start base first facts ∅) :
    Whenever (generateStmt context stmt) before fun _ after =>
      Records start base first facts ∅ after := by
  have simple {stmt : Stmt} (isSimple : stmt.isSimple = true) {between : Generation}
      {known : String → Option (Set (Nat × Nat))}
      (isRecorded : between.Recorded start base first known ∅) :
      Whenever (generateStmt context stmt) between fun _ after =>
        Records start base first known ∅ after :=
    (tends_generateStmt (grantsAll inFront) (List.Subset.refl _) isSimple).records isRecorded
  have nothing {place : Position} {between : Generation} {known : String → Option (Set (Nat × Nat))}
      (isRecorded : between.Recorded start base first known ∅) :
      Whenever (settle place (return ())) between fun _ after =>
        Records start base first known ∅ after :=
    records_settle (.pure ⟨known, .refl known, isRecorded⟩)
  induction stmt generalizing facts before with
  | block site statements ih =>
    refine records_bind (nothing recorded) fun {more between} isMore isRecorded => ?_
    clear isMore
    induction statements generalizing more between with
    | nil => exact .pure ⟨more, .refl more, isRecorded⟩
    | cons early rest ihRest =>
      refine records_bind (ih early List.mem_cons_self isRecorded) fun _ later => ?_
      exact ihRest (fun stmt isStmt => ih stmt (List.mem_cons_of_mem _ isStmt)) later
  | ret | evaluate | assign | declare | print | skip => exact simple rfl recorded
  | breakLoop site => exact records_settle (records_leaveLoop recorded _ _ (.inl rfl))
  | continueLoop site => exact records_settle (records_leaveLoop recorded _ _ (.inr rfl))
  | ifElse site condition thenBranch elseBranch thenIh elseIh =>
    cases elseBranch with
    | none =>
      refine records_freshLabel recorded fun {_ _ behind} _ behindKnown isRecorded => ?_
      refine records_bind
        (records_settle (records_branchUnless inFront isRecorded behindKnown condition))
        fun isMore branched => ?_
      refine records_bind (thenIh branched) fun isMost left => ?_
      exact records_lastLabel left (isMost _ _ (isMore _ _ behindKnown))
    | some elseBranch =>
      refine records_freshLabel recorded fun {_ _ otherwise} _ otherwiseKnown isRecorded => ?_
      refine records_freshLabel isRecorded fun {_ _ behind} isFirst behindKnown isRecorded => ?_
      refine records_bind
        (records_settle (records_branchUnless inFront isRecorded (isFirst _ _ otherwiseKnown)
        condition)) fun isMore branched => ?_
      refine records_bind (thenIh branched) fun isMost left => ?_
      have early := isMore.trans isMost
      refine (succeeds_emit _).whenever.goOn ?_
      refine records_label (recorded_jump left (early _ _ behindKnown))
        (early _ _ (isFirst _ _ otherwiseKnown)) fun isRecorded => ?_
      refine records_bind (elseIh elseBranch rfl isRecorded) fun isLast left => ?_
      exact records_lastLabel left (isLast _ _ (early _ _ behindKnown))
  | whileLoop site condition body ih =>
    refine records_freshLabel recorded fun {_ _ top} _ topKnown isRecorded => ?_
    refine records_freshLabel isRecorded fun {_ _ behind} isFirst behindKnown isRecorded => ?_
    refine records_label isRecorded (isFirst _ _ topKnown) fun isRecorded => ?_
    refine records_bind
      (records_settle (records_branchUnless inFront isRecorded behindKnown condition))
      fun isMore branched => ?_
    have topStill := isMore _ _ (isFirst _ _ topKnown)
    have behindStill := isMore _ _ behindKnown
    refine records_enterLoop branched behindStill topStill fun isRecorded => ?_
    refine records_bind (ih isRecorded) fun isMost left => ?_
    exact records_loopEnd left (isMost _ _ topStill) (isMost _ _ behindStill)
  | forLoop site init condition update body initIh updateIh bodyIh =>
    have optional {part : Option Stmt} (partIh : ∀ stmt ∈ part,
        ∀ {facts : String → Option (Set (Nat × Nat))}
        {before : Generation}, before.Recorded start base first facts ∅ →
          Whenever (generateStmt context stmt) before fun _ after =>
            Records start base first facts ∅ after)
        {between : Generation} {known : String → Option (Set (Nat × Nat))}
        (isRecorded : between.Recorded start base first known ∅) :
        Whenever (part.elim (pure ()) (generateStmt context)) between
          fun _ after => Records start base first known ∅ after := by
      cases part with
      | none => exact .pure ⟨known, .refl known, isRecorded⟩
      | some stmt => exact partIh stmt rfl isRecorded
    rw [generateStmt_forLoop]
    refine records_freshLabel recorded fun {_ _ top} _ topKnown isRecorded => ?_
    refine records_freshLabel isRecorded fun {_ _ next} isFirst nextKnown isRecorded => ?_
    refine records_freshLabel isRecorded fun {_ _ behind} isSecond behindKnown isRecorded => ?_
    have topKnown := isSecond _ _ (isFirst _ _ topKnown)
    have nextKnown := isSecond _ _ nextKnown
    refine records_bind (nothing isRecorded) fun isMore isRecorded => ?_
    refine records_bind (optional initIh isRecorded) fun isInit isRecorded => ?_
    have early := isMore.trans isInit
    refine records_label isRecorded (early _ _ topKnown) fun isRecorded => ?_
    have tests {between : Generation} {known : String → Option (Set (Nat × Nat))}
        (isRecorded : between.Recorded start base first known ∅) (isKnown : known behind = some ∅) :
        Whenever (condition.elim (pure ()) fun expr => branchUnless context expr behind) between
          fun _ after => Records start base first known ∅ after := by
      cases condition with
      | none => exact .pure ⟨known, .refl known, isRecorded⟩
      | some condition => exact records_branchUnless inFront isRecorded isKnown condition
    refine records_bind (tests isRecorded (early _ _ behindKnown)) fun isTest isRecorded => ?_
    have early := early.trans isTest
    refine records_enterLoop isRecorded (early _ _ behindKnown) (early _ _ nextKnown)
      fun isRecorded => ?_
    refine records_bind (bodyIh isRecorded) fun isBody isRecorded => ?_
    have early := early.trans isBody
    refine records_label isRecorded (early _ _ nextKnown) fun isRecorded => ?_
    refine records_bind (optional updateIh isRecorded) fun isLast isRecorded => ?_
    have early := early.trans isLast
    exact records_loopEnd isRecorded (early _ _ topKnown) (early _ _ behindKnown)

end Generating

end Decaf
