import Decaf.Proofs.Control.Walking
import Decaf.Proofs.Control.Bodies

/-!
# What events need, and where methods end

Some events give a variable its value, and others need it. A way through a statement is safe if,
where the variables that are visible in front of it have their values, each of its events finds what
it needs.
-/

namespace Decaf

namespace Control

/-- The variables whose values an event needs, and those to which it gives one. -/
structure Supplies where
  needs : Event → VariableId → Prop
  gives : Event → VariableId → Prop

namespace Supplies

/-- A variable has got its value. -/
def Given (supplies : Supplies) (met : List Event) (id : VariableId) : Prop :=
  ∃ event ∈ met, supplies.gives event id

/-- Each event finds what it needs. -/
inductive Meets (supplies : Supplies) : List Event → Prop
  | nil : Meets supplies []
  | concat {met event} (meets : Meets supplies met) (given : ∀ id, supplies.needs event id →
    supplies.Given met id) :
      Meets supplies (met ++ [event])

variable {supplies : Supplies} {met more : List Event} {id : VariableId}

theorem Given.later (given : supplies.Given met id) (isLater : met <+: more) :
    supplies.Given more id :=
  let ⟨event, isThere, gives⟩ := given
  ⟨event, isLater.subset isThere, gives⟩

theorem Meets.front (meets : supplies.Meets more) (isFront : met <+: more) :
    supplies.Meets met := by
  induction meets with
  | nil => exact List.prefix_nil.mp isFront ▸ .nil
  | concat meets given ih =>
    rcases List.prefix_concat_iff.mp isFront with rfl | isFront
    · exact meets.concat given
    · exact ih isFront

theorem Meets.last {event : Event} (meets : supplies.Meets (met ++ [event])) :
    ∀ id, supplies.needs event id → supplies.Given met id := by
  generalize metEq : met ++ [event] = whole at meets
  cases meets with
  | nil => simp at metEq
  | concat meets given =>
    rcases List.append_inj' metEq rfl with ⟨rfl, sameLast⟩
    exact (List.cons.inj sameLast).1 ▸ given

end Supplies

/-- Where the variables in front have their values, a way meets what it needs, and those behind have
theirs. -/
def Way.Safe (supplies : Supplies) (before after : VariableId → Prop) (way : Way) : Prop :=
  ∀ met, supplies.Meets met → (∀ id, before id → supplies.Given met id) →
    met <+: (way met).met ∧ supplies.Meets (way met).met ∧
      ((way met).exit = .done → ∀ id, after id → supplies.Given (way met).met id)

namespace Way.Safe

variable {supplies : Supplies} {oracle : Oracle} {before between after : VariableId → Prop}
  {way next : Way}

theorem leave (exit : Exit) : Safe supplies before before (.leave exit) :=
  fun _ meets given => ⟨List.prefix_rfl, meets, fun _ => given⟩

/-- What had its value in front has it behind. -/
theorem keep (safe : Safe supplies before after way) : Safe supplies before before way := by
  intro met meets given
  rcases safe met meets given with ⟨isLater, meetsThen, _⟩
  exact ⟨isLater, meetsThen, fun _ id isBefore => (given id isBefore).later isLater⟩

/-- What is no longer visible behind does not matter. -/
theorem inBlock (safe : Safe supplies between after way) (visible : ∀ id, between id → before id) :
    Safe supplies before before way := by
  intro met meets given
  rcases safe met meets fun id isInside => given id (visible id isInside) with
    ⟨isLater, meetsThen, _⟩
  exact ⟨isLater, meetsThen, fun _ id isBefore => (given id isBefore).later isLater⟩

theorem act {stmt : Stmt} (needs : ∀ id, supplies.needs (.act stmt) id → before id)
    (gives : ∀ id, after id → before id ∨ supplies.gives (.act stmt) id) :
    Safe supplies before after (.act stmt) := by
  intro met meets given
  refine ⟨List.prefix_append _ _, meets.concat fun id isNeeded => given id (needs id isNeeded),
    fun _ id isAfter => ?_⟩
  rcases gives id isAfter with isBefore | isGiven
  · exact (given id isBefore).later (List.prefix_append _ _)
  · exact ⟨_, List.mem_append_right _ (List.mem_singleton_self _), isGiven⟩

theorem andThen (first : Safe supplies before between way)
    (second : Safe supplies between after next) :
    Safe supplies before after (way.andThen next) := by
  intro met meets given
  rcases first met meets given with ⟨isLater, meetsThen, givenThen⟩
  rw [Way.andThen]
  split
  next isDone =>
    rcases second _ meetsThen (givenThen isDone) with ⟨isLast, meetsLast, givenLast⟩
    exact ⟨isLater.trans isLast, meetsLast, givenLast⟩
  next notDone => exact ⟨isLater, meetsThen, fun isDone => absurd isDone notDone⟩

theorem choose {condition : Expr} (needs : ∀ id, supplies.needs (.test condition) id → before id)
    (yes : Safe supplies before after way) (no : Safe supplies before after next) :
    Safe supplies before after (.choose oracle condition way next) := by
  intro met meets given
  have tested := List.prefix_append met [Event.test condition]
  have meetsTest := meets.concat fun id isNeeded => given id (needs id isNeeded)
  have givenTest (id : VariableId) (isBefore : before id) := (given id isBefore).later tested
  rw [Way.choose]
  split
  · rcases yes _ meetsTest givenTest with ⟨isLater, rest⟩
    exact ⟨tested.trans isLater, rest⟩
  · rcases no _ meetsTest givenTest with ⟨isLater, rest⟩
    exact ⟨tested.trans isLater, rest⟩

theorem resume (safe : Safe supplies before before way) :
    Safe supplies before before way.resume := by
  intro met meets given
  rcases safe met meets given with ⟨isLater, meetsThen, _⟩
  have givenThen (id : VariableId) (isBefore : before id) := (given id isBefore).later isLater
  rw [Way.resume]
  split
  · exact ⟨isLater, meetsThen, fun _ => givenThen⟩
  · exact ⟨isLater, meetsThen, fun _ => givenThen⟩

theorem guarded {condition : Option Expr}
    (needs : ∀ expr ∈ condition, ∀ id, supplies.needs (.test expr) id → before id)
    (safe : Safe supplies before before way) :
    Safe supplies before before (.guarded oracle condition way) := by
  cases condition with
  | none => exact safe
  | some condition => exact choose (needs condition rfl) safe (leave _)

theorem loop (safe : Safe supplies before before way) (fuel : Nat) :
    Safe supplies before before (.loop fuel way) := by
  induction fuel with
  | zero => exact leave _
  | succ fuel ih =>
    intro met meets given
    rcases safe met meets given with ⟨isLater, meetsThen, _⟩
    have givenThen (id : VariableId) (isBefore : before id) := (given id isBefore).later isLater
    simp only [Way.loop]
    cases exitEq : (way met).exit with
    | done =>
      rcases ih _ meetsThen givenThen with ⟨isLast, rest⟩
      exact ⟨isLater.trans isLast, rest⟩
    | broken | continued | returned | unfinished => exact ⟨isLater, meetsThen, fun _ => givenThen⟩

theorem rerun (safe : Safe supplies before before way) (fuel : Nat) :
    Safe supplies before before (.rerun fuel way) := by
  induction fuel with
  | zero => exact leave _
  | succ fuel ih =>
    intro met meets given
    rcases safe met meets given with ⟨isLater, meetsThen, _⟩
    have givenThen (id : VariableId) (isBefore : before id) := (given id isBefore).later isLater
    simp only [Way.rerun]
    split
    · rcases ih _ meetsThen givenThen with ⟨isLast, rest⟩
      exact ⟨isLater.trans isLast, rest⟩
    · exact ⟨isLater, meetsThen, fun _ => givenThen⟩

end Way.Safe

end Control

/-!
## Methods are not left at their end

Where each `break` stands in the body of its loop, a reading leaves a statement only in the ways
that the flow of the statement tells. So control never comes to the end of the code of a method with
a result, and behind the code of the other methods there is a `ret` where it is needed.
-/

namespace Stmt

/-- Whether a `break` leaves the initializer or the update of a `for` loop. -/
def breaksInHead : Stmt → Bool
  | .forLoop _ init _ update _ =>
    init.any (fun stmt => stmt.flow.breaks) || update.any fun stmt => stmt.flow.breaks
  | .block .. | .ifElse .. | .whileLoop .. | .ret .. | .evaluate .. | .assign .. | .declare ..
  | .print .. | .breakLoop .. | .continueLoop .. | .skip .. => false

theorem breaks_of_breaksInHead {site : Site StmtId} {init update : Option Stmt}
    {condition : Option Expr} {body : Stmt}
    (inBodies : (Stmt.forLoop site init condition update body).breaksInHead = false) :
    (∀ stmt ∈ init, stmt.flow.breaks = false) ∧ ∀ stmt ∈ update, stmt.flow.breaks = false := by
  rw [breaksInHead, Bool.or_eq_false_iff, Option.any_eq_false, Option.any_eq_false] at inBodies
  exact ⟨fun stmt isInit => by simpa using inBodies.1 stmt isInit,
    fun stmt isUpdate => by simpa using inBodies.2 stmt isUpdate⟩

end Stmt

namespace Control

/-- The constant `true` holds. -/
def Oracle.KeepsTrue (oracle : Oracle) : Prop :=
  ∀ met condition, condition.isTrue = true → oracle (met ++ [.test condition]) = true

variable {oracle : Oracle} {fuel : Nat}

namespace Way

variable {way next : Way} {flow later : Flow}
variable {allowed : Bool}

/-- A way is left only as a flow tells. -/
structure Within (flow : Flow) (way : Way) : Prop where
  done : ∀ {met}, (way met).exit = .done → flow.completes = true
  broken : ∀ {met}, (way met).exit = .broken → flow.breaks = true

theorem Within.leave_done : Within .normal (.leave .done) :=
  ⟨fun _ => rfl, nofun⟩

theorem Within.act (stmt : Stmt) : Within .normal (.act stmt) where
  done _ := rfl
  broken {met} isBroken := by
    rw [Way.act] at isBroken
    dsimp only at isBroken
    split at isBroken <;> cases isBroken

theorem Within.andThen (first : Within flow way) (second : Within later next) :
    Within (flow.andThen later) (way.andThen next) where
  done {met} isDone := by
    rw [Way.andThen] at isDone
    split at isDone
    next firstDone => rw [Flow.andThen, if_pos (first.done firstDone), second.done isDone]
    next notDone => exact absurd isDone notDone
  broken {met} isBroken := by
    rw [Way.andThen] at isBroken
    split at isBroken
    next firstDone =>
      rw [Flow.andThen, if_pos (first.done firstDone), second.broken isBroken, Bool.or_true]
    next =>
      have breaks := first.broken isBroken
      rw [Flow.andThen]
      split
      · rw [breaks, Bool.true_or]
      · exact breaks

theorem Within.choose (yes : Within flow way) (no : Within later next) (condition : Expr) :
    Within (flow.either later) (.choose oracle condition way next) where
  done {met} isDone := by
    rw [Way.choose] at isDone
    split at isDone
    · rw [Flow.either, yes.done isDone, Bool.true_or]
    · rw [Flow.either, no.done isDone, Bool.or_true]
  broken {met} isBroken := by
    rw [Way.choose] at isBroken
    split at isBroken
    · rw [Flow.either, yes.broken isBroken, Bool.true_or]
    · rw [Flow.either, no.broken isBroken, Bool.or_true]

/-! ## Loops -/

/-- A way is left by a `break` only if that is allowed. -/
def BreaksIf (allowed : Bool) (way : Way) : Prop := ∀ met, (way met).exit = .broken → allowed = true

theorem Within.breaksIf (within : Within flow way) : BreaksIf flow.breaks way :=
  fun _ => within.broken

/-- Nothing is left by a `break`. -/
theorem BreaksIf.of_false (breaks : BreaksIf false way) : BreaksIf allowed way :=
  fun met isBroken => absurd (breaks met isBroken) Bool.false_ne_true

/-- In front of a loop only its initializer is gone through. -/
theorem Within.behind (breaks : BreaksIf false way) (within : Within flow next) :
    Within flow (way.andThen next) where
  done {met} isDone := by
    rw [Way.andThen] at isDone
    split at isDone
    next => exact within.done isDone
    next notDone => exact absurd isDone notDone
  broken {met} isBroken := by
    rw [Way.andThen] at isBroken
    split at isBroken
    · exact within.broken isBroken
    · cases breaks met isBroken

theorem BreaksIf.resume (breaks : BreaksIf allowed way) : BreaksIf allowed way.resume := by
  intro met isBroken
  rw [Way.resume] at isBroken
  split at isBroken
  · cases isBroken
  · exact breaks _ isBroken

theorem BreaksIf.andThen (first : BreaksIf allowed way) (second : BreaksIf allowed next) :
    BreaksIf allowed (way.andThen next) := by
  intro met isBroken
  rw [Way.andThen] at isBroken
  split at isBroken
  · exact second _ isBroken
  · exact first _ isBroken

theorem BreaksIf.rerun (breaks : BreaksIf allowed way) (fuel : Nat) :
    BreaksIf allowed (.rerun fuel way) := by
  intro met isBroken
  induction fuel generalizing met with
  | zero => cases isBroken
  | succ fuel ih =>
    rw [Way.rerun] at isBroken
    dsimp only at isBroken
    split at isBroken
    · exact ih _ isBroken
    · exact breaks _ isBroken

/-- A loop with a condition that can fail may be left in front of an iteration. -/
theorem BreaksIf.guarded (keeps : oracle.KeepsTrue) (breaks : BreaksIf allowed way)
    (condition : Option Expr) :
    BreaksIf (!Expr.isEndless condition || allowed) (.guarded oracle condition way) := by
  intro met isBroken
  cases condition with
  | none => rw [breaks _ isBroken, Bool.or_true]
  | some condition =>
    rw [Way.guarded, Way.choose] at isBroken
    split at isBroken
    · rw [breaks _ isBroken, Bool.or_true]
    next fails =>
      have notTrue : condition.isTrue = false := by
        by_contra isTrue
        exact fails (keeps met condition (Bool.not_eq_false _ ▸ isTrue))
      rw [Expr.isEndless, notTrue, Bool.not_false, Bool.true_or]

theorem exit_loop (fuel : Nat) (met : List Event) : (Way.loop fuel way met).exit ≠ .broken ∧
    ((Way.loop fuel way met).exit = .done → ∃ last, (way last).exit = .broken) := by
  induction fuel generalizing met with
  | zero => exact ⟨Exit.noConfusion, Exit.noConfusion⟩
  | succ fuel ih =>
    simp only [Way.loop]
    cases exitEq : (way met).exit with
    | done => exact ih _
    | broken => exact ⟨Exit.noConfusion, fun _ => ⟨met, exitEq⟩⟩
    | continued | returned | unfinished => simp [exitEq]

/-- A loop is left at its end only by a `break`. -/
theorem Within.loop (breaks : BreaksIf allowed way) (fuel : Nat) :
    Within ⟨allowed, false⟩ (.loop fuel way) where
  done isDone :=
    let ⟨_, isBroken⟩ := (exit_loop fuel _).2 isDone
    breaks _ isBroken
  broken isBroken := absurd isBroken (exit_loop fuel _).1

end Way

/-! ## Statements -/

theorem within_all {statements : List Stmt}
    (each : ∀ stmt ∈ statements, Way.Within stmt.flow (read oracle fuel stmt)) :
    Way.Within (Stmt.flowAll statements) (readAll oracle fuel statements) := by
  induction statements with
  | nil => exact .leave_done
  | cons stmt rest ih =>
    exact (each stmt (by simp)).andThen (ih fun other isOther => each other (by simp [isOther]))

/-- An initializer or an update is not left by a `break`. -/
theorem breaksIf_option {part : Option Stmt}
    (within : ∀ stmt ∈ part, Way.Within stmt.flow (read oracle fuel stmt))
    (noBreak : ∀ stmt ∈ part, stmt.flow.breaks = false) :
    Way.BreaksIf false (readOption oracle fuel part) := by
  intro met isBroken
  cases part with
  | none => cases isBroken
  | some stmt => rw [← noBreak stmt rfl, (within stmt rfl).broken isBroken]

/-- A reading leaves a statement only as its flow tells. -/
theorem within_read (keeps : Oracle.KeepsTrue oracle) {stmt : Stmt}
    (inBodies : stmt.Never Stmt.breaksInHead) : Way.Within stmt.flow (read oracle fuel stmt) := by
  induction stmt with
  | block site statements ih =>
    exact within_all fun stmt isThere => ih stmt isThere (inBodies.child isThere)
  | ifElse site condition thenBranch elseBranch thenIh elseIh =>
    have thenWithin := thenIh inBodies.child
    cases elseBranch with
    | none => exact thenWithin.choose .leave_done condition
    | some elseBranch =>
      exact thenWithin.choose (elseIh elseBranch rfl inBodies.child) condition
  | whileLoop site condition body ih =>
    have bodyWithin := ih inBodies.child
    exact .loop (Way.BreaksIf.guarded keeps bodyWithin.breaksIf.resume (some condition)) fuel
  | forLoop site init condition update body initIh updateIh bodyIh =>
    rcases Stmt.breaks_of_breaksInHead inBodies.here with ⟨initHead, updateHead⟩
    have bodyWithin := bodyIh inBodies.child
    have initBreaks := breaksIf_option (fun stmt isInit => initIh stmt isInit
      (inBodies.child (by simp [Stmt.children, Option.mem_def.mp isInit]))) initHead
    have updateBreaks := breaksIf_option (fun stmt isUpdate => updateIh stmt isUpdate
      (inBodies.child (by simp [Stmt.children, Option.mem_def.mp isUpdate]))) updateHead
    have iteration := bodyWithin.breaksIf.resume.andThen (updateBreaks.of_false.rerun fuel)
    rw [read_forLoop]
    exact .behind initBreaks (.loop (Way.BreaksIf.guarded keeps iteration condition) fuel)
  | ret site value => exact ⟨Exit.noConfusion, Exit.noConfusion⟩
  | evaluate | assign | declare | print | skip => exact .act _
  | breakLoop site => exact ⟨Exit.noConfusion, fun _ => rfl⟩
  | continueLoop site => exact ⟨Exit.noConfusion, Exit.noConfusion⟩

/-- A body that cannot complete is not left at its end, but it may be when a `break` stands in an
update. -/
example : ∃ body : Stmt, body.canComplete = false ∧ (read (fun _ => true) 1 body []).exit = .done :=
  let site : Site StmtId := ⟨⟨0⟩, ⟨1, 1⟩⟩
  ⟨.forLoop site none none (some (.breakLoop site)) (.block site []), rfl, rfl⟩

/-! ## Methods -/

/-- Control stays in the code of a method. It ends with a jump or a return, or control does not come
to its end. -/
structure StaysInside (returnType : DataType) (pieces : List Piece) (code : List Instruction) :
    Prop where
  ends : returnType = .void → ∃ front last, code = front ++ [last] ∧ last.isTerminator = true
  isReturned : returnType ≠ .void → ∀ oracle, Oracle.KeepsTrue oracle → ∀ steps,
    (Walk.start.run oracle pieces steps).spot ≠ .place pieces.length

end Control

open Control

namespace CodeOf

variable {context : MethodContext} {registerCount first last : Nat} {body : Stmt}
  {pieces : List Piece} {code : Array Instruction}
  (codeOf : CodeOf context registerCount first last body pieces code)
include codeOf

theorem exists_last (isVoid : context.method.returnType = .void) :
    ∃ front last, code.toList = front ++ [last] ∧ last.isTerminator = true := by
  rcases codeOf.exists_front with ⟨front, _, _, codeEq⟩
  rw [codeEq, MethodContext.ending]
  split
  · exact ⟨front ++ Piece.flatten pieces, .ret, rfl, rfl⟩
  next noEnding =>
    have isEnded : ((Piece.flatten pieces).getLast?.map Instruction.isTerminator).getD
        false = true := by
      simpa [isVoid] using noEnding
    cases lastEq : (Piece.flatten pieces).getLast? with
    | none => simp [lastEq] at isEnded
    | some final =>
      rcases List.getLast?_eq_some_iff.mp lastEq with ⟨before, flattenEq⟩
      rw [lastEq] at isEnded
      exact ⟨front ++ before, final, by rw [flattenEq, List.append_nil, List.append_assoc], isEnded⟩

theorem staysInside (inBodies : body.Never Stmt.breaksInHead)
    (returns : context.method.returnType ≠ .void → body.canComplete = false) :
    StaysInside context.method.returnType pieces code.toList where
  ends := codeOf.exists_last
  isReturned notVoid oracle keeps steps isBehind := by
    rcases exists_fuel codeOf.lowered codeOf.distinct oracle steps with ⟨fuel, _, inStep⟩
    have isDone := (inStep (.inr isBehind)).done_iff.mpr isBehind
    have completes := (within_read keeps inBodies).done isDone
    cases completes.symm.trans (returns notVoid)

end CodeOf

namespace Program

/-- In a program without complaints, control stays in the code of every method in which each `break`
stands in the body of its loop. -/
theorem staysInside_of_checked {program : Program} (isForest : program.IsForest)
    {checked : CheckedProgram} (isChecked : (Analysis.ofProgram program).checked = .ok checked)
    {registerCount : Nat} (enough : Options.minRegisters ≤ registerCount)
    (named : registerCount ≤ Options.maxRegisters) {body : MethodBody}
    (isBody : body ∈ checked.bodies) (inBodies : body.source.decl.body.Never Stmt.breaksInHead)
    (firstLabel : Nat) :
    ∃ method code nextLabel pieces, checked.registry.methodEntry? body.id = some method ∧
      (checked.contextOf checked.layout method).generate registerCount firstLabel
        body.source.decl.body = .ok (code, nextLabel) ∧
      Lowered (checked.contextOf checked.layout method) none body.source.decl.body pieces ∧
      LabelsAgree (checked.contextOf checked.layout method) pieces code.toList ∧
      StaysInside method.returnType pieces code.toList := by
  rcases (sound_of_checked isForest isChecked).exists_methodPart enough named isBody firstLabel with
    ⟨method, code, nextLabel, pieces, part, generated⟩
  rcases part.generated with ⟨_, _, _, codeOf⟩
  exact ⟨method, code, nextLabel, pieces, part.found, generated, codeOf.lowered, codeOf.labelsAgree,
    codeOf.staysInside inBodies part.sound.accepted.returns⟩

/-- A `break` in the body of the loop leads to the `return` behind it. -/
theorem staysInside_summingProgram : ∃ program checked body method code nextLabel pieces,
    Program.ofJson summingProgram = .ok program ∧
      (Analysis.ofProgram program).checked = .ok checked ∧
      Options.minRegisters ≤ 3 ∧ 3 ≤ Options.maxRegisters ∧ body ∈ checked.bodies ∧
      body.source.decl.body.Never Stmt.breaksInHead ∧
      (checked.contextOf checked.layout method).generate 3 0 body.source.decl.body =
        .ok (code, nextLabel) ∧
      LabelsAgree (checked.contextOf checked.layout method) pieces code.toList ∧
      StaysInside method.returnType pieces code.toList := by
  rcases exists_body_of_test summingProgram
    (fun body => body.source.decl.body.Never Stmt.breaksInHead) (by decide +kernel) with
    ⟨program, checked, body, decoded, isChecked, isBody, tested⟩
  have inBodies := of_decide_eq_true tested
  rcases staysInside_of_checked (isForest_ofJson decoded) isChecked
    (by decide : Options.minRegisters ≤ 3) (by decide) isBody
    inBodies 0 with ⟨method, code, nextLabel, pieces, _, generated, _, labelsAgree, stays⟩
  exact ⟨program, checked, body, method, code, nextLabel, pieces, decoded, isChecked, by decide,
    by decide, isBody, inBodies, generated, labelsAgree, stays⟩

end Program

end Decaf
