import Decaf.Proofs.Compiler
import Decaf.Proofs.Evaluation.Agreement

/-!
# Correct code for expressions and assignments

The code of an expression or an assignment without calls and new objects is run from its start. If
the evaluation comes to an end the machine gets to the end of the code, with the value in the
register of the temporary for it and with the cells changed in the same way; if the evaluation fails
the machine stops on the way. What else was in the frame is left alone, and so are the temporaries
that were live before.
-/

namespace Decaf

open Generation Generating

/-- The temporaries of a machine have their words, and its memory represents the contents of the
cells; elsewhere the memory is like the background. -/
def Mirrors (context : MethodContext) (world : World) (background : Memory)
    (generation : Generation) (words : Temporary → Word) (contents : Contents) (machine : Machine) :
    Prop :=
  ∃ memory, generation.Tracks machine words memory ∧
    Represents context world background contents memory

/-- A machine that runs a block follows an evaluation: it gets to the end of the block if there is
an outcome, and stops on the way if there is none. Temporaries that were live keep their words. -/
def Follows (context : MethodContext) (before after : Generation) (block : List Instruction)
    {Result : Type} (evaluation : World → Evaluating Result) (shows : Result → Machine → Prop) :
    Prop :=
  ∀ world background code first machine words contents, Placed code first block →
    (labelsOf code).Nodup →
    Mirrors context world background before words contents machine →
      Running.Arrives world.primitives code ⟨first, machine⟩ (first + block.length)
        ((evaluation world).run contents) fun outcome last => shows outcome.1 last ∧ ∃ others,
          (∀ temporary, before.pool.IsLive temporary → others temporary = words temporary) ∧
            Mirrors context world background after others outcome.2 last

/-- The code of an expression leaves one more temporary, and its register has the value of the
expression. -/
def MethodContext.Translates (context : MethodContext) (expr : Expr) : Prop :=
  ∀ before : Generation, before.Ready → before.pool.spillBase = context.frame.spillBase →
    Succeeds (generateExpr context expr) before fun result after => ∃ value register resident block,
      result = some value ∧ after.pool.content? register = some resident ∧
      resident.temporary = value ∧
      after.Ready ∧ before.pool.Exchanges after.pool [] [value] ∧ Emits before after block [] ∧
      Follows context before after block (fun world => eval context.setting world expr)
        fun result last => last.register (.general register) = result.word

/-- The code of an assignment leaves the temporaries that there were, and changes one cell. -/
def MethodContext.TranslatesAssign (context : MethodContext) (target value : Expr) : Prop :=
  ∀ before : Generation, before.Ready → before.pool.spillBase = context.frame.spillBase →
    ∀ position,
    Succeeds (generateAssign context position target value) before fun _ after => ∃ block,
      before.pool.Exchanges after.pool [] [] ∧ Emits before after block [] ∧
        Follows context before after block (fun world =>
          evalAssign context.setting world target value) fun _ _ => True

variable {context : MethodContext}

/-- A calculation on the memory that agrees with an evaluation does the same to the cells. -/
theorem Generation.Simulates.follows {before after : Generation} {block : List Instruction}
    {made : List Temporary} {Result Calculated : Type} {calculation : Calculation Calculated}
    (words : Calculated → List Word) {evaluation : World → Evaluating Result}
    {related : World → Result → Calculated → Prop}
    (simulates : Simulates before after block made fun primitives memory =>
      (calculation primitives memory).map fun outcome => (words outcome.1, outcome.2))
    (agrees : ∀ world background,
      Agrees context world background (evaluation world) calculation (related world))
    {shows : Result → Machine → Prop}
    (keeps : ∀ {world result calculated machine contents memory}, related world result calculated →
      after.Tracks machine contents memory → made.map contents = words calculated →
      shows result machine) :
    Follows context before after block evaluation shows := by
  rintro world background code first machine contents cells placed distinct ⟨memory,
    tracks, represents⟩
  have arrives :=
    (simulates world.primitives code first machine contents memory placed distinct tracks).of_map
  refine arrives.of_rel (agrees world background cells memory represents) ?_
  rintro ⟨result, cellsAfter⟩ ⟨calculated, memoryAfter⟩ last ⟨isRelated, representsAfter⟩
    ⟨others, same, wordsEq, tracksAfter⟩
  exact ⟨keeps isRelated tracksAfter wordsEq, others, same, memoryAfter, tracksAfter,
    representsAfter⟩

section

variable (regular : context.Regular)
include regular

variable {type expected : DataType} {target value : Expr}

theorem MethodContext.translates_of_means {expr : Expr}
    (means : Means context.setting context.table expr (.value type)) (isQuiet : expr.IsQuiet)
    (settled : ∀ node ∈ expr.nodes,
      Resolution.Settles context.registry context.bindings context.method node) :
    context.Translates expr := by
  intro before ready baseEq
  have generates := (generates_of_means regular.toComplete means type rfl).1
  refine (generates before ready baseEq).mono ?_
  rintro result after ⟨_, block, delivers, calculates⟩
  rcases calculates isQuiet with ⟨simulates, value, rfl, register, resident, held, isHeld⟩
  refine ⟨value, register, resident, block, rfl, held, isHeld, delivers.ready, delivers.exchanges,
    delivers.emits, Simulates.follows (fun word => [word]) simulates
      (fun world background => (realizes_of_means regular means isQuiet settled type rfl).value) ?_⟩
  intro world result word last contents memory stands tracks wordsEq
  have inRegister := tracks.holds.resident held
  rw [isHeld] at inRegister
  exact inRegister.trans ((List.singleton_inj.mp wordsEq).trans stands.1)

/-- The value of an assignment is put into the cell that the target stands for. -/
theorem agrees_evalAssign {world : World} {background : Memory}
    (assignable : Checking.isAssignable context.setting target = true)
    (targetRealizes : Realizes context world background target expected)
    (valueRealizes : Realizes context world background value type)
    (fits : context.registry.isAssignable type expected = true) :
    Agrees context world background (evalAssign context.setting world target value)
      (fun primitives memory =>
        (context.computeAssign target value primitives memory).map fun last => ((), last))
      fun _ _ => True := by
  have computeEq : (fun primitives memory =>
      (context.computeAssign target value primitives memory).map fun last => ((), last)) =
        (context.computeObject target).andThen fun object => (context.compute value).andThen
          (context.store target object) := by
    funext primitives memory
    simp only [MethodContext.computeAssign, Calculation.andThen, MethodContext.store,
      Option.map_bind, Function.comp_def]
  rw [computeEq]
  refine (targetRealizes.cell assignable).bind fun cell object finds => ?_
  refine valueRealizes.value.bind fun result word stands => ?_
  rw [stands.1]
  exact agrees_writeCell regular finds (stands.2.of_isAssignable fits)

theorem MethodContext.translatesAssign_of_means
    (assignable : Checking.isAssignable context.setting target = true)
    (targetMeans : Means context.setting context.table target (.value expected))
    (valueTyped : HasType context.setting context.table value type)
    (fits : context.registry.isAssignable type expected = true) (targetQuiet : target.IsQuiet)
    (valueQuiet : value.IsQuiet) (settled : ∀ node ∈ target.nodes ++ value.nodes,
      Resolution.Settles context.registry context.bindings context.method node) :
    context.TranslatesAssign target value := by
  intro before ready baseEq position
  have object := ((generates_of_means regular.toComplete targetMeans expected rfl).2 assignable).2
  have generates := (generates_of_means regular.toComplete valueTyped.means type rfl).1
  refine (succeeds_generateAssign ready baseEq object generates valueTyped.isValue).mono ?_
  rintro _ after ⟨block, assigns⟩
  have simulates : Simulates before after block [] fun primitives memory =>
      ((context.computeAssign target value primitives memory).map fun last => ((), last)).map
        fun outcome => ([], outcome.2) := by
    simpa only [Option.map_map, Function.comp_def] using assigns.simulates targetQuiet valueQuiet
  have agrees := fun (world : World) (background : Memory) =>
    have targetRealizes : Realizes context world background target expected :=
      realizes_of_means regular targetMeans targetQuiet
        (fun node isNode => settled node (List.mem_append_left _ isNode)) expected rfl
    have valueRealizes : Realizes context world background value type :=
      realizes_of_means regular valueTyped.means valueQuiet
        (fun node isNode => settled node (List.mem_append_right _ isNode)) type rfl
    agrees_evalAssign regular assignable targetRealizes valueRealizes fits
  exact ⟨block, assigns.exchanges, assigns.emits,
    simulates.follows (fun _ => []) agrees fun _ _ _ => trivial⟩

end

/-- In every method of a program without complaints, the code of all expressions and assignments
without calls and new objects does what they mean; only `super` and the names of classes are no
values. -/
theorem Program.IsForest.translates {program : Program} (isForest : program.IsForest)
    {checked : CheckedProgram} (isChecked : (Analysis.ofProgram program).checked = .ok checked)
    {body : MethodBody} (isBody : body ∈ checked.bodies) :
    ∃ method, checked.registry.methodEntry? body.id = some method ∧
      (∀ expr ∈ body.source.decl.body.exprNodes, expr.IsQuiet →
        holder? (checked.contextOf checked.layout method).setting expr = none →
          (checked.contextOf checked.layout method).Translates expr) ∧
      ∀ site target source, .assign site target source ∈ body.source.decl.body.nodes →
        target.IsQuiet →
        source.IsQuiet → (checked.contextOf checked.layout method).TranslatesAssign
          target source := by
  have sound := sound_of_checked isForest isChecked
  rcases sound.bodies body isBody with ⟨method, found, accepted, settled, _⟩
  have regular := sound.regular found
  refine ⟨method, found, ?_, ?_⟩
  · intro expr isNode isQuiet isValue
    rcases accepted.accepted.means_of_mem isNode with ⟨meaning, means⟩
    rw [@holder?_of_means (checked.contextOf checked.layout method) _ _ _ means] at isValue
    cases meaning with
    | value type =>
      exact MethodContext.translates_of_means regular means isQuiet fun node inExpr =>
        settled node (Stmt.nodes_subset_exprNodes isNode inExpr)
    | aClass | asParent => cases isValue
  · intro site target source isNode targetQuiet sourceQuiet
    rcases accepted.accepted.of_mem_nodes isNode with ⟨inLoop, isAccepted⟩
    cases isAccepted with
    | assign assignable targetMeans valueTyped fits =>
      exact MethodContext.translatesAssign_of_means regular assignable targetMeans
        valueTyped fits targetQuiet
        sourceQuiet fun node isPart => settled node (Stmt.exprNodes_subset_of_mem isNode isPart)

/-- What was read as a program is translated. -/
theorem Program.translates_of_checked {value : Json} {program : Program}
    (decoded : Program.ofJson value = .ok program) {checked : CheckedProgram}
    (isChecked : (Analysis.ofProgram program).checked = .ok checked) {body : MethodBody}
    (isBody : body ∈ checked.bodies) :
    ∃ method, checked.registry.methodEntry? body.id = some method ∧
      (∀ expr ∈ body.source.decl.body.exprNodes, expr.IsQuiet →
        holder? (checked.contextOf checked.layout method).setting expr = none →
          (checked.contextOf checked.layout method).Translates expr) ∧
      ∀ site target source, .assign site target source ∈ body.source.decl.body.nodes →
        target.IsQuiet → source.IsQuiet →
          (checked.contextOf checked.layout method).TranslatesAssign target source :=
  (isForest_ofJson decoded).translates isChecked isBody

/-- Whether there is an assignment of a sum without calls in the body of a method. -/
def MethodBody.addsQuietly (body : MethodBody) : Bool :=
  body.source.decl.body.nodes.any fun
    | .assign _ target (.binary site .add left right) =>
      decide (target.IsQuiet ∧ (Expr.binary site .add left right).IsQuiet)
    | _ => false

/-- The assignment in the loop is translated, and so is the sum in it. -/
theorem translates_summingProgram : ∃ program checked body method target sum,
    Program.ofJson summingProgram = .ok program ∧
      (Analysis.ofProgram program).checked = .ok checked ∧
      body ∈ checked.bodies ∧ target.IsQuiet ∧ sum.IsQuiet ∧
      holder? (checked.contextOf checked.layout method).setting sum = none ∧
      (checked.contextOf checked.layout method).Translates sum ∧
      (checked.contextOf checked.layout method).TranslatesAssign target sum := by
  rcases Program.exists_of_test summingProgram
    (fun program => (Analysis.ofProgram program).checked.toOption.any fun checked =>
      checked.bodies.any MethodBody.addsQuietly) (by decide +kernel) with
    ⟨program, decoded, tested⟩
  cases isChecked : (Analysis.ofProgram program).checked with
  | error diagnostics => simp [isChecked, Except.toOption] at tested
  | ok checked =>
    rw [isChecked] at tested
    rcases List.any_eq_true.mp tested with ⟨body, isBody, adds⟩
    rcases List.any_eq_true.mp adds with ⟨stmt, isNode, isSum⟩
    split at isSum
    next site target sumSite left right =>
      rcases of_decide_eq_true isSum with ⟨targetQuiet, sumQuiet⟩
      rcases Program.translates_of_checked decoded isChecked isBody with
        ⟨method, _, exprs, assignments⟩
      have inBody : Expr.binary sumSite .add left right ∈ body.source.decl.body.exprNodes :=
        Stmt.exprNodes_subset_of_mem isNode (List.mem_append_right _ (Expr.self_mem_nodes _))
      exact ⟨program, checked, body, method, target, _, decoded, isChecked, isBody,
        targetQuiet, sumQuiet, rfl, exprs _ inBody sumQuiet rfl,
        assignments site target _ isNode targetQuiet sumQuiet⟩
    next => cases isSum

end Decaf
