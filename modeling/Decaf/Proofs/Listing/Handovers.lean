import Decaf.Proofs.Listing.Links
import Decaf.Tree.Builder

/-!
# Callers and callees

What a call pushes fills the first slots of the frame of the method that it reaches, and is removed
behind the call. The methods that share a slot of the vtables below a class take as many words as
each other, so this holds of calls through a vtable, whatever the class of the object is.
-/

namespace Decaf

/-! ## How much is handed over -/

namespace Generating

variable {context : MethodContext} {before : Generation}

theorem length_generateExprs (exprs : List Expr) :
    Whenever (generateExprs context exprs) before fun values _ => values.length = exprs.length := by
  induction exprs generalizing before with
  | nil => exact .pure rfl
  | cons expr rest ih =>
    have first : Whenever (generateExpr context expr) before fun _ _ => True := fun _ _ _ => trivial
    exact first.bind fun value between _ => ih.bind fun values _ sameLength =>
      .pure (congrArg Nat.succ sameLength)

end Generating

namespace MethodContext

variable {context : MethodContext} {registerCount : Nat} {acts : List Action}
  {code : List Instruction}

/-- A call hands over its arguments and, unless its target is static, an object in front of them. -/
theorem Evaluated.length_eq {receiver : Option Expr} {arguments : List Expr} {dispatch : Dispatch}
    {before : Generation} {operands : List Operand}
    (evaluated : context.Evaluated receiver arguments dispatch before operands) :
    operands.length = (if dispatch = .static then 0 else 1) + arguments.length := by
  have countOf {start : Generation} {values : List Temporary}
      (ran : (Generating.generateExprs context arguments).run start =
        .ok (values.map some, before)) :
      values.length = arguments.length := by
    simpa using Generating.length_generateExprs arguments _ _ ran
  cases evaluated with
  | onValue _ ran => simp [countOf ran, Nat.add_comm]
  | onThis isOwn _ ran =>
    have notStatic : dispatch ≠ .static := by
      rintro rfl
      rcases isOwn with ⟨_, evaluates⟩ | same
      · cases evaluates
      · cases same
    simp [countOf ran, notStatic, Nat.add_comm]
  | onNothing ran => simp [countOf ran]

/-- What stands for an action in the code is what the action calls for. -/
theorem ActsFit.does_at (fit : context.ActsFit registerCount acts code)
    {front behind : List Instruction} {instruction : Instruction}
    (codeEq : code = front ++ instruction :: behind)
    (isAction : instruction.isAction context.frame.spillBase = true) {action : Action}
    (isNext : acts[front.countP (Instruction.isAction context.frame.spillBase)]? = some action) :
    context.Does instruction action := by
  have stands : (code.filter (Instruction.isAction context.frame.spillBase))[
      front.countP (Instruction.isAction context.frame.spillBase)]? = some instruction := by
    rw [codeEq, List.filter_append, List.filter_cons_of_pos isAction, List.countP_eq_length_filter,
      List.getElem?_append_right (Nat.le_refl _), Nat.sub_self, List.getElem?_cons_zero]
  rcases List.getElem?_eq_some_iff.mp stands with ⟨inCode, rfl⟩
  rcases List.getElem?_eq_some_iff.mp isNext with ⟨inActs, rfl⟩
  exact fit.does.get inCode inActs

end MethodContext

/-! ## What methods take -/

namespace CheckedProgram

variable {site : Site ExprId} {receiver : Option Expr} {name : String} {arguments : List Expr}
  {target : CallTarget} {method : MethodEntry} {call : Instruction} {body : Stmt}
  {front behind : List Instruction}

/-- Each method that a call may lead to has a number of words from its caller in its frame. The call
of a method leads there; a call through a vtable leads to what the classes below that of the
receiver have in the slot. -/
inductive Takes (program : CheckedProgram) (receiverClass : ClassId → Prop) (target : CallTarget)
    (words : Nat) : Instruction → Prop where
  | direct {method : MethodEntry}
      (found : program.registry.methodEntry? target.method = some method)
      (takes : (program.frameOf method).incoming = words) :
      Takes program receiverClass target words (.call (program.registry.methodLabel target.method))
  | virtual {table : Register} {slot : Nat} (inClass : ∃ upper, receiverClass upper)
      (takes : ∀ upper lower, receiverClass upper → program.registry.DescendsFrom lower upper →
        ∃ entry id method, program.registry.classEntry? lower = some entry ∧
        entry.vtable[slot]? = some id ∧
        program.registry.methodEntry? id = some method ∧
        (program.frameOf method).incoming = words) :
      Takes program receiverClass target words (.callVirtual table slot)

/-- Each call in a body hands over as many words as the methods take that it may lead to, first the
object and then the arguments from left to right, and removes them afterwards. -/
def HandsOver (program : CheckedProgram) (registerCount : Nat)
    (receiverClass : Option Expr → String → CallTarget → ClassId → Prop) (method : MethodEntry)
    (body : Stmt) (code : List Instruction) : Prop :=
  ∀ front call behind, code = front ++ call :: behind → call.isCall = true →
    ∃ site receiver name arguments target operands,
      ((program.contextOf program.layout method).actionsOfStmt body)[
          front.countP (Instruction.isAction (program.frameOf method).spillBase)]? =
        some (.perform (.call site receiver name arguments)) ∧
      program.table.call? site.id = some target ∧
      (program.contextOf program.layout method).CarriesOut registerCount front behind receiver
        arguments target.dispatch operands ∧
      program.Takes (receiverClass receiver name target) target operands.length call

/-- The class in which type checking has found the method of a call. -/
def FoundIn (program : CheckedProgram) (_ : Option Expr) (name : String) (target : CallTarget)
    (owner : ClassId) : Prop :=
  program.registry.findMethod? owner name = some target.method

/-- The static class of the receiver of a call: that of the code for a call by a bare name, and else
that of what stands in front of the dot. -/
def ReceiverClass (program : CheckedProgram) (method : MethodEntry) (receiver : Option Expr)
    (_ : String) (_ : CallTarget) (owner : ClassId) : Prop :=
  match receiver with
  | none => owner = method.owner
  | some inner =>
    ∃ judgement reach, Derives ⟨program.registry, program.bindings, method⟩ inner judgement ∧
      Setting.LooksIn ⟨program.registry,
        program.bindings, method⟩ (some judgement.meaning) owner reach

variable {program : CheckedProgram} {options : Options} {registerCount : Nat} {listing : Listing}
  {methods : List ListedMethod}

theorem incoming_frameOf (program : CheckedProgram) (method : MethodEntry) :
    (program.frameOf method).incoming = (if method.isStatic = true then 0 else 1) +
      method.arity := by
  cases isStatic : method.isStatic <;>
    simp [frameOf, Frame.ofMethod, Frame.incoming, Frame.firstArgument, isStatic]

/-- A call on record leads to methods that take an object, unless they are static, and the
arguments. -/
theorem Finds.takes (finds : program.Finds site name arguments target) (declared : program.Declared)
    (does : (program.contextOf program.layout method).Does call
      (.perform (.call site receiver name arguments))) :
    program.Takes (program.FoundIn receiver name target) target
      ((if target.dispatch = .static then 0 else 1) + arguments.length) call := by
  rcases finds with ⟨found, owner, callee, id, reach, named, calleeFound, same, count, selects⟩
  obtain rfl : target.method = id := same.trans (declared.consistent.method_id calleeFound)
  cases does with
  | call otherFound isDirect =>
    cases found.symm.trans otherFound
    refine .direct calleeFound ?_
    rw [incoming_frameOf, ← count]
    generalize target.dispatch = dispatch at selects isDirect
    cases selects with
    | static isStatic => simp [isStatic]
    | super isInstance _ => simp [isInstance]
    | virtual => cases isDirect
  | callVirtual otherFound isVirtual =>
    cases found.symm.trans otherFound
    rw [isVirtual] at selects ⊢
    cases selects with
    | virtual isInstance _ slotEq =>
      refine .virtual ⟨owner, named⟩ fun upper lower inUpper descends => ?_
      rcases declared.slot_reaches descends inUpper calleeFound isInstance slotEq with
        ⟨entry, reached, other, entryFound, inTable, otherFound, otherInstance, sameArity⟩
      refine ⟨entry, reached, other, entryFound, inTable, otherFound, ?_⟩
      rw [incoming_frameOf, sameArity, otherInstance, ← count]
      simp

theorem Declared.handsOver (declared : program.Declared) (numbered : program.Numbered)
    {listed : ListedMethod} (generates : program.Generates registerCount listed) :
    ∃ extent bodyCode,
      listed.code.toList = .label (program.registry.methodLabel listed.method.id) ::
        .enter extent :: bodyCode ∧
        program.HandsOver registerCount program.FoundIn listed.method listed.body bodyCode := by
  rcases declared.accounted generates with ⟨after, accounted, _, codeEq⟩
  refine ⟨_, _, codeEq, fun front call behind bodyEq isCall => ?_⟩
  rcases accounted.acts.calls front call behind bodyEq isCall with
    ⟨site, receiver, name, arguments, target, operands, isNext, found, carriesOut⟩
  refine ⟨site, receiver, name, arguments, target, operands, isNext, found, carriesOut, ?_⟩
  have isAction : call.isAction (program.frameOf listed.method).spillBase = true := by
    cases call <;> first | rfl | cases isCall
  have isNode : Expr.call site receiver name arguments ∈ program.nodes :=
    generates.nodes_subset (MethodContext.mem_exprNodes_of_mem_actions
      (List.mem_of_getElem? isNext))
  have takes :=
    (declared.finds numbered isNode found).takes declared
      (accounted.acts.does_at bodyEq isAction isNext)
  rcases carriesOut.pushed with ⟨before, pushing, -, -, -, -, evaluated, -⟩
  rwa [← evaluated.length_eq] at takes

/-- The classes that are told in another way are among those that were meant before. -/
theorem HandsOver.mono {wide narrow : Option Expr → String → CallTarget → ClassId → Prop}
    {code : List Instruction} (handsOver : program.HandsOver registerCount wide method body code)
    (fits : ∀ site receiver name arguments target,
      .call site receiver name arguments ∈ body.exprNodes →
      program.table.call? site.id = some target → (∃ owner, narrow receiver name target owner) ∧
      ∀ owner, narrow receiver name target owner → wide receiver name target owner) :
    program.HandsOver registerCount narrow method body code := by
  intro front call behind codeEq isCall
  rcases handsOver front call behind codeEq isCall with
    ⟨site, receiver, name, arguments, target, operands, isNext, found, carriesOut, takes⟩
  refine ⟨site, receiver, name, arguments, target, operands, isNext, found, carriesOut, ?_⟩
  have isNode := MethodContext.mem_exprNodes_of_mem_actions (List.mem_of_getElem? isNext)
  rcases fits site receiver name arguments target isNode found with ⟨inClass, isWide⟩
  cases takes with
  | direct calleeFound takes => exact .direct calleeFound takes
  | virtual _ takes =>
    exact .virtual inClass fun upper lower isUpper => takes upper lower (isWide upper isUpper)

/-- What is removed behind a call through a vtable is what the methods take that it may lead to. -/
theorem HandsOver.takes_of_popped
    {receiverClass : Option Expr → String → CallTarget → ClassId → Prop} {table : Register}
    {slot words : Nat}
    (handsOver : program.HandsOver registerCount receiverClass method body
      (front ++ .callVirtual table slot :: behind))
    (pops : wordsPopped? behind = some words) : ∃ site receiver name arguments target,
      .call site receiver name arguments ∈ body.exprNodes ∧ ∀ upper lower,
        receiverClass receiver name target upper →
        program.registry.DescendsFrom lower upper → ∃ entry id callee,
          program.registry.classEntry? lower = some entry ∧
          entry.vtable[slot]? = some id ∧ program.registry.methodEntry? id = some callee ∧
          (program.frameOf callee).incoming = words := by
  rcases handsOver front _ behind rfl rfl with
    ⟨site, receiver, name, arguments, target, operands, isNext, _, carriesOut, takes⟩
  have isNode := MethodContext.mem_exprNodes_of_mem_actions (List.mem_of_getElem? isNext)
  have popped := carriesOut.popped.symm.trans pops
  rcases Option.ite_none_left_eq_some.mp popped with ⟨-, same⟩
  cases takes with
  | virtual _ takes =>
    exact ⟨site, receiver, name, arguments, target, isNode, Option.some.inj same ▸ takes⟩

/-- By the rules a call has the method that its name stands for in the class of its receiver. -/
theorem foundIn_of_derives {judgement : Judgement} (declared : program.Declared)
    (derives : Derives ⟨program.registry,
      program.bindings, method⟩ (.call site receiver name arguments) judgement)
    (selected : judgement.target = some target) :
    (∃ owner, program.ReceiverClass method receiver name target owner) ∧
      ∀ owner, program.ReceiverClass method receiver name target owner →
        program.FoundIn receiver name target owner := by
  cases derives with
  | callBare _ _ _ _ calls =>
    obtain rfl := Option.some.inj selected
    rcases calls.found with ⟨owner, reach, id, looksIn, named, calleeFound, _⟩
    cases looksIn
    refine ⟨⟨_, rfl⟩, ?_⟩
    rintro _ rfl
    exact named.trans (congrArg some (declared.consistent.method_id calleeFound).symm)
  | callOn receiverDerives _ _ _ _ calls =>
    obtain rfl := Option.some.inj selected
    rcases calls.found with ⟨owner, reach, id, looksIn, named, calleeFound, _⟩
    refine ⟨⟨owner, _, reach, receiverDerives, looksIn⟩, ?_⟩
    rintro other ⟨otherJudgement, otherReach, otherDerives, otherLooksIn⟩
    cases receiverDerives.unique otherDerives
    obtain ⟨rfl, -⟩ := looksIn.unique otherLooksIn
    exact named.trans (congrArg some (declared.consistent.method_id calleeFound).symm)

/-! ## The start of a program -/

/-- The start of a program hands over a new object to an instance method and nothing to a static
one. -/
inductive HandsOverAtStart (program : CheckedProgram) (method : MethodEntry) :
    List Instruction → List Instruction → Prop where
  | static (takes : (program.frameOf method).incoming = 0) :
      HandsOverAtStart program method [.label Label.entry] [.halt]
  | object (takes : (program.frameOf method).incoming = 1) :
      HandsOverAtStart program method
        (.label Label.entry ::
          program.layout.objectInit program.registry method.owner (.general 0) (.general 1) ++
          [.push (.general 0)])
        [.pop 1, .halt]

theorem handsOverAtStart
    (stubEq : program.entryStub = front ++ call :: behind) (isCall : call.isCall = true) :
    ∃ method, program.mainMethod? = some method ∧
      call = .call (program.registry.methodLabel method.id) ∧
      program.HandsOverAtStart method front behind := by
  unfold entryStub at stubEq
  split at stubEq
  · simp at stubEq
  next method isMain =>
    split at stubEq
    next noArguments =>
      refine ⟨method, isMain, ?_⟩
      have incomingEq := program.incoming_frameOf method
      rw [noArguments, Nat.add_zero] at incomingEq
      unfold startCall at stubEq
      dsimp only at stubEq
      split at stubEq
      next isStatic =>
        rw [if_pos isStatic] at incomingEq
        have parts : [.label Label.entry] ++ .call (program.registry.methodLabel method.id) ::
            [.halt] = front ++ call :: behind := stubEq
        rcases MethodContext.ActsFit.split_at_call (by decide) (by decide) parts isCall with
          ⟨rfl, rfl, rfl⟩
        exact ⟨rfl, .static incomingEq⟩
      next isInstance =>
        rw [if_neg isInstance] at incomingEq
        have noCall : ∀ instruction ∈ .label Label.entry ::
            program.layout.objectInit program.registry method.owner (.general 0) (.general 1) ++
            [.push (.general 0)], instruction.isCall = false := by
          intro instruction isThere
          rcases List.mem_append.mp isThere with isFirst | isPush
          · rcases List.mem_cons.mp isFirst with rfl | isInit
            · rfl
            · rcases Generating.mem_objectInit isInit with rfl | isPassive
              · rfl
              · exact (Instruction.isCalm_of_isPassive isPassive).isCall_eq
          · rw [List.mem_singleton.mp isPush]
            rfl
        have parts : (.label Label.entry ::
              program.layout.objectInit program.registry method.owner (.general 0) (.general 1) ++
              [.push (.general 0)]) ++
            .call (program.registry.methodLabel method.id) :: [.pop 1, .halt] = front ++ call ::
                behind := by
          rw [← stubEq]
          simp
        rcases MethodContext.ActsFit.split_at_call noCall (by decide) parts isCall with
          ⟨rfl, rfl, rfl⟩
        exact ⟨rfl, .object incomingEq⟩
    next => simp at stubEq

end CheckedProgram

/-- Callers and callees agree on what is handed over. What a call through a vtable may lead to is
told by the class in which type checking has found the method for the call, and where each node
hangs in one place by the class of the receiver. -/
theorem Program.handsOver_of_compile {program : Program} {options : Options} {listing : Listing}
    (indexed : program.Indexed) (compiled : program.compile options = .ok listing) :
    ∃ checked methods, (Analysis.ofProgram program).checked = .ok checked ∧
      checked.ListedAs options listing methods ∧
      (∀ front call behind, checked.entryStub = front ++ call :: behind → call.isCall = true →
        ∃ method, checked.mainMethod? = some method ∧
          call = .call (checked.registry.methodLabel method.id) ∧
          checked.HandsOverAtStart method front behind) ∧
      ∀ listed ∈ methods, ∃ extent bodyCode,
        listed.code.toList = .label (checked.registry.methodLabel listed.method.id) ::
          .enter extent :: bodyCode ∧
          checked.HandsOver options.registerCount checked.FoundIn listed.method
            listed.body bodyCode ∧
          (program.IsForest → checked.HandsOver options.registerCount
            (checked.ReceiverClass listed.method) listed.method listed.body bodyCode) := by
  rcases exists_listedAs compiled with ⟨checked, methods, isChecked, listedAs⟩
  have declared := (declared_of_checked isChecked).1
  refine ⟨checked, methods, isChecked, listedAs, fun _ _ _ => CheckedProgram.handsOverAtStart,
    fun listed isListed => ?_⟩
  have generates := listedAs.generates isListed
  rcases declared.handsOver (numbered_of_checked indexed isChecked) generates with
    ⟨extent, bodyCode, codeEq, handsOver⟩
  refine ⟨extent, bodyCode, codeEq, handsOver, fun isForest => handsOver.mono ?_⟩
  intro site receiver name arguments target isNode found
  rcases generates.isMethod with ⟨body, isBody, methodFound, bodyEq⟩
  rcases judged_of_checked isForest isChecked isBody methodFound (bodyEq ▸ isNode) with
    ⟨judgement, derives, shows⟩
  exact CheckedProgram.foundIn_of_derives declared derives (shows.call.symm.trans found)

/-- In the code of `main` both calls hand over the current object and a number. -/
theorem handsOver_callingProgram :
    ∃ program listing, Program.ofJson callingProgram = .ok program ∧ program.Indexed ∧
    program.IsForest ∧ program.compile ⟨3, true⟩ = .ok listing ∧ ∃ checked methods,
      (Analysis.ofProgram program).checked = .ok checked ∧
        checked.ListedAs ⟨3, true⟩ listing methods ∧
        ∀ listed ∈ methods, ∃ extent bodyCode,
          listed.code.toList = .label (checked.registry.methodLabel listed.method.id) ::
            .enter extent :: bodyCode ∧
            checked.HandsOver 3 (checked.ReceiverClass listed.method) listed.method
              listed.body bodyCode := by
  rcases compiles_callingProgram with ⟨program, listing, decoded, compiled⟩
  have isForest := Program.isForest_ofJson decoded
  rcases Program.handsOver_of_compile isForest.toIndexed compiled with
    ⟨checked, methods, isChecked, listedAs, _, handsOver⟩
  refine ⟨program, listing, decoded, isForest.toIndexed, isForest, compiled, checked, methods,
    isChecked, listedAs, ?_⟩
  intro listed isListed
  rcases handsOver listed isListed with ⟨extent, bodyCode, codeEq, _, byClass⟩
  exact ⟨extent, bodyCode, codeEq, byClass isForest⟩

/-- Two classes with methods of their own, `class A { void m() { f(1); } void f(int x) { } void
g(int x, int y) { } }` and `class B { void n() { f(1); } void h() { } void f(int x) { } }`. The call
in `m` and that in `n` are one and the same node. -/
def sharingProgram : Program :=
  let (one, builder) := Builder.start.expr fun site => .literal site (.int 1)
  let (call, builder) := builder.expr fun site => .call site none "f" [one]
  let (inM, builder) := builder.stmt fun site => .evaluate site call
  let (bodyOfM, builder) := builder.stmt fun site => .block site [inM]
  let (bodyOfF, builder) := builder.stmt fun site => .block site []
  let (bodyOfG, builder) := builder.stmt fun site => .block site []
  let (inN, builder) := builder.stmt fun site => .evaluate site call
  let (bodyOfN, builder) := builder.stmt fun site => .block site [inN]
  let (bodyOfH, builder) := builder.stmt fun site => .block site []
  let (bodyOfOther, builder) := builder.stmt fun site => .block site []
  let method (name : String) (parameters : List (String × String)) (body : Stmt) :=
    builder.methodDecl name "void" parameters body .publicMember false
  let builder := builder.addClass "A" none []
    [method "m" [] bodyOfM, method "f" [("x", "int")] bodyOfF,
      method "g" [("x", "int"), ("y", "int")] bodyOfG]
  let builder := builder.addClass "B" none []
    [method "n" [] bodyOfN, method "h" [] bodyOfH, method "f" [("x", "int")] bodyOfOther]
  builder.program

theorem indexed_sharingProgram : sharingProgram.Indexed where
  expr_at {node} isNode := by
    have each : sharingProgram.exprNodes.Forall fun node =>
        sharingProgram.exprs[node.id.index]? = some node :=
      ⟨rfl, rfl, rfl, rfl⟩
    exact List.forall_iff_forall_mem.mp each node isNode
  stmt_at {node} isNode := by
    have each : sharingProgram.stmtNodes.Forall fun node =>
        sharingProgram.stmts[node.id.index]? = some node :=
      ⟨rfl, rfl, rfl, rfl, rfl, rfl, rfl, rfl⟩
    exact List.forall_iff_forall_mem.mp each node isNode

/-- Whether an expression is a call with a receiver in front of the name. -/
def Expr.isCallOfReceiver : Expr → Bool
  | .call _ receiver _ _ => receiver.isSome
  | _ => false

/-- The code of `m` pushes two words and calls what is in the third slot. In the vtable of `A` that
is `g`, which takes three. -/
theorem listed_sharingProgram {checked : CheckedProgram} {listing : Listing}
    {methods : List ListedMethod}
    (isChecked : (Analysis.ofProgram sharingProgram).checked = .ok checked)
    (listedAs : checked.ListedAs ⟨3, false⟩ listing methods) : ∃ listed ∈ methods, ∃ extent,
      listed.code.toList = .label (checked.registry.methodLabel listed.method.id) ::
        .enter extent ::
        ([.moveInt (.general 0) 1, .loadStack (.general 1) 0, .push (.general 1),
          .push (.general 0), .loadStack (.general 0) 0, .loadHeap (.general 0) (.general 0) 0] ++
            .callVirtual (.general 0) 2 :: [.pop 2, .ret]) ∧
      (∀ site inner name arguments,
      .call site (some inner) name arguments ∉ listed.body.exprNodes) ∧
      ∀ entry id callee, checked.registry.classEntry? listed.method.owner = some entry →
        entry.vtable[2]? = some id →
        checked.registry.methodEntry? id = some callee → (checked.frameOf callee).incoming = 3 := by
  have told (test : CheckedProgram → Bool)
      (holds : (Analysis.ofProgram sharingProgram).checked.toOption.any test = true) :
      test checked = true := by
    rwa [isChecked] at holds
  have isFirst := told (fun program => (program.bodies.filterMap fun body =>
    program.registry.methodEntry? body.id).head?.any fun method =>
      method.name = "m") (by decide +kernel)
  rw [← listedAs.methods_eq] at isFirst
  cases methods with
  | nil => cases isFirst
  | cons listed rest =>
    rcases listedAs.generatesAll with ⟨firstEq, generates, -⟩
    have named : listed.method.name = "m" := of_decide_eq_true isFirst
    have ofM (check : CheckedProgram → MethodEntry → Stmt → Bool)
        (holds : (Analysis.ofProgram sharingProgram).checked.toOption.any (fun program =>
          program.bodies.all fun body =>
            (program.registry.methodEntry? body.id).all fun method =>
              method.name ≠ "m" || check program method body.source.decl.body) = true) :
        check checked listed.method listed.body = true := by
      rcases generates.isMethod with ⟨body, isBody, found, bodyEq⟩
      have ofBody := List.all_eq_true.mp (told _ holds) body isBody
      rw [found, bodyEq] at ofBody
      simpa [named] using ofBody
    have codeTold := ofM (fun program method body =>
      ((program.contextOf program.layout method).generate 3 0 body).toOption.any fun made =>
        made.1.toList.drop 2 = [.moveInt (.general 0) 1, .loadStack (.general 1) 0,
          .push (.general 1), .push (.general 0), .loadStack (.general 0) 0,
          .loadHeap (.general 0) (.general 0) 0,
          .callVirtual (.general 0) 2, .pop 2, .ret]) (by decide +kernel)
    have isBare := ofM (fun _ _ body => body.exprNodes.all fun node => !node.isCallOfReceiver)
      (by decide +kernel)
    have takesThree :=
        ofM (fun program method _ => (program.registry.classEntry? method.owner).all fun entry =>
          entry.vtable[2]?.all fun id => (program.registry.methodEntry? id).all fun callee =>
            (program.frameOf callee).incoming = 3) (by decide +kernel)
    rcases (Program.declared_of_checked isChecked).1.accounted generates with ⟨after, _, _, codeEq⟩
    have generated := generates.generated
    rw [firstEq] at generated
    simp only [generated, Except.toOption, Option.any_some, codeEq, decide_eq_true_eq,
      List.drop_succ_cons, List.drop_zero] at codeTold
    rw [codeTold] at codeEq
    refine ⟨listed, List.mem_cons_self, _, codeEq, fun site inner name arguments isNode => ?_, ?_⟩
    · cases List.all_eq_true.mp isBare _ isNode
    · intro entry id callee entryFound inTable calleeFound
      rw [entryFound, Option.all_some, inTable, Option.all_some, calleeFound,
        Option.all_some] at takesThree
      exact of_decide_eq_true takesThree

theorem not_handsOver_sharingProgram : ∃ listing checked methods, sharingProgram.Indexed ∧
    sharingProgram.compile ⟨3, false⟩ = .ok listing ∧
    (Analysis.ofProgram sharingProgram).checked = .ok checked ∧
    checked.ListedAs ⟨3, false⟩ listing methods ∧ ∃ listed ∈ methods, ∃ extent bodyCode,
      listed.code.toList = .label (checked.registry.methodLabel listed.method.id) ::
        .enter extent :: bodyCode ∧
          ¬ checked.HandsOver 3 (checked.ReceiverClass listed.method) listed.method
            listed.body bodyCode := by
  have accepted : (sharingProgram.compile ⟨3, false⟩).toOption.isSome = true := by decide +kernel
  rcases Program.exists_listing accepted with ⟨listing, compiled⟩
  rcases Program.exists_listedAs compiled with ⟨checked, methods, isChecked, listedAs⟩
  rcases listed_sharingProgram isChecked listedAs with
    ⟨listed, isListed, extent, codeEq, isBare, takesThree⟩
  refine ⟨listing, checked, methods, indexed_sharingProgram, compiled, isChecked, listedAs, listed,
    isListed, extent, _, codeEq, fun handsOver => ?_⟩
  rcases handsOver.takes_of_popped rfl with ⟨site, receiver, name, arguments, target, isNode, takes⟩
  cases receiver with
  | some inner => exact isBare site inner name arguments isNode
  | none =>
    rcases takes listed.method.owner listed.method.owner rfl .refl with
      ⟨entry, id, callee, entryFound, inTable, calleeFound, takesTwo⟩
    cases takesTwo.symm.trans (takesThree entry id callee entryFound inTable calleeFound)

end Decaf
