import Mathlib.Algebra.Order.Ring.Int
import Decaf.Code.Statement
import Decaf.Proofs.Code.Outcomes
import Decaf.Proofs.Pool.Spills
import Decaf.Proofs.Registers.Flow

/-!
# What a body does outside its registers

Besides working on registers, on the heap and on the static area, the code of a body makes objects,
calls methods and writes to variables. Which of this it does, and in which order, can be read off
its tree.
-/

namespace Decaf

/-- Something that code does. -/
inductive Action where
  /-- It makes the object of a `new`, or carries out a call. -/
  | perform (node : Expr)
  /-- It writes to the variable in a frame slot. -/
  | write (slot : Nat)

namespace Instruction

/-- Whether an instruction names a class, calls a method or writes below the spill slots of its
frame. -/
def isAction (spillBase : Nat) : Instruction → Bool
  | .moveLabel .. | .call _ | .callVirtual .. => true
  | .storeStack slot _ => slot < spillBase
  | _ => false

/-- The words that an instruction adds to those that are pushed. -/
def pushes : Instruction → Int
  | .push _ => 1
  | .pop words => -words
  | _ => 0

end Instruction

/-- The words that are left of those that code has pushed. -/
def wordsPushed (code : List Instruction) : Int := (code.map Instruction.pushes).sum

namespace MethodContext

variable (context : MethodContext)
variable {site : Site ExprId}

/-- The frame slot of a variable of the method. -/
def slotOf? (id : VariableId) : Option Nat :=
  (context.registry.variableEntry? id).bind context.frame.slot?

/-- Whether a call evaluates what stands in front of the dot. -/
def evaluates (site : Site ExprId) : Bool :=
  (context.table.call? site.id).any fun target => Generating.evaluatesReceiver target.dispatch

/-- Whether an access to a field evaluates what stands in front of the dot. -/
def needs (site : Site ExprId) (receiver : Expr) : Bool :=
  ((context.table.field? site.id).bind context.registry.fieldEntry?).any fun field =>
    Generating.needsObject field receiver

theorem evaluates_eq {target : CallTarget} (found : context.table.call? site.id = some target) :
    context.evaluates site = Generating.evaluatesReceiver target.dispatch := by
  simp [evaluates, found]

theorem needs_eq {field : FieldEntry} (receiver : Expr)
    (found : (context.table.field? site.id).bind context.registry.fieldEntry? = some field) :
    context.needs site receiver = Generating.needsObject field receiver := by
  simp [needs, found]

/-- The write to the target of an assignment, where it is a variable. -/
def writes : Expr → List Action
  | .identifier site _ =>
    match context.bindings.symbol? site.id with
    | some (.ofVariable id) => (context.slotOf? id).toList.map .write
    | some (.ofClass _) | some (.ofField _) | some (.ofMethod _) | none => []
  | .literal .. | .this .. | .super .. | .new .. | .unary .. | .binary .. | .call ..
  | .fieldAccess .. | .step .. => []

mutual

/-- What an expression does, in the order of evaluation. -/
def actions : Expr → List Action
  | .literal _ _ => []
  | .identifier _ _ => []
  | .this _ => []
  | .super _ => []
  | .new site name => [.perform (.new site name)]
  | .unary _ _ inner => actions inner
  | .binary _ _ left right => actions left ++ actions right
  | .call site none name arguments =>
    actionsOfAll arguments ++ [.perform (.call site none name arguments)]
  | .call site (some receiver) name arguments =>
    (if context.evaluates site then actions receiver else []) ++ actionsOfAll arguments ++
      [.perform (.call site (some receiver) name arguments)]
  | .fieldAccess site receiver _ => if context.needs site receiver then actions receiver else []
  | .step _ _ _ target => actionsOfTarget target ++ context.writes target
termination_by structural expr => expr

/-- What expressions do, one behind the other. -/
def actionsOfAll : List Expr → List Action
  | [] => []
  | expr :: rest => actions expr ++ actionsOfAll rest
termination_by structural exprs => exprs

/-- What the object in front of the dot of an assignment's target does, where it is evaluated. -/
def actionsOfTarget : Expr → List Action
  | .fieldAccess site receiver _ => if context.needs site receiver then actions receiver else []
  | .literal _ _ => []
  | .identifier _ _ => []
  | .this _ => []
  | .super _ => []
  | .new _ _ => []
  | .call _ _ _ _ => []
  | .unary _ _ _ => []
  | .binary _ _ _ _ => []
  | .step _ _ _ _ => []
termination_by structural expr => expr

end

/-- What an expression does that need not be there. -/
def actionsOfOption (expr : Option Expr) : List Action := (expr.map context.actions).getD []

mutual

/-- What a statement does, in the order in which its code is written down. -/
def actionsOfStmt : Stmt → List Action
  | .block _ statements => actionsOfStmts statements
  | .ifElse _ condition thenBranch none => context.actions condition ++ actionsOfStmt thenBranch
  | .ifElse _ condition thenBranch (some elseBranch) =>
    context.actions condition ++ actionsOfStmt thenBranch ++ actionsOfStmt elseBranch
  | .whileLoop _ condition body => context.actions condition ++ actionsOfStmt body
  | .forLoop _ init condition update body =>
    (match init with
      | some init => actionsOfStmt init
      | none => []) ++
      context.actionsOfOption condition ++ actionsOfStmt body ++
      match update with
      | some update => actionsOfStmt update
      | none => []
  | .ret _ value => context.actionsOfOption value
  | .evaluate _ expr => context.actions expr
  | .assign _ target value =>
    context.actionsOfTarget target ++ context.actions value ++ context.writes target
  | .declare site _ =>
    ((context.bindings.declarationsOf site.id).filterMap context.slotOf?).map .write
  | .print _ value => context.actions value
  | .breakLoop _ => []
  | .continueLoop _ => []
  | .skip _ => []
termination_by structural stmt => stmt

/-- What statements do, one behind the other. -/
def actionsOfStmts : List Stmt → List Action
  | [] => []
  | stmt :: rest => actionsOfStmt stmt ++ actionsOfStmts rest
termination_by structural stmts => stmts

end

/-- An instruction is the one that an action calls for: it names the class or the method that was
found for the node. -/
inductive Does : Instruction → Action → Prop where
  | make {site : Site ExprId} {name : String} {id : ClassId}
      (bound : context.bindings.symbol? site.id = some (.ofClass id)) {target : Register} :
      Does (.moveLabel target (Label.vtable (context.registry.className id)))
      (.perform (.new site name))
  | call {site : Site ExprId} {receiver : Option Expr} {name : String} {arguments : List Expr}
      {target : CallTarget}
      (found : context.table.call? site.id = some target)
      (isDirect : Generating.evaluatesReceiver target.dispatch = false) :
      Does (.call (context.registry.methodLabel target.method))
      (.perform (.call site receiver name arguments))
  | callVirtual {site : Site ExprId} {receiver : Option Expr} {name : String}
      {arguments : List Expr}
      {target : CallTarget} {slot : Nat} (found : context.table.call? site.id = some target)
      (isVirtual : target.dispatch = .virtual slot) {table : Register} :
      Does (.callVirtual table slot) (.perform (.call site receiver name arguments))
  | write {slot : Nat} {source : Register} : Does (.storeStack slot source) (.write slot)

end MethodContext

/-!
## Accounting for code

While the code of a body is generated, every line of it is accounted for: a label was handed out for
this method and is placed once, a frame slot is that of a variable, of the current object or of a
spilled temporary, and whatever else the code does outside its registers is the next thing that the
body asks for. What is pushed is what a call needs, and is removed behind it.
-/

open RegisterPool (OnlySpills KeepsWellFormed SlotsMade MovesTo)

/-! ## Labels -/

/-- The labels that were handed out from a number on are placed once or still open, and the code and
the loops around it lead to no others. -/
structure LabelsFit (first : Nat) (opened : List String) (emitter : Emitter) : Prop where
  numbered : ∀ name ∈ labelsOf emitter.code.toList ++ opened, ∃ number,
    first ≤ number ∧ number < emitter.nextLabel ∧
    name = Label.inner number
  nodup : (labelsOf emitter.code.toList ++ opened).Nodup
  targets : targetsOf emitter.code.toList ⊆ labelsOf emitter.code.toList ++ opened
  loops : ∀ labels ∈ emitter.loops, labels.breakTo ∈ labelsOf emitter.code.toList ++ opened ∧
    labels.continueTo ∈ labelsOf emitter.code.toList ++ opened

namespace LabelsFit

variable {first : Nat} {opened : List String} {emitter other : Emitter}

/-- What is emitted without placing labels leads to labels that were handed out. -/
theorem append {block : List Instruction} (fit : LabelsFit first opened emitter)
    (nextEq : other.nextLabel = emitter.nextLabel) (loopsEq : other.loops = emitter.loops)
    (codeEq : other.code.toList = emitter.code.toList ++ block) (noLabels : labelsOf block = [])
    (leads : targetsOf block ⊆ labelsOf emitter.code.toList ++ opened) :
    LabelsFit first opened other := by
  have labelsEq : labelsOf other.code.toList = labelsOf emitter.code.toList := by
    rw [codeEq, labelsOf_append, noLabels, List.append_nil]
  refine ⟨?_, ?_, ?_, ?_⟩
  · rw [labelsEq, nextEq]
    exact fit.numbered
  · rw [labelsEq]
    exact fit.nodup
  · rw [labelsEq, codeEq, targetsOf_append]
    exact List.append_subset.mpr ⟨fit.targets, leads⟩
  · rw [labelsEq, loopsEq]
    exact fit.loops

theorem perm (fit : LabelsFit first opened emitter) {reordered : List String}
    (isPerm : opened.Perm reordered) : LabelsFit first reordered emitter := by
  have same := List.Perm.append_left (labelsOf emitter.code.toList) isPerm
  exact ⟨fun name isThere => fit.numbered name (same.mem_iff.mpr isThere),
    same.nodup_iff.mp fit.nodup, fun name isThere => same.mem_iff.mp (fit.targets isThere),
    fun labels isLoop => (fit.loops labels isLoop).imp same.mem_iff.mp same.mem_iff.mp⟩

/-- An open label is placed. -/
theorem place {name : String} (fit : LabelsFit first (name :: opened) emitter) :
    LabelsFit first opened (emitter.emit (.label name)) := by
  have labelsEq : labelsOf (emitter.emit (.label name)).code.toList ++ opened =
      labelsOf emitter.code.toList ++ name :: opened := by
    simp [Emitter.emit, labelsOf, Instruction.label?]
  have targetsEq : targetsOf (emitter.emit (.label name)).code.toList =
      targetsOf emitter.code.toList := by
    simp [Emitter.emit, targetsOf, Instruction.target?]
  refine ⟨?_, ?_, ?_, ?_⟩
  · rw [labelsEq]
    exact fit.numbered
  · rw [labelsEq]
    exact fit.nodup
  · rw [labelsEq, targetsEq]
    exact fit.targets
  · rw [labelsEq]
    exact fit.loops

/-- A label is handed out. -/
theorem freshLabel (fit : LabelsFit first opened emitter) (firstLe : first ≤ emitter.nextLabel) :
    LabelsFit first (Label.inner emitter.nextLabel :: opened)
      { emitter with nextLabel := emitter.nextLabel + 1 } := by
  have perm : (labelsOf emitter.code.toList ++ Label.inner emitter.nextLabel :: opened).Perm
      (Label.inner emitter.nextLabel :: (labelsOf emitter.code.toList ++ opened)) :=
      List.perm_middle
  have isMore {name : String} (isThere : name ∈ labelsOf emitter.code.toList ++ opened) :
      name ∈ labelsOf emitter.code.toList ++ Label.inner emitter.nextLabel :: opened :=
    perm.mem_iff.mpr (List.mem_cons_of_mem _ isThere)
  refine ⟨fun name isThere => ?_, ?_, fun name isThere => isMore (fit.targets isThere),
    fun labels isLoop => (fit.loops labels isLoop).imp isMore isMore⟩
  · rcases List.mem_cons.mp (perm.mem_iff.mp isThere) with rfl | wasThere
    · exact ⟨_, firstLe, Nat.lt_succ_self _, rfl⟩
    · rcases fit.numbered name wasThere with ⟨number, isAfter, isBefore, rfl⟩
      exact ⟨number, isAfter, Nat.lt_succ_of_lt isBefore, rfl⟩
  · refine perm.nodup_iff.mpr (List.nodup_cons.mpr ⟨fun isThere => ?_, fit.nodup⟩)
    rcases fit.numbered _ isThere with ⟨number, _, isBefore, same⟩
    have := Label.inner_injective same
    omega

end LabelsFit

/-! ## Calls -/

namespace Instruction

/-- The instructions that put together what a call needs: moves, loads and pushes. -/
def isOperandCode : Instruction → Bool
  | .loadStack .. | .storeStack .. | .loadHeap .. | .push _ => true
  | _ => false

/-- Whether an instruction neither pushes nor removes what was pushed. -/
def isLevel : Instruction → Bool
  | .push _ | .pop _ => false
  | _ => true

end Instruction

/-- How many words are removed at the start of code, if it starts with that. -/
def wordsPopped? : List Instruction → Option Nat
  | .pop words :: _ => some words
  | _ => none

/-- What a call pushes. -/
inductive Operand where
  /-- The current object. -/
  | this
  /-- What the evaluation of an operand has left. -/
  | temporary (value : Temporary)

/-- The word of an operand, given the words of the temporaries. -/
def Operand.word {Word : Type} (store : Store Word) (contents : Temporary → Word) : Operand → Word
  | .this => store.slots 0
  | .temporary value => contents value

/-- The words that code pushes, one after the other. -/
def Store.sends {Word : Type} (store : Store Word) : List Instruction → List Word
  | [] => []
  | .push source :: rest => store.registers source :: store.sends rest
  | instruction :: rest => (store.move instruction).sends rest

namespace MethodContext

variable (context : MethodContext)

/-- The operands of a call were evaluated from left to right: the receiver, if it is evaluated at
all, and then the arguments. A call by a bare name or with `super` hands over the current object,
unless its target is static. -/
inductive Evaluated : Option Expr → List Expr → Dispatch → Generation → List Operand → Prop where
  | onValue {receiver : Expr} {arguments : List Expr} {slot : Nat}
      {start between before : Generation} {object : Temporary}
      {values : List Temporary}
      (receiverRan : (Generating.generateExpr context receiver).run start =
        .ok (some object, between))
      (argumentsRan : (Generating.generateExprs context arguments).run between =
        .ok (values.map some, before)) :
      Evaluated (some receiver) arguments (.virtual slot) before
        (.temporary object :: values.map .temporary)
  | onThis {receiver : Option Expr} {arguments : List Expr} {dispatch : Dispatch}
      {start before : Generation}
      {values : List Temporary} (isOwn : receiver = none ∧ Generating.evaluatesReceiver dispatch =
        true ∨ dispatch = .super)
      (isInstance : context.frame.receiverSlot? = some 0)
      (argumentsRan : (Generating.generateExprs context arguments).run start =
        .ok (values.map some, before)) :
      Evaluated receiver arguments dispatch before (.this :: values.map .temporary)
  | onNothing {receiver : Option Expr} {arguments : List Expr} {start before : Generation}
      {values : List Temporary}
      (argumentsRan : (Generating.generateExprs context arguments).run start =
        .ok (values.map some, before)) :
      Evaluated receiver arguments .static before (values.map .temporary)

/-- A call stands behind the code that pushes its operands in order, and in front of the removal of
just as many words. Nothing else is pushed at that time. -/
structure CarriesOut (registerCount : Nat) (front behind : List Instruction)
    (receiver : Option Expr) (arguments : List Expr) (dispatch : Dispatch)
      (operands : List Operand) :
    Prop where
  pushed : ∃ (before : Generation) (pushing : List Instruction),
    front = before.emitter.code.toList ++ pushing ∧
    (∀ instruction ∈ pushing, instruction.isOperandCode = true) ∧
      wordsPushed before.emitter.code.toList = 0 ∧ wordsPushed pushing = operands.length ∧
      context.Evaluated receiver arguments dispatch before operands ∧
      (registerCount ≤ Register.nameCount →
        ∀ {Word : Type} (store : Store Word) (contents : Temporary → Word),
        before.pool.Holds store contents →
        store.sends pushing = operands.map (Operand.word store contents))
  popped : wordsPopped? behind = if operands = [] then none else some operands.length

/-- What code does is what is asked for, in order, and its calls are carried out as they should
be. -/
structure ActsFit (registerCount : Nat) (acts : List Action) (code : List Instruction) : Prop where
  does : List.Forall₂ context.Does (code.filter (Instruction.isAction context.frame.spillBase)) acts
  calls : ∀ front call behind, code = front ++ call :: behind → call.isCall = true →
    ∃ site receiver name arguments target operands,
      acts[front.countP (Instruction.isAction context.frame.spillBase)]? =
        some (.perform (.call site receiver name arguments)) ∧
      context.table.call? site.id = some target ∧
      context.CarriesOut registerCount front behind receiver arguments target.dispatch operands
  balanced : wordsPushed code = 0

/-! ## Frames -/

/-- The frame slots of the current object and of variables. -/
def Reaches (slot : Nat) : Prop :=
  context.frame.receiverSlot? = some slot ∨ ∃ id, context.slotOf? id = some slot

/-- An instruction of a body uses slots of its frame only: those of the current object and of
variables, and those of spilled temporaries. -/
def FitsFrame (slotCount : Nat) : Instruction → Prop
  | .loadStack _ slot =>
    context.Reaches slot ∨ context.frame.spillBase ≤ slot ∧ slot < context.frame.spillBase +
      slotCount
  | .storeStack slot _ =>
    (∃ id, context.slotOf? id = some slot) ∨ context.frame.spillBase ≤ slot ∧
      slot < context.frame.spillBase + slotCount
  | .vtable .. | .staticData _ | .enter _ | .halt => False
  | _ => True

/-- The pool of a method. -/
structure PoolFits (registerCount : Nat) (pool : RegisterPool) : Prop where
  base_eq : pool.spillBase = context.frame.spillBase
  length_eq : pool.registers.length = registerCount
  slotsMade : pool.SlotsMade
  wellFormed : registerCount ≤ Register.nameCount → pool.WellFormed

end MethodContext

variable {block : List Instruction}

/-- Every line of the code is accounted for. -/
structure Generation.Accounted (context : MethodContext) (registerCount first : Nat)
    (opened : List String) (acts : List Action) (generation : Generation) : Prop where
  first_le : first ≤ generation.emitter.nextLabel
  labels : LabelsFit first opened generation.emitter
  acts : context.ActsFit registerCount acts generation.emitter.code.toList
  frame : ∀ instruction ∈ generation.emitter.code.toList,
    context.FitsFrame generation.pool.slotCount instruction
  pool : context.PoolFits registerCount generation.pool

/-! ## What is emitted -/

theorem wordsPushed_append (code more : List Instruction) :
    wordsPushed (code ++ more) = wordsPushed code + wordsPushed more := by
  simp [wordsPushed]

theorem wordsPopped?_append (code : List Instruction) {more : List Instruction}
    (noPop : wordsPopped? more = none) : wordsPopped? (code ++ more) = wordsPopped? code := by
  cases code with
  | nil => exact noPop
  | cons instruction rest => cases instruction <;> rfl

theorem wordsPushed_of_isLevel (level : ∀ instruction ∈ block, instruction.isLevel = true) :
    wordsPushed block = 0 := by
  induction block with
  | nil => rfl
  | cons instruction rest ih =>
    have isZero : instruction.pushes = 0 := by
      have isLevel := level instruction List.mem_cons_self
      cases instruction <;> first | rfl | cases isLevel
    have restZero := ih fun other isOther => level other (List.mem_cons_of_mem _ isOther)
    simp only [wordsPushed, List.map_cons, List.sum_cons] at restZero ⊢
    rw [isZero, restZero, Int.add_zero]

theorem wordsPopped?_of_isLevel (level : ∀ instruction ∈ block, instruction.isLevel = true) :
    wordsPopped? block = none := by
  cases block with
  | nil => rfl
  | cons instruction rest =>
    have isLevel := level instruction List.mem_cons_self
    cases instruction <;> first | rfl | cases isLevel

namespace MethodContext

variable {context : MethodContext} {registerCount : Nat} {acts more : List Action}
  {code block : List Instruction}

theorem CarriesOut.extend {front behind : List Instruction} {receiver : Option Expr}
    {arguments : List Expr} {dispatch : Dispatch} {operands : List Operand}
    (carriesOut : context.CarriesOut registerCount front behind receiver
      arguments dispatch operands)
    (noPop : wordsPopped? block = none) :
    context.CarriesOut registerCount front (behind ++ block) receiver arguments dispatch operands :=
  ⟨carriesOut.pushed, (wordsPopped?_append behind noPop).trans carriesOut.popped⟩

namespace ActsFit

variable {front behind pushing popping : List Instruction} {call : Instruction}

/-- The calls that were carried out before still are when more code follows. -/
theorem calls_append (fit : context.ActsFit registerCount acts code)
    (noPop : wordsPopped? block = none) (more : List Action)
    (codeEq : code ++ block = front ++ call :: behind) (isCall : call.isCall = true)
    (inFront : front.length < code.length) :
    ∃ site receiver name arguments target operands,
      (acts ++ more)[front.countP (Instruction.isAction context.frame.spillBase)]? =
        some (.perform (.call site receiver name arguments)) ∧
      context.table.call? site.id = some target ∧
      context.CarriesOut registerCount front behind receiver arguments
        target.dispatch operands := by
  rcases List.append_eq_append_iff.mp codeEq with ⟨rest, frontEq, -⟩ | ⟨rest, earlier, restEq⟩
  · rw [frontEq, List.length_append] at inFront
    omega
  · cases rest with
    | nil =>
      rw [earlier, List.append_nil] at inFront
      omega
    | cons found rest =>
      obtain ⟨rfl, rfl⟩ := List.cons.inj restEq
      rcases fit.calls front call rest earlier isCall with
        ⟨site, receiver, name, arguments, target, operands, isNext, found, carriesOut⟩
      refine ⟨site, receiver, name, arguments, target, operands, ?_, found, carriesOut.extend noPop⟩
      rw [List.getElem?_append_left (List.getElem?_eq_some_iff.mp isNext).1]
      exact isNext

/-- Code without calls follows. -/
theorem append (fit : context.ActsFit registerCount acts code)
    (level : ∀ instruction ∈ block, instruction.isLevel = true)
    (noCall : ∀ instruction ∈ block, instruction.isCall = false)
    (does : List.Forall₂ context.Does
      (block.filter (Instruction.isAction context.frame.spillBase)) more) :
    context.ActsFit registerCount (acts ++ more) (code ++ block) where
  does := by
    rw [List.filter_append]
    exact List.rel_append fit.does does
  calls front call behind codeEq isCall := by
    refine fit.calls_append (wordsPopped?_of_isLevel level) more codeEq isCall ?_
    by_contra notInFront
    have isThere : call ∈ block := by
      have found : (code ++ block)[front.length]? = some call := by simp [codeEq]
      rw [List.getElem?_append_right (Nat.le_of_not_lt notInFront)] at found
      exact List.mem_of_getElem? found
    exact absurd isCall (by simp [noCall call isThere])
  balanced := by rw [wordsPushed_append, fit.balanced, wordsPushed_of_isLevel level]; rfl

/-- Where there is only one call there is only one way to split code at a call. -/
theorem split_at_call {other : Instruction}
    (noneInFront : ∀ instruction ∈ pushing, instruction.isCall = false)
    (noneBehind : ∀ instruction ∈ popping, instruction.isCall = false)
    (codeEq : pushing ++ call :: popping = front ++ other :: behind)
      (isCall : other.isCall = true) :
    pushing = front ∧ call = other ∧ popping = behind := by
  rcases List.append_eq_append_iff.mp codeEq with ⟨rest, rfl, restEq⟩ | ⟨rest, rfl, restEq⟩
  · cases rest with
    | nil =>
      obtain ⟨rfl, rfl⟩ := List.cons.inj restEq
      exact ⟨(List.append_nil _).symm, rfl, rfl⟩
    | cons _ rest =>
      obtain ⟨-, rfl⟩ := List.cons.inj restEq
      simp [noneBehind other (by simp)] at isCall
  · cases rest with
    | nil =>
      obtain ⟨rfl, rfl⟩ := List.cons.inj restEq
      exact ⟨List.append_nil _, rfl, rfl⟩
    | cons _ rest =>
      obtain ⟨rfl, -⟩ := List.cons.inj restEq
      simp [noneInFront other (by simp)] at isCall

theorem isAction_of_isOperandCode {base : Nat}
    (isCode : ∀ instruction ∈ pushing, instruction.isOperandCode = true)
    (spills : ∀ slot source, .storeStack slot source ∈ pushing → base ≤ slot) :
    ∀ instruction ∈ pushing, instruction.isAction base = false := by
  intro instruction isThere
  have isOperand := isCode instruction isThere
  cases instruction with
  | storeStack slot source =>
    have := spills slot source isThere
    simp only [Instruction.isAction, decide_eq_false_iff_not]
    omega
  | _ => first | rfl | cases isOperand

/-- A call follows with all that belongs to it. -/
theorem append_call (fit : context.ActsFit registerCount acts code) {site : Site ExprId}
    {receiver : Option Expr} {name : String} {arguments : List Expr} {target : CallTarget}
    {operands : List Operand} (found : context.table.call? site.id = some target)
    (carriesOut : context.CarriesOut registerCount (code ++ pushing) popping receiver arguments
      target.dispatch operands)
    (isCode : ∀ instruction ∈ pushing, instruction.isOperandCode = true)
    (spills : ∀ slot source, .storeStack slot source ∈ pushing → context.frame.spillBase ≤ slot)
    (does : context.Does call (.perform (.call site receiver name arguments)))
    (pops : ∃ words, (popping = [] ∧ words = 0 ∨ popping = [.pop words]) ∧
      wordsPushed pushing = words) :
    context.ActsFit registerCount (acts ++ [.perform (.call site receiver name arguments)])
      (code ++ (pushing ++ call :: popping)) := by
  have quiet := isAction_of_isOperandCode isCode spills
  have isAct : call.isAction context.frame.spillBase = true := by
    cases does <;> rfl
  have noneBehind : popping.filter (Instruction.isAction context.frame.spillBase) = [] := by
    rcases pops with ⟨words, ⟨rfl, -⟩ | rfl, -⟩ <;> rfl
  have noneInFront : pushing.filter (Instruction.isAction context.frame.spillBase) = [] :=
    List.filter_eq_nil_iff.mpr fun instruction isThere => by simp [quiet instruction isThere]
  have doesAll : List.Forall₂ context.Does
      ((code ++ (pushing ++ call :: popping)).filter (Instruction.isAction context.frame.spillBase))
      (acts ++ [.perform (.call site receiver name arguments)]) := by
    rw [List.filter_append, List.filter_append, noneInFront, List.filter_cons_of_pos isAct,
      noneBehind, List.nil_append]
    exact List.rel_append fit.does (.cons does .nil)
  refine ⟨doesAll, fun front other behind codeEq isOther => ?_, ?_⟩
  · have noPop : wordsPopped? (pushing ++ call :: popping) = none := by
      cases pushing with
      | nil => cases does <;> rfl
      | cons instruction rest =>
        have isOperand := isCode instruction List.mem_cons_self
        cases instruction <;> first | rfl | cases isOperand
    by_cases inFront : front.length < code.length
    · exact fit.calls_append noPop _ codeEq isOther inFront
    -- The only call that is new stands behind what was pushed for it.
    · rcases List.prefix_of_prefix_length_le (codeEq ▸ List.prefix_append _ _)
        (List.prefix_append _ _) (Nat.le_of_not_lt inFront) with ⟨rest, rfl⟩
      have restEq := List.append_cancel_left (codeEq.trans (List.append_assoc _ _ _))
      have noCall : ∀ instruction ∈ pushing, instruction.isCall = false := by
        intro instruction isThere
        have isOperand := isCode instruction isThere
        cases instruction <;> first | rfl | cases isOperand
      have noMore : ∀ instruction ∈ popping, instruction.isCall = false := by
        rcases pops with ⟨words, ⟨rfl, -⟩ | rfl, -⟩ <;> simp [Instruction.isCall]
      obtain ⟨rfl, rfl, rfl⟩ := split_at_call noCall noMore restEq isOther
      refine ⟨site, receiver, name, arguments, target, operands, ?_, found, carriesOut⟩
      have counted : (code ++ pushing).countP (Instruction.isAction context.frame.spillBase) =
          acts.length := by
        rw [List.countP_eq_length_filter, List.filter_append, noneInFront, List.append_nil]
        exact fit.does.length_eq
      rw [counted]
      simp
  · rcases pops with ⟨words, popped, pushed⟩
    have level : call.pushes = 0 := by cases does <;> rfl
    have removed : wordsPushed popping = -words := by
      rcases popped with ⟨rfl, rfl⟩ | rfl <;> simp [wordsPushed, Instruction.pushes]
    have cons : wordsPushed (call :: popping) = call.pushes + wordsPushed popping := by
      simp [wordsPushed]
    rw [wordsPushed_append, wordsPushed_append, fit.balanced, pushed, cons, level, removed]
    omega

end ActsFit

end MethodContext

end Decaf
