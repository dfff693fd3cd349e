import Decaf.Code.Statement
import Decaf.Proofs.Code.Outcomes
import Decaf.Proofs.Pool.Spills
import Decaf.Proofs.Typing.Targets
import Mathlib.Algebra.Order.Group.Multiset
import Decaf.Proofs.Tree.Nodes

/-!
# The events of a body and of its code

Calls, new objects and prints can be seen from outside a method. Which of them a body asks for, and
in which order, is a matter of its tree alone.
-/

namespace Decaf

/-- Something that a method does and that can be seen from outside. -/
inductive Event where
  | make (site : Site ExprId) (className : String)
  | call (site : Site ExprId) (receiver : Option Expr) (method : String) (arguments : List Expr)
  | print (site : Site StmtId) (value : Expr)

namespace Expr

mutual

/-- The events of an expression in the order of evaluation. Operands come before what is done with
them, from left to right. -/
def events : Expr → List Event
  | .literal _ _ => []
  | .identifier _ _ => []
  | .this _ => []
  | .super _ => []
  | .new site className => [.make site className]
  | .call site none method arguments => eventsOfAll arguments ++ [.call site none method arguments]
  | .call site (some receiver) method arguments =>
    events receiver ++ eventsOfAll arguments ++ [.call site (some receiver) method arguments]
  | .fieldAccess _ receiver _ => events receiver
  | .unary _ _ operand => events operand
  | .binary _ _ left right => events left ++ events right
  | .step _ _ _ target => events target
termination_by structural expr => expr

/-- The events of expressions, one behind the other. -/
def eventsOfAll : List Expr → List Event
  | [] => []
  | expr :: rest => events expr ++ eventsOfAll rest
termination_by structural exprs => exprs

end

/-- The event that a node has by itself. -/
def event? : Expr → Option Event
  | .new site className => some (.make site className)
  | .call site receiver method arguments => some (.call site receiver method arguments)
  | .literal .. | .identifier .. | .this .. | .super .. | .fieldAccess .. | .unary .. | .binary ..
  | .step .. => none

theorem eventsOfAll_eq {exprs : List Expr}
    (each : ∀ expr ∈ exprs, expr.events = expr.nodes.filterMap event?) :
    eventsOfAll exprs = (nodesAll exprs).filterMap event? := by
  induction exprs with
  | nil => rfl
  | cons expr rest ih =>
    rw [eventsOfAll, nodesAll, List.filterMap_append, each expr List.mem_cons_self,
      ih fun other isOther => each other (List.mem_cons_of_mem _ isOther)]

/-- Each node that has an event has it once. -/
theorem events_eq (expr : Expr) : expr.events = expr.nodes.filterMap event? := by
  induction expr with
  | call site receiver method arguments receiverIh argumentsIh =>
    have argumentsEq := eventsOfAll_eq argumentsIh
    cases receiver with
    | none => simp [events, nodes, event?, argumentsEq]
    | some receiver => simp [events, nodes, event?, argumentsEq, receiverIh receiver rfl]
  | fieldAccess site receiver field ih => simp [events, nodes, event?, ih]
  | unary site operator operand ih => simp [events, nodes, event?, ih]
  | binary site operator left right leftIh rightIh => simp [events, nodes, event?, leftIh, rightIh]
  | step site operator yieldsNew target ih => simp [events, nodes, event?, ih]
  | _ => rfl

end Expr

namespace Stmt

mutual

/-- The events of a statement in the order in which it is carried out, loops once. -/
def events : Stmt → List Event
  | .block _ statements => eventsOfAll statements
  | .ifElse _ condition thenBranch none => condition.events ++ events thenBranch
  | .ifElse _ condition thenBranch (some elseBranch) =>
    condition.events ++ events thenBranch ++ events elseBranch
  | .whileLoop _ condition body => condition.events ++ events body
  | .forLoop _ init condition update body =>
    (match init with
      | some init => events init
      | none => []) ++
      condition.elim [] Expr.events ++ events body ++
      match update with
      | some update => events update
      | none => []
  | .ret _ value => value.elim [] Expr.events
  | .evaluate _ expr => expr.events
  | .assign _ target value => target.events ++ value.events
  | .declare _ _ => []
  | .print site value => value.events ++ [.print site value]
  | .breakLoop _ => []
  | .continueLoop _ => []
  | .skip _ => []
termination_by structural stmt => stmt

/-- The events of statements, one behind the other. -/
def eventsOfAll : List Stmt → List Event
  | [] => []
  | stmt :: rest => events stmt ++ eventsOfAll rest
termination_by structural stmts => stmts

end

/-- The event that a node has by itself. -/
def event? : Stmt → Option Event
  | .print site value => some (.print site value)
  | .block .. | .ifElse .. | .whileLoop .. | .forLoop .. | .ret .. | .evaluate .. | .assign ..
  | .declare .. | .breakLoop .. | .continueLoop .. | .skip .. => none

theorem events_forLoop (site : Site StmtId) (init : Option Stmt) (condition : Option Expr)
    (update : Option Stmt) (body : Stmt) : (forLoop site init condition update body).events =
      init.elim [] events ++ condition.elim [] Expr.events ++ body.events ++
        update.elim [] events := by
  cases init <;> cases update <;> rfl

/-- The events of the nodes in a statement, expressions first. -/
def nodeEvents (stmt : Stmt) : List Event :=
  stmt.exprNodes.filterMap Expr.event? ++ stmt.nodes.filterMap event?

theorem nodes_forLoop (site : Site StmtId) (init : Option Stmt) (condition : Option Expr)
    (update : Option Stmt) (body : Stmt) : (forLoop site init condition update body).nodes =
      init.elim [] nodes ++ update.elim [] nodes ++ body.nodes ++
        [.forLoop site init condition update body] := by
  cases init <;> cases update <;> rfl

/-- The events of a part that need not be there. -/
theorem coe_events_part {part : Option Stmt}
    (each : ∀ stmt ∈ part, (stmt.events : Multiset Event) = stmt.nodeEvents) :
    ((part.elim [] events : List Event) : Multiset Event) =
      ((part.map exprNodes).getD []).filterMap Expr.event? +
        (part.elim [] nodes).filterMap event? := by
  cases part with
  | none => rfl
  | some stmt => simpa [nodeEvents] using each stmt rfl

/-- The events of a statement and of the nodes in it, in any order. -/
theorem coe_events (stmt : Stmt) : (stmt.events : Multiset Event) = stmt.nodeEvents := by
  have whole (expr : Expr) : (expr.events : Multiset Event) =
      (expr.nodes.filterMap Expr.event? : List Event) := by
    rw [expr.events_eq]
  have option (expr : Option Expr) : ((expr.elim [] Expr.events : List Event) : Multiset Event) =
      ((Expr.nodesOption expr).filterMap Expr.event? : List Event) := by
    cases expr with
    | none => rfl
    | some expr => exact whole expr
  have plain {stmt : Stmt} {parts : List Stmt} (noEvent : stmt.event? = none) :
      (parts ++ [stmt]).filterMap event? = parts.filterMap event? := by
    simp [noEvent]
  induction stmt with
  | block site statements ih =>
    rw [nodeEvents, nodes, plain rfl, ← Multiset.coe_add, exprNodes, events]
    induction statements with
    | nil => rfl
    | cons stmt rest ihRest =>
      have first := ih stmt List.mem_cons_self
      have later := ihRest fun other isOther => ih other (List.mem_cons_of_mem _ isOther)
      simp only [eventsOfAll, exprNodesAll, nodesAll,
        List.filterMap_append, ← Multiset.coe_add, first, later, nodeEvents]
      ac_rfl
  | ifElse site condition thenBranch elseBranch thenIh elseIh =>
    cases elseBranch with
    | none =>
      rw [nodeEvents, nodes, plain rfl]
      simp only [events, exprNodes, List.filterMap_append, ← Multiset.coe_add, thenIh, whole,
        nodeEvents, add_assoc]
    | some elseBranch =>
      rw [nodeEvents, nodes, plain rfl]
      simp only [events, exprNodes, List.filterMap_append, ← Multiset.coe_add, thenIh,
        elseIh elseBranch rfl, whole, nodeEvents]
      ac_rfl
  | whileLoop site condition body ih =>
    rw [nodeEvents, nodes, plain rfl]
    simp only [events, exprNodes, List.filterMap_append, ← Multiset.coe_add, ih, whole,
      nodeEvents, add_assoc]
  | forLoop site init condition update body initIh updateIh bodyIh =>
    rw [nodeEvents, nodes_forLoop, plain rfl, events_forLoop, exprNodes_forLoop]
    simp only [List.filterMap_append, ← Multiset.coe_add, coe_events_part initIh,
      coe_events_part updateIh, bodyIh, option, nodeEvents]
    ac_rfl
  | ret site value =>
    rw [nodeEvents, nodes, ← List.nil_append [_], plain rfl]
    exact (option value).trans (by rw [exprNodes, List.filterMap_nil, List.append_nil])
  | evaluate site expr =>
    rw [nodeEvents, nodes, ← List.nil_append [_], plain rfl]
    exact (whole expr).trans (by rw [exprNodes, List.filterMap_nil, List.append_nil])
  | assign site target value =>
    rw [nodeEvents, nodes, ← List.nil_append [_], plain rfl]
    simp [events, exprNodes, Expr.events_eq]
  | print site value => simp [events, nodeEvents, nodes, exprNodes, event?, Expr.events_eq]
  | declare | breakLoop | continueLoop | skip => rfl

/-- The events of a statement are those of the nodes in it, each of them once. -/
theorem events_perm (stmt : Stmt) : stmt.events.Perm stmt.nodeEvents :=
  Multiset.coe_eq_coe.mp stmt.coe_events

end Stmt

/-!
## Steps and their events

A step of code generation adds code in which some instructions bring about events, and which
evaluates some nodes. Steps that follow each other add their events one behind the other, and what
an earlier one has evaluated stays evaluated.
-/

open RegisterPool (OnlySpills MovesTo)

namespace Instruction

/-- Whether an instruction makes an object, calls a method or prints. -/
def isEvent : Instruction → Bool
  | .allocate .. | .call _ | .callVirtual .. | .print .. => true
  | _ => false

end Instruction

namespace MethodContext

variable (context : MethodContext)
variable {earlier later : List Instruction}

/-- An instruction brings about an event with what is on record about its node: the size of the
class, the label or the slot of the target, the routine for the type. -/
inductive Causes : Instruction → Event → Prop where
  | make {site : Site ExprId} {className : String} {id : ClassId} {target : Register}
      (bound : context.bindings.symbol? site.id = some (.ofClass id)) :
      Causes (.allocate target (context.layout.objectSize id)) (.make site className)
  | call {site : Site ExprId} {receiver : Option Expr} {method : String} {arguments : List Expr}
      {target : CallTarget}
      (found : context.table.call? site.id = some target)
      (isDirect : Generating.evaluatesReceiver target.dispatch = false) :
      Causes (.call (context.registry.methodLabel target.method))
      (.call site receiver method arguments)
  | callVirtual {site : Site ExprId} {receiver : Option Expr} {method : String}
      {arguments : List Expr}
      {target : CallTarget} {slot : Nat} {table : Register}
      (found : context.table.call? site.id = some target)
      (isVirtual : target.dispatch = .virtual slot) :
      Causes (.callVirtual table slot) (.call site receiver method arguments)
  | print {site : Site StmtId} {value : Expr} {kind : Primitive} {routine : PrintKind}
      {source : Register}
      (typed : context.table.typeOf? value.id = some (.primitive kind))
      (printed : PrintKind.ofPrimitive? kind = some routine) :
      Causes (.print routine source) (.print site value)

/-- Between two stages of the code a node was evaluated: its code was generated there. -/
def Evaluates (early late : List Instruction) (node : Expr) : Prop :=
  ∃ before value after, (Generating.generateExpr context node).run before = .ok (value, after) ∧
    early <+: before.emitter.code.toList ∧
    before.emitter.code.toList <+: after.emitter.code.toList ∧
    after.emitter.code.toList <+: late

/-- Between two stages of the code a node was written to: the place that it names was found, and
something was stored there. -/
def Writes (early late : List Instruction) (node : Expr) : Prop :=
  ∃ position object found place between source stored after,
    (Generating.place context position node object).run found = .ok (place, between) ∧
    (Generating.writePlace position source place).run stored = .ok ((), after) ∧
    early <+: found.emitter.code.toList ∧
    between.emitter.code.toList <+: stored.emitter.code.toList ∧
    after.emitter.code.toList <+: late

/-- What becomes of a node of a body: it is evaluated, or it stands for no value in front of a dot,
or it is what an assignment or a step writes to. -/
inductive Handles (body : Stmt) (early late : List Instruction) : Expr → Prop where
  | evaluated {node : Expr} (evaluates : context.Evaluates early late node) :
      Handles body early late node
  | receiverOfCall {site : Site ExprId} {receiver : Expr} {method : String} {arguments : List Expr}
      (isNode : .call site (some receiver) method arguments ∈ body.exprNodes)
      (isScope : context.bindings.IsScope receiver) : Handles body early late receiver
  | receiverOfField {site : Site ExprId} {receiver : Expr} {field : String}
      (isNode : .fieldAccess site receiver field ∈ body.exprNodes)
      (isScope : context.bindings.IsScope receiver) : Handles body early late receiver
  | steps {site : Site ExprId} {operator : StepOperator} {yieldsNew : Bool} {target : Expr}
      (isNode : .step site operator yieldsNew target ∈ body.exprNodes)
      (writes : context.Writes early late target) : Handles body early late target
  | assigns {site : Site StmtId} {target value : Expr}
      (isNode : .assign site target value ∈ body.nodes)
      (writes : context.Writes early late target) : Handles body early late target

/-- Code was added in which some events are brought about, in this order and no others, and some
nodes are seen to. -/
structure Serves (body : Stmt) (events : List Event) (nodes : List Expr)
    (early late : List Instruction) : Prop where
  added : ∃ block, late = early ++ block ∧
    List.Forall₂ context.Causes (block.filter Instruction.isEvent) events
  handles : ∀ node ∈ nodes, context.Handles body early late node

variable {context} {body : Stmt} {events more : List Event} {nodes others : List Expr}
  {early between late : List Instruction} {node : Expr}

theorem Evaluates.widen (evaluates : context.Evaluates early late node) (front : earlier <+: early)
    (behind : late <+: later) : context.Evaluates earlier later node := by
  rcases evaluates with ⟨before, value, after, ran, isBehind, grows, isBefore⟩
  exact ⟨before, value, after, ran, front.trans isBehind, grows, isBefore.trans behind⟩

theorem Writes.widen (writes : context.Writes early late node)
    (front : earlier <+: early) (behind : late <+: later) : context.Writes earlier later node := by
  rcases writes with ⟨position, object, found, place, middle, source, stored, after, ran, wrote,
    isBehind, inOrder, isBefore⟩
  exact ⟨position, object, found, place, middle, source, stored, after, ran, wrote,
    front.trans isBehind, inOrder, isBefore.trans behind⟩

theorem Handles.widen (handles : context.Handles body early late node) (front : earlier <+: early)
    (behind : late <+: later) : context.Handles body earlier later node := by
  cases handles with
  | evaluated evaluates => exact .evaluated (evaluates.widen front behind)
  | receiverOfCall isNode isScope => exact .receiverOfCall isNode isScope
  | receiverOfField isNode isScope => exact .receiverOfField isNode isScope
  | steps isNode writes => exact .steps isNode (writes.widen front behind)
  | assigns isNode writes => exact .assigns isNode (writes.widen front behind)

namespace Serves

theorem isPrefix (serves : context.Serves body events nodes early late) : early <+: late := by
  rcases serves.added with ⟨block, rfl, -⟩
  exact List.prefix_append _ _

theorem refl (early : List Instruction) : context.Serves body [] [] early early :=
  ⟨⟨[], (List.append_nil _).symm, .nil⟩, by simp⟩

theorem trans (first : context.Serves body events nodes early between)
    (second : context.Serves body more others between late) :
    context.Serves body (events ++ more) (nodes ++ others) early late := by
  have isFirst := first.isPrefix
  have isSecond := second.isPrefix
  rcases first.added with ⟨block, rfl, causes⟩
  rcases second.added with ⟨rest, rfl, restCauses⟩
  refine ⟨⟨block ++ rest, List.append_assoc _ _ _, ?_⟩, fun node isNode => ?_⟩
  · rw [List.filter_append]
    exact List.rel_append causes restCauses
  · rcases List.mem_append.mp isNode with isEarly | isLate
    · exact (first.handles node isEarly).widen List.prefix_rfl isSecond
    · exact (second.handles node isLate).widen isFirst List.prefix_rfl

/-- More nodes are seen to by the same code. -/
theorem and (serves : context.Serves body events nodes early late)
    (handles : ∀ node ∈ others, context.Handles body early late node) :
    context.Serves body events (nodes ++ others) early late :=
  ⟨serves.added, fun node isNode =>
    (List.mem_append.mp isNode).elim (serves.handles node) (handles node)⟩

end Serves

end MethodContext

namespace Generating

variable {Result Next : Type} {context : MethodContext} {body : Stmt} {events more : List Event}
  {nodes others : List Expr} {position : Position}

section

variable (context : MethodContext) (body : Stmt)

/-- Where a step is carried out, its code brings about some events and sees to some nodes. -/
def Presents (events : List Event) (nodes : List Expr) (step : Generating Result) : Prop :=
  ∀ before, Whenever step before fun _ after =>
    context.Serves body events nodes before.emitter.code.toList after.emitter.code.toList

end

namespace Presents

variable {step : Generating Result}

theorem pure (result : Result) : Presents context body [] [] (Pure.pure result) :=
  fun _ => .pure (.refl _)

section

variable {next : Result → Generating Next}

theorem bind (first : Presents context body events nodes step)
    (rest : ∀ result, Presents context body more others (next result)) :
    Presents context body (events ++ more) (nodes ++ others) (step >>= next) :=
  fun before => (first before).bind fun result between serves =>
    (rest result between).mono fun _ _ serves' => serves.trans serves'

/-- The first step brings about nothing. -/
theorem andThen (first : Presents context body [] [] step)
    (rest : ∀ result, Presents context body more others (next result)) :
    Presents context body more others (step >>= next) :=
  first.bind rest

/-- The steps behind the first one evaluate no nodes. -/
theorem thenEvents (first : Presents context body events nodes step)
    (rest : ∀ result, Presents context body more [] (next result)) :
    Presents context body (events ++ more) nodes (step >>= next) := by
  have both := first.bind rest
  rwa [List.append_nil] at both

/-- The steps behind the first one bring about no events. -/
theorem thenNodes (first : Presents context body events nodes step)
    (rest : ∀ result, Presents context body [] others (next result)) :
    Presents context body events (nodes ++ others) (step >>= next) := by
  have both := first.bind rest
  rwa [List.append_nil] at both

/-- The steps behind the first one bring about nothing. -/
theorem finish (first : Presents context body events nodes step)
    (rest : ∀ result, Presents context body [] [] (next result)) :
    Presents context body events nodes (step >>= next) := by
  have both := first.bind rest
  rwa [List.append_nil, List.append_nil] at both

end

theorem map {change : Result → Next} (first : Presents context body events nodes step) :
    Presents context body events nodes (change <$> step) := by
  rw [map_eq_pure_bind]
  exact first.finish fun _ => .pure _

/-- A step that is left out under some condition. -/
theorem bind_if {condition : Prop} [Decidable condition] {step : Generating Unit}
    {next : Unit → Generating Next} (first : Presents context body [] [] step)
    (rest : Presents context body more others (next ())) :
    Presents context body more others (if condition then step >>= next else next ()) := by
  split
  · exact first.andThen fun _ => rest
  · exact rest

end Presents

variable {instruction : Instruction}

/-! ## Steps without events -/

theorem presents_fail (position : Position) (explanation : String) :
    Presents context body events nodes (fail position explanation : Generating Result) :=
  fun _ => whenever_fail _ _

/-- What is found may be relied on by what follows. -/
theorem presents_found {content : Option Result} {explanation : String}
    {next : Result → Generating Next}
    (rest : ∀ result, content = some result → Presents context body events nodes (next result)) :
    Presents context body events nodes (orFail content position explanation >>= next) := by
  cases content with
  | some result => exact rest result rfl
  | none => exact presents_fail _ _

theorem presents_orFail (content : Option Result) (explanation : String) :
    Presents context body [] [] (orFail content position explanation) := by
  cases content with
  | some result => exact .pure result
  | none => exact presents_fail _ _

theorem presents_operand (value : Option Temporary) :
    Presents context body [] [] (operand position value) := presents_orFail _ _

/-- A step that leaves the code as it is. -/
theorem presents_of_same {step : Generating Result}
    (same : ∀ before, Whenever step before fun _ after =>
      after.emitter.code = before.emitter.code) :
    Presents context body [] [] step :=
  fun before => (same before).mono fun _ _ codeEq => codeEq ▸ .refl _

theorem presents_modify {change : Generation → Generation}
    (same : ∀ generation, (change generation).emitter.code = generation.emitter.code) :
    Presents context body [] [] (modify change) := by
  refine presents_of_same fun before => ?_
  rintro _ _ ⟨⟩
  exact same before

theorem presents_freshLabel : Presents context body [] [] freshLabel := by
  refine presents_of_same fun before => ?_
  rintro _ _ ⟨⟩
  rfl

theorem presents_get : Presents context body [] [] get := by
  refine presents_of_same fun before => ?_
  rintro _ _ ⟨⟩
  rfl

theorem presents_release (temporary : Temporary) :
    Presents context body [] [] (release temporary) :=
  presents_modify fun _ => rfl

theorem presents_unpinAll : Presents context body [] [] unpinAll := presents_modify fun _ => rfl

theorem presents_emitAll {block : List Instruction}
    (causes : List.Forall₂ context.Causes (block.filter Instruction.isEvent) events) :
    Presents context body events [] (emitAll block) := by
  rintro before _ _ ⟨⟩
  exact ⟨⟨block, by simp [Emitter.append], causes⟩, by simp⟩

theorem presents_event {event : Event} (isEvent : instruction.isEvent = true)
    (causes : context.Causes instruction event) :
    Presents context body [event] [] (emit instruction) := by
  rintro before _ _ ⟨⟩
  refine ⟨⟨[instruction], by simp [Emitter.emit], ?_⟩, by simp⟩
  simpa [isEvent] using causes

theorem presents_emit (noEvent : instruction.isEvent = false) :
    Presents context body [] [] (emit instruction) := by
  rintro before _ _ ⟨⟩
  exact ⟨⟨[instruction], by simp [Emitter.emit], by simp [noEvent]⟩, by simp⟩

theorem presents_withPool {operation : RegisterPool.Operation Result}
    (spills : OnlySpills operation) :
    Presents context body [] [] (withPool position operation) := by
  intro before
  refine whenever_withPool fun result session operated => ?_
  have moved := spills before.session
  rw [operated] at moved
  rcases moved.added with ⟨moves, codeEq, areMoves⟩
  refine ⟨⟨moves, codeEq, ?_⟩, by simp⟩
  rw [List.filter_eq_nil_iff.mpr fun move isMove => ?_]
  · exact .nil
  · rcases areMoves move isMove with ⟨_, _, _, rfl | rfl⟩ <;> simp [Instruction.isEvent]

theorem presents_acquire : Presents context body [] [] (acquire position) :=
  presents_withPool RegisterPool.onlySpills_acquire

theorem presents_load (temporary : Temporary) :
    Presents context body [] [] (load position temporary) :=
  presents_withPool (RegisterPool.onlySpills_loadOne temporary)

theorem presents_spillAllExcept (kept : List Temporary) :
    Presents context body [] [] (spillAllExcept position kept) :=
  presents_withPool (RegisterPool.onlySpills_spillAllExcept kept)

theorem presents_produce {instruction : Register → Instruction}
    (noEvent : ∀ register, (instruction register).isEvent = false) :
    Presents context body [] [] (produce position instruction) :=
  presents_acquire.andThen fun acquired =>
    (presents_emit (noEvent acquired.2)).andThen fun _ => .pure _

theorem Presents.conclude {step : Generating Result}
    (presents : Presents context body events nodes step) :
    Presents context body events nodes (Generating.conclude step) :=
  presents.finish fun _ => presents_unpinAll.andThen fun _ => .pure _

theorem Presents.concludeSome {step : Generating Result}
    (presents : Presents context body events nodes step) :
    Presents context body events nodes (Generating.conclude (some <$> step)) :=
  presents.map.conclude

/-! ## Names -/

theorem presents_readOwnField (field : FieldEntry) :
    Presents context body [] [] (readOwnField context position field) := by
  refine (presents_orFail _ _).andThen fun offset => ?_
  split
  · exact presents_produce fun _ => rfl
  · exact (presents_orFail _ _).andThen fun slot => presents_acquire.andThen fun acquired =>
      (presents_emit rfl).andThen fun _ => (presents_emit rfl).andThen fun _ => .pure _

theorem presents_readObjectField (field : FieldEntry) (object : Option Temporary) :
    Presents context body [] [] (readObjectField context position field object) :=
  (presents_orFail _ _).andThen fun _ => (presents_operand object).andThen fun object =>
    (presents_load object).andThen fun _ => (presents_release object).andThen fun _ =>
    presents_produce fun _ => rfl

theorem presents_readIdentifier (site : Site ExprId) :
    Presents context body [] [] (readIdentifier context site) := by
  unfold readIdentifier
  split
  · exact (presents_orFail _ _).andThen fun slot => presents_produce fun _ => rfl
  · exact (presents_orFail _ _).andThen fun field => presents_readOwnField field
  all_goals exact presents_fail _ _

theorem presents_readThis : Presents context body [] [] (readThis context position) :=
  (presents_orFail _ _).andThen fun _ => presents_produce fun _ => rfl

/-- Of the code that makes an object, only the allocation can be seen. -/
theorem filter_isEvent_objectInit (layout : Layout) (registry : Registry) (owner : ClassId)
    (object scratch : Register) :
    (layout.objectInit registry owner object scratch).filter Instruction.isEvent =
      [.allocate object (layout.objectSize owner)] := by
  have silent {zero : Instruction} (noEvent : zero.isEvent = false) (fields : List FieldId) :
      (layout.clearFields registry object scratch zero fields).filter Instruction.isEvent = [] := by
    refine List.filter_eq_nil_iff.mpr fun instruction isThere => ?_
    unfold Layout.clearFields at isThere
    split at isThere
    · cases isThere
    · rcases List.mem_cons.mp isThere with rfl | isStore
      · simp [noEvent]
      · rcases List.mem_filterMap.mp isStore with ⟨field, _, found⟩
        rcases Option.map_eq_some_iff.mp found with ⟨offset, _, rfl⟩
        simp [Instruction.isEvent]
  have noWords := silent (show (Instruction.moveInt scratch 0).isEvent = false from rfl)
  have noDoubles :=
    silent (show (Instruction.moveDouble scratch (.zero false)).isEvent = false from rfl)
  simp only [Layout.objectInit, List.filter_append, noWords, noDoubles, List.append_nil]
  rfl

theorem presents_newObject (site : Site ExprId) (className : String) :
    Presents context body [.make site className] [] (newObject context site) := by
  unfold newObject
  split
  next id bound =>
    refine presents_acquire.andThen fun object => presents_acquire.andThen fun scratch => ?_
    refine (presents_emitAll ?_).finish fun _ => (presents_release _).andThen fun _ => .pure _
    rw [filter_isEvent_objectInit]
    exact .cons (.make bound) .nil
  all_goals exact presents_fail _ _

/-! ## Operators -/

theorem presents_applyUnary (opcode : UnaryOpcode) (value : Option Temporary) :
    Presents context body [] [] (applyUnary position opcode value) :=
  (presents_operand value).andThen fun value => (presents_load value).andThen fun _ =>
    (presents_release value).andThen fun _ => presents_produce fun _ => rfl

theorem presents_applyBinary (opcode : Option BinaryOpcode) (left right : Option Temporary) :
    Presents context body [] [] (applyBinary position opcode left right) :=
  (presents_operand left).andThen fun left => (presents_operand right).andThen fun right =>
    (presents_orFail _ _).andThen fun _ =>
    (presents_withPool (RegisterPool.onlySpills_loadPair left right)).andThen fun _ =>
    (presents_release left).andThen fun _ => (presents_release right).andThen fun _ =>
    presents_produce fun _ => rfl

theorem presents_branchPast (operator : BinaryOperator) (left : Option Temporary) :
    Presents context body [] [] (branchPast position operator left) := by
  refine (presents_operand left).andThen fun left => (presents_spillAllExcept _).andThen fun _ =>
    (presents_load left).andThen fun register => presents_freshLabel.andThen fun label =>
    Presents.andThen (presents_emit ?_) fun _ => (presents_release left).andThen fun _ =>
    presents_unpinAll.andThen fun _ => .pure _
  split <;> rfl

theorem presents_joinRight (target : Register) (label : String) (right : Option Temporary) :
    Presents context body [] [] (joinRight position target label right) := by
  refine (presents_operand right).andThen fun right => (presents_load right).andThen fun source =>
    .bind_if (presents_emit rfl) ?_
  refine (presents_release right).andThen fun _ => (presents_emit rfl).andThen fun _ => ?_
  cases target with
  | general index =>
    exact (presents_withPool (RegisterPool.onlySpills_acquireSpecific index)).andThen
      fun _ => .pure _
  | result => exact presents_fail _ _

/-! ## Places -/

theorem presents_ownFieldPlace (field : FieldEntry) :
    Presents context body [] [] (ownFieldPlace context position field) := by
  refine (presents_orFail _ _).andThen fun offset => ?_
  split
  · exact .pure _
  · exact (presents_orFail _ _).andThen fun slot =>
      (presents_produce fun _ => rfl).andThen fun _ => .pure _

theorem presents_place (target : Expr) (object : Option Temporary) :
    Presents context body [] [] (place context position target object) := by
  cases target with
  | identifier site name =>
    rw [place]
    split
    · exact (presents_orFail _ _).andThen fun _ => .pure _
    all_goals exact (presents_orFail _ _).andThen fun field => presents_ownFieldPlace field
  | fieldAccess site receiver name =>
    refine (presents_orFail _ _).andThen fun field => ?_
    split
    · exact (presents_orFail _ _).andThen fun _ =>
        (presents_operand object).andThen fun _ => .pure _
    · exact presents_ownFieldPlace field
  | literal | this | super | new | call | unary | binary | step => exact presents_fail _ _

theorem presents_readPlace (target : Register) (place : Place) :
    Presents context body [] [] (readPlace position target place) := by
  cases place with
  | frame slot => exact presents_emit rfl
  | area offset => exact presents_emit rfl
  | heap object offset => exact (presents_load object).andThen fun _ => presents_emit rfl

theorem presents_writePlace (source : Register) (place : Place) :
    Presents context body [] [] (writePlace position source place) := by
  cases place with
  | frame slot => exact presents_emit rfl
  | area offset => exact presents_emit rfl
  | heap object offset =>
    exact (presents_load object).andThen fun _ => (presents_emit rfl).andThen fun _ =>
      presents_release object

end Generating

end Decaf
