import Decaf.Code.Method
import Decaf.Proofs.Code.Statements
import Decaf.Proofs.Events.Steps

/-!
# Bodies and their events

By induction over the tree, the code of an expression or a statement brings about the events of its
tree, one for one and in order, and each node in it is seen to.
-/

namespace Decaf

/-- What stands in front of the dot of a field. -/
def Expr.object? : Expr → Option Expr
  | .fieldAccess _ receiver _ => some receiver
  | .literal .. | .identifier .. | .this .. | .super .. | .new .. | .call .. | .unary ..
  | .binary .. | .step .. => none

namespace MethodContext

/-- What stands in front of a dot is evaluated, unless it is no value. -/
structure NeedsValues (context : MethodContext) (nodes : List Expr) : Prop where
  calls : ∀ site receiver method arguments, .call site (some receiver) method arguments ∈ nodes →
    ∀ target, context.table.call? site.id = some target →
    Generating.evaluatesReceiver target.dispatch = false →
      context.bindings.IsScope receiver
  fields : ∀ site receiver name, .fieldAccess site receiver name ∈ nodes →
    ∀ field, (context.table.field? site.id).bind context.registry.fieldEntry? = some field →
      Generating.needsObject field receiver = false → context.bindings.IsScope receiver

/-- Super and the names of classes have no parts. -/
theorem nodes_of_isScope {bindings : Bindings} {expr : Expr} (isScope : bindings.IsScope expr) :
    expr.nodes = [expr] ∧ expr.events = [] := by
  cases isScope <;> exact ⟨rfl, rfl⟩

end MethodContext

namespace Generating

variable {Result Next : Type} {context : MethodContext} {body : Stmt} {events more : List Event}
  {nodes others : List Expr} {position : Position}
variable {site : Site ExprId} {receiver : Option Expr} {method : String} {arguments : List Expr}
  {target : CallTarget}

/-! ## Calls -/

theorem presents_pushThis : Presents context body [] [] (pushThis context position) :=
  (presents_orFail _ _).andThen fun _ => presents_acquire.andThen fun _ =>
    (presents_emit rfl).andThen fun _ => (presents_emit rfl).andThen fun _ => presents_release _

theorem presents_pushArguments (arguments : List (Option Temporary)) :
    Presents context body [] [] (arguments.forM (pushArgument position)) := by
  induction arguments with
  | nil => exact .pure _
  | cons argument rest ih =>
    have first : Presents context body [] [] (pushArgument position argument) :=
      (presents_operand argument).andThen fun argument => (presents_load argument).andThen fun _ =>
        (presents_emit rfl).andThen fun _ => presents_release argument
    exact first.andThen fun _ => ih

theorem presents_pushReceiver (receiver : Option Temporary) :
    Presents context body [] [] (pushReceiver position receiver) :=
  (presents_operand receiver).andThen fun receiver => (presents_load receiver).andThen fun _ =>
    (presents_emit rfl).andThen fun _ => .pure _

theorem presents_finishCall (target : CallTarget) (pushed : Nat) :
    Presents context body [] [] (finishCall context position target pushed) := by
  unfold finishCall
  cases context.registry.methodEntry? target.method with
  | none => exact .bind_if (presents_emit rfl) (.pure _)
  | some callee =>
    refine .bind_if (presents_emit rfl) ?_
    dsimp only
    split
    · exact .pure _
    · exact (presents_produce fun _ => rfl).andThen fun _ => .pure _

/-- A call has one event. -/
theorem presents_generateCall
    (found : context.table.call? site.id = some target) (object : Option (Option Temporary))
    (values : List (Option Temporary)) :
    Presents context body [.call site receiver method arguments] []
      (generateCall context position target object values) := by
  have direct (isDirect : evaluatesReceiver target.dispatch = false) :
      Presents context body [.call site receiver method arguments] []
        (emit (.call (context.registry.methodLabel target.method))) :=
    presents_event rfl (.call found isDirect)
  unfold generateCall
  split
  next slot object isVirtual =>
    have through {register : Register} : Presents context body
        [.call site receiver method arguments] []
        (emit (.callVirtual register slot)) := presents_event rfl (.callVirtual found isVirtual)
    refine (presents_pushReceiver _).andThen fun object =>
      (presents_pushArguments values).andThen fun _ => (presents_spillAllExcept _).andThen fun _ =>
      Presents.finish ?_ fun _ => presents_finishCall _ _
    exact (presents_load _).andThen fun _ => (presents_release _).andThen fun _ =>
      presents_acquire.andThen fun _ => (presents_emit rfl).andThen fun _ => through.finish fun _ =>
      presents_release _
  next slot isVirtual =>
    have through {register : Register} : Presents context body
        [.call site receiver method arguments] []
        (emit (.callVirtual register slot)) := presents_event rfl (.callVirtual found isVirtual)
    refine presents_pushThis.andThen fun _ => (presents_pushArguments values).andThen fun _ =>
      (presents_spillAllExcept _).andThen fun _ => Presents.finish ?_ fun _ =>
        presents_finishCall _ _
    exact (presents_orFail _ _).andThen fun _ => presents_acquire.andThen fun _ =>
      (presents_emit rfl).andThen fun _ => (presents_emit rfl).andThen fun _ =>
      through.finish fun _ => presents_release _
  next isSuper =>
    exact presents_pushThis.andThen fun _ => (presents_pushArguments values).andThen fun _ =>
      (presents_spillAllExcept _).andThen fun _ => (direct (by rw [isSuper]; rfl)).finish fun _ =>
        presents_finishCall _ _
  next isStatic =>
    exact (presents_pushArguments values).andThen fun _ =>
      (presents_spillAllExcept _).andThen fun _ => (direct (by rw [isStatic]; rfl)).finish fun _ =>
      presents_finishCall _ _

/-! ## Expressions -/

theorem presents_generateExprs {exprs : List Expr}
    (each : ∀ expr ∈ exprs, Presents context body expr.events expr.nodes
      (generateExpr context expr)) :
    Presents context body (Expr.eventsOfAll exprs) (Expr.nodesAll exprs)
      (generateExprs context exprs) := by
  induction exprs with
  | nil => exact .pure _
  | cons expr rest ih =>
    exact (each expr List.mem_cons_self).bind fun value =>
      (ih fun other isOther => each other (List.mem_cons_of_mem _ isOther)).finish
        fun values => .pure _

/-- The arguments of a call are evaluated, and then it has its event. -/
theorem presents_calling
    (each : ∀ expr ∈ arguments,
      Presents context body expr.events expr.nodes (generateExpr context expr))
    (found : context.table.call? site.id = some target) (object : Option (Option Temporary)) :
    Presents context body (Expr.eventsOfAll arguments ++ [.call site receiver method arguments])
      (Expr.nodesAll arguments) (do
        let values ← generateExprs context arguments
        conclude (generateCall context position target object values)) :=
  (presents_generateExprs each).thenEvents fun values =>
    (presents_generateCall found object values).conclude

/-! ## Nodes -/

theorem Presents.see {step : Generating Result} (presents : Presents context body events nodes step)
    (each : ∀ node ∈ others, node ∈ nodes ∨ ∀ early late, context.Handles body early late node) :
    Presents context body events others step :=
  fun before => (presents before).mono fun _ _ serves =>
    ⟨serves.added, fun node isNode => (each node isNode).elim (serves.handles node) fun handles =>
      handles _ _⟩

/-- Where the code of an expression is generated, the expression itself is evaluated. -/
theorem Presents.evaluating {expr : Expr}
    (presents : Presents context body events nodes (generateExpr context expr))
    (nodesEq : expr.nodes = nodes ++ [expr]) :
    Presents context body events expr.nodes (generateExpr context expr) := by
  intro before
  refine (presents before).withRun.mono fun value after holds => ?_
  rcases holds with ⟨serves, ran⟩
  rw [nodesEq]
  refine serves.and fun node isLast => ?_
  obtain rfl := List.mem_singleton.mp isLast
  exact .evaluated ⟨before, value, after, ran, List.prefix_rfl, serves.isPrefix, List.prefix_rfl⟩

/-- What stands for no value in front of a dot is passed over. -/
theorem Presents.passOver {step : Generating Result} {receiver : Expr}
    (presents : Presents context body events nodes step)
    (isScope : context.bindings.IsScope receiver)
    (handles : ∀ early late, context.Handles body early late receiver) :
    Presents context body (receiver.events ++ events) (receiver.nodes ++ nodes) step := by
  rcases MethodContext.nodes_of_isScope isScope with ⟨nodesEq, noEvents⟩
  rw [noEvents, nodesEq, List.nil_append]
  refine presents.see fun node isNode => ?_
  rcases List.mem_cons.mp isNode with rfl | isOther
  · exact .inr handles
  · exact .inl isOther

/-! ## Places -/

/-- A step without events stores something in a place. -/
def WritesTo (context : MethodContext) (body : Stmt) (position : Position) (place : Place)
    (step : Generating Result) : Prop :=
  ∀ before, Whenever step before fun _ after =>
    context.Serves body [] [] before.emitter.code.toList after.emitter.code.toList ∧
      ∃ source stored last, (writePlace position source place).run stored = .ok ((), last) ∧
        before.emitter.code.toList <+: stored.emitter.code.toList ∧
        last.emitter.code.toList <+: after.emitter.code.toList

namespace WritesTo

variable {place : Place} {step : Generating Result}

theorem behind {next : Result → Generating Next} (first : Presents context body [] [] step)
    (rest : ∀ result, WritesTo context body position place (next result)) :
    WritesTo context body position place (step >>= next) := by
  refine fun before => (first before).bind fun result between early =>
    (rest result between).mono fun _ after late => ?_
  rcases late with ⟨serves, source, stored, last, ran, isBehind, isBefore⟩
  exact ⟨early.trans serves, source, stored, last, ran, early.isPrefix.trans isBehind, isBefore⟩

theorem finish {next : Result → Generating Next} (first : WritesTo context body position place step)
    (rest : ∀ result, Presents context body [] [] (next result)) :
    WritesTo context body position place (step >>= next) := by
  refine fun before => (first before).bind fun result between early =>
    (rest result between).mono fun _ after late => ?_
  rcases early with ⟨serves, source, stored, last, ran, isBehind, isBefore⟩
  exact ⟨serves.trans late, source, stored, last, ran, isBehind, isBefore.trans late.isPrefix⟩

end WritesTo

theorem writesTo_writePlace (source : Register) (place : Place) :
    WritesTo context body position place (writePlace position source place) := by
  intro before
  have presents : Presents context body [] [] (writePlace position source place) :=
    presents_writePlace source place
  refine (presents before).withRun.mono fun _ after holds => ?_
  rcases holds with ⟨serves, ran⟩
  exact ⟨serves, source, before, after, ran, List.prefix_rfl, List.prefix_rfl⟩

theorem writesTo_stepPlace (opcode : BinaryOpcode) (isDouble yieldsNew : Bool) (place : Place) :
    WritesTo context body position place (stepPlace position opcode isDouble yieldsNew place) := by
  refine .behind presents_acquire fun old => .behind (presents_readPlace _ place) fun _ =>
      .behind presents_acquire fun new =>
    .behind (presents_emit ?_) fun _ => .behind (presents_emit rfl) fun _ =>
      (writesTo_writePlace _ place).finish fun _ => ?_
  · unfold loadOne
    split <;> rfl
  · split
    · exact (presents_release _).andThen fun _ => .pure _
    · exact (presents_release _).andThen fun _ => .pure _

/-- A place is found and something is stored there: what names it is written to. -/
theorem presents_writing {target : Expr} {object : Option Temporary}
    {next : Place → Generating Next}
    (rest : ∀ place, WritesTo context body position place (next place))
    (handles : ∀ early late, context.Writes early late target →
      context.Handles body early late target) :
    Presents context body [] [target] (place context position target object >>= next) := by
  intro before
  have presents : Presents context body [] [] (Generating.place context position target object) :=
    presents_place target object
  refine (presents before).withRun.bind fun place between holds => ?_
  rcases holds with ⟨found, foundRan⟩
  refine (rest place between).mono fun _ after late => ?_
  rcases late with ⟨serves, source, stored, last, storedRan, isBehind, isBefore⟩
  refine ⟨(found.trans serves).added, fun node isTarget => ?_⟩
  obtain rfl := List.mem_singleton.mp isTarget
  exact handles _ _ ⟨position, object, before, place, between, source, stored, last, foundRan,
    storedRan, List.prefix_rfl, isBehind, isBefore⟩

/-! ## Trees -/

section

variable (needs : context.NeedsValues body.exprNodes)

include needs

variable {expr value target : Expr}

/-- What stands in front of the dot of a field is evaluated where it is needed, and no value where
it is not. -/
theorem presents_receiver {site : Site ExprId} {receiver : Expr} {name : String}
    (isNode : .fieldAccess site receiver name ∈ body.exprNodes) {field : FieldEntry}
    (found : (context.table.field? site.id).bind context.registry.fieldEntry? = some field)
    {needed unneeded : Generating Result}
    (evaluates : Presents context body receiver.events receiver.nodes needed)
    (passes : Presents context body [] [] unneeded) :
    Presents context body receiver.events receiver.nodes
      (if needsObject field receiver then needed else unneeded) := by
  split
  · exact evaluates
  next notNeeded =>
    have isScope :=
      needs.fields site receiver name isNode field found (Bool.eq_false_of_not_eq_true notNeeded)
    have passed := passes.passOver isScope fun _ _ => .receiverOfField isNode isScope
    rwa [List.append_nil, List.append_nil] at passed

/-- The code of an expression, and of the object in front of its dot, brings about the events in
it. -/
theorem presents_generate (isPart : expr.nodes ⊆ body.exprNodes) :
    Presents context body expr.events expr.nodes (generateExpr context expr) ∧
      Presents context body (expr.object?.elim [] Expr.events) (expr.object?.elim [] Expr.nodes)
        (generateTarget context expr) := by
  induction expr with
  | literal site value =>
    have loads : ∀ register, (value.load register).isEvent = false := by
      intro register
      cases value <;> rfl
    exact ⟨(presents_produce loads).concludeSome.evaluating rfl, .pure none⟩
  | identifier site name =>
    exact ⟨(presents_readIdentifier site).concludeSome.evaluating rfl, .pure none⟩
  | this site => exact ⟨presents_readThis.concludeSome.evaluating rfl, .pure none⟩
  | super site => exact ⟨presents_fail _ _, .pure none⟩
  | new site className =>
    exact ⟨(presents_newObject site className).concludeSome.evaluating rfl, .pure none⟩
  | unary site operator operand ih =>
    have inner := (ih (Expr.nodes_subset_of_child isPart)).1
    have whole : Presents context body operand.events operand.nodes
        (generateExpr context (.unary site operator operand)) :=
      inner.finish fun _ => (presents_applyUnary _ _).concludeSome
    exact ⟨whole.evaluating rfl, .pure none⟩
  | binary site operator left right leftIh rightIh =>
    have inLeft := (leftIh (Expr.nodes_subset_of_child isPart)).1
    have inRight := (rightIh (Expr.nodes_subset_of_child isPart)).1
    have whole : Presents context body (left.events ++ right.events) (left.nodes ++ right.nodes)
        (generateExpr context (.binary site operator left right)) := by
      rw [generateExpr]
      split
      · exact inLeft.bind fun _ => (presents_branchPast _ _).andThen fun _ =>
          inRight.finish fun _ => (presents_joinRight _ _ _).concludeSome
      · exact inLeft.bind fun _ => inRight.finish fun _ => (presents_applyBinary _ _ _).concludeSome
    exact ⟨whole.evaluating rfl, .pure none⟩
  | call site receiver name arguments receiverIh argumentsIh =>
    have isNode := isPart (Expr.self_mem_nodes _)
    have each (argument : Expr) (isArgument : argument ∈ arguments) :
        Presents context body argument.events argument.nodes (generateExpr context argument) :=
      (argumentsIh argument isArgument
        (Expr.nodes_subset_of_child isPart (by simp [Expr.children, isArgument]))).1
    refine ⟨?_, .pure none⟩
    cases receiver with
    | none =>
      have whole : Presents context body
          (Expr.eventsOfAll arguments ++ [.call site none name arguments])
          (Expr.nodesAll arguments) (generateExpr context (.call site none name arguments)) :=
        presents_found fun target found => presents_calling each found none
      exact whole.evaluating rfl
    | some receiver =>
      have inReceiver := (receiverIh receiver rfl (Expr.nodes_subset_of_child isPart)).1
      have whole : Presents context body
          (receiver.events ++ (Expr.eventsOfAll arguments ++
            [.call site (some receiver) name arguments]))
          (receiver.nodes ++ Expr.nodesAll arguments)
              (generateExpr context (.call site (some receiver) name arguments)) := by
        refine presents_found fun target found => ?_
        split
        · exact inReceiver.bind fun object => presents_calling each found (some object)
        next notEvaluated =>
          have isScope := needs.calls site receiver name arguments isNode target found
            (Bool.eq_false_of_not_eq_true notEvaluated)
          exact (presents_calling each found none).passOver isScope fun _ _ =>
            .receiverOfCall isNode isScope
      rw [← List.append_assoc] at whole
      exact whole.evaluating rfl
  | fieldAccess site receiver name ih =>
    have isNode := isPart (Expr.self_mem_nodes _)
    have inner := (ih (Expr.nodes_subset_of_child isPart)).1
    have whole : Presents context body receiver.events receiver.nodes
        (generateExpr context (.fieldAccess site receiver name)) :=
      presents_found fun field found => presents_receiver needs isNode found
        (inner.finish fun _ => (presents_readObjectField _ _).concludeSome)
        (presents_readOwnField _).concludeSome
    exact ⟨whole.evaluating rfl,
      presents_found fun field found => presents_receiver needs isNode found inner (.pure none)⟩
  | step site operator yieldsNew target ih =>
    have isNode := isPart (Expr.self_mem_nodes _)
    have inside := ih (Expr.nodes_subset_of_child isPart)
    have writing (object : Option Temporary) : Presents context body [] [target] (conclude do
        let place ← place context site.position target object
        some <$> stepPlace site.position
          (operator.opcode (context.table.typeOf? site.id = some .double))
          (context.table.typeOf? site.id = some .double) yieldsNew place) := by
      refine Presents.conclude (presents_writing (fun place => ?_) fun _ _ writes =>
        .steps isNode writes)
      rw [map_eq_pure_bind]
      exact (writesTo_stepPlace _ _ _ place).finish fun _ => .pure _
    have whole : Presents context body target.events target.nodes
        (generateExpr context (.step site operator yieldsNew target)) := by
      cases target with
      | identifier => exact (Presents.pure none).andThen writing
      | fieldAccess => exact inside.2.thenNodes writing
      | literal | this | super | new | call | unary | binary | step => rintro _ _ _ ⟨⟩
    exact ⟨whole.evaluating rfl, .pure none⟩

theorem presents_generateValue (isPart : expr.nodes ⊆ body.exprNodes) :
    Presents context body expr.events expr.nodes (generateValue context expr) :=
  (presents_generate needs isPart).1.finish fun _ => presents_operand _

/-! ## Simple statements -/

theorem presents_branchUnless {condition : Expr} (isPart : condition.nodes ⊆ body.exprNodes)
    (label : String) :
    Presents context body condition.events condition.nodes (branchUnless context condition label) :=
  (presents_generateValue needs isPart).finish fun _ => (presents_load _).andThen fun _ =>
    (presents_emit rfl).andThen fun _ => (presents_release _).andThen fun _ => presents_unpinAll

theorem presents_generateReturn {value : Option Expr}
    (isPart : Expr.nodesOption value ⊆ body.exprNodes) :
    Presents context body (value.elim [] Expr.events) (Expr.nodesOption value)
      (generateReturn context position value) := by
  cases value with
  | none => exact presents_emit rfl
  | some value =>
    exact (presents_generateValue needs isPart).finish fun _ => (presents_load _).andThen fun _ =>
      (presents_emit rfl).andThen fun _ => presents_release _

theorem presents_generateEvaluate (isPart : expr.nodes ⊆ body.exprNodes) :
    Presents context body expr.events expr.nodes (generateEvaluate context expr) := by
  refine (presents_generate needs isPart).1.finish fun value => ?_
  cases value with
  | none => exact .pure _
  | some value => exact presents_release value

theorem presents_generatePrint (site : Site StmtId) (isPart : value.nodes ⊆ body.exprNodes) :
    Presents context body (value.events ++ [.print site value]) value.nodes
      (generatePrint context site.position value) := by
  refine presents_found fun kind printed => ?_
  have prints (register : Register) : Presents context body [.print site value] []
      (emit (.print kind register)) := by
    unfold printKind? at printed
    split at printed
    next primitive typed => exact presents_event rfl (.print typed printed)
    all_goals cases printed
  exact (presents_generateValue needs isPart).thenEvents fun source =>
    (presents_load source).andThen fun register => (prints register).finish fun _ =>
    presents_release source

theorem presents_generateReceiver (isPart : target.nodes ⊆ body.exprNodes) :
    Presents context body (target.object?.elim [] Expr.events) (target.object?.elim [] Expr.nodes)
      (generateReceiver context target) := by
  cases target with
  | fieldAccess site receiver name =>
    have inner : Presents context body receiver.events receiver.nodes
        (some <$> generateValue context receiver) :=
      (presents_generateValue needs (Expr.nodes_subset_of_child isPart)).map
    exact presents_found fun field found =>
      presents_receiver needs (isPart (Expr.self_mem_nodes _)) found inner (.pure none)
  | literal | identifier | this | super | new | call | unary | binary | step => exact .pure none

theorem presents_generateAssign {site : Site StmtId}
    (isNode : .assign site target value ∈ body.nodes) (targetIsPart : target.nodes ⊆ body.exprNodes)
    (valueIsPart : value.nodes ⊆ body.exprNodes) :
    Presents context body (target.events ++ value.events) (target.nodes ++ value.nodes)
      (generateAssign context site.position target value) := by
  have writing (object : Option Temporary) (source : Temporary) :
      Presents context body [] [target] (do
      let place ← place context site.position target object
      let register ← load site.position source
      writePlace site.position register place
      release source) :=
    presents_writing (fun place => .behind (presents_load source) fun register =>
      (writesTo_writePlace register place).finish fun _ => presents_release source)
      fun _ _ writes => .assigns isNode writes
  have all := (presents_generateReceiver needs targetIsPart).bind fun object =>
    (presents_generateValue needs valueIsPart).bind (writing object)
  rw [List.append_nil] at all
  cases target with
  | identifier =>
    exact all.see fun node isNode =>
      .inl (by simpa [Expr.object?, Expr.nodes, or_comm] using isNode)
  | fieldAccess =>
    refine all.see fun node isNode => .inl ?_
    simpa [Expr.object?, Expr.nodes, or_comm, or_assoc, or_left_comm] using isNode
  | literal | this | super | new | call | unary | binary | step =>
    intro before
    have runs {Result : Type} (step : Generating Result) (before : Generation) :
        Whenever step before fun _ _ => True :=
      fun _ _ _ => trivial
    refine (runs _ before).bind fun object between _ =>
      (runs _ between).bind fun source later _ => ?_
    rintro _ _ ⟨⟩

end

theorem presents_clearVariable (id : VariableId) :
    Presents context body [] [] (clearVariable context position id) := by
  refine (presents_orFail _ _).andThen fun slot => presents_acquire.andThen fun acquired =>
    Presents.andThen (presents_emit ?_) fun _ => (presents_emit rfl).andThen fun _ =>
      presents_release _
  unfold loadZero
  split <;> rfl

theorem presents_clearVariables (ids : List VariableId) :
    Presents context body [] [] (ids.forM (clearVariable context position)) := by
  induction ids with
  | nil => exact .pure _
  | cons id rest ih => exact (presents_clearVariable id).andThen fun _ => ih

/-! ## Statements -/

theorem Presents.settle {code : Generating Unit}
    (presents : Presents context body events nodes code) :
    Presents context body events nodes (Generating.settle position code) := by
  refine presents.conclude.finish fun _ => presents_get.andThen fun _ => ?_
  dsimp only
  split
  · exact presents_fail _ _
  · exact .pure _

theorem presents_leaveLoop (keyword : String) (label : LoopLabels → String) :
    Presents context body [] [] (leaveLoop position keyword label) :=
  presents_get.andThen fun _ => (presents_orFail _ _).andThen fun _ => presents_emit rfl

theorem presents_enterLoop (labels : LoopLabels) : Presents context body [] [] (enterLoop labels) :=
  presents_modify fun _ => rfl

theorem presents_exitLoop : Presents context body [] [] exitLoop := presents_modify fun _ => rfl

/-- A part of a statement that need not be there. -/
theorem presents_part {Part : Type} {part : Option Part} {code : Part → Generating Unit}
    {eventsOf : Part → List Event} {nodesOf : Part → List Expr}
    (each : ∀ given ∈ part, Presents context body (eventsOf given) (nodesOf given) (code given)) :
    Presents context body (part.elim [] eventsOf) (part.elim [] nodesOf)
      (part.elim (pure ()) code) := by
  cases part with
  | none => exact .pure _
  | some given => exact each given rfl

/-- The code of a statement brings about the events in it. -/
theorem presents_generateStmt (needs : context.NeedsValues body.exprNodes) {stmt : Stmt}
    (exprsArePart : stmt.exprNodes ⊆ body.exprNodes) (isPart : stmt.nodes ⊆ body.nodes) :
    Presents context body stmt.events stmt.exprNodes (generateStmt context stmt) := by
  have child {stmt other : Stmt} (isPart : stmt.nodes ⊆ body.nodes)
      (isChild : other ∈ stmt.children) : other.nodes ⊆ body.nodes :=
    fun node isNode => isPart (Stmt.mem_nodes_iff.mpr (.inr ⟨other, isChild, isNode⟩))
  induction stmt with
  | block site statements ih =>
    refine (Presents.settle (.pure ())).andThen fun _ => ?_
    have each (stmt : Stmt) (isStmt : stmt ∈ statements) :
        Presents context body stmt.events stmt.exprNodes (generateStmt context stmt) :=
      ih stmt isStmt (Stmt.exprNodes_subset_of_child exprsArePart isStmt) (child isPart isStmt)
    clear ih exprsArePart isPart
    rw [Stmt.events, Stmt.exprNodes]
    induction statements with
    | nil => exact .pure _
    | cons stmt rest ihRest =>
      exact (each stmt List.mem_cons_self).bind fun _ => ihRest fun other isOther =>
        each other (List.mem_cons_of_mem _ isOther)
  | ifElse site condition thenBranch elseBranch thenIh elseIh =>
    have inCondition (label : String) : Presents context body condition.events condition.nodes
        (branchUnless context condition label) :=
      presents_branchUnless needs (Stmt.nodes_subset_of_expr exprsArePart) label
    have inThen := thenIh (Stmt.exprNodes_subset_of_child exprsArePart)
      (child isPart (by simp [Stmt.children]))
    cases elseBranch with
    | none =>
      exact presents_freshLabel.andThen fun behind => (inCondition behind).settle.bind fun _ =>
        inThen.finish fun _ => presents_emit rfl
    | some elseBranch =>
      have inElse := elseIh elseBranch rfl (Stmt.exprNodes_subset_of_child exprsArePart)
        (child isPart (by simp [Stmt.children]))
      rw [Stmt.events, Stmt.exprNodes, List.append_assoc, List.append_assoc]
      exact presents_freshLabel.andThen fun otherwise => presents_freshLabel.andThen fun behind =>
        (inCondition otherwise).settle.bind fun _ => inThen.bind fun _ =>
        (presents_emit rfl).andThen fun _ => (presents_emit rfl).andThen fun _ =>
        inElse.finish fun _ => presents_emit rfl
  | whileLoop site condition inner ih =>
    have inCondition (label : String) : Presents context body condition.events condition.nodes
        (branchUnless context condition label) :=
      presents_branchUnless needs (Stmt.nodes_subset_of_expr exprsArePart) label
    have inBody := ih (Stmt.exprNodes_subset_of_child exprsArePart)
      (child isPart (by simp [Stmt.children]))
    exact presents_freshLabel.andThen fun top => presents_freshLabel.andThen fun behind =>
      (presents_emit rfl).andThen fun _ => (inCondition behind).settle.bind fun _ =>
      (presents_enterLoop _).andThen fun _ => inBody.finish fun _ =>
      (presents_emit rfl).andThen fun _ => presents_exitLoop.andThen fun _ => presents_emit rfl
  | forLoop site init condition update inner initIh updateIh innerIh =>
    have inInit := presents_part fun stmt isInit => initIh stmt isInit
      (Stmt.exprNodes_subset_of_child exprsArePart
        (by simp [Stmt.children, Option.mem_def.mp isInit]))
      (child isPart (by simp [Stmt.children, Option.mem_def.mp isInit]))
    have inUpdate := presents_part fun stmt isUpdate => updateIh stmt isUpdate
      (Stmt.exprNodes_subset_of_child exprsArePart
        (by simp [Stmt.children, Option.mem_def.mp isUpdate]))
      (child isPart (by simp [Stmt.children, Option.mem_def.mp isUpdate]))
    have inCondition (label : String) : Presents context body (condition.elim [] Expr.events)
        (condition.elim [] Expr.nodes)
        (condition.elim (pure ()) fun expr => branchUnless context expr label) :=
      presents_part fun expr isCondition => presents_branchUnless needs
        (Stmt.nodes_subset_of_expr exprsArePart
          (by simp [Stmt.exprs, Option.mem_def.mp isCondition])) label
    have inBody := innerIh (Stmt.exprNodes_subset_of_child exprsArePart)
      (child isPart (by simp [Stmt.children]))
    have whole : Presents context body
          (init.elim [] Stmt.events ++ (condition.elim [] Expr.events ++
          (inner.events ++ update.elim [] Stmt.events)))
        (init.elim [] Stmt.exprNodes ++ (condition.elim [] Expr.nodes ++ (inner.exprNodes ++
          update.elim [] Stmt.exprNodes)))
          (generateStmt context (.forLoop site init condition update inner)) := by
      rw [generateStmt_forLoop]
      exact presents_freshLabel.andThen fun top => presents_freshLabel.andThen fun next =>
        presents_freshLabel.andThen fun behind => (Presents.settle (.pure ())).andThen fun _ =>
        inInit.bind fun _ => (presents_emit rfl).andThen fun _ => (inCondition behind).bind fun _ =>
        (presents_enterLoop ⟨behind, next⟩).andThen fun _ => inBody.bind fun _ =>
        (presents_emit rfl).andThen fun _ => inUpdate.finish fun _ =>
        (presents_emit rfl).andThen fun _ => presents_exitLoop.andThen fun _ => presents_emit rfl
    rw [Stmt.events_forLoop, List.append_assoc, List.append_assoc]
    refine whole.see fun node isNode => .inl ?_
    rw [Stmt.exprNodes_forLoop] at isNode
    cases init <;> cases condition <;> cases update <;>
      simpa [Expr.nodesOption, or_assoc, or_comm, or_left_comm] using isNode
  | ret site value => exact (presents_generateReturn needs exprsArePart).settle
  | evaluate site expr => exact (presents_generateEvaluate needs exprsArePart).settle
  | assign site target value =>
    have isNode := isPart (Stmt.self_mem_nodes _)
    exact (presents_generateAssign needs isNode (Stmt.nodes_subset_of_expr exprsArePart)
      (Stmt.nodes_subset_of_expr exprsArePart)).settle
  | declare site declared => exact (presents_clearVariables _).settle
  | print site value => exact (presents_generatePrint needs site exprsArePart).settle
  | breakLoop site => exact (presents_leaveLoop _ _).settle
  | continueLoop site => exact (presents_leaveLoop _ _).settle
  | skip site => exact Presents.settle (.pure ())

end Generating

end Decaf
