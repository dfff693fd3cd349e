import Decaf.Proofs.Events.Bodies
import Decaf.Proofs.Spilling.Bodies

/-!
# Where operators are entered

The code of each expression begins and ends with no temporary pinned, whatever waits for its use
around it. So when the generator comes to an operator in the body of a method, it has registers
enough, and only steps on record have led there from the start of the method.
-/

namespace Decaf

open RegisterPool (Guards Transfers)

/-- An operator that takes two operands. -/
def Expr.isBinary : Expr → Bool
  | .binary .. => true
  | .literal .. | .identifier .. | .this .. | .super .. | .new .. | .call .. | .fieldAccess ..
  | .unary .. | .step .. => false

/-- The nodes of a target besides those in front of its dot. -/
def Expr.ownNodes (target : Expr) : List Expr := target.object?.elim target.nodes fun _ => [target]

theorem Expr.nodes_eq_object (target : Expr) :
    target.nodes = target.object?.elim [] nodes ++ target.ownNodes := by
  cases target <;> rfl

namespace Generation

variable {base : Nat} {context : MethodContext} {nodes more : List Expr}
  {before between after : Generation}

/-- Nothing is pinned, there are registers enough, and the spill slots start at a given one. -/
structure ReadyAt (base : Nat) (generation : Generation) : Prop where
  ready : generation.Ready
  base_eq : generation.pool.spillBase = base

/-- Between two generations the code of an expression is generated, and in front of it nothing is
pinned. -/
def Enters (context : MethodContext) (base : Nat) (node : Expr) (before after : Generation) :
    Prop :=
  ∃ entry value exit, entry.ReadyAt base ∧ (Generating.generateExpr context node).run entry =
    .ok (value, exit) ∧
    before.LeadsTo base entry ∧ exit.LeadsTo base after

/-- Code was generated that ends with nothing pinned, and the operators among some expressions were
entered. -/
structure Visited (context : MethodContext) (base : Nat) (nodes : List Expr)
    (before after : Generation) : Prop where
  leads : before.LeadsTo base after
  readyAt : after.ReadyAt base
  enters : ∀ node ∈ nodes, node.isBinary = true → before.Enters context base node after

theorem LeadsTo.keeps (leads : before.LeadsTo base after) (readyAt : before.ReadyAt base) :
    after.pool.WellFormed ∧ 3 ≤ after.pool.registers.length ∧ after.pool.spillBase = base := by
  rcases leads with ⟨history, transfers⟩
  rcases transfers.wellFormed readyAt.ready.wellFormed with ⟨wellFormed, baseEq, lengthEq⟩
  exact ⟨wellFormed, lengthEq ▸ readyAt.ready.enough, baseEq.trans readyAt.base_eq⟩

theorem LeadsTo.unpinned (leads : before.LeadsTo base after) (readyAt : before.ReadyAt base) :
    after.unpinned.ReadyAt base := by
  rcases leads.keeps readyAt with ⟨wellFormed, enough, baseEq⟩
  exact ⟨.unpinned_of wellFormed enough, baseEq⟩

/-- Where every temporary may wait in a register, nothing is asked of what is spilled. -/
theorem ReadyAt.guards (readyAt : before.ReadyAt base) {here : Set Temporary}
    (isAll : ∀ temporary, temporary ∈ here) : Guards base ∅ here before.pool :=
  ⟨readyAt.ready.wellFormed, readyAt.base_eq, nofun,
    fun temporary _ => .inl (isAll temporary), nofun⟩

theorem Enters.within {node : Expr} {start last : Generation}
    (enters : before.Enters context base node after) (early : start.LeadsTo base before)
    (late : after.LeadsTo base last) : start.Enters context base node last := by
  rcases enters with ⟨entry, value, exit, readyAt, ran, toEntry, fromExit⟩
  exact ⟨entry, value, exit, readyAt, ran, early.trans toEntry, fromExit.trans late⟩

theorem Visited.trans (early : before.Visited context base nodes between)
    (late : between.Visited context base more after) :
    before.Visited context base (nodes ++ more) after where
  leads := early.leads.trans late.leads
  readyAt := late.readyAt
  enters node isNode isBinary := by
    rcases List.mem_append.mp isNode with isEarly | isLate
    · exact (early.enters node isEarly isBinary).within (.refl before) late.leads
    · exact (late.enters node isLate isBinary).within early.leads (.refl after)

end Generation

namespace Generating

open Generation

variable {Result Next : Type} {base : Nat} {context : MethodContext} {nodes others more : List Expr}
  {start : Set Temporary} {position : Position} {before : Generation} {step : Generating Result}

/-- Wherever a step starts with nothing pinned, it ends so, and enters the operators among some
expressions. -/
def Visits (context : MethodContext) (base : Nat) (nodes : List Expr) (step : Generating Result) :
    Prop :=
  ∀ before, before.ReadyAt base → Whenever step before fun _ after =>
    before.Visited context base nodes after

namespace Visits

theorem pure (result : Result) : Visits context base [] (Pure.pure result : Generating Result) :=
  fun before readyAt => .pure ⟨.refl before, readyAt, nofun⟩

theorem bind {next : Result → Generating Next} (first : Visits context base nodes step)
    (rest : ∀ result, Visits context base more (next result)) :
    Visits context base (nodes ++ more) (step >>= next) :=
  fun before readyAt => (first before readyAt).bind fun result between early =>
    (rest result between early.readyAt).mono fun _ _ late => early.trans late

/-- In the first step nothing is entered. -/
theorem andThen {next : Result → Generating Next} (first : Visits context base [] step)
    (rest : ∀ result, Visits context base nodes (next result)) :
    Visits context base nodes (step >>= next) :=
  first.bind rest

/-- Behind the first step nothing is entered. -/
theorem finish {next : Result → Generating Next} (first : Visits context base nodes step)
    (rest : ∀ result, Visits context base [] (next result)) :
    Visits context base nodes (step >>= next) := by
  have both := first.bind rest
  rwa [List.append_nil] at both

/-- More expressions may be mentioned that are no operators. -/
theorem see (visits : Visits context base nodes step)
    (areSeen : ∀ node ∈ others, node.isBinary = true → node ∈ nodes) :
    Visits context base others step :=
  fun before readyAt => (visits before readyAt).mono fun _ _ visited =>
    ⟨visited.leads, visited.readyAt, fun node isNode isBinary =>
      visited.enters node (areSeen node isNode isBinary) isBinary⟩

/-- Where the code of an expression is generated, the expression itself is entered. -/
theorem entering {expr : Expr} (visits : Visits context base nodes (generateExpr context expr))
    (nodesEq : expr.nodes = nodes ++ [expr]) :
    Visits context base expr.nodes (generateExpr context expr) := by
  intro before readyAt
  refine (visits before readyAt).withRun.mono fun value after ⟨visited, ran⟩ => ?_
  rw [nodesEq]
  refine ⟨visited.leads, visited.readyAt, fun node isNode isBinary => ?_⟩
  rcases List.mem_append.mp isNode with isInside | isLast
  · exact visited.enters node isInside isBinary
  · rw [List.mem_singleton.mp isLast]
    exact ⟨before, value, after, readyAt, ran, .refl before, .refl after⟩

end Visits

/-! ## Steps that enter nothing -/

theorem visits_fail (position : Position) (explanation : String) :
    Visits context base nodes (fail position explanation : Generating Result) :=
  fun _ _ => whenever_fail _ _

/-- A step that needs something to be there. -/
theorem visits_found {content : Option Result} {explanation : String}
    {next : Result → Generating Next}
    (rest : ∀ result, content = some result → Visits context base nodes (next result)) :
    Visits context base nodes (orFail content position explanation >>= next) := by
  intro before readyAt
  refine whenever_found fun result found => ?_
  exact rest result found before readyAt

theorem visits_emit {instruction : Instruction} (spares : instruction.Spares base) :
    Visits context base [] (emit instruction) := by
  intro before readyAt
  refine (succeeds_emit _).whenever.goesTo ?_
  exact ⟨(LeadsTo.refl before).emit spares,
    ⟨⟨readyAt.ready.wellFormed, readyAt.ready.enough, readyAt.ready.unpinned⟩,
      readyAt.base_eq⟩, nofun⟩

/-- A step that neither emits code nor asks anything of the pool. -/
theorem visits_aside
    (same : ∀ before, Whenever step before fun _ after => after.session = before.session) :
    Visits context base [] step := by
  intro before readyAt
  refine (same before).mono fun _ after sessionEq => ?_
  have poolEq : after.pool = before.pool := congrArg RegisterPool.Session.pool sessionEq
  refine ⟨⟨[], sessionEq ▸ .none⟩, ⟨⟨?_, ?_, ?_⟩, poolEq ▸ readyAt.base_eq⟩, nofun⟩
  · exact poolEq ▸ readyAt.ready.wellFormed
  · exact poolEq ▸ readyAt.ready.enough
  · exact poolEq ▸ readyAt.ready.unpinned

theorem visits_freshLabel : Visits context base [] freshLabel :=
  visits_aside fun _ => by
    rintro _ _ ⟨⟩
    rfl

theorem visits_enterLoop (labels : LoopLabels) : Visits context base [] (enterLoop labels) :=
  visits_aside fun _ => by
    rintro _ _ ⟨⟩
    rfl

theorem visits_exitLoop : Visits context base [] exitLoop :=
  visits_aside fun _ => by
    rintro _ _ ⟨⟩
    rfl

theorem visits_get : Visits context base [] get :=
  visits_aside fun _ => by
    rintro _ _ ⟨⟩
    rfl

theorem visits_unpinAll : Visits context base [] unpinAll := by
  intro before readyAt
  refine succeeds_unpinAll.whenever.goesTo ?_
  exact ⟨(LeadsTo.refl before).unpin, (LeadsTo.refl before).unpinned readyAt, nofun⟩

/-- What leaves spilled temporaries alone is on record. -/
theorem Tends.leadsTo {there : Result → Set Temporary} {holds : Result → Prop}
    (tends : Tends base (fun _ => True) start step there holds)
    (isAll : ∀ temporary, temporary ∈ start) (readyAt : before.ReadyAt base) :
    Whenever step before fun result after => before.LeadsTo base after ∧ holds result :=
  (tends ∅ before (readyAt.guards isAll)).mono fun _ _ ⟨passes, _, isFit⟩ => ⟨passes.leadsTo, isFit⟩

/-- At the end of a step that is concluded nothing is pinned. -/
theorem visits_conclude
    (leads : ∀ before, before.ReadyAt base → Whenever step before fun _ after =>
      before.LeadsTo base after) :
    Visits context base [] (conclude step) := by
  intro before readyAt
  refine (whenever_conclude (leads before readyAt)).mono ?_
  rintro _ _ ⟨between, leads, rfl⟩
  exact ⟨leads.unpin, leads.unpinned readyAt, nofun⟩

section

variable {there : Result → Set Temporary} {holds : Result → Prop}
  (tends : Tends base (fun _ => True) start step there holds)
  (isAll : ∀ temporary, temporary ∈ start)
include tends isAll

theorem Tends.visits :
    Visits context base [] (Generating.conclude step) :=
  visits_conclude fun _ readyAt => (tends.leadsTo isAll readyAt).mono fun _ _ => And.left

theorem Tends.visitsSome :
    Visits context base [] (Generating.conclude (some <$> step)) :=
  visits_conclude fun _ readyAt => (tends.leadsTo isAll readyAt).map fun _ _ => And.left

end

/-- Something that leaves spilled temporaries alone has a result as told. -/
theorem Visits.bindWith {there : Result → Set Temporary} {holds : Result → Prop}
    {next : Result → Generating Next} (first : Visits context base nodes step)
    (tends : Tends base (fun _ => True) Set.univ step there holds)
    (rest : ∀ result, holds result → Visits context base more (next result)) :
    Visits context base (nodes ++ more) (step >>= next) := by
  intro before readyAt
  refine ((first before readyAt).and (tends.leadsTo Set.mem_univ readyAt)).bind
    fun result between ⟨early, _, isFit⟩ => ?_
  exact (rest result isFit between early.readyAt).mono fun _ _ late => early.trans late

theorem conclude_bind (step : Generating Result) (next : Result → Generating Next) :
    conclude (step >>= next) = step >>= fun result => conclude (next result) := by
  simp only [conclude, bind_assoc]

theorem Visits.conclude (visits : Visits context base nodes step) :
    Visits context base nodes (Generating.conclude step) :=
  visits.finish fun _ => visits_unpinAll.andThen fun _ => .pure _

theorem Visits.settle {code : Generating Unit}
    (visits : Visits context base nodes (Generating.conclude code)) :
    Visits context base nodes (Generating.settle position code) := by
  refine visits.finish fun _ => visits_get.andThen fun _ => ?_
  dsimp only
  split
  · exact visits_fail _ _
  · exact .pure _

/-- A part of a statement that need not be there. -/
theorem visits_part {Part : Type} {part : Option Part} {code : Part → Generating Unit}
    {nodesOf : Part → List Expr}
    (each : ∀ given ∈ part, Visits context base (nodesOf given) (code given)) :
    Visits context base (part.elim [] nodesOf) (part.elim (pure ()) code) := by
  cases part with
  | none => exact .pure _
  | some given => exact each given rfl

theorem visits_leaveLoop (keyword : String) (label : LoopLabels → String) :
    Visits context base [] (settle position (leaveLoop position keyword label)) :=
  Visits.settle (visits_get.andThen fun _ => visits_found fun _ _ =>
    visits_emit (by exact trivial)).conclude

/-! ## Expressions -/

theorem visits_generateExprs {exprs : List Expr}
    (each : ∀ expr ∈ exprs, Visits context base expr.nodes (generateExpr context expr)) :
    Visits context base (Expr.nodesAll exprs) (generateExprs context exprs) := by
  induction exprs with
  | nil => exact .pure _
  | cons expr rest ih =>
    exact (each expr List.mem_cons_self).bind fun _ =>
      (ih fun other isOther => each other (List.mem_cons_of_mem _ isOther)).finish fun _ => .pure _

/-- What is no value in front of a dot has no operators. -/
theorem not_isBinary_of_isScope {bindings : Bindings} {expr node : Expr}
    (isScope : bindings.IsScope expr) (isNode : node ∈ expr.nodes) : ¬node.isBinary = true := by
  rw [(MethodContext.nodes_of_isScope isScope).1, List.mem_singleton] at isNode
  subst isNode
  cases isScope <;> nofun

/-- What can be assigned to is no operator itself. -/
theorem visits_atPlace {target : Expr} {object : Option Temporary} {next : Place → Generating Next}
    (visits : Visits context base [] (conclude (place context position target object >>= next))) :
    Visits context base target.ownNodes
      (conclude (place context position target object >>= next)) := by
  cases target with
  | identifier | fieldAccess =>
    refine visits.see fun node isNode isBinary => ?_
    rw [List.mem_singleton.mp isNode] at isBinary
    cases isBinary
  | literal | this | super | new | call | unary | binary | step => rintro _ _ _ _ ⟨⟩

/-- The right operand of `&&` or `||` is entered where nothing is in a register. -/
theorem visits_shortCircuit {left right : Expr} (inFront : context.StaysBelow base)
    (operator : BinaryOperator)
    (inLeft : Visits context base left.nodes (generateExpr context left))
    (inRight : Visits context base right.nodes (generateExpr context right)) :
    Visits context base (left.nodes ++ right.nodes) (do
      let leftValue ← generateExpr context left
      let (register, label) ← branchPast position operator leftValue
      let rightValue ← generateExpr context right
      conclude (some <$> joinRight position register label rightValue)) := by
  intro before readyAt
  have leftTends := (tends_generate (grantsAll inFront) (List.Subset.refl left.nodes)).1
  have rightTends := (tends_generate (grantsAll inFront) (List.Subset.refl right.nodes)).1
  refine (whenever_shortCircuit operator (leftTends _) (rightTends ∅)
    (readyAt.guards Set.mem_univ)).mono ?_
  rintro _ _ ⟨run, rfl, rfl, meets, toRight, toEnd, -⟩
  have early := inLeft before readyAt _ _ run.leftRan
  have branched : run.branched.ReadyAt base := by
    rcases toRight.keeps early.readyAt with ⟨wellFormed, enough, baseEq⟩
    refine ⟨⟨wellFormed, enough, fun register resident held => ?_⟩, baseEq⟩
    cases (meets.vacant register).symm.trans held
  have late := inRight _ branched _ _ run.rightRan
  have visited : run.branched.Visited context base right.nodes run.joined.unpinned :=
    ⟨late.leads.trans toEnd.unpin, toEnd.unpinned late.readyAt, fun node isNode isBinary =>
      (late.enters node isNode isBinary).within (.refl _) toEnd.unpin⟩
  have reached : before.Visited context base left.nodes run.branched :=
    ⟨early.leads.trans toRight, branched, fun node isNode isBinary =>
      (early.enters node isNode isBinary).within (.refl _) toRight⟩
  exact reached.trans visited

/-- The arguments of a call are evaluated, and then it is carried out. -/
theorem visits_calling {arguments : List Expr} {target : CallTarget}
    (inFront : context.StaysBelow base)
    (each : ∀ expr ∈ arguments, Visits context base expr.nodes (generateExpr context expr))
    {object : Option (Option Temporary)}
    (fits : object = none ∨ evaluatesReceiver target.dispatch = true) :
    Visits context base (Expr.nodesAll arguments) (do
      let values ← generateExprs context arguments
      conclude (generateCall context position target object values)) :=
  (visits_generateExprs each).finish fun values =>
    have grants : context.Grants base (fun _ => True) [] := grantsAll inFront
    Tends.visits (tends_generateCall grants fits values) fun temporary =>
      mem_havingAll (mem_having (Set.mem_univ temporary) _) values

section

variable (inFront : context.StaysBelow base) (needs : context.NeedsValues nodes)
include inFront needs

variable {expr value target : Expr}

omit inFront in
/-- What stands in front of the dot of a field is entered where it is needed, and no operator where
it is not. -/
theorem visits_receiver {site : Site ExprId} {receiver : Expr} {name : String}
    (isNode : .fieldAccess site receiver name ∈ nodes) {field : FieldEntry}
    (found : (context.table.field? site.id).bind context.registry.fieldEntry? = some field)
    {needed unneeded : Generating Result} (visits : Visits context base receiver.nodes needed)
    (passes : Visits context base [] unneeded) :
    Visits context base receiver.nodes
      (if needsObject field receiver then needed else unneeded) := by
  split
  · exact visits
  next notNeeded =>
    have isScope :=
      needs.fields site receiver name isNode field found (Bool.eq_false_of_not_eq_true notNeeded)
    exact passes.see fun node isNode isBinary =>
      (not_isBinary_of_isScope isScope isNode isBinary).elim

/-- The code of an expression, and of the object in front of its dot, enters the operators in it. -/
theorem visits_generate (isPart : expr.nodes ⊆ nodes) :
    Visits context base expr.nodes (generateExpr context expr) ∧
      Visits context base (expr.object?.elim [] Expr.nodes) (generateTarget context expr) := by
  have grants : context.Grants base (fun _ => True) nodes := grantsAll inFront
  induction expr with
  | literal site value =>
    have visits : Visits context base [] (generateExpr context (.literal site value)) :=
      (tends_literal value).visitsSome Set.mem_univ
    exact ⟨visits.entering rfl, .pure none⟩
  | identifier site name =>
    have visits : Visits context base [] (generateExpr context (.identifier site name)) :=
      (tends_readIdentifier grants (isPart (Expr.self_mem_nodes _))).visitsSome Set.mem_univ
    exact ⟨visits.entering rfl, .pure none⟩
  | this site =>
    have visits : Visits context base [] (generateExpr context (.this site)) :=
      (tends_readThis grants).visitsSome Set.mem_univ
    exact ⟨visits.entering rfl, .pure none⟩
  | super site => exact ⟨visits_fail _ _, .pure none⟩
  | new site className =>
    have visits : Visits context base [] (generateExpr context (.new site className)) :=
      (tends_newObject site).visitsSome Set.mem_univ
    exact ⟨visits.entering rfl, .pure none⟩
  | unary site operator operand ih =>
    have inner := (ih (Expr.nodes_subset_of_child isPart)).1
    have visits : Visits context base operand.nodes
        (generateExpr context (.unary site operator operand)) :=
      inner.finish fun value => (tends_applyUnary _ value).visitsSome fun temporary =>
        mem_having (Set.mem_univ temporary) value
    exact ⟨visits.entering rfl, .pure none⟩
  | binary site operator left right leftIh rightIh =>
    have inLeft := (leftIh (Expr.nodes_subset_of_child isPart)).1
    have inRight := (rightIh (Expr.nodes_subset_of_child isPart)).1
    have visits : Visits context base (left.nodes ++ right.nodes)
        (generateExpr context (.binary site operator left right)) := by
      rw [generateExpr]
      split
      · exact visits_shortCircuit inFront operator inLeft inRight
      · exact inLeft.bind fun leftValue => inRight.finish fun rightValue =>
          (tends_applyBinary _ leftValue rightValue).visitsSome fun temporary =>
            mem_having (mem_having (Set.mem_univ temporary) leftValue) rightValue
    exact ⟨visits.entering rfl, .pure none⟩
  | call site receiver name arguments receiverIh argumentsIh =>
    have isNode := isPart (Expr.self_mem_nodes _)
    have each (argument : Expr) (isArgument : argument ∈ arguments) :
        Visits context base argument.nodes (generateExpr context argument) :=
      (argumentsIh argument isArgument
        (Expr.nodes_subset_of_child isPart (by simp [Expr.children, isArgument]))).1
    refine ⟨?_, .pure none⟩
    cases receiver with
    | none =>
      have visits : Visits context base (Expr.nodesAll arguments)
          (generateExpr context (.call site none name arguments)) :=
        visits_found fun target found => visits_calling inFront each (.inl rfl)
      exact visits.entering rfl
    | some receiver =>
      have inReceiver := (receiverIh receiver rfl (Expr.nodes_subset_of_child isPart)).1
      have visits : Visits context base (receiver.nodes ++ Expr.nodesAll arguments)
          (generateExpr context (.call site (some receiver) name arguments)) := by
        refine visits_found fun target found => ?_
        split
        next evaluates =>
          exact inReceiver.bind fun object => visits_calling inFront each (.inr evaluates)
        next notEvaluated =>
          have isScope := needs.calls site receiver name arguments isNode target found
            (Bool.eq_false_of_not_eq_true notEvaluated)
          refine (visits_calling inFront each (.inl rfl)).see fun node isNode isBinary => ?_
          rcases List.mem_append.mp isNode with inReceiver | isArgument
          · exact (not_isBinary_of_isScope isScope inReceiver isBinary).elim
          · exact isArgument
      exact visits.entering rfl
  | fieldAccess site receiver name ih =>
    have isNode := isPart (Expr.self_mem_nodes _)
    have inner := (ih (Expr.nodes_subset_of_child isPart)).1
    have visits : Visits context base receiver.nodes
        (generateExpr context (.fieldAccess site receiver name)) :=
      visits_found fun field found => visits_receiver needs isNode found
        (inner.finish fun object => (tends_readObjectField field object).visitsSome fun temporary =>
          mem_having (Set.mem_univ temporary) object)
        ((tends_readOwnField grants field).visitsSome Set.mem_univ)
    exact ⟨visits.entering rfl,
      visits_found fun field found => visits_receiver needs isNode found inner (.pure none)⟩
  | step site operator yieldsNew target ih =>
    have inside := Expr.nodes_subset_of_child isPart (by simp [Expr.children] : target ∈ _)
    have visits : Visits context base target.nodes
        (generateExpr context (.step site operator yieldsNew target)) := by
      rw [Expr.nodes_eq_object target]
      refine (ih inside).2.bindWith ((tends_generate grants inside).2 Set.univ) fun object fits =>
        visits_atPlace ?_
      exact (tends_finishStep grants (inside (Expr.self_mem_nodes _)) fits _ _ yieldsNew).visits
        fun temporary => mem_having (Set.mem_univ temporary) object
    exact ⟨visits.entering rfl, .pure none⟩

theorem visits_generateValue (isPart : expr.nodes ⊆ nodes) :
    Visits context base expr.nodes (generateValue context expr) :=
  (visits_generate inFront needs isPart).1.finish fun value => by
    cases value with
    | none => exact visits_fail _ _
    | some value => exact .pure value

/-! ## Simple statements -/

theorem visits_branchUnless {condition : Expr} (isPart : condition.nodes ⊆ nodes) (label : String) :
    Visits context base condition.nodes (branchUnless context condition label) := by
  refine (visits_generateValue inFront needs isPart).finish fun value before readyAt => ?_
  have loads : Tends base (fun _ => True) Set.univ (load condition.position value)
      (fun _ => Set.univ) fun _ => True :=
    tends_load (Set.mem_univ value)
  refine (loads.leadsTo Set.mem_univ readyAt).bind fun register loaded ⟨leads, _⟩ => ?_
  refine (succeeds_emit _).whenever.goOn ?_
  refine (succeeds_release value).whenever.goOn ?_
  refine succeeds_unpinAll.whenever.goesTo ?_
  have toEnd :=
    (leads.emit (show (Instruction.branchIfZero register label).Spares base from trivial)).release
    value
  exact ⟨toEnd.unpin, toEnd.unpinned readyAt, nofun⟩

/-- The value of an expression goes into an instruction. -/
theorem visits_consume {instruction : Register → Instruction}
    (aside : ∀ register, (instruction register).IsAside base fun _ => True)
    (isPart : expr.nodes ⊆ nodes) :
    Visits context base expr.nodes (conclude do
      let value ← generateValue context expr
      let register ← load position value
      emit (instruction register)
      release value) := by
  rw [conclude_bind]
  exact (visits_generateValue inFront needs isPart).finish fun value =>
    (tends_use aside value).visits fun temporary =>
      Set.mem_insert_of_mem value (Set.mem_univ temporary)

theorem visits_generateReceiver (isPart : target.nodes ⊆ nodes) :
    Visits context base (target.object?.elim [] Expr.nodes) (generateReceiver context target) := by
  cases target with
  | fieldAccess site receiver name =>
    have inside : receiver.nodes ⊆ nodes := Expr.nodes_subset_of_child isPart
    have inner : Visits context base receiver.nodes (some <$> generateValue context receiver) := by
      rw [map_eq_pure_bind]
      exact (visits_generateValue inFront needs inside).finish fun _ => .pure _
    exact visits_found fun field found =>
      visits_receiver needs (isPart (Expr.self_mem_nodes _)) found inner (.pure none)
  | literal | identifier | this | super | new | call | unary | binary | step => exact .pure none

theorem visits_generateAssign (targetIsPart : target.nodes ⊆ nodes)
    (valueIsPart : value.nodes ⊆ nodes) :
    Visits context base (target.nodes ++ value.nodes)
      (conclude (generateAssign context position target value)) := by
  have grants : context.Grants base (fun _ => True) nodes := grantsAll inFront
  have assigning : Visits context base
      (target.object?.elim [] Expr.nodes ++ (value.nodes ++ target.ownNodes))
      (conclude (generateAssign context position target value)) := by
    rw [generateAssign, conclude_bind]
    refine (visits_generateReceiver inFront needs targetIsPart).bindWith
      (tends_generateReceiver grants targetIsPart) fun object fits => ?_
    rw [conclude_bind]
    refine (visits_generateValue inFront needs valueIsPart).bind fun value => visits_atPlace ?_
    exact (tends_finishAssign grants (targetIsPart (Expr.self_mem_nodes _)) fits value).visits
      fun temporary => Set.mem_insert_of_mem value (mem_having (Set.mem_univ temporary) object)
  refine assigning.see fun node isNode _ => ?_
  rw [Expr.nodes_eq_object target] at isNode
  simpa [or_comm, or_assoc, or_left_comm] using isNode

/-- The code of a statement enters the operators in it. -/
theorem visits_generateStmt {stmt : Stmt} (isPart : stmt.exprNodes ⊆ nodes) :
    Visits context base stmt.exprNodes (generateStmt context stmt) := by
  have grants : context.Grants base (fun _ => True) nodes := grantsAll inFront
  have settlesTest {stmt : Stmt} {condition : Expr} {position : Position}
      (isPart : stmt.exprNodes ⊆ nodes) (isExpr : condition ∈ stmt.exprs) (label : String) :
      Visits context base condition.nodes
      (settle position (branchUnless context condition label)) := by
    have isOperand := Stmt.nodes_subset_of_expr isPart isExpr
    exact (visits_branchUnless inFront needs isOperand label).conclude.settle
  have nothing (position : Position) : Visits context base [] (settle position (return ())) :=
    (Visits.pure ()).conclude.settle
  induction stmt with
  | block site statements ih =>
    refine (nothing _).andThen fun _ => ?_
    have each (stmt : Stmt) (isStmt : stmt ∈ statements) :
        Visits context base stmt.exprNodes (generateStmt context stmt) :=
      ih stmt isStmt (Stmt.exprNodes_subset_of_child isPart isStmt)
    clear ih isPart
    rw [Stmt.exprNodes]
    induction statements with
    | nil => exact .pure _
    | cons stmt rest ihRest =>
      exact (each stmt List.mem_cons_self).bind fun _ => ihRest fun other isOther =>
        each other (List.mem_cons_of_mem _ isOther)
  | ifElse site condition thenBranch elseBranch thenIh elseIh =>
    have inThen := thenIh (Stmt.exprNodes_subset_of_child isPart)
    cases elseBranch with
    | none =>
      exact visits_freshLabel.andThen fun behind =>
        (settlesTest isPart (by simp [Stmt.exprs]) behind).bind fun _ => inThen.finish fun _ =>
        visits_emit (by exact trivial)
    | some elseBranch =>
      have inElse := elseIh elseBranch rfl (Stmt.exprNodes_subset_of_child isPart)
      rw [Stmt.exprNodes, List.append_assoc]
      exact visits_freshLabel.andThen fun otherwise => visits_freshLabel.andThen fun behind =>
        (settlesTest isPart (by simp [Stmt.exprs]) otherwise).bind fun _ => inThen.bind fun _ =>
        (visits_emit (by exact trivial)).andThen fun _ =>
        (visits_emit (by exact trivial)).andThen fun _ => inElse.finish fun _ =>
        visits_emit (by exact trivial)
  | whileLoop site condition inner ih =>
    have inBody := ih (Stmt.exprNodes_subset_of_child isPart)
    exact visits_freshLabel.andThen fun top => visits_freshLabel.andThen fun behind =>
      (visits_emit (by exact trivial)).andThen fun _ =>
      (settlesTest isPart (by simp [Stmt.exprs]) behind).bind fun _ =>
      (visits_enterLoop _).andThen fun _ => inBody.finish fun _ =>
      (visits_emit (by exact trivial)).andThen fun _ => visits_exitLoop.andThen fun _ =>
      visits_emit (by exact trivial)
  | forLoop site init condition update inner initIh updateIh innerIh =>
    have inInit := visits_part fun stmt isInit => initIh stmt isInit
      (Stmt.exprNodes_subset_of_child isPart (by simp [Stmt.children, Option.mem_def.mp isInit]))
    have inUpdate := visits_part fun stmt isUpdate => updateIh stmt isUpdate
      (Stmt.exprNodes_subset_of_child isPart (by simp [Stmt.children, Option.mem_def.mp isUpdate]))
    have inCondition (label : String) : Visits context base (condition.elim [] Expr.nodes)
        (condition.elim (pure ()) fun expr => branchUnless context expr label) :=
      visits_part fun expr isCondition => visits_branchUnless inFront needs
        (Stmt.nodes_subset_of_expr isPart
          (by simp [Stmt.exprs, Option.mem_def.mp isCondition])) label
    have inBody := innerIh (Stmt.exprNodes_subset_of_child isPart)
    have visits : Visits context base
        (init.elim [] Stmt.exprNodes ++ (condition.elim [] Expr.nodes ++ (inner.exprNodes ++
        update.elim [] Stmt.exprNodes)))
        (generateStmt context (.forLoop site init condition update inner)) := by
      rw [generateStmt_forLoop]
      exact visits_freshLabel.andThen fun top => visits_freshLabel.andThen fun next =>
        visits_freshLabel.andThen fun behind => (nothing _).andThen fun _ => inInit.bind fun _ =>
        (visits_emit (by exact trivial)).andThen fun _ => (inCondition behind).bind fun _ =>
        (visits_enterLoop ⟨behind, next⟩).andThen fun _ => inBody.bind fun _ =>
        (visits_emit (by exact trivial)).andThen fun _ => inUpdate.finish fun _ =>
        (visits_emit (by exact trivial)).andThen fun _ => visits_exitLoop.andThen fun _ =>
        visits_emit (by exact trivial)
    refine visits.see fun node isNode _ => ?_
    rw [Stmt.exprNodes_forLoop] at isNode
    cases init <;> cases condition <;> cases update <;>
      simpa [Expr.nodesOption, or_assoc, or_comm, or_left_comm] using isNode
  | ret site value =>
    cases value with
    | none =>
      have returns : Tends base (fun _ => True) Set.univ (emit .ret) (fun _ => Set.univ)
          fun _ => True :=
        tends_emit ⟨rfl, rfl, trivial, by rintro _ _ ⟨⟩⟩
      exact (returns.visits Set.mem_univ).settle
    | some value =>
      refine (visits_consume inFront needs (fun _ => ?_) isPart).settle
      exact ⟨rfl, rfl, trivial, by rintro _ _ ⟨⟩⟩
  | evaluate site expr =>
    refine Visits.settle ?_
    rw [generateEvaluate, conclude_bind]
    refine (visits_generate inFront needs isPart).1.finish fun value => ?_
    cases value with
    | none => exact (Visits.pure ()).conclude
    | some value =>
      exact Tends.visits (tends_release rfl) fun temporary =>
        Set.mem_insert_of_mem value (Set.mem_univ temporary)
  | assign site target value =>
    exact (visits_generateAssign inFront needs
      (List.Subset.trans (List.subset_append_left _ _) isPart)
      (List.Subset.trans (List.subset_append_right _ _) isPart)).settle
  | declare site declared => exact ((tends_clearVariables grants _).visits Set.mem_univ).settle
  | print site value =>
    refine Visits.settle ?_
    rw [generatePrint, conclude_bind]
    refine visits_found fun kind _ => visits_consume inFront needs (fun _ => ?_) isPart
    exact ⟨rfl, rfl, trivial, by rintro _ _ ⟨⟩⟩
  | breakLoop site => exact visits_leaveLoop _ _
  | continueLoop site => exact visits_leaveLoop _ _
  | skip site => exact nothing _

/-- The code of a body enters the operators in it. -/
theorem visits_generateBody {body : Stmt} (isPart : body.exprNodes ⊆ nodes) :
    Visits context base body.exprNodes (generateBody context body) := by
  refine (visits_generateStmt inFront needs isPart).finish fun _ => visits_get.andThen fun _ => ?_
  split
  · exact visits_emit (by exact trivial)
  · exact .pure ()

end

end Generating

end Decaf
