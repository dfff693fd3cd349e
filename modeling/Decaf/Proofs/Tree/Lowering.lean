import Decaf.Tree.Decode

/-!
# Lowering is recursion

Taking a tree apart with stacks gives what a recursion over the tree gives. A task for a node puts
tasks for its parts in front of all others, and they leave one node each on the stacks, so the task
that finishes the node finds just its children on top. Hence no node is ever finished without its
children.
-/

namespace Decaf

namespace Decode

/-! ## Decoding by recursion -/

/-- Decodes what may be absent. -/
def optional {Value : Type} : Option (Decode Value) → Decode (Option Value)
  | some decode => some <$> decode
  | none => pure none

mutual

/-- Decodes an expression; `parent` is where the node around it starts. -/
def exprNode (parent : Position) : Json → Decode Expr
  | .object members => do
    let (header, position) ← shaped (Header.exprHeader members)
    match header with
    | .binary symbol =>
      let left ← required position "BinaryOp" "lhs" (exprMember "lhs" position members)
      let right ← required position "BinaryOp" "rhs" (exprMember "rhs" position members)
      let operator ← knownOperator position "BinaryOp" symbol (BinaryOperator.ofSymbol? symbol)
      let leftExpr ← left
      let rightExpr ← right
      expr position fun site => .binary site operator leftExpr rightExpr
    | .unary symbol =>
      let operand ← required position "UnaryOp" "operand" (exprMember "operand" position members)
      let operator ← knownOperator position "UnaryOp" symbol (UnaryOperator.ofSymbol? symbol)
      let operandExpr ← operand
      expr position fun site => .unary site operator operandExpr
    | .literal type value =>
      let constant ← literal position type value
      expr position fun site => .literal site constant
    | .identifier name => expr position fun site => .identifier site name
    | .this => expr position .this
    | .super => expr position .super
    | .new className => expr position fun site => .new site className
    | .call method =>
      checkArray position "Call" "args" members
      let receiver ← optional (exprMember "receiver" position members)
      let arguments ← exprArray "args" position members
      expr position fun site => .call site receiver method arguments
    | .fieldAccess field =>
      let receiver ← required position "FieldAccess" "receiver"
        (exprMember "receiver" position members)
      let receiverExpr ← receiver
      expr position fun site => .fieldAccess site receiverExpr field
    | .step symbol yieldsNew =>
      let target ← required position "IncDec" "target" (exprMember "target" position members)
      let operator ← knownOperator position "IncDec" symbol (StepOperator.ofSymbol? symbol)
      let targetExpr ← target
      expr position fun site => .step site operator yieldsNew targetExpr
  | found => fail parent "Expr" "kind" (.notANode found)
termination_by structural value => value

/-- How to decode the expression in a member, if there is one. -/
def exprMember (name : String) (parent : Position) : List (String × Json) → Option (Decode Expr)
  | [] => none
  | (_, .null) :: rest => exprMember name parent rest
  | (otherName, value) :: rest =>
    if otherName = name then some (exprNode parent value) else exprMember name parent rest
termination_by structural members => members

/-- Decodes the expressions in an array member. -/
def exprArray (name : String) (parent : Position) : List (String × Json) → Decode (List Expr)
  | [] => pure []
  | (otherName, .array elements) :: rest =>
    if otherName = name then exprElements parent elements else exprArray name parent rest
  | (_, _) :: rest => exprArray name parent rest
termination_by structural members => members

/-- Decodes expressions, one behind the other. -/
def exprElements (parent : Position) : List Json → Decode (List Expr)
  | [] => pure []
  | value :: rest => do
    let first ← exprNode parent value
    let others ← exprElements parent rest
    return first :: others
termination_by structural elements => elements

end

mutual

/-- Decodes a statement; `parent` is where the node around it starts. -/
def stmtNode (parent : Position) : Json → Decode Stmt
  | .object members => do
    let (header, position) ← shaped (Header.stmtHeader members)
    match header with
    | .declare written =>
      let declared ← written.mapM (variableDecl "VarDecl")
      stmt position fun site => .declare site declared
    | .plain .block =>
      checkArray position "Block" "stmts" members
      let statements ← stmtArray "stmts" position members
      stmt position fun site => .block site statements
    | .plain .ifElse =>
      let condition ← required position "If" "cond" (exprMember "cond" position members)
      let thenBranch ← required position "If" "then" (stmtMember "then" position members)
      let conditionExpr ← condition
      let thenStmt ← thenBranch
      let elseStmt ← optional (stmtMember "else" position members)
      stmt position fun site => .ifElse site conditionExpr thenStmt elseStmt
    | .plain .whileLoop =>
      let condition ← required position "While" "cond" (exprMember "cond" position members)
      let body ← required position "While" "body" (stmtMember "body" position members)
      let conditionExpr ← condition
      let bodyStmt ← body
      stmt position fun site => .whileLoop site conditionExpr bodyStmt
    | .plain .forLoop =>
      let body ← required position "For" "body" (stmtMember "body" position members)
      let initStmt ← optional (stmtMember "init" position members)
      let conditionExpr ← optional (exprMember "cond" position members)
      let updateStmt ← optional (stmtMember "update" position members)
      let bodyStmt ← body
      stmt position fun site => .forLoop site initStmt conditionExpr updateStmt bodyStmt
    | .plain .ret =>
      let value ← optional (exprMember "value" position members)
      stmt position fun site => .ret site value
    | .plain .evaluate =>
      let value ← required position "ExprStmt" "expr" (exprMember "expr" position members)
      let valueExpr ← value
      stmt position fun site => .evaluate site valueExpr
    | .plain .assign =>
      let target ← required position "Assign" "target" (exprMember "target" position members)
      let value ← required position "Assign" "value" (exprMember "value" position members)
      let targetExpr ← target
      let valueExpr ← value
      stmt position fun site => .assign site targetExpr valueExpr
    | .plain .print =>
      let value ← required position "Print" "value" (exprMember "value" position members)
      let valueExpr ← value
      stmt position fun site => .print site valueExpr
    | .plain .breakLoop => stmt position .breakLoop
    | .plain .continueLoop => stmt position .continueLoop
    | .plain .declare | .plain .skip => stmt position .skip
  | found => fail parent "Stmt" "kind" (.notANode found)
termination_by structural value => value

/-- How to decode the statement in a member, if there is one. -/
def stmtMember (name : String) (parent : Position) : List (String × Json) → Option (Decode Stmt)
  | [] => none
  | (_, .null) :: rest => stmtMember name parent rest
  | (otherName, value) :: rest =>
    if otherName = name then some (stmtNode parent value) else stmtMember name parent rest
termination_by structural members => members

/-- Decodes the statements in an array member. -/
def stmtArray (name : String) (parent : Position) : List (String × Json) → Decode (List Stmt)
  | [] => pure []
  | (otherName, .array elements) :: rest =>
    if otherName = name then stmtElements parent elements else stmtArray name parent rest
  | (_, _) :: rest => stmtArray name parent rest
termination_by structural members => members

/-- Decodes statements, one behind the other. -/
def stmtElements (parent : Position) : List Json → Decode (List Stmt)
  | [] => pure []
  | value :: rest => do
    let first ← stmtNode parent value
    let others ← stmtElements parent rest
    return first :: others
termination_by structural elements => elements

end

end Decode

namespace Json

/-- What holds of a value if it holds of its elements or members holds of every value. -/
@[elab_as_elim]
theorem induction {motive : Json → Prop} (null : motive .null)
    (boolean : ∀ value, motive (.boolean value)) (number : ∀ value, motive (.number value))
    (string : ∀ value, motive (.string value))
    (array : ∀ elements, (∀ element ∈ elements, motive element) → motive (.array elements))
    (object : ∀ members, (∀ member ∈ members, motive member.2) → motive (.object members))
    (value : Json) : motive value :=
  @Json.rec motive (fun elements => ∀ element ∈ elements, motive element)
    (fun members => ∀ member ∈ members, motive member.2) (fun member => motive member.2)
    null boolean number string array object (by simp) (by simp +contextual)
    (by simp) (by simp +contextual) (fun _ _ holds => holds) value

end Json

namespace Lowering

open Decode

variable {members : List (String × Json)} {name : String} {position : Position}
variable {value : Json}

/-! ## Child nodes -/

theorem mem_of_child? (found : child? name members = some value) : (name, value) ∈ members := by
  induction members with
  | nil => cases found
  | cons member rest ih =>
    rcases member with ⟨otherName, other⟩
    unfold child? at found
    split at found
    · cases found
    · simp_all
    · split at found <;> simp_all

theorem mem_children (isChild : value ∈ children name members) :
    ∃ elements, (name, .array elements) ∈ members ∧ value ∈ elements := by
  induction members with
  | nil => cases isChild
  | cons member rest ih =>
    have later (inRest : value ∈ children name rest) :
        ∃ elements, (name, .array elements) ∈ member :: rest ∧ value ∈ elements := by
      rcases ih inRest with ⟨elements, isThere, isElement⟩
      exact ⟨elements, List.mem_cons_of_mem _ isThere, isElement⟩
    rcases member with ⟨otherName, other⟩
    cases other with
    | array elements =>
      simp only [children] at isChild
      split at isChild
      next same => exact ⟨elements, by rw [same]; exact List.mem_cons_self, isChild⟩
      next => exact later isChild
    | _ => exact later isChild

theorem exprMember_eq :
    exprMember name position members = (child? name members).map (exprNode position) := by
  induction members with
  | nil => rfl
  | cons member rest ih =>
    rcases member with ⟨otherName, value⟩
    cases value <;> simp [exprMember, child?, ih] <;> split <;> rfl

theorem stmtMember_eq :
    stmtMember name position members = (child? name members).map (stmtNode position) := by
  induction members with
  | nil => rfl
  | cons member rest ih =>
    rcases member with ⟨otherName, value⟩
    cases value <;> simp [stmtMember, child?, ih] <;> split <;> rfl

theorem exprArray_eq :
    exprArray name position members = exprElements position (children name members) := by
  induction members with
  | nil => rfl
  | cons member rest ih =>
    rcases member with ⟨otherName, value⟩
    cases value <;> simp [exprArray, children, ih]
    split <;> rfl

theorem stmtArray_eq :
    stmtArray name position members = stmtElements position (children name members) := by
  induction members with
  | nil => rfl
  | cons member rest ih =>
    rcases member with ⟨otherName, value⟩
    cases value <;> simp [stmtArray, children, ih]
    split <;> rfl

/-- What holds of a value if it holds of the child nodes in its members holds of every value. -/
@[elab_as_elim]
theorem induction {motive : Json → Prop}
    (other : ∀ value, (∀ members, value ≠ .object members) → motive value)
    (node : ∀ members, (∀ name value, child? name members = some value → motive value) →
      (∀ name, ∀ value ∈ children name members, motive value) → motive (.object members))
    (value : Json) : motive value := by
  -- the elements of an array member are two steps below the node
  suffices motive value ∧ ∀ elements, value = .array elements → ∀ element ∈ elements,
    motive element from this.1
  induction value using Json.induction with
  | null | boolean | number | string => exact ⟨other _ (by simp), by simp⟩
  | array elements ih =>
    refine ⟨other _ (by simp), fun others same element isElement => ?_⟩
    cases same
    exact (ih element isElement).1
  | object members ih =>
    refine ⟨node members (fun name value found => (ih _ (mem_of_child? found)).1) ?_, by simp⟩
    intro name value isChild
    rcases mem_children isChild with ⟨elements, isThere, isElement⟩
    exact (ih _ isThere).2 elements rfl value isElement

/-! ## Running tasks -/

namespace Results

/-- With one more expression on top. -/
def withExpr (results : Results) (made : Expr) : Results :=
  { results with exprs := made :: results.exprs }

/-- With one more statement on top. -/
def withStmt (results : Results) (made : Stmt) : Results :=
  { results with stmts := made :: results.stmts }

/-- With more expressions on top, the last one made uppermost. -/
def withExprs (results : Results) (made : List Expr) : Results :=
  { results with exprs := made.reverse ++ results.exprs }

/-- With more statements on top, the last one made uppermost. -/
def withStmts (results : Results) (made : List Stmt) : Results :=
  { results with stmts := made.reverse ++ results.stmts }

end Results

/-- Some tasks do what a decoder does, and what it yields ends up on the stacks. -/
def Does {Value : Type} (tasks : List Task) (decode : Decode Value)
    (leave : Results → Value → Results) : Prop :=
  ∀ method rest results, run method (tasks ++ rest) results =
    decode >>= fun value => run method rest (leave results value)

/-- The task of an expression does what decoding it does. -/
def DoesExpr (value : Json) : Prop :=
  ∀ position, Does [.expr value position] (exprNode position value) Results.withExpr

/-- The task of a statement does what decoding it does. -/
def DoesStmt (value : Json) : Prop :=
  ∀ position, Does [.stmt value position] (stmtNode position value) Results.withStmt

section

variable {method : Position} {results : Results} {rest : List Task}
variable {pending : Pending} {left : Results} {content : Option Json} {Node : Type}
  {elements : List Json} {members : List (String × Json)} {value : Json}

theorem run_nil : run method [] results = (pure results : Decode Results) := by
  funext program
  rw [run]
  rfl

theorem run_cons (task : Task) : run method (task :: rest) results =
    perform method task results >>= fun opened => run method (opened.1 ++ rest) opened.2 := by
  funext program
  rw [run]
  change _ = (perform method task results).run program >>= _
  cases (perform method task results).run program <;> rfl

theorem run_finishExpr {make : Site ExprId → Expr}
    (isFinished : finish position pending results = some (left.addExpr position make)) :
    run method (.finish pending position :: rest) results =
      expr position make >>= fun made => run method rest (left.withExpr made) := by
  simp [run_cons, perform, isFinished, Results.addExpr, Results.withExpr]

theorem run_finishStmt {make : Site StmtId → Stmt}
    (isFinished : finish position pending results = some (left.addStmt position make)) :
    run method (.finish pending position :: rest) results =
      stmt position make >>= fun made => run method rest (left.withStmt made) := by
  simp [run_cons, perform, isFinished, Results.addStmt, Results.withStmt]

theorem required_congr {Value Other Next : Type} {node member : String} {make : Json → Value}
    {makeOther : Json → Other} {next : Value → Decode Next} {nextOther : Other → Decode Next}
    (same : ∀ value, content = some value → next (make value) = nextOther (makeOther value)) :
    required position node member (content.map make) >>= next =
      required position node member (content.map makeOther) >>= nextOther := by
  cases content with
  | none => rfl
  | some value => exact (pure_bind _ _).trans ((same value rfl).trans (pure_bind _ _).symm)

theorem popMany_reverse (nodes stack : List Node) :
    popMany nodes.length (nodes.reverse ++ stack) = some (nodes, stack) := by
  simp [popMany]

theorem popIf_toList (node : Option Node) (stack : List Node) :
    popIf node.isSome (node.toList ++ stack) = some (node, stack) := by
  cases node <;> rfl

theorem run_exprs (does : ∀ element ∈ elements, DoesExpr element)
    {next : List Expr → Decode Results}
    (later : ∀ made, made.length = elements.length →
      run method rest (results.withExprs made) = next made) :
    run method (elements.map (.expr · position) ++ rest) results =
      exprElements position elements >>= next := by
  induction elements generalizing results next with
  | nil => exact (later [] rfl).trans (pure_bind _ _).symm
  | cons element others ih =>
    refine (does element List.mem_cons_self position method _ results).trans ?_
    rw [exprElements, bind_assoc]
    refine bind_congr fun first => ?_
    rw [bind_assoc]
    refine ih (fun other isOther => does other (List.mem_cons_of_mem _ isOther))
      fun made lengthEq => ?_
    rw [pure_bind, ← later (first :: made) (congrArg (· + 1) lengthEq)]
    simp [Results.withExprs, Results.withExpr]

theorem run_stmts (does : ∀ element ∈ elements, DoesStmt element)
    {next : List Stmt → Decode Results}
    (later : ∀ made, made.length = elements.length →
      run method rest (results.withStmts made) = next made) :
    run method (elements.map (.stmt · position) ++ rest) results =
      stmtElements position elements >>= next := by
  induction elements generalizing results next with
  | nil => exact (later [] rfl).trans (pure_bind _ _).symm
  | cons element others ih =>
    refine (does element List.mem_cons_self position method _ results).trans ?_
    rw [stmtElements, bind_assoc]
    refine bind_congr fun first => ?_
    rw [bind_assoc]
    refine ih (fun other isOther => does other (List.mem_cons_of_mem _ isOther))
      fun made lengthEq => ?_
    rw [pure_bind, ← later (first :: made) (congrArg (· + 1) lengthEq)]
    simp [Results.withStmts, Results.withStmt]

theorem run_optionalExpr (does : ∀ value, content = some value → DoesExpr value)
    {next : Option Expr → Decode Results}
    (later : ∀ made, made.isSome = content.isSome →
      run method rest { results with exprs := made.toList ++ results.exprs } = next made) :
    run method ((content.map (.expr · position)).toList ++ rest) results =
      Decode.optional (content.map (exprNode position)) >>= next := by
  cases content with
  | none => exact (later none rfl).trans (pure_bind _ _).symm
  | some value =>
    refine (does value rfl position method rest results).trans ?_
    simp only [Option.map_some, Decode.optional, map_eq_pure_bind, bind_assoc, pure_bind]
    exact bind_congr fun made => later (some made) rfl

theorem run_optionalStmt (does : ∀ value, content = some value → DoesStmt value)
    {next : Option Stmt → Decode Results}
    (later : ∀ made, made.isSome = content.isSome →
      run method rest { results with stmts := made.toList ++ results.stmts } = next made) :
    run method ((content.map (.stmt · position)).toList ++ rest) results =
      Decode.optional (content.map (stmtNode position)) >>= next := by
  cases content with
  | none => exact (later none rfl).trans (pure_bind _ _).symm
  | some value =>
    refine (does value rfl position method rest results).trans ?_
    simp only [Option.map_some, Decode.optional, map_eq_pure_bind, bind_assoc, pure_bind]
    exact bind_congr fun made => later (some made) rfl

/-- An expression is opened, its parts are lowered, and then they are put together. -/
theorem doesExpr_object (child : ∀ name value, child? name members = some value → DoesExpr value)
    (array : ∀ name, ∀ value ∈ children name members, DoesExpr value) :
    DoesExpr (.object members) := by
  intro parent method rest results
  rw [List.singleton_append, run_cons, perform, openExpr, exprNode, bind_assoc, bind_assoc]
  refine bind_congr fun pair => ?_
  rcases pair with ⟨header, position⟩
  cases header with
  | binary symbol =>
    simp only [exprMember_eq, bind_assoc]
    refine required_congr fun left leftFound => required_congr fun right rightFound => ?_
    refine bind_congr fun operator => ?_
    refine (child _ _ leftFound position method _ results).trans (bind_congr fun leftExpr => ?_)
    refine (child _ _ rightFound position method _ _).trans (bind_congr fun rightExpr => ?_)
    exact run_finishExpr rfl
  | unary symbol =>
    simp only [exprMember_eq, bind_assoc]
    refine required_congr fun operand found => ?_
    refine bind_congr fun operator => ?_
    refine (child _ _ found position method _ results).trans (bind_congr fun operandExpr => ?_)
    exact run_finishExpr rfl
  | literal type value => simp [Results.addExpr, Results.withExpr]
  | identifier name => simp [Results.addExpr, Results.withExpr]
  | this => simp [Results.addExpr, Results.withExpr]
  | super => simp [Results.addExpr, Results.withExpr]
  | new className => simp [Results.addExpr, Results.withExpr]
  | call name =>
    simp only [exprMember_eq, exprArray_eq, bind_assoc, pure_bind]
    refine bind_congr fun _ => ?_
    rw [List.append_assoc, List.append_assoc]
    refine run_optionalExpr (child "receiver") fun receiver receiverEq => ?_
    refine run_exprs (array "args") fun arguments argumentsEq => ?_
    rw [Option.isSome_map, ← receiverEq, ← argumentsEq]
    refine run_finishExpr ?_
    simp [finish, Results.withExprs, popMany_reverse, popIf_toList]
  | fieldAccess field =>
    simp only [exprMember_eq, bind_assoc]
    refine required_congr fun receiver found => ?_
    refine (child _ _ found position method _ results).trans (bind_congr fun receiverExpr => ?_)
    exact run_finishExpr rfl
  | step symbol yieldsNew =>
    simp only [exprMember_eq, bind_assoc]
    refine required_congr fun target found => ?_
    refine bind_congr fun operator => ?_
    refine (child _ _ found position method _ results).trans (bind_congr fun targetExpr => ?_)
    exact run_finishExpr rfl

/-- A statement is opened, its parts are lowered, and then they are put together. -/
theorem doesStmt_object (child : ∀ name value, child? name members = some value → DoesStmt value)
    (array : ∀ name, ∀ value ∈ children name members, DoesStmt value)
    (operand : ∀ name value, child? name members = some value → DoesExpr value) :
    DoesStmt (.object members) := by
  intro parent method rest results
  rw [List.singleton_append, run_cons, perform, openStmt, stmtNode, bind_assoc, bind_assoc]
  refine bind_congr fun pair => ?_
  rcases pair with ⟨header, position⟩
  cases header with
  | declare written => simp [Results.addStmt, Results.withStmt]
  | plain kind =>
    cases kind with
    | block =>
      simp only [stmtArray_eq, bind_assoc, pure_bind]
      refine bind_congr fun _ => ?_
      rw [List.append_assoc]
      refine run_stmts (array "stmts") fun statements statementsEq => ?_
      rw [← statementsEq]
      refine run_finishStmt ?_
      simp [finish, Results.withStmts, popMany_reverse]
    | ifElse =>
      simp only [stmtMember_eq, exprMember_eq, bind_assoc]
      refine required_congr fun condition conditionFound =>
        required_congr fun thenBranch thenFound => ?_
      refine (operand _ _ conditionFound position method _ results).trans
        (bind_congr fun conditionExpr => ?_)
      refine (child _ _ thenFound position method _ _).trans (bind_congr fun thenStmt => ?_)
      change run method ((_ ++ [_]) ++ rest) _ = _
      rw [List.append_assoc]
      refine run_optionalStmt (child "else") fun elseStmt elseEq => ?_
      rw [Option.isSome_map, ← elseEq]
      refine run_finishStmt ?_
      simp [finish, Results.withStmt, Results.withExpr, popIf_toList, pop]
    | whileLoop =>
      simp only [stmtMember_eq, exprMember_eq, bind_assoc]
      refine required_congr fun condition conditionFound => required_congr fun body bodyFound => ?_
      refine (operand _ _ conditionFound position method _ results).trans
        (bind_congr fun conditionExpr => ?_)
      refine (child _ _ bodyFound position method _ _).trans (bind_congr fun bodyStmt => ?_)
      exact run_finishStmt rfl
    | forLoop =>
      simp only [stmtMember_eq, exprMember_eq, bind_assoc]
      refine required_congr fun body bodyFound => ?_
      rw [pure_bind]
      simp only [List.append_assoc]
      refine run_optionalStmt (child "init") fun initStmt initEq => ?_
      refine run_optionalExpr (operand "cond") fun condition conditionEq => ?_
      refine run_optionalStmt (child "update") fun updateStmt updateEq => ?_
      refine (child _ _ bodyFound position method _ _).trans (bind_congr fun bodyStmt => ?_)
      rw [Option.isSome_map, Option.isSome_map,
        Option.isSome_map, ← initEq, ← conditionEq, ← updateEq]
      refine run_finishStmt ?_
      simp [finish, Results.withStmt, popIf_toList, pop]
    | ret =>
      simp only [exprMember_eq, bind_assoc, pure_bind]
      rw [List.append_assoc]
      refine run_optionalExpr (operand "value") fun value valueEq => ?_
      rw [Option.isSome_map, ← valueEq]
      refine run_finishStmt ?_
      simp [finish, popIf_toList]
    | evaluate =>
      simp only [exprMember_eq, bind_assoc]
      refine required_congr fun value found => ?_
      refine (operand _ _ found position method _ results).trans (bind_congr fun valueExpr => ?_)
      exact run_finishStmt rfl
    | assign =>
      simp only [exprMember_eq, bind_assoc]
      refine required_congr fun target targetFound => required_congr fun value valueFound => ?_
      refine (operand _ _ targetFound position method _ results).trans
        (bind_congr fun targetExpr => ?_)
      refine (operand _ _ valueFound position method _ _).trans (bind_congr fun valueExpr => ?_)
      exact run_finishStmt rfl
    | print =>
      simp only [exprMember_eq, bind_assoc]
      refine required_congr fun value found => ?_
      refine (operand _ _ found position method _ results).trans (bind_congr fun valueExpr => ?_)
      exact run_finishStmt rfl
    | declare | breakLoop | continueLoop | skip => simp [Results.addStmt, Results.withStmt]

theorem doesExpr_other (noNode : ∀ members, value ≠ .object members) : DoesExpr value := by
  intro parent method rest results
  rw [List.singleton_append, run_cons]
  cases value with
  | object members => exact absurd rfl (noNode members)
  | _ => rfl

theorem doesStmt_other (noNode : ∀ members, value ≠ .object members) : DoesStmt value := by
  intro parent method rest results
  rw [List.singleton_append, run_cons]
  cases value with
  | object members => exact absurd rfl (noNode members)
  | _ => rfl

/-- A task for a node does what the recursion does, whatever value stands in the node's place. -/
theorem does (value : Json) : DoesExpr value ∧ DoesStmt value := by
  induction value using induction with
  | other value noNode => exact ⟨doesExpr_other noNode, doesStmt_other noNode⟩
  | node members child array =>
    refine ⟨doesExpr_object ?_ ?_, doesStmt_object ?_ ?_ ?_⟩
    · exact fun name value found => (child name value found).1
    · exact fun name value isChild => (array name value isChild).1
    · exact fun name value found => (child name value found).2
    · exact fun name value isChild => (array name value isChild).2
    · exact fun name value found => (child name value found).1

end

/-- Lowering a body with stacks is decoding it by recursion. -/
theorem lower_eq : lower = stmtNode := by
  funext method body
  have does : run method [.stmt body method] {} = _ := (does body).2 method method [] {}
  rw [lower, does, bind_assoc]
  refine (bind_congr fun made => ?_).trans (bind_pure _)
  rw [run_nil, pure_bind]
  rfl

end Lowering

theorem Program.ofJson_eq (value : Json) : ofJson value = Decode.program Decode.stmtNode value := by
  rw [ofJson, Lowering.lower_eq]

end Decaf
