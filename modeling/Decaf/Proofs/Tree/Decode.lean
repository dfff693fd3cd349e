import Mathlib.Data.List.Range
import Decaf.Proofs.Tree.Nodes
import Decaf.Proofs.Tree.Lowering

/-!
# Decoded programs are well numbered

Decoding numbers a node when its children are done, so what a part of the input adds to the nodes on
record is exactly the nodes of the tree that it yields, under consecutive numbers.
-/

namespace Decaf

/-- Nodes are numbered in order, the first of them with `first`. -/
def Numbered {Node : Type} (number : Node → Nat) (first : Nat) (nodes : List Node) : Prop :=
  nodes.map number = List.range' first nodes.length

namespace Numbered

variable {Node : Type} {number : Node → Nat} {first : Nat}

theorem append {front back : List Node} (frontNumbered : Numbered number first front)
    (backNumbered : Numbered number (first + front.length) back) :
    Numbered number first (front ++ back) := by
  simp only [Numbered, List.map_append, List.length_append, ← List.range'_append_1] at *
  rw [frontNumbered, backNumbered]

theorem nodup {nodes : List Node} (numbered : Numbered number first nodes) :
    (nodes.map number).Nodup := by
  rw [numbered]
  exact List.nodup_range'

theorem getElem?_eq {nodes : List Node} (numbered : Numbered number 0 nodes) {node : Node}
    (nodeMem : node ∈ nodes) : nodes[number node]? = some node := by
  obtain ⟨index, inRange, nodeEq⟩ := List.getElem_of_mem nodeMem
  have numberEq : number node = index := by
    have entry : (nodes.map number)[index]? = (List.range' 0 nodes.length)[index]? := by
      rw [numbered]
    simpa [inRange, nodeEq] using entry
  simp [numberEq, inRange, nodeEq]

end Numbered

namespace Program

/-- Nodes were made: they stand behind those on record, numbered on. -/
structure Grows (before after : Program) (exprs : List Expr) (stmts : List Stmt) : Prop where
  exprs_eq : after.exprs.toList = before.exprs.toList ++ exprs
  stmts_eq : after.stmts.toList = before.stmts.toList ++ stmts
  expr_numbers : Numbered (fun node => node.id.index) before.exprs.size exprs
  stmt_numbers : Numbered (fun node => node.id.index) before.stmts.size stmts

namespace Grows

theorem refl (program : Program) : Grows program program [] [] := by
  constructor <;> simp [Numbered]

theorem trans {first second third : Program} {exprs moreExprs : List Expr}
    {stmts moreStmts : List Stmt} (early : Grows first second exprs stmts)
    (late : Grows second third moreExprs moreStmts) :
    Grows first third (exprs ++ moreExprs) (stmts ++ moreStmts) := by
  have exprSize : second.exprs.size = first.exprs.size + exprs.length := by
    simp [← Array.length_toList, early.exprs_eq]
  have stmtSize : second.stmts.size = first.stmts.size + stmts.length := by
    simp [← Array.length_toList, early.stmts_eq]
  constructor
  · simp [late.exprs_eq, early.exprs_eq]
  · simp [late.stmts_eq, early.stmts_eq]
  · exact early.expr_numbers.append (exprSize ▸ late.expr_numbers)
  · exact early.stmt_numbers.append (stmtSize ▸ late.stmt_numbers)

theorem addExpr (program : Program) (position : Position) {make : Site ExprId → Expr}
    (numbered : ∀ site, (make site).id = site.id) :
    Grows program (program.addExpr position make).2 [(program.addExpr position make).1] [] := by
  constructor <;> simp [Program.addExpr, Numbered, numbered]

theorem addStmt (program : Program) (position : Position) {make : Site StmtId → Stmt}
    (numbered : ∀ site, (make site).id = site.id) :
    Grows program (program.addStmt position make).2 [] [(program.addStmt position make).1] := by
  constructor <;> simp [Program.addStmt, Numbered, numbered]

end Grows

end Program

namespace Decode

variable {Value Next : Type}
variable {before after : Program}

theorem run_bind_eq_ok {first : Decode Value} {next : Value → Decode Next}
    {result : Next} (decoded : (first >>= next).run before = .ok (result, after)) :
    ∃ value between, first.run before = .ok (value, between) ∧
      (next value).run between = .ok (result, after) := by
  rw [StateT.run_bind] at decoded
  cases firstEq : first.run before with
  | error fault => simp [firstEq, Bind.bind, Except.bind] at decoded
  | ok pair => exact ⟨pair.1, pair.2, rfl, by simpa [firstEq, Bind.bind, Except.bind] using decoded⟩

theorem run_pure_eq_ok {value result : Value}
    (decoded : (pure result : Decode Value).run before = .ok (value, after)) :
    value = result ∧ after = before := by
  change Except.ok (result, before) = .ok (value, after) at decoded
  simpa [eq_comm] using decoded

/-- Decoding that goes on where the given nodes are made ends with those of its result. -/
def Completes (exprs : List Expr) (stmts : List Stmt) (decode : Decode Value)
    (allExprs : Value → List Expr) (allStmts : Value → List Stmt) : Prop :=
  ∀ start before value after, Program.Grows start before exprs stmts →
    decode.run before = .ok (value, after) → start.Grows after (allExprs value) (allStmts value)

/-- A step makes no nodes. -/
def Keeps (decode : Decode Value) : Prop :=
  ∀ before value after, decode.run before = .ok (value, after) → after = before

section

variable {exprs : List Expr} {stmts : List Stmt} {allExprs : Next → List Expr}
  {allStmts : Next → List Stmt}

theorem Completes.bind {first : Decode Value} {next : Value → Decode Next}
    {firstExprs : Value → List Expr} {firstStmts : Value → List Stmt}
    (firstCompletes : Completes [] [] first firstExprs firstStmts)
    (rest : ∀ value, Completes (exprs ++ firstExprs value) (stmts ++ firstStmts value) (next value)
      allExprs allStmts) :
    Completes exprs stmts (first >>= next) allExprs allStmts := by
  intro start before result after grown decoded
  obtain ⟨value, between, firstDecoded, nextDecoded⟩ := run_bind_eq_ok decoded
  exact rest value _ _ _ _ (grown.trans (firstCompletes _ _ _ _ (.refl before) firstDecoded))
    nextDecoded

theorem Keeps.bind {first : Decode Value} {next : Value → Decode Next} (keeps : Keeps first)
    (rest : ∀ value, Completes exprs stmts (next value) allExprs allStmts) :
    Completes exprs stmts (first >>= next) allExprs allStmts := by
  intro start before result after grown decoded
  obtain ⟨value, between, firstDecoded, nextDecoded⟩ := run_bind_eq_ok decoded
  rw [keeps _ _ _ firstDecoded] at nextDecoded
  exact rest value _ _ _ _ grown nextDecoded

theorem completes_required {content : Option Value} {next : Value → Decode Next}
    (position : Position) (node member : String)
    (rest : ∀ value, content = some value → Completes exprs stmts (next value) allExprs allStmts) :
    Completes exprs stmts (required position node member content >>= next) allExprs allStmts := by
  intro start before result after grown decoded
  obtain ⟨value, between, firstDecoded, nextDecoded⟩ := run_bind_eq_ok decoded
  cases content with
  | none => cases firstDecoded
  | some value =>
    obtain ⟨rfl, rfl⟩ := run_pure_eq_ok firstDecoded
    exact rest value rfl _ _ _ _ grown nextDecoded

theorem completes_pure {result : Next} (exprsEq : allExprs result = exprs)
    (stmtsEq : allStmts result = stmts) :
    Completes exprs stmts (pure result) allExprs allStmts := by
  intro start before value after grown decoded
  obtain ⟨rfl, rfl⟩ := run_pure_eq_ok decoded
  exact exprsEq ▸ stmtsEq ▸ grown

theorem completes_fail (position : Position) (node member : String) (fault : MemberFault) :
    Completes exprs stmts (fail position node member fault) allExprs allStmts := by
  intro start before value after grown decoded
  cases decoded

theorem completes_map {first : Decode Value} {make : Value → Next} {firstExprs : Value → List Expr}
    {firstStmts : Value → List Stmt}
    (firstCompletes : Completes exprs stmts first firstExprs firstStmts)
    (exprsEq : ∀ value, allExprs (make value) = firstExprs value)
    (stmtsEq : ∀ value, allStmts (make value) = firstStmts value) :
    Completes exprs stmts (make <$> first) allExprs allStmts := by
  intro start before result after grown decoded
  rw [← bind_pure_comp] at decoded
  obtain ⟨value, between, firstDecoded, lastDecoded⟩ := run_bind_eq_ok decoded
  obtain ⟨rfl, rfl⟩ := run_pure_eq_ok lastDecoded
  rw [exprsEq, stmtsEq]
  exact firstCompletes _ _ _ _ grown firstDecoded

theorem completes_optional {content : Option (Decode Value)} {valueExprs : Value → List Expr}
    {valueStmts : Value → List Stmt}
    (completes : ∀ decode, content = some decode → Completes [] [] decode valueExprs valueStmts) :
    Completes [] [] (optional content) (fun value => (value.map valueExprs).getD [])
      fun value => (value.map valueStmts).getD [] := by
  cases content with
  | none => exact completes_pure rfl rfl
  | some decode => exact completes_map (completes decode rfl) (fun _ => rfl) fun _ => rfl

theorem completes_optionalExpr {content : Option (Decode Expr)}
    (completes : ∀ decode, content = some decode → Completes [] [] decode Expr.nodes fun _ => []) :
    Completes [] [] (optional content) Expr.nodesOption fun _ => [] := by
  intro start before value after grown decoded
  have made := completes_optional completes start before value after grown decoded
  cases value <;> exact made

end

variable {exprs : List Expr} {stmts : List Stmt}

theorem completes_expr (position : Position)
    {make : Site ExprId → Expr} (numbered : ∀ site, (make site).id = site.id)
    (nodesEq : ∀ site, (make site).nodes = exprs ++ [make site]) :
    Completes exprs stmts (expr position make) Expr.nodes fun _ => stmts := by
  intro start before value after grown decoded
  change Except.ok (before.addExpr position make) = .ok (value, after) at decoded
  obtain ⟨rfl, rfl⟩ : (before.addExpr position make).1 = value ∧
      (before.addExpr position make).2 = after := by
    simpa [Prod.ext_iff] using decoded
  have grownMore := grown.trans (Program.Grows.addExpr before position numbered)
  simp only [List.append_nil] at grownMore
  exact nodesEq ⟨⟨before.exprs.size⟩, position⟩ ▸ grownMore

theorem completes_stmt (position : Position)
    {make : Site StmtId → Stmt} (numbered : ∀ site, (make site).id = site.id)
    (exprsEq : ∀ site, (make site).exprNodes = exprs)
    (nodesEq : ∀ site, (make site).nodes = stmts ++ [make site]) :
    Completes exprs stmts (stmt position make) Stmt.exprNodes Stmt.nodes := by
  intro start before value after grown decoded
  change Except.ok (before.addStmt position make) = .ok (value, after) at decoded
  obtain ⟨rfl, rfl⟩ : (before.addStmt position make).1 = value ∧
      (before.addStmt position make).2 = after := by
    simpa [Prod.ext_iff] using decoded
  have grownMore := grown.trans (Program.Grows.addStmt before position numbered)
  simp only [List.append_nil] at grownMore
  exact nodesEq ⟨⟨before.stmts.size⟩, position⟩ ▸ exprsEq ⟨⟨before.stmts.size⟩, position⟩ ▸
    grownMore

/-! ## Headers and plain members -/

theorem keeps_pure (result : Value) : Keeps (pure result : Decode Value) := by
  intro before value after decoded
  exact (run_pure_eq_ok decoded).2

theorem Keeps.andThen {first : Decode Value} {next : Value → Decode Next} (keeps : Keeps first)
    (nextKeeps : ∀ value, Keeps (next value)) : Keeps (first >>= next) := by
  intro before result after decoded
  obtain ⟨value, between, firstDecoded, nextDecoded⟩ := run_bind_eq_ok decoded
  rw [nextKeeps _ _ _ _ nextDecoded, keeps _ _ _ firstDecoded]

theorem keeps_fail (position : Position) (node member : String) (fault : MemberFault) :
    Keeps (fail position node member fault : Decode Value) := by
  intro before value after decoded
  cases decoded

theorem keeps_shaped (shaped : Json.Shaped Value) : Keeps (Decode.shaped shaped) := by
  cases shaped with
  | ok value => exact keeps_pure value
  | error fault =>
    intro before value after decoded
    cases decoded

theorem keeps_checkArray (position : Position) (node member : String)
    (members : List (String × Json)) : Keeps (checkArray position node member members) := by
  unfold checkArray
  split <;> first | apply keeps_pure | apply keeps_fail

theorem keeps_knownOperator (position : Position) (node written : String)
    (operator : Option Value) : Keeps (knownOperator position node written operator) := by
  cases operator with
  | some operator => exact keeps_pure operator
  | none => exact keeps_fail position node "op" (.unknownOperator written)

theorem keeps_literal (position : Position) (type : String) (value : Json) :
    Keeps (literal position type value) := by
  unfold literal
  repeat' split
  all_goals first | apply keeps_pure | apply keeps_fail

/-! ## Expressions -/

mutual

theorem completes_exprNode (parent : Position) : ∀ value : Json,
    Completes [] [] (exprNode parent value) Expr.nodes fun _ => []
  | .object members => by
      unfold exprNode
      refine (keeps_shaped _).bind fun ⟨header, position⟩ => ?_
      have child := fun name => completes_exprMember name position members
      cases header with
      | binary symbol =>
        refine completes_required _ _ _ fun left leftFound => ?_
        refine completes_required _ _ _ fun right rightFound => ?_
        refine (keeps_knownOperator _ _ _ _).bind fun operator => ?_
        refine (child _ _ leftFound).bind fun leftExpr => ?_
        refine (child _ _ rightFound).bind fun rightExpr => ?_
        exact completes_expr position (fun _ => rfl) fun _ => by simp [Expr.nodes]
      | unary symbol =>
        refine completes_required _ _ _ fun operand found => ?_
        refine (keeps_knownOperator _ _ _ _).bind fun operator => ?_
        refine (child _ _ found).bind fun operandExpr => ?_
        exact completes_expr position (fun _ => rfl) fun _ => by simp [Expr.nodes]
      | literal type value =>
        refine (keeps_literal _ _ _).bind fun constant => ?_
        exact completes_expr position (fun _ => rfl) fun _ => rfl
      | identifier name => exact completes_expr position (fun _ => rfl) fun _ => rfl
      | this => exact completes_expr position (fun _ => rfl) fun _ => rfl
      | super => exact completes_expr position (fun _ => rfl) fun _ => rfl
      | new className => exact completes_expr position (fun _ => rfl) fun _ => rfl
      | call method =>
        refine (keeps_checkArray _ _ _ _).bind fun _ => ?_
        refine (completes_optional (child "receiver")).bind fun receiver => ?_
        refine (completes_exprArray "args" position members).bind fun arguments => ?_
        cases receiver <;> exact completes_expr position (fun _ => rfl)
          fun _ => by simp [Expr.nodes]
      | fieldAccess field =>
        refine completes_required _ _ _ fun receiver found => ?_
        refine (child _ _ found).bind fun receiverExpr => ?_
        exact completes_expr position (fun _ => rfl) fun _ => by simp [Expr.nodes]
      | step symbol yieldsNew =>
        refine completes_required _ _ _ fun target found => ?_
        refine (keeps_knownOperator _ _ _ _).bind fun operator => ?_
        refine (child _ _ found).bind fun targetExpr => ?_
        exact completes_expr position (fun _ => rfl) fun _ => by simp [Expr.nodes]
  | .null | .boolean _ | .number _ | .string _ | .array _ => completes_fail _ _ _ _
termination_by structural value => value

theorem completes_exprMember (name : String) (parent : Position) : ∀ members : List (String × Json),
    ∀ decode, exprMember name parent members = some decode →
      Completes [] [] decode Expr.nodes fun _ => []
  | [], decode, found => by simp [exprMember] at found
  | (otherName, value) :: rest, decode, found => by
      have others := completes_exprMember name parent rest decode
      have first := completes_exprNode parent value
      unfold exprMember at found
      split at found
      · contradiction
      · simp_all
      · split at found <;> simp_all
termination_by structural members => members

theorem completes_exprArray (name : String) (parent : Position) : ∀ members : List (String × Json),
    Completes [] [] (exprArray name parent members) Expr.nodesAll fun _ => []
  | [] => completes_pure rfl rfl
  | (otherName, .array elements) :: rest => by
      unfold exprArray
      split
      · exact completes_exprElements parent elements
      · exact completes_exprArray name parent rest
  | (_, .null) :: rest | (_, .boolean _) :: rest | (_, .number _) :: rest | (_, .string _) :: rest
  | (_, .object _) :: rest => completes_exprArray name parent rest
termination_by structural members => members

theorem completes_exprElements (parent : Position) : ∀ values : List Json,
    Completes [] [] (exprElements parent values) Expr.nodesAll fun _ => []
  | [] => completes_pure rfl rfl
  | value :: rest => by
      unfold exprElements
      refine (completes_exprNode parent value).bind fun first => ?_
      refine (completes_exprElements parent rest).bind fun others => ?_
      exact completes_pure (by simp [Expr.nodesAll]) rfl
termination_by structural values => values

end

/-! ## Statements -/

theorem keeps_valueType (position : Position) (node written : String) :
    Keeps (valueType position node written) := by
  unfold valueType
  split
  · exact keeps_fail _ _ _ _
  · exact keeps_pure _

theorem keeps_variableDecl (node : String) (header : Header.Variable) :
    Keeps (Decode.variableDecl node header) :=
  (keeps_valueType _ _ _).andThen fun _ => keeps_pure _

theorem keeps_mapM {Item : Type} {decode : Item → Decode Value}
    (keeps : ∀ item, Keeps (decode item)) (items : List Item) : Keeps (items.mapM decode) := by
  induction items with
  | nil => exact keeps_pure []
  | cons item rest ih =>
    rw [List.mapM_cons]
    exact (keeps item).andThen fun _ => ih.andThen fun _ => keeps_pure _

mutual

theorem completes_stmtNode (parent : Position) : ∀ value : Json,
    Completes [] [] (stmtNode parent value) Stmt.exprNodes Stmt.nodes
  | .object members => by
      unfold stmtNode
      refine (keeps_shaped _).bind fun ⟨header, position⟩ => ?_
      have child := fun name => completes_stmtMember name position members
      have operand := fun name => completes_exprMember name position members
      cases header with
      | declare written =>
        refine (keeps_mapM (keeps_variableDecl "VarDecl") written).bind fun declared => ?_
        exact completes_stmt position (fun _ => rfl) (fun _ => rfl) fun _ => rfl
      | plain kind =>
        cases kind with
        | block =>
          refine (keeps_checkArray _ _ _ _).bind fun _ => ?_
          refine (completes_stmtArray "stmts" position members).bind fun statements => ?_
          exact completes_stmt position (fun _ => rfl) (fun _ => rfl) fun _ => rfl
        | ifElse =>
          refine completes_required _ _ _ fun condition conditionFound => ?_
          refine completes_required _ _ _ fun thenBranch thenFound => ?_
          refine (operand _ _ conditionFound).bind fun conditionExpr => ?_
          refine (child _ _ thenFound).bind fun thenStmt => ?_
          refine (completes_optional (child "else")).bind fun elseStmt => ?_
          cases elseStmt <;>
            exact completes_stmt position (fun _ => rfl) (fun _ => by simp [Stmt.exprNodes])
              fun _ => by simp [Stmt.nodes]
        | whileLoop =>
          refine completes_required _ _ _ fun condition conditionFound => ?_
          refine completes_required _ _ _ fun body bodyFound => ?_
          refine (operand _ _ conditionFound).bind fun conditionExpr => ?_
          refine (child _ _ bodyFound).bind fun bodyStmt => ?_
          exact completes_stmt position (fun _ => rfl) (fun _ => rfl) fun _ => rfl
        | forLoop =>
          refine completes_required _ _ _ fun body bodyFound => ?_
          refine (completes_optional (child "init")).bind fun initStmt => ?_
          refine (completes_optionalExpr (operand "cond")).bind fun conditionExpr => ?_
          refine (completes_optional (child "update")).bind fun updateStmt => ?_
          refine (child _ _ bodyFound).bind fun bodyStmt => ?_
          cases initStmt <;> cases updateStmt <;>
            exact completes_stmt position (fun _ => rfl)
              (fun _ => by simp [Stmt.exprNodes, Expr.nodesOption]) fun _ => by simp [Stmt.nodes]
        | ret =>
          refine (completes_optionalExpr (operand "value")).bind fun value => ?_
          exact completes_stmt position (fun _ => rfl)
            (fun _ => by simp [Stmt.exprNodes, Expr.nodesOption]) fun _ => by simp [Stmt.nodes]
        | evaluate =>
          refine completes_required _ _ _ fun value found => ?_
          refine (operand _ _ found).bind fun valueExpr => ?_
          exact completes_stmt position (fun _ => rfl) (fun _ => rfl) fun _ => rfl
        | assign =>
          refine completes_required _ _ _ fun target targetFound => ?_
          refine completes_required _ _ _ fun value valueFound => ?_
          refine (operand _ _ targetFound).bind fun targetExpr => ?_
          refine (operand _ _ valueFound).bind fun valueExpr => ?_
          exact completes_stmt position (fun _ => rfl) (fun _ => rfl) fun _ => rfl
        | print =>
          refine completes_required _ _ _ fun value found => ?_
          refine (operand _ _ found).bind fun valueExpr => ?_
          exact completes_stmt position (fun _ => rfl) (fun _ => rfl) fun _ => rfl
        | breakLoop => exact completes_stmt position (fun _ => rfl) (fun _ => rfl) fun _ => rfl
        | continueLoop => exact completes_stmt position (fun _ => rfl) (fun _ => rfl) fun _ => rfl
        | declare => exact completes_stmt position (fun _ => rfl) (fun _ => rfl) fun _ => rfl
        | skip => exact completes_stmt position (fun _ => rfl) (fun _ => rfl) fun _ => rfl
  | .null | .boolean _ | .number _ | .string _ | .array _ => completes_fail _ _ _ _
termination_by structural value => value

theorem completes_stmtMember (name : String) (parent : Position) : ∀ members : List (String × Json),
    ∀ decode, stmtMember name parent members = some decode →
      Completes [] [] decode Stmt.exprNodes Stmt.nodes
  | [], decode, found => by simp [stmtMember] at found
  | (otherName, value) :: rest, decode, found => by
      have others := completes_stmtMember name parent rest decode
      have first := completes_stmtNode parent value
      unfold stmtMember at found
      split at found
      · contradiction
      · simp_all
      · split at found <;> simp_all
termination_by structural members => members

theorem completes_stmtArray (name : String) (parent : Position) : ∀ members : List (String × Json),
    Completes [] [] (stmtArray name parent members) Stmt.exprNodesAll Stmt.nodesAll
  | [] => completes_pure rfl rfl
  | (otherName, .array elements) :: rest => by
      unfold stmtArray
      split
      · exact completes_stmtElements parent elements
      · exact completes_stmtArray name parent rest
  | (_, .null) :: rest | (_, .boolean _) :: rest | (_, .number _) :: rest | (_, .string _) :: rest
  | (_, .object _) :: rest => completes_stmtArray name parent rest
termination_by structural members => members

theorem completes_stmtElements (parent : Position) : ∀ values : List Json,
    Completes [] [] (stmtElements parent values) Stmt.exprNodesAll Stmt.nodesAll
  | [] => completes_pure rfl rfl
  | value :: rest => by
      unfold stmtElements
      refine (completes_stmtNode parent value).bind fun first => ?_
      refine (completes_stmtElements parent rest).bind fun others => ?_
      exact completes_pure (by simp [Stmt.exprNodesAll]) (by simp [Stmt.nodesAll])
termination_by structural values => values

end

/-! ## Programs -/

theorem completes_mapM {Item : Type} {decode : Item → Decode Value} {valueExprs : Value → List Expr}
    {valueStmts : Value → List Stmt}
    (each : ∀ item, Completes [] [] (decode item) valueExprs valueStmts) (items : List Item) :
    Completes [] [] (items.mapM decode) (fun values => values.flatMap valueExprs)
      fun values => values.flatMap valueStmts := by
  induction items with
  | nil => exact completes_pure rfl rfl
  | cons item rest ih =>
    rw [List.mapM_cons]
    refine (each item).bind fun first => ?_
    refine ih.bind fun others => ?_
    exact completes_pure (by simp) (by simp)

theorem keeps_nodeMembers (parent : Position) (node : String) (value : Json) :
    Keeps (nodeMembers parent node value) := by
  unfold nodeMembers
  split
  · exact keeps_pure _
  · exact keeps_fail _ _ _ _

theorem keeps_elements (position : Position) (node member : String)
    (members : List (String × Json)) : Keeps (elements position node member members) := by
  refine (keeps_checkArray _ _ _ _).andThen fun _ => ?_
  split <;> exact keeps_pure _

theorem keeps_visibility (position : Position) (node : String) (written : Option String) :
    Keeps (Decode.visibility position node written) := by
  unfold Decode.visibility
  repeat' split
  all_goals first | apply keeps_pure | apply keeps_fail

theorem keeps_fieldDecl (header : Header.Field) : Keeps (Decode.fieldDecl header) :=
  (keeps_valueType _ _ _).andThen fun _ => (keeps_visibility _ _ _).andThen fun _ => keeps_pure _

theorem completes_bodyNode (position : Position) (value : Option Json) :
    Completes [] [] (bodyNode stmtNode position value) Stmt.exprNodes Stmt.nodes := by
  unfold bodyNode
  repeat' split
  · exact completes_stmtNode _ _
  · exact completes_fail _ _ _ _
  · exact completes_fail _ _ _ _

theorem completes_methodNode (parent : Position) (value : Json) :
    Completes [] [] (methodNode stmtNode parent value) (fun method => method.body.exprNodes)
      fun method => method.body.nodes := by
  refine (keeps_nodeMembers _ _ _).bind fun members => ?_
  refine (keeps_shaped _).bind fun header => ?_
  refine (completes_bodyNode _ _).bind fun body => ?_
  refine (keeps_mapM (keeps_variableDecl "Formal") _).bind fun parameters => ?_
  refine (keeps_visibility _ _ _).bind fun visibility => ?_
  exact completes_pure rfl rfl

theorem completes_classNode (value : Json) :
    Completes [] [] (classNode stmtNode value) (fun decl =>
      decl.methods.flatMap fun method => method.body.exprNodes)
      fun decl => decl.methods.flatMap fun method => method.body.nodes := by
  refine (keeps_nodeMembers _ _ _).bind fun members => ?_
  refine (keeps_shaped _).bind fun header => ?_
  refine (keeps_mapM keeps_fieldDecl _).bind fun fields => ?_
  refine (keeps_elements _ _ _ _).bind fun methods => ?_
  refine (completes_mapM (completes_methodNode _) _).bind fun methods => ?_
  exact completes_pure rfl rfl

theorem completes_classes (value : Json) :
    Completes [] [] (classes stmtNode value)
      (fun decls => decls.flatMap fun decl =>
        decl.methods.flatMap fun method => method.body.exprNodes)
      fun decls => decls.flatMap fun decl => decl.methods.flatMap fun method =>
        method.body.nodes := by
  refine (keeps_nodeMembers _ _ _).bind fun members => ?_
  refine completes_required _ _ _ fun _ _ => ?_
  refine (keeps_elements _ _ _ _).bind fun values => ?_
  exact completes_mapM completes_classNode _

end Decode

namespace Program

variable {program : Program}

/-- The expressions in the bodies of all methods. -/
def exprNodes (program : Program) : List Expr :=
  program.classes.flatMap fun decl => decl.methods.flatMap fun method => method.body.exprNodes

/-- The statements in the bodies of all methods. -/
def stmtNodes (program : Program) : List Stmt :=
  program.classes.flatMap fun decl => decl.methods.flatMap fun method => method.body.nodes

/-- The trees of a program are made of the nodes on record: each node stands there at its number. -/
structure Indexed (program : Program) : Prop where
  expr_at : ∀ {node}, node ∈ program.exprNodes → program.exprs[node.id.index]? = some node
  stmt_at : ∀ {node}, node ∈ program.stmtNodes → program.stmts[node.id.index]? = some node

/-- Each node hangs in one place only. -/
structure IsForest (program : Program) : Prop extends program.Indexed where
  expr_ids : (program.exprNodes.map Expr.id).Nodup
  stmt_ids : (program.stmtNodes.map Stmt.id).Nodup

theorem Indexed.expr_eq (indexed : program.Indexed) {node other : Expr}
    (isNode : node ∈ program.exprNodes) (isOther : other ∈ program.exprNodes)
    (sameId : node.id = other.id) : node = other :=
  Option.some.inj ((indexed.expr_at isNode).symm.trans (sameId ▸ indexed.expr_at isOther))

/-- The nodes on record are those of the trees, numbered in order. -/
structure WellNumbered (program : Program) : Prop where
  exprs_eq : program.exprs.toList = program.exprNodes
  stmts_eq : program.stmts.toList = program.stmtNodes
  expr_numbers : Numbered (fun node => node.id.index) 0 program.exprNodes
  stmt_numbers : Numbered (fun node => node.id.index) 0 program.stmtNodes

theorem wellNumbered_ofJson {value : Json} (decoded : ofJson value = .ok program) :
    program.WellNumbered := by
  rw [ofJson_eq, Decode.program] at decoded
  cases run : (Decode.classes Decode.stmtNode value).run .empty with
  | error fault => simp [run, Bind.bind, Except.bind] at decoded
  | ok pair =>
    obtain ⟨decls, made⟩ := pair
    have grows := Decode.completes_classes value _ _ _ _ (.refl .empty) run
    have programEq : { made with classes := decls } = program := by
      simpa [run, Bind.bind, Except.bind, Pure.pure, Except.pure] using decoded
    subst programEq
    exact ⟨by simpa [empty, exprNodes] using grows.exprs_eq,
      by simpa [empty, stmtNodes] using grows.stmts_eq, grows.expr_numbers, grows.stmt_numbers⟩

namespace WellNumbered

theorem expr_at (numbered : program.WellNumbered) {node : Expr}
    (nodeMem : node ∈ program.exprNodes) : program.exprs[node.id.index]? = some node := by
  rw [← Array.getElem?_toList, numbered.exprs_eq]
  exact numbered.expr_numbers.getElem?_eq nodeMem

theorem stmt_at (numbered : program.WellNumbered) {node : Stmt}
    (nodeMem : node ∈ program.stmtNodes) : program.stmts[node.id.index]? = some node := by
  rw [← Array.getElem?_toList, numbered.stmts_eq]
  exact numbered.stmt_numbers.getElem?_eq nodeMem

theorem isForest (numbered : program.WellNumbered) : program.IsForest where
  expr_at := numbered.expr_at
  stmt_at := numbered.stmt_at
  expr_ids := .of_map ExprId.index (by rw [List.map_map]; exact numbered.expr_numbers.nodup)
  stmt_ids := .of_map StmtId.index (by rw [List.map_map]; exact numbered.stmt_numbers.nodup)

end WellNumbered

/-- A decoded program is a forest. -/
theorem isForest_ofJson {value : Json} (decoded : ofJson value = .ok program) : program.IsForest :=
  (wellNumbered_ofJson decoded).isForest

end Program

end Decaf
