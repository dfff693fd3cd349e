import Decaf.Proofs.Tree.Lowering
import Mathlib.Data.List.Perm.Basic
import Decaf.Proofs.Tree.Acceptance

/-!
# Decoded trees

Short ways to write trees down as JSON values, for programs that stand as examples of general
statements.
-/

namespace Decaf

namespace Json

/-- A statement or an expression of a given kind. -/
def node (kind : String) (members : List (String × Json)) : Json :=
  .object (("kind", .string kind) :: members)

/-- A name. -/
def identifier (name : String) : Json := node "Identifier" [("name", .string name)]

/-- A literal of the given type. -/
def literal (type : String) (value : Json) : Json :=
  node "Literal" [("type", .string type), ("value", value)]

/-- An operator with two operands. -/
def binary (operator : String) (left right : Json) : Json :=
  node "BinaryOp" [("op", .string operator), ("lhs", left), ("rhs", right)]

/-- A block of statements. -/
def block (statements : List Json) : Json := node "Block" [("stmts", .array statements)]

/-- A variable: a name and a type. -/
def variableOf (name type : String) : Json :=
  .object [("name", .string name), ("type", .string type)]

/-- A method that is public and needs an object. -/
def method (name returnType : String) (parameters statements : List Json) : Json :=
  .object [("name", .string name), ("returnType", .string returnType),
    ("params", .array parameters), ("body", block statements)]

/-- A program with one class. -/
def oneClass (name : String) (methods : List Json) : Json :=
  .object [("classes", .array [.object [("name", .string name), ("methods", .array methods)]])]

end Json

/-- A value holds a program that passes a test. -/
theorem Program.exists_of_test (value : Json) (test : Program → Bool)
    (passes : ((Decode.program Decode.stmtNode value).toOption.map test).getD false = true) :
    ∃ program, ofJson value = .ok program ∧ test program = true := by
  rw [← ofJson_eq] at passes
  cases decoded : ofJson value with
  | error fault => simp [decoded, Except.toOption] at passes
  | ok program => exact ⟨program, rfl, by simpa [decoded, Except.toOption] using passes⟩

/-!
## Decoded programs are forests

Whatever value is decoded, it either is refused for what it says or yields trees: each node on
record hangs in just one place, below a node with a greater number or as the body of a method.
-/

/-! ## Trees -/

/-- Each node of a list comes behind its children. -/
def ChildrenFirst {Node : Type} (children : Node → List Node) (nodes : List Node) : Prop :=
  ∀ node ∈ nodes, ∀ child ∈ children node, [child, node].Sublist nodes

namespace ChildrenFirst

variable {Node Item : Type} {children : Node → List Node}

theorem nil : ChildrenFirst children [] := by
  simp [ChildrenFirst]

theorem append {front back : List Node} (inFront : ChildrenFirst children front)
    (inBack : ChildrenFirst children back) : ChildrenFirst children (front ++ back) := by
  intro node isNode child isChild
  rcases List.mem_append.mp isNode with isFront | isBack
  · exact (inFront node isFront child isChild).trans (List.sublist_append_left _ _)
  · exact (inBack node isBack child isChild).trans (List.sublist_append_right _ _)

theorem flatMap {nodes : Item → List Node} {items : List Item}
    (each : ∀ item ∈ items, ChildrenFirst children (nodes item)) :
    ChildrenFirst children (items.flatMap nodes) := by
  induction items with
  | nil => exact nil
  | cons item rest ih =>
    rw [List.flatMap_cons]
    exact (each item List.mem_cons_self).append (ih fun other isOther =>
      each other (List.mem_cons_of_mem _ isOther))

theorem concat {front : List Node} {node : Node} (inFront : ChildrenFirst children front)
    (isFront : ∀ child ∈ children node, child ∈ front) :
    ChildrenFirst children (front ++ [node]) := by
  intro other isOther child isChild
  rcases List.mem_append.mp isOther with isFormer | isLast
  · exact (inFront other isFormer child isChild).trans (List.sublist_append_left _ _)
  · obtain rfl := List.mem_singleton.mp isLast
    exact (List.singleton_sublist.mpr (isFront child isChild)).append (List.Sublist.refl [other])

end ChildrenFirst

variable {Item Node : Type}

theorem perm_exchange (first second third last : List Item) :
    (first ++ second ++ (third ++ last)).Perm (first ++ third ++ (second ++ last)) := by
  simpa only [List.append_assoc] using (List.perm_append_comm_assoc second
    third last).append_left first

theorem perm_flatMap {first second whole : Item → List Node} {items : List Item}
    (each : ∀ item ∈ items, (first item ++ second item).Perm (whole item)) :
    (items.flatMap first ++ items.flatMap second).Perm (items.flatMap whole) :=
  (List.flatMap_append_perm items first second).trans (List.Perm.flatMap_left items each)

/-- If in each of several trees all nodes but the root are children, then all nodes of them but the
roots are. -/
theorem perm_children_flatMap {nodes children : Node → List Node} {roots : List Node}
    (each : ∀ root ∈ roots, ((nodes root).flatMap children ++ [root]).Perm (nodes root)) :
    ((roots.flatMap nodes).flatMap children ++ roots).Perm (roots.flatMap nodes) := by
  have perm := perm_flatMap each
  rwa [List.flatMap_singleton', ← List.flatMap_assoc] at perm

namespace Expr

theorem nodesAll_eq (exprs : List Expr) : nodesAll exprs = exprs.flatMap nodes := by
  induction exprs with
  | nil => rfl
  | cons expr rest ih => rw [nodesAll, ih, List.flatMap_cons]

/-- The nodes of an expression are those of its children, and itself behind them. -/
theorem nodes_eq (expr : Expr) : expr.nodes = expr.children.flatMap nodes ++ [expr] := by
  cases expr with
  | call site receiver method arguments => cases receiver <;> simp [nodes, children, nodesAll_eq]
  | _ => simp [nodes, children]

theorem nodesOption_eq (expr : Option Expr) : nodesOption expr = expr.toList.flatMap nodes := by
  cases expr <;> simp [nodesOption]

theorem childrenFirst_nodes (expr : Expr) : ChildrenFirst children expr.nodes := by
  induction expr using induction_children with
  | each expr ih =>
    rw [nodes_eq]
    exact (ChildrenFirst.flatMap ih).concat fun child isChild =>
      List.mem_flatMap.mpr ⟨child, isChild, self_mem_nodes child⟩

/-- In a tree, all nodes but the root are children. -/
theorem perm_children (expr : Expr) : (expr.nodes.flatMap children ++ [expr]).Perm expr.nodes := by
  induction expr using induction_children with
  | each expr ih =>
    rw [nodes_eq, List.flatMap_append, List.flatMap_singleton]
    exact (perm_children_flatMap ih).append_right [expr]

end Expr

namespace Stmt

theorem nodesAll_eq (statements : List Stmt) : nodesAll statements = statements.flatMap nodes := by
  induction statements with
  | nil => rfl
  | cons stmt rest ih => rw [nodesAll, ih, List.flatMap_cons]

theorem nodes_eq (stmt : Stmt) : stmt.nodes = stmt.children.flatMap nodes ++ [stmt] := by
  cases stmt with
  | ifElse site condition thenBranch elseBranch => cases elseBranch <;> simp [nodes, children]
  | forLoop site init condition update body =>
    cases init <;> cases update <;> simp [nodes, children]
  | _ => simp [nodes, children, nodesAll_eq]

theorem exprNodesAll_eq (statements : List Stmt) :
    exprNodesAll statements = statements.flatMap exprNodes := by
  induction statements with
  | nil => rfl
  | cons stmt rest ih => rw [exprNodesAll, ih, List.flatMap_cons]

theorem childrenFirst_nodes (stmt : Stmt) : ChildrenFirst children stmt.nodes := by
  induction stmt using induction_children with
  | each stmt ih =>
    rw [nodes_eq]
    exact (ChildrenFirst.flatMap ih).concat fun child isChild =>
      List.mem_flatMap.mpr ⟨child, isChild, self_mem_nodes child⟩

theorem perm_children (stmt : Stmt) : (stmt.nodes.flatMap children ++ [stmt]).Perm stmt.nodes := by
  induction stmt using induction_children with
  | each stmt ih =>
    rw [nodes_eq, List.flatMap_append, List.flatMap_singleton]
    exact (perm_children_flatMap ih).append_right [stmt]

/-- The nodes of the expressions in a statement, in another order: first those of its own
expressions. -/
theorem perm_exprNodes (stmt : Stmt) :
    stmt.exprNodes.Perm (stmt.exprs.flatMap Expr.nodes ++ stmt.children.flatMap exprNodes) := by
  cases stmt with
  | ifElse site condition thenBranch elseBranch =>
    cases elseBranch <;> simp [exprNodes, exprs, children]
  | forLoop site init condition update body =>
    rw [exprNodes_forLoop, Expr.nodesOption_eq]
    cases init <;> simp only [exprs, children, Option.map_some, Option.map_none, Option.getD_some,
      Option.getD_none, Option.toList_some, Option.toList_none, List.flatMap_append,
      List.flatMap_cons, List.flatMap_nil,
      List.append_nil, List.nil_append, List.append_assoc]
    · cases update <;> simp
    · refine (List.perm_append_comm_assoc _ _ _).trans ?_
      cases update <;> simp
  | ret site value => simp [exprNodes, exprs, children, Expr.nodesOption_eq]
  | _ => simp [exprNodes, exprs, children, exprNodesAll_eq]

theorem childrenFirst_exprNodes (stmt : Stmt) : ChildrenFirst Expr.children stmt.exprNodes := by
  have inOption (expr : Option Expr) : ChildrenFirst Expr.children (Expr.nodesOption expr) := by
    rw [Expr.nodesOption_eq]
    exact .flatMap fun expr _ => expr.childrenFirst_nodes
  have inPart {part : Option Stmt} (each : ∀ stmt ∈ part,
      ChildrenFirst Expr.children stmt.exprNodes) :
      ChildrenFirst Expr.children ((part.map exprNodes).getD []) := by
    cases part with
    | none => exact .nil
    | some stmt => exact each stmt rfl
  induction stmt with
  | block site statements ih =>
    rw [exprNodes, exprNodesAll_eq]
    exact .flatMap ih
  | ifElse site condition thenBranch elseBranch thenIh elseIh =>
    have inFront := condition.childrenFirst_nodes.append thenIh
    cases elseBranch with
    | none => exact inFront
    | some elseBranch => exact inFront.append (elseIh elseBranch rfl)
  | whileLoop site condition body ih => exact condition.childrenFirst_nodes.append ih
  | forLoop site init condition update body initIh updateIh bodyIh =>
    rw [exprNodes_forLoop]
    exact (((inPart initIh).append (inOption condition)).append (inPart updateIh)).append bodyIh
  | ret site value => exact inOption value
  | evaluate site expr => exact expr.childrenFirst_nodes
  | assign site target value => exact target.childrenFirst_nodes.append value.childrenFirst_nodes
  | print site value => exact value.childrenFirst_nodes
  | declare | breakLoop | continueLoop | skip => exact .nil

/-- Among the expressions in a statement, those that are not children stand directly in a
statement. -/
theorem perm_exprs (stmt : Stmt) :
    (stmt.exprNodes.flatMap Expr.children ++ stmt.nodes.flatMap exprs).Perm stmt.exprNodes := by
  induction stmt using induction_children with
  | each stmt ih =>
    have own := perm_children_flatMap fun expr (_ : expr ∈ stmt.exprs) => expr.perm_children
    have inner := perm_flatMap ih
    rw [← List.flatMap_assoc, ← List.flatMap_assoc] at inner
    refine .trans ?_ ((own.append inner).trans stmt.perm_exprNodes.symm)
    rw [nodes_eq, List.flatMap_append, List.flatMap_singleton]
    refine .trans ?_ (perm_exchange _ _ _ _)
    rw [← List.flatMap_append]
    exact (stmt.perm_exprNodes.flatMap_right _).append List.perm_append_comm

end Stmt

variable {Node : Type}

/-! ## Programs -/

/-- In a list in which nodes are numbered from left to right, what comes first has the smaller
number. -/
theorem Numbered.lt_of_sublist {number : Node → Nat} {first : Nat} {nodes : List Node}
    {left right : Node} (numbered : Numbered number first nodes)
    (inOrder : [left, right].Sublist nodes) : number left < number right := by
  have increasing : (nodes.map number).Pairwise (· < ·) := by
    rw [numbered]
    exact List.pairwise_lt_range'
  simpa using increasing.sublist (inOrder.map number)

theorem Numbered.eq_of_getElem? {number : Node → Nat} {nodes : List Node}
    (numbered : Numbered number 0 nodes) {index : Nat} {node : Node}
    (found : nodes[index]? = some node) : number node = index := by
  have entry : (nodes.map number)[index]? = (List.range' 0 nodes.length)[index]? := by
    rw [numbered]
  rcases List.getElem?_eq_some_iff.mp found with ⟨inRange, nodeEq⟩
  simpa [inRange, nodeEq] using entry

theorem Numbered.count_eq {Id : Type} [DecidableEq Id] {number : Node → Nat}
    {nodes places : List Node} {id : Node → Id} {index : Id → Nat}
    (numbered : Numbered number 0 nodes) (isNumber : ∀ node, number node = index (id node))
    (perm : places.Perm nodes) {node : Node} (isNode : node ∈ nodes) :
    (places.map id).count (id node) = 1 := by
  have nodup : (nodes.map id).Nodup := by
    refine .of_map index ?_
    rw [List.map_map]
    exact (funext isNumber : number = index ∘ id) ▸ numbered.nodup
  rw [(perm.map id).count_eq]
  exact List.count_eq_one_of_mem nodup (List.mem_map_of_mem isNode)

namespace Program

variable {program : Program}

/-- The bodies of all methods. -/
def bodies (program : Program) : List Stmt := program.methods.map fun entry => entry.2.body

/-- What stands in the places for expressions: as the child of an expression or directly in a
statement. -/
def exprPlaces (program : Program) : List Expr :=
  program.exprs.toList.flatMap Expr.children ++ program.stmts.toList.flatMap Stmt.exprs

/-- What stands in the places for statements: as the child of a statement or as a body. -/
def stmtPlaces (program : Program) : List Stmt :=
  program.stmts.toList.flatMap Stmt.children ++ program.bodies

/-- The nodes on record form trees that the methods hold, and nothing is declared to be of type
`void`. -/
structure WellFormed (program : Program) : Prop where
  /-- A node stands at its number. -/
  expr_number : ∀ number (expr : Expr), program.exprs[number]? = some expr → expr.id = ⟨number⟩
  stmt_number : ∀ number (stmt : Stmt), program.stmts[number]? = some stmt → stmt.id = ⟨number⟩
  /-- What stands in a place is on record. -/
  expr_known : ∀ expr ∈ program.exprPlaces, expr ∈ program.exprs
  stmt_known : ∀ stmt ∈ program.stmtPlaces, stmt ∈ program.stmts
  /-- Children have smaller numbers than their parents. -/
  expr_children : ∀ expr ∈ program.exprs, ∀ child ∈ expr.children, child.id.index < expr.id.index
  stmt_children : ∀ stmt ∈ program.stmts, ∀ child ∈ stmt.children, child.id.index < stmt.id.index
  /-- A node on record stands in one place only. -/
  expr_once : ∀ expr ∈ program.exprs, (program.exprPlaces.map Expr.id).count expr.id = 1
  stmt_once : ∀ stmt ∈ program.stmts, (program.stmtPlaces.map Stmt.id).count stmt.id = 1
  classes : ∀ decl ∈ program.classes, decl.WellFormed

theorem exprNodes_eq (program : Program) :
    program.exprNodes = program.bodies.flatMap Stmt.exprNodes := by
  simp [exprNodes, bodies, methods, List.map_flatMap, List.flatMap_assoc, List.flatMap_map]

theorem stmtNodes_eq (program : Program) :
    program.stmtNodes = program.bodies.flatMap Stmt.nodes := by
  simp [stmtNodes, bodies, methods, List.map_flatMap, List.flatMap_assoc, List.flatMap_map]

namespace WellNumbered

theorem perm_exprPlaces (numbered : program.WellNumbered) :
    program.exprPlaces.Perm program.exprs.toList := by
  have perm := perm_flatMap fun body (_ : body ∈ program.bodies) => body.perm_exprs
  rw [← List.flatMap_assoc, ← List.flatMap_assoc] at perm
  rw [exprPlaces, numbered.exprs_eq, numbered.stmts_eq, exprNodes_eq, stmtNodes_eq]
  exact perm

theorem perm_stmtPlaces (numbered : program.WellNumbered) :
    program.stmtPlaces.Perm program.stmts.toList := by
  rw [stmtPlaces, numbered.stmts_eq, stmtNodes_eq]
  exact perm_children_flatMap fun body _ => body.perm_children

end WellNumbered

/-- Whatever value is decoded: it is not refused because a node lacks its children, and what it is
decoded to is well formed. -/
theorem wellFormed_ofJson (value : Json) :
    (∀ error, ofJson value = .error error → error.isChildless = false) ∧
      ∀ program, ofJson value = .ok program → program.WellFormed := by
  refine ⟨fun error => not_isChildless, fun program decoded => ?_⟩
  have numbered := wellNumbered_ofJson decoded
  have exprsFirst : ChildrenFirst Expr.children program.exprNodes := by
    rw [exprNodes_eq]
    exact .flatMap fun body _ => body.childrenFirst_exprNodes
  have stmtsFirst : ChildrenFirst Stmt.children program.stmtNodes := by
    rw [stmtNodes_eq]
    exact .flatMap fun body _ => body.childrenFirst_nodes
  have isExpr {expr : Expr} : expr ∈ program.exprs ↔ expr ∈ program.exprNodes := by
    rw [← Array.mem_toList_iff, numbered.exprs_eq]
  have isStmt {stmt : Stmt} : stmt ∈ program.stmts ↔ stmt ∈ program.stmtNodes := by
    rw [← Array.mem_toList_iff, numbered.stmts_eq]
  have exprPerm := numbered.perm_exprPlaces
  have stmtPerm := numbered.perm_stmtPlaces
  constructor
  · intro number expr found
    rw [← Array.getElem?_toList, numbered.exprs_eq] at found
    exact congrArg ExprId.mk (numbered.expr_numbers.eq_of_getElem? found)
  · intro number stmt found
    rw [← Array.getElem?_toList, numbered.stmts_eq] at found
    exact congrArg StmtId.mk (numbered.stmt_numbers.eq_of_getElem? found)
  · exact fun expr isPlaced => Array.mem_toList_iff.mp (exprPerm.mem_iff.mp isPlaced)
  · exact fun stmt isPlaced => Array.mem_toList_iff.mp (stmtPerm.mem_iff.mp isPlaced)
  · intro expr isKnown child isChild
    exact numbered.expr_numbers.lt_of_sublist (exprsFirst expr (isExpr.mp isKnown) child isChild)
  · intro stmt isKnown child isChild
    exact numbered.stmt_numbers.lt_of_sublist (stmtsFirst stmt (isStmt.mp isKnown) child isChild)
  · intro expr isKnown
    rw [numbered.exprs_eq] at exprPerm
    exact numbered.expr_numbers.count_eq (fun _ => rfl) exprPerm (isExpr.mp isKnown)
  · intro stmt isKnown
    rw [numbered.stmts_eq] at stmtPerm
    exact numbered.stmt_numbers.count_eq (fun _ => rfl) stmtPerm (isStmt.mp isKnown)
  · exact fun decl => wellFormed_of_mem decoded

/-- One class with `int echo(int x) { return x; }` and `void main() { print(echo(1)); }`. -/
def echoingProgram : Json :=
  .oneClass "Main"
    [.method "echo" "int" [.variableOf "x" "int"] [.node "Return" [("value", .identifier "x")]],
      .method "main" "void" [] [.node "Print" [("value", .node "Call" [("method", .string "echo"),
        ("args", .array [.literal "int" (.number (.integer 1))])])]]]

theorem wellFormed_echoingProgram :
    (∃ error, ofJson .null = .error error ∧ error.isChildless = false) ∧
    ∃ program, ofJson echoingProgram = .ok program ∧ program.exprs.size = 3 ∧
    program.WellFormed := by
  refine ⟨⟨_, rfl, (wellFormed_ofJson .null).1 _ rfl⟩, ?_⟩
  rcases exists_of_test echoingProgram (fun program => program.exprs.size = 3)
    (by decide +kernel) with
    ⟨program, decoded, size⟩
  exact ⟨program, decoded, of_decide_eq_true size,
    (wellFormed_ofJson echoingProgram).2 program decoded⟩

end Program

end Decaf
