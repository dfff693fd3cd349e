import Mathlib.Data.List.Nodup
import Decaf.Tree.Program

/-!
# The nodes of a tree

The nodes of a tree are listed in the order in which decoding makes them: each behind its children.
A program is well numbered if the nodes of its method bodies, listed in this way, are just the nodes
on record and stand there at the places that their numbers name.
-/

namespace Decaf

/-- Nodes of different parts of a list without repeated numbers have different numbers. -/
theorem not_mem_ids {Node Id : Type} {id : Node → Id} {front back : List Node}
    (nodup : ((front ++ back).map id).Nodup) {node : Node} (inFront : node ∈ front) :
    id node ∉ back.map id := by
  rw [List.map_append, List.nodup_append] at nodup
  exact fun inBack => nodup.2.2 _ (List.mem_map_of_mem inFront) _ inBack rfl

namespace Expr

@[elab_as_elim, induction_eliminator]
theorem induction {motive : Expr → Prop} (literal : ∀ site value, motive (.literal site value))
    (identifier : ∀ site name, motive (.identifier site name)) (this : ∀ site, motive (.this site))
    (super : ∀ site, motive (.super site)) (new : ∀ site className, motive (.new site className))
    (call : ∀ site receiver method arguments, (∀ inner ∈ receiver, motive inner) →
      (∀ argument ∈ arguments, motive argument) → motive (.call site receiver method arguments))
    (fieldAccess : ∀ site receiver field,
      motive receiver → motive (.fieldAccess site receiver field))
    (unary : ∀ site operator operand, motive operand → motive (.unary site operator operand))
    (binary : ∀ site operator left right, motive left → motive right →
      motive (.binary site operator left right))
    (step : ∀ site operator yieldsNew target,
      motive target → motive (.step site operator yieldsNew target))
    (expr : Expr) : motive expr :=
  @Expr.rec motive (fun receiver => ∀ inner ∈ receiver, motive inner)
    (fun arguments => ∀ argument ∈ arguments, motive argument)
    literal identifier this super new call fieldAccess unary binary step
    (by simp) (by simp) (by simp) (by simp +contextual) expr

mutual

/-- An expression and those inside it, each behind its operands. -/
def nodes : Expr → List Expr
  | .literal site value => [.literal site value]
  | .identifier site name => [.identifier site name]
  | .this site => [.this site]
  | .super site => [.super site]
  | .new site className => [.new site className]
  | .call site none method arguments => nodesAll arguments ++ [.call site none method arguments]
  | .call site (some receiver) method arguments =>
    nodes receiver ++ nodesAll arguments ++ [.call site (some receiver) method arguments]
  | .fieldAccess site receiver field => nodes receiver ++ [.fieldAccess site receiver field]
  | .unary site operator operand => nodes operand ++ [.unary site operator operand]
  | .binary site operator left right =>
    nodes left ++ nodes right ++ [.binary site operator left right]
  | .step site operator yieldsNew target => nodes target ++ [.step site operator yieldsNew target]
termination_by structural expr => expr

/-- The nodes of expressions, one behind the other. -/
def nodesAll : List Expr → List Expr
  | [] => []
  | expr :: rest => nodes expr ++ nodesAll rest
termination_by structural exprs => exprs

end

variable {node expr : Expr}

/-- The nodes of an expression that need not be there. -/
def nodesOption (expr : Option Expr) : List Expr := (expr.map nodes).getD []

theorem mem_nodesAll {exprs : List Expr} :
    node ∈ nodesAll exprs ↔ ∃ expr ∈ exprs, node ∈ expr.nodes := by
  induction exprs with
  | nil => simp [nodesAll]
  | cons expr rest ih => simp [nodesAll, ih]

theorem self_mem_nodes (expr : Expr) : expr ∈ expr.nodes := by
  cases expr with
  | call site receiver method arguments => cases receiver <;> simp [nodes]
  | _ => simp [nodes]

theorem induction_children {motive : Expr → Prop}
    (each : ∀ expr, (∀ child ∈ expr.children, motive child) → motive expr) (expr : Expr) :
    motive expr := by
  induction expr with
  | call site receiver method arguments receiverIh argumentsIh =>
    refine each _ fun child isChild => ?_
    rcases List.mem_append.mp isChild with isReceiver | isArgument
    · exact receiverIh child (by simpa using isReceiver)
    · exact argumentsIh child isArgument
  | fieldAccess site receiver field ih => exact each _ (by simpa [children] using ih)
  | unary site operator operand ih => exact each _ (by simpa [children] using ih)
  | binary site operator left right leftIh rightIh =>
    exact each _ (by simp [children, leftIh, rightIh])
  | step site operator yieldsNew target ih => exact each _ (by simpa [children] using ih)
  | _ => exact each _ (by simp [children])

/-- The nodes of an expression are itself and the nodes of its children. -/
theorem mem_nodes_iff :
    node ∈ expr.nodes ↔ node = expr ∨ ∃ child ∈ expr.children, node ∈ child.nodes := by
  cases expr with
  | call site receiver method arguments =>
    cases receiver <;> simp [nodes, children, mem_nodesAll, or_comm, or_left_comm]
  | binary site operator left right => simp [nodes, children, or_comm, or_left_comm]
  | fieldAccess | unary | step => simp [nodes, children, or_comm]
  | _ => simp [nodes, children]

theorem nodes_subset_of_child {child : Expr} {nodes : List Expr} (isPart : expr.nodes ⊆ nodes)
    (isChild : child ∈ expr.children := by simp [Expr.children]) : child.nodes ⊆ nodes :=
  fun _ isNode => isPart (mem_nodes_iff.mpr (.inr ⟨child, isChild, isNode⟩))

theorem nodes_subset_of_mem {inner : Expr} (isNode : inner ∈ expr.nodes) :
    inner.nodes ⊆ expr.nodes := by
  induction expr using induction_children with
  | each expr ih =>
    rcases mem_nodes_iff.mp isNode with rfl | ⟨child, isChild, inChild⟩
    · exact List.Subset.refl _
    · exact fun node nodeMem =>
        mem_nodes_iff.mpr (.inr ⟨child, isChild, ih child isChild inChild nodeMem⟩)

end Expr

namespace Stmt

@[elab_as_elim, induction_eliminator]
theorem induction {motive : Stmt → Prop}
    (block : ∀ site statements, (∀ stmt ∈ statements, motive stmt) →
      motive (.block site statements))
    (ifElse : ∀ site condition thenBranch elseBranch,
      motive thenBranch → (∀ stmt ∈ elseBranch, motive stmt) →
      motive (.ifElse site condition thenBranch elseBranch))
    (whileLoop : ∀ site condition body, motive body → motive (.whileLoop site condition body))
    (forLoop : ∀ site init condition update body, (∀ stmt ∈ init, motive stmt) →
      (∀ stmt ∈ update, motive stmt) → motive body →
      motive (.forLoop site init condition update body))
    (ret : ∀ site value, motive (.ret site value))
    (evaluate : ∀ site expr, motive (.evaluate site expr))
    (assign : ∀ site target value, motive (.assign site target value))
    (declare : ∀ site declared, motive (.declare site declared))
    (print : ∀ site value, motive (.print site value))
    (breakLoop : ∀ site, motive (.breakLoop site))
    (continueLoop : ∀ site, motive (.continueLoop site)) (skip : ∀ site, motive (.skip site))
    (stmt : Stmt) : motive stmt :=
  @Stmt.rec motive (fun statements => ∀ stmt ∈ statements, motive stmt)
    (fun branch => ∀ stmt ∈ branch, motive stmt)
    block ifElse whileLoop forLoop ret evaluate assign declare print breakLoop continueLoop skip
    (by simp) (by simp +contextual) (by simp) (by simp) stmt

mutual

/-- A statement and those inside it, each behind its parts. -/
def nodes : Stmt → List Stmt
  | .block site statements => nodesAll statements ++ [.block site statements]
  | .ifElse site condition thenBranch none =>
    nodes thenBranch ++ [.ifElse site condition thenBranch none]
  | .ifElse site condition thenBranch (some elseBranch) =>
    nodes thenBranch ++ nodes elseBranch ++ [.ifElse site condition thenBranch (some elseBranch)]
  | .whileLoop site condition body => nodes body ++ [.whileLoop site condition body]
  | .forLoop site init condition update body =>
    (match init with
      | some init => nodes init
      | none => []) ++
      (match update with
        | some update => nodes update
        | none => []) ++
      nodes body ++ [.forLoop site init condition update body]
  | .ret site value => [.ret site value]
  | .evaluate site expr => [.evaluate site expr]
  | .assign site target value => [.assign site target value]
  | .declare site declared => [.declare site declared]
  | .print site value => [.print site value]
  | .breakLoop site => [.breakLoop site]
  | .continueLoop site => [.continueLoop site]
  | .skip site => [.skip site]
termination_by structural stmt => stmt

/-- The nodes of statements, one behind the other. -/
def nodesAll : List Stmt → List Stmt
  | [] => []
  | stmt :: rest => nodes stmt ++ nodesAll rest
termination_by structural stmts => stmts

end

mutual

/-- The expressions in a statement. -/
def exprNodes : Stmt → List Expr
  | .block _ statements => exprNodesAll statements
  | .ifElse _ condition thenBranch none => condition.nodes ++ exprNodes thenBranch
  | .ifElse _ condition thenBranch (some elseBranch) =>
    condition.nodes ++ exprNodes thenBranch ++ exprNodes elseBranch
  | .whileLoop _ condition body => condition.nodes ++ exprNodes body
  | .forLoop _ init condition update body =>
    (match init with
      | some init => exprNodes init
      | none => []) ++ Expr.nodesOption condition ++
      (match update with
        | some update => exprNodes update
        | none => []) ++
      exprNodes body
  | .ret _ value => Expr.nodesOption value
  | .evaluate _ expr => expr.nodes
  | .assign _ target value => target.nodes ++ value.nodes
  | .declare _ _ => []
  | .print _ value => value.nodes
  | .breakLoop _ => []
  | .continueLoop _ => []
  | .skip _ => []
termination_by structural stmt => stmt

/-- The expressions in statements, one behind the other. -/
def exprNodesAll : List Stmt → List Expr
  | [] => []
  | stmt :: rest => exprNodes stmt ++ exprNodesAll rest
termination_by structural stmts => stmts

end

variable {node expr : Expr} {stmt : Stmt} {statements : List Stmt} {flaw : Stmt → Bool}

theorem exprNodes_forLoop (site : Site StmtId) (init update : Option Stmt) (condition : Option Expr)
    (body : Stmt) :
    (forLoop site init condition update body).exprNodes =
      (init.map exprNodes).getD [] ++ Expr.nodesOption condition ++
        (update.map exprNodes).getD [] ++ body.exprNodes := by
  cases init <;> cases update <;> rfl

theorem mem_exprNodes_forLoop {site : Site StmtId} {init update : Option Stmt}
    {condition : Option Expr} {body : Stmt} :
    node ∈ (forLoop site init condition update body).exprNodes ↔
      (∃ stmt ∈ init, node ∈ stmt.exprNodes) ∨ node ∈ Expr.nodesOption condition ∨
        (∃ stmt ∈ update, node ∈ stmt.exprNodes) ∨ node ∈ body.exprNodes := by
  cases init <;> cases update <;> simp [exprNodes]

theorem exprNodes_subset_all (stmtMem : stmt ∈ statements) :
    stmt.exprNodes ⊆ exprNodesAll statements := by
  induction statements with
  | nil => simp at stmtMem
  | cons first rest ih =>
    rw [exprNodesAll]
    rcases List.mem_cons.mp stmtMem with rfl | inRest
    · exact List.subset_append_left _ _
    · exact List.Subset.trans (ih inRest) (List.subset_append_right _ _)

theorem self_mem_nodes (stmt : Stmt) : stmt ∈ stmt.nodes := by
  cases stmt with
  | ifElse _ _ _ elseBranch => cases elseBranch <;> exact List.mem_append_right _ List.mem_cons_self
  | block | whileLoop => exact List.mem_append_right _ List.mem_cons_self
  | forLoop _ init _ update =>
    cases init <;> cases update <;> exact List.mem_append_right _ List.mem_cons_self
  | _ => exact List.mem_singleton_self _

theorem mem_nodesAll {node : Stmt} :
    node ∈ nodesAll statements ↔ ∃ stmt ∈ statements, node ∈ stmt.nodes := by
  induction statements with
  | nil => simp [nodesAll]
  | cons first rest ih => simp [nodesAll, ih]

theorem induction_children {motive : Stmt → Prop}
    (each : ∀ stmt, (∀ child ∈ stmt.children, motive child) → motive stmt) (stmt : Stmt) :
    motive stmt := by
  induction stmt with
  | block site statements ih => exact each _ ih
  | ifElse site condition thenBranch elseBranch thenIh elseIh =>
    exact each _ (by simpa [children] using ⟨thenIh, elseIh⟩)
  | whileLoop site condition body ih => exact each _ (by simpa [children] using ih)
  | forLoop site init condition update body initIh updateIh bodyIh =>
    refine each _ fun child isChild => ?_
    simp only [children, List.mem_append, Option.mem_toList,
      List.mem_singleton, or_assoc] at isChild
    rcases isChild with isInit | isUpdate | rfl
    · exact initIh child isInit
    · exact updateIh child isUpdate
    · exact bodyIh
  | _ => exact each _ (by simp [children])

/-- The nodes of a statement are itself and the nodes of its children. -/
theorem mem_nodes_iff {node : Stmt} :
    node ∈ stmt.nodes ↔ node = stmt ∨ ∃ child ∈ stmt.children, node ∈ child.nodes := by
  cases stmt with
  | block site statements => simp [nodes, children, mem_nodesAll, or_comm]
  | ifElse site condition thenBranch elseBranch =>
    cases elseBranch <;> simp [nodes, children] <;> tauto
  | whileLoop site condition body => simp [nodes, children, or_comm]
  | forLoop site init condition update body =>
    cases init <;> cases update <;> simp [nodes, children] <;> tauto
  | _ => simp [nodes, children]

/-- No statement in a statement has a flaw. -/
def Never (flaw : Stmt → Bool) (stmt : Stmt) : Prop := ∀ node ∈ stmt.nodes, flaw node = false

instance (flaw : Stmt → Bool) (stmt : Stmt) : Decidable (stmt.Never flaw) :=
  inferInstanceAs (Decidable (∀ node ∈ stmt.nodes, _))

theorem Never.here (never : stmt.Never flaw) : flaw stmt = false :=
  never stmt (mem_nodes_iff.mpr (.inl rfl))

theorem Never.child {child : Stmt} (never : stmt.Never flaw)
    (isChild : child ∈ stmt.children := by simp [Stmt.children]) : child.Never flaw :=
  fun node isNode => never node (mem_nodes_iff.mpr (.inr ⟨child, isChild, isNode⟩))

theorem mem_exprNodesAll :
    node ∈ exprNodesAll statements ↔ ∃ stmt ∈ statements, node ∈ stmt.exprNodes := by
  induction statements with
  | nil => simp [exprNodesAll]
  | cons first rest ih => simp [exprNodesAll, ih]

/-- The nodes of the expressions in a statement are those of its own expressions and those in its
children. -/
theorem mem_exprNodes_iff :
    node ∈ stmt.exprNodes ↔
      (∃ expr ∈ stmt.exprs, node ∈ expr.nodes) ∨ ∃ child ∈ stmt.children,
        node ∈ child.exprNodes := by
  cases stmt with
  | block site statements => simp [exprNodes, exprs, children, mem_exprNodesAll]
  | ifElse site condition thenBranch elseBranch =>
    cases elseBranch <;> simp [exprNodes, exprs, children]
  | whileLoop site condition body => simp [exprNodes, exprs, children]
  | forLoop site init condition update body =>
    cases init <;> cases condition <;> cases update <;>
      simp [exprNodes, exprs, children, Expr.nodesOption, or_assoc, or_comm, or_left_comm]
  | ret site value => cases value <;> simp [exprNodes, exprs, children, Expr.nodesOption]
  | _ => simp [exprNodes, exprs, children]

theorem nodes_subset_of_expr {nodes : List Expr} (isPart : stmt.exprNodes ⊆ nodes)
    (isExpr : expr ∈ stmt.exprs := by simp [Stmt.exprs]) : expr.nodes ⊆ nodes :=
  fun _ isNode => isPart (mem_exprNodes_iff.mpr (.inl ⟨expr, isExpr, isNode⟩))

theorem exprNodes_subset_of_child {child : Stmt} {nodes : List Expr}
    (isPart : stmt.exprNodes ⊆ nodes) (isChild : child ∈ stmt.children := by simp [Stmt.children]) :
    child.exprNodes ⊆ nodes :=
  fun _ isNode => isPart (mem_exprNodes_iff.mpr (.inr ⟨child, isChild, isNode⟩))

theorem exprNodes_subset_of_mem {inner : Stmt} (isNode : inner ∈ stmt.nodes) :
    inner.exprNodes ⊆ stmt.exprNodes := by
  induction stmt using induction_children with
  | each stmt ih =>
    rcases mem_nodes_iff.mp isNode with rfl | ⟨child, isChild, inChild⟩
    · exact List.Subset.refl _
    · exact fun node nodeMem =>
        mem_exprNodes_iff.mpr (.inr ⟨child, isChild, ih child isChild inChild nodeMem⟩)

theorem nodes_subset_exprNodes (isNode : expr ∈ stmt.exprNodes) : expr.nodes ⊆ stmt.exprNodes := by
  induction stmt using induction_children with
  | each stmt ih =>
    intro node nodeMem
    rcases mem_exprNodes_iff.mp isNode with ⟨own, isOwn, inOwn⟩ | ⟨child, isChild, inChild⟩
    · exact mem_exprNodes_iff.mpr (.inl ⟨own, isOwn, Expr.nodes_subset_of_mem inOwn nodeMem⟩)
    · exact mem_exprNodes_iff.mpr (.inr ⟨child, isChild, ih child isChild inChild nodeMem⟩)

end Stmt

end Decaf
