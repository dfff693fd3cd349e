import Decaf.Proofs.Tree.Nodes
import Decaf.Registry.Entry

/-!
# Renaming variables

A renaming gives a name to every parameter and local of a method, told apart by their storage:
parameters are counted from left to right, and locals in the order of their declarations. It changes
the declarations, and the identifiers that stand for a declared variable; a name stands for the
variable of the innermost block around it that has declared one of this name so far. All other names
stay as they are.
-/

namespace Decaf

/-! ## Expressions -/

namespace Expr

mutual

/-- The expression with its identifiers changed. -/
def withNames (change : String → String) : Expr → Expr
  | .literal site value => .literal site value
  | .identifier site name => .identifier site (change name)
  | .this site => .this site
  | .super site => .super site
  | .new site className => .new site className
  | .call site none method arguments => .call site none method (withNamesAll change arguments)
  | .call site (some receiver) method arguments =>
    .call site (some (withNames change receiver)) method (withNamesAll change arguments)
  | .fieldAccess site receiver field => .fieldAccess site (withNames change receiver) field
  | .unary site operator operand => .unary site operator (withNames change operand)
  | .binary site operator left right =>
    .binary site operator (withNames change left) (withNames change right)
  | .step site operator yieldsNew target => .step site operator yieldsNew (withNames change target)
termination_by structural expr => expr

/-- Expressions with their names changed. -/
def withNamesAll (change : String → String) : List Expr → List Expr
  | [] => []
  | expr :: rest => withNames change expr :: withNamesAll change rest
termination_by structural exprs => exprs

end

variable {change : String → String}

theorem withNamesAll_eq (change : String → String) (exprs : List Expr) :
    withNamesAll change exprs = exprs.map (withNames change) := by
  induction exprs with
  | nil => rfl
  | cons expr rest ih => rw [withNamesAll, ih, List.map_cons]

@[simp]
theorem site_withNames (expr : Expr) : (expr.withNames change).site = expr.site := by
  cases expr with
  | call site receiver method arguments => cases receiver <;> rfl
  | _ => rfl

@[simp]
theorem id_withNames (expr : Expr) : (expr.withNames change).id = expr.id :=
  congrArg Site.id expr.site_withNames

@[simp]
theorem position_withNames (expr : Expr) : (expr.withNames change).position = expr.position :=
  congrArg Site.position expr.site_withNames

@[simp]
theorem isSuper_withNames (expr : Expr) : (expr.withNames change).isSuper = expr.isSuper := by
  cases expr with
  | call site receiver method arguments => cases receiver <;> rfl
  | _ => rfl

@[simp]
theorem isTrue_withNames (expr : Expr) : (expr.withNames change).isTrue = expr.isTrue := by
  cases expr with
  | call site receiver method arguments => cases receiver <;> rfl
  | _ => rfl

theorem nodesAll_withNames {exprs : List Expr}
    (each : ∀ expr ∈ exprs, (expr.withNames change).nodes = expr.nodes.map (withNames change)) :
    nodesAll (withNamesAll change exprs) = (nodesAll exprs).map (withNames change) := by
  induction exprs with
  | nil => rfl
  | cons expr rest ih =>
    rw [withNamesAll, nodesAll, nodesAll, each expr List.mem_cons_self, List.map_append,
      ih fun other isOther => each other (List.mem_cons_of_mem _ isOther)]

/-- The nodes stay in their places. -/
theorem nodes_withNames (change : String → String) (expr : Expr) :
    (expr.withNames change).nodes = expr.nodes.map (withNames change) := by
  induction expr with
  | call site receiver method arguments receiverIh argumentsIh =>
    cases receiver with
    | none => simp [withNames, nodes, nodesAll_withNames argumentsIh]
    | some receiver =>
      simp [withNames, nodes, receiverIh receiver rfl, nodesAll_withNames argumentsIh]
  | fieldAccess site receiver field ih => simp [withNames, nodes, ih]
  | unary site operator operand ih => simp [withNames, nodes, ih]
  | binary site operator left right leftIh rightIh => simp [withNames, nodes, leftIh, rightIh]
  | step site operator yieldsNew target ih => simp [withNames, nodes, ih]
  | literal | identifier | this | super | new => rfl

theorem nodesOption_withNames (change : String → String) (expr : Option Expr) :
    nodesOption (expr.map (withNames change)) = (nodesOption expr).map (withNames change) := by
  cases expr with
  | none => rfl
  | some expr => exact nodes_withNames change expr

end Expr

/-! ## Blocks -/

/-- The variables that a block of a method body has declared so far, each under its name. -/
abbrev StorageBlock := List (String × Storage)

/-- What takes the place of a name with some blocks around it, innermost first. -/
def renamedIn (names : Storage → String) (blocks : List StorageBlock) (name : String) : String :=
  match blocks.findSome? (List.lookup name) with
  | some storage => names storage
  | none => name

/-- How far the declarations of a body have been read: the variables of the innermost block, and how
many locals there were up to here. -/
structure LocalWalk where
  block : StorageBlock := []
  count : Nat := 0

namespace LocalWalk

/-- A variable is declared in the innermost block. -/
def declare (walk : LocalWalk) (decl : VariableDecl) : LocalWalk :=
  ⟨walk.block ++ [(decl.name, .body walk.count)], walk.count + 1⟩

/-- A block begins. -/
def enter (walk : LocalWalk) : LocalWalk := { walk with block := [] }

/-- A block ends, and its variables are out of sight. -/
def leave (outside inside : LocalWalk) : LocalWalk := { inside with block := outside.block }

end LocalWalk

/-! ## Statements -/

namespace Stmt

mutual

/-- Reads the declarations in a statement. -/
def declares : Stmt → LocalWalk → LocalWalk
  | .block _ statements, walk => walk.leave (declaresAll statements walk.enter)
  | .ifElse _ _ thenBranch elseBranch, walk =>
    match elseBranch with
    | some elseBranch => declares elseBranch (declares thenBranch walk)
    | none => declares thenBranch walk
  | .whileLoop _ _ body, walk => declares body walk
  | .forLoop _ init _ update body, walk =>
    let inside :=
      match init with
      | some init => declares init walk.enter
      | none => walk.enter
    let inside :=
      match update with
      | some update => declares update inside
      | none => inside
    walk.leave (declares body inside)
  | .declare _ declared, walk => declared.foldl LocalWalk.declare walk
  | .ret _ _, walk => walk
  | .evaluate _ _, walk => walk
  | .assign _ _ _, walk => walk
  | .print _ _, walk => walk
  | .breakLoop _, walk => walk
  | .continueLoop _, walk => walk
  | .skip _, walk => walk
termination_by structural stmt => stmt

/-- What statements declare, one behind the other. -/
def declaresAll : List Stmt → LocalWalk → LocalWalk
  | [], walk => walk
  | stmt :: rest, walk => declaresAll rest (declares stmt walk)
termination_by structural stmts => stmts

end

/-- What a part declares that need not be there. -/
def declaresOption (part : Option Stmt) (walk : LocalWalk) : LocalWalk :=
  match part with
  | some stmt => stmt.declares walk
  | none => walk

theorem declares_forLoop (site : Site StmtId) (init : Option Stmt) (condition : Option Expr)
    (update : Option Stmt) (body : Stmt) (walk : LocalWalk) :
    (forLoop site init condition update body).declares walk =
      walk.leave (body.declares (declaresOption update (declaresOption init walk.enter))) := by
  cases init <;> cases update <;> rfl

/-- Declared locals with their new names; `first` is the rank of the first one. -/
def renamedLocals (names : Storage → String) (first : Nat) (declared : List VariableDecl) :
    List VariableDecl :=
  (declared.zipIdx first).map fun pair => { pair.1 with name := names (.body pair.2) }

mutual

/-- The statement with its variables renamed, where blocks with other variables are around. -/
def renamed (names : Storage → String) (around : List StorageBlock) : Stmt → LocalWalk → Stmt
  | .block site statements, walk =>
    .block site (renamedAll names (walk.block :: around) statements walk.enter)
  | .ifElse site condition thenBranch elseBranch, walk =>
    .ifElse site (condition.withNames (renamedIn names (walk.block :: around)))
      (renamed names around thenBranch walk)
      (match elseBranch with
        | some elseBranch => some (renamed names around elseBranch (thenBranch.declares walk))
        | none => none)
  | .whileLoop site condition body, walk =>
    .whileLoop site (condition.withNames (renamedIn names (walk.block :: around)))
      (renamed names around body walk)
  | .forLoop site init condition update body, walk =>
    let started := declaresOption init walk.enter
    let updated := declaresOption update started
    .forLoop site
      (match init with
        | some init => some (renamed names (walk.block :: around) init walk.enter)
        | none => none)
      (condition.map (Expr.withNames (renamedIn names (started.block :: walk.block :: around))))
      (match update with
        | some update => some (renamed names (walk.block :: around) update started)
        | none => none)
      (renamed names (walk.block :: around) body updated)
  | .ret site value, walk =>
    .ret site (value.map (Expr.withNames (renamedIn names (walk.block :: around))))
  | .evaluate site expr, walk =>
    .evaluate site (expr.withNames (renamedIn names (walk.block :: around)))
  | .assign site target value, walk =>
    .assign site (target.withNames (renamedIn names (walk.block :: around)))
      (value.withNames (renamedIn names (walk.block :: around)))
  | .declare site declared, walk => .declare site (renamedLocals names walk.count declared)
  | .print site value, walk =>
    .print site (value.withNames (renamedIn names (walk.block :: around)))
  | .breakLoop site, _ => .breakLoop site
  | .continueLoop site, _ => .continueLoop site
  | .skip site, _ => .skip site
termination_by structural stmt => stmt

/-- Statements with their variables renamed. -/
def renamedAll (names : Storage → String) (around : List StorageBlock) :
    List Stmt → LocalWalk → List Stmt
  | [], _ => []
  | stmt :: rest, walk =>
    renamed names around stmt walk :: renamedAll names around rest (stmt.declares walk)
termination_by structural stmts => stmts

end

/-- A part that need not be there, with its variables renamed. -/
def renamedOption (names : Storage → String) (around : List StorageBlock) (part : Option Stmt)
    (walk : LocalWalk) : Option Stmt :=
  part.map fun stmt => stmt.renamed names around walk

theorem renamed_ifElse (names : Storage → String) (around : List StorageBlock) (site : Site StmtId)
    (condition : Expr) (thenBranch : Stmt) (elseBranch : Option Stmt) (walk : LocalWalk) :
    (ifElse site condition thenBranch elseBranch).renamed names around walk =
      .ifElse site (condition.withNames (renamedIn names (walk.block :: around)))
        (thenBranch.renamed names around walk)
        (renamedOption names around elseBranch (thenBranch.declares walk)) := by
  cases elseBranch <;> rfl

theorem renamed_forLoop (names : Storage → String) (around : List StorageBlock) (site : Site StmtId)
    (init : Option Stmt) (condition : Option Expr) (update : Option Stmt) (body : Stmt)
    (walk : LocalWalk) :
    (forLoop site init condition update body).renamed names around walk =
      let started := declaresOption init walk.enter
      .forLoop site (renamedOption names (walk.block :: around) init walk.enter)
        (condition.map (Expr.withNames (renamedIn names (started.block :: walk.block :: around))))
        (renamedOption names (walk.block :: around) update started)
        (body.renamed names (walk.block :: around) (declaresOption update started)) := by
  cases init <;> cases update <;> rfl

/-- The body of a method renamed; its outermost block has the parameters, too. -/
def renamedBody (names : Storage → String) (walk : LocalWalk) : Stmt → Stmt
  | .block site statements => .block site (renamedAll names [] statements walk)
  | other => other.renamed names [] walk

/-- The locals that a statement itself declares. -/
def declarations : Stmt → List VariableDecl
  | .declare _ declared => declared
  | .block .. | .ifElse .. | .whileLoop .. | .forLoop .. | .ret .. | .evaluate .. | .assign ..
  | .print .. | .breakLoop .. | .continueLoop .. | .skip .. => []

/-- The number of variables that a statement declares. -/
def localCount (stmt : Stmt) : Nat := (stmt.nodes.flatMap declarations).length

end Stmt

/-! ## Programs -/

namespace MethodDecl

/-- The walk that the body of a method starts with: the parameters are there. -/
def parameterWalk (method : MethodDecl) : LocalWalk :=
  { block := method.parameters.zipIdx.map fun pair => (pair.1.name, .parameter pair.2) }

/-- The method with its variables renamed. -/
def renamed (method : MethodDecl) (names : Storage → String) : MethodDecl :=
  { method with
    parameters := method.parameters.zipIdx.map fun pair =>
      { pair.1 with name := names (.parameter pair.2) }
    body := method.body.renamedBody names method.parameterWalk }

/-- The storages of a method's parameters and locals. -/
def storages (method : MethodDecl) : List Storage :=
  (List.range method.parameters.length).map Storage.parameter ++
    (List.range method.body.localCount).map Storage.body

end MethodDecl

/-- The class with the variables of its methods renamed; each method has a renaming of its own. -/
def ClassDecl.renamed (decl : ClassDecl) (names : Nat → Storage → String) : ClassDecl :=
  { decl with methods := decl.methods.zipIdx.map fun pair => pair.1.renamed (names pair.2) }

/-! ## Names -/

/-- The class that a written type names. -/
def TypeName.names : TypeName → List String
  | .primitive _ => []
  | .named name => [name]

/-- All names in a declaration. -/
def VariableDecl.names (decl : VariableDecl) : List String := decl.name :: decl.type.names

/-- The name that an expression itself has. -/
def Expr.ownNames : Expr → List String
  | .identifier _ name => [name]
  | .new _ className => [className]
  | .call _ _ method _ => [method]
  | .fieldAccess _ _ field => [field]
  | .literal .. | .this .. | .super .. | .unary .. | .binary .. | .step .. => []

/-- All names in a method. -/
def MethodDecl.names (method : MethodDecl) : List String :=
  method.name :: method.returnType.names ++ method.parameters.flatMap VariableDecl.names ++
    method.body.exprNodes.flatMap Expr.ownNames ++
      (method.body.nodes.flatMap Stmt.declarations).flatMap VariableDecl.names

/-- All names in a class. -/
def ClassDecl.names (decl : ClassDecl) : List String :=
  decl.name :: (decl.parent.map ParentName.name).toList ++
    decl.fields.flatMap (fun field => field.name :: field.type.names) ++
    decl.methods.flatMap MethodDecl.names

namespace Program

/-- The names that stand anywhere in a program. -/
def names (program : Program) : List String := program.classes.flatMap ClassDecl.names

/-- The names that the variables of each method, by the places of its class and of the method in it,
are given. -/
abbrev Renaming := Nat → Nat → Storage → String

/-- The classes of a program with all parameters and locals renamed. -/
def renamedClasses (program : Program) (given : Renaming) : List ClassDecl :=
  program.classes.zipIdx.map fun pair => pair.1.renamed (given pair.2)

/-- The names that a renaming gives to the parameters and locals of a program. -/
def newNames (program : Program) (given : Renaming) : List String :=
  program.classes.zipIdx.flatMap fun owner => owner.1.methods.zipIdx.flatMap fun method =>
    method.1.storages.map (given owner.2 method.2)

/-- Every parameter and local gets a name of its own that is new to the program. -/
structure Renames (program : Program) (given : Renaming) : Prop where
  distinct : (program.newNames given).Nodup
  fresh : ∀ name ∈ program.newNames given, name ∉ program.names

end Program

end Decaf
