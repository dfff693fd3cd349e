import Mathlib.Data.List.Forall2
import Decaf.Proofs.Tree.Acceptance

/-!
# How trees are written as JSON

A node is an object with a member for each of its parts. What is absent, false, empty or zero may be
left out where the format says so, and an object may have further members. So a tree can be written
in many ways, all of which the relations below admit. The numbers of nodes are not written; trees
that agree but for these are told to be alike by clearing all numbers.
-/

namespace Decaf

/-! ## Trees without numbers -/

namespace Expr

mutual

/-- The tree with all numbers cleared. -/
def unnumbered : Expr → Expr
  | .literal site value => .literal ⟨⟨0⟩, site.position⟩ value
  | .identifier site name => .identifier ⟨⟨0⟩, site.position⟩ name
  | .this site => .this ⟨⟨0⟩, site.position⟩
  | .super site => .super ⟨⟨0⟩, site.position⟩
  | .new site className => .new ⟨⟨0⟩, site.position⟩ className
  | .call site none method arguments =>
    .call ⟨⟨0⟩, site.position⟩ none method (unnumberedAll arguments)
  | .call site (some receiver) method arguments =>
    .call ⟨⟨0⟩, site.position⟩ (some (unnumbered receiver)) method (unnumberedAll arguments)
  | .fieldAccess site receiver field =>
    .fieldAccess ⟨⟨0⟩, site.position⟩ (unnumbered receiver) field
  | .unary site operator operand => .unary ⟨⟨0⟩, site.position⟩ operator (unnumbered operand)
  | .binary site operator left right =>
    .binary ⟨⟨0⟩, site.position⟩ operator (unnumbered left) (unnumbered right)
  | .step site operator yieldsNew target =>
    .step ⟨⟨0⟩, site.position⟩ operator yieldsNew (unnumbered target)
termination_by structural expr => expr

/-- Expressions without their numbers. -/
def unnumberedAll : List Expr → List Expr
  | [] => []
  | expr :: rest => unnumbered expr :: unnumberedAll rest
termination_by structural exprs => exprs

end

theorem unnumberedAll_eq (exprs : List Expr) : unnumberedAll exprs = exprs.map unnumbered := by
  induction exprs with
  | nil => rfl
  | cons expr rest ih => rw [unnumberedAll, ih, List.map_cons]

theorem unnumbered_call (site : Site ExprId) (receiver : Option Expr) (method : String)
    (arguments : List Expr) :
    (call site receiver method arguments).unnumbered =
      .call ⟨⟨0⟩, site.position⟩ (receiver.map unnumbered) method (arguments.map unnumbered) := by
  cases receiver <;> simp [unnumbered, unnumberedAll_eq]

end Expr

namespace Stmt

mutual

/-- The tree with all numbers cleared. -/
def unnumbered : Stmt → Stmt
  | .block site statements => .block ⟨⟨0⟩, site.position⟩ (unnumberedAll statements)
  | .ifElse site condition thenBranch none =>
    .ifElse ⟨⟨0⟩, site.position⟩ condition.unnumbered (unnumbered thenBranch) none
  | .ifElse site condition thenBranch (some elseBranch) =>
    .ifElse ⟨⟨0⟩, site.position⟩ condition.unnumbered (unnumbered thenBranch)
      (some (unnumbered elseBranch))
  | .whileLoop site condition body =>
    .whileLoop ⟨⟨0⟩, site.position⟩ condition.unnumbered (unnumbered body)
  | .forLoop site init condition update body =>
    .forLoop ⟨⟨0⟩, site.position⟩
      (match init with
        | some init => some (unnumbered init)
        | none => none)
      (condition.map Expr.unnumbered)
      (match update with
        | some update => some (unnumbered update)
        | none => none)
      (unnumbered body)
  | .ret site value => .ret ⟨⟨0⟩, site.position⟩ (value.map Expr.unnumbered)
  | .evaluate site expr => .evaluate ⟨⟨0⟩, site.position⟩ expr.unnumbered
  | .assign site target value => .assign ⟨⟨0⟩, site.position⟩ target.unnumbered value.unnumbered
  | .declare site declared => .declare ⟨⟨0⟩, site.position⟩ declared
  | .print site value => .print ⟨⟨0⟩, site.position⟩ value.unnumbered
  | .breakLoop site => .breakLoop ⟨⟨0⟩, site.position⟩
  | .continueLoop site => .continueLoop ⟨⟨0⟩, site.position⟩
  | .skip site => .skip ⟨⟨0⟩, site.position⟩
termination_by structural stmt => stmt

/-- Statements without their numbers. -/
def unnumberedAll : List Stmt → List Stmt
  | [] => []
  | stmt :: rest => unnumbered stmt :: unnumberedAll rest
termination_by structural stmts => stmts

end

theorem unnumberedAll_eq (statements : List Stmt) :
    unnumberedAll statements = statements.map unnumbered := by
  induction statements with
  | nil => rfl
  | cons stmt rest ih => rw [unnumberedAll, ih, List.map_cons]

theorem unnumbered_block (site : Site StmtId) (statements : List Stmt) :
    (block site statements).unnumbered =
      .block ⟨⟨0⟩, site.position⟩ (statements.map unnumbered) := by
  rw [unnumbered, unnumberedAll_eq]

theorem unnumbered_ifElse (site : Site StmtId) (condition : Expr) (thenBranch : Stmt)
    (elseBranch : Option Stmt) :
    (ifElse site condition thenBranch elseBranch).unnumbered =
      .ifElse ⟨⟨0⟩, site.position⟩ condition.unnumbered thenBranch.unnumbered
        (elseBranch.map unnumbered) := by
  cases elseBranch <;> rfl

theorem unnumbered_forLoop (site : Site StmtId) (init : Option Stmt) (condition : Option Expr)
    (update : Option Stmt) (body : Stmt) : (forLoop site init condition update body).unnumbered =
      .forLoop ⟨⟨0⟩, site.position⟩ (init.map unnumbered) (condition.map Expr.unnumbered)
        (update.map unnumbered) body.unnumbered := by
  cases init <;> cases update <;> rfl

end Stmt

/-- A method without the numbers of its nodes. -/
def MethodDecl.unnumbered (method : MethodDecl) : MethodDecl :=
  { method with body := method.body.unnumbered }

/-- A class without the numbers of its nodes. -/
def ClassDecl.unnumbered (decl : ClassDecl) : ClassDecl :=
  { decl with methods := decl.methods.map MethodDecl.unnumbered }

namespace Encoding

open Json (member?)

variable (members : List (String × Json))

/-! ## Plain members -/

/-- A member is a text. -/
def Text (name text : String) : Prop := member? name members = some (.string text)

/-- A text that may be absent, by being left out or `null`. -/
def OptionalText (name : String) : Option String → Prop
  | some text => Text members name text
  | none => member? name members = none ∨ member? name members = some .null

/-- A truth value; `false` may be left out. -/
def Flag (name : String) (flag : Bool) : Prop :=
  member? name members = some (.boolean flag) ∨ flag = false ∧ member? name members = none

/-- A line or a column in 32 bits; zero may be left out. -/
def Coordinate (name : String) (value : Nat) : Prop :=
  value ≤ 0xFFFFFFFF ∧
    (member? name members = some (.number (.integer value)) ∨
      value = 0 ∧ member? name members = none)

/-- Where a node or declaration starts. -/
structure Located (position : Position) : Prop where
  line : Coordinate members "line" position.line
  column : Coordinate members "col" position.column

/-- A visibility; `public` may be left out or `null`. -/
def Visible (visibility : Visibility) : Prop :=
  Text members "visibility" visibility.name ∨ visibility = .publicMember ∧
    OptionalText members "visibility" none

/-- The name of a type. -/
def Typed (name : String) (type : TypeName) : Prop :=
  ∃ written, Text members name written ∧ TypeName.ofName written = type

/-- The elements of an array; an empty one may be left out. -/
def Sequence (name : String) (values : List Json) : Prop :=
  member? name members = some (.array values) ∨ values = [] ∧ member? name members = none

/-- The elements of an array of nodes; an empty one may be left out or `null`. -/
def Nodes (name : String) (values : List Json) : Prop :=
  member? name members = some (.array values) ∨
    values = [] ∧ (member? name members = none ∨ member? name members = some .null)

/-- A child node that may be absent, by being left out or `null`. -/
def Part (name : String) : Option Json → Prop
  | some value => member? name members = some value
  | none => member? name members = none ∨ member? name members = some .null

/-- A node of a given kind. -/
structure Node (kind : String) (position : Position) : Prop where
  unique : (members.map Prod.fst).Nodup
  kind : Text members "kind" kind
  located : Located members position

/-- What a double is written as: itself, or an integer that it is nearest to. -/
inductive Double : Binary64 → Json.Number → Prop where
  | double (value : Binary64) : Double value (.double value)
  | integer (value : Int) : Double (.ofInt value) (.integer value)

/-- The type and the value of a constant. -/
inductive Constant : Literal → Prop where
  | int {value : Int32} (type : Text members "type" "int")
      (written : member? "value" members = some (.number (.integer value.toInt))) :
      Constant (.int value)
  | double {value : Binary64} {number : Json.Number}
      (type : Text members "type" "double" ∨ Text members "type" "float")
      (stands : Double value number)
      (written : member? "value" members = some (.number number)) : Constant (.double value)
  | bool {value : Bool} (type : Text members "type" "bool" ∨ Text members "type" "boolean")
      (written : member? "value" members = some (.boolean value)) : Constant (.bool value)
  | string {value : String} (type : Text members "type" "string")
      (written : member? "value" members = some (.string value)) : Constant (.string value)
  | null (type : Text members "type" "null") : Constant .null

end Encoding

open Encoding
open Json (member?)

/-! ## Nodes -/

/-- A value that an expression is written as. -/
inductive EncodesExpr : Expr → Json → Prop where
  | literal {site value members} (node : Node members "Literal" site.position)
      (constant : Constant members value) : EncodesExpr (.literal site value) (.object members)
  | identifier {site name members} (node : Node members "Identifier" site.position)
      (named : Text members "name" name) : EncodesExpr (.identifier site name) (.object members)
  | this {site members} (node : Node members "This" site.position) :
      EncodesExpr (.this site) (.object members)
  | super {site members} (node : Node members "Super" site.position) :
      EncodesExpr (.super site) (.object members)
  | new {site className members} (node : Node members "New" site.position)
      (named : Text members "class" className) : EncodesExpr (.new site className) (.object members)
  | call {site receiver method arguments members receiverValue values}
      (node : Node members "Call" site.position)
      (named : Text members "method" method) (receiverPart : Part members "receiver" receiverValue)
      (receiverEncoded : Option.Rel EncodesExpr receiver receiverValue)
      (argumentNodes : Nodes members "args" values)
      (argumentsEncoded : List.Forall₂ EncodesExpr arguments values) :
      EncodesExpr (.call site receiver method arguments) (.object members)
  | fieldAccess {site receiver field members receiverValue}
      (node : Node members "FieldAccess" site.position)
      (named : Text members "field" field)
      (receiverPart : Part members "receiver" (some receiverValue))
      (receiverEncoded : EncodesExpr receiver receiverValue) :
      EncodesExpr (.fieldAccess site receiver field) (.object members)
  | unary {site operator operand members operandValue} (node : Node members "UnaryOp" site.position)
      (spelled : Text members "op" operator.symbol)
      (operandPart : Part members "operand" (some operandValue))
      (operandEncoded : EncodesExpr operand operandValue) :
      EncodesExpr (.unary site operator operand) (.object members)
  | binary {site operator left right members leftValue rightValue}
      (node : Node members "BinaryOp" site.position)
      (spelled : Text members "op" operator.symbol) (leftPart : Part members "lhs" (some leftValue))
      (leftEncoded : EncodesExpr left leftValue) (rightPart : Part members "rhs" (some rightValue))
      (rightEncoded : EncodesExpr right rightValue) :
      EncodesExpr (.binary site operator left right) (.object members)
  | step {site operator yieldsNew target members targetValue}
      (node : Node members "IncDec" site.position)
      (spelled : Text members "op" operator.symbol) (before : Flag members "prefix" yieldsNew)
      (targetPart : Part members "target" (some targetValue))
      (targetEncoded : EncodesExpr target targetValue) :
      EncodesExpr (.step site operator yieldsNew target) (.object members)

/-- A value that the declaration of a parameter or local is written as. -/
inductive EncodesVariable : VariableDecl → Json → Prop where
  | object {decl members} (named : Text members "name" decl.name)
      (typed : Typed members "type" decl.type)
      (notVoid : decl.type.isVoid = false) (located : Located members decl.position) :
      EncodesVariable decl (.object members)

/-- A value that a statement is written as. -/
inductive EncodesStmt : Stmt → Json → Prop where
  | block {site statements members values} (node : Node members "Block" site.position)
      (nodes : Nodes members "stmts" values)
      (encoded : List.Forall₂ EncodesStmt statements values) :
      EncodesStmt (.block site statements) (.object members)
  | ifElse {site condition thenBranch elseBranch members conditionValue thenValue elseValue}
      (node : Node members "If" site.position)
      (conditionPart : Part members "cond" (some conditionValue))
      (conditionEncoded : EncodesExpr condition conditionValue)
      (thenPart : Part members "then" (some thenValue))
      (thenEncoded : EncodesStmt thenBranch thenValue) (elsePart : Part members "else" elseValue)
      (elseEncoded : Option.Rel EncodesStmt elseBranch elseValue) :
      EncodesStmt (.ifElse site condition thenBranch elseBranch) (.object members)
  | whileLoop {site condition body members conditionValue bodyValue}
      (node : Node members "While" site.position)
      (conditionPart : Part members "cond" (some conditionValue))
      (conditionEncoded : EncodesExpr condition conditionValue)
      (bodyPart : Part members "body" (some bodyValue))
      (bodyEncoded : EncodesStmt body bodyValue) : EncodesStmt (.whileLoop site condition body)
      (.object members)
  | forLoop {site init condition update body members initValue conditionValue updateValue bodyValue}
      (node : Node members "For" site.position) (initPart : Part members "init" initValue)
      (initEncoded : Option.Rel EncodesStmt init initValue)
      (conditionPart : Part members "cond" conditionValue)
      (conditionEncoded : Option.Rel EncodesExpr condition conditionValue)
      (updatePart : Part members "update" updateValue)
      (updateEncoded : Option.Rel EncodesStmt update updateValue)
      (bodyPart : Part members "body" (some bodyValue)) (bodyEncoded : EncodesStmt body bodyValue) :
      EncodesStmt (.forLoop site init condition update body) (.object members)
  | ret {site value members written} (node : Node members "Return" site.position)
      (part : Part members "value" written)
      (encoded : Option.Rel EncodesExpr value written) :
      EncodesStmt (.ret site value) (.object members)
  | evaluate {site expr members written} (node : Node members "ExprStmt" site.position)
      (part : Part members "expr" (some written)) (encoded : EncodesExpr expr written) :
      EncodesStmt (.evaluate site expr) (.object members)
  | assign {site target value members targetValue valueValue}
      (node : Node members "Assign" site.position)
      (targetPart : Part members "target" (some targetValue))
      (targetEncoded : EncodesExpr target targetValue)
      (valuePart : Part members "value" (some valueValue))
      (valueEncoded : EncodesExpr value valueValue) :
      EncodesStmt (.assign site target value) (.object members)
  | declare {site declared members values} (node : Node members "VarDeclStmt" site.position)
      (written : member? "vars" members = some (.array values))
      (encoded : List.Forall₂ EncodesVariable declared values) :
      EncodesStmt (.declare site declared) (.object members)
  | print {site value members written} (node : Node members "Print" site.position)
      (part : Part members "value" (some written)) (encoded : EncodesExpr value written) :
      EncodesStmt (.print site value) (.object members)
  | breakLoop {site members} (node : Node members "Break" site.position) :
      EncodesStmt (.breakLoop site) (.object members)
  | continueLoop {site members} (node : Node members "Continue" site.position) :
      EncodesStmt (.continueLoop site) (.object members)
  | skip {site members} (node : Node members "Skip" site.position) :
      EncodesStmt (.skip site) (.object members)

/-! ## Declarations -/

/-- A value that the declaration of a field is written as. -/
inductive EncodesField : FieldDecl → Json → Prop where
  | object {decl members} (named : Text members "name" decl.name)
      (typed : Typed members "type" decl.type)
      (notVoid : decl.type.isVoid = false) (visible : Visible members decl.visibility)
      (isStatic : Flag members "static" decl.isStatic) (located : Located members decl.position) :
      EncodesField decl (.object members)

/-- A value that a method is written as. -/
inductive EncodesMethod : MethodDecl → Json → Prop where
  | object {method members values body} (named : Text members "name" method.name)
      (typed : Typed members "returnType" method.returnType)
      (parameters : Sequence members "params" values)
      (parametersEncoded : List.Forall₂ EncodesVariable method.parameters values)
      (isBlock : method.body.isBlock = true) (written : member? "body" members = some body)
      (bodyEncoded : EncodesStmt method.body body) (visible : Visible members method.visibility)
      (isStatic : Flag members "static" method.isStatic)
      (located : Located members method.position) : EncodesMethod method (.object members)

/-- A value that a class is written as. The name of the parent class has no position of its own. -/
inductive EncodesClass : ClassDecl → Json → Prop where
  | object {decl members fields methods} (named : Text members "name" decl.name)
      (parent : OptionalText members "parent" (decl.parent.map ParentName.name))
      (parentAt : ∀ parent ∈ decl.parent, parent.position = decl.position)
      (fieldList : Sequence members "fields" fields)
      (fieldsEncoded : List.Forall₂ EncodesField decl.fields fields)
      (methodNodes : Nodes members "methods" methods)
      (methodsEncoded : List.Forall₂ EncodesMethod decl.methods methods)
      (located : Located members decl.position) : EncodesClass decl (.object members)

/-- A value that the classes of a program are written as. -/
inductive EncodesClasses : List ClassDecl → Json → Prop where
  | object {decls members values} (written : member? "classes" members = some (.array values))
      (encoded : List.Forall₂ EncodesClass decls values) : EncodesClasses decls (.object members)

end Decaf
