import Decaf.Proofs.Tree.Encoding

/-!
# Every tree can be written

One way to write a tree leaves nothing out: every absent part is `null`, and members are in the
order of their names. It works for all trees whose lines and columns fit in 32 bits and that
decoding can lead to: no variable or field is of type `void`, bodies are blocks, the names of
classes are not those of primitives, and a parent has the position of its class.
-/

namespace Decaf

/-- The line and the column fit in 32 bits. -/
def Position.Fits (position : Position) : Prop :=
  position.line ≤ 0xFFFFFFFF ∧ position.column ≤ 0xFFFFFFFF

instance (position : Position) : Decidable position.Fits := inferInstanceAs (Decidable (_ ∧ _))

/-- The name of a type is the name of this type: no class is named like a primitive. -/
def TypeName.Writable (type : TypeName) : Prop := ofName (toString type) = type

instance (type : TypeName) : Decidable type.Writable := inferInstanceAs (Decidable (_ = _))

namespace Encoding

open Json (member?)

/-- A number in 32 bits. -/
def coordinate (value : Nat) : Json := .number (.integer value)

/-- The word for the type of a constant. -/
def typeWord : Literal → String
  | .int _ => "int"
  | .double _ => "double"
  | .bool _ => "bool"
  | .string _ => "string"
  | .null => "null"

/-- The value of a literal. -/
def constant : Literal → Json
  | .int value => .number (.integer value.toInt)
  | .double value => .number (.double value)
  | .bool value => .boolean value
  | .string value => .string value
  | .null => .null

/-! ## The canonical form -/

mutual

/-- An expression as JSON. -/
def ofExpr : Expr → Json
  | .literal site value =>
    .object [("col", coordinate site.position.column), ("kind", .string "Literal"),
      ("line", coordinate site.position.line), ("type", .string (typeWord value)),
      ("value", constant value)]
  | .identifier site name =>
    .object [("col", coordinate site.position.column), ("kind", .string "Identifier"),
      ("line", coordinate site.position.line), ("name", .string name)]
  | .this site =>
    .object [("col", coordinate site.position.column), ("kind", .string "This"),
      ("line", coordinate site.position.line)]
  | .super site =>
    .object [("col", coordinate site.position.column), ("kind", .string "Super"),
      ("line", coordinate site.position.line)]
  | .new site className =>
    .object [("class", .string className), ("col", coordinate site.position.column),
      ("kind", .string "New"), ("line", coordinate site.position.line)]
  | .call site receiver method arguments =>
    .object [("args", .array (ofExprs arguments)), ("col", coordinate site.position.column),
      ("kind", .string "Call"), ("line", coordinate site.position.line), ("method", .string method),
      ("receiver", match receiver with
        | some receiver => ofExpr receiver
        | none => .null)]
  | .fieldAccess site receiver field =>
    .object [("col", coordinate site.position.column), ("field", .string field),
      ("kind", .string "FieldAccess"), ("line", coordinate site.position.line),
      ("receiver", ofExpr receiver)]
  | .unary site operator operand =>
    .object [("col", coordinate site.position.column), ("kind", .string "UnaryOp"),
      ("line", coordinate site.position.line), ("op", .string operator.symbol),
      ("operand", ofExpr operand)]
  | .binary site operator left right =>
    .object [("col", coordinate site.position.column), ("kind", .string "BinaryOp"),
      ("lhs", ofExpr left), ("line", coordinate site.position.line),
      ("op", .string operator.symbol), ("rhs", ofExpr right)]
  | .step site operator yieldsNew target =>
    .object [("col", coordinate site.position.column), ("kind", .string "IncDec"),
      ("line", coordinate site.position.line), ("op", .string operator.symbol),
      ("prefix", .boolean yieldsNew), ("target", ofExpr target)]
termination_by structural expr => expr

/-- Expressions are written one by one. -/
def ofExprs : List Expr → List Json
  | [] => []
  | expr :: rest => ofExpr expr :: ofExprs rest
termination_by structural exprs => exprs

end

/-- An absent expression is written as `null`. -/
def ofOptionalExpr (expr : Option Expr) : Json := (expr.map ofExpr).getD .null

/-- A declared variable. -/
def ofVariable (decl : VariableDecl) : Json :=
  .object [("col", coordinate decl.position.column), ("line", coordinate decl.position.line),
    ("name", .string decl.name), ("type", .string (toString decl.type))]

mutual

/-- A statement as JSON. -/
def ofStmt : Stmt → Json
  | .block site statements =>
    .object [("col", coordinate site.position.column), ("kind", .string "Block"),
      ("line", coordinate site.position.line), ("stmts", .array (ofStmts statements))]
  | .ifElse site condition thenBranch elseBranch =>
    .object [("col", coordinate site.position.column), ("cond", ofExpr condition),
      ("else", match elseBranch with
        | some elseBranch => ofStmt elseBranch
        | none => .null),
      ("kind", .string "If"), ("line", coordinate site.position.line), ("then", ofStmt thenBranch)]
  | .whileLoop site condition body =>
    .object [("body", ofStmt body), ("col", coordinate site.position.column),
      ("cond", ofExpr condition), ("kind", .string "While"),
      ("line", coordinate site.position.line)]
  | .forLoop site init condition update body =>
    .object [("body", ofStmt body), ("col", coordinate site.position.column),
      ("cond", ofOptionalExpr condition), ("init", match init with
        | some init => ofStmt init
        | none => .null),
      ("kind", .string "For"), ("line", coordinate site.position.line),
      ("update", match update with
        | some update => ofStmt update
        | none => .null)]
  | .ret site value =>
    .object [("col", coordinate site.position.column), ("kind", .string "Return"),
      ("line", coordinate site.position.line), ("value", ofOptionalExpr value)]
  | .evaluate site expr =>
    .object [("col", coordinate site.position.column), ("expr", ofExpr expr),
      ("kind", .string "ExprStmt"), ("line", coordinate site.position.line)]
  | .assign site target value =>
    .object [("col", coordinate site.position.column), ("kind", .string "Assign"),
      ("line", coordinate site.position.line), ("target", ofExpr target), ("value", ofExpr value)]
  | .declare site declared =>
    .object [("col", coordinate site.position.column), ("kind", .string "VarDeclStmt"),
      ("line", coordinate site.position.line), ("vars", .array (declared.map ofVariable))]
  | .print site value =>
    .object [("col", coordinate site.position.column), ("kind", .string "Print"),
      ("line", coordinate site.position.line), ("value", ofExpr value)]
  | .breakLoop site =>
    .object [("col", coordinate site.position.column), ("kind", .string "Break"),
      ("line", coordinate site.position.line)]
  | .continueLoop site =>
    .object [("col", coordinate site.position.column), ("kind", .string "Continue"),
      ("line", coordinate site.position.line)]
  | .skip site =>
    .object [("col", coordinate site.position.column), ("kind", .string "Skip"),
      ("line", coordinate site.position.line)]
termination_by structural stmt => stmt

/-- Statements are written one by one. -/
def ofStmts : List Stmt → List Json
  | [] => []
  | stmt :: rest => ofStmt stmt :: ofStmts rest
termination_by structural statements => statements

end

/-- A declared field. -/
def ofField (decl : FieldDecl) : Json :=
  .object [("col", coordinate decl.position.column), ("line", coordinate decl.position.line),
    ("name", .string decl.name), ("static", .boolean decl.isStatic),
    ("type", .string (toString decl.type)), ("visibility", .string decl.visibility.name)]

/-- A declared method. -/
def ofMethod (method : MethodDecl) : Json :=
  .object [("body", ofStmt method.body), ("col", coordinate method.position.column),
    ("line", coordinate method.position.line), ("name", .string method.name),
    ("params", .array (method.parameters.map ofVariable)),
    ("returnType", .string (toString method.returnType)),
    ("static", .boolean method.isStatic), ("visibility", .string method.visibility.name)]

/-- The name of a parent; no parent is written as `null`. -/
def ofParent : Option ParentName → Json
  | some parent => .string parent.name
  | none => .null

/-- A class with its members. -/
def ofClass (decl : ClassDecl) : Json :=
  .object [("col", coordinate decl.position.column), ("fields", .array (decl.fields.map ofField)),
    ("line", coordinate decl.position.line), ("methods", .array (decl.methods.map ofMethod)),
    ("name", .string decl.name),
    ("parent", ofParent decl.parent)]

/-- The classes of a program as JSON. -/
def ofClasses (decls : List ClassDecl) : Json := .object [("classes", .array (decls.map ofClass))]

theorem ofExprs_eq (exprs : List Expr) : ofExprs exprs = exprs.map ofExpr := by
  induction exprs with
  | nil => rfl
  | cons expr rest ih => rw [ofExprs, ih, List.map_cons]

theorem ofStmts_eq (statements : List Stmt) : ofStmts statements = statements.map ofStmt := by
  induction statements with
  | nil => rfl
  | cons stmt rest ih => rw [ofStmts, ih, List.map_cons]

theorem ofExpr_call (site : Site ExprId) (receiver : Option Expr) (method : String)
    (arguments : List Expr) :
    ofExpr (.call site receiver method arguments) =
      .object [("args", .array (arguments.map ofExpr)), ("col", coordinate site.position.column),
        ("kind", .string "Call"), ("line", coordinate site.position.line),
          ("method", .string method),
        ("receiver", ofOptionalExpr receiver)] := by
  cases receiver <;> simp [ofExpr, ofExprs_eq, ofOptionalExpr]

theorem ofStmt_ifElse (site : Site StmtId) (condition : Expr) (thenBranch : Stmt)
    (elseBranch : Option Stmt) :
    ofStmt (.ifElse site condition thenBranch elseBranch) =
      .object [("col", coordinate site.position.column), ("cond", ofExpr condition),
        ("else", (elseBranch.map ofStmt).getD .null), ("kind", .string "If"),
        ("line", coordinate site.position.line), ("then", ofStmt thenBranch)] := by
  cases elseBranch <;> rfl

theorem ofStmt_forLoop (site : Site StmtId) (init : Option Stmt) (condition : Option Expr)
    (update : Option Stmt) (body : Stmt) :
    ofStmt (.forLoop site init condition update body) =
      .object [("body", ofStmt body), ("col", coordinate site.position.column),
        ("cond", ofOptionalExpr condition), ("init", (init.map ofStmt).getD .null),
        ("kind", .string "For"), ("line", coordinate site.position.line),
        ("update", (update.map ofStmt).getD .null)] := by
  cases init <;> cases update <;> rfl

end Encoding

/-! ## What can be written -/

/-- A variable that can be written: its type has a name and is not `void`. -/
structure VariableDecl.Writable (decl : VariableDecl) : Prop where
  type : decl.type.Writable
  notVoid : decl.type.isVoid = false
  position : decl.position.Fits

instance (decl : VariableDecl) : Decidable decl.Writable :=
  decidable_of_iff (decl.type.Writable ∧ decl.type.isVoid = false ∧ decl.position.Fits)
    ⟨fun holds => ⟨holds.1, holds.2.1, holds.2.2⟩, fun writable =>
      ⟨writable.type, writable.notVoid, writable.position⟩⟩

/-- An expression that can be written. -/
def Expr.Writable (expr : Expr) : Prop := ∀ node ∈ expr.nodes, node.position.Fits

/-- The variables that a statement declares. -/
def Stmt.declared : Stmt → List VariableDecl
  | .declare _ declared => declared
  | .block .. | .ifElse .. | .whileLoop .. | .forLoop .. | .ret .. | .evaluate .. | .assign ..
  | .print .. | .breakLoop .. | .continueLoop .. | .skip .. => []

/-- A statement that can be written. -/
structure Stmt.Writable (stmt : Stmt) : Prop where
  positions : ∀ node ∈ stmt.nodes, node.position.Fits
  declared : ∀ node ∈ stmt.nodes, ∀ decl ∈ node.declared, decl.Writable
  exprs : ∀ expr ∈ stmt.exprNodes, expr.position.Fits

/-- A field that can be written. -/
structure FieldDecl.Writable (decl : FieldDecl) : Prop where
  type : decl.type.Writable
  notVoid : decl.type.isVoid = false
  position : decl.position.Fits

/-- A method that can be written. -/
structure MethodDecl.Writable (method : MethodDecl) : Prop where
  returnType : method.returnType.Writable
  parameters : ∀ decl ∈ method.parameters, decl.Writable
  isBlock : method.body.isBlock = true
  body : method.body.Writable
  position : method.position.Fits

/-- A class that can be written. -/
structure ClassDecl.Writable (decl : ClassDecl) : Prop where
  parent : ∀ parent ∈ decl.parent, parent.position = decl.position
  fields : ∀ field ∈ decl.fields, field.Writable
  methods : ∀ method ∈ decl.methods, method.Writable
  position : decl.position.Fits

namespace Encoding

open Json (member?)

variable {members : List (String × Json)}
variable {name : String} {Item : Type}

theorem located_of_members {position : Position} (fits : position.Fits)
    (line : member? "line" members = some (coordinate position.line))
    (column : member? "col" members = some (coordinate position.column)) :
    Located members position :=
  ⟨⟨fits.1, .inl line⟩, ⟨fits.2, .inl column⟩⟩

theorem typed_of_members {type : TypeName} (writable : type.Writable)
    (written : member? name members = some (.string (toString type))) : Typed members name type :=
  ⟨_, written, writable⟩

theorem node_of_members {kind : String} {position : Position} (fits : position.Fits)
    (unique : (members.map Prod.fst).Nodup) (written : member? "kind" members = some (.string kind))
    (line : member? "line" members = some (coordinate position.line))
    (column : member? "col" members = some (coordinate position.column)) :
    Node members kind position :=
  ⟨unique, written, located_of_members fits line column⟩

theorem constant_of_members {value : Literal}
    (type : member? "type" members = some (.string (typeWord value)))
    (written : member? "value" members = some (constant value)) : Constant members value := by
  cases value with
  | int value => exact .int type written
  | double value => exact .double (.inl type) (.double value) written
  | bool value => exact .bool (.inl type) written
  | string value => exact .string type written
  | null => exact .null type

theorem optionalText_of_member {parent : Option ParentName}
    (written : member? name members = some (ofParent parent)) :
    OptionalText members name (parent.map ParentName.name) := by
  cases parent with
  | some parent => exact written
  | none => exact .inr written

theorem forall₂_map {rel : Item → Json → Prop} {write : Item → Json} {items : List Item}
    (each : ∀ item ∈ items, rel item (write item)) : List.Forall₂ rel items (items.map write) :=
  List.forall₂_map_right_iff.mpr (List.forall₂_same.mpr each)

/-- A child that may be absent is written as itself or as `null`. -/
theorem part_of_member {write : Item → Json} {item : Option Item}
    (written : member? name members = some ((item.map write).getD .null)) :
    Part members name (item.map write) := by
  cases item with
  | some inner => exact written
  | none => exact .inr written

theorem optionRel_map {rel : Item → Json → Prop} {write : Item → Json} {item : Option Item}
    (each : ∀ inner ∈ item, rel inner (write inner)) : Option.Rel rel item (item.map write) := by
  cases item with
  | some inner => exact .some (each inner rfl)
  | none => exact .none

end Encoding

open Encoding

namespace Expr

theorem Writable.child {expr child : Expr} (writable : expr.Writable)
    (isChild : child ∈ expr.children) : child.Writable :=
  fun node isNode => writable node (mem_nodes_iff.mpr (.inr ⟨child, isChild, isNode⟩))

theorem encodes_ofExpr (expr : Expr) (writable : expr.Writable) :
    EncodesExpr expr (ofExpr expr) := by
  have fits : expr.position.Fits := writable expr (self_mem_nodes expr)
  induction expr with
  | literal site value =>
    exact .literal (node_of_members fits (by simp) rfl rfl rfl) (constant_of_members rfl rfl)
  | identifier site name => exact .identifier (node_of_members fits (by simp) rfl rfl rfl) rfl
  | this site => exact .this (node_of_members fits (by simp) rfl rfl rfl)
  | super site => exact .super (node_of_members fits (by simp) rfl rfl rfl)
  | new site className => exact .new (node_of_members fits (by simp) rfl rfl rfl) rfl
  | call site receiver method arguments receiverIh argumentsIh =>
    have receiverEncodes : ∀ inner ∈ receiver, EncodesExpr inner (ofExpr inner) :=
      fun inner isReceiver =>
        have innerWritable := writable.child (by simp [children, Option.mem_def.mp isReceiver])
        receiverIh inner isReceiver innerWritable (innerWritable inner (self_mem_nodes inner))
    have argumentsEncode : ∀ argument ∈ arguments, EncodesExpr argument (ofExpr argument) :=
      fun argument isArgument =>
        have argumentWritable := writable.child (by simp [children, isArgument])
        argumentsIh argument isArgument argumentWritable
          (argumentWritable argument (self_mem_nodes argument))
    rw [ofExpr_call]
    exact .call (node_of_members fits (by simp) rfl rfl rfl) rfl (part_of_member rfl)
      (optionRel_map receiverEncodes) (.inl rfl) (forall₂_map argumentsEncode)
  | fieldAccess site receiver field ih =>
    have inner : receiver.Writable := writable.child (by simp [children])
    exact .fieldAccess (node_of_members fits (by simp) rfl rfl rfl) rfl rfl
      (ih inner (inner _ (self_mem_nodes _)))
  | unary site operator operand ih =>
    have inner : operand.Writable := writable.child (by simp [children])
    exact .unary (node_of_members fits (by simp) rfl rfl rfl) rfl rfl
      (ih inner (inner _ (self_mem_nodes _)))
  | binary site operator left right leftIh rightIh =>
    have inLeft : left.Writable := writable.child (by simp [children])
    have inRight : right.Writable := writable.child (by simp [children])
    exact .binary (node_of_members fits (by simp) rfl rfl rfl) rfl rfl
      (leftIh inLeft (inLeft _ (self_mem_nodes _)))
      rfl (rightIh inRight (inRight _ (self_mem_nodes _)))
  | step site operator yieldsNew target ih =>
    have inner : target.Writable := writable.child (by simp [children])
    exact .step (node_of_members fits (by simp) rfl rfl rfl) rfl (.inl rfl) rfl
      (ih inner (inner _ (self_mem_nodes _)))

end Expr

theorem VariableDecl.encodes_ofVariable {decl : VariableDecl} (writable : decl.Writable) :
    EncodesVariable decl (ofVariable decl) :=
  .object rfl (typed_of_members writable.type rfl) writable.notVoid
    (located_of_members writable.position rfl rfl)

namespace Stmt

theorem Writable.child {stmt child : Stmt} (writable : stmt.Writable)
    (isChild : child ∈ stmt.children) : child.Writable where
  positions node isNode :=
    writable.positions node (mem_nodes_iff.mpr (.inr ⟨child, isChild, isNode⟩))
  declared node isNode := writable.declared node (mem_nodes_iff.mpr (.inr ⟨child, isChild, isNode⟩))
  exprs expr isExpr := writable.exprs expr (mem_exprNodes_iff.mpr (.inr ⟨child, isChild, isExpr⟩))

/-- The expressions in a statement that can be written are written. -/
theorem Writable.expr {stmt : Stmt} (writable : stmt.Writable) {expr : Expr}
    (isExpr : expr ∈ stmt.exprs) : EncodesExpr expr (ofExpr expr) :=
  expr.encodes_ofExpr fun node isNode =>
    writable.exprs node (mem_exprNodes_iff.mpr (.inl ⟨expr, isExpr, isNode⟩))

theorem encodes_ofStmt (stmt : Stmt) (writable : stmt.Writable) :
    EncodesStmt stmt (ofStmt stmt) := by
  have fits : stmt.position.Fits := writable.positions stmt (self_mem_nodes stmt)
  induction stmt with
  | block site statements ih =>
    have each : ∀ stmt ∈ statements, EncodesStmt stmt (ofStmt stmt) := fun stmt isStmt =>
      have inner := writable.child (by simpa [children] using isStmt)
      ih stmt isStmt inner (inner.positions stmt (self_mem_nodes stmt))
    have arrayEncodes : List.Forall₂ EncodesStmt statements (ofStmts statements) := by
      rw [ofStmts_eq]
      exact forall₂_map each
    exact .block (node_of_members fits (by simp) rfl rfl rfl) (.inl rfl) arrayEncodes
  | ifElse site condition thenBranch elseBranch thenIh elseIh =>
    have thenWritable : thenBranch.Writable := writable.child (by simp [children])
    have elseEncodes : ∀ stmt ∈ elseBranch, EncodesStmt stmt (ofStmt stmt) := fun stmt isElse =>
      have inner := writable.child (by simp [children, Option.mem_def.mp isElse])
      elseIh stmt isElse inner (inner.positions stmt (self_mem_nodes stmt))
    rw [ofStmt_ifElse]
    exact .ifElse (node_of_members fits (by simp) rfl rfl rfl) rfl
      (writable.expr (by simp [exprs])) rfl
      (thenIh thenWritable (thenWritable.positions _ (self_mem_nodes _)))
      (part_of_member rfl) (optionRel_map elseEncodes)
  | whileLoop site condition body ih =>
    have inner : body.Writable := writable.child (by simp [children])
    exact .whileLoop (node_of_members fits (by simp) rfl rfl rfl) rfl
      (writable.expr (by simp [exprs])) rfl (ih inner (inner.positions _ (self_mem_nodes _)))
  | forLoop site init condition update body initIh updateIh bodyIh =>
    have inner : body.Writable := writable.child (by simp [children])
    have initEncodes : ∀ stmt ∈ init, EncodesStmt stmt (ofStmt stmt) := fun stmt isInit =>
      have inner := writable.child (by simp [children, Option.mem_def.mp isInit])
      initIh stmt isInit inner (inner.positions stmt (self_mem_nodes stmt))
    have updateEncodes : ∀ stmt ∈ update, EncodesStmt stmt (ofStmt stmt) := fun stmt isUpdate =>
      have inner := writable.child (by simp [children, Option.mem_def.mp isUpdate])
      updateIh stmt isUpdate inner (inner.positions stmt (self_mem_nodes stmt))
    have conditionEncodes : ∀ expr ∈ condition, EncodesExpr expr (ofExpr expr) :=
      fun expr isCondition => writable.expr (by simp [exprs, Option.mem_def.mp isCondition])
    rw [ofStmt_forLoop]
    exact .forLoop (node_of_members fits (by simp) rfl rfl rfl)
      (part_of_member rfl) (optionRel_map initEncodes)
      (part_of_member rfl) (optionRel_map conditionEncodes)
      (part_of_member rfl) (optionRel_map updateEncodes) rfl
      (bodyIh inner (inner.positions _ (self_mem_nodes _)))
  | ret site value =>
    have encodes : ∀ expr ∈ value, EncodesExpr expr (ofExpr expr) := fun expr isValue =>
      writable.expr (by simp [exprs, Option.mem_def.mp isValue])
    exact .ret (node_of_members fits (by simp) rfl rfl rfl) (part_of_member rfl)
      (optionRel_map encodes)
  | evaluate site expr =>
    exact .evaluate (node_of_members fits (by simp) rfl rfl rfl) rfl
      (writable.expr (by simp [exprs]))
  | assign site target value =>
    exact .assign (node_of_members fits (by simp) rfl rfl rfl) rfl
      (writable.expr (by simp [exprs])) rfl (writable.expr (by simp [exprs]))
  | declare site declared =>
    have each := writable.declared _ (self_mem_nodes _)
    exact .declare (node_of_members fits (by simp) rfl rfl rfl) rfl
      (forall₂_map fun decl isDeclared => VariableDecl.encodes_ofVariable (each decl isDeclared))
  | print site value =>
    exact .print (node_of_members fits (by simp) rfl rfl rfl) rfl (writable.expr (by simp [exprs]))
  | breakLoop site => exact .breakLoop (node_of_members fits (by simp) rfl rfl rfl)
  | continueLoop site => exact .continueLoop (node_of_members fits (by simp) rfl rfl rfl)
  | skip site => exact .skip (node_of_members fits (by simp) rfl rfl rfl)

end Stmt

theorem FieldDecl.encodes_ofField {decl : FieldDecl} (writable : decl.Writable) :
    EncodesField decl (ofField decl) :=
  .object rfl (typed_of_members writable.type rfl) writable.notVoid (.inl rfl) (.inl rfl)
    (located_of_members writable.position rfl rfl)

theorem MethodDecl.encodes_ofMethod {method : MethodDecl} (writable : method.Writable) :
    EncodesMethod method (ofMethod method) :=
  .object rfl (typed_of_members writable.returnType rfl) (.inl rfl)
    (forall₂_map fun decl isParameter =>
      VariableDecl.encodes_ofVariable (writable.parameters decl isParameter))
    writable.isBlock rfl (method.body.encodes_ofStmt writable.body) (.inl rfl) (.inl rfl)
    (located_of_members writable.position rfl rfl)

theorem ClassDecl.encodes_ofClass {decl : ClassDecl} (writable : decl.Writable) :
    EncodesClass decl (ofClass decl) :=
  .object rfl (optionalText_of_member rfl) writable.parent (.inl rfl)
    (forall₂_map fun field isField => FieldDecl.encodes_ofField (writable.fields field isField))
    (.inl rfl)
    (forall₂_map fun method isMethod =>
      MethodDecl.encodes_ofMethod (writable.methods method isMethod))
    (located_of_members writable.position rfl rfl)

/-- There is a way to write classes whenever each of them can be written. -/
theorem Encoding.encodes_ofClasses {decls : List ClassDecl}
    (writable : ∀ decl ∈ decls, decl.Writable) : EncodesClasses decls (ofClasses decls) :=
  .object rfl (forall₂_map fun decl isClass => ClassDecl.encodes_ofClass (writable decl isClass))

end Decaf
