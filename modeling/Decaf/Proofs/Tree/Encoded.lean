import Decaf.Proofs.Tree.Canonical

/-!
# What is written is decoded

Every value that a program is written as is accepted, and decoding gives that program back but for
the numbers of its nodes, which decoding makes itself.
-/

namespace Decaf

open Lowering (child? children)

namespace Encoding

open Json (member? Shaped)

variable {members : List (String × Json)} {name : String}
variable {values : List Json} {text : String} {position : Position}

/-! ## Members -/

theorem child?_eq_none_of_absent (absent : name ∉ members.map Prod.fst) :
    child? name members = none := by
  induction members with
  | nil => rfl
  | cons member rest ih =>
    rcases member with ⟨otherName, other⟩
    rw [List.map_cons, List.mem_cons, not_or] at absent
    cases other <;> simp [child?, ih absent.2, Ne.symm absent.1]

theorem child?_eq_some {value : Json} (notNull : value ≠ .null)
    (found : member? name members = some value) (unique : (members.map Prod.fst).Nodup) :
    child? name members = some value := by
  induction members with
  | nil => cases found
  | cons member rest ih =>
    rcases member with ⟨otherName, other⟩
    rw [List.map_cons, List.nodup_cons] at unique
    rw [member?] at found
    split at found
    next same =>
      cases found
      cases value <;> simp_all [child?]
    next differs =>
      have later := ih found unique.2
      cases other <;> simp [child?, differs, later]

theorem child?_eq_none (absent : member? name members = none ∨ member? name members = some .null)
    (unique : (members.map Prod.fst).Nodup) : child? name members = none := by
  induction members with
  | nil => rfl
  | cons member rest ih =>
    rcases member with ⟨otherName, other⟩
    rw [List.map_cons, List.nodup_cons] at unique
    rw [member?] at absent
    split at absent
    next same =>
      obtain rfl : other = .null := by simpa using absent
      subst same
      have restHasNone : child? otherName rest = none := child?_eq_none_of_absent unique.1
      exact restHasNone
    next differs =>
      have later := ih absent unique.2
      cases other <;> simp [child?, differs, later]

theorem children_eq_nil_of_absent (absent : name ∉ members.map Prod.fst) :
    children name members = [] := by
  induction members with
  | nil => rfl
  | cons member rest ih =>
    rcases member with ⟨otherName, other⟩
    rw [List.map_cons, List.mem_cons, not_or] at absent
    cases other <;> simp [children, ih absent.2, Ne.symm absent.1]

theorem children_eq (nodes : Nodes members name values) (unique : (members.map Prod.fst).Nodup) :
    children name members = values := by
  induction members with
  | nil =>
    rcases nodes with found | ⟨rfl, -⟩
    · cases found
    · rfl
  | cons member rest ih =>
    rcases member with ⟨otherName, other⟩
    rw [List.map_cons, List.nodup_cons] at unique
    rw [Nodes, member?] at nodes
    split at nodes
    next same =>
      subst same
      have absent := children_eq_nil_of_absent unique.1
      rcases nodes with found | ⟨rfl, found | found⟩ <;> cases found <;> simp [children, absent]
    next differs =>
      have later := ih nodes unique.2
      cases other <;> simp [children, differs, later]

theorem checkArray_eq (nodes : Nodes members name values) (position : Position) (node : String) :
    Decode.checkArray position node name members = pure () := by
  rcases nodes with found | ⟨-, found | found⟩ <;> simp [Decode.checkArray, found]

/-! ## Headers -/

theorem member_text (written : Text members name text) :
    Shaped.member name Shaped.text members = .ok (some text) := by
  simp [Shaped.member, Text] at *
  simp [written, Shaped.text, Except.map]

theorem exists_member_text {text : Option String} (written : OptionalText members name text) :
    ∃ found, Shaped.member name (Shaped.nullable Shaped.text) members = .ok found ∧
      found.join = text := by
  cases text with
  | some text =>
    exact ⟨some (some text),
      by simp [Shaped.member, show member? name members = _ from written]; rfl, rfl⟩
  | none =>
    rcases written with absent | isNull
    · exact ⟨none, by simp [Shaped.member, absent], rfl⟩
    · exact ⟨some none, by simp [Shaped.member, isNull]; rfl, rfl⟩

theorem exists_member_flag {flag : Bool} (written : Flag members name flag) :
    ∃ found, Shaped.member name Shaped.flag members = .ok found ∧ found.getD false = flag := by
  rcases written with found | ⟨rfl, absent⟩
  · exact ⟨some flag, by simp [Shaped.member, found]; rfl, rfl⟩
  · exact ⟨none, by simp [Shaped.member, absent], rfl⟩

theorem exists_member_coordinate {value : Nat} (written : Coordinate members name value) :
    ∃ found, Shaped.member name Shaped.coordinate members = .ok found ∧ found.getD 0 = value := by
  rcases written with ⟨inRange, found | ⟨rfl, absent⟩⟩
  · refine ⟨some value, ?_, rfl⟩
    have isCoordinate : Shaped.coordinate (.number (.integer value)) = .ok value := by
      have inRange' : (value : Int) ≤ Shaped.maxCoordinate := by
        rw [Shaped.maxCoordinate]
        omega
      simp [Shaped.coordinate, inRange']
    rw [Shaped.member, found]
    simp [isCoordinate, Except.map]
  · exact ⟨none, by simp [Shaped.member, absent], rfl⟩

theorem nodePosition_eq (located : Located members position) :
    Header.nodePosition members = .ok position := by
  rcases exists_member_coordinate located.line with ⟨line, lineFound, lineEq⟩
  rcases exists_member_coordinate located.column with ⟨column, columnFound, columnEq⟩
  simp [Header.nodePosition, lineFound, columnFound, lineEq, columnEq, Bind.bind, Except.bind,
    Pure.pure, Except.pure]

theorem requiredText_eq (written : Text members name text) :
    Header.requiredText name members = .ok text := by
  simp [Header.requiredText, member_text written, Bind.bind, Except.bind, Shaped.present]

theorem exprHeader_eq (kind : Header.ExprKind) (node : Node members kind.name position)
    {header : Header.Expr} (read : Header.exprMembers members kind = .ok header) :
    Header.exprHeader members = .ok (header, position) := by
  have isKind : Shaped.word Header.ExprKind.all Header.ExprKind.name (.string kind.name) =
      .ok kind := by
    cases kind <;> rfl
  simp [Header.exprHeader, nodePosition_eq node.located,
    show member? "kind" members = _ from node.kind, Shaped.present, isKind, read, Bind.bind,
    Except.bind, Pure.pure, Except.pure]

theorem stmtHeader_eq (kind : Header.StmtKind) (node : Node members kind.name position)
    (isPlain : kind ≠ .declare) : Header.stmtHeader members = .ok (.plain kind, position) := by
  have isKind : Shaped.word Header.StmtKind.all Header.StmtKind.name (.string kind.name) =
      .ok kind := by
    cases kind <;> rfl
  cases kind <;> first
    | exact absurd rfl isPlain
    | simp [Header.stmtHeader, nodePosition_eq node.located,
      show member? "kind" members = _ from node.kind, Shaped.present, isKind,
        Bind.bind, Except.bind, Pure.pure, Except.pure]

end Encoding

namespace Decode

open Encoding
open Json (Shaped)

variable {Value Next : Type}

/-! ## Yielding -/

/-- Decoding yields a value of a certain kind, whatever was decoded before. -/
def Yields (decode : Decode Value) (post : Value → Prop) : Prop :=
  ∀ before, ∃ value after, decode.run before = .ok (value, after) ∧ post value

section

variable {post : Value → Prop} {last : Next → Prop} {position : Position} {node member : String}

theorem Yields.bind {first : Decode Value} {next : Value → Decode Next} (yields : Yields first post)
    (rest : ∀ value, post value → Yields (next value) last) : Yields (first >>= next) last := by
  intro before
  rcases yields before with ⟨value, between, ran, holds⟩
  rcases rest value holds between with ⟨result, after, nextRan, resultHolds⟩
  refine ⟨result, after, ?_, resultHolds⟩
  rw [StateT.run_bind, ran]
  exact nextRan

theorem yields_pure {value : Value} (holds : post value) : Yields (pure value) post :=
  fun before => ⟨value, before, rfl, holds⟩

theorem Yields.mono {other : Value → Prop} {decode : Decode Value} (yields : Yields decode post)
    (weaken : ∀ value, post value → other value) : Yields decode other := by
  intro before
  rcases yields before with ⟨value, after, ran, holds⟩
  exact ⟨value, after, ran, weaken value holds⟩

theorem yields_expr (make : Site ExprId → Expr) :
    Yields (expr position make) fun made => ∃ id, made = make ⟨id, position⟩ :=
  fun _ => ⟨_, _, rfl, _, rfl⟩

theorem yields_stmt (make : Site StmtId → Stmt) :
    Yields (stmt position make) fun made => ∃ id, made = make ⟨id, position⟩ :=
  fun _ => ⟨_, _, rfl, _, rfl⟩

theorem yields_mapM {Item Target : Type} {decode : Item → Decode Value}
    {rel : Target → Value → Prop} {targets : List Target} {items : List Item}
    (each : List.Forall₂ (fun target item => Yields (decode item) (rel target)) targets items) :
    Yields (items.mapM decode) fun values => List.Forall₂ rel targets values := by
  induction each with
  | nil => exact yields_pure .nil
  | cons first rest ih =>
    rw [List.mapM_cons]
    exact first.bind fun value holds => ih.bind fun values hold => yields_pure (.cons holds hold)

end

variable {members : List (String × Json)} {value : Json} {name : String} {values : List Json}
  {position : Position}

/-! ## Constants -/

theorem integerOf?_int (value : Int32) :
    integerOf? (.number (.integer value.toInt)) = some value.toInt := by
  have lower := value.le_toInt
  have upper := value.toInt_lt
  have isWord : isWordInteger value.toInt = true := by
    simp only [isWordInteger, Bool.and_eq_true, decide_eq_true_eq]
    omega
  simp [integerOf?, isWord]

theorem doubleOf?_number {value : Binary64} {number : Json.Number} (stands : Double value number) :
    doubleOf? (.number number) = some value := by
  cases stands <;> rfl

theorem literal_eq {constant : Literal} (holds : Constant members constant)
    (position : Position) : ∃ type, Text members "type" type ∧
      literal position type ((Json.member? "value" members).getD .null) = pure constant := by
  cases holds with
  | @int value isType written =>
    have lower := value.le_toInt
    have upper := value.toInt_lt
    have inRange : -0x80000000 ≤ value.toInt ∧ value.toInt < 0x80000000 := by omega
    exact ⟨"int", isType, by simp [literal, written, integerOf?_int, inRange]⟩
  | double isType stands written =>
    rcases isType with isDouble | isFloat
    · exact ⟨"double", isDouble, by simp [literal, written, doubleOf?_number stands]⟩
    · exact ⟨"float", isFloat, by simp [literal, written, doubleOf?_number stands]⟩
  | bool isType written =>
    rcases isType with isBool | isBoolean
    · exact ⟨"bool", isBool, by simp [literal, written, booleanOf?]⟩
    · exact ⟨"boolean", isBoolean, by simp [literal, written, booleanOf?]⟩
  | string isType written => exact ⟨"string", isType, by simp [literal, written]⟩
  | null isType => exact ⟨"null", isType, by simp [literal]⟩

/-! ## Expressions -/

theorem not_null_of_encodesExpr {expr : Expr} (encodes : EncodesExpr expr value) :
    value ≠ .null := by
  cases encodes <;> simp

theorem child?_of_encodesExpr {expr : Expr} (unique : (members.map Prod.fst).Nodup)
    (part : Part members name (some value)) (encodes : EncodesExpr expr value) :
    child? name members = some value :=
  child?_eq_some (not_null_of_encodesExpr encodes) part unique

theorem child?_of_optionalExpr {expr : Option Expr} {value : Option Json}
    (unique : (members.map Prod.fst).Nodup) (part : Part members name value)
    (encodes : Option.Rel EncodesExpr expr value) : child? name members = value := by
  cases encodes with
  | some encodes => exact child?_of_encodesExpr unique part encodes
  | none => exact child?_eq_none part unique

/-- Decoding a value that an expression is written as gives the expression back. -/
def Restores (expr : Expr) : Prop :=
  ∀ value, EncodesExpr expr value → ∀ parent,
    Yields (exprNode parent value) fun made => made.unnumbered = expr.unnumbered

theorem restores_all {exprs : List Expr} (restores : ∀ expr ∈ exprs, Restores expr)
    (encoded : List.Forall₂ EncodesExpr exprs values) (position : Position) :
    Yields (exprElements position values) fun made =>
      made.map Expr.unnumbered = exprs.map Expr.unnumbered := by
  induction encoded with
  | nil => exact yields_pure rfl
  | @cons expr value others otherValues first rest ih =>
    refine (restores expr List.mem_cons_self value first position).bind fun made same => ?_
    refine (ih fun other isOther => restores other (List.mem_cons_of_mem _ isOther)).bind
      fun more sameMore => ?_
    exact yields_pure (by rw [List.map_cons, List.map_cons, same, sameMore])

theorem restores_optional {expr : Option Expr} (restores : ∀ inner ∈ expr, Restores inner)
    {value : Option Json} (encoded : Option.Rel EncodesExpr expr value) (position : Position) :
    Yields (Decode.optional (value.map (exprNode position))) fun made =>
      made.map Expr.unnumbered = expr.map Expr.unnumbered := by
  cases encoded with
  | none => exact yields_pure rfl
  | @some inner value encodes =>
    rw [Option.map_some, Decode.optional, map_eq_pure_bind]
    exact (restores inner rfl value encodes position).bind fun made same =>
      yields_pure (by simpa using same)

theorem yields_unnumbered {make : Site ExprId → Expr} {target : Expr}
    (same : ∀ id, (make ⟨id, position⟩).unnumbered = target) :
    Yields (expr position make) fun made => made.unnumbered = target := by
  refine (yields_expr make).mono fun made isMade => ?_
  rcases isMade with ⟨id, rfl⟩
  exact same id

theorem shaped_exprHeader (kind : Header.ExprKind)
    (node : Node members kind.name position) {header : Header.Expr}
    (read : Header.exprMembers members kind = .ok header) :
    shaped (Header.exprHeader members) = pure (header, position) := by
  rw [exprHeader_eq kind node read]
  rfl

theorem restores_expr (expr : Expr) : Restores expr := by
  induction expr with
  | literal site value =>
    intro _ encodes parent
    cases encodes with
    | literal node constant =>
      rcases literal_eq constant site.position with ⟨type, typed, literalEq⟩
      rw [exprNode,
        shaped_exprHeader .literal node (by rw [Header.exprMembers, requiredText_eq typed]; rfl),
        pure_bind]
      simp only [literalEq, pure_bind]
      exact yields_unnumbered fun _ => rfl
  | identifier site name =>
    intro _ encodes parent
    cases encodes with
    | identifier node named =>
      rw [exprNode,
        shaped_exprHeader .identifier node (by rw [Header.exprMembers, requiredText_eq named]; rfl),
        pure_bind]
      exact yields_unnumbered fun _ => rfl
  | this site =>
    intro _ encodes parent
    cases encodes with
    | this node =>
      rw [exprNode, shaped_exprHeader .this node rfl, pure_bind]
      exact yields_unnumbered fun _ => rfl
  | super site =>
    intro _ encodes parent
    cases encodes with
    | super node =>
      rw [exprNode, shaped_exprHeader .super node rfl, pure_bind]
      exact yields_unnumbered fun _ => rfl
  | new site className =>
    intro _ encodes parent
    cases encodes with
    | new node named =>
      rw [exprNode,
        shaped_exprHeader .new node (by rw [Header.exprMembers, requiredText_eq named]; rfl),
        pure_bind]
      exact yields_unnumbered fun _ => rfl
  | call site receiver method arguments receiverIh argumentsIh =>
    intro _ encodes parent
    cases encodes with
    | call node named receiverPart receiverEncoded argumentNodes argumentsEncoded =>
      rw [exprNode,
        shaped_exprHeader .call node (by rw [Header.exprMembers, requiredText_eq named]; rfl),
        pure_bind]
      simp only [checkArray_eq argumentNodes, pure_bind, Lowering.exprMember_eq,
        Lowering.exprArray_eq, child?_of_optionalExpr node.unique receiverPart receiverEncoded,
        children_eq argumentNodes node.unique]
      refine (restores_optional receiverIh receiverEncoded site.position).bind fun made same => ?_
      refine (restores_all argumentsIh argumentsEncoded site.position).bind
        fun others sameOthers => ?_
      exact yields_unnumbered
        fun id => by rw [Expr.unnumbered_call, Expr.unnumbered_call, same, sameOthers]
  | fieldAccess site receiver field ih =>
    intro _ encodes parent
    cases encodes with
    | fieldAccess node named receiverPart receiverEncoded =>
      rw [exprNode,
        shaped_exprHeader .fieldAccess node
        (by rw [Header.exprMembers, requiredText_eq named]; rfl), pure_bind]
      simp only [Lowering.exprMember_eq,
        child?_of_encodesExpr node.unique receiverPart receiverEncoded, Option.map_some, required,
        pure_bind]
      refine (ih _ receiverEncoded site.position).bind fun made same => ?_
      exact yields_unnumbered fun id => by rw [Expr.unnumbered, Expr.unnumbered, same]
  | unary site operator operand ih =>
    intro _ encodes parent
    cases encodes with
    | unary node spelled operandPart operandEncoded =>
      rw [exprNode,
        shaped_exprHeader .unary node (by rw [Header.exprMembers, requiredText_eq spelled]; rfl),
        pure_bind]
      simp only [Lowering.exprMember_eq,
        child?_of_encodesExpr node.unique operandPart operandEncoded, Option.map_some, required,
        pure_bind, UnaryOperator.ofSymbol?_symbol, knownOperator]
      refine (ih _ operandEncoded site.position).bind fun made same => ?_
      exact yields_unnumbered fun id => by rw [Expr.unnumbered, Expr.unnumbered, same]
  | binary site operator left right leftIh rightIh =>
    intro _ encodes parent
    cases encodes with
    | binary node spelled leftPart leftEncoded rightPart rightEncoded =>
      rw [exprNode,
        shaped_exprHeader .binary node (by rw [Header.exprMembers, requiredText_eq spelled]; rfl),
        pure_bind]
      simp only [Lowering.exprMember_eq, child?_of_encodesExpr node.unique leftPart leftEncoded,
        child?_of_encodesExpr node.unique rightPart rightEncoded,
        Option.map_some, required, pure_bind, BinaryOperator.ofSymbol?_symbol, knownOperator]
      refine (leftIh _ leftEncoded site.position).bind fun made same => ?_
      refine (rightIh _ rightEncoded site.position).bind fun other sameOther => ?_
      exact yields_unnumbered fun id => by rw [Expr.unnumbered, Expr.unnumbered, same, sameOther]
  | step site operator yieldsNew target ih =>
    intro _ encodes parent
    cases encodes with
    | @step _ _ _ _ members _ node spelled before targetPart targetEncoded =>
      rcases exists_member_flag before with ⟨found, flagFound, rfl⟩
      have read : Header.exprMembers members .step =
          .ok (.step operator.symbol (found.getD false)) := by
        rw [Header.exprMembers, member_text spelled, flagFound]
        rfl
      rw [exprNode, shaped_exprHeader .step node read, pure_bind]
      simp only [Lowering.exprMember_eq, child?_of_encodesExpr node.unique targetPart targetEncoded,
        Option.map_some, required, pure_bind, StepOperator.ofSymbol?_symbol, knownOperator]
      refine (ih _ targetEncoded site.position).bind fun made same => ?_
      exact yields_unnumbered fun id => by rw [Expr.unnumbered, Expr.unnumbered, same]

/-! ## Statements -/

theorem shaped_stmtHeader (kind : Header.StmtKind)
    (node : Node members kind.name position) (isPlain : kind ≠ .declare) :
    shaped (Header.stmtHeader members) = pure (.plain kind, position) := by
  rw [stmtHeader_eq kind node isPlain]
  rfl

theorem shaped_declareHeader {headers : List Header.Variable}
    (node : Node members "VarDeclStmt" position)
    (written : Json.member? "vars" members = some (.array values))
    (read : values.mapM (Header.variableDecl "4 elements in sequence") = .ok headers) :
    shaped (Header.stmtHeader members) = pure (.declare headers, position) := by
  have isKind : Shaped.word Header.StmtKind.all Header.StmtKind.name (.string "VarDeclStmt") =
    .ok .declare := rfl
  have declaredEq : Shaped.member "vars"
      (Shaped.sequence (Header.variableDecl "4 elements in sequence")) members =
        .ok (some headers) := by
    rw [Shaped.member, written]
    simp [Shaped.sequence, read, Except.map]
  have headerEq : Header.stmtHeader members = .ok (.declare headers, position) := by
    simp [Header.stmtHeader, nodePosition_eq node.located,
      show Json.member? "kind" members = _ from node.kind, Shaped.present, isKind, declaredEq,
      Bind.bind, Except.bind, Pure.pure, Except.pure]
  rw [headerEq]
  rfl

/-- What a variable is written as is read as its declaration, however overlong arrays are complained
about. -/
theorem exists_variableHeader {decl : VariableDecl} (encodes : EncodesVariable decl value)
    (tooLong : String) : ∃ header, Header.variableDecl tooLong value = .ok header ∧
      ∀ node, Yields (Decode.variableDecl node header) fun made => decl = made := by
  cases encodes with
  | @object members named typed notVoid located =>
    rcases typed with ⟨written, typeText, typeEq⟩
    rcases exists_member_coordinate located.line with ⟨line, lineFound, lineEq⟩
    rcases exists_member_coordinate located.column with ⟨column, columnFound, columnEq⟩
    refine ⟨⟨decl.name, written, decl.position⟩, ?_, fun node => ?_⟩
    · simp [Header.variableDecl, Header.variableOfMembers, member_text named,
        member_text typeText, lineFound, columnFound, lineEq, columnEq, Shaped.present, Bind.bind,
        Except.bind, Pure.pure, Except.pure]
    · rw [Decode.variableDecl, valueType, typeEq, if_neg (by simp [notVoid]), pure_bind]
      exact yields_pure rfl

/-- A sequence of values is read as what each of them is read as. -/
theorem exists_sequence {Item Target : Type} {read : Json → Shaped Target}
    {rel : Item → Target → Prop} {items : List Item}
    (each : List.Forall₂ (fun item value => ∃ found, read value = .ok found ∧ rel item found)
      items values) :
    ∃ found, values.mapM read = .ok found ∧ List.Forall₂ rel items found := by
  induction each with
  | nil => exact ⟨[], rfl, .nil⟩
  | cons first rest ih =>
    rcases first with ⟨found, foundEq, holds⟩
    rcases ih with ⟨others, othersEq, hold⟩
    refine ⟨found :: others, ?_, .cons holds hold⟩
    simp [List.mapM_cons, foundEq, othersEq, Bind.bind, Except.bind, Pure.pure, Except.pure]

theorem exists_variableHeaders {decls : List VariableDecl}
    (encoded : List.Forall₂ EncodesVariable decls values) (tooLong : String) :
    ∃ headers, values.mapM (Header.variableDecl tooLong) = .ok headers ∧
      ∀ node, Yields (headers.mapM (Decode.variableDecl node)) fun made => decls = made := by
  rcases exists_sequence (encoded.imp fun _ _ encodes => exists_variableHeader encodes tooLong) with
    ⟨headers, found, each⟩
  refine ⟨headers, found, fun node => ?_⟩
  exact List.forall₂_eq_eq_eq ▸ yields_mapM (each.imp fun _ _ yields => yields node)

theorem not_null_of_encodesStmt {stmt : Stmt} (encodes : EncodesStmt stmt value) :
    value ≠ .null := by
  cases encodes <;> simp

theorem child?_of_encodesStmt {stmt : Stmt} (unique : (members.map Prod.fst).Nodup)
    (part : Part members name (some value)) (encodes : EncodesStmt stmt value) :
    child? name members = some value :=
  child?_eq_some (not_null_of_encodesStmt encodes) part unique

theorem child?_of_optionalStmt {stmt : Option Stmt} {value : Option Json}
    (unique : (members.map Prod.fst).Nodup) (part : Part members name value)
    (encodes : Option.Rel EncodesStmt stmt value) : child? name members = value := by
  cases encodes with
  | some encodes => exact child?_of_encodesStmt unique part encodes
  | none => exact child?_eq_none part unique

/-- Decoding a value that a statement is written as gives the statement back. -/
def RestoresStmt (stmt : Stmt) : Prop :=
  ∀ value, EncodesStmt stmt value → ∀ parent,
    Yields (stmtNode parent value) fun made => made.unnumbered = stmt.unnumbered

theorem restores_stmts {statements : List Stmt} (restores : ∀ stmt ∈ statements, RestoresStmt stmt)
    (encoded : List.Forall₂ EncodesStmt statements values) (position : Position) :
    Yields (stmtElements position values) fun made =>
      made.map Stmt.unnumbered = statements.map Stmt.unnumbered := by
  induction encoded with
  | nil => exact yields_pure rfl
  | @cons stmt value others otherValues first rest ih =>
    refine (restores stmt List.mem_cons_self value first position).bind fun made same => ?_
    refine (ih fun other isOther => restores other (List.mem_cons_of_mem _ isOther)).bind
      fun more sameMore => ?_
    exact yields_pure (by rw [List.map_cons, List.map_cons, same, sameMore])

theorem restores_optionalStmt {stmt : Option Stmt} (restores : ∀ inner ∈ stmt, RestoresStmt inner)
    {value : Option Json} (encoded : Option.Rel EncodesStmt stmt value) (position : Position) :
    Yields (Decode.optional (value.map (stmtNode position))) fun made =>
      made.map Stmt.unnumbered = stmt.map Stmt.unnumbered := by
  cases encoded with
  | none => exact yields_pure rfl
  | @some inner value encodes =>
    rw [Option.map_some, Decode.optional, map_eq_pure_bind]
    exact (restores inner rfl value encodes position).bind fun made same =>
      yields_pure (by simpa using same)

theorem yields_unnumberedStmt {make : Site StmtId → Stmt} {target : Stmt}
    (same : ∀ id, (make ⟨id, position⟩).unnumbered = target) :
    Yields (stmt position make) fun made => made.unnumbered = target := by
  refine (yields_stmt make).mono fun made isMade => ?_
  rcases isMade with ⟨id, rfl⟩
  exact same id

theorem restores_stmt (stmt : Stmt) : RestoresStmt stmt := by
  induction stmt with
  | block site statements ih =>
    intro _ encodes parent
    cases encodes with
    | block node nodes encoded =>
      rw [stmtNode, shaped_stmtHeader .block node (by simp), pure_bind]
      simp only [checkArray_eq nodes, pure_bind, Lowering.stmtArray_eq,
        children_eq nodes node.unique]
      refine (restores_stmts ih encoded site.position).bind fun made same => ?_
      exact yields_unnumberedStmt
        fun id => by rw [Stmt.unnumbered_block, Stmt.unnumbered_block, same]
  | ifElse site condition thenBranch elseBranch thenIh elseIh =>
    intro _ encodes parent
    cases encodes with
    | ifElse node conditionPart conditionEncoded thenPart thenEncoded elsePart elseEncoded =>
      rw [stmtNode, shaped_stmtHeader .ifElse node (by simp), pure_bind]
      simp only [Lowering.exprMember_eq, Lowering.stmtMember_eq,
        child?_of_encodesExpr node.unique conditionPart conditionEncoded,
        child?_of_encodesStmt node.unique thenPart thenEncoded,
        child?_of_optionalStmt node.unique elsePart elseEncoded, Option.map_some, required,
        pure_bind]
      refine (restores_expr condition _ conditionEncoded site.position).bind fun made same => ?_
      refine (thenIh _ thenEncoded site.position).bind fun thenMade sameThen => ?_
      refine (restores_optionalStmt elseIh elseEncoded site.position).bind
        fun elseMade sameElse => ?_
      exact yields_unnumberedStmt fun id => by
        rw [Stmt.unnumbered_ifElse, Stmt.unnumbered_ifElse, same, sameThen, sameElse]
  | whileLoop site condition body ih =>
    intro _ encodes parent
    cases encodes with
    | whileLoop node conditionPart conditionEncoded bodyPart bodyEncoded =>
      rw [stmtNode, shaped_stmtHeader .whileLoop node (by simp), pure_bind]
      simp only [Lowering.exprMember_eq, Lowering.stmtMember_eq,
        child?_of_encodesExpr node.unique conditionPart conditionEncoded,
        child?_of_encodesStmt node.unique bodyPart bodyEncoded, Option.map_some, required,
        pure_bind]
      refine (restores_expr condition _ conditionEncoded site.position).bind fun made same => ?_
      refine (ih _ bodyEncoded site.position).bind fun bodyMade sameBody => ?_
      exact yields_unnumberedStmt fun id => by rw [Stmt.unnumbered, Stmt.unnumbered, same, sameBody]
  | forLoop site init condition update body initIh updateIh bodyIh =>
    intro _ encodes parent
    cases encodes with
    | forLoop node initPart initEncoded conditionPart conditionEncoded updatePart updateEncoded
        bodyPart bodyEncoded =>
      rw [stmtNode, shaped_stmtHeader .forLoop node (by simp), pure_bind]
      simp only [Lowering.exprMember_eq, Lowering.stmtMember_eq,
        child?_of_optionalStmt node.unique initPart initEncoded,
        child?_of_optionalExpr node.unique conditionPart conditionEncoded,
        child?_of_optionalStmt node.unique updatePart updateEncoded,
        child?_of_encodesStmt node.unique bodyPart bodyEncoded, Option.map_some, required,
        pure_bind]
      refine (restores_optionalStmt initIh initEncoded site.position).bind
        fun initMade sameInit => ?_
      refine (restores_optional (fun expr _ => restores_expr expr) conditionEncoded
        site.position).bind fun made same => ?_
      refine (restores_optionalStmt updateIh updateEncoded site.position).bind
        fun updateMade sameUpdate => ?_
      refine (bodyIh _ bodyEncoded site.position).bind fun bodyMade sameBody => ?_
      exact yields_unnumberedStmt fun id => by
        rw [Stmt.unnumbered_forLoop, Stmt.unnumbered_forLoop, sameInit, same, sameUpdate, sameBody]
  | ret site value =>
    intro _ encodes parent
    cases encodes with
    | ret node part encoded =>
      rw [stmtNode, shaped_stmtHeader .ret node (by simp), pure_bind]
      simp only [Lowering.exprMember_eq, child?_of_optionalExpr node.unique part encoded]
      refine (restores_optional (fun expr _ => restores_expr expr) encoded site.position).bind
        fun made same => ?_
      exact yields_unnumberedStmt fun id => by rw [Stmt.unnumbered, Stmt.unnumbered, same]
  | evaluate site expr =>
    intro _ encodes parent
    cases encodes with
    | evaluate node part encoded =>
      rw [stmtNode, shaped_stmtHeader .evaluate node (by simp), pure_bind]
      simp only [Lowering.exprMember_eq, child?_of_encodesExpr node.unique part encoded,
        Option.map_some, required, pure_bind]
      refine (restores_expr expr _ encoded site.position).bind fun made same => ?_
      exact yields_unnumberedStmt fun id => by rw [Stmt.unnumbered, Stmt.unnumbered, same]
  | assign site target value =>
    intro _ encodes parent
    cases encodes with
    | assign node targetPart targetEncoded valuePart valueEncoded =>
      rw [stmtNode, shaped_stmtHeader .assign node (by simp), pure_bind]
      simp only [Lowering.exprMember_eq, child?_of_encodesExpr node.unique targetPart targetEncoded,
        child?_of_encodesExpr node.unique valuePart valueEncoded, Option.map_some, required,
        pure_bind]
      refine (restores_expr target _ targetEncoded site.position).bind
        fun targetMade sameTarget => ?_
      refine (restores_expr value _ valueEncoded site.position).bind fun made same => ?_
      exact yields_unnumberedStmt
        fun id => by rw [Stmt.unnumbered, Stmt.unnumbered, sameTarget, same]
  | declare site declared =>
    intro _ encodes parent
    cases encodes with
    | @declare _ _ members values node written encoded =>
      rcases exists_variableHeaders encoded "4 elements in sequence" with ⟨headers, found, yields⟩
      rw [stmtNode, shaped_declareHeader node written found, pure_bind]
      refine (yields "VarDecl").bind fun made same => ?_
      exact yields_unnumberedStmt fun id => by rw [Stmt.unnumbered, Stmt.unnumbered, same]
  | print site value =>
    intro _ encodes parent
    cases encodes with
    | print node part encoded =>
      rw [stmtNode, shaped_stmtHeader .print node (by simp), pure_bind]
      simp only [Lowering.exprMember_eq, child?_of_encodesExpr node.unique part encoded,
        Option.map_some, required, pure_bind]
      refine (restores_expr value _ encoded site.position).bind fun made same => ?_
      exact yields_unnumberedStmt fun id => by rw [Stmt.unnumbered, Stmt.unnumbered, same]
  | breakLoop site =>
    intro _ encodes parent
    cases encodes with
    | breakLoop node =>
      rw [stmtNode, shaped_stmtHeader .breakLoop node (by simp), pure_bind]
      exact yields_unnumberedStmt fun _ => rfl
  | continueLoop site =>
    intro _ encodes parent
    cases encodes with
    | continueLoop node =>
      rw [stmtNode, shaped_stmtHeader .continueLoop node (by simp), pure_bind]
      exact yields_unnumberedStmt fun _ => rfl
  | skip site =>
    intro _ encodes parent
    cases encodes with
    | skip node =>
      rw [stmtNode, shaped_stmtHeader .skip node (by simp), pure_bind]
      exact yields_unnumberedStmt fun _ => rfl

/-! ## Declarations -/

section

variable {members : List (String × Json)}
variable {name : String} {values : List Json}

theorem exists_visibility {visible : Visibility} (written : Visible members visible) :
    ∃ found, Shaped.member "visibility" (Shaped.nullable Shaped.text) members = .ok found ∧
      ∀ position node, visibility position node found.join = pure visible := by
  rcases written with named | ⟨rfl, absent⟩
  · have isText : OptionalText members "visibility" (some visible.name) := named
    rcases exists_member_text isText with ⟨found, foundEq, isName⟩
    refine ⟨found, foundEq, fun position node => ?_⟩
    rw [isName]
    cases visible <;> rfl
  · rcases exists_member_text absent with ⟨found, foundEq, isNone⟩
    exact ⟨found, foundEq, fun position node => by rw [isNone, visibility]⟩

/-- An array that may be left out is read as what its elements are read as. -/
theorem exists_member_sequence {Item Target : Type} {read : Json → Shaped Target}
    {rel : Item → Target → Prop} {items : List Item} (written : Sequence members name values)
    (each : List.Forall₂ (fun item value => ∃ found, read value = .ok found ∧ rel item found)
      items values) :
    ∃ found, Shaped.member name (Shaped.sequence read) members = .ok found ∧
      List.Forall₂ rel items (found.getD []) := by
  rcases written with present | ⟨rfl, absent⟩
  · rcases exists_sequence each with ⟨found, foundEq, hold⟩
    refine ⟨some found, ?_, hold⟩
    rw [Shaped.member, present]
    simp [Shaped.sequence, foundEq, Except.map]
  · cases each
    exact ⟨none, by simp [Shaped.member, absent], .nil⟩

theorem elements_eq (nodes : Nodes members name values) (position : Position)
    (node : String) : elements position node name members = pure values := by
  rw [elements, checkArray_eq nodes, pure_bind]
  rcases nodes with found | ⟨rfl, found | found⟩ <;> simp [found]

end

variable {value : Json}

theorem exists_fieldHeader {decl : FieldDecl} (encodes : EncodesField decl value) :
    ∃ header, Header.field value = .ok header ∧ Yields (fieldDecl header) fun made =>
      decl = made := by
  cases encodes with
  | @object members named typed notVoid visible isStatic located =>
    rcases typed with ⟨written, typeText, typeEq⟩
    rcases exists_member_coordinate located.line with ⟨line, lineFound, lineEq⟩
    rcases exists_member_coordinate located.column with ⟨column, columnFound, columnEq⟩
    rcases exists_member_flag isStatic with ⟨flag, flagFound, flagEq⟩
    rcases exists_visibility visible with ⟨keyword, keywordFound, keywordEq⟩
    refine ⟨⟨decl.name, written, keyword.join, decl.isStatic, decl.position⟩, ?_, ?_⟩
    · simp [Header.field, Header.fieldOfMembers, member_text named, member_text typeText,
        lineFound, columnFound, lineEq, columnEq, flagFound, flagEq, keywordFound, Shaped.present,
        Bind.bind, Except.bind, Pure.pure,
        Except.pure]
    · rw [fieldDecl, valueType, typeEq, if_neg (by simp [notVoid]), pure_bind, keywordEq, pure_bind]
      exact yields_pure rfl

theorem isWrittenBlock_of_encodes {body : Stmt} (encodes : EncodesStmt body value)
    (isBlock : body.isBlock = true) : isWrittenBlock value = true := by
  cases encodes with
  | block node nodes encoded => simp [isWrittenBlock, show Json.member? "kind" _ = _ from node.kind]
  | _ => cases isBlock

theorem yields_method {method : MethodDecl} (encodes : EncodesMethod method value)
    (parent : Position) :
    Yields (methodNode stmtNode parent value) fun made => made.unnumbered = method.unnumbered := by
  cases encodes with
  | @object members values body named typed parameters parametersEncoded isBlock written
      bodyEncoded visible isStatic located =>
      rcases typed with ⟨returnType, typeText, typeEq⟩
      rcases exists_member_coordinate located.line with ⟨line, lineFound, lineEq⟩
      rcases exists_member_coordinate located.column with ⟨column, columnFound, columnEq⟩
      rcases exists_member_flag isStatic with ⟨flag, flagFound, flagEq⟩
      rcases exists_visibility visible with ⟨keyword, keywordFound, keywordEq⟩
      rcases exists_member_sequence parameters
        (parametersEncoded.imp fun _ _ encodes =>
          exists_variableHeader encodes "fewer elements in array") with
        ⟨headers, headersFound, each⟩
      have headerEq : Header.methodHeader members =
          .ok ⟨method.name, returnType, headers.getD [], keyword.join, method.isStatic,
            method.position⟩ := by
        simp [Header.methodHeader, member_text named, member_text typeText, lineFound, columnFound,
          lineEq, columnEq, flagFound, flagEq, keywordFound, headersFound, Shaped.present,
          Bind.bind, Except.bind, Pure.pure, Except.pure]
      rw [methodNode, nodeMembers, pure_bind, headerEq, shaped, pure_bind, written, bodyNode,
        if_pos (isWrittenBlock_of_encodes bodyEncoded isBlock)]
      refine (restores_stmt method.body body bodyEncoded method.position).bind fun made same => ?_
      refine (yields_mapM (each.imp fun _ _ yields => yields "Formal")).bind
        fun declared sameDeclared => ?_
      rw [List.forall₂_eq_eq_eq] at sameDeclared
      rw [keywordEq, pure_bind]
      exact yields_pure
        (by rw [MethodDecl.unnumbered, MethodDecl.unnumbered, same, typeEq, sameDeclared])

theorem yields_class {decl : ClassDecl} (encodes : EncodesClass decl value) :
    Yields (classNode stmtNode value) fun made => made.unnumbered = decl.unnumbered := by
  cases encodes with
  | @object members fields methods named parent parentAt fieldList fieldsEncoded methodNodes
      methodsEncoded located =>
    rcases exists_member_coordinate located.line with ⟨line, lineFound, lineEq⟩
    rcases exists_member_coordinate located.column with ⟨column, columnFound, columnEq⟩
    rcases exists_member_text parent with ⟨parentName, parentFound, parentEq⟩
    rcases exists_member_sequence fieldList (fieldsEncoded.imp fun _ _ encodes =>
      exists_fieldHeader encodes) with ⟨headers, headersFound, each⟩
    have headerEq : Header.classHeader members =
        .ok ⟨decl.name, decl.parent.map ParentName.name, headers.getD [], decl.position⟩ := by
      simp [Header.classHeader, member_text named, lineFound, columnFound, lineEq, columnEq,
        parentFound, parentEq, headersFound, Shaped.present, Bind.bind, Except.bind, Pure.pure,
        Except.pure]
    rw [classNode, nodeMembers, pure_bind, headerEq, shaped, pure_bind]
    refine (yields_mapM each).bind fun declared sameDeclared => ?_
    rw [List.forall₂_eq_eq_eq] at sameDeclared
    rw [elements_eq methodNodes, pure_bind]
    refine (yields_mapM (methodsEncoded.imp fun _ _ encodes =>
      yields_method encodes decl.position)).bind fun made same => ?_
    have sameMethods : made.map MethodDecl.unnumbered = decl.methods.map MethodDecl.unnumbered := by
      rw [← List.forall₂_eq_eq_eq, List.forall₂_map_left_iff, List.forall₂_map_right_iff]
      exact same.flip
    have sameParent : (decl.parent.map ParentName.name).map (fun name => ⟨name, decl.position⟩) =
        decl.parent := by
      cases isParent : decl.parent with
      | none => rfl
      | some parent => simp [← parentAt parent isParent]
    exact yields_pure
      (by rw [ClassDecl.unnumbered, ClassDecl.unnumbered, sameMethods, sameDeclared, sameParent])

end Decode

namespace Program

/-- Every value that the classes of a program are written as is accepted, and the program has these
classes: the same names, parents, fields and methods, and bodies that are the same but for the
numbers of their nodes, under which the program has them. -/
theorem exists_of_encodes {classes : List ClassDecl} {value : Json}
    (encodes : EncodesClasses classes value) :
    ∃ program, ofJson value = .ok program ∧
      program.classes.map ClassDecl.unnumbered = classes.map ClassDecl.unnumbered ∧
      program.Indexed := by
  have accepted : ∃ program, ofJson value = .ok program ∧
      program.classes.map ClassDecl.unnumbered = classes.map ClassDecl.unnumbered := by
    cases encodes with
    | @object members values written encoded =>
      have yields := Decode.yields_mapM (encoded.imp fun _ _ encodes => Decode.yields_class encodes)
      rcases yields .empty with ⟨made, after, ran, same⟩
      refine ⟨{ after with classes := made }, ?_, ?_⟩
      · have classesEq : Decode.classes Decode.stmtNode (.object members) =
            values.mapM (Decode.classNode Decode.stmtNode) := by
          rw [Decode.classes, Decode.nodeMembers, pure_bind, written, Decode.required, pure_bind,
            Decode.elements_eq (.inl written), pure_bind]
        rw [ofJson_eq, Decode.program, classesEq, ran]
        rfl
      · rw [← List.forall₂_eq_eq_eq, List.forall₂_map_left_iff, List.forall₂_map_right_iff]
        exact same.flip
  rcases accepted with ⟨program, decoded, same⟩
  exact ⟨program, decoded, same, (isForest_ofJson decoded).toIndexed⟩

/-- One class with a field `int count` and a method `static void main(int step) { for (; ; )
print(this.next(step)); }`. -/
def writtenClasses : List ClassDecl :=
  [{  name := "Main"
      parent := none
      fields := [⟨"count", .primitive .int, .privateMember, false, ⟨2, 3⟩⟩]
      methods := [{
        name := "main"
        returnType := .primitive .void
        parameters := [⟨"step", .primitive .int, ⟨3, 20⟩⟩]
        body := .block ⟨⟨0⟩, ⟨3, 30⟩⟩ [.forLoop ⟨⟨0⟩, ⟨4, 5⟩⟩ none none none
          (.print ⟨⟨0⟩, ⟨4, 15⟩⟩ (.call ⟨⟨0⟩, ⟨4, 21⟩⟩ (some (.this ⟨⟨0⟩, ⟨4, 21⟩⟩)) "next"
            [.identifier ⟨⟨0⟩, ⟨4, 31⟩⟩ "step"]))]
        visibility := .publicMember
        isStatic := true
        position := ⟨3, 3⟩ }]
      position := ⟨1, 1⟩ }]

theorem exists_of_encodes_writtenClasses :
    EncodesClasses writtenClasses (Encoding.ofClasses writtenClasses) ∧
    ∃ program, ofJson (Encoding.ofClasses writtenClasses) = .ok program ∧
      program.classes.map ClassDecl.unnumbered = writtenClasses.map ClassDecl.unnumbered ∧
      program.Indexed := by
  have writable : ∀ decl ∈ writtenClasses, decl.Writable := by
    intro decl isClass
    obtain rfl := List.mem_singleton.mp isClass
    refine ⟨by simp, ?_, ?_, by decide⟩
    · intro field isField
      obtain rfl := List.mem_singleton.mp isField
      exact ⟨rfl, rfl, by decide⟩
    · intro method isMethod
      obtain rfl := List.mem_singleton.mp isMethod
      refine ⟨rfl, ?_, rfl, ⟨by decide, by decide, by decide⟩, by decide⟩
      intro parameter isParameter
      obtain rfl := List.mem_singleton.mp isParameter
      exact ⟨rfl, rfl, by decide⟩
  have encodes := Encoding.encodes_ofClasses writable
  exact ⟨encodes, exists_of_encodes encodes⟩

end Program

end Decaf
