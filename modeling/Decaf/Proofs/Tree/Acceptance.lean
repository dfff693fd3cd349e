import Decaf.Proofs.Tree.Decode

/-!
# What decoding insists on

Each part of the decoder either refuses its input for a fault of the input, or yields what it
insists on. That is followed through the recursion: nothing that is declared has type `void`, bodies
are blocks, and no part ever complains about a node without children.
-/

namespace Decaf

/-- Whether an error says that a node came up without its children. -/
def DecodeError.isChildless : DecodeError → Bool
  | .invalidMember _ _ _ .childless => true
  | _ => false

namespace Stmt

/-- Whether a statement declares a variable of type `void`. -/
def declaresVoid : Stmt → Bool
  | .declare _ declared => declared.any fun decl => decl.type.isVoid
  | _ => false

theorem Never.of_children {flaw : Stmt → Bool} {stmt : Stmt} (here : flaw stmt = false)
    (each : ∀ child ∈ stmt.children, child.Never flaw) : stmt.Never flaw := by
  intro node isNode
  rcases mem_nodes_iff.mp isNode with rfl | ⟨child, isChild, inChild⟩
  · exact here
  · exact each child isChild node inChild

end Stmt

/-- The body of a method is a block, and neither it nor a parameter declares anything of type
`void`. -/
structure MethodDecl.WellFormed (method : MethodDecl) : Prop where
  block : method.body.isBlock = true
  locals : method.body.Never Stmt.declaresVoid
  parameters : ∀ decl ∈ method.parameters, decl.type.isVoid = false

/-- No field is of type `void`, and the methods are well formed. -/
structure ClassDecl.WellFormed (decl : ClassDecl) : Prop where
  fields : ∀ field ∈ decl.fields, field.type.isVoid = false
  methods : ∀ method ∈ decl.methods, method.WellFormed

namespace Decode

open Lowering (child? children exprMember_eq stmtMember_eq exprArray_eq stmtArray_eq)

variable {Value Next : Type}

/-- Decoding yields a value of a certain kind, or refuses the input for what it holds. -/
structure Ends (decode : Decode Value) (post : Value → Prop) : Prop where
  value : ∀ {before value after}, decode.run before = .ok (value, after) → post value
  fault : ∀ {before error}, decode.run before = .error error → error.isChildless = false

section

variable {post : Value → Prop} {last : Next → Prop} {position : Position} {node member : String}

theorem Ends.mono {other : Value → Prop} {decode : Decode Value} (ends : Ends decode post)
    (weaken : ∀ value, post value → other value) : Ends decode other :=
  ⟨fun ran => weaken _ (ends.value ran), ends.fault⟩

theorem Ends.bind {first : Decode Value} {next : Value → Decode Next} (ends : Ends first post)
    (rest : ∀ value, post value → Ends (next value) last) : Ends (first >>= next) last := by
  refine ⟨fun ran => ?_, fun {before error} ran => ?_⟩
  · rcases run_bind_eq_ok ran with ⟨value, between, firstRan, nextRan⟩
    exact (rest value (ends.value firstRan)).value nextRan
  · rw [StateT.run_bind] at ran
    cases firstRan : first.run before with
    | error fault =>
      rw [firstRan] at ran
      cases ran
      exact ends.fault firstRan
    | ok pair =>
      rw [firstRan] at ran
      exact (rest pair.1 (ends.value firstRan)).fault ran

theorem ends_pure {value : Value} (holds : post value) : Ends (pure value) post := by
  refine ⟨fun ran => ?_, fun ran => by cases ran⟩
  rcases run_pure_eq_ok ran with ⟨rfl, -⟩
  exact holds

theorem ends_fail {fault : MemberFault} (isOrdinary : fault ≠ .childless) :
    Ends (fail position node member fault) post := by
  refine ⟨fun ran => (by cases ran), fun ran => ?_⟩
  cases ran
  cases fault <;> first | rfl | exact absurd rfl isOrdinary

theorem ends_shaped (shaped : Json.Shaped Value) :
    Ends (Decode.shaped shaped) fun value => shaped = .ok value := by
  cases shaped with
  | ok value => exact ends_pure rfl
  | error fault =>
    refine ⟨fun ran => (by cases ran), fun ran => ?_⟩
    cases ran
    rfl

theorem ends_required (content : Option Value) :
    Ends (required position node member content) fun value => content = some value := by
  cases content with
  | none => exact ends_fail (by simp)
  | some value => exact ends_pure rfl

theorem ends_checkArray (members : List (String × Json)) :
    Ends (checkArray position node member members) fun _ => True := by
  unfold checkArray
  split <;> first | exact ends_pure trivial | exact ends_fail (by simp)

theorem ends_knownOperator (operator : Option Value) {written : String} :
    Ends (knownOperator position node written operator) fun _ => True := by
  cases operator with
  | none => exact ends_fail (by simp)
  | some operator => exact ends_pure trivial

theorem ends_literal (type : String) (value : Json) :
    Ends (literal position type value) fun _ => True := by
  unfold literal
  repeat' split
  all_goals first | exact ends_pure trivial | exact ends_fail (by simp)

theorem ends_valueType (written : String) :
    Ends (valueType position node written) fun type => type.isVoid = false := by
  unfold valueType
  split
  next => exact ends_fail (by simp)
  next notVoid => exact ends_pure (by simpa using notVoid)

theorem ends_visibility (written : Option String) :
    Ends (Decode.visibility position node written) fun _ => True := by
  unfold Decode.visibility
  repeat' split
  all_goals first | exact ends_pure trivial | exact ends_fail (by simp)

theorem ends_variableDecl (header : Header.Variable) :
    Ends (Decode.variableDecl node header) fun decl => decl.type.isVoid = false :=
  (ends_valueType header.type).bind fun _ notVoid => ends_pure notVoid

theorem ends_mapM {Item : Type} {decode : Item → Decode Value}
    (each : ∀ item, Ends (decode item) post) (items : List Item) :
    Ends (items.mapM decode) fun values => ∀ value ∈ values, post value := by
  induction items with
  | nil => exact ends_pure (by simp)
  | cons item rest ih =>
    rw [List.mapM_cons]
    refine (each item).bind fun value holds => ih.bind fun values hold => ends_pure ?_
    exact List.forall_mem_cons.mpr ⟨holds, hold⟩

theorem ends_optional {content : Option (Decode Value)}
    (each : ∀ decode, content = some decode → Ends decode post) :
    Ends (Decode.optional content) fun found => ∀ value ∈ found, post value := by
  cases content with
  | none => exact ends_pure (by simp)
  | some decode =>
    rw [Decode.optional, map_eq_pure_bind]
    exact (each decode rfl).bind fun value holds => ends_pure (by simpa using holds)

theorem ends_expr (make : Site ExprId → Expr) : Ends (expr position make) fun _ => True :=
  ⟨fun _ => trivial, fun ran => by cases ran⟩

theorem ends_stmt (make : Site StmtId → Stmt) :
    Ends (stmt position make) fun made => ∃ site, made = make site := by
  refine ⟨fun ran => ?_, fun ran => by cases ran⟩
  cases ran
  exact ⟨_, rfl⟩

end

variable {position : Position} {values : List Json} {node : String}

/-! ## Nodes -/

theorem ends_exprElements
    (each : ∀ value ∈ values, ∀ parent, Ends (exprNode parent value) fun _ => True) :
    Ends (exprElements position values) fun _ => True := by
  induction values with
  | nil => exact ends_pure trivial
  | cons value rest ih =>
    refine (each value List.mem_cons_self position).bind fun _ _ => ?_
    exact (ih fun other isOther => each other (List.mem_cons_of_mem _ isOther)).bind fun _ _ =>
      ends_pure trivial

theorem ends_exprNode (value : Json) : ∀ parent, Ends (exprNode parent value) fun _ => True := by
  induction value using Lowering.induction with
  | other value noNode =>
    intro parent
    cases value with
    | object members => exact absurd rfl (noNode members)
    | _ => exact ends_fail (by simp)
  | node members child array =>
    intro parent
    rw [exprNode]
    refine (ends_shaped _).bind fun pair _ => ?_
    rcases pair with ⟨header, position⟩
    have operand {name : String} {decode : Decode Expr}
        (found : exprMember name position members = some decode) : Ends decode fun _ => True := by
      rw [exprMember_eq] at found
      rcases Option.map_eq_some_iff.mp found with ⟨value, isChild, rfl⟩
      exact child name value isChild position
    cases header with
    | binary symbol =>
      refine (ends_required _).bind fun left leftFound =>
        (ends_required _).bind fun right rightFound => ?_
      refine (ends_knownOperator _).bind fun operator _ => ?_
      exact (operand leftFound).bind fun _ _ => (operand rightFound).bind fun _ _ => ends_expr _
    | unary symbol =>
      refine (ends_required _).bind fun inner found =>
        (ends_knownOperator _).bind fun operator _ => ?_
      exact (operand found).bind fun _ _ => ends_expr _
    | literal type value => exact (ends_literal _ _).bind fun _ _ => ends_expr _
    | call method =>
      refine (ends_checkArray _).bind fun _ _ =>
        (ends_optional fun _ => operand).bind fun receiver _ => ?_
      rw [exprArray_eq]
      exact (ends_exprElements (array "args")).bind fun _ _ => ends_expr _
    | fieldAccess field =>
      refine (ends_required _).bind fun receiver found => ?_
      exact (operand found).bind fun _ _ => ends_expr _
    | step symbol yieldsNew =>
      refine (ends_required _).bind fun target found =>
        (ends_knownOperator _).bind fun operator _ => ?_
      exact (operand found).bind fun _ _ => ends_expr _
    | identifier | this | super | new => exact ends_expr _

theorem ends_stmtElements {post : Stmt → Prop}
    (each : ∀ value ∈ values, ∀ parent, Ends (stmtNode parent value) post) :
    Ends (stmtElements position values) fun made => ∀ stmt ∈ made, post stmt := by
  induction values with
  | nil => exact ends_pure (by simp)
  | cons value rest ih =>
    refine (each value List.mem_cons_self position).bind fun first holds => ?_
    refine (ih fun other isOther => each other (List.mem_cons_of_mem _ isOther)).bind
      fun others hold => ends_pure ?_
    exact List.forall_mem_cons.mpr ⟨holds, hold⟩

/-- A statement that is accepted declares no variable of type `void`. -/
theorem ends_stmtNode (value : Json) :
    ∀ parent, Ends (stmtNode parent value) fun stmt => stmt.Never Stmt.declaresVoid := by
  induction value using Lowering.induction with
  | other value noNode =>
    intro parent
    cases value with
    | object members => exact absurd rfl (noNode members)
    | _ => exact ends_fail (by simp)
  | node members child array =>
    intro parent
    rw [stmtNode]
    refine (ends_shaped _).bind fun pair _ => ?_
    rcases pair with ⟨header, position⟩
    have operand {name : String} {decode : Decode Expr}
        (found : exprMember name position members = some decode) : Ends decode fun _ => True := by
      rw [exprMember_eq] at found
      rcases Option.map_eq_some_iff.mp found with ⟨value, -, rfl⟩
      exact ends_exprNode value position
    have part {name : String} {decode : Decode Stmt}
        (found : stmtMember name position members = some decode) :
        Ends decode fun stmt => stmt.Never Stmt.declaresVoid := by
      rw [stmtMember_eq] at found
      rcases Option.map_eq_some_iff.mp found with ⟨value, isChild, rfl⟩
      exact child name value isChild position
    have made {make : Site StmtId → Stmt} (here : ∀ site, (make site).declaresVoid = false)
        (each : ∀ site, ∀ stmt ∈ (make site).children, stmt.Never Stmt.declaresVoid) :
        Ends (stmt position make) fun stmt => stmt.Never Stmt.declaresVoid := by
      refine (ends_stmt make).mono fun stmt isMade => ?_
      rcases isMade with ⟨site, rfl⟩
      exact .of_children (here site) (each site)
    cases header with
    | declare written =>
      refine (ends_mapM ends_variableDecl written).bind fun declared notVoid =>
        made (fun site => ?_) (by simp [Stmt.children])
      exact List.any_eq_false.mpr fun decl isThere => by simp [notVoid decl isThere]
    | plain kind =>
      cases kind with
      | block =>
        refine (ends_checkArray _).bind fun _ _ => ?_
        rw [stmtArray_eq]
        refine (ends_stmtElements (array "stmts")).bind fun statements each => ?_
        exact made (fun _ => rfl) fun _ => each
      | ifElse =>
        refine (ends_required _).bind fun condition conditionFound =>
          (ends_required _).bind fun thenBranch thenFound => ?_
        refine (operand conditionFound).bind fun conditionExpr _ =>
          (part thenFound).bind fun thenStmt thenHolds => ?_
        refine (ends_optional fun _ => part).bind fun elseStmt elseHolds =>
          made (fun _ => rfl) fun _ => ?_
        simpa [Stmt.children] using ⟨thenHolds, elseHolds⟩
      | whileLoop =>
        refine (ends_required _).bind fun condition conditionFound =>
          (ends_required _).bind fun body bodyFound => ?_
        refine (operand conditionFound).bind fun conditionExpr _ =>
          (part bodyFound).bind fun bodyStmt holds => ?_
        exact made (fun _ => rfl) fun _ => by simpa [Stmt.children] using holds
      | forLoop =>
        refine (ends_required _).bind fun body bodyFound => ?_
        refine (ends_optional fun _ => part).bind fun initStmt initHolds => ?_
        refine (ends_optional fun _ => operand).bind fun conditionExpr _ => ?_
        refine (ends_optional fun _ => part).bind fun updateStmt updateHolds => ?_
        refine (part bodyFound).bind fun bodyStmt bodyHolds => made (fun _ => rfl) fun _ => ?_
        simp only [Stmt.children, List.mem_append, Option.mem_toList, List.mem_singleton,
          or_imp, forall_and, forall_eq]
        exact ⟨⟨initHolds, updateHolds⟩, bodyHolds⟩
      | ret =>
        exact (ends_optional fun _ => operand).bind fun _ _ =>
          made (fun _ => rfl) (by simp [Stmt.children])
      | evaluate | print =>
        refine (ends_required _).bind fun value found => (operand found).bind fun _ _ => ?_
        exact made (fun _ => rfl) (by simp [Stmt.children])
      | assign =>
        refine (ends_required _).bind fun target targetFound =>
          (ends_required _).bind fun value valueFound => ?_
        refine (operand targetFound).bind fun _ _ => (operand valueFound).bind fun _ _ => ?_
        exact made (fun _ => rfl) (by simp [Stmt.children])
      | declare | breakLoop | continueLoop | skip =>
        exact made (fun _ => rfl) (by simp [Stmt.children])

/-- What is written as a block is decoded to one. -/
theorem ends_block {written : Json} (isWritten : isWrittenBlock written = true)
    (parent : Position) : Ends (stmtNode parent written) fun stmt => stmt.isBlock = true := by
  refine ⟨fun {before stmt after} ran => ?_, (ends_stmtNode written parent).fault⟩
  unfold isWrittenBlock at isWritten
  split at isWritten
  next members =>
    split at isWritten
    next kind found =>
      obtain rfl : kind = "Block" := by simpa using isWritten
      rw [stmtNode] at ran
      rcases run_bind_eq_ok ran with ⟨pair, between, headerRan, ran⟩
      rcases pair with ⟨header, position⟩
      have headerEq : header = .plain .block := by
        have shapedEq := (ends_shaped _).value headerRan
        rw [Header.stmtHeader, found] at shapedEq
        cases positionEq : Header.nodePosition members with
        | error fault => simp [positionEq, Bind.bind, Except.bind] at shapedEq
        | ok start =>
          have isBlock : Json.Shaped.word Header.StmtKind.all Header.StmtKind.name
            (.string "Block") = .ok .block := rfl
          simp [positionEq, isBlock, Json.Shaped.present, Bind.bind, Except.bind,
            Pure.pure, Except.pure] at shapedEq
          exact shapedEq.1.symm
      subst headerEq
      rcases run_bind_eq_ok ran with ⟨_, _, _, ran⟩
      rcases run_bind_eq_ok ran with ⟨statements, _, _, ran⟩
      rcases (ends_stmt _).value ran with ⟨site, rfl⟩
      rfl
    next => cases isWritten
  next => cases isWritten

/-! ## Declarations -/

theorem ends_nodeMembers {parent : Position} (value : Json) :
    Ends (nodeMembers parent node value) fun _ => True := by
  unfold nodeMembers
  split <;> first | exact ends_pure trivial | exact ends_fail (by simp)

theorem ends_elements {member : String} (members : List (String × Json)) :
    Ends (elements position node member members) fun _ => True := by
  refine (ends_checkArray members).bind fun _ _ => ?_
  split <;> exact ends_pure trivial

theorem ends_fieldDecl (header : Header.Field) :
    Ends (Decode.fieldDecl header) fun decl => decl.type.isVoid = false :=
  (ends_valueType _).bind fun _ notVoid => (ends_visibility _).bind fun _ _ => ends_pure notVoid

theorem ends_bodyNode (position : Position) (written : Option Json) :
    Ends (bodyNode stmtNode position written) fun body =>
      body.isBlock = true ∧ body.Never Stmt.declaresVoid := by
  unfold bodyNode
  repeat' split
  next value isWritten =>
    refine ⟨fun ran => ⟨?_, ?_⟩, (ends_stmtNode value position).fault⟩
    · exact (ends_block isWritten position).value ran
    · exact (ends_stmtNode value position).value ran
  all_goals exact ends_fail (by simp)

theorem ends_methodNode (parent : Position) (value : Json) :
    Ends (methodNode stmtNode parent value) MethodDecl.WellFormed := by
  refine (ends_nodeMembers value).bind fun members _ => (ends_shaped _).bind fun header _ => ?_
  refine (ends_bodyNode _ _).bind fun body bodyHolds =>
    (ends_mapM ends_variableDecl _).bind fun parameters notVoid => ?_
  exact (ends_visibility _).bind fun visibility _ => ends_pure ⟨bodyHolds.1, bodyHolds.2, notVoid⟩

theorem ends_classNode (value : Json) : Ends (classNode stmtNode value) ClassDecl.WellFormed := by
  refine (ends_nodeMembers value).bind fun members _ => (ends_shaped _).bind fun header _ => ?_
  refine (ends_mapM ends_fieldDecl _).bind fun fields notVoid =>
    (ends_elements members).bind fun written _ => ?_
  exact (ends_mapM (ends_methodNode _) written).bind fun methods each => ends_pure ⟨notVoid, each⟩

theorem ends_classes (value : Json) :
    Ends (classes stmtNode value) fun decls => ∀ decl ∈ decls, decl.WellFormed := by
  refine (ends_nodeMembers value).bind fun members _ => (ends_required _).bind fun _ _ => ?_
  exact (ends_elements members).bind fun values _ => ends_mapM ends_classNode values

end Decode

namespace Program

variable {value : Json}

/-- No class of a decoded program declares anything of type `void`, and method bodies are blocks. -/
theorem wellFormed_of_mem {program : Program} (decoded : ofJson value = .ok program)
    {decl : ClassDecl} (isClass : decl ∈ program.classes) : decl.WellFormed := by
  rw [ofJson_eq, Decode.program] at decoded
  cases run : (Decode.classes Decode.stmtNode value).run .empty with
  | error fault => simp [run, Bind.bind, Except.bind] at decoded
  | ok pair =>
    have programEq : { pair.2 with classes := pair.1 } = program := by
      simpa [run, Bind.bind, Except.bind, Pure.pure, Except.pure] using decoded
    subst programEq
    exact (Decode.ends_classes value).value run decl isClass

/-- A value that is refused is refused for what it holds. -/
theorem not_isChildless {error : DecodeError} (refused : ofJson value = .error error) :
    error.isChildless = false := by
  rw [ofJson_eq, Decode.program] at refused
  cases run : (Decode.classes Decode.stmtNode value).run .empty with
  | error fault =>
    simp only [run, Bind.bind, Except.bind, Except.error.injEq] at refused
    exact refused ▸ (Decode.ends_classes value).fault run
  | ok pair => simp [run, Bind.bind, Except.bind, Pure.pure, Except.pure] at refused

end Program

end Decaf
