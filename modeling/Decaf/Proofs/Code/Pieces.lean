import Decaf.Code.Statement
import Decaf.Proofs.Code.Temporaries
import Decaf.Proofs.Machine.Placement

/-!
# The pieces of a body's code

The code of a body falls into pieces: the code of each simple statement, the code of each condition
with its branch, and the labels and jumps in between. Control goes through a piece from its start to
its end, and only a branch or a jump leads elsewhere. `Lowered` says how the pieces of a statement
are put together.
-/

namespace Decaf

/-- The instructions that end a call. -/
def Instruction.IsReturn (instruction : Instruction) : Prop :=
  instruction = .ret ∨ ∃ source, instruction = .retValue source

namespace Stmt

/-- Whether a statement is carried out as a whole: it is neither a block, a branch, a loop nor a
jump. -/
def isSimple : Stmt → Bool
  | .ret .. | .evaluate .. | .assign .. | .declare .. | .print .. | .skip .. => true
  | .block .. | .ifElse .. | .whileLoop .. | .forLoop .. | .breakLoop .. | .continueLoop .. => false

/-- Whether a statement is a `return`. -/
def isReturn : Stmt → Bool
  | .ret .. => true
  | .evaluate .. | .assign .. | .declare .. | .print .. | .skip .. | .block .. | .ifElse ..
  | .whileLoop .. | .forLoop .. | .breakLoop .. | .continueLoop .. => false

end Stmt

/-- A part of the code of a body. -/
inductive Piece where
  /-- The code of a simple statement. -/
  | act (stmt : Stmt) (code : List Instruction)
  /-- The code of a condition, and the branch that is taken unless it holds. -/
  | test (condition : Expr) (code : List Instruction) (register : Register) (otherwise : String)
  | label (name : String)
  | jump (name : String)

namespace Piece

/-- The instructions of a piece. -/
def code : Piece → List Instruction
  | .act _ code => code
  | .test _ code register otherwise => code ++ [.branchIfZero register otherwise]
  | .label name => [.label name]
  | .jump name => [.jump name]

/-- The code of pieces one after the other. -/
def flatten (pieces : List Piece) : List Instruction := pieces.flatMap code

/-- The label that a piece defines. -/
def label? : Piece → Option String
  | .label name => some name
  | .act .. | .test .. | .jump _ => none

@[simp]
theorem flatten_nil : flatten [] = [] := rfl

@[simp]
theorem flatten_cons (piece : Piece) (pieces : List Piece) :
    flatten (piece :: pieces) = piece.code ++ flatten pieces :=
  List.flatMap_cons

@[simp]
theorem flatten_append (pieces more : List Piece) :
    flatten (pieces ++ more) = flatten pieces ++ flatten more :=
  List.flatMap_append

end Piece

/-- The code of a simple statement, as the generator emits it somewhere. -/
structure ActCode (context : MethodContext) (stmt : Stmt) (code : List Instruction) : Prop where
  generated : ∃ before after,
    before.pool.WellFormed ∧ before.pool.spillBase = context.frame.spillBase ∧
    (Generating.generateStmt context stmt).run before = .ok ((), after) ∧
    after.emitter.code.toList = before.emitter.code.toList ++ code
  closed : targetsOf code ⊆ labelsOf code
  returns : stmt.isReturn = true → ∃ front last, code = front ++ [last] ∧ last.IsReturn
  declares : ∀ site declared, stmt = .declare site declared →
    (∀ instruction ∈ code, instruction.IsPlain) ∧
    ∀ id ∈ context.bindings.declarationsOf site.id, ∃ entry slot,
    context.registry.variableEntry? id = some entry ∧
      context.frame.slot? entry = some slot ∧ ∃ register, .storeStack slot register ∈ code

/-- The code of a condition in front of its branch, as the generator emits it somewhere. -/
structure TestCode (context : MethodContext) (condition : Expr) (code : List Instruction)
    (register : Register) : Prop where
  generated : ∃ before after label,
    before.pool.WellFormed ∧ before.pool.spillBase = context.frame.spillBase ∧
    (Generating.branchUnless context condition label).run before = .ok ((), after) ∧
    after.emitter.code.toList = before.emitter.code.toList ++
      (code ++ [.branchIfZero register label])
  closed : targetsOf code ⊆ labelsOf code
  always : condition.isTrue = true → ∃ front, code = front ++ [.moveInt register 1]

/-- The pieces of a statement; `loop` has the labels of the innermost loop around it. -/
inductive Lowered (context : MethodContext) : Option LoopLabels → Stmt → List Piece → Prop where
  | act {loop : Option LoopLabels} {stmt : Stmt} {code : List Instruction}
      (isSimple : stmt.isSimple = true)
      (fits : ActCode context stmt code) : Lowered context loop stmt [.act stmt code]
  | block {loop : Option LoopLabels} {site : Site StmtId} {statements : List Stmt}
      {parts : List (List Piece)} (length_eq : parts.length = statements.length)
      (each : ∀ pair ∈ statements.zip parts, Lowered context loop pair.1 pair.2) :
      Lowered context loop (.block site statements) parts.flatten
  | ifThen {loop : Option LoopLabels} {site : Site StmtId} {condition : Expr} {thenBranch : Stmt}
      {code : List Instruction} {register : Register} {behind : String} {thenPieces : List Piece}
      (test : TestCode context condition code register)
      (thenLowered : Lowered context loop thenBranch thenPieces) :
      Lowered context loop (.ifElse site condition thenBranch none)
        (.test condition code register behind :: (thenPieces ++ [.label behind]))
  | ifElse {loop : Option LoopLabels} {site : Site StmtId} {condition : Expr}
      {thenBranch elseBranch : Stmt}
      {code : List Instruction} {register : Register} {otherwise behind : String}
      {thenPieces elsePieces : List Piece}
      (test : TestCode context condition code register)
      (thenLowered : Lowered context loop thenBranch thenPieces)
      (elseLowered : Lowered context loop elseBranch elsePieces) :
      Lowered context loop (.ifElse site condition thenBranch (some elseBranch))
        (.test condition code register otherwise ::
          (thenPieces ++ .jump behind :: .label otherwise :: (elsePieces ++ [.label behind])))
  | whileLoop {loop : Option LoopLabels} {site : Site StmtId} {condition : Expr} {body : Stmt}
      {code : List Instruction} {register : Register} {top behind : String}
      {bodyPieces : List Piece} (test : TestCode context condition code register)
      (bodyLowered : Lowered context (some ⟨behind, top⟩) body bodyPieces) :
      Lowered context loop (.whileLoop site condition body)
        (.label top :: .test condition code register behind ::
          (bodyPieces ++ [.jump top, .label behind]))
  | forLoop {loop : Option LoopLabels} {site : Site StmtId} {init : Option Stmt}
      {condition : Option Expr} {update : Option Stmt} {body : Stmt} {top next behind : String}
      {initPieces testPieces bodyPieces updatePieces : List Piece}
      (initLowered : ∀ stmt ∈ init, Lowered context loop stmt initPieces) (initNone : init = none →
        initPieces = [])
      (tests : ∀ expr ∈ condition, ∃ code register, TestCode context expr code register ∧
        testPieces = [.test expr code register behind])
      (testNone : condition = none → testPieces = [])
      (bodyLowered : Lowered context (some ⟨behind, next⟩) body bodyPieces)
      (updateLowered : ∀ stmt ∈ update, Lowered context (some ⟨behind, next⟩) stmt updatePieces)
      (updateNone : update = none → updatePieces = []) :
      Lowered context loop (.forLoop site init condition update body)
        (initPieces ++ .label top :: (testPieces ++ (bodyPieces ++ .label next ::
          (updatePieces ++ [.jump top, .label behind]))))
  | breakLoop {labels : LoopLabels} {site : Site StmtId} :
      Lowered context (some labels) (.breakLoop site) [.jump labels.breakTo]
  | continueLoop {labels : LoopLabels} {site : Site StmtId} :
      Lowered context (some labels) (.continueLoop site) [.jump labels.continueTo]

end Decaf
