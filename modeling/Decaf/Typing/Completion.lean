import Decaf.Tree.Stmt

/-!
# Completion

Whether control can reach the end of a statement, judged by its shape alone: an `if` can go either
way, a loop can end by its condition unless the condition is absent or the constant `true`, and
`return`, `break` and `continue` end the path they are on.
-/

namespace Decaf

/-- How control can leave a statement, apart from returns. -/
structure Flow where
  /-- Control can reach the end of the statement. -/
  completes : Bool
  /-- A `break` in the statement can leave the innermost loop around it. -/
  breaks : Bool
  deriving DecidableEq, Repr

namespace Flow

/-- The flow of a statement that does nothing to control. -/
def normal : Flow := ⟨true, false⟩

/-- The flow of a statement that ends its path within the innermost loop or leaves the method. -/
def abrupt : Flow := ⟨false, false⟩

/-- The flow of two statements one after the other: without an end of the first there is no
second. -/
def andThen (first second : Flow) : Flow :=
  if first.completes then ⟨second.completes, first.breaks || second.breaks⟩ else first

/-- The flow of a choice between two statements. -/
def either (left right : Flow) : Flow :=
  ⟨left.completes || right.completes, left.breaks || right.breaks⟩

/-- The flow of a loop around a body; `endless` says that no condition ends it. -/
def loop (endless : Bool) (body : Flow) : Flow := ⟨!endless || body.breaks, false⟩

end Flow

/-- Whether a loop with the given condition can only end by a `break`. -/
def Expr.isEndless : Option Expr → Bool
  | none => true
  | some condition => condition.isTrue

namespace Stmt

mutual

/-- The flow of a statement. -/
def flow : Stmt → Flow
  | .block _ statements => flowAll statements
  | .ifElse _ _ thenBranch elseBranch =>
    match elseBranch with
    | some elseBranch => thenBranch.flow.either elseBranch.flow
    | none => thenBranch.flow.either .normal
  | .whileLoop _ condition body => body.flow.loop (Expr.isEndless (some condition))
  | .forLoop _ _ condition _ body => body.flow.loop (Expr.isEndless condition)
  | .ret _ _ => .abrupt
  | .continueLoop _ => .abrupt
  | .breakLoop _ => ⟨false, true⟩
  | .evaluate _ _ => .normal
  | .assign _ _ _ => .normal
  | .declare _ _ => .normal
  | .print _ _ => .normal
  | .skip _ => .normal
termination_by structural stmt => stmt

/-- The flow of statements one after the other. -/
def flowAll : List Stmt → Flow
  | [] => .normal
  | stmt :: rest => stmt.flow.andThen (flowAll rest)
termination_by structural stmts => stmts

end

/-- Whether control can reach the end of a statement. -/
def canComplete (stmt : Stmt) : Bool := stmt.flow.completes

end Stmt

end Decaf
