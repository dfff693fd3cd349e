import Decaf.Proofs.Control.Walking
import Decaf.Proofs.Tree.Nodes
import Decaf.Typing.Completion

/-!
# Executions of a body

All the finite ways through a statement when nothing is known about its conditions: a test may go
either way each time, but the constant `true` never ends a loop. The flow of a statement tells
exactly whether one of them comes to its end, as long as the initializers and updates of its `for`
loops do nothing to control.
-/

namespace Decaf

namespace Stmt

/-- Whether a statement does something other than hand control on to the next one. -/
def divertsControl (stmt : Stmt) : Bool := !stmt.isSimple || stmt.isReturn

/-- Whether the initializer or the update of a `for` loop does more than hand control on. -/
def divertsInHead : Stmt → Bool
  | .forLoop _ init _ update _ => init.any divertsControl || update.any divertsControl
  | .block .. | .ifElse .. | .whileLoop .. | .ret .. | .evaluate .. | .assign .. | .declare ..
  | .print .. | .breakLoop .. | .continueLoop .. | .skip .. => false

theorem divertsControl_of_divertsInHead {site : Site StmtId} {init update : Option Stmt}
    {condition : Option Expr} {body : Stmt}
    (plain : (Stmt.forLoop site init condition update body).divertsInHead = false) :
    (∀ stmt ∈ init, stmt.divertsControl = false) ∧ ∀ stmt ∈ update,
      stmt.divertsControl = false := by
  rw [divertsInHead, Bool.or_eq_false_iff, Option.any_eq_false, Option.any_eq_false] at plain
  exact ⟨fun stmt isInit => by simpa using plain.1 stmt isInit,
    fun stmt isUpdate => by simpa using plain.2 stmt isUpdate⟩

end Stmt

namespace Control

/-- The finite executions of a part of a body: what one of them meets, and how it leaves the
part. -/
abbrev Executions := List Event → Exit → Prop

namespace Executions

/-- Leaves at once. -/
def leave (exit : Exit) : Executions := fun met way => met = [] ∧ way = exit

/-- A simple statement. -/
def act (stmt : Stmt) : Executions :=
  fun met exit => met = [.act stmt] ∧ exit = if stmt.isReturn then .returned else .done

/-- Goes on where the first part comes to its end. -/
inductive andThen (first next : Executions) : Executions
  | next {met later : List Event} {exit : Exit} (isDone : first met .done)
  (goesOn : next later exit) :
      andThen first next (met ++ later) exit
  | left {met : List Event} {exit : Exit} (isLeft : first met exit) (notDone : exit ≠ .done) :
      andThen first next met exit

/-- A condition is tested, and either of two parts is gone through. -/
inductive either (condition : Expr) (yes no : Executions) : Executions
  | yes {met : List Event} {exit : Exit} (goesOn : yes met exit) : either condition yes no
  (.test condition :: met) exit
  | no {met : List Event} {exit : Exit} (goesOn : no met exit) : either condition yes no
  (.test condition :: met) exit

/-- A `continue` leads to the end. -/
inductive resume (part : Executions) : Executions
  | continued {met : List Event} (isContinued : part met .continued) : resume part met .done
  | left {met : List Event} {exit : Exit} (isLeft : part met exit)
  (notContinued : exit ≠ .continued) :
      resume part met exit

/-- Once more after every `continue`. -/
inductive rerun (part : Executions) : Executions
  | again {met later : List Event} {exit : Exit} (isContinued : part met .continued)
  (goesOn : rerun part later exit) :
      rerun part (met ++ later) exit
  | left {met : List Event} {exit : Exit} (isLeft : part met exit)
      (notContinued : exit ≠ .continued) : rerun part met exit

/-- Again and again, until a `break` or a `return`. -/
inductive loop (iteration : Executions) : Executions
  | again {met later : List Event} {exit : Exit} (isDone : iteration met .done)
  (goesOn : loop iteration later exit) :
      loop iteration (met ++ later) exit
  | broken {met : List Event} (isBroken : iteration met .broken) : loop iteration met .done
  | left {met : List Event} {exit : Exit} (isLeft : iteration met exit) (notDone : exit ≠ .done)
      (notBroken : exit ≠ .broken) : loop iteration met exit

/-- A test of a loop's condition, where there is one; it may fail unless the condition is the
constant `true`. -/
inductive guarded : Option Expr → Executions → Executions
  | absent {part : Executions} {met : List Event} {exit : Exit} (goesOn : part met exit) :
  guarded none part met exit
  | holds {condition : Expr} {part : Executions} {met : List Event} {exit : Exit}
  (goesOn : part met exit) :
      guarded (some condition) part (.test condition :: met) exit
  | fails {condition : Expr} {part : Executions} (notTrue : condition.isTrue = false) :
      guarded (some condition) part [.test condition] .broken

end Executions

mutual

/-- The executions of a statement. -/
def executions : Stmt → Executions
  | .block _ statements => executionsAll statements
  | .ifElse _ condition thenBranch none => .either condition (executions thenBranch) (.leave .done)
  | .ifElse _ condition thenBranch (some elseBranch) =>
    .either condition (executions thenBranch) (executions elseBranch)
  | .whileLoop _ condition body => .loop (.guarded (some condition) (executions body).resume)
  | .forLoop _ init condition update body =>
    (match init with
      | some init => executions init
      | none => .leave .done).andThen <|
    .loop <| .guarded condition <| (executions body).resume.andThen <| .rerun <|
      match update with
      | some update => executions update
      | none => .leave .done
  | .breakLoop _ => .leave .broken
  | .continueLoop _ => .leave .continued
  | .ret site value => .act (.ret site value)
  | .evaluate site expr => .act (.evaluate site expr)
  | .assign site target value => .act (.assign site target value)
  | .declare site declared => .act (.declare site declared)
  | .print site value => .act (.print site value)
  | .skip site => .act (.skip site)
termination_by structural stmt => stmt

/-- The executions of statements, one behind the other. -/
def executionsAll : List Stmt → Executions
  | [] => .leave .done
  | stmt :: rest => (executions stmt).andThen (executionsAll rest)
termination_by structural stmts => stmts

end

/-- The executions of a part that need not be there. -/
def executionsOption : Option Stmt → Executions
  | some stmt => executions stmt
  | none => .leave .done

theorem executions_forLoop (site : Site StmtId) (init : Option Stmt) (condition : Option Expr)
    (update : Option Stmt) (body : Stmt) :
    executions (.forLoop site init condition update body) = (executionsOption init).andThen
      (.loop
        (.guarded condition ((executions body).resume.andThen
          (.rerun (executionsOption update))))) := by
  cases init <;> cases update <;> rfl

/-! ## What a flow tells -/

namespace Executions

variable {first next part yes no : Executions} {flow later : Flow}
variable {stmt : Stmt} {exit : Exit} {condition : Option Expr}

/-- A flow tells whether some execution comes to the end, and whether some execution ends with a
`break`. -/
structure Exact (flow : Flow) (part : Executions) : Prop where
  completes_iff : flow.completes = true ↔ ∃ met, part met .done
  breaks_iff : flow.breaks = true ↔ ∃ met, part met .broken

theorem Exact.leave_done : Exact .normal (leave .done) :=
  ⟨by simp [Flow.normal, leave], by simp [Flow.normal, leave]⟩

theorem Exact.leave_broken : Exact ⟨false, true⟩ (leave .broken) :=
  ⟨by simp [leave], by simp [leave]⟩

theorem Exact.leave_continued : Exact .abrupt (leave .continued) :=
  ⟨by simp [Flow.abrupt, leave], by simp [Flow.abrupt, leave]⟩

theorem Exact.act_return (isReturn : stmt.isReturn = true) : Exact .abrupt (act stmt) :=
  ⟨by simp [Flow.abrupt, act, isReturn], by simp [Flow.abrupt, act, isReturn]⟩

theorem Exact.act (notReturn : stmt.isReturn = false) : Exact .normal (act stmt) :=
  ⟨by simp [Flow.normal, Executions.act, notReturn],
    by simp [Flow.normal, Executions.act, notReturn]⟩

/-- Statements one after the other are left where the first one is left, unless that comes to its
end. -/
theorem exists_andThen_iff : (∃ met, first.andThen next met exit) ↔
    ((∃ met, first met .done) ∧ ∃ met, next met exit) ∨ exit ≠ .done ∧ ∃ met, first met exit := by
  constructor
  · rintro ⟨_, ⟨isDone, goesOn⟩ | ⟨isLeft, notDone⟩⟩
    · exact .inl ⟨⟨_, isDone⟩, _, goesOn⟩
    · exact .inr ⟨notDone, _, isLeft⟩
  · rintro (⟨⟨_, isDone⟩, _, goesOn⟩ | ⟨notDone, _, isLeft⟩)
    · exact ⟨_, .next isDone goesOn⟩
    · exact ⟨_, .left isLeft notDone⟩

theorem Exact.andThen (firstExact : Exact flow first) (nextExact : Exact later next) :
    Exact (flow.andThen later) (first.andThen next) where
  completes_iff := by
    rw [exists_andThen_iff, ← firstExact.completes_iff, ← nextExact.completes_iff, Flow.andThen]
    cases completes : flow.completes <;> simp [completes]
  breaks_iff := by
    rw [exists_andThen_iff, ← firstExact.completes_iff, ← firstExact.breaks_iff,
      ← nextExact.breaks_iff, Flow.andThen]
    cases completes : flow.completes <;> simp [or_comm]

theorem exists_either_iff {condition : Expr} :
    (∃ met, either condition yes no met exit) ↔ (∃ met, yes met exit) ∨ ∃ met, no met exit := by
  constructor
  · rintro ⟨_, goesOn | goesOn⟩
    · exact .inl ⟨_, goesOn⟩
    · exact .inr ⟨_, goesOn⟩
  · rintro (⟨_, goesOn⟩ | ⟨_, goesOn⟩)
    · exact ⟨_, .yes goesOn⟩
    · exact ⟨_, .no goesOn⟩

theorem Exact.either (yesExact : Exact flow yes) (noExact : Exact later no) (condition : Expr) :
    Exact (flow.either later) (either condition yes no) where
  completes_iff := by
    rw [exists_either_iff, ← yesExact.completes_iff, ← noExact.completes_iff, Flow.either,
      Bool.or_eq_true]
  breaks_iff := by
    rw [exists_either_iff, ← yesExact.breaks_iff, ← noExact.breaks_iff, Flow.either,
      Bool.or_eq_true]

/-! ## Loops -/

/-- However many iterations there are, the last one ends with a `break`; and the first one can be
the last. -/
theorem exists_loop_done_iff : (∃ met, loop part met .done) ↔ ∃ met, part met .broken := by
  constructor
  · rintro ⟨met, isDone⟩
    generalize isExit : Exit.done = exit at isDone
    induction isDone with
    | again _ _ ih => exact ih isExit
    | broken isBroken => exact ⟨_, isBroken⟩
    | left _ notDone => exact absurd isExit.symm notDone
  · rintro ⟨met, isBroken⟩
    exact ⟨met, .broken isBroken⟩

/-- A loop consumes the `break`s of its body. -/
theorem not_loop_broken {met : List Event} : ¬loop part met .broken := by
  intro isBroken
  generalize isExit : Exit.broken = exit at isBroken
  induction isBroken with
  | again _ _ ih => exact ih isExit
  | broken => cases isExit
  | left _ _ notBroken => exact notBroken isExit.symm

theorem exists_guarded_broken_iff : (∃ met, guarded condition part met .broken) ↔
    Expr.isEndless condition = false ∨ ∃ met, part met .broken := by
  constructor
  · rintro ⟨_, goesOn | goesOn | notTrue⟩
    · exact .inr ⟨_, goesOn⟩
    · exact .inr ⟨_, goesOn⟩
    · exact .inl notTrue
  · rintro (canFail | ⟨met, goesOn⟩)
    · cases condition with
      | none => cases canFail
      | some condition => exact ⟨_, .fails canFail⟩
    · cases condition with
      | none => exact ⟨_, .absent goesOn⟩
      | some condition => exact ⟨_, .holds goesOn⟩

theorem exists_resume_broken_iff : (∃ met, resume part met .broken) ↔ ∃ met, part met .broken := by
  constructor
  · rintro ⟨_, ⟨⟩ | ⟨isLeft, _⟩⟩
    exact ⟨_, isLeft⟩
  · rintro ⟨met, isBroken⟩
    exact ⟨met, .left isBroken Exit.noConfusion⟩

theorem Exact.loop {iteration : Executions} (exact : Exact flow part)
    (breaks_iff : (∃ met, iteration met .broken) ↔ ∃ met, part met .broken) :
    Exact (flow.loop (Expr.isEndless condition)) (loop (guarded condition iteration)) where
  completes_iff := by
    rw [exists_loop_done_iff, exists_guarded_broken_iff, breaks_iff, ← exact.breaks_iff, Flow.loop,
      Bool.or_eq_true, Bool.not_eq_true']
  breaks_iff := ⟨nofun, fun ⟨_, isBroken⟩ => absurd isBroken not_loop_broken⟩

/-- Behind the body of a loop, an update that is never left by a `break` adds none. -/
theorem exists_iteration_broken_iff (unbroken : ∀ met, ¬next met .broken) :
    (∃ met, (resume part).andThen (rerun next) met .broken) ↔ ∃ met, part met .broken := by
  have unbrokenRerun : ¬∃ met, rerun next met .broken := by
    rintro ⟨met, isBroken⟩
    generalize isExit : Exit.broken = exit at isBroken
    induction isBroken with
    | again _ _ ih => exact ih isExit
    | left isLeft => exact unbroken _ (isExit ▸ isLeft)
  rw [exists_andThen_iff, exists_resume_broken_iff]
  simp [unbrokenRerun]

end Executions

open Executions

variable {stmt : Stmt}

/-! ## Statements -/

theorem executions_of_not_diverts (plain : stmt.divertsControl = false) :
    executions stmt = .act stmt ∧ stmt.isReturn = false := by
  rw [Stmt.divertsControl, Bool.or_eq_false_iff, Bool.not_eq_false'] at plain
  refine ⟨?_, plain.2⟩
  cases stmt with
  | block | ifElse | whileLoop | forLoop | breakLoop | continueLoop => cases plain.1
  | _ => rfl

/-- An initializer or update that does nothing to control is gone through to its end. -/
theorem exact_option {part : Option Stmt} (plain : ∀ stmt ∈ part, stmt.divertsControl = false) :
    Exact .normal (executionsOption part) := by
  cases part with
  | none => exact .leave_done
  | some stmt =>
    rcases executions_of_not_diverts (plain stmt rfl) with ⟨executionsEq, notReturn⟩
    rw [executionsOption, executionsEq]
    exact .act notReturn

theorem exact_all {statements : List Stmt}
    (each : ∀ stmt ∈ statements, Exact stmt.flow (executions stmt)) :
    Exact (Stmt.flowAll statements) (executionsAll statements) := by
  induction statements with
  | nil => exact .leave_done
  | cons stmt rest ih =>
    exact (each stmt (by simp)).andThen (ih fun other isOther => each other (by simp [isOther]))

/-- The flow of a statement tells how its executions leave it. -/
theorem exact_executions (plain : stmt.Never Stmt.divertsInHead) :
    Exact stmt.flow (executions stmt) := by
  induction stmt with
  | block site statements ih =>
    exact exact_all fun stmt isThere => ih stmt isThere (plain.child isThere)
  | ifElse site condition thenBranch elseBranch thenIh elseIh =>
    have thenExact := thenIh plain.child
    cases elseBranch with
    | none => exact thenExact.either .leave_done condition
    | some elseBranch => exact thenExact.either (elseIh elseBranch rfl plain.child) condition
  | whileLoop site condition body ih =>
    exact (ih plain.child).loop exists_resume_broken_iff
  | forLoop site init condition update body initIh updateIh bodyIh =>
    rcases Stmt.divertsControl_of_divertsInHead plain.here with ⟨initPlain, updatePlain⟩
    have bodyExact := bodyIh plain.child
    have unbroken : ∀ met, ¬executionsOption update met .broken := fun met isBroken =>
      Bool.false_ne_true ((exact_option updatePlain).breaks_iff.mpr ⟨met, isBroken⟩)
    rw [executions_forLoop]
    exact (exact_option initPlain).andThen (bodyExact.loop (exists_iteration_broken_iff unbroken))
  | ret site value => exact .act_return rfl
  | evaluate | assign | declare | print | skip => exact .act rfl
  | breakLoop site => exact .leave_broken
  | continueLoop site => exact .leave_continued

/-- A statement can complete exactly if some finite execution of it comes to its end. -/
theorem canComplete_iff_exists_execution {stmt : Stmt} (plain : stmt.Never Stmt.divertsInHead) :
    stmt.canComplete = true ↔ ∃ met, executions stmt met .done :=
  (exact_executions plain).completes_iff

/-- `for (skip; ; x) { while (x) { break; } if (x) break; else continue; return; }` -/
def breakingLoop : Stmt :=
  let site : Site StmtId := ⟨⟨0⟩, ⟨1, 1⟩⟩
  let condition : Expr := .identifier ⟨⟨0⟩, ⟨1, 1⟩⟩ "x"
  .forLoop site (some (.skip site)) none (some (.evaluate site condition)) <| .block site
    [.whileLoop site condition (.block site [.breakLoop site]),
      .ifElse site condition (.breakLoop site) (some (.continueLoop site)), .ret site none]

/-- The loop is left by its own `break`, which stands behind a loop that consumes another one. -/
theorem exists_execution_breakingLoop :
    breakingLoop.Never Stmt.divertsInHead ∧ breakingLoop.canComplete = true ∧
    ∃ met, executions breakingLoop met .done :=
  have plain : breakingLoop.Never Stmt.divertsInHead := by decide
  ⟨plain, rfl, (canComplete_iff_exists_execution plain).mp rfl⟩

end Control

end Decaf
