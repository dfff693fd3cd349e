import Decaf.Proofs.Code.Pieces
import Mathlib.Logic.Function.Iterate

/-!
# Reading a body, and walking through its pieces

The order in which the conditions and the simple statements of a body are met, as the statements are
nested in each other. What a condition comes to is up to an oracle. A reading is given fuel: a loop
is gone through this often, and so is the update of a `for` loop between one iteration and the next.
-/

namespace Decaf

namespace Control

/-- What is met on the way through a body. -/
inductive Event where
  | act (stmt : Stmt)
  | test (condition : Expr)

/-- Decides a condition, given all that was met up to it. -/
abbrev Oracle := List Event → Bool

/-- How a statement is left. -/
inductive Exit where
  /-- At its end. -/
  | done
  /-- By a `break` out of the innermost loop around it. -/
  | broken
  /-- By a `continue` of the innermost loop around it. -/
  | continued
  | returned
  /-- It is not left: the fuel was used up. -/
  | unfinished
  deriving DecidableEq, Repr

/-- What was met at the end of a way, and how it ended. -/
structure Outcome where
  met : List Event
  exit : Exit

/-- A way through a statement, given what was met before. -/
abbrev Way := List Event → Outcome

namespace Way

/-- Leaves at once. -/
def leave (exit : Exit) : Way := fun met => ⟨met, exit⟩

/-- Goes on where the first way comes to its end. -/
def andThen (first next : Way) : Way := fun met =>
  let outcome := first met
  if outcome.exit = .done then next outcome.met else outcome

/-- A simple statement. -/
def act (stmt : Stmt) : Way := fun met =>
  ⟨met ++ [.act stmt], if stmt.isReturn then .returned else .done⟩

/-- One way if a condition holds, and another one if it does not. -/
def choose (oracle : Oracle) (condition : Expr) (yes no : Way) : Way := fun met =>
  let met := met ++ [.test condition]
  if oracle met then yes met else no met

/-- A `continue` leads to the end. -/
def resume (way : Way) : Way := fun met =>
  let outcome := way met
  if outcome.exit = .continued then { outcome with exit := .done } else outcome

/-- Again and again, until a `break` or a `return`. -/
def loop : Nat → Way → Way
  | 0, _ => leave .unfinished
  | fuel + 1, iteration => fun met =>
    let outcome := iteration met
    match outcome.exit with
    | .done => loop fuel iteration outcome.met
    | .broken => { outcome with exit := .done }
    | .continued | .returned | .unfinished => outcome

/-- Once more after every `continue`. -/
def rerun : Nat → Way → Way
  | 0, _ => leave .unfinished
  | fuel + 1, way => fun met =>
    let outcome := way met
    if outcome.exit = .continued then rerun fuel way outcome.met else outcome

/-- As long as a condition holds, where there is one. -/
def guarded (oracle : Oracle) (condition : Option Expr) (way : Way) : Way :=
  match condition with
  | some condition => choose oracle condition way (leave .broken)
  | none => way

end Way

mutual

/-- The way through a statement. -/
def read (oracle : Oracle) (fuel : Nat) : Stmt → Way
  | .block _ statements => readAll oracle fuel statements
  | .ifElse _ condition thenBranch none =>
    .choose oracle condition (read oracle fuel thenBranch) (.leave .done)
  | .ifElse _ condition thenBranch (some elseBranch) =>
    .choose oracle condition (read oracle fuel thenBranch) (read oracle fuel elseBranch)
  | .whileLoop _ condition body =>
    .loop fuel (.guarded oracle (some condition) (read oracle fuel body).resume)
  | .forLoop _ init condition update body =>
    -- the initializer stands outside of the loop, the update inside
      (match init with
        | some init => read oracle fuel init
        | none => .leave .done).andThen <|
    .loop fuel <| .guarded oracle condition <| (read oracle fuel body).resume.andThen <|
      .rerun fuel <|
      match update with
      | some update => read oracle fuel update
      | none => .leave .done
  | .breakLoop _ => .leave .broken
  | .continueLoop _ => .leave .continued
  | .ret site value => .act (.ret site value)
  | .evaluate site expr => .act (.evaluate site expr)
  | .assign site target value => .act (.assign site target value)
  | .declare site declared => .act (.declare site declared)
  | .print site value => .act (.print site value)
  | .skip site => .act (.skip site)
termination_by structural stmt => stmt

/-- The way through statements, one behind the other. -/
def readAll (oracle : Oracle) (fuel : Nat) : List Stmt → Way
  | [] => .leave .done
  | stmt :: rest => (read oracle fuel stmt).andThen (readAll oracle fuel rest)
termination_by structural stmts => stmts

end

/-- The way through a part that need not be there. -/
def readOption (oracle : Oracle) (fuel : Nat) : Option Stmt → Way
  | some stmt => read oracle fuel stmt
  | none => .leave .done

variable {oracle : Oracle} {fuel : Nat}

theorem read_forLoop (site : Site StmtId) (init : Option Stmt) (condition : Option Expr)
    (update : Option Stmt) (body : Stmt) :
    read oracle fuel (.forLoop site init condition update body) =
      (readOption oracle fuel init).andThen
      (.loop fuel (.guarded oracle condition ((read oracle fuel body).resume.andThen
        (.rerun fuel (readOption oracle fuel update))))) := by
  cases init <;> cases update <;> rfl

theorem read_of_isSimple {stmt : Stmt} (isSimple : stmt.isSimple = true) :
    read oracle fuel stmt = .act stmt := by
  cases stmt with
  | block | ifElse | whileLoop | forLoop | breakLoop | continueLoop => cases isSimple
  | _ => rfl

end Control

/-!
## Walking through the pieces of a body's code

Control goes from piece to piece. The code of a simple statement is gone through as a whole, the
code of a condition too, and the oracle says whether the branch behind it is taken; labels only mark
places, and jumps lead to them.
-/

namespace Piece

/-- The place of a label among pieces. -/
def find? (pieces : List Piece) (name : String) : Option Nat :=
  pieces.findIdx? fun piece => piece.label? = some name

/-- What is met at a piece. -/
def event? : Piece → Option Control.Event
  | .act stmt _ => some (.act stmt)
  | .test condition .. => some (.test condition)
  | .label _ | .jump _ => none

end Piece

namespace Control

/-- Where control is. -/
inductive Spot where
  /-- In front of a piece, or behind the last one. -/
  | place (index : Nat)
  /-- Back at the caller. -/
  | returned

/-- Control on its way through pieces. -/
structure Walk where
  spot : Spot
  /-- What it has met. -/
  met : List Event

namespace Walk

variable {code : List Instruction} {name : String} {target : Nat}

/-- In front of the first piece. -/
def start : Walk := ⟨.place 0, []⟩

/-- Goes on behind a label; without such a label it stays where it is. -/
def goTo (pieces : List Piece) (name : String) (walk : Walk) : Walk :=
  match Piece.find? pieces name with
  | some index => { walk with spot := .place index }
  | none => walk

/-- Goes through a piece. -/
def step (oracle : Oracle) (pieces : List Piece) (walk : Walk) : Walk :=
  match walk.spot with
  | .returned => walk
  | .place index =>
    match pieces[index]? with
    | some (.act stmt _) =>
      ⟨if stmt.isReturn then .returned else .place (index + 1), walk.met ++ [.act stmt]⟩
    | some (.test condition _ _ otherwise) =>
      let met := walk.met ++ [.test condition]
      if oracle met then ⟨.place (index + 1), met⟩ else goTo pieces otherwise ⟨.place index, met⟩
    | some (.label _) => { walk with spot := .place (index + 1) }
    | some (.jump name) => walk.goTo pieces name
    | none => walk

/-- After a number of steps. -/
def run (oracle : Oracle) (pieces : List Piece) (steps : Nat) (walk : Walk) : Walk :=
  (step oracle pieces)^[steps] walk

/-- The piece in front of which control is. -/
def piece? (pieces : List Piece) (walk : Walk) : Option Piece :=
  match walk.spot with
  | .place index => pieces[index]?
  | .returned => none

/-- Whether there is nothing to go through any more. -/
def IsOver (pieces : List Piece) (walk : Walk) : Prop :=
  walk.spot = .returned ∨ walk.spot = .place pieces.length

variable {oracle : Oracle} {pieces : List Piece} {walk : Walk} {index : Nat} {met : List Event}

theorem run_add (first later : Nat) :
    walk.run oracle pieces (first + later) = (walk.run oracle pieces first).run
      oracle pieces later := by
  rw [run, Nat.add_comm, Function.iterate_add_apply]
  rfl

theorem run_succ (steps : Nat) :
    walk.run oracle pieces (steps + 1) = (walk.run oracle pieces steps).step oracle pieces :=
  run_add steps 1

theorem run_one : walk.run oracle pieces 1 = walk.step oracle pieces := rfl

theorem step_act {stmt : Stmt} (found : pieces[index]? = some (.act stmt code)) :
    step oracle pieces ⟨.place index, met⟩ =
      ⟨if stmt.isReturn then .returned else .place (index + 1), met ++ [.act stmt]⟩ := by
  simp [step, found]

theorem step_label (found : pieces[index]? = some (.label name)) :
    step oracle pieces ⟨.place index, met⟩ = ⟨.place (index + 1), met⟩ := by
  simp [step, found]

theorem step_jump (found : pieces[index]? = some (.jump name))
    (leads : Piece.find? pieces name = some target) :
    step oracle pieces ⟨.place index, met⟩ = ⟨.place target, met⟩ := by
  simp [step, found, goTo, leads]

theorem step_test {condition : Expr} {register : Register} {otherwise : String}
    (found : pieces[index]? = some (.test condition code register otherwise))
    (leads : Piece.find? pieces otherwise = some target) :
    step oracle pieces ⟨.place index, met⟩ =
      ⟨.place (if oracle (met ++ [.test condition]) then index + 1 else target),
        met ++ [.test condition]⟩ := by
  simp only [step, found, goTo, leads]
  split <;> rfl

theorem step_of_isOver (isOver : walk.IsOver pieces) : walk.step oracle pieces = walk := by
  rcases walk with ⟨spot, met⟩
  rcases isOver with rfl | rfl <;> simp [step]

theorem run_of_isOver (isOver : walk.IsOver pieces) (steps : Nat) :
    walk.run oracle pieces steps = walk :=
  Function.iterate_fixed (step_of_isOver isOver) steps

theorem met_goTo (name : String) : (walk.goTo pieces name).met = walk.met := by
  rw [goTo]
  split <;> rfl

/-- A step meets what is met at the piece. -/
theorem met_step :
    (walk.step oracle pieces).met =
      walk.met ++ ((walk.piece? pieces).bind Piece.event?).toList := by
  rcases walk with ⟨index | _, met⟩
  · rw [step, piece?]
    dsimp only
    cases pieces[index]? with
    | none => simp
    | some piece =>
      cases piece with
      | act stmt code => rfl
      | test condition code register otherwise =>
        dsimp only
        split
        · rfl
        · rw [met_goTo]
          rfl
      | label name => simp [Piece.event?]
      | jump name => simp [met_goTo, Piece.event?]
  · simp [step, piece?]

/-- What was met is not forgotten. -/
theorem met_prefix_step : walk.met <+: (walk.step oracle pieces).met :=
  met_step ▸ List.prefix_append _ _

theorem met_prefix_run (steps : Nat) : walk.met <+: (walk.run oracle pieces steps).met := by
  induction steps with
  | zero => exact List.prefix_rfl
  | succ steps ih =>
    rw [run_succ]
    exact ih.trans met_prefix_step

/-- What was met on the way was met at a piece. -/
theorem exists_piece_of_met {steps : Nat} {event : Event}
    (isMet : event ∈ (walk.run oracle pieces steps).met) :
    event ∈ walk.met ∨
      ∃ earlier < steps, ((walk.run oracle pieces earlier).piece? pieces).bind Piece.event? =
        some event := by
  induction steps with
  | zero => exact .inl isMet
  | succ steps ih =>
    rw [run_succ, met_step, List.mem_append, Option.mem_toList] at isMet
    rcases isMet with isEarlier | isLast
    · exact (ih isEarlier).imp_right fun ⟨earlier, isBefore, isAt⟩ =>
        ⟨earlier, Nat.lt_succ_of_lt isBefore, isAt⟩
    · exact .inr ⟨steps, Nat.lt_succ_self _, isLast⟩

/-- A longer walk has met more, and a walk that is over does not go on. -/
theorem run_mono {fewer more : Nat} (isMore : fewer ≤ more) :
    (walk.run oracle pieces fewer).met <+: (walk.run oracle pieces more).met ∧
      ((walk.run oracle pieces fewer).IsOver pieces →
        walk.run oracle pieces more = walk.run oracle pieces fewer) := by
  obtain ⟨rest, rfl⟩ := Nat.exists_eq_add_of_le isMore
  rw [run_add]
  exact ⟨met_prefix_run rest, fun isOver => run_of_isOver isOver rest⟩

end Walk

end Control

end Decaf
