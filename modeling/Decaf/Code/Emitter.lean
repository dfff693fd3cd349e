import Decaf.Machine.Instruction
import Decaf.Machine.Label

/-!
# Emitting the code of a method

An emitter collects the instructions of one method, hands out labels that no other method uses, and
knows where `break` and `continue` lead in the loops around the current statement.
-/

namespace Decaf

/-- Where `break` and `continue` lead in a loop. -/
structure LoopLabels where
  /-- The label behind the loop. -/
  breakTo : String
  /-- The label where the next round begins. -/
  continueTo : String
  deriving DecidableEq, Repr

/-- The code of a method under construction. -/
structure Emitter where
  code : Array Instruction
  /-- The number of the next fresh label. -/
  nextLabel : Nat
  /-- The loops around the current statement, innermost first. -/
  loops : List LoopLabels
  deriving DecidableEq, Repr, Inhabited

namespace Emitter

/-- An emitter without code whose labels start at a given number. -/
def start (nextLabel : Nat) : Emitter := ⟨#[], nextLabel, []⟩

/-- Adds an instruction. -/
def emit (emitter : Emitter) (instruction : Instruction) : Emitter :=
  { emitter with code := emitter.code.push instruction }

/-- Adds several instructions. -/
def append (emitter : Emitter) (instructions : Array Instruction) : Emitter :=
  { emitter with code := emitter.code ++ instructions }

/-- A label that was not handed out before. -/
def freshLabel (emitter : Emitter) : String × Emitter :=
  (Label.inner emitter.nextLabel, { emitter with nextLabel := emitter.nextLabel + 1 })

/-- Begins the body of a loop. -/
def enterLoop (emitter : Emitter) (labels : LoopLabels) : Emitter :=
  { emitter with loops := labels :: emitter.loops }

/-- Ends the body of the innermost loop. -/
def exitLoop (emitter : Emitter) : Emitter :=
  { emitter with loops := emitter.loops.tail }

/-- The innermost loop. -/
def innermostLoop? (emitter : Emitter) : Option LoopLabels := emitter.loops.head?

/-- Whether control never reaches the end of the code by falling through. -/
def endsWithTerminator (emitter : Emitter) : Bool :=
  (emitter.code.back?.map Instruction.isTerminator).getD false

end Emitter

end Decaf
