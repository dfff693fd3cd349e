import Decaf.Machine.Instruction

/-!
# Listings

A listing is the artifact of a compilation: the directives, the entry stub and the code of all
methods, one line each.
-/

namespace Decaf

/-- The instructions of a whole program, in order. -/
structure Listing where
  /-- Labels and directives among the instructions. -/
  instructions : Array Instruction
  deriving DecidableEq, Repr, Inhabited

namespace Listing

/-- How many instructions, labels and directives there are. -/
def size (listing : Listing) : Nat := listing.instructions.size

/-- The text of a listing; every line ends with a line break. -/
def render (listing : Listing) : String :=
  listing.instructions.foldl (fun text instruction => text ++ instruction.line ++ "\n") ""

end Listing

end Decaf
