import Decaf.Machine.Instruction

/-!
# Options

What the user of the compiler decides: how many registers the generated code may use, and whether it
gets an entry stub.
-/

namespace Decaf

/-- The choices of one compilation. -/
structure Options where
  /-- The size of the register pool. -/
  registerCount : Nat := 8
  /-- Whether the listing starts the program by itself. -/
  entryStub : Bool := true
  deriving DecidableEq, Repr, Inhabited

namespace Options

/-- The fewest registers that every instruction can be put together with. -/
def minRegisters : Nat := 3

/-- The most registers: as many as instructions can name. -/
def maxRegisters : Nat := Register.nameCount

/-- The choices where the user made none. -/
def default : Options := {}

/-- Chooses the size of the register pool, as far as the machine admits it. -/
def withRegisterCount (options : Options) (count : Nat) : Options :=
  { options with registerCount := min (max count minRegisters) maxRegisters }

/-- Chooses whether the listing starts the program by itself. -/
def withEntryStub (options : Options) (entryStub : Bool) : Options := { options with entryStub }

theorem registerCount_withRegisterCount (options : Options) (count : Nat) :
    minRegisters ≤ (options.withRegisterCount count).registerCount ∧
      (options.withRegisterCount count).registerCount ≤ maxRegisters := by
  simp only [withRegisterCount, minRegisters, maxRegisters, Register.nameCount]
  omega

end Options

end Decaf
