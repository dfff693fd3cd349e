import Decaf.Registry.Entry

/-!
# Frames

The frame of a call has numbered slots: first what the caller pushed, that is the receiver of an
instance method and the arguments, then the locals, then the spilled temporaries.
-/

namespace Decaf

/-- What decides the frame of a method. -/
structure Frame where
  method : MethodId
  /-- Whether the caller pushes a receiver. -/
  hasReceiver : Bool
  /-- How many arguments the caller pushes. -/
  arity : Nat
  localCount : Nat
  deriving DecidableEq, Repr, Inhabited

namespace Frame

/-- The frame of a method with a given number of locals. -/
def ofMethod (method : MethodEntry) (localCount : Nat) : Frame :=
  { method := method.id, hasReceiver := !method.isStatic, arity := method.arity, localCount }

/-- The slot of the receiver. -/
def receiverSlot? (frame : Frame) : Option Nat := if frame.hasReceiver then some 0 else none

/-- The slot of the first argument. -/
def firstArgument (frame : Frame) : Nat := if frame.hasReceiver then 1 else 0

/-- How many slots the caller fills. -/
def incoming (frame : Frame) : Nat := frame.firstArgument + frame.arity

/-- The slot of the first spilled temporary. -/
def spillBase (frame : Frame) : Nat := frame.incoming + frame.localCount

/-- The slot of a variable of the method. -/
def slot? (frame : Frame) (entry : VariableEntry) : Option Nat :=
  if entry.method = frame.method then
    match entry.storage with
    | .parameter rank => some (frame.firstArgument + rank)
    | .body rank => some (frame.incoming + rank)
  else none

end Frame

end Decaf
