/-!
# Labels

The label of a method or a vtable carries the length of the class name in bytes, so the name can be
cut out of the label again whatever characters it holds. Labels inside methods are numbered through
the whole program.
-/

namespace Decaf

namespace Label

/-- Where a program starts. -/
def entry : String := "__start"

/-- The label of a method's code. -/
def method (className methodName : String) : String :=
  s!"M_{className.utf8ByteSize}{className}_{methodName}"

/-- The label of a class's vtable. -/
def vtable (className : String) : String :=
  s!"V_{className.utf8ByteSize}{className}"

/-- The label with a given number inside a method. -/
def inner (number : Nat) : String := s!"L{number}"

end Label

end Decaf
