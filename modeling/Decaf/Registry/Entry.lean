import Decaf.DataType
import Decaf.Position

/-!
# Registered declarations

What is on record about each class, field, method and variable of a program. Entries mention each
other by number only.
-/

namespace Decaf

/-- A registered class. -/
structure ClassEntry where
  id : ClassId
  name : String
  /-- The name behind `extends`. -/
  parentName : Option String
  /-- The class it extends, once that is known. -/
  parent : Option ClassId
  /-- The scope of its members. -/
  scope : ScopeId
  fields : List FieldId
  methods : List MethodId
  /-- The methods that calls on its objects select, by slot. -/
  vtable : List MethodId
  position : Position
  deriving DecidableEq, Repr

/-- A registered field. -/
structure FieldEntry where
  id : FieldId
  name : String
  type : DataType
  owner : ClassId
  visibility : Visibility
  /-- Whether there is one such field for the whole class. -/
  isStatic : Bool
  position : Position
  deriving DecidableEq, Repr

/-- A registered method. -/
structure MethodEntry where
  id : MethodId
  name : String
  parameters : List VariableId
  parameterTypes : List DataType
  returnType : DataType
  owner : ClassId
  visibility : Visibility
  isStatic : Bool
  /-- Its place in the vtables of its class and of the classes below. -/
  slot : Option Nat
  /-- The inherited method that it replaces. -/
  overrides : Option MethodId
  /-- The scope of its parameters. -/
  scope : ScopeId
  position : Position
  deriving DecidableEq, Repr

namespace MethodEntry

/-- The number of arguments of a call. -/
def arity (method : MethodEntry) : Nat := method.parameterTypes.length

end MethodEntry

/-- Whether a variable is a parameter or a local of its method's body, and its rank among its
like. -/
inductive Storage where
  | parameter (rank : Nat)
  | body (rank : Nat)
  deriving DecidableEq, Repr

/-- A registered parameter or local. -/
structure VariableEntry where
  id : VariableId
  name : String
  type : DataType
  method : MethodId
  /-- Where it comes from. -/
  storage : Storage
  position : Position
  deriving DecidableEq, Repr

namespace VariableEntry

/-- Whether a variable is a parameter. -/
def isParameter (entry : VariableEntry) : Bool :=
  match entry.storage with
  | .parameter _ => true
  | .body _ => false

end VariableEntry

end Decaf
