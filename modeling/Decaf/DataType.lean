import Decaf.Identity

/-!
# Static types

The types of Decaf values are the five primitives, the declared classes, and the type of `null`,
which fits every class. A type written in a program is a name: a few primitives have two spellings,
and every other name is taken for a class.
-/

namespace Decaf

/-- The built-in types; `void` is the return type of a method that yields no value. -/
inductive Primitive where
  | void
  | bool
  | int
  | double
  | string
  deriving DecidableEq, Repr

namespace Primitive

/-- The name under which a primitive is printed. -/
def name : Primitive → String
  | .void => "void"
  | .bool => "bool"
  | .int => "int"
  | .double => "double"
  | .string => "string"

/-- The primitive that a written name stands for. -/
def ofName? (written : String) : Option Primitive :=
  if written = "void" then some .void
  else if written = "bool" ∨ written = "boolean" then some .bool
  else if written = "int" then some .int
  else if written = "double" ∨ written = "float" then some .double
  else if written = "string" ∨ written = "String" then some .string
  else none

/-- Whether arithmetic is defined on the primitive. -/
def isNumeric : Primitive → Bool
  | .int | .double => true
  | .void | .bool | .string => false

instance : ToString Primitive := ⟨name⟩

theorem ofName?_name (primitive : Primitive) : ofName? primitive.name = some primitive := by
  cases primitive <;> decide

end Primitive

/-- The static type of an expression. -/
inductive DataType where
  | primitive (kind : Primitive)
  | object (owner : ClassId)
  | null
  deriving DecidableEq, Repr

namespace DataType

/-- The type of a call that yields no value. -/
abbrev void : DataType := .primitive .void

/-- The type of 32-bit integers. -/
abbrev int : DataType := .primitive .int

/-- The type of double-precision numbers. -/
abbrev double : DataType := .primitive .double

/-- The type of truth values. -/
abbrev bool : DataType := .primitive .bool

/-- The type of texts. -/
abbrev string : DataType := .primitive .string

instance : Inhabited DataType := ⟨.null⟩

/-- Whether arithmetic is defined on the type. -/
def isNumeric : DataType → Bool
  | .primitive kind => kind.isNumeric
  | .object _ | .null => false

/-- Whether values of the type are object references. -/
def isReference : DataType → Bool
  | .primitive _ => false
  | .object _ | .null => true

/-- The class of an object type. -/
def classId? : DataType → Option ClassId
  | .object owner => some owner
  | .primitive _ | .null => none

instance : ToString DataType where
  toString
    | .primitive kind => kind.name
    | .object owner => toString owner
    | .null => "null"

end DataType

/-- A type as written in a program. -/
inductive TypeName where
  | primitive (kind : Primitive)
  | named (name : String)
  deriving DecidableEq, Repr

namespace TypeName

/-- Classifies a written name: the name of a primitive, else the name of a class. -/
def ofName (written : String) : TypeName :=
  match Primitive.ofName? written with
  | some kind => .primitive kind
  | none => .named written

/-- Whether the written type is `void`. -/
def isVoid (typeName : TypeName) : Bool := typeName = .primitive .void

instance : ToString TypeName where
  toString
    | .primitive kind => kind.name
    | .named name => name

end TypeName

/-- Who may use a member. -/
inductive Visibility where
  | publicMember
  | privateMember
  deriving DecidableEq, Repr

namespace Visibility

/-- The modifier's keyword. -/
def name : Visibility → String
  | .publicMember => "public"
  | .privateMember => "private"

/-- The modifier that a keyword stands for. -/
def ofName? (written : String) : Option Visibility :=
  if written = "public" then some .publicMember
  else if written = "private" then some .privateMember
  else none

instance : Inhabited Visibility := ⟨.publicMember⟩

instance : ToString Visibility := ⟨name⟩

end Visibility

end Decaf
