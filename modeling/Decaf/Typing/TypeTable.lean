import Decaf.DataType
import Decaf.Table

/-!
# Type tables

What type checking finds out about the expressions of a program: the type of every value, the target
of every call and the way it is reached, and the field behind every field name.
-/

namespace Decaf

/-- How a call reaches its method. -/
inductive Dispatch where
  /-- Through a slot of the receiver's vtable. -/
  | virtual (slot : Nat)
  /-- Directly, with the current object as receiver. -/
  | super
  /-- Directly, without a receiver. -/
  | static
  deriving DecidableEq, Repr

/-- The method that a call names, and how it is reached. -/
structure CallTarget where
  /-- The method found in the receiver's static type. -/
  method : MethodId
  /-- How it is reached. -/
  dispatch : Dispatch
  deriving DecidableEq, Repr

/-- The findings of type checking. -/
structure TypeTable where
  /-- The type of each expression that is a value. -/
  types : Array (Option DataType)
  /-- The target of each call. -/
  calls : Table CallTarget
  /-- The field that each identifier or field access names. -/
  fields : Table FieldId
  deriving Inhabited

namespace TypeTable

/-- A table without findings for a number of expressions. -/
def ofSize (exprCount : Nat) : TypeTable := ⟨Array.replicate exprCount none, .empty, .empty⟩

/-- Records the type of a value; expressions outside of the table are left out. -/
def setType (table : TypeTable) (expr : ExprId) (type : DataType) : TypeTable :=
  { table with types := table.types.setIfInBounds expr.index (some type) }

/-- The type of a value. -/
def typeOf? (table : TypeTable) (expr : ExprId) : Option DataType := table.types[expr.index]?.join

/-- Records the target of a call. -/
def setCall (table : TypeTable) (expr : ExprId) (target : CallTarget) : TypeTable :=
  { table with calls := table.calls.insert expr.index target }

/-- The target of a call. -/
def call? (table : TypeTable) (expr : ExprId) : Option CallTarget := table.calls.get? expr.index

/-- Records the field that an expression names. -/
def setField (table : TypeTable) (expr : ExprId) (field : FieldId) : TypeTable :=
  { table with fields := table.fields.insert expr.index field }

/-- The field that an expression names. -/
def field? (table : TypeTable) (expr : ExprId) : Option FieldId := table.fields.get? expr.index

/-- How many expressions have a type. -/
def typedCount (table : TypeTable) : Nat := table.types.countP Option.isSome

end TypeTable

end Decaf
