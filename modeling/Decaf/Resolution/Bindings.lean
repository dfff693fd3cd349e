import Decaf.Registry.Scope
import Decaf.Table

/-!
# Bindings

What the names in method bodies stand for: the declaration behind each identifier and each class
name in a `new`, the variables that each declaration statement introduces, and the locals of each
method.
-/

namespace Decaf

/-- The meaning of the names in all method bodies. -/
structure Bindings where
  /-- What identifiers and `new` expressions stand for, by expression. -/
  symbols : Table Symbol
  /-- The variables of a declaration statement, by statement. -/
  declared : Table (List VariableId)
  /-- The locals of a method in the order of declaration, by method. -/
  locals : Table (List VariableId)
  deriving Inhabited

namespace Bindings

/-- The bindings before any name is resolved. -/
def empty : Bindings := ⟨.empty, .empty, .empty⟩

/-- Binds a name to what it stands for. -/
def bind (bindings : Bindings) (expr : ExprId) (symbol : Symbol) : Bindings :=
  { bindings with symbols := bindings.symbols.insert expr.index symbol }

/-- What a name stands for. -/
def symbol? (bindings : Bindings) (expr : ExprId) : Option Symbol :=
  bindings.symbols.get? expr.index

/-- How many names are bound. -/
def count (bindings : Bindings) : Nat := bindings.symbols.size

/-- The variables that a declaration statement introduces. -/
def declarationsOf (bindings : Bindings) (stmt : StmtId) : List VariableId :=
  (bindings.declared.get? stmt.index).getD []

/-- Adds a variable to those that a statement introduces. -/
def declare (bindings : Bindings) (stmt : StmtId) (id : VariableId) : Bindings :=
  { bindings with
    declared := bindings.declared.insert stmt.index (bindings.declarationsOf stmt ++ [id]) }

/-- The locals of a method. -/
def localsOf (bindings : Bindings) (method : MethodId) : List VariableId :=
  (bindings.locals.get? method.index).getD []

/-- Adds a local to those of a method. -/
def addLocal (bindings : Bindings) (method : MethodId) (id : VariableId) : Bindings :=
  { bindings with
    locals := bindings.locals.insert method.index (bindings.localsOf method ++ [id]) }

end Bindings

end Decaf
