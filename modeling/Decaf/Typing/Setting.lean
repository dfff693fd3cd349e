import Decaf.Diagnostic
import Decaf.Registry
import Decaf.Resolution.Bindings
import Decaf.Tree.Program
import Decaf.Typing.TypeTable

/-!
# Checking

Type checking goes through the code of one method at a time. It reads the setting of that method,
and it writes findings: types, call targets and fields for later phases, and complaints. Once an
expression is found wrong nothing is known about it, and what depends on it is passed over in
silence.
-/

namespace Decaf

/-- What surrounds the code being checked. -/
structure Setting where
  registry : Registry
  /-- What the names in method bodies stand for. -/
  bindings : Bindings
  /-- The method that the code belongs to. -/
  method : MethodEntry

namespace Setting

/-- The name of the method being checked, behind the name of its class. -/
def methodPath (setting : Setting) : String := setting.registry.methodPath setting.method.id

end Setting

/-- What an expression stands for. -/
inductive Meaning where
  /-- A value; `void` is the type of a call without a result. -/
  | value (type : DataType)
  /-- A class, in front of the dot of a static member. -/
  | aClass (id : ClassId)
  /-- The current object as an object of its class's parent, in front of a dot. -/
  | asParent (parent : ClassId)
  deriving DecidableEq, Repr

/-- What has been found out so far. -/
structure Findings where
  /-- What later phases need to know. -/
  table : TypeTable
  diagnostics : List Diagnostic := []
  deriving Inhabited

/-- A check, which adds to the findings. -/
abbrev Checking := StateM Findings

namespace Checking

/-- Adds a complaint. -/
def report (position : Position) (cause : Cause) : Checking Unit :=
  modify fun findings =>
    { findings with diagnostics := findings.diagnostics ++ [⟨position, cause⟩] }

/-- Adds a complaint if there is one. -/
def reportAny (position : Position) (cause : Option Cause) : Checking Unit :=
  match cause with
  | some cause => report position cause
  | none => pure ()

/-- Adds a complaint about an expression of which nothing is known thereby. -/
def reject {Result : Type} (position : Position) (cause : Cause) : Checking (Option Result) := do
  report position cause
  return none

/-- Writes down the type of an expression if it stands for a value. -/
def recordMeaning (expr : ExprId) (meaning : Option Meaning) : Checking Unit :=
  match meaning with
  | some (.value type) =>
    modify fun findings => { findings with table := findings.table.setType expr type }
  | some (.aClass _) | some (.asParent _) | none => pure ()

/-- Writes down the target of a call. -/
def recordCall (expr : ExprId) (target : CallTarget) : Checking Unit :=
  modify fun findings => { findings with table := findings.table.setCall expr target }

/-- Writes down the field that an expression names. -/
def recordField (expr : ExprId) (field : FieldId) : Checking Unit :=
  modify fun findings => { findings with table := findings.table.setField expr field }

end Checking

end Decaf
