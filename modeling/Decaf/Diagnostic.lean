import Decaf.Ordered
import Decaf.Position

/-!
# Diagnostics

A phase that rejects a program says why: each reason is a `Cause` at a position, and its category
and wording are functions of the cause. What a cause mentions (names, types, scopes) it holds as
text, already in the form a reader will see. Diagnostics are printed one a line.
-/

namespace Decaf

/-- The heading a cause is reported under. -/
inductive Category where
  | declaration
  | resolution
  | typing
  | visibility
  | internal
  deriving DecidableEq, Repr

namespace Category

/-- The heading's text. -/
def name : Category → String
  | .declaration => "DeclarationError"
  | .resolution => "ResolutionError"
  | .typing => "TypeError"
  | .visibility => "VisibilityError"
  | .internal => "InternalError"

/-- All headings, in the order in which they are listed. -/
def all : List Category := [.declaration, .resolution, .typing, .visibility, .internal]

instance : ToString Category := ⟨name⟩

end Category

/-- Why a program is rejected. -/
inductive Cause where
  /-- Two declarations of one name in one scope. -/
  | duplicateDeclaration (name scope : String)
  /-- A member's name used again for a member of the other role. -/
  | memberRoleConflict (name role otherRole owner : String)
  /-- A field with the name of an inherited field. -/
  | hiddenField (name ancestor : String)
  /-- A class that extends a name no class has. -/
  | unknownParent (child parent : String)
  /-- Classes that descend from themselves. -/
  | circularInheritance (cycle : String)
  /-- A method that differs from the inherited method of its name. -/
  | incompatibleOverride (owner method ancestor reason : String)
  /-- A name that nothing visible has. -/
  | undeclaredIdentifier (name : String)
  /-- A type name that is neither a primitive nor a class. -/
  | unknownType (name : String)
  /-- A member that the receiver's class does not have. -/
  | unknownMember (owner role name : String)
  /-- `this` or `super` where there is no such object. -/
  | invalidReceiver (keyword reason : String)
  /-- Operands that do not fit their operator. -/
  | operatorMismatch (operator requirement : String)
  /-- A value that does not fit what it is assigned to. -/
  | incompatibleAssignment (expected found target : String)
  /-- A target that is neither a variable nor a field. -/
  | notAssignable
  /-- A condition that is not a truth value. -/
  | nonBoolCondition (construct found : String)
  /-- A call with too many or too few arguments. -/
  | argumentCount (method : String) (expected found : Nat)
  /-- An argument that does not fit its parameter. -/
  | argumentType (method : String) (argument : Nat) (expected found : String)
  /-- A return that does not fit its method. -/
  | returnMismatch (explanation : String)
  /-- A method that can end without the value it declares. -/
  | missingReturn (method expected : String)
  /-- Member access on a value that is no object. -/
  | notAnObject (member found : String)
  /-- An instance member without an instance, or a static member through one. -/
  | staticContext (explanation : String)
  /-- A name that stands for no value. -/
  | notAValue (role name : String)
  /-- A call without a result where a value is needed. -/
  | voidValue
  /-- `break` or `continue` outside of every loop. -/
  | outsideLoop (keyword : String)
  /-- A value that `print` does not take. -/
  | printType (found : String)
  /-- A private member used outside of its class. -/
  | privateMember (role name owner : String)
  /-- Code generation met a program that the earlier phases should have rejected. -/
  | internal (explanation : String)
  deriving DecidableEq, Repr

namespace Cause

/-- The heading of each cause. -/
def category : Cause → Category
  | .duplicateDeclaration .. | .memberRoleConflict .. | .hiddenField .. | .unknownParent ..
  | .circularInheritance .. | .incompatibleOverride .. => .declaration
  | .undeclaredIdentifier .. | .unknownType .. | .unknownMember .. | .invalidReceiver .. =>
    .resolution
  | .operatorMismatch .. | .incompatibleAssignment .. | .notAssignable | .nonBoolCondition ..
  | .argumentCount .. | .argumentType .. | .returnMismatch .. | .missingReturn .. | .notAnObject ..
  | .staticContext .. | .notAValue .. | .voidValue | .outsideLoop .. | .printType .. => .typing
  | .privateMember .. => .visibility
  | .internal .. => .internal

/-- The wording of each cause. -/
def message : Cause → String
  | .duplicateDeclaration name scope => s!"duplicate declaration of '{name}' in {scope}"
  | .memberRoleConflict name role otherRole owner =>
    s!"'{name}' is declared as a {role} in class '{owner}' and cannot be redeclared as a {otherRole}"
  | .hiddenField name ancestor =>
    s!"field '{name}' hides the field inherited from class '{ancestor}'"
  | .unknownParent child parent => s!"class '{child}' extends undeclared class '{parent}'"
  | .circularInheritance cycle => s!"circular inheritance: {cycle}"
  | .incompatibleOverride owner method ancestor reason =>
    s!"method '{owner}.{method}' overrides '{ancestor}.{method}' incompatibly: {reason}"
  | .undeclaredIdentifier name => s!"undeclared identifier '{name}'"
  | .unknownType name => s!"unknown type '{name}'"
  | .unknownMember owner role name => s!"class '{owner}' has no {role} named '{name}'"
  | .invalidReceiver keyword reason => s!"'{keyword}' {reason}"
  | .operatorMismatch operator requirement => s!"operator '{operator}' {requirement}"
  | .incompatibleAssignment expected found target =>
    s!"cannot assign a value of type '{found}' to {target} of type '{expected}'"
  | .notAssignable => "expression is not assignable"
  | .nonBoolCondition construct found =>
    s!"{construct} condition must be of type 'bool', found '{found}'"
  | .argumentCount method expected found =>
    s!"method '{method}' expects {expected} argument(s), found {found}"
  | .argumentType method argument expected found =>
    s!"argument {argument} of '{method}' expects type '{expected}', found '{found}'"
  | .returnMismatch explanation => explanation
  | .missingReturn method expected =>
    s!"method '{method}' must return a value of type '{expected}' on every path"
  | .notAnObject member found => s!"cannot access member '{member}' on a value of type '{found}'"
  | .staticContext explanation => explanation
  | .notAValue role name => s!"{role} name '{name}' cannot be used as a value"
  | .voidValue => "expression of type 'void' cannot be used as a value"
  | .outsideLoop keyword => s!"'{keyword}' outside of a loop"
  | .printType found => s!"print accepts int, double, bool or string, found '{found}'"
  | .privateMember role name owner => s!"{role} '{name}' is private to class '{owner}'"
  | .internal explanation => s!"internal compiler error: {explanation}"

end Cause

/-- A cause at the position of the node it complains about. -/
structure Diagnostic where
  position : Position
  /-- What is wrong with it. -/
  cause : Cause
  deriving DecidableEq, Repr

namespace Diagnostic

/-- The line that reports a diagnostic. -/
def render (diagnostic : Diagnostic) : String :=
  s!"{diagnostic.position}: {diagnostic.cause.category}: {diagnostic.cause.message}"

/-- The report of several diagnostics, one a line. -/
def renderAll (diagnostics : List Diagnostic) : String :=
  "\n".intercalate (diagnostics.map render)

/-- How many diagnostics stand under a heading. -/
def countOf (category : Category) (diagnostics : List Diagnostic) : Nat :=
  diagnostics.countP fun diagnostic => diagnostic.cause.category = category

/-- The diagnostics in the order of their positions; those at one position keep their order. -/
def sortByPosition (diagnostics : List Diagnostic) : List Diagnostic :=
  sortBy (fun left right => left.position.isBeforeOrAt right.position) diagnostics

theorem perm_sortByPosition (diagnostics : List Diagnostic) :
    (sortByPosition diagnostics).Perm diagnostics :=
  perm_sortBy _ _

end Diagnostic

end Decaf
