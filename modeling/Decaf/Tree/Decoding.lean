import Decaf.Text.CharacterTable
import Decaf.Tree.Header
import Decaf.Tree.Program

/-!
# Decoding plain members

What a node of a JSON syntax tree holds besides its child nodes is checked member by member:
operators and types have to be known, constants have to fit their type, and what holds a value is
not of type `void`. The first fault ends decoding.
-/

namespace Decaf

open Json (ShapeFault Shaped)

/-- What is wrong with a member of a node. -/
inductive MemberFault where
  | notANode (found : Json)
  | missing
  | notAnArray (found : Json)
  | bodyNotABlock
  | voidType
  | unknownVisibility (written : String)
  | unknownOperator (written : String)
  | unknownLiteralType (written : String)
  | notAnInteger (found : Json)
  | integerOutOfRange (value : Int)
  | notANumber (found : Json)
  | notABoolean (found : Json)
  | notAString (found : Json)
  /-- A node comes up when not all of its children are made. -/
  | childless
  deriving Repr

namespace MemberFault

/-- The wording of a fault. -/
def message : MemberFault → String
  | .notANode found => s!"expected a node object, found {found.describe}"
  | .missing => "missing member"
  | .notAnArray found => s!"expected an array, found {found.describe}"
  | .bodyNotABlock => "method body must be a Block"
  | .voidType => "'void' is not a value type"
  | .unknownVisibility written => s!"unknown visibility '{written}'"
  | .unknownOperator written => s!"unknown operator '{written}'"
  | .unknownLiteralType written => s!"unknown literal type '{written}'"
  | .notAnInteger found => "expected an integer, found " ++ found.render
  | .integerOutOfRange value => s!"integer {value} out of range"
  | .notANumber found => "expected a number, found " ++ found.render
  | .notABoolean found => "expected a boolean, found " ++ found.render
  | .notAString found => "expected a string, found " ++ found.render
  | .childless => "node lowered without its children"

end MemberFault

/-- Why a JSON value is not a program. -/
inductive DecodeError where
  /-- The text is not JSON at all. -/
  | notJson
  /-- The header of a node has not the right shape. -/
  | shape (fault : ShapeFault)
  /-- A member of a node is not what the node needs. -/
  | invalidMember (position : Position) (node member : String) (fault : MemberFault)
  deriving Repr, Inhabited

namespace DecodeError

/-- The wording of an error. -/
def message : DecodeError → String
  | .notJson => "malformed syntax tree: not JSON"
  | .shape fault => s!"malformed syntax tree: {fault.message}"
  | .invalidMember position node member fault => s!"at {position}: {node}.{member}: {fault.message}"

end DecodeError

/-- Decoding: the state is the program made so far. -/
abbrev Decode := StateT Program (Except DecodeError)

namespace Decode

/-- Ends decoding at a member. -/
def fail {Value : Type} (position : Position) (node member : String) (fault : MemberFault) :
    Decode Value :=
  throw (.invalidMember position node member fault)

/-- Goes on with what a header holds. -/
def shaped {Value : Type} : Shaped Value → Decode Value
  | .ok value => pure value
  | .error fault => throw (.shape fault)

/-- Makes an expression node. -/
def expr (position : Position) (make : Site ExprId → Expr) : Decode Expr :=
  modifyGet fun program => program.addExpr position make

/-- Makes a statement node. -/
def stmt (position : Position) (make : Site StmtId → Stmt) : Decode Stmt :=
  modifyGet fun program => program.addStmt position make

/-- Insists that something is there. -/
def required {Value : Type} (position : Position) (node member : String) :
    Option Value → Decode Value
  | some value => pure value
  | none => fail position node member .missing

/-- Insists that a member is an array, if it is there at all. -/
def checkArray (position : Position) (node member : String) (members : List (String × Json)) :
    Decode Unit :=
  match Json.member? member members with
  | none | some .null | some (.array _) => pure ()
  | some found => fail position node member (.notAnArray found)

/-- The operator with the given spelling. -/
def knownOperator {Operator : Type} (position : Position) (node written : String) :
    Option Operator → Decode Operator
  | some operator => pure operator
  | none => fail position node "op" (.unknownOperator written)

/-- The type of a field, parameter or local. -/
def valueType (position : Position) (node written : String) : Decode TypeName :=
  if (TypeName.ofName written).isVoid then fail position node "type" .voidType
  else pure (TypeName.ofName written)

/-- The visibility of a member; without a modifier it is public. -/
def visibility (position : Position) (node : String) : Option String → Decode Visibility
  | none => pure .publicMember
  | some written =>
    match Visibility.ofName? written with
    | some found => pure found
    | none => fail position node "visibility" (.unknownVisibility written)

/-- The declaration of a parameter or local; `node` is how messages name it. -/
def variableDecl (node : String) (header : Header.Variable) : Decode VariableDecl := do
  let type ← valueType header.position node header.type
  return ⟨header.name, type, header.position⟩

/-! ## Constants -/

/-- The range of 64-bit integers. -/
def isWordInteger (value : Int) : Bool := -0x8000000000000000 ≤ value && value < 0x8000000000000000

/-- Reads an integer: an optional sign and digits. -/
def integerOfText? (text : List Char) : Option Int :=
  let (negative, digits) := Binary64.splitSign text
  if digits = [] ∨ ¬digits.all Char.isDigit then none
  else
    let magnitude : Int := Binary64.digitsValue digits
    let value := if negative then -magnitude else magnitude
    if isWordInteger value then some value else none

/-- The integer that the value of a constant stands for. -/
def integerOf? : Json → Option Int
  | .number (.integer value) => if isWordInteger value then some value else none
  | .string text => integerOfText? (trimBlanks text.toList)
  | _ => none

/-- The double that the value of a constant stands for. -/
def doubleOf? : Json → Option Binary64
  | .number (.integer value) => some (.ofInt value)
  | .number (.double value) => some value
  | .string text => Binary64.ofText? (trimBlanks text.toList)
  | _ => none

/-- The truth value that the value of a constant stands for. -/
def booleanOf? : Json → Option Bool
  | .boolean value => some value
  | .string text => if text = "true" then some true else if text = "false" then some false else none
  | _ => none

/-- A constant of the type with a given name. -/
def literal (position : Position) (type : String) (value : Json) : Decode Literal :=
  let refuse (fault : MemberFault) : Decode Literal := fail position "Literal" "value" fault
  if type = "int" then
    match integerOf? value with
    | none => refuse (.notAnInteger value)
    | some number =>
      if -0x80000000 ≤ number ∧ number < 0x80000000 then pure (.int (Int32.ofInt number))
      else refuse (.integerOutOfRange number)
  else if type = "double" ∨ type = "float" then
    match doubleOf? value with
    | none => refuse (.notANumber value)
    | some number => pure (.double number)
  else if type = "bool" ∨ type = "boolean" then
    match booleanOf? value with
    | none => refuse (.notABoolean value)
    | some flag => pure (.bool flag)
  else if type = "string" then
    match value with
    | .string text => pure (.string text)
    | _ => refuse (.notAString value)
  else if type = "null" then pure .null
  else fail position "Literal" "type" (.unknownLiteralType type)

end Decode

end Decaf
