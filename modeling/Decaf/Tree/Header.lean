import Decaf.Json.Shape
import Decaf.Position

/-!
# Node headers in JSON

In a JSON syntax tree a node is an object. Apart from its child nodes it has plain members: its
position, its kind, and what else belongs to that kind. They make up the node's header, which is
read before any child.
-/

namespace Decaf

open Json (Shaped)

namespace Header

/-- A field as written. -/
structure Field where
  name : String
  type : String
  /-- The keyword of its visibility. -/
  visibility : Option String
  isStatic : Bool
  position : Position
  deriving DecidableEq, Repr

/-- A parameter or local as written. -/
structure Variable where
  name : String
  type : String
  position : Position
  deriving DecidableEq, Repr

/-- A class without its methods. -/
structure Class where
  name : String
  parent : Option String
  fields : List Field
  position : Position
  deriving DecidableEq, Repr

/-- A method without its body. -/
structure Method where
  name : String
  returnType : String
  parameters : List Variable
  /-- The keyword of its visibility. -/
  visibility : Option String
  isStatic : Bool
  position : Position
  deriving DecidableEq, Repr

/-- Reads a field written as an object. -/
def fieldOfMembers (members : List (String × Json)) : Shaped Field := do
  let column ← Shaped.member "col" Shaped.coordinate members
  let line ← Shaped.member "line" Shaped.coordinate members
  let name ← Shaped.member "name" Shaped.text members
  let isStatic ← Shaped.member "static" Shaped.flag members
  let type ← Shaped.member "type" Shaped.text members
  let visibility ← Shaped.member "visibility" (Shaped.nullable Shaped.text) members
  return {
    name := ← Shaped.present "name" name
    type := ← Shaped.present "type" type
    visibility := visibility.join
    isStatic := isStatic.getD false
    position := ⟨line.getD 0, column.getD 0⟩ }

/-- Reads a field written as an array. -/
def fieldOfElements (elements : List Json) : Shaped Field := do
  let shape := "struct RawField with 6 elements"
  let name ← Shaped.element elements 0 shape Shaped.text
  let type ← Shaped.element elements 1 shape Shaped.text
  let visibility ← Shaped.elementOr elements 2 none (Shaped.nullable Shaped.text)
  let isStatic ← Shaped.elementOr elements 3 false Shaped.flag
  let line ← Shaped.elementOr elements 4 0 Shaped.coordinate
  let column ← Shaped.elementOr elements 5 0 Shaped.coordinate
  Shaped.noMoreThan elements 6 "fewer elements in array"
  return { name, type, visibility, isStatic, position := ⟨line, column⟩ }

/-- Reads a field. -/
def field : Json → Shaped Field
  | .object members => fieldOfMembers members
  | .array elements => fieldOfElements elements
  | found => .error (.wrongType found "struct RawField")

/-- Reads a variable written as an object. -/
def variableOfMembers (members : List (String × Json)) : Shaped Variable := do
  let column ← Shaped.member "col" Shaped.coordinate members
  let line ← Shaped.member "line" Shaped.coordinate members
  let name ← Shaped.member "name" Shaped.text members
  let type ← Shaped.member "type" Shaped.text members
  return {
    name := ← Shaped.present "name" name
    type := ← Shaped.present "type" type
    position := ⟨line.getD 0, column.getD 0⟩ }

/-- Reads a variable written as an array; `tooLong` words the complaint about more than four
elements. -/
def variableOfElements (tooLong : String) (elements : List Json) : Shaped Variable := do
  let shape := "struct RawVar with 4 elements"
  let name ← Shaped.element elements 0 shape Shaped.text
  let type ← Shaped.element elements 1 shape Shaped.text
  let line ← Shaped.elementOr elements 2 0 Shaped.coordinate
  let column ← Shaped.elementOr elements 3 0 Shaped.coordinate
  Shaped.noMoreThan elements 4 tooLong
  return { name, type, position := ⟨line, column⟩ }

/-- Reads a variable. -/
def variableDecl (tooLong : String) : Json → Shaped Variable
  | .object members => variableOfMembers members
  | .array elements => variableOfElements tooLong elements
  | found => .error (.wrongType found "struct RawVar")

/-- Reads the header of a class. -/
def classHeader (members : List (String × Json)) : Shaped Class := do
  let column ← Shaped.member "col" Shaped.coordinate members
  let fields ← Shaped.member "fields" (Shaped.sequence field) members
  let line ← Shaped.member "line" Shaped.coordinate members
  let name ← Shaped.member "name" Shaped.text members
  let parent ← Shaped.member "parent" (Shaped.nullable Shaped.text) members
  return {
    name := ← Shaped.present "name" name
    parent := parent.join
    fields := fields.getD []
    position := ⟨line.getD 0, column.getD 0⟩ }

/-- Reads the header of a method. -/
def methodHeader (members : List (String × Json)) : Shaped Method := do
  let column ← Shaped.member "col" Shaped.coordinate members
  let line ← Shaped.member "line" Shaped.coordinate members
  let name ← Shaped.member "name" Shaped.text members
  let parameters ←
    Shaped.member "params" (Shaped.sequence (variableDecl "fewer elements in array")) members
  let returnType ← Shaped.member "returnType" Shaped.text members
  let isStatic ← Shaped.member "static" Shaped.flag members
  let visibility ← Shaped.member "visibility" (Shaped.nullable Shaped.text) members
  return {
    name := ← Shaped.present "name" name
    returnType := ← Shaped.present "returnType" returnType
    parameters := parameters.getD []
    visibility := visibility.join
    isStatic := isStatic.getD false
    position := ⟨line.getD 0, column.getD 0⟩ }

/-- The kinds of statement nodes. -/
inductive StmtKind where
  | block
  | ifElse
  | whileLoop
  | forLoop
  | ret
  | evaluate
  | assign
  | declare
  | print
  | breakLoop
  | continueLoop
  | skip
  deriving DecidableEq, Repr

namespace StmtKind

/-- The word for a kind. -/
def name : StmtKind → String
  | .block => "Block"
  | .ifElse => "If"
  | .whileLoop => "While"
  | .forLoop => "For"
  | .ret => "Return"
  | .evaluate => "ExprStmt"
  | .assign => "Assign"
  | .declare => "VarDeclStmt"
  | .print => "Print"
  | .breakLoop => "Break"
  | .continueLoop => "Continue"
  | .skip => "Skip"

/-- All kinds of statements, in the order of their numbers. -/
def all : List StmtKind :=
  [.block, .ifElse, .whileLoop, .forLoop, .ret, .evaluate, .assign, .declare, .print, .breakLoop,
    .continueLoop, .skip]

end StmtKind

/-- The kinds of expression nodes. -/
inductive ExprKind where
  | binary
  | unary
  | literal
  | identifier
  | this
  | super
  | new
  | call
  | fieldAccess
  | step
  deriving DecidableEq, Repr

namespace ExprKind

/-- The word for a kind. -/
def name : ExprKind → String
  | .binary => "BinaryOp"
  | .unary => "UnaryOp"
  | .literal => "Literal"
  | .identifier => "Identifier"
  | .this => "This"
  | .super => "Super"
  | .new => "New"
  | .call => "Call"
  | .fieldAccess => "FieldAccess"
  | .step => "IncDec"

/-- All kinds of expressions, in the order of their numbers. -/
def all : List ExprKind :=
  [.binary, .unary, .literal, .identifier, .this, .super, .new, .call, .fieldAccess, .step]

end ExprKind

/-- What a statement node holds besides its child nodes. -/
inductive Stmt where
  /-- A declaration statement and its variables. -/
  | declare (declared : List Variable)
  /-- A statement of another kind, which has no members of its own. -/
  | plain (kind : StmtKind)
  deriving DecidableEq, Repr

/-- What an expression node holds besides its child nodes. -/
inductive Expr where
  | binary (symbol : String)
  | unary (symbol : String)
  | literal (type : String) (value : Json)
  | identifier (name : String)
  | this
  | super
  | new (className : String)
  | call (method : String)
  | fieldAccess (field : String)
  | step (symbol : String) (yieldsNew : Bool)
  deriving Repr

/-- Reads the position of a statement or an expression. -/
def nodePosition (members : List (String × Json)) : Shaped Position := do
  let column ← Shaped.member "col" Shaped.coordinate members
  let line ← Shaped.member "line" Shaped.coordinate members
  return ⟨line.getD 0, column.getD 0⟩

/-- Reads a text member that has to be there. -/
def requiredText (name : String) (members : List (String × Json)) : Shaped String := do
  let written ← Shaped.member name Shaped.text members
  Shaped.present name written

/-- Reads the header of a statement. -/
def stmtHeader (members : List (String × Json)) : Shaped (Stmt × Position) := do
  let position ← nodePosition members
  let written ← Shaped.present "kind" (Json.member? "kind" members)
  match ← Shaped.word StmtKind.all StmtKind.name written with
  | .declare =>
    let declared ←
      Shaped.member "vars" (Shaped.sequence (variableDecl "4 elements in sequence")) members
    return (.declare (← Shaped.present "vars" declared), position)
  | kind => return (.plain kind, position)

/-- Reads the members that an expression of some kind has besides its child nodes. -/
def exprMembers (members : List (String × Json)) : ExprKind → Shaped Expr
  | .binary => return .binary (← requiredText "op" members)
  | .unary => return .unary (← requiredText "op" members)
  | .literal =>
    return .literal (← requiredText "type" members) ((Json.member? "value" members).getD .null)
  | .identifier => return .identifier (← requiredText "name" members)
  | .this => return .this
  | .super => return .super
  | .new => return .new (← requiredText "class" members)
  | .call => return .call (← requiredText "method" members)
  | .fieldAccess => return .fieldAccess (← requiredText "field" members)
  | .step => do
    let symbol ← Shaped.member "op" Shaped.text members
    let yieldsNew ← Shaped.member "prefix" Shaped.flag members
    return .step (← Shaped.present "op" symbol) (yieldsNew.getD false)

/-- Reads the header of an expression. -/
def exprHeader (members : List (String × Json)) : Shaped (Expr × Position) := do
  let position ← nodePosition members
  let written ← Shaped.present "kind" (Json.member? "kind" members)
  let kind ← Shaped.word ExprKind.all ExprKind.name written
  return (← exprMembers members kind, position)

end Header

end Decaf
