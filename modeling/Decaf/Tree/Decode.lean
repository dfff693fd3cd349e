import Decaf.Json.Reader
import Decaf.Tree.Lowering

/-!
# Decoding syntax trees

A program reaches the compiler as a JSON value: the program, its classes and methods and every
statement and expression is an object, and child nodes are members of their parent. Decoding checks
the header of a node, then that its children are there, then the children in the order of the source
text, and numbers each node when its children are done. The first fault ends it. Beyond the shape of
the members it insists on known operators and types, on constants that fit their type, on values
that are not of type `void`, and on blocks as method bodies.
-/

namespace Decaf

namespace Decode

/-- The members of a node; `node` is how messages name it. -/
def nodeMembers (parent : Position) (node : String) : Json → Decode (List (String × Json))
  | .object members => pure members
  | found => fail parent node "kind" (.notANode found)

/-- The elements of an array member, none if it is missing. -/
def elements (position : Position) (node member : String) (members : List (String × Json)) :
    Decode (List Json) := do
  checkArray position node member members
  match Json.member? member members with
  | some (.array values) => return values
  | _ => return []

/-- The declaration of a field. -/
def fieldDecl (header : Header.Field) : Decode FieldDecl := do
  let type ← valueType header.position "FieldDecl" header.type
  let visibility ← visibility header.position "FieldDecl" header.visibility
  return {
    name := header.name, type, visibility, isStatic := header.isStatic
    position := header.position }

/-- The members of a value that is written as a block. -/
def isWrittenBlock : Json → Bool
  | .object members =>
    match Json.member? "kind" members with
    | some (.string written) => written = "Block"
    | _ => false
  | _ => false

section

variable (stmtOf : Position → Json → Decode Stmt)

/-- Decodes the body of a method that starts at a given position; it has to be a block. -/
def bodyNode (position : Position) : Option Json → Decode Stmt
  | some written =>
    if isWrittenBlock written then stmtOf position written
    else fail position "MethodDecl" "body" .bodyNotABlock
  | none => fail position "MethodDecl" "body" .bodyNotABlock

/-- Decodes a method; `parent` is where its class starts. -/
def methodNode (parent : Position) (value : Json) : Decode MethodDecl := do
  let members ← nodeMembers parent "MethodDecl" value
  let header ← shaped (Header.methodHeader members)
  let body ← bodyNode stmtOf header.position (Json.member? "body" members)
  let parameters ← header.parameters.mapM (variableDecl "Formal")
  let visibility ← visibility header.position "MethodDecl" header.visibility
  return {
    name := header.name
    returnType := .ofName header.returnType
    parameters
    body
    visibility
    isStatic := header.isStatic
    position := header.position }

/-- Decodes a class. -/
def classNode (value : Json) : Decode ClassDecl := do
  let members ← nodeMembers .unknown "ClassDecl" value
  let header ← shaped (Header.classHeader members)
  let fields ← header.fields.mapM fieldDecl
  let methods ← elements header.position "ClassDecl" "methods" members
  let methods ← methods.mapM (methodNode stmtOf header.position)
  return {
    name := header.name
    parent := header.parent.map fun name => ⟨name, header.position⟩
    fields
    methods
    position := header.position }

/-- Decodes the classes of a program. -/
def classes (value : Json) : Decode (List ClassDecl) := do
  let members ← nodeMembers .unknown "Program" value
  let _ ← required .unknown "Program" "classes" (Json.member? "classes" members)
  let values ← elements .unknown "Program" "classes" members
  values.mapM (classNode stmtOf)

/-- Decodes a program; `stmtOf` decodes a statement below the given position. -/
def program (value : Json) : Except DecodeError Program := do
  let (classes, program) ← (classes stmtOf value).run .empty
  return { program with classes }

end

end Decode

namespace Program

/-- The program that a JSON value holds. -/
def ofJson (value : Json) : Except DecodeError Program := Decode.program Lowering.lower value

/-- The program that a JSON text holds. -/
def ofText (text : String) : Except DecodeError Program :=
  match Json.read? text with
  | some value => ofJson value
  | none => .error .notJson

end Program

end Decaf
