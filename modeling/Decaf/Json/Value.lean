import Decaf.Binary64.Text

/-!
# JSON values

A JSON number keeps the distinction its text makes: without a point or an exponent it is an integer,
as long as a 64-bit word can hold it, and otherwise it is a double. The members of an object are
kept in the order of their names and no name occurs twice; writing a member again replaces it.
-/

namespace Decaf

/-- A JSON number. -/
inductive Json.Number where
  | integer (value : Int)
  | double (value : Binary64)
  deriving DecidableEq, Repr

/-- A JSON value. -/
inductive Json where
  | null
  | boolean (value : Bool)
  | number (value : Json.Number)
  | string (value : String)
  | array (elements : List Json)
  | object (members : List (String × Json))
  deriving Repr, Inhabited

namespace Json

/-- Puts a member into a list that is ordered by name, in place of one of the same name. -/
def insertMember (name : String) (value : Json) : List (String × Json) → List (String × Json)
  | [] => [(name, value)]
  | (otherName, otherValue) :: rest =>
    if name = otherName then (name, value) :: rest
    else if name < otherName then (name, value) :: (otherName, otherValue) :: rest
    else (otherName, otherValue) :: insertMember name value rest

/-- The object with the given members, the last of several with one name. -/
def ofMembers (members : List (String × Json)) : Json :=
  .object (members.foldl (fun ordered member => insertMember member.1 member.2 ordered) [])

/-- The value of a member. -/
def member? (name : String) : List (String × Json) → Option Json
  | [] => none
  | (otherName, value) :: rest => if otherName = name then some value else member? name rest

/-- The kind of a value, as messages name it. -/
def describe : Json → String
  | .null => "null"
  | .boolean _ => "a boolean"
  | .number _ => "a number"
  | .string _ => "a string"
  | .array _ => "an array"
  | .object _ => "an object"

/-- The written form of a character inside a JSON string. -/
def escapeInString (character : Char) : List Char :=
  if character = '"' then ['\\', '"']
  else if character = '\\' then ['\\', '\\']
  else if character = '\x08' then ['\\', 'b']
  else if character = '\x0c' then ['\\', 'f']
  else if character = '\n' then ['\\', 'n']
  else if character = '\r' then ['\\', 'r']
  else if character = '\t' then ['\\', 't']
  else if character.toNat < 0x20 then
    '\\' :: 'u' :: '0' :: '0' :: Nat.digitChar (character.toNat / 16) ::
      [Nat.digitChar (character.toNat % 16)]
  else [character]

/-- A text as a JSON string. -/
def renderString (text : String) : String :=
  String.ofList ('"' :: (text.toList.flatMap escapeInString ++ ['"']))

/-- A number in the notation of JSON texts. -/
def Number.render : Number → String
  | .integer value => toString value
  | .double value => value.render .json

mutual

/-- A text with the text of a value behind it. -/
def renderOnto (before : String) : Json → String
  | .null => before ++ "null"
  | .boolean value => before ++ if value then "true" else "false"
  | .number value => before ++ value.render
  | .string value => before ++ renderString value
  | .array elements => renderElements (before ++ "[") elements ++ "]"
  | .object members => renderMembers (before ++ "\x7b") members ++ "\x7d"
termination_by structural value => value

/-- A text with the texts of array elements behind it, separated by commas. -/
def renderElements (before : String) : List Json → String
  | [] => before
  | [element] => element.renderOnto before
  | element :: rest => renderElements (element.renderOnto before ++ ",") rest
termination_by structural elements => elements

/-- A text with the texts of object members behind it, separated by commas. -/
def renderMembers (before : String) : List (String × Json) → String
  | [] => before
  | [(name, value)] => value.renderOnto (before ++ renderString name ++ ":")
  | (name, value) :: rest =>
    renderMembers (value.renderOnto (before ++ renderString name ++ ":") ++ ",") rest
termination_by structural members => members

end

/-- The text of a value without any blank space. -/
def render (value : Json) : String := value.renderOnto ""

end Json

end Decaf
