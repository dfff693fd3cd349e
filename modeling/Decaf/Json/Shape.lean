import Decaf.Json.Value
import Decaf.Text.Escape

/-!
# Shapes of JSON values

Reading a JSON value as a record of plain members. The members of an object are checked in the order
of their names, and only then are missing ones complained about, so of several faults the one at the
first name is reported. Some records may also be written as an array of their members.
-/

namespace Decaf

namespace Json

/-- Why a value has not the shape that is asked for. -/
inductive ShapeFault where
  /-- A value of another kind. -/
  | wrongType (found : Json) (wanted : String)
  /-- An integer out of range. -/
  | wrongValue (found : Int) (wanted : String)
  /-- An array of another length. -/
  | wrongLength (length : Nat) (wanted : String)
  /-- A member that has to be there is not. -/
  | missingMember (name : String)
  /-- A word that is none of those allowed. -/
  | unknownWord (found : String) (allowed : List String)
  deriving Repr

/-- A value as faults describe it. -/
def describeFound : Json → String
  | .null => "null"
  | .boolean value => s!"boolean \x60{value}\x60"
  | .number (.integer value) => s!"integer \x60{value}\x60"
  | .number (.double value) => "floating point \x60" ++ value.render .json ++ "\x60"
  | .string value => "string " ++ quoted .message value
  | .array _ => "sequence"
  | .object _ => "map"

namespace ShapeFault

/-- The wording of a fault. -/
def message : ShapeFault → String
  | .wrongType found wanted => s!"invalid type: {describeFound found}, expected {wanted}"
  | .wrongValue found wanted => s!"invalid value: integer \x60{found}\x60, expected {wanted}"
  | .wrongLength length wanted => s!"invalid length {length}, expected {wanted}"
  | .missingMember name => s!"missing field \x60{name}\x60"
  | .unknownWord found allowed =>
    s!"unknown variant \x60{found}\x60, expected one of " ++
      ", ".intercalate (allowed.map fun word => s!"\x60{word}\x60")

end ShapeFault

/-- The result of reading a value as something of a certain shape. -/
abbrev Shaped := Except ShapeFault

namespace Shaped

/-- Reads a text. -/
def text : Json → Shaped String
  | .string value => .ok value
  | found => .error (.wrongType found "a string")

/-- Reads a truth value. -/
def flag : Json → Shaped Bool
  | .boolean value => .ok value
  | found => .error (.wrongType found "a boolean")

/-- The largest line or column. -/
def maxCoordinate : Int := 0xFFFFFFFF

/-- Reads a line or a column. -/
def coordinate : Json → Shaped Nat
  | .number (.integer value) =>
    if 0 ≤ value ∧ value ≤ maxCoordinate then .ok value.toNat else .error (.wrongValue value "u32")
  | found => .error (.wrongType found "u32")

/-- Reads `null` as nothing. -/
def nullable {Value : Type} (read : Json → Shaped Value) : Json → Shaped (Option Value)
  | .null => .ok none
  | value => (read value).map some

/-- Reads an array of equally shaped values. -/
def sequence {Value : Type} (read : Json → Shaped Value) : Json → Shaped (List Value)
  | .array elements => elements.mapM read
  | found => .error (.wrongType found "a sequence")

/-- Reads one of several words, written as itself or as its place among them. -/
def word {Word : Type} (all : List Word) (name : Word → String) : Json → Shaped Word
  | .string written =>
    match all.find? fun candidate => name candidate = written with
    | some found => .ok found
    | none => .error (.unknownWord written (all.map name))
  | .number (.integer value) =>
    if value < 0 then .error (.wrongType (.number (.integer value)) "variant identifier")
    else
      match all[value.toNat]? with
      | some found => .ok found
      | none => .error (.wrongValue value s!"variant index 0 <= i < {all.length}")
  | found => .error (.wrongType found "variant identifier")

/-- Reads a member, which may be missing. -/
def member {Value : Type} (name : String) (read : Json → Shaped Value)
    (members : List (String × Json)) : Shaped (Option Value) :=
  match member? name members with
  | some value => (read value).map some
  | none => .ok none

/-- Insists on a member. -/
def present {Value : Type} (name : String) : Option Value → Shaped Value
  | some value => .ok value
  | none => .error (.missingMember name)

/-- Reads an array element that has to be there; `shape` names the record that the array is read
as. -/
def element {Value : Type} (elements : List Json) (index : Nat) (shape : String)
    (read : Json → Shaped Value) : Shaped Value :=
  match elements[index]? with
  | some value => read value
  | none => .error (.wrongLength index shape)

/-- Reads an array element that may be missing at the end of the array. -/
def elementOr {Value : Type} (elements : List Json) (index : Nat) (fallback : Value)
    (read : Json → Shaped Value) : Shaped Value :=
  match elements[index]? with
  | some value => read value
  | none => .ok fallback

/-- Refuses elements behind the last one that is read. -/
def noMoreThan (elements : List Json) (count : Nat) (wanted : String) : Shaped Unit :=
  if elements.length ≤ count then .ok () else .error (.wrongLength elements.length wanted)

end Shaped

end Json

end Decaf
