import Decaf.Json.Token

/-!
# Reading JSON texts

A text is cut into tokens, and the tokens drive a machine with a stack of unfinished arrays and
objects. Nesting is bounded only by the length of the text. The only answer to a text that is not
JSON is that it is not.
-/

namespace Decaf

namespace Json

/-- An array or object whose closing bracket has not been met. -/
inductive Unfinished where
  /-- The elements read so far, last one first. -/
  | array (reversed : List Json)
  /-- The members read so far and the name whose value is being read. -/
  | object (members : List (String × Json)) (name : String)

/-- What may come next in a text. -/
inductive Expectation where
  /-- A value, for the innermost unfinished container or for the whole text. -/
  | value
  /-- The first element of an array or its closing bracket. -/
  | firstElement
  /-- The first member of an object or its closing brace. -/
  | firstMember
  /-- A further member of an object. -/
  | nextMember
  /-- The colon behind a member's name. -/
  | colon
  /-- A comma or the closing bracket of the innermost container. -/
  | separator
  /-- Nothing: the text holds this value. -/
  | finished (value : Json)

/-- A reader between two tokens. -/
structure Reader where
  /-- The unfinished containers, innermost first. -/
  stack : List Unfinished
  /-- What may come next. -/
  expected : Expectation

namespace Reader

/-- The reader of a text of which nothing has been read. -/
def start : Reader := ⟨[], .value⟩

/-- Puts a complete value where it belongs. -/
def complete (stack : List Unfinished) (value : Json) : Reader :=
  match stack with
  | [] => ⟨[], .finished value⟩
  | .array reversed :: outer => ⟨.array (value :: reversed) :: outer, .separator⟩
  | .object members name :: outer =>
    ⟨.object (insertMember name value members) name :: outer, .separator⟩

/-- Reads the first token of a value. -/
def beginValue (stack : List Unfinished) : Token → Option Reader
  | .scalar value => some (complete stack value)
  | .openArray => some ⟨.array [] :: stack, .firstElement⟩
  | .openObject => some ⟨.object [] "" :: stack, .firstMember⟩
  | .closeArray | .closeObject | .comma | .colon => none

/-- Reads the name of a member. -/
def beginMember (stack : List Unfinished) (token : Token) : Option Reader :=
  match stack, token with
  | .object members _ :: outer, .scalar (.string name) =>
    some ⟨.object members name :: outer, .colon⟩
  | _, _ => none

/-- Reads what follows an element or a member. -/
def separate (stack : List Unfinished) (token : Token) : Option Reader :=
  match stack, token with
  | .array reversed :: outer, .comma => some ⟨.array reversed :: outer, .value⟩
  | .array reversed :: outer, .closeArray => some (complete outer (.array reversed.reverse))
  | .object members name :: outer, .comma => some ⟨.object members name :: outer, .nextMember⟩
  | .object members _ :: outer, .closeObject => some (complete outer (.object members))
  | _, _ => none

/-- Reads one token. -/
def step (reader : Reader) (token : Token) : Option Reader :=
  match reader.expected, token with
  | .value, token => beginValue reader.stack token
  | .firstElement, .closeArray => separate reader.stack .closeArray
  | .firstElement, token => beginValue reader.stack token
  | .firstMember, .closeObject => separate reader.stack .closeObject
  | .firstMember, token => beginMember reader.stack token
  | .nextMember, token => beginMember reader.stack token
  | .colon, .colon => some ⟨reader.stack, .value⟩
  | .colon, _ => none
  | .separator, token => separate reader.stack token
  | .finished _, _ => none

end Reader

/-- The value that a text holds, if the text is JSON. -/
def read? (text : String) : Option Json := do
  let tokens ← Token.scan [] text.toList
  let reader ← tokens.foldlM Reader.step Reader.start
  match reader.expected with
  | .finished value => return value
  | _ => none

end Json

end Decaf
