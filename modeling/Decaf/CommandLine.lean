import Decaf.Options

/-!
# The command line

The compiler is called with the path of a tree in JSON form. It writes the listing to the path
behind `--output`, or else next to the tree, with the extension `ami`.
-/

namespace Decaf

/-- One call of the compiler. -/
structure Invocation where
  /-- The path of the tree. -/
  input : String
  /-- The path of the listing. -/
  output : String
  /-- The choices of the compilation. -/
  options : Options
  deriving DecidableEq, Repr

/-- The arguments of a call as far as they are read. -/
structure Arguments where
  /-- The path of the tree. -/
  input : Option String := none
  /-- The chosen path of the listing. -/
  output : Option String := none
  /-- The choices of the compilation. -/
  options : Options := .default
  deriving DecidableEq, Repr, Inhabited

/-- Why the arguments of a call make no sense. -/
inductive UsageError where
  | missingInput
  | missingValue (option : String)
  | notANumber (option written : String)
  | unexpected (argument : String)
  deriving DecidableEq, Repr

namespace UsageError

/-- How the compiler is called. -/
def usage : String := "usage: decafc [--output FILE] [--registers N] [--no-entry] INPUT"

/-- The wording of an error. -/
def message : UsageError → String
  | .missingInput => "error: no input was given\n\n" ++ usage
  | .missingValue option => s!"error: a value is required for '{option}'\n\n" ++ usage
  | .notANumber option written => s!"error: invalid value '{written}' for '{option}'\n\n" ++ usage
  | .unexpected argument => s!"error: unexpected argument '{argument}'\n\n" ++ usage

/-- The status with which the compiler exits. -/
def exitCode (_ : UsageError) : Nat := 2

end UsageError

namespace Arguments

/-- Reads a number of decimal digits. -/
def countOfText? (written : String) : Option Nat :=
  if written.all Char.isDigit then written.toNat? else none

/-- Reads arguments from left to right. -/
def read (arguments : Arguments) : List String → Except UsageError Arguments
  | [] => .ok arguments
  | "--no-entry" :: rest =>
  read { arguments with options := arguments.options.withEntryStub false } rest
  | "--registers" :: written :: rest =>
    match countOfText? written with
    | some count =>
      read { arguments with options := arguments.options.withRegisterCount count } rest
    | none => .error (.notANumber "--registers" written)
  | "--output" :: path :: rest => read { arguments with output := some path } rest
  | "-o" :: path :: rest => read { arguments with output := some path } rest
  | argument :: rest =>
    if argument = "--registers" ∨ argument = "--output" ∨ argument = "-o" then
      .error (.missingValue argument)
    else if argument.startsWith "-" ∨ arguments.input.isSome then .error (.unexpected argument)
    else read { arguments with input := some argument } rest

end Arguments

namespace Invocation

/-- The name of a file without its extension; a dot at its start begins no extension. -/
def stem (name : List Char) : List Char :=
  match name.reverse.dropWhile fun character => character ≠ '.' with
  | [] | ['.'] => name
  | _ :: before => before.reverse

/-- A path with the extension `ami`, in place of the one that it has. -/
def listingPath (path : String) : String :=
  let name := (path.toList.reverse.takeWhile fun character => character ≠ '/').reverse
  let directory := path.toList.take (path.length - name.length)
  String.ofList (directory ++ stem name ++ ".ami".toList)

/-- The call that arguments describe. -/
def ofArguments (written : List String) : Except UsageError Invocation := do
  let arguments ← Arguments.read {} written
  match arguments.input with
  | none => .error .missingInput
  | some input =>
    return { input, output := arguments.output.getD (listingPath
      input), options := arguments.options }

end Invocation

end Decaf
