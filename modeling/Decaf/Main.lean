import Decaf.CommandLine
import Decaf.Compiler

/-!
# The program

Reads a tree, compiles it and writes the listing. Nothing is written unless the compilation
succeeds, and the listing takes the place of an older one only when it is complete.
-/

namespace Decaf

/-- Ends with a text on standard error and an exit status. -/
def giveUp (message : String) (status : Nat) : IO UInt32 := do
  IO.eprintln message
  return status.toUInt32

/-- Writes a text to a path through a file beside it. -/
def replaceFile (path text : String) : IO Unit := do
  let staging := path ++ ".tmp"
  try
    IO.FS.writeFile staging text
    IO.FS.rename staging path
  catch error =>
    try IO.FS.removeFile staging catch _ => pure ()
    throw error

/-- Compiles one file to another one. -/
def Invocation.run (invocation : Invocation) : IO UInt32 := do
  match ← (IO.FS.readFile invocation.input).toBaseIO with
  | .error error => giveUp s!"{invocation.input}: {error}" 2
  | .ok text =>
    match compileText text invocation.options with
    | .error error => giveUp error.message error.exitCode
    | .ok listing =>
      match ← (replaceFile invocation.output listing.render).toBaseIO with
      | .error error => giveUp s!"{invocation.output}: {error}" 2
      | .ok () => return 0

end Decaf

/-- Runs the compiler on the arguments of a call. -/
def main (arguments : List String) : IO UInt32 :=
  match Decaf.Invocation.ofArguments arguments with
  | .error error => Decaf.giveUp error.message error.exitCode
  | .ok invocation => invocation.run
