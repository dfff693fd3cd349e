import Decaf.Code
import Decaf.Tree.Decode

/-!
# The compiler

A program goes through four phases: declarations, names, types, code. The first phase that has
something to complain about ends the compilation; its complaints are reported in the order of their
positions.
-/

namespace Decaf

/-- What the phases up to type checking find out about a program. A phase is there if those before
it have no complaints. -/
structure Analysis where
  hierarchy : Hierarchy
  members : Members
  /-- The names in method bodies. -/
  resolution : Option Resolution
  findings : Option Findings
  deriving Inhabited

namespace Analysis

/-- The complaints about declarations. -/
def declarationDiagnostics (analysis : Analysis) : List Diagnostic :=
  analysis.hierarchy.diagnostics ++ analysis.members.diagnostics

/-- The types of a program whose names are resolved. -/
def typing (program : Program) (members : Members) (resolution : Resolution) : Option Findings :=
  if resolution.diagnostics = [] then
    some (.ofResolution program.exprs.size members.sources resolution)
  else none

/-- The analysis of a program whose declarations are registered. -/
def ofDeclarations (program : Program) (hierarchy : Hierarchy) (members : Members) : Analysis :=
  if hierarchy.diagnostics ++ members.diagnostics = [] then
    let resolution := Resolution.ofMembers members
    { hierarchy
      members
      resolution := some resolution
      findings := typing program members resolution }
  else { hierarchy, members, resolution := none, findings := none }

/-- The analysis of a program. -/
def ofProgram (program : Program) : Analysis :=
  let hierarchy := Hierarchy.ofClasses program.classes
  ofDeclarations program hierarchy (Members.ofHierarchy program.classes hierarchy)

/-- The registry at the end of the analysis. -/
def registry (analysis : Analysis) : Registry :=
  (analysis.resolution.map Resolution.registry).getD analysis.members.registry

/-- The checked program, or the complaints of the phase that has some, in the order in which they
came up. -/
def checked (analysis : Analysis) : Except (List Diagnostic) CheckedProgram :=
  match analysis.resolution, analysis.findings with
  | none, _ => .error analysis.declarationDiagnostics
  | some resolution, none => .error resolution.diagnostics
  | some resolution, some findings =>
    if findings.diagnostics = [] then
      .ok
        { registry := resolution.registry
          order := analysis.hierarchy.order
          bodies := MethodBody.inSourceOrder analysis.members.sources
          bindings := resolution.bindings
          table := findings.table }
    else .error findings.diagnostics

end Analysis

/-- Compiles a program. -/
def Program.compile (program : Program) (options : Options) : Except (List Diagnostic) Listing :=
  ((Analysis.ofProgram program).checked.bind fun checked => checked.listing options).mapError
    Diagnostic.sortByPosition

/-- Why there is no listing. -/
inductive CompileError where
  | malformed (error : DecodeError)
  | rejected (diagnostics : List Diagnostic)

namespace CompileError

/-- The text that reports an error. -/
def message : CompileError → String
  | .malformed error => error.message
  | .rejected diagnostics => Diagnostic.renderAll diagnostics

/-- The status with which the compiler exits. -/
def exitCode : CompileError → Nat
  | .malformed _ => 2
  | .rejected _ => 1

end CompileError

/-- Compiles the program that a text holds. -/
def compileText (text : String) (options : Options) : Except CompileError Listing :=
  match Program.ofText text with
  | .error error => .error (.malformed error)
  | .ok program => (program.compile options).mapError CompileError.rejected

end Decaf
