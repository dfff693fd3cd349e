import Decaf.Proofs.Renaming.Bindings
import Decaf.Proofs.Renaming.Code
import Decaf.Proofs.Renaming.Typing
import Decaf.Proofs.Reordering.Compilation

/-!
# Compilation of a renamed program

A program whose parameters and locals have got new names goes through all phases as before. Its
classes and members are registered alike, its names are bound to the same declarations, its nodes
have the same types, and so its listing is the same, instruction for instruction.
-/

namespace Decaf

/-! ## Layouts -/

namespace Registry.SameMembers

variable {registry other : Registry} (same : registry.SameMembers other)

include same

theorem classEntry?_eq (id : ClassId) : other.classEntry? id = registry.classEntry? id := by
  rw [Registry.classEntry?, Registry.classEntry?, same.classes_eq]

theorem layout_eq (order : List ClassId) :
    Layout.ofRegistry other order = Layout.ofRegistry registry order := by
  have sameStatic : Layout.isStaticField other = Layout.isStaticField registry := by
    funext id
    rw [Layout.isStaticField, Layout.isStaticField, same.fieldEntry?_eq]
  have samePlace : Layout.placeClass other = Layout.placeClass registry := by
    funext layout id
    rw [Layout.placeClass, Layout.placeClass, same.classEntry?_eq, sameStatic]
  rw [Layout.ofRegistry, Layout.ofRegistry, samePlace, Layout.staticFieldsOf,
    Layout.staticFieldsOf, sameStatic, classCount, classCount, same.classes_eq]

end Registry.SameMembers

/-! ## Listings -/

namespace CheckedProgram

/-- Two programs are checked with the same outcome; the bodies of the other one are renamed. -/
structure RenamedTo (given : Program.Renaming) (program other : CheckedProgram) : Prop where
  registries : program.registry.SameButNames other.registry
  order_eq : other.order = program.order
  bodies_eq : other.bodies = program.bodies.map (MethodBody.renamed · given)
  bindings_eq : other.bindings = program.bindings
  table_eq : other.table = program.table

namespace RenamedTo

variable {given : Program.Renaming} {program other : CheckedProgram}
  (renamedTo : RenamedTo given program other)

include renamedTo

theorem layout_eq : other.layout = program.layout := by
  rw [layout, layout, renamedTo.order_eq, renamedTo.registries.layout_eq]

theorem directives_eq : other.directives = program.directives := by
  have sameLabel : other.registry.methodLabel = program.registry.methodLabel :=
    funext renamedTo.registries.methodLabel_eq
  have sameVtable : other.vtableDirective = program.vtableDirective := by
    funext entry
    rw [vtableDirective, vtableDirective, sameLabel]
  rw [directives, directives, renamedTo.layout_eq, renamedTo.registries.classes_eq, sameVtable]

theorem mainMethod?_eq : other.mainMethod? = program.mainMethod? := by
  have sameEntry (body : MethodBody) :
      other.registry.methodEntry? (body.renamed given).id = program.registry.methodEntry? body.id :=
    renamedTo.registries.methodEntry?_eq body.id
  simp only [mainMethod?, renamedTo.bodies_eq, List.filterMap_map, Function.comp_def, sameEntry]

theorem entryStub_eq : other.entryStub = program.entryStub := by
  have sameCall : other.startCall = program.startCall := by
    funext method
    simp only [startCall, renamedTo.layout_eq, renamedTo.registries.methodLabel_eq,
      renamedTo.registries.objectInit_eq]
  rw [entryStub, entryStub, renamedTo.mainMethod?_eq, sameCall]

theorem contextOf_eq (layout : Layout) (method : MethodEntry) :
    other.contextOf layout method =
      { program.contextOf layout method with registry := other.registry } := by
  rw [contextOf, contextOf, frameOf, frameOf, renamedTo.bindings_eq, renamedTo.table_eq]

theorem addMethod_eq (layout : Layout) (registerCount : Nat) (generated : MethodCode)
    (body : MethodBody) :
    other.addMethod layout registerCount generated (body.renamed given) =
      program.addMethod layout registerCount generated body := by
  have sameEntry : other.registry.methodEntry? (body.renamed given).id =
      program.registry.methodEntry? body.id :=
    renamedTo.registries.methodEntry?_eq body.id
  rw [addMethod, addMethod, sameEntry]
  cases program.registry.methodEntry? body.id with
  | none => rfl
  | some method =>
    have sameCode : MethodContext.generate
        { program.contextOf layout method with registry := other.registry }
        registerCount generated.nextLabel (body.renamed given).source.decl.body =
          (program.contextOf layout method).generate registerCount generated.nextLabel
          body.source.decl.body :=
      MethodContext.generate_renamed renamedTo.registries _ _ _ _ _
    dsimp only
    rw [renamedTo.contextOf_eq, sameCode]

theorem methodCode_eq (registerCount : Nat) :
    other.methodCode registerCount = program.methodCode registerCount := by
  rw [methodCode, methodCode, renamedTo.bodies_eq, renamedTo.layout_eq, List.foldl_map]
  congr 1
  funext generated body
  exact renamedTo.addMethod_eq _ _ _ _

theorem listing_eq (options : Options) : other.listing options = program.listing options := by
  rw [listing, listing, renamedTo.methodCode_eq, renamedTo.entryStub_eq, renamedTo.directives_eq]

end RenamedTo

end CheckedProgram

/-! ## Programs -/

namespace Program

variable {program other : Program} {given : Renaming} {checked : CheckedProgram} {options : Options}
  {listing : Listing}

/-- A program that is checked without complaints is so with its variables renamed. -/
theorem exists_checked_renamed (renames : program.Renames given)
    (classes_eq : other.classes = program.renamedClasses given)
    (sameCount : other.exprs.size = program.exprs.size)
    (isChecked : (Analysis.ofProgram program).checked = .ok checked) :
    ∃ otherChecked, (Analysis.ofProgram other).checked = .ok otherChecked ∧
      checked.RenamedTo given otherChecked := by
  rcases Analysis.analyzedAs_of_checked isChecked with ⟨members, resolution, analyzedAs, typed, rfl⟩
  rcases analyzedAs with ⟨hierarchyFree, membersFree, rfl, rfl, silent⟩
  have membersTo := Members.renamedTo_ofHierarchy renames membersFree
  have same := Resolution.sameButNames_ofMembers renames hierarchyFree membersFree silent
  have hierarchy_eq := program.hierarchy_renamedClasses given
  have findings_eq := Findings.ofResolution_renamed given same.registries
    (Resolution.follows_ofHierarchy membersFree).valid.consistent.toWellFormed
    (Resolution.follows_ofHierarchy membersTo.otherSilent).valid.consistent.toWellFormed
    same.bindings_eq typed
  rw [← membersTo.sources_eq, ← sameCount] at findings_eq
  rw [← classes_eq] at membersTo same hierarchy_eq findings_eq
  have otherAnalyzed : other.AnalyzedAs
      (.ofHierarchy other.classes (Hierarchy.ofClasses other.classes))
      (.ofMembers (.ofHierarchy other.classes (Hierarchy.ofClasses other.classes))) :=
    ⟨hierarchy_eq ▸ hierarchyFree, membersTo.otherSilent, rfl, rfl, same.otherSilent⟩
  refine ⟨_, otherAnalyzed.checked_eq (findings_eq ▸ sameCount ▸ typed), ?_⟩
  exact
    { registries := same.registries
      order_eq := congrArg Hierarchy.order hierarchy_eq
      bodies_eq := by
        rw [CheckedProgram.ofResolution, CheckedProgram.ofResolution, membersTo.sources_eq]
        exact MethodBody.inSourceOrder_renamed _ given
      bindings_eq := same.bindings_eq
      table_eq := by
        rw [CheckedProgram.ofResolution, CheckedProgram.ofResolution, findings_eq, sameCount] }

/-- The listing of a program does not depend on the names of parameters and locals. -/
theorem compile_renamed (renames : program.Renames given)
    (classes_eq : other.classes = program.renamedClasses given)
    (sameCount : other.exprs.size = program.exprs.size)
    (compiled : program.compile options = .ok listing) : other.compile options = .ok listing := by
  rcases compile_eq_ok_iff.mp compiled with ⟨checked, isChecked, listed⟩
  rcases exists_checked_renamed renames classes_eq sameCount isChecked with
    ⟨otherChecked, otherIsChecked, renamedTo⟩
  exact compile_eq_ok_iff.mpr ⟨otherChecked, otherIsChecked,
    (renamedTo.listing_eq options).trans listed⟩

/-- `int x; int pick(int x) { { int x; x = 1; } for (; x < 9; x++) { int x; } return x; }` -/
def hidingProgram : Json :=
  .object
    [("classes",
      .array [.object [("name", .string "Main"), ("fields", .array [.variableOf "x" "int"]),
        ("methods", .array [.method "pick" "int" [.variableOf "x" "int"]
      [.block [.node "VarDeclStmt" [("vars", .array [.variableOf "x" "int"])],
          .node "Assign" [("target", .identifier "x"),
            ("value", .literal "int" (.number (.integer 1)))]],
        .node "For"
          [("cond", .binary "<" (.identifier "x") (.literal "int" (.number (.integer 9)))),
            ("update",
              .node "ExprStmt" [("expr",
                .node "IncDec" [("op", .string "++"), ("target", .identifier "x")])]),
            ("body", .block [.node "VarDeclStmt" [("vars", .array [.variableOf "x" "int"])]])],
        .node "Return" [("value", .identifier "x")]]])]])]

/-- Names for the variables of the only method of a program. -/
def numberedNames : Renaming := fun _ _ storage =>
  match storage with
  | .parameter rank => String.ofList ('p' :: List.replicate rank '0')
  | .body rank => String.ofList ('v' :: List.replicate rank '0')

/-- All that is called `x` there gets a name of its own but for the field. -/
theorem compile_hidingProgram : ∃ program, Program.ofJson hidingProgram = .ok program ∧
    program.Renames numberedNames ∧ ∃ listing, program.compile ⟨3, true⟩ = .ok listing ∧
      Program.compile { program with classes := program.renamedClasses numberedNames } ⟨3, true⟩ =
        .ok listing := by
  rcases Program.exists_of_test hidingProgram
    (fun program => ((program.newNames numberedNames).Nodup ∧
      ∀ name ∈ program.newNames numberedNames, name ∉ program.names) ∧
        (program.compile ⟨3, true⟩).toOption.isSome) (by decide +kernel) with ⟨program,
        decoded, tested⟩
  rcases of_decide_eq_true tested with ⟨⟨distinct, fresh⟩, compiles⟩
  rcases exists_listing compiles with ⟨listing, compiled⟩
  have renames : program.Renames numberedNames := ⟨distinct, fresh⟩
  exact ⟨program, decoded, renames, listing, compiled, compile_renamed renames rfl rfl compiled⟩

end Program

end Decaf
