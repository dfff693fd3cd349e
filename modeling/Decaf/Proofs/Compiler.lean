import Decaf.Proofs.Code.Methods
import Decaf.Proofs.Members.Complaints
import Decaf.Proofs.Members.Slots
import Decaf.Proofs.Tree.Forest

/-!
# The compiler never fails by itself

Whatever the program, compilation ends with a listing or with complaints about the program. Numbers
stay in range all the way, and once the phases up to type checking have no complaints, the code of
every method is generated.
-/

namespace Decaf

open Diagnostic

/-- Whenever something is looked up by its number, it is there. -/
structure Program.NumbersInRange (program : Program) : Prop where
  exprs : ∀ node ∈ program.exprNodes, program.exprs[node.id.index]? = some node
  stmts : ∀ node ∈ program.stmtNodes, program.stmts[node.id.index]? = some node
  /-- Every operation that led to the registry was asked for classes, members, variables and scopes
  on record. -/
  run : Registry.Run .empty (Analysis.ofProgram program).registry
  closed : (Analysis.ofProgram program).registry.Closed
  /-- While the vtable of a class is laid out, a slot that a method takes over is a place in it. -/
  slots : ∀ (front rest : List ClassId) (owner : ClassId) (classIndex : Nat) (decl : ClassDecl),
    (Hierarchy.ofClasses program.classes).order = front ++ owner :: rest →
      Members.SlotsInRange
        ((front.foldl (Members.addClassById program.classes (Hierarchy.ofClasses program.classes))
          { registry := (Hierarchy.ofClasses program.classes).registry }).withOwnMembers owner
              classIndex decl).registry
        owner
  symbols : ∀ resolution, (Analysis.ofProgram program).resolution = some resolution → ∀ id symbol,
    resolution.bindings.symbol? id = some symbol → resolution.registry.Knows symbol
  declared : ∀ resolution, (Analysis.ofProgram program).resolution = some resolution → ∀ stmt id,
    id ∈ resolution.bindings.declarationsOf stmt → resolution.registry.KnowsVariable id
  locals : ∀ resolution, (Analysis.ofProgram program).resolution = some resolution → ∀ method id,
    id ∈ resolution.bindings.localsOf method → resolution.registry.KnowsVariable id

namespace Analysis

variable {program : Program}

/-- Resolution starts from registered members. -/
theorem resolved_of_resolution (isForest : program.IsForest) {resolution : Resolution}
    (found : (ofProgram program).resolution = some resolution) :
    Resolution.Resolved (ofProgram program).members.registry
      (ofProgram program).members.sources.toList.zipIdx resolution := by
  have recorded := Members.recorded_ofHierarchy program.classes
  rw [members_ofProgram]
  simp only [ofProgram, ofDeclarations] at found
  split at found
  next silent =>
    obtain rfl := Option.some.inj found
    have membersFree := (List.append_eq_nil_iff.mp silent).2
    exact Resolution.resolved_ofMembers isForest.bodies
      (Members.completing_ofHierarchy membersFree).2.consistent
      ((Hierarchy.inRange_ofClasses _).run.trans recorded.1) recorded.2.1
  next => cases found

theorem numbersInRange (isForest : program.IsForest) : program.NumbersInRange := by
  have hierarchyRun := (Hierarchy.inRange_ofClasses program.classes).run
  have membersRun := hierarchyRun.trans (Members.recorded_ofHierarchy program.classes).1
  have run : Registry.Run .empty (ofProgram program).registry := by
    unfold Analysis.registry
    cases resolutionEq : (ofProgram program).resolution with
    | none =>
      simp only [Option.map_none, Option.getD_none, members_ofProgram]
      exact membersRun
    | some resolution =>
      have extended := (resolved_of_resolution isForest resolutionEq).registry.run
      rw [members_ofProgram] at extended
      exact membersRun.trans extended
  exact
    { exprs := fun _ => isForest.expr_at
      stmts := fun _ => isForest.stmt_at
      run
      closed := run.closed .empty
      slots := fun _ _ _ classIndex decl orderEq =>
        Members.slotsInRange_ofHierarchy program.classes orderEq classIndex decl
      symbols := fun _ found _ _ => (resolved_of_resolution isForest found).valid.symbols_known
      declared := fun _ found _ _ => (resolved_of_resolution isForest found).valid.declared_known
      locals := fun _ found _ _ => (resolved_of_resolution isForest found).valid.locals_known }

/-- The complaints of the phases up to type checking are about the program. -/
theorem ordinary_of_unchecked (isForest : program.IsForest) {diagnostics : List Diagnostic}
    (unchecked : (ofProgram program).checked = .error diagnostics) : AllOrdinary diagnostics := by
  unfold checked at unchecked
  split at unchecked
  next =>
    obtain rfl := Except.error.inj unchecked
    simp only [declarationDiagnostics, hierarchy_ofProgram, members_ofProgram]
    exact (Hierarchy.ordinary_ofClasses _).append (Members.ordinary_ofHierarchy _ _)
  next resolution resolutionEq _ =>
    obtain rfl := Except.error.inj unchecked
    exact fun _ => (resolved_of_resolution isForest resolutionEq).valid.ordinary
  next resolution findings resolutionEq findingsEq =>
    split at unchecked
    next => cases unchecked
    next =>
      obtain rfl := Except.error.inj unchecked
      rcases resolvedAs isForest findingsEq with ⟨_, _, resolvedAs, rfl⟩
      exact (Findings.checked_ofResolution resolvedAs.isForest resolvedAs.bodies resolvedAs.dispatch
        resolvedAs.wellFormed_members resolvedAs.resolved resolvedAs.silent).1

end Analysis

/-! ## Registers of a listing -/

namespace CheckedProgram

variable {program : CheckedProgram} {bound : Nat}
variable {object scratch : Nat}

theorem namesBelow_directives :
    ∀ instruction ∈ program.directives, instruction.NamesBelow bound := by
  intro instruction isDirective
  rcases List.mem_cons.mp isDirective with rfl | isVtable
  · exact nofun
  · rcases List.mem_map.mp isVtable with ⟨entry, _, rfl⟩
    exact nofun

theorem namesBelow_clearFields (layout : Layout) (registry : Registry)
    (zero : Register → Instruction) (registers : ∀ register, (zero register).registers = [register])
    (objectLt : object < bound) (scratchLt : scratch < bound) (fields : List FieldId) :
    ∀ instruction ∈ layout.clearFields registry (.general object) (.general scratch)
      (zero (.general scratch)) fields, instruction.NamesBelow bound := by
  intro instruction isThere
  unfold Layout.clearFields at isThere
  split at isThere
  · cases isThere
  · rcases List.mem_cons.mp isThere with rfl | isStore
    · simpa [Instruction.NamesBelow, registers] using scratchLt
    · rcases List.mem_filterMap.mp isStore with ⟨field, _, storeEq⟩
      rcases Option.map_eq_some_iff.mp storeEq with ⟨offset, _, rfl⟩
      simpa [Instruction.NamesBelow, Instruction.registers] using ⟨objectLt, scratchLt⟩

theorem namesBelow_objectInit (layout : Layout) (registry : Registry) (owner : ClassId)
    (objectLt : object < bound) (scratchLt : scratch < bound) :
    ∀ instruction ∈ layout.objectInit registry owner (.general object) (.general scratch),
      instruction.NamesBelow bound := by
  intro instruction isThere
  simp only [Layout.objectInit, List.mem_append, List.mem_cons,
    List.not_mem_nil, or_false] at isThere
  rcases isThere with ((rfl | rfl | rfl) | isWord) | isDouble
  · simpa [Instruction.NamesBelow, Instruction.registers] using objectLt
  · simpa [Instruction.NamesBelow, Instruction.registers] using scratchLt
  · simpa [Instruction.NamesBelow, Instruction.registers] using ⟨objectLt, scratchLt⟩
  · exact namesBelow_clearFields layout registry (fun register => .moveInt register 0)
      (fun _ => rfl) objectLt scratchLt _ _ isWord
  · exact namesBelow_clearFields layout registry (fun register =>
      .moveDouble register (.zero false)) (fun _ => rfl) objectLt scratchLt _ _ isDouble

theorem namesBelow_entryStub (enough : 2 ≤ bound) :
    ∀ instruction ∈ program.entryStub, instruction.NamesBelow bound := by
  intro instruction isThere
  unfold entryStub at isThere
  split at isThere
  · cases isThere
  next method _ =>
    split at isThere
    next =>
      unfold startCall at isThere
      dsimp only at isThere
      split at isThere
      next =>
        simp only [List.cons_append, List.nil_append, List.mem_cons,
          List.not_mem_nil, or_false] at isThere
        rcases isThere with rfl | rfl | rfl <;> rintro _ ⟨⟩
      next =>
        simp only [List.cons_append, List.append_assoc, List.nil_append, List.mem_cons,
          List.mem_append, List.not_mem_nil, or_false] at isThere
        rcases isThere with rfl | isInit | rfl | rfl | rfl | rfl
        · rintro _ ⟨⟩
        · exact namesBelow_objectInit _ _ _ (by omega) (by omega) _ isInit
        · simp only [Instruction.NamesBelow, Instruction.registers, List.mem_singleton,
            Register.general.injEq]
          omega
        all_goals rintro _ ⟨⟩
    next => cases isThere

end CheckedProgram

/-! ## Compilation -/

/-- A program compiles to a listing with the given registers, or to complaints about the program; in
any case its numbers are in range. Once the phases up to type checking have no complaints, the code
of every method is generated. -/
theorem Program.compile_without_internal_errors {value : Json} {program : Program}
    (decoded : Program.ofJson value = .ok program) (options : Options)
    (enough : Options.minRegisters ≤ options.registerCount)
    (named : options.registerCount ≤ Options.maxRegisters) :
    program.NumbersInRange ∧
      ((∃ listing, program.compile options = .ok listing ∧
          ∀ instruction ∈ listing.instructions, instruction.NamesBelow options.registerCount) ∨
        ∃ diagnostics, program.compile options = .error diagnostics ∧
          ∀ diagnostic ∈ diagnostics, diagnostic.cause.category ≠ .internal) ∧
      ∀ checked, (Analysis.ofProgram program).checked = .ok checked →
        (∃ listing, program.compile options = .ok listing) ∧
        ∀ body ∈ checked.bodies, ∃ method, checked.registry.methodEntry? body.id = some method ∧
          ∀ firstLabel, ∃ code nextLabel,
            (checked.contextOf checked.layout method).generate options.registerCount firstLabel
              body.source.decl.body = .ok (code, nextLabel) := by
  have isForest := isForest_ofJson decoded
  have compiled : ∀ checked, (Analysis.ofProgram program).checked = .ok checked → ∃ listing,
      program.compile options = .ok listing ∧
        ∀ instruction ∈ listing.instructions, instruction.NamesBelow options.registerCount := by
    intro checked isChecked
    rcases (sound_of_checked isForest isChecked).exists_listing options enough named with
      ⟨listing, parts, listed, _, areParts, listingEq⟩
    refine ⟨listing, by simp [compile, isChecked, Except.bind, Except.mapError, listed], ?_⟩
    intro instruction isThere
    rw [← Array.mem_toList_iff, listingEq] at isThere
    simp only [List.mem_append] at isThere
    rcases isThere with (isDirective | isStub) | isCode
    · exact CheckedProgram.namesBelow_directives _ isDirective
    · split at isStub
      · refine CheckedProgram.namesBelow_entryStub ?_ _ isStub
        exact Nat.le_trans (by decide) enough
      · cases isStub
    · rcases List.mem_flatMap.mp isCode with ⟨part, isPart, inPart⟩
      rcases areParts part isPart with ⟨method, pieces, methodPart⟩
      rcases methodPart.generated with ⟨first, last, _, codeOf⟩
      exact codeOf.named _ (Array.mem_toList_iff.mp inPart)
  refine ⟨Analysis.numbersInRange isForest, ?_, ?_⟩
  · cases result : (Analysis.ofProgram program).checked with
    | ok checked => exact .inl (compiled checked result)
    | error diagnostics =>
      refine .inr ⟨sortByPosition diagnostics,
        by simp [compile, result, Except.bind, Except.mapError], ?_⟩
      intro diagnostic isReported
      exact Analysis.ordinary_of_unchecked isForest result _
        ((Diagnostic.perm_sortByPosition diagnostics).mem_iff.mp isReported)
  · intro checked isChecked
    have sound := sound_of_checked isForest isChecked
    rcases compiled checked isChecked with ⟨listing, listed, _⟩
    refine ⟨⟨listing, listed⟩, fun body isBody => ?_⟩
    rcases sound.bodies body isBody with ⟨method, found, _⟩
    refine ⟨method, found, fun firstLabel => ?_⟩
    rcases sound.exists_methodPart enough named isBody firstLabel with
      ⟨other, code, last, _, part, generated⟩
    obtain rfl := Option.some.inj (found.symm.trans part.found)
    exact ⟨code, last, generated⟩

/-- `int sum(int count) { int total; for (; 0 < count; count--) { if (count == 7) break; total =
total + count; } return total; }` -/
def summingProgram : Json :=
  .oneClass "Main" [.method "sum" "int" [.variableOf "count" "int"]
    [.node "VarDeclStmt" [("vars", .array [.variableOf "total" "int"])],
      .node "For"
        [("cond", .binary "<" (.literal "int" (.number (.integer 0))) (.identifier "count")),
          ("update", .node "ExprStmt"
            [("expr", .node "IncDec"
              [("op", .string "--"), ("target", .identifier "count")])]),
          ("body", .block
            [.node "If"
              [("cond", .binary "==" (.identifier "count") (.literal "int" (.number (.integer 7)))),
                ("then", .node "Break" [])],
              .node "Assign" [("target", .identifier "total"),
                ("value", .binary "+" (.identifier "total") (.identifier "count"))]])],
      .node "Return" [("value", .identifier "total")]]]

/-- The loop is compiled for three registers. -/
theorem compile_summingProgram : ∃ program listing, Program.ofJson summingProgram = .ok program ∧
    Options.minRegisters ≤ 3 ∧ 3 ≤ Options.maxRegisters ∧ program.NumbersInRange ∧
    program.compile ⟨3, true⟩ = .ok listing ∧ ∀ instruction ∈ listing.instructions,
      instruction.NamesBelow 3 := by
  rcases Program.exists_of_test summingProgram
    (fun program => (Analysis.ofProgram program).checked.toOption.isSome) (by decide +kernel) with
    ⟨program, decoded, tested⟩
  rcases Program.compile_without_internal_errors decoded ⟨3, true⟩ (by decide) (by decide) with
    ⟨inRange, outcome, succeeds⟩
  cases result : (Analysis.ofProgram program).checked with
  | error diagnostics => simp [result, Except.toOption] at tested
  | ok checked =>
    rcases (succeeds checked result).1 with ⟨listing, listed⟩
    rcases outcome with ⟨other, otherListed, named⟩ | ⟨_, failed, _⟩
    · obtain rfl := Except.ok.inj (listed.symm.trans otherListed)
      exact ⟨program, listing, decoded, by decide, by decide, inRange, listed, named⟩
    · cases listed.symm.trans failed

/-- `int twice(int number) { return number + number; } void main() { print(twice(1) + twice(2));
}` -/
def callingProgram : Json :=
  .oneClass "Main"
    [.method "twice" "int" [.variableOf "number" "int"]
      [.node "Return" [("value", .binary "+" (.identifier "number") (.identifier "number"))]],
    .method "main" "void" []
      [.node "Print"
        [("value",
          .binary "+"
            (.node "Call" [("method", .string "twice"),
              ("args", .array [.literal "int" (.number (.integer 1))])])
            (.node "Call" [("method", .string "twice"),
              ("args", .array [.literal "int" (.number (.integer 2))])]))]]]

theorem compiles_callingProgram : ∃ program listing, Program.ofJson callingProgram = .ok program ∧
    program.compile ⟨3, true⟩ = .ok listing := by
  rcases Program.exists_of_test callingProgram (fun program =>
    (program.compile ⟨3, true⟩).toOption.isSome) (by decide +kernel) with ⟨program, decoded, tested⟩
  rcases Program.exists_listing tested with ⟨listing, compiled⟩
  exact ⟨program, listing, decoded, compiled⟩

end Decaf
