import Decaf.Proofs.Events.Bodies
import Decaf.Proofs.Listing.Declarations
import Decaf.Proofs.Compiler

/-!
# Methods and their events

What a method of an accepted program does to the outside is what its body asks for: nothing is left
out, done twice or moved. The type checker has seen to it that what stands in front of a dot is left
out only if it is no value.
-/

namespace Decaf

namespace Generating

variable {context : MethodContext} {body : Stmt}

theorem presents_generateBody (needs : context.NeedsValues body.exprNodes) :
    Presents context body body.events body.exprNodes (generateBody context body) := by
  refine (presents_generateStmt needs (List.Subset.refl _) (List.Subset.refl _)).finish fun _ =>
    presents_get.andThen fun _ => ?_
  split
  · exact presents_emit rfl
  · exact .pure ()

end Generating

namespace MethodContext

variable {context : MethodContext} {body : Stmt}

/-- The instructions that make objects, call and print are those that a body asks for, in its order,
and each node of the body is seen to in the code. -/
structure Performs (context : MethodContext) (body : Stmt) (code : List Instruction) : Prop where
  causes : List.Forall₂ context.Causes (code.filter Instruction.isEvent) body.events
  handles : ∀ node ∈ body.exprNodes, context.Handles body [] code node

/-- The label of a method and the room for its variables are followed by what its body asks for. -/
theorem performs_generate {registerCount first next : Nat} {code : Array Instruction}
    (needs : context.NeedsValues body.exprNodes)
    (generated : context.generate registerCount first body = .ok (code, next)) :
    ∃ extent bodyCode, code.toList = .label (context.registry.methodLabel context.method.id) ::
      .enter extent :: bodyCode ∧
      context.Performs body bodyCode := by
  unfold generate at generated
  split at generated
  next generation ran =>
    obtain ⟨rfl, -⟩ := Prod.mk.inj (Except.ok.inj generated)
    have presents := Generating.presents_generateBody needs (context.start registerCount first)
      () generation ran
    rcases presents.added with ⟨block, codeEq, causes⟩
    have fromStart : generation.emitter.code.toList = block := codeEq
    refine ⟨context.frame.localCount + generation.pool.slotCount, generation.emitter.code.toList,
      ?_, ?_, presents.handles⟩
    · simp [assemble]
    · rwa [fromStart]
  next => cases generated

end MethodContext

namespace CheckedProgram

variable {program : CheckedProgram}

/-- Where targets and fields on record fit the nodes that they are on record for, a receiver that is
left out is no value. -/
theorem needsValues (declared : program.Declared) (numbered : program.Numbered)
    (calls : ∀ id target, program.table.call? id = some target →
      Checking.IsOffered program.registry program.bindings program.nodes id target)
    (fields : ∀ id field, program.table.field? id = some field →
      Checking.IsNamed program.registry program.bindings program.nodes id field)
    (method : MethodEntry) {nodes : List Expr} (arePart : nodes ⊆ program.nodes) :
    (program.contextOf program.layout method).NeedsValues nodes where
  calls site receiver name arguments isNode target found isDirect := by
    rcases calls _ _ found with
      ⟨otherSite, other, otherName, _, _, _, otherIsNode, sameId, _, isScope⟩
    cases numbered _ _ otherIsNode (arePart isNode) sameId
    refine isScope receiver rfl fun slot isVirtual => ?_
    rw [isVirtual] at isDirect
    cases isDirect
  fields site receiver name isNode field found notNeeded := by
    rcases Option.bind_eq_some_iff.mp found with ⟨id, noted, fieldFound⟩
    rcases fields _ _ noted with ⟨other, otherIsNode, sameId, named⟩
    obtain rfl := numbered _ _ otherIsNode (arePart isNode) sameId
    rcases named site receiver name rfl with ⟨place, entry, entryFound, rfl, isScope⟩
    rw [declared.consistent.field_id entryFound] at fieldFound
    cases entryFound.symm.trans fieldFound
    cases isStatic : field.isStatic with
    | true => exact isScope isStatic
    | false =>
      rw [Generating.needsObject, isStatic, Bool.not_false, Bool.true_and] at notNeeded
      cases receiver with
      | super => exact .super
      | literal | identifier | this | new | call | fieldAccess | unary | binary | step =>
        cases notNeeded

end CheckedProgram

/-- In an accepted program what stands in front of a dot is evaluated, unless it is no value. -/
theorem Program.needsValues_of_checked {program : Program} (indexed : program.Indexed)
    {checked : CheckedProgram} (isChecked : (Analysis.ofProgram program).checked = .ok checked)
    (method : MethodEntry) {nodes : List Expr} (arePart : nodes ⊆ checked.nodes) :
    (checked.contextOf checked.layout method).NeedsValues nodes := by
  have declared := (declared_of_checked isChecked).1
  have numbered := numbered_of_checked indexed isChecked
  rcases Analysis.analyzedAs_of_checked isChecked with ⟨members, resolution, _, silent, rfl⟩
  rcases Findings.notes_ofResolution silent with ⟨calls, fields⟩
  exact CheckedProgram.needsValues declared numbered calls fields method arePart

/-- The instructions of a method that can be seen from outside are those that its body asks for,
once each and in the order of evaluation, and nothing else is left out than what stands for no value
and what is written to. -/
theorem Program.performs_of_compile {program : Program} {options : Options} {listing : Listing}
    (indexed : program.Indexed) (compiled : program.compile options = .ok listing) :
    ∃ checked methods, (Analysis.ofProgram program).checked = .ok checked ∧
      checked.ListedAs options listing methods ∧
      ∀ listed ∈ methods, listed.body.events.Perm listed.body.nodeEvents ∧ ∃ extent bodyCode,
        listed.code.toList = .label (checked.registry.methodLabel listed.method.id) ::
          .enter extent :: bodyCode ∧
          (checked.contextOf checked.layout listed.method).Performs listed.body bodyCode := by
  rcases exists_listedAs compiled with ⟨checked, methods, isChecked, listedAs⟩
  refine ⟨checked, methods, isChecked, listedAs, fun listed isListed =>
    ⟨listed.body.events_perm, ?_⟩⟩
  have generates := listedAs.generates isListed
  rcases generates.isMethod with ⟨body, isBody, _, bodyEq⟩
  have areNodes : listed.body.exprNodes ⊆ checked.nodes :=
    bodyEq ▸ fun node isNode => List.mem_flatMap.mpr ⟨body, isBody, isNode⟩
  exact MethodContext.performs_generate
    (needsValues_of_checked indexed isChecked listed.method areNodes) generates.generated

/-- The code of `main` calls `twice` for each side of the sum and then prints, and that of `twice`
has no events. -/
theorem performs_callingProgram :
    ∃ program listing, Program.ofJson callingProgram = .ok program ∧ program.Indexed ∧
    program.compile ⟨3, true⟩ = .ok listing ∧ ∃ checked methods,
      (Analysis.ofProgram program).checked = .ok checked ∧
      checked.ListedAs ⟨3, true⟩ listing methods ∧
      ∀ listed ∈ methods, listed.body.events.Perm listed.body.nodeEvents ∧ ∃ extent bodyCode,
        listed.code.toList = .label (checked.registry.methodLabel listed.method.id) ::
          .enter extent :: bodyCode ∧
        (checked.contextOf checked.layout listed.method).Performs listed.body bodyCode := by
  rcases compiles_callingProgram with ⟨program, listing, decoded, compiled⟩
  have indexed := (Program.isForest_ofJson decoded).toIndexed
  exact ⟨program, listing, decoded, indexed, compiled, Program.performs_of_compile indexed compiled⟩

end Decaf
