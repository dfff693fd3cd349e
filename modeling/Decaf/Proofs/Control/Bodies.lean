import Decaf.Proofs.Compiler
import Decaf.Proofs.Control.Lowering

/-!
# Control in the bodies of a program

The code of a method falls into the code of its conditions and simple statements, with labels and
jumps in between. Whatever the conditions come to, control that follows the labels, jumps and
branches meets them in the order in which the body is read, and ends where the reading ends.
-/

namespace Decaf

open Control

/-- The pieces of a body's code carry control as the body is read: up to any amount of fuel the walk
keeps up with the reading, and every walk is part of a reading. -/
def Control.Follows (pieces : List Piece) (body : Stmt) : Prop :=
  ∀ oracle,
      (∀ fuel, ∃ steps, InStep pieces (read oracle fuel body [])
        (Walk.start.run oracle pieces steps) ∧
      ((read oracle fuel body []).exit = .unfinished → fuel ≤ steps)) ∧
    ∀ steps, ∃ fuel, (Walk.start.run oracle pieces steps).met <+: (read oracle fuel body []).met ∧
      ((Walk.start.run oracle pieces steps).IsOver pieces →
        InStep pieces (read oracle fuel body []) (Walk.start.run oracle pieces steps))

/-- The labels of the pieces lead to the same places as in the code of the method, which is the
pieces behind the label and the entry of the method and in front of at most one `ret`. -/
def Control.LabelsAgree (context : MethodContext) (pieces : List Piece) (code : List Instruction) :
    Prop :=
  ∃ size, code = .label (context.registry.methodLabel context.method.id) :: .enter size ::
      (Piece.flatten pieces ++ context.ending (Piece.flatten pieces)) ∧
    ∀ index name, pieces[index]? = some (.label name) → Piece.find? pieces name = some index ∧
      code.idxOf? (.label name) = some (2 + (Piece.flatten (pieces.take index)).length)

namespace CodeOf

variable {context : MethodContext} {registerCount first last : Nat} {body : Stmt}
  {pieces : List Piece} {code : Array Instruction}
  (codeOf : CodeOf context registerCount first last body pieces code)
include codeOf

theorem distinct : (pieces.filterMap Piece.label?).Nodup :=
  codeOf.labelled.nodup.sublist (Piece.labels_sublist pieces)

theorem follows : Follows pieces body :=
  fun oracle => ⟨exists_inStep codeOf.lowered codeOf.distinct oracle,
    exists_fuel codeOf.lowered codeOf.distinct oracle⟩

theorem labelsAgree : LabelsAgree context pieces code.toList := by
  rcases codeOf.code_eq with ⟨size, codeEq⟩
  refine ⟨size, codeEq, fun index name found => ⟨Piece.find?_eq codeOf.distinct found, ?_⟩⟩
  have inFront : code.toList = [.label (context.registry.methodLabel context.method.id),
      .enter size] ++ Piece.flatten pieces ++ context.ending (Piece.flatten pieces) := codeEq
  exact Piece.idxOf?_code inFront codeOf.nodup_labels found

end CodeOf

/-- There is a body in a given program without complaints that passes a test. -/
theorem Program.exists_body_of_test (value : Json) (test : MethodBody → Bool)
    (passes : ((Decode.program Decode.stmtNode value).toOption.any fun program =>
      (Analysis.ofProgram program).checked.toOption.any fun checked =>
        checked.bodies.any test) = true) :
    ∃ program checked body, ofJson value = .ok program ∧
      (Analysis.ofProgram program).checked = .ok checked ∧
      body ∈ checked.bodies ∧ test body = true := by
  rw [← ofJson_eq] at passes
  cases decoded : ofJson value with
  | error fault => simp [decoded, Except.toOption] at passes
  | ok program =>
    cases isChecked : (Analysis.ofProgram program).checked with
    | error diagnostics => simp [decoded, isChecked, Except.toOption] at passes
    | ok checked =>
      have tested : checked.bodies.any test = true := by
        simpa [decoded, isChecked, Except.toOption] using passes
      rcases List.any_eq_true.mp tested with ⟨body, isBody, holds⟩
      exact ⟨program, checked, body, rfl, isChecked, isBody, holds⟩

/-- In every method of a program without complaints, control goes through the code as the body is
read. -/
theorem Program.IsForest.follows {program : Program} (isForest : program.IsForest)
    {checked : CheckedProgram} (isChecked : (Analysis.ofProgram program).checked = .ok checked)
    {registerCount : Nat} (enough : Options.minRegisters ≤ registerCount)
    (named : registerCount ≤ Options.maxRegisters) {body : MethodBody}
    (isBody : body ∈ checked.bodies) (firstLabel : Nat) :
    ∃ method code nextLabel pieces, checked.registry.methodEntry? body.id = some method ∧
      (checked.contextOf checked.layout method).generate registerCount firstLabel
        body.source.decl.body = .ok (code, nextLabel) ∧
      Lowered (checked.contextOf checked.layout method) none body.source.decl.body pieces ∧
      LabelsAgree (checked.contextOf checked.layout method) pieces code.toList ∧
      Follows pieces body.source.decl.body := by
  rcases (sound_of_checked isForest isChecked).exists_methodPart enough named isBody firstLabel with
    ⟨method, code, nextLabel, pieces, part, generated⟩
  rcases part.generated with ⟨_, _, _, codeOf⟩
  exact ⟨method, code, nextLabel, pieces, part.found, generated, codeOf.lowered,
    codeOf.labelsAgree, codeOf.follows⟩

/-- Control goes through the code of what was read as a program. -/
theorem Program.follows_of_checked {value : Json} {program : Program}
    (decoded : Program.ofJson value = .ok program) {checked : CheckedProgram}
    (isChecked : (Analysis.ofProgram program).checked = .ok checked) {registerCount : Nat}
    (enough : Options.minRegisters ≤ registerCount) (named : registerCount ≤ Options.maxRegisters)
    {body : MethodBody} (isBody : body ∈ checked.bodies) (firstLabel : Nat) :
    ∃ method code nextLabel pieces, checked.registry.methodEntry? body.id = some method ∧
      (checked.contextOf checked.layout method).generate registerCount firstLabel
        body.source.decl.body = .ok (code, nextLabel) ∧
      Lowered (checked.contextOf checked.layout method) none body.source.decl.body pieces ∧
      LabelsAgree (checked.contextOf checked.layout method) pieces code.toList ∧
      Follows pieces body.source.decl.body :=
  (isForest_ofJson decoded).follows isChecked enough named isBody firstLabel

/-- Control goes through the loop as it is read, where a `break` leads out of it and the update
counts down. -/
theorem follows_summingProgram : ∃ program checked body method code nextLabel pieces,
    Program.ofJson summingProgram = .ok program ∧
      (Analysis.ofProgram program).checked = .ok checked ∧
      Options.minRegisters ≤ 3 ∧ 3 ≤ Options.maxRegisters ∧ body ∈ checked.bodies ∧
      (checked.contextOf checked.layout method).generate 3 0 body.source.decl.body =
        .ok (code, nextLabel) ∧
      LabelsAgree (checked.contextOf checked.layout method) pieces code.toList ∧
      Follows pieces body.source.decl.body := by
  rcases Program.exists_of_test summingProgram
    (fun program => (Analysis.ofProgram program).checked.toOption.any fun checked =>
      checked.bodies.any fun _ => true)
    (by decide +kernel) with ⟨program, decoded, tested⟩
  cases isChecked : (Analysis.ofProgram program).checked with
  | error diagnostics => simp [isChecked, Except.toOption] at tested
  | ok checked =>
    rw [isChecked] at tested
    rcases List.any_eq_true.mp tested with ⟨body, isBody, _⟩
    rcases Program.follows_of_checked decoded isChecked (by decide : Options.minRegisters ≤ 3)
      (by decide) isBody 0 with
      ⟨method, code, nextLabel, pieces, _, generated, _, labelsAgree, follows⟩
    exact ⟨program, checked, body, method, code, nextLabel, pieces, decoded, isChecked, by decide,
      by decide, isBody, generated, labelsAgree, follows⟩

end Decaf
