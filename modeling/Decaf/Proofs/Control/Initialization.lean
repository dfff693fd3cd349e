import Decaf.Proofs.Control.Visibility
import Decaf.Proofs.Listing.Declarations
import Decaf.Proofs.Spilling.Bodies

/-!
# Locals have values before they are loaded

Code loads the slot of a local only where the local is named, and the code of its declaration stores
to the slot. So where each declaration stands in a block or in the initializer of a loop, control
comes by such a store before it comes to a load.
-/

namespace Decaf

open Control

namespace Piece

variable {context : MethodContext}

/-- A piece has the code of what it stands for. -/
def Fits (context : MethodContext) : Piece → Prop
  | .act stmt code => stmt.isSimple = true ∧ ActCode context stmt code
  | .test condition code register _ => TestCode context condition code register
  | .label _ | .jump _ => True

/-- What a piece loads from the frame is in a spill slot or is named by what is met there. -/
theorem Fits.loads {piece : Piece} (fits : piece.Fits context)
    (inFront : context.StaysBelow context.frame.spillBase) {target : Register} {slot : Nat}
    (isThere : .loadStack target slot ∈ piece.code) : ∃ event, piece.event? = some event ∧
      (context.frame.spillBase ≤ slot ∨ context.Reads event.exprNodes slot) := by
  cases piece with
  | act stmt code => exact ⟨_, rfl, fits.2.loads inFront fits.1 isThere⟩
  | test condition code register otherwise =>
    have isLoad : .loadStack target slot ∈ code := by simpa [Piece.code] using isThere
    exact ⟨_, rfl, TestCode.loads fits inFront isLoad⟩
  | label name => simp [Piece.code] at isThere
  | jump name => simp [Piece.code] at isThere

end Piece

/-- The pieces of a statement have the code of what they stand for. -/
theorem Lowered.fits {context : MethodContext} {loop : Option LoopLabels} {stmt : Stmt}
    {pieces : List Piece} (lowered : Lowered context loop stmt pieces) :
    ∀ piece ∈ pieces, piece.Fits context := by
  induction lowered with
  | act isSimple fits => exact List.forall_mem_singleton.mpr ⟨isSimple, fits⟩
  | @block loop site statements parts lengthEq each ih =>
    intro piece isThere
    rcases List.mem_flatten.mp isThere with ⟨part, isPart, inPart⟩
    rcases List.getElem_of_mem isPart with ⟨index, inRange, rfl⟩
    have isStatement : index < statements.length := lengthEq ▸ inRange
    have isPair : (statements[index], parts[index]) ∈ statements.zip parts :=
      List.mem_iff_getElem.mpr ⟨index, by simp [inRange, ← lengthEq], by simp⟩
    exact ih _ isPair piece inPart
  | ifThen test thenLowered ih =>
    simp only [List.forall_mem_cons, List.forall_mem_append]
    exact ⟨test, ih, trivial, nofun⟩
  | ifElse test thenLowered elseLowered thenIh elseIh =>
    simp only [List.forall_mem_cons, List.forall_mem_append]
    exact ⟨test, thenIh, trivial, trivial, elseIh, trivial, nofun⟩
  | whileLoop test bodyLowered ih =>
    simp only [List.forall_mem_cons, List.forall_mem_append]
    exact ⟨trivial, test, ih, trivial, trivial, nofun⟩
  | @forLoop loop site init condition update body top next behind initPieces testPieces
      bodyPieces updatePieces
      initLowered initNone tests testNone bodyLowered updateLowered updateNone
      initIh bodyIh updateIh =>
      simp only [List.forall_mem_cons, List.forall_mem_append]
      refine ⟨?_, trivial, ?_, bodyIh, trivial, ?_, trivial, trivial, nofun⟩
      · cases init with
        | none => simp [initNone]
        | some stmt => exact initIh stmt rfl
      · cases condition with
        | none => simp [testNone]
        | some expr =>
          rcases tests expr rfl with ⟨code, register, test, rfl⟩
          exact List.forall_mem_singleton.mpr test
      · cases update with
        | none => simp [updateNone]
        | some stmt => exact updateIh stmt rfl
  | breakLoop | continueLoop => simp [Piece.Fits]

/-- The current object comes from the caller. -/
theorem Frame.lt_incoming_of_receiverSlot? (frame : Frame) {slot : Nat}
    (isReceiver : frame.receiverSlot? = some slot) : slot < frame.incoming := by
  unfold Frame.receiverSlot? at isReceiver
  split at isReceiver
  next hasReceiver =>
    cases isReceiver
    simp only [Frame.incoming, Frame.firstArgument, hasReceiver, if_true]
    omega
  next => cases isReceiver

namespace Control

variable {piece : Piece}

/-- Wherever control comes to a load from the slot of a local, it has gone by a store to the
slot. -/
def InitializesLocals (frame : Frame) (pieces : List Piece) : Prop :=
  ∀ oracle steps piece, (Walk.start.run oracle pieces steps).piece? pieces = some piece →
    ∀ target slot, .loadStack target slot ∈ piece.code → frame.incoming ≤ slot →
    slot < frame.spillBase →
      ∃ earlier < steps, ∃ stmt code register,
        (Walk.start.run oracle pieces earlier).piece? pieces = some (.act stmt code) ∧
          (∀ instruction ∈ code, instruction.IsPlain) ∧ .storeStack slot register ∈ code

variable {context : MethodContext} {pieces : List Piece} {oracle : Oracle} {walk : Walk}

theorem Walk.mem_of_piece? (isAt : walk.piece? pieces = some piece) : piece ∈ pieces := by
  unfold Walk.piece? at isAt
  split at isAt
  · exact List.mem_of_getElem? isAt
  · cases isAt

theorem Piece.eq_act {stmt : Stmt} (isAct : piece.event? = some (.act stmt)) :
    ∃ code, piece = .act stmt code := by
  cases piece with
  | act other code =>
    cases isAct
    exact ⟨code, rfl⟩
  | test | label | jump => cases isAct

/-- A local that is declared before its name is come by has its slot filled before that is
loaded. -/
theorem initializesLocals_of_meets (fits : ∀ piece ∈ pieces, piece.Fits context)
    (inFront : context.StaysBelow context.frame.spillBase) {isLocal : VariableId → Prop}
    (isLocal_of_slot : ∀ {id entry slot}, context.registry.variableEntry? id = some entry →
      context.frame.slot? entry = some slot → context.frame.incoming ≤ slot → isLocal id)
    (meets : ∀ oracle steps,
      (Supplies.ofBindings context.bindings isLocal).Meets
      (Walk.start.run oracle pieces steps).met) :
    InitializesLocals context.frame pieces := by
  intro oracle steps piece isAt target slot isLoad isInside belowSpills
  rcases (fits piece (Walk.mem_of_piece? isAt)).loads inFront isLoad with
    ⟨event, eventEq, isSpill | isReceiver | isNamed⟩
  · exact absurd isSpill (Nat.not_le_of_lt belowSpills)
  · exact absurd isInside (Nat.not_le_of_lt (context.frame.lt_incoming_of_receiverSlot? isReceiver))
  · rcases isNamed with ⟨site, name, id, entry, isNode, bound, found, slotEq⟩
    have isLocalId := isLocal_of_slot found slotEq isInside
    have meetsNext := meets oracle (steps + 1)
    rw [Walk.run_succ, Walk.met_step, isAt, Option.bind_some, eventEq] at meetsNext
    rcases meetsNext.last id ⟨isLocalId, site, name, isNode, bound⟩ with
      ⟨_, isMet, declaring, declared, rfl, isThere⟩
    rcases Walk.exists_piece_of_met isMet with isFirst | ⟨earlier, isEarlier, isDeclaring⟩
    · cases isFirst
    · rcases Option.bind_eq_some_iff.mp isDeclaring with ⟨other, otherAt, isAct⟩
      rcases Piece.eq_act isAct with ⟨code, rfl⟩
      have otherFits := (fits _ (Walk.mem_of_piece? otherAt)).2
      rcases otherFits.declares declaring declared rfl with ⟨plain, stores⟩
      rcases stores id isThere with ⟨sameEntry, sameSlot, sameFound, sameSlotEq, register, isStore⟩
      obtain rfl := Option.some.inj (found.symm.trans sameFound)
      obtain rfl := Option.some.inj (slotEq.symm.trans sameSlotEq)
      exact ⟨earlier, isEarlier, _, code, register, otherAt, plain, isStore⟩

end Control

/-! ## Programs -/

/-- A variable is a local. -/
def Registry.IsLocal (registry : Registry) (id : VariableId) : Prop :=
  ∃ entry, registry.variableEntry? id = some entry ∧ entry.isParameter = false

theorem CheckedProgram.Sound.isLocal_of_slot {program : CheckedProgram} (sound : program.Sound)
    {method : MethodEntry} (methodFound : program.registry.methodEntry? method.id = some method)
    {id : VariableId} {entry : VariableEntry}
    (found : program.registry.variableEntry? id = some entry) {slot : Nat}
    (slotEq : (program.frameOf method).slot? entry = some slot)
    (isInside : (program.frameOf method).incoming ≤ slot) : program.registry.IsLocal id := by
  refine ⟨entry, found, ?_⟩
  cases storageEq : entry.storage with
  | body rank => simp [VariableEntry.isParameter, storageEq]
  | parameter rank =>
    -- a parameter has a slot that the caller fills
    unfold Frame.slot? at slotEq
    split at slotEq
    next isOwn =>
      rcases sound.consistent.variable_method found with ⟨owner, ownerFound, rankLt⟩
      have sameMethod : entry.method = method.id := isOwn
      rw [sameMethod, methodFound] at ownerFound
      obtain rfl := Option.some.inj ownerFound
      have inArguments := rankLt rank storageEq
      simp only [storageEq, Option.some.injEq] at slotEq
      simp only [Frame.incoming, CheckedProgram.frameOf, Frame.ofMethod] at isInside slotEq
      omega
    next => cases slotEq

namespace Program

variable {program : Program}

/-- No parameter is a local. -/
theorem ResolvedAs.not_isLocal {members : Members} {resolution : Resolution}
    (resolvedAs : program.ResolvedAs members resolution) {id : MethodId} {method : MethodEntry}
    (found : members.registry.methodEntry? id = some method) :
    ∀ variableId ∈ method.parameters, ¬resolution.registry.IsLocal variableId := by
  rintro variableId isParameter ⟨entry, entryFound, isLocal⟩
  have onlyParameters : Members.OnlyParameters members.registry := by
    rw [resolvedAs.membersEq]
    exact (Members.recorded_ofHierarchy program.classes).2.1
  have known :=
    ((resolvedAs.run_members.closed .empty).methods (Array.mem_of_getElem? found)).parameters
    isParameter
  have old : members.registry.variableEntry? variableId =
      some members.registry.variableEntries[variableId.index] :=
    Array.getElem?_eq_getElem known
  obtain rfl :=
    Option.some.inj ((resolvedAs.resolved.registry.keeps_variable old).symm.trans entryFound)
  rw [onlyParameters _ (Array.getElem_mem known)] at isLocal
  cases isLocal

/-- In a program without complaints, control loads no local that it has not stored to, in every
method in which each declaration stands in a block or in the initializer of a loop. -/
theorem initializesLocals_of_checked (isForest : program.IsForest) {checked : CheckedProgram}
    (isChecked : (Analysis.ofProgram program).checked = .ok checked) {registerCount : Nat}
    (enough : Options.minRegisters ≤ registerCount) (named : registerCount ≤ Options.maxRegisters)
    {body : MethodBody} (isBody : body ∈ checked.bodies)
    (inBlocks : body.source.decl.body.Never Stmt.declaresAside) (firstLabel : Nat) :
    ∃ method code nextLabel pieces, checked.registry.methodEntry? body.id = some method ∧
      (checked.contextOf checked.layout method).generate registerCount firstLabel
        body.source.decl.body = .ok (code, nextLabel) ∧
      Lowered (checked.contextOf checked.layout method) none body.source.decl.body pieces ∧
      LabelsAgree (checked.contextOf checked.layout method) pieces code.toList ∧
      InitializesLocals (checked.frameOf method) pieces := by
  have sound := sound_of_checked isForest isChecked
  rcases sound.exists_methodPart enough named isBody firstLabel with
    ⟨method, code, nextLabel, pieces, part, generated⟩
  rcases part.generated with ⟨_, _, _, codeOf⟩
  refine ⟨method, code, nextLabel, pieces, part.found, generated, codeOf.lowered,
    codeOf.labelsAgree, ?_⟩
  have methodFound := part.found
  have sameId := sound.consistent.method_id methodFound
  have inFront : (checked.contextOf checked.layout method).StaysBelow
      (checked.frameOf method).spillBase :=
    fun _ reaches => (declared_of_checked isChecked).1.reaches_lt methodFound reaches
  refine initializesLocals_of_meets codeOf.lowered.fits inFront (fun found slotEq isInside =>
    sound.isLocal_of_slot (sameId ▸ methodFound) found slotEq isInside) fun oracle steps => ?_
  rcases exists_fuel codeOf.lowered codeOf.distinct oracle steps with ⟨fuel, isFront, _⟩
  refine Supplies.Meets.front ?_ isFront
  rcases Analysis.resolvedAs_of_checked isForest isChecked with
    ⟨members, resolution, resolvedAs, _, rfl⟩
  rcases List.mem_map.mp ((Findings.perm_inSourceOrder _).mem_iff.mp isBody) with
    ⟨pair, isPair, rfl⟩
  have baseFound := (resolvedAs.resolved.registry.methodEntry?_eq _).symm.trans methodFound
  have membersFree := resolvedAs.membersFree
  have binds : resolution.BindsLexically program members := by
    rw [resolvedAs.resolutionEq]
    rw [resolvedAs.membersEq] at membersFree ⊢
    exact Resolution.bindsLexically_ofMembers resolvedAs.isForest
      resolvedAs.hierarchyFree membersFree
  exact meets_read binds resolvedAs.wellFormed_members isPair baseFound
    (resolvedAs.not_isLocal baseFound) inBlocks

/-- The declared sum is set to zero in front of the loop that adds to it. -/
theorem initializesLocals_summingProgram : ∃ program checked body method code nextLabel pieces,
    Program.ofJson summingProgram = .ok program ∧
      (Analysis.ofProgram program).checked = .ok checked ∧
      Options.minRegisters ≤ 3 ∧ 3 ≤ Options.maxRegisters ∧ body ∈ checked.bodies ∧
      body.source.decl.body.Never Stmt.declaresAside ∧
      (checked.contextOf checked.layout method).generate 3 0 body.source.decl.body =
        .ok (code, nextLabel) ∧
      LabelsAgree (checked.contextOf checked.layout method) pieces code.toList ∧
      InitializesLocals (checked.frameOf method) pieces := by
  rcases exists_body_of_test summingProgram
    (fun body => body.source.decl.body.Never Stmt.declaresAside) (by decide +kernel) with
    ⟨program, checked, body, decoded, isChecked, isBody, tested⟩
  have inBlocks := of_decide_eq_true tested
  rcases initializesLocals_of_checked (isForest_ofJson decoded) isChecked
    (by decide : Options.minRegisters ≤ 3) (by decide) isBody
    inBlocks 0 with ⟨method, code, nextLabel, pieces, _, generated, _, labelsAgree, initializes⟩
  exact ⟨program, checked, body, method, code, nextLabel, pieces, decoded, isChecked, by decide,
    by decide, isBody, inBlocks, generated, labelsAgree, initializes⟩

end Program

end Decaf
