import Decaf.Proofs.Compiler
import Decaf.Proofs.Listing.Declarations
import Decaf.Proofs.Registers.Methods

/-!
# Frames of methods

The code of a method stays inside its frame, and keeps apart what is in there: the current object
and the arguments that the caller has pushed, the locals, and the spilled temporaries.
-/

namespace Decaf

/-- The slot that an instruction stores to, if it is one of the first slots of the frame. -/
def Instruction.storedBelow? (bound : Nat) : Instruction → Option Nat
  | .storeStack slot _ => if slot < bound then some slot else none
  | _ => none

/-- The slot of the variable that an action writes to. -/
def Action.slot? : Action → Option Nat
  | .perform _ => none
  | .write slot => some slot

/-- What is stored in the first slots is what is written to variables. -/
theorem MethodContext.filterMap_storedBelow? {context : MethodContext} {bound : Nat}
    {code : List Instruction} {acts : List Action}
    (does : List.Forall₂ context.Does (code.filter (Instruction.isAction bound)) acts) :
    code.filterMap (Instruction.storedBelow? bound) = acts.filterMap Action.slot? := by
  induction code generalizing acts with
  | nil =>
    cases does
    rfl
  | cons instruction rest ih =>
    cases isAction : instruction.isAction bound with
    | true =>
      rw [List.filter_cons_of_pos isAction] at does
      cases does with
      | cons first others =>
        rw [List.filterMap_cons, List.filterMap_cons, ih others]
        cases first with
        | write => simp [Instruction.storedBelow?, Action.slot?, of_decide_eq_true isAction]
        | make | call | callVirtual => rfl
    | false =>
      rw [List.filter_cons_of_neg (by simp [isAction])] at does
      have storesNothing : instruction.storedBelow? bound = none := by
        cases instruction with
        | storeStack slot source => exact if_neg (of_decide_eq_false isAction)
        | _ => rfl
      rw [List.filterMap_cons, storesNothing, ih does]

namespace CheckedProgram

/-- The variables of a method have slots of their own, behind that of the current object and in
front of the spilled temporaries. -/
structure SlotsApart (program : CheckedProgram) (method : MethodEntry) : Prop where
  this : ∀ slot, (program.frameOf method).receiverSlot? = some slot ↔
    slot = 0 ∧ method.isStatic = false
  inFrame : ∀ {id entry}, program.registry.variableEntry? id = some entry →
    entry.method = method.id →
    ∃ slot, (program.frameOf method).slot? entry = some slot ∧
    (program.frameOf method).receiverSlot? ≠ some slot ∧
    slot < (program.frameOf method).incoming + (program.frameOf method).localCount
  distinct : ∀ {first second firstEntry secondEntry slot},
    program.registry.variableEntry? first = some firstEntry →
    program.registry.variableEntry? second = some secondEntry →
      (program.frameOf method).slot? firstEntry = some slot →
      (program.frameOf method).slot? secondEntry = some slot →
        first = second

/-- The register pool of a method starts behind the variables, and whatever is asked of it, it
stores words there. -/
structure SpillsBehind (program : CheckedProgram) (method : MethodEntry) : Prop where
  start : ∀ registerCount nextLabel,
    ((program.contextOf program.layout method).start registerCount nextLabel).pool.spillBase =
      (program.frameOf method).incoming + (program.frameOf method).localCount
  demand : ∀ {Result : Type} {operation : RegisterPool.Operation Result},
    RegisterPool.Demand operation →
    ∀ {before after : RegisterPool.Session}, (operation.run before).2 = after →
      before.pool.spillBase = (program.frameOf method).incoming +
      (program.frameOf method).localCount →
        after.pool.spillBase = before.pool.spillBase ∧ ∃ moves,
        after.code.toList = before.code.toList ++ moves ∧
          ∀ slot source, .storeStack slot source ∈ moves →
            (program.frameOf method).incoming + (program.frameOf method).localCount ≤ slot

/-- The code of a method makes room for a number of slots behind those that its caller fills, and
uses no slot beyond them. In front of the spill slots it stores nothing but what the body writes to
variables: an object or a variable that is still needed is never overwritten by a spilled
temporary. -/
structure KeepsFrame (program : CheckedProgram) (method : MethodEntry) (body : Stmt)
    (code : List Instruction) : Prop where
  room : ∃ extent bodyCode,
    code = .label (program.registry.methodLabel method.id) :: .enter extent :: bodyCode ∧
    (∀ other, .enter other ∉ bodyCode) ∧
    (∀ target slot, .loadStack target slot ∈ bodyCode →
      slot < (program.frameOf method).incoming + extent) ∧
    ∀ slot source, .storeStack slot source ∈ bodyCode →
      slot < (program.frameOf method).incoming + extent
  reads : ∀ target slot, .loadStack target slot ∈ code →
    slot < (program.frameOf method).incoming + (program.frameOf method).localCount →
      (program.contextOf program.layout method).Reaches slot
  writes : code.filterMap
      (Instruction.storedBelow?
        ((program.frameOf method).incoming + (program.frameOf method).localCount)) =
    ((program.contextOf program.layout method).actionsOfStmt body).filterMap Action.slot?

variable {program : CheckedProgram} {id : MethodId} {method : MethodEntry}

theorem Framed.slotsApart (framed : program.Framed)
    (found : program.registry.methodEntry? id = some method) : program.SlotsApart method where
  this slot := by
    cases isStatic : method.isStatic <;>
      simp [Frame.receiverSlot?, frameOf, Frame.ofMethod, isStatic, eq_comm]
  inFrame entryFound isOwn := by
    have registered := (framed.consistent.method_id found).symm ▸ found
    rcases framed.slot registered entryFound isOwn with ⟨slot, slotEq, inFrame⟩
    refine ⟨slot, slotEq, fun isReceiver => ?_, inFrame⟩
    rcases Option.ite_none_right_eq_some.mp isReceiver with ⟨hasReceiver, isFirst⟩
    obtain rfl := Option.some.inj isFirst
    have behind : (program.frameOf method).firstArgument = 1 := if_pos hasReceiver
    rcases (slot?_eq_some slotEq).2 with ⟨rank, _, same⟩ | ⟨rank, _, same⟩
    · omega
    · rw [Frame.incoming] at same
      omega
  distinct firstFound secondFound firstSlot secondSlot :=
    framed.slot_inj ((framed.consistent.method_id found).symm ▸ found) firstFound secondFound
      firstSlot secondSlot

theorem spillsBehind (program : CheckedProgram) (method : MethodEntry) :
    program.SpillsBehind method where
  start _ _ := rfl
  demand asked before after ran baseEq := by
    rcases ran ▸ asked.onlySpills before with ⟨sameBase, -, -, -, moves, codeEq, areMoves⟩
    refine ⟨sameBase, moves, codeEq, fun slot source isStore => ?_⟩
    rcases areMoves _ isStore with ⟨other, ⟨isSpill, -⟩, register, isMove⟩
    rcases isMove with same | same
    · obtain ⟨rfl, -⟩ := Instruction.storeStack.inj same
      rwa [baseEq] at isSpill
    · cases same

theorem Declared.keepsFrame (declared : program.Declared) {registerCount : Nat}
    {listed : ListedMethod} (generates : program.Generates registerCount listed) :
    program.KeepsFrame listed.method listed.body listed.code.toList := by
  have found := declared.found_of_generates generates
  rcases declared.accounted generates with ⟨after, accounted, -, codeEq⟩
  let base := (program.frameOf listed.method).spillBase
  have inRoom {slot : Nat} (fits : slot < base ∨ base ≤ slot ∧ slot < base + after.pool.slotCount) :
      slot < (program.frameOf listed.method).incoming +
        ((program.frameOf listed.method).localCount + after.pool.slotCount) := by
    have baseEq : base = (program.frameOf listed.method).incoming +
      (program.frameOf listed.method).localCount := rfl
    omega
  refine ⟨⟨_, _, codeEq, ?_, ?_, ?_⟩, ?_, ?_⟩
  · exact fun other isThere => accounted.frame _ isThere
  · intro target slot isThere
    exact inRoom ((accounted.frame _ isThere).imp_left (declared.reaches_lt found))
  · intro slot source isThere
    refine inRoom ((accounted.frame _ isThere).imp_left fun ⟨variableId, isSlot⟩ => ?_)
    exact declared.keepsVariables found variableId slot isSlot
  · intro target slot isThere isLow
    have inBody : .loadStack target slot ∈ after.emitter.code.toList := by
      rw [codeEq] at isThere
      simpa using isThere
    exact (accounted.frame _ inBody).resolve_right fun isSpill => Nat.not_lt.mpr isSpill.1 isLow
  · rw [codeEq]
    exact MethodContext.filterMap_storedBelow? accounted.acts.does

end CheckedProgram

/-- The code of a program names registers only that there are, and the code of each method keeps its
frame in order. -/
theorem Program.keepsFrames_of_compile {program : Program} {options : Options} {listing : Listing}
    (enough : Options.minRegisters ≤ options.registerCount)
    (compiled : program.compile options = .ok listing) :
    (∀ instruction ∈ listing.instructions, instruction.NamesBelow options.registerCount) ∧
      ∃ checked methods, (Analysis.ofProgram program).checked = .ok checked ∧
        checked.ListedAs options listing methods ∧
        ∀ listed ∈ methods, checked.SlotsApart listed.method ∧ checked.SpillsBehind listed.method ∧
          checked.KeepsFrame listed.method listed.body listed.code.toList := by
  rcases exists_listedAs compiled with ⟨checked, methods, isChecked, listedAs⟩
  have declared := (declared_of_checked isChecked).1
  refine ⟨?_, checked, methods, isChecked, listedAs, fun listed isListed => ?_⟩
  · intro instruction isThere
    rw [← Array.mem_toList_iff, listedAs.instructions_eq, List.mem_append,
      List.mem_append] at isThere
    rcases isThere with isDirective | isStub | isCode
    · exact CheckedProgram.namesBelow_directives _ isDirective
    · split at isStub
      · exact CheckedProgram.namesBelow_entryStub (Nat.le_trans (by decide) enough) _ isStub
      · cases isStub
    · rcases List.mem_flatMap.mp isCode with ⟨listed, isListed, inCode⟩
      rcases MethodContext.supplies_generate (listedAs.generates isListed).generated with
        ⟨facts, supplies, -⟩
      exact supplies.namesBelow inCode
  · have generates := listedAs.generates isListed
    have found := declared.found_of_generates generates
    exact ⟨declared.slotsApart found, checked.spillsBehind listed.method,
      declared.keepsFrame generates⟩

/-- In three registers the operands of the inner sums have to be spilled. -/
theorem keepsFrames_callingProgram :
    ∃ program listing, Program.ofJson callingProgram = .ok program ∧
    Options.minRegisters ≤ 3 ∧ program.compile ⟨3, true⟩ = .ok listing ∧
    (∀ instruction ∈ listing.instructions, instruction.NamesBelow 3) ∧
      ∃ checked methods, (Analysis.ofProgram program).checked = .ok checked ∧
        checked.ListedAs ⟨3, true⟩ listing methods ∧
        ∀ listed ∈ methods, checked.SlotsApart listed.method ∧ checked.SpillsBehind listed.method ∧
          checked.KeepsFrame listed.method listed.body listed.code.toList := by
  rcases compiles_callingProgram with ⟨program, listing, decoded, compiled⟩
  exact ⟨program, listing, decoded, by decide, compiled,
    Program.keepsFrames_of_compile (by decide) compiled⟩

end Decaf
