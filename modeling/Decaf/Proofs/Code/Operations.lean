import Decaf.Code.Expression
import Decaf.Proofs.Code.Temporaries

/-!
# Operations on temporaries

An operation brings its operands into registers, gives up their places, and puts its result into the
register of a new temporary. All operations without jumps are of this kind. `Yields` says that one
succeeds, which temporaries it uses up, and what word and what memory its code leaves.
-/

namespace Decaf

/-- What code makes of the memory and of the words that temporaries stand for: a word and the memory
afterwards, or nothing if it stops the machine. -/
abbrev Effect := Primitives → Memory → (Temporary → Word) → Option (Word × Memory)

/-- The effect of code that leaves the memory as it is. -/
def Effect.reads (value : Primitives → Memory → (Temporary → Word) → Option Word) : Effect :=
  fun primitives memory contents => (value primitives memory contents).map fun word =>
    (word, memory)

namespace Generation

variable {result : Temporary}

/-- No temporary is pinned, and there are enough registers for every instruction. -/
structure Ready (generation : Generation) : Prop where
  wellFormed : generation.pool.WellFormed
  enough : 3 ≤ generation.pool.registers.length
  unpinned : generation.pool.PinnedWithin []

/-- A block of code without jumps has an effect, and puts the word into the place of a temporary. -/
structure Computes (before after : Generation) (block : List Instruction) (result : Temporary)
    (effect : Effect) : Prop where
  isPlain : ∀ instruction ∈ block, instruction.IsPlain
  executes :
    ∀ {primitives : Primitives} {machine : Machine} {memory : Memory} {contents : Temporary → Word},
    before.pool.Holds machine.store contents →
      machine.Shows before.pool.spillBase memory →
        Machine.Leads (machine.execute primitives block) (effect primitives memory contents)
        fun outcome last =>
          after.pool.Holds last.store (Function.update contents result outcome.1) ∧
            last.Shows before.pool.spillBase outcome.2
  isResident : after.pool.IsResident result

/-- Code without jumps uses temporaries up and makes one for its result. -/
def Yields (before after : Generation) (used : List Temporary) (result : Temporary)
    (effect : Effect) : Prop :=
  ∃ block, Emits before after block used ∧ before.pool.Exchanges after.pool used [result] ∧
    Computes before after block result effect

variable {before loadedState acquiredState after : Generation} {moves more : List Instruction}

/-! ## Releasing several temporaries -/

/-- Temporaries are released one after the other. -/
def releasedAll (generation : Generation) (temporaries : List Temporary) : Generation :=
  temporaries.foldl released generation

section

variable (wellFormed : before.pool.WellFormed)
include wellFormed

theorem emits_releasedAll (temporaries : List Temporary) :
    Emits before (before.releasedAll temporaries) [] temporaries := by
  induction temporaries generalizing before with
  | nil => exact .refl wellFormed
  | cons temporary temporaries ih =>
    have first := Emits.released wellFormed temporary
    exact first.trans (ih first.wellFormed)

theorem exchanges_releasedAll (temporaries : List Temporary) :
    before.pool.Exchanges (before.releasedAll temporaries).pool temporaries [] := by
  induction temporaries generalizing before with
  | nil => exact .refl _
  | cons temporary temporaries ih =>
    have first := Emits.released wellFormed temporary
    exact (exchanges_released wellFormed temporary).keep (ih first.wellFormed)
      first.next_le (by simp)

theorem pinnedWithin_releasedAll {temporaries pinned : List Temporary}
    (within : before.pool.PinnedWithin (temporaries ++ pinned)) :
    (before.releasedAll temporaries).pool.PinnedWithin pinned := by
  induction temporaries generalizing before with
  | nil => exact within
  | cons temporary temporaries ih =>
    exact ih (Emits.released wellFormed temporary).wellFormed
      (pinnedWithin_released wellFormed within)

theorem holds_releasedAll (temporaries : List Temporary)
    {store : Store Word} {contents : Temporary → Word} (holds : before.pool.Holds store contents) :
    (before.releasedAll temporaries).pool.Holds store contents := by
  induction temporaries generalizing before with
  | nil => exact holds
  | cons temporary temporaries ih =>
    exact ih (Emits.released wellFormed temporary).wellFormed
      ((releases_released wellFormed temporary).holds holds)

theorem Loaded.none : Loaded before before [] [] :=
  ⟨rfl, @RegisterPool.Brings.pinned before.session wellFormed []⟩

end

/-! ## Operands and result -/

theorem Yields.unpinned {used : List Temporary} {effect : Effect}
    (yields : Yields before after used result effect) :
    Yields before after.unpinned used result effect := by
  rcases yields with ⟨block, emits, exchanges, computes⟩
  refine ⟨block, ?_, ⟨fun temporary => ?_, exchanges.fresh⟩, computes.isPlain, ?_, ?_⟩
  · simpa using emits.trans (Emits.unpinned emits.wellFormed)
  · rw [isLive_unpinned emits.wellFormed, exchanges.isLive_iff]
  · intro primitives machine memory contents holds isShown
    have executed := @computes.executes primitives machine memory contents holds isShown
    cases outcome : effect primitives memory contents with
    | none =>
      rw [outcome] at executed
      exact executed
    | some outcomeIs =>
      rw [outcome] at executed
      rcases executed with ⟨last, ran, holdsLast, lastShown⟩
      exact ⟨last, ran, holds_unpinned emits.wellFormed holdsLast, lastShown⟩
  · exact isResident_unpinned computes.isResident

/-- Operands are brought into registers and given up, and the result is put into the register of a
new temporary. Until then the registers of the operands still hold their words. -/
theorem yields_of_operands {operands : List Temporary} {target : Nat}
    (loaded : Loaded before loadedState operands moves)
    (acquired : Acquired (loadedState.releasedAll operands) acquiredState result target more)
    {block : List Instruction} (isPlain : ∀ instruction ∈ block, instruction.IsPlain)
    (named : ∀ instruction ∈ block, instruction.NamesBelow before.pool.registers.length)
    {value : Primitives → Memory → (Temporary → Word) → Option Word}
    (executes : ∀ (primitives : Primitives) (memory : Memory) (contents : Temporary → Word)
      (machine : Machine),
      (∀ register, ∀ operand ∈ operands, loadedState.pool.HoldsPinned register operand →
        machine.register register = contents operand) →
      machine.Shows before.pool.spillBase memory →
      machine.execute primitives block =
        (value primitives memory contents).map (machine.put (.general target))) :
    Yields before (acquiredState.emitted block) operands result (.reads value) := by
  have afterLoad := loaded.emits
  have released := emits_releasedAll afterLoad.wellFormed operands
  have afterAcquire := acquired.emits
  have lengthEq : acquiredState.pool.registers.length = before.pool.registers.length :=
    afterAcquire.length_eq.trans (released.length_eq.trans afterLoad.length_eq)
  have emitted := Emits.emitted afterAcquire.wellFormed
    (fun instruction isEmitted => lengthEq ▸ named instruction isEmitted)
  have baseEq : (loadedState.releasedAll operands).pool.spillBase = before.pool.spillBase :=
    released.base_eq.trans afterLoad.base_eq
  refine ⟨moves ++ ([] ++ (more ++ block)), ?_, ?_, ?_, ?_,
    acquired.produces.holdsPinned.isResident⟩
  · refine (afterLoad.trans (released.trans (afterAcquire.trans emitted))).narrow ?_
    intro temporary isMoved
    left
    simpa using isMoved
  · have given := loaded.exchanges.keep (exchanges_releasedAll afterLoad.wellFormed operands)
      afterLoad.next_le (by simp)
    have made :=
      given.keep acquired.produces.exchanges (Nat.le_trans afterLoad.next_le released.next_le)
        (by simp)
    simp only [List.nil_append, List.append_nil] at made
    exact made
  · intro instruction isEmitted
    simp only [List.nil_append, List.mem_append] at isEmitted
    rcases isEmitted with isMove | isMove | isOwn
    · exact Instruction.isPlain_of_spillMove (loaded.brings.spillMoves instruction isMove)
    · exact Instruction.isPlain_of_spillMove (acquired.produces.spillMoves instruction isMove)
    · exact isPlain instruction isOwn
  · intro primitives machine memory contents holds isShown
    rcases @Loaded.executes _ _ _ _ primitives _ _ _ loaded holds isShown with
      ⟨ran, holdsLoaded, loadedShown⟩
    have holdsReleased := holds_releasedAll afterLoad.wellFormed operands holdsLoaded
    have atOperands : ∀ register, ∀ operand ∈ operands,
        loadedState.pool.HoldsPinned register operand →
        (machine.moved moves).register register = contents operand :=
      fun register operand _ isHeld => holdsLoaded.register isHeld
    have executed := @Acquired.executes _ _ _ _ _ primitives block _ memory contents
      acquired holdsReleased (baseEq ▸ loadedShown) (value primitives memory contents) (by
        intro moved sameRegisters movedShown
        refine executes primitives memory contents moved ?_ (baseEq ▸ movedShown)
        intro register operand isOperand isHeld
        rw [← atOperands register operand isOperand isHeld, Machine.register, sameRegisters,
          Machine.register])
    rw [Effect.reads, List.nil_append, Machine.execute_append, ran, Option.bind_some]
    cases valueEq : value primitives memory contents with
    | none =>
      rw [valueEq] at executed
      exact executed
    | some word =>
      rw [valueEq, baseEq] at executed
      exact executed

end Generation

namespace Generating

open Generation

variable {before : Generation} {position : Position}

theorem succeeds_load_first (ready : before.Ready) {temporary : Temporary}
    (isLive : before.pool.IsLive temporary) :
    Succeeds (load position temporary) before fun register after => ∃ index moves,
      register = .general index ∧ index < before.pool.registers.length ∧
        after.pool.HoldsPinned register temporary ∧ Loaded before after [temporary] moves := by
  have enough := ready.enough
  have within : before.pool.PinnedWithin [temporary] := ready.unpinned.mono (by simp)
  exact succeeds_load ready.wellFormed isLive within (by simp; omega)

theorem succeeds_produce_acquired (wellFormed : before.pool.WellFormed) {pinned : List Temporary}
    (within : before.pool.PinnedWithin pinned)
    (enough : pinned.length < before.pool.registers.length) (instruction : Register → Instruction) :
    Succeeds (produce position instruction) before fun made after => ∃ acquiredState register moves,
      Acquired before acquiredState made register moves ∧
        after = acquiredState.emitted [instruction (.general register)] := by
  refine (succeeds_acquire wellFormed within enough).bind ?_
  rintro ⟨made, _⟩ acquiredState ⟨register, moves, rfl, acquired⟩
  refine (succeeds_emit _).goOn ?_
  exact .pure ⟨acquiredState, register, moves, acquired, rfl⟩

/-- An operation whose operands are in registers makes a temporary for its result. -/
theorem succeeds_produce {loadedState : Generation} (ready : before.Ready)
    {operands : List Temporary} {moves : List Instruction}
    (loaded : Loaded before loadedState operands moves) {instruction : Register → Instruction}
    (isPlain : ∀ target, (instruction target).IsPlain)
    (named : ∀ target < before.pool.registers.length,
      (instruction (.general target)).NamesBelow before.pool.registers.length)
    {value : Primitives → Memory → (Temporary → Word) → Option Word}
    (executes : ∀ (primitives : Primitives) (memory : Memory) (contents : Temporary → Word)
      (machine : Machine) (target : Register),
      (∀ register, ∀ operand ∈ operands, loadedState.pool.HoldsPinned register operand →
        machine.register register = contents operand) →
      machine.Shows before.pool.spillBase memory →
      machine.effect primitives (instruction target) =
        (value primitives memory contents).map (machine.put target)) :
    Succeeds (produce position instruction) (loadedState.releasedAll operands) fun result after =>
      Yields before after operands result (.reads value) := by
  have afterLoad := loaded.emits
  have released := emits_releasedAll afterLoad.wellFormed operands
  have lengthEq := released.length_eq.trans afterLoad.length_eq
  have enough := ready.enough
  have within :=
    pinnedWithin_releasedAll afterLoad.wellFormed (loaded.brings.pinnedWithin ready.unpinned)
  refine (succeeds_produce_acquired released.wellFormed within
    (by rw [lengthEq, List.length_nil]; omega) instruction).mono ?_
  rintro result _ ⟨acquiredState, index, more, acquired, rfl⟩
  have inRange : index < before.pool.registers.length := lengthEq ▸ acquired.produces.registerLt
  refine yields_of_operands loaded acquired ?_ ?_ ?_
  · simpa using isPlain _
  · simpa using named index inRange
  · intro primitives memory contents machine atOperands isShown
    have effectEq := executes primitives memory contents machine (.general index) atOperands isShown
    rw [Machine.execute_cons, effectEq]
    cases value primitives memory contents <;> rfl

end Generating

/-!
## Reading and calculating

The code of constants, of names and of operators without jumps.
-/

/-- The word that stands for a constant. -/
def Literal.word (primitives : Primitives) : Literal → Word
  | .int value => .int value
  | .double value => .double value
  | .bool value => .ofBool value
  | .string value => .text (primitives.textAddress value)
  | .null => .null

/-- The word in a field of an object; `null` has no fields. -/
def Memory.field? (memory : Memory) (object : Word) (offset : Nat) : Option Word :=
  match object with
  | .object address => some (memory.heap address offset)
  | _ => none

/-- The word in a static field, or in a field of the current object. -/
def Memory.ownField? (memory : Memory) (field : FieldEntry) (offset : Nat) : Option Word :=
  if field.isStatic then some (memory.area offset) else memory.field? (memory.frame 0) offset

namespace Machine

variable {primitives : Primitives} {machine : Machine} {base : Nat} {memory : Memory}

@[simp]
theorem register_put (target other : Register) (word : Word) :
    (machine.put target word).register other = if other =
      target then word else machine.register other :=
  Store.registers_setRegister _ _ _ _

@[simp]
theorem put_put (target : Register) (first second : Word) :
    (machine.put target first).put target second = machine.put target second := by
  simp [put, Store.setRegister]

theorem effect_loadHeap (isShown : machine.Shows base memory) (target source : Register)
    (offset : Nat) :
    machine.effect primitives (.loadHeap target source offset) =
      (memory.field? (machine.register source) offset).map (machine.put target) := by
  simp only [effect, Memory.field?, isShown.heap]
  cases machine.register source <;> rfl

end Machine

namespace Generating

open Generation

variable {context : MethodContext} {before : Generation} {position : Position}
variable {slot offset : Nat} {field : FieldEntry} {site : Site ExprId}

/-! ## Making a temporary from nothing -/

theorem succeeds_produce_constant (ready : before.Ready) {instruction : Register → Instruction}
    (isPlain : ∀ target, (instruction target).IsPlain)
    (named : ∀ target, (instruction target).registers = [target])
    {value : Primitives → Memory → Option Word}
    (executes :
      ∀ (primitives : Primitives) (memory : Memory) (machine : Machine) (target : Register),
      machine.Shows before.pool.spillBase memory → machine.effect primitives (instruction target) =
        (value primitives memory).map (machine.put target)) :
    Succeeds (produce position instruction) before fun result after =>
      Yields before after [] result (.reads fun primitives memory _ =>
        value primitives memory) := by
  refine succeeds_produce ready (.none ready.wellFormed) isPlain ?_ ?_
  · intro target inRange index isNamed
    rw [named, List.mem_singleton, Register.general.injEq] at isNamed
    exact isNamed ▸ inRange
  · intro primitives memory _ machine target _ isShown
    exact executes primitives memory machine target isShown

theorem succeeds_produce_literal (ready : before.Ready) (value : Literal) :
    Succeeds (produce position value.load) before fun result after =>
      Yields before after [] result (.reads fun primitives _ _ =>
        some (value.word primitives)) := by
  refine succeeds_produce_constant ready ?_ ?_ ?_
  · intro target
    cases value <;> trivial
  · intro target
    cases value <;> rfl
  · intro primitives memory machine target _
    cases value with
    | bool value => cases value <;> rfl
    | _ => rfl

theorem succeeds_produce_slot (ready : before.Ready) (inFrame : slot < before.pool.spillBase) :
    Succeeds (produce position fun target => .loadStack target slot) before fun result after =>
      Yields before after [] result (.reads fun _ memory _ => some (memory.frame slot)) := by
  refine succeeds_produce_constant ready (by simp [Instruction.IsPlain, Instruction.IsStraight])
    (fun _ => rfl) ?_
  intro primitives memory machine target isShown
  simp [Machine.effect, isShown.frame slot inFrame]

theorem succeeds_produce_static (ready : before.Ready) (offset : Nat) :
    Succeeds (produce position fun target => .loadStatic target offset) before fun result after =>
      Yields before after [] result (.reads fun _ memory _ => some (memory.area offset)) := by
  refine succeeds_produce_constant ready (by simp [Instruction.IsPlain, Instruction.IsStraight])
    (fun _ => rfl) ?_
  intro primitives memory machine target isShown
  simp [Machine.effect, isShown.area]

/-! ## Names -/

theorem succeeds_receiverSlot (hasReceiver : context.frame.hasReceiver = true) :
    Succeeds (receiverSlot context position) before fun slot after => 0 = slot ∧ before = after :=
  succeeds_orFail (by simp [Frame.receiverSlot?, hasReceiver]) position _

theorem succeeds_readThis (ready : before.Ready) (hasReceiver : context.frame.hasReceiver = true)
    (inFrame : 0 < before.pool.spillBase) :
    Succeeds (readThis context position) before fun result after =>
      Yields before after [] result (.reads fun _ memory _ => some (memory.frame 0)) := by
  refine (succeeds_receiverSlot hasReceiver).goOnWith ?_
  exact succeeds_produce_slot ready inFrame

/-- A field of the current object is needed in methods only that have one. -/
def ReceiverFor (context : MethodContext) (generation : Generation) (field : FieldEntry) : Prop :=
  field.isStatic = false → context.frame.hasReceiver = true ∧ 0 < generation.pool.spillBase

theorem succeeds_readOwnField (ready : before.Ready)
    (offsetEq : context.layout.offset? field = some offset)
    (receiver : ReceiverFor context before field) :
    Succeeds (readOwnField context position field) before fun result after =>
      Yields before after [] result (.reads fun _ memory _ => memory.ownField? field offset) := by
  refine (succeeds_orFail offsetEq position _).goOnWith ?_
  cases isStatic : field.isStatic with
  | true =>
    simp only [if_true]
    simpa [Memory.ownField?, isStatic] using succeeds_produce_static ready offset
  | false =>
    rcases receiver isStatic with ⟨hasReceiver, inFrame⟩
    have enough := ready.enough
    simp only [Bool.false_eq_true, if_false]
    refine (succeeds_receiverSlot hasReceiver).goOnWith ?_
    refine (succeeds_acquire ready.wellFormed ready.unpinned (by simp; omega)).bind ?_
    rintro ⟨result, target⟩ acquiredState ⟨index, moves, targetEq, acquired⟩
    dsimp only at targetEq acquired ⊢
    subst targetEq
    refine (succeeds_emit _).goOn ?_
    refine (succeeds_emit _).goOn ?_
    have inRange := acquired.produces.registerLt
    rw [emitted_emitted]
    refine .pure (yields_of_operands (.none ready.wellFormed) acquired ?_ ?_ ?_)
    · simp [Instruction.IsPlain, Instruction.IsStraight]
    · have named : index < before.pool.registers.length := inRange
      simp [Instruction.NamesBelow, Instruction.registers, named]
    · intro primitives memory _ machine _ isShown
      have base : machine.effect primitives (.loadStack (.general index) 0) =
          some (machine.put (.general index) (memory.frame 0)) := by
        simp [Machine.effect, isShown.frame 0 inFrame]
      have loadedShown := isShown.put (.general index) (memory.frame 0)
      rw [List.cons_append, List.nil_append, Machine.execute_cons, base, Option.bind_some,
        Machine.execute_cons, Machine.effect_loadHeap loadedShown]
      simp only [Machine.register_put, if_true, Memory.ownField?, isStatic]
      cases memory.field? (memory.frame 0) offset <;> simp

theorem succeeds_readIdentifier_variable (ready : before.Ready) {id : VariableId}
    (bound : context.bindings.symbol? site.id = some (.ofVariable id)) {entry : VariableEntry}
    (found : context.registry.variableEntry? id = some entry)
    (slotEq : context.frame.slot? entry = some slot) (inFrame : slot < before.pool.spillBase) :
    Succeeds (readIdentifier context site) before fun result after =>
      Yields before after [] result (.reads fun _ memory _ => some (memory.frame slot)) := by
  unfold readIdentifier
  simp only [bound]
  refine (succeeds_orFail (show (context.registry.variableEntry? id).bind
      context.frame.slot? = some slot by
    rw [found, Option.bind_some, slotEq]) site.position _).goOnWith ?_
  exact succeeds_produce_slot ready inFrame

theorem succeeds_readIdentifier_field (ready : before.Ready) {id : FieldId}
    (bound : context.bindings.symbol? site.id = some (.ofField id))
    (found : context.registry.fieldEntry? id = some field)
    (offsetEq : context.layout.offset? field = some offset)
    (receiver : ReceiverFor context before field) :
    Succeeds (readIdentifier context site) before fun result after =>
      Yields before after [] result (.reads fun _ memory _ => memory.ownField? field offset) := by
  unfold readIdentifier
  simp only [bound]
  refine (succeeds_orFail found site.position _).goOnWith ?_
  exact succeeds_readOwnField ready offsetEq receiver

/-! ## Operators -/

theorem succeeds_readObjectField (ready : before.Ready) {object : Temporary}
    (isLive : before.pool.IsLive object) (offsetEq : context.layout.offset? field = some offset) :
    Succeeds (readObjectField context position field (some object)) before fun result after =>
      Yields before after [object] result
        (.reads fun _ memory contents => memory.field? (contents object) offset) := by
  refine (succeeds_orFail offsetEq position _).goOnWith ?_
  refine (succeeds_operand rfl position).goOnWith ?_
  refine (succeeds_load_first ready isLive).bind ?_
  rintro base loadedState ⟨index, moves, rfl, inRange, isHeld, loaded⟩
  refine (succeeds_release object).goOn ?_
  refine succeeds_produce ready loaded (by simp [Instruction.IsPlain, Instruction.IsStraight]) ?_ ?_
  · intro target targetInRange
    simp [Instruction.NamesBelow, Instruction.registers, inRange, targetInRange]
  · intro primitives memory contents machine target atOperands isShown
    rw [Machine.effect_loadHeap isShown, atOperands _ object (by simp) isHeld]

theorem succeeds_applyUnary (ready : before.Ready) {value : Temporary}
    (isLive : before.pool.IsLive value) (opcode : UnaryOpcode) :
    Succeeds (applyUnary position opcode (some value)) before fun result after =>
      Yields before after [value] result
        (.reads fun primitives _ contents => primitives.unary opcode (contents value)) := by
  refine (succeeds_operand rfl position).goOnWith ?_
  refine (succeeds_load_first ready isLive).bind ?_
  rintro source loadedState ⟨index, moves, rfl, inRange, isHeld, loaded⟩
  refine (succeeds_release value).goOn ?_
  refine succeeds_produce ready loaded (by simp [Instruction.IsPlain, Instruction.IsStraight]) ?_ ?_
  · intro target targetInRange
    simp [Instruction.NamesBelow, Instruction.registers, inRange, targetInRange]
  · intro primitives memory contents machine target atOperands _
    simp only [Machine.effect, atOperands _ value (by simp) isHeld]

theorem succeeds_applyBinary (ready : before.Ready) {left right : Temporary}
    (leftLive : before.pool.IsLive left) (rightLive : before.pool.IsLive right)
    (opcode : BinaryOpcode) :
    Succeeds (applyBinary position (some opcode) (some left) (some right))
      before fun result after =>
        Yields before after [left, right] result
          (.reads fun primitives _ contents =>
            primitives.binary opcode (contents left) (contents right)) := by
  refine (succeeds_operand rfl position).goOnWith ?_
  refine (succeeds_operand rfl position).goOnWith ?_
  refine (succeeds_orFail rfl position _).goOnWith ?_
  refine (succeeds_loadPair ready.wellFormed leftLive rightLive ready.unpinned ready.enough).bind ?_
  rintro registers loadedState
    ⟨leftIndex, rightIndex, moves, rfl, leftInRange, rightInRange, leftHeld, rightHeld, loaded⟩
  refine (succeeds_release left).goOn ?_
  refine (succeeds_release right).goOn ?_
  refine succeeds_produce ready loaded (by simp [Instruction.IsPlain, Instruction.IsStraight]) ?_ ?_
  · intro target targetInRange
    simp [Instruction.NamesBelow, Instruction.registers, leftInRange, rightInRange, targetInRange]
  · intro primitives memory contents machine target atOperands _
    simp only [Machine.effect, atOperands _ left (by simp) leftHeld,
      atOperands _ right (by simp) rightHeld]

end Generating

end Decaf
