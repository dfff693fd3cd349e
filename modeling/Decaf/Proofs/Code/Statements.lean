import Decaf.Proofs.Code.Expressions
import Decaf.Proofs.Code.Pieces

/-!
# Code for statements

The code of an accepted statement is generated without fail, falls into its pieces, and leaves no
temporary.
-/

namespace Decaf

open Generation

namespace Generation

variable {before between after : Generation} {block more : List Instruction} {outer : List String}

/-- No temporary is live. -/
structure Idle (generation : Generation) : Prop where
  ready : generation.Ready
  noneLive : ∀ temporary, ¬generation.pool.IsLive temporary

/-- A block of code was written that uses all temporaries up. -/
structure Drains (before after : Generation) (outer : List String) (block : List Instruction) :
    Prop where
  emits : Emits before after block []
  noneLive : ∀ temporary, ¬after.pool.IsLive temporary
  labelled : Labelled before.emitter.nextLabel after.emitter.nextLabel outer block

/-- Code was written; behind it nothing is live or pinned. -/
structure Continues (before after : Generation) (block : List Instruction) : Prop where
  emits : Emits before after block []
  idle : after.Idle

/-- A block of code was written that jumps to its own labels and to given ones around it. -/
structure Written (before after : Generation) (outer : List String) (block : List Instruction) :
    Prop extends
    Continues before after block where
  labelled : Labelled before.emitter.nextLabel after.emitter.nextLabel outer block

theorem liveCount_eq_zero (wellFormed : before.pool.WellFormed)
    (noneLive : ∀ temporary, ¬before.pool.IsLive temporary) : before.pool.liveCount = 0 := by
  have noResident : before.pool.residents = [] := by
    refine List.eq_nil_iff_forall_not_mem.mpr ?_
    rintro ⟨register, resident⟩ isResident
    have held := (RegisterPool.mem_residents_iff wellFormed).mp isResident
    exact noneLive resident.temporary (.inl ⟨register, resident, held, rfl⟩)
  have noSpilled : before.pool.spilled = [] :=
    List.eq_nil_iff_forall_not_mem.mpr fun entry isSpilled =>
      noneLive entry.temporary (.inr ⟨entry, isSpilled, rfl⟩)
  simp [RegisterPool.liveCount, noResident, noSpilled]

theorem Drains.unpinned (drains : Drains before after outer block) (ready : before.Ready) :
    Written before after.unpinned outer block where
  emits := by simpa using drains.emits.trans (Emits.unpinned drains.emits.wellFormed)
  idle :=
    { ready := ready.of_emits drains.emits
      noneLive := fun temporary => by
        rw [isLive_unpinned drains.emits.wellFormed]
        exact drains.noneLive temporary }
  labelled := drains.labelled

theorem Continues.trans (early : Continues before between block)
    (late : Continues between after more) : Continues before after (block ++ more) where
  emits := early.emits.trans late.emits
  idle := late.idle

theorem Continues.emit (idle : before.Idle) {instruction : Instruction}
    (noRegisters : instruction.registers = []) :
    Continues before (before.emitted [instruction]) [instruction] where
  emits := by
    refine .emitted idle.ready.wellFormed ?_
    simp [Instruction.NamesBelow, noRegisters]
  idle := ⟨⟨idle.ready.wellFormed, idle.ready.enough, idle.ready.unpinned⟩, idle.noneLive⟩

theorem Continues.labelTaken (idle : before.Idle) : Continues before before.labelTaken [] where
  emits := .labelTaken idle.ready.wellFormed
  idle := ⟨⟨idle.ready.wellFormed, idle.ready.enough, idle.ready.unpinned⟩, idle.noneLive⟩

theorem Written.trans (early : Written before between outer block)
    (late : Written between after outer more) : Written before after outer (block ++ more) :=
  { early.toContinues.trans late.toContinues with
    labelled := early.labelled.append late.labelled early.emits.nextLabel_le
      late.emits.nextLabel_le }

theorem Written.nil (idle : before.Idle) (outer : List String) :
    Written before before outer [] where
  emits := .refl idle.ready.wellFormed
  idle := idle
  labelled := .of_isPlain (by simp)

theorem Written.drains (written : Written before after outer block) :
    Drains before after outer block :=
  ⟨written.emits, written.idle.noneLive, written.labelled⟩

/-! ## Inside a loop -/

/-- A loop with the given labels is entered. -/
def entered (generation : Generation) (labels : LoopLabels) : Generation :=
  { generation with emitter := generation.emitter.enterLoop labels }

/-- The innermost loop is left. -/
def exited (generation : Generation) : Generation :=
  { generation with emitter := generation.emitter.exitLoop }

@[simp]
theorem nextLabel_exited (generation : Generation) :
    generation.exited.emitter.nextLabel = generation.emitter.nextLabel :=
  rfl

theorem Idle.entered (idle : before.Idle) (labels : LoopLabels) : (before.entered labels).Idle :=
  ⟨⟨idle.ready.wellFormed, idle.ready.enough, idle.ready.unpinned⟩, idle.noneLive⟩

theorem Continues.exited {labels : LoopLabels}
    (continues : Continues (before.entered labels) after block) :
    Continues before after.exited block where
  emits :=
    { wellFormed := continues.emits.wellFormed
      length_eq := continues.emits.length_eq
      base_eq := continues.emits.base_eq
      next_le := continues.emits.next_le
      loops_eq := congrArg List.tail continues.emits.loops_eq
      nextLabel_le := continues.emits.nextLabel_le
      code_eq := continues.emits.code_eq
      named := continues.emits.named
      spilled_keeps := continues.emits.spilled_keeps }
  idle :=
    { ready := ⟨continues.idle.ready.wellFormed, continues.idle.ready.enough,
        continues.idle.ready.unpinned⟩
      noneLive := continues.idle.noneLive }

/-- What a block left is used up behind it. -/
theorem Delivers.drains {made moved : List Temporary}
    (delivers : Delivers before between block made) (idle : before.Idle)
    (emits : Emits between after more moved) (exchanges : between.pool.Exchanges after.pool made [])
    (labelled : Labelled between.emitter.nextLabel after.emitter.nextLabel outer more) :
    Drains before after outer (block ++ more) where
  emits := (delivers.emits.trans emits).narrow fun temporary _ => .inr (idle.noneLive temporary)
  noneLive temporary isLive := by
    have uses := delivers.exchanges.consume exchanges idle.ready.wellFormed delivers.emits.next_le
    simpa [idle.noneLive temporary] using (uses.isLive_iff temporary).mp isLive
  labelled :=
    (delivers.labelled.mono (Nat.le_refl _) (Nat.le_refl _) (List.nil_subset _)).append labelled
    delivers.emits.nextLabel_le emits.nextLabel_le

end Generation

namespace Generating

variable {context : MethodContext} {before between : Generation} {position : Position}
  {outer : List String}
variable {value : Temporary} {block : List Instruction} {instruction : Register → Instruction}

/-- The own code of a statement is settled if it uses all temporaries up. -/
theorem succeeds_settle (idle : before.Idle) {code : Generating Unit}
    {facts : List Instruction → Prop}
    (succeeds : Succeeds code before fun _ after => ∃ block,
      Drains before after outer block ∧ facts block) :
    Succeeds (settle position code) before fun _ after => ∃ block,
      Written before after outer block ∧ facts block := by
  refine (succeeds_conclude succeeds).bind ?_
  rintro _ _ ⟨last, ⟨block, drains, isFact⟩, rfl⟩
  have written := drains.unpinned idle.ready
  have noneCounted := liveCount_eq_zero written.idle.ready.wellFormed written.idle.noneLive
  refine ⟨(), last.unpinned, ?_, block, written, isFact⟩
  simp [noneCounted]
  rfl

/-! ## Using a value -/

/-- One instruction uses a value up. -/
structure UsesRegister (instruction : Register → Instruction) (outer : List String) : Prop where
  registers : ∀ register, (instruction register).registers = [register]
  noLabel : ∀ register, (instruction register).label? = none
  targets : ∀ register name, (instruction register).target? = some name → name ∈ outer

/-- The code that loads a value, the instruction that uses it, and the end of its life. -/
theorem drains_useValue {moves : List Instruction} {loadedState : Generation} {index : Nat}
    (delivers : Delivers before between block [value]) (idle : before.Idle)
    (inRange : index < between.pool.registers.length)
    (loaded : Loaded between loadedState [value] moves) (uses : UsesRegister instruction outer) :
    Drains before ((loadedState.emitted [instruction (.general index)]).released value) outer
      (block ++ (moves ++ [instruction (.general index)])) := by
  have loadEmits := loaded.emits
  have useEmits : Emits loadedState (loadedState.emitted [instruction (.general index)])
      [instruction (.general index)] [] := by
    refine .emitted loadEmits.wellFormed fun other isInstruction => ?_
    rw [List.mem_singleton.mp isInstruction, Instruction.NamesBelow, uses.registers]
    simpa [loadEmits.length_eq] using inRange
  have emits := (loadEmits.trans useEmits).trans (Emits.released useEmits.wellFormed value)
  rw [List.append_nil] at emits
  have released : loadedState.pool.Exchanges
      ((loadedState.emitted [instruction (.general index)]).released value).pool [value] [] :=
    @exchanges_released loadedState loadEmits.wellFormed value
  refine delivers.drains idle emits (loaded.exchanges.keep released loadEmits.next_le (by simp)) ?_
  have movesPlain : ∀ move ∈ moves, move.IsPlain := fun move isMove =>
    Instruction.isPlain_of_spillMove (loaded.brings.spillMoves move isMove)
  exact (Labelled.of_isPlain movesPlain).append (.jump (uses.noLabel _) _ (uses.targets _))
    (Nat.le_refl _) emits.nextLabel_le

theorem succeeds_useValue (delivers : Delivers before between block [value])
    (idle : before.Idle) (uses : UsesRegister instruction outer) :
    Succeeds (do
      let register ← load position value
      emit (instruction register)
      release value) between fun _ after => ∃ moves register,
        Drains before after outer (block ++ (moves ++ [instruction register])) := by
  have isLive := (delivers.exchanges.isLive_iff value).mpr (.inr (List.mem_singleton_self _))
  refine (succeeds_load_first delivers.ready isLive).bind ?_
  rintro _ loadedState ⟨index, moves, rfl, inRange, _, loaded⟩
  refine (succeeds_emit _).goOn ?_
  refine (succeeds_release value).goesTo ?_
  exact ⟨moves, .general index, drains_useValue delivers idle inRange loaded uses⟩

/-- An instruction of its own is all the code. -/
theorem drains_emitted (idle : before.Idle) (isPlain : ∀ instruction ∈ block, instruction.IsPlain)
    (named : ∀ instruction ∈ block, instruction.NamesBelow before.pool.registers.length) :
    Drains before (before.emitted block) outer block where
  emits := .emitted idle.ready.wellFormed named
  noneLive := idle.noneLive
  labelled := .of_isPlain isPlain

/-! ## Assignments -/

/-- The words of a block are used to change the memory. -/
theorem Simulates.store {made : List Temporary} {more : List Instruction}
    {calculation : Calculation (List Word)}
    (early : Simulates before between block made calculation) {after : Generation}
    {effect : Memory → (Temporary → Word) → Option Memory}
    (stores : Stores between after made more effect) (act : List Word → Memory → Option Memory)
    (effectEq : ∀ memory contents, effect memory contents = act (made.map contents) memory) :
    Simulates before after (block ++ more) [] fun primitives memory =>
      (calculation primitives memory).bind fun outcome =>
        (act outcome.1 outcome.2).map fun later => ([], later) := by
  intro primitives code first machine contents memory placed distinct tracks
  rw [List.length_append, ← Nat.add_assoc]
  refine (early _ _ _ _ _ _ placed.left distinct tracks).bind (Nat.le_add_right _ _) ?_
  rintro ⟨words, middle⟩ last _ ⟨others, same, wordsEq, tracksBetween⟩
  have executed := @stores.executes primitives _ _ _ tracksBetween
  rw [effectEq, wordsEq] at executed
  refine (Running.arrives_of_straight (fun instruction isEmitted =>
    (stores.isPlain instruction isEmitted).isStraight) placed.right executed).map ?_
  exact fun later final tracksFinal => ⟨others, same, rfl, tracksFinal⟩

/-- A block of code assigns: no temporary is left, and if there are no calls the memory is changed
as expected. -/
structure Assigns (context : MethodContext) (before after : Generation) (target value : Expr)
    (block : List Instruction) : Prop where
  emits : Emits before after block []
  exchanges : before.pool.Exchanges after.pool [] []
  labelled : Labelled before.emitter.nextLabel after.emitter.nextLabel [] block
  simulates : target.IsQuiet → value.IsQuiet →
      Simulates before after block [] fun primitives memory =>
        (context.computeAssign target value primitives memory).map fun later => ([], later)

theorem succeeds_generateAssign (ready : before.Ready)
    (baseEq : before.pool.spillBase = context.frame.spillBase) {target value : Expr}
    {type : DataType} (object : GeneratesObject context (generateReceiver context target) target)
    (generates : Generates context value type) (isValue : type ≠ .void) :
    Succeeds (generateAssign context position target value) before fun _ after => ∃ block,
      Assigns context before after target value block := by
  refine (object before ready baseEq).bind ?_
  rintro temporary objectState ⟨⟨objectBlock, objectDelivers, objectSimulates⟩, locate,
    locateEq, locates⟩
  have objectBase := objectDelivers.emits.base_eq.trans baseEq
  refine (generates.succeeds_generateValue isValue objectDelivers.ready objectBase).bind ?_
  rintro source valueState ⟨valueBlock, valueDelivers, valueSimulates⟩
  have delivers := objectDelivers.append valueDelivers
  have isLive : ∀ object ∈ temporary, valueState.pool.IsLive object := fun object isObject =>
    (delivers.exchanges.isLive_iff object).mpr (.inr (by simp [Option.mem_def.mp isObject]))
  refine (locates delivers.ready (valueDelivers.emits.base_eq.trans objectBase) isLive).bind ?_
  rintro place locatedState isLocated
  have sourceLive := (delivers.exchanges.isLive_iff source).mpr (.inr (by simp))
  have notObject : source ∉ temporary.toList := fun isObject => by
    have nodup := delivers.nodup
    exact (List.nodup_append.mp nodup).2.2 _ isObject _ (List.mem_singleton_self _) rfl
  refine (succeeds_assignPlace isLocated delivers.ready.wellFormed delivers.ready.enough
    sourceLive notObject).mono ?_
  rintro _ after ⟨storeBlock, stores⟩
  have emits := delivers.emits.trans stores.emits
  refine ⟨(objectBlock ++ valueBlock) ++ storeBlock, ?_, ?_, ?_, fun targetQuiet valueQuiet => ?_⟩
  · refine emits.narrow fun other isMoved => .inr fun isOld => ?_
    exact Nat.not_lt.mpr (delivers.exchanges.fresh other (by simpa using isMoved))
      (ready.wellFormed.lt_of_isLive isOld)
  · exact delivers.exchanges.consume stores.exchanges ready.wellFormed delivers.emits.next_le
  · exact delivers.labelled.append (.of_isPlain stores.isPlain) delivers.emits.nextLabel_le
      stores.emits.nextLabel_le
  · let stored (words : List Word) (memory : Memory) : Option Memory :=
      words.getLast?.bind fun word =>
        (context.location? words.dropLast memory target).bind (memory.write? word)
    have computeEq : (fun primitives memory =>
        (context.computeAssign target value primitives memory).map fun later =>
          (([] : List Word), later)) = fun primitives memory =>
            ((context.computeObject target primitives memory).bind fun outcome =>
              ((context.compute value).single primitives outcome.2).map fun rest =>
                (outcome.1 ++ rest.1, rest.2)).bind fun outcome =>
                  (stored outcome.1 outcome.2).map fun later => ([], later) := by
      funext primitives memory
      simp only [stored, MethodContext.computeAssign, Calculation.single, Option.bind_assoc,
        Option.bind_map, Option.map_bind, Option.map_map, Function.comp_def, List.getLast?_append,
        List.getLast?_singleton,
        List.dropLast_concat, Option.some_or, Option.bind_some]
    rw [computeEq]
    refine Simulates.store (Simulates.append (objectSimulates targetQuiet)
      (valueSimulates valueQuiet).simulates objectDelivers.exchanges) stores stored ?_
    intro memory contents
    simp [stored, locateEq]

/-! ## Simple statements -/

/-- What is known of the code of a simple statement besides that it is written. -/
structure SimpleFacts (context : MethodContext) (stmt : Stmt) (block : List Instruction) :
    Prop where
  returns : stmt.isReturn = true → ∃ front last, block = front ++ [last] ∧ last.IsReturn
  declares : ∀ site declared, stmt = .declare site declared →
    (∀ instruction ∈ block, instruction.IsPlain) ∧
    ∀ id ∈ context.bindings.declarationsOf site.id, ∃ entry slot,
    context.registry.variableEntry? id = some entry ∧
      context.frame.slot? entry = some slot ∧ ∃ register, .storeStack slot register ∈ block

/-- Neither a `return` nor a declaration. -/
theorem SimpleFacts.of_ordinary {stmt : Stmt} (notReturn : stmt.isReturn = false)
    (notDeclare : ∀ site declared, stmt ≠ .declare site declared) (block : List Instruction) :
    SimpleFacts context stmt block :=
  ⟨fun isReturn => absurd (notReturn.symm.trans isReturn) Bool.false_ne_true,
    fun site declared isDeclare => absurd isDeclare (notDeclare site declared)⟩

section

variable (idle : before.Idle)

include idle

variable {value : Expr} {type : DataType}

theorem succeeds_generateReturn_none (site : Site StmtId) :
    Succeeds (generateReturn context position none) before fun _ after => ∃ block,
      Drains before after [] block ∧
      SimpleFacts context (.ret site none) block := by
  refine (succeeds_emit _).goesTo ?_
  refine ⟨[.ret], drains_emitted idle (by simp [Instruction.IsPlain, Instruction.IsStraight]) ?_,
    fun _ => ⟨[], .ret, rfl, .inl rfl⟩, by simp⟩
  simp [Instruction.NamesBelow, Instruction.registers]

/-- The code of one variable of a declaration. -/
theorem succeeds_clearVariable (complete : context.Complete) {id : VariableId}
    {entry : VariableEntry} (found : context.registry.variableEntry? id = some entry)
    (own : entry.method = context.method.id) :
    Succeeds (clearVariable context position id) before fun _ after => after.Idle ∧ ∃ block,
      Emits before after block [] ∧ (∀ instruction ∈ block, instruction.IsPlain) ∧ ∃ slot,
        context.frame.slot? entry = some slot ∧ ∃ register, .storeStack slot register ∈ block := by
  rcases complete.slot found own with ⟨slot, slotEq, _⟩
  have enough := idle.ready.enough
  refine (succeeds_orFail (by rw [found, Option.bind_some, slotEq]) position _).goOnWith ?_
  refine (succeeds_acquire idle.ready.wellFormed idle.ready.unpinned
    (by rw [List.length_nil]; omega)).bind ?_
  rintro ⟨value, _⟩ acquiredState ⟨register, moves, rfl, acquired⟩
  dsimp only at acquired ⊢
  refine (succeeds_emit _).goOn ?_
  refine (succeeds_emit _).goOn ?_
  refine (succeeds_release value).goesTo ?_
  rw [emitted_emitted]
  generalize blockEq : [loadZero _ (.general register)] ++
    [Instruction.storeStack slot (.general register)] = block
  have isPlain : ∀ instruction ∈ block, instruction.IsPlain := by
    subst blockEq
    simp only [loadZero]
    split <;> simp [Instruction.IsPlain, Instruction.IsStraight]
  have named : ∀ instruction ∈ block, instruction.NamesBelow before.pool.registers.length := by
    subst blockEq
    have inRange := acquired.inRange
    simp only [loadZero]
    split <;> simpa [Instruction.NamesBelow, Instruction.registers] using inRange
  have works := works_through idle.ready.wellFormed acquired idle.ready.unpinned block isPlain named
  have blockEmits : Emits acquiredState (acquiredState.emitted block) block [] :=
    .emitted acquired.emits.wellFormed (acquired.emits.length_eq ▸ named)
  have emits := (acquired.emits.trans blockEmits).trans (Emits.released blockEmits.wellFormed value)
  rw [List.append_nil] at emits
  refine ⟨⟨⟨works.wellFormed, works.length_eq ▸ enough, works.pinnedWithin⟩,
    fun temporary isLive => ?_⟩, moves ++ block,
    emits.narrow fun temporary _ => .inr (idle.noneLive temporary), ?_, slot, slotEq,
    .general register, ?_⟩
  · simpa [idle.noneLive temporary] using (works.exchanges.isLive_iff temporary).mp isLive
  · intro instruction isEmitted
    rcases List.mem_append.mp isEmitted with isMove | isHere
    · exact Instruction.isPlain_of_spillMove (acquired.produces.spillMoves instruction isMove)
    · exact isPlain instruction isHere
  · simp [← blockEq]

theorem succeeds_clearVariables (complete : context.Complete) {ids : List VariableId}
    (known : ∀ id ∈ ids, ∃ entry, context.registry.variableEntry? id = some entry ∧
      entry.method = context.method.id) :
    Succeeds (ids.forM (clearVariable context position)) before fun _ after => after.Idle ∧ ∃ block,
      Emits before after block [] ∧ (∀ instruction ∈ block, instruction.IsPlain) ∧ ∀ id ∈ ids,
        ∃ entry slot,
        context.registry.variableEntry? id = some entry ∧ context.frame.slot? entry = some slot ∧
          ∃ register, .storeStack slot register ∈ block := by
  induction ids generalizing before with
  | nil => exact .pure ⟨idle, [], .refl idle.ready.wellFormed, by simp, by simp⟩
  | cons id rest ih =>
    rcases known id List.mem_cons_self with ⟨entry, found, own⟩
    refine (succeeds_clearVariable idle complete found own).bind ?_
    rintro _ between ⟨betweenIdle, block, emits, isPlain, slot, slotEq, register, stored⟩
    refine (ih betweenIdle fun other isOther =>
      known other (List.mem_cons_of_mem _ isOther)).mono ?_
    rintro _ after ⟨afterIdle, more, moreEmits, moreIsPlain, allStored⟩
    refine ⟨afterIdle, block ++ more, emits.trans moreEmits, ?_, ?_⟩
    · simpa [or_imp, forall_and] using ⟨isPlain, moreIsPlain⟩
    · intro other isOther
      rcases List.mem_cons.mp isOther with rfl | inRest
      · exact ⟨entry, slot, found, slotEq, register, List.mem_append_left _ stored⟩
      · rcases allStored other inRest with
          ⟨otherEntry, otherSlot, otherFound, otherEq, source, isStored⟩
        exact ⟨otherEntry, otherSlot, otherFound, otherEq, source, List.mem_append_right _ isStored⟩

variable (baseEq : before.pool.spillBase = context.frame.spillBase)

include baseEq

theorem succeeds_generateReturn_some (generates : Generates context value type)
    (isValue : type ≠ .void) (site : Site StmtId) :
    Succeeds (generateReturn context position (some value)) before fun _ after => ∃ block,
      Drains before after [] block ∧
      SimpleFacts context (.ret site (some value)) block := by
  refine (generates.succeeds_generateValue isValue idle.ready baseEq).bind ?_
  rintro temporary between ⟨block, delivers, _⟩
  have uses : UsesRegister Instruction.retValue [] :=
    ⟨fun _ => rfl, fun _ => rfl, by simp [Instruction.target?]⟩
  refine (succeeds_useValue delivers idle uses).mono ?_
  rintro _ after ⟨moves, register, drains⟩
  exact ⟨_, drains, fun _ =>
    ⟨block ++ moves, .retValue register, by simp, .inr ⟨register, rfl⟩⟩, by simp⟩

theorem succeeds_generatePrint (generates : Generates context value type)
    (isValue : type ≠ .void) {kind : PrintKind} (printed : printKind? context value = some kind) :
    Succeeds (generatePrint context position value) before fun _ after => ∃ block,
      Drains before after [] block := by
  refine (succeeds_orFail printed _ _).goOnWith ?_
  refine (generates.succeeds_generateValue isValue idle.ready baseEq).bind ?_
  rintro temporary between ⟨block, delivers, _⟩
  have uses : UsesRegister (Instruction.print kind) [] :=
    ⟨fun _ => rfl, fun _ => rfl, by simp [Instruction.target?]⟩
  refine (succeeds_useValue delivers idle uses).mono ?_
  rintro _ after ⟨moves, register, drains⟩
  exact ⟨_, drains⟩

theorem succeeds_generateEvaluate {expr : Expr} (generates : Generates context expr type) :
    Succeeds (generateEvaluate context expr) before fun _ after => ∃ block,
      Drains before after [] block := by
  refine (generates before idle.ready baseEq).bind ?_
  rintro result between ⟨_, block, delivers, _⟩
  cases result with
  | none =>
    refine .pure ⟨block, delivers.emits, fun temporary isLive => ?_, delivers.labelled⟩
    simpa [idle.noneLive temporary] using (delivers.exchanges.isLive_iff temporary).mp isLive
  | some value =>
    refine (succeeds_release value).goesTo ?_
    exact ⟨_, delivers.drains idle (.released delivers.ready.wellFormed value)
      (exchanges_released delivers.ready.wellFormed value) (.of_isPlain (by simp))⟩

omit baseEq in
theorem Assigns.drains {after : Generation} {target : Expr} {block : List Instruction}
    (assigns : Assigns context before after target value block) : Drains before after [] block := by
  refine ⟨assigns.emits, fun temporary isLive => ?_, assigns.labelled⟩
  simpa [idle.noneLive temporary] using (assigns.exchanges.isLive_iff temporary).mp isLive

omit idle baseEq in
theorem printKind?_of_isPrintable (typed : context.table.typeOf? value.id = some type)
    (printable : Checking.isPrintable type = true) :
    ∃ kind, printKind? context value = some kind := by
  unfold printKind?
  rw [typed]
  cases type with
  | primitive kind => cases kind <;> first | exact ⟨_, rfl⟩ | cases printable
  | object owner => cases printable
  | null => cases printable

/-- The code of every accepted simple statement is generated. -/
theorem succeeds_simple (complete : context.Complete) {inLoop : Bool} {stmt : Stmt}
    (accepted : Accepted context.setting context.table inLoop stmt)
    (isSimple : stmt.isSimple = true)
    (known : ∀ id ∈ context.bindings.declarationsOf stmt.id, ∃ entry,
      context.registry.variableEntry? id = some entry ∧ entry.method = context.method.id) :
    Succeeds (generateStmt context stmt) before fun _ after => ∃ block,
      Written before after [] block ∧
      SimpleFacts context stmt block := by
  cases accepted with
  | @retNone _ site isVoid => exact succeeds_settle idle (succeeds_generateReturn_none idle site)
  | @retValue _ site value type notVoid valueTyped fits =>
    have generates := (generates_of_means complete valueTyped.means _ rfl).1
    exact succeeds_settle idle
      (succeeds_generateReturn_some idle baseEq generates valueTyped.isValue site)
  | evaluate means =>
    have generates := (generates_of_means complete means _ rfl).1
    refine succeeds_settle idle ((succeeds_generateEvaluate idle baseEq generates).mono ?_)
    exact fun _ _ ⟨block, drains⟩ => ⟨block, drains, .of_ordinary rfl (by simp) block⟩
  | assign assignable targetMeans valueTyped fits =>
    have object := ((generates_of_means complete targetMeans _ rfl).2 assignable).2
    have generates := (generates_of_means complete valueTyped.means _ rfl).1
    refine succeeds_settle idle
      ((succeeds_generateAssign idle.ready baseEq object generates valueTyped.isValue).mono ?_)
    exact fun _ _ ⟨block, assigns⟩ => ⟨block, assigns.drains idle, .of_ordinary rfl (by simp) block⟩
  | @declare _ site declared =>
    refine succeeds_settle idle ((succeeds_clearVariables idle complete known).mono ?_)
    rintro _ after ⟨afterIdle, block, emits, isPlain, stored⟩
    refine ⟨block, ⟨emits, afterIdle.noneLive, .of_isPlain isPlain⟩,
      ⟨fun isReturn => (by cases isReturn), ?_⟩⟩
    rintro _ _ ⟨⟩
    exact ⟨isPlain, stored⟩
  | print valueTyped printable =>
    have generates := (generates_of_means complete valueTyped.means _ rfl).1
    rcases printKind?_of_isPrintable valueTyped.means.typeOf? printable with ⟨kind, printed⟩
    refine succeeds_settle idle
      ((succeeds_generatePrint idle baseEq generates valueTyped.isValue printed).mono ?_)
    exact fun _ _ ⟨block, drains⟩ => ⟨block, drains, .of_ordinary rfl (by simp) block⟩
  | skip =>
    refine succeeds_settle idle
      (.pure ⟨[], (Written.nil idle []).drains, .of_ordinary rfl (by simp) []⟩)
  | block _ => cases isSimple
  | ifElse _ _ _ => cases isSimple
  | whileLoop _ _ => cases isSimple
  | forLoop _ _ _ _ => cases isSimple
  | breakLoop => cases isSimple
  | continueLoop => cases isSimple

end

variable {loops : List LoopLabels}

/-! ## Conditions -/

/-- The constant `true` is put into a register and stays there. -/
theorem succeeds_generateValue_true (ready : before.Ready) (site : Site ExprId) :
    Succeeds (generateValue context (.literal site (.bool true))) before fun value after =>
      ∃ front register, Delivers before after (front ++ [.moveInt (.general register) 1]) [value] ∧
        ∃ resident, after.pool.content? register = some resident ∧ resident.temporary = value := by
  have enough := ready.enough
  have produced : Succeeds (some <$> produce site.position (Literal.bool true).load)
      before fun result after =>
        ∃ value, result = some value ∧ ∃ acquiredState register moves,
          Acquired before acquiredState value register moves ∧
            after = acquiredState.emitted [(Literal.bool true).load (.general register)] :=
    (succeeds_produce_acquired ready.wellFormed ready.unpinned
      (by rw [List.length_nil]; omega) _).map fun value _ made => ⟨value, rfl, made⟩
  have concluded := succeeds_conclude produced
  refine concluded.bind ?_
  rintro _ _ ⟨_, ⟨value, rfl, acquiredState, register, moves, acquired, rfl⟩, rfl⟩
  refine (succeeds_operand rfl _).mono ?_
  rintro _ _ ⟨rfl, rfl⟩
  have putEmits : Emits acquiredState (acquiredState.emitted [.moveInt (.general register) 1])
      [.moveInt (.general register) 1] [] := by
    refine .emitted acquired.emits.wellFormed ?_
    simpa [Instruction.NamesBelow, Instruction.registers,
      acquired.emits.length_eq] using acquired.inRange
  have emits := acquired.emits.trans putEmits
  have allEmits := emits.trans (Emits.unpinned emits.wellFormed)
  rw [List.append_nil] at allEmits
  have exchanges : before.pool.Exchanges
      (acquiredState.emitted [.moveInt (.general register) 1]).unpinned.pool [] [value] := by
    refine ⟨fun temporary => ?_, acquired.produces.exchanges.fresh⟩
    rw [isLive_unpinned emits.wellFormed]
    exact acquired.produces.exchanges.isLive_iff temporary
  refine ⟨moves, register,
    ⟨allEmits, exchanges, List.nodup_singleton _, ready.of_emits emits, .of_isPlain ?_⟩, ?_⟩
  · intro instruction isEmitted
    rcases List.mem_append.mp isEmitted with isMove | isPut
    · exact Instruction.isPlain_of_spillMove (acquired.produces.spillMoves instruction isMove)
    · rw [List.mem_singleton.mp isPut]
      trivial
  · have held : acquiredState.pool.content? register = some ⟨value,
        acquiredState.pool.clock, true⟩ :=
      (acquired.produces.content?_eq register).trans (if_pos rfl)
    refine ⟨⟨value, acquiredState.pool.clock, false⟩, ?_, rfl⟩
    exact (RegisterPool.content?_mapResidents _ _ _).trans (congrArg (Option.map _) held)

/-- What is known of the code of a condition besides that it is written: it is `code` in front of a
branch. -/
structure TestFacts (condition : Expr) (code : List Instruction) (register : Register) : Prop where
  closed : targetsOf code ⊆ labelsOf code
  always : condition.isTrue = true → ∃ front, code = front ++ [.moveInt register 1]

theorem usesRegister_branchIfZero (label : String) :
    UsesRegister (fun register => .branchIfZero register label) [label] :=
  ⟨fun _ => rfl, fun _ => rfl, by simp [Instruction.target?]⟩

theorem targetsOf_subset_of_labelled {first last : Nat} {code : List Instruction}
    (labelled : Labelled first last [] code) : targetsOf code ⊆ labelsOf code :=
  fun name isTarget => (labelled.targets name isTarget).resolve_right List.not_mem_nil

theorem succeeds_branchUnless (idle : before.Idle)
    (baseEq : before.pool.spillBase = context.frame.spillBase) {condition : Expr} {type : DataType}
    (generates : Generates context condition type) (isValue : type ≠ .void) (label : String) :
    Succeeds (branchUnless context condition label) before fun _ after => ∃ code register,
      Written before after [label] (code ++ [.branchIfZero register label]) ∧
        TestFacts condition code register := by
  by_cases isTrue : condition.isTrue = true
  · obtain ⟨site, rfl⟩ : ∃ site, condition = .literal site (.bool true) := by
      unfold Expr.isTrue at isTrue
      split at isTrue
      · exact ⟨_, by rw [isTrue]⟩
      · cases isTrue
    refine (succeeds_generateValue_true idle.ready site).bind ?_
    rintro _ between ⟨front, index, delivers, resident, held, rfl⟩
    refine (succeeds_load_resident delivers.ready.wellFormed held).bind ?_
    rintro _ loadedState ⟨rfl, _, loaded⟩
    refine (succeeds_emit _).goOn ?_
    refine (succeeds_release _).goOn ?_
    refine succeeds_unpinAll.goesTo ?_
    have inRange := RegisterPool.lt_of_content?_eq_some held
    have drains := drains_useValue delivers idle inRange loaded (usesRegister_branchIfZero label)
    exact ⟨_, _, drains.unpinned idle.ready, targetsOf_subset_of_labelled delivers.labelled,
      fun _ => ⟨front, rfl⟩⟩
  · refine (generates.succeeds_generateValue isValue idle.ready baseEq).bind ?_
    rintro value between ⟨block, delivers, _⟩
    have isLive := (delivers.exchanges.isLive_iff value).mpr (.inr (List.mem_singleton_self _))
    refine (succeeds_load_first delivers.ready isLive).bind ?_
    rintro _ loadedState ⟨index, moves, rfl, inRange, _, loaded⟩
    refine (succeeds_emit _).goOn ?_
    refine (succeeds_release _).goOn ?_
    refine succeeds_unpinAll.goesTo ?_
    have drains := drains_useValue delivers idle inRange loaded (usesRegister_branchIfZero label)
    rw [← List.append_assoc] at drains
    have movesPlain : ∀ move ∈ moves, move.IsPlain := fun move isMove =>
      Instruction.isPlain_of_spillMove (loaded.brings.spillMoves move isMove)
    have labelled := delivers.labelled.append (.of_isPlain movesPlain) delivers.emits.nextLabel_le
      (Nat.le_refl _)
    exact ⟨_, _, drains.unpinned idle.ready, targetsOf_subset_of_labelled labelled,
      fun always => absurd always isTrue⟩

/-! ## Statements -/

/-- The labels that `break` and `continue` lead to. -/
def loopTargets : Option LoopLabels → List String
  | some labels => [labels.breakTo, labels.continueTo]
  | none => []

/-- The generation stands between two statements inside the given loops. -/
structure Resting (context : MethodContext) (loops : List LoopLabels) (generation : Generation) :
    Prop where
  idle : generation.Idle
  base_eq : generation.pool.spillBase = context.frame.spillBase
  loops_eq : generation.emitter.loops = loops

theorem Resting.of_continues {block : List Instruction} (resting : Resting context loops before)
    (continues : Continues before between block) : Resting context loops between :=
  ⟨continues.idle, continues.emits.base_eq.trans resting.base_eq,
    continues.emits.loops_eq.trans resting.loops_eq⟩

theorem Resting.entered (resting : Resting context loops before) (labels : LoopLabels) :
    Resting context (labels :: loops) (before.entered labels) :=
  ⟨resting.idle.entered labels, resting.base_eq, congrArg (labels :: ·) resting.loops_eq⟩

/-- The code of a statement is generated, in its pieces. -/
def GeneratesStmt (context : MethodContext) (inLoop : Bool) (stmt : Stmt) : Prop :=
  ∀ (before : Generation) (loops : List LoopLabels), Resting context loops before →
    (inLoop = true → loops ≠ []) →
    Succeeds (generateStmt context stmt) before fun _ after => ∃ pieces,
      Lowered context loops.head? stmt pieces ∧
      Written before after (loopTargets loops.head?) (Piece.flatten pieces)

section

variable {inLoop : Bool} {loops : List LoopLabels}
variable {stmt thenBranch body : Stmt} {condition : Expr} {type : DataType} {statements : List Stmt}

theorem generatesStmt_simple (complete : context.Complete)
    (accepted : Accepted context.setting context.table inLoop stmt)
    (isSimple : stmt.isSimple = true)
    (known : ∀ id ∈ context.bindings.declarationsOf stmt.id, ∃ entry,
      context.registry.variableEntry? id = some entry ∧ entry.method = context.method.id) :
    GeneratesStmt context inLoop stmt := by
  intro before loops resting _
  rcases succeeds_simple resting.idle resting.base_eq complete accepted isSimple known with
    ⟨_, after, ran, block, written, facts⟩
  have code : ActCode context stmt block :=
    ⟨⟨before, after, resting.idle.ready.wellFormed, resting.base_eq, ran, written.emits.code_eq⟩,
      targetsOf_subset_of_labelled written.labelled, facts.returns, facts.declares⟩
  refine ⟨(), after, ran, [.act stmt block], .act isSimple code, ?_⟩
  have larger :=
    written.labelled.mono (Nat.le_refl _) (Nat.le_refl _)
      (List.nil_subset (loopTargets loops.head?))
  simpa [Piece.flatten, Piece.code] using Written.mk written.toContinues larger

section

variable (idle : before.Idle) (baseEq : before.pool.spillBase = context.frame.spillBase)
  (generates : Generates context condition type) (isValue : type ≠ .void) (label : String)
include idle baseEq generates isValue label

/-- The code of a condition is generated, with the branch behind it. -/
theorem exists_testCode :
    Succeeds (branchUnless context condition label) before fun _ after => ∃ code register,
      Written before after [label] (Piece.test condition code register label).code ∧
        TestCode context condition code register := by
  rcases succeeds_branchUnless idle baseEq generates isValue label with
    ⟨_, after, ran, code, register, written, facts⟩
  exact ⟨(), after, ran, code, register, written,
    ⟨before, after, label, idle.ready.wellFormed, baseEq, ran, written.emits.code_eq⟩, facts.closed,
    facts.always⟩

/-- The code of a condition is settled in front of what depends on it. -/
theorem succeeds_settleTest :
    Succeeds (settle position (branchUnless context condition label)) before fun _ after =>
      ∃ code register,
      Written before after [label] (Piece.test condition code register label).code ∧
        TestCode context condition code register := by
  rcases exists_testCode idle baseEq generates isValue label with
    ⟨_, between, ran, code, register, written, test⟩
  refine (succeeds_settle idle ⟨(), between, ran, _, written.drains, rfl⟩).mono ?_
  rintro _ after ⟨_, settled, rfl⟩
  exact ⟨code, register, settled, test⟩

end

/-- Where there is no code, settling changes nothing that matters. -/
theorem succeeds_settle_nothing (idle : before.Idle) (outer : List String) :
    Succeeds (settle position (return ())) before fun _ after => Written before after outer [] := by
  refine (succeeds_settle idle (.pure ⟨[], (Written.nil idle outer).drains, rfl⟩)).mono ?_
  rintro _ after ⟨_, settled, rfl⟩
  exact settled

theorem generatesStmts (each : ∀ stmt ∈ statements, GeneratesStmt context inLoop stmt)
    (resting : Resting context loops before) (inside : inLoop = true → loops ≠ []) :
    Succeeds (generateStmts context statements) before fun _ after => ∃ parts,
      parts.length = statements.length ∧
      (∀ pair ∈ statements.zip parts, Lowered context loops.head? pair.1 pair.2) ∧
        Written before after (loopTargets loops.head?) (Piece.flatten parts.flatten) := by
  induction statements generalizing before with
  | nil => exact .pure ⟨[], rfl, by simp, .nil resting.idle _⟩
  | cons stmt rest ih =>
    refine (each stmt List.mem_cons_self before loops resting inside).bind ?_
    rintro _ between ⟨pieces, lowered, written⟩
    refine (ih (fun other isOther => each other (List.mem_cons_of_mem _ isOther))
      (resting.of_continues written.toContinues)).mono ?_
    rintro _ after ⟨parts, lengthEq, restLowered, restWritten⟩
    refine ⟨pieces :: parts, by simp [lengthEq], ?_, ?_⟩
    · rintro pair isPair
      rcases List.mem_cons.mp isPair with rfl | inRest
      · exact lowered
      · exact restLowered pair inRest
    · simpa using written.trans restWritten

theorem generatesStmt_block (each : ∀ stmt ∈ statements, GeneratesStmt context inLoop stmt)
    (site : Site StmtId) : GeneratesStmt context inLoop (.block site statements) := by
  intro before loops resting inside
  refine (succeeds_settle_nothing resting.idle (loopTargets loops.head?)).bind ?_
  rintro _ between opened
  refine (generatesStmts each (resting.of_continues opened.toContinues) inside).mono ?_
  rintro _ after ⟨parts, lengthEq, lowered, written⟩
  exact ⟨_, .block lengthEq lowered, opened.trans written⟩

/-! ## Branches -/

theorem generateStmt_ifThen (site : Site StmtId) (condition : Expr) (thenBranch : Stmt) :
    generateStmt context (.ifElse site condition thenBranch none) = (do
      let behind ← freshLabel
      settle site.position (branchUnless context condition behind)
      generateStmt context thenBranch
      emit (.label behind)) := rfl

theorem generatesStmt_ifThen (generates : Generates context condition type) (isValue : type ≠ .void)
    (thenGenerates : GeneratesStmt context inLoop thenBranch) (site : Site StmtId) :
    GeneratesStmt context inLoop (.ifElse site condition thenBranch none) := by
  intro before loops resting inside
  rw [generateStmt_ifThen]
  refine succeeds_freshLabel.goOnWith ?_
  have taken := Continues.labelTaken resting.idle
  have restingTaken := resting.of_continues taken
  refine (succeeds_settleTest taken.idle restingTaken.base_eq generates isValue _).bind ?_
  rintro _ tested ⟨code, register, testWritten, test⟩
  have restingTested := restingTaken.of_continues testWritten.toContinues
  refine (thenGenerates tested loops restingTested inside).bind ?_
  rintro _ between ⟨pieces, lowered, written⟩
  refine (succeeds_emit _).goesTo ?_
  let behind := Label.inner before.emitter.nextLabel
  have ifLowered : Lowered context loops.head? (.ifElse site condition thenBranch none)
      (.test condition code register behind :: (pieces ++ [.label behind])) := .ifThen test lowered
  refine ⟨_, ifLowered, ?_, ?_⟩
  · have continues := ((taken.trans testWritten.toContinues).trans written.toContinues).trans
      (@Continues.emit _ written.idle (.label behind) rfl)
    simpa [Piece.code] using continues
  · have labelled :=
      (testWritten.labelled.widen (List.cons_subset_cons behind (List.nil_subset _))).append
        (written.labelled.widen (List.subset_cons_self _ _)) testWritten.emits.nextLabel_le
      written.emits.nextLabel_le
    have inserted :=
      labelled.insertLast (Nat.le_trans testWritten.emits.nextLabel_le written.emits.nextLabel_le)
    simpa [Piece.code, behind] using inserted

theorem generateStmt_ifElse (site : Site StmtId) (condition : Expr) (thenBranch elseBranch : Stmt) :
    generateStmt context (.ifElse site condition thenBranch (some elseBranch)) = (do
      let otherwise ← freshLabel
      let behind ← freshLabel
      settle site.position (branchUnless context condition otherwise)
      generateStmt context thenBranch
      emit (.jump behind)
      emit (.label otherwise)
      generateStmt context elseBranch
      emit (.label behind)) := rfl

theorem generatesStmt_ifElse {elseBranch : Stmt}
    (generates : Generates context condition type) (isValue : type ≠ .void)
    (thenGenerates : GeneratesStmt context inLoop thenBranch)
    (elseGenerates : GeneratesStmt context inLoop elseBranch) (site : Site StmtId) :
    GeneratesStmt context inLoop (.ifElse site condition thenBranch (some elseBranch)) := by
  intro before loops resting inside
  rw [generateStmt_ifElse]
  refine succeeds_freshLabel.goOnWith ?_
  refine succeeds_freshLabel.goOnWith ?_
  have takenOne := Continues.labelTaken resting.idle
  have taken := takenOne.trans (.labelTaken takenOne.idle)
  have restingTaken := resting.of_continues taken
  refine (succeeds_settleTest taken.idle restingTaken.base_eq generates isValue _).bind ?_
  rintro _ tested ⟨code, register, testWritten, test⟩
  have restingTested := restingTaken.of_continues testWritten.toContinues
  refine (thenGenerates tested loops restingTested inside).bind ?_
  rintro _ chosen ⟨thenPieces, thenLowered, thenWritten⟩
  let otherwise := Label.inner before.emitter.nextLabel
  let behind := Label.inner (before.emitter.nextLabel + 1)
  have restingChosen := restingTested.of_continues thenWritten.toContinues
  have left := @Continues.emit _ restingChosen.idle (.jump behind) rfl
  refine (succeeds_emit _).goOn ?_
  have begun := left.trans (@Continues.emit _ left.idle (.label otherwise) rfl)
  refine (succeeds_emit _).goOn ?_
  refine (elseGenerates _ loops (restingChosen.of_continues begun) inside).bind ?_
  rintro _ between ⟨elsePieces, elseLowered, elseWritten⟩
  refine (succeeds_emit _).goesTo ?_
  have lowered : Lowered context loops.head? (.ifElse site condition thenBranch (some elseBranch))
      (.test condition code register otherwise ::
        (thenPieces ++ .jump behind :: .label otherwise :: (elsePieces ++ [.label behind]))) :=
    .ifElse test thenLowered elseLowered
  refine ⟨_, lowered, ?_, ?_⟩
  · have continues :=
      ((((taken.trans testWritten.toContinues).trans thenWritten.toContinues).trans begun).trans
      elseWritten.toContinues).trans (@Continues.emit _ elseWritten.idle (.label behind) rfl)
    simpa [Piece.code, behind, otherwise] using continues
  · have chosenLe := Nat.le_trans testWritten.emits.nextLabel_le thenWritten.emits.nextLabel_le
    have betweenLe := Nat.le_trans chosenLe elseWritten.emits.nextLabel_le
    let around := behind :: otherwise :: loopTargets loops.head?
    have loopsAround : loopTargets loops.head? ⊆ around :=
      fun _ isOuter => by simp [around, isOuter]
    have testLabelled := testWritten.labelled.widen (show _ ⊆ around by simp [around, otherwise])
    have thenLabelled := (testLabelled.append (thenWritten.labelled.widen loopsAround)
      testWritten.emits.nextLabel_le thenWritten.emits.nextLabel_le).append
        (@Labelled.jump _ _ (.jump behind) rfl around (by simp [around, Instruction.target?]))
        chosenLe (Nat.le_refl _)
    have labelled := thenLabelled.append (elseWritten.labelled.widen loopsAround) chosenLe
      elseWritten.emits.nextLabel_le
    simp only [nextLabel_labelTaken] at betweenLe labelled
    have behindInserted := labelled.insertLast (by omega)
    rw [List.append_assoc] at behindInserted
    have inserted := behindInserted.insert (by omega)
    simpa [Piece.code, behind, otherwise] using inserted

/-! ## Loops -/

theorem succeeds_enterLoop (labels : LoopLabels) :
    Succeeds (enterLoop labels) before fun _ after => after = before.entered labels :=
  ⟨(), _, rfl, rfl⟩

theorem succeeds_exitLoop : Succeeds exitLoop before fun _ after => after = before.exited :=
  ⟨(), _, rfl, rfl⟩

/-- The code of a statement that may be absent. -/
theorem succeeds_part {part : Option Stmt} (each : ∀ stmt ∈ part, GeneratesStmt context inLoop stmt)
    (resting : Resting context loops before) (inside : inLoop = true → loops ≠ []) :
    Succeeds (part.elim (pure ()) (generateStmt context)) before fun _ after => ∃ pieces,
      (∀ stmt ∈ part, Lowered context loops.head? stmt pieces) ∧ (part = none → pieces = []) ∧
        Written before after (loopTargets loops.head?) (Piece.flatten pieces) := by
  cases part with
  | none => exact .pure ⟨[], by simp, fun _ => rfl, .nil resting.idle _⟩
  | some stmt =>
    refine (each stmt rfl before loops resting inside).mono ?_
    rintro _ after ⟨pieces, lowered, written⟩
    refine ⟨pieces, ?_, nofun, written⟩
    rintro _ ⟨⟩
    exact lowered

/-- The code of a condition that may be absent. -/
theorem succeeds_testPart {condition : Option Expr}
    (each : ∀ expr ∈ condition, ∃ type, Generates context expr type ∧ type ≠ .void)
    (resting : Resting context loops before) (behind : String) :
    Succeeds (condition.elim (pure ()) fun expr => branchUnless context expr behind) before
      fun _ after => ∃ pieces,
      (∀ expr ∈ condition, ∃ code register, TestCode context expr code register ∧
        pieces = [.test expr code register behind]) ∧
      (condition = none → pieces = []) ∧ Written before after [behind] (Piece.flatten pieces) := by
  cases condition with
  | none => exact .pure ⟨[], by simp, fun _ => rfl, .nil resting.idle _⟩
  | some expr =>
    rcases each expr rfl with ⟨type, generates, isValue⟩
    refine (exists_testCode resting.idle resting.base_eq generates isValue behind).mono ?_
    rintro _ after ⟨code, register, written, test⟩
    refine ⟨[.test expr code register behind], ?_, nofun, by simpa using written⟩
    rintro _ ⟨⟩
    exact ⟨code, register, test, rfl⟩

theorem generateStmt_whileLoop (site : Site StmtId) (condition : Expr) (body : Stmt) :
    generateStmt context (.whileLoop site condition body) = (do
      let top ← freshLabel
      let behind ← freshLabel
      emit (.label top)
      settle site.position (branchUnless context condition behind)
      enterLoop ⟨behind, top⟩
      generateStmt context body
      emit (.jump top)
      exitLoop
      emit (.label behind)) := rfl

theorem generatesStmt_whileLoop
    (generates : Generates context condition type) (isValue : type ≠ .void)
    (bodyGenerates : GeneratesStmt context true body) (site : Site StmtId) :
    GeneratesStmt context inLoop (.whileLoop site condition body) := by
  intro before loops resting _
  rw [generateStmt_whileLoop]
  refine succeeds_freshLabel.goOnWith ?_
  refine succeeds_freshLabel.goOnWith ?_
  let top := Label.inner before.emitter.nextLabel
  let behind := Label.inner (before.emitter.nextLabel + 1)
  have takenOne := Continues.labelTaken resting.idle
  have taken := takenOne.trans (.labelTaken takenOne.idle)
  have begun := taken.trans (@Continues.emit _ taken.idle (.label top) rfl)
  refine (succeeds_emit _).goOn ?_
  have restingBegun := resting.of_continues begun
  refine (succeeds_settleTest begun.idle restingBegun.base_eq generates isValue _).bind ?_
  rintro _ tested ⟨code, register, testWritten, test⟩
  have restingTested := restingBegun.of_continues testWritten.toContinues
  refine (succeeds_enterLoop _).goOn ?_
  refine (bodyGenerates _ _ (restingTested.entered ⟨behind, top⟩)
    (fun _ => List.cons_ne_nil _ _)).bind ?_
  rintro _ walked ⟨bodyPieces, bodyLowered, bodyWritten⟩
  have round := bodyWritten.toContinues.trans (@Continues.emit _ bodyWritten.idle (.jump top) rfl)
  refine (succeeds_emit _).goOn ?_
  refine succeeds_exitLoop.goOn ?_
  refine (succeeds_emit _).goesTo ?_
  have lowered : Lowered context loops.head? (.whileLoop site condition body)
      (.label top :: .test condition code register behind ::
        (bodyPieces ++ [.jump top, .label behind])) :=
    .whileLoop test bodyLowered
  refine ⟨_, lowered, ?_, ?_⟩
  · have continues := ((begun.trans testWritten.toContinues).trans round.exited).trans
      (@Continues.emit _ round.exited.idle (.label behind) rfl)
    simpa [Piece.code, behind, top] using continues
  · have walkedLe := Nat.le_trans testWritten.emits.nextLabel_le bodyWritten.emits.nextLabel_le
    let around := behind :: top :: loopTargets loops.head?
    have testLabelled := testWritten.labelled.widen (show _ ⊆ around by simp [around, behind])
    have bodyLabelled := bodyWritten.labelled.widen (show _ ⊆ around by simp [around, loopTargets])
    have labelled :=
      (testLabelled.append bodyLabelled testWritten.emits.nextLabel_le
        bodyWritten.emits.nextLabel_le).append
      (@Labelled.jump _ _ (.jump top) rfl around (by simp [around, Instruction.target?]))
        walkedLe (Nat.le_refl _)
    simp only [nextLabel_labelTaken, nextLabel_emitted] at walkedLe labelled
    have behindInserted := labelled.insertLast (by omega)
    have inserted := @Labelled.insert _ _ _ [] _ behindInserted (by omega)
    simpa [Piece.code, behind, top] using inserted

theorem generateStmt_forLoop (site : Site StmtId) (init : Option Stmt) (condition : Option Expr)
    (update : Option Stmt) (body : Stmt) :
    generateStmt context (.forLoop site init condition update body) = (do
      let top ← freshLabel
      let next ← freshLabel
      let behind ← freshLabel
      settle site.position (return ())
      init.elim (pure ()) (generateStmt context)
      emit (.label top)
      condition.elim (pure ()) fun expr => branchUnless context expr behind
      enterLoop ⟨behind, next⟩
      generateStmt context body
      emit (.label next)
      update.elim (pure ()) (generateStmt context)
      emit (.jump top)
      exitLoop
      emit (.label behind)) := by
  cases init <;> cases condition <;> cases update <;> rfl

/-- The parts of a `for` loop's code jump to its own labels and to those around it. -/
theorem labelled_forLoop {first second third fourth last : Nat}
    {init test body update : List Instruction} {outer : List String} {top next behind : String}
    (topEq : top = Label.inner first) (nextEq : next = Label.inner (first + 1))
    (behindEq : behind = Label.inner (first + 2))
    (initLabelled : Labelled (first + 3) second outer init)
    (testLabelled : Labelled second third [behind] test)
    (bodyLabelled : Labelled third fourth [behind, next] body)
    (updateLabelled : Labelled fourth last [behind, next] update) (secondLe : first + 3 ≤ second)
    (thirdLe : second ≤ third) (fourthLe : third ≤ fourth) (lastLe : fourth ≤ last) :
    Labelled first last outer
      (init ++ .label top ::
        (test ++ (body ++ .label next :: (update ++ [.jump top, .label behind])))) := by
  let around := behind :: next :: top :: outer
  have initAround : Labelled (first + 3) second around init :=
      initLabelled.widen fun _ isOuter => by
    simp [around, isOuter]
  have testAround : Labelled second third around test := testLabelled.widen (by simp [around])
  have bodyAround : Labelled third fourth around body := bodyLabelled.widen (by simp [around])
  have updateAround : Labelled fourth last around update := updateLabelled.widen (by simp [around])
  have jump : Labelled last last around [.jump top] :=
    .jump rfl around (by simp [around, Instruction.target?])
  have labelled :=
    (((initAround.append testAround secondLe thirdLe).append bodyAround (by omega) fourthLe).append
    updateAround (by omega) lastLe).append jump (by omega) (Nat.le_refl _)
  subst topEq nextEq behindEq
  have behindInserted := labelled.insertLast (by omega)
  rw [List.append_assoc, List.append_assoc] at behindInserted
  have nextInserted := behindInserted.insert (by omega)
  rw [List.append_assoc, List.append_assoc] at nextInserted
  have topInserted := nextInserted.insert (by omega)
  simpa using topInserted

theorem generatesStmt_forLoop {init update : Option Stmt} {condition : Option Expr}
    (initGenerates : ∀ stmt ∈ init, GeneratesStmt context inLoop stmt)
    (tests : ∀ expr ∈ condition, ∃ type, Generates context expr type ∧ type ≠ .void)
    (bodyGenerates : GeneratesStmt context true body)
    (updateGenerates : ∀ stmt ∈ update, GeneratesStmt context true stmt) (site : Site StmtId) :
    GeneratesStmt context inLoop (.forLoop site init condition update body) := by
  intro before loops resting inside
  rw [generateStmt_forLoop]
  refine succeeds_freshLabel.goOnWith ?_
  refine succeeds_freshLabel.goOnWith ?_
  refine succeeds_freshLabel.goOnWith ?_
  let top := Label.inner before.emitter.nextLabel
  let next := Label.inner (before.emitter.nextLabel + 1)
  let behind := Label.inner (before.emitter.nextLabel + 2)
  have takenOne := Continues.labelTaken resting.idle
  have takenTwo := takenOne.trans (.labelTaken takenOne.idle)
  have taken := takenTwo.trans (.labelTaken takenTwo.idle)
  refine (succeeds_settle_nothing taken.idle []).bind ?_
  rintro _ opened openWritten
  have begun := taken.trans openWritten.toContinues
  refine (succeeds_part initGenerates (resting.of_continues begun) inside).bind ?_
  rintro _ initial ⟨initPieces, initLowered, initNone, initWritten⟩
  refine (succeeds_emit _).goOn ?_
  have started :=
    (begun.trans initWritten.toContinues).trans
      (@Continues.emit _ initWritten.idle (.label top) rfl)
  refine (succeeds_testPart tests (resting.of_continues started) behind).bind ?_
  rintro _ tested ⟨testPieces, testLowered, testNone, testWritten⟩
  have restingTested := resting.of_continues (started.trans testWritten.toContinues)
  refine (succeeds_enterLoop _).goOn ?_
  have restingEntered := restingTested.entered ⟨behind, next⟩
  refine (bodyGenerates _ _ restingEntered (fun _ => List.cons_ne_nil _ _)).bind ?_
  rintro _ walked ⟨bodyPieces, bodyLowered, bodyWritten⟩
  refine (succeeds_emit _).goOn ?_
  have reached :=
    bodyWritten.toContinues.trans (@Continues.emit _ bodyWritten.idle (.label next) rfl)
  refine (succeeds_part updateGenerates (restingEntered.of_continues reached)
    (fun _ => List.cons_ne_nil _ _)).bind ?_
  rintro _ updated ⟨updatePieces, updateLowered, updateNone, updateWritten⟩
  refine (succeeds_emit _).goOn ?_
  have round :=
    (reached.trans updateWritten.toContinues).trans
      (@Continues.emit _ updateWritten.idle (.jump top) rfl)
  refine succeeds_exitLoop.goOn ?_
  refine (succeeds_emit _).goesTo ?_
  have lowered : Lowered context loops.head? (.forLoop site init condition update body)
      (initPieces ++ .label top :: (testPieces ++ (bodyPieces ++ .label next ::
        (updatePieces ++ [.jump top, .label behind])))) :=
    .forLoop initLowered initNone testLowered testNone bodyLowered updateLowered updateNone
  refine ⟨_, lowered, ?_, ?_⟩
  · have continues := ((started.trans testWritten.toContinues).trans round.exited).trans
      (@Continues.emit _ round.exited.idle (.label behind) rfl)
    simpa [Piece.code] using continues
  · have openLe := openWritten.emits.nextLabel_le
    have initLe := initWritten.emits.nextLabel_le
    have initLabelled := initWritten.labelled.mono openLe (Nat.le_refl _) (List.Subset.refl _)
    have labelled :=
      labelled_forLoop rfl rfl rfl initLabelled testWritten.labelled bodyWritten.labelled
      updateWritten.labelled (Nat.le_trans openLe initLe) testWritten.emits.nextLabel_le
      bodyWritten.emits.nextLabel_le updateWritten.emits.nextLabel_le
    simpa [Piece.code] using labelled

/-- A jump out of the innermost loop, or to its next round. -/
theorem succeeds_leaveLoop {labels : LoopLabels}
    (resting : Resting context (labels :: loops) before) (keyword : String)
    (label : LoopLabels → String) (isTarget : label labels ∈ loopTargets (some labels)) :
    Succeeds (settle position (leaveLoop position keyword label)) before fun _ after =>
      Written before after (loopTargets (some labels)) [.jump (label labels)] := by
  have innermost : before.emitter.innermostLoop? = some labels :=
    congrArg List.head? resting.loops_eq
  have left := @Continues.emit _ resting.idle (.jump (label labels)) rfl
  have jump : Labelled before.emitter.nextLabel before.emitter.nextLabel (loopTargets (some labels))
      [.jump (label labels)] := .jump rfl _ (by simpa [Instruction.target?] using isTarget)
  have leaves : Succeeds (leaveLoop position keyword label) before fun _ after =>
      Written before after (loopTargets (some labels)) [.jump (label labels)] := by
    refine succeeds_get.goOnWith ?_
    refine (succeeds_orFail innermost _ _).goOnWith ?_
    refine (succeeds_emit _).goesTo ?_
    exact ⟨left, jump⟩
  refine (succeeds_settle resting.idle (leaves.mono fun _ _ written =>
    ⟨_, written.drains, rfl⟩)).mono ?_
  rintro _ after ⟨_, settled, rfl⟩
  exact settled

theorem generatesStmt_breakLoop (site : Site StmtId) :
    GeneratesStmt context true (.breakLoop site) := by
  intro before loops resting inside
  cases loops with
  | nil => exact absurd rfl (inside rfl)
  | cons labels loops =>
    refine (succeeds_leaveLoop resting "break" LoopLabels.breakTo (by simp [loopTargets])).mono ?_
    exact fun _ _ written => ⟨_, .breakLoop, written⟩

theorem generatesStmt_continueLoop (site : Site StmtId) :
    GeneratesStmt context true (.continueLoop site) := by
  intro before loops resting inside
  cases loops with
  | nil => exact absurd rfl (inside rfl)
  | cons labels loops =>
    refine (succeeds_leaveLoop resting "continue" LoopLabels.continueTo
      (by simp [loopTargets])).mono ?_
    exact fun _ _ written => ⟨_, .continueLoop, written⟩

/-! ## All statements -/

/-- The variables that a statement declares are known, and belong to the method. -/
def DeclaresKnown (context : MethodContext) (stmt : Stmt) : Prop :=
  ∀ node ∈ stmt.nodes, ∀ id ∈ context.bindings.declarationsOf node.id, ∃ entry,
    context.registry.variableEntry? id = some entry ∧ entry.method = context.method.id

theorem DeclaresKnown.child {child : Stmt} (known : DeclaresKnown context stmt)
    (isChild : child ∈ stmt.children := by simp [Stmt.children]) : DeclaresKnown context child :=
  fun node isNode => known node (Stmt.mem_nodes_iff.mpr (.inr ⟨child, isChild, isNode⟩))

/-- The code of every accepted statement is generated. -/
theorem generatesStmt_of_accepted (complete : context.Complete)
    (accepted : Accepted context.setting context.table inLoop stmt)
    (known : DeclaresKnown context stmt) : GeneratesStmt context inLoop stmt := by
  have condition {expr : Expr} (typed : HasType context.setting context.table expr .bool) :
      Generates context expr .bool ∧ DataType.bool ≠ .void :=
    ⟨(generates_of_means complete typed.means _ rfl).1, typed.isValue⟩
  have simple {stmt : Stmt} {inside : Bool}
      (accepted : Accepted context.setting context.table inside stmt)
      (isSimple : stmt.isSimple = true) (known : DeclaresKnown context stmt) :
      GeneratesStmt context inside stmt :=
    generatesStmt_simple complete accepted isSimple (known stmt stmt.self_mem_nodes)
  induction accepted with
  | @block _ site statements _ ih =>
    exact generatesStmt_block (fun stmt isStmt => ih stmt isStmt (known.child isStmt)) site
  | @ifElse _ site _ thenBranch elseBranch conditionTyped _ _ thenIh elseIh =>
    have tests := condition conditionTyped
    have thenGenerates := thenIh (known.child List.mem_cons_self)
    cases elseBranch with
    | none => exact generatesStmt_ifThen tests.1 tests.2 thenGenerates site
    | some elseBranch =>
      have elseGenerates := elseIh elseBranch rfl known.child
      exact generatesStmt_ifElse tests.1 tests.2 thenGenerates elseGenerates site
  | @whileLoop _ site _ body conditionTyped _ ih =>
    have tests := condition conditionTyped
    exact generatesStmt_whileLoop tests.1 tests.2 (ih known.child) site
  | @forLoop _ site init expr update body _ conditionTyped _ _ initIh updateIh bodyIh =>
    refine generatesStmt_forLoop ?_ (fun expr isExpr => ⟨_, condition (conditionTyped expr isExpr)⟩)
      (bodyIh known.child) ?_ site
    · rintro stmt ⟨⟩
      exact initIh stmt rfl known.child
    · rintro stmt ⟨⟩
      exact updateIh stmt rfl known.child
  | breakLoop => exact generatesStmt_breakLoop _
  | continueLoop => exact generatesStmt_continueLoop _
  | retNone isVoid => exact simple (.retNone isVoid) rfl known
  | retValue notVoid valueTyped fits => exact simple (.retValue notVoid valueTyped fits) rfl known
  | evaluate means => exact simple (.evaluate means) rfl known
  | assign assignable targetMeans valueTyped fits =>
    exact simple (.assign assignable targetMeans valueTyped fits) rfl known
  | declare => exact simple .declare rfl known
  | print valueTyped printable => exact simple (.print valueTyped printable) rfl known
  | skip => exact simple .skip rfl known

end

end Generating

end Decaf
