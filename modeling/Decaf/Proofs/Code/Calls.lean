import Decaf.Proofs.Code.Blocks

/-!
# Calls

The code of a call or of a new object has no jumps: it pushes its operands one after the other, and
at most three temporaries are pinned at once. `Works` says what a part of such code moves, uses up,
makes and leaves pinned.
-/

namespace Decaf

namespace Generation

variable {before between after : Generation}
  {moved used made pinned laterMoved laterUsed laterMade : List Temporary}

/-- Code without jumps moves temporaries, uses some up and makes others; after that only the pinned
ones are. -/
structure Works (before after : Generation) (moved used made pinned : List Temporary) : Prop where
  emitted : ∃ block, Emits before after block moved ∧ ∀ instruction ∈ block, instruction.IsPlain
  exchanges : before.pool.Exchanges after.pool used made
  pinnedWithin : after.pool.PinnedWithin pinned

namespace Works

variable {temporary : Temporary} {last : List Temporary} {moves : List Instruction}

section

variable (works : Works before after moved used made pinned)
include works

theorem wellFormed : after.pool.WellFormed := by
  rcases works.emitted with ⟨_, emits, _⟩
  exact emits.wellFormed

theorem length_eq : after.pool.registers.length = before.pool.registers.length := by
  rcases works.emitted with ⟨_, emits, _⟩
  exact emits.length_eq

theorem next_le : before.pool.nextTemporary ≤ after.pool.nextTemporary := by
  rcases works.emitted with ⟨_, emits, _⟩
  exact emits.next_le

theorem isLive (wasLive : before.pool.IsLive temporary) (notUsed : temporary ∉ used) :
    after.pool.IsLive temporary :=
  (works.exchanges.isLive_iff temporary).mpr (.inl ⟨wasLive, notUsed⟩)

end

theorem refl (wellFormed : before.pool.WellFormed) (within : before.pool.PinnedWithin pinned) :
    Works before before [] [] [] pinned :=
  ⟨⟨[], .refl wellFormed, by simp⟩, .refl _, within⟩

theorem trans (early : Works before between moved used made pinned)
    (late : Works between after laterMoved laterUsed laterMade last)
    (isKept : ∀ temporary ∈ made, temporary ∉ laterUsed) :
    Works before after (moved ++ laterMoved) (used ++ laterUsed) (made ++ laterMade) last := by
  refine ⟨?_, early.exchanges.keep late.exchanges early.next_le isKept, late.pinnedWithin⟩
  rcases early.emitted with ⟨block, emits, isPlain⟩
  rcases late.emitted with ⟨more, moreEmits, moreIsPlain⟩
  exact ⟨block ++ more, emits.trans moreEmits,
    by simpa [or_imp, forall_and] using ⟨isPlain, moreIsPlain⟩⟩

/-- A temporary that was made is given up again. -/
theorem giveUp (works : Works before between moved used (temporary :: made) pinned)
    (wellFormed : before.pool.WellFormed)
    (releases : Works between after [temporary] [temporary] [] last) (notMade : temporary ∉ made) :
    Works before after moved used made last := by
  refine ⟨?_, works.exchanges.giveUp releases.exchanges List.mem_cons_self wellFormed ?_,
    releases.pinnedWithin⟩
  · rcases works.emitted with ⟨block, emits, isPlain⟩
    rcases releases.emitted with ⟨more, moreEmits, moreIsPlain⟩
    refine ⟨block ++ more, (emits.trans moreEmits).narrow ?_,
      by simpa [or_imp, forall_and] using ⟨isPlain, moreIsPlain⟩⟩
    intro other isMoved
    rcases List.mem_append.mp isMoved with isMoved | isReleased
    · exact .inl isMoved
    · refine .inr fun isLive =>
        Nat.not_lt.mpr (works.exchanges.fresh other ?_) (wellFormed.lt_of_isLive isLive)
      exact List.mem_cons.mpr (.inl (List.mem_singleton.mp isReleased))
  · intro other
    rw [List.mem_cons]
    refine ⟨fun isMade => ⟨.inr isMade, fun same => notMade (same ▸ isMade)⟩, fun isMade => ?_⟩
    exact isMade.1.resolve_left isMade.2

theorem narrow {fewer : List Temporary} (works : Works before after moved used made pinned)
    (subset : moved ⊆ fewer) : Works before after fewer used made pinned := by
  rcases works.emitted with ⟨block, emits, isPlain⟩
  exact ⟨⟨block, emits.narrow fun _ isMoved => .inl (subset isMoved), isPlain⟩, works.exchanges,
    works.pinnedWithin⟩

theorem performs (works : Works before after moved used made pinned) {uses : List Temporary}
    (subset : moved ⊆ uses) (same : ∀ temporary, temporary ∈ uses ↔ temporary ∈ used) :
    Performs before after uses made := by
  rcases works.emitted with ⟨block, emits, isPlain⟩
  refine ⟨block, emits.narrow fun _ isMoved => .inl (subset isMoved),
    ⟨fun temporary => ?_, works.exchanges.fresh⟩, isPlain⟩
  rw [works.exchanges.isLive_iff, same]

/-! ## Parts -/

theorem of_emitted (wellFormed : before.pool.WellFormed) (within : before.pool.PinnedWithin pinned)
    {block : List Instruction} (isPlain : ∀ instruction ∈ block, instruction.IsPlain)
    (named : ∀ instruction ∈ block, instruction.NamesBelow before.pool.registers.length) :
    Works before (before.emitted block) [] [] [] pinned :=
  ⟨⟨block, .emitted wellFormed named, isPlain⟩, .refl _, within⟩

theorem of_released (wellFormed : before.pool.WellFormed)
    (within : before.pool.PinnedWithin (temporary :: pinned)) :
    Works before (before.released temporary) [temporary] [temporary] [] pinned :=
  ⟨⟨[], .released wellFormed temporary, by simp⟩, exchanges_released wellFormed temporary,
    pinnedWithin_released wellFormed within⟩

theorem of_acquired {register : Nat} (acquired : Acquired before after temporary register moves)
    (within : before.pool.PinnedWithin pinned) :
    Works before after [] [] [temporary] (temporary :: pinned) := by
  refine ⟨⟨moves, acquired.emits, fun move isMove => ?_⟩, acquired.produces.exchanges,
    acquired.produces.pinnedWithin within⟩
  exact Instruction.isPlain_of_spillMove (acquired.produces.spillMoves move isMove)

theorem of_loaded
    (loaded : Loaded before after [temporary] moves) (within : before.pool.PinnedWithin pinned) :
    Works before after [temporary] [] [] (temporary :: pinned) := by
  refine ⟨⟨moves, loaded.emits, fun move isMove => ?_⟩, loaded.exchanges,
    loaded.brings.pinnedWithin within⟩
  exact Instruction.isPlain_of_spillMove (loaded.brings.spillMoves move isMove)

theorem of_cleared {kept : List Temporary}
    (cleared : Cleared before after kept moves) (within : before.pool.PinnedWithin pinned) :
    Works before after [] [] [] pinned := by
  refine ⟨⟨moves, cleared.emits, fun move isMove => ?_⟩, cleared.exchanges,
    cleared.pinnedWithin within⟩
  exact Instruction.isPlain_of_spillMove (cleared.clears.spillMoves move isMove)

end Works

end Generation

namespace Generating

open Generation

variable {context : MethodContext} {before : Generation} {position : Position}
  {pinned : List Temporary}
variable {receiver : Temporary}

theorem works_emitted (wellFormed : before.pool.WellFormed)
    (within : before.pool.PinnedWithin pinned) (instruction : Instruction)
    (isPlain : instruction.IsPlain) (named : instruction.NamesBelow before.pool.registers.length) :
    Works before (before.emitted [instruction]) [] [] [] pinned :=
  .of_emitted wellFormed within (by simpa using isPlain) (by simpa using named)

/-- Instructions use the register of a temporary that is there for them only. -/
theorem works_through {temporary : Temporary} {acquiredState : Generation} {register : Nat}
    {moves : List Instruction} (wellFormed : before.pool.WellFormed)
    (acquired : Acquired before acquiredState temporary register moves)
    (within : before.pool.PinnedWithin pinned) (block : List Instruction)
    (isPlain : ∀ instruction ∈ block, instruction.IsPlain)
    (named : ∀ instruction ∈ block, instruction.NamesBelow before.pool.registers.length) :
    Works before ((acquiredState.emitted block).released temporary) [] [] [] pinned := by
  have acquires := Works.of_acquired acquired within
  have emits := Works.of_emitted acquires.wellFormed acquires.pinnedWithin isPlain
    (acquires.length_eq ▸ named)
  exact (acquires.trans emits (by simp)).giveUp wellFormed
    (.of_released emits.wellFormed emits.pinnedWithin) List.not_mem_nil

theorem succeeds_spillAllExcept_works (wellFormed : before.pool.WellFormed)
    (within : before.pool.PinnedWithin pinned) (kept : List Temporary) :
    Succeeds (spillAllExcept position kept) before fun _ after =>
      Works before after [] [] [] pinned :=
  (succeeds_spillAllExcept wellFormed kept).mono fun _ _ ⟨_, cleared⟩ => .of_cleared cleared within

/-! ## Pushing -/

section

variable (wellFormed : before.pool.WellFormed) (within : before.pool.PinnedWithin pinned)
include wellFormed within

theorem succeeds_pushThis (enough : pinned.length < before.pool.registers.length)
    (hasReceiver : context.frame.hasReceiver = true) :
    Succeeds (pushThis context position) before fun _ after =>
      Works before after [] [] [] pinned := by
  refine (succeeds_receiverSlot hasReceiver).goOnWith ?_
  refine (succeeds_acquire wellFormed within enough).bind ?_
  rintro ⟨object, _⟩ acquiredState ⟨register, moves, rfl, acquired⟩
  dsimp only at acquired ⊢
  refine (succeeds_emit _).goOn ?_
  refine (succeeds_emit _).goOn ?_
  refine (succeeds_release object).goesTo ?_
  rw [emitted_emitted]
  refine works_through wellFormed acquired within _
    (by simp [Instruction.IsPlain, Instruction.IsStraight]) ?_
  simpa [Instruction.NamesBelow, Instruction.registers] using acquired.inRange

theorem succeeds_pushArgument
    (enough : pinned.length + 1 < before.pool.registers.length) {argument : Temporary}
    (isLive : before.pool.IsLive argument) :
    Succeeds (pushArgument position (some argument)) before fun _ after =>
      Works before after [argument] [argument] [] pinned := by
  refine (succeeds_operand rfl position).goOnWith ?_
  refine (succeeds_load wellFormed isLive (within.mono (List.subset_cons_self _ _)) enough).bind ?_
  rintro _ loadedState ⟨index, moves, rfl, inRange, isHeld, loaded⟩
  have loads := Works.of_loaded loaded within
  have pushes := works_emitted loads.wellFormed loads.pinnedWithin (.push (.general index)) trivial
    (by simpa [Instruction.NamesBelow, Instruction.registers, loads.length_eq] using inRange)
  have releases := Works.of_released pushes.wellFormed pushes.pinnedWithin
  refine (succeeds_emit _).goOn ?_
  refine (succeeds_release argument).goesTo ?_
  exact ((loads.trans pushes (by simp)).trans releases (by simp)).narrow (by simp)

theorem succeeds_pushArguments
    (enough : pinned.length + 1 < before.pool.registers.length) {arguments : List Temporary}
    (areLive : ∀ argument ∈ arguments, before.pool.IsLive argument) (nodup : arguments.Nodup) :
    Succeeds ((arguments.map some).forM (pushArgument position)) before fun _ after =>
      Works before after arguments arguments [] pinned := by
  induction arguments generalizing before with
  | nil => exact .pure (.refl wellFormed within)
  | cons argument rest ih =>
    rcases List.nodup_cons.mp nodup with ⟨notInRest, restNodup⟩
    refine (succeeds_pushArgument wellFormed within enough
      (areLive argument List.mem_cons_self)).bind ?_
    rintro _ between pushed
    refine (ih pushed.wellFormed pushed.pinnedWithin (pushed.length_eq ▸ enough)
      ?_ restNodup).mono ?_
    · intro other isOther
      refine pushed.isLive (areLive other (List.mem_cons_of_mem _ isOther)) fun same => notInRest ?_
      exact List.mem_singleton.mp same ▸ isOther
    · rintro _ after works
      exact pushed.trans works (by simp)

end

theorem succeeds_pushReceiver (ready : before.Ready) (isLive : before.pool.IsLive receiver) :
    Succeeds (pushReceiver position (some receiver)) before fun result after =>
      result = receiver ∧ Works before after [receiver] [] [] [receiver] := by
  refine (succeeds_operand rfl position).goOnWith ?_
  refine (succeeds_load_first ready isLive).bind ?_
  rintro _ loadedState ⟨index, moves, rfl, inRange, isHeld, loaded⟩
  have loads := Works.of_loaded loaded ready.unpinned
  refine (succeeds_emit _).goOn ?_
  refine .pure ⟨rfl, loads.trans (works_emitted loads.wellFormed loads.pinnedWithin _ trivial ?_)
    (by simp)⟩
  simpa [Instruction.NamesBelow, Instruction.registers, loads.length_eq] using inRange

/-! ## Calling -/

section

variable (wellFormed : before.pool.WellFormed) (enough : 3 ≤ before.pool.registers.length)
include wellFormed enough

theorem succeeds_callThrough
    (within : before.pool.PinnedWithin [receiver]) (isLive : before.pool.IsLive receiver)
    (slot : Nat) :
    Succeeds (callThrough position receiver slot) before fun _ after =>
      Works before after [receiver] [receiver] [] [] := by
  refine (succeeds_load wellFormed isLive within (by rw [List.length_nil]; omega)).bind ?_
  rintro _ loadedState ⟨base, loadMoves, rfl, baseInRange, _, loaded⟩
  have loads := Works.of_loaded loaded within
  have onlyReceiver : loadedState.pool.PinnedWithin [receiver] := loads.pinnedWithin.mono (by simp)
  have moved := loads.trans (.of_released loads.wellFormed onlyReceiver) (by simp)
  refine (succeeds_release receiver).goOn ?_
  refine (succeeds_acquire moved.wellFormed moved.pinnedWithin
    (by rw [List.length_nil, moved.length_eq]; omega)).bind ?_
  rintro ⟨vtable, _⟩ acquiredState ⟨register, moves, rfl, acquired⟩
  dsimp only at acquired ⊢
  refine (succeeds_emit _).goOn ?_
  refine (succeeds_emit _).goOn ?_
  refine (succeeds_release vtable).goesTo ?_
  rw [emitted_emitted]
  have finds := works_through moved.wellFormed acquired moved.pinnedWithin
    [.loadHeap (.general register) (.general base) 0, .callVirtual (.general register) slot]
    (by simp [Instruction.IsPlain, Instruction.IsStraight])
    (by
      have inRange : register < before.pool.registers.length := moved.length_eq ▸ acquired.inRange
      simp only [Instruction.NamesBelow, Instruction.registers, moved.length_eq]
      simpa using ⟨⟨inRange, baseInRange⟩, inRange⟩)
  exact (moved.trans finds (by simp)).narrow (by simp)

theorem succeeds_callThroughThis (within : before.pool.PinnedWithin [])
    (hasReceiver : context.frame.hasReceiver = true) (slot : Nat) :
    Succeeds (callThroughThis context position slot) before fun _ after =>
      Works before after [] [] [] [] := by
  refine (succeeds_receiverSlot hasReceiver).goOnWith ?_
  refine (succeeds_acquire wellFormed within (by rw [List.length_nil]; omega)).bind ?_
  rintro ⟨vtable, _⟩ acquiredState ⟨register, moves, rfl, acquired⟩
  dsimp only at acquired ⊢
  refine (succeeds_emit _).goOn ?_
  refine (succeeds_emit _).goOn ?_
  refine (succeeds_emit _).goOn ?_
  refine (succeeds_release vtable).goesTo ?_
  rw [emitted_emitted, emitted_emitted]
  refine works_through wellFormed acquired within _
    (by simp [Instruction.IsPlain, Instruction.IsStraight]) ?_
  simpa [Instruction.NamesBelow, Instruction.registers] using acquired.inRange

theorem succeeds_finishCall
    (within : before.pool.PinnedWithin []) {target : CallTarget} {callee : MethodEntry}
    (found : context.registry.methodEntry? target.method = some callee) (pushed : Nat) :
    Succeeds (finishCall context position target pushed) before fun result after =>
      (callee.returnType ≠ .void → result.isSome) ∧
        Works before after [] [] result.toList result.toList := by
  have popped : Succeeds (if pushed > 0 then emit (.pop pushed) else pure ()) before fun _ after =>
      Works before after [] [] [] [] := by
    split
    · refine (succeeds_emit _).goesTo ?_
      exact works_emitted wellFormed within _ trivial
        (by simp [Instruction.NamesBelow, Instruction.registers])
    · exact .pure (.refl wellFormed within)
  unfold finishCall
  refine popped.bind_if ?_
  intro between pops
  rw [found]
  dsimp only
  by_cases isVoid : callee.returnType = .void
  · rw [if_pos isVoid]
    exact .pure ⟨fun notVoid => absurd isVoid notVoid, pops⟩
  · rw [if_neg isVoid]
    refine (succeeds_produce_acquired pops.wellFormed pops.pinnedWithin
      (by rw [List.length_nil, pops.length_eq]; omega) _).map ?_
    rintro result _ ⟨acquiredState, register, moves, acquired, rfl⟩
    have acquires := Works.of_acquired acquired pops.pinnedWithin
    refine ⟨fun _ => rfl, (pops.trans acquires (by simp)).trans (works_emitted acquires.wellFormed
      acquires.pinnedWithin _ trivial ?_) (by simp)⟩
    simpa [Instruction.NamesBelow, Instruction.registers, acquires.length_eq] using acquired.inRange

end

/-! ## Operands and results -/

section

variable {target : CallTarget} {callee : MethodEntry} {arguments : List Temporary}

/-- A call through an object uses up its operands; it makes a temporary for its result if there is
one. -/
theorem succeeds_generateCall_on (ready : before.Ready)
    (found : context.registry.methodEntry? target.method = some callee) {slot : Nat}
    (isVirtual : target.dispatch = .virtual slot) {receiver : Temporary}
    (areLive : ∀ operand ∈ receiver :: arguments, before.pool.IsLive operand)
    (nodup : (receiver :: arguments).Nodup) :
    Succeeds (generateCall context position target (some (some receiver))
      (arguments.map some)) before fun result after => (callee.returnType ≠ .void → result.isSome) ∧
        Performs before after (receiver :: arguments) result.toList := by
  rcases List.nodup_cons.mp nodup with ⟨notArgument, argumentsNodup⟩
  have enough := ready.enough
  have receiverLive := areLive receiver List.mem_cons_self
  unfold generateCall
  rw [isVirtual]
  refine (succeeds_pushReceiver ready receiverLive).bind ?_
  rintro _ between ⟨rfl, starts⟩
  refine (succeeds_pushArguments starts.wellFormed starts.pinnedWithin
    (by rw [starts.length_eq, List.length_singleton]; omega)
    (fun argument isArgument =>
      starts.isLive (areLive argument (List.mem_cons_of_mem _ isArgument)) List.not_mem_nil)
    argumentsNodup).bind ?_
  rintro _ pushed pushes
  refine (succeeds_spillAllExcept_works pushes.wellFormed pushes.pinnedWithin _).bind ?_
  rintro _ cleared clears
  have early := (starts.trans pushes (by simp)).trans clears (by simp)
  refine (succeeds_callThrough early.wellFormed (early.length_eq ▸ enough) early.pinnedWithin
    (early.isLive receiverLive (by simpa using notArgument)) slot).bind ?_
  rintro _ called calls
  have late := early.trans calls (by simp)
  refine (succeeds_finishCall late.wellFormed (late.length_eq ▸ enough)
    late.pinnedWithin found _).mono ?_
  rintro result after ⟨isThere, finishes⟩
  refine ⟨isThere, (late.trans finishes (by simp)).performs (by simp) fun temporary => ?_⟩
  simp [or_comm]

/-- A call of a static method, or of a method of the current object. -/
theorem succeeds_generateCall_own (ready : before.Ready)
    (found : context.registry.methodEntry? target.method = some callee)
    (hasReceiver : target.dispatch ≠ .static → context.frame.hasReceiver = true)
    (areLive : ∀ argument ∈ arguments, before.pool.IsLive argument) (nodup : arguments.Nodup) :
    Succeeds (generateCall context position target none (arguments.map some)) before
      fun result after => (callee.returnType ≠ .void → result.isSome) ∧
        Performs before after arguments result.toList := by
  have enough := ready.enough
  have finishing {called : Generation} (late : Works before called arguments arguments [] [])
      (pushed : Nat) :
      Succeeds (finishCall context position target pushed) called fun result after =>
        (callee.returnType ≠ .void → result.isSome) ∧
            Performs before after arguments result.toList := by
    refine (succeeds_finishCall late.wellFormed (late.length_eq ▸ enough)
      late.pinnedWithin found _).mono ?_
    rintro result after ⟨isThere, finishes⟩
    exact ⟨isThere, (late.trans finishes (by simp)).performs (by simp) (by simp)⟩
  -- What is pushed first is all that the kinds of calls differ in, besides the instruction that
  -- calls.
  have passing {start : Generation} (starts : Works before start [] [] [] [])
      {rest : Generating (Option Temporary)} {post : Option Temporary → Generation → Prop}
      (goesOn : ∀ cleared, Works before cleared arguments arguments [] [] →
        Succeeds rest cleared post) :
      Succeeds (do
        (arguments.map some).forM (pushArgument position)
        spillAllExcept position []
        rest) start post := by
    refine (succeeds_pushArguments starts.wellFormed starts.pinnedWithin
      (by rw [starts.length_eq, List.length_nil]; omega)
      (fun argument isArgument => starts.isLive (areLive argument isArgument) List.not_mem_nil)
      nodup).bind ?_
    rintro _ pushed pushes
    refine (succeeds_spillAllExcept_works pushes.wellFormed pushes.pinnedWithin _).bind ?_
    rintro _ cleared clears
    exact goesOn cleared (by simpa using (starts.trans pushes (by simp)).trans clears (by simp))
  have calling {cleared : Generation} (late : Works before cleared arguments arguments [] [])
      (pushed : Nat) : Succeeds (do
        emit (.call (context.registry.methodLabel target.method))
        finishCall context position target pushed) cleared fun result after =>
          (callee.returnType ≠ .void → result.isSome) ∧
              Performs before after arguments result.toList := by
    refine (succeeds_emit _).goOn ?_
    have calls := works_emitted late.wellFormed late.pinnedWithin
      (.call (context.registry.methodLabel target.method)) trivial
      (by simp [Instruction.NamesBelow, Instruction.registers])
    exact finishing (by simpa using late.trans calls (by simp)) pushed
  have here := Works.refl ready.wellFormed ready.unpinned
  have withThis (isInstance : target.dispatch ≠ .static) :
      Succeeds (pushThis context position) before fun _ start => Works before start [] [] [] [] :=
    succeeds_pushThis ready.wellFormed ready.unpinned (by rw [List.length_nil]; omega)
      (hasReceiver isInstance)
  unfold generateCall
  cases dispatched : target.dispatch with
  | static => exact passing here fun _ late => calling late _
  | super =>
    refine (withThis (by simp [dispatched])).bind ?_
    rintro _ start starts
    exact passing starts fun _ late => calling late _
  | virtual slot =>
    refine (withThis (by simp [dispatched])).bind ?_
    rintro _ start starts
    refine passing starts fun cleared late => ?_
    refine (succeeds_callThroughThis late.wellFormed (late.length_eq ▸ enough) late.pinnedWithin
      (hasReceiver (by simp [dispatched])) slot).bind ?_
    rintro _ called calls
    exact finishing (by simpa using late.trans calls (by simp)) _

end

/-! ## New objects -/

theorem isPlain_and_registers_objectInit (layout : Layout) (registry : Registry) (owner : ClassId)
    (object scratch : Register) : ∀ instruction ∈ layout.objectInit registry owner object scratch,
      instruction.IsPlain ∧ ∀ register ∈ instruction.registers,
        register = object ∨ register = scratch := by
  have stores (fields : List FieldId) :
      ∀ instruction ∈ layout.storeFields registry object scratch fields,
      instruction.IsPlain ∧ ∀ register ∈ instruction.registers,
      register = object ∨ register = scratch := by
    intro instruction isStore
    rcases List.mem_filterMap.mp isStore with ⟨field, _, storeEq⟩
    rcases Option.map_eq_some_iff.mp storeEq with ⟨offset, _, rfl⟩
    exact ⟨trivial, by simp [Instruction.registers]⟩
  have clears (zero : Instruction) (isPlain : zero.IsPlain)
      (registersEq : zero.registers = [scratch])
      (fields : List FieldId) :
      ∀ instruction ∈ layout.clearFields registry object scratch zero fields,
        instruction.IsPlain ∧ ∀ register ∈ instruction.registers,
        register = object ∨ register = scratch := by
    intro instruction isClear
    unfold Layout.clearFields at isClear
    split at isClear
    · cases isClear
    · rcases List.mem_cons.mp isClear with rfl | isStore
      · exact ⟨isPlain, by simp [registersEq]⟩
      · exact stores fields instruction isStore
  intro instruction isEmitted
  unfold Layout.objectInit at isEmitted
  simp only [List.mem_append] at isEmitted
  rcases isEmitted with (isFirst | isWord) | isDouble
  · simp only [List.mem_cons, List.not_mem_nil, or_false] at isFirst
    rcases isFirst with rfl | rfl | rfl <;> exact ⟨trivial, by simp [Instruction.registers]⟩
  · exact clears (.moveInt scratch 0) trivial rfl _ instruction isWord
  · exact clears (.moveDouble scratch (.zero false)) trivial rfl _ instruction isDouble

theorem succeeds_newObject (ready : before.Ready) {site : Site ExprId} {id : ClassId}
    (bound : context.bindings.symbol? site.id = some (.ofClass id)) :
    Succeeds (newObject context site) before fun result after =>
      Performs before after [] [result] := by
  have enough := ready.enough
  unfold newObject
  rw [bound]
  refine (succeeds_acquire ready.wellFormed ready.unpinned (by rw [List.length_nil]; omega)).bind ?_
  rintro ⟨object, _⟩ between ⟨register, moves, rfl, acquired⟩
  dsimp only at acquired ⊢
  have acquires := Works.of_acquired acquired ready.unpinned
  refine (succeeds_acquire acquires.wellFormed acquires.pinnedWithin
    (by rw [List.length_singleton, acquires.length_eq]; omega)).bind ?_
  rintro ⟨scratch, _⟩ scratchState ⟨scratchRegister, scratchMoves, rfl, scratchAcquired⟩
  dsimp only at scratchAcquired ⊢
  refine (succeeds_emitAll _).goOn ?_
  refine (succeeds_release scratch).goOn ?_
  have block := isPlain_and_registers_objectInit context.layout context.registry
    id (.general register) (.general scratchRegister)
  have fills := works_through acquires.wellFormed scratchAcquired acquires.pinnedWithin _
    (fun instruction isEmitted => (block instruction isEmitted).1) (by
      intro instruction isEmitted index isNamed
      rcases (block instruction isEmitted).2 _ isNamed with same | same
      · cases same
        exact acquires.length_eq ▸ acquired.inRange
      · cases same
        exact scratchAcquired.inRange)
  exact .pure ((acquires.trans fills (by simp)).performs (by simp) (by simp))

end Generating

end Decaf
