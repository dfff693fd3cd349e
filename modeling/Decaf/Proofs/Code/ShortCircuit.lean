import Decaf.Proofs.Code.Blocks

/-!
# Branching past an operand

At the branch past the right operand of `&&` or `||` every temporary but the left operand is
spilled. So the right operand's code moves none of them, and on both paths the register of the left
operand holds the result behind it.
-/

namespace Decaf

open RegisterPool (ClearsAllExcept)

/-- Whether the left operand of `&&` or `||` decides about the result; it is a truth value. -/
def BinaryOperator.decides? (operator : BinaryOperator) (left : Word) : Option Bool :=
  match left with
  | .int value => some (if operator = .or then value ≠ 0 else value = 0)
  | _ => none

/-- The branch past the right operand. -/
def BinaryOperator.branch (operator : BinaryOperator) (register : Register) (label : String) :
    Instruction :=
  if operator = .or then .branchIfNonzero register label else .branchIfZero register label

/-- Only these temporaries are in registers. -/
def RegisterPool.ResidentsWithin (pool : RegisterPool) (temporaries : List Temporary) : Prop :=
  ∀ register resident, pool.content? register = some resident → resident.temporary ∈ temporaries

namespace Generation

variable {before between after : Generation} {block moves : List Instruction}
  {used made moved kept : List Temporary}

/-- What comes into a register was moved or made. -/
theorem Emits.residentsWithin (emits : Emits before after block moved)
    (exchanges : before.pool.Exchanges after.pool used made)
    (within : before.pool.ResidentsWithin kept) :
    after.pool.ResidentsWithin (kept ++ moved ++ made) := by
  intro register resident held
  simp only [List.mem_append]
  rcases (exchanges.isLive_iff resident.temporary).mp (.inl ⟨register, resident, held, rfl⟩) with
    ⟨wasLive, _⟩ | isMade
  · rcases wasLive with ⟨place, earlier, wasHeld, same⟩ | ⟨entry, isSpilled, same⟩
    · exact .inl (.inl (same ▸ within place earlier wasHeld))
    · by_cases isMoved : resident.temporary ∈ moved
      · exact .inl (.inr isMoved)
      · have stillSpilled := emits.spilled_keeps entry isSpilled (same ▸ isMoved)
        exact absurd same.symm (emits.wellFormed.resident_not_spilled held stillSpilled)
  · exact .inr isMade

/-- The generation with one more label handed out. -/
def labelTaken (generation : Generation) : Generation :=
  { generation with
    emitter := { generation.emitter with nextLabel := generation.emitter.nextLabel + 1 } }

@[simp]
theorem nextLabel_labelTaken (generation : Generation) :
    generation.labelTaken.emitter.nextLabel = generation.emitter.nextLabel + 1 := rfl

theorem Emits.labelTaken (wellFormed : before.pool.WellFormed) :
    Emits before before.labelTaken [] [] :=
  { Emits.refl wellFormed with nextLabel_le := Nat.le_succ _ }

/-- The left operand of `&&` or `||` is in a register, and the branch past the right one stands. -/
structure Branched (before after : Generation) (operator : BinaryOperator) (left : Temporary)
    (index : Nat) (moves : List Instruction) : Prop where
  emits : Emits before after
    (moves ++ [operator.branch (.general index) (Label.inner before.emitter.nextLabel)]) [left]
  exchanges : before.pool.Exchanges after.pool [left] []
  ready : after.Ready
  vacant : after.pool.ResidentsWithin []
  inRange : index < before.pool.registers.length
  nextLabel_eq : after.emitter.nextLabel = before.emitter.nextLabel + 1
  isPlain : ∀ move ∈ moves, move.IsPlain
  executes : ∀ {primitives machine contents memory}, before.Tracks machine contents memory →
    Machine.Leads (machine.execute primitives moves) (some ()) fun _ last =>
      last.register (.general index) = contents left ∧ after.Tracks last contents memory

/-- The right operand of `&&` or `||` was put where the left one was. -/
structure Joined (before after : Generation) (right : Temporary) (index : Nat) (label : String)
    (result : Temporary) (block : List Instruction) : Prop where
  emits : Emits before after (block ++ [.label label]) [right]
  exchanges : before.pool.Exchanges after.pool [right] [result]
  isPlain : ∀ instruction ∈ block, instruction.IsPlain
  held : ∃ resident, after.pool.content? index = some resident ∧ resident.temporary = result
  executes : ∀ {primitives machine contents memory}, before.Tracks machine contents memory →
    Machine.Leads (machine.execute primitives block) (some ()) fun _ last =>
      last.register (.general index) = contents right ∧
        after.Tracks last (Function.update contents result (contents right)) memory

end Generation

namespace Generating

open Generation

variable {before : Generation} {position : Position}

theorem succeeds_freshLabel : Succeeds freshLabel before fun label after =>
    Label.inner before.emitter.nextLabel = label ∧ before.labelTaken = after :=
  ⟨_, _, rfl, rfl, rfl⟩

theorem namesBelow_branch {operator : BinaryOperator} {index bound : Nat} (inRange : index < bound)
    (label : String) : (operator.branch (.general index) label).NamesBelow bound := by
  unfold BinaryOperator.branch
  split <;> simpa [Instruction.NamesBelow, Instruction.registers] using inRange

theorem succeeds_branchPast (ready : before.Ready) (operator : BinaryOperator) {left : Temporary}
    (isLive : before.pool.IsLive left) :
    Succeeds (branchPast position operator (some left)) before fun answer after => ∃ index moves,
      answer = (.general index, Label.inner before.emitter.nextLabel) ∧
        Branched before after operator left index moves := by
  refine (succeeds_operand rfl position).goOnWith ?_
  refine (succeeds_spillAllExcept ready.wellFormed [left]).bind ?_
  rintro _ clearedState ⟨spillMoves, cleared⟩
  have clearedEmits := cleared.emits
  have enough := ready.enough
  have stillLive : clearedState.pool.IsLive left :=
    (cleared.exchanges.isLive_iff left).mpr (.inl ⟨isLive, by simp⟩)
  have within : clearedState.pool.PinnedWithin [left] :=
    (cleared.pinnedWithin ready.unpinned).mono (by simp)
  refine (succeeds_load clearedEmits.wellFormed stillLive within
    (by rw [clearedEmits.length_eq, List.length_nil]; omega)).bind ?_
  rintro _ loadedState ⟨index, loadMoves, rfl, inRange, isHeld, loaded⟩
  have loadedEmits := clearedEmits.trans loaded.emits
  have sameLabel : loadedState.emitter.nextLabel = before.emitter.nextLabel := by
    rw [loaded.resumed, cleared.resumed]
    rfl
  refine succeeds_freshLabel.goOnWith ?_
  rw [sameLabel]
  have takenEmits := loadedEmits.trans (Emits.labelTaken loadedEmits.wellFormed)
  have branchEmits : Emits loadedState.labelTaken (loadedState.labelTaken.emitted
      [operator.branch (.general index) (Label.inner before.emitter.nextLabel)]) _ [] :=
    .emitted takenEmits.wellFormed (by
      intro instruction isBranch
      rw [List.mem_singleton.mp isBranch]
      exact namesBelow_branch (loaded.emits.length_eq ▸ inRange) _)
  refine (@succeeds_emit loadedState.labelTaken
    (operator.branch (.general index) (Label.inner before.emitter.nextLabel))).goOn ?_
  refine (succeeds_release left).goOn ?_
  refine succeeds_unpinAll.goOn ?_
  have releasedEmits := branchEmits.trans (Emits.released branchEmits.wellFormed left)
  have lateEmits := releasedEmits.trans (Emits.unpinned releasedEmits.wellFormed)
  have allEmits := takenEmits.trans lateEmits
  have exchanges : before.pool.Exchanges _ [left] [] :=
    (cleared.exchanges.keep loaded.exchanges clearedEmits.next_le (by simp)).keep
      (@exchanges_released loadedState loadedEmits.wellFormed left) loadedEmits.next_le (by simp)
  have exchangesUnpinned : before.pool.Exchanges _ [left] [] :=
    ⟨fun temporary => (isLive_unpinned releasedEmits.wellFormed temporary).trans
      (exchanges.isLive_iff temporary), by simp⟩
  refine .pure ⟨index, spillMoves ++ loadMoves, rfl, ?_, exchangesUnpinned, ?_, ?_, ?_, ?_, ?_, ?_⟩
  · have emits : Emits before _ _ [left] := allEmits.narrow fun temporary isMoved =>
      .inl (by simpa using isMoved)
    simpa using emits
  · exact .unpinned_of releasedEmits.wellFormed
      (by rw [releasedEmits.length_eq, takenEmits.length_eq]; exact enough)
  · have onlyLeft : clearedState.pool.ResidentsWithin [left] := fun register resident held =>
      ((cleared.clears.content?_iff register resident).mp held).2
    have onlyLoaded := loaded.emits.residentsWithin loaded.exchanges onlyLeft
    intro register resident held
    have isLiveLast :=
      (exchangesUnpinned.isLive_iff resident.temporary).mp (.inl ⟨register, resident, held, rfl⟩)
    have isLeft := @Emits.residentsWithin loadedState.labelTaken _ _ [left] [] _ _ lateEmits
      ⟨fun temporary => ?_, by simp⟩ onlyLoaded register resident held
    · simp only [List.mem_append, List.mem_singleton, List.not_mem_nil, or_false,
        false_or, or_self] at isLeft
      simp [isLeft] at isLiveLast
    · rw [isLive_unpinned releasedEmits.wellFormed]
      exact (@exchanges_released loadedState loadedEmits.wellFormed left).isLive_iff temporary
  · exact clearedEmits.length_eq ▸ inRange
  · exact congrArg (· + 1) sameLabel
  · intro move isMove
    rcases List.mem_append.mp isMove with isSpill | isLoad
    · exact Instruction.isPlain_of_spillMove (cleared.clears.spillMoves move isSpill)
    · exact Instruction.isPlain_of_spillMove (loaded.brings.spillMoves move isLoad)
  · intro primitives machine contents memory tracks
    rcases @Tracks.cleared _ _ _ _ _ primitives _ _ tracks cleared with ⟨ranSpill, tracksCleared⟩
    rcases @Tracks.loaded _ _ _ _ _ primitives _ _ tracksCleared loaded with ⟨ranLoad, tracksLoaded⟩
    refine .behind ranSpill ⟨_, ranLoad, tracksLoaded.holds.register isHeld, ?_⟩
    have tracksTaken : loadedState.labelTaken.Tracks _ contents memory :=
      ⟨tracksLoaded.holds, tracksLoaded.isShown⟩
    exact ((tracksTaken.emitted _).released branchEmits.wellFormed left).unpinned
      releasedEmits.wellFormed

/-- The only temporary in a register is copied to another register, unless it is there already. -/
theorem succeeds_copy (wellFormed : before.pool.WellFormed) {source target : Nat}
    {value : Temporary} (sourceInRange : source < before.pool.registers.length)
    (targetInRange : target < before.pool.registers.length)
    (isHeld : before.pool.HoldsPinned (.general source) value)
    (within : before.pool.ResidentsWithin [value]) :
    Succeeds (if Register.general source ≠
        .general target then emit (.move (.general target) (.general source))
        else pure ()) before fun _ after => ∃ copy,
        after = before.emitted copy ∧ Emits before after copy [] ∧
      (∀ instruction ∈ copy, instruction.IsPlain) ∧
      ∀ {primitives machine contents memory}, before.Tracks machine contents memory →
        Machine.Leads (machine.execute primitives copy) (some ()) fun _ last =>
          last.register (.general target) = contents value ∧
            before.Tracks last contents memory := by
  by_cases same : source = target
  · subst same
    rw [if_neg (by simp)]
    refine .pure ⟨[], before.emitted_nil.symm, .refl wellFormed, by simp, ?_⟩
    intro primitives machine contents memory tracks
    exact ⟨machine, rfl, tracks.holds.register isHeld, tracks⟩
  · rw [if_pos (by simpa using same)]
    have vacant : before.pool.content? target = none := by
      refine Option.eq_none_iff_forall_ne_some.mpr fun resident held => ?_
      rcases isHeld with ⟨index, other, indexEq, otherHeld, otherIs, _⟩
      cases indexEq
      have isValue := List.mem_singleton.mp (within target resident held)
      exact same (wellFormed.resident_unique otherHeld held (otherIs.trans isValue.symm))
    refine (succeeds_emit _).goesTo ?_
    refine ⟨_, rfl, .emitted wellFormed ?_,
      by simp [Instruction.IsPlain, Instruction.IsStraight], ?_⟩
    · simp [Instruction.NamesBelow, Instruction.registers, sourceInRange, targetInRange]
    · intro primitives machine contents memory tracks
      refine ⟨machine.put (.general target) (contents value), ?_, by simp,
        tracks.put_vacant vacant _⟩
      simp [Machine.effect, tracks.holds.register isHeld]

/-- The code behind a right operand if it is the only temporary in a register. -/
theorem succeeds_joinRight (ready : before.Ready) {right : Temporary}
    (isLive : before.pool.IsLive right) (within : before.pool.ResidentsWithin [right]) {index : Nat}
    (inRange : index < before.pool.registers.length) (label : String) :
    Succeeds (joinRight position (.general index) label (some right)) before
      fun result after => ∃ block, Joined before after right index label result block := by
  refine (succeeds_operand rfl position).goOnWith ?_
  refine (succeeds_load_first ready isLive).bind ?_
  rintro _ loadedState ⟨source, moves, rfl, sourceInRange, isHeld, loaded⟩
  have onlyRight : loadedState.pool.ResidentsWithin [right] := by
    intro register resident held
    simpa using loaded.emits.residentsWithin loaded.exchanges within register resident held
  refine (succeeds_copy loaded.emits.wellFormed (loaded.emits.length_eq ▸ sourceInRange)
    (loaded.emits.length_eq ▸ inRange) isHeld onlyRight).bind_if ?_
  rintro _ ⟨copy, rfl, copyEmits, copyPlain, copied⟩
  refine (succeeds_release right).goOn ?_
  refine (succeeds_emit _).goOn ?_
  have releasedEmits := @Emits.released (loadedState.emitted copy) copyEmits.wellFormed right
  have labelEmits : Emits _
      (((loadedState.emitted copy).released right).emitted [.label label]) _ [] :=
    .emitted releasedEmits.wellFormed (by simp [Instruction.NamesBelow, Instruction.registers])
  have behindEmits := (loaded.emits.trans copyEmits).trans (releasedEmits.trans labelEmits)
  have vacant : (((loadedState.emitted copy).released right).emitted [.label label]).pool.content?
      index = none := by
    refine Option.eq_none_iff_forall_ne_some.mpr fun resident held => ?_
    have kept :=
      ((releases_released copyEmits.wellFormed right).content?_iff index resident).mp held
    exact kept.2 (List.mem_singleton.mp (onlyRight index resident kept.1))
  refine (succeeds_acquireSpecific behindEmits.wellFormed (behindEmits.length_eq ▸ inRange)
    vacant).bind ?_
  rintro ⟨result, _⟩ after acquired
  dsimp only at acquired ⊢
  have given : before.pool.Exchanges ((loadedState.emitted copy).released right).pool
      ([] ++ [right]) ([] ++ []) :=
    loaded.exchanges.keep (exchanges_released copyEmits.wellFormed right)
      loaded.emits.next_le (by simp)
  refine .pure ⟨moves ++ copy, ?_, ?_, ?_, ?_, ?_⟩
  · have emits : Emits before after _ [right] := (behindEmits.trans acquired.emits).narrow
      fun temporary isMoved => .inl (by simpa using isMoved)
    simpa using emits
  · have made : before.pool.Exchanges after.pool _ _ := given.keep acquired.produces.exchanges
      (Nat.le_trans loaded.emits.next_le (Nat.le_trans copyEmits.next_le releasedEmits.next_le))
      (by simp)
    simpa using made
  · intro instruction isEmitted
    rcases List.mem_append.mp isEmitted with isMove | isCopy
    · exact Instruction.isPlain_of_spillMove (loaded.brings.spillMoves instruction isMove)
    · exact copyPlain instruction isCopy
  · exact ⟨_, (acquired.produces.content?_eq index).trans (if_pos rfl), rfl⟩
  · intro primitives machine contents memory tracks
    rcases @Tracks.loaded _ _ _ _ _ primitives _ _ tracks loaded with ⟨ranLoad, tracksLoaded⟩
    refine .behind ranLoad ((@copied primitives _ _ _ tracksLoaded).mono ?_)
    rintro _ last - ⟨word, tracksCopied⟩
    have tracksLast :=
      ((tracksCopied.emitted copy).released copyEmits.wellFormed right).emitted [.label label]
    have tracksResult := tracksLast.acquired_register acquired
    rw [show last.moved [] = last from rfl, word] at tracksResult
    exact ⟨word, tracksResult⟩

end Generating

namespace Running

variable {primitives : Primitives} {code : List Instruction} {counter : Nat} {machine : Machine}

theorem next?_branch {operator : BinaryOperator} {register : Register} {name : String}
    (found : code[counter]? = some (operator.branch register name)) :
    next? primitives code ⟨counter, machine⟩ =
      (operator.decides? (machine.register register)).bind fun decides =>
        if decides then goTo code ⟨counter, machine⟩ name else some ⟨counter + 1, machine⟩ := by
  unfold next?
  rw [found]
  unfold BinaryOperator.branch BinaryOperator.decides?
  by_cases isOr : operator = .or
  · simp only [isOr, if_true, branch]
    cases machine.register register with
    | int value => by_cases isZero : value = 0 <;> simp [isZero]
    | _ => rfl
  · simp only [isOr, if_false, branch]
    cases machine.register register with
    | int value => by_cases isZero : value = 0 <;> simp [isZero]
    | _ => rfl

end Running

/-- One word as the outcome of a block. -/
def Generation.Calculation.single (calculation : Generation.Calculation Word) :
    Generation.Calculation (List Word) :=
  fun primitives memory => (calculation primitives memory).map fun outcome =>
    ([outcome.1], outcome.2)

/-- What `&&` and `||` calculate. -/
def BinaryOperator.shortCircuit (operator : BinaryOperator)
    (left right : Generation.Calculation Word) :
    Generation.Calculation Word := fun primitives memory =>
  (left primitives memory).bind fun outcome =>
    (operator.decides? outcome.1).bind fun decides =>
      if decides then some outcome else right primitives outcome.2

namespace Generation

variable {before leftState branchState rightState after : Generation} {operator : BinaryOperator}
  {left right result : Temporary} {index : Nat}
  {leftBlock moves rightBlock joinBlock : List Instruction}

section

variable (branched : Branched leftState branchState operator left index moves)
  (delivers : Delivers branchState rightState rightBlock [right])
  (joined : Joined rightState after right index (Label.inner leftState.emitter.nextLabel)
    result joinBlock)
include branched delivers joined

theorem exchanges_shortCircuit : branchState.pool.Exchanges after.pool [] [result] :=
  delivers.exchanges.consume joined.exchanges branched.ready.wellFormed delivers.emits.next_le

/-- On the path past the right operand nothing is moved. -/
theorem tracks_past {machine : Machine} {contents : Temporary → Word} {memory : Memory}
    (tracks : branchState.Tracks machine contents memory) {word : Word}
    (inRegister : machine.register (.general index) = word) :
    after.Tracks machine (Function.update contents result word) memory := by
  have exchanges := exchanges_shortCircuit branched delivers joined
  have emits : Emits branchState after _ [] :=
    (delivers.emits.trans joined.emits).narrow fun temporary isMoved =>
      .inr fun isLive =>
        Nat.not_lt.mpr (delivers.exchanges.fresh temporary (by simpa using isMoved))
          (branched.ready.wellFormed.lt_of_isLive isLive)
  have onlyResult := emits.residentsWithin exchanges branched.vacant
  rcases joined.held with ⟨atIndex, held, isResult⟩
  have wellFormed := emits.wellFormed
  refine ⟨⟨?_, ?_⟩, emits.base_eq ▸ tracks.isShown⟩
  · intro register resident otherHeld
    have same : resident.temporary = result := by simpa using onlyResult register resident otherHeld
    rw [same, Function.update_self, ← inRegister,
      wellFormed.resident_unique otherHeld held (same.trans isResult.symm)]
    rfl
  · intro entry isSpilled
    have notResult : entry.temporary ≠ result := by
      rw [← isResult]
      exact (wellFormed.resident_not_spilled held isSpilled).symm
    have wasLive : branchState.pool.IsLive entry.temporary := by
      have isLive := (exchanges.isLive_iff entry.temporary).mp (.inr ⟨entry, isSpilled, rfl⟩)
      simpa [notResult] using isLive
    rcases wasLive with ⟨register, resident, wasHeld, _⟩ | ⟨earlier, wasSpilled, same⟩
    · exact absurd (branched.vacant register resident wasHeld) List.not_mem_nil
    · have stillSpilled := emits.spilled_keeps earlier wasSpilled List.not_mem_nil
      cases List.inj_on_of_nodup_map wellFormed.spilled_nodup stillSpilled isSpilled same
      rw [Function.update_of_ne notResult, emits.base_eq]
      exact tracks.holds.spilled wasSpilled

end

section

variable (wellFormed : before.pool.WellFormed)
  (leftDelivers : Delivers before leftState leftBlock [left])
  (branched : Branched leftState branchState operator left index moves)
  (delivers : Delivers branchState rightState rightBlock [right])
  (joined : Joined rightState after right index (Label.inner leftState.emitter.nextLabel)
    result joinBlock)
include wellFormed leftDelivers branched delivers joined

theorem delivers_shortCircuit :
    Delivers before after.unpinned
      (leftBlock ++
        ((moves ++ [operator.branch (.general index) (Label.inner leftState.emitter.nextLabel)]) ++
        rightBlock ++ (joinBlock ++ [.label (Label.inner leftState.emitter.nextLabel)])))
          [result] where
  emits := by
    have emits :=
      leftDelivers.emits.trans ((branched.emits.trans delivers.emits).trans joined.emits)
    have all := emits.trans (Emits.unpinned emits.wellFormed)
    rw [List.append_nil] at all
    refine all.narrow fun temporary isMoved => .inr fun isLive => ?_
    have isOld := wellFormed.lt_of_isLive isLive
    have leftLe := leftDelivers.emits.next_le
    have branchLe := branched.emits.next_le
    have leftFresh := leftDelivers.exchanges.fresh
    have rightFresh := delivers.exchanges.fresh
    simp only [List.nil_append, List.append_nil, List.mem_append,
      List.mem_singleton] at isMoved leftFresh rightFresh
    rcases isMoved with rfl | rfl
    · have := leftFresh _ rfl
      omega
    · have := rightFresh _ rfl
      omega
  exchanges := by
    have given := leftDelivers.exchanges.consume branched.exchanges wellFormed
      leftDelivers.emits.next_le
    have made := given.keep (exchanges_shortCircuit branched delivers joined)
      (Nat.le_trans leftDelivers.emits.next_le branched.emits.next_le) (by simp)
    exact ⟨fun temporary => (isLive_unpinned joined.emits.wellFormed temporary).trans
      (made.isLive_iff temporary), made.fresh⟩
  nodup := List.nodup_singleton _
  ready := by
    refine .unpinned_of joined.emits.wellFormed ?_
    rw [joined.emits.length_eq]
    exact delivers.ready.enough
  labelled := by
    have branchLe := delivers.emits.nextLabel_le
    have joinLe := joined.emits.nextLabel_le
    rw [branched.nextLabel_eq] at branchLe
    refine leftDelivers.labelled.append ?_ leftDelivers.emits.nextLabel_le
      (Nat.le_trans branched.emits.nextLabel_le (Nat.le_trans delivers.emits.nextLabel_le joinLe))
    rw [← List.append_assoc]
    refine Labelled.insert ?_ (Nat.lt_of_lt_of_le branchLe joinLe)
    rw [List.append_nil]
    have branch : Labelled (leftState.emitter.nextLabel + 1) (leftState.emitter.nextLabel + 1)
        [Label.inner leftState.emitter.nextLabel]
        [operator.branch (.general index) (Label.inner leftState.emitter.nextLabel)] := by
      refine .jump ?_ _ ?_
      · unfold BinaryOperator.branch
        split <;> rfl
      · unfold BinaryOperator.branch
        intro name isTarget
        split at isTarget <;> simpa [Instruction.target?, eq_comm] using isTarget
    have front :=
      (Labelled.of_isPlain branched.isPlain).append branch (Nat.le_refl _) (Nat.le_refl _)
    have rightLabels :=
      delivers.labelled.mono (Nat.le_of_eq branched.nextLabel_eq.symm) (Nat.le_refl _)
        (List.nil_subset [Label.inner leftState.emitter.nextLabel])
    exact (front.append rightLabels (Nat.le_refl _) branchLe).append (.of_isPlain joined.isPlain)
      branchLe joinLe

/-- Both paths get to the label behind the right operand, and there the result stands for the same
word. -/
theorem simulates_shortCircuit {leftValue rightValue : Calculation Word}
    (leftSimulates : Simulates before leftState leftBlock [left] leftValue.single)
    (rightSimulates : Simulates branchState rightState rightBlock [right] rightValue.single) :
    Simulates before after.unpinned
      (leftBlock ++
        ((moves ++ [operator.branch (.general index) (Label.inner leftState.emitter.nextLabel)]) ++
        rightBlock ++ (joinBlock ++ [.label (Label.inner leftState.emitter.nextLabel)]))) [result]
      (operator.shortCircuit leftValue rightValue).single := by
  have liveMiddle : ∀ temporary, before.pool.IsLive temporary → leftState.pool.IsLive temporary :=
    fun temporary isLive => (leftDelivers.exchanges.isLive_iff temporary).mpr
      (.inl ⟨isLive, List.not_mem_nil⟩)
  have liveBranch : ∀ temporary, before.pool.IsLive temporary →
      branchState.pool.IsLive temporary := by
    intro temporary isLive
    refine (branched.exchanges.isLive_iff temporary).mpr
      (.inl ⟨liveMiddle temporary isLive, fun isLeft => ?_⟩)
    exact Nat.not_lt.mpr (leftDelivers.exchanges.fresh temporary isLeft)
      (wellFormed.lt_of_isLive isLive)
  have notResult : ∀ temporary, before.pool.IsLive temporary → temporary ≠ result := by
    rintro _ isLive rfl
    exact Nat.not_lt.mpr ((exchanges_shortCircuit branched delivers joined).fresh _
      (List.mem_singleton_self _)) (branched.ready.wellFormed.lt_of_isLive (liveBranch _ isLive))
  intro primitives code first machine contents memory placed distinct tracks
  have placedMoves := placed.right.left.left.left
  have branchFound := placed.right.left.left.right.head
  have placedRight := placed.right.left.right
  have placedJoin := placed.right.right.left
  have labelFound := placed.right.right.right.head
  generalize lastEq : first + _ = final
  simp only [List.length_append, List.length_singleton, ← Nat.add_assoc]
    at placedRight placedJoin labelFound lastEq
  have labelNext : ∀ last, Running.next? primitives code
      ⟨first + leftBlock.length + moves.length + 1 + rightBlock.length + joinBlock.length, last⟩ =
        some ⟨final, last⟩ := by
    intro last
    rw [Running.next?_of_isStraight labelFound trivial, ← lastEq]
    rfl
  change Running.Arrives _ _ _ _ (((leftValue primitives memory).bind _).map _) _
  rw [Option.map_bind]
  refine (leftSimulates _ _ _ _ _ _ placed.left distinct tracks).of_map.bind (by omega) ?_
  rintro ⟨word, middle⟩ leftLast _ ⟨others, same, wordEq, tracksLeft⟩
  have isWord : others left = word := by simpa using wordEq
  have moved := Running.arrives_of_straight (fun instruction isMove =>
    (branched.isPlain instruction isMove).isStraight)
    placedMoves (@branched.executes primitives _ _ _ tracksLeft)
  rcases moved with ⟨branchLast, reaches, inRegister, tracksBranch⟩
  refine .of_reaches reaches ?_
  have branchNext := @Running.next?_branch primitives code _ branchLast _ _ _ branchFound
  rw [inRegister, isWord] at branchNext
  dsimp only [Function.comp]
  cases decision : operator.decides? word with
  | none =>
    rw [decision, Option.bind_none] at branchNext
    exact .stuck (by dsimp only; omega) branchNext
  | some decides =>
    rw [decision, Option.bind_some] at branchNext
    rw [Option.bind_some]
    cases decides with
    | true =>
      rw [if_pos rfl, Running.goTo_eq distinct labelFound] at branchNext
      refine .step branchNext
        (.step (labelNext _) (.here ⟨Function.update others result word, ?_, ?_, ?_⟩))
      · intro temporary isLive
        rw [Function.update_of_ne (notResult temporary isLive), same temporary isLive]
      · simp
      · have tracksPast :=
          tracks_past branched delivers joined tracksBranch (inRegister.trans isWord)
        exact tracksPast.unpinned joined.emits.wellFormed
    | false =>
      rw [if_neg Bool.false_ne_true] at branchNext
      rw [if_neg Bool.false_ne_true]
      refine .step branchNext ?_
      refine (rightSimulates _ _ _ _ _ _ placedRight distinct tracksBranch).of_map.onward
        (by omega) ?_
      rintro ⟨value, later⟩ rightLast ⟨finals, sameFinals, valueEq, tracksRight⟩
      have isValue : finals right = value := by simpa using valueEq
      have copied := Running.arrives_of_straight (fun instruction isCopy =>
        (joined.isPlain instruction isCopy).isStraight) placedJoin
          (@joined.executes primitives _ _ _ tracksRight)
      rcases copied with ⟨joinLast, reachesJoin, _, tracksJoin⟩
      refine .of_reaches reachesJoin (.step (labelNext _) (.here ⟨_, ?_, ?_,
        tracksJoin.unpinned joined.emits.wellFormed⟩))
      · intro temporary isLive
        rw [Function.update_of_ne (notResult temporary isLive),
          sameFinals temporary (liveBranch temporary isLive), same temporary isLive]
      · simp [isValue]

end

end Generation

end Decaf
