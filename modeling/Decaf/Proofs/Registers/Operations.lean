import Decaf.Code.Statement
import Decaf.Proofs.Registers.Steps

/-!
# Registers in the own code of an expression

What each kind of expression does with the values of its operands, and what the parts of an
assignment do.
-/

namespace Decaf

namespace Generating

open Generation

variable {Result : Type} {count : Nat} {facts : String → Option (Set Nat)} {here : Set Temporary}
  {unset : List (Temporary × Nat)} {before : Generation} {position : Position}
  {temporary : Temporary}

/-! ## Values -/

/-- What is in registers when a value is there as well. -/
def having (here : Set Temporary) : Option Temporary → Set Temporary
  | none => here
  | some temporary => insert temporary here

section

variable (count : Nat) (facts : String → Option (Set Nat)) (here : Set Temporary)
  (before : Generation)

/-- The own code of an expression leaves a value in a register, and nothing else. -/
structure Gives (result : Temporary) (after : Generation) : Prop where
  disciplined : after.Disciplined count facts (insert result here) []
  next_le : before.pool.nextTemporary ≤ after.pool.nextTemporary
  made : result.index < after.pool.nextTemporary

/-- The code of an expression leaves its value in a register if it has one, and nothing else. -/
structure Evaluates (value : Option Temporary) (after : Generation) : Prop where
  disciplined : ∃ more, Extends facts more ∧ after.Disciplined count more (having here value) []
  next_le : before.pool.nextTemporary ≤ after.pool.nextTemporary
  made : ∀ temporary, value = some temporary → temporary.index < after.pool.nextTemporary

end

variable {result : Temporary} {between after : Generation} {more : Set Temporary}
  {value left right : Option Temporary}

theorem Gives.of_produce (nextLe : before.pool.nextTemporary ≤ between.pool.nextTemporary)
    (produced : between.Proceeds count facts after ∧ result.index < after.pool.nextTemporary ∧
      after.Disciplined count facts (insert result here) []) :
    Gives count facts here before result after :=
  ⟨produced.2.2, Nat.le_trans nextLe produced.1.next_le, produced.2.1⟩

theorem Gives.evaluates (gives : Gives count facts here before result after) :
    Evaluates count facts here before (some result) after := by
  refine ⟨⟨facts, .refl facts, gives.disciplined⟩, gives.next_le, ?_⟩
  rintro _ ⟨⟩
  exact gives.made

theorem having_subset (subset : here ⊆ more) (value : Option Temporary) :
    having here value ⊆ having more value := by
  cases value with
  | none => exact subset
  | some temporary => exact Set.insert_subset_insert subset

theorem Evaluates.mono
    (evaluates : Evaluates count facts here before value after) (subset : here ⊆ more) :
    Evaluates count facts more before value after := by
  rcases evaluates with ⟨⟨others, isMore, disciplined⟩, nextLe, made⟩
  exact ⟨⟨others, isMore, disciplined.mono (having_subset subset value)⟩, nextLe, made⟩

/-- What comes before an evaluation knows fewer labels and has made fewer temporaries. -/
theorem Evaluates.follow {others : String → Option (Set Nat)}
    (evaluates : Evaluates count others here between value after) (isMore : Extends facts others)
    (nextLe : before.pool.nextTemporary ≤ between.pool.nextTemporary) :
    Evaluates count facts here before value after := by
  rcases evaluates with ⟨⟨more, isStillMore, disciplined⟩, laterLe, made⟩
  exact ⟨⟨more, isMore.trans isStillMore, disciplined⟩, Nat.le_trans nextLe laterLe, made⟩

theorem Evaluates.conclude {step : Generating (Option Temporary)} {start : Generation}
    (evaluates : Whenever step start (Evaluates count facts here before)) :
    Whenever (Generating.conclude step) start (Evaluates count facts here before) := by
  refine evaluates.bind ?_
  rintro value between ⟨⟨more, isMore, disciplined⟩, nextLe, made⟩
  refine succeeds_unpinAll.whenever.goOn ?_
  exact .pure ⟨⟨more, isMore, disciplined.unpinned⟩, nextLe, made⟩

theorem Gives.conclude {step : Generating Temporary}
    (gives : Whenever step before (Gives count facts here before)) :
    Whenever (Generating.conclude (some <$> step)) before (Evaluates count facts here before) :=
  Evaluates.conclude (gives.map fun _ _ => Gives.evaluates)

variable {context : MethodContext}

/-- A temporary is made by an instruction that reads nothing. -/
theorem gives_produce (disciplined : before.Disciplined count facts here [])
    {instruction : Register → Instruction} (fills : Instruction.Fills instruction)
    (noReads : ∀ register, (instruction register).reads = []) :
    Whenever (produce position instruction) before (Gives count facts here before) := by
  refine (disciplined_produce disciplined fills fun register source isRead => ?_).mono fun _ _ =>
    .of_produce (Nat.le_refl _)
  rw [noReads] at isRead
  cases isRead

/-! ## Names -/

theorem gives_readOwnField (disciplined : before.Disciplined count facts here [])
    (field : FieldEntry) :
    Whenever (readOwnField context position field) before (Gives count facts here before) := by
  refine whenever_found fun offset _ => ?_
  split
  · exact gives_produce disciplined (fun _ => ⟨rfl, rfl, rfl⟩) fun _ => rfl
  · refine whenever_found fun slot _ => ?_
    refine (disciplined_acquire disciplined).bind ?_
    rintro ⟨result, _⟩ between ⟨register, inRange, rfl, proceeds, -, made, acquired⟩
    rcases acquired.filled (fun target => .loadStack target slot) (fun _ => ⟨rfl, rfl, rfl⟩)
      inRange nofun with ⟨-, filled, loaded⟩
    refine (succeeds_emit _).whenever.goOn ?_
    refine (succeeds_emit _).whenever.goOn ?_
    refine .pure ⟨loaded.emitted (.loadHeap (.general register) (.general register) offset)
      rfl nofun ?_ ?_, proceeds.next_le, made⟩
    · simpa [Instruction.reads] using filled
    · rintro _ ⟨⟩
      exact inRange

theorem gives_readObjectField {object : Option Temporary}
    (disciplined : before.Disciplined count facts (having here object) [])
    (made : ∀ temporary, object = some temporary → temporary.index < before.pool.nextTemporary)
    (field : FieldEntry) :
    Whenever (readObjectField context position field object) before
      (Gives count facts here before) := by
  refine whenever_found fun offset _ => ?_
  refine whenever_found ?_
  rintro object rfl
  refine (disciplined_load disciplined (Set.mem_insert _ _) (made _ rfl) nofun).bind ?_
  rintro base between ⟨proceeds, isFilled, loaded⟩
  refine (succeeds_release object).whenever.goOn ?_
  refine (disciplined_produce loaded.released (fun _ => ⟨rfl, rfl, rfl⟩) ?_).mono fun _ _ => ?_
  · intro register source isRead
    obtain rfl := List.mem_singleton.mp isRead
    exact isFilled.mono (proceeds_released object)
  · exact .of_produce (proceeds.trans (proceeds_released object)).next_le

theorem gives_readIdentifier (disciplined : before.Disciplined count facts here [])
    (site : Site ExprId) :
    Whenever (readIdentifier context site) before (Gives count facts here before) := by
  unfold readIdentifier
  split
  · refine whenever_found fun slot _ => ?_
    exact gives_produce disciplined (fun _ => ⟨rfl, rfl, rfl⟩) fun _ => rfl
  · refine whenever_found fun field _ => ?_
    exact gives_readOwnField disciplined field
  all_goals exact whenever_fail _ _

theorem gives_readThis (disciplined : before.Disciplined count facts here []) :
    Whenever (readThis context position) before (Gives count facts here before) := by
  refine whenever_found fun slot _ => ?_
  exact gives_produce disciplined (fun _ => ⟨rfl, rfl, rfl⟩) fun _ => rfl

/-! ## Operators -/

theorem gives_literal (disciplined : before.Disciplined count facts here []) (value : Literal) :
    Whenever (produce position value.load) before (Gives count facts here before) := by
  have fills : Instruction.Fills value.load ∧ ∀ register, (value.load register).reads = [] := by
    cases value <;> exact ⟨fun _ => ⟨rfl, rfl, rfl⟩, fun _ => rfl⟩
  exact gives_produce disciplined fills.1 fills.2

theorem gives_applyUnary (disciplined : before.Disciplined count facts (having here value) [])
    (made : ∀ temporary, value = some temporary → temporary.index < before.pool.nextTemporary)
    (opcode : UnaryOpcode) :
    Whenever (applyUnary position opcode value) before (Gives count facts here before) := by
  refine whenever_found ?_
  rintro value rfl
  refine (disciplined_load disciplined (Set.mem_insert _ _) (made _ rfl) nofun).bind ?_
  rintro source between ⟨proceeds, isFilled, loaded⟩
  refine (succeeds_release value).whenever.goOn ?_
  refine (disciplined_produce loaded.released (fun _ => ⟨rfl, rfl, rfl⟩) ?_).mono fun _ _ => ?_
  · intro register other isRead
    obtain rfl := List.mem_singleton.mp isRead
    exact isFilled.mono (proceeds_released value)
  · exact .of_produce (proceeds.trans (proceeds_released value)).next_le

theorem gives_applyBinary
    (disciplined : before.Disciplined count facts (having (having here left) right) [])
    (leftMade : ∀ temporary, left = some temporary → temporary.index < before.pool.nextTemporary)
    (rightMade : ∀ temporary, right = some temporary → temporary.index < before.pool.nextTemporary)
    (opcode : Option BinaryOpcode) :
    Whenever (applyBinary position opcode left right) before (Gives count facts here before) := by
  refine whenever_found ?_
  rintro left rfl
  refine whenever_found ?_
  rintro right rfl
  refine whenever_found fun opcode _ => ?_
  have loads : Whenever (withPool position (RegisterPool.loadPair left right))
      before fun registers after =>
        before.Proceeds count facts after ∧ after.IsFilled count facts registers.1 ∧
          after.IsFilled count facts registers.2 ∧
          after.Disciplined count facts (insert left (insert right here)) [] := by
    refine whenever_withPool fun registers session ran => ?_
    rcases disciplined.orderly.loadPair (leftMade _ rfl) (rightMade _ rfl) ran with
      ⟨orderly, proceeds, leftFilled, rightFilled⟩
    refine ⟨proceeds, leftFilled, rightFilled,
      ⟨orderly.mono ?_, disciplined.fresh, disciplined.loops⟩⟩
    intro other isHere
    simp only [having, Set.mem_insert_iff] at isHere ⊢
    tauto
  refine loads.bind ?_
  rintro ⟨leftRegister, rightRegister⟩ between ⟨proceeds, leftFilled, rightFilled, loaded⟩
  refine (succeeds_release left).whenever.goOn ?_
  refine (succeeds_release right).whenever.goOn ?_
  have releases : between.Proceeds count facts ((between.released left).released right) :=
    (proceeds_released left).trans (proceeds_released right)
  refine (disciplined_produce loaded.released.released (fun _ => ⟨rfl, rfl, rfl⟩) ?_).mono
    fun _ _ => ?_
  · intro register source isRead
    simp only [Instruction.reads, List.mem_cons, List.not_mem_nil, or_false] at isRead
    rcases isRead with rfl | rfl
    · exact leftFilled.mono releases
    · exact rightFilled.mono releases
  · exact .of_produce (proceeds.trans releases).next_le

/-! ## Short circuits -/

/-- Behind the branch no temporary is in a register; the register of the left operand is filled at
the label. -/
theorem disciplined_branchPast (disciplined : before.Disciplined count facts (having here left) [])
    (made : ∀ temporary, left = some temporary → temporary.index < before.pool.nextTemporary)
    (operator : BinaryOperator) :
    Whenever (branchPast position operator left) before fun answer after =>
      ∃ index < count, ∃ more,
        answer.1 = .general index ∧ Extends facts more ∧ more answer.2 = some {index} ∧
        after.Disciplined count more ∅ [] ∧ before.pool.nextTemporary ≤
          after.pool.nextTemporary := by
  refine whenever_found ?_
  rintro left rfl
  refine (disciplined_spillAllExcept disciplined [left]).bind ?_
  rintro _ cleared ⟨clears, onlyLeft⟩
  have alone : cleared.Disciplined count facts (insert left ∅) [] := by
    refine onlyLeft.mono ?_
    rintro other ⟨-, isKept⟩
    exact .inl (List.mem_singleton.mp isKept)
  refine (disciplined_load alone (Set.mem_insert _ _)
    (Nat.lt_of_lt_of_le (made _ rfl) clears.next_le) nofun).bind ?_
  rintro _ between ⟨loads, ⟨index, isFilled, rfl⟩, loaded⟩
  refine whenever_freshLabel.goOnWith ?_
  rcases loaded.extended {index} with ⟨isMore, extended⟩
  have stays : index ∈ filledBehind count
      (Function.update facts (Label.inner between.emitter.nextLabel) (some {index}))
      between.emitter.code.toList := by
    have filledEq := (loaded.orderly.supplies.extend isMore).2
    exact filledEq.symm ▸ isFilled
  have branches : Whenever (emit (if operator = .or then
        .branchIfNonzero (.general index) (Label.inner between.emitter.nextLabel)
      else .branchIfZero (.general index) (Label.inner between.emitter.nextLabel)))
      { between with
        emitter := { between.emitter with nextLabel := between.emitter.nextLabel + 1 } }
      fun _ after =>
        Disciplined count (Function.update facts (Label.inner between.emitter.nextLabel)
          (some {index}))
        (insert left ∅) [] after ∧ between.pool.nextTemporary = after.pool.nextTemporary := by
    have known : ∃ known ⊆ filledBehind count
        (Function.update facts (Label.inner between.emitter.nextLabel) (some {index}))
        between.emitter.code.toList,
        Function.update facts (Label.inner between.emitter.nextLabel) (some {index})
          (Label.inner between.emitter.nextLabel) = some known :=
      ⟨{index}, Set.singleton_subset_iff.mpr stays, Function.update_self _ _ _⟩
    split
    all_goals
      refine (succeeds_emit _).whenever.goesTo ?_
      refine ⟨extended.emitted _ rfl ?_ ?_ nofun, rfl⟩
      · rintro _ ⟨⟩
        exact known
      · intro register isRead
        obtain rfl := List.mem_singleton.mp isRead
        exact ⟨index, stays, rfl⟩
  refine branches.bind ?_
  rintro _ branched ⟨disciplinedBranch, nextEq⟩
  refine (succeeds_release left).whenever.goOn ?_
  refine succeeds_unpinAll.whenever.goOn ?_
  refine .pure ⟨index, ?_, _, rfl, isMore, Function.update_self _ _ _,
    disciplinedBranch.released.unpinned, ?_⟩
  · exact loaded.orderly.supplies.filledBehind_subset isFilled
  · have released : branched.Proceeds count facts (branched.released left) := proceeds_released left
    exact Nat.le_trans clears.next_le
      (Nat.le_trans loads.next_le (Nat.le_trans (Nat.le_of_eq nextEq) released.next_le))

/-- Both ways meet with the register of the left operand filled and no other temporary in a
register. -/
theorem gives_joinRight (disciplined : before.Disciplined count facts (having ∅ right) [])
    (made : ∀ temporary, right = some temporary → temporary.index < before.pool.nextTemporary)
    {index : Nat} (inRange : index < count) {label : String}
      (isKnown : facts label = some {index}) :
    Whenever (joinRight position (.general index) label right) before
      (Gives count facts ∅ before) := by
  refine whenever_found ?_
  rintro right rfl
  refine (disciplined_load disciplined (Set.mem_insert _ _) (made _ rfl) nofun).bind ?_
  rintro source between ⟨proceeds, isFilled, loaded⟩
  have moves : Whenever (if source ≠
      .general index then emit (.move (.general index) source) else pure ()) between
      fun _ after => between.Proceeds count facts after ∧
      after.IsFilled count facts (.general index) ∧
        after.Disciplined count facts (insert right ∅) [] := by
    split
    · refine (succeeds_emit _).whenever.goesTo ?_
      refine ⟨proceeds_emitted rfl, isFilled_emitted rfl rfl, loaded.emitted _ rfl nofun ?_ ?_⟩
      · intro register isRead
        obtain rfl := List.mem_singleton.mp isRead
        exact isFilled
      · rintro _ ⟨⟩
        exact inRange
    next same =>
      obtain rfl := Classical.not_not.mp same
      exact .pure ⟨.refl, isFilled, loaded⟩
  refine moves.bind_if ?_
  rintro moved ⟨proceedsMoved, ⟨_, targetFilled, ⟨⟩⟩, movedDisciplined⟩
  refine (succeeds_release right).whenever.goOn ?_
  refine (succeeds_emit _).whenever.goOn ?_
  have atLabel : ((moved.released right).emitted [.label label]).Disciplined count facts ∅ [] := by
    refine movedDisciplined.released.emitted_alone (.label label) ?_ nofun rfl
    rintro _ (⟨⟨⟩⟩ | ⟨⟨⟩⟩)
    exact ⟨{index}, Set.singleton_subset_iff.mpr targetFilled, isKnown⟩
  have isBehind : index ∈ filledBehind count facts
      ((moved.released right).emitted [.label label]).session.code.toList := by
    rw [session_emitted, Array.toList_push, filledBehind_concat]
    simp [Instruction.leaves, Instruction.isTerminator, Instruction.isCall,
      Instruction.label?, isKnown]
  have nextLe : before.pool.nextTemporary ≤
      ((moved.released right).emitted [.label label]).pool.nextTemporary :=
    ((proceeds.trans proceedsMoved).trans (proceeds_released right)).next_le
  have acquires : Whenever (withPool position (RegisterPool.acquireSpecific index))
      ((moved.released right).emitted [.label label]) fun acquired after =>
        Gives count facts ∅ before acquired.1 after := by
    refine whenever_withPool fun acquired session ran => ?_
    rcases atLabel.orderly.acquireSpecific inRange isBehind ran with
      ⟨orderly, acquiredProceeds, isMade⟩
    refine ⟨⟨orderly.mono ?_, atLabel.fresh, atLabel.loops⟩,
      Nat.le_trans nextLe acquiredProceeds.next_le, isMade⟩
    exact Set.singleton_subset_iff.mpr (Set.mem_insert _ _)
  exact acquires.bind fun _ _ gives => .pure gives

/-! ## New objects -/

/-- A block of instructions that use filled registers only. -/
theorem disciplined_block (disciplined : before.Disciplined count facts here unset)
    (block : List Instruction)
    (each : ∀ instruction ∈ block, instruction.keepsRegisters = true ∧ instruction.target? = none ∧
      (∀ register ∈ instruction.reads, before.IsFilled count facts register) ∧ ∀ index,
      instruction.writes? = some (.general index) → index < count) :
    (before.emitted block).Disciplined count facts here unset ∧
      before.Proceeds count facts (before.emitted block) := by
  induction block generalizing before with
  | nil =>
    rw [emitted_nil]
    exact ⟨disciplined, .refl⟩
  | cons instruction block ih =>
    rcases each instruction List.mem_cons_self with ⟨keeps, noTarget, reads, writes⟩
    have first := disciplined.emitted _ keeps (by simp [noTarget]) reads writes
    have proceeds : before.Proceeds count facts (before.emitted [instruction]) :=
      proceeds_emitted keeps
    have rest := ih first fun other isOther => by
      rcases each other (List.mem_cons_of_mem _ isOther) with ⟨keeps, noTarget, reads, writes⟩
      exact ⟨keeps, noTarget, fun register isRead => (reads register isRead).mono proceeds, writes⟩
    rw [emitted_emitted] at rest
    exact ⟨rest.1, proceeds.trans rest.2⟩

/-- Fields are cleared through the register of the object and one that is filled for this
purpose. -/
theorem uses_clearFields (layout : Layout) (registry : Registry) {object scratch : Register}
    (zero : Register → Instruction) (fills : Instruction.Fills zero)
    (readsNone : (zero scratch).reads = []) (fields : List FieldId) :
    ∀ instruction ∈ layout.clearFields registry object scratch (zero scratch) fields,
      instruction.keepsRegisters = true ∧ instruction.target? = none ∧
        (∀ register ∈ instruction.reads, register = object ∨ register = scratch) ∧
        ∀ register, instruction.writes? = some register → register = scratch := by
  intro instruction isThere
  unfold Layout.clearFields at isThere
  split at isThere
  · cases isThere
  · rcases List.mem_cons.mp isThere with rfl | isStore
    · rcases fills scratch with ⟨keeps, noTarget, writes⟩
      refine ⟨keeps, noTarget, by simp [readsNone], fun register isWritten => ?_⟩
      exact Option.some.inj (isWritten.symm.trans writes)
    · rcases List.mem_filterMap.mp isStore with ⟨field, _, storeEq⟩
      rcases Option.map_eq_some_iff.mp storeEq with ⟨offset, _, rfl⟩
      exact ⟨rfl, rfl, by simp [Instruction.reads], nofun⟩

/-- An object is made once its register and the register for clearing it are there. -/
theorem disciplined_objectInit {object scratch : Temporary} {objectIndex scratchIndex : Nat}
    (disciplined : before.Disciplined count facts (insert scratch (insert object here))
      [(scratch, scratchIndex), (object, objectIndex)])
    (objectLt : objectIndex < count) (scratchLt : scratchIndex < count) (layout : Layout)
    (registry : Registry) (owner : ClassId) :
    (before.emitted (layout.objectInit registry owner (.general objectIndex)
      (.general scratchIndex))).Disciplined count
      facts (insert scratch (insert object here)) [] := by
  unfold Layout.objectInit
  dsimp only
  generalize (layout.instanceFieldsOf owner).partition registry.isDoubleField = fields
  have allocates :=
    disciplined.emitted (.allocate (.general objectIndex) (layout.objectSize owner)) rfl
    nofun nofun (by rintro _ ⟨⟩; exact objectLt)
  have points := allocates.emitted (.moveLabel (.general scratchIndex)
    (Label.vtable (registry.className owner))) rfl nofun nofun (by rintro _ ⟨⟩; exact scratchLt)
  rw [emitted_emitted, List.singleton_append] at points
  have objectFilled : (before.emitted [.allocate (.general objectIndex) (layout.objectSize owner),
      .moveLabel (.general scratchIndex) (Label.vtable (registry.className owner))]).IsFilled
      count facts
        (.general objectIndex) := by
    rw [← List.singleton_append, ← emitted_emitted]
    exact (isFilled_emitted rfl rfl).mono (proceeds_emitted rfl)
  have scratchFilled : (before.emitted [.allocate (.general objectIndex) (layout.objectSize owner),
      .moveLabel (.general scratchIndex) (Label.vtable (registry.className owner))]).IsFilled
      count facts
        (.general scratchIndex) := by
    rw [← List.singleton_append, ← emitted_emitted]
    exact isFilled_emitted rfl rfl
  have clears {instruction : Instruction} (uses : instruction.keepsRegisters = true ∧
      instruction.target? = none ∧
      (∀ register ∈ instruction.reads,
        register = .general objectIndex ∨ register = .general scratchIndex) ∧
      ∀ register, instruction.writes? = some register → register = .general scratchIndex) :
      instruction.keepsRegisters = true ∧ instruction.target? = none ∧
      (∀ register ∈ instruction.reads,
        (before.emitted [.allocate (.general objectIndex) (layout.objectSize owner),
          .moveLabel (.general scratchIndex) (Label.vtable (registry.className owner))]).IsFilled
          count facts register) ∧
      ∀ index, instruction.writes? = some (.general index) → index < count := by
    rcases uses with ⟨keeps, noTarget, reads, writes⟩
    refine ⟨keeps, noTarget, fun register isRead => ?_, fun index isWritten => ?_⟩
    · rcases reads register isRead with rfl | rfl
      · exact objectFilled
      · exact scratchFilled
    · cases writes _ isWritten
      exact scratchLt
  have rest := disciplined_block ((points.set scratchFilled).set objectFilled)
    (.storeHeap (.general objectIndex) 0 (.general scratchIndex) ::
      (layout.clearFields registry (.general objectIndex) (.general scratchIndex)
        (.moveInt (.general scratchIndex) 0)
        fields.2 ++ layout.clearFields registry (.general objectIndex) (.general scratchIndex)
          (.moveDouble (.general scratchIndex) (.zero false)) fields.1))
          (fun instruction isThere => by
      simp only [List.mem_cons, List.mem_append] at isThere
      rcases isThere with rfl | isWord | isDouble
      · exact clears ⟨rfl, rfl, by simp [Instruction.reads], nofun⟩
      · exact clears (uses_clearFields layout registry (fun register => .moveInt register 0)
          (fun _ => ⟨rfl, rfl, rfl⟩) rfl _ instruction isWord)
      · exact clears (uses_clearFields layout registry (fun register =>
          .moveDouble register (.zero false))
            (fun _ => ⟨rfl, rfl, rfl⟩) rfl _ instruction isDouble))
  have whole := rest.1
  rw [emitted_emitted] at whole
  simpa using whole

theorem gives_newObject (disciplined : before.Disciplined count facts here [])
    (site : Site ExprId) :
    Whenever (newObject context site) before (Gives count facts here before) := by
  unfold newObject
  split
  next id _ =>
    refine (disciplined_acquire disciplined).bind ?_
    rintro ⟨object, _⟩ between ⟨objectIndex, objectLt, rfl, early, -, made, objectAcquired⟩
    refine (disciplined_acquire objectAcquired).bind ?_
    rintro ⟨scratch, _⟩ acquired ⟨scratchIndex, scratchLt, rfl, late, -, -, scratchAcquired⟩
    refine (succeeds_emitAll _).whenever.goOn ?_
    refine (succeeds_release scratch).whenever.goOn ?_
    have initialized := disciplined_objectInit scratchAcquired objectLt scratchLt context.layout
      context.registry id
    have releases : Proceeds count facts
        (acquired.emitted (context.layout.objectInit context.registry id
        (.general objectIndex) (.general scratchIndex))) _ := proceeds_released scratch
    exact .pure ⟨initialized.released, Nat.le_trans (early.trans late).next_le releases.next_le,
      Nat.lt_of_lt_of_le made (Nat.le_trans late.next_le releases.next_le)⟩
  all_goals exact whenever_fail _ _

/-! ## Places -/

/-- The temporary that a place needs. -/
def Place.object? : Place → Option Temporary
  | .frame _ | .area _ => none
  | .heap object _ => some object

/-- An object is there for the target of an assignment or a step only if the target asks for one. -/
def FitsTarget (context : MethodContext) (target : Expr) (object : Option Temporary) : Prop :=
  object = none ∨ ∃ site receiver name field, target = .fieldAccess site receiver name ∧
    (context.table.field? site.id).bind context.registry.fieldEntry? = some field ∧
    needsObject field receiver = true

section

variable (count : Nat) (facts : String → Option (Set Nat)) (here : Set Temporary)
  (before : Generation)

/-- A place was found; if it needs an object, that is in a register or was spilled. -/
structure Finds (place : Place) (after : Generation) : Prop where
  disciplined : after.Disciplined count facts (having here (Place.object? place)) []
  next_le : before.pool.nextTemporary ≤ after.pool.nextTemporary
  made : ∀ object, Place.object? place = some object → object.index < after.pool.nextTemporary

end

theorem finds_ownFieldPlace (disciplined : before.Disciplined count facts here [])
    (field : FieldEntry) :
    Whenever (ownFieldPlace context position field) before (Finds count facts here before) := by
  refine whenever_found fun offset _ => ?_
  split
  · exact .pure ⟨disciplined, Nat.le_refl _, nofun⟩
  · refine whenever_found fun slot _ => ?_
    refine (disciplined_produce disciplined (fun _ => ⟨rfl, rfl, rfl⟩) fun _ _ isRead =>
      (List.not_mem_nil isRead).elim).bind ?_
    rintro object after ⟨proceeds, made, produced⟩
    refine .pure ⟨produced, proceeds.next_le, ?_⟩
    rintro _ ⟨⟩
    exact made

theorem finds_place {object : Option Temporary} {target : Expr}
    (fits : FitsTarget context target object)
    (disciplined : before.Disciplined count facts (having here object) [])
    (made : ∀ temporary, object = some temporary → temporary.index < before.pool.nextTemporary) :
    Whenever (place context position target object) before (Finds count facts here before) := by
  unfold place
  split
  next site name =>
    rcases fits with rfl | ⟨_, _, _, _, ⟨⟩, _⟩
    split
    · refine whenever_found fun slot _ => ?_
      exact .pure ⟨disciplined, Nat.le_refl _, nofun⟩
    all_goals
      refine whenever_found fun field _ => ?_
      exact finds_ownFieldPlace disciplined field
  next site receiver name =>
    refine whenever_found fun field found => ?_
    split
    next =>
      refine whenever_found fun offset _ => ?_
      refine whenever_found ?_
      rintro object rfl
      refine .pure ⟨disciplined, Nat.le_refl _, ?_⟩
      rintro _ ⟨⟩
      exact made _ rfl
    next noObject =>
      rcases fits with rfl | ⟨_, _, _, other, ⟨⟩, otherFound, needed⟩
      · exact finds_ownFieldPlace disciplined field
      · obtain rfl := Option.some.inj (found.symm.trans otherFound)
        exact absurd needed noObject
  all_goals exact whenever_fail _ _

/-- Something is read from a place into the register of a temporary that was just made. -/
theorem disciplined_readPlace {place : Place} {old : Temporary} {index : Nat}
    (disciplined : before.Disciplined count facts here [(old, index)]) (inRange : index < count)
    (isHere : ∀ object, Place.object? place = some object → object ∈ here)
    (made : ∀ object, Place.object? place = some object → object.index < before.pool.nextTemporary ∧
      object ≠ old) :
    Whenever (readPlace position (.general index) place) before fun _ after =>
      before.Proceeds count facts after ∧
      after.IsFilled count facts (.general index) ∧ after.Disciplined count facts here [] := by
  cases place with
  | frame slot =>
    refine (succeeds_emit _).whenever.goesTo ?_
    exact disciplined.filled (fun target => .loadStack target slot) (fun _ => ⟨rfl, rfl, rfl⟩)
      inRange nofun
  | area offset =>
    refine (succeeds_emit _).whenever.goesTo ?_
    exact disciplined.filled (fun target => .loadStatic target offset)
      (fun _ => ⟨rfl, rfl, rfl⟩) inRange nofun
  | heap object offset =>
    rcases made object rfl with ⟨objectMade, differs⟩
    refine (disciplined_load disciplined (isHere object rfl) objectMade fun other isUnset =>
      ?_).bind ?_
    · exact differs (Prod.mk.inj (List.mem_singleton.mp isUnset)).1
    rintro base between ⟨proceeds, isFilled, loaded⟩
    refine (succeeds_emit _).whenever.goesTo ?_
    rcases loaded.filled (fun target => .loadHeap target base offset)
      (fun _ => ⟨rfl, rfl, rfl⟩) inRange
      (by simpa [Instruction.reads] using isFilled) with ⟨filling, filled, read⟩
    exact ⟨proceeds.trans filling, filled, read⟩

/-- Something is written to a place, whose object is then given up. -/
theorem disciplined_writePlace {place : Place} {source : Register}
    (disciplined : before.Disciplined count facts (having here (Place.object? place)) [])
    (isFilled : before.IsFilled count facts source)
    (made : ∀ object, Place.object? place = some object →
      object.index < before.pool.nextTemporary) :
    Whenever (writePlace position source place) before fun _ after =>
      before.Proceeds count facts after ∧
      after.Disciplined count facts here [] := by
  cases place with
  | frame slot =>
    refine (succeeds_emit _).whenever.goesTo ?_
    refine ⟨proceeds_emitted rfl,
      disciplined.emitted (.storeStack slot source) rfl (by rintro _ ⟨⟩) ?_ (by rintro _ ⟨⟩)⟩
    simpa [Instruction.reads] using isFilled
  | area offset =>
    refine (succeeds_emit _).whenever.goesTo ?_
    refine ⟨proceeds_emitted rfl,
      disciplined.emitted (.storeStatic offset source) rfl (by rintro _ ⟨⟩) ?_ (by rintro _ ⟨⟩)⟩
    simpa [Instruction.reads] using isFilled
  | heap object offset =>
    refine (disciplined_load disciplined (Set.mem_insert _ _) (made object rfl)
      (by rintro _ ⟨⟩)).bind ?_
    rintro base between ⟨proceeds, baseFilled, loaded⟩
    refine (succeeds_emit _).whenever.goOn ?_
    have writes : (between.emitted [.storeHeap base offset source]).Disciplined count facts
        (insert object here) [] := by
      refine loaded.emitted _ rfl (by rintro _ ⟨⟩) ?_ (by rintro _ ⟨⟩)
      simpa [Instruction.reads] using ⟨baseFilled, isFilled.mono proceeds⟩
    refine (succeeds_release object).whenever.goesTo ?_
    exact ⟨(proceeds.trans (proceeds_emitted rfl)).trans (proceeds_released object),
      writes.released⟩

theorem gives_stepPlace {place : Place}
    (disciplined : before.Disciplined count facts (having here (Place.object? place)) [])
    (made : ∀ object, Place.object? place = some object → object.index < before.pool.nextTemporary)
    (opcode : BinaryOpcode) (isDouble yieldsNew : Bool) :
    Whenever (stepPlace position opcode isDouble yieldsNew place) before
      (Gives count facts here before) := by
  have isHere {more : Set Temporary} (subset : having here (Place.object? place) ⊆ more) :
      ∀ object, Place.object? place = some object → object ∈ more := by
    intro object isObject
    refine subset ?_
    rw [isObject]
    exact Set.mem_insert _ _
  refine (disciplined_acquire disciplined).bind ?_
  rintro ⟨old, _⟩ first ⟨oldIndex, oldLt, rfl, firstProceeds, isNew, oldMade, oldAcquired⟩
  refine (disciplined_readPlace oldAcquired oldLt (isHere (Set.subset_insert _ _))
    fun object isObject => ?_).bind ?_
  · have objectMade := made object isObject
    exact ⟨Nat.lt_of_lt_of_le objectMade firstProceeds.next_le,
      fun same => Nat.not_lt.mpr isNew (same ▸ objectMade)⟩
  rintro _ second ⟨secondProceeds, oldFilled, wasRead⟩
  refine (disciplined_acquire wasRead).bind ?_
  rintro ⟨new, _⟩ third ⟨newIndex, newLt, rfl, thirdProceeds, -, newMade, newAcquired⟩
  have fills : Instruction.Fills (loadOne isDouble) ∧ ∀ register,
      (loadOne isDouble register).reads = [] := by
    cases isDouble <;> exact ⟨fun _ => ⟨rfl, rfl, rfl⟩, fun _ => rfl⟩
  rcases newAcquired.filled _ fills.1 newLt (by simp [fills.2]) with
    ⟨fourthProceeds, newFilled, loaded⟩
  refine (succeeds_emit _).whenever.goOn ?_
  have calculated := loaded.emitted (.binary opcode (.general newIndex) (.general oldIndex)
    (.general newIndex)) rfl nofun
    (by simpa [Instruction.reads] using ⟨oldFilled.mono (thirdProceeds.trans fourthProceeds),
      newFilled⟩)
    (by rintro _ ⟨⟩; exact newLt)
  refine (succeeds_emit _).whenever.goOn ?_
  have fifthProceeds : Proceeds count facts (third.emitted [loadOne isDouble (.general newIndex)])
      ((third.emitted [loadOne isDouble (.general newIndex)]).emitted
        [.binary opcode (.general newIndex) (.general oldIndex) (.general newIndex)]) :=
        proceeds_emitted rfl
  have proceeds :=
    ((firstProceeds.trans secondProceeds).trans (thirdProceeds.trans fourthProceeds)).trans
    fifthProceeds
  have subset : insert new (insert old (having here (Place.object? place))) ⊆
      having (insert new (insert old here)) (Place.object? place) := by
    intro other isHere
    cases objectEq : Place.object? place with
    | none => simpa [having, objectEq] using isHere
    | some object =>
      simp only [having, objectEq, Set.mem_insert_iff] at isHere ⊢
      tauto
  refine (disciplined_writePlace (calculated.mono subset) (newFilled.mono fifthProceeds)
    fun object isObject => Nat.lt_of_lt_of_le (made object isObject) proceeds.next_le).bind ?_
  rintro _ written ⟨writes, disciplinedWritten⟩
  have nextLe := (proceeds.trans writes).next_le
  have late := ((thirdProceeds.trans fourthProceeds).trans fifthProceeds).trans writes
  split
  · refine (succeeds_release old).whenever.goOn ?_
    have releases : written.Proceeds count facts (written.released old) := proceeds_released old
    refine .pure ⟨(disciplinedWritten.mono (Set.insert_comm _ _ _).subset).released,
      Nat.le_trans nextLe releases.next_le, ?_⟩
    exact Nat.lt_of_lt_of_le newMade
      (Nat.le_trans ((fourthProceeds.trans fifthProceeds).trans writes).next_le releases.next_le)
  · refine (succeeds_release new).whenever.goOn ?_
    have releases : written.Proceeds count facts (written.released new) := proceeds_released new
    refine .pure ⟨disciplinedWritten.released, Nat.le_trans nextLe releases.next_le, ?_⟩
    exact Nat.lt_of_lt_of_le oldMade
      (Nat.le_trans secondProceeds.next_le (Nat.le_trans late.next_le releases.next_le))

end Generating

end Decaf
