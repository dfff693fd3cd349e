import Decaf.Proofs.Registers.Operations

/-!
# Registers around calls

All temporaries are spilled before a call, except for the object whose method is looked for, which
is given up before the call too. Behind the call no register counts as filled until the result is
fetched.
-/

namespace Decaf

namespace Generating

open Generation

variable {count : Nat} {facts : String → Option (Set Nat)} {here : Set Temporary}
  {before : Generation} {position : Position} {context : MethodContext}
variable {arguments : List (Option Temporary)}

/-! ## Pushing -/

theorem disciplined_push {register : Register}
    (disciplined : before.Disciplined count facts here [])
    (isFilled : before.IsFilled count facts register) :
    (before.emitted [.push register]).Disciplined count facts here [] := by
  refine disciplined.emitted _ rfl nofun ?_ nofun
  intro source isRead
  obtain rfl := List.mem_singleton.mp isRead
  exact isFilled

theorem disciplined_pushThis (disciplined : before.Disciplined count facts here []) :
    Whenever (pushThis context position) before fun _ after =>
      before.Proceeds count facts after ∧ after.Disciplined count facts here [] := by
  refine whenever_found fun slot _ => ?_
  refine (disciplined_acquire disciplined).bind ?_
  rintro ⟨object, _⟩ between ⟨index, inRange, rfl, proceeds, -, -, acquired⟩
  rcases acquired.filled (fun target => .loadStack target slot) (fun _ => ⟨rfl, rfl, rfl⟩)
    inRange nofun with ⟨filling, filled, loaded⟩
  refine (succeeds_emit _).whenever.goOn ?_
  refine (succeeds_emit _).whenever.goOn ?_
  refine (succeeds_release object).whenever.goesTo ?_
  exact ⟨((proceeds.trans filling).trans (proceeds_emitted rfl)).trans (proceeds_released object),
    (disciplined_push loaded filled).released⟩

theorem disciplined_pushArgument {argument : Option Temporary}
    (disciplined : before.Disciplined count facts Set.univ [])
    (made : ∀ temporary, argument = some temporary → temporary.index < before.pool.nextTemporary) :
    Whenever (pushArgument position argument) before fun _ after =>
      before.Proceeds count facts after ∧ after.Disciplined count facts Set.univ [] := by
  refine whenever_found ?_
  rintro argument rfl
  refine (disciplined_load disciplined (Set.mem_univ _) (made _ rfl) nofun).bind ?_
  rintro register between ⟨proceeds, isFilled, loaded⟩
  refine (succeeds_emit _).whenever.goOn ?_
  refine (succeeds_release argument).whenever.goesTo ?_
  exact ⟨(proceeds.trans (proceeds_emitted rfl)).trans (proceeds_released argument),
    ((disciplined_push loaded isFilled).mono (Set.subset_insert argument _)).released⟩

theorem disciplined_pushArguments (disciplined : before.Disciplined count facts Set.univ [])
    (made : ∀ temporary, some temporary ∈ arguments → temporary.index < before.pool.nextTemporary) :
    Whenever (arguments.forM (pushArgument position)) before fun _ after =>
      before.Proceeds count facts after ∧ after.Disciplined count facts Set.univ [] := by
  induction arguments generalizing before with
  | nil => exact .pure ⟨.refl, disciplined⟩
  | cons argument rest ih =>
    refine Whenever.bind (disciplined_pushArgument disciplined fun temporary isArgument => ?_) ?_
    · exact made temporary (isArgument ▸ List.mem_cons_self)
    rintro _ between ⟨proceeds, pushed⟩
    refine (ih pushed fun temporary isArgument => ?_).mono fun _ after => ?_
    · exact Nat.lt_of_lt_of_le (made temporary (List.mem_cons_of_mem _ isArgument)) proceeds.next_le
    · rintro ⟨later, last⟩
      exact ⟨proceeds.trans later, last⟩

theorem disciplined_pushReceiver {receiver : Option Temporary}
    (disciplined : before.Disciplined count facts Set.univ [])
    (made : ∀ temporary, receiver = some temporary → temporary.index < before.pool.nextTemporary) :
    Whenever (pushReceiver position receiver) before fun result after =>
      receiver = some result ∧ before.Proceeds count facts after ∧
        after.Disciplined count facts Set.univ [] := by
  refine whenever_found ?_
  rintro receiver rfl
  refine (disciplined_load disciplined (Set.mem_univ _) (made _ rfl) nofun).bind ?_
  rintro register between ⟨proceeds, isFilled, loaded⟩
  refine (succeeds_emit _).whenever.goOn ?_
  exact .pure ⟨rfl, proceeds.trans (proceeds_emitted rfl), disciplined_push loaded isFilled⟩

/-! ## Calling -/

/-- The code ends with a call, and no temporary is in a register. -/
structure Calls (count : Nat) (facts : String → Option (Set Nat)) (before after : Generation) :
    Prop where
  disciplined : after.Disciplined count facts ∅ []
  ends : ∃ front call, call.isCall = true ∧ after.emitter.code.toList = front ++ [call]
  next_le : before.pool.nextTemporary ≤ after.pool.nextTemporary

theorem calls_emitted {unset : List (Temporary × Nat)}
    (disciplined : before.Disciplined count facts ∅ unset) (call : Instruction)
    (isCall : call.isCall = true)
    (reads : ∀ register ∈ call.reads, before.IsFilled count facts register) :
    Calls count facts before (before.emitted [call]) := by
  have plain : call.label? = none ∧ call.target? = none ∧ call.writes? = none := by
    cases call <;> first | exact ⟨rfl, rfl, rfl⟩ | cases isCall
  refine ⟨disciplined.emitted_alone _ ?_ reads plain.2.2,
    ⟨before.emitter.code.toList, call, isCall, ?_⟩, Nat.le_refl _⟩
  · intro name isNamed
    simp [plain.1, plain.2.1] at isNamed
  · simp [emitted, Emitter.append]

theorem calls_callThrough {receiver : Temporary}
    (disciplined : before.Disciplined count facts {receiver} [])
    (made : receiver.index < before.pool.nextTemporary) (slot : Nat) :
    Whenever (callThrough position receiver slot) before fun _ after =>
      Calls count facts before after := by
  refine (disciplined_load disciplined (Set.mem_singleton _) made nofun).bind ?_
  rintro base loadedState ⟨loads, baseFilled, loaded⟩
  refine (succeeds_release receiver).whenever.goOn ?_
  have alone := (loaded.mono (Set.singleton_subset_iff.mpr (Set.mem_insert receiver ∅))).released
  refine (disciplined_acquire alone).bind ?_
  rintro ⟨vtable, _⟩ acquiredState ⟨index, inRange, rfl, acquires, -, -, acquired⟩
  rcases acquired.filled (fun target => .loadHeap target base 0) (fun _ => ⟨rfl, rfl, rfl⟩) inRange
    (by simpa [Instruction.reads] using baseFilled.mono ((proceeds_released receiver).trans
      acquires)) with
    ⟨filling, filled, found⟩
  refine (succeeds_emit _).whenever.goOn ?_
  refine (succeeds_emit _).whenever.goOn ?_
  refine (succeeds_release vtable).whenever.goesTo ?_
  -- the vtable is given up behind the call, which makes no difference to the code
  have calls := calls_emitted found.released (.callVirtual (.general index) slot) rfl
    (by simpa [Instruction.reads] using filled.mono (proceeds_released vtable))
  have early := ((loads.trans (proceeds_released receiver)).trans (acquires.trans filling)).trans
    (proceeds_released vtable)
  exact ⟨calls.disciplined, calls.ends, Nat.le_trans early.next_le calls.next_le⟩

theorem calls_callThroughThis (disciplined : before.Disciplined count facts ∅ []) (slot : Nat) :
    Whenever (callThroughThis context position slot) before fun _ after =>
      Calls count facts before after := by
  refine whenever_found fun frameSlot _ => ?_
  refine (disciplined_acquire disciplined).bind ?_
  rintro ⟨vtable, _⟩ acquiredState ⟨index, inRange, rfl, acquires, -, -, acquired⟩
  rcases acquired.filled (fun target => .loadStack target frameSlot)
    (fun _ => ⟨rfl, rfl, rfl⟩) inRange nofun with ⟨filling, filled, loaded⟩
  refine (succeeds_emit _).whenever.goOn ?_
  have found := loaded.emitted (.loadHeap (.general index) (.general index) 0) rfl nofun
    (by simpa [Instruction.reads] using filled) (by rintro _ ⟨⟩; exact inRange)
  refine (succeeds_emit _).whenever.goOn ?_
  refine (succeeds_emit _).whenever.goOn ?_
  refine (succeeds_release vtable).whenever.goesTo ?_
  have stays : Proceeds count facts (acquiredState.emitted [.loadStack (.general index) frameSlot])
      (((acquiredState.emitted [.loadStack (.general index) frameSlot]).emitted
        [.loadHeap (.general index) (.general index) 0]).released vtable) :=
    (proceeds_emitted rfl).trans (proceeds_released vtable)
  have calls := calls_emitted found.released (.callVirtual (.general index) slot) rfl
    (by simpa [Instruction.reads] using filled.mono stays)
  exact ⟨calls.disciplined, calls.ends,
    Nat.le_trans ((acquires.trans filling).trans stays).next_le calls.next_le⟩

/-- The result is fetched from its register right away: no temporary has to be spilled for it. -/
theorem gives_result (disciplined : before.Disciplined count facts ∅ [])
    (ends : EndsInCall before.emitter.code.toList) :
    Whenever (produce position fun register => .move register .result) before
      (Gives count facts ∅ before) := by
  have acquires : Whenever (acquire position) before fun acquired after =>
      after.emitter.code = before.emitter.code ∧
      ∃ register < count, acquired.2 = .general register ∧ before.Proceeds count facts after ∧
        acquired.1.index < after.pool.nextTemporary ∧
        after.Disciplined count facts (insert acquired.1 ∅) [(acquired.1, register)] := by
    refine whenever_withPool fun acquired session ran => ?_
    rcases disciplined.orderly.acquire ran with
      ⟨register, inRange, isRegister, proceeds, -, made, orderly⟩
    exact ⟨disciplined.orderly.code_acquire_alone ran, register, inRange, isRegister,
      proceeds, made, orderly, disciplined.fresh, disciplined.loops⟩
  refine acquires.bind ?_
  rintro ⟨result, _⟩ between ⟨codeEq, index, inRange, rfl, proceeds, made, acquired⟩
  refine (succeeds_emit _).whenever.goOn ?_
  have moved : (between.emitted [.move (.general index) .result]).Disciplined
      count facts (insert result ∅) [(result, index)] := by
    refine ⟨?_, acquired.fresh, acquired.loops⟩
    rw [session_emitted]
    refine acquired.orderly.emitted _ ⟨by simp [Instruction.reads], ?_, ?_⟩
      (fun _ => ⟨⟨_, rfl⟩, ?_⟩) fun _ isFilled => ?_
    · rintro _ ⟨⟩
      exact inRange
    · rintro _ (⟨⟨⟩⟩ | ⟨⟨⟩⟩)
    · change EndsInCall between.emitter.code.toList
      rw [codeEq]
      exact ends
    · rw [leaves_of_keepsRegisters rfl]
      exact .inl isFilled
  exact .pure ⟨moved.set (isFilled_emitted rfl rfl), proceeds.next_le, made⟩

theorem evaluates_finishCall {started : Generation} (calls : Calls count facts started before)
    (target : CallTarget) (pushed : Nat) :
    Whenever (finishCall context position target pushed) before
      (Evaluates count facts ∅ started) := by
  rcases calls.ends with ⟨front, call, isCall, codeEq⟩
  have pops : Whenever (if pushed > 0 then emit (.pop pushed) else pure ()) before fun _ after =>
      after.Disciplined count facts ∅ [] ∧ EndsInCall after.emitter.code.toList ∧
        started.pool.nextTemporary ≤ after.pool.nextTemporary := by
    split
    · refine (succeeds_emit _).whenever.goesTo ?_
      refine ⟨calls.disciplined.emitted (.pop pushed) rfl (by rintro _ ⟨⟩) (by rintro _ ⟨⟩)
        (by rintro _ ⟨⟩), ?_, calls.next_le⟩
      exact ⟨front, call, isCall, .inr ⟨pushed, by simp [emitted, Emitter.append, codeEq]⟩⟩
    · exact .pure ⟨calls.disciplined, ⟨front, call, isCall, .inl codeEq⟩, calls.next_le⟩
  have none {after : Generation} (disciplined : after.Disciplined count facts ∅ [])
      (nextLe : started.pool.nextTemporary ≤ after.pool.nextTemporary) :
      Evaluates count facts ∅ started none after :=
    ⟨⟨facts, .refl facts, disciplined⟩, nextLe, by rintro _ ⟨⟩⟩
  unfold finishCall
  refine pops.bind_if ?_
  rintro popped ⟨disciplined, ends, nextLe⟩
  split
  · split
    · exact .pure (none disciplined nextLe)
    · refine (gives_result disciplined ends).map fun result after gives => ?_
      exact Gives.evaluates ⟨gives.disciplined, Nat.le_trans nextLe gives.next_le, gives.made⟩
  · exact .pure (none disciplined nextLe)

/-- A call whose operands are evaluated leaves its result in a register, if it has one, and nothing
else. -/
theorem evaluates_generateCall {receiver : Option (Option Temporary)}
    (disciplined : before.Disciplined count facts here [])
    (receiverMade : ∀ temporary, receiver = some (some temporary) →
      temporary.index < before.pool.nextTemporary)
    (made : ∀ temporary, some temporary ∈ arguments → temporary.index < before.pool.nextTemporary)
    (target : CallTarget) :
    Whenever (generateCall context position target receiver arguments) before
      (Evaluates count facts ∅ before) := by
  have disciplined := disciplined.mono (Set.subset_univ here)
  -- What is pushed first is all that the kinds of calls differ in, besides the instructions that
  -- call.
  have passing {start : Generation} (starts : before.Proceeds count facts start)
      (disciplinedStart : start.Disciplined count facts Set.univ []) (kept : List Temporary)
      {rest : Generating (Option Temporary)} {post : Option Temporary → Generation → Prop}
      (goesOn : ∀ cleared, before.Proceeds count facts cleared →
        cleared.Disciplined count facts {temporary | temporary ∈ kept} [] →
        Whenever rest cleared post) :
      Whenever (do
        arguments.forM (pushArgument position)
        spillAllExcept position kept
        rest) start post := by
    refine (disciplined_pushArguments disciplinedStart fun temporary isArgument =>
      Nat.lt_of_lt_of_le (made temporary isArgument) starts.next_le).bind ?_
    rintro _ pushed ⟨pushes, disciplinedPushed⟩
    refine (disciplined_spillAllExcept disciplinedPushed kept).bind ?_
    rintro _ cleared ⟨clears, disciplinedCleared⟩
    exact goesOn cleared ((starts.trans pushes).trans clears)
      (disciplinedCleared.mono fun _ isHere => isHere.2)
  have finishing {cleared called : Generation} (early : before.Proceeds count facts cleared)
      (calls : Calls count facts cleared called) (pushed : Nat) :
      Whenever (finishCall context position target pushed) called
      (Evaluates count facts ∅ before) :=
    evaluates_finishCall ⟨calls.disciplined, calls.ends,
      Nat.le_trans early.next_le calls.next_le⟩ target pushed
  have empty : {temporary : Temporary | temporary ∈ ([] : List Temporary)} ⊆ ∅ := fun _ isHere =>
    (List.not_mem_nil isHere).elim
  have calling {cleared : Generation} (early : before.Proceeds count facts cleared)
      (disciplinedCleared : cleared.Disciplined count facts {temporary | temporary ∈ []} [])
      (pushed : Nat) : Whenever (do
        emit (.call (context.registry.methodLabel target.method))
        finishCall context position target pushed) cleared (Evaluates count facts ∅ before) := by
    refine (succeeds_emit _).whenever.goOn ?_
    exact finishing early (calls_emitted (disciplinedCleared.mono empty)
      (.call (context.registry.methodLabel target.method)) rfl nofun) pushed
  unfold generateCall
  split
  next slot receiver _ =>
    refine (disciplined_pushReceiver disciplined fun temporary isReceiver =>
      receiverMade temporary (congrArg some isReceiver)).bind ?_
    rintro object between ⟨rfl, pushes, disciplinedPushed⟩
    refine passing pushes disciplinedPushed [object] fun cleared clears disciplinedCleared => ?_
    have onlyObject : cleared.Disciplined count facts {object} [] :=
      disciplinedCleared.mono fun _ isHere => List.mem_singleton.mp isHere
    refine (calls_callThrough onlyObject (Nat.lt_of_lt_of_le (receiverMade _ rfl) clears.next_le)
      slot).bind ?_
    exact fun _ called calls => finishing clears calls _
  next slot _ =>
    refine (disciplined_pushThis disciplined).bind ?_
    rintro _ between ⟨pushes, disciplinedPushed⟩
    refine passing pushes disciplinedPushed [] fun cleared clears disciplinedCleared => ?_
    refine (calls_callThroughThis (disciplinedCleared.mono empty) slot).bind
      fun _ called calls => ?_
    exact finishing clears calls _
  next =>
    refine (disciplined_pushThis disciplined).bind ?_
    rintro _ between ⟨pushes, disciplinedPushed⟩
    exact passing pushes disciplinedPushed [] fun cleared clears disciplinedCleared =>
      calling clears disciplinedCleared _
  next =>
    exact passing .refl disciplined [] fun cleared clears disciplinedCleared =>
      calling clears disciplinedCleared _

end Generating

end Decaf
