import Decaf.Proofs.Code.Outcomes
import Decaf.Proofs.Registers.Orderly

/-!
# The generator's use of registers

Every step of code generation keeps the registers in order: an instruction uses registers only that
are filled on every way to it, no temporary is in a register where two ways meet or behind a call,
and the result of a call is fetched at once. An expression leaves nothing in registers but its own
value, and a statement leaves nothing.
-/

namespace Decaf

open RegisterPool (Orderly)

/-- Instructions that fill a given register, and do nothing else to registers. -/
def Instruction.Fills (instruction : Register → Instruction) : Prop :=
  ∀ register, (instruction register).keepsRegisters = true ∧ (instruction register).target? = none ∧
    (instruction register).writes? = some register

namespace Generation

section

variable (count : Nat) (facts : String → Option (Set Nat))

/-- Whether a register is filled on every way to the end of the code. -/
def IsFilled (generation : Generation) (register : Register) : Prop :=
  ∃ index ∈ filledBehind count facts generation.emitter.code.toList, register = .general index

/-- Registers are in order. Nothing is known yet of labels that are still to be handed out, and no
register is taken to be filled at the labels that loops are left by. -/
structure Disciplined (here : Set Temporary) (unset : List (Temporary × Nat))
    (generation : Generation) : Prop where
  orderly : Orderly count facts here unset generation.session
  fresh : ∀ number, generation.emitter.nextLabel ≤ number → facts (Label.inner number) = none
  loops : ∀ labels ∈ generation.emitter.loops,
    facts labels.breakTo = some ∅ ∧ facts labels.continueTo = some ∅

/-- Registers were filled and temporaries made, without a call. -/
def Proceeds (before after : Generation) : Prop :=
  RegisterPool.Proceeds count facts before.session after.session

end

variable {count : Nat} {facts : String → Option (Set Nat)} {here : Set Temporary}
  {unset : List (Temporary × Nat)} {before between after : Generation}
variable {instruction : Instruction}

theorem Proceeds.refl : Proceeds count facts before before := RegisterPool.Proceeds.refl

theorem Proceeds.trans (early : Proceeds count facts before between)
    (late : Proceeds count facts between after) : Proceeds count facts before after :=
  RegisterPool.Proceeds.trans early late

theorem IsFilled.mono {register : Register} (isFilled : before.IsFilled count facts register)
    (proceeds : Proceeds count facts before after) : after.IsFilled count facts register := by
  rcases isFilled with ⟨index, isFilled, rfl⟩
  exact ⟨index, proceeds.filled_subset isFilled, rfl⟩

theorem session_emitted (instruction : Instruction) :
    (before.emitted [instruction]).session = ⟨before.pool,
      before.emitter.code.push instruction⟩ := by
  simp [emitted, session, Emitter.append]

theorem proceeds_emitted (keeps : instruction.keepsRegisters = true) :
    Proceeds count facts before (before.emitted [instruction]) := by
  unfold Proceeds
  rw [session_emitted]
  exact RegisterPool.Orderly.proceeds_push before.session keeps

/-- The register that an instruction puts a word into is filled. -/
theorem isFilled_emitted {index : Nat} (keeps : instruction.keepsRegisters = true)
    (writes : instruction.writes? = some (.general index)) :
    (before.emitted [instruction]).IsFilled count facts (.general index) := by
  refine ⟨index, ?_, rfl⟩
  have codeEq : (before.emitted [instruction]).emitter.code.toList = before.emitter.code.toList ++
      [instruction] := by
    simp [emitted, Emitter.append]
  rw [codeEq, filledBehind_concat, leaves_of_keepsRegisters keeps]
  exact .inr writes

theorem proceeds_released (temporary : Temporary) :
    Proceeds count facts before (before.released temporary) :=
  ⟨(RegisterPool.Orderly.nextTemporary_release _ _).ge, subset_rfl⟩

namespace Disciplined

variable {temporary : Temporary}

theorem mono (disciplined : before.Disciplined count facts here unset) {more : Set Temporary}
    (subset : here ⊆ more) : before.Disciplined count facts more unset :=
  { disciplined with orderly := disciplined.orderly.mono subset }

theorem set {register : Nat}
    (disciplined : before.Disciplined count facts here ((temporary, register) :: unset))
    (isFilled : before.IsFilled count facts (.general register)) :
    before.Disciplined count facts here unset := by
  rcases isFilled with ⟨index, isFilled, same⟩
  obtain rfl := Register.general.inj same
  exact { disciplined with orderly := disciplined.orderly.set isFilled }

theorem emitted (disciplined : before.Disciplined count facts here unset)
    (instruction : Instruction) (keeps : instruction.keepsRegisters = true)
    (leads : ∀ name, instruction.target? = some name →
      ∃ known ⊆ filledBehind count facts before.emitter.code.toList, facts name = some known)
    (reads : ∀ register ∈ instruction.reads, before.IsFilled count facts register)
    (writes : ∀ index, instruction.writes? = some (.general index) → index < count) :
    (before.emitted [instruction]).Disciplined count facts here unset where
  orderly := by
    rw [session_emitted]
    exact disciplined.orderly.emit _ keeps leads reads writes
  fresh := disciplined.fresh
  loops := disciplined.loops

/-- The register of a temporary that was just made is filled. -/
theorem filled {index : Nat}
    (disciplined : before.Disciplined count facts here ((temporary, index) :: unset))
    (instruction : Register → Instruction) (fills : Instruction.Fills instruction)
    (inRange : index < count)
    (reads : ∀ source ∈ (instruction (.general index)).reads, before.IsFilled count facts source) :
    before.Proceeds count facts (before.emitted [instruction (.general index)]) ∧
      (before.emitted [instruction (.general index)]).IsFilled count facts (.general index) ∧
      (before.emitted [instruction (.general index)]).Disciplined count facts here unset := by
  rcases fills (.general index) with ⟨keeps, noTarget, writes⟩
  have isFilled : (before.emitted [instruction (.general index)]).IsFilled count
      facts (.general index) :=
    isFilled_emitted keeps writes
  refine ⟨proceeds_emitted keeps, isFilled,
    (disciplined.emitted _ keeps (by simp [noTarget]) reads ?_).set isFilled⟩
  intro other isWritten
  rw [writes] at isWritten
  cases isWritten
  exact inRange

theorem released (disciplined : before.Disciplined count facts (insert temporary here) unset) :
    (before.released temporary).Disciplined count facts here unset where
  orderly := disciplined.orderly.release
  fresh := disciplined.fresh
  loops := disciplined.loops

theorem unpinned (disciplined : before.Disciplined count facts here []) :
    before.unpinned.Disciplined count facts here [] where
  orderly := disciplined.orderly.unpinned
  fresh := disciplined.fresh
  loops := disciplined.loops

/-- A label is handed out, and gets known together with the registers that are taken to be filled
there. -/
theorem extended (disciplined : before.Disciplined count facts here unset) (known : Set Nat) :
    Extends facts (Function.update facts (Label.inner before.emitter.nextLabel) (some known)) ∧
      Disciplined count (Function.update facts (Label.inner before.emitter.nextLabel) (some known))
        here unset
        { before with emitter := { before.emitter with nextLabel := before.emitter.nextLabel +
          1 } } := by
  have isMore : Extends facts
      (Function.update facts (Label.inner before.emitter.nextLabel) (some known)) := by
    intro name others isKnown
    rw [Function.update_of_ne, isKnown]
    rintro rfl
    cases (disciplined.fresh _ (Nat.le_refl _)).symm.trans isKnown
  refine ⟨isMore, disciplined.orderly.extend isMore, fun number isFresh => ?_,
    fun labels isLoop => ?_⟩
  · rw [Function.update_of_ne, disciplined.fresh number (Nat.le_of_succ_le isFresh)]
    intro same
    exact Nat.ne_of_gt isFresh (Label.inner_injective same)
  · exact ⟨isMore _ _ (disciplined.loops labels isLoop).1,
      isMore _ _ (disciplined.loops labels isLoop).2⟩

/-- An instruction at which no temporary is in a register. -/
theorem emitted_alone (disciplined : before.Disciplined count facts ∅ unset)
    (instruction : Instruction)
    (leads : ∀ name, instruction.label? = some name ∨ instruction.target? = some name →
      ∃ known ⊆ filledBehind count facts before.emitter.code.toList, facts name = some known)
    (reads : ∀ register ∈ instruction.reads, before.IsFilled count facts register)
    (writes : instruction.writes? = none) :
    (before.emitted [instruction]).Disciplined count facts ∅ [] where
  orderly := by
    have none {register : Nat} {resident : Resident}
        (isThere : (register, resident) ∈ before.session.pool.residents) : False :=
      (disciplined.orderly.tended isThere).isHere
    have emits := disciplined.orderly.emitted instruction ⟨fun index isRead => ?_,
      by simp [writes], leads⟩ (fun isRead => ?_) fun isThere => (none isThere).elim
    · rw [session_emitted]
      exact { emits with tended := fun isThere => (none isThere).elim }
    · rcases reads _ isRead with ⟨_, isFilled, ⟨⟩⟩
      exact isFilled
    · rcases reads _ isRead with ⟨_, _, ⟨⟩⟩
  fresh := disciplined.fresh
  loops := disciplined.loops

/-- An instruction behind which control does not go on. -/
theorem emitted_ending (disciplined : before.Disciplined count facts here unset)
    (instruction : Instruction) (ends : instruction.isTerminator = true)
    (leads : ∀ name, instruction.target? = some name →
      ∃ known ⊆ filledBehind count facts before.emitter.code.toList, facts name = some known)
    (reads : ∀ register ∈ instruction.reads, before.IsFilled count facts register) :
    (before.emitted [instruction]).Disciplined count facts here unset where
  orderly := by
    have plain : instruction.label? = none ∧ instruction.writes? = none := by
      cases instruction <;> first | exact ⟨rfl, rfl⟩ | cases ends
    rw [session_emitted]
    refine disciplined.orderly.emitted _ ⟨fun index isRead => ?_, by simp [plain.2],
      fun name isNamed => ?_⟩ (fun isRead => ?_) fun isThere _ => ?_
    · rcases reads _ isRead with ⟨_, isFilled, ⟨⟩⟩
      exact isFilled
    · exact leads name (isNamed.resolve_left (by simp [plain.1]))
    · rcases reads _ isRead with ⟨_, _, ⟨⟩⟩
    · rw [Instruction.leaves, if_pos ends]
      exact (disciplined.orderly.tended isThere).inRange
  fresh := disciplined.fresh
  loops := disciplined.loops

end Disciplined

end Generation

namespace Generating

open Generation

variable {Result : Type} {count : Nat} {facts : String → Option (Set Nat)} {here : Set Temporary}
  {unset : List (Temporary × Nat)} {before : Generation} {position : Position}
  {temporary : Temporary}

/-! ## Steps -/

theorem disciplined_acquire (disciplined : before.Disciplined count facts here unset) :
    Whenever (acquire position) before fun acquired after => ∃ register < count,
      acquired.2 = .general register ∧
      before.Proceeds count facts after ∧ before.pool.nextTemporary ≤ acquired.1.index ∧
      acquired.1.index < after.pool.nextTemporary ∧
      after.Disciplined count facts (insert acquired.1 here) ((acquired.1, register) :: unset) := by
  refine whenever_withPool fun acquired session ran => ?_
  rcases disciplined.orderly.acquire ran with
    ⟨register, inRange, isRegister, proceeds, isNew, made, orderly⟩
  exact ⟨register, inRange, isRegister, proceeds, isNew, made, orderly, disciplined.fresh,
    disciplined.loops⟩

theorem disciplined_load (disciplined : before.Disciplined count facts here unset)
    (isHere : temporary ∈ here) (made : temporary.index < before.pool.nextTemporary)
    (isSet : ∀ index, (temporary, index) ∉ unset) :
    Whenever (load position temporary) before fun register after =>
      before.Proceeds count facts after ∧
      after.IsFilled count facts register ∧ after.Disciplined count facts here unset := by
  refine whenever_withPool fun register session ran => ?_
  rcases disciplined.orderly.loadOne made isSet ran with ⟨orderly, proceeds, isFilled⟩
  rw [Set.insert_eq_of_mem isHere] at orderly
  exact ⟨proceeds, isFilled, orderly, disciplined.fresh, disciplined.loops⟩

theorem disciplined_spillAllExcept (disciplined : before.Disciplined count facts here [])
    (kept : List Temporary) :
    Whenever (spillAllExcept position kept) before fun _ after =>
      before.Proceeds count facts after ∧
      after.Disciplined count facts {temporary ∈ here | temporary ∈ kept} [] := by
  refine whenever_withPool fun _ session ran => ?_
  rcases disciplined.orderly.spillAllExcept ran with ⟨orderly, proceeds⟩
  exact ⟨proceeds, orderly, disciplined.fresh, disciplined.loops⟩

/-- A temporary is made and its register filled. -/
theorem disciplined_produce (disciplined : before.Disciplined count facts here unset)
    {instruction : Register → Instruction} (fills : Instruction.Fills instruction)
    (reads : ∀ register, ∀ source ∈ (instruction register).reads,
      before.IsFilled count facts source) :
    Whenever (produce position instruction) before fun result after =>
      before.Proceeds count facts after ∧
      result.index < after.pool.nextTemporary ∧
      after.Disciplined count facts (insert result here) unset := by
  refine (disciplined_acquire disciplined).bind ?_
  rintro ⟨result, _⟩ between ⟨register, inRange, rfl, proceeds, -, made, acquired⟩
  rcases acquired.filled _ fills inRange fun source isRead =>
    (reads _ source isRead).mono proceeds with ⟨filling, _, filled⟩
  refine (succeeds_emit _).whenever.goOn ?_
  exact .pure ⟨proceeds.trans filling, made, filled⟩

theorem disciplined_freshLabel (disciplined : before.Disciplined count facts here unset)
    (known : Set Nat) :
    Whenever freshLabel before fun label after => ∃ more,
      Extends facts more ∧ more label = some known ∧
      after.Disciplined count more here unset := by
  refine whenever_freshLabel.mono ?_
  rintro _ _ ⟨rfl, rfl⟩
  rcases disciplined.extended known with ⟨isMore, extended⟩
  exact ⟨_, isMore, Function.update_self _ _ _, extended⟩

end Generating

end Decaf
