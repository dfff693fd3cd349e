import Decaf.Proofs.Pool.Loads

/-!
# What the pool emits

However many registers there are, and whether or not an operation fails, the pool emits nothing but
moves between registers and the spill slots that it has made so far.
-/

namespace Decaf

namespace RegisterPool

/-- The spill slots in use and those that are to be used again have been made before. -/
structure SlotsMade (pool : RegisterPool) : Prop where
  spilled : ∀ entry ∈ pool.spilled, entry.slot < pool.slotCount
  free : ∀ slot ∈ pool.freeSlots, slot < pool.slotCount

/-- A move between a register and one of some frame slots. -/
def MovesTo (slots : Nat → Prop) (instruction : Instruction) : Prop :=
  ∃ slot, slots slot ∧ ∃ register, instruction = .storeStack slot register ∨
    instruction = .loadStack register slot

/-- More code was emitted, and it moves words to spill slots and back. -/
structure Spills (before after : Session) : Prop where
  base_eq : after.pool.spillBase = before.pool.spillBase
  length_eq : after.pool.registers.length = before.pool.registers.length
  slotCount_le : before.pool.slotCount ≤ after.pool.slotCount
  slotsMade : before.pool.SlotsMade → after.pool.SlotsMade
  added : ∃ moves, after.code.toList = before.code.toList ++ moves ∧
    ∀ move ∈ moves, MovesTo (fun slot => before.pool.spillBase ≤ slot ∧
      (before.pool.SlotsMade → slot < before.pool.spillBase + after.pool.slotCount)) move

theorem MovesTo.mono {slots more : Nat → Prop} {instruction : Instruction}
    (moves : MovesTo slots instruction) (isMore : ∀ slot, slots slot → more slot) :
    MovesTo more instruction := by
  rcases moves with ⟨slot, isSlot, register, isMove⟩
  exact ⟨slot, isMore slot isSlot, register, isMove⟩

namespace Spills

variable {before between after : Session}

/-- No code is emitted. -/
theorem of_eq (baseEq : after.pool.spillBase = before.pool.spillBase)
    (lengthEq : after.pool.registers.length = before.pool.registers.length)
    (countEq : after.pool.slotCount = before.pool.slotCount)
    (slotsMade : before.pool.SlotsMade → after.pool.SlotsMade) (codeEq : after.code = before.code) :
    Spills before after :=
  ⟨baseEq, lengthEq, Nat.le_of_eq countEq.symm, slotsMade, [], by simp [codeEq], nofun⟩

theorem refl (session : Session) : Spills session session := of_eq rfl rfl rfl id rfl

theorem trans (early : Spills before between) (late : Spills between after) :
    Spills before after := by
  rcases early.added with ⟨moves, codeEq, areMoves⟩
  rcases late.added with ⟨more, moreEq, moreMoves⟩
  have slotCountLe := late.slotCount_le
  refine ⟨late.base_eq.trans early.base_eq, late.length_eq.trans early.length_eq,
    Nat.le_trans early.slotCount_le slotCountLe, fun made => late.slotsMade (early.slotsMade made),
    moves ++ more, by rw [moreEq, codeEq, List.append_assoc], ?_⟩
  intro move isThere
  rcases List.mem_append.mp isThere with isEarly | isLate
  · refine (areMoves move isEarly).mono fun slot ⟨isSpill, isMade⟩ => ⟨isSpill, fun made => ?_⟩
    have := isMade made
    omega
  · rw [early.base_eq] at moreMoves
    exact (moreMoves move isLate).mono fun slot ⟨isSpill, isMade⟩ =>
      ⟨isSpill, fun made => isMade (early.slotsMade made)⟩

end Spills

/-! ## Operations -/

/-- Whether or not an operation fails, it emits moves to spill slots and back only. -/
def OnlySpills {Result : Type} (operation : Operation Result) : Prop :=
  ∀ before, Spills before (operation.run before).2

namespace OnlySpills

variable {Result Next : Type} {operation : Operation Result}

theorem pure (result : Result) : OnlySpills (Pure.pure result) := fun _ => .refl _

theorem get : OnlySpills MonadState.get := fun _ => .refl _

theorem throw (fault : PoolFault) : OnlySpills (MonadExcept.throw fault : Operation Result) :=
  fun _ => .refl _

theorem bind {next : Result → Operation Next} (first : OnlySpills operation)
    (rest : ∀ result, OnlySpills (next result)) : OnlySpills (operation >>= next) := by
  intro before
  have spills := first before
  rw [Operation.run_bind]
  generalize operation.run before = ran at spills
  rcases ran with ⟨_ | result, between⟩
  · exact spills
  · exact spills.trans (rest result between)

end OnlySpills

variable {pool : RegisterPool} {slot : Nat} {before : Session} {Result : Type}

section

variable (made : pool.SlotsMade)
include made

theorem SlotsMade.settle (register : Nat) (temporary : Temporary) :
    (pool.settle register temporary).SlotsMade :=
  ⟨made.spilled, made.free⟩

theorem SlotsMade.vacated (register : Nat) (temporary : Temporary) :
    (pool.vacated register temporary).SlotsMade :=
  ⟨made.spilled, made.free⟩

theorem SlotsMade.mapResidents (change : Resident → Resident) :
    (pool.mapResidents change).SlotsMade :=
  ⟨made.spilled, made.free⟩

/-- A slot that was made gets free. -/
theorem SlotsMade.slotFreed (temporary : Temporary)
    (isMade : slot < pool.slotCount) : (pool.slotFreed temporary slot).SlotsMade := by
  refine ⟨fun other isOther => made.spilled other (List.mem_of_mem_eraseP isOther),
    fun other isFree => ?_⟩
  rcases List.mem_cons.mp isFree with rfl | wasFree
  · exact isMade
  · exact made.free other wasFree

theorem SlotsMade.slot_lt {temporary : Temporary}
    (found : pool.slotOf? temporary = some slot) : slot < pool.slotCount := by
  rcases Option.map_eq_some_iff.mp found with ⟨entry, isFound, rfl⟩
  exact made.spilled entry (List.mem_of_find?_eq_some isFound)

theorem SlotsMade.release (temporary : Temporary) : (pool.release temporary).SlotsMade := by
  unfold RegisterPool.release
  split
  · exact made.vacated _ temporary
  · split
    next slot found => exact made.slotFreed temporary (made.slot_lt found)
    · exact made

end

theorem spillBase_release (pool : RegisterPool) (temporary : Temporary) :
    (pool.release temporary).spillBase = pool.spillBase := by
  unfold release
  split
  · rfl
  · split <;> rfl

theorem slotCount_release (pool : RegisterPool) (temporary : Temporary) :
    (pool.release temporary).slotCount = pool.slotCount := by
  unfold release
  split
  · rfl
  · split <;> rfl

theorem length_registers_release (pool : RegisterPool) (temporary : Temporary) :
    (pool.release temporary).registers.length = pool.registers.length := by
  unfold release
  split
  · simp [vacated]
  · split <;> rfl

theorem onlySpills_spill (register : Nat) (temporary : Temporary) :
    OnlySpills (spill register temporary) := by
  intro before
  rw [run_spill]
  have slotCountLe := slotCount_le_moveOut before.pool register temporary
  have isMade (made : before.pool.SlotsMade) :
      (before.pool.moveOut register temporary).1 <
      (before.pool.moveOut register temporary).2.slotCount ∧
        (before.pool.moveOut register temporary).2.SlotsMade := by
    unfold moveOut
    split
    next slot rest freeEq =>
      have slotLt := made.free slot (by simp [freeEq])
      refine ⟨slotLt, fun entry isSpilled => ?_, fun other isFree =>
        made.free other (by simp [freeEq, isFree])⟩
      rcases List.mem_cons.mp isSpilled with rfl | wasSpilled
      · exact slotLt
      · exact made.spilled entry wasSpilled
    next freeEq =>
      refine ⟨Nat.lt_succ_self _, fun entry isSpilled => ?_, fun other isFree => ?_⟩
      · rcases List.mem_cons.mp isSpilled with rfl | wasSpilled
        · exact Nat.lt_succ_self _
        · exact Nat.lt_succ_of_lt (made.spilled entry wasSpilled)
      · exact Nat.lt_succ_of_lt (made.free other isFree)
  refine ⟨spillBase_moveOut _ _ _, length_registers_moveOut _ _ _, slotCountLe,
    fun made => (isMade made).2, [_], Array.toList_push, ?_⟩
  intro move isThere
  rw [List.mem_singleton.mp isThere]
  exact ⟨_, ⟨Nat.le_add_right _ _, fun made => Nat.add_lt_add_left (isMade made).1 _⟩, _, .inl rfl⟩

theorem onlySpills_vacate : OnlySpills vacate := by
  refine OnlySpills.get.bind fun session => ?_
  split
  · exact .pure _
  · refine OnlySpills.get.bind fun session => ?_
    dsimp only
    split
    · exact .throw _
    · exact (onlySpills_spill _ _).bind fun _ => .pure _

theorem onlySpills_occupy (register : Nat) : OnlySpills (occupy register) := by
  intro before
  rw [run_occupy]
  exact .of_eq rfl (by simp [occupiedSession, settle, advanced]) rfl
    (fun made => ⟨made.spilled, made.free⟩) rfl

theorem onlySpills_acquire : OnlySpills acquire :=
  onlySpills_vacate.bind onlySpills_occupy

theorem onlySpills_acquireSpecific (register : Nat) : OnlySpills (acquireSpecific register) := by
  intro before
  rw [run_acquireSpecific]
  split
  · exact onlySpills_occupy register before
  · split
    · exact .refl _
    next resident _ _ =>
      have spilled := onlySpills_spill register resident.temporary before
      rw [run_spill] at spilled
      exact spilled.trans (onlySpills_occupy register _)

/-- A temporary comes back from its slot. -/
theorem Spills.reloaded {between : Session} (vacated : Spills before between)
    (temporary : Temporary) (register : Nat)
    (isMade : before.pool.SlotsMade → slot < before.pool.slotCount) :
    Spills before (reloadedSession between temporary slot register) := by
  have slotCountLe := vacated.slotCount_le
  rcases vacated.added with ⟨moves, codeEq, areMoves⟩
  refine ⟨vacated.base_eq, ?_, slotCountLe, fun made => ?_,
    moves ++
    [.loadStack (.general register)
      (between.pool.spillBase + slot)], by simp [reloadedSession, codeEq],
    fun move isThere => ?_⟩
  · simpa [reloadedSession, settle, slotFreed] using vacated.length_eq
  · exact ((vacated.slotsMade made).slotFreed temporary
      (Nat.lt_of_lt_of_le (isMade made) slotCountLe)).settle register temporary
  · rcases List.mem_append.mp isThere with isEarly | isLast
    · exact areMoves move isEarly
    · rw [List.mem_singleton.mp isLast, vacated.base_eq]
      refine ⟨_, ⟨Nat.le_add_right _ _, fun made => Nat.add_lt_add_left ?_ _⟩, _, .inr rfl⟩
      exact Nat.lt_of_lt_of_le (isMade made) slotCountLe

theorem onlySpills_fetch (temporary : Temporary) : OnlySpills (fetch temporary) := by
  intro before
  rw [run_fetch]
  split
  · exact .refl _
  · split
    next slot found =>
      have vacated := onlySpills_vacate before
      rw [run_reload]
      generalize vacate.run before = ran at vacated
      rcases ran with ⟨_ | register, between⟩
      · exact vacated
      · exact vacated.reloaded temporary register fun made => made.slot_lt found
    · exact .refl _

theorem onlySpills_pinAll (temporaries : List Temporary) : OnlySpills (pinAll temporaries) := by
  intro before
  rw [run_pinAll]
  unfold pinnedSession
  induction temporaries generalizing before with
  | nil => exact .refl _
  | cons temporary rest ih =>
    have pinned : Spills before ⟨before.pool.pin temporary, before.code⟩ :=
      .of_eq rfl (by simp [pin, mapResidents]) rfl (fun made => made.mapResidents _) rfl
    exact pinned.trans (ih ⟨before.pool.pin temporary, before.code⟩)

theorem onlySpills_loadOne (temporary : Temporary) : OnlySpills (loadOne temporary) :=
  (onlySpills_pinAll _).bind fun _ => onlySpills_fetch temporary

theorem onlySpills_loadPair (left right : Temporary) : OnlySpills (loadPair left right) :=
  (onlySpills_pinAll _).bind fun _ => (onlySpills_fetch left).bind fun _ =>
    (onlySpills_fetch right).bind fun _ => .pure _

theorem onlySpills_spillAllExcept (kept : List Temporary) : OnlySpills (spillAllExcept kept) := by
  refine OnlySpills.get.bind fun session => ?_
  dsimp only
  generalize sortBy _ _ = ordered
  induction ordered with
  | nil => exact .pure ()
  | cons resident rest ih => exact (onlySpills_spill _ _).bind fun _ => ih

/-- What code generation asks of the pool where that may take more code. -/
inductive Demand : {Result : Type} → Operation Result → Prop where
  | acquire : Demand acquire
  | acquireSpecific (register : Nat) : Demand (acquireSpecific register)
  | loadOne (temporary : Temporary) : Demand (loadOne temporary)
  | loadPair (left right : Temporary) : Demand (loadPair left right)
  | spillAllExcept (kept : List Temporary) : Demand (spillAllExcept kept)

theorem Demand.onlySpills {operation : Operation Result} (demand : Demand operation) :
    OnlySpills operation := by
  cases demand with
  | acquire => exact onlySpills_acquire
  | acquireSpecific register => exact onlySpills_acquireSpecific register
  | loadOne temporary => exact onlySpills_loadOne temporary
  | loadPair left right => exact onlySpills_loadPair left right
  | spillAllExcept kept => exact onlySpills_spillAllExcept kept

/-! ## Well-formed pools -/

/-- Whether or not an operation fails, it leaves a well-formed pool well-formed. -/
def KeepsWellFormed {Result : Type} (operation : Operation Result) : Prop :=
  ∀ before, before.pool.WellFormed → (operation.run before).2.pool.WellFormed

theorem KeepsWellFormed.bind {Next : Type} {operation : Operation Result}
    {next : Result → Operation Next} (first : KeepsWellFormed operation)
    (rest : ∀ result, KeepsWellFormed (next result)) : KeepsWellFormed (operation >>= next) := by
  intro before wellFormed
  have between := first before wellFormed
  rw [Operation.run_bind]
  generalize operation.run before = ran at between
  rcases ran with ⟨_ | result, session⟩
  · exact between
  · exact rest result session between

theorem keepsWellFormed_acquire : KeepsWellFormed acquire := by
  intro before wellFormed
  rcases run_acquire_spec wellFormed with ⟨_, _, _, _, ran, produces⟩ | ⟨ran, _⟩
  · rw [ran]
    exact produces.wellFormed
  · rw [ran]
    exact wellFormed

theorem wellFormed_acquireSpecific (wellFormed : before.pool.WellFormed) {register : Nat}
    (inRange : register < before.pool.registers.length) :
    ((acquireSpecific register).run before).2.pool.WellFormed := by
  rcases run_acquireSpecific_spec wellFormed inRange with ⟨_, _, _, ran, produces⟩ | ⟨ran, _⟩
  · rw [ran]
    exact produces.wellFormed
  · rw [ran]
    exact wellFormed

theorem keepsWellFormed_fetch (temporary : Temporary) : KeepsWellFormed (fetch temporary) := by
  intro before wellFormed
  rw [run_fetch]
  split
  · exact wellFormed
  · split
    next slot found =>
      rw [run_reload]
      rcases run_vacate_spec wellFormed with ⟨register, between, moves, ran, clears⟩ | ⟨ran, _⟩
      · rw [ran]
        exact (fetches_reloaded ((slotOf?_eq_some_iff wellFormed).mp found) clears).wellFormed
      · rw [ran]
        exact wellFormed
    · exact wellFormed

theorem keepsWellFormed_pinAll (temporaries : List Temporary) :
    KeepsWellFormed (pinAll temporaries) :=
  fun _ wellFormed => (shuffle_pinned wellFormed temporaries).wellFormed

theorem keepsWellFormed_loadOne (temporary : Temporary) : KeepsWellFormed (loadOne temporary) :=
  (keepsWellFormed_pinAll _).bind fun _ => keepsWellFormed_fetch temporary

theorem keepsWellFormed_loadPair (left right : Temporary) : KeepsWellFormed (loadPair left right) :=
  (keepsWellFormed_pinAll _).bind fun _ => (keepsWellFormed_fetch left).bind fun _ =>
    (keepsWellFormed_fetch right).bind fun _ _ wellFormed => wellFormed

theorem keepsWellFormed_spillAllExcept (kept : List Temporary) :
    KeepsWellFormed (spillAllExcept kept) := by
  intro before wellFormed
  rcases run_spillAllExcept_spec wellFormed kept with ⟨_, _, ran, clears⟩
  rw [ran]
  exact clears.wellFormed

end RegisterPool

end Decaf
