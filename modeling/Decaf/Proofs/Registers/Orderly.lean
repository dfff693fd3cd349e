import Decaf.Proofs.Pool.Loads
import Decaf.Proofs.Registers.Flow
import Mathlib.Data.Set.Insert

/-!
# The residents of a pool and their registers

What becomes of the temporaries in registers when one of them goes or comes. None of this needs the
registers to have names of their own: a register that is given away while it is in use keeps all its
residents.
-/

namespace Decaf

namespace RegisterPool

section

/-- The temporaries in registers, each with its number from `first` on. -/
def numbered (registers : List (Option Resident)) (first : Nat) : List (Nat × Resident) :=
  (registers.zipIdx first).filterMap fun (content, register) =>
    content.map fun resident => (register, resident)

theorem numbered_cons (content : Option Resident) (registers : List (Option Resident))
    (first : Nat) :
    numbered (content :: registers) first =
      (content.map fun resident => (first, resident)).toList ++ numbered registers (first + 1) := by
  rw [numbered, List.zipIdx_cons, List.filterMap_cons]
  cases content <;> rfl

theorem mem_numbered {registers : List (Option Resident)} {first register : Nat}
    {resident : Resident} :
    (register, resident) ∈ numbered registers first ↔
      ∃ place, register = first + place ∧ registers[place]? = some (some resident) := by
  simp only [numbered, List.mem_filterMap, Prod.exists, List.mem_zipIdx_iff_le_and_getElem?_sub,
    Option.map_eq_some_iff, Prod.mk.injEq]
  constructor
  · rintro ⟨_, _, ⟨isBehind, found⟩, _, rfl, rfl, rfl⟩
    exact ⟨_, (Nat.add_sub_cancel' isBehind).symm, found⟩
  · rintro ⟨place, rfl, found⟩
    exact ⟨_, _, ⟨Nat.le_add_right _ _, by simpa using found⟩, resident, rfl, rfl, rfl⟩

theorem perm_numbered_set (registers : List (Option Resident)) (first index : Nat)
    (content : Option Resident) (inRange : index < registers.length) :
    (numbered (registers.set index content) first ++
        ((registers[index]?.join).map fun resident => (first + index, resident)).toList).Perm
      ((content.map fun resident => (first + index, resident)).toList ++
        numbered registers first) := by
  induction registers generalizing first index with
  | nil => cases inRange
  | cons head registers ih =>
    rcases index with _ | index
    · simp only [List.set_cons_zero, numbered_cons, List.append_assoc, List.getElem?_cons_zero,
        Option.join_some, Nat.add_zero]
      exact List.Perm.append_left _ List.perm_append_comm
    · have rest := ih (first + 1) index (Nat.lt_of_succ_lt_succ inRange)
      rw [Nat.add_right_comm, Nat.add_assoc] at rest
      simp only [List.set_cons_succ, numbered_cons, List.append_assoc, List.getElem?_cons_succ]
      refine (List.Perm.append_left _ rest).trans ?_
      rw [← List.append_assoc, ← List.append_assoc]
      exact List.Perm.append_right _ List.perm_append_comm

variable {pool : RegisterPool} {register index : Nat} {resident other : Resident}
  {temporary : Temporary}

theorem residents_eq (pool : RegisterPool) :
    pool.residents = numbered pool.registers 0 ++ pool.overlaid := rfl

theorem perm_residents_settle (inRange : register < pool.registers.length) (temporary : Temporary) :
    (pool.settle register temporary).residents.Perm
      ((register, ⟨temporary, pool.clock + 1, true⟩) :: pool.residents) := by
  have placed :=
    perm_numbered_set pool.registers 0 register (some ⟨temporary, pool.clock + 1, true⟩) inRange
  rw [Nat.zero_add] at placed
  have all := placed.append_right pool.overlaid
  rw [List.append_assoc] at all
  exact all

/-- The temporaries in registers when one register is empty, and those that get overlaid. -/
theorem perm_residents_overlay (pool : RegisterPool) (register : Nat) :
    (numbered (pool.registers.set register none) 0 ++ pool.overlay register).Perm
      pool.residents := by
  by_cases inRange : register < pool.registers.length
  · have placed := perm_numbered_set pool.registers 0 register none inRange
    rw [Nat.zero_add] at placed
    have all := placed.append_right pool.overlaid
    rw [List.append_assoc] at all
    exact all
  · have unchanged : pool.registers.set register none = pool.registers :=
      List.set_eq_of_length_le (Nat.le_of_not_lt inRange)
    have noContent : pool.content? register = none := by
      rw [content?, List.getElem?_eq_none (Nat.le_of_not_lt inRange), Option.join_none]
    rw [unchanged, overlay, noContent]
    exact List.Perm.refl _

theorem residents_vacated (pool : RegisterPool) (register : Nat) (temporary : Temporary) :
    (pool.vacated register temporary).residents = numbered (pool.registers.set register none) 0 ++
      (pool.overlay register).filter fun (_, resident) => resident.temporary ≠ temporary :=
  rfl

theorem mem_of_mem_vacated
    (isThere : (index, resident) ∈ (pool.vacated register temporary).residents) :
    (index, resident) ∈ pool.residents := by
  rw [residents_vacated] at isThere
  refine (perm_residents_overlay pool register).mem_iff.mp ?_
  rcases List.mem_append.mp isThere with isKept | isOverlaid
  · exact List.mem_append_left _ isKept
  · exact List.mem_append_right _ (List.mem_filter.mp isOverlaid).1

theorem mem_vacated_of_ne (isThere : (index, resident) ∈ pool.residents)
    (differs : resident.temporary ≠ temporary) :
    (index, resident) ∈ (pool.vacated register temporary).residents := by
  rw [residents_vacated]
  rcases List.mem_append.mp ((perm_residents_overlay pool register).mem_iff.mpr isThere) with
    isKept | isOverlaid
  · exact List.mem_append_left _ isKept
  · exact List.mem_append_right _ (List.mem_filter.mpr ⟨isOverlaid, by simpa using differs⟩)

/-- Each temporary is in one register only. -/
def Unique (pool : RegisterPool) : Prop :=
  (pool.residents.map fun entry => entry.2.temporary).Nodup

theorem Unique.vacated (unique : pool.Unique) (register : Nat) (temporary : Temporary) :
    (pool.vacated register temporary).Unique := by
  have whole : ((numbered (pool.registers.set register none) 0 ++ pool.overlay register).map
      fun entry => entry.2.temporary).Nodup :=
    ((perm_residents_overlay pool register).map _).nodup_iff.mpr unique
  exact whole.sublist (List.Sublist.map _ (List.Sublist.append_left List.filter_sublist _))

/-- A temporary whose register is emptied is in no register any more. -/
theorem Unique.not_mem_vacated (unique : pool.Unique)
    (isThere : (register, resident) ∈ pool.residents)
    (isLeft : (index, other) ∈ (pool.vacated register resident.temporary).residents) :
    other.temporary ≠ resident.temporary := by
  intro same
  have whole := mem_of_mem_vacated isLeft
  obtain ⟨rfl, rfl⟩ := Prod.mk.inj (List.inj_on_of_nodup_map unique whole isThere same)
  rw [residents_vacated] at isLeft
  rcases List.mem_append.mp isLeft with isKept | isOverlaid
  · rcases mem_numbered.mp isKept with ⟨place, placeEq, held⟩
    rw [Nat.zero_add] at placeEq
    rw [placeEq, List.getElem?_set_self'] at held
    simp at held
  · simpa using (List.mem_filter.mp isOverlaid).2

theorem Unique.settle (unique : pool.Unique) (inRange : register < pool.registers.length)
    (isNew : ∀ index resident, (index, resident) ∈ pool.residents →
      resident.temporary ≠ temporary) :
    (pool.settle register temporary).Unique := by
  refine ((perm_residents_settle inRange temporary).map _).nodup_iff.mpr
    (List.nodup_cons.mpr ⟨fun isOld => ?_, unique⟩)
  rcases List.mem_map.mp isOld with ⟨⟨index, resident⟩, isThere, same⟩
  exact isNew index resident isThere same

/-! ## Views -/

@[simp]
theorem residents_moveOut (pool : RegisterPool) (register : Nat) (temporary : Temporary) :
    (pool.moveOut register temporary).2.residents =
      (pool.vacated register temporary).residents := by
  unfold moveOut
  cases pool.freeSlots <;> rfl

theorem residents_mapResidents (pool : RegisterPool) (change : Resident → Resident) :
    (pool.mapResidents change).residents = pool.residents.map fun (register, resident) =>
      (register, change resident) := by
  have mapped (registers : List (Option Resident)) (first : Nat) :
      numbered (registers.map (Option.map change)) first =
        (numbered registers first).map fun (register, resident) => (register, change resident) := by
    induction registers generalizing first with
    | nil => rfl
    | cons content registers ih =>
      rw [List.map_cons, numbered_cons, numbered_cons, ih, List.map_append]
      cases content <;> rfl
  rw [residents_eq, residents_eq, List.map_append]
  exact congrArg (· ++ _) (mapped pool.registers 0)

theorem mem_residents_of_content? (held : pool.content? register = some resident) :
    (register, resident) ∈ pool.residents := by
  refine List.mem_append_left _ (mem_numbered.mpr ⟨register, (Nat.zero_add _).symm, ?_⟩)
  exact content?_eq_some_iff.mp held

theorem exists_of_registerOf?_eq_some (found : pool.registerOf? temporary = some register) :
    ∃ resident, (register, resident) ∈ pool.residents ∧ resident.temporary = temporary := by
  rcases Option.map_eq_some_iff.mp found with ⟨⟨_, resident⟩, isFirst, rfl⟩
  exact ⟨resident, List.mem_of_find?_eq_some isFirst, by simpa using List.find?_some isFirst⟩

theorem ne_of_registerOf?_eq_none (absent : pool.registerOf? temporary = none)
    (isThere : (register, resident) ∈ pool.residents) : resident.temporary ≠ temporary := by
  have fails := List.find?_eq_none.mp (Option.map_eq_none_iff.mp absent) _ isThere
  simpa using fails

end

/-!
## Registers of temporaries are filled

Whenever a temporary is in a register, the register has been filled with its word on every way to
the end of the code, except between the moment when the temporary is made and the instruction that
fills its register. Meanwhile the temporary is pinned, so that nothing else happens to it.
-/

section

open Operation

section

variable (count : Nat) (facts : String → Option (Set Nat))

/-- A temporary in a register is among those that may be there, and its register is filled, or else
the temporary is pinned because its register is still to be filled. -/
structure Tended (here : Set Temporary) (unset : List (Temporary × Nat)) (session : Session)
    (register : Nat) (resident : Resident) : Prop where
  isHere : resident.temporary ∈ here
  made : resident.temporary.index < session.pool.nextTemporary
  inRange : register < count
  isFilled : register ∈ filledBehind count facts session.code.toList ∨
    ((resident.temporary, register) ∈ unset ∧ resident.isPinned = true)

/-- The code uses filled registers only, and so do the temporaries that are in registers. -/
structure Orderly (here : Set Temporary) (unset : List (Temporary × Nat)) (session : Session) :
    Prop where
  count_eq : session.pool.registers.length = count
  supplies : Supplies count facts session.code.toList
  takes : FetchesResults session.code.toList
  unique : session.pool.Unique
  tended : ∀ {register resident}, (register, resident) ∈ session.pool.residents →
    Tended count facts here unset session register resident

/-- Temporaries were made and registers were filled; there was no call. -/
structure Proceeds (before after : Session) : Prop where
  next_le : before.pool.nextTemporary ≤ after.pool.nextTemporary
  filled_subset : filledBehind count facts before.code.toList ⊆
    filledBehind count facts after.code.toList

end

variable {count : Nat} {facts : String → Option (Set Nat)} {here fewer : Set Temporary}
  {unset : List (Temporary × Nat)} {session before between after : Session}

theorem Proceeds.refl : Proceeds count facts session session := ⟨Nat.le_refl _, Set.Subset.refl _⟩

theorem Proceeds.trans (early : Proceeds count facts before between)
    (late : Proceeds count facts between after) : Proceeds count facts before after :=
  ⟨Nat.le_trans early.next_le late.next_le, early.filled_subset.trans late.filled_subset⟩

namespace Orderly

variable {temporary : Temporary} {register : Nat} {acquired : Temporary × Register}

theorem mono (orderly : Orderly count facts here unset session) {more : Set Temporary}
    (subset : here ⊆ more) : Orderly count facts more unset session :=
  { orderly with tended := fun isThere =>
      let tended := orderly.tended isThere
      ⟨subset tended.isHere, tended.made, tended.inRange, tended.isFilled⟩ }

theorem extend (orderly : Orderly count facts here unset session)
    {others : String → Option (Set Nat)} (isMore : Extends facts others) :
    Orderly count others here unset session := by
  rcases orderly.supplies.extend isMore with ⟨supplies, filledEq⟩
  refine ⟨orderly.count_eq, supplies, orderly.takes, orderly.unique, fun isThere => ?_⟩
  have tended := orderly.tended isThere
  exact ⟨tended.isHere, tended.made, tended.inRange, filledEq ▸ tended.isFilled⟩

/-- The register that was still to be filled has been filled. -/
theorem set (orderly : Orderly count facts here ((temporary, register) :: unset) session)
    (isFilled : register ∈ filledBehind count facts session.code.toList) :
    Orderly count facts here unset session :=
  { orderly with
    tended := by
      intro other resident isThere
      have tended := orderly.tended isThere
      refine ⟨tended.isHere, tended.made, tended.inRange, ?_⟩
      rcases tended.isFilled with isFilled | ⟨isUnset, isPinned⟩
      · exact .inl isFilled
      · rcases List.mem_cons.mp isUnset with same | isUnset
        · exact .inl ((Prod.mk.inj same).2 ▸ isFilled)
        · exact .inr ⟨isUnset, isPinned⟩ }

/-- The pool changes, but every temporary in a register was there before. -/
theorem change (orderly : Orderly count facts here unset session) {pool : RegisterPool}
    (lengthEq : pool.registers.length = session.pool.registers.length) (unique : pool.Unique)
    (nextLe : session.pool.nextTemporary ≤ pool.nextTemporary)
    (wasThere : ∀ {register resident}, (register, resident) ∈ pool.residents → ∃ old,
      (register, old) ∈ session.pool.residents ∧ old.temporary = resident.temporary ∧
      (unset ≠ [] → old.isPinned = true → resident.isPinned = true) ∧ resident.temporary ∈ fewer) :
    Orderly count facts fewer unset ⟨pool, session.code⟩ where
  count_eq := lengthEq.trans orderly.count_eq
  supplies := orderly.supplies
  takes := orderly.takes
  unique := unique
  tended := by
    intro register resident isThere
    rcases wasThere isThere with ⟨old, oldThere, same, staysPinned, isHere⟩
    have tended := orderly.tended oldThere
    refine ⟨isHere, Nat.lt_of_lt_of_le (same ▸ tended.made) nextLe, tended.inRange, ?_⟩
    rw [← same]
    exact tended.isFilled.imp_right fun unfilled =>
      ⟨unfilled.1, staysPinned (List.ne_nil_of_mem unfilled.1) unfilled.2⟩

/-! ## Emitting -/

/-- An instruction is added, and registers are filled behind it as far as there are temporaries in
them. -/
theorem emitted (orderly : Orderly count facts here unset session) (instruction : Instruction)
    (supplied : instruction.Supplied count facts (filledBehind count facts session.code.toList))
    (isTaken : .result ∈ instruction.reads →
      (∃ target, instruction = .move target .result) ∧ EndsInCall session.code.toList)
    (stays : ∀ {register resident}, (register, resident) ∈ session.pool.residents →
      register ∈ filledBehind count facts session.code.toList →
        register ∈ instruction.leaves count facts (filledBehind count facts session.code.toList)) :
    Orderly count facts here unset ⟨session.pool, session.code.push instruction⟩ where
  count_eq := orderly.count_eq
  supplies := by
    rw [Array.toList_push]
    exact supplies_concat.mpr ⟨orderly.supplies, supplied⟩
  takes := by
    rw [Array.toList_push]
    exact fetchesResults_concat orderly.takes isTaken
  unique := orderly.unique
  tended := by
    intro register resident isThere
    have tended := orderly.tended isThere
    refine ⟨tended.isHere, tended.made, tended.inRange, tended.isFilled.imp_left fun isFilled => ?_⟩
    rw [Array.toList_push, filledBehind_concat]
    exact stays isThere isFilled

theorem proceeds_push (session : Session) {instruction : Instruction}
    (keeps : instruction.keepsRegisters = true) :
    Proceeds count facts session ⟨session.pool, session.code.push instruction⟩ := by
  refine ⟨Nat.le_refl _, ?_⟩
  rw [Array.toList_push, filledBehind_concat, leaves_of_keepsRegisters keeps]
  exact Set.subset_union_left

/-- An instruction is added that is neither a label nor a call, and does not end the code. -/
theorem emit (orderly : Orderly count facts here unset session) (instruction : Instruction)
    (keeps : instruction.keepsRegisters = true) (leads : ∀ name, instruction.target? = some name →
      ∃ known ⊆ filledBehind count facts session.code.toList, facts name = some known)
    (reads : ∀ register ∈ instruction.reads, ∃ index ∈ filledBehind count facts session.code.toList,
      register = .general index)
    (writes : ∀ index, instruction.writes? = some (.general index) → index < count) :
    Orderly count facts here unset ⟨session.pool, session.code.push instruction⟩ := by
  have notLabel : instruction.label? = none := by
    simp only [Instruction.keepsRegisters, Bool.and_eq_true, Option.isNone_iff_eq_none] at keeps
    exact keeps.2
  refine orderly.emitted _ ⟨fun index isRead => ?_, writes, ?_⟩ ?_ ?_
  · rcases reads _ isRead with ⟨other, isFilled, same⟩
    exact Register.general.inj same ▸ isFilled
  · intro name isNamed
    exact leads name (isNamed.resolve_left (by simp [notLabel]))
  · intro isRead
    rcases reads _ isRead with ⟨_, _, same⟩
    cases same
  · intro register resident _ isFilled
    rw [leaves_of_keepsRegisters keeps]
    exact .inl isFilled

/-! ## Moving temporaries -/

theorem spilled (orderly : Orderly count facts here unset session)
    (isFilled : register ∈ filledBehind count facts session.code.toList) (temporary : Temporary) :
    Orderly count facts here unset (spilledSession session register temporary) := by
  have stored := orderly.emit (.storeStack
    (session.pool.spillBase + (session.pool.moveOut register temporary).1) (.general register))
    rfl nofun (by simpa [Instruction.reads] using isFilled) nofun
  refine stored.change (length_registers_moveOut _ _ _) ?_ (nextTemporary_moveOut _ _ _).ge ?_
  · have unique := orderly.unique.vacated register temporary
    unfold Unique at unique ⊢
    rwa [residents_moveOut]
  · intro other resident isThere
    rw [residents_moveOut] at isThere
    have wasThere := mem_of_mem_vacated isThere
    exact ⟨resident, wasThere, rfl, fun _ => id, (orderly.tended wasThere).isHere⟩

theorem proceeds_spilled (session : Session) (register : Nat) (temporary : Temporary) :
    Proceeds count facts session (spilledSession session register temporary) :=
  (proceeds_push session rfl).trans ⟨(nextTemporary_moveOut _ _ _).ge, subset_rfl⟩

theorem mem_of_mem_spilled {other : Nat} {resident : Resident}
    (isThere : (other, resident) ∈ (spilledSession session register temporary).pool.residents) :
    (other, resident) ∈ session.pool.residents := by
  rw [spilledSession, residents_moveOut] at isThere
  exact mem_of_mem_vacated isThere

/-- A register is found or cleared. -/
theorem vacate (orderly : Orderly count facts here unset before)
    (ran : vacate.run before = (.ok register, after)) :
    Orderly count facts here unset after ∧ Proceeds count facts before after ∧ register < count ∧
      ∀ other resident, (other, resident) ∈ after.pool.residents →
        (other, resident) ∈ before.pool.residents := by
  rw [run_vacate] at ran
  split at ran
  next free isFree =>
    cases ran
    rcases Option.map_eq_some_iff.mp isFree with ⟨index, found, rfl⟩
    have inRange := (List.findIdx?_eq_some_iff_getElem.mp found).1
    refine ⟨orderly, .refl, ?_, fun _ _ isThere => isThere⟩
    rw [← orderly.count_eq]
    exact Nat.lt_of_le_of_lt (Nat.mod_le _ _) inRange
  next =>
    rw [run_evict] at ran
    split at ran
    · cases ran
    next victim resident isVictim =>
      cases ran
      rcases mem_residents_of_victim? isVictim with ⟨isThere, notPinned⟩
      have tended := orderly.tended isThere
      have isFilled := tended.isFilled.resolve_right fun unfilled => by simp [notPinned] at unfilled
      exact ⟨orderly.spilled isFilled _, proceeds_spilled _ _ _, tended.inRange,
        fun _ _ => mem_of_mem_spilled⟩

/-- While no temporary is in a register, none has to be spilled. -/
theorem vacate_alone (orderly : Orderly count facts ∅ unset before)
    (ran : RegisterPool.vacate.run before = (.ok register, after)) : after = before := by
  rw [run_vacate] at ran
  split at ran
  · exact (Prod.mk.inj ran).2.symm
  · rw [run_evict] at ran
    split at ran
    · cases ran
    next isVictim => exact (orderly.tended (mem_residents_of_victim? isVictim).1).isHere.elim

/-- A temporary comes into a register, which is still to be filled. -/
theorem settled (orderly : Orderly count facts here unset session) (inRange : register < count)
    (made : temporary.index < session.pool.nextTemporary)
    (isNew : ∀ other resident, (other, resident) ∈ session.pool.residents →
      resident.temporary ≠ temporary) :
    Orderly count facts (insert temporary here) ((temporary, register) :: unset)
      ⟨session.pool.settle register temporary, session.code⟩ where
  count_eq := by simpa [settle] using orderly.count_eq
  supplies := orderly.supplies
  takes := orderly.takes
  unique := orderly.unique.settle (orderly.count_eq ▸ inRange) isNew
  tended := by
    intro other resident isThere
    rcases List.mem_cons.mp
      ((perm_residents_settle (orderly.count_eq ▸ inRange) temporary).mem_iff.mp isThere) with
      same | isOld
    · obtain ⟨rfl, rfl⟩ := Prod.mk.inj same
      exact ⟨.inl rfl, made, inRange, .inr ⟨List.mem_cons_self, rfl⟩⟩
    · have tended := orderly.tended isOld
      exact ⟨.inr tended.isHere, tended.made, tended.inRange,
        tended.isFilled.imp_right fun unfilled => ⟨List.mem_cons_of_mem _ unfilled.1, unfilled.2⟩⟩

theorem occupied (orderly : Orderly count facts here unset session) (inRange : register < count) :
    Orderly count facts (insert ⟨session.pool.nextTemporary⟩ here)
      ((⟨session.pool.nextTemporary⟩, register) :: unset) (occupiedSession session register) := by
  have advances : Orderly count facts here unset ⟨session.pool.advanced, session.code⟩ :=
    orderly.change rfl orderly.unique (Nat.le_succ _) fun isThere =>
      ⟨_, isThere, rfl, fun _ => id, (orderly.tended isThere).isHere⟩
  refine advances.settled inRange (Nat.lt_succ_self _) ?_
  intro other resident isThere same
  have made := (orderly.tended isThere).made
  rw [same] at made
  exact Nat.lt_irrefl _ made

/-- A temporary is made; its register is still to be filled. -/
theorem acquire (orderly : Orderly count facts here unset before)
    (ran : acquire.run before = (.ok acquired, after)) :
    ∃ register < count, acquired.2 = .general register ∧ Proceeds count facts before after ∧
      before.pool.nextTemporary ≤ acquired.1.index ∧ acquired.1.index < after.pool.nextTemporary ∧
      Orderly count facts (insert acquired.1 here) ((acquired.1, register) :: unset) after := by
  rw [RegisterPool.acquire, run_bind] at ran
  split at ran
  next register between vacated =>
    rcases orderly.vacate vacated with ⟨stays, proceeds, inRange, -⟩
    rw [run_occupy] at ran
    cases ran
    exact ⟨register, inRange, rfl, proceeds.trans ⟨Nat.le_succ _, subset_rfl⟩, proceeds.next_le,
      Nat.lt_succ_self _, stays.occupied inRange⟩
  next => cases ran

theorem code_acquire_alone (orderly : Orderly count facts ∅ unset before)
    (ran : RegisterPool.acquire.run before = (.ok acquired, after)) : after.code = before.code := by
  rw [RegisterPool.acquire, run_bind] at ran
  split at ran
  next register between vacated =>
    have same := orderly.vacate_alone vacated
    rw [run_occupy] at ran
    rw [← (Prod.mk.inj ran).2, ← same]
    rfl
  next => cases ran

/-! ## Bringing temporaries back -/

/-- Changes that leave the temporaries where they are and pinned as they are. -/
theorem mapResidents (orderly : Orderly count facts here unset session)
    {change : Resident → Resident}
    (same : ∀ resident, (change resident).temporary = resident.temporary)
    (staysPinned : unset ≠ [] → ∀ resident, resident.isPinned = true →
      (change resident).isPinned = true) :
    Orderly count facts here unset ⟨session.pool.mapResidents change, session.code⟩ := by
  refine orderly.change (by simp [RegisterPool.mapResidents]) ?_ (Nat.le_refl _) ?_
  · have unique := orderly.unique
    unfold Unique at unique ⊢
    rw [residents_mapResidents, List.map_map]
    convert unique using 2
    funext entry
    exact same entry.2
  · intro register resident isThere
    rw [residents_mapResidents] at isThere
    rcases List.mem_map.mp isThere with ⟨⟨_, old⟩, wasThere, sameEntry⟩
    obtain ⟨rfl, rfl⟩ := Prod.mk.inj sameEntry
    exact ⟨old, wasThere, (same old).symm, fun isUnset => staysPinned isUnset old,
      (same old).symm ▸ (orderly.tended wasThere).isHere⟩

theorem pinned (orderly : Orderly count facts here unset session) (temporaries : List Temporary) :
    Orderly count facts here unset (pinnedSession session temporaries) := by
  induction temporaries generalizing session with
  | nil => exact orderly
  | cons temporary rest ih =>
    have first : Orderly count facts here unset ⟨session.pool.pin temporary, session.code⟩ :=
      orderly.mapResidents (fun resident => by split <;> rfl) fun _ resident isPinned => by
        split
        · rfl
        · exact isPinned
    exact ih first

theorem proceeds_pinned (session : Session) (temporaries : List Temporary) :
    Proceeds count facts session (pinnedSession session temporaries) := by
  refine ⟨Nat.le_of_eq ?_, subset_rfl⟩
  unfold pinnedSession
  induction temporaries generalizing session with
  | nil => rfl
  | cons temporary rest ih => exact ih ⟨session.pool.pin temporary, session.code⟩

section

variable {register : Register} (orderly : Orderly count facts here unset before)
  (made : temporary.index < before.pool.nextTemporary) (isSet : ∀ index, (temporary, index) ∉ unset)
include orderly made isSet

/-- A temporary is in a register, and the register is filled. -/
theorem fetch (ran : (fetch temporary).run before = (.ok register, after)) :
    Orderly count facts (insert temporary here) unset after ∧ Proceeds count facts before after ∧
      ∃ index ∈ filledBehind count facts after.code.toList, register = .general index := by
  rw [run_fetch] at ran
  split at ran
  next index found =>
    cases ran
    rcases exists_of_registerOf?_eq_some found with ⟨resident, isThere, rfl⟩
    have isFilled := (orderly.tended isThere).isFilled.resolve_right fun unfilled =>
      isSet _ unfilled.1
    exact ⟨orderly.mono (Set.subset_insert _ _), .refl, index, isFilled, rfl⟩
  next absent =>
    split at ran
    next slot _ =>
      rw [run_reload] at ran
      split at ran
      next index between vacated =>
        rcases orderly.vacate vacated with ⟨stays, proceeds, inRange, wasThere⟩
        cases ran
        have freed : Orderly count facts here unset ⟨between.pool.slotFreed temporary slot,
            between.code⟩ :=
          stays.change rfl stays.unique (Nat.le_refl _) fun isThere =>
            ⟨_, isThere, rfl, fun _ => id, (stays.tended isThere).isHere⟩
        have settles := freed.settled inRange (Nat.lt_of_lt_of_le made proceeds.next_le)
          fun other resident isThere =>
            ne_of_registerOf?_eq_none absent (wasThere other resident isThere)
        have loads :=
          settles.emit (.loadStack (.general index) (between.pool.spillBase + slot)) rfl nofun
          nofun (by rintro _ ⟨⟩; exact inRange)
        have isFilled : index ∈ filledBehind count facts
            (reloadedSession between temporary slot index).code.toList := by
          rw [reloadedSession, Array.toList_push, filledBehind_concat, leaves_of_keepsRegisters rfl]
          exact .inr rfl
        exact ⟨loads.set isFilled,
          proceeds.trans ((proceeds_push between rfl).trans ⟨Nat.le_refl _, subset_rfl⟩), index,
          isFilled, rfl⟩
      next => cases ran
    next => cases ran

theorem loadOne (ran : (loadOne temporary).run before = (.ok register, after)) :
    Orderly count facts (insert temporary here) unset after ∧ Proceeds count facts before after ∧
      ∃ index ∈ filledBehind count facts after.code.toList, register = .general index := by
  rw [RegisterPool.loadOne, run_bind, run_pinAll] at ran
  have pins : Proceeds count facts before (pinnedSession before [temporary]) :=
    proceeds_pinned before _
  rcases (orderly.pinned [temporary]).fetch (Nat.lt_of_lt_of_le made pins.next_le) isSet ran with
    ⟨stays, proceeds, isFilled⟩
  exact ⟨stays, pins.trans proceeds, isFilled⟩

end

theorem loadPair {left right : Temporary} {registers : Register × Register}
    (orderly : Orderly count facts here [] before)
    (leftMade : left.index < before.pool.nextTemporary)
    (rightMade : right.index < before.pool.nextTemporary)
    (ran : (loadPair left right).run before = (.ok registers, after)) :
    Orderly count facts (insert right (insert left here)) [] after ∧
      Proceeds count facts before after ∧
      (∃ index ∈ filledBehind count facts after.code.toList, registers.1 = .general index) ∧
        ∃ index ∈ filledBehind count facts after.code.toList, registers.2 = .general index := by
  rw [RegisterPool.loadPair, run_bind, run_pinAll] at ran
  have pins : Proceeds count facts before (pinnedSession before [left, right]) :=
    proceeds_pinned before _
  dsimp only at ran
  rw [run_bind] at ran
  split at ran
  next leftRegister between leftFetched =>
    rcases (orderly.pinned [left, right]).fetch (Nat.lt_of_lt_of_le leftMade pins.next_le)
      nofun leftFetched with
      ⟨leftStays, leftProceeds, leftIndex, leftFilled, rfl⟩
    rw [run_bind] at ran
    split at ran
    next rightRegister last rightFetched =>
      have early := pins.trans leftProceeds
      rcases leftStays.fetch (Nat.lt_of_lt_of_le rightMade early.next_le) nofun rightFetched with
        ⟨rightStays, rightProceeds, isFilled⟩
      cases ran
      exact ⟨rightStays, early.trans rightProceeds,
        ⟨leftIndex, rightProceeds.filled_subset leftFilled, rfl⟩, isFilled⟩
    next => cases ran
  next => cases ran

/-! ## Giving temporaries up -/

/-- A temporary that is released is in no register. -/
theorem release (orderly : Orderly count facts (insert temporary here) unset session) :
    Orderly count facts here unset ⟨session.pool.release temporary, session.code⟩ := by
  have others {register : Nat} {resident : Resident}
      (isThere : (register, resident) ∈ session.pool.residents)
      (differs : resident.temporary ≠ temporary) : resident.temporary ∈ here :=
    (orderly.tended isThere).isHere.resolve_left differs
  unfold RegisterPool.release
  split
  next register found =>
    rcases exists_of_registerOf?_eq_some found with ⟨resident, isThere, rfl⟩
    refine orderly.change (by simp [vacated]) (orderly.unique.vacated _ _) (Nat.le_refl _) ?_
    intro other left isLeft
    have wasThere := mem_of_mem_vacated isLeft
    exact ⟨left, wasThere, rfl, fun _ => id,
      others wasThere (orderly.unique.not_mem_vacated isThere isLeft)⟩
  next absent =>
    have gone {register : Nat} {resident : Resident}
        (isThere : (register, resident) ∈ session.pool.residents) : resident.temporary ∈ here :=
      others isThere (ne_of_registerOf?_eq_none absent isThere)
    split
    · exact orderly.change rfl orderly.unique (Nat.le_refl _) fun isThere =>
        ⟨_, isThere, rfl, fun _ => id, gone isThere⟩
    · exact orderly.change rfl orderly.unique (Nat.le_refl _) fun isThere =>
        ⟨_, isThere, rfl, fun _ => id, gone isThere⟩

theorem nextTemporary_release (pool : RegisterPool) (temporary : Temporary) :
    (pool.release temporary).nextTemporary = pool.nextTemporary := by
  unfold RegisterPool.release
  split
  · rfl
  · split <;> rfl

theorem unpinned (orderly : Orderly count facts here [] session) :
    Orderly count facts here [] ⟨session.pool.unpinAll, session.code⟩ :=
  orderly.mapResidents (fun _ => rfl) fun isUnset => absurd rfl isUnset

/-- Temporaries in registers are spilled one after the other. -/
theorem spillEach {entries : List (Nat × Resident)} (orderly : Orderly count facts here [] before)
    (areThere : ∀ entry ∈ entries, entry ∈ before.pool.residents)
    (nodup : (entries.map fun entry => entry.2.temporary).Nodup)
    (ran : (entries.forM fun entry => spill entry.1 entry.2.temporary).run before =
      (.ok (), after)) :
    Orderly count facts {temporary ∈ here | ∀ entry ∈ entries, entry.2.temporary ≠ temporary}
      [] after ∧
      Proceeds count facts before after := by
  induction entries generalizing here before with
  | nil =>
    cases ran
    exact ⟨orderly.mono fun _ isHere => ⟨isHere, nofun⟩, .refl⟩
  | cons entry rest ih =>
    rcases List.nodup_cons.mp nodup with ⟨notInRest, restNodup⟩
    rw [List.forM_eq_forM, List.forM_cons, run_bind, run_spill] at ran
    have isThere := areThere entry List.mem_cons_self
    have isFilled := (orderly.tended isThere).isFilled.resolve_right nofun
    have stays : Orderly count facts {temporary ∈ here | entry.2.temporary ≠ temporary} []
        (spilledSession before entry.1 entry.2.temporary) := by
      have spilled := orderly.spilled isFilled entry.2.temporary
      refine spilled.change rfl spilled.unique (Nat.le_refl _) fun isLeft => ?_
      refine ⟨_, isLeft, rfl, fun _ => id, (spilled.tended isLeft).isHere, ?_⟩
      have isVacated := residents_moveOut before.pool entry.1 entry.2.temporary ▸ isLeft
      exact (orderly.unique.not_mem_vacated isThere isVacated).symm
    have stillThere : ∀ other ∈ rest,
        other ∈ (spilledSession before entry.1 entry.2.temporary).pool.residents := by
      intro other isOther
      refine (residents_moveOut before.pool entry.1 entry.2.temporary).symm ▸ mem_vacated_of_ne
        (areThere other (List.mem_cons_of_mem _ isOther)) fun same => notInRest ?_
      exact List.mem_map.mpr ⟨other, isOther, same⟩
    rcases ih stays stillThere restNodup ran with ⟨final, proceeds⟩
    refine ⟨final.mono ?_, (proceeds_spilled _ _ _).trans proceeds⟩
    rintro temporary ⟨⟨isHere, differs⟩, others⟩
    refine ⟨isHere, fun other isOther => ?_⟩
    rcases List.mem_cons.mp isOther with rfl | inRest
    · exact differs
    · exact others other inRest

theorem spillAllExcept {kept : List Temporary} (orderly : Orderly count facts here [] before)
    (ran : (spillAllExcept kept).run before = (.ok (), after)) :
    Orderly count facts {temporary ∈ here | temporary ∈ kept} [] after ∧
      Proceeds count facts before after := by
  rw [RegisterPool.spillAllExcept, run_bind, run_get] at ran
  dsimp only at ran
  generalize sorted : sortBy _ _ = ordered at ran
  have perm : ordered.Perm (before.pool.residents.filter fun entry =>
      !kept.contains entry.2.temporary) :=
    sorted ▸ perm_sortBy _ _
  -- only what is in a register now can be in one afterwards
  have tight : Orderly count facts
      {temporary ∈ here | ∃ entry ∈ before.pool.residents, entry.2.temporary = temporary}
      [] before :=
    orderly.change rfl orderly.unique (Nat.le_refl _) fun isThere =>
      ⟨_, isThere, rfl, fun _ => id, (orderly.tended isThere).isHere, _, isThere, rfl⟩
  rcases tight.spillEach (fun entry isEntry => (List.mem_filter.mp (perm.mem_iff.mp isEntry)).1)
    ((perm.map _).nodup_iff.mpr (orderly.unique.sublist (List.Sublist.map _ List.filter_sublist)))
    ran with
    ⟨final, proceeds⟩
  refine ⟨final.mono ?_, proceeds⟩
  rintro _ ⟨⟨isHere, entry, isThere, rfl⟩, notSpilled⟩
  refine ⟨isHere, Classical.byContradiction fun notKept => notSpilled entry ?_ rfl⟩
  exact perm.mem_iff.mpr (List.mem_filter.mpr ⟨isThere, by simpa using notKept⟩)

/-- A temporary is made in a register that is filled while no temporary is in a register. -/
theorem acquireSpecific {index : Nat} (orderly : Orderly count facts ∅ [] before)
    (inRange : index < count) (isFilled : index ∈ filledBehind count facts before.code.toList)
    (ran : (acquireSpecific index).run before = (.ok acquired, after)) :
    Orderly count facts {acquired.1} [] after ∧ Proceeds count facts before after ∧
      acquired.1.index < after.pool.nextTemporary := by
  have free : before.pool.content? index = none := by
    cases held : before.pool.content? index with
    | none => rfl
    | some resident => exact (orderly.tended (mem_residents_of_content? held)).isHere.elim
  rw [run_acquireSpecific, free] at ran
  dsimp only at ran
  rw [run_occupy] at ran
  cases ran
  exact ⟨((orderly.occupied inRange).set isFilled).mono (by simp), ⟨Nat.le_succ _, subset_rfl⟩,
    Nat.lt_succ_self _⟩

end Orderly

end

end RegisterPool

end Decaf
