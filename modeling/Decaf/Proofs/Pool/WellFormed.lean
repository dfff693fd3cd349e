import Decaf.Code.RegisterPool
import Mathlib.Data.List.Nodup
import Mathlib.Data.List.Perm.Basic

/-!
# Well-formed register pools

A temporary of a well-formed pool is in one place only: in one register or in one spill slot. The
spill slots in use and those free for further use are together all the slots that the pool has asked
for. Each change of a single register or slot keeps a pool well-formed; what the pool's operations
do is put together from these changes.
-/

namespace Decaf

namespace RegisterPool

variable {pool : RegisterPool} {register : Nat} {resident : Resident} {temporary : Temporary}

/-- Nothing is lost or counted twice: registers have names of their own, every temporary is in one
place, and every spill slot is either in use once or free once. -/
structure WellFormed (pool : RegisterPool) : Prop where
  registers_le : pool.registers.length ≤ Register.nameCount
  overlaid_eq : pool.overlaid = []
  resident_unique : ∀ {register other first second}, pool.content? register = some first →
    pool.content? other = some second → first.temporary = second.temporary → register = other
  spilled_nodup : (pool.spilled.map Spilled.temporary).Nodup
  resident_not_spilled : ∀ {register resident entry}, pool.content? register = some resident →
    entry ∈ pool.spilled → resident.temporary ≠ entry.temporary
  slots_perm : (pool.spilled.map Spilled.slot ++ pool.freeSlots).Perm (List.range pool.slotCount)
  resident_lt : ∀ {register resident}, pool.content? register = some resident →
    resident.temporary.index < pool.nextTemporary
  spilled_lt : ∀ {entry}, entry ∈ pool.spilled → entry.temporary.index < pool.nextTemporary

/-- Whether a temporary is in a register. -/
def IsResident (pool : RegisterPool) (temporary : Temporary) : Prop :=
  ∃ register resident, pool.content? register = some resident ∧ resident.temporary = temporary

/-- Whether a temporary waits for its use. -/
def IsLive (pool : RegisterPool) (temporary : Temporary) : Prop :=
  (∃ register resident, pool.content? register = some resident ∧ resident.temporary = temporary) ∨
    ∃ entry ∈ pool.spilled, entry.temporary = temporary

/-! ## Views -/

theorem content?_eq_some_iff :
    pool.content? register = some resident ↔ pool.registers[register]? = some (some resident) := by
  simp [content?, Option.join_eq_some_iff]

theorem lt_of_content?_eq_some
    (held : pool.content? register = some resident) : register < pool.registers.length := by
  rw [content?_eq_some_iff] at held
  exact (List.getElem?_eq_some_iff.mp held).1

theorem mem_residents_iff (wellFormed : pool.WellFormed) :
    (register, resident) ∈ pool.residents ↔ pool.content? register = some resident := by
  simp only [residents, wellFormed.overlaid_eq, List.append_nil, List.mem_filterMap, Prod.exists,
    List.mem_zipIdx_iff_getElem?, Option.map_eq_some_iff, Prod.mk.injEq, content?_eq_some_iff]
  constructor
  · rintro ⟨content, index, found, held, rfl, rfl, rfl⟩
    exact found
  · intro found
    exact ⟨some resident, register, found, resident, rfl, rfl, rfl⟩

theorem registerOf?_eq_some_iff (wellFormed : pool.WellFormed) :
    pool.registerOf? temporary = some register ↔
      ∃ resident, pool.content? register = some resident ∧ resident.temporary = temporary := by
  simp only [registerOf?, Option.map_eq_some_iff]
  constructor
  · rintro ⟨⟨index, resident⟩, found, rfl⟩
    have holds := List.find?_some found
    have mem := List.mem_of_find?_eq_some found
    exact ⟨resident, (mem_residents_iff wellFormed).mp mem, by simpa using holds⟩
  · rintro ⟨resident, held, rfl⟩
    have mem := (mem_residents_iff wellFormed).mpr held
    rcases found : pool.residents.find? fun entry => entry.2.temporary = resident.temporary with
      _ | ⟨index, other⟩
    · have absent := List.find?_eq_none.mp found _ mem
      simp at absent
    · have holds := List.find?_some found
      have otherHeld := (mem_residents_iff wellFormed).mp (List.mem_of_find?_eq_some found)
      exact ⟨(index, other), found,
        wellFormed.resident_unique otherHeld held (by simpa using holds)⟩

theorem registerOf?_eq_none_iff (wellFormed : pool.WellFormed) :
    pool.registerOf? temporary = none ↔
      ∀ register resident, pool.content? register = some resident →
        resident.temporary ≠ temporary := by
  constructor
  · intro absent register resident held same
    have found := (registerOf?_eq_some_iff wellFormed).mpr ⟨resident, held, same⟩
    simp [absent] at found
  · intro none
    rcases found : pool.registerOf? temporary with _ | register
    · rfl
    · rcases (registerOf?_eq_some_iff wellFormed).mp found with ⟨resident, held, same⟩
      exact absurd same (none register resident held)

theorem slotOf?_eq_some_iff (wellFormed : pool.WellFormed) {slot : Nat} :
    pool.slotOf? temporary = some slot ↔ ⟨temporary, slot⟩ ∈ pool.spilled := by
  simp only [slotOf?, Option.map_eq_some_iff]
  constructor
  · rintro ⟨entry, found, rfl⟩
    have holds := List.find?_some found
    have same : entry.temporary = temporary := by simpa using holds
    subst same
    exact List.mem_of_find?_eq_some found
  · intro mem
    rcases found : pool.spilled.find? fun entry => entry.temporary = temporary with _ | entry
    · have absent := List.find?_eq_none.mp found _ mem
      simp at absent
    · have holds := List.find?_some found
      have same : entry.temporary = temporary := by simpa using holds
      have equal := List.inj_on_of_nodup_map wellFormed.spilled_nodup
        (List.mem_of_find?_eq_some found) mem same
      exact ⟨entry, found, by rw [equal]⟩

theorem slotOf?_eq_none_iff :
    pool.slotOf? temporary = none ↔ ∀ entry ∈ pool.spilled, entry.temporary ≠ temporary := by
  simp [slotOf?, List.find?_eq_none]

theorem slot_lt (wellFormed : pool.WellFormed) {entry : Spilled}
    (mem : entry ∈ pool.spilled) : entry.slot < pool.slotCount := by
  have inUse : entry.slot ∈ pool.spilled.map Spilled.slot ++ pool.freeSlots :=
    List.mem_append_left _ (List.mem_map_of_mem mem)
  exact List.mem_range.mp (wellFormed.slots_perm.mem_iff.mp inUse)

theorem slots_nodup (wellFormed : pool.WellFormed) :
    (pool.spilled.map Spilled.slot ++ pool.freeSlots).Nodup :=
  wellFormed.slots_perm.nodup_iff.mpr List.nodup_range

theorem spilled_eq_of_slot_eq (wellFormed : pool.WellFormed)
    {first second : Spilled} (firstMem : first ∈ pool.spilled) (secondMem : second ∈ pool.spilled)
    (same : first.slot = second.slot) : first = second :=
  List.inj_on_of_nodup_map (List.nodup_append.mp (slots_nodup wellFormed)).1 firstMem secondMem same

theorem freeRegister?_eq_some (wellFormed : pool.WellFormed)
    (found : pool.freeRegister? = some register) :
    register < pool.registers.length ∧ pool.content? register = none := by
  simp only [freeRegister?, Option.map_eq_some_iff] at found
  rcases found with ⟨index, found, rfl⟩
  rcases List.findIdx?_eq_some_iff_getElem.mp found with ⟨bound, isNone, _⟩
  have named : index % Register.nameCount = index :=
    Nat.mod_eq_of_lt (by have := wellFormed.registers_le; omega)
  rw [named]
  refine ⟨bound, ?_⟩
  simp only [content?, List.getElem?_eq_getElem bound]
  simpa using isNone

theorem exists_content?_of_freeRegister?_eq_none
    (none : pool.freeRegister? = none) (bound : register < pool.registers.length) :
    ∃ resident, pool.content? register = some resident := by
  simp only [freeRegister?, Option.map_eq_none_iff, List.findIdx?_eq_none_iff] at none
  have held := none _ (List.getElem_mem bound)
  simp only [content?, List.getElem?_eq_getElem bound, Option.join_some]
  exact Option.isSome_iff_exists.mp (by simpa using held)

/-! ## Changes of one register -/

theorem content?_settle (pool : RegisterPool)
    (bound : register < pool.registers.length) (temporary : Temporary) (other : Nat) :
    (pool.settle register temporary).content? other =
      if other = register then some ⟨temporary, pool.clock + 1, true⟩ else pool.content? other := by
  by_cases same : register = other
  · subst same
    simp [content?, settle, bound]
  · have different : ¬other = register := fun equal => same equal.symm
    simp [content?, settle, same, different]

theorem content?_vacated (pool : RegisterPool) (register : Nat) (temporary : Temporary)
    (other : Nat) :
    (pool.vacated register temporary).content? other =
      if other = register then none else pool.content? other := by
  by_cases same : register = other
  · subst same
    simp only [content?, vacated, List.getElem?_set_self', if_true]
    rcases pool.registers[register]? with _ | content <;> simp
  · have different : ¬other = register := fun equal => same equal.symm
    simp [content?, vacated, same, different]

theorem content?_mapResidents (pool : RegisterPool) (change : Resident → Resident)
    (register : Nat) :
    (pool.mapResidents change).content? register = (pool.content? register).map change := by
  simp only [content?, mapResidents, List.getElem?_map]
  rcases pool.registers[register]? with _ | _ | resident <;> rfl

theorem overlaid_vacated (wellFormed : pool.WellFormed)
    (held : pool.content? register = some resident) :
    (pool.vacated register resident.temporary).overlaid = [] := by
  simp [vacated, overlay, held, wellFormed.overlaid_eq]

theorem overlaid_settle (wellFormed : pool.WellFormed)
    (free : pool.content? register = none) (temporary : Temporary) :
    (pool.settle register temporary).overlaid = [] := by
  simp [settle, overlay, free, wellFormed.overlaid_eq]

/-! ## Moving a temporary out -/

section

section

variable (pool register temporary)

theorem content?_moveOut (other : Nat) :
    (pool.moveOut register temporary).2.content? other =
      if other = register then none else pool.content? other := by
  rw [← content?_vacated pool register temporary other]
  rcases slots : pool.freeSlots with _ | ⟨slot, rest⟩ <;> simp [moveOut, slots, content?]

@[simp]
theorem spilled_moveOut :
    (pool.moveOut register temporary).2.spilled =
      ⟨temporary, (pool.moveOut register temporary).1⟩ :: pool.spilled := by
  rcases slots : pool.freeSlots with _ | ⟨slot, rest⟩ <;> simp [moveOut, slots]

@[simp]
theorem spillBase_moveOut :
    (pool.moveOut register temporary).2.spillBase = pool.spillBase := by
  rcases slots : pool.freeSlots with _ | ⟨slot, rest⟩ <;> simp [moveOut, slots, vacated]

@[simp]
theorem nextTemporary_moveOut :
    (pool.moveOut register temporary).2.nextTemporary = pool.nextTemporary := by
  rcases slots : pool.freeSlots with _ | ⟨slot, rest⟩ <;> simp [moveOut, slots, vacated]

@[simp]
theorem length_registers_moveOut :
    (pool.moveOut register temporary).2.registers.length = pool.registers.length := by
  rcases slots : pool.freeSlots with _ | ⟨slot, rest⟩ <;> simp [moveOut, slots, vacated]

theorem slotCount_le_moveOut :
    pool.slotCount ≤ (pool.moveOut register temporary).2.slotCount := by
  rcases slots : pool.freeSlots with _ | ⟨slot, rest⟩ <;> simp [moveOut, slots, vacated]

end

/-- The slot that a temporary is moved to was not in use, and now the slots are again all in use or
free. -/
theorem slots_perm_moveOut (wellFormed : pool.WellFormed) (register : Nat) (temporary : Temporary) :
    ((pool.moveOut register temporary).2.spilled.map Spilled.slot ++
        (pool.moveOut register temporary).2.freeSlots).Perm
      (List.range (pool.moveOut register temporary).2.slotCount) := by
  have perm := wellFormed.slots_perm
  rcases slots : pool.freeSlots with _ | ⟨slot, rest⟩
  · rw [slots, List.append_nil] at perm
    simp only [moveOut, slots, vacated, List.map_cons, List.append_nil, List.range_succ]
    exact (perm.cons pool.slotCount).trans (List.perm_append_singleton _ _).symm
  · rw [slots] at perm
    simp only [moveOut, slots, vacated, List.map_cons, List.cons_append]
    exact List.perm_middle.symm.trans perm

theorem wellFormed_moveOut (wellFormed : pool.WellFormed)
    (held : pool.content? register = some resident) :
    (pool.moveOut register resident.temporary).2.WellFormed := by
  have kept : ∀ {other content},
      (pool.moveOut register resident.temporary).2.content? other = some content →
        other ≠ register ∧ pool.content? other = some content := by
    intro other content found
    rw [content?_moveOut] at found
    split at found
    · simp at found
    · exact ⟨‹_›, found⟩
  constructor
  · rw [length_registers_moveOut]
    exact wellFormed.registers_le
  · have none := overlaid_vacated wellFormed held
    rcases slots : pool.freeSlots with _ | ⟨slot, rest⟩ <;> simpa [moveOut, slots] using none
  · intro first second firstContent secondContent firstHeld secondHeld same
    exact wellFormed.resident_unique (kept firstHeld).2 (kept secondHeld).2 same
  · rw [spilled_moveOut, List.map_cons, List.nodup_cons]
    refine ⟨?_, wellFormed.spilled_nodup⟩
    intro spilled
    rcases List.mem_map.mp spilled with ⟨entry, mem, same⟩
    exact wellFormed.resident_not_spilled held mem same.symm
  · intro other content entry otherHeld mem same
    rcases kept otherHeld with ⟨different, stillHeld⟩
    rw [spilled_moveOut] at mem
    rcases List.mem_cons.mp mem with rfl | mem
    · exact different (wellFormed.resident_unique stillHeld held same)
    · exact wellFormed.resident_not_spilled stillHeld mem same
  · exact slots_perm_moveOut wellFormed register resident.temporary
  · intro other content otherHeld
    rw [nextTemporary_moveOut]
    exact wellFormed.resident_lt (kept otherHeld).2
  · intro entry mem
    rw [spilled_moveOut] at mem
    rw [nextTemporary_moveOut]
    rcases List.mem_cons.mp mem with rfl | mem
    · exact wellFormed.resident_lt held
    · exact wellFormed.spilled_lt mem

theorem isLive_moveOut (held : pool.content? register = some resident) (temporary : Temporary) :
    (pool.moveOut register resident.temporary).2.IsLive temporary ↔ pool.IsLive temporary := by
  simp only [IsLive, content?_moveOut, spilled_moveOut, List.mem_cons, exists_eq_or_imp]
  constructor
  · rintro (⟨other, content, found, same⟩ | same | spilled)
    · split at found
      · simp at found
      · exact .inl ⟨other, content, found, same⟩
    · exact .inl ⟨register, resident, held, same⟩
    · exact .inr spilled
  · rintro (⟨other, content, found, same⟩ | spilled)
    · by_cases equal : other = register
      · subst equal
        rw [held, Option.some.injEq] at found
        subst found
        exact .inr (.inl same)
      · exact .inl ⟨other, content, by rw [if_neg equal]; exact found, same⟩
    · exact .inr (.inr spilled)

end

/-! ## Filling and emptying a place -/

section

variable {pool : RegisterPool} {register slot : Nat} {temporary : Temporary}
variable {resident : Resident}

theorem not_isLive_iff :
    ¬pool.IsLive temporary ↔
      (∀ register resident, pool.content? register = some resident →
        resident.temporary ≠ temporary) ∧
        ∀ entry ∈ pool.spilled, entry.temporary ≠ temporary := by
  simp [IsLive]

theorem wellFormed_settle (wellFormed : pool.WellFormed) (bound : register < pool.registers.length)
    (free : pool.content? register = none) (dead : ¬pool.IsLive temporary)
    (made : temporary.index < pool.nextTemporary) :
    (pool.settle register temporary).WellFormed := by
  rcases not_isLive_iff.mp dead with ⟨notResident, notSpilled⟩
  constructor
  · simpa [settle] using wellFormed.registers_le
  · exact overlaid_settle wellFormed free temporary
  · intro first second firstContent secondContent firstHeld secondHeld same
    rw [content?_settle _ bound] at firstHeld secondHeld
    split at firstHeld <;> split at secondHeld
    · simp_all
    · simp only [Option.some.injEq] at firstHeld
      subst firstHeld
      exact absurd same.symm (notResident _ _ secondHeld)
    · simp only [Option.some.injEq] at secondHeld
      subst secondHeld
      exact absurd same (notResident _ _ firstHeld)
    · exact wellFormed.resident_unique firstHeld secondHeld same
  · exact wellFormed.spilled_nodup
  · intro other content entry otherHeld mem
    rw [content?_settle _ bound] at otherHeld
    split at otherHeld
    · simp only [Option.some.injEq] at otherHeld
      subst otherHeld
      exact fun same => notSpilled entry mem same.symm
    · exact wellFormed.resident_not_spilled otherHeld mem
  · exact wellFormed.slots_perm
  · intro other content otherHeld
    rw [content?_settle _ bound] at otherHeld
    split at otherHeld
    · simp only [Option.some.injEq] at otherHeld
      subst otherHeld
      exact made
    · exact wellFormed.resident_lt otherHeld
  · exact wellFormed.spilled_lt

theorem isLive_settle (pool : RegisterPool) {register : Nat} {temporary : Temporary}
    (bound : register < pool.registers.length) (free : pool.content? register = none)
    (other : Temporary) :
    (pool.settle register temporary).IsLive other ↔ other = temporary ∨ pool.IsLive other := by
  simp only [IsLive, content?_settle _ bound]
  constructor
  · rintro (⟨index, content, found, same⟩ | spilled)
    · split at found
      · simp only [Option.some.injEq] at found
        subst found
        exact .inl same.symm
      · exact .inr (.inl ⟨index, content, found, same⟩)
    · exact .inr (.inr spilled)
  · rintro (rfl | ⟨index, content, found, same⟩ | spilled)
    · exact .inl ⟨register, _, if_pos rfl, rfl⟩
    · have different : index ≠ register := by
        rintro rfl
        simp [free] at found
      exact .inl ⟨index, content, by rw [if_neg different]; exact found, same⟩
    · exact .inr spilled

theorem wellFormed_vacated (wellFormed : pool.WellFormed)
    (held : pool.content? register = some resident) :
    (pool.vacated register resident.temporary).WellFormed := by
  have kept : ∀ {other content},
      (pool.vacated register resident.temporary).content? other = some content →
        pool.content? other = some content := by
    intro other content found
    rw [content?_vacated] at found
    split at found
    · simp at found
    · exact found
  constructor
  · simpa [vacated] using wellFormed.registers_le
  · exact overlaid_vacated wellFormed held
  · intro first second firstContent secondContent firstHeld secondHeld same
    exact wellFormed.resident_unique (kept firstHeld) (kept secondHeld) same
  · exact wellFormed.spilled_nodup
  · intro other content entry otherHeld mem
    exact wellFormed.resident_not_spilled (kept otherHeld) mem
  · exact wellFormed.slots_perm
  · intro other content otherHeld
    exact wellFormed.resident_lt (kept otherHeld)
  · exact wellFormed.spilled_lt

theorem isLive_vacated (wellFormed : pool.WellFormed)
    (held : pool.content? register = some resident) (other : Temporary) :
    (pool.vacated register resident.temporary).IsLive other ↔
      other ≠ resident.temporary ∧ pool.IsLive other := by
  simp only [IsLive, content?_vacated]
  constructor
  · rintro (⟨index, content, found, rfl⟩ | ⟨entry, mem, rfl⟩)
    · split at found
      · simp at found
      · exact ⟨fun same => ‹¬index = register› (wellFormed.resident_unique found held same),
          .inl ⟨index, content, found, rfl⟩⟩
    · exact ⟨fun same => wellFormed.resident_not_spilled held mem same.symm, .inr ⟨entry, mem, rfl⟩⟩
  · rintro ⟨different, ⟨index, content, found, rfl⟩ | spilled⟩
    · have elsewhere : index ≠ register := by
        rintro rfl
        rw [held, Option.some.injEq] at found
        exact different (by rw [found])
      exact .inl ⟨index, content, by rw [if_neg elsewhere]; exact found, rfl⟩
    · exact .inr spilled

/-- The pool with a spill slot free again, and the temporary in it in no slot. -/
def slotFreed (pool : RegisterPool) (temporary : Temporary) (slot : Nat) : RegisterPool :=
  { pool with
    spilled := pool.spilled.eraseP fun entry => entry.temporary = temporary
    freeSlots := slot :: pool.freeSlots }

@[simp]
theorem content?_slotFreed (pool : RegisterPool) (temporary : Temporary) (slot register : Nat) :
    (pool.slotFreed temporary slot).content? register = pool.content? register :=
  rfl

section

variable (wellFormed : pool.WellFormed) (mem : ⟨temporary, slot⟩ ∈ pool.spilled)
include wellFormed mem

theorem spilled_perm_slotFreed :
    pool.spilled.Perm (⟨temporary, slot⟩ :: (pool.slotFreed temporary slot).spilled) := by
  rcases @List.exists_of_eraseP _ (fun entry => decide (entry.temporary = temporary)) _ _ mem
      (decide_eq_true rfl) with
    ⟨entry, before, behind, _, holds, split, erased⟩
  have entryMem : entry ∈ pool.spilled := by rw [split]; simp
  have equal : entry = ⟨temporary, slot⟩ :=
    List.inj_on_of_nodup_map wellFormed.spilled_nodup entryMem mem (by simpa using holds)
  rw [slotFreed, erased, ← equal, split]
  exact List.perm_middle

theorem mem_spilled_slotFreed {entry : Spilled} :
    entry ∈ (pool.slotFreed temporary slot).spilled ↔
      entry ∈ pool.spilled ∧ entry.temporary ≠ temporary := by
  have perm := spilled_perm_slotFreed wellFormed mem
  have nodup := (perm.map Spilled.temporary).nodup_iff.mp wellFormed.spilled_nodup
  rw [List.map_cons, List.nodup_cons] at nodup
  constructor
  · intro stays
    refine ⟨perm.mem_iff.mpr (List.mem_cons_of_mem _ stays), ?_⟩
    rintro rfl
    exact nodup.1 (List.mem_map.mpr ⟨entry, stays, rfl⟩)
  · rintro ⟨wasThere, different⟩
    rcases List.mem_cons.mp (perm.mem_iff.mp wasThere) with rfl | stays
    · exact absurd rfl different
    · exact stays

theorem wellFormed_slotFreed : (pool.slotFreed temporary slot).WellFormed := by
  have perm := spilled_perm_slotFreed wellFormed mem
  constructor
  · exact wellFormed.registers_le
  · exact wellFormed.overlaid_eq
  · exact wellFormed.resident_unique
  · have nodup := (perm.map Spilled.temporary).nodup_iff.mp wellFormed.spilled_nodup
    exact (List.nodup_cons.mp nodup).2
  · intro register resident entry held stays
    exact wellFormed.resident_not_spilled held ((mem_spilled_slotFreed wellFormed mem).mp stays).1
  · have slots := wellFormed.slots_perm
    have moved := ((perm.map Spilled.slot).append_right pool.freeSlots).symm.trans slots
    exact List.perm_middle.trans moved
  · exact wellFormed.resident_lt
  · intro entry stays
    exact wellFormed.spilled_lt ((mem_spilled_slotFreed wellFormed mem).mp stays).1

theorem isLive_slotFreed (other : Temporary) :
    (pool.slotFreed temporary slot).IsLive other ↔ other ≠ temporary ∧ pool.IsLive other := by
  simp only [IsLive, content?_slotFreed, mem_spilled_slotFreed wellFormed mem]
  constructor
  · rintro (⟨register, resident, held, rfl⟩ | ⟨entry, ⟨stays, different⟩, rfl⟩)
    · exact ⟨wellFormed.resident_not_spilled held mem, .inl ⟨register, resident, held, rfl⟩⟩
    · exact ⟨different, .inr ⟨entry, stays, rfl⟩⟩
  · rintro ⟨different, resident | ⟨entry, stays, rfl⟩⟩
    · exact .inl resident
    · exact .inr ⟨entry, ⟨stays, different⟩, rfl⟩

end

end

/-! ## Pins, and the empty pool -/

section

variable {pool : RegisterPool} {change : Resident → Resident}

theorem isLive_mapResidents (keeps : ∀ resident, (change resident).temporary = resident.temporary)
    (temporary : Temporary) :
    (pool.mapResidents change).IsLive temporary ↔ pool.IsLive temporary := by
  simp only [IsLive, content?_mapResidents, Option.map_eq_some_iff]
  constructor
  · rintro (⟨register, _, ⟨resident, held, rfl⟩, same⟩ | spilled)
    · exact .inl ⟨register, resident, held, (keeps resident).symm.trans same⟩
    · exact .inr spilled
  · rintro (⟨register, resident, held, same⟩ | spilled)
    · exact .inl ⟨register, change resident, ⟨resident, held, rfl⟩, (keeps resident).trans same⟩
    · exact .inr spilled

theorem wellFormed_mapResidents (wellFormed : pool.WellFormed)
    (keeps : ∀ resident, (change resident).temporary = resident.temporary) :
    (pool.mapResidents change).WellFormed := by
  have before : ∀ {register resident},
      (pool.mapResidents change).content? register = some resident →
      ∃ original, pool.content? register = some original ∧
        original.temporary = resident.temporary := by
    intro register resident held
    rw [content?_mapResidents, Option.map_eq_some_iff] at held
    rcases held with ⟨original, held, rfl⟩
    exact ⟨original, held, (keeps original).symm⟩
  constructor
  · simpa [mapResidents] using wellFormed.registers_le
  · simp [mapResidents, wellFormed.overlaid_eq]
  · intro register other first second firstHeld secondHeld same
    rcases before firstHeld with ⟨firstOriginal, firstHeld, firstEq⟩
    rcases before secondHeld with ⟨secondOriginal, secondHeld, secondEq⟩
    exact wellFormed.resident_unique firstHeld secondHeld (by rw [firstEq, secondEq, same])
  · exact wellFormed.spilled_nodup
  · intro register resident entry held mem
    rcases before held with ⟨original, held, equal⟩
    rw [← equal]
    exact wellFormed.resident_not_spilled held mem
  · exact wellFormed.slots_perm
  · intro register resident held
    rcases before held with ⟨original, held, equal⟩
    rw [← equal]
    exact wellFormed.resident_lt held
  · exact wellFormed.spilled_lt

end

theorem content?_start (registerCount spillBase register : Nat) :
    (start registerCount spillBase).content? register = none := by
  rcases held : (start registerCount spillBase).content? register with _ | resident
  · rfl
  · rw [content?_eq_some_iff] at held
    simp [start, List.getElem?_replicate] at held

theorem wellFormed_start {registerCount : Nat} (named : registerCount ≤ Register.nameCount)
    (spillBase : Nat) : (start registerCount spillBase).WellFormed := by
  constructor
  · simpa [start] using named
  · rfl
  · intro register other first second held
    simp [content?_start] at held
  · exact List.nodup_nil
  · intro register resident entry held
    simp [content?_start] at held
  · exact .refl _
  · intro register resident held
    simp [content?_start] at held
  · intro entry mem
    simp [start] at mem

theorem not_isLive_start (registerCount spillBase : Nat) (temporary : Temporary) :
    ¬(start registerCount spillBase).IsLive temporary := by
  rw [not_isLive_iff]
  constructor
  · intro register resident held
    simp [content?_start] at held
  · intro entry mem
    simp [start] at mem

end RegisterPool

end Decaf
