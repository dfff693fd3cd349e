import Decaf.Proofs.Pool.Loads
import Mathlib.Tactic.Tauto

/-!
# Using temporaries up

What an instruction needs of the pool: its operands are brought into registers and pinned, they are
used up, and a temporary for the result is made. A register is missing only if every register holds
a pinned temporary, so it is enough to know which temporaries can be pinned and that there are more
registers than that.
-/

namespace Decaf

namespace RegisterPool

/-! ## Used and made -/

theorem WellFormed.lt_of_isLive {pool : RegisterPool} (wellFormed : pool.WellFormed)
    {temporary : Temporary} (isLive : pool.IsLive temporary) :
    temporary.index < pool.nextTemporary := by
  rcases isLive with ⟨_, _, held, rfl⟩ | ⟨_, isSpilled, rfl⟩
  · exact wellFormed.resident_lt held
  · exact wellFormed.spilled_lt isSpilled

/-- Some temporaries were used up and some were made. -/
structure Exchanges (before after : RegisterPool) (used made : List Temporary) : Prop where
  isLive_iff : ∀ temporary, after.IsLive temporary ↔
    (before.IsLive temporary ∧ temporary ∉ used) ∨ temporary ∈ made
  fresh : ∀ temporary ∈ made, before.nextTemporary ≤ temporary.index

namespace Exchanges

variable {before between after : RegisterPool} {used made laterUsed laterMade : List Temporary}

theorem refl (pool : RegisterPool) : Exchanges pool pool [] [] := ⟨by simp, by simp⟩

/-- What one step makes and a later one does not use is still there. -/
theorem keep (early : Exchanges before between used made)
    (late : Exchanges between after laterUsed laterMade)
    (next_le : before.nextTemporary ≤ between.nextTemporary)
    (isKept : ∀ temporary ∈ made, temporary ∉ laterUsed) :
    Exchanges before after (used ++ laterUsed) (made ++ laterMade) where
  isLive_iff temporary := by
    have kept := isKept temporary
    rw [late.isLive_iff, early.isLive_iff]
    simp only [List.mem_append, not_or]
    tauto
  fresh temporary isMade := by
    rcases List.mem_append.mp isMade with isEarly | isLate
    · exact early.fresh temporary isEarly
    · exact Nat.le_trans next_le (late.fresh temporary isLate)

/-- What one step makes is used up by the next one. -/
theorem consume (early : Exchanges before between used made)
    (late : Exchanges between after made laterMade) (wellFormed : before.WellFormed)
    (next_le : before.nextTemporary ≤ between.nextTemporary) :
    Exchanges before after used laterMade where
  isLive_iff temporary := by
    have notMade : before.IsLive temporary → temporary ∉ made := by
      intro isLive isMade
      exact Nat.not_lt.mpr (early.fresh temporary isMade) (wellFormed.lt_of_isLive isLive)
    rw [late.isLive_iff, early.isLive_iff]
    tauto
  fresh temporary isMade := Nat.le_trans next_le (late.fresh temporary isMade)

/-- One of the temporaries that a step made is given up again. -/
theorem giveUp {temporary : Temporary} {kept : List Temporary}
    (early : Exchanges before between used made) (late : Exchanges between after [temporary] [])
    (isMade : temporary ∈ made) (wellFormed : before.WellFormed)
    (isKept : ∀ other, other ∈ kept ↔ other ∈ made ∧ other ≠ temporary) :
    Exchanges before after used kept where
  isLive_iff other := by
    have notLive : before.IsLive other → other ≠ temporary := by
      rintro isLive rfl
      exact Nat.not_lt.mpr (early.fresh other isMade) (wellFormed.lt_of_isLive isLive)
    rw [late.isLive_iff, early.isLive_iff, isKept]
    simp only [List.mem_singleton, List.not_mem_nil, or_false]
    tauto
  fresh other otherKept := early.fresh other ((isKept other).mp otherKept).1

end Exchanges

/-! ## Pinned temporaries -/

variable {before after : Session} {moves : List Instruction}

theorem PinnedWithin.of_content {pool other : RegisterPool} {temporaries more : List Temporary}
    (within : pool.PinnedWithin temporaries)
    (kept : ∀ register resident, other.content? register = some resident →
      resident.isPinned = true →
      (∃ place before, pool.content? place = some before ∧ before.isPinned = true ∧
        before.temporary = resident.temporary) ∨ resident.temporary ∈ more) :
    other.PinnedWithin (more ++ temporaries) := by
  intro register resident held isPinned
  rcases kept register resident held isPinned with
    ⟨place, earlier, earlierHeld, wasPinned, same⟩ | isNew
  · exact List.mem_append_right _ (same ▸ within place earlier earlierHeld wasPinned)
  · exact List.mem_append_left _ isNew

namespace Produces

variable {temporary : Temporary} {register : Nat}

section

variable (produces : Produces before after temporary register moves)
include produces

theorem pinnedWithin {pinned : List Temporary}
    (within : before.pool.PinnedWithin pinned) : after.pool.PinnedWithin (temporary :: pinned) := by
  refine @PinnedWithin.of_content _ _ _ [temporary] within ?_
  intro other resident held isPinned
  rw [produces.content?_eq] at held
  split at held
  · cases held
    exact .inr (by simp)
  · exact .inl ⟨other, resident, held, isPinned, rfl⟩

theorem holdsPinned : after.pool.HoldsPinned (.general register) temporary :=
  ⟨register, _, rfl, (produces.content?_eq register).trans (if_pos rfl), rfl, rfl⟩

theorem keepsPinned {other : Register}
    {pinned : Temporary} (holds : before.pool.HoldsPinned other pinned) :
    after.pool.HoldsPinned other pinned := by
  rcases holds with ⟨index, resident, rfl, held, same, isPinned⟩
  refine ⟨index, resident, rfl, ?_, same, isPinned⟩
  rw [produces.content?_eq, if_neg, held]
  rintro rfl
  simp [produces.unpinned resident held] at isPinned

theorem exchanges : before.pool.Exchanges after.pool [] [temporary] where
  isLive_iff other := by
    rw [produces.isLive_iff]
    simp only [List.not_mem_nil, not_false_eq_true, and_true, List.mem_singleton]
    exact or_comm
  fresh other isMade := by
    simp [List.mem_singleton.mp isMade, produces.temporary_eq]

end

end Produces

/-- Temporaries were brought into registers and are pinned there. -/
structure Brings (before after : Session) (temporaries : List Temporary)
    (moves : List Instruction) : Prop extends
    Shuffle before after moves where
  keepsPinned : ∀ {register temporary}, before.pool.HoldsPinned register temporary →
    after.pool.HoldsPinned register temporary
  pinnedWithin : ∀ {pinned}, before.pool.PinnedWithin pinned →
    after.pool.PinnedWithin (temporaries ++ pinned)
  spilled_keeps : ∀ entry ∈ before.pool.spilled, entry.temporary ∉ temporaries →
    entry ∈ after.pool.spilled

namespace Brings

variable {between : Session} {temporaries more : List Temporary} {later : List Instruction}

theorem trans (early : Brings before between temporaries moves)
    (late : Brings between after more later) :
    Brings before after (more ++ temporaries) (moves ++ later) where
  toShuffle := early.toShuffle.trans late.toShuffle
  keepsPinned holds := late.keepsPinned (early.keepsPinned holds)
  pinnedWithin within := by
    rw [List.append_assoc]
    exact late.pinnedWithin (early.pinnedWithin within)
  spilled_keeps entry isSpilled notBrought := by
    rw [List.mem_append, not_or] at notBrought
    exact late.spilled_keeps entry (early.spilled_keeps entry isSpilled notBrought.2) notBrought.1

theorem mono (brings : Brings before after temporaries moves) (subset : temporaries ⊆ more) :
    Brings before after more moves :=
  { brings with
    pinnedWithin := fun within =>
      (brings.pinnedWithin within).mono (List.append_subset.mpr
        ⟨fun _ isMember => List.mem_append_left _ (subset isMember), List.subset_append_right _ _⟩)
    spilled_keeps := fun entry isSpilled notBrought =>
      brings.spilled_keeps entry isSpilled fun isBrought => notBrought (subset isBrought) }

theorem of_fetches {temporary : Temporary} {register : Nat}
    (fetches : Fetches before after temporary register moves) :
    Brings before after [temporary] moves where
  toShuffle := fetches.toShuffle
  keepsPinned := by
    rintro _ pinned ⟨index, resident, rfl, held, same, isPinned⟩
    exact ⟨index, resident, rfl, fetches.keepsPinned index resident held isPinned, same, isPinned⟩
  pinnedWithin within := by
    refine within.of_content ?_
    intro other resident held isPinned
    rcases fetches.content?_before other resident held with wasHeld | same
    · exact .inl ⟨other, resident, wasHeld, isPinned, rfl⟩
    · exact .inr (by simp [same])
  spilled_keeps entry isSpilled notFetched :=
    fetches.spilled_keeps entry isSpilled (by simpa using notFetched)

theorem pinned {session : Session} (wellFormed : session.pool.WellFormed)
    (temporaries : List Temporary) :
    Brings session (pinnedSession session temporaries) temporaries [] where
  toShuffle := shuffle_pinned wellFormed temporaries
  keepsPinned := by
    rintro _ temporary ⟨index, resident, rfl, held, same, isPinned⟩
    rw [HoldsPinned]
    refine ⟨index, _, rfl, ?_, same, isPinned⟩
    rw [pinnedSession, content?_foldl_pin, held, Option.map_some]
    cases resident
    simp_all
  pinnedWithin within := by
    refine within.of_content ?_
    intro register resident held isPinned
    rw [pinnedSession, content?_foldl_pin, Option.map_eq_some_iff] at held
    rcases held with ⟨original, held, rfl⟩
    split at isPinned
    next isNew => exact .inr (by simp [isNew])
    next isOld => exact .inl ⟨register, original, held, isPinned, by rw [if_neg isOld]⟩
  spilled_keeps entry isSpilled _ := by rwa [spilled_pinned]

end Brings

variable {temporary : Temporary}

theorem Fetches.holdsPinned {register : Nat}
    (fetches : Fetches before after temporary register moves) :
    after.pool.HoldsPinned (.general register) temporary := by
  rcases fetches.resident with ⟨resident, held, same, isPinned⟩
  exact ⟨register, resident, rfl, held, same, isPinned⟩

/-- A live temporary is fetched if not all registers can be pinned. -/
theorem run_fetch_of_isLive {session : Session} (wellFormed : session.pool.WellFormed)
    (ready : session.pool.Ready [temporary]) (isLive : session.pool.IsLive temporary)
    {pinned : List Temporary} (within : session.pool.PinnedWithin pinned)
    (enough : pinned.length < session.pool.registers.length) :
    ∃ register after moves, (fetch temporary).run session = (.ok (.general register), after) ∧
      Fetches session after temporary register moves := by
  have readyOne : ∀ register resident, session.pool.content? register = some resident →
      resident.temporary = temporary → resident.isPinned = true :=
    fun register resident held same => ready register resident held (by simp [same])
  rcases run_fetch_spec wellFormed readyOne with fetched | ⟨_, allPinned⟩ | ⟨_, isDead⟩
  · exact fetched
  · exact absurd (length_le_of_allPinned wellFormed allPinned within) (Nat.not_le.mpr enough)
  · exact absurd isLive isDead

end RegisterPool

end Decaf
