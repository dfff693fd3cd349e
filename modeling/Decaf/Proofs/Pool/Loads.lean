import Decaf.Proofs.Pool.Operations

/-!
# Loading and releasing temporaries

Temporaries that are used together are pinned first and brought into registers afterwards, so that
none of them pushes out another one.
-/

namespace Decaf

namespace RegisterPool

open Operation

variable {Word : Type} {pool : RegisterPool} {change : Resident → Resident}
  {session before after : Session} {temporary : Temporary} {slot register : Nat}
  {moves : List Instruction}

/-! ## Pinning -/

theorem content?_pin (pool : RegisterPool) (temporary : Temporary) (register : Nat) :
    (pool.pin temporary).content? register = (pool.content? register).map fun resident =>
      if resident.temporary = temporary then { resident with isPinned := true } else resident :=
  content?_mapResidents _ _ _

theorem content?_foldl_pin (temporaries : List Temporary) (pool : RegisterPool) (register : Nat) :
    (temporaries.foldl pin pool).content? register = (pool.content? register).map fun resident =>
      if resident.temporary ∈
        temporaries then { resident with isPinned := true } else resident := by
  induction temporaries generalizing pool with
  | nil => simp
  | cons temporary temporaries ih =>
    rw [List.foldl_cons, ih, content?_pin, Option.map_map]
    congr 1
    funext resident
    by_cases same : resident.temporary = temporary
    · simp [same]
    · simp [same]

/-- Temporaries are pinned. -/
def pinnedSession (session : Session) (temporaries : List Temporary) : Session :=
  { session with pool := temporaries.foldl pin session.pool }

theorem run_pinAll (temporaries : List Temporary) (session : Session) :
    (pinAll temporaries).run session = (.ok (), pinnedSession session temporaries) :=
  rfl

theorem holds_mapResidents
    (keeps : ∀ resident, (change resident).temporary = resident.temporary) {store : Store Word}
    {contents : Temporary → Word} (holds : pool.Holds store contents) :
    (pool.mapResidents change).Holds store contents where
  resident := by
    intro register resident held
    rw [content?_mapResidents, Option.map_eq_some_iff] at held
    rcases held with ⟨original, held, rfl⟩
    rw [keeps]
    exact holds.resident held
  spilled mem := holds.spilled mem

theorem shuffle_mapResidents (wellFormed : session.pool.WellFormed)
    (keeps : ∀ resident, (change resident).temporary = resident.temporary) :
    Shuffle session { session with pool := session.pool.mapResidents change } [] where
  wellFormed := wellFormed_mapResidents wellFormed keeps
  code_eq := (List.append_nil _).symm
  spillMoves := by simp
  base_eq := rfl
  length_eq := by simp [mapResidents]
  next_eq := rfl
  slotCount_le := Nat.le_refl _
  isLive_iff := isLive_mapResidents keeps
  holds := holds_mapResidents keeps

theorem shuffle_pinned (wellFormed : session.pool.WellFormed)
    (temporaries : List Temporary) : Shuffle session (pinnedSession session temporaries) [] := by
  induction temporaries generalizing session with
  | nil => exact .refl wellFormed
  | cons temporary temporaries ih =>
    have first : Shuffle session { session with pool := session.pool.pin temporary } [] :=
      shuffle_mapResidents wellFormed fun resident => by split <;> rfl
    exact first.trans (ih first.wellFormed)

theorem spilled_pinned (session : Session) (temporaries : List Temporary) :
    (pinnedSession session temporaries).pool.spilled = session.pool.spilled := by
  induction temporaries generalizing session with
  | nil => rfl
  | cons temporary temporaries ih =>
    exact ih { session with pool := session.pool.pin temporary }

/-! ## Fetching -/

/-- A temporary was brought into a register and is pinned there. -/
structure Fetches (before after : Session) (temporary : Temporary) (register : Nat)
    (moves : List Instruction) : Prop extends Shuffle before after moves where
  registerLt : register < before.pool.registers.length
  resident : ∃ resident, after.pool.content? register = some resident ∧
    resident.temporary = temporary ∧ resident.isPinned = true
  keepsPinned : ∀ other resident, before.pool.content? other = some resident →
    resident.isPinned = true → after.pool.content? other = some resident
  content?_before : ∀ other resident, after.pool.content? other = some resident →
    before.pool.content? other = some resident ∨ resident.temporary = temporary
  spilled_keeps : ∀ entry ∈ before.pool.spilled, entry.temporary ≠ temporary →
    entry ∈ after.pool.spilled

/-- Reading a spill slot back into a free register keeps every word in its temporary. -/
theorem shuffle_reloaded (wellFormed : session.pool.WellFormed)
    (mem : ⟨temporary, slot⟩ ∈ session.pool.spilled)
    (bound : register < session.pool.registers.length)
    (free : session.pool.content? register = none) :
    Shuffle session (reloadedSession session temporary slot register)
      [.loadStack (.general register) (session.pool.spillBase + slot)] := by
  have dead : ¬(session.pool.slotFreed temporary slot).IsLive temporary := by
    rw [isLive_slotFreed wellFormed mem]
    exact fun live => live.1 rfl
  exact
    { wellFormed := wellFormed_settle (wellFormed_slotFreed wellFormed
        mem) bound free dead (wellFormed.spilled_lt mem)
      code_eq := by simp [reloadedSession]
      spillMoves := by
        intro move moveMem
        rw [List.mem_singleton] at moveMem
        subst moveMem
        exact .back (by simpa [reloadedSession, settle, slotFreed] using bound)
          (slot_lt wellFormed mem)
      base_eq := rfl
      length_eq := by simp [reloadedSession, settle, slotFreed]
      next_eq := rfl
      slotCount_le := Nat.le_refl _
      isLive_iff := by
        intro other
        refine (isLive_settle (session.pool.slotFreed temporary slot) bound free other).trans ?_
        rw [isLive_slotFreed wellFormed mem]
        constructor
        · rintro (rfl | ⟨_, live⟩)
          · exact .inr ⟨_, mem, rfl⟩
          · exact live
        · intro live
          by_cases same : other = temporary
          · exact .inl same
          · exact .inr ⟨same, live⟩
      holds := by
        intro Word store contents holds
        have kept : (session.pool.slotFreed temporary slot).Holds store contents :=
          ⟨holds.resident, fun stays =>
            holds.spilled ((mem_spilled_slotFreed wellFormed mem).mp stays).1⟩
        have settled := holds_settle (session.pool.slotFreed temporary slot) bound dead
          kept (contents temporary)
        rw [Function.update_eq_self] at settled
        have word := holds.spilled mem
        simp only [Store.run_cons, Store.run_nil, Store.move, word]
        exact settled }

/-- A spilled temporary whose slot is read into a cleared register is back without loss. -/
theorem fetches_reloaded {between : Session} (mem : ⟨temporary, slot⟩ ∈ before.pool.spilled)
    (clears : Clears before between register moves) :
    Fetches before (reloadedSession between temporary slot register) temporary register
      (moves ++ [.loadStack (.general register) (between.pool.spillBase + slot)]) := by
  have betweenMem := clears.spilled_subset mem
  have bound : register < between.pool.registers.length := by
    rw [clears.length_eq]
    exact clears.registerLt
  have free : between.pool.content? register = none := by rw [clears.content?_eq, if_pos rfl]
  have contentEq : ∀ other, (reloadedSession between temporary slot register).pool.content? other =
      if other = register then some ⟨temporary, between.pool.clock + 1, true⟩
      else between.pool.content? other :=
    content?_settle (between.pool.slotFreed temporary slot) bound temporary
  have back := shuffle_reloaded clears.wellFormed betweenMem bound free
  refine ⟨clears.toShuffle.trans back, clears.registerLt, ?_, ?_, ?_, ?_⟩
  · exact ⟨_, (contentEq register).trans (if_pos rfl), rfl, rfl⟩
  · intro other resident held pinned
    have different : other ≠ register := by
      rintro rfl
      simp [clears.unpinned resident held] at pinned
    rw [contentEq, if_neg different, clears.content?_eq, if_neg different]
    exact held
  · intro other resident held
    rw [contentEq] at held
    split at held
    · rw [Option.some.injEq] at held
      subst held
      exact .inr rfl
    · next different =>
      rw [clears.content?_eq, if_neg different] at held
      exact .inl held
  · intro entry entryMem different
    exact (mem_spilled_slotFreed clears.wellFormed betweenMem).mpr
      ⟨clears.spilled_subset entryMem, different⟩

/-- The outcomes of fetching a temporary that is pinned in case it is in a register. -/
theorem run_fetch_spec (wellFormed : session.pool.WellFormed)
    (ready : ∀ register resident, session.pool.content? register = some resident →
      resident.temporary = temporary → resident.isPinned = true) :
    (∃ register after moves, (fetch temporary).run session = (.ok (.general register), after) ∧
        Fetches session after temporary register moves) ∨
      ((fetch temporary).run session = (.error (.allPinned session.pool.registerCount), session) ∧
        session.pool.AllPinned) ∨
      (fetch temporary).run session = (.error (.notLive temporary), session) ∧
        ¬session.pool.IsLive temporary := by
  rw [run_fetch]
  rcases inRegister : session.pool.registerOf? temporary with _ | register
  · rcases inSlot : session.pool.slotOf? temporary with _ | slot
    · refine .inr (.inr ⟨rfl, ?_⟩)
      rw [not_isLive_iff]
      exact ⟨(registerOf?_eq_none_iff wellFormed).mp inRegister, slotOf?_eq_none_iff.mp inSlot⟩
    · simp only
      rw [run_reload]
      have mem := (slotOf?_eq_some_iff wellFormed).mp inSlot
      rcases run_vacate_spec wellFormed with ⟨register, between, moves, ran, clears⟩ | ⟨failed, all⟩
      · rw [ran]
        exact .inl ⟨register, _, _, rfl, fetches_reloaded mem clears⟩
      · rw [failed]
        exact .inr (.inl ⟨rfl, all⟩)
  · rcases (registerOf?_eq_some_iff wellFormed).mp inRegister with ⟨resident, held, same⟩
    exact .inl ⟨register, session, [], rfl, .refl wellFormed, lt_of_content?_eq_some held,
      ⟨resident, held, same, ready register resident held same⟩, fun _ _ held _ => held,
      fun _ _ held => .inl held, fun _ mem _ => mem⟩

/-! ## Loading several temporaries -/

/-- A register holds a temporary, which is pinned there. -/
def HoldsPinned (pool : RegisterPool) (register : Register) (temporary : Temporary) : Prop :=
  ∃ index resident, register = .general index ∧ pool.content? index = some resident ∧
    resident.temporary = temporary ∧ resident.isPinned = true

theorem HoldsPinned.registerLt (holds : pool.HoldsPinned (.general register) temporary) :
    register < pool.registers.length := by
  rcases holds with ⟨_, _, same, held, _⟩
  cases same
  exact lt_of_content?_eq_some held

theorem HoldsPinned.isResident {register : Register}
    (holds : pool.HoldsPinned register temporary) : pool.IsResident temporary := by
  rcases holds with ⟨index, resident, _, held, same, _⟩
  exact ⟨index, resident, held, same⟩

/-- Those of the given temporaries that are in registers are pinned there. -/
def Ready (pool : RegisterPool) (temporaries : List Temporary) : Prop :=
  ∀ register resident, pool.content? register = some resident → resident.temporary ∈ temporaries →
    resident.isPinned = true

theorem ready_pinned (session : Session) (temporaries : List Temporary) :
    (pinnedSession session temporaries).pool.Ready temporaries := by
  intro register resident held mem
  rw [pinnedSession, content?_foldl_pin, Option.map_eq_some_iff] at held
  rcases held with ⟨original, _, rfl⟩
  split at mem
  · next isMem => rw [if_pos isMem]
  · next notMem => exact absurd mem notMem

theorem Fetches.ready (fetches : Fetches before after temporary register moves)
    {temporaries : List Temporary} (ready : before.pool.Ready temporaries) :
    after.pool.Ready temporaries := by
  intro other resident held mem
  rcases fetches.content?_before other resident held with heldBefore | same
  · exact ready other resident heldBefore mem
  · rcases fetches.resident with ⟨fetched, fetchedHeld, fetchedEq, pinned⟩
    have equal := fetches.wellFormed.resident_unique held fetchedHeld (same.trans fetchedEq.symm)
    rw [equal, fetchedHeld, Option.some.injEq] at held
    rw [← held]
    exact pinned

/-- If a temporary was loaded, it was pinned and fetched. -/
theorem fetches_of_run_loadOne (wellFormed : before.pool.WellFormed)
    {register : Register} (ran : (loadOne temporary).run before = (.ok register, after)) :
    ∃ index moves, register = .general index ∧ Fetches (pinnedSession before [temporary]) after
      temporary index moves := by
  rw [loadOne, run_bind, run_pinAll] at ran
  have ready : ∀ index resident,
      (pinnedSession before [temporary]).pool.content? index = some resident →
      resident.temporary = temporary → resident.isPinned = true := by
    intro index resident held same
    exact ready_pinned before [temporary] index resident held (by simp [same])
  rcases run_fetch_spec (shuffle_pinned wellFormed [temporary]).wellFormed ready with
    ⟨index, last, moves, fetched, fetches⟩ | ⟨failed, -⟩ | ⟨failed, -⟩
  · obtain ⟨same, rfl⟩ := Prod.mk.inj (fetched.symm.trans ran)
    obtain rfl := Except.ok.inj same
    exact ⟨index, moves, rfl, fetches⟩
  · cases failed.symm.trans ran
  · cases failed.symm.trans ran

/-- Fetching temporaries one after the other moves temporaries about. If it succeeds, all of them
are in the registers of the answer at once, since what is pinned stays. -/
theorem run_mapM_fetch_spec (temporaries : List Temporary)
    (wellFormed : session.pool.WellFormed) (ready : session.pool.Ready temporaries) :
    ∃ result after moves, (temporaries.mapM fetch).run session = (result, after) ∧
      Shuffle session after moves ∧
      (∀ register resident, session.pool.content? register = some resident →
        resident.isPinned = true → after.pool.content? register = some resident) ∧
      ∀ registers, result = .ok registers →
      List.Forall₂ after.pool.HoldsPinned registers temporaries := by
  induction temporaries generalizing session with
  | nil =>
    refine ⟨.ok [], session, [], rfl, .refl wellFormed, fun _ _ held _ => held, ?_⟩
    intro registers same
    cases same
    exact .nil
  | cons temporary temporaries ih =>
    have readyFirst : ∀ register resident, session.pool.content? register = some resident →
        resident.temporary = temporary → resident.isPinned = true := by
      intro register resident held same
      exact ready register resident held (by rw [same]; exact List.mem_cons_self)
    rw [List.mapM_cons, run_bind]
    rcases run_fetch_spec wellFormed readyFirst with
      ⟨register, between, moves, ran, fetches⟩ | ⟨failed, _⟩ | ⟨failed, _⟩
    · have readyRest : session.pool.Ready temporaries :=
        fun register resident held mem => ready register resident held (List.mem_cons_of_mem _ mem)
      rcases ih fetches.wellFormed (fetches.ready readyRest) with
        ⟨result, after, more, ranRest, shuffle, keeps, loaded⟩
      have keepsAll : ∀ other resident, session.pool.content? other = some resident →
          resident.isPinned = true → after.pool.content? other = some resident :=
        fun other resident held pinned =>
          keeps other resident (fetches.keepsPinned other resident held pinned) pinned
      rw [ran]
      simp only [run_bind, ranRest]
      rcases result with fault | registers
      · exact ⟨_, after, _, rfl, fetches.toShuffle.trans shuffle, keepsAll, by simp⟩
      · refine ⟨_, after, _, rfl, fetches.toShuffle.trans shuffle, keepsAll, ?_⟩
        intro all same
        cases same
        rcases fetches.resident with ⟨resident, held, equal, pinned⟩
        exact .cons ⟨register, resident, rfl, keeps register resident held pinned, equal, pinned⟩
          (loaded registers rfl)
    · rw [failed]
      exact ⟨_, session, [], rfl, .refl wellFormed, fun _ _ held _ => held, by simp⟩
    · rw [failed]
      exact ⟨_, session, [], rfl, .refl wellFormed, fun _ _ held _ => held, by simp⟩

/-- Loading temporaries moves temporaries about, whether it succeeds or not. If it does, all of them
are in the registers of the answer. -/
theorem run_load_spec (temporaries : List Temporary) (wellFormed : session.pool.WellFormed) :
    ∃ result after moves, (load temporaries).run session = (result, after) ∧
      Shuffle session after moves ∧
      ∀ registers, result = .ok registers →
      List.Forall₂ after.pool.HoldsPinned registers temporaries := by
  have pinned := shuffle_pinned wellFormed temporaries
  rcases run_mapM_fetch_spec temporaries pinned.wellFormed (ready_pinned session temporaries) with
    ⟨result, after, moves, ran, shuffle, _, loaded⟩
  refine ⟨result, after, moves, ?_, pinned.trans shuffle, loaded⟩
  rw [load, run_bind, run_pinAll]
  exact ran

/-! ## Releasing -/

theorem release_of_resident (wellFormed : pool.WellFormed)
    {resident : Resident} (held : pool.content? register = some resident) :
    pool.release resident.temporary = pool.vacated register resident.temporary := by
  rw [release, (registerOf?_eq_some_iff wellFormed).mpr ⟨resident, held, rfl⟩]

theorem release_of_spilled (wellFormed : pool.WellFormed) (mem : ⟨temporary, slot⟩ ∈ pool.spilled) :
    pool.release temporary = pool.slotFreed temporary slot := by
  have notResident : pool.registerOf? temporary = none := by
    rw [registerOf?_eq_none_iff wellFormed]
    intro register resident held
    exact wellFormed.resident_not_spilled held mem
  rw [release, notResident, (slotOf?_eq_some_iff wellFormed).mpr mem]
  rfl

theorem release_of_not_isLive (wellFormed : pool.WellFormed)
    (dead : ¬pool.IsLive temporary) : pool.release temporary = pool := by
  rcases not_isLive_iff.mp dead with ⟨notResident, notSpilled⟩
  rw [release, (registerOf?_eq_none_iff wellFormed).mpr notResident,
    slotOf?_eq_none_iff.mpr notSpilled]

/-- A temporary was released; all others are where they were. -/
structure Releases (before after : RegisterPool) (temporary : Temporary) : Prop where
  wellFormed : after.WellFormed
  base_eq : after.spillBase = before.spillBase
  length_eq : after.registers.length = before.registers.length
  next_eq : after.nextTemporary = before.nextTemporary
  slotCount_eq : after.slotCount = before.slotCount
  isLive_iff : ∀ other, after.IsLive other ↔ other ≠ temporary ∧ before.IsLive other
  content?_iff : ∀ register resident, after.content? register = some resident ↔
    before.content? register = some resident ∧ resident.temporary ≠ temporary
  spilled_iff : ∀ entry, entry ∈ after.spilled ↔
    entry ∈ before.spilled ∧ entry.temporary ≠ temporary

theorem releases_release (wellFormed : pool.WellFormed) (temporary : Temporary) :
    Releases pool (pool.release temporary) temporary := by
  by_cases live : pool.IsLive temporary
  · rcases live with ⟨register, resident, held, rfl⟩ | ⟨⟨temporary, slot⟩, mem, rfl⟩
    · rw [release_of_resident wellFormed held]
      refine ⟨wellFormed_vacated wellFormed held, rfl, by simp [vacated], rfl, rfl,
        isLive_vacated wellFormed held, ?_, ?_⟩
      · intro other content
        rw [content?_vacated]
        by_cases same : other = register
        · subst same
          simp only [if_true, reduceCtorEq, held, Option.some.injEq, false_iff, not_and, not_not]
          rintro rfl
          rfl
        · rw [if_neg same]
          constructor
          · intro found
            exact ⟨found, fun equal => same (wellFormed.resident_unique found held equal)⟩
          · exact fun found => found.1
      · intro entry
        constructor
        · intro mem
          exact ⟨mem, fun equal => wellFormed.resident_not_spilled held mem equal.symm⟩
        · exact fun mem => mem.1
    · rw [release_of_spilled wellFormed mem]
      refine ⟨wellFormed_slotFreed wellFormed mem, rfl, rfl, rfl, rfl,
        isLive_slotFreed wellFormed mem, ?_, fun entry => mem_spilled_slotFreed wellFormed mem⟩
      intro register resident
      constructor
      · exact fun held => ⟨held, wellFormed.resident_not_spilled held mem⟩
      · exact fun held => held.1
  · rw [release_of_not_isLive wellFormed live]
    rcases not_isLive_iff.mp live with ⟨notResident, notSpilled⟩
    refine ⟨wellFormed, rfl, rfl, rfl, rfl, ?_, ?_, ?_⟩
    · intro other
      constructor
      · rintro isLive
        refine ⟨?_, isLive⟩
        rintro rfl
        exact live isLive
      · exact fun isLive => isLive.2
    · intro register resident
      constructor
      · exact fun held => ⟨held, notResident register resident held⟩
      · exact fun held => held.1
    · intro entry
      constructor
      · exact fun mem => ⟨mem, notSpilled entry mem⟩
      · exact fun mem => mem.1

theorem Releases.holds {before after : RegisterPool}
    (releases : Releases before after temporary) {store : Store Word} {contents : Temporary → Word}
    (holds : before.Holds store contents) : after.Holds store contents where
  resident held := holds.resident ((releases.content?_iff _ _).mp held).1
  spilled mem := by
    rw [releases.base_eq]
    exact holds.spilled ((releases.spilled_iff _).mp mem).1

/-! ## Spilling all temporaries but some -/

/-- Every register that holds none of the kept temporaries was cleared. -/
structure ClearsAllExcept (before after : Session) (kept : List Temporary)
    (moves : List Instruction) : Prop extends Shuffle before after moves where
  content?_iff : ∀ register resident, after.pool.content? register = some resident ↔
    before.pool.content? register = some resident ∧ resident.temporary ∈ kept
  spilled_subset : before.pool.spilled ⊆ after.pool.spilled
  registers_eq : ∀ {Word : Type} (store : Store Word), (store.run moves).registers = store.registers

theorem run_forM_spill (residents : List (Nat × Resident)) (wellFormed : session.pool.WellFormed)
    (held : ∀ place ∈ residents, session.pool.content? place.1 = some place.2)
    (nodup : residents.Nodup) :
    ∃ after moves,
      (residents.forM fun (register, resident) => spill register resident.temporary).run session =
          (.ok (), after) ∧
        Shuffle session after moves ∧
        (∀ register resident, after.pool.content? register = some resident ↔
          session.pool.content? register = some resident ∧ (register, resident) ∉ residents) ∧
        session.pool.spilled ⊆ after.pool.spilled ∧
        ∀ {Word : Type} (store : Store Word), (store.run moves).registers = store.registers := by
  induction residents generalizing session with
  | nil => exact ⟨session, [], rfl, .refl wellFormed, by simp, fun _ mem => mem, fun _ => rfl⟩
  | cons place residents ih =>
    rcases place with ⟨register, resident⟩
    have firstHeld : session.pool.content? register = some resident :=
      held (register, resident) List.mem_cons_self
    have first := shuffle_spill wellFormed firstHeld
    rcases List.nodup_cons.mp nodup with ⟨notMem, nodupRest⟩
    have heldRest : ∀ place ∈ residents,
        (spilledSession session register resident.temporary).pool.content? place.1 =
          some place.2 := by
      intro place mem
      have placeHeld := held place (List.mem_cons_of_mem _ mem)
      have different : place.1 ≠ register := by
        intro same
        rw [same, firstHeld, Option.some.injEq] at placeHeld
        exact notMem (by rw [placeHeld, ← same]; exact mem)
      rw [spilledSession, content?_moveOut, if_neg different]
      exact placeHeld
    rcases ih first.wellFormed heldRest nodupRest with
      ⟨after, moves, ran, shuffle, contentIff, spilledSubset, registersEq⟩
    refine ⟨after, _, ?_, first.trans shuffle, ?_, ?_, ?_⟩
    · change (spill register resident.temporary >>= fun _ => residents.forM fun place =>
        spill place.1 place.2.temporary).run session = _
      rw [run_bind, run_spill]
      exact ran
    · intro other content
      rw [contentIff, spilledSession, content?_moveOut]
      by_cases same : other = register
      · subst same
        simp only [if_true, reduceCtorEq, false_and, List.mem_cons, Prod.mk.injEq, true_and, not_or,
          false_iff, not_and]
        intro found different
        rw [firstHeld, Option.some.injEq] at found
        exact absurd found.symm different
      · simp [same]
    · intro entry mem
      apply spilledSubset
      rw [spilledSession, spilled_moveOut]
      exact List.mem_cons_of_mem _ mem
    · intro Word store
      rw [Store.run_append, registersEq]
      rfl

theorem nodup_residents (wellFormed : pool.WellFormed) : pool.residents.Nodup := by
  rw [residents, wellFormed.overlaid_eq, List.append_nil]
  refine List.Nodup.filterMap ?_ ?_
  · rintro ⟨first, index⟩ ⟨second, other⟩ ⟨register, resident⟩ firstEq secondEq
    simp only [Option.mem_def, Option.map_eq_some_iff, Prod.mk.injEq] at firstEq secondEq
    rcases firstEq with ⟨_, rfl, rfl, rfl⟩
    rcases secondEq with ⟨_, rfl, rfl, rfl⟩
    rfl
  · exact List.Nodup.of_map Prod.snd (by rw [List.zipIdx_map_snd]; exact List.nodup_range')

theorem run_spillAllExcept_spec (wellFormed : session.pool.WellFormed) (kept : List Temporary) :
    ∃ after moves, (spillAllExcept kept).run session = (.ok (), after) ∧
      ClearsAllExcept session after kept moves := by
  have perm := perm_sortBy (fun left right : Nat × Resident => left.2.arrival ≤ right.2.arrival)
    (session.pool.residents.filter fun (_, resident) => !kept.contains resident.temporary)
  have held : ∀ place ∈ sortBy (fun left right : Nat × Resident => left.2.arrival ≤ right.2.arrival)
      (session.pool.residents.filter fun (_, resident) => !kept.contains resident.temporary),
      session.pool.content? place.1 = some place.2 := by
    intro place mem
    exact (mem_residents_iff wellFormed).mp (List.mem_filter.mp (perm.mem_iff.mp mem)).1
  have nodup := perm.nodup_iff.mpr ((nodup_residents wellFormed).filter _)
  rcases run_forM_spill _ wellFormed held nodup with
    ⟨after, moves, ran, shuffle, contentIff, spilledSubset, registersEq⟩
  refine ⟨after, moves, ?_, shuffle, ?_, spilledSubset, registersEq⟩
  · rw [spillAllExcept, run_bind, run_get]
    exact ran
  · intro register resident
    rw [contentIff, perm.mem_iff, List.mem_filter, mem_residents_iff wellFormed]
    simp only [Bool.not_eq_true', List.contains_eq_mem, decide_eq_false_iff_not, not_and, not_not]
    constructor
    · rintro ⟨found, isKept⟩
      exact ⟨found, isKept found⟩
    · rintro ⟨found, isKept⟩
      exact ⟨found, fun _ => isKept⟩

/-! ## Taking the pins off -/

theorem shuffle_unpinAll (wellFormed : session.pool.WellFormed) :
    Shuffle session { session with pool := session.pool.unpinAll } [] :=
  shuffle_mapResidents wellFormed fun _ => rfl

end RegisterPool

end Decaf
