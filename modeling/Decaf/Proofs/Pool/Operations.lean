import Decaf.Proofs.Machine.Execution
import Decaf.Proofs.Pool.WellFormed
import Mathlib.Data.List.Basic
import Mathlib.Tactic.Choose

/-!
# Moving temporaries about

The register pool makes room by moving temporaries between registers and spill slots. Such moves
lose nothing: when the machine executes them, each temporary's new place holds the word that its old
place held. This is stated once for a single move and carried over to sequences of moves by
`Shuffle.trans`.
-/

namespace Decaf

namespace RegisterPool

section

variable {Word : Type}
variable {moves : List Instruction} {session : Session} {register : Nat}
  {temporaries : List Temporary}

/-- Every live temporary is where the pool has it: its place holds the word that it stands for. -/
structure Holds (pool : RegisterPool) (store : Store Word) (contents : Temporary → Word) :
    Prop where
  resident : ∀ {register resident}, pool.content? register = some resident →
    store.registers (.general register) = contents resident.temporary
  spilled : ∀ {entry}, entry ∈ pool.spilled →
    store.slots (pool.spillBase + entry.slot) = contents entry.temporary

/-- A move between a register of the pool and one of its spill slots. -/
inductive SpillMove (pool : RegisterPool) : Instruction → Prop where
  | out {register slot : Nat} (registerLt : register < pool.registers.length)
      (slotLt : slot < pool.slotCount) :
      SpillMove pool (.storeStack (pool.spillBase + slot) (.general register))
  | back {register slot : Nat} (registerLt : register < pool.registers.length)
      (slotLt : slot < pool.slotCount) :
      SpillMove pool (.loadStack (.general register) (pool.spillBase + slot))

theorem SpillMove.mono {pool larger : RegisterPool} {move : Instruction}
    (spills : pool.SpillMove move) (length_eq : larger.registers.length = pool.registers.length)
    (base_eq : larger.spillBase = pool.spillBase)
      (slotCount_le : pool.slotCount ≤ larger.slotCount) :
    larger.SpillMove move := by
  cases spills with
  | out registerLt slotLt =>
    rw [← base_eq]
    exact .out (by omega) (by omega)
  | back registerLt slotLt =>
    rw [← base_eq]
    exact .back (by omega) (by omega)

/-- Moves of the pool leave the frame below the spill slots alone. -/
theorem slots_run_of_lt {pool : RegisterPool}
    (spill : ∀ move ∈ moves, pool.SpillMove move) {slot : Nat} (below : slot < pool.spillBase)
    (store : Store Word) : (store.run moves).slots slot = store.slots slot := by
  induction moves generalizing store with
  | nil => rfl
  | cons move moves ih =>
    rw [Store.run_cons, ih (fun other mem => spill other (List.mem_cons_of_mem _ mem))]
    cases spill move List.mem_cons_self with
    | out registerLt slotLt =>
      rw [Store.move, Store.slots_setSlot, if_neg (by omega)]
    | back registerLt slotLt => rfl

/-! ## Shuffles -/

/-- From one state of the pool to another one, temporaries were moved about by the given
instructions and nothing else happened. -/
structure Shuffle (before after : Session) (moves : List Instruction) : Prop where
  wellFormed : after.pool.WellFormed
  code_eq : after.code.toList = before.code.toList ++ moves
  spillMoves : ∀ move ∈ moves, after.pool.SpillMove move
  base_eq : after.pool.spillBase = before.pool.spillBase
  length_eq : after.pool.registers.length = before.pool.registers.length
  next_eq : after.pool.nextTemporary = before.pool.nextTemporary
  slotCount_le : before.pool.slotCount ≤ after.pool.slotCount
  isLive_iff : ∀ temporary, after.pool.IsLive temporary ↔ before.pool.IsLive temporary
  holds : ∀ {Word : Type} {store : Store Word} {contents : Temporary → Word},
    before.pool.Holds store contents → after.pool.Holds (store.run moves) contents

theorem Shuffle.refl (wellFormed : session.pool.WellFormed) : Shuffle session session [] where
  wellFormed := wellFormed
  code_eq := (List.append_nil _).symm
  spillMoves := by simp
  base_eq := rfl
  length_eq := rfl
  next_eq := rfl
  slotCount_le := Nat.le_refl _
  isLive_iff _ := Iff.rfl
  holds held := held

theorem Shuffle.trans {first second third : Session} {more : List Instruction}
    (left : Shuffle first second moves) (right : Shuffle second third more) :
    Shuffle first third (moves ++ more) where
  wellFormed := right.wellFormed
  code_eq := by rw [right.code_eq, left.code_eq, List.append_assoc]
  spillMoves := by
    intro move mem
    rcases List.mem_append.mp mem with mem | mem
    · exact (left.spillMoves move mem).mono right.length_eq right.base_eq right.slotCount_le
    · exact right.spillMoves move mem
  base_eq := right.base_eq.trans left.base_eq
  length_eq := right.length_eq.trans left.length_eq
  next_eq := right.next_eq.trans left.next_eq
  slotCount_le := Nat.le_trans left.slotCount_le right.slotCount_le
  isLive_iff temporary := (right.isLive_iff temporary).trans (left.isLive_iff temporary)
  holds held := by
    rw [Store.run_append]
    exact right.holds (left.holds held)

/-- The temporary in a register is stored to a spill slot. -/
def spilledSession (session : Session) (register : Nat) (temporary : Temporary) : Session where
  pool := (session.pool.moveOut register temporary).2
  code := session.code.push <|
    .storeStack (session.pool.spillBase + (session.pool.moveOut register temporary).1)
      (.general register)

/-- A temporary that is stored into a slot that was not in use is not lost, and overwrites none. -/
theorem holds_moveOut {pool : RegisterPool} (wellFormed : pool.WellFormed)
    {resident : Resident} (held : pool.content? register = some resident) {store : Store Word}
    {contents : Temporary → Word} (holds : pool.Holds store contents) :
    (pool.moveOut register resident.temporary).2.Holds
      (store.setSlot (pool.spillBase + (pool.moveOut register resident.temporary).1)
        (store.registers (.general register)))
      contents where
  resident := by
    intro other content found
    rw [content?_moveOut] at found
    split at found
    · simp at found
    · exact holds.resident found
  spilled := by
    have nodup := slots_nodup (wellFormed_moveOut wellFormed held)
    rw [spilled_moveOut, List.map_cons, List.cons_append, List.nodup_cons] at nodup
    intro entry mem
    rw [spilled_moveOut] at mem
    rw [spillBase_moveOut, Store.slots_setSlot]
    rcases List.mem_cons.mp mem with rfl | mem
    · rw [if_pos rfl]
      exact holds.resident held
    · rw [if_neg]
      · exact holds.spilled mem
      · intro same
        have slotEq : entry.slot = (pool.moveOut register resident.temporary).1 :=
          Nat.add_left_cancel same
        apply nodup.1
        rw [← slotEq]
        exact List.mem_append_left _ (List.mem_map.mpr ⟨entry, mem, rfl⟩)

theorem shuffle_spill (wellFormed : session.pool.WellFormed)
    {resident : Resident} (held : session.pool.content? register = some resident) :
    Shuffle session (spilledSession session register resident.temporary)
      [.storeStack (session.pool.spillBase + (session.pool.moveOut register resident.temporary).1)
        (.general register)] where
  wellFormed := wellFormed_moveOut wellFormed held
  code_eq := by simp [spilledSession]
  spillMoves := by
    intro move mem
    rw [List.mem_singleton] at mem
    subst mem
    rw [← spillBase_moveOut session.pool register resident.temporary]
    refine .out ?_ ?_
    · rw [spilledSession, length_registers_moveOut]
      exact lt_of_content?_eq_some held
    · have mem : ⟨resident.temporary, (session.pool.moveOut register resident.temporary).1⟩ ∈
          (session.pool.moveOut register resident.temporary).2.spilled := by
        rw [spilled_moveOut]
        exact List.mem_cons_self
      exact slot_lt (wellFormed_moveOut wellFormed held) mem
  base_eq := spillBase_moveOut _ _ _
  length_eq := length_registers_moveOut _ _ _
  next_eq := nextTemporary_moveOut _ _ _
  slotCount_le := slotCount_le_moveOut _ _ _
  isLive_iff := isLive_moveOut held
  holds holds := holds_moveOut wellFormed held holds

/-! ## Pins -/

/-- Every pinned temporary is one of the given ones. -/
def PinnedWithin (pool : RegisterPool) (temporaries : List Temporary) : Prop :=
  ∀ register resident, pool.content? register = some resident → resident.isPinned = true →
    resident.temporary ∈ temporaries

/-- Every register holds a pinned temporary. -/
def AllPinned (pool : RegisterPool) : Prop :=
  ∀ register < pool.registers.length,
    ∃ resident, pool.content? register = some resident ∧ resident.isPinned = true

theorem PinnedWithin.mono {pool : RegisterPool} {more : List Temporary}
    (within : pool.PinnedWithin temporaries) (subset : temporaries ⊆ more) :
    pool.PinnedWithin more :=
  fun register resident held pinned => subset (within register resident held pinned)

/-- Where all registers hold pinned temporaries, there are as many of these as registers. -/
theorem length_le_of_allPinned {pool : RegisterPool} (wellFormed : pool.WellFormed)
    (allPinned : pool.AllPinned)
    (within : pool.PinnedWithin temporaries) : pool.registers.length ≤ temporaries.length := by
  have occupied : ∀ register < pool.registers.length, ∃ temporary, temporary ∈ temporaries ∧
      ∃ resident, pool.content? register = some resident ∧ resident.temporary = temporary := by
    intro register bound
    rcases allPinned register bound with ⟨resident, held, pinned⟩
    exact ⟨_, within register resident held pinned, resident, held, rfl⟩
  choose! temporary mem resident using occupied
  have nodup : ((List.range pool.registers.length).map temporary).Nodup := by
    refine List.Nodup.map_on ?_ List.nodup_range
    intro first firstMem second secondMem same
    rcases resident first (List.mem_range.mp firstMem) with ⟨firstResident, firstHeld, firstEq⟩
    rcases resident second (List.mem_range.mp secondMem) with ⟨secondResident, secondHeld, secondEq⟩
    exact wellFormed.resident_unique firstHeld secondHeld (by rw [firstEq, secondEq, same])
  have subset : (List.range pool.registers.length).map temporary ⊆ temporaries := by
    intro other otherMem
    rcases List.mem_map.mp otherMem with ⟨register, registerMem, rfl⟩
    exact mem register (List.mem_range.mp registerMem)
  simpa using (List.subperm_of_subset nodup subset).length_le

end

/-!
## What the pool's operations do

Each operation gets one statement that says all that callers need: which temporaries are where
afterwards, what the emitted moves do to a store, and when the operation fails. An operation that
fails has moved temporaries about, and no more than that.
-/

section

/-! ## Running operations -/

namespace Operation

variable {Result Next : Type}

theorem run_bind (operation : Operation Result) (next : Result → Operation Next)
    (session : Session) : (operation >>= next).run session =
      match operation.run session with
      | (.ok result, between) => (next result).run between
      | (.error fault, between) => (.error fault, between) := by
  simp only [bind, StateT.bind, ExceptT.bind, ExceptT.run, ExceptT.mk, ExceptT.bindCont]
  rcases operation session with ⟨_ | _, _⟩ <;> rfl

theorem run_pure (result : Result) (session : Session) :
    (pure result : Operation Result).run session = (.ok result, session) :=
  rfl

theorem run_get (session : Session) :
    (get : Operation Session).run session = (.ok session, session) :=
  rfl

theorem run_set (session other : Session) :
    (set other : Operation Unit).run session = (.ok (), other) :=
  rfl

theorem run_modify (change : Session → Session) (session : Session) :
    (modify change : Operation Unit).run session = (.ok (), change session) :=
  rfl

end Operation

open Operation

variable {register : Nat} {session : Session}

theorem run_spill (register : Nat) (temporary : Temporary) (session : Session) :
    (spill register temporary).run session = (.ok (),
      spilledSession session register temporary) := by
  simp only [spill, run_bind, run_get, run_set, spillBase_moveOut, spilledSession]

theorem run_evict (session : Session) :
    evict.run session =
      match session.pool.victim? with
      | none => (.error (.allPinned session.pool.registerCount), session)
      | some (register, resident) =>
        (.ok register, spilledSession session register resident.temporary) := by
  simp only [evict, run_bind, run_get]
  rcases session.pool.victim? with _ | ⟨register, resident⟩
  · rfl
  · simp only [run_bind, run_spill, run_pure]

theorem run_vacate (session : Session) :
    vacate.run session =
      match session.pool.freeRegister? with
      | some register => (.ok register, session)
      | none => evict.run session := by
  simp only [vacate, run_bind, run_get]
  rcases session.pool.freeRegister? with _ | register <;> rfl

/-- The pool that makes another temporary next. -/
def advanced (pool : RegisterPool) : RegisterPool :=
  { pool with nextTemporary := pool.nextTemporary + 1 }

/-- A new temporary takes a register. -/
def occupiedSession (session : Session) (register : Nat) : Session :=
  { session with pool := session.pool.advanced.settle register ⟨session.pool.nextTemporary⟩ }

theorem run_occupy (register : Nat) (session : Session) :
    (occupy register).run session =
      (.ok (⟨session.pool.nextTemporary⟩, .general register),
        occupiedSession session register) := by
  simp only [occupy, run_bind, run_get, run_set, run_pure]
  rfl

/-- The session after a temporary came back from its slot into a register. -/
def reloadedSession (session : Session) (temporary : Temporary) (slot register : Nat) :
    Session where
  pool := (session.pool.slotFreed temporary slot).settle register temporary
  code := session.code.push (.loadStack (.general register) (session.pool.spillBase + slot))

theorem run_reload (temporary : Temporary) (slot : Nat) (session : Session) :
    (reload temporary slot).run session =
      match vacate.run session with
      | (.ok register, between) =>
        (.ok (.general register), reloadedSession between temporary slot register)
      | (.error fault, between) => (.error fault, between) := by
  simp only [reload, run_bind, run_modify, run_pure]
  rcases vacate.run session with ⟨_ | _, _⟩ <;> rfl

theorem run_fetch (temporary : Temporary) (session : Session) :
    (fetch temporary).run session =
      match session.pool.registerOf? temporary with
      | some register => (.ok (.general register), session)
      | none =>
        match session.pool.slotOf? temporary with
        | some slot => (reload temporary slot).run session
        | none => (.error (.notLive temporary), session) := by
  simp only [fetch, run_bind, run_get]
  rcases session.pool.registerOf? temporary with _ | register
  · rcases session.pool.slotOf? temporary with _ | slot <;> rfl
  · rfl

theorem run_acquireSpecific (register : Nat) (session : Session) :
    (acquireSpecific register).run session =
      match session.pool.content? register with
      | none => (occupy register).run session
      | some resident =>
        if resident.isPinned then (.error (.pinnedRegister register), session)
        else (occupy register).run (spilledSession session register resident.temporary) := by
  simp only [acquireSpecific, run_bind, run_get]
  rcases session.pool.content? register with _ | ⟨temporary, arrival, _ | _⟩
  · rfl
  · simp only [Bool.false_eq_true, if_false, run_bind, run_spill]
  · rfl

/-! ## Clearing a register -/

theorem mem_residents_of_victim? {pool : RegisterPool} {resident : Resident}
    (found : pool.victim? = some (register, resident)) :
    (register, resident) ∈ pool.residents ∧ resident.isPinned = false := by
  have chosen : ∀ (rest : List (Nat × Resident)) (first : Nat × Resident),
      rest.foldl earlier first ∈ first :: rest := by
    intro rest
    induction rest with
    | nil => intro first; exact List.mem_singleton_self first
    | cons second rest ih =>
      intro first
      rw [List.foldl_cons]
      have mem := ih (earlier first second)
      rcases List.mem_cons.mp mem with same | later
      · rw [same, earlier]
        split <;> simp
      · exact List.mem_cons_of_mem _ (List.mem_cons_of_mem _ later)
  rw [victim?] at found
  split at found
  · simp at found
  · next first rest candidates =>
    rw [Option.some.injEq] at found
    have mem := chosen rest first
    rw [← candidates, found] at mem
    simpa using List.mem_filter.mp mem

theorem allPinned_of_victim?_eq_none {pool : RegisterPool} (wellFormed : pool.WellFormed)
    (noneFree : pool.freeRegister? = none) (noVictim : pool.victim? = none) : pool.AllPinned := by
  intro register bound
  rcases exists_content?_of_freeRegister?_eq_none noneFree bound with ⟨resident, held⟩
  refine ⟨resident, held, ?_⟩
  rw [victim?] at noVictim
  split at noVictim
  · next candidates =>
    have pinned := List.filter_eq_nil_iff.mp candidates _ ((mem_residents_iff wellFormed).mpr held)
    simpa using pinned
  · simp at noVictim

/-- A register was cleared; its temporary, if there was one, was not pinned and is in a spill slot
now. -/
structure Clears (before after : Session) (register : Nat) (moves : List Instruction) : Prop extends
    Shuffle before after moves where
  registerLt : register < before.pool.registers.length
  content?_eq : ∀ other, after.pool.content? other =
    if other = register then none else before.pool.content? other
  unpinned : ∀ resident, before.pool.content? register = some resident → resident.isPinned = false
  spilled_subset : before.pool.spilled ⊆ after.pool.spilled
  registers_eq : ∀ {Word : Type} (store : Store Word), (store.run moves).registers = store.registers

/-- A free register is clear. -/
theorem clears_vacant (wellFormed : session.pool.WellFormed)
    (bound : register < session.pool.registers.length)
    (vacant : session.pool.content? register = none) : Clears session session register [] := by
  refine ⟨.refl wellFormed, bound, ?_, ?_, fun _ mem => mem, fun _ => rfl⟩
  · intro other
    split
    · next same => rw [same, vacant]
    · rfl
  · intro resident held
    rw [vacant] at held
    cases held

theorem run_vacate_spec (wellFormed : session.pool.WellFormed) :
    (∃ register after moves, vacate.run session = (.ok register, after) ∧
        Clears session after register moves) ∨
      vacate.run session = (.error (.allPinned session.pool.registerCount), session) ∧
        session.pool.AllPinned := by
  rw [run_vacate]
  rcases free : session.pool.freeRegister? with _ | register
  · simp only
    rw [run_evict]
    rcases victim : session.pool.victim? with _ | ⟨register, resident⟩
    · exact .inr ⟨rfl, allPinned_of_victim?_eq_none wellFormed free victim⟩
    · left
      rcases mem_residents_of_victim? victim with ⟨mem, unpinned⟩
      have held := (mem_residents_iff wellFormed).mp mem
      refine ⟨register, _, _, rfl, shuffle_spill wellFormed held, lt_of_content?_eq_some held,
        content?_moveOut _ _ _, ?_, ?_, fun store => rfl⟩
      · intro other otherHeld
        rw [held, Option.some.injEq] at otherHeld
        rw [← otherHeld]
        exact unpinned
      · rw [spilledSession, spilled_moveOut]
        exact List.subset_cons_self _ _
  · left
    rcases freeRegister?_eq_some wellFormed free with ⟨bound, empty⟩
    exact ⟨register, session, [], rfl, clears_vacant wellFormed bound empty⟩

/-! ## Making temporaries -/

/-- A temporary was made in a register. -/
structure Produces (before after : Session) (temporary : Temporary) (register : Nat)
    (moves : List Instruction) : Prop where
  wellFormed : after.pool.WellFormed
  code_eq : after.code.toList = before.code.toList ++ moves
  spillMoves : ∀ move ∈ moves, after.pool.SpillMove move
  base_eq : after.pool.spillBase = before.pool.spillBase
  length_eq : after.pool.registers.length = before.pool.registers.length
  temporary_eq : temporary = ⟨before.pool.nextTemporary⟩
  next_eq : after.pool.nextTemporary = before.pool.nextTemporary + 1
  slotCount_le : before.pool.slotCount ≤ after.pool.slotCount
  registerLt : register < before.pool.registers.length
  content?_eq : ∀ other, after.pool.content? other =
    if other = register then some ⟨temporary,
      after.pool.clock, true⟩ else before.pool.content? other
  unpinned : ∀ resident, before.pool.content? register = some resident → resident.isPinned = false
  isLive_iff : ∀ other, after.pool.IsLive other ↔ other = temporary ∨ before.pool.IsLive other
  spilled_subset : before.pool.spilled ⊆ after.pool.spilled
  registers_eq : ∀ {Word : Type} (store : Store Word), (store.run moves).registers = store.registers
  holds : ∀ {Word : Type} {store : Store Word} {contents : Temporary → Word} (word : Word),
    before.pool.Holds store contents →
      after.pool.Holds ((store.run moves).setRegister (.general register) word)
        (Function.update contents temporary word)

theorem not_isLive_next {pool : RegisterPool} (wellFormed : pool.WellFormed) :
    ¬pool.IsLive ⟨pool.nextTemporary⟩ := by
  rw [not_isLive_iff]
  constructor
  · intro register resident held same
    have lt := wellFormed.resident_lt held
    rw [same] at lt
    exact Nat.lt_irrefl _ lt
  · intro entry mem same
    have lt := wellFormed.spilled_lt mem
    rw [same] at lt
    exact Nat.lt_irrefl _ lt

/-- A word in a free register stands for the temporary that is put there. -/
theorem holds_settle {Word : Type} (pool : RegisterPool) {temporary : Temporary}
    (bound : register < pool.registers.length) (dead : ¬pool.IsLive temporary) {store : Store Word}
    {contents : Temporary → Word} (holds : pool.Holds store contents) (word : Word) :
    (pool.settle register temporary).Holds (store.setRegister (.general register) word)
      (Function.update contents temporary word) := by
  rcases not_isLive_iff.mp dead with ⟨notResident, notSpilled⟩
  constructor
  · intro other resident held
    rw [content?_settle _ bound] at held
    split at held
    · next same =>
      rw [Option.some.injEq] at held
      subst held same
      simp
    · next different =>
      rw [Store.registers_setRegister, if_neg (by simpa using different),
        Function.update_of_ne (notResident other resident held)]
      exact holds.resident held
  · intro entry mem
    rw [Store.slots_setRegister, Function.update_of_ne (notSpilled entry mem)]
    exact holds.spilled mem

theorem produces_occupied {before between : Session} {moves : List Instruction}
    (clears : Clears before between register moves) :
    Produces before (occupiedSession between register) ⟨between.pool.nextTemporary⟩
      register moves := by
  have bound : register < between.pool.registers.length := by
    rw [clears.length_eq]
    exact clears.registerLt
  have free : between.pool.content? register = none := by rw [clears.content?_eq, if_pos rfl]
  have dead := not_isLive_next clears.wellFormed
  have advanced : between.pool.advanced.WellFormed :=
    { clears.wellFormed with
      resident_lt := fun held => Nat.lt_succ_of_lt (clears.wellFormed.resident_lt held)
      spilled_lt := fun mem => Nat.lt_succ_of_lt (clears.wellFormed.spilled_lt mem) }
  refine
    { wellFormed := wellFormed_settle advanced bound free dead (Nat.lt_succ_self _)
      code_eq := clears.code_eq
      spillMoves := fun move mem => (clears.spillMoves move mem).mono (by
        simp [occupiedSession, settle, RegisterPool.advanced]) rfl (Nat.le_refl _)
      base_eq := clears.base_eq
      length_eq := by simpa [occupiedSession, settle, RegisterPool.advanced] using clears.length_eq
      temporary_eq := by rw [clears.next_eq]
      next_eq := congrArg (· + 1) clears.next_eq
      slotCount_le := clears.slotCount_le
      registerLt := clears.registerLt
      content?_eq := ?_
      unpinned := clears.unpinned
      isLive_iff := ?_
      spilled_subset := clears.spilled_subset
      registers_eq := clears.registers_eq
      holds := ?_ }
  · intro other
    refine (content?_settle between.pool.advanced bound _ other).trans ?_
    split
    · rfl
    · next different =>
      have kept := clears.content?_eq other
      rw [if_neg different] at kept
      exact kept
  · intro other
    rw [← clears.isLive_iff other]
    exact isLive_settle between.pool.advanced bound free other
  · intro Word store contents word holds
    have moved := clears.holds holds
    exact holds_settle between.pool.advanced bound dead ⟨moved.resident, moved.spilled⟩ word

theorem run_acquire_spec (wellFormed : session.pool.WellFormed) :
    (∃ temporary register after moves,
        acquire.run session = (.ok (temporary, .general register), after) ∧
          Produces session after temporary register moves) ∨
      acquire.run session = (.error (.allPinned session.pool.registerCount), session) ∧
        session.pool.AllPinned := by
  rw [acquire, run_bind]
  rcases run_vacate_spec wellFormed with
    ⟨register, between, moves, ran, clears⟩ | ⟨failed, allPinned⟩
  · rw [ran]
    exact .inl ⟨_, register, _, moves, run_occupy register between, produces_occupied clears⟩
  · rw [failed]
    exact .inr ⟨rfl, allPinned⟩

theorem run_acquireSpecific_spec (wellFormed : session.pool.WellFormed)
    (bound : register < session.pool.registers.length) :
    (∃ temporary after moves,
        (acquireSpecific register).run session = (.ok (temporary, .general register), after) ∧
          Produces session after temporary register moves) ∨
      (acquireSpecific register).run session = (.error (.pinnedRegister register), session) ∧
        ∃ resident, session.pool.content? register = some resident ∧ resident.isPinned = true := by
  rw [run_acquireSpecific]
  rcases held : session.pool.content? register with _ | resident
  · exact .inl ⟨_, _, [], run_occupy register session,
      produces_occupied (clears_vacant wellFormed bound held)⟩
  · simp only
    split
    · next pinned => exact .inr ⟨rfl, resident, rfl, pinned⟩
    · next unpinned =>
      refine .inl ⟨_, _, _, run_occupy register _, produces_occupied
        ⟨shuffle_spill wellFormed held, bound, content?_moveOut _ _ _, ?_, ?_, fun _ => rfl⟩⟩
      · intro other otherHeld
        rw [held, Option.some.injEq] at otherHeld
        rw [← otherHeld]
        simpa using unpinned
      · rw [spilledSession, spilled_moveOut]
        exact List.subset_cons_self _ _

end

end RegisterPool

end Decaf
