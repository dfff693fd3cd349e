import Decaf.Proofs.Code.Steps

/-!
# Temporaries in generated code

The steps that make, load and release temporaries, with the code that they emit. When a machine
executes that code, every temporary keeps the word that it stands for.
-/

namespace Decaf

open RegisterPool (Produces Brings Releases Shuffle ClearsAllExcept)

/-! ## What code does to the machine -/

namespace Instruction

/-- Neither a label nor a jump. -/
def IsPlain : Instruction → Prop
  | .label _ => False
  | instruction => instruction.IsStraight

theorem IsPlain.isStraight {instruction : Instruction} (isPlain : instruction.IsPlain) :
    instruction.IsStraight := by
  cases instruction <;> first | exact isPlain | exact isPlain.elim

theorem isPlain_of_spillMove {pool : RegisterPool} {move : Instruction}
    (spills : pool.SpillMove move) : move.IsPlain := by
  cases spills <;> trivial

end Instruction

/-- The memory in which a method's variables and the fields of its program are. -/
structure Memory where
  /-- The frame slots below the spill slots. -/
  frame : Nat → Word
  area : Nat → Word
  heap : Nat → Nat → Word

namespace Machine

variable {primitives : Primitives} {machine : Machine} {base : Nat} {memory : Memory}
variable {pool : RegisterPool} {moves : List Instruction}

/-- A machine has this memory; `base` is the first spill slot. -/
structure Shows (machine : Machine) (base : Nat) (memory : Memory) : Prop where
  frame : ∀ slot < base, machine.store.slots slot = memory.frame slot
  area : machine.area = memory.area
  heap : machine.heap = memory.heap

/-- The machine after moves between registers and spill slots. -/
def moved (machine : Machine) (moves : List Instruction) : Machine :=
  { machine with store := machine.store.run moves }

theorem execute_moves (spills : ∀ move ∈ moves, pool.SpillMove move) (machine : Machine) :
    machine.execute primitives moves = some (machine.moved moves) := by
  induction moves generalizing machine with
  | nil => rfl
  | cons move moves ih =>
    have rest := ih fun other isMove => spills other (List.mem_cons_of_mem _ isMove)
    rw [execute_cons]
    cases spills move List.mem_cons_self with
    | out _ _ =>
      simp only [effect, Option.bind_some, rest]
      rfl
    | back _ _ =>
      simp only [effect, Option.bind_some, rest]
      rfl

theorem Shows.moved (spills : ∀ move ∈ moves, pool.SpillMove move) (baseEq : pool.spillBase = base)
    (isShown : machine.Shows base memory) : (machine.moved moves).Shows base memory where
  frame slot below := by
    have kept := RegisterPool.slots_run_of_lt spills (baseEq ▸ below) machine.store
    exact kept.trans (isShown.frame slot below)
  area := isShown.area
  heap := isShown.heap

theorem Shows.put (isShown : machine.Shows base memory) (target : Register) (word : Word) :
    (machine.put target word).Shows base memory :=
  ⟨isShown.frame, isShown.area, isShown.heap⟩

end Machine

variable {pool : RegisterPool}

theorem RegisterPool.Holds.register {machine : Machine} {contents : Temporary → Word}
    (holds : pool.Holds machine.store contents) {source : Register} {temporary : Temporary}
    (isHeld : pool.HoldsPinned source temporary) :
    machine.register source = contents temporary := by
  rcases isHeld with ⟨index, resident, rfl, held, rfl, _⟩
  exact holds.resident held

theorem RegisterPool.Holds.congr {Word : Type} {store : Store Word}
    {contents others : Temporary → Word} (holds : pool.Holds store contents)
    (same : ∀ temporary, pool.IsLive temporary → others temporary = contents temporary) :
    pool.Holds store others where
  resident held := (holds.resident held).trans (same _ (.inl ⟨_, _, held, rfl⟩)).symm
  spilled isSpilled := (holds.spilled isSpilled).trans (same _ (.inr ⟨_, isSpilled, rfl⟩)).symm

namespace Generation

variable {before between after : Generation} {moves : List Instruction}

/-! ## Emitting -/

/-- A block is emitted. -/
def emitted (generation : Generation) (block : List Instruction) : Generation :=
  { generation with emitter := generation.emitter.append block.toArray }

theorem emitted_nil (generation : Generation) : generation.emitted [] = generation := by
  simp [emitted, Emitter.append]

@[simp]
theorem nextLabel_emitted (block : List Instruction) :
    (before.emitted block).emitter.nextLabel = before.emitter.nextLabel := rfl

theorem emitted_emitted (block more : List Instruction) :
    (before.emitted block).emitted more = before.emitted (block ++ more) := by
  simp [Generation.emitted, Emitter.append]

theorem Emits.emitted (wellFormed : before.pool.WellFormed) {block : List Instruction}
    (named : ∀ instruction ∈ block, instruction.NamesBelow before.pool.registers.length) :
    Emits before (before.emitted block) block [] where
  wellFormed := wellFormed
  length_eq := rfl
  base_eq := rfl
  next_le := Nat.le_refl _
  loops_eq := rfl
  nextLabel_le := Nat.le_refl _
  code_eq := by simp [Generation.emitted, Emitter.append]
  named := named
  spilled_keeps _ isSpilled _ := isSpilled

/-! ## Making a temporary -/

/-- A temporary was made in a register. -/
structure Acquired (before after : Generation) (temporary : Temporary) (register : Nat)
    (moves : List Instruction) : Prop where
  resumed : after = before.resume after.session
  produces : Produces before.session after.session temporary register moves

namespace Acquired

variable {temporary : Temporary} {register : Nat}
variable {primitives : Primitives} {block : List Instruction}

section

variable (acquired : Acquired before after temporary register moves)
include acquired

theorem inRange : register < before.pool.registers.length :=
  acquired.produces.registerLt

theorem emits : Emits before after moves [] where
  wellFormed := acquired.produces.wellFormed
  length_eq := acquired.produces.length_eq
  base_eq := acquired.produces.base_eq
  next_le := Nat.le_trans (Nat.le_succ _) (Nat.le_of_eq acquired.produces.next_eq.symm)
  loops_eq := by rw [acquired.resumed]; rfl
  nextLabel_le := by rw [acquired.resumed]; exact Nat.le_refl _
  code_eq := acquired.produces.code_eq
  named move isMove := by
    have namesBelow :=
      Instruction.namesBelow_of_spillMove (acquired.produces.spillMoves move isMove)
    rwa [acquired.produces.length_eq] at namesBelow
  spilled_keeps _ isSpilled _ := acquired.produces.spilled_subset isSpilled

theorem execute_append (machine : Machine) :
    machine.execute primitives (moves ++ block) =
      (machine.moved moves).execute primitives block := by
  rw [Machine.execute_append, Machine.execute_moves acquired.produces.spillMoves, Option.bind_some]

end

/-- The instructions behind the moves find all registers unchanged, and put a word into the new
one. -/
theorem executes {machine : Machine} {memory : Memory}
    {contents : Temporary → Word} (acquired : Acquired before after temporary register moves)
    (holds : before.pool.Holds machine.store contents)
    (isShown : machine.Shows before.pool.spillBase memory) {word : Option Word}
    (effect : ∀ moved : Machine, moved.store.registers = machine.store.registers →
      moved.Shows before.pool.spillBase memory →
        moved.execute primitives block = word.map (moved.put (.general register))) :
    Machine.Leads (machine.execute primitives (moves ++ block)) word fun word last =>
      after.pool.Holds last.store (Function.update contents temporary word) ∧
        last.Shows before.pool.spillBase memory := by
  have movedShown := isShown.moved acquired.produces.spillMoves acquired.produces.base_eq
  rw [acquired.execute_append, effect _ (acquired.produces.registers_eq machine.store) movedShown]
  cases word with
  | none => rfl
  | some word => exact ⟨_, rfl, acquired.produces.holds word holds, movedShown.put _ _⟩

end Acquired

/-! ## Loading temporaries -/

/-- Temporaries were brought into registers. -/
structure Loaded (before after : Generation) (temporaries : List Temporary)
    (moves : List Instruction) : Prop where
  resumed : after = before.resume after.session
  brings : Brings before.session after.session temporaries moves

namespace Loaded

variable {temporaries : List Temporary}

theorem emits (loaded : Loaded before after temporaries moves) :
    Emits before after moves temporaries := by
  rw [loaded.resumed]
  exact .of_shuffle loaded.brings.toShuffle loaded.brings.spilled_keeps

theorem exchanges (loaded : Loaded before after temporaries moves) :
    before.pool.Exchanges after.pool [] [] where
  isLive_iff other := by
    simp only [List.not_mem_nil, not_false_eq_true, and_true, or_false]
    exact loaded.brings.isLive_iff other
  fresh := by simp

theorem executes {primitives : Primitives} {machine : Machine} {memory : Memory}
    {contents : Temporary → Word} (loaded : Loaded before after temporaries moves)
    (holds : before.pool.Holds machine.store contents)
    (isShown : machine.Shows before.pool.spillBase memory) :
    machine.execute primitives moves = some (machine.moved moves) ∧
      after.pool.Holds (machine.moved moves).store contents ∧
      (machine.moved moves).Shows before.pool.spillBase memory :=
  ⟨Machine.execute_moves loaded.brings.spillMoves machine, loaded.brings.holds holds,
    isShown.moved loaded.brings.spillMoves loaded.brings.base_eq⟩

end Loaded

/-! ## Clearing registers -/

/-- All temporaries but the kept ones were spilled. -/
structure Cleared (before after : Generation) (kept : List Temporary) (moves : List Instruction) :
    Prop where
  resumed : after = before.resume after.session
  clears : ClearsAllExcept before.session after.session kept moves

namespace Cleared

variable {kept : List Temporary}

theorem emits (cleared : Cleared before after kept moves) : Emits before after moves [] := by
  rw [cleared.resumed]
  exact .of_shuffle cleared.clears.toShuffle fun entry isSpilled _ =>
    cleared.clears.spilled_subset isSpilled

theorem exchanges (cleared : Cleared before after kept moves) :
    before.pool.Exchanges after.pool [] [] where
  isLive_iff other := by
    simp only [List.not_mem_nil, not_false_eq_true, and_true, or_false]
    exact cleared.clears.isLive_iff other
  fresh := by simp

theorem pinnedWithin (cleared : Cleared before after kept moves) {pinned : List Temporary}
    (within : before.pool.PinnedWithin pinned) : after.pool.PinnedWithin pinned :=
  fun register resident held =>
    within register resident ((cleared.clears.content?_iff register resident).mp held).1

end Cleared

variable {temporary : Temporary}

/-! ## Releasing a temporary -/

/-- A temporary is given up. -/
def released (generation : Generation) (temporary : Temporary) : Generation :=
  { generation with pool := generation.pool.release temporary }

section

variable (wellFormed : before.pool.WellFormed)
include wellFormed

theorem releases_released (temporary : Temporary) :
    Releases before.pool (before.released temporary).pool temporary :=
  RegisterPool.releases_release wellFormed temporary

theorem Emits.released (temporary : Temporary) :
    Emits before (before.released temporary) [] [temporary] := by
  have releases := releases_released wellFormed temporary
  exact
    { wellFormed := releases.wellFormed
      length_eq := releases.length_eq
      base_eq := releases.base_eq
      next_le := Nat.le_of_eq releases.next_eq.symm
      loops_eq := rfl
      nextLabel_le := Nat.le_refl _
      code_eq := (List.append_nil _).symm
      named := by simp
      spilled_keeps := fun entry isSpilled notReleased =>
        (releases.spilled_iff entry).mpr ⟨isSpilled, by simpa using notReleased⟩ }

theorem exchanges_released (temporary : Temporary) :
    before.pool.Exchanges (before.released temporary).pool [temporary] [] where
  isLive_iff other := by
    rw [(releases_released wellFormed temporary).isLive_iff]
    simp [and_comm]
  fresh := by simp

theorem pinnedWithin_released
    {pinned : List Temporary} (within : before.pool.PinnedWithin (temporary :: pinned)) :
    (before.released temporary).pool.PinnedWithin pinned := by
  intro register resident held isPinned
  rcases ((releases_released wellFormed temporary).content?_iff register resident).mp held with
    ⟨wasHeld, differs⟩
  rcases List.mem_cons.mp (within register resident wasHeld isPinned) with same | isOther
  · exact absurd same differs
  · exact isOther

theorem holdsPinned_released {other : Temporary} {register : Register}
    (holds : before.pool.HoldsPinned register other) (differs : other ≠ temporary) :
    (before.released temporary).pool.HoldsPinned register other := by
  rcases holds with ⟨index, resident, rfl, held, same, isPinned⟩
  exact ⟨index, resident, rfl,
    ((releases_released wellFormed temporary).content?_iff index resident).mpr
    ⟨held, same ▸ differs⟩, same, isPinned⟩

end

/-! ## Letting all be spilled again -/

/-- Nothing is pinned any more. -/
def unpinned (generation : Generation) : Generation :=
  { generation with pool := generation.pool.unpinAll }

theorem Emits.unpinned (wellFormed : before.pool.WellFormed) :
    Emits before before.unpinned [] [] := by
  have shuffle := @RegisterPool.shuffle_unpinAll before.session wellFormed
  exact .of_shuffle shuffle fun _ isSpilled _ => isSpilled

theorem isResident_unpinned (isResident : before.pool.IsResident temporary) :
    before.unpinned.pool.IsResident temporary := by
  rcases isResident with ⟨register, resident, held, same⟩
  refine ⟨register, { resident with isPinned := false }, ?_, same⟩
  exact (RegisterPool.content?_mapResidents _ _ _).trans (congrArg (Option.map _) held)

theorem isLive_unpinned (wellFormed : before.pool.WellFormed) (temporary : Temporary) :
    before.unpinned.pool.IsLive temporary ↔ before.pool.IsLive temporary :=
  (@RegisterPool.shuffle_unpinAll before.session wellFormed).isLive_iff temporary

theorem holds_unpinned {store : Store Word} {contents : Temporary → Word}
    (wellFormed : before.pool.WellFormed) (holds : before.pool.Holds store contents) :
    before.unpinned.pool.Holds store contents :=
  (@RegisterPool.shuffle_unpinAll before.session wellFormed).holds holds

end Generation

/-! ## The steps themselves -/

namespace Generating

open Generation

variable {before : Generation} {position : Position}
variable {pinned : List Temporary} {temporary : Temporary}

theorem succeeds_emit (instruction : Instruction) :
    Succeeds (emit instruction) before fun _ after => after = before.emitted [instruction] := by
  refine ⟨(), _, rfl, ?_⟩
  simp [Generation.emitted, Emitter.emit, Emitter.append]

theorem succeeds_emitAll (block : List Instruction) :
    Succeeds (emitAll block) before fun _ after => after = before.emitted block :=
  ⟨(), _, rfl, rfl⟩

theorem succeeds_release (temporary : Temporary) :
    Succeeds (release temporary) before fun _ after => after = before.released temporary :=
  ⟨(), _, rfl, rfl⟩

theorem succeeds_unpinAll : Succeeds unpinAll before fun _ after => after = before.unpinned :=
  ⟨(), _, rfl, rfl⟩

section

variable (wellFormed : before.pool.WellFormed)
include wellFormed

theorem succeeds_acquire (within : before.pool.PinnedWithin pinned)
    (enough : pinned.length < before.pool.registers.length) :
    Succeeds (acquire position) before fun made after =>
      ∃ register moves, made.2 = .general register ∧
        Acquired before after made.1 register moves := by
  rcases @RegisterPool.run_acquire_spec before.session wellFormed with
    ⟨temporary, register, session, moves, ran, produces⟩ | ⟨_, allPinned⟩
  · refine (succeeds_withPool ran).mono ?_
    rintro _ _ ⟨rfl, rfl⟩
    exact ⟨register, moves, rfl, rfl, produces⟩
  · exact absurd (RegisterPool.length_le_of_allPinned wellFormed allPinned within)
      (Nat.not_le.mpr enough)

/-- A temporary is made in a given register that is free. -/
theorem succeeds_acquireSpecific {register : Nat}
    (inRange : register < before.pool.registers.length)
    (vacant : before.pool.content? register = none) :
    Succeeds (withPool position (RegisterPool.acquireSpecific register)) before fun made after =>
      Acquired before after made.1 register [] := by
  have ran := RegisterPool.run_acquireSpecific register before.session
  have vacantSession : before.session.pool.content? register = none := vacant
  rw [vacantSession] at ran
  refine (succeeds_withPool (ran.trans (RegisterPool.run_occupy register before.session))).mono ?_
  rintro _ _ ⟨rfl, rfl⟩
  exact ⟨rfl, RegisterPool.produces_occupied
    (@RegisterPool.clears_vacant register before.session wellFormed inRange vacant)⟩

/-- A live temporary is loaded if there are more registers than pinned temporaries, itself
included. -/
theorem succeeds_load (isLive : before.pool.IsLive temporary)
    (within : before.pool.PinnedWithin (temporary :: pinned))
    (enough : pinned.length + 1 < before.pool.registers.length) :
    Succeeds (load position temporary) before fun register after => ∃ index moves,
      register = .general index ∧ index < before.pool.registers.length ∧
        after.pool.HoldsPinned register temporary ∧ Loaded before after [temporary] moves := by
  have pins := @Brings.pinned before.session wellFormed [temporary]
  have isLivePinned := (pins.isLive_iff temporary).mpr isLive
  have withinPinned := (pins.pinnedWithin within).mono
    (show [temporary] ++ temporary :: pinned ⊆ temporary :: pinned by simp)
  rcases RegisterPool.run_fetch_of_isLive pins.wellFormed
    (RegisterPool.ready_pinned before.session [temporary])
    isLivePinned withinPinned (by rw [pins.length_eq]; exact enough) with
    ⟨index, session, moves, ran, fetches⟩
  have ranLoad : (RegisterPool.loadOne temporary).run before.session =
      (.ok (.general index), session) := by
    rw [RegisterPool.loadOne, RegisterPool.Operation.run_bind, RegisterPool.run_pinAll]
    exact ran
  refine (succeeds_withPool ranLoad).mono ?_
  rintro _ _ ⟨rfl, rfl⟩
  have inRange := fetches.registerLt
  rw [pins.length_eq] at inRange
  exact ⟨index, _, rfl, inRange, fetches.holdsPinned, rfl,
    (pins.trans (.of_fetches fetches)).mono (by simp)⟩

/-- A temporary that is in a register is loaded without further ado. -/
theorem succeeds_load_resident {index : Nat} {resident : Resident}
    (held : before.pool.content? index = some resident) :
    Succeeds (load position resident.temporary) before fun found after =>
      found = .general index ∧ after.pool.HoldsPinned (.general index) resident.temporary ∧
        Loaded before after [resident.temporary] [] := by
  have pins := @Brings.pinned before.session wellFormed [resident.temporary]
  have stillHeld : (RegisterPool.pinnedSession before.session
      [resident.temporary]).pool.content? index = some { resident with isPinned := true } := by
    refine (RegisterPool.content?_pin before.pool resident.temporary index).trans ?_
    rw [held, Option.map_some, if_pos rfl]
  have found := (RegisterPool.registerOf?_eq_some_iff pins.wellFormed).mpr ⟨_, stillHeld, rfl⟩
  have ranLoad : (RegisterPool.loadOne resident.temporary).run before.session =
      (.ok (.general index), RegisterPool.pinnedSession before.session [resident.temporary]) := by
    rw [RegisterPool.loadOne, RegisterPool.Operation.run_bind, RegisterPool.run_pinAll]
    simp only [RegisterPool.run_fetch, found]
  refine (succeeds_withPool ranLoad).mono ?_
  rintro _ _ ⟨rfl, rfl⟩
  exact ⟨rfl, ⟨index, _, rfl, stillHeld, rfl, rfl⟩, rfl, pins⟩

theorem succeeds_load_again {register : Register}
    (isHeld : before.pool.HoldsPinned register temporary) :
    Succeeds (load position temporary) before fun found after =>
      found = register ∧ after.pool.HoldsPinned register temporary ∧
        Loaded before after [temporary] [] := by
  rcases isHeld with ⟨index, resident, rfl, held, rfl, _⟩
  exact succeeds_load_resident wellFormed held

/-- Two live temporaries are loaded at once if nothing else is pinned and there are three
registers. -/
theorem succeeds_loadPair {left right : Temporary}
    (leftLive : before.pool.IsLive left) (rightLive : before.pool.IsLive right)
    (within : before.pool.PinnedWithin []) (enough : 3 ≤ before.pool.registers.length) :
    Succeeds (withPool position (RegisterPool.loadPair left right)) before fun registers after =>
      ∃ leftIndex rightIndex moves, registers = (.general leftIndex, .general rightIndex) ∧
        leftIndex < before.pool.registers.length ∧ rightIndex < before.pool.registers.length ∧
        after.pool.HoldsPinned registers.1 left ∧ after.pool.HoldsPinned registers.2 right ∧
        Loaded before after [left, right] moves := by
  have pins := @Brings.pinned before.session wellFormed [left, right]
  have ready := RegisterPool.ready_pinned before.session [left, right]
  rcases RegisterPool.run_fetch_of_isLive pins.wellFormed
    (fun register resident held isLeft =>
      ready register resident held (by simp at isLeft; simp [isLeft]))
    ((pins.isLive_iff left).mpr leftLive) (pins.pinnedWithin within)
    (by rw [pins.length_eq]; exact enough) with ⟨leftIndex, between, moves, ranLeft, fetchesLeft⟩
  have toLeft := pins.trans (.of_fetches fetchesLeft)
  have stillReady := fetchesLeft.ready ready
  rcases RegisterPool.run_fetch_of_isLive fetchesLeft.wellFormed
    (fun register resident held isRight =>
      stillReady register resident held (by simp at isRight; simp [isRight]))
    ((toLeft.isLive_iff right).mpr rightLive)
    ((toLeft.pinnedWithin within).mono (show _ ⊆ [left, right] by simp))
    (by rw [toLeft.length_eq]; exact enough) with ⟨rightIndex, last, later, ranRight, fetchesRight⟩
  have ranLoad : (RegisterPool.loadPair left right).run before.session =
      (.ok (.general leftIndex, .general rightIndex), last) := by
    simp only [RegisterPool.loadPair, RegisterPool.Operation.run_bind, RegisterPool.run_pinAll,
      ranLeft, ranRight, RegisterPool.Operation.run_pure]
  refine (succeeds_withPool ranLoad).mono ?_
  rintro _ _ ⟨rfl, rfl⟩
  have leftInRange := fetchesLeft.registerLt
  rw [pins.length_eq] at leftInRange
  have rightInRange := fetchesRight.registerLt
  rw [toLeft.length_eq] at rightInRange
  have brings := (toLeft.trans (.of_fetches fetchesRight)).mono (show _ ⊆ [left, right] by simp)
  exact ⟨leftIndex, rightIndex, _, rfl, leftInRange, rightInRange,
    (Brings.of_fetches fetchesRight).keepsPinned fetchesLeft.holdsPinned, fetchesRight.holdsPinned,
    rfl, brings⟩

/-- Only the kept temporaries are left in registers. -/
theorem succeeds_spillAllExcept (kept : List Temporary) :
    Succeeds (spillAllExcept position kept) before fun _ after => ∃ moves,
      Cleared before after kept moves := by
  rcases @RegisterPool.run_spillAllExcept_spec before.session wellFormed kept with
    ⟨session, moves, ran, clears⟩
  refine (succeeds_withPool ran).mono ?_
  rintro _ _ ⟨rfl, rfl⟩
  exact ⟨moves, rfl, clears⟩

end

theorem succeeds_conclude {Result : Type} {step : Generating Result}
    {post : Result → Generation → Prop} (succeeds : Succeeds step before post) :
    Succeeds (conclude step) before fun result after =>
      ∃ between, post result between ∧ after = between.unpinned := by
  refine succeeds.bind fun result between holds => ?_
  refine succeeds_unpinAll.bind fun _ after afterEq => ?_
  exact .pure ⟨between, holds, afterEq⟩

end Generating

end Decaf
