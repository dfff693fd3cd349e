import Decaf.Proofs.Code.Operations

/-!
# Places

A place is worked out once and then read or written. The object of a place is a temporary; it is
loaded for each access, and it is given up when the place is written.
-/

namespace Decaf

/-! ## Locations -/

/-- What a place stands for in memory. -/
inductive Location where
  | slot (number : Nat)
  | area (offset : Nat)
  | field (object : Word) (offset : Nat)

namespace Memory

/-- The word at a location; `null` has no fields. -/
def read? (memory : Memory) : Location → Option Word
  | .slot number => some (memory.frame number)
  | .area offset => some (memory.area offset)
  | .field object offset => memory.field? object offset

/-- The memory with another word at a location. -/
def write? (memory : Memory) (word : Word) : Location → Option Memory
  | .slot number => some { memory with frame := Function.update memory.frame number word }
  | .area offset => some { memory with area := Function.update memory.area offset word }
  | .field (.object address) offset =>
    let words := Function.update (memory.heap address) offset word
    some { memory with heap := Function.update memory.heap address words }
  | .field _ _ => none

end Memory

namespace Place

/-- The temporary that a place depends on. -/
def temporaries : Place → List Temporary
  | .heap object _ => [object]
  | .frame _ | .area _ => []

/-- Where in memory a place is. -/
def location (contents : Temporary → Word) : Place → Location
  | .frame slot => .slot slot
  | .area offset => .area offset
  | .heap object offset => .field (contents object) offset

/-- A variable's slot is not one for spilled temporaries. -/
def BelowSpills (base : Nat) : Place → Prop
  | .frame slot => slot < base
  | .area _ | .heap .. => True

theorem location_congr {contents others : Temporary → Word} {place : Place}
    (same : ∀ temporary ∈ place.temporaries, others temporary = contents temporary) :
    place.location others = place.location contents := by
  cases place with
  | heap object offset => simp [location, same object (by simp [temporaries])]
  | _ => rfl

end Place

namespace Generation

/-- A machine has every temporary in its place, and has this memory. -/
structure Tracks (generation : Generation) (machine : Machine) (contents : Temporary → Word)
    (memory : Memory) : Prop where
  holds : generation.pool.Holds machine.store contents
  isShown : machine.Shows generation.pool.spillBase memory

namespace Tracks

variable {generation after : Generation} {machine : Machine} {contents : Temporary → Word}
  {memory : Memory} {primitives : Primitives}
variable {temporary : Temporary} {register : Nat} {moves : List Instruction}

/-- A new temporary stands for whatever its register holds. -/
theorem acquired_register (tracks : generation.Tracks machine contents memory)
    (acquired : Acquired generation after temporary register moves) :
    after.Tracks (machine.moved moves)
      (Function.update contents temporary ((machine.moved moves).register (.general register)))
        memory := by
  refine ⟨?_, ?_⟩
  · have holds :=
      acquired.produces.holds ((machine.moved moves).register (.general register)) tracks.holds
    have same : ((machine.moved moves).store).setRegister (.general register)
        ((machine.moved moves).register (.general register)) = (machine.moved moves).store := by
      simp [Store.setRegister, Machine.register]
    exact same ▸ holds
  · have isShown := tracks.isShown.moved acquired.produces.spillMoves acquired.produces.base_eq
    exact acquired.produces.base_eq ▸ isShown

theorem acquired (tracks : generation.Tracks machine contents memory)
    (acquired : Acquired generation after temporary register moves) :
    machine.execute primitives moves = some (machine.moved moves) ∧
      ∃ word, after.Tracks (machine.moved moves) (Function.update contents temporary word) memory :=
  ⟨Machine.execute_moves acquired.produces.spillMoves machine, _, tracks.acquired_register acquired⟩

theorem cleared {kept : List Temporary} (tracks : generation.Tracks machine contents memory)
    (cleared : Cleared generation after kept moves) :
    machine.execute primitives moves = some (machine.moved moves) ∧
      after.Tracks (machine.moved moves) contents memory := by
  refine ⟨Machine.execute_moves cleared.clears.spillMoves machine,
    cleared.clears.holds tracks.holds, ?_⟩
  exact cleared.clears.base_eq ▸ tracks.isShown.moved cleared.clears.spillMoves
    cleared.clears.base_eq

/-- A register that is free gets another word. -/
theorem put_vacant (tracks : generation.Tracks machine contents memory)
    (vacant : generation.pool.content? register = none) (word : Word) :
    generation.Tracks (machine.put (.general register) word) contents memory := by
  refine ⟨⟨?_, tracks.holds.spilled⟩, tracks.isShown.put _ _⟩
  intro other resident held
  rw [Machine.put, Store.registers_setRegister, if_neg, tracks.holds.resident held]
  rintro ⟨rfl⟩
  rw [vacant] at held
  cases held

theorem unpinned (tracks : generation.Tracks machine contents memory)
    (wellFormed : generation.pool.WellFormed) :
    generation.unpinned.Tracks machine contents memory :=
  ⟨holds_unpinned wellFormed tracks.holds, (Emits.unpinned wellFormed).base_eq ▸ tracks.isShown⟩

theorem loaded {temporaries : List Temporary} (tracks : generation.Tracks machine contents memory)
    (loaded : Loaded generation after temporaries moves) :
    machine.execute primitives moves = some (machine.moved moves) ∧
      after.Tracks (machine.moved moves) contents memory := by
  rcases @Loaded.executes _ _ _ _ primitives _ _ _ loaded tracks.holds tracks.isShown with
    ⟨ran, holds, isShown⟩
  exact ⟨ran, holds, loaded.brings.base_eq ▸ isShown⟩

theorem released (tracks : generation.Tracks machine contents memory)
    (wellFormed : generation.pool.WellFormed) (temporary : Temporary) :
    (generation.released temporary).Tracks machine contents memory :=
  ⟨(releases_released wellFormed temporary).holds tracks.holds,
    (Emits.released wellFormed temporary).base_eq ▸ tracks.isShown⟩

theorem emitted (tracks : generation.Tracks machine contents memory) (block : List Instruction) :
    (generation.emitted block).Tracks machine contents memory :=
  ⟨tracks.holds, tracks.isShown⟩

/-- The register of a temporary gets another word. -/
theorem put {register : Register} (tracks : generation.Tracks machine contents memory)
    (wellFormed : generation.pool.WellFormed)
    (isHeld : generation.pool.HoldsPinned register temporary) (word : Word) :
    generation.Tracks (machine.put register word) (Function.update contents temporary word)
      memory := by
  rcases isHeld with ⟨index, resident, rfl, held, rfl, _⟩
  refine ⟨⟨?_, ?_⟩, tracks.isShown.put _ _⟩
  · intro other content otherHeld
    simp only [Machine.put, Store.registers_setRegister, Register.general.injEq]
    split
    next same =>
      rw [same, held] at otherHeld
      cases otherHeld
      simp
    next differs =>
      rw [Function.update_of_ne, tracks.holds.resident otherHeld]
      exact fun same => differs (wellFormed.resident_unique otherHeld held same)
  · intro entry isSpilled
    rw [Function.update_of_ne]
    · exact tracks.holds.spilled isSpilled
    · exact fun same => wellFormed.resident_not_spilled held isSpilled same.symm

/-- A slot below the spilled temporaries gets another word. -/
theorem setSlot {slot : Nat} (tracks : generation.Tracks machine contents memory)
    (below : slot < generation.pool.spillBase) (word : Word) :
    generation.Tracks { machine with store := machine.store.setSlot slot word } contents
      { memory with frame := Function.update memory.frame slot word } := by
  refine ⟨⟨fun held => tracks.holds.resident held, ?_⟩, ?_, tracks.isShown.area,
    tracks.isShown.heap⟩
  · intro entry isSpilled
    rw [Store.slots_setSlot, if_neg (by omega)]
    exact tracks.holds.spilled isSpilled
  · intro other otherBelow
    simp only [Store.slots_setSlot, Function.update_apply, tracks.isShown.frame other otherBelow]

end Tracks

end Generation

namespace Generating

open Generation

variable {before : Generation} {position : Position} {place : Place} {pinned : List Temporary}
variable {temporary object : Temporary} {instruction : Instruction} {offset : Nat}

/-- A temporary can be loaded. -/
def Loadable (generation : Generation) (position : Position) (temporary : Temporary) : Prop :=
  Succeeds (load position temporary) generation fun register after => ∃ index moves,
    register = .general index ∧
    index < generation.pool.registers.length ∧ after.pool.HoldsPinned register temporary ∧
    Loaded generation after [temporary] moves

theorem loadable_of_few (wellFormed : before.pool.WellFormed)
    (isLive : before.pool.IsLive temporary)
    (within : before.pool.PinnedWithin (temporary :: pinned))
    (enough : pinned.length + 1 < before.pool.registers.length) :
    Loadable before position temporary :=
  succeeds_load wellFormed isLive within enough

theorem loadable_of_holdsPinned (wellFormed : before.pool.WellFormed)
    {register : Register} (isHeld : before.pool.HoldsPinned register temporary) :
    Loadable before position temporary := by
  refine (succeeds_load_again wellFormed isHeld).mono ?_
  rintro _ after ⟨rfl, stillHeld, loaded⟩
  rcases isHeld with ⟨index, resident, rfl, held, _, _⟩
  exact ⟨index, [], rfl, RegisterPool.lt_of_content?_eq_some held, stillHeld, loaded⟩

/-! ## Reading and writing -/

/-- What an access to a place does besides loading its object. -/
structure Accesses (before after : Generation) (block : List Instruction) (place : Place)
    (used : List Temporary) : Prop where
  emits : Emits before after block place.temporaries
  exchanges : before.pool.Exchanges after.pool used []
  isPlain : ∀ instruction ∈ block, instruction.IsPlain
  keepsPinned : ∀ {register other}, before.pool.HoldsPinned register other → other ∉ used →
    after.pool.HoldsPinned register other
  pinnedWithin : ∀ {pinned}, before.pool.PinnedWithin pinned →
    after.pool.PinnedWithin (place.temporaries ++ pinned)

theorem accesses_emitted (wellFormed : before.pool.WellFormed)
    (named : instruction.NamesBelow before.pool.registers.length) (isPlain : instruction.IsPlain)
    (place : Place) : Accesses before (before.emitted [instruction]) [instruction] place [] where
  emits := (Emits.emitted wellFormed (by simpa using named)).narrow (by simp)
  exchanges := .refl _
  isPlain := by simpa using isPlain
  keepsPinned isHeld _ := isHeld
  pinnedWithin within := within.mono (List.subset_append_right _ _)

theorem accesses_loaded {loadedState : Generation}
    {moves : List Instruction} (loaded : Loaded before loadedState [object] moves)
    (named : instruction.NamesBelow before.pool.registers.length) (isPlain : instruction.IsPlain) :
    Accesses before (loadedState.emitted [instruction]) (moves ++ [instruction])
      (.heap object offset) [] where
  emits := by
    have emitted := @Emits.emitted loadedState loaded.emits.wellFormed [instruction]
      (by simpa [loaded.emits.length_eq] using named)
    simpa [Place.temporaries] using loaded.emits.trans emitted
  exchanges := loaded.exchanges
  isPlain := by
    intro other isEmitted
    rcases List.mem_append.mp isEmitted with isMove | isOwn
    · exact Instruction.isPlain_of_spillMove (loaded.brings.spillMoves other isMove)
    · exact List.mem_singleton.mp isOwn ▸ isPlain
  keepsPinned isHeld _ := loaded.brings.keepsPinned isHeld
  pinnedWithin within := loaded.brings.pinnedWithin within

/-- Behind an access the object may be given up. -/
theorem Accesses.released {block : List Instruction}
    (accesses : Accesses before after block (.heap object offset) []) :
    Accesses before (after.released object) block (.heap object offset)
      (Place.heap object offset).temporaries where
  emits := by
    have emits := accesses.emits.trans (Emits.released accesses.emits.wellFormed object)
    rw [List.append_nil] at emits
    exact emits.narrow fun other isMoved => .inl (by simpa [Place.temporaries] using isMoved)
  exchanges := by
    have exchanges := accesses.exchanges.keep (exchanges_released accesses.emits.wellFormed object)
      accesses.emits.next_le (by simp)
    simpa [Place.temporaries] using exchanges
  isPlain := accesses.isPlain
  keepsPinned := by
    intro register other otherHeld notUsed
    refine holdsPinned_released accesses.emits.wellFormed
      (accesses.keepsPinned otherHeld (by simp)) ?_
    simpa [Place.temporaries] using notUsed
  pinnedWithin := by
    intro pinned within
    have released := pinnedWithin_released accesses.emits.wellFormed (accesses.pinnedWithin within)
    exact released.mono (List.subset_append_right _ _)

section

variable (wellFormed : before.pool.WellFormed) (below : place.BelowSpills before.pool.spillBase)
  (loadable : ∀ object ∈ place.temporaries, Loadable before position object)
include wellFormed below loadable

/-- A word is read from a place into the register of a temporary. -/
theorem succeeds_readPlace {target : Nat}
    {result : Temporary} (isHeld : before.pool.HoldsPinned (.general target) result) :
    Succeeds (readPlace position (.general target) place) before fun _ after => ∃ block,
      Accesses before after block place [] ∧
      (∀ object ∈ place.temporaries, ∃ register, after.pool.HoldsPinned register object) ∧
      ∀ {primitives machine contents memory}, before.Tracks machine contents memory →
        Machine.Leads (machine.execute primitives block) (memory.read? (place.location contents))
          fun word last => after.Tracks last (Function.update contents result word) memory := by
  have inRange := isHeld.registerLt
  cases place with
  | frame slot =>
    refine (succeeds_emit _).goesTo ?_
    refine ⟨_,
      accesses_emitted wellFormed (by simp [Instruction.NamesBelow, Instruction.registers, inRange])
      (by simp [Instruction.IsPlain, Instruction.IsStraight]) _, by simp [Place.temporaries], ?_⟩
    intro primitives machine contents memory tracks
    refine ⟨machine.put (.general target) (memory.frame slot), ?_,
      (tracks.put wellFormed isHeld _).emitted _⟩
    simp [Machine.effect, tracks.isShown.frame slot below]
  | area offset =>
    refine (succeeds_emit _).goesTo ?_
    refine ⟨_,
      accesses_emitted wellFormed (by simp [Instruction.NamesBelow, Instruction.registers, inRange])
      (by simp [Instruction.IsPlain, Instruction.IsStraight]) _, by simp [Place.temporaries], ?_⟩
    intro primitives machine contents memory tracks
    refine ⟨machine.put (.general target) (memory.area offset), ?_,
      (tracks.put wellFormed isHeld _).emitted _⟩
    simp [Machine.effect, tracks.isShown.area]
  | heap object offset =>
    refine (loadable object (by simp [Place.temporaries])).bind ?_
    rintro _ loadedState ⟨index, moves, rfl, indexInRange, objectHeld, loaded⟩
    refine (succeeds_emit _).goesTo ?_
    refine ⟨_, accesses_loaded loaded
      (by simp [Instruction.NamesBelow, Instruction.registers, inRange, indexInRange])
      (by simp [Instruction.IsPlain, Instruction.IsStraight]), ?_, ?_⟩
    · intro other isObject
      simp only [Place.temporaries, List.mem_singleton] at isObject
      exact isObject ▸ ⟨_, objectHeld⟩
    · intro primitives machine contents memory tracks
      rcases @Tracks.loaded _ _ _ _ _ primitives _ _ tracks loaded with ⟨ran, tracksLoaded⟩
      have base := tracksLoaded.holds.register objectHeld
      rw [Machine.execute_append, ran, Option.bind_some, Machine.execute_cons,
        Machine.effect_loadHeap tracksLoaded.isShown, base]
      simp only [Memory.read?, Place.location]
      cases memory.field? (contents object) offset with
      | none => rfl
      | some word =>
        exact ⟨_, rfl,
          (tracksLoaded.put loaded.emits.wellFormed (loaded.brings.keepsPinned isHeld) word).emitted
          _⟩

/-- The word in the register of a temporary is written to a place. -/
theorem succeeds_writePlace {source : Nat}
    {value : Temporary} (isHeld : before.pool.HoldsPinned (.general source) value) :
    Succeeds (writePlace position (.general source) place) before fun _ after => ∃ block,
      Accesses before after block place place.temporaries ∧
      ∀ {primitives machine contents memory}, before.Tracks machine contents memory →
        Machine.Leads (machine.execute primitives block)
          (memory.write? (contents value) (place.location contents))
          fun later last => after.Tracks last contents later := by
  have inRange := isHeld.registerLt
  cases place with
  | frame slot =>
    refine (succeeds_emit _).goesTo ?_
    refine ⟨_,
      accesses_emitted wellFormed (by simp [Instruction.NamesBelow, Instruction.registers, inRange])
      (by simp [Instruction.IsPlain, Instruction.IsStraight]) _, ?_⟩
    intro primitives machine contents memory tracks
    refine ⟨_, ?_, (tracks.setSlot below (contents value)).emitted _⟩
    simp [Machine.effect, tracks.holds.register isHeld]
  | area offset =>
    refine (succeeds_emit _).goesTo ?_
    refine ⟨_,
      accesses_emitted wellFormed (by simp [Instruction.NamesBelow, Instruction.registers, inRange])
      (by simp [Instruction.IsPlain, Instruction.IsStraight]) _, ?_⟩
    intro primitives machine contents memory tracks
    refine ⟨{ machine with area := Function.update machine.area offset (contents value) }, ?_,
      ⟨tracks.holds, tracks.isShown.frame, ?_, tracks.isShown.heap⟩⟩
    · simp [Machine.effect, tracks.holds.register isHeld]
    · simp [tracks.isShown.area]
  | heap object offset =>
    refine (loadable object (by simp [Place.temporaries])).bind ?_
    rintro _ loadedState ⟨index, moves, rfl, indexInRange, objectHeld, loaded⟩
    refine (succeeds_emit _).goOn ?_
    refine (succeeds_release object).goesTo ?_
    have accesses :=
      @accesses_loaded _ object (.storeHeap (.general index) offset (.general source))
      offset _ _ loaded
      (by simp [Instruction.NamesBelow, Instruction.registers, inRange, indexInRange])
      (by simp [Instruction.IsPlain, Instruction.IsStraight])
    refine ⟨_, accesses.released, ?_⟩
    intro primitives machine contents memory tracks
    rcases @Tracks.loaded _ _ _ _ _ primitives _ _ tracks loaded with ⟨ran, tracksLoaded⟩
    have base := tracksLoaded.holds.register objectHeld
    have word := tracksLoaded.holds.register (loaded.brings.keepsPinned isHeld)
    simp only [Machine.execute_append, ran, Option.bind_some, Machine.execute_cons,
      Machine.execute_nil, Machine.effect, base, word, Memory.write?, Place.location,
      tracksLoaded.isShown.heap]
    cases contents object with
    | object address =>
      refine ⟨_, rfl, ?_⟩
      have stored : loadedState.Tracks
          { machine.moved moves with
            heap := Function.update memory.heap address
              (Function.update (memory.heap address) offset (contents value)) } contents
          { memory with
            heap := Function.update memory.heap address
              (Function.update (memory.heap address) offset (contents value)) } :=
        ⟨tracksLoaded.holds, tracksLoaded.isShown.frame, tracksLoaded.isShown.area, rfl⟩
      exact (stored.emitted _).released accesses.emits.wellFormed object
    | _ => rfl

end

end Generating

end Decaf
