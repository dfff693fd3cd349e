import Decaf.Proofs.Code.Places

/-!
# Stepping and assigning

Before a place is stepped or assigned to it is worked out; that may make a temporary for the current
object. What follows depends on the place only through its location.
-/

namespace Decaf

/-- The word that a value is stepped by. -/
def Word.one (isDouble : Bool) : Word := if isDouble then .double .one else .int 1

/-- What a step does to the word at a location; the result is the new word or the old one. -/
def Memory.step (primitives : Primitives) (opcode : BinaryOpcode) (isDouble yieldsNew : Bool)
    (memory : Memory) (location : Location) : Option (Word × Memory) := do
  let old ← memory.read? location
  let new ← primitives.binary opcode old (.one isDouble)
  let later ← memory.write? new location
  return (if yieldsNew then new else old, later)

/-- A step with both the old and the new word. -/
def Memory.stepBoth (primitives : Primitives) (opcode : BinaryOpcode) (isDouble : Bool)
    (memory : Memory) (location : Location) : Option (Word × Word × Memory) :=
  (memory.read? location).bind fun old =>
    (primitives.binary opcode old (.one isDouble)).bind fun new =>
      (memory.write? new location).map fun later => (old, new, later)

theorem Memory.step_eq (primitives : Primitives) (opcode : BinaryOpcode) (isDouble yieldsNew : Bool)
    (memory : Memory) (location : Location) :
    memory.step primitives opcode isDouble yieldsNew location =
      (memory.stepBoth primitives opcode isDouble location).map fun outcome =>
        (if yieldsNew then outcome.2.1 else outcome.1, outcome.2.2) := by
  simp only [step, stepBoth, Option.bind_eq_bind, Option.pure_def]
  cases memory.read? location with
  | none => rfl
  | some old =>
    simp only [Option.bind_some]
    cases primitives.binary opcode old (.one isDouble) with
    | none => rfl
    | some new =>
      simp only [Option.bind_some]
      cases memory.write? new location <;> rfl

theorem Place.length_temporaries_le (place : Place) : place.temporaries.length ≤ 1 := by
  cases place <;> simp [temporaries]

namespace Generation

variable {before between after : Generation} {place : Place}
variable {object : Temporary}

/-- A place was worked out. -/
structure Locates (before after : Generation) (place : Place) (used : List Temporary)
    (locate : Memory → (Temporary → Word) → Location) : Prop where
  located : ∃ block, Emits before after block [] ∧ (∀ instruction ∈ block, instruction.IsPlain) ∧
    ∀ {primitives machine contents memory}, before.Tracks machine contents memory →
      Machine.Leads (machine.execute primitives block) (some ()) fun _ last =>
        ∃ others, (∀ temporary, before.pool.IsLive temporary →
          others temporary = contents temporary) ∧
          after.Tracks last others memory ∧ place.location others = locate memory contents
  isLive : ∀ object ∈ place.temporaries, after.pool.IsLive object
  isLive_iff : ∀ temporary, (after.pool.IsLive temporary ∧ temporary ∉ place.temporaries) ↔
    (before.pool.IsLive temporary ∧ temporary ∉ used)
  own : ∀ object ∈ place.temporaries, object ∈ used ∨ before.pool.nextTemporary ≤ object.index
  pinnedWithin : after.pool.PinnedWithin place.temporaries
  below : place.BelowSpills before.pool.spillBase

/-- What depends on a place through its location can be put behind working the place out. -/
theorem Locates.yields {used : List Temporary} {locate : Memory → (Temporary → Word) → Location}
    (locates : Locates before between place used locate) (wellFormed : before.pool.WellFormed)
    {result : Temporary} {act : Primitives → Memory → Location → Option (Word × Memory)}
    (yields : Yields between after place.temporaries result fun primitives memory contents =>
      act primitives memory (place.location contents)) :
    Yields before after used result fun primitives memory contents =>
      act primitives memory (locate memory contents) := by
  rcases locates.located with ⟨block, emits, isPlain, located⟩
  rcases yields with ⟨more, moreEmits, exchanges, computes⟩
  have isFresh : before.pool.nextTemporary ≤ result.index :=
    Nat.le_trans emits.next_le (exchanges.fresh result (by simp))
  have isLive_iff : ∀ temporary, after.pool.IsLive temporary ↔
      (before.pool.IsLive temporary ∧ temporary ∉ used) ∨ temporary ∈ [result] := by
    intro temporary
    rw [exchanges.isLive_iff, locates.isLive_iff]
  refine ⟨block ++ more, ?_, ⟨isLive_iff, by simpa using isFresh⟩, ?_, ?_, computes.isResident⟩
  · refine (emits.trans moreEmits).narrow ?_
    intro temporary isMoved
    rw [List.nil_append] at isMoved
    rcases locates.own temporary isMoved with isUsed | isFresh
    · exact .inl isUsed
    · exact .inr fun isLive => Nat.not_lt.mpr isFresh (wellFormed.lt_of_isLive isLive)
  · intro instruction isEmitted
    rcases List.mem_append.mp isEmitted with isEarly | isLate
    · exact isPlain instruction isEarly
    · exact computes.isPlain instruction isLate
  · intro primitives machine memory contents holds isShown
    rcases @located primitives machine contents memory ⟨holds, isShown⟩ with
      ⟨last, ran, others, same, tracks, locationEq⟩
    refine .behind ran ?_
    have executed := @computes.executes primitives last memory others tracks.holds tracks.isShown
    rw [locationEq] at executed
    refine executed.mono ?_
    rintro ⟨word, later⟩ final _ ⟨finalHolds, finalShown⟩
    refine ⟨finalHolds.congr ?_, emits.base_eq ▸ finalShown⟩
    intro temporary isLive
    rcases (isLive_iff temporary).mp isLive with ⟨wasLive, _⟩ | isResult
    · simp only [Function.update_apply, same temporary wasLive]
    · simp [List.mem_singleton.mp isResult]

/-! ## The kinds of places -/

/-- A place that is known at the start. -/
theorem Locates.here (ready : before.Ready)
    (isLive : ∀ object ∈ place.temporaries, before.pool.IsLive object)
    (below : place.BelowSpills before.pool.spillBase) :
    Locates before before place place.temporaries fun _ contents => place.location contents where
  located := ⟨[], .refl ready.wellFormed, by simp, fun tracks =>
    ⟨_, rfl, _, fun _ _ => rfl, tracks, rfl⟩⟩
  isLive := isLive
  isLive_iff _ := .rfl
  own _ isObject := .inl isObject
  pinnedWithin := ready.unpinned.mono (List.nil_subset _)
  below := below

theorem Locates.of_frame (ready : before.Ready) {slot : Nat}
    (below : slot < before.pool.spillBase) :
    Locates before before (.frame slot) [] fun _ _ => .slot slot :=
  .here ready nofun below

theorem Locates.of_area (ready : before.Ready) (offset : Nat) :
    Locates before before (.area offset) [] fun _ _ => .area offset :=
  .here ready nofun trivial

theorem Locates.of_object (ready : before.Ready) (isLive : before.pool.IsLive object)
    (offset : Nat) :
    Locates before before (.heap object offset) [object] fun _ contents =>
      .field (contents object) offset :=
  .here ready (by simpa [Place.temporaries] using isLive) trivial

/-- The object of the place is the current one, which is loaded for that. -/
theorem Locates.of_receiver (ready : before.Ready) (inFrame : 0 < before.pool.spillBase)
    {acquiredState : Generation} {register : Nat} {moves : List Instruction}
    (acquired : Acquired before acquiredState object register moves) (offset : Nat) :
    Locates before (acquiredState.emitted [.loadStack (.general register) 0])
      (.heap object offset) [] fun memory _ => .field (memory.frame 0) offset := by
  have exchanges := acquired.produces.exchanges
  have isFresh := exchanges.fresh object (by simp)
  have notLive : ∀ {other}, before.pool.IsLive other → other ≠ object := by
    rintro other isLive rfl
    exact Nat.not_lt.mpr isFresh (ready.wellFormed.lt_of_isLive isLive)
  have named : Instruction.NamesBelow acquiredState.pool.registers.length
      (.loadStack (.general register) 0) := by
    have inRange : register < before.pool.registers.length := acquired.produces.registerLt
    simpa [Instruction.NamesBelow, Instruction.registers, acquired.emits.length_eq] using inRange
  refine
    { located := ⟨moves ++ [.loadStack (.general register) 0], ?_, ?_, ?_⟩
      isLive := ?_, isLive_iff := ?_, own := ?_, pinnedWithin := ?_, below := trivial }
  · exact acquired.emits.trans (.emitted acquired.produces.wellFormed (by simpa using named))
  · intro instruction isEmitted
    rcases List.mem_append.mp isEmitted with isMove | isOwn
    · exact Instruction.isPlain_of_spillMove (acquired.produces.spillMoves instruction isMove)
    · rw [List.mem_singleton.mp isOwn]
      trivial
  · intro primitives machine contents memory tracks
    rcases @Tracks.acquired _ _ _ _ _ primitives _ _ _ tracks acquired with
      ⟨ran, word, tracksAcquired⟩
    have base : (machine.moved moves).store.slots 0 = memory.frame 0 :=
      tracksAcquired.isShown.frame 0 (acquired.emits.base_eq.symm ▸ inFrame)
    have tracksLoaded :=
      tracksAcquired.put acquired.produces.wellFormed acquired.produces.holdsPinned (memory.frame 0)
    refine .behind ran ⟨_, ?_, _, ?_, tracksLoaded.emitted _, ?_⟩
    · simp [Machine.effect, base]
    · intro temporary isLive
      simp [notLive isLive]
    · simp [Place.location]
  · intro other isObject
    exact (exchanges.isLive_iff other).mpr (.inr (by simpa [Place.temporaries] using isObject))
  · intro other
    have isLiveIff : (acquiredState.emitted [.loadStack (.general register) 0]).pool.IsLive other ↔
        (before.pool.IsLive other ∧ other ∉ []) ∨ other ∈ [object] := exchanges.isLive_iff other
    rw [isLiveIff]
    simp only [Place.temporaries, List.not_mem_nil, not_false_eq_true, and_true, List.mem_singleton]
    exact ⟨fun both => both.1.resolve_right both.2, fun isLive => ⟨.inl isLive, notLive isLive⟩⟩
  · intro other isObject
    exact .inr (exchanges.fresh other (by simpa [Place.temporaries] using isObject))
  · exact acquired.produces.pinnedWithin ready.unpinned

end Generation

namespace Generating

open Generation

variable {context : MethodContext} {before : Generation} {position : Position} {place : Place}
variable {primitives : Primitives} {old new : Temporary} {opcode : BinaryOpcode} {isDouble : Bool}
  {block : List Instruction}

/-- The location of a static field, or of a field of the current object. -/
def ownLocation (field : FieldEntry) (offset : Nat) (memory : Memory) : Location :=
  if field.isStatic then .area offset else .field (memory.frame 0) offset

theorem succeeds_ownFieldPlace (ready : before.Ready) {field : FieldEntry} {offset : Nat}
    (offsetEq : context.layout.offset? field = some offset)
    (receiver : ReceiverFor context before field) :
    Succeeds (ownFieldPlace context position field) before fun place after =>
      Locates before after place [] fun memory _ => ownLocation field offset memory := by
  refine (succeeds_orFail offsetEq position _).goOnWith ?_
  cases isStatic : field.isStatic with
  | true =>
    simp only [if_true]
    refine .pure ?_
    simpa [ownLocation, isStatic] using Locates.of_area ready offset
  | false =>
    rcases receiver isStatic with ⟨hasReceiver, inFrame⟩
    simp only [Bool.false_eq_true, if_false]
    refine (succeeds_receiverSlot hasReceiver).goOnWith ?_
    have enough := ready.enough
    have fits : ([] : List Temporary).length < before.pool.registers.length := by
      rw [List.length_nil]
      omega
    refine (succeeds_produce_acquired ready.wellFormed ready.unpinned fits _).bind ?_
    rintro object _ ⟨acquiredState, register, moves, acquired, rfl⟩
    refine .pure ?_
    simpa [ownLocation, isStatic] using Locates.of_receiver ready inFrame acquired offset

/-! ## Stepping -/

/-- The instructions between reading and writing: a one is put into the register of the new word,
and the operation is applied to the old word and the one. -/
def operation (opcode : BinaryOpcode) (isDouble : Bool) (oldRegister newRegister : Register) :
    List Instruction :=
  [loadOne isDouble newRegister, .binary opcode newRegister oldRegister newRegister]

theorem isPlain_operation (opcode : BinaryOpcode) (isDouble : Bool)
    (oldRegister newRegister : Register) :
    ∀ instruction ∈ operation opcode isDouble oldRegister newRegister, instruction.IsPlain := by
  intro instruction isEmitted
  rcases List.mem_pair.mp isEmitted with rfl | rfl
  · cases isDouble <;> trivial
  · trivial

theorem effect_loadOne (machine : Machine) (isDouble : Bool) (target : Register) :
    machine.effect primitives (loadOne isDouble target) =
      some (machine.put target (.one isDouble)) := by
  cases isDouble <;> rfl

theorem namesBelow_operation {bound old new : Nat} (oldInRange : old < bound)
    (newInRange : new < bound) (opcode : BinaryOpcode) (isDouble : Bool) :
    ∀ instruction ∈ operation opcode isDouble (.general old) (.general new),
      instruction.NamesBelow bound := by
  intro instruction isEmitted
  rcases List.mem_pair.mp isEmitted with rfl | rfl
  · cases isDouble <;> simpa [loadOne, Instruction.NamesBelow,
      Instruction.registers] using newInRange
  · simp [Instruction.NamesBelow, Instruction.registers, oldInRange, newInRange]

theorem tracks_operated {generation : Generation} {machine : Machine} {contents : Temporary → Word}
    {memory : Memory} {oldRegister newRegister : Register}
    (tracks : generation.Tracks machine contents memory) (wellFormed : generation.pool.WellFormed)
    (oldHeld : generation.pool.HoldsPinned oldRegister old)
    (newHeld : generation.pool.HoldsPinned newRegister new) (differs : old ≠ new)
    (opcode : BinaryOpcode) (isDouble : Bool) :
    Machine.Leads (machine.execute primitives (operation opcode isDouble oldRegister newRegister))
      (primitives.binary opcode (contents old) (.one isDouble)) fun word last =>
        generation.Tracks last (Function.update contents new word) memory := by
  have tracksOne := tracks.put wellFormed newHeld (.one isDouble)
  have oldWord := tracksOne.holds.register oldHeld
  have oneWord := tracksOne.holds.register newHeld
  rw [Function.update_of_ne differs] at oldWord
  rw [Function.update_self] at oneWord
  have operated : (machine.put newRegister (.one isDouble)).effect primitives
      (.binary opcode newRegister oldRegister newRegister) =
        (primitives.binary opcode (contents old) (.one isDouble)).map
          ((machine.put newRegister (.one isDouble)).put newRegister) := by
    simp only [Machine.effect, oldWord, oneWord]
  rw [operation, Machine.execute_cons, effect_loadOne, Option.bind_some,
    Machine.execute_cons, operated]
  cases primitives.binary opcode (contents old) (.one isDouble) with
  | none => rfl
  | some word =>
    refine ⟨_, rfl, ?_⟩
    simpa using tracksOne.put wellFormed newHeld word

/-- The old and the new word of a place that was stepped are in registers. -/
structure Stepped (before after : Generation) (place : Place) (opcode : BinaryOpcode)
    (isDouble : Bool) (old new : Temporary) (block : List Instruction) : Prop where
  emits : Emits before after block place.temporaries
  exchanges : before.pool.Exchanges after.pool place.temporaries [old, new]
  differs : old ≠ new
  isPlain : ∀ instruction ∈ block, instruction.IsPlain
  executes : ∀ {primitives machine contents memory}, before.Tracks machine contents memory →
    Machine.Leads (machine.execute primitives block)
      (memory.stepBoth primitives opcode isDouble (place.location contents)) fun outcome last =>
        ∃ others, (∀ temporary, before.pool.IsLive temporary →
          others temporary = contents temporary) ∧
          others old = outcome.1 ∧ others new = outcome.2.1 ∧ after.Tracks last others outcome.2.2
  held : ∀ temporary ∈ [old, new], ∃ register, after.pool.HoldsPinned register temporary

/-- Of the old and the new word one is kept. -/
theorem Stepped.yields {after : Generation}
    (stepped : Stepped before after place opcode isDouble old new block)
    (wellFormed : before.pool.WellFormed) (yieldsNew : Bool) :
    Yields before (after.released (if yieldsNew then old else new)) place.temporaries
      (if yieldsNew then new else old) fun primitives memory contents =>
        memory.step primitives opcode isDouble yieldsNew (place.location contents) := by
  have afterWellFormed := stepped.emits.wellFormed
  have isNew : ∀ temporary ∈ [old, new], ¬before.pool.IsLive temporary := by
    intro temporary isMade isLive
    exact Nat.not_lt.mpr (stepped.exchanges.fresh temporary isMade) (wellFormed.lt_of_isLive isLive)
  have differs := stepped.differs
  refine ⟨block, ?_, ?_, stepped.isPlain, ?_, ?_⟩
  · have emits :=
      stepped.emits.trans (Emits.released afterWellFormed (if yieldsNew then old else new))
    rw [List.append_nil] at emits
    refine emits.narrow fun temporary isMoved => ?_
    rcases List.mem_append.mp isMoved with isUsed | isGone
    · exact .inl isUsed
    · refine .inr (isNew temporary ?_)
      rw [List.mem_singleton.mp isGone]
      cases yieldsNew <;> simp
  · refine stepped.exchanges.giveUp (exchanges_released afterWellFormed _) ?_ wellFormed ?_
    · cases yieldsNew <;> simp
    · intro other
      cases yieldsNew <;> simp only [Bool.false_eq_true, if_false, if_true, List.mem_cons,
        List.not_mem_nil, or_false]
      · exact ⟨fun isOld => ⟨.inl isOld, fun isNew => differs (isOld.symm.trans isNew)⟩,
          fun both => both.1.resolve_right both.2⟩
      · exact ⟨fun isNew => ⟨.inr isNew, fun isOld => differs (isOld.symm.trans isNew)⟩,
          fun both => both.1.resolve_left both.2⟩
  · intro primitives machine memory contents holds isShown
    rw [Memory.step_eq]
    refine Machine.Leads.map (stepped.executes ⟨holds, isShown⟩) ?_
    rintro ⟨oldWord, newWord, later⟩ last ⟨others, same, oldEq, newEq, tracks⟩
    have tracksKept := tracks.released afterWellFormed (if yieldsNew then old else new)
    refine ⟨tracksKept.holds.congr ?_, ?_⟩
    · intro temporary isLive
      rcases (releases_released afterWellFormed _).isLive_iff temporary |>.mp isLive with
        ⟨isKept, wasLive⟩
      rcases (stepped.exchanges.isLive_iff temporary).mp wasLive with ⟨wasThere, _⟩ | isMade
      · rw [same temporary wasThere, Function.update_of_ne]
        rintro rfl
        exact isNew _ (by cases yieldsNew <;> simp) wasThere
      · rcases List.mem_pair.mp isMade with rfl | rfl <;> cases yieldsNew <;> simp_all
    · have baseEq := (stepped.emits.trans (Emits.released afterWellFormed
        (if yieldsNew then old else new))).base_eq
      exact baseEq ▸ tracksKept.isShown
  · rcases stepped.held (if yieldsNew then new else old) (by cases yieldsNew <;> simp) with
      ⟨register, held⟩
    refine (holdsPinned_released afterWellFormed held ?_).isResident
    cases yieldsNew <;> simp [differs, Ne.symm differs]

/-- The word of a place was read into the register of a temporary that was made for it. -/
structure ReadAside (before after : Generation) (place : Place) (old : Temporary) (register : Nat)
    (block : List Instruction) : Prop where
  emits : Emits before after block place.temporaries
  exchanges : before.pool.Exchanges after.pool [] [old]
  isPlain : ∀ instruction ∈ block, instruction.IsPlain
  isHeld : after.pool.HoldsPinned (.general register) old
  inRange : register < after.pool.registers.length
  pinnedWithin : after.pool.PinnedWithin (old :: place.temporaries)
  executes : ∀ {primitives machine contents memory}, before.Tracks machine contents memory →
    Machine.Leads (machine.execute primitives block) (memory.read? (place.location contents))
    fun word last =>
      ∃ others, (∀ temporary, before.pool.IsLive temporary →
        others temporary = contents temporary) ∧
        others old = word ∧ after.Tracks last others memory

theorem ReadAside.of_acquired {register : Nat} {moves : List Instruction}
    (wellFormed : before.pool.WellFormed)
    (isLive : ∀ object ∈ place.temporaries, before.pool.IsLive object)
    (pinnedWithin : before.pool.PinnedWithin place.temporaries)
    (acquired : Acquired before between old register moves)
    (reads : Accesses between after block place [])
    (executes : ∀ {primitives machine contents memory}, between.Tracks machine contents memory →
      Machine.Leads (machine.execute primitives block) (memory.read? (place.location contents))
      fun word last => after.Tracks last (Function.update contents old word) memory) :
    ReadAside before after place old register (moves ++ block) where
  emits := by simpa using acquired.emits.trans reads.emits
  exchanges := by
    have made : before.pool.Exchanges between.pool [] [old] := acquired.produces.exchanges
    simpa using made.keep reads.exchanges acquired.emits.next_le (by simp)
  isPlain := by
    intro instruction isEmitted
    rcases List.mem_append.mp isEmitted with isMove | isRead
    · exact Instruction.isPlain_of_spillMove (acquired.produces.spillMoves instruction isMove)
    · exact reads.isPlain instruction isRead
  isHeld := reads.keepsPinned acquired.produces.holdsPinned List.not_mem_nil
  inRange := by
    rw [reads.emits.length_eq, acquired.emits.length_eq]
    exact acquired.inRange
  pinnedWithin := (reads.pinnedWithin (acquired.produces.pinnedWithin pinnedWithin)).mono (by simp)
  executes := by
    intro primitives machine contents memory tracks
    have isNew : ∀ temporary, before.pool.IsLive temporary → temporary ≠ old := by
      rintro temporary wasLive rfl
      have isFresh := acquired.produces.exchanges.fresh temporary (by simp)
      exact Nat.not_lt.mpr isFresh (wellFormed.lt_of_isLive wasLive)
    rcases tracks.acquired acquired with ⟨ran, any, tracksAcquired⟩
    have read := @executes primitives _ _ _ tracksAcquired
    rw [@Place.location_congr contents _ place fun object isObject =>
      Function.update_of_ne (isNew object (isLive object isObject)) _ _] at read
    refine .behind ran (read.mono fun word last _ tracksRead =>
      ⟨_, ?_, Function.update_self _ _ _, tracksRead⟩)
    intro temporary wasLive
    simp [Function.update_of_ne, isNew temporary wasLive]

theorem ReadAside.stepped {readState newState written : Generation} {oldRegister newRegister : Nat}
    {readBlock newMoves writeBlock : List Instruction} (wellFormed : before.pool.WellFormed)
    (isLive : ∀ object ∈ place.temporaries, before.pool.IsLive object)
    (reads : ReadAside before readState place old oldRegister readBlock)
    (acquired : Acquired readState newState new newRegister newMoves)
    (writes : Accesses
      (newState.emitted (operation opcode isDouble (.general oldRegister) (.general newRegister)))
      written writeBlock place place.temporaries)
    (executes : ∀ {primitives machine contents memory},
      (newState.emitted (operation opcode isDouble (.general oldRegister)
        (.general newRegister))).Tracks machine contents memory →
        Machine.Leads (machine.execute primitives writeBlock)
        (memory.write? (contents new) (place.location contents)) fun later last =>
          written.Tracks last contents later) :
    Stepped before written place opcode isDouble old new (readBlock ++
      (newMoves ++ (operation opcode isDouble (.general oldRegister) (.general newRegister) ++
        writeBlock))) := by
  have made : readState.pool.Exchanges newState.pool [] [new] := acquired.produces.exchanges
  have oldFresh := reads.exchanges.fresh old (by simp)
  have newFresh := made.fresh new (by simp)
  have nextLe := reads.emits.next_le
  have oldLt : old.index < readState.pool.nextTemporary :=
    reads.emits.wellFormed.lt_of_isLive ((reads.exchanges.isLive_iff old).mpr (.inr (by simp)))
  have differs : old ≠ new := by
    rintro rfl
    omega
  have oldHeld := acquired.produces.keepsPinned reads.isHeld
  have newHeld := acquired.produces.holdsPinned
  have isNew : ∀ temporary, before.pool.IsLive temporary → temporary ≠ old ∧ temporary ≠ new := by
    intro temporary wasLive
    have isEarlier := wellFormed.lt_of_isLive wasLive
    constructor <;> (rintro rfl; omega)
  have notObject : ∀ temporary ∈ [old, new], temporary ∉ place.temporaries := by
    intro temporary isMade isObject
    rcases isNew temporary (isLive temporary isObject) with ⟨notOld, notNew⟩
    rcases List.mem_pair.mp isMade with rfl | rfl
    · exact notOld rfl
    · exact notNew rfl
  refine ⟨?_, ?_, differs, ?_, ?_, ?_⟩
  · have operated : Emits newState _ _ [] := .emitted acquired.emits.wellFormed
      (namesBelow_operation (acquired.emits.length_eq ▸ reads.inRange)
        (acquired.emits.length_eq ▸ acquired.inRange) opcode isDouble)
    have emits := reads.emits.trans (acquired.emits.trans (operated.trans writes.emits))
    exact emits.narrow fun temporary isMoved => .inl (by simpa using isMoved)
  · have kept := reads.exchanges.keep made reads.emits.next_le (by simp)
    have next_le := Nat.le_trans reads.emits.next_le acquired.emits.next_le
    simpa using kept.keep writes.exchanges next_le (by simpa using notObject)
  · intro instruction isEmitted
    simp only [List.mem_append] at isEmitted
    rcases isEmitted with isRead | isMove | isOperation | isWrite
    · exact reads.isPlain instruction isRead
    · exact Instruction.isPlain_of_spillMove (acquired.produces.spillMoves instruction isMove)
    · exact isPlain_operation _ _ _ _ instruction isOperation
    · exact writes.isPlain instruction isWrite
  · intro primitives machine contents memory tracks
    refine (reads.executes tracks).bind ?_
    rintro oldWord oldLast ⟨others, same, rfl, tracksRead⟩
    rcases tracksRead.acquired acquired with ⟨ran, any, tracksNew⟩
    refine .behind ran ?_
    have operated := @tracks_operated primitives _ _ _ _ _ _ _ _ tracksNew acquired.emits.wellFormed
      oldHeld newHeld differs opcode isDouble
    rw [Function.update_of_ne differs] at operated
    refine operated.bind fun newWord newLast tracksOperated => ?_
    rw [Function.update_idem] at tracksOperated
    have written := @executes primitives _ _ _ (tracksOperated.emitted _)
    have unchanged : ∀ temporary, before.pool.IsLive temporary →
        Function.update others new newWord temporary = contents temporary := by
      intro temporary wasLive
      rw [Function.update_of_ne (isNew temporary wasLive).2, same temporary wasLive]
    rw [Function.update_self, Place.location_congr fun object isObject =>
      unchanged object (isLive object isObject)] at written
    exact written.map fun later last tracksWritten =>
      ⟨_, unchanged, Function.update_of_ne differs _ _, Function.update_self _ _ _, tracksWritten⟩
  · intro temporary isMade
    rcases List.mem_pair.mp isMade with rfl | rfl
    · exact ⟨_, writes.keepsPinned oldHeld (notObject _ isMade)⟩
    · exact ⟨_, writes.keepsPinned newHeld (notObject _ isMade)⟩

theorem succeeds_stepPlace (wellFormed : before.pool.WellFormed)
    (enough : 3 ≤ before.pool.registers.length)
    (isLive : ∀ object ∈ place.temporaries, before.pool.IsLive object)
    (pinnedWithin : before.pool.PinnedWithin place.temporaries)
    (below : place.BelowSpills before.pool.spillBase) (opcode : BinaryOpcode)
    (isDouble yieldsNew : Bool) :
    Succeeds (stepPlace position opcode isDouble yieldsNew place) before fun result after =>
      Yields before after place.temporaries result fun primitives memory contents =>
        memory.step primitives opcode isDouble yieldsNew (place.location contents) := by
  have few := place.length_temporaries_le
  -- the old value
  refine (succeeds_acquire wellFormed pinnedWithin (by omega)).bind ?_
  rintro ⟨old, _⟩ oldState ⟨oldIndex, oldMoves, rfl, oldAcquired⟩
  dsimp only at oldAcquired ⊢
  have oldEmits := oldAcquired.emits
  have oldExchanges : before.pool.Exchanges oldState.pool [] [old] := oldAcquired.produces.exchanges
  have oldPinned := oldAcquired.produces.pinnedWithin pinnedWithin
  have loadable : ∀ object ∈ place.temporaries, Loadable oldState position object := by
    intro object isObject
    refine @loadable_of_few _ _ [old] _ oldEmits.wellFormed ?_ (oldPinned.mono ?_) ?_
    · exact (oldExchanges.isLive_iff object).mpr (.inl ⟨isLive object isObject, by simp⟩)
    · cases place <;> simp_all [Place.temporaries]
    · rw [oldEmits.length_eq, List.length_singleton]
      omega
  refine (succeeds_readPlace oldEmits.wellFormed (oldEmits.base_eq ▸ below) loadable
    oldAcquired.produces.holdsPinned).bind ?_
  rintro _ readState ⟨readBlock, accesses, objectsHeld, readExecutes⟩
  have reads := ReadAside.of_acquired wellFormed isLive pinnedWithin oldAcquired
    accesses readExecutes
  -- the new value
  refine (succeeds_acquire reads.emits.wellFormed reads.pinnedWithin
    (by rw [List.length_cons, reads.emits.length_eq]; omega)).bind ?_
  rintro ⟨new, _⟩ newState ⟨newIndex, newMoves, rfl, newAcquired⟩
  dsimp only at newAcquired ⊢
  -- the operation
  refine (succeeds_emit _).goOn ?_
  refine (succeeds_emit _).goOn ?_
  rw [emitted_emitted, List.singleton_append]
  -- the new value is written back
  have operationWellFormed : (newState.emitted (operation opcode isDouble (.general oldIndex)
      (.general newIndex))).pool.WellFormed := newAcquired.emits.wellFormed
  refine (@succeeds_writePlace _ position place operationWellFormed
    ((reads.emits.trans newAcquired.emits).base_eq ▸ below) ?_ newIndex new
    newAcquired.produces.holdsPinned).bind ?_
  · intro object isObject
    rcases objectsHeld object isObject with ⟨register, isHeld⟩
    exact loadable_of_holdsPinned operationWellFormed (newAcquired.produces.keepsPinned isHeld)
  rintro _ written ⟨writeBlock, writes, writeExecutes⟩
  have stepped := reads.stepped wellFormed isLive newAcquired writes writeExecutes
  cases yieldsNew with
  | true =>
    simp only [if_true]
    refine (succeeds_release old).goOn ?_
    exact .pure (stepped.yields wellFormed true)
  | false =>
    simp only [Bool.false_eq_true, if_false]
    refine (succeeds_release new).goOn ?_
    exact .pure (stepped.yields wellFormed false)

/-! ## Assigning -/

/-- Code without jumps uses temporaries up and changes the memory. -/
structure Stores (before after : Generation) (used : List Temporary) (block : List Instruction)
    (effect : Memory → (Temporary → Word) → Option Memory) : Prop where
  emits : Emits before after block used
  exchanges : before.pool.Exchanges after.pool used []
  isPlain : ∀ instruction ∈ block, instruction.IsPlain
  executes : ∀ {primitives machine contents memory}, before.Tracks machine contents memory →
    Machine.Leads (machine.execute primitives block) (effect memory contents) fun later last =>
      after.Tracks last contents later

/-- The word of a temporary is written to a place that was worked out. -/
theorem succeeds_assignPlace {between : Generation} {used : List Temporary}
    {locate : Memory → (Temporary → Word) → Location}
    (locates : Locates before between place used locate) (wellFormed : before.pool.WellFormed)
    (enough : 3 ≤ before.pool.registers.length) {value : Temporary}
    (isLive : before.pool.IsLive value) (notUsed : value ∉ used) :
    Succeeds (do
        let source ← load position value
        writePlace position source place
        release value) between fun _ after => ∃ block, Stores before after (used ++ [value]) block
      fun memory contents => memory.write? (contents value) (locate memory contents) := by
  rcases locates.located with ⟨block, emits, isPlain, located⟩
  have few := place.length_temporaries_le
  rcases (locates.isLive_iff value).mpr ⟨isLive, notUsed⟩ with ⟨stillLive, notObject⟩
  have lengthEq := emits.length_eq
  refine (succeeds_load emits.wellFormed stillLive
    (locates.pinnedWithin.mono (List.subset_cons_self _ _)) (by rw [lengthEq]; omega)).bind ?_
  rintro _ loadedState ⟨source, moves, rfl, inRange, valueHeld, loaded⟩
  have loadedEmits := emits.trans loaded.emits
  have loadable : ∀ object ∈ place.temporaries, Loadable loadedState position object := by
    intro object isObject
    refine @loadable_of_few _ _ [value] _ loadedEmits.wellFormed ?_ ?_ ?_
    · exact (loaded.exchanges.isLive_iff object).mpr
        (.inl ⟨locates.isLive object isObject, by simp⟩)
    · refine (loaded.brings.pinnedWithin locates.pinnedWithin).mono ?_
      cases place <;> simp_all [Place.temporaries]
    · rw [loadedEmits.length_eq, List.length_singleton]
      omega
  refine (succeeds_writePlace loadedEmits.wellFormed (loadedEmits.base_eq ▸ locates.below) loadable
    valueHeld).bind ?_
  rintro _ written ⟨writeBlock, writes, writeExecutes⟩
  refine (succeeds_release value).goesTo ?_
  have allEmits :=
    (loadedEmits.trans writes.emits).trans (Emits.released writes.emits.wellFormed value)
  refine ⟨block ++ moves ++ writeBlock ++ [], ?_, ?_, ?_, ?_⟩
  · refine allEmits.narrow fun temporary isMoved => ?_
    simp only [List.nil_append, List.mem_append, List.mem_singleton] at isMoved ⊢
    rcases isMoved with (isValue | isObject) | isValue
    · exact .inl (.inr isValue)
    · rcases locates.own temporary isObject with isUsed | isFresh
      · exact .inl (.inl isUsed)
      · exact .inr fun isLive => Nat.not_lt.mpr isFresh (wellFormed.lt_of_isLive isLive)
    · exact .inl (.inr isValue)
  · refine ⟨fun temporary => ?_, by simp⟩
    have releases := releases_released writes.emits.wellFormed value
    rw [releases.isLive_iff, writes.exchanges.isLive_iff, loaded.exchanges.isLive_iff]
    have isLiveIff := locates.isLive_iff temporary
    simp only [List.not_mem_nil, not_false_eq_true, and_true, or_false, List.mem_append,
      List.mem_singleton, not_or, isLiveIff]
    exact ⟨fun both => ⟨both.2.1, both.2.2, both.1⟩, fun all => ⟨all.2.2, all.1, all.2.1⟩⟩
  · intro instruction isEmitted
    simp only [List.append_nil, List.mem_append] at isEmitted
    rcases isEmitted with (isLocated | isMove) | isWritten
    · exact isPlain instruction isLocated
    · exact Instruction.isPlain_of_spillMove (loaded.brings.spillMoves instruction isMove)
    · exact writes.isPlain instruction isWritten
  · intro primitives machine contents memory tracks
    rcases @located primitives _ _ _ tracks with
      ⟨last, ran, others, same, tracksLocated, locationEq⟩
    simp only [List.append_nil, List.append_assoc]
    refine .behind ran ?_
    rcases @Tracks.loaded _ _ _ _ _ primitives _ _ tracksLocated loaded with ⟨ranLoad, tracksLoaded⟩
    refine .behind ranLoad ?_
    have executed := @writeExecutes primitives _ _ _ tracksLoaded
    rw [locationEq, same value isLive] at executed
    refine executed.mono fun later final _ tracksWritten => ?_
    have tracksReleased := tracksWritten.released writes.emits.wellFormed value
    refine ⟨tracksReleased.holds.congr ?_, tracksReleased.isShown⟩
    intro temporary isLiveLast
    have wasLive :=
      ((releases_released writes.emits.wellFormed value).isLive_iff temporary).mp isLiveLast
    rw [writes.exchanges.isLive_iff, loaded.exchanges.isLive_iff] at wasLive
    simp only [List.not_mem_nil, not_false_eq_true, and_true, or_false] at wasLive
    exact (same temporary ((locates.isLive_iff temporary).mp wasLive.2).1).symm

end Generating

end Decaf
