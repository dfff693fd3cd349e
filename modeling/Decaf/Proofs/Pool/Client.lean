import Decaf.Proofs.Pool.Loads

/-!
# Clients of the register pool

A client makes temporaries, writes a word into the register of each, and executes the moves that the
pool emits. Whatever it asks for, and whether the pool can do it or not, each temporary that was
made and not released yet is somewhere, its place holds its word, and no two of them are in the same
place.
-/

namespace Decaf

namespace RegisterPool

variable {Word : Type}

/-- Where a temporary is. -/
inductive Location where
  | register (index : Nat)
  | slot (index : Nat)
  deriving DecidableEq, Repr

/-- The word in a place. -/
def Location.read (store : Store Word) : Location → Word
  | .register index => store.registers (.general index)
  | .slot index => store.slots index

/-- Where the pool has a temporary, if it waits for its use. -/
def location? (pool : RegisterPool) (temporary : Temporary) : Option Location :=
  match pool.registerOf? temporary with
  | some register => some (.register register)
  | none => (pool.slotOf? temporary).map fun slot => .slot (pool.spillBase + slot)

/-- What a client can ask of the pool; with a temporary to be made goes the word to be written. -/
inductive Request (Word : Type) where
  | acquire (word : Word)
  | acquireSpecific (register : Nat) (word : Word)
  | load (temporaries : List Temporary)
  | release (temporary : Temporary)
  | spillAllExcept (kept : List Temporary)
  | unpinAll

/-- A client of the pool. -/
structure Client (Word : Type) where
  /-- The pool, and all moves that it has emitted. -/
  session : Session
  /-- The registers and the frame. -/
  store : Store Word
  /-- The word written for each temporary that was made and not released yet. -/
  written : Temporary → Option Word

namespace Client

variable {after : Session} {moves : List Instruction} {temporary : Temporary} {register : Nat}
  {pool : RegisterPool} {location : Location}

/-- A client of an unused pool. -/
def start (registerCount spillBase : Nat) (store : Store Word) : Client Word where
  session := ⟨RegisterPool.start registerCount spillBase, #[]⟩
  store := store
  written _ := none

/-- Runs an operation of the pool and executes the moves that it adds to the code. -/
def perform {Result : Type} (client : Client Word) (operation : Operation Result) :
    Except PoolFault Result × Client Word :=
  let (answer, session) := operation.run client.session
  (answer,
    { client with
      session
      store := client.store.run (session.code.toList.drop client.session.code.size) })

/-- Writes a word into the register of a new temporary, if there is one. -/
def write (word : Word) : Except PoolFault (Temporary × Register) × Client Word → Client Word
  | (.ok (temporary, register), client) =>
    { client with
      store := client.store.setRegister register word
      written := Function.update client.written temporary (some word) }
  | (.error _, client) => client

/-- The client after a request. -/
def step (client : Client Word) : Request Word → Client Word
  | .acquire word => write word (client.perform acquire)
  | .acquireSpecific register word => write word (client.perform (acquireSpecific register))
  | .load temporaries => (client.perform (load temporaries)).2
  | .release temporary =>
    { client with
      session := { client.session with pool := client.session.pool.release temporary }
      written := Function.update client.written temporary none }
  | .spillAllExcept kept => (client.perform (spillAllExcept kept)).2
  | .unpinAll =>
    { client with session := { client.session with pool := client.session.pool.unpinAll } }

/-- The client after several requests. -/
def run (client : Client Word) (requests : List (Request Word)) : Client Word :=
  requests.foldl step client

/-! ## What every request keeps -/

/-- The pool knows exactly the temporaries that the client has written words for, and their places
hold these words; nothing below the spill slots has changed since the client had its first store. -/
structure Sound (registerCount spillBase : Nat) (first : Store Word) (client : Client Word) :
    Prop where
  wellFormed : client.session.pool.WellFormed
  length_eq : client.session.pool.registers.length = registerCount
  base_eq : client.session.pool.spillBase = spillBase
  holds : ∃ contents, client.session.pool.Holds client.store contents ∧
    ∀ temporary, (client.session.pool.IsLive temporary →
      client.written temporary = some (contents temporary)) ∧
        (¬client.session.pool.IsLive temporary → client.written temporary = none)
  spillMoves : ∀ move ∈ client.session.code.toList, client.session.pool.SpillMove move
  slots_eq : ∀ slot < spillBase, client.store.slots slot = first.slots slot

variable {registerCount spillBase : Nat} {first : Store Word} {client : Client Word}

theorem sound_start (named : registerCount ≤ Register.nameCount) (first : Store Word) :
    Sound registerCount spillBase first (start registerCount spillBase first) where
  wellFormed := wellFormed_start named spillBase
  length_eq := by simp [start, RegisterPool.start]
  base_eq := rfl
  holds := by
    refine ⟨fun _ => first.registers .result, ⟨?_, ?_⟩, ?_⟩
    · intro register resident held
      simp [start, content?_start] at held
    · intro entry mem
      simp [start, RegisterPool.start] at mem
    · intro temporary
      exact ⟨fun live => absurd live (not_isLive_start _ _ temporary), fun _ => rfl⟩
  spillMoves := by simp [start]
  slots_eq _ _ := rfl

theorem drop_code_eq {before : Session}
    (code_eq : after.code.toList = before.code.toList ++ moves) :
    after.code.toList.drop before.code.size = moves := by
  rw [code_eq, ← Array.length_toList, List.drop_left]

section

variable (sound : Sound registerCount spillBase first client)
include sound

/-- The client after the pool has moved temporaries about. -/
theorem Sound.shuffle (shuffle : Shuffle client.session after moves) :
    Sound registerCount spillBase first
      { client with session := after, store := client.store.run moves } where
  wellFormed := shuffle.wellFormed
  length_eq := shuffle.length_eq.trans sound.length_eq
  base_eq := shuffle.base_eq.trans sound.base_eq
  holds := by
    rcases sound.holds with ⟨contents, holds, written⟩
    refine ⟨contents, shuffle.holds holds, ?_⟩
    intro temporary
    simp only [shuffle.isLive_iff]
    exact written temporary
  spillMoves := by
    intro move mem
    simp only [shuffle.code_eq, List.mem_append] at mem
    rcases mem with mem | mem
    · exact (sound.spillMoves move mem).mono shuffle.length_eq shuffle.base_eq shuffle.slotCount_le
    · exact shuffle.spillMoves move mem
  slots_eq := by
    intro slot below
    rw [slots_run_of_lt shuffle.spillMoves (by rw [shuffle.base_eq, sound.base_eq]; exact below)]
    exact sound.slots_eq slot below

/-- The client after the pool has made a temporary and the client has written a word for it. -/
theorem Sound.produce
    (produces : Produces client.session after temporary register moves) (word : Word) :
    Sound registerCount spillBase first
      { session := after
        store := (client.store.run moves).setRegister (.general register) word
        written := Function.update client.written temporary (some word) } where
  wellFormed := produces.wellFormed
  length_eq := produces.length_eq.trans sound.length_eq
  base_eq := produces.base_eq.trans sound.base_eq
  holds := by
    rcases sound.holds with ⟨contents, holds, written⟩
    refine ⟨Function.update contents temporary word, produces.holds word holds, ?_⟩
    intro other
    simp only [produces.isLive_iff]
    by_cases same : other = temporary
    · subst same
      simp
    · simp only [same, false_or, ne_eq, not_false_eq_true, Function.update_of_ne]
      exact written other
  spillMoves := by
    intro move mem
    simp only [produces.code_eq, List.mem_append] at mem
    rcases mem with mem | mem
    · exact (sound.spillMoves move mem).mono produces.length_eq produces.base_eq
        produces.slotCount_le
    · exact produces.spillMoves move mem
  slots_eq := by
    intro slot below
    rw [Store.slots_setRegister,
      slots_run_of_lt produces.spillMoves (by rw [produces.base_eq, sound.base_eq]; exact below)]
    exact sound.slots_eq slot below

theorem Sound.release (temporary : Temporary) :
    Sound registerCount spillBase first (client.step (.release temporary)) := by
  have releases := releases_release sound.wellFormed temporary
  refine
    { wellFormed := releases.wellFormed
      length_eq := releases.length_eq.trans sound.length_eq
      base_eq := releases.base_eq.trans sound.base_eq
      holds := ?_
      spillMoves := fun move mem => (sound.spillMoves move mem).mono releases.length_eq
        releases.base_eq (Nat.le_of_eq releases.slotCount_eq.symm)
      slots_eq := sound.slots_eq }
  rcases sound.holds with ⟨contents, holds, written⟩
  refine ⟨contents, releases.holds holds, ?_⟩
  intro other
  simp only [step, releases.isLive_iff]
  by_cases same : other = temporary
  · subst same
    simp
  · simp only [ne_eq, same, not_false_eq_true, true_and, Function.update_of_ne]
    exact written other

theorem Sound.step (request : Request Word)
    (inRange : ∀ register word, request = .acquireSpecific register word →
      register < registerCount) :
    Sound registerCount spillBase first (client.step request) := by
  cases request with
  | acquire word =>
    rcases run_acquire_spec sound.wellFormed with
      ⟨temporary, register, after, moves, ran, produces⟩ | ⟨failed, _⟩
    · simp only [Client.step, perform, ran, drop_code_eq produces.code_eq, write]
      exact sound.produce produces word
    · simp only [Client.step, perform, failed, drop_code_eq (List.append_nil _).symm, write]
      exact sound
  | acquireSpecific index word =>
    have bound : index < client.session.pool.registers.length := by
      rw [sound.length_eq]
      exact inRange index word rfl
    rcases run_acquireSpecific_spec sound.wellFormed bound with
      ⟨temporary, after, moves, ran, produces⟩ | ⟨failed, _⟩
    · simp only [Client.step, perform, ran, drop_code_eq produces.code_eq, write]
      exact sound.produce produces word
    · simp only [Client.step, perform, failed, drop_code_eq (List.append_nil _).symm, write]
      exact sound
  | load temporaries =>
    rcases run_load_spec temporaries sound.wellFormed with ⟨result, after, moves, ran, shuffle, _⟩
    simp only [Client.step, perform, ran, drop_code_eq shuffle.code_eq]
    exact sound.shuffle shuffle
  | release temporary => exact sound.release temporary
  | spillAllExcept kept =>
    rcases run_spillAllExcept_spec sound.wellFormed kept with ⟨after, moves, ran, clears⟩
    simp only [Client.step, perform, ran, drop_code_eq clears.code_eq]
    exact sound.shuffle clears.toShuffle
  | unpinAll => exact sound.shuffle (shuffle_unpinAll sound.wellFormed)

end

theorem sound_run {requests : List (Request Word)}
    (inRange : ∀ register word, .acquireSpecific register word ∈ requests →
      register < registerCount)
    (sound : Sound registerCount spillBase first client) :
    Sound registerCount spillBase first (client.run requests) := by
  induction requests generalizing client with
  | nil => exact sound
  | cons request requests ih =>
    apply ih
    · intro register word mem
      exact inRange register word (List.mem_cons_of_mem _ mem)
    · apply sound.step
      rintro register word rfl
      exact inRange register word List.mem_cons_self

/-! ## What a client can rely on -/

theorem location?_eq_some_iff (wellFormed : pool.WellFormed) :
    pool.location? temporary = some location ↔
      (∃ register resident, pool.content? register = some resident ∧
        resident.temporary = temporary ∧ location = .register register) ∨
      ∃ slot, ⟨temporary, slot⟩ ∈ pool.spilled ∧ location = .slot (pool.spillBase + slot) := by
  rw [location?]
  rcases inRegister : pool.registerOf? temporary with _ | register
  · have notResident := (registerOf?_eq_none_iff wellFormed).mp inRegister
    simp only [Option.map_eq_some_iff, slotOf?_eq_some_iff wellFormed]
    constructor
    · rintro ⟨slot, mem, rfl⟩
      exact .inr ⟨slot, mem, rfl⟩
    · rintro (⟨register, resident, held, same, _⟩ | ⟨slot, mem, rfl⟩)
      · exact absurd same (notResident register resident held)
      · exact ⟨slot, mem, rfl⟩
  · rcases (registerOf?_eq_some_iff wellFormed).mp inRegister with ⟨resident, held, same⟩
    simp only [Option.some.injEq]
    constructor
    · rintro rfl
      exact .inl ⟨register, resident, held, same, rfl⟩
    · rintro (⟨other, otherResident, otherHeld, otherSame, rfl⟩ | ⟨slot, mem, _⟩)
      · rw [wellFormed.resident_unique held otherHeld (same.trans otherSame.symm)]
      · exact absurd same (wellFormed.resident_not_spilled held mem)

theorem location?_eq_none_iff (wellFormed : pool.WellFormed) :
    pool.location? temporary = none ↔ ¬pool.IsLive temporary := by
  rw [Option.eq_none_iff_forall_ne_some]
  constructor
  · rintro nowhere (⟨register, resident, held, same⟩ | ⟨⟨_, slot⟩, mem, rfl⟩)
    · exact nowhere _ ((location?_eq_some_iff wellFormed).mpr
        (.inl ⟨register, resident, held, same, rfl⟩))
    · exact nowhere _ ((location?_eq_some_iff wellFormed).mpr (.inr ⟨slot, mem, rfl⟩))
  · intro dead location found
    rcases (location?_eq_some_iff wellFormed).mp found with
      ⟨register, resident, held, same, _⟩ | ⟨slot, mem, _⟩
    · exact dead (.inl ⟨register, resident, held, same⟩)
    · exact dead (.inr ⟨_, mem, rfl⟩)

theorem Sound.read_location? (sound : Sound registerCount spillBase first client)
    (temporary : Temporary) :
    (client.session.pool.location? temporary).map (Location.read client.store) =
      client.written temporary := by
  rcases sound.holds with ⟨contents, holds, written⟩
  rcases found : client.session.pool.location? temporary with _ | location
  · exact ((written temporary).2 ((location?_eq_none_iff sound.wellFormed).mp found)).symm
  · rcases (location?_eq_some_iff sound.wellFormed).mp found with
      ⟨register, resident, held, rfl, rfl⟩ | ⟨slot, mem, rfl⟩
    · rw [(written _).1 (.inl ⟨register, resident, held, rfl⟩)]
      exact congrArg some (holds.resident held)
    · rw [(written _).1 (.inr ⟨_, mem, rfl⟩)]
      exact congrArg some (holds.spilled mem)

theorem location?_injective (wellFormed : pool.WellFormed)
    {left right : Temporary} (leftAt : pool.location? left = some location)
    (rightAt : pool.location? right = some location) : left = right := by
  rcases (location?_eq_some_iff wellFormed).mp leftAt with
      ⟨register, resident, held, rfl, rfl⟩ | ⟨slot, mem, rfl⟩ <;>
    rcases (location?_eq_some_iff wellFormed).mp rightAt with
      ⟨other, otherResident, otherHeld, rfl, same⟩ | ⟨other, otherMem, same⟩
  · rw [Location.register.injEq] at same
    subst same
    rw [held, Option.some.injEq] at otherHeld
    rw [otherHeld]
  · simp at same
  · simp at same
  · rw [Location.slot.injEq, Nat.add_left_cancel_iff] at same
    subst same
    exact congrArg Spilled.temporary (spilled_eq_of_slot_eq wellFormed mem otherMem rfl)

section

variable (sound : Sound registerCount spillBase first client)
include sound

theorem Sound.read_load {temporaries : List Temporary} {registers : List Register}
    (loaded : (client.perform (load temporaries)).1 = .ok registers) :
    registers.map (fun register =>
        some ((client.perform (load temporaries)).2.store.registers register)) =
      temporaries.map client.written := by
  rcases run_load_spec temporaries sound.wellFormed with
    ⟨result, after, moves, ran, shuffle, places⟩
  have soundAfter := sound.shuffle shuffle
  simp only [perform, ran] at loaded
  simp only [perform, ran, drop_code_eq shuffle.code_eq]
  have inPlace := places registers loaded
  clear loaded ran places
  induction inPlace with
  | nil => rfl
  | cons place _ ih =>
    rcases place with ⟨index, resident, rfl, held, rfl, _⟩
    rw [List.map_cons, List.map_cons, ih]
    congr 1
    rw [← soundAfter.read_location? resident.temporary]
    simp only [(location?_eq_some_iff shuffle.wellFormed).mpr
      (.inl ⟨index, resident, held, rfl, rfl⟩)]
    rfl

theorem Sound.written_of_produces
    (produces : Produces client.session after temporary register moves) :
    client.written temporary = none := by
  rcases sound.holds with ⟨contents, _, written⟩
  apply (written temporary).2
  rw [produces.temporary_eq]
  exact not_isLive_next sound.wellFormed

theorem Sound.written_acquire {register : Register}
    (made : (client.perform acquire).1 = .ok (temporary, register)) :
    client.written temporary = none := by
  rcases run_acquire_spec sound.wellFormed with
    ⟨other, index, after, moves, ran, produces⟩ | ⟨failed, _⟩
  · simp only [perform, ran, Except.ok.injEq, Prod.mk.injEq] at made
    rw [← made.1]
    exact sound.written_of_produces produces
  · simp [perform, failed] at made

theorem Sound.written_acquireSpecific {index : Nat}
    (bound : index < registerCount) {register : Register}
    (made : (client.perform (acquireSpecific index)).1 = .ok (temporary, register)) :
    client.written temporary = none ∧ register = .general index := by
  rcases run_acquireSpecific_spec sound.wellFormed (by rw [sound.length_eq]; exact bound) with
    ⟨other, after, moves, ran, produces⟩ | ⟨failed, _⟩
  · simp only [perform, ran, Except.ok.injEq, Prod.mk.injEq] at made
    rw [← made.1]
    exact ⟨sound.written_of_produces produces, made.2.symm⟩
  · simp [perform, failed] at made

end

/-- Whatever a client asks of a pool whose registers have names of their own: each temporary that
was made and not released yet is in a place that holds its word, and the others are nowhere; two
temporaries are never in the same place; new temporaries are none of those in use; what `load`
answers are registers that hold the words of the temporaries in the order of the request; and no
frame slot below the spill slots is ever stored to. -/
theorem pool_refines_words (named : registerCount ≤ Register.nameCount) (first : Store Word)
    (requests : List (Request Word))
    (inRange : ∀ register word, .acquireSpecific register word ∈ requests →
      register < registerCount) :
    let client := (start registerCount spillBase first).run requests
    (∀ temporary, (client.session.pool.location? temporary).map (Location.read client.store) =
        client.written temporary) ∧
      (∀ left right location, client.session.pool.location? left = some location →
        client.session.pool.location? right = some location → left = right) ∧
      (∀ temporary register, (client.perform acquire).1 = .ok (temporary, register) →
        client.written temporary = none) ∧
      (∀ index < registerCount, ∀ temporary register,
        (client.perform (acquireSpecific index)).1 = .ok (temporary, register) →
          client.written temporary = none ∧ register = .general index) ∧
      (∀ temporaries registers, (client.perform (load temporaries)).1 = .ok registers →
        registers.map (fun register =>
            some ((client.perform (load temporaries)).2.store.registers register)) =
          temporaries.map client.written) ∧
      (∀ slot source, .storeStack slot source ∈ client.session.code → spillBase ≤ slot) ∧
      ∀ slot < spillBase, client.store.slots slot = first.slots slot := by
  intro client
  have sound : Sound registerCount spillBase first client :=
    sound_run inRange (sound_start named first)
  refine ⟨sound.read_location?, ?_, ?_, ?_, ?_, ?_, sound.slots_eq⟩
  · intro left right location
    exact location?_injective sound.wellFormed
  · intro temporary register
    exact sound.written_acquire
  · intro index bound temporary register
    exact sound.written_acquireSpecific bound
  · intro temporaries registers
    exact sound.read_load
  · intro slot source mem
    have move := sound.spillMoves _ (Array.mem_def.mp mem)
    rw [← sound.base_eq]
    cases move
    exact Nat.le_add_right _ _

/-- With two registers, the first temporary comes back from its slot and pushes the second one into
another: both words are where the pool says. -/
theorem pool_refines_words_of_two_registers :
    let client := (start 2 10 ⟨fun _ => 0, fun _ => 0⟩).run
      [.acquire 7, .unpinAll, .acquire 8, .unpinAll, .acquireSpecific 1 9, .unpinAll,
        .acquireSpecific 0 5, .release ⟨2⟩, .load [⟨0⟩]]
    client.session.pool.location? ⟨0⟩ = some (.register 1) ∧
      client.session.pool.location? ⟨1⟩ = some (.slot 10) ∧
      client.store.registers (.general 1) = 7 ∧ client.store.slots 10 = 8 := by
  intro client
  have keeps := @pool_refines_words Nat 2 10 (by decide) ⟨fun _ => 0, fun _ => 0⟩
    [.acquire 7, .unpinAll, .acquire 8, .unpinAll, .acquireSpecific 1 9, .unpinAll,
      .acquireSpecific 0 5, .release ⟨2⟩, .load [⟨0⟩]]
    (by
      intro register word mem
      simp only [List.mem_cons, reduceCtorEq, Request.acquireSpecific.injEq, false_or, or_false,
        List.not_mem_nil] at mem
      omega)
  have firstAt : client.session.pool.location? ⟨0⟩ = some (.register 1) := by decide
  have secondAt : client.session.pool.location? ⟨1⟩ = some (.slot 10) := by decide
  have firstWord : (client.session.pool.location? ⟨0⟩).map (Location.read client.store) = some 7 :=
    (keeps.1 ⟨0⟩).trans (by decide)
  have secondWord : (client.session.pool.location? ⟨1⟩).map (Location.read client.store) = some 8 :=
    (keeps.1 ⟨1⟩).trans (by decide)
  rw [firstAt, Option.map_some, Option.some.injEq] at firstWord
  rw [secondAt, Option.map_some, Option.some.injEq] at secondWord
  exact ⟨firstAt, secondAt, firstWord, secondWord⟩

end Client

end RegisterPool

end Decaf
