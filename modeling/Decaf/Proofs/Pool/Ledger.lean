import Decaf.Proofs.Pool.Client
import Mathlib.Data.Finset.Card

/-!
# A ledger of the register pool

A bookkeeper sees what a client asks of the pool, what the pool answers and the moves that it emits,
and nothing else. That is enough to tell which temporaries are in registers and in which order they
came there, which wait in frame slots, which are pinned, and how many slots were in use at once at
most. `Ledger.Describes` relates such a ledger to the pool's own records; every change of a single
register or slot keeps it.
-/

namespace Decaf

namespace RegisterPool

/-- What a bookkeeper of the pool has written down. -/
structure Ledger where
  /-- The temporaries in registers, each with its register, in the order in which they last came
  into one. -/
  inRegisters : List (Nat × Temporary)
  /-- The temporaries in frame slots, each with its slot. -/
  inSlots : List (Nat × Temporary)
  /-- The temporaries that were made or asked for since the pins were last taken off. -/
  pinned : List Temporary
  /-- The largest number of temporaries that were in slots at the same time. -/
  peak : Nat
  deriving DecidableEq, Repr

namespace Ledger

variable {register slot : Nat} {resident : Resident} {temporary : Temporary}
  {places : List (Nat × Resident)} {change : Resident → Resident}

/-- Nothing is live. -/
def empty : Ledger where
  inRegisters := []
  inSlots := []
  pinned := []
  peak := 0

/-- The ledger after a temporary came into a register. -/
def arrive (ledger : Ledger) (register : Nat) (temporary : Temporary) : Ledger :=
  { ledger with inRegisters := ledger.inRegisters ++ [(register, temporary)] }

/-- The ledger after the pool has emitted an instruction. A temporary that is stored leaves its
register for the slot, and one that is read back leaves the slot for the register. -/
def follow (ledger : Ledger) : Instruction → Ledger
  | .storeStack slot (.general register) =>
    match ledger.inRegisters.find? fun place => place.1 = register with
    | some (_, temporary) =>
      { ledger with
        inRegisters := ledger.inRegisters.filter fun place => place.1 ≠ register
        inSlots := (slot, temporary) :: ledger.inSlots
        peak := max ledger.peak (ledger.inSlots.length + 1) }
    | none => ledger
  | .loadStack (.general register) slot =>
    match ledger.inSlots.find? fun place => place.1 = slot with
    | some (_, temporary) =>
      { ledger with inSlots := ledger.inSlots.filter fun place => place.1 ≠ slot }.arrive
          register temporary
    | none => ledger
  | _ => ledger

/-- The ledger after temporaries were made or asked for. -/
def pin (ledger : Ledger) (temporaries : List Temporary) : Ledger :=
  { ledger with pinned := temporaries ++ ledger.pinned }

/-- The ledger after the pool has answered a request for a new temporary. -/
def note (ledger : Ledger) : Except PoolFault (Temporary × Register) → Ledger
  | .ok (temporary, .general register) => (ledger.pin [temporary]).arrive register temporary
  | _ => ledger

/-- The ledger after a temporary was released. -/
def strike (ledger : Ledger) (temporary : Temporary) : Ledger :=
  { ledger with
    inRegisters := ledger.inRegisters.filter fun place => place.2 ≠ temporary
    inSlots := ledger.inSlots.filter fun place => place.2 ≠ temporary }

/-- The ledger after a request of a client. -/
def record {Word : Type} (ledger : Ledger) (client : Client Word) (request : Request Word) :
    Ledger :=
  let moves := (client.step request).session.code.toList.drop client.session.code.size
  match request with
  | .acquire _ => (moves.foldl follow ledger).note (client.perform acquire).1
  | .acquireSpecific register _ =>
    (moves.foldl follow ledger).note (client.perform (acquireSpecific register)).1
  | .load temporaries => moves.foldl follow (ledger.pin temporaries)
  | .release temporary => ledger.strike temporary
  | .spillAllExcept _ => moves.foldl follow ledger
  | .unpinAll => { ledger with pinned := [] }

/-- Records a list of requests. -/
def recordAll {Word : Type} (ledger : Ledger) (client : Client Word) : List (Request Word) → Ledger
  | [] => ledger
  | request :: requests => (ledger.record client request).recordAll (client.step request) requests

/-- Whenever the instructions store a temporary away, it is the one that came into its register
first of those that are in registers and not pinned. -/
def SpillsOldest : Ledger → List Instruction → Prop
  | _, [] => True
  | ledger, move :: moves =>
    (∀ slot register, move = .storeStack slot (.general register) → ∃ temporary,
      ledger.inRegisters.find? (fun place => place.2 ∉ ledger.pinned) =
        some (register, temporary)) ∧
    (ledger.follow move).SpillsOldest moves

theorem spillsOldest_append {ledger : Ledger} {moves more : List Instruction}
    (early : ledger.SpillsOldest moves) (late : (moves.foldl follow ledger).SpillsOldest more) :
    ledger.SpillsOldest (moves ++ more) := by
  induction moves generalizing ledger with
  | nil => exact late
  | cons move moves ih => exact ⟨early.1, ih early.2 late⟩

@[simp]
theorem pinned_follow (ledger : Ledger) (move : Instruction) :
    (ledger.follow move).pinned = ledger.pinned := by
  unfold follow
  split <;> try split
  all_goals rfl

theorem pinned_foldl_follow (moves : List Instruction) (ledger : Ledger) :
    (moves.foldl follow ledger).pinned = ledger.pinned := by
  induction moves generalizing ledger with
  | nil => rfl
  | cons move moves ih => rw [List.foldl_cons, ih, pinned_follow]

/-! ## Ledgers and pools -/

/-- The temporaries in registers are listed by their arrival. -/
structure Lists (places : List (Nat × Resident)) (pool : RegisterPool) : Prop where
  mem_iff : ∀ register resident, (register, resident) ∈ places ↔
    pool.content? register = some resident
  sorted : places.Pairwise fun earlier later => earlier.2.arrival < later.2.arrival
  arrival_le : ∀ place ∈ places, place.2.arrival ≤ pool.clock

/-- The ledger says of each temporary what the pool says of it. -/
structure Describes (ledger : Ledger) (pool : RegisterPool) : Prop where
  wellFormed : pool.WellFormed
  inRegisters : ∃ places, Lists places pool ∧
    ledger.inRegisters = places.map fun place => (place.1, place.2.temporary)
  inSlots : ledger.inSlots.Perm (pool.spilled.map fun entry =>
    (pool.spillBase + entry.slot, entry.temporary))
  isPinned_iff : ∀ register resident, pool.content? register = some resident →
    (resident.isPinned = true ↔ resident.temporary ∈ ledger.pinned)
  peak_eq : ledger.peak = pool.slotCount

variable {ledger : Ledger} {pool : RegisterPool}

section

variable (describes : ledger.Describes pool)
include describes

theorem Describes.mem_inRegisters_iff (register : Nat) (temporary : Temporary) :
    (register, temporary) ∈ ledger.inRegisters ↔
      ∃ resident, pool.content? register = some resident ∧ resident.temporary = temporary := by
  rcases describes.inRegisters with ⟨places, lists, eq⟩
  rw [eq, List.mem_map]
  constructor
  · rintro ⟨⟨index, resident⟩, isThere, same⟩
    cases same
    exact ⟨resident, (lists.mem_iff _ _).mp isThere, rfl⟩
  · rintro ⟨resident, held, rfl⟩
    exact ⟨(register, resident), (lists.mem_iff _ _).mpr held, rfl⟩

theorem Describes.find?_inRegisters (held : pool.content? register = some resident) :
    (ledger.inRegisters.find? fun place => place.1 = register) = some (register,
      resident.temporary) := by
  have isThere :=
    (describes.mem_inRegisters_iff register resident.temporary).mpr ⟨resident, held, rfl⟩
  rcases found : ledger.inRegisters.find? fun place => place.1 = register with
    _ | ⟨index, temporary⟩
  · have absent := List.find?_eq_none.mp found _ isThere
    simp at absent
  · have same : index = register := by simpa using List.find?_some found
    subst same
    rcases (describes.mem_inRegisters_iff index temporary).mp (List.mem_of_find?_eq_some found) with
      ⟨other, otherHeld, rfl⟩
    rw [held, Option.some.injEq] at otherHeld
    rw [found, otherHeld]

theorem Describes.mem_inSlots_iff (slot : Nat) (temporary : Temporary) :
    (pool.spillBase + slot, temporary) ∈ ledger.inSlots ↔ ⟨temporary, slot⟩ ∈ pool.spilled := by
  rw [describes.inSlots.mem_iff, List.mem_map]
  constructor
  · rintro ⟨⟨other, place⟩, isThere, same⟩
    simp only [Prod.mk.injEq, Nat.add_left_cancel_iff] at same
    rw [← same.1, ← same.2]
    exact isThere
  · intro isThere
    exact ⟨_, isThere, rfl⟩

theorem Describes.find?_inSlots (isSpilled : ⟨temporary, slot⟩ ∈ pool.spilled) :
    (ledger.inSlots.find? fun place => place.1 = pool.spillBase + slot) =
      some (pool.spillBase + slot, temporary) := by
  have isThere := (describes.mem_inSlots_iff slot temporary).mpr isSpilled
  rcases found : ledger.inSlots.find? fun place => place.1 = pool.spillBase + slot with
    _ | ⟨index, other⟩
  · have absent := List.find?_eq_none.mp found _ isThere
    simp at absent
  · have same : index = pool.spillBase + slot := by simpa using List.find?_some found
    subst same
    have otherSpilled := (describes.mem_inSlots_iff slot other).mp (List.mem_of_find?_eq_some found)
    have equal := spilled_eq_of_slot_eq describes.wellFormed otherSpilled isSpilled rfl
    rw [Spilled.mk.injEq] at equal
    rw [found, equal.1]

end

/-! ## Changes of one register or slot -/

/-- A slot that is in use no more is used again before another one is asked for, so the slots that
were asked for are as many as were ever in use at once. -/
theorem slotCount_moveOut_eq_max (wellFormed : pool.WellFormed) (register : Nat)
    (temporary : Temporary) :
    (pool.moveOut register temporary).2.slotCount =
      max pool.slotCount (pool.spilled.length + 1) := by
  have count := wellFormed.slots_perm.length_eq
  rw [List.length_append, List.length_map, List.length_range] at count
  rcases slots : pool.freeSlots with _ | ⟨slot, rest⟩
  · simp only [slots, List.length_nil, Nat.add_zero] at count
    simp only [moveOut, slots, vacated]
    omega
  · simp only [slots, List.length_cons] at count
    simp only [moveOut, slots, vacated]
    omega

theorem clock_moveOut (pool : RegisterPool) (register : Nat) (temporary : Temporary) :
    (pool.moveOut register temporary).2.clock = pool.clock := by
  rcases slots : pool.freeSlots with _ | ⟨slot, rest⟩ <;> simp [moveOut, slots, vacated]

theorem Lists.cleared {after : RegisterPool} (lists : Lists places pool)
    (clock_eq : after.clock = pool.clock)
    (content?_eq : ∀ other, after.content? other = if other =
      register then none else pool.content? other) :
    Lists (places.filter fun place => place.1 ≠ register) after where
  mem_iff other resident := by
    rw [List.mem_filter, lists.mem_iff, content?_eq]
    by_cases same : other = register
    · simp [same]
    · simp [same]
  sorted := lists.sorted.filter _
  arrival_le place isThere := by
    rw [clock_eq]
    exact lists.arrival_le place (List.mem_of_mem_filter isThere)

theorem Describes.spilled (describes : ledger.Describes pool)
    (held : pool.content? register = some resident) :
    (ledger.follow (.storeStack (pool.spillBase + (pool.moveOut register resident.temporary).1)
      (.general register))).Describes (pool.moveOut register resident.temporary).2 := by
  have followed := describes.find?_inRegisters held
  simp only [follow, followed]
  constructor
  · exact wellFormed_moveOut describes.wellFormed held
  · rcases describes.inRegisters with ⟨places, lists, eq⟩
    refine ⟨_, lists.cleared (clock_moveOut _ _ _) (content?_moveOut _ _ _), ?_⟩
    rw [eq, List.filter_map]
    rfl
  · rw [spilled_moveOut, spillBase_moveOut, List.map_cons]
    exact describes.inSlots.cons _
  · intro other content otherHeld
    rw [content?_moveOut] at otherHeld
    split at otherHeld
    · simp at otherHeld
    · exact describes.isPinned_iff other content otherHeld
  · rw [slotCount_moveOut_eq_max describes.wellFormed, describes.peak_eq,
      describes.inSlots.length_eq, List.length_map]

theorem Lists.settled (lists : Lists places pool) (bound : register < pool.registers.length)
    (free : pool.content? register = none) (temporary : Temporary) :
    Lists (places ++ [(register, ⟨temporary, pool.clock + 1, true⟩)])
      (pool.settle register temporary) where
  mem_iff other resident := by
    rw [List.mem_append, lists.mem_iff, content?_settle _ bound]
    by_cases same : other = register
    · subst same
      simp [free, eq_comm]
    · simp [same]
  sorted := by
    rw [List.pairwise_append]
    refine ⟨lists.sorted, List.pairwise_singleton _ _, ?_⟩
    intro earlier isEarlier later isLater
    rw [List.mem_singleton.mp isLater]
    exact Nat.lt_succ_of_le (lists.arrival_le earlier isEarlier)
  arrival_le place isThere := by
    rcases List.mem_append.mp isThere with wasThere | isNew
    · exact Nat.le_succ_of_le (lists.arrival_le place wasThere)
    · rw [List.mem_singleton.mp isNew]
      exact Nat.le_refl _

/-- A temporary that is written down as pinned comes into a free register. -/
theorem Describes.settled (describes : ledger.Describes pool)
    (bound : register < pool.registers.length) (free : pool.content? register = none)
    (dead : ¬pool.IsLive temporary) (made : temporary.index < pool.nextTemporary)
    (isPinned : temporary ∈ ledger.pinned) :
    (ledger.arrive register temporary).Describes (pool.settle register temporary) where
  wellFormed := wellFormed_settle describes.wellFormed bound free dead made
  inRegisters := by
    rcases describes.inRegisters with ⟨places, lists, eq⟩
    refine ⟨_, lists.settled bound free temporary, ?_⟩
    rw [arrive, eq, List.map_append]
    rfl
  inSlots := describes.inSlots
  isPinned_iff other resident held := by
    rw [content?_settle _ bound] at held
    split at held
    · cases held
      simpa [arrive] using isPinned
    · exact describes.isPinned_iff other resident held
  peak_eq := describes.peak_eq

theorem Describes.advanced (describes : ledger.Describes pool) :
    ledger.Describes pool.advanced where
  wellFormed :=
    { describes.wellFormed with
      resident_lt := fun held => Nat.lt_succ_of_lt (describes.wellFormed.resident_lt held)
      spilled_lt := fun mem => Nat.lt_succ_of_lt (describes.wellFormed.spilled_lt mem) }
  inRegisters := by
    rcases describes.inRegisters with ⟨places, lists, eq⟩
    exact ⟨places, ⟨lists.mem_iff, lists.sorted, lists.arrival_le⟩, eq⟩
  inSlots := describes.inSlots
  isPinned_iff := describes.isPinned_iff
  peak_eq := describes.peak_eq

/-- Pinning a temporary that is in no register changes nothing that is on record. -/
theorem Describes.pin_absent (describes : ledger.Describes pool)
    (absent : ∀ register resident, pool.content? register = some resident →
      resident.temporary ≠ temporary) :
    (ledger.pin [temporary]).Describes pool :=
  { describes with
    isPinned_iff := by
      intro register resident held
      simpa [Ledger.pin, absent register resident held] using describes.isPinned_iff
        register resident held }

theorem Describes.occupied {session : Session} (describes : ledger.Describes session.pool)
    (bound : register < session.pool.registers.length)
    (free : session.pool.content? register = none) :
    ((ledger.pin [⟨session.pool.nextTemporary⟩]).arrive register
      ⟨session.pool.nextTemporary⟩).Describes (occupiedSession session register).pool := by
  have dead := not_isLive_next describes.wellFormed
  exact (describes.advanced.pin_absent (not_isLive_iff.mp dead).1).settled bound free
    dead (Nat.lt_succ_self _) (by simp [Ledger.pin])

theorem Describes.freed (describes : ledger.Describes pool)
    (isSpilled : ⟨temporary, slot⟩ ∈ pool.spilled) (keeps : Nat × Temporary → Bool)
    (removes : keeps (pool.spillBase + slot, temporary) = false)
    (others : ∀ entry ∈ (pool.slotFreed temporary slot).spilled,
      keeps (pool.spillBase + entry.slot, entry.temporary) = true) :
    { ledger with inSlots := ledger.inSlots.filter keeps }.Describes
      (pool.slotFreed temporary slot) where
  wellFormed := wellFormed_slotFreed describes.wellFormed isSpilled
  inRegisters := by
    rcases describes.inRegisters with ⟨places, lists, eq⟩
    exact ⟨places, ⟨lists.mem_iff, lists.sorted, lists.arrival_le⟩, eq⟩
  inSlots := by
    have perm :=
      describes.inSlots.trans ((spilled_perm_slotFreed describes.wellFormed isSpilled).map _)
    refine (perm.filter keeps).trans (.of_eq ?_)
    rw [List.map_cons, List.filter_cons_of_neg (by simp [removes]), List.filter_eq_self.mpr]
    · rfl
    · intro place isThere
      rcases List.mem_map.mp isThere with ⟨entry, stays, rfl⟩
      exact others entry stays
  isPinned_iff := describes.isPinned_iff
  peak_eq := describes.peak_eq

theorem slot_ne_of_mem_slotFreed (wellFormed : pool.WellFormed)
    (isSpilled : ⟨temporary, slot⟩ ∈ pool.spilled) {entry : Spilled}
    (stays : entry ∈ (pool.slotFreed temporary slot).spilled) : entry.slot ≠ slot := by
  rcases (mem_spilled_slotFreed wellFormed isSpilled).mp stays with ⟨wasThere, differs⟩
  intro same
  have equal := spilled_eq_of_slot_eq wellFormed wasThere isSpilled same
  exact differs (by rw [equal])

theorem Describes.reloaded {session : Session} (describes : ledger.Describes session.pool)
    (isSpilled : ⟨temporary, slot⟩ ∈ session.pool.spilled)
    (bound : register < session.pool.registers.length)
    (free : session.pool.content? register = none) (isPinned : temporary ∈ ledger.pinned) :
    (ledger.follow (.loadStack (.general register) (session.pool.spillBase + slot))).Describes
      (reloadedSession session temporary slot register).pool := by
  have followed := describes.find?_inSlots isSpilled
  simp only [follow, followed]
  have freed := describes.freed isSpilled (fun place =>
    place.1 ≠ session.pool.spillBase + slot) (by simp)
    fun entry stays => by simpa using slot_ne_of_mem_slotFreed describes.wellFormed isSpilled stays
  have dead : ¬(session.pool.slotFreed temporary slot).IsLive temporary := by
    rw [isLive_slotFreed describes.wellFormed isSpilled]
    exact fun live => live.1 rfl
  exact freed.settled bound free dead (describes.wellFormed.spilled_lt isSpilled) isPinned

theorem Describes.vacated (describes : ledger.Describes pool)
    (held : pool.content? register = some resident) :
    (ledger.strike resident.temporary).Describes (pool.vacated register resident.temporary) := by
  have notSpilled : ∀ place ∈ ledger.inSlots, place.2 ≠ resident.temporary := by
    intro place isThere
    rcases List.mem_map.mp (describes.inSlots.mem_iff.mp isThere) with ⟨entry, isSpilled, rfl⟩
    exact (describes.wellFormed.resident_not_spilled held isSpilled).symm
  constructor
  · exact wellFormed_vacated describes.wellFormed held
  · rcases describes.inRegisters with ⟨places, lists, eq⟩
    refine ⟨_, lists.cleared rfl (content?_vacated _ _ _), ?_⟩
    simp only [strike, eq, List.filter_map]
    congr 1
    refine List.filter_congr ?_
    rintro ⟨other, content⟩ isThere
    have otherHeld := (lists.mem_iff _ _).mp isThere
    simp only [Function.comp_apply, decide_eq_decide, ne_eq, not_iff_not]
    constructor
    · exact describes.wellFormed.resident_unique otherHeld held
    · rintro rfl
      rw [held, Option.some.injEq] at otherHeld
      rw [otherHeld]
  · have kept : (ledger.strike resident.temporary).inSlots = ledger.inSlots :=
      List.filter_eq_self.mpr fun place isThere => by simpa using notSpilled place isThere
    rw [kept]
    exact describes.inSlots
  · intro other content otherHeld
    rw [content?_vacated] at otherHeld
    split at otherHeld
    · simp at otherHeld
    · exact describes.isPinned_iff other content otherHeld
  · exact describes.peak_eq

/-- A temporary that is in no register can be struck off the list of those in registers. -/
theorem Describes.filter_inRegisters (describes : ledger.Describes pool)
    (absent : ∀ register resident, pool.content? register = some resident →
      resident.temporary ≠ temporary) :
    (ledger.inRegisters.filter fun place => place.2 ≠ temporary) = ledger.inRegisters := by
  refine List.filter_eq_self.mpr ?_
  rintro ⟨register, other⟩ isThere
  rcases (describes.mem_inRegisters_iff register other).mp isThere with ⟨resident, held, rfl⟩
  simpa using absent register resident held

theorem Describes.released (describes : ledger.Describes pool) (temporary : Temporary) :
    (ledger.strike temporary).Describes (pool.release temporary) := by
  by_cases live : pool.IsLive temporary
  · rcases live with ⟨register, resident, held, rfl⟩ | ⟨⟨temporary, slot⟩, isSpilled, rfl⟩
    · rw [release_of_resident describes.wellFormed held]
      exact describes.vacated held
    · rw [release_of_spilled describes.wellFormed isSpilled, strike,
        describes.filter_inRegisters fun register resident held =>
          describes.wellFormed.resident_not_spilled held isSpilled]
      refine describes.freed isSpilled (fun place => place.2 ≠ temporary) (by simp) ?_
      intro entry stays
      simpa using ((mem_spilled_slotFreed describes.wellFormed isSpilled).mp stays).2
  · rw [release_of_not_isLive describes.wellFormed live]
    rcases not_isLive_iff.mp live with ⟨notResident, notSpilled⟩
    have kept : (ledger.inSlots.filter fun place => place.2 ≠ temporary) = ledger.inSlots := by
      refine List.filter_eq_self.mpr fun place isThere => ?_
      rcases List.mem_map.mp (describes.inSlots.mem_iff.mp isThere) with ⟨entry, isSpilled, rfl⟩
      simpa using notSpilled entry isSpilled
    rw [strike, describes.filter_inRegisters notResident, kept]
    exact describes

theorem Lists.changed (lists : Lists places pool)
    (keeps : ∀ resident, (change resident).arrival = resident.arrival) :
    Lists (places.map fun place => (place.1, change place.2)) (pool.mapResidents change) where
  mem_iff register resident := by
    rw [content?_mapResidents, List.mem_map, Option.map_eq_some_iff]
    constructor
    · rintro ⟨⟨index, original⟩, isThere, same⟩
      cases same
      exact ⟨original, (lists.mem_iff _ _).mp isThere, rfl⟩
    · rintro ⟨original, held, rfl⟩
      exact ⟨(register, original), (lists.mem_iff _ _).mpr held, rfl⟩
  sorted := by
    rw [List.pairwise_map]
    simpa only [keeps] using lists.sorted
  arrival_le := by
    intro place isThere
    rcases List.mem_map.mp isThere with ⟨original, wasThere, rfl⟩
    rw [keeps]
    exact lists.arrival_le original wasThere

/-- A change of the pins that both sides make. -/
theorem Describes.changed (describes : ledger.Describes pool) {pinned : List Temporary}
    (keepsTemporary : ∀ resident, (change resident).temporary = resident.temporary)
    (keepsArrival : ∀ resident, (change resident).arrival = resident.arrival)
    (isPinned_iff : ∀ resident, (resident.isPinned = true ↔ resident.temporary ∈ ledger.pinned) →
      ((change resident).isPinned = true ↔ resident.temporary ∈ pinned)) :
    { ledger with pinned }.Describes (pool.mapResidents change) where
  wellFormed := wellFormed_mapResidents describes.wellFormed keepsTemporary
  inRegisters := by
    rcases describes.inRegisters with ⟨places, lists, eq⟩
    refine ⟨_, lists.changed keepsArrival, ?_⟩
    simp only [eq, List.map_map, Function.comp_def, keepsTemporary]
  inSlots := describes.inSlots
  isPinned_iff register resident held := by
    rw [content?_mapResidents, Option.map_eq_some_iff] at held
    rcases held with ⟨original, held, rfl⟩
    rw [keepsTemporary]
    exact isPinned_iff original (describes.isPinned_iff register original held)
  peak_eq := describes.peak_eq

theorem Describes.pinnedAll {session : Session} (describes : ledger.Describes session.pool)
    (temporaries : List Temporary) :
    (ledger.pin temporaries).Describes (pinnedSession session temporaries).pool := by
  induction temporaries generalizing session ledger with
  | nil => exact describes
  | cons temporary temporaries ih =>
    have first : (ledger.pin [temporary]).Describes (session.pool.pin temporary) := by
      refine describes.changed ?_ ?_ ?_
      · intro resident
        split <;> rfl
      · intro resident
        split <;> rfl
      · intro resident isPinned_iff
        by_cases same : resident.temporary = temporary
        · simp [same]
        · simpa [same] using isPinned_iff
    have rest : ((ledger.pin [temporary]).pin temporaries).Describes
        (pinnedSession session (temporary :: temporaries)).pool :=
      @ih _ { session with pool := session.pool.pin temporary } first
    refine { rest with isPinned_iff := ?_ }
    intro register resident held
    rw [rest.isPinned_iff register resident held]
    simp [Ledger.pin, or_left_comm]

theorem Describes.unpinned (describes : ledger.Describes pool) :
    { ledger with pinned := [] }.Describes pool.unpinAll :=
  describes.changed (fun _ => rfl) (fun _ => rfl) (fun resident _ => by simp)

end Ledger

end RegisterPool

end Decaf
