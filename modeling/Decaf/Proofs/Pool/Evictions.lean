import Decaf.Proofs.Pool.Ledger
import Decaf.Proofs.Pool.Pinned
import Mathlib.Data.Finset.Card

/-!
# When the pool spills, and what

The pool fails only if it has to: making a temporary fails if every register holds a pinned one, and
loading temporaries fails if one of them is gone or if there are more of them, together with those
that are pinned, than registers. When it has to push a temporary out, it takes the one that came
into its register first of those that are not pinned; and it asks for as many spill slots as were
ever in use at once. The order of arrival and the largest number of slots in use are told by the
ledger of a bookkeeper who sees nothing but requests, answers and moves.
-/

namespace Decaf

namespace RegisterPool

open Operation

variable {pool : RegisterPool}

/-! ## The victim -/

theorem foldl_earlier_arrival_le (rest : List (Nat × Resident)) (first : Nat × Resident) :
    ∀ place ∈ first :: rest, (rest.foldl earlier first).2.arrival ≤ place.2.arrival := by
  induction rest generalizing first with
  | nil => simp
  | cons second rest ih =>
    have bound := ih (earlier first second)
    have chosen := bound _ List.mem_cons_self
    have smaller : (earlier first second).2.arrival ≤ first.2.arrival ∧
        (earlier first second).2.arrival ≤ second.2.arrival := by
      rw [earlier]
      split <;> omega
    intro place isThere
    rw [List.foldl_cons]
    rcases List.mem_cons.mp isThere with rfl | isThere
    · exact Nat.le_trans chosen smaller.1
    · rcases List.mem_cons.mp isThere with rfl | isThere
      · exact Nat.le_trans chosen smaller.2
      · exact bound place (List.mem_cons_of_mem _ isThere)

theorem victim?_eq_none_iff :
    pool.victim? = none ↔ ∀ place ∈ pool.residents, place.2.isPinned = true := by
  rw [victim?]
  split
  next candidates => simpa using List.filter_eq_nil_iff.mp candidates
  next first rest candidates =>
    have isThere : first ∈ pool.residents.filter fun place => !place.2.isPinned := by
      rw [candidates]
      exact List.mem_cons_self
    rw [List.mem_filter] at isThere
    simp only [reduceCtorEq, false_iff, not_forall]
    exact ⟨first, isThere.1, by simpa using isThere.2⟩

theorem arrival_le_of_victim? {victim : Nat × Resident} (found : pool.victim? = some victim)
    {place : Nat × Resident} (isThere : place ∈ pool.residents)
    (unpinned : place.2.isPinned = false) : victim.2.arrival ≤ place.2.arrival := by
  rw [victim?] at found
  split at found
  next => simp at found
  next first rest candidates =>
    rw [Option.some.injEq] at found
    rw [← found]
    apply foldl_earlier_arrival_le
    rw [← candidates, List.mem_filter]
    exact ⟨isThere, by simp [unpinned]⟩

namespace Ledger

variable {ledger : Ledger} {session : Session}
variable {register : Nat}

/-- The temporary that the pool chooses to push out is the first one of the ledger that is not
pinned. -/
theorem Describes.find?_victim (describes : ledger.Describes session.pool) {resident : Resident}
    (found : session.pool.victim? = some (register, resident)) :
    ledger.inRegisters.find? (fun place => place.2 ∉ ledger.pinned) = some (register,
      resident.temporary) := by
  rcases mem_residents_of_victim? found with ⟨isResident, unpinned⟩
  have held := (mem_residents_iff describes.wellFormed).mp isResident
  rcases describes.inRegisters with ⟨places, lists, eq⟩
  rcases List.append_of_mem ((lists.mem_iff _ _).mpr held) with ⟨before, behind, split⟩
  have earlierPinned : ∀ place ∈ before, place.2.temporary ∈ ledger.pinned := by
    intro place isEarlier
    have isThere : place ∈ places := by
      rw [split]
      exact List.mem_append_left _ isEarlier
    have placeHeld := (lists.mem_iff place.1 place.2).mp isThere
    rw [← describes.isPinned_iff _ _ placeHeld]
    by_contra notPinned
    have later :=
      arrival_le_of_victim? found ((mem_residents_iff describes.wellFormed).mpr placeHeld)
        (by simpa using notPinned)
    have sorted := lists.sorted
    rw [split, List.pairwise_append] at sorted
    exact Nat.not_lt.mpr later (sorted.2.2 place isEarlier _ List.mem_cons_self)
  have notPinned : resident.temporary ∉ ledger.pinned := by
    rw [← describes.isPinned_iff _ _ held]
    simp [unpinned]
  rw [eq, split, List.map_append, List.find?_append, List.find?_eq_none.mpr,
    Option.none_or, List.map_cons, List.find?_cons_of_pos (by simpa using notPinned)]
  intro place isThere
  rcases List.mem_map.mp isThere with ⟨original, isEarlier, rfl⟩
  simpa using earlierPinned original isEarlier

/-! ## Operations -/

/-- The ledger accounts for what an operation did: it follows the moves to what the pool has on
record. -/
structure Accounts (ledger : Ledger) (before after : Session) (moves : List Instruction) :
    Prop where
  code_eq : after.code.toList = before.code.toList ++ moves
  spillsOldest : ledger.SpillsOldest moves
  describes : (moves.foldl follow ledger).Describes after.pool

theorem Accounts.trans {first second third : Session} {moves more : List Instruction}
    (early : ledger.Accounts first second moves)
    (late : (moves.foldl follow ledger).Accounts second third more) :
    ledger.Accounts first third (moves ++ more) where
  code_eq := by rw [late.code_eq, early.code_eq, List.append_assoc]
  spillsOldest := spillsOldest_append early.spillsOldest late.spillsOldest
  describes := by
    rw [List.foldl_append]
    exact late.describes

section

variable (describes : ledger.Describes session.pool)
include describes

theorem Describes.accounts : ledger.Accounts session session [] where
  code_eq := (List.append_nil _).symm
  spillsOldest := trivial
  describes := describes

/-- Clearing a register fails only if all of them are pinned; it pushes out the first one that is
not. -/
theorem Describes.run_vacate :
    (∃ register after moves, vacate.run session = (.ok register, after) ∧
        ledger.Accounts session after moves ∧ register < after.pool.registers.length ∧
        after.pool.content? register = none ∧ session.pool.spilled ⊆ after.pool.spilled) ∨
      vacate.run session = (.error (.allPinned session.pool.registerCount), session) := by
  rw [RegisterPool.run_vacate]
  rcases free : session.pool.freeRegister? with _ | register
  · simp only [run_evict]
    rcases victim : session.pool.victim? with _ | ⟨register, resident⟩
    · exact .inr rfl
    · have isThere := (mem_residents_of_victim? victim).1
      have held := (mem_residents_iff describes.wellFormed).mp isThere
      refine .inl ⟨register, _, _, rfl,
        ⟨(shuffle_spill describes.wellFormed held).code_eq, ?_, describes.spilled held⟩, ?_, ?_, ?_⟩
      · refine ⟨?_, trivial⟩
        intro slot other same
        cases same
        exact ⟨_, describes.find?_victim victim⟩
      · rw [spilledSession, length_registers_moveOut]
        exact lt_of_content?_eq_some held
      · rw [spilledSession, content?_moveOut, if_pos rfl]
      · rw [spilledSession, spilled_moveOut]
        exact List.subset_cons_self _ _
  · rcases freeRegister?_eq_some describes.wellFormed free with ⟨bound, empty⟩
    exact .inl ⟨register, session, [], rfl, describes.accounts, bound, empty,
      fun _ isSpilled => isSpilled⟩

theorem Describes.run_occupy (bound : register < session.pool.registers.length)
    (free : session.pool.content? register = none) :
    (ledger.note ((occupy register).run session).1).Describes
      ((occupy register).run session).2.pool := by
  rw [RegisterPool.run_occupy]
  exact describes.occupied bound free

theorem Describes.run_acquire :
    ∃ moves, (acquire.run session).2.code.toList = session.code.toList ++ moves ∧
      ledger.SpillsOldest moves ∧
      ((moves.foldl follow ledger).note (acquire.run session).1).Describes
        (acquire.run session).2.pool := by
  rw [acquire, run_bind]
  rcases describes.run_vacate with
    ⟨register, between, moves, ran, accounts, bound, free, _⟩ | failed
  · rw [ran]
    exact ⟨moves, accounts.code_eq, accounts.spillsOldest, accounts.describes.run_occupy bound free⟩
  · rw [failed]
    exact ⟨[], (List.append_nil _).symm, trivial, describes⟩

theorem Describes.run_acquireSpecific (bound : register < session.pool.registers.length) :
    ∃ moves, ((acquireSpecific register).run session).2.code.toList = session.code.toList ++ moves ∧
      ((moves.foldl follow ledger).note ((acquireSpecific register).run session).1).Describes
        ((acquireSpecific register).run session).2.pool := by
  rw [RegisterPool.run_acquireSpecific]
  rcases held : session.pool.content? register with _ | resident
  · exact ⟨[], (List.append_nil _).symm, describes.run_occupy bound held⟩
  · simp only
    split
    next => exact ⟨[], (List.append_nil _).symm, describes⟩
    next =>
      refine ⟨_, (shuffle_spill describes.wellFormed held).code_eq, ?_⟩
      refine @Describes.run_occupy _ (spilledSession session register resident.temporary) _
        (describes.spilled held) ?_ ?_
      · rw [spilledSession, length_registers_moveOut]
        exact bound
      · rw [spilledSession, content?_moveOut, if_pos rfl]

theorem Describes.run_fetch {temporary : Temporary} (isPinned : temporary ∈ ledger.pinned) :
    ∃ moves, ledger.Accounts session ((fetch temporary).run session).2 moves := by
  rw [RegisterPool.run_fetch]
  rcases session.pool.registerOf? temporary with _ | register
  · rcases inSlot : session.pool.slotOf? temporary with _ | slot
    · exact ⟨[], describes.accounts⟩
    · simp only [run_reload]
      rcases describes.run_vacate with
        ⟨register, between, moves, ran, accounts, bound, free, subset⟩ | failed
      · rw [ran]
        have isSpilled := subset ((slotOf?_eq_some_iff describes.wellFormed).mp inSlot)
        have readBack : (moves.foldl follow ledger).Accounts between
            (reloadedSession between temporary slot register)
            [.loadStack (.general register) (between.pool.spillBase + slot)] :=
          { code_eq := by simp [reloadedSession]
            spillsOldest := ⟨by simp, trivial⟩
            describes :=
              accounts.describes.reloaded isSpilled bound free (by rwa [pinned_foldl_follow]) }
        exact ⟨_, accounts.trans readBack⟩
      · rw [failed]
        exact ⟨[], describes.accounts⟩
  · exact ⟨[], describes.accounts⟩

theorem Describes.run_mapM_fetch {temporaries : List Temporary}
    (arePinned : temporaries ⊆ ledger.pinned) :
    ∃ moves, ledger.Accounts session ((temporaries.mapM fetch).run session).2 moves := by
  induction temporaries generalizing session ledger with
  | nil => exact ⟨[], describes.accounts⟩
  | cons temporary temporaries ih =>
    rcases List.cons_subset.mp arePinned with ⟨isPinned, restPinned⟩
    rcases describes.run_fetch isPinned with ⟨moves, accounts⟩
    rw [List.mapM_cons, run_bind]
    rcases ran : (fetch temporary).run session with ⟨_ | register, between⟩
    · rw [ran] at accounts
      exact ⟨moves, accounts⟩
    · rw [ran] at accounts
      rcases ih accounts.describes (by rwa [pinned_foldl_follow]) with ⟨more, later⟩
      refine ⟨moves ++ more, accounts.trans ?_⟩
      simp only [run_bind]
      rcases ranRest : (temporaries.mapM fetch).run between with ⟨_ | registers, after⟩
      all_goals
        rw [ranRest] at later
        exact later

theorem Describes.run_load (temporaries : List Temporary) :
    ∃ moves, (ledger.pin temporaries).Accounts session ((load temporaries).run session).2
      moves := by
  rw [load, run_bind, run_pinAll]
  rcases (describes.pinnedAll temporaries).run_mapM_fetch (List.subset_append_left _ _) with
    ⟨moves, accounts⟩
  exact ⟨moves, accounts.code_eq, accounts.spillsOldest, accounts.describes⟩

theorem Describes.run_forM_spill {residents : List (Nat × Resident)}
    (held : ∀ place ∈ residents, session.pool.content? place.1 = some place.2)
    (nodup : residents.Nodup) :
    ∃ moves,
        ((residents.forM fun place => spill place.1 place.2.temporary).run session).2.code.toList =
          session.code.toList ++ moves ∧
      (moves.foldl follow ledger).Describes
        ((residents.forM fun place => spill place.1 place.2.temporary).run session).2.pool := by
  induction residents generalizing session ledger with
  | nil => exact ⟨[], (List.append_nil _).symm, describes⟩
  | cons place residents ih =>
    rcases place with ⟨register, resident⟩
    have firstHeld : session.pool.content? register = some resident := held _ List.mem_cons_self
    rcases List.nodup_cons.mp nodup with ⟨notLater, nodupRest⟩
    have laterHeld : ∀ place ∈ residents,
        (spilledSession session register resident.temporary).pool.content? place.1 =
          some place.2 := by
      intro place isLater
      have placeHeld := held place (List.mem_cons_of_mem _ isLater)
      have different : place.1 ≠ register := by
        intro same
        rw [same, firstHeld, Option.some.injEq] at placeHeld
        exact notLater (by rw [placeHeld, ← same]; exact isLater)
      rw [spilledSession, content?_moveOut, if_neg different]
      exact placeHeld
    rcases @ih _ (spilledSession session register resident.temporary)
      (describes.spilled firstHeld) laterHeld nodupRest with ⟨moves, codeEq, later⟩
    have ran : (((register, resident) :: residents).forM fun place =>
        spill place.1 place.2.temporary).run session =
          (residents.forM fun place => spill place.1 place.2.temporary).run
            (spilledSession session register resident.temporary) := by
      change (spill register resident.temporary >>= fun _ => residents.forM fun place =>
        spill place.1 place.2.temporary).run session = _
      rw [run_bind, run_spill]
    rw [ran]
    refine ⟨_ :: moves, ?_, later⟩
    rw [codeEq, (shuffle_spill describes.wellFormed firstHeld).code_eq, List.append_assoc,
      List.singleton_append]

theorem Describes.run_spillAllExcept (kept : List Temporary) :
    ∃ moves, ((spillAllExcept kept).run session).2.code.toList = session.code.toList ++ moves ∧
      (moves.foldl follow ledger).Describes ((spillAllExcept kept).run session).2.pool := by
  rw [spillAllExcept, run_bind, run_get]
  have perm := perm_sortBy (fun left right : Nat × Resident => left.2.arrival ≤ right.2.arrival)
    (session.pool.residents.filter fun place => !kept.contains place.2.temporary)
  refine describes.run_forM_spill ?_
    (perm.nodup_iff.mpr ((nodup_residents describes.wellFormed).filter _))
  intro place isThere
  exact (mem_residents_iff describes.wellFormed).mp
    (List.mem_of_mem_filter (perm.mem_iff.mp isThere))

end

/-! ## Requests -/

theorem describes_start {registerCount : Nat} (named : registerCount ≤ Register.nameCount)
    (spillBase : Nat) : empty.Describes (start registerCount spillBase) where
  wellFormed := wellFormed_start named spillBase
  inRegisters := ⟨[], ⟨by simp [content?_start], .nil, by simp⟩, rfl⟩
  inSlots := .refl _
  isPinned_iff := by simp [content?_start]
  peak_eq := rfl

section

variable {Word : Type} {registerCount spillBase : Nat} {first : Store Word} {client : Client Word}

open Client

variable {Result : Type}

theorem answer_perform (client : Client Word) (operation : Operation Result) :
    (client.perform operation).1 = (operation.run client.session).1 :=
  rfl

theorem session_perform (client : Client Word) (operation : Operation Result) :
    (client.perform operation).2.session = (operation.run client.session).2 :=
  rfl

theorem session_write (word : Word)
    (answer : Except PoolFault (Temporary × Register) × Client Word) :
    (write word answer).session = answer.2.session := by
  rcases answer with ⟨_ | _, _⟩ <;> rfl

theorem Describes.record (describes : ledger.Describes client.session.pool)
    (sound : Sound registerCount spillBase first client) (request : Request Word)
    (inRange : ∀ register word, request = .acquireSpecific register word →
      register < registerCount) :
    (ledger.record client request).Describes (client.step request).session.pool := by
  cases request with
  | acquire word =>
    rcases describes.run_acquire with ⟨moves, codeEq, _, later⟩
    rw [Ledger.record, Client.step, session_write, session_perform]
    simp only [answer_perform, drop_code_eq codeEq]
    exact later
  | acquireSpecific register word =>
    have bound : register < client.session.pool.registers.length := by
      rw [sound.length_eq]
      exact inRange register word rfl
    rcases describes.run_acquireSpecific bound with ⟨moves, codeEq, later⟩
    rw [Ledger.record, Client.step, session_write, session_perform]
    simp only [answer_perform, drop_code_eq codeEq]
    exact later
  | load temporaries =>
    rcases describes.run_load temporaries with ⟨moves, accounts⟩
    rw [Ledger.record, Client.step, session_perform]
    simp only [drop_code_eq accounts.code_eq]
    exact accounts.describes
  | release temporary => exact describes.released temporary
  | spillAllExcept kept =>
    rcases describes.run_spillAllExcept kept with ⟨moves, codeEq, later⟩
    rw [Ledger.record, Client.step, session_perform]
    simp only [drop_code_eq codeEq]
    exact later
  | unpinAll => exact describes.unpinned

theorem Describes.recordAll (describes : ledger.Describes client.session.pool)
    (sound : Sound registerCount spillBase first client) {requests : List (Request Word)}
    (inRange : ∀ register word, .acquireSpecific register word ∈ requests →
      register < registerCount) :
    (ledger.recordAll client requests).Describes (client.run requests).session.pool := by
  induction requests generalizing client ledger with
  | nil => exact describes
  | cons request requests ih =>
    have firstInRange : ∀ register word, request = .acquireSpecific register word →
        register < registerCount := by
      rintro register word rfl
      exact inRange register word List.mem_cons_self
    exact ih (describes.record sound request firstInRange) (sound.step request firstInRange)
      fun register word isLater => inRange register word (List.mem_cons_of_mem _ isLater)

end

end Ledger

variable {pool : RegisterPool} {temporary : Temporary} {temporaries : List Temporary}
  {fault : PoolFault} {after : Session}

/-! ## When operations succeed -/

/-- The temporaries that are in registers and have to stay there. -/
def pinnedTemporaries (pool : RegisterPool) : List Temporary :=
  (pool.residents.filter fun place => place.2.isPinned).map fun place => place.2.temporary

theorem mem_pinnedTemporaries_iff (wellFormed : pool.WellFormed) :
    temporary ∈ pool.pinnedTemporaries ↔
      ∃ register, pool.HoldsPinned register temporary := by
  simp only [pinnedTemporaries, List.mem_map, List.mem_filter, HoldsPinned, Prod.exists,
    mem_residents_iff wellFormed]
  constructor
  · rintro ⟨register, resident, ⟨held, isPinned⟩, rfl⟩
    exact ⟨_, register, resident, rfl, held, rfl, isPinned⟩
  · rintro ⟨_, register, resident, rfl, held, rfl, isPinned⟩
    exact ⟨register, resident, ⟨held, isPinned⟩, rfl⟩

theorem pinnedWithin_pinnedTemporaries (wellFormed : pool.WellFormed) :
    pool.PinnedWithin pool.pinnedTemporaries :=
  fun register resident held isPinned =>
    (mem_pinnedTemporaries_iff wellFormed).mpr ⟨_, register, resident, rfl, held, rfl, isPinned⟩

variable {session : Session}

/-- Making a temporary fails exactly if no register is free and none can be cleared; nothing has
happened then. -/
theorem run_acquire_eq_error_iff (session : Session) :
    ((∃ fault, (acquire.run session).1 = .error fault) ↔
        session.pool.freeRegister? = none ∧ ∀ place ∈ session.pool.residents,
          place.2.isPinned = true) ∧
      ∀ fault, (acquire.run session).1 = .error fault → (acquire.run session).2 = session := by
  rw [← victim?_eq_none_iff, acquire, run_bind, run_vacate, run_evict]
  rcases free : session.pool.freeRegister? with _ | register
  · rcases victim : session.pool.victim? with _ | ⟨register, resident⟩
    · simp
    · simp [run_occupy]
  · simp [run_occupy]

/-- Temporaries that are all in registers at once are no more than there are registers. -/
theorem card_le_of_isResident (areResident : ∀ temporary ∈ temporaries, pool.IsResident temporary) :
    temporaries.toFinset.card ≤ pool.registers.length := by
  choose! register resident held using areResident
  rw [← Finset.card_range pool.registers.length]
  refine Finset.card_le_card_of_injOn register ?_ ?_
  · intro temporary isMember
    have bound := lt_of_content?_eq_some (held temporary (by simpa using isMember)).1
    simpa using bound
  · intro left leftMem right rightMem same
    have leftHeld := held left (by simpa using leftMem)
    have rightHeld := held right (by simpa using rightMem)
    rw [same, rightHeld.1, Option.some.injEq] at leftHeld
    rw [← leftHeld.2, ← leftHeld.1, rightHeld.2]

/-- If all registers are pinned for some temporaries and one of these is in none, they are too
many. -/
theorem lt_card_of_allPinned (wellFormed : pool.WellFormed) (allPinned : pool.AllPinned)
    (within : pool.PinnedWithin temporaries)
    (isMember : temporary ∈ temporaries) (notResident : ¬pool.IsResident temporary) :
    pool.registers.length < temporaries.toFinset.card := by
  have others : pool.PinnedWithin (temporaries.toFinset.erase temporary).toList := by
    intro register resident held isPinned
    simp only [Finset.mem_toList, Finset.mem_erase, List.mem_toFinset]
    refine ⟨?_, within register resident held isPinned⟩
    rintro rfl
    exact notResident ⟨register, resident, held, rfl⟩
  have enough := length_le_of_allPinned wellFormed allPinned others
  rw [Finset.length_toList] at enough
  exact Nat.lt_of_le_of_lt enough (Finset.card_erase_lt_of_mem (List.mem_toFinset.mpr isMember))

theorem run_fetch_eq_error (wellFormed : session.pool.WellFormed)
    (ready : session.pool.Ready [temporary])
    (failed : (fetch temporary).run session = (.error fault, after)) :
    ¬session.pool.IsLive temporary ∨ session.pool.AllPinned ∧
      ¬session.pool.IsResident temporary := by
  have readyOne : ∀ register resident, session.pool.content? register = some resident →
      resident.temporary = temporary → resident.isPinned = true :=
    fun register resident held same => ready register resident held (by simp [same])
  rcases run_fetch_spec wellFormed readyOne with ⟨register, other, moves, ran, _⟩ | ⟨_, allPinned⟩ |
    ⟨_, isDead⟩
  · rw [ran] at failed
    cases failed
  · refine .inr ⟨allPinned, ?_⟩
    intro isResident
    have inRegister := (registerOf?_eq_some_iff wellFormed).mpr isResident.choose_spec
    rw [run_fetch, inRegister] at failed
    cases failed
  · exact .inl isDead

/-- Fetching temporaries fails only if one of them is gone, or at a moment when every register is
pinned and one of them is still in none. -/
theorem run_mapM_fetch_eq_error (wellFormed : session.pool.WellFormed)
    (ready : session.pool.Ready temporaries)
    (failed : (temporaries.mapM fetch).run session = (.error fault, after)) :
    (∃ temporary ∈ temporaries, ¬session.pool.IsLive temporary) ∨
      ∃ between moves, Brings session between temporaries moves ∧ between.pool.AllPinned ∧
        ∃ temporary ∈ temporaries, ¬between.pool.IsResident temporary := by
  induction temporaries generalizing session fault after with
  | nil => cases failed
  | cons temporary temporaries ih =>
    have readyFirst : session.pool.Ready [temporary] := by
      intro register resident held same
      rw [List.mem_singleton] at same
      exact ready register resident held (by rw [same]; exact List.mem_cons_self)
    have readyOne : ∀ register resident, session.pool.content? register = some resident →
        resident.temporary = temporary → resident.isPinned = true :=
      fun register resident held same => readyFirst register resident held (by simp [same])
    rw [List.mapM_cons, run_bind] at failed
    rcases run_fetch_spec wellFormed readyOne with
      ⟨register, between, moves, ran, fetches⟩ | ⟨ran, _⟩ | ⟨ran, _⟩
    · have readyRest : between.pool.Ready temporaries :=
          fetches.ready fun register resident held isMember =>
            ready register resident held (List.mem_cons_of_mem _ isMember)
      have restFailed : ∃ fault last,
          (temporaries.mapM fetch).run between = (.error fault, last) := by
        rw [ran] at failed
        simp only [run_bind] at failed
        rcases ranRest : (temporaries.mapM fetch).run between with ⟨fault | registers, last⟩
        · exact ⟨fault, last, rfl⟩
        · rw [ranRest] at failed
          cases failed
      rcases restFailed with ⟨_, _, restFailed⟩
      rcases ih fetches.wellFormed readyRest restFailed with
        ⟨other, isMember, isDead⟩ | ⟨last, more, brings, allPinned, other, isMember, notResident⟩
      · exact .inl ⟨other, List.mem_cons_of_mem _ isMember, fun live =>
          isDead ((fetches.isLive_iff _).mpr live)⟩
      · refine .inr ⟨last, _, ((Brings.of_fetches fetches).trans brings).mono ?_, allPinned, other,
          List.mem_cons_of_mem _ isMember, notResident⟩
        simp
    all_goals
      rcases run_fetch_eq_error wellFormed readyFirst ran with isDead | ⟨allPinned, notResident⟩
      · exact .inl ⟨temporary, List.mem_cons_self, isDead⟩
      · refine .inr ⟨session, [], ?_, allPinned, temporary, List.mem_cons_self, notResident⟩
        exact
          { Shuffle.refl wellFormed with
            keepsPinned := id
            pinnedWithin := fun within => within.mono (List.subset_append_right _ _)
            spilled_keeps := fun _ isSpilled _ => isSpilled }

/-- Loading temporaries succeeds exactly if all of them wait for their use and there are registers
for them and those that are pinned. -/
theorem run_load_eq_ok_iff (wellFormed : session.pool.WellFormed) (temporaries : List Temporary) :
    (∃ registers, ((load temporaries).run session).1 = .ok registers) ↔
      (∀ temporary ∈ temporaries, session.pool.IsLive temporary) ∧
        (session.pool.pinnedTemporaries ++ temporaries).toFinset.card ≤
          session.pool.registers.length := by
  have pinned := Brings.pinned wellFormed temporaries
  have ready := ready_pinned session temporaries
  rw [load, run_bind, run_pinAll]
  simp only
  constructor
  · rintro ⟨registers, succeeded⟩
    rcases run_mapM_fetch_spec temporaries pinned.wellFormed ready with
      ⟨result, after, moves, ran, shuffle, keeps, loaded⟩
    rw [ran] at succeeded
    have holds := loaded registers succeeded
    have areResident : ∀ temporary ∈ temporaries, after.pool.IsResident temporary := by
      intro temporary isMember
      rcases List.mem_iff_getElem.mp isMember with ⟨index, bound, rfl⟩
      have place := holds.get (by rw [holds.length_eq]; exact bound) bound
      exact place.isResident
    constructor
    · intro temporary isMember
      rw [← pinned.isLive_iff, ← shuffle.isLive_iff]
      exact .inl (areResident temporary isMember)
    · have length_eq := shuffle.length_eq.trans pinned.length_eq
      rw [← length_eq]
      refine card_le_of_isResident fun temporary isMember => ?_
      rcases List.mem_append.mp isMember with wasPinned | isMember
      · rcases (mem_pinnedTemporaries_iff wellFormed).mp wasPinned with ⟨_, wasHeld⟩
        rcases pinned.keepsPinned wasHeld with ⟨register, resident, _, held, same, isPinned⟩
        exact ⟨register, resident, keeps register resident held isPinned, same⟩
      · exact areResident temporary isMember
  · rintro ⟨areLive, enough⟩
    rcases ran : (temporaries.mapM fetch).run (pinnedSession session temporaries) with
      ⟨fault | registers, after⟩
    · exfalso
      rcases run_mapM_fetch_eq_error pinned.wellFormed ready ran with
        ⟨temporary, isMember, isDead⟩ | ⟨between, moves, brings, allPinned, temporary,
          isMember, notResident⟩
      · exact isDead ((pinned.isLive_iff temporary).mpr (areLive temporary isMember))
      · have within : between.pool.PinnedWithin
            (session.pool.pinnedTemporaries ++ temporaries) := by
          refine ((pinned.trans brings).pinnedWithin
            (pinnedWithin_pinnedTemporaries wellFormed)).mono ?_
          intro other isMember
          simp only [List.mem_append, or_self] at isMember ⊢
          exact isMember.symm
        have tooMany := lt_card_of_allPinned brings.wellFormed allPinned within
          (List.mem_append_right _ isMember) notResident
        rw [brings.length_eq, pinned.length_eq] at tooMany
        exact Nat.not_lt.mpr enough tooMany
    · exact ⟨registers, rfl⟩

namespace Client

variable {Word : Type} {registerCount spillBase : Nat}

/-- Whatever a client has asked of a pool whose registers have names of their own, the ledger of it
agrees with the pool, and:
* making a temporary fails exactly if no register is free and every temporary in a register is
  pinned, and then nothing has changed;
* loading temporaries succeeds exactly if all of them are live and they are, with those pinned in
  registers, no more than the registers;
* what either of them pushes out is always the first unpinned temporary of the ledger's registers,
  which are in the order of their last arrivals;
* there are as many spill slots as the ledger has ever had in use at once, and each of them is
  either in use once or free once. -/
theorem pool_spills_as_recorded (named : registerCount ≤ Register.nameCount) (first : Store Word)
    (requests : List (Request Word))
    (inRange : ∀ register word, .acquireSpecific register word ∈ requests →
      register < registerCount) :
    let unused := start registerCount spillBase first
    let session := (unused.run requests).session
    let pool := session.pool
    let ledger := Ledger.empty.recordAll unused requests
    ((∀ register temporary, (register, temporary) ∈ ledger.inRegisters ↔
          ∃ resident, pool.content? register = some resident ∧ resident.temporary = temporary) ∧
        (∀ register resident, pool.content? register = some resident →
          (resident.isPinned = true ↔ resident.temporary ∈ ledger.pinned)) ∧
        ∀ slot temporary, (spillBase + slot, temporary) ∈ ledger.inSlots ↔
          ⟨temporary, slot⟩ ∈ pool.spilled) ∧
      ((∃ fault, (acquire.run session).1 = .error fault) ↔
          pool.freeRegister? = none ∧ ∀ place ∈ pool.residents, place.2.isPinned = true) ∧
      (∀ fault, (acquire.run session).1 = .error fault → (acquire.run session).2 = session) ∧
      (∀ temporaries, (∃ registers, ((load temporaries).run session).1 = .ok registers) ↔
        (∀ temporary ∈ temporaries, pool.IsLive temporary) ∧
          (pool.pinnedTemporaries ++ temporaries).toFinset.card ≤ registerCount) ∧
      (∃ moves, (acquire.run session).2.code.toList = session.code.toList ++ moves ∧
        ledger.SpillsOldest moves) ∧
      (∀ temporaries, ∃ moves,
        ((load temporaries).run session).2.code.toList = session.code.toList ++ moves ∧
          (ledger.pin temporaries).SpillsOldest moves) ∧
      pool.slotCount = ledger.peak ∧
      (pool.spilled.map Spilled.slot ++ pool.freeSlots).Perm (List.range pool.slotCount) := by
  intro unused session pool ledger
  have begun : Sound registerCount spillBase first unused := sound_start named first
  have sound : Sound registerCount spillBase first (unused.run requests) := sound_run inRange begun
  have describes : ledger.Describes pool :=
    (Ledger.describes_start named spillBase).recordAll begun inRange
  have acquires := run_acquire_eq_error_iff session
  refine ⟨⟨describes.mem_inRegisters_iff, describes.isPinned_iff, ?_⟩, acquires.1,
    acquires.2, ?_, ?_, ?_, describes.peak_eq.symm, describes.wellFormed.slots_perm⟩
  · intro slot temporary
    rw [← sound.base_eq]
    exact describes.mem_inSlots_iff slot temporary
  · intro temporaries
    rw [← sound.length_eq]
    exact run_load_eq_ok_iff describes.wellFormed temporaries
  · rcases describes.run_acquire with ⟨moves, codeEq, spillsOldest, _⟩
    exact ⟨moves, codeEq, spillsOldest⟩
  · intro temporaries
    rcases describes.run_load temporaries with ⟨moves, accounts⟩
    exact ⟨moves, accounts.code_eq, accounts.spillsOldest⟩

/-- Three temporaries for two registers, two of which are used together at the end. -/
def crowdedRequests : List (Request Nat) :=
  [.acquire 7, .unpinAll, .acquire 8, .unpinAll, .acquire 9, .unpinAll, .load [⟨0⟩, ⟨2⟩]]

/-- The second temporary is pushed out to make room for the first one, which still has its slot
then, so that two slots are needed. With both registers pinned, another temporary cannot be made. -/
theorem two_slots_of_two_registers :
    (Ledger.empty.recordAll (start 2 10 ⟨fun _ => 0, fun _ => 0⟩) crowdedRequests).peak = 2 ∧
      ∃ fault, (acquire.run ((start 2 10 ⟨fun _ => 0, fun _ => 0⟩).run crowdedRequests).session).1 =
        .error fault := by
  rcases @pool_spills_as_recorded Nat 2 10 (by decide) ⟨fun _ => 0, fun _ => 0⟩ crowdedRequests
      (by simp [crowdedRequests]) with
    ⟨_, fails_iff, _, _, _, _, peak_eq, _⟩
  refine ⟨peak_eq.symm.trans ?_, fails_iff.mpr ?_⟩
  · decide
  · decide

end Client

end RegisterPool

end Decaf
