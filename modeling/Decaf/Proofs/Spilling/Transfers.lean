import Decaf.Proofs.Pool.Pinned
import Mathlib.Data.Set.Insert

/-!
# Temporaries on their way to spill slots and back

The pool's operations as a history of the temporaries that they move: each line that stores a
temporary into a spill slot or loads it again is recorded together with the temporary. While the
operand of some expression is evaluated, the temporaries that were spilled before stay where they
are: the history of that time does not mention them.
-/

namespace Decaf

namespace RegisterPool

open Operation

/-- A temporary is moved between a register and its spill slot. -/
structure Transfer where
  /-- The line that moves it. -/
  place : Nat
  temporary : Temporary
  /-- Whether it is moved to its slot. -/
  isStore : Bool

/-- A session is reached from another one by steps of the pool, with the temporaries that these
moved, one after the other. Besides, instructions may be emitted that have nothing to do with spill
slots. -/
inductive Transfers (others : Instruction → Prop) (before : Session) :
    List Transfer → Session → Prop where
  | none : Transfers others before [] before
  | spill {history : List Transfer} {session : Session} {register : Nat} {resident : Resident}
      (early : Transfers others before history session)
      (held : session.pool.content? register = some resident) :
      Transfers others before (history ++ [⟨session.code.size, resident.temporary, true⟩])
        (spilledSession session register resident.temporary)
  | reload {history : List Transfer} {session : Session} {register slot : Nat}
      {temporary : Temporary}
      (early : Transfers others before history session)
      (isSpilled : session.pool.slotOf? temporary = some slot)
      (inRange : register < session.pool.registers.length)
      (isFree : session.pool.content? register = Option.none) :
      Transfers others before (history ++ [⟨session.code.size, temporary, false⟩])
        (reloadedSession session temporary slot register)
  | occupy {history : List Transfer} {session : Session} {register : Nat}
      (early : Transfers others before history session)
      (inRange : register < session.pool.registers.length)
      (isFree : session.pool.content? register = Option.none) :
      Transfers others before history (occupiedSession session register)
  | pin {history : List Transfer} {session : Session}
      (early : Transfers others before history session)
      (temporaries : List Temporary) : Transfers others before history
      (pinnedSession session temporaries)
  | unpin {history : List Transfer} {session : Session}
      (early : Transfers others before history session) :
      Transfers others before history ⟨session.pool.unpinAll, session.code⟩
  | release {history : List Transfer} {session : Session}
      (early : Transfers others before history session)
      (temporary : Temporary) : Transfers others before history ⟨session.pool.release temporary,
        session.code⟩
  | emit {history : List Transfer} {session : Session}
      (early : Transfers others before history session)
      (instruction : Instruction) (isOther : others instruction) :
      Transfers others before history ⟨session.pool, session.code.push instruction⟩

/-- The last move of a temporary. -/
def lastOf? (history : List Transfer) (temporary : Temporary) : Option Transfer :=
  history.reverse.find? fun transfer => transfer.temporary = temporary

/-- A history without the temporaries of some spill slots. -/
def Avoids (kept : Set Spilled) (history : List Transfer) : Prop :=
  ∀ transfer ∈ history, ∀ entry ∈ kept, transfer.temporary ≠ entry.temporary

section

variable {others more : Instruction → Prop} {before between after : Session}
  {history later : List Transfer} {kept : Set Spilled} {here : Set Temporary}
variable {transfer : Transfer}

theorem Transfers.mono (transfers : Transfers others before history after)
    (subset : ∀ instruction, others instruction → more instruction) :
    Transfers more before history after := by
  induction transfers with
  | none => exact .none
  | spill _ held ih => exact ih.spill held
  | reload _ isSpilled inRange isFree ih => exact ih.reload isSpilled inRange isFree
  | occupy _ inRange isFree ih => exact ih.occupy inRange isFree
  | pin _ temporaries ih => exact ih.pin temporaries
  | unpin _ ih => exact ih.unpin
  | release _ temporary ih => exact ih.release temporary
  | emit _ instruction isOther ih => exact ih.emit instruction (subset instruction isOther)

theorem Transfers.trans (early : Transfers others before history between)
    (late : Transfers others between later after) :
    Transfers others before (history ++ later) after := by
  induction late with
  | none => rwa [List.append_nil]
  | spill _ held ih => exact List.append_assoc history _ _ ▸ ih.spill held
  | reload _ isSpilled inRange isFree ih =>
    exact List.append_assoc history _ _ ▸ ih.reload isSpilled inRange isFree
  | occupy _ inRange isFree ih => exact ih.occupy inRange isFree
  | pin _ temporaries ih => exact ih.pin temporaries
  | unpin _ ih => exact ih.unpin
  | release _ temporary ih => exact ih.release temporary
  | emit _ instruction isOther ih => exact ih.emit instruction isOther

/-- The steps of the pool keep it well-formed, and its registers and its spill slots where they
are. -/
theorem Transfers.wellFormed (transfers : Transfers others before history after)
    (wellFormed : before.pool.WellFormed) :
    after.pool.WellFormed ∧ after.pool.spillBase = before.pool.spillBase ∧
      after.pool.registers.length = before.pool.registers.length := by
  induction transfers with
  | none => exact ⟨wellFormed, rfl, rfl⟩
  | spill _ held ih =>
    have shuffle := shuffle_spill ih.1 held
    exact ⟨shuffle.wellFormed, shuffle.base_eq.trans ih.2.1, shuffle.length_eq.trans ih.2.2⟩
  | reload _ isSpilled inRange isFree ih =>
    have fetches := fetches_reloaded ((slotOf?_eq_some_iff ih.1).mp isSpilled)
      (clears_vacant ih.1 inRange isFree)
    exact ⟨fetches.wellFormed, fetches.base_eq.trans ih.2.1, fetches.length_eq.trans ih.2.2⟩
  | occupy _ inRange isFree ih =>
    have produces := produces_occupied (clears_vacant ih.1 inRange isFree)
    exact ⟨produces.wellFormed, produces.base_eq.trans ih.2.1, produces.length_eq.trans ih.2.2⟩
  | pin _ temporaries ih =>
    have shuffle := shuffle_pinned ih.1 temporaries
    exact ⟨shuffle.wellFormed, shuffle.base_eq.trans ih.2.1, shuffle.length_eq.trans ih.2.2⟩
  | unpin _ ih =>
    have shuffle := shuffle_unpinAll ih.1
    exact ⟨shuffle.wellFormed, ih.2.1, shuffle.length_eq.trans ih.2.2⟩
  | release _ temporary ih =>
    have releases := releases_release ih.1 temporary
    exact ⟨releases.wellFormed, releases.base_eq.trans ih.2.1, releases.length_eq.trans ih.2.2⟩
  | emit _ _ _ ih => exact ih

/-- Whatever was added to the code of a session is a move on record, unless it has nothing to do
with spill slots. -/
theorem Transfers.mem_of_added (transfers : Transfers others before history after)
    (wellFormed : before.pool.WellFormed) {place : Nat} {instruction : Instruction}
    (isLater : before.code.size ≤ place) (found : after.code[place]? = some instruction) :
    others instruction ∨ ∃ transfer ∈ history, transfer.place = place ∧
      ((transfer.isStore = true ∧ ∃ slot source, instruction = .storeStack slot source) ∨
        (transfer.isStore = false ∧
          ∃ slot target, before.pool.spillBase ≤ slot ∧ instruction = .loadStack target slot)) := by
  induction transfers with
  | none => exact absurd (Array.getElem?_eq_some_iff.mp found).1 (Nat.not_lt.mpr isLater)
  | spill early held ih =>
    rw [spilledSession, Array.getElem?_push] at found
    split at found
    next same =>
      obtain rfl := Option.some.inj found
      exact .inr ⟨_, List.mem_append_right _ (List.mem_singleton_self _), same.symm,
        .inl ⟨rfl, _, _, rfl⟩⟩
    next =>
      rcases ih found with isOther | ⟨transfer, isThere, both⟩
      · exact .inl isOther
      · exact .inr ⟨transfer, List.mem_append_left _ isThere, both⟩
  | reload early isSpilled inRange isFree ih =>
    rw [reloadedSession, Array.getElem?_push] at found
    split at found
    next same =>
      obtain rfl := Option.some.inj found
      refine .inr ⟨_, List.mem_append_right _ (List.mem_singleton_self _), same.symm,
        .inr ⟨rfl, _, _, ?_, rfl⟩⟩
      exact Nat.le_trans (Nat.le_of_eq (early.wellFormed wellFormed).2.1.symm)
        (Nat.le_add_right _ _)
    next =>
      rcases ih found with isOther | ⟨transfer, isThere, both⟩
      · exact .inl isOther
      · exact .inr ⟨transfer, List.mem_append_left _ isThere, both⟩
  | occupy _ _ _ ih => exact ih found
  | pin _ _ ih => exact ih found
  | unpin _ ih => exact ih found
  | release _ _ ih => exact ih found
  | emit early other isOther ih =>
    rw [Array.getElem?_push] at found
    split at found
    · exact .inl (Option.some.inj found ▸ isOther)
    · exact ih found

theorem lastOf?_append (history later : List Transfer) (temporary : Temporary) :
    lastOf? (history ++ later) temporary = (lastOf? later temporary).or
      (lastOf? history temporary) := by
  rw [lastOf?, List.reverse_append, List.find?_append]
  rfl

theorem lastOf?_concat (history : List Transfer) (place : Nat) (temporary : Temporary)
    (isStore : Bool) :
    lastOf? (history ++ [⟨place, temporary, isStore⟩]) temporary = some ⟨place,
      temporary, isStore⟩ := by
  simp [lastOf?]

theorem lastOf?_concat_of_ne (history : List Transfer) {temporary : Temporary}
    (differs : transfer.temporary ≠ temporary) :
    lastOf? (history ++ [transfer]) temporary = lastOf? history temporary := by
  simp [lastOf?, differs]

/-- What is not mentioned was last moved before. -/
theorem Avoids.lastOf?_append (avoids : Avoids kept later) {entry : Spilled}
    (isKept : entry ∈ kept) :
    lastOf? (history ++ later) entry.temporary = lastOf? history entry.temporary := by
  have notMoved : lastOf? later entry.temporary = none := by
    refine List.find?_eq_none.mpr fun transfer isLater => ?_
    simpa using avoids transfer (List.mem_reverse.mp isLater) entry isKept
  rw [RegisterPool.lastOf?_append, notMoved, Option.none_or]

theorem mem_of_lastOf? {temporary : Temporary}
    (isLast : lastOf? history temporary = some transfer) : transfer ∈ history :=
  List.mem_reverse.mp (List.mem_of_find?_eq_some isLast)

theorem avoids_nil : Avoids kept [] := nofun

theorem Avoids.append (early : Avoids kept history) (late : Avoids kept later) :
    Avoids kept (history ++ later) := by
  intro transfer isThere
  rcases List.mem_append.mp isThere with isEarly | isLate
  · exact early transfer isEarly
  · exact late transfer isLate

/-- Fewer temporaries are easier to avoid. -/
theorem Avoids.mono (avoids : Avoids kept history) {fewer : Set Spilled} (subset : fewer ⊆ kept) :
    Avoids fewer history :=
  fun transfer isThere entry isFewer => avoids transfer isThere entry (subset isFewer)

end

/-! ## Temporaries that stay where they are -/

/-- Some temporaries are in their spill slots; all others that wait for their use are among given
ones. -/
structure Guards (base : Nat) (kept : Set Spilled) (here : Set Temporary) (pool : RegisterPool) :
    Prop where
  wellFormed : pool.WellFormed
  base_eq : pool.spillBase = base
  keeps : ∀ entry ∈ kept, entry ∈ pool.spilled
  live : ∀ temporary, pool.IsLive temporary → temporary ∈ here ∨ ∃ entry ∈ kept,
    entry.temporary = temporary
  apart : ∀ entry ∈ kept, entry.temporary ∉ here

/-- Temporaries that wait for their use are in registers if they are not in spill slots. -/
theorem Guards.of_wellFormed {pool : RegisterPool} {base : Nat} (wellFormed : pool.WellFormed)
    (baseEq : pool.spillBase = base) :
    Guards base {entry | entry ∈ pool.spilled} {temporary | pool.IsResident temporary} pool := by
  refine ⟨wellFormed, baseEq, fun _ isSpilled => isSpilled, fun temporary isLive => ?_,
    fun entry isSpilled isHere => ?_⟩
  · rcases isLive with ⟨register, resident, held, same⟩ | ⟨entry, isSpilled, same⟩
    · exact .inl ⟨register, resident, held, same⟩
    · exact .inr ⟨entry, isSpilled, same⟩
  · rcases isHere with ⟨register, resident, held, same⟩
    exact wellFormed.resident_not_spilled held isSpilled same

/-- The pool carries out an operation that leaves some spilled temporaries alone. -/
structure Carries (base : Nat) (kept : Set Spilled) (before : Session) (here : Set Temporary)
    (after : Session) : Prop where
  history : ∃ history, Transfers (fun _ => False) before history after ∧ Avoids kept history
  guards : Guards base kept here after.pool

variable {base : Nat} {kept : Set Spilled} {here there : Set Temporary}
  {before between after : Session} {temporary : Temporary}

theorem Carries.trans (early : Carries base kept before here between)
    (late : Carries base kept between there after) : Carries base kept before there after := by
  rcases early.history with ⟨history, transfers, avoids⟩
  rcases late.history with ⟨later, laterTransfers, laterAvoids⟩
  exact ⟨⟨_, transfers.trans laterTransfers, avoids.append laterAvoids⟩, late.guards⟩

namespace Guards

variable {register : Nat} {resident : Resident} {entry : Spilled} {acquired : Temporary × Register}

theorem shuffle {moves : List Instruction} (guards : Guards base kept here before.pool)
    (shuffle : Shuffle before after moves) (keeps : ∀ entry ∈ kept, entry ∈ after.pool.spilled) :
    Guards base kept here after.pool :=
  ⟨shuffle.wellFormed, shuffle.base_eq.trans guards.base_eq, keeps, fun temporary isLive =>
    guards.live temporary ((shuffle.isLive_iff temporary).mp isLive), guards.apart⟩

section

variable (guards : Guards base kept here before.pool)
include guards

theorem refl : Carries base kept before here before :=
  ⟨⟨[], .none, avoids_nil⟩, guards⟩

/-- A temporary in a register is none of those that are in their slots. -/
theorem notKept (held : before.pool.content? register = some resident) (isKept : entry ∈ kept) :
    resident.temporary ≠ entry.temporary :=
  guards.wellFormed.resident_not_spilled held (guards.keeps entry isKept)

theorem spill (held : before.pool.content? register = some resident) :
    Carries base kept before here (spilledSession before register resident.temporary) where
  history := ⟨_, Transfers.none.spill held,
    by simpa [Avoids] using fun entry => guards.notKept held⟩
  guards := by
    refine guards.shuffle (shuffle_spill guards.wellFormed held) fun entry isKept => ?_
    rw [spilledSession, spilled_moveOut]
    exact List.mem_cons_of_mem _ (guards.keeps entry isKept)

theorem vacate (ran : RegisterPool.vacate.run before = (.ok register, after)) :
    Carries base kept before here after ∧ ∃ moves, Clears before after register moves := by
  have clears : ∃ moves, Clears before after register moves := by
    rcases run_vacate_spec guards.wellFormed with
      ⟨found, session, moves, foundRan, clears⟩ | ⟨failed, -⟩
    · obtain ⟨same, rfl⟩ := Prod.mk.inj (ran.symm.trans foundRan)
      obtain rfl := Except.ok.inj same
      exact ⟨moves, clears⟩
    · cases ran.symm.trans failed
  refine ⟨?_, clears⟩
  rw [run_vacate] at ran
  split at ran
  next =>
    cases ran
    exact guards.refl
  next =>
    rw [run_evict] at ran
    split at ran
    next => cases ran
    next isVictim =>
      cases ran
      exact guards.spill ((mem_residents_iff guards.wellFormed).mp
        (mem_residents_of_victim? isVictim).1)

/-- A temporary is made in a register that is free. -/
theorem occupy (inRange : register < before.pool.registers.length)
    (isFree : before.pool.content? register = none) :
    Carries base kept before (insert ⟨before.pool.nextTemporary⟩ here)
      (occupiedSession before register) := by
  have produces := produces_occupied (clears_vacant guards.wellFormed inRange isFree)
  refine ⟨⟨[], Transfers.none.occupy inRange isFree, avoids_nil⟩, produces.wellFormed,
    produces.base_eq.trans guards.base_eq, fun entry isKept =>
      produces.spilled_subset (guards.keeps entry isKept),
      fun temporary isLive => ?_, fun entry isKept => ?_⟩
  · rcases (produces.isLive_iff temporary).mp isLive with rfl | wasLive
    · exact .inl (Set.mem_insert _ _)
    · exact (guards.live temporary wasLive).imp_left (Set.mem_insert_of_mem _)
  · rintro (same | isHere)
    · exact not_isLive_next guards.wellFormed (.inr ⟨entry, guards.keeps entry isKept, same⟩)
    · exact guards.apart entry isKept isHere

end

/-- While all that waits for its use is in its slot, no register is taken. -/
theorem vacant (guards : Guards base kept ∅ before.pool) (register : Nat) :
    before.pool.content? register = none := by
  refine Option.eq_none_iff_forall_ne_some.mpr fun resident held => ?_
  rcases guards.live resident.temporary (.inl ⟨register, resident, held, rfl⟩) with
    ⟨⟨⟩⟩ | ⟨entry, isKept, same⟩
  exact guards.notKept held isKept same.symm

/-- While all that waits for its use is in its slot, nothing else was spilled. -/
theorem kept_of_spilled (guards : Guards base kept ∅ before.pool)
    (isSpilled : entry ∈ before.pool.spilled) : entry ∈ kept := by
  rcases guards.live entry.temporary (.inr ⟨entry, isSpilled, rfl⟩) with
    ⟨⟨⟩⟩ | ⟨other, isKept, same⟩
  have sameEntry := List.inj_on_of_nodup_map guards.wellFormed.spilled_nodup
    (guards.keeps other isKept) isSpilled same
  exact sameEntry ▸ isKept

/-- While all that waits for its use is in its slot, every register can be had without any code. -/
theorem acquireSpecific (guards : Guards base kept ∅ before.pool)
    (ran : (acquireSpecific register).run before = (.ok acquired, after)) :
    acquired = (⟨before.pool.nextTemporary⟩, .general register) ∧
      after = occupiedSession before register := by
  rw [run_acquireSpecific, guards.vacant register] at ran
  dsimp only at ran
  rw [run_occupy] at ran
  cases ran
  exact ⟨rfl, rfl⟩

theorem acquire (guards : Guards base kept here before.pool)
    (ran : acquire.run before = (.ok acquired, after)) :
    Carries base kept before (insert acquired.1 here) after := by
  rw [RegisterPool.acquire, run_bind] at ran
  split at ran
  next register between vacated =>
    rcases guards.vacate vacated with ⟨carries, moves, clears⟩
    rw [run_occupy] at ran
    cases ran
    have isFree : between.pool.content? register = none := by rw [clears.content?_eq, if_pos rfl]
    exact carries.trans (carries.guards.occupy (clears.length_eq ▸ clears.registerLt) isFree)
  next => cases ran

/-! ## Bringing temporaries back -/

theorem pin (guards : Guards base kept here before.pool) (temporaries : List Temporary) :
    Carries base kept before here (pinnedSession before temporaries) :=
  ⟨⟨[], Transfers.none.pin temporaries, avoids_nil⟩,
    guards.shuffle (shuffle_pinned guards.wellFormed temporaries) fun entry isKept =>
      (spilled_pinned before temporaries).symm ▸ guards.keeps entry isKept⟩

theorem fetch {register : Register} (guards : Guards base kept here before.pool)
    (isHere : temporary ∈ here) (ran : (fetch temporary).run before = (.ok register, after)) :
    Carries base kept before here after := by
  have others {entry : Spilled} (isKept : entry ∈ kept) : entry.temporary ≠ temporary := fun same =>
    guards.apart entry isKept (same ▸ isHere)
  rw [run_fetch] at ran
  split at ran
  next =>
    cases ran
    exact guards.refl
  next =>
    split at ran
    next slot isSlot =>
      rw [run_reload] at ran
      split at ran
      next index between vacated =>
        cases ran
        rcases guards.vacate vacated with ⟨carries, moves, clears⟩
        have wasSpilled := (slotOf?_eq_some_iff guards.wellFormed).mp isSlot
        have fetches := fetches_reloaded wasSpilled clears
        have isFree : between.pool.content? index = none := by rw [clears.content?_eq, if_pos rfl]
        refine carries.trans ⟨⟨_,
          Transfers.none.reload ((slotOf?_eq_some_iff carries.guards.wellFormed).mpr
          (clears.spilled_subset wasSpilled)) (clears.length_eq ▸ clears.registerLt) isFree, ?_⟩,
          ?_⟩
        · simpa [Avoids] using fun entry isKept => (others isKept).symm
        · exact guards.shuffle fetches.toShuffle fun entry isKept =>
            fetches.spilled_keeps entry (guards.keeps entry isKept) (others isKept)
      next => cases ran
    next => cases ran

theorem loadOne {register : Register} (guards : Guards base kept here before.pool)
    (isHere : temporary ∈ here) (ran : (loadOne temporary).run before = (.ok register, after)) :
    Carries base kept before here after := by
  rw [RegisterPool.loadOne, run_bind, run_pinAll] at ran
  have pins := guards.pin [temporary]
  exact pins.trans (pins.guards.fetch isHere ran)

theorem loadPair {left right : Temporary} {registers : Register × Register}
    (guards : Guards base kept here before.pool) (leftHere : left ∈ here) (rightHere : right ∈ here)
    (ran : (loadPair left right).run before = (.ok registers, after)) :
    Carries base kept before here after := by
  rw [RegisterPool.loadPair, run_bind, run_pinAll] at ran
  have pins := guards.pin [left, right]
  dsimp only at ran
  rw [run_bind] at ran
  split at ran
  next leftRegister between leftFetched =>
    have leftCarries := pins.guards.fetch leftHere leftFetched
    rw [run_bind] at ran
    split at ran
    next rightRegister last rightFetched =>
      cases ran
      exact pins.trans (leftCarries.trans (leftCarries.guards.fetch rightHere rightFetched))
    next => cases ran
  next => cases ran

/-! ## Giving temporaries up -/

theorem release (guards : Guards base kept (insert temporary here) before.pool) :
    Carries base kept before here ⟨before.pool.release temporary, before.code⟩ := by
  have releases := releases_release guards.wellFormed temporary
  have others {entry : Spilled} (isKept : entry ∈ kept) : entry.temporary ≠ temporary := fun same =>
    guards.apart entry isKept (same ▸ Set.mem_insert _ _)
  refine ⟨⟨[], Transfers.none.release temporary, avoids_nil⟩, releases.wellFormed,
    releases.base_eq.trans guards.base_eq, fun entry isKept =>
      (releases.spilled_iff entry).mpr ⟨guards.keeps entry isKept, others isKept⟩,
      fun other isLive => ?_, fun entry isKept isHere =>
        guards.apart entry isKept (Set.mem_insert_of_mem _ isHere)⟩
  rcases (releases.isLive_iff other).mp isLive with ⟨differs, wasLive⟩
  exact (guards.live other wasLive).imp_left fun isHere =>
    Set.mem_of_mem_insert_of_ne isHere differs

theorem unpin (guards : Guards base kept here before.pool) :
    Carries base kept before here ⟨before.pool.unpinAll, before.code⟩ :=
  ⟨⟨[], Transfers.none.unpin, avoids_nil⟩,
    guards.shuffle (shuffle_unpinAll guards.wellFormed) guards.keeps⟩

/-- Temporaries in registers are spilled one after the other. -/
theorem spillEach {places : List (Nat × Resident)} (guards : Guards base kept here before.pool)
    (held : ∀ place ∈ places, before.pool.content? place.1 = some place.2)
    (nodup : (places.map Prod.fst).Nodup)
    (ran : (places.forM fun place => RegisterPool.spill place.1 place.2.temporary).run before =
      (.ok (), after)) :
    Carries base kept before here after := by
  induction places generalizing before with
  | nil =>
    cases ran
    exact guards.refl
  | cons place rest ih =>
    rcases List.nodup_cons.mp nodup with ⟨notInRest, restNodup⟩
    rw [List.forM_eq_forM, List.forM_cons, run_bind, run_spill] at ran
    have carries := guards.spill (held place List.mem_cons_self)
    refine carries.trans (ih carries.guards (fun other isOther => ?_) restNodup ran)
    rw [spilledSession, content?_moveOut, if_neg fun same => notInRest ?_]
    · exact held other (List.mem_cons_of_mem _ isOther)
    · exact List.mem_map.mpr ⟨other, isOther, same⟩

theorem spillAllExcept {spared : List Temporary} (guards : Guards base kept here before.pool)
    (ran : (spillAllExcept spared).run before = (.ok (), after)) :
    Carries base kept before here after := by
  rw [RegisterPool.spillAllExcept, run_bind, run_get] at ran
  dsimp only at ran
  generalize sorted : sortBy _ _ = places at ran
  have perm : places.Perm (before.pool.residents.filter fun entry =>
      !spared.contains entry.2.temporary) :=
    sorted ▸ perm_sortBy _ _
  have held : ∀ place ∈ places, before.pool.content? place.1 = some place.2 := fun place isPlace =>
    (mem_residents_iff guards.wellFormed).mp (List.mem_filter.mp (perm.mem_iff.mp isPlace)).1
  have nodup : places.Nodup := perm.nodup_iff.mpr ((nodup_residents guards.wellFormed).filter _)
  refine guards.spillEach held (nodup.map_on fun first isFirst second isSecond same => ?_) ran
  have sameResident :=
    (held first isFirst).symm.trans ((congrArg _ same).trans (held second isSecond))
  exact Prod.ext same (Option.some.inj sameResident)

end Guards

end RegisterPool

end Decaf
