import Decaf.Proofs.Registers.Flow
import Decaf.Proofs.Spilling.Transfers

/-!
# Spill slots along the flow of control

Along each way through a piece of code it is known which line stored to a spill slot last. It is
worked out line by line; where several ways meet at a label, what is known is what holds on all of
them. If the pool finds each spilled temporary in a slot where its own line is known to have stored
last, then a temporary that is loaded again was stored there on every way.
-/

namespace Decaf

namespace Instruction

/-- The frame slot that an instruction stores to. -/
def storesTo? : Instruction → Option Nat
  | .storeStack slot _ => some slot
  | _ => none

/-- An instruction uses no frame slot from a first spill slot on. -/
def Spares (base : Nat) : Instruction → Prop
  | .loadStack _ slot | .storeStack slot _ => slot < base
  | _ => True

/-- An instruction uses no frame slot from a first spill slot on, and loads from some slots only. -/
def Keeps (base : Nat) (loads : Nat → Prop) (instruction : Instruction) : Prop :=
  instruction.Spares base ∧ ∀ target slot, instruction = .loadStack target slot → loads slot

theorem storesTo?_eq_some {instruction : Instruction} {slot : Nat} :
    instruction.storesTo? = some slot ↔ ∃ source, instruction = .storeStack slot source := by
  cases instruction <;> simp [storesTo?]

end Instruction

/-! ## Stores that are the last ones to their slots -/

section

variable (first : Nat) (facts : String → Option (Set (Nat × Nat)))

/-- The slots that are known to be stored to behind a line, each with the line that did so last,
given those in front of it. Nothing is to be asked of a line that control does not reach. -/
def Instruction.leavesStored (place : Nat) (stored : Set (Nat × Nat)) (instruction : Instruction) :
    Set (Nat × Nat) :=
  if instruction.isTerminator then Set.univ
  else match instruction.label?, instruction.storesTo? with
    | some name, _ => (facts name).getD ∅
    | none, some slot => insert (slot, place) {known ∈ stored | known.1 ≠ slot}
    | none, none => stored

/-- An instruction leads to labels only where no more is taken to be stored than in front of it. -/
def Instruction.Meets (stored : Set (Nat × Nat)) (instruction : Instruction) : Prop :=
  ∀ name, instruction.label? = some name ∨ instruction.target? = some name → ∃ known ⊆ stored,
    facts name = some known

/-- The slots that are known to be stored to behind code that starts at some line. -/
def storedBehind (code : List Instruction) : Set (Nat × Nat) :=
  (code.zipIdx first).foldl (fun stored line => line.1.leavesStored facts line.2 stored) ∅

/-- Every line of code leads to labels only where no more is taken to be stored. -/
def AllMeet (code : List Instruction) : Prop :=
  ∀ front instruction behind, code = front ++ instruction :: behind →
    instruction.Meets facts (storedBehind first facts front)

end

variable {first : Nat} {facts others : String → Option (Set (Nat × Nat))} {code : List Instruction}
  {instruction : Instruction}

theorem storedBehind_concat : storedBehind first facts (code ++ [instruction]) =
    instruction.leavesStored facts (first + code.length) (storedBehind first facts code) := by
  simp [storedBehind, List.zipIdx_append]

theorem allMeet_nil : AllMeet first facts [] := by
  intro front found behind codeEq
  simp at codeEq

theorem allMeet_concat : AllMeet first facts (code ++ [instruction]) ↔
    AllMeet first facts code ∧ instruction.Meets facts (storedBehind first facts code) := by
  constructor
  · intro meet
    refine ⟨fun front found behind codeEq => ?_, meet code instruction [] rfl⟩
    exact meet front found (behind ++ [instruction]) (by rw [codeEq]; simp)
  · rintro ⟨meet, meets⟩ front found behind codeEq
    rcases split_concat codeEq with ⟨rfl, rfl⟩ | ⟨rest, earlier⟩
    · exact meets
    · exact meet front found rest earlier

theorem AllMeet.front {behind : List Instruction} (meet : AllMeet first facts (code ++ behind)) :
    AllMeet first facts code := by
  intro front found rest codeEq
  exact meet front found (rest ++ behind) (by rw [codeEq]; simp)

/-- Code may stand behind other code that stores nothing. -/
theorem AllMeet.prepend {front : List Instruction}
    (meet : AllMeet (first + front.length) facts code) (early : AllMeet first facts front)
    (nothingStored : storedBehind first facts front = ∅) :
    AllMeet first facts (front ++ code) ∧
      storedBehind first facts (front ++ code) =
        storedBehind (first + front.length) facts code := by
  have same (code : List Instruction) :
      storedBehind first facts (front ++ code) =
        storedBehind (first + front.length) facts code := by
    unfold storedBehind at nothingStored ⊢
    rw [List.zipIdx_append, List.foldl_append, nothingStored]
  refine ⟨?_, same code⟩
  induction code using List.reverseRecOn with
  | nil => simpa using early
  | append_singleton code instruction ih =>
    rcases allMeet_concat.mp meet with ⟨before, meets⟩
    rw [← List.append_assoc]
    exact allMeet_concat.mpr ⟨ih before, same code ▸ meets⟩

/-- More labels may get known. -/
theorem AllMeet.extend (meet : AllMeet first facts code) (isMore : Extends facts others) :
    AllMeet first others code ∧ storedBehind first others code = storedBehind first facts code := by
  induction code using List.reverseRecOn with
  | nil => exact ⟨allMeet_nil, rfl⟩
  | append_singleton code instruction ih =>
    rcases allMeet_concat.mp meet with ⟨early, meets⟩
    rcases ih early with ⟨stays, storedEq⟩
    constructor
    · refine allMeet_concat.mpr ⟨stays, fun name isNamed => ?_⟩
      rcases meets name isNamed with ⟨known, subset, isKnown⟩
      exact ⟨known, storedEq ▸ subset, isMore name known isKnown⟩
    · simp only [storedBehind_concat, Instruction.leavesStored, storedEq]
      cases labelEq : instruction.label? with
      | none => cases instruction.storesTo? <;> rfl
      | some name =>
        rcases meets name (.inl labelEq) with ⟨known, _, isKnown⟩
        simp only [isKnown, isMore name known isKnown]

/-! ## Ways through code -/

/-- The slots that are known to be stored to when control gets to a line. -/
def storedAt (facts : String → Option (Set (Nat × Nat))) (code : List Instruction) (place : Nat) :
    Set (Nat × Nat) :=
  match (code[place]?).bind Instruction.label? with
  | some name => (facts name).getD ∅
  | none => storedBehind 0 facts (code.take place)

variable {place next slot store : Nat}

theorem AllMeet.meets_at (meet : AllMeet first facts code)
    (found : code[place]? = some instruction) :
    instruction.Meets facts (storedBehind first facts (code.take place)) := by
  rcases List.getElem?_eq_some_iff.mp found with ⟨inRange, rfl⟩
  refine meet _ _ (code.drop (place + 1)) ?_
  rw [List.getElem_cons_drop, List.take_append_drop]

theorem storedAt_of_label {name : String} (found : code[place]? = some (.label name)) :
    storedAt facts code place = (facts name).getD ∅ := by
  simp [storedAt, found, Instruction.label?]

theorem storedAt_of_not_label (found : code[place]? = some instruction)
    (notLabel : instruction.label? = none) :
    storedAt facts code place = storedBehind 0 facts (code.take place) := by
  simp [storedAt, found, notLabel]

theorem AllMeet.storedAt_subset (meet : AllMeet 0 facts code) :
    storedAt facts code place ⊆ storedBehind 0 facts (code.take place) := by
  unfold storedAt
  split
  next name isLabel =>
    rcases Option.bind_eq_some_iff.mp isLabel with ⟨instruction, found, labelEq⟩
    rcases meet.meets_at found name (.inl labelEq) with ⟨known, subset, isKnown⟩
    rw [isKnown, Option.getD_some]
    exact subset
  next => exact fun _ isStored => isStored

/-- If a line is known to have stored to a slot last, then control comes from that line, or else
from one that does not store to the slot and where the same was known. -/
theorem AllMeet.storedAt_of_flows (meet : AllMeet 0 facts code) (flows : Flows code place next)
    (isStored : (slot, store) ∈ storedAt facts code next) :
    ∃ instruction, code[place]? = some instruction ∧
      ((store = place ∧ instruction.storesTo? = some slot) ∨
      (instruction.storesTo? ≠ some slot ∧ (slot, store) ∈ storedAt facts code place)) := by
  cases flows with
  | @onward instruction found goesOn =>
    have isBehind := meet.storedAt_subset isStored
    have inRange := (List.getElem?_eq_some_iff.mp found).1
    have takeEq : code.take (place + 1) = code.take place ++ [instruction] := by
      rw [List.take_add_one, found, Option.toList_some]
    rw [takeEq, storedBehind_concat, Instruction.leavesStored, goesOn,
      List.length_take_of_le (Nat.le_of_lt inRange), Nat.zero_add] at isBehind
    refine ⟨instruction, found, ?_⟩
    cases labelEq : instruction.label? with
    | some name =>
      rw [labelEq] at isBehind
      rw [Instruction.label?_eq_some.mp labelEq] at found ⊢
      exact .inr ⟨nofun, storedAt_of_label found ▸ isBehind⟩
    | none =>
      rw [labelEq] at isBehind
      rw [storedAt_of_not_label found labelEq]
      cases storeEq : instruction.storesTo? with
      | none =>
        rw [storeEq] at isBehind
        exact .inr ⟨nofun, isBehind⟩
      | some other =>
        rw [storeEq] at isBehind
        rcases isBehind with same | ⟨wasStored, differs⟩
        · obtain ⟨rfl, rfl⟩ := Prod.mk.inj same
          exact .inl ⟨rfl, rfl⟩
        · exact .inr ⟨fun same => differs (Option.some.inj same).symm, wasStored⟩
  | @jump _ instruction name found leads isThere =>
    rw [storedAt_of_label isThere] at isStored
    rcases meet.meets_at found name (.inr leads) with ⟨known, subset, isKnown⟩
    rw [isKnown, Option.getD_some] at isStored
    have jumps : instruction.label? = none ∧ instruction.storesTo? = none := by
      cases instruction <;> simp_all [Instruction.target?, Instruction.label?,
        Instruction.storesTo?]
    exact ⟨instruction, found, .inr ⟨by simp [jumps.2],
      storedAt_of_not_label found jumps.1 ▸ subset isStored⟩⟩

/-- Every way from the first line to a line where the last store to a slot is known passes that
store, and stores nothing to the slot behind it. -/
theorem AllMeet.passes_store (meet : AllMeet 0 facts code) {way : List Nat}
    (isWay : (way ++ [place]).IsChain (Flows code)) (fromStart : (way ++ [place]).head? = some 0)
    (isStored : (slot, store) ∈ storedAt facts code place) :
    ∃ early late, way = early ++ store :: late ∧
      (∃ source, code[store]? = some (.storeStack slot source)) ∧
      ∀ line ∈ late, ∀ source, code[line]? ≠ some (.storeStack slot source) := by
  induction way using List.reverseRecOn generalizing place with
  | nil =>
    obtain rfl : place = 0 := by simpa using fromStart
    exact (meet.storedAt_subset isStored).elim
  | append_singleton way middle ih =>
    have parts := isWay
    rw [List.append_assoc, List.singleton_append, List.isChain_append_cons_cons] at parts
    rcases parts with ⟨isEarlier, flows, -⟩
    rcases meet.storedAt_of_flows flows isStored with
      ⟨instruction, found, ⟨rfl, isStore⟩ | ⟨notStore, wasStored⟩⟩
    · rcases Instruction.storesTo?_eq_some.mp isStore with ⟨source, rfl⟩
      exact ⟨way, [], rfl, ⟨source, found⟩, by simp⟩
    · rcases ih isEarlier (by simpa using fromStart) wasStored with
        ⟨early, late, wayEq, isStore, others⟩
      refine ⟨early, late ++ [middle], by simp [wayEq], isStore,
        fun line isLate source isThere => ?_⟩
      rcases List.mem_append.mp isLate with isEarly | isLast
      · exact others line isEarly source isThere
      · obtain rfl := List.mem_singleton.mp isLast
        exact notStore (Instruction.storesTo?_eq_some.mpr ⟨source,
          Option.some.inj (found.symm.trans isThere)⟩)

namespace RegisterPool

/-! ## Spilled temporaries are stored -/

section

variable (first : Nat) (facts : String → Option (Set (Nat × Nat))) (history : List Transfer)

/-- The line that moved a temporary to its slot is the last one that stored there, whichever way
control took. -/
def IsStored (session : Session) (entry : Spilled) : Prop :=
  ∃ place, lastOf? history entry.temporary = some ⟨place, entry.temporary, true⟩ ∧
    (session.pool.spillBase + entry.slot, first + place) ∈
      storedBehind first facts session.code.toList

/-- A temporary was loaded from a slot where it was stored on every way. -/
def IsReloaded (code : List Instruction) (load : Transfer) : Prop :=
  ∃ store ∈ history, store.isStore = true ∧ store.temporary = load.temporary ∧ ∃ slot target,
    code[load.place]? = some (.loadStack target slot) ∧
      (slot, first + store.place) ∈ storedBehind first facts (code.take load.place)

/-- Every spilled temporary is stored in its slot, and so was every one that was loaded again. -/
structure Traces (session : Session) : Prop where
  meet : AllMeet first facts session.code.toList
  stored : ∀ entry ∈ session.pool.spilled, IsStored first facts history session entry
  reloaded : ∀ load ∈ history, load.isStore = false →
    IsReloaded first facts history session.code.toList load

end

variable {history : List Transfer} {session : Session} {load : Transfer}

theorem IsReloaded.later (isReloaded : IsReloaded first facts history code load)
    (behind : List Instruction) (later : List Transfer) :
    IsReloaded first facts (history ++ later) (code ++ behind) load := by
  rcases isReloaded with ⟨store, isThere, isStore, same, slot, target, found, isStored⟩
  have inRange := (List.getElem?_eq_some_iff.mp found).1
  refine ⟨store, List.mem_append_left _ isThere, isStore, same, slot, target, ?_, ?_⟩
  · rw [List.getElem?_append_left inRange, found]
  · rw [List.take_append_of_le_length (Nat.le_of_lt inRange)]
    exact isStored

namespace Traces

/-- More labels may get known. -/
theorem extend (traces : Traces first facts history session) (isMore : Extends facts others) :
    Traces first others history session := by
  refine ⟨(traces.meet.extend isMore).1, fun entry isSpilled => ?_, fun load isThere isLoad => ?_⟩
  · rcases traces.stored entry isSpilled with ⟨place, isLast, isStored⟩
    exact ⟨place, isLast, (traces.meet.extend isMore).2 ▸ isStored⟩
  · rcases traces.reloaded load isThere isLoad with
      ⟨store, wasThere, isStore, same, slot, target, found, isStored⟩
    have front : AllMeet first facts (session.code.toList.take load.place) :=
      AllMeet.front (by rw [List.take_append_drop]; exact traces.meet)
    exact ⟨store, wasThere, isStore, same, slot, target, found, (front.extend isMore).2 ▸ isStored⟩

/-- The pool changes, but every spilled temporary was in the same slot before. -/
theorem change (traces : Traces first facts history session) {pool : RegisterPool}
    (baseEq : pool.spillBase = session.pool.spillBase)
    (wereSpilled : ∀ entry ∈ pool.spilled, entry ∈ session.pool.spilled) :
    Traces first facts history ⟨pool, session.code⟩ := by
  refine ⟨traces.meet, fun entry isSpilled => ?_, traces.reloaded⟩
  rcases traces.stored entry (wereSpilled entry isSpilled) with ⟨place, isLast, isStored⟩
  exact ⟨place, isLast, baseEq ▸ isStored⟩

/-- An instruction is added behind which the spilled temporaries are still stored. -/
theorem emit (traces : Traces first facts history session) (instruction : Instruction)
    (meets : instruction.Meets facts (storedBehind first facts session.code.toList))
    (stays : ∀ entry ∈ session.pool.spilled, ∀ place,
      lastOf? history entry.temporary = some ⟨place, entry.temporary, true⟩ →
      (session.pool.spillBase + entry.slot, first + place) ∈
        storedBehind first facts session.code.toList →
      (session.pool.spillBase + entry.slot, first + place) ∈ instruction.leavesStored facts
      (first + session.code.toList.length) (storedBehind first facts session.code.toList)) :
    Traces first facts history ⟨session.pool, session.code.push instruction⟩ := by
  refine ⟨?_, fun entry isSpilled => ?_, fun load isThere isLoad => ?_⟩
  · rw [Array.toList_push]
    exact allMeet_concat.mpr ⟨traces.meet, meets⟩
  · rcases traces.stored entry isSpilled with ⟨place, isLast, isStored⟩
    refine ⟨place, isLast, ?_⟩
    rw [Array.toList_push, storedBehind_concat]
    exact stays entry isSpilled place isLast isStored
  · have isReloaded := (traces.reloaded load isThere isLoad).later [instruction] []
    rw [Array.toList_push]
    rwa [List.append_nil] at isReloaded

theorem spill {register : Nat} {resident : Resident} (traces : Traces first facts history session)
    (wellFormed : session.pool.WellFormed) (held : session.pool.content? register = some resident) :
    Traces first facts (history ++ [⟨session.code.size, resident.temporary, true⟩])
      (spilledSession session register resident.temporary) := by
  have after := wellFormed_moveOut wellFormed held
  have behind : storedBehind first facts
      (spilledSession session register resident.temporary).code.toList =
        insert (session.pool.spillBase + (session.pool.moveOut register resident.temporary).1,
          first + session.code.size) {known ∈ storedBehind first facts session.code.toList |
            known.1 ≠ session.pool.spillBase +
            (session.pool.moveOut register resident.temporary).1} := by
    rw [spilledSession, Array.toList_push, storedBehind_concat]
    rfl
  refine ⟨?_, fun entry isSpilled => ?_, fun load isThere isLoad => ?_⟩
  · rw [spilledSession, Array.toList_push]
    exact allMeet_concat.mpr ⟨traces.meet, by rintro _ (⟨⟨⟩⟩ | ⟨⟨⟩⟩)⟩
  · have wasSpilled := isSpilled
    rw [spilledSession, spilled_moveOut] at wasSpilled
    rcases List.mem_cons.mp wasSpilled with rfl | wasSpilled
    · refine ⟨session.code.size, lastOf?_concat _ _ _ _, ?_⟩
      rw [behind, spilledSession, spillBase_moveOut]
      exact Set.mem_insert _ _
    · have differs := wellFormed.resident_not_spilled held wasSpilled
      rcases traces.stored entry wasSpilled with ⟨place, isLast, isStored⟩
      refine ⟨place, (lastOf?_concat_of_ne _ differs).trans isLast, ?_⟩
      rw [behind, spilledSession, spillBase_moveOut]
      refine .inr ⟨isStored, fun same => differs ?_⟩
      have isNew : ⟨resident.temporary, (session.pool.moveOut register resident.temporary).1⟩ ∈
          (session.pool.moveOut register resident.temporary).2.spilled := by
        rw [spilled_moveOut]
        exact List.mem_cons_self
      have sameEntry := spilled_eq_of_slot_eq after isNew isSpilled (Nat.add_left_cancel same).symm
      exact congrArg Spilled.temporary sameEntry
  · have isOld : load ∈ history := (List.mem_append.mp isThere).resolve_right fun isNew => by
      obtain rfl := List.mem_singleton.mp isNew
      cases isLoad
    rw [spilledSession, Array.toList_push]
    exact (traces.reloaded load isOld isLoad).later _ _

theorem reload {register slot : Nat} {temporary : Temporary}
    (traces : Traces first facts history session) (wellFormed : session.pool.WellFormed)
    (isSpilled : session.pool.slotOf? temporary = some slot) :
    Traces first facts (history ++ [⟨session.code.size, temporary, false⟩])
      (reloadedSession session temporary slot register) := by
  have wasSpilled := (slotOf?_eq_some_iff wellFormed).mp isSpilled
  have same : storedBehind first facts
      (reloadedSession session temporary slot register).code.toList =
        storedBehind first facts session.code.toList := by
    rw [reloadedSession, Array.toList_push, storedBehind_concat]
    rfl
  refine ⟨?_, fun entry isStill => ?_, fun load isThere isLoad => ?_⟩
  · rw [reloadedSession, Array.toList_push]
    exact allMeet_concat.mpr ⟨traces.meet, by rintro _ (⟨⟨⟩⟩ | ⟨⟨⟩⟩)⟩
  · rcases (mem_spilled_slotFreed wellFormed wasSpilled).mp isStill with ⟨wasThere, differs⟩
    rcases traces.stored entry wasThere with ⟨place, isLast, isStored⟩
    exact ⟨place, (lastOf?_concat_of_ne _ differs.symm).trans isLast, same ▸ isStored⟩
  · rw [reloadedSession, Array.toList_push]
    rcases List.mem_append.mp isThere with isOld | isNew
    · exact (traces.reloaded load isOld isLoad).later _ _
    · obtain rfl := List.mem_singleton.mp isNew
      rcases traces.stored _ wasSpilled with ⟨place, isLast, isStored⟩
      refine ⟨_, List.mem_append_left _ (mem_of_lastOf? isLast), rfl, rfl,
        session.pool.spillBase + slot, .general register, ?_, ?_⟩
      · simp
      · simpa using isStored

/-- What the pool does by itself keeps all temporaries stored. -/
theorem of_transfers {before after : Session} {later : List Transfer}
    (transfers : Transfers (fun _ => False) before later after)
    (wellFormed : before.pool.WellFormed) (traces : Traces first facts history before) :
    Traces first facts (history ++ later) after := by
  induction transfers with
  | none => rwa [List.append_nil]
  | spill early held ih =>
    exact List.append_assoc history _ _ ▸ ih.spill (early.wellFormed wellFormed).1 held
  | reload early isSpilled _ _ ih =>
    exact List.append_assoc history _ _ ▸ ih.reload (early.wellFormed wellFormed).1 isSpilled
  | occupy early inRange isFree ih => exact ih.change rfl fun _ isSpilled => isSpilled
  | @pin _ between early temporaries ih =>
    refine ih.change (shuffle_pinned (early.wellFormed wellFormed).1 temporaries).base_eq
      fun entry isSpilled => ?_
    exact spilled_pinned between temporaries ▸ isSpilled
  | unpin early ih => exact ih.change rfl fun _ isSpilled => isSpilled
  | release early temporary ih =>
    have releases := releases_release (early.wellFormed wellFormed).1 temporary
    exact ih.change releases.base_eq fun entry isSpilled =>
      ((releases.spilled_iff entry).mp isSpilled).1
  | emit _ _ isOther => exact isOther.elim

end Traces

end RegisterPool

end Decaf
