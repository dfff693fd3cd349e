import Decaf.Proofs.Code.Steps
import Decaf.Proofs.Machine.Placement
import Mathlib.Order.Interval.Set.Defs
import Mathlib.Data.List.Chain
import Mathlib.Data.Set.Basic

/-!
# Registers along the flow of control

Along each way through a piece of code some registers are known to have been filled: those that an
instruction put a word into after the last call. Which ones is worked out line by line; where
several ways meet at a label, the registers that are filled on all of them are given. If every line
uses registers only that are known to be filled, then no way leads from a call to the use of a
register without filling it again.
-/

namespace Decaf

namespace Instruction

/-- The registers whose words an instruction uses. -/
def reads : Instruction → List Register
  | .move _ source | .unary _ _ source | .storeStack _ source | .storeStatic _ source | .push source
  | .retValue source | .print _ source => [source]
  | .loadHeap _ base _ => [base]
  | .storeHeap base _ source => [base, source]
  | .binary _ _ left right => [left, right]
  | .branchIfZero condition _ | .branchIfNonzero condition _ => [condition]
  | .callVirtual table _ => [table]
  | .label _ | .staticData _ | .vtable .. | .moveInt .. | .moveDouble .. | .moveString ..
  | .moveLabel ..
  | .loadStack .. | .loadStatic .. | .jump _ | .pop _ | .call _ | .enter _ | .ret | .halt
  | .allocate .. => []

/-- The register that an instruction puts a word into. -/
def writes? : Instruction → Option Register
  | .moveInt target _ | .moveDouble target _ | .moveString target _ | .moveLabel target _
  | .move target _
  | .loadStack target _ | .loadHeap target _ _ | .loadStatic target _ | .binary _ target _ _
  | .unary _ target _ | .allocate target _ => some target
  | .label _ | .staticData _ | .vtable .. | .storeStack .. | .storeHeap .. | .storeStatic ..
  | .jump _
  | .branchIfZero .. | .branchIfNonzero .. | .push _ | .pop _ | .call _ | .callVirtual .. | .enter _
  | .ret | .retValue _ | .halt | .print .. => none

/-- Whether an instruction calls a method. -/
def isCall : Instruction → Bool
  | .call _ | .callVirtual .. => true
  | _ => false

/-- Whether control passes straight on to the next instruction, and registers keep their words but
for the one that the instruction fills. -/
def keepsRegisters (instruction : Instruction) : Bool :=
  !instruction.isTerminator && !instruction.isCall && instruction.label?.isNone

theorem mem_registers {instruction : Instruction} {register : Register} :
    register ∈ instruction.registers ↔ instruction.writes? = some register ∨
      register ∈ instruction.reads := by
  cases instruction <;> simp [registers, reads, writes?, eq_comm]

end Instruction

variable {code front : List Instruction} {instruction : Instruction} {Known : Type}

/-- Control may pass from one line of code to another one. -/
inductive Flows (code : List Instruction) : Nat → Nat → Prop where
  | onward {place : Nat} {instruction : Instruction} (found : code[place]? = some instruction)
      (goesOn : instruction.isTerminator = false) : Flows code place (place + 1)
  | jump {place target : Nat} {instruction : Instruction} {name : String}
      (found : code[place]? = some instruction)
      (leads : instruction.target? = some name) (isThere : code[target]? = some (.label name)) :
      Flows code place target

/-- Code ends with a call, or with a call and the instruction that removes what was pushed for
it. -/
def EndsInCall (code : List Instruction) : Prop :=
  ∃ front call, call.isCall = true ∧ (code = front ++ [call] ∨ ∃ words,
    code = front ++ [call, .pop words])

/-- The result of a call is moved away directly behind the call, and the register for results is not
used otherwise. -/
def FetchesResults (code : List Instruction) : Prop :=
  ∀ front instruction behind, code = front ++ instruction :: behind → .result ∈ instruction.reads →
    (∃ target, instruction = .move target .result) ∧ EndsInCall front

/-- A line of code that has one more line at its end is that line or stands in front of it. -/
theorem split_concat {behind : List Instruction} {found : Instruction}
    (codeEq : code ++ [instruction] = front ++ found :: behind) :
    (front = code ∧ found = instruction) ∨ ∃ rest, code = front ++ found :: rest := by
  rcases behind.eq_nil_or_concat' with rfl | ⟨rest, last, rfl⟩
  · obtain ⟨rfl, same⟩ := List.append_inj' codeEq rfl
    exact .inl ⟨rfl, (List.cons.inj same).1.symm⟩
  · rw [← List.cons_append, ← List.append_assoc] at codeEq
    exact .inr ⟨rest, (List.append_inj' codeEq rfl).1⟩

theorem fetchesResults_nil : FetchesResults [] := by
  intro front instruction behind codeEq
  simp at codeEq

theorem fetchesResults_concat (takes : FetchesResults code)
    (isTaken : .result ∈ instruction.reads → (∃ target, instruction = .move target .result) ∧
      EndsInCall code) :
    FetchesResults (code ++ [instruction]) := by
  intro front found behind codeEq isRead
  rcases split_concat codeEq with ⟨rfl, rfl⟩ | ⟨rest, earlier⟩
  · exact isTaken isRead
  · exact takes front found rest earlier isRead

theorem FetchesResults.prepend (takes : FetchesResults code)
    (notRead : ∀ instruction ∈ front, .result ∉ instruction.reads) :
    FetchesResults (front ++ code) := by
  induction code using List.reverseRecOn with
  | nil =>
    intro earlier instruction behind codeEq isRead
    rw [List.append_nil] at codeEq
    exact absurd isRead (notRead instruction (codeEq ▸ List.mem_append_right _ List.mem_cons_self))
  | append_singleton code instruction ih =>
    have early : FetchesResults code := fun before found behind codeEq =>
      takes before found (behind ++ [instruction]) (by simp [codeEq])
    rw [← List.append_assoc]
    refine fetchesResults_concat (ih early) fun isRead => ?_
    rcases takes code instruction [] rfl isRead with
      ⟨isMove, earlier, call, isCall, rfl | ⟨words, rfl⟩⟩
    · exact ⟨isMove, front ++ earlier, call, isCall, .inl (List.append_assoc _ _ _).symm⟩
    · exact ⟨isMove, front ++ earlier, call, isCall, .inr ⟨words, (List.append_assoc _ _ _).symm⟩⟩

/-! ## Filled registers -/

/-- More labels are known. -/
def Extends {Known : Type} (facts others : String → Option Known) : Prop :=
  ∀ name known, facts name = some known → others name = some known

theorem Extends.refl (facts : String → Option Known) : Extends facts facts :=
  fun _ _ isKnown => isKnown

theorem Extends.trans {facts others more : String → Option Known} (early : Extends facts others)
    (late : Extends others more) : Extends facts more :=
  fun name known isKnown => late name known (early name known isKnown)

section

variable (count : Nat) (facts : String → Option (Set Nat))

/-- The registers that are filled behind an instruction, given those that are filled in front of it.
No register keeps its word over a call, and nothing is to be asked of a line that control does not
reach. -/
def Instruction.leaves (filled : Set Nat) (instruction : Instruction) : Set Nat :=
  if instruction.isTerminator then Set.Iio count
  else if instruction.isCall then ∅
  else match instruction.label? with
    | some name => (facts name).getD ∅
    | none => filled ∪ {index | instruction.writes? = some (.general index)}

/-- An instruction uses filled registers only, and leads to labels only where no more than those are
taken to be filled. -/
structure Instruction.Supplied (filled : Set Nat) (instruction : Instruction) : Prop where
  reads : ∀ index, .general index ∈ instruction.reads → index ∈ filled
  writes : ∀ index, instruction.writes? = some (.general index) → index < count
  leads : ∀ name, instruction.label? = some name ∨ instruction.target? = some name →
    ∃ known ⊆ filled, facts name = some known

/-- The registers that are filled behind code. -/
def filledBehind (code : List Instruction) : Set Nat :=
  code.foldl (Instruction.leaves count facts) ∅

/-- Every line of code uses filled registers only. -/
def Supplies (code : List Instruction) : Prop :=
  ∀ front instruction behind, code = front ++ instruction :: behind →
    instruction.Supplied count facts (filledBehind count facts front)

end

section

variable {count : Nat} {facts others : String → Option (Set Nat)} {code : List Instruction}
  {instruction : Instruction}
variable {index : Nat}

theorem filledBehind_concat :
    filledBehind count facts (code ++ [instruction]) = instruction.leaves count facts
      (filledBehind count facts code) := by
  simp [filledBehind]

theorem leaves_of_keepsRegisters (keeps : instruction.keepsRegisters = true) (filled : Set Nat) :
    instruction.leaves count facts filled =
      filled ∪ {index | instruction.writes? = some (.general index)} := by
  simp only [Instruction.keepsRegisters, Bool.and_eq_true, Bool.not_eq_true',
    Option.isNone_iff_eq_none] at keeps
  simp [Instruction.leaves, keeps.1.1, keeps.1.2, keeps.2]

theorem supplies_nil : Supplies count facts [] := by
  intro front found behind codeEq
  simp at codeEq

theorem supplies_concat : Supplies count facts (code ++ [instruction]) ↔
    Supplies count facts code ∧
      instruction.Supplied count facts (filledBehind count facts code) := by
  constructor
  · intro supplies
    refine ⟨fun front found behind codeEq => ?_, supplies code instruction [] rfl⟩
    exact supplies front found (behind ++ [instruction]) (by rw [codeEq]; simp)
  · rintro ⟨supplies, supplied⟩ front found behind codeEq
    rcases split_concat codeEq with ⟨rfl, rfl⟩ | ⟨rest, earlier⟩
    · exact supplied
    · exact supplies front found rest earlier

theorem Supplies.filledBehind_subset (supplies : Supplies count facts code) :
    filledBehind count facts code ⊆ Set.Iio count := by
  induction code using List.reverseRecOn with
  | nil => exact fun _ isFilled => isFilled.elim
  | append_singleton code instruction ih =>
    rcases supplies_concat.mp supplies with ⟨early, supplied⟩
    intro index isFilled
    rw [filledBehind_concat, Instruction.leaves] at isFilled
    split at isFilled
    · exact isFilled
    · split at isFilled
      · exact isFilled.elim
      · split at isFilled
        next name isLabel =>
          rcases supplied.leads name (.inl isLabel) with ⟨known, subset, isKnown⟩
          rw [isKnown, Option.getD_some] at isFilled
          exact ih early (subset isFilled)
        next =>
          rcases isFilled with wasFilled | isWritten
          · exact ih early wasFilled
          · exact supplied.writes index isWritten

/-- All registers that are named are among those that there are. -/
theorem Supplies.namesBelow (supplies : Supplies count facts code) (isThere : instruction ∈ code) :
    instruction.NamesBelow count := by
  rcases List.mem_iff_append.mp isThere with ⟨front, behind, codeEq⟩
  have supplied := supplies front instruction behind codeEq
  have early : Supplies count facts front := by
    intro earlier found rest frontEq
    exact supplies earlier found (rest ++ instruction :: behind) (by rw [codeEq, frontEq]; simp)
  intro index isNamed
  rcases Instruction.mem_registers.mp isNamed with isWritten | isRead
  · exact supplied.writes index isWritten
  · exact early.filledBehind_subset (supplied.reads index isRead)

/-- Code in front of which no register is filled may stand behind other code that fills none. -/
theorem Supplies.prepend {front : List Instruction} (supplies : Supplies count facts code)
    (early : Supplies count facts front) (nothingFilled : filledBehind count facts front = ∅) :
    Supplies count facts (front ++ code) := by
  have same (code : List Instruction) : filledBehind count facts (front ++ code) =
      filledBehind count facts code := by
    unfold filledBehind at nothingFilled ⊢
    rw [List.foldl_append, nothingFilled]
  induction code using List.reverseRecOn with
  | nil => simpa using early
  | append_singleton code instruction ih =>
    rcases supplies_concat.mp supplies with ⟨before, supplied⟩
    rw [← List.append_assoc]
    exact supplies_concat.mpr ⟨ih before, same code ▸ supplied⟩

/-- More labels may get known. -/
theorem Supplies.extend (supplies : Supplies count facts code) (isMore : Extends facts others) :
    Supplies count others code ∧ filledBehind count others code =
      filledBehind count facts code := by
  induction code using List.reverseRecOn with
  | nil => exact ⟨supplies_nil, rfl⟩
  | append_singleton code instruction ih =>
    rcases supplies_concat.mp supplies with ⟨early, supplied⟩
    rcases ih early with ⟨stays, filledEq⟩
    constructor
    · refine supplies_concat.mpr ⟨stays, filledEq ▸ supplied.reads, supplied.writes,
        fun name isNamed => ?_⟩
      rcases supplied.leads name isNamed with ⟨known, subset, isKnown⟩
      exact ⟨known, filledEq ▸ subset, isMore name known isKnown⟩
    · simp only [filledBehind_concat, Instruction.leaves, filledEq]
      cases labelEq : instruction.label? with
      | none => rfl
      | some name =>
        rcases supplied.leads name (.inl labelEq) with ⟨known, _, isKnown⟩
        simp only [isKnown, isMore name known isKnown]

/-! ## Ways through code -/

/-- The registers that are filled when control gets to a line. -/
def filledAt (count : Nat) (facts : String → Option (Set Nat)) (code : List Instruction)
    (place : Nat) : Set Nat :=
  match (code[place]?).bind Instruction.label? with
  | some name => (facts name).getD ∅
  | none => filledBehind count facts (code.take place)

variable {place next : Nat}

theorem Supplies.supplied_at (supplies : Supplies count facts code)
    (found : code[place]? = some instruction) :
    instruction.Supplied count facts (filledBehind count facts (code.take place)) := by
  rcases List.getElem?_eq_some_iff.mp found with ⟨inRange, rfl⟩
  refine supplies _ _ (code.drop (place + 1)) ?_
  rw [List.getElem_cons_drop, List.take_append_drop]

theorem filledAt_of_label {name : String} (found : code[place]? = some (.label name)) :
    filledAt count facts code place = (facts name).getD ∅ := by
  simp [filledAt, found, Instruction.label?]

theorem filledAt_of_not_label (found : code[place]? = some instruction)
    (notLabel : instruction.label? = none) :
    filledAt count facts code place = filledBehind count facts (code.take place) := by
  simp [filledAt, found, notLabel]

theorem Supplies.filledAt_subset (supplies : Supplies count facts code) :
    filledAt count facts code place ⊆ filledBehind count facts (code.take place) := by
  unfold filledAt
  split
  next name isLabel =>
    rcases Option.bind_eq_some_iff.mp isLabel with ⟨instruction, found, labelEq⟩
    rcases (supplies.supplied_at found).leads name (.inl labelEq) with ⟨known, subset, isKnown⟩
    rw [isKnown, Option.getD_some]
    exact subset
  next => exact fun _ isFilled => isFilled

/-- What is filled at a line was filled at the line from which control comes, or was put there; and
that line does not call. -/
theorem Supplies.filledAt_of_flows (supplies : Supplies count facts code)
    (flows : Flows code place next) (isFilled : index ∈ filledAt count facts code next) :
    ∃ instruction, code[place]? = some instruction ∧ instruction.isCall = false ∧
      (index ∈ filledAt count facts code place ∨ instruction.writes? = some (.general index)) := by
  cases flows with
  | @onward instruction found goesOn =>
    have isBehind := supplies.filledAt_subset isFilled
    have takeEq : code.take (place + 1) = code.take place ++ [instruction] := by
      rw [List.take_add_one, found, Option.toList_some]
    rw [takeEq, filledBehind_concat, Instruction.leaves, goesOn] at isBehind
    refine ⟨instruction, found, ?_⟩
    cases isCall : instruction.isCall with
    | true =>
      rw [isCall] at isBehind
      exact isBehind.elim
    | false =>
      refine ⟨rfl, ?_⟩
      rw [isCall] at isBehind
      cases labelEq : instruction.label? with
      | some name =>
        rw [labelEq] at isBehind
        rw [Instruction.label?_eq_some.mp labelEq] at found
        exact .inl (filledAt_of_label found ▸ isBehind)
      | none =>
        rw [labelEq] at isBehind
        rw [filledAt_of_not_label found labelEq]
        exact isBehind
  | @jump _ instruction name found leads isThere =>
    rw [filledAt_of_label isThere] at isFilled
    rcases (supplies.supplied_at found).leads name (.inr leads) with ⟨known, subset, isKnown⟩
    rw [isKnown, Option.getD_some] at isFilled
    have wasFilled := subset isFilled
    have jumps : instruction.label? = none ∧ instruction.isCall = false := by
      cases instruction <;> simp_all [Instruction.target?, Instruction.label?, Instruction.isCall]
    exact ⟨instruction, found, jumps.2, .inl (filledAt_of_not_label found jumps.1 ▸ wasFilled)⟩

/-- On every way from a call to a line that uses a register, the register is filled again. -/
theorem Supplies.refills (supplies : Supplies count facts code) {start : Nat} {call : Instruction}
    (isThere : code[start]? = some call) (isCall : call.isCall = true) {between : List Nat}
    (way : (start :: (between ++ [place])).IsChain (Flows code))
    (found : code[place]? = some instruction) (isRead : .general index ∈ instruction.reads) :
    ∃ middle ∈ between, ∃ other,
      code[middle]? = some other ∧ other.writes? = some (.general index) := by
  have notLabel : instruction.label? = none := by
    cases instruction <;> simp_all [Instruction.reads, Instruction.label?]
  have isFilled : index ∈ filledAt count facts code place := by
    rw [filledAt_of_not_label found notLabel]
    exact (supplies.supplied_at found).reads index isRead
  clear found isRead notLabel
  induction between using List.reverseRecOn generalizing place with
  | nil =>
    have flows := (List.isChain_cons_cons.mp way).1
    rcases supplies.filledAt_of_flows flows isFilled with ⟨other, otherFound, notCall, _⟩
    obtain rfl := Option.some.inj (isThere.symm.trans otherFound)
    simp [isCall] at notCall
  | append_singleton between middle ih =>
    rw [List.append_assoc, List.singleton_append, ← List.cons_append,
      List.isChain_append_cons_cons] at way
    rcases way with ⟨early, flows, -⟩
    rcases supplies.filledAt_of_flows flows isFilled with
      ⟨other, otherFound, _, wasFilled | isWritten⟩
    · rcases ih early wasFilled with ⟨earlier, isEarlier, writes⟩
      exact ⟨earlier, List.mem_append_left _ isEarlier, writes⟩
    · exact ⟨middle, by simp, other, otherFound, isWritten⟩

end

end Decaf
