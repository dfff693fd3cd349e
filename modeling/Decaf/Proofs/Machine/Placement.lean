import Decaf.Machine.Label
import Decaf.Proofs.Machine.Execution
import Mathlib.Data.List.Nodup
import Mathlib.Data.Option.Defs

/-!
# Blocks of code in their place

A block of code stands somewhere in a larger piece of code. It is run from its first instruction on,
and its jumps stay inside as long as no label is defined twice.
-/

namespace Decaf

theorem Label.inner_injective {number other : Nat} (same : Label.inner number = Label.inner other) :
    number = other := by
  have digits : ∀ count : Nat, (Label.inner count).toList = 'L' :: Nat.toDigits 10 count := by
    intro count
    have written : Label.inner count = "L" ++ String.ofList (Nat.toDigits 10 count) :=
      congrArg ("L" ++ ·) Nat.repr_eq_ofList_toDigits
    simp [written]
  have sameDigits := congrArg String.toList same
  rw [digits, digits, List.cons.injEq] at sameDigits
  have sameValue := congrArg (fun written => Nat.ofDigitChars 10 written 0) sameDigits.2
  rwa [Nat.ofDigitChars_toDigits (by decide) (by decide),
    Nat.ofDigitChars_toDigits (by decide) (by decide)] at sameValue

/-- Methods have labels of their own. -/
theorem Label.method_ne_inner (className methodName : String) (number : Nat) :
    Label.method className methodName ≠ Label.inner number := by
  intro same
  have heads := congrArg (fun label => label.toList.head?) same
  have methodLetter : (toString "M_").toList.head? = some 'M' := by decide
  have innerLetter : (toString "L").toList.head? = some 'L' := by decide
  simp [Label.method, Label.inner, methodLetter, innerLetter] at heads

namespace Instruction

/-- The label that a line defines. -/
def label? : Instruction → Option String
  | .label name => some name
  | _ => none

/-- The label that an instruction may jump to. -/
def target? : Instruction → Option String
  | .jump name | .branchIfZero _ name | .branchIfNonzero _ name => some name
  | _ => none

theorem label?_eq_some {instruction : Instruction} {name : String} :
    instruction.label? = some name ↔ instruction = .label name := by
  cases instruction <;> simp [label?]

end Instruction

/-- The labels that code defines. -/
def labelsOf (code : List Instruction) : List String := code.filterMap Instruction.label?

/-- The labels that code may jump to. -/
def targetsOf (code : List Instruction) : List String := code.filterMap Instruction.target?

@[simp]
theorem labelsOf_append (code more : List Instruction) :
    labelsOf (code ++ more) = labelsOf code ++ labelsOf more :=
  List.filterMap_append

@[simp]
theorem targetsOf_append (code more : List Instruction) :
    targetsOf (code ++ more) = targetsOf code ++ targetsOf more :=
  List.filterMap_append

theorem mem_labelsOf {code : List Instruction} {name : String} :
    name ∈ labelsOf code ↔ .label name ∈ code := by
  simp [labelsOf, List.mem_filterMap, Instruction.label?_eq_some]

/-- A block stands in a longer list, its first item at a given place. -/
def Placed {Item : Type} (code : List Item) (first : Nat) (block : List Item) : Prop :=
  ∃ front behind, code = front ++ block ++ behind ∧ front.length = first

namespace Placed

variable {Item : Type} {code block more : List Item} {first : Nat}

theorem left (placed : Placed code first (block ++ more)) : Placed code first block := by
  rcases placed with ⟨front, behind, rfl, rfl⟩
  exact ⟨front, more ++ behind, by simp, rfl⟩

theorem right (placed : Placed code first (block ++ more)) :
    Placed code (first + block.length) more := by
  rcases placed with ⟨front, behind, rfl, rfl⟩
  exact ⟨front ++ block, behind, by simp, by simp⟩

theorem head {item : Item} (placed : Placed code first (item :: block)) :
    code[first]? = some item := by
  rcases placed with ⟨front, behind, rfl, rfl⟩
  simp

theorem tail {item : Item} (placed : Placed code first (item :: block)) :
    Placed code (first + 1) block :=
  @right Item code [item] block first placed

theorem whole (code : List Item) : Placed code 0 code := ⟨[], [], by simp, rfl⟩

end Placed

/-- A label that is defined once is found where it is defined. -/
theorem idxOf?_label {code : List Instruction} (distinct : (labelsOf code).Nodup) {name : String}
    {place : Nat} (found : code[place]? = some (.label name)) :
    code.idxOf? (.label name) = some place := by
  induction code generalizing place with
  | nil => simp at found
  | cons instruction code ih =>
    rw [List.idxOf?_cons]
    cases place with
    | zero =>
      rw [List.getElem?_cons_zero, Option.some.injEq] at found
      simp [found]
    | succ place =>
      rw [List.getElem?_cons_succ] at found
      have differs : instruction ≠ .label name := by
        rintro rfl
        have again := mem_labelsOf.mpr (List.mem_of_getElem? found)
        exact (List.nodup_cons.mp distinct).1 again
      have rest : (labelsOf code).Nodup := by
        refine distinct.sublist (List.Sublist.filterMap _ (List.sublist_cons_self _ _))
      simp [differs, ih rest found]

namespace Running

variable {primitives : Primitives} {code block more : List Instruction} {first last : Nat}

theorem goTo_eq (distinct : (labelsOf code).Nodup) {name : String} {place : Nat}
    (found : code[place]? = some (.label name)) (running : Running) :
    running.goTo code name = some { running with counter := place } := by
  rw [goTo, idxOf?_label distinct found, Option.map_some]

/-- The machine gets to an instruction in an expected state; where none is expected it stops
before. -/
def Arrives {Result : Type} (primitives : Primitives) (code : List Instruction) (running : Running)
    (counter : Nat) (expected : Option Result) (holds : Result → Machine → Prop) : Prop :=
  match expected with
  | some result =>
    ∃ machine, Reaches primitives code running ⟨counter, machine⟩ ∧ holds result machine
  | none => StopsBefore primitives code running counter

section

variable {Result Next : Type} {running : Running} {counter : Nat} {expected : Option Result}
  {holds : Result → Machine → Prop}
variable {between : Running} {later : Nat} {machine : Machine}

theorem Arrives.map {change : Result → Next} {weaker : Next → Machine → Prop}
    (arrives : Arrives primitives code running counter expected holds)
    (weaken : ∀ result machine, holds result machine → weaker (change result) machine) :
    Arrives primitives code running counter (expected.map change) weaker := by
  cases expected with
  | none => exact arrives
  | some result =>
    rcases arrives with ⟨machine, reaches, isHeld⟩
    exact ⟨machine, reaches, weaken result machine isHeld⟩

theorem Arrives.of_map {change : Next → Result} {outcome : Option Next}
    (arrives : Arrives primitives code running counter (outcome.map change) holds) :
    Arrives primitives code running counter outcome fun result machine =>
      holds (change result) machine := by
  cases outcome with
  | none => exact arrives
  | some result => exact arrives

/-- The same, when what is expected is related to something else. -/
theorem Arrives.of_rel {related : Next → Result → Prop} {outcome : Option Next}
    {weaker : Next → Machine → Prop} (rel : Option.Rel related outcome expected)
    (arrives : Arrives primitives code running counter expected holds)
    (weaken : ∀ other result machine, related other result → holds result machine →
      weaker other machine) :
    Arrives primitives code running counter outcome weaker := by
  cases rel with
  | none => exact arrives
  | some isRelated =>
    rcases arrives with ⟨machine, reaches, isHeld⟩
    exact ⟨machine, reaches, weaken _ _ machine isRelated isHeld⟩

theorem Arrives.of_reaches (reaches : Reaches primitives code running between)
    (arrives : Arrives primitives code between counter expected holds) :
    Arrives primitives code running counter expected holds := by
  cases expected with
  | none => exact StopsBefore.of_reaches reaches arrives
  | some result =>
    rcases arrives with ⟨machine, rest, isHeld⟩
    exact ⟨machine, reaches.trans rest, isHeld⟩

theorem Arrives.bind {next : Result → Option Next} {final : Next → Machine → Prop}
    (arrives : Arrives primitives code running counter expected holds)
    (notEarlier : counter ≤ later)
    (rest : ∀ result machine, expected = some result → holds result machine →
      Arrives primitives code ⟨counter, machine⟩ later (next result) final) :
    Arrives primitives code running later (expected.bind next) final := by
  cases expected with
  | none => exact StopsBefore.mono arrives notEarlier
  | some result =>
    rcases arrives with ⟨machine, reaches, isHeld⟩
    exact .of_reaches reaches (rest result machine rfl isHeld)

theorem Arrives.onward {change : Result → Next} {final : Next → Machine → Prop}
    (arrives : Arrives primitives code running counter expected holds)
    (notEarlier : counter ≤ later)
    (rest : ∀ result machine, holds result machine →
      Arrives primitives code ⟨counter, machine⟩ later (some (change result)) final) :
    Arrives primitives code running later (expected.map change) final := by
  rw [Option.map_eq_bind]
  exact arrives.bind notEarlier fun result machine _ isHeld => rest result machine isHeld

theorem Arrives.here {result : Result} (isHeld : holds result machine) :
    Arrives primitives code ⟨counter, machine⟩ counter (some result) holds :=
  ⟨machine, .refl, isHeld⟩

/-- The machine stops where it is. -/
theorem Arrives.stuck (notYet : running.counter < counter)
    (stops : running.next? primitives code = none) :
    Arrives primitives code running counter none holds :=
  ⟨running, .refl, notYet, stops⟩

/-- One step on the way. -/
theorem Arrives.step (isNext : running.next? primitives code = some between)
    (arrives : Arrives primitives code between counter expected holds) :
    Arrives primitives code running counter expected holds :=
  .of_reaches (.single isNext) arrives

/-- A block without jumps is run from its start to its end. -/
theorem arrives_of_straight {block : List Instruction}
    (isStraight : ∀ instruction ∈ block, instruction.IsStraight) (placed : Placed code first block)
    (leads : Machine.Leads (machine.execute primitives block) expected holds) :
    Arrives primitives code ⟨first, machine⟩ (first + block.length) expected holds := by
  rcases placed with ⟨front, behind, codeEq, rfl⟩
  have ran := @run_straight primitives code block isStraight front behind codeEq machine
  cases expected with
  | none =>
    have stopped : machine.execute primitives block = none := leads
    rw [stopped] at ran
    exact ran
  | some result =>
    rcases leads with ⟨last, executed, isHeld⟩
    rw [executed] at ran
    exact ⟨last, ran, isHeld⟩

end

end Running

end Decaf
