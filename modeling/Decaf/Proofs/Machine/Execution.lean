import Decaf.Machine.Instruction
import Mathlib.Logic.Function.Basic
import Mathlib.Logic.Relation

/-!
# Registers, frame slots and running code

The part of a machine state that the register pool deals with: what the registers and the slots of
the current frame hold. The pool moves words between the two and nowhere else.
-/

namespace Decaf

/-- What the registers and the slots of a frame hold. -/
structure Store (Word : Type) where
  /-- The word in each register. -/
  registers : Register → Word
  /-- The word in each frame slot. -/
  slots : Nat → Word

namespace Store

variable {Word : Type}

/-- Sets a register. -/
def setRegister (store : Store Word) (target : Register) (word : Word) : Store Word :=
  { store with registers := Function.update store.registers target word }

/-- Sets a frame slot. -/
def setSlot (store : Store Word) (slot : Nat) (word : Word) : Store Word :=
  { store with slots := Function.update store.slots slot word }

/-- The effect of a move between a register and a frame slot; other instructions have none here. -/
def move (store : Store Word) : Instruction → Store Word
  | .storeStack slot source => store.setSlot slot (store.registers source)
  | .loadStack target slot => store.setRegister target (store.slots slot)
  | _ => store

/-- The effect of moves one after the other. -/
def run (store : Store Word) (moves : List Instruction) : Store Word := moves.foldl move store

@[simp]
theorem registers_setRegister (store : Store Word) (target other : Register) (word : Word) :
    (store.setRegister target word).registers other =
      if other = target then word else store.registers other := by
  simp [setRegister, Function.update_apply]

@[simp]
theorem slots_setRegister (store : Store Word) (target : Register) (word : Word) :
    (store.setRegister target word).slots = store.slots :=
  rfl

@[simp]
theorem slots_setSlot (store : Store Word) (slot other : Nat) (word : Word) :
    (store.setSlot slot word).slots other = if other = slot then word else store.slots other := by
  simp [setSlot, Function.update_apply]

@[simp]
theorem run_nil (store : Store Word) : store.run [] = store :=
  rfl

@[simp]
theorem run_cons (store : Store Word) (move : Instruction) (moves : List Instruction) :
    store.run (move :: moves) = (store.move move).run moves :=
  rfl

@[simp]
theorem run_append (store : Store Word) (first second : List Instruction) :
    store.run (first ++ second) = (store.run first).run second :=
  List.foldl_append

end Store

/-!
## Running code

The part of the machine that code without calls, allocation and output needs: a program counter,
registers and frame slots, the static area and the heap. What the listing leaves open, that is how
doubles are calculated with and where the constant strings are, is a parameter. An instruction that
is given a word of the wrong kind, reads or writes through `null`, or divides by zero stops the
machine.
-/

/-- A word of the machine. Truth values are the integers 0 and 1, and `null` is the integer 0. -/
inductive Word where
  | int (value : Int32)
  | double (value : Binary64)
  /-- The address of a string. -/
  | text (address : Nat)
  /-- The address of an object. -/
  | object (address : Nat)
  deriving DecidableEq, Repr

namespace Word

/-- Truth values are the integers 1 and 0. -/
def ofBool (value : Bool) : Word := .int (if value then 1 else 0)

/-- The reference to no object. -/
def null : Word := .int 0

/-- Whether two words are the same reference or the same integer; doubles are not compared this
way. -/
def same? : Word → Word → Option Bool
  | .double _, _ | _, .double _ => none
  | left, right => some (left = right)

end Word

/-- What the listing leaves open. -/
structure Primitives where
  calculate : BinaryOpcode → Binary64 → Binary64 → Binary64
  compare : BinaryOpcode → Binary64 → Binary64 → Bool
  negate : Binary64 → Binary64
  textAddress : String → Nat

namespace Primitives

variable (primitives : Primitives)

/-- An operation on two words. Integers wrap around. -/
def binary (opcode : BinaryOpcode) (left right : Word) : Option Word :=
  match opcode, left, right with
  | .iadd, .int left, .int right => some (.int (left + right))
  | .isub, .int left, .int right => some (.int (left - right))
  | .imul, .int left, .int right => some (.int (left * right))
  | .idiv, .int left, .int right => if right = 0 then none else some (.int (left / right))
  | .ilt, .int left, .int right => some (.ofBool (left < right))
  | .ileq, .int left, .int right => some (.ofBool (left ≤ right))
  | .igt, .int left, .int right => some (.ofBool (right < left))
  | .igeq, .int left, .int right => some (.ofBool (right ≤ left))
  | .ieq, left, right => (left.same? right).map .ofBool
  | .ine, left, right => (left.same? right).map fun same => .ofBool !same
  | .fadd, .double left, .double right => some (.double (primitives.calculate .fadd left right))
  | .fsub, .double left, .double right => some (.double (primitives.calculate .fsub left right))
  | .fmul, .double left, .double right => some (.double (primitives.calculate .fmul left right))
  | .fdiv, .double left, .double right => some (.double (primitives.calculate .fdiv left right))
  | .flt, .double left, .double right => some (.ofBool (primitives.compare .flt left right))
  | .fleq, .double left, .double right => some (.ofBool (primitives.compare .fleq left right))
  | .fgt, .double left, .double right => some (.ofBool (primitives.compare .fgt left right))
  | .fgeq, .double left, .double right => some (.ofBool (primitives.compare .fgeq left right))
  | .feq, .double left, .double right => some (.ofBool (primitives.compare .feq left right))
  | .fne, .double left, .double right => some (.ofBool (primitives.compare .fne left right))
  | _, _, _ => none

/-- An operation on one word. -/
def unary (opcode : UnaryOpcode) (source : Word) : Option Word :=
  match opcode, source with
  | .ineg, .int value => some (.int (-value))
  | .fneg, .double value => some (.double (primitives.negate value))
  | .not, .int value => some (.ofBool (value = 0))
  | _, _ => none

end Primitives

/-- What the machine's memory and registers hold. -/
structure Machine where
  store : Store Word
  /-- The static fields. -/
  area : Nat → Word
  /-- The words of the objects, by address and offset. -/
  heap : Nat → Nat → Word

namespace Machine

/-- What a register holds. -/
def register (machine : Machine) (source : Register) : Word := machine.store.registers source

/-- Sets a register. -/
def put (machine : Machine) (target : Register) (word : Word) : Machine :=
  { machine with store := machine.store.setRegister target word }

/-- What an instruction does that passes control on to the next one. -/
def effect (primitives : Primitives) (machine : Machine) : Instruction → Option Machine
  | .label _ => some machine
  | .moveInt target value => some (machine.put target (.int value))
  | .moveDouble target value => some (machine.put target (.double value))
  | .moveString target value => some (machine.put target (.text (primitives.textAddress value)))
  | .move target source => some (machine.put target (machine.register source))
  | .loadStack target slot => some (machine.put target (machine.store.slots slot))
  | .storeStack slot source =>
    some { machine with store := machine.store.setSlot slot (machine.register source) }
  | .loadStatic target offset => some (machine.put target (machine.area offset))
  | .storeStatic offset source =>
    some { machine with area := Function.update machine.area offset (machine.register source) }
  | .loadHeap target base offset =>
    match machine.register base with
    | .object address => some (machine.put target (machine.heap address offset))
    | _ => none
  | .storeHeap base offset source =>
    match machine.register base with
    | .object address =>
      let words := Function.update (machine.heap address) offset (machine.register source)
      some { machine with heap := Function.update machine.heap address words }
    | _ => none
  | .binary opcode target left right =>
    (primitives.binary opcode (machine.register left) (machine.register right)).map
      (machine.put target)
  | .unary opcode target source =>
    (primitives.unary opcode (machine.register source)).map (machine.put target)
  | _ => none

/-- What instructions do one after the other. -/
def execute (primitives : Primitives) (machine : Machine) (code : List Instruction) :
    Option Machine :=
  code.foldlM (effect primitives) machine

end Machine

namespace Instruction

/-- Whether control passes on to the next instruction. -/
def IsStraight : Instruction → Prop
  | .jump _ | .branchIfZero .. | .branchIfNonzero .. => False
  | _ => True

end Instruction

/-- A machine that runs code. -/
structure Running where
  /-- The number of the next instruction. -/
  counter : Nat
  machine : Machine

namespace Running

/-- Goes on behind a label. -/
def goTo (code : List Instruction) (running : Running) (name : String) : Option Running :=
  (code.idxOf? (.label name)).map fun counter => { running with counter }

/-- Goes on behind a label if a word is false or if it is true, and else with the next
instruction. -/
def branch (code : List Instruction) (running : Running) (condition : Register) (name : String)
    (onZero : Bool) : Option Running :=
  match running.machine.register condition with
  | .int value =>
    if (value = 0) = onZero then running.goTo code name
    else some { running with counter := running.counter + 1 }
  | _ => none

/-- One step; there is none where the machine has stopped. -/
def next? (primitives : Primitives) (code : List Instruction) (running : Running) :
    Option Running :=
  match code[running.counter]? with
  | none => none
  | some (.jump name) => running.goTo code name
  | some (.branchIfZero condition name) => running.branch code condition name true
  | some (.branchIfNonzero condition name) => running.branch code condition name false
  | some instruction =>
    (running.machine.effect primitives instruction).map fun machine =>
      ⟨running.counter + 1, machine⟩

/-- From one state the machine comes to another one. -/
def Reaches (primitives : Primitives) (code : List Instruction) (first last : Running) : Prop :=
  Relation.ReflTransGen (fun running after => running.next? primitives code = some after) first last

/-- The machine stops before it gets to an instruction with a given number. -/
def StopsBefore (primitives : Primitives) (code : List Instruction) (running : Running)
    (bound : Nat) : Prop :=
  ∃ last, Reaches primitives code running last ∧ last.counter < bound ∧
    last.next? primitives code = none

end Running

namespace Machine

variable {primitives : Primitives} {machine : Machine}
variable {Result Next : Type} {outcome : Option Machine} {code more : List Instruction}

@[simp]
theorem execute_nil : machine.execute primitives [] = some machine := rfl

@[simp]
theorem execute_cons (instruction : Instruction) (code : List Instruction) :
    machine.execute primitives (instruction :: code) =
      (machine.effect primitives instruction).bind fun after => after.execute primitives code := by
  simp [execute, List.foldlM_cons]

theorem execute_append (code more : List Instruction) :
    machine.execute primitives (code ++ more) =
      (machine.execute primitives code).bind fun after => after.execute primitives more := by
  simp [execute, List.foldlM_append]

/-- The outcome of running code is the expected one: a state with the right contents, or none. -/
def Leads {Result : Type} (outcome : Option Machine) (expected : Option Result)
    (holds : Result → Machine → Prop) : Prop :=
  match expected with
  | some result => ∃ last, outcome = some last ∧ holds result last
  | none => outcome = none

theorem Leads.mono {expected : Option Result}
    {holds weaker : Result → Machine → Prop} (leads : Leads outcome expected holds)
    (weaken : ∀ result last, expected = some result → holds result last → weaker result last) :
    Leads outcome expected weaker := by
  cases expected with
  | none => exact leads
  | some result =>
    rcases leads with ⟨last, ran, isHeld⟩
    exact ⟨last, ran, weaken result last rfl isHeld⟩

theorem Leads.bind {expected : Option Result} {next : Result → Option Next}
    {between : Result → Machine → Prop} {holds : Next → Machine → Prop}
    (first : Leads (machine.execute primitives code) expected between)
    (rest : ∀ result last, between result last →
      Leads (last.execute primitives more) (next result) holds) :
    Leads (machine.execute primitives (code ++ more)) (expected.bind next) holds := by
  rw [execute_append]
  cases expected with
  | none =>
    have ran : machine.execute primitives code = none := first
    simp [Leads, ran]
  | some result =>
    rcases first with ⟨last, ran, isHeld⟩
    rw [ran]
    exact rest result last isHeld

theorem Leads.map {expected : Option Result}
    {between : Result → Machine → Prop} {change : Result → Next} {holds : Next → Machine → Prop}
    (leads : Leads outcome expected between)
    (weaken : ∀ result last, between result last → holds (change result) last) :
    Leads outcome (expected.map change) holds := by
  cases expected with
  | none => exact leads
  | some result =>
    rcases leads with ⟨last, ran, isHeld⟩
    exact ⟨last, ran, weaken result last isHeld⟩

theorem Leads.behind {between : Machine}
    {expected : Option Result} {holds : Result → Machine → Prop}
    (ran : machine.execute primitives code = some between)
    (rest : Leads (between.execute primitives more) expected holds) :
    Leads (machine.execute primitives (code ++ more)) expected holds := by
  rw [execute_append, ran]
  exact rest

end Machine

namespace Running

open Machine

variable {primitives : Primitives} {machine : Machine} {code : List Instruction}

theorem next?_of_isStraight {counter : Nat} {instruction : Instruction}
    (found : code[counter]? = some instruction) (isStraight : instruction.IsStraight) :
    next? primitives code ⟨counter, machine⟩ =
      (machine.effect primitives instruction).map fun after => ⟨counter + 1, after⟩ := by
  unfold next?
  rw [found]
  cases instruction <;> first | rfl | exact isStraight.elim

/-- Straight code is executed from its start to its end, or stops the machine on the way. -/
theorem run_straight {block : List Instruction}
    (isStraight : ∀ instruction ∈ block, instruction.IsStraight) {front behind : List Instruction}
    (codeEq : code = front ++ block ++ behind) (machine : Machine) :
    match machine.execute primitives block with
    | some after =>
      Reaches primitives code ⟨front.length, machine⟩ ⟨front.length + block.length, after⟩
    | none =>
      StopsBefore primitives code ⟨front.length, machine⟩ (front.length + block.length) := by
  induction block generalizing front machine with
  | nil => exact .refl
  | cons instruction block ih =>
    have found : code[front.length]? = some instruction := by simp [codeEq]
    have isNext := @next?_of_isStraight primitives machine _ _ _ found (isStraight _ (by simp))
    rw [execute_cons]
    cases effectEq : machine.effect primitives instruction with
    | none =>
      refine ⟨_, .refl, by simp, ?_⟩
      rw [isNext, effectEq, Option.map_none]
    | some after =>
      rw [effectEq, Option.map_some] at isNext
      have rest := ih (fun other isOther => isStraight other (by simp [isOther]))
        (show code = (front ++ [instruction]) ++ block ++ behind by simp [codeEq]) after
      have lengthEq : front.length + (instruction :: block).length =
          (front ++ [instruction]).length + block.length := by
        simp only [List.length_cons, List.length_append, List.length_nil]
        omega
      have start : (front ++ [instruction]).length = front.length + 1 := by simp
      rw [Option.bind_some, lengthEq]
      cases executed : after.execute primitives block with
      | some last =>
        rw [executed, start] at rest
        exact .head isNext (start ▸ rest)
      | none =>
        rw [executed, start] at rest
        rcases rest with ⟨last, reaches, inFront, stopped⟩
        exact ⟨last, .head isNext reaches, start ▸ inFront, stopped⟩

theorem StopsBefore.of_reaches {first between : Running} {bound : Nat}
    (reaches : Reaches primitives code first between)
    (stops : StopsBefore primitives code between bound) :
    StopsBefore primitives code first bound := by
  rcases stops with ⟨last, rest, inFront, stopped⟩
  exact ⟨last, reaches.trans rest, inFront, stopped⟩

theorem StopsBefore.mono {running : Running} {bound larger : Nat}
    (stops : StopsBefore primitives code running bound) (isLarger : bound ≤ larger) :
    StopsBefore primitives code running larger := by
  rcases stops with ⟨last, reaches, inFront, stopped⟩
  exact ⟨last, reaches, by omega, stopped⟩

end Running

end Decaf
