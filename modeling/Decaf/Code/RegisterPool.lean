import Decaf.Machine.Instruction
import Decaf.Ordered

/-!
# The register pool

The values of subexpressions that wait for their use are temporaries. A temporary lives in a
register or, once registers run short, in a spill slot of the frame. Making a temporary takes the
lowest free register; when there is none, the temporary that has been in its register for the
longest time is spilled, unless it is pinned. Temporaries are pinned while an instruction is put
together from them, so that its operands do not push each other out. Every operation may emit stores
to and loads from spill slots, and what it did stays done when it fails.

The pool may have more registers than an instruction can name. The names then start again from the
first one, so that a register that counts as free can go by the name of one that is in use.
-/

namespace Decaf

/-- The value of a subexpression that waits for its use. -/
structure Temporary where
  /-- Position in the order in which the temporaries of a method were made. -/
  index : Nat
  deriving DecidableEq, Repr, Inhabited

/-- A temporary in a register. -/
structure Resident where
  temporary : Temporary
  /-- When it came into its register. -/
  arrival : Nat
  /-- Whether it has to stay there. -/
  isPinned : Bool
  deriving DecidableEq, Repr

/-- A temporary in a spill slot. -/
structure Spilled where
  temporary : Temporary
  /-- Its slot, counted from the first spill slot of the frame. -/
  slot : Nat
  deriving DecidableEq, Repr

/-- The registers and the spill slots of a method under construction. Numbers have no bound here.
Where slots and temporaries are numbered by words of 32 bits, a pool stands for methods in which
`nextTemporary` and the end of the frame, `spillBase + slotCount`, stay below 2 ^ 32. -/
structure RegisterPool where
  /-- What each register holds, by register number. -/
  registers : List (Option Resident)
  /-- Temporaries whose register was given away under the same name, each with that register. There
  are none as long as every register has a name of its own. -/
  overlaid : List (Nat × Resident)
  /-- The spilled temporaries, the last one first. -/
  spilled : List Spilled
  /-- Spill slots that are in use no more, in the order in which they will be used again. -/
  freeSlots : List Nat
  /-- How many spill slots there are. -/
  slotCount : Nat
  /-- How often a temporary was spilled. -/
  spillCount : Nat
  /-- The number of the next temporary. -/
  nextTemporary : Nat
  /-- How often a temporary came into a register. -/
  clock : Nat
  /-- The frame slot of the first spill slot. -/
  spillBase : Nat
  deriving DecidableEq, Repr, Inhabited

/-- Why an operation on the pool fails. -/
inductive PoolFault where
  /-- Every register holds a pinned temporary. -/
  | allPinned (registerCount : Nat)
  /-- The register that has to be cleared holds a pinned temporary. -/
  | pinnedRegister (index : Nat)
  /-- A temporary is used that was released before. -/
  | notLive (temporary : Temporary)
  deriving DecidableEq, Repr

namespace PoolFault

/-- The wording of a fault. -/
def message : PoolFault → String
  | .allPinned registerCount => s!"all {registerCount} registers are pinned by one expression"
  | .pinnedRegister index => s!"register r{index} is pinned"
  | .notLive temporary => s!"value {temporary.index} is not live"

end PoolFault

namespace RegisterPool

/-- A pool in use together with the instructions that an operation emits. -/
structure Session where
  pool : RegisterPool
  /-- The instructions emitted so far. -/
  code : Array Instruction
  deriving DecidableEq, Repr, Inhabited

/-- An operation on the pool: it may fail, but what it did before stays done. -/
abbrev Operation := ExceptT PoolFault (StateM Session)

/-- A pool of free registers; spilled temporaries go to frame slots from `spillBase` on. -/
def start (registerCount spillBase : Nat) : RegisterPool where
  registers := List.replicate registerCount none
  overlaid := []
  spilled := []
  freeSlots := []
  slotCount := 0
  spillCount := 0
  nextTemporary := 0
  clock := 0
  spillBase := spillBase

/-- How many registers there are. -/
def registerCount (pool : RegisterPool) : Nat := pool.registers.length

/-- The temporaries in registers, each with its register: by register number, and then those
overlaid. -/
def residents (pool : RegisterPool) : List (Nat × Resident) :=
  (pool.registers.zipIdx.filterMap fun (content, register) =>
    content.map fun resident => (register, resident)) ++ pool.overlaid

/-- How many temporaries wait for their use. -/
def liveCount (pool : RegisterPool) : Nat := pool.residents.length + pool.spilled.length

/-- The name of the lowest free register. -/
def freeRegister? (pool : RegisterPool) : Option Nat :=
  (pool.registers.findIdx? Option.isNone).map fun register => register % Register.nameCount

/-- The register that holds a temporary. -/
def registerOf? (pool : RegisterPool) (temporary : Temporary) : Option Nat :=
  (pool.residents.find? fun (_, resident) => resident.temporary = temporary).map Prod.fst

/-- The spill slot that holds a temporary. -/
def slotOf? (pool : RegisterPool) (temporary : Temporary) : Option Nat :=
  (pool.spilled.find? fun entry => entry.temporary = temporary).map Spilled.slot

/-- What a register holds. -/
def content? (pool : RegisterPool) (register : Nat) : Option Resident :=
  pool.registers[register]?.join

/-- Of two residents, the one that came first. -/
def earlier (first second : Nat × Resident) : Nat × Resident :=
  if second.2.arrival < first.2.arrival then second else first

/-- The temporary that is spilled when a register is needed, with its register: of those not pinned,
the one that has been in its register for the longest time. -/
def victim? (pool : RegisterPool) : Option (Nat × Resident) :=
  match pool.residents.filter fun (_, resident) => !resident.isPinned with
  | [] => none
  | first :: rest => some (rest.foldl earlier first)

/-- The overlaid temporaries when a register is given away as it is. -/
def overlay (pool : RegisterPool) (register : Nat) : List (Nat × Resident) :=
  ((pool.content? register).map fun resident => (register, resident)).toList ++ pool.overlaid

/-- The pool with a temporary in a register, pinned there. -/
def settle (pool : RegisterPool) (register : Nat) (temporary : Temporary) : RegisterPool :=
  { pool with
    registers := pool.registers.set register (some ⟨temporary, pool.clock + 1, true⟩)
    overlaid := pool.overlay register
    clock := pool.clock + 1 }

/-- The pool with the register of a temporary free, and the temporary in no register. -/
def vacated (pool : RegisterPool) (register : Nat) (temporary : Temporary) : RegisterPool :=
  { pool with
    registers := pool.registers.set register none
    overlaid := (pool.overlay register).filter fun (_, resident) => resident.temporary ≠ temporary }

/-- The pool with a temporary moved out of its register into a spill slot: a slot that is in use no
more, or else a new one. -/
def moveOut (pool : RegisterPool) (register : Nat) (temporary : Temporary) : Nat × RegisterPool :=
  let moved := { pool.vacated register temporary with spillCount := pool.spillCount + 1 }
  match pool.freeSlots with
  | slot :: rest =>
    (slot, { moved with spilled := ⟨temporary, slot⟩ :: pool.spilled, freeSlots := rest })
  | [] =>
    (pool.slotCount,
      { moved with
        spilled := ⟨temporary, pool.slotCount⟩ :: pool.spilled
        slotCount := pool.slotCount + 1 })

/-- Spills the temporary that a register holds. -/
def spill (register : Nat) (temporary : Temporary) : Operation Unit := do
  let session ← get
  let (slot, pool) := session.pool.moveOut register temporary
  set (Session.mk pool
    (session.code.push (.storeStack (pool.spillBase + slot) (.general register))))

/-- Spills one temporary to clear a register. -/
def evict : Operation Nat := do
  let pool := (← get).pool
  match pool.victim? with
  | none => throw (.allPinned pool.registerCount)
  | some (register, resident) =>
    spill register resident.temporary
    return register

/-- A register to put something into: a free one, or else one that is cleared. -/
def vacate : Operation Nat := do
  match (← get).pool.freeRegister? with
  | some register => return register
  | none => evict

/-- Makes a temporary in a register that is free. -/
def occupy (register : Nat) : Operation (Temporary × Register) := do
  let session ← get
  let temporary : Temporary := ⟨session.pool.nextTemporary⟩
  let pool := session.pool.settle register temporary
  set { session with pool := { pool with nextTemporary := pool.nextTemporary + 1 } }
  return (temporary, .general register)

/-- Makes a temporary; it is pinned. -/
def acquire : Operation (Temporary × Register) := do
  let register ← vacate
  occupy register

/-- Makes a temporary in a given register, moving out what the register holds. -/
def acquireSpecific (register : Nat) : Operation (Temporary × Register) := do
  match (← get).pool.content? register with
  | none => pure ()
  | some resident =>
    if resident.isPinned then throw (.pinnedRegister register)
    spill register resident.temporary
  occupy register

/-- Changes what is on record about every temporary in a register. -/
def mapResidents (change : Resident → Resident) (pool : RegisterPool) : RegisterPool :=
  { pool with
    registers := pool.registers.map (Option.map change)
    overlaid := pool.overlaid.map fun (register, resident) => (register, change resident) }

/-- Pins a temporary if it is in a register; one in a spill slot is pinned when it comes back. -/
def pin (pool : RegisterPool) (temporary : Temporary) : RegisterPool :=
  pool.mapResidents fun resident =>
    if resident.temporary = temporary then { resident with isPinned := true } else resident

/-- Brings a spilled temporary back into a register; its slot is free from then on. -/
def reload (temporary : Temporary) (slot : Nat) : Operation Register := do
  let register ← vacate
  modify fun session =>
    let pool := session.pool.settle register temporary
    { pool := { pool with
        spilled := pool.spilled.eraseP fun entry => entry.temporary = temporary
        freeSlots := slot :: pool.freeSlots }
      code := session.code.push (.loadStack (.general register) (pool.spillBase + slot)) }
  return .general register

/-- The register of a temporary, which is brought back if it was spilled. -/
def fetch (temporary : Temporary) : Operation Register := do
  let pool := (← get).pool
  match pool.registerOf? temporary with
  | some register => return .general register
  | none =>
    match pool.slotOf? temporary with
    | some slot => reload temporary slot
    | none => throw (.notLive temporary)

/-- Pins temporaries that are about to be used together. -/
def pinAll (temporaries : List Temporary) : Operation Unit :=
  modify fun session => { session with pool := temporaries.foldl pin session.pool }

/-- Brings all the given temporaries into registers at once. They are pinned before any of them is
moved. -/
def load (temporaries : List Temporary) : Operation (List Register) := do
  pinAll temporaries
  temporaries.mapM fetch

/-- Brings one temporary into a register and pins it. -/
def loadOne (temporary : Temporary) : Operation Register := do
  pinAll [temporary]
  fetch temporary

/-- Brings two temporaries into registers at once and pins them. -/
def loadPair (left right : Temporary) : Operation (Register × Register) := do
  pinAll [left, right]
  let leftRegister ← fetch left
  let rightRegister ← fetch right
  return (leftRegister, rightRegister)

/-- Gives up the place of a temporary; one that has none is left alone. -/
def release (pool : RegisterPool) (temporary : Temporary) : RegisterPool :=
  match pool.registerOf? temporary with
  | some register => pool.vacated register temporary
  | none =>
    match pool.slotOf? temporary with
    | some slot =>
      { pool with
        spilled := pool.spilled.eraseP fun entry => entry.temporary = temporary
        freeSlots := slot :: pool.freeSlots }
    | none => pool

/-- Spills every temporary in a register but the given ones, the oldest first. -/
def spillAllExcept (kept : List Temporary) : Operation Unit := do
  let residents := (← get).pool.residents.filter fun (_, resident) =>
    !kept.contains resident.temporary
  let ordered := sortBy (fun left right => left.2.arrival ≤ right.2.arrival) residents
  ordered.forM fun (register, resident) => spill register resident.temporary

/-- Lets every temporary be spilled again. -/
def unpinAll (pool : RegisterPool) : RegisterPool :=
  pool.mapResidents fun resident => { resident with isPinned := false }

end RegisterPool

end Decaf
