import Mathlib.Data.List.Nodup
import Decaf.Proofs.Machine.Execution

/-!
# Making room for objects

The part of the machine that makes objects: registers and frame slots, the static area, and a heap
of words in which room for an object is found apart from all room that was given away before. Which
room that is is left to an allocator. A register can hold the address of a label as well, and a log
says what was written to the heap.
-/

namespace Decaf

/-- A word, or the address of labelled code or data. -/
inductive Content where
  | word (word : Word)
  | label (name : String)
  deriving DecidableEq

/-- A stretch of words on the heap. -/
structure Extent where
  start : Nat
  size : Nat
  deriving DecidableEq

namespace Extent

/-- The addresses of the words. -/
def places (extent : Extent) : List Nat := List.range' extent.start extent.size

/-- Two stretches have no word in common. -/
def Apart (first second : Extent) : Prop := first.places.Disjoint second.places

end Extent

/-- Finds room on the heap that is not in use. -/
structure Allocator where
  place : List Extent → Nat → Nat
  apart : ∀ (used : List Extent) (size : Nat), ∀ extent ∈ used, extent.Apart ⟨place used size, size⟩

namespace Allocator

/-- No used extent ends behind this address. -/
def sumOfEnds (used : List Extent) : Nat :=
  used.foldr (fun extent sum => extent.start + extent.size + sum) 0

theorem end_le_sumOfEnds {used : List Extent} {extent : Extent} (isUsed : extent ∈ used) :
    extent.start + extent.size ≤ sumOfEnds used := by
  induction used with
  | nil => cases isUsed
  | cons first rest ih =>
    rw [sumOfEnds, List.foldr_cons]
    rcases List.mem_cons.mp isUsed with rfl | isLater
    · exact Nat.le_add_right _ _
    · exact Nat.le_trans (ih isLater) (Nat.le_add_left _ _)

theorem apart_sumOfEnds (used : List Extent) (size : Nat) :
    ∀ extent ∈ used, extent.Apart ⟨sumOfEnds used, size⟩ := by
  intro extent isUsed place inOld inNew
  have beforeEnd : place < extent.start + extent.size := (List.mem_range'_1.mp inOld).2
  have behind : sumOfEnds used ≤ place := (List.mem_range'_1.mp inNew).1
  have isBelow := end_le_sumOfEnds isUsed
  omega

/-- Gives no room back: the next object goes behind the sum of all ends. -/
def bump : Allocator := ⟨fun used _ => sumOfEnds used, apart_sumOfEnds⟩

end Allocator

/-- What registers and memory hold, with the room that is in use. -/
structure ObjectMemory where
  store : Store Content
  area : Nat → Content
  heap : Nat → Content
  used : List Extent
  /-- The words written on the heap, the first one first. -/
  writes : List (Nat × Content)

namespace ObjectMemory

variable {allocator : Allocator} {memory before between after : ObjectMemory}
variable {entries : List (Nat × Content)}

/-- Nothing is in use. -/
def blank : ObjectMemory where
  store := ⟨fun _ => .word (.int 0), fun _ => .word (.int 0)⟩
  area _ := .word (.int 0)
  heap _ := .word (.int 0)
  used := []
  writes := []

/-- What a register holds. -/
def register (memory : ObjectMemory) (source : Register) : Content := memory.store.registers source

/-- Sets a register. -/
def put (memory : ObjectMemory) (target : Register) (content : Content) : ObjectMemory :=
  { memory with store := memory.store.setRegister target content }

/-- Writes a word on the heap. -/
def write (memory : ObjectMemory) (place : Nat) (content : Content) : ObjectMemory :=
  { memory with
    heap := Function.update memory.heap place content
    writes := memory.writes ++ [(place, content)] }

/-- Takes room for an object. -/
def allocate (allocator : Allocator) (memory : ObjectMemory) (target : Register) (size : Nat) :
    ObjectMemory :=
  let start := allocator.place memory.used size
  { memory.put target (.word (.object start)) with used := memory.used ++ [⟨start, size⟩] }

/-- What an instruction does that moves words or takes room. Through anything but the address of an
object nothing is read or written. -/
def effect (allocator : Allocator) (memory : ObjectMemory) : Instruction → Option ObjectMemory
  | .label _ => some memory
  | .moveInt target value => some (memory.put target (.word (.int value)))
  | .moveDouble target value => some (memory.put target (.word (.double value)))
  | .moveLabel target name => some (memory.put target (.label name))
  | .move target source => some (memory.put target (memory.register source))
  | .loadStack target slot => some (memory.put target (memory.store.slots slot))
  | .storeStack slot source =>
    some { memory with store := memory.store.setSlot slot (memory.register source) }
  | .loadStatic target offset => some (memory.put target (memory.area offset))
  | .storeStatic offset source =>
    some { memory with area := Function.update memory.area offset (memory.register source) }
  | .loadHeap target base offset =>
    match memory.register base with
    | .word (.object address) => some (memory.put target (memory.heap (address + offset)))
    | _ => none
  | .storeHeap base offset source =>
    match memory.register base with
    | .word (.object address) => some (memory.write (address + offset) (memory.register source))
    | _ => none
  | .allocate target size => some (memory.allocate allocator target size)
  | _ => none

/-- What instructions do one after the other. -/
def execute (allocator : Allocator) (memory : ObjectMemory) (code : List Instruction) :
    Option ObjectMemory :=
  code.foldlM (effect allocator) memory

@[simp]
theorem execute_nil : memory.execute allocator [] = some memory := rfl

@[simp]
theorem execute_cons (instruction : Instruction) (code : List Instruction) :
    memory.execute allocator (instruction :: code) =
      (memory.effect allocator instruction).bind fun after => after.execute allocator code := by
  simp [execute, List.foldlM_cons]

theorem execute_append (code more : List Instruction) :
    memory.execute allocator (code ++ more) =
      (memory.execute allocator code).bind fun after => after.execute allocator more := by
  simp [execute, List.foldlM_append]

@[simp]
theorem register_put (target other : Register) (content : Content) :
    (memory.put target content).register other = if other =
      target then content else memory.register other :=
  Store.registers_setRegister memory.store target other content

/-- The register holds the address of an object. -/
def Addresses (memory : ObjectMemory) (base : Register) (address : Nat) : Prop :=
  memory.register base = .word (.object address)

theorem effect_storeHeap (allocator : Allocator) {base : Register} {address : Nat}
    (addresses : memory.Addresses base address) (source : Register) (offset : Nat) :
    memory.effect allocator (.storeHeap base offset source) =
      some (memory.write (address + offset) (memory.register source)) := by
  have isAddress : memory.register base = .word (.object address) := addresses
  simp only [effect, isAddress]

/-! ## Writes -/

/-- The heap when words are written one after the other. -/
def heapWith (heap : Nat → Content) (entries : List (Nat × Content)) : Nat → Content :=
  entries.foldl (fun heap entry => Function.update heap entry.1 entry.2) heap

theorem heapWith_append (heap : Nat → Content) (entries more : List (Nat × Content)) :
    heapWith heap (entries ++ more) = heapWith (heapWith heap entries) more :=
  List.foldl_append

/-- What is not written to stays as it is. -/
theorem heapWith_of_not_mem {place : Nat} (notThere : place ∉ entries.map Prod.fst)
    (heap : Nat → Content) : heapWith heap entries place = heap place := by
  induction entries generalizing heap with
  | nil => rfl
  | cons entry rest ih =>
    rw [List.map_cons, List.mem_cons, not_or] at notThere
    exact (ih notThere.2 _).trans (Function.update_of_ne notThere.1 ..)

/-- What is written once is there in the end. -/
theorem heapWith_of_mem (once : (entries.map Prod.fst).Nodup) {place : Nat}
    {content : Content} (isThere : (place, content) ∈ entries) (heap : Nat → Content) :
    heapWith heap entries place = content := by
  induction entries generalizing heap with
  | nil => cases isThere
  | cons entry rest ih =>
    rw [List.map_cons, List.nodup_cons] at once
    rcases List.mem_cons.mp isThere with rfl | isLater
    · exact (heapWith_of_not_mem once.1 _).trans (Function.update_self ..)
    · exact ih once.2 isLater _

/-- Words are written on the heap one after the other, and beyond that at most one register
changes. -/
structure Writes (scratch : Register) (entries : List (Nat × Content))
    (before after : ObjectMemory) : Prop where
  heap_eq : after.heap = heapWith before.heap entries
  writes_eq : after.writes = before.writes ++ entries
  used_eq : after.used = before.used
  area_eq : after.area = before.area
  slots_eq : after.store.slots = before.store.slots
  registers : ∀ other, other ≠ scratch → after.register other = before.register other

namespace Writes

variable {scratch : Register} {entries more : List (Nat × Content)}

theorem refl (scratch : Register) (memory : ObjectMemory) : Writes scratch [] memory memory :=
  ⟨rfl, (List.append_nil _).symm, rfl, rfl, rfl, fun _ _ => rfl⟩

theorem trans (early : Writes scratch entries before between)
    (late : Writes scratch more between after) : Writes scratch (entries ++ more) before after where
  heap_eq := by rw [late.heap_eq, early.heap_eq, heapWith_append]
  writes_eq := by rw [late.writes_eq, early.writes_eq, List.append_assoc]
  used_eq := late.used_eq.trans early.used_eq
  area_eq := late.area_eq.trans early.area_eq
  slots_eq := late.slots_eq.trans early.slots_eq
  registers other differs := (late.registers other differs).trans (early.registers other differs)

theorem put (memory : ObjectMemory) (scratch : Register) (content : Content) :
    Writes scratch [] memory (memory.put scratch content) where
  heap_eq := rfl
  writes_eq := (List.append_nil _).symm
  used_eq := rfl
  area_eq := rfl
  slots_eq := rfl
  registers other differs := by rw [register_put, if_neg differs]

theorem write (memory : ObjectMemory) (scratch : Register) (place : Nat) (content : Content) :
    Writes scratch [(place, content)] memory (memory.write place content) :=
  ⟨rfl, rfl, rfl, rfl, rfl, fun _ _ => rfl⟩

theorem addresses (writes : Writes scratch entries before after) {base : Register} {address : Nat}
    (differs : base ≠ scratch) (addresses : before.Addresses base address) :
    after.Addresses base address :=
  (writes.registers base differs).trans addresses

end Writes

/-- What is written once is all that is written there. -/
theorem filter_eq_of_mem {entries : List (Nat × Content)} (once : (entries.map Prod.fst).Nodup)
    {place : Nat} {content : Content} (isThere : (place, content) ∈ entries) :
    entries.filter (fun entry => entry.1 = place) = [(place, content)] := by
  induction entries with
  | nil => cases isThere
  | cons entry rest ih =>
    rw [List.map_cons, List.nodup_cons] at once
    rcases List.mem_cons.mp isThere with rfl | isLater
    · have notAgain : rest.filter (fun entry => entry.1 = place) = [] := by
        rw [List.filter_eq_nil_iff]
        rintro ⟨other, value⟩ isOther isPlace
        exact once.1 (List.mem_map.mpr ⟨_, isOther, of_decide_eq_true isPlace⟩)
      rw [List.filter_cons, if_pos (decide_eq_true rfl), notAgain]
    · have differs : entry.1 ≠ place :=
        fun same => once.1 (List.mem_map.mpr ⟨_, isLater, same.symm⟩)
      rw [List.filter_cons_of_neg (by simpa using differs), ih once.2 isLater]

end ObjectMemory

end Decaf
