import Decaf.Proofs.Checked
import Decaf.Proofs.Evaluation.Values

/-!
# Contents in memory

The cells that the code of a method can reach have their locations in memory, no two of them the
same. A memory represents the contents of the cells when the words at their locations stand for the
values in them; what the memory holds elsewhere is left to another memory, the background.
-/

namespace Decaf

/-! ## Reading behind writing -/

namespace Memory

variable {memory : Memory} {location : Location}

/-- What can be read can be written. -/
theorem exists_write? {old : Word} (readable : memory.read? location = some old) (word : Word) :
    ∃ last, memory.write? word location = some last ∧ last.read? location = some word ∧
      ∀ other, other ≠ location → last.read? other = memory.read? other := by
  cases location with
  | slot number =>
    refine ⟨_, rfl, by simp [read?], ?_⟩
    rintro (other | other | other) differs
    · simp [read?, show other ≠ number from fun same => differs (same ▸ rfl)]
    · rfl
    · rfl
  | area offset =>
    refine ⟨_, rfl, by simp [read?], ?_⟩
    rintro (other | other | other) differs
    · rfl
    · simp [read?, show other ≠ offset from fun same => differs (same ▸ rfl)]
    · rfl
  | field object offset =>
    cases object with
    | object address =>
      refine ⟨_, rfl, by simp [read?, field?], ?_⟩
      rintro (other | other | ⟨object, other⟩) differs
      · rfl
      · rfl
      · cases object with
        | object base =>
          by_cases sameBase : base = address
          · subst sameBase
            have otherOffset : other ≠ offset := fun same => differs (same ▸ rfl)
            simp [read?, field?, otherOffset]
          · simp [read?, field?, sameBase]
        | _ => rfl
    | _ => cases readable

/-- What cannot be read cannot be written. -/
theorem write?_eq_none (unreadable : memory.read? location = none) (word : Word) :
    memory.write? word location = none := by
  cases location with
  | slot number => cases unreadable
  | area offset => cases unreadable
  | field object offset => cases object <;> first | rfl | cases unreadable

end Memory

/-! ## Locations of cells -/

namespace MethodContext

variable (context : MethodContext) (world : World)

/-- The cells that a method can reach, with their types and locations: its variables, the static
fields, and the fields of all objects. -/
inductive Keeps : Cell → DataType → Location → Prop where
  | ofVariable {id : VariableId} {entry : VariableEntry} {slot : Nat}
      (found : context.registry.variableEntry? id = some entry)
      (own : entry.method = context.method.id)
      (slotEq : context.frame.slot? entry = some slot) :
      Keeps (.ofVariable id) entry.type (.slot slot)
  | ofStatic {id : FieldId} {field : FieldEntry} {offset : Nat}
      (found : context.registry.fieldEntry? id = some field) (isStatic : field.isStatic = true)
      (offsetEq : context.layout.offset? field = some offset) :
      Keeps (.ofStatic id) field.type (.area offset)
  | ofObject {address : Nat} {id : FieldId} {field : FieldEntry} {offset : Nat}
      (found : context.registry.fieldEntry? id = some field) (isInstance : field.isStatic = false)
      (hasObject : world.HasObject context.registry field.owner address)
      (offsetEq : context.layout.offset? field = some offset) :
      Keeps (.ofObject address id) field.type (.field (.object address) offset)

/-- Variables and fields do not share places, and a field goes by one name in all classes below its
own. -/
structure Apart : Prop where
  slot_inj : ∀ {first second firstEntry secondEntry slot},
    context.registry.variableEntry? first = some firstEntry →
    context.frame.slot? firstEntry = some slot →
      context.registry.variableEntry? second = some secondEntry →
      context.frame.slot? secondEntry = some slot →
        first = second
  slot_pos : ∀ {entry slot}, context.method.isStatic = false →
    context.frame.slot? entry = some slot → 0 < slot
  static_inj : ∀ {first second offset}, first.isStatic = true → second.isStatic = true →
    context.layout.offset? first = some offset → context.layout.offset? second = some offset →
    first.id = second.id
  instance_inj : ∀ {owner first second offset}, first.isStatic = false → second.isStatic = false →
    context.registry.DescendsFrom owner first.owner →
    context.registry.DescendsFrom owner second.owner →
      context.layout.offset? first = some offset → context.layout.offset? second = some offset →
      first.id = second.id
  keepsField : ∀ {lower upper name id}, context.registry.DescendsFrom lower upper →
    context.registry.findField? upper name = some id →
    context.registry.findField? lower name = some id

/-- What the earlier phases have made sure of, for one method. -/
structure Regular : Prop extends context.Complete, context.Apart where
  wellFormed : context.registry.WellFormed
  registered : context.registry.methodEntry? context.method.id = some context.method

variable {context world} {cell other : Cell} {type otherType : DataType}
  {location otherLocation : Location}

theorem Keeps.unique (keeps : context.Keeps world cell type location)
    (again : context.Keeps world cell otherType otherLocation) :
    type = otherType ∧ location = otherLocation := by
  cases keeps with
  | ofVariable found own slotEq =>
    cases again with
    | ofVariable sameFound _ sameSlot =>
      cases found.symm.trans sameFound
      cases slotEq.symm.trans sameSlot
      exact ⟨rfl, rfl⟩
  | ofStatic found isStatic offsetEq =>
    cases again with
    | ofStatic sameFound _ sameOffset =>
      cases found.symm.trans sameFound
      cases offsetEq.symm.trans sameOffset
      exact ⟨rfl, rfl⟩
  | ofObject found isInstance hasObject offsetEq =>
    cases again with
    | ofObject sameFound _ _ sameOffset =>
      cases found.symm.trans sameFound
      cases offsetEq.symm.trans sameOffset
      exact ⟨rfl, rfl⟩

/-- Different cells have different locations. -/
theorem Keeps.cell_eq (regular : context.Regular) (keeps : context.Keeps world cell type location)
    (others : context.Keeps world other otherType location) : cell = other := by
  cases keeps with
  | ofVariable found own slotEq =>
    cases others with
    | ofVariable otherFound otherOwn otherSlot =>
      rw [regular.slot_inj found slotEq otherFound otherSlot]
  | ofStatic found isStatic offsetEq =>
    cases others with
    | ofStatic otherFound otherStatic otherOffset =>
      have same := regular.static_inj isStatic otherStatic offsetEq otherOffset
      rw [regular.fieldId found, regular.fieldId otherFound] at same
      rw [same]
  | ofObject found isInstance hasObject offsetEq =>
    cases others with
    | ofObject otherFound otherInstance otherObject otherOffset =>
      rcases hasObject with ⟨actual, isActual, descends⟩
      rcases otherObject with ⟨_, isSame, otherDescends⟩
      cases isActual.symm.trans isSame
      have same := regular.instance_inj isInstance otherInstance descends otherDescends
        offsetEq otherOffset
      rw [regular.fieldId found, regular.fieldId otherFound] at same
      rw [same]

end MethodContext

/-- A memory represents the contents of the cells in reach of a method. -/
structure Represents (context : MethodContext) (world : World) (background : Memory)
    (contents : Contents) (memory : Memory) : Prop where
  /-- Cells hold values of their types. -/
  typed : ∀ {cell type location}, context.Keeps world cell type location →
    world.Admits context.registry type (contents cell)
  word : ∀ {cell type location}, context.Keeps world cell type location →
    memory.read? location = some (contents cell).word
  /-- The current object is in the first slot. -/
  current : context.method.isStatic = false → ∃ address, world.current = some address ∧
    world.HasObject context.registry context.method.owner address ∧ memory.frame 0 = .object address
  background : ∀ location, (∀ cell type, ¬context.Keeps world cell type location) →
    memory.read? location = background.read? location

namespace Represents

variable {context : MethodContext} {world : World} {background memory : Memory}
  {contents : Contents} {cell : Cell} {type : DataType} {location : Location}

/-- A value of the right type is put into a cell by writing its word to the cell's location. -/
theorem write (represents : Represents context world background contents memory)
    (regular : context.Regular) (keeps : context.Keeps world cell type location) {value : Value}
    (admits : world.Admits context.registry type value) :
    ∃ last, memory.write? value.word location = some last ∧
      Represents context world background (Function.update contents cell value) last := by
  rcases Memory.exists_write? (represents.word keeps) value.word with
    ⟨last, written, readsIt, readsOthers⟩
  have differs : ∀ {other otherType otherLocation},
      context.Keeps world other otherType otherLocation →
      other ≠ cell → otherLocation ≠ location := by
    rintro other otherType otherLocation otherKeeps isOther rfl
    exact isOther (otherKeeps.cell_eq regular keeps)
  refine ⟨last, written, ?_, ?_, ?_, ?_⟩
  · intro other otherType otherLocation otherKeeps
    by_cases same : other = cell
    · subst same
      rw [Function.update_self, ← (keeps.unique otherKeeps).1]
      exact admits
    · rw [Function.update_of_ne same]
      exact represents.typed otherKeeps
  · intro other otherType otherLocation otherKeeps
    by_cases same : other = cell
    · subst same
      rw [Function.update_self, ← (keeps.unique otherKeeps).2, readsIt]
    · rw [Function.update_of_ne same, readsOthers _ (differs otherKeeps same),
        represents.word otherKeeps]
  · intro isInstance
    rcases represents.current isInstance with ⟨address, currentEq, hasObject, inFirst⟩
    refine ⟨address, currentEq, hasObject, ?_⟩
    have notFirst : Location.slot 0 ≠ location := by
      rintro rfl
      cases keeps with
      | ofVariable _ _ slotEq => exact absurd (regular.slot_pos isInstance slotEq) (Nat.lt_irrefl 0)
    have sameFirst := readsOthers _ notFirst
    rw [Memory.read?, Memory.read?, Option.some_inj] at sameFirst
    rw [sameFirst, inFirst]
  · intro other notKept
    have isOther : other ≠ location := by
      rintro rfl
      exact notKept cell type keeps
    rw [readsOthers other isOther, represents.background other notKept]

end Represents

namespace CheckedProgram

variable {program : CheckedProgram}
variable {id : MethodId} {method : MethodEntry}

theorem Sound.apart (sound : program.Sound)
    (found : program.registry.methodEntry? id = some method) :
    (program.contextOf program.layout method).Apart where
  slot_inj firstFound firstSlot secondFound secondSlot := by
    have sameId := sound.consistent.method_id found
    exact sound.slot_inj (sameId ▸ found) firstFound secondFound firstSlot secondSlot
  slot_pos isInstance slotEq := by
    have first : (program.frameOf method).firstArgument = 1 := by
      simp [frameOf, Frame.ofMethod, Frame.firstArgument,
        show method.isStatic = false from isInstance]
    rcases slot?_eq_some slotEq with ⟨_, ⟨rank, _, rfl⟩ | ⟨rank, _, rfl⟩⟩
    · omega
    · rw [Frame.incoming, first]
      omega
  static_inj firstStatic secondStatic firstOffset secondOffset := by
    have same := (Layout.getElem?_of_static firstStatic firstOffset).symm.trans
      (Layout.getElem?_of_static secondStatic secondOffset)
    exact Option.some.inj same
  instance_inj firstInstance secondInstance firstDescends secondDescends
      firstOffset secondOffset := by
    rcases Layout.getElem?_of_instance sound.ordered firstInstance firstOffset firstDescends with
      ⟨first, rfl, firstAt⟩
    rcases Layout.getElem?_of_instance sound.ordered secondInstance secondOffset secondDescends with
      ⟨second, sameOffset, secondAt⟩
    obtain rfl := Nat.add_left_cancel sameOffset
    exact Option.some.inj (firstAt.symm.trans secondAt)
  keepsField := sound.keepsField

theorem Sound.regular (sound : program.Sound)
    (found : program.registry.methodEntry? id = some method) :
    (program.contextOf program.layout method).Regular where
  toComplete := sound.complete found
  toApart := sound.apart found
  wellFormed := sound.consistent.toWellFormed
  registered := (sound.consistent.method_id found).symm ▸ found

end CheckedProgram

end Decaf
