import Decaf.Proofs.Code.Addresses
import Decaf.Proofs.Machine.Allocation

/-!
# What a new object holds

The code that makes an object writes each of its words once, the fields of one kind after those of
the other, and no word that is not the object's. Where the addresses of the fields are the numbers
behind the first word, that is all there is to write, so an object is complete as soon as there is
one.
-/

namespace Decaf

/-- What a field holds before anything is assigned to it. -/
def DataType.zero : DataType → Content
  | .primitive .double => .word (.double (.zero false))
  | _ => .word (.int 0)

/-- An instance field of a class, its own or an inherited one. -/
structure Registry.ObjectField (registry : Registry) (owner : ClassId) (id : FieldId)
    (field : FieldEntry) : Prop where
  found : registry.fieldEntry? id = some field
  isInstance : field.isStatic = false
  descends : registry.DescendsFrom owner field.owner

namespace Layout

variable {registry : Registry} {layout : Layout} {order : List ClassId}
variable {allocator : Allocator} {memory after : ObjectMemory} {object scratch source : Register}
  {address : Nat}
variable {owner : ClassId}

/-- The room that an object takes. -/
def extentOf (layout : Layout) (owner : ClassId) (address : Nat) : Extent :=
  ⟨address, layout.objectSize owner⟩

/-- What is written when all these fields get the same value. -/
def fieldWrites (layout : Layout) (registry : Registry) (address : Nat) (content : Content)
    (fields : List FieldId) : List (Nat × Content) :=
  (fields.filterMap (address? registry layout)).map fun offset => (address + offset, content)

/-- What is written when an object is made. -/
def objectWrites (layout : Layout) (registry : Registry) (owner : ClassId) (address : Nat) :
    List (Nat × Content) :=
  let fields := layout.instanceFieldsOf owner
  (address, .label (Label.vtable (registry.className owner))) ::
    (layout.fieldWrites registry address (.word (.int 0)) (fields.filter fun id =>
      !registry.isDoubleField id) ++
      layout.fieldWrites registry address (.word (.double (.zero false)))
      (fields.filter registry.isDoubleField))

/-! ## Running the code -/

theorem storeFields_eq (layout : Layout) (registry : Registry) (object source : Register)
    (fields : List FieldId) :
    layout.storeFields registry object source fields =
      (fields.filterMap (address? registry layout)).map fun offset =>
        .storeHeap object offset source := by
  rw [List.map_filterMap]
  rfl

/-- Stores leave alone the two registers that they use. -/
theorem exists_execute_stores (source scratch : Register) (allocator : Allocator)
    (addresses : memory.Addresses object address) (offsets : List Nat) :
    ∃ after, memory.execute allocator (offsets.map fun offset =>
      .storeHeap object offset source) = some after ∧
      ObjectMemory.Writes scratch (offsets.map fun offset =>
        (address + offset, memory.register source)) memory after := by
  induction offsets generalizing memory with
  | nil => exact ⟨memory, rfl, .refl scratch memory⟩
  | cons offset offsets ih =>
    have stored := ObjectMemory.Writes.write memory scratch (address + offset)
      (memory.register source)
    have stillAddresses : (memory.write (address + offset) (memory.register source)).Addresses
      object address := addresses
    rcases ih stillAddresses with ⟨after, executed, writes⟩
    refine ⟨after, ?_, stored.trans writes⟩
    rw [List.map_cons, ObjectMemory.execute_cons, ObjectMemory.effect_storeHeap allocator addresses,
      Option.bind_some, executed]

theorem exists_execute_clearFields (layout : Layout) (registry : Registry)
    (differs : object ≠ scratch) (allocator : Allocator)
    (addresses : memory.Addresses object address) (zero : Instruction) {content : Content}
    (loads : memory.effect allocator zero = some (memory.put scratch content))
    (fields : List FieldId) :
    ∃ after, memory.execute allocator (layout.clearFields registry object scratch zero fields) =
      some after ∧
      ObjectMemory.Writes scratch (layout.fieldWrites registry address content fields)
        memory after := by
  cases fields with
  | nil => exact ⟨memory, rfl, .refl scratch memory⟩
  | cons field fields =>
    have loaded := ObjectMemory.Writes.put memory scratch content
    rcases exists_execute_stores scratch scratch allocator (loaded.addresses differs addresses)
      ((field :: fields).filterMap (address? registry layout)) with ⟨after, executed, writes⟩
    rw [ObjectMemory.register_put, if_pos rfl] at writes
    refine ⟨after, ?_, loaded.trans writes⟩
    rw [clearFields, if_neg (by simp), ObjectMemory.execute_cons, loads, Option.bind_some,
      storeFields_eq, executed]

/-- Room is taken, and the first word gets the vtable. -/
theorem exists_execute_head (differs : object ≠ scratch) (allocator : Allocator)
    (memory : ObjectMemory) (size : Nat) (name : String) :
    ∃ after, memory.execute allocator [.allocate object size, .moveLabel scratch name,
        .storeHeap object 0 scratch] = some after ∧
      ObjectMemory.Writes scratch [(allocator.place memory.used size, .label name)]
        (memory.allocate allocator object size) after ∧
      after.Addresses object (allocator.place memory.used size) := by
  have addresses : (memory.allocate allocator object size).Addresses object
      (allocator.place memory.used size) :=
    Function.update_self ..
  have loaded :=
    ObjectMemory.Writes.put (memory.allocate allocator object size) scratch (.label name)
  have stillAddresses := loaded.addresses differs addresses
  have stored := loaded.trans (.write _ scratch (allocator.place memory.used size) (.label name))
  refine ⟨_, ?_, stored, stored.addresses differs addresses⟩
  have storing := ObjectMemory.effect_storeHeap allocator stillAddresses scratch 0
  rw [ObjectMemory.register_put, if_pos rfl, Nat.add_zero] at storing
  simp only [ObjectMemory.execute_cons, ObjectMemory.execute_nil, ObjectMemory.effect,
    Option.bind_some] at storing ⊢
  rw [storing, Option.bind_some]

/-- The code runs to its end on every machine, and what it writes does not depend on what the
machine holds. -/
theorem exists_execute_objectInit (layout : Layout) (registry : Registry) (owner : ClassId)
    (differs : object ≠ scratch) (allocator : Allocator) (memory : ObjectMemory) :
    ∃ after, memory.execute allocator (layout.objectInit registry owner object scratch) =
      some after ∧
      ObjectMemory.Writes scratch
        (layout.objectWrites registry owner (allocator.place memory.used (layout.objectSize owner)))
        (memory.allocate allocator object (layout.objectSize owner)) after := by
  let fields := layout.instanceFieldsOf owner
  rcases exists_execute_head differs allocator memory (layout.objectSize owner)
    (Label.vtable (registry.className owner)) with ⟨headed, headRun, head, addresses⟩
  rcases exists_execute_clearFields layout registry differs allocator addresses
    (.moveInt scratch 0) rfl
    (fields.filter fun id => !registry.isDoubleField id) with ⟨between, wordsRun, words⟩
  rcases exists_execute_clearFields layout registry differs allocator
    (words.addresses differs addresses)
    (.moveDouble scratch (.zero false)) rfl (fields.filter registry.isDoubleField) with
    ⟨after, doublesRun, doubles⟩
  refine ⟨after, ?_, head.trans (words.trans doubles)⟩
  have parts : layout.objectInit registry owner object scratch =
      [.allocate object (layout.objectSize owner),
        .moveLabel scratch (Label.vtable (registry.className owner)),
        .storeHeap object 0 scratch] ++
        layout.clearFields registry object scratch (.moveInt scratch 0)
          (fields.filter fun id => !registry.isDoubleField id) ++
        layout.clearFields registry object scratch (.moveDouble scratch (.zero false))
          (fields.filter registry.isDoubleField) := by
    rw [objectInit, List.partition_eq_filter_filter]
    rfl
  rw [parts, ObjectMemory.execute_append, ObjectMemory.execute_append, headRun,
    Option.bind_some, wordsRun, Option.bind_some, doublesRun]

/-! ## What is written -/

theorem filterMap_eq_of_map_eq {ids : List FieldId} {offsets : List Nat}
    (addressesEq : ids.map (address? registry layout) = offsets.map some) :
    ids.filterMap (address? registry layout) = offsets := by
  have reduced := congrArg (List.filterMap id) addressesEq
  rwa [List.filterMap_map, List.filterMap_map, Function.id_comp, Function.id_comp,
    List.filterMap_some] at reduced

/-- The two groups of fields are all fields. -/
theorem perm_objectWrites (address : Nat)
    (filled : (layout.instanceFieldsOf owner).map (address? registry layout) =
      (List.range' 1 (layout.objectSize owner - 1)).map some) :
    ((layout.objectWrites registry owner address).map Prod.fst).Perm
      (layout.extentOf owner address).places := by
  let fields := layout.instanceFieldsOf owner
  have groups : (fields.filter (fun id => !registry.isDoubleField id) ++
      fields.filter registry.isDoubleField).Perm fields :=
    List.perm_append_comm.trans (List.filter_append_perm registry.isDoubleField fields)
  have sizeEq : layout.objectSize owner = (layout.objectSize owner - 1) + 1 := by
    unfold objectSize
    omega
  have behind := (groups.filterMap (address? registry layout)).map (address + ·)
  rw [filterMap_eq_of_map_eq filled, List.map_add_range', List.filterMap_append,
    List.map_append] at behind
  rw [Extent.places, extentOf, sizeEq, List.range'_succ]
  simp only [objectWrites, fieldWrites, List.map_cons, List.map_append, List.map_map]
  exact behind.cons address

theorem mem_objectWrites (address : Nat) {id : FieldId} {field : FieldEntry}
    (isThere : id ∈ layout.instanceFieldsOf owner) (found : registry.fieldEntry? id = some field)
    {offset : Nat} (offsetEq : layout.offset? field = some offset) :
    (address + offset, field.type.zero) ∈ layout.objectWrites registry owner address := by
  have addressEq : address? registry layout id = some offset := by
    rw [address?, found, Option.bind_some, offsetEq]
  have isDouble : registry.isDoubleField id = decide (field.type = .double) := by
    rw [Registry.isDoubleField, found, Option.any_some]
  have written : ∀ {content : Content} {fields : List FieldId}, id ∈ fields →
      (address + offset, content) ∈ layout.fieldWrites registry address content fields :=
    fun isListed => List.mem_map.mpr ⟨offset, List.mem_filterMap.mpr ⟨id, isListed, addressEq⟩, rfl⟩
  refine List.mem_cons_of_mem _ (List.mem_append.mpr ?_)
  by_cases typeEq : field.type = .double
  · right
    rw [typeEq]
    exact written (List.mem_filter.mpr ⟨isThere, by simp [isDouble, typeEq]⟩)
  · left
    have zeroEq : field.type.zero = .word (.int 0) := by
      unfold DataType.zero
      split
      next doubleEq => exact absurd doubleEq typeEq
      next => rfl
    rw [zeroEq]
    exact written (List.mem_filter.mpr ⟨isThere, by simp [isDouble, typeEq]⟩)

/-! ## Complete objects -/

/-- There is a new object of a class, and nothing but the object is new. -/
structure Initializes (layout : Layout) (registry : Registry) (owner : ClassId)
    (object scratch : Register) (address : Nat) (written : List (Nat × Content))
    (before after : ObjectMemory) : Prop where
  addresses : after.Addresses object address
  used_eq : after.used = before.used ++ [layout.extentOf owner address]
  /-- The room was not in use. -/
  apart : ∀ extent ∈ before.used, extent.Apart (layout.extentOf owner address)
  writes_eq : after.writes = before.writes ++ written
  /-- Each word of the object is written once, and no other word is written. -/
  covers : (written.map Prod.fst).Perm (layout.extentOf owner address).places
  vtable : after.heap address = .label (Label.vtable (registry.className owner))
  /-- Each field has a word behind the first one, where the zero of its type is all that is
  written. -/
  field_cleared : ∀ {id field}, registry.ObjectField owner id field →
    ∃ offset, layout.offset? field = some offset ∧ 1 ≤ offset ∧ offset < layout.objectSize owner ∧
      written.filter (fun entry => entry.1 = address + offset) =
        [(address + offset, field.type.zero)] ∧
      after.heap (address + offset) = field.type.zero
  /-- Each word behind the first one is that of one field. -/
  word_owned : ∀ {offset}, 1 ≤ offset → offset < layout.objectSize owner →
    ∃! id, ∃ field, registry.ObjectField owner id field ∧ layout.offset? field = some offset
  heap_eq : ∀ place ∉ (layout.extentOf owner address).places, after.heap place = before.heap place
  area_eq : after.area = before.area
  slots_eq : after.store.slots = before.store.slots
  registers : ∀ other, other ≠ object → other ≠ scratch →
    after.register other = before.register other

section

variable (wellFormed : registry.WellFormed) (acyclic : registry.Acyclic)
  (ordered : Ordered registry order)

include wellFormed acyclic ordered

variable {owner : ClassId}

/-- The address of a field is its place behind the first word. -/
theorem offset?_of_objectField (known : owner.index < registry.classCount) {id : FieldId}
    {field : FieldEntry} (isField : registry.ObjectField owner id field) {place : Nat} :
    (ofRegistry registry order).offset? field = some (1 + place) ↔
      ((ofRegistry registry order).instanceFieldsOf owner)[place]? = some id := by
  constructor
  · intro offsetEq
    rcases getElem?_of_instance ordered isField.isInstance offsetEq isField.descends with
      ⟨other, sameOffset, isThere⟩
    rwa [wellFormed.field_id isField.found, ← Nat.add_left_cancel sameOffset] at isThere
  · intro isThere
    have addressEq := address?_of_instance wellFormed acyclic ordered known isThere
    rwa [address?, isField.found, Option.bind_some] at addressEq

/-- Making an object of a class gives all of it, and nothing else. -/
theorem exists_initializes (known : owner.index < registry.classCount) (differs : object ≠ scratch)
    (allocator : Allocator) (before : ObjectMemory) : ∃ after address written,
      before.execute allocator
        ((ofRegistry registry order).objectInit registry owner object scratch) = some after ∧
        (ofRegistry registry order).Initializes registry owner object scratch address
          written before after := by
  let layout := ofRegistry registry order
  let address := allocator.place before.used (layout.objectSize owner)
  rcases exists_execute_objectInit layout registry owner differs allocator before with
    ⟨after, executed, writes⟩
  have filled : (layout.instanceFieldsOf owner).map (address? registry layout) =
      (List.range' 1 (layout.objectSize owner - 1)).map some := by
    rw [objectSize, Nat.add_sub_cancel_left]
    exact map_address_eq fun _ _ => address?_of_instance wellFormed acyclic ordered known
  have covers := perm_objectWrites address filled
  have once : ((layout.objectWrites registry owner address).map Prod.fst).Nodup :=
    covers.nodup_iff.mpr List.nodup_range'
  refine ⟨after, address, _, executed,
    { addresses := writes.addresses differs (Function.update_self ..)
      used_eq := writes.used_eq
      apart := allocator.apart before.used _
      writes_eq := writes.writes_eq
      covers
      vtable :=
        (congrFun writes.heap_eq _).trans (ObjectMemory.heapWith_of_mem once List.mem_cons_self _)
      field_cleared := ?_
      word_owned := ?_
      heap_eq := ?_
      area_eq := writes.area_eq
      slots_eq := writes.slots_eq
      registers := ?_ }⟩
  · intro id field isField
    have isListed := (mem_instanceFieldsOf wellFormed acyclic ordered known).mpr
      ⟨field, isField.found, isField.isInstance, isField.descends⟩
    rcases List.getElem?_of_mem isListed with ⟨place, isThere⟩
    have placeLt := (List.getElem?_eq_some_iff.mp isThere).1
    have offsetEq := (offset?_of_objectField wellFormed acyclic ordered known isField).mpr isThere
    have isWritten := mem_objectWrites address isListed isField.found offsetEq
    exact ⟨1 + place, offsetEq, Nat.le_add_right _ _, Nat.add_lt_add_left placeLt 1,
      ObjectMemory.filter_eq_of_mem once isWritten,
      (congrFun writes.heap_eq _).trans (ObjectMemory.heapWith_of_mem once isWritten _)⟩
  · intro offset positive inObject
    rcases Nat.exists_eq_add_of_le positive with ⟨place, rfl⟩
    have placeLt : place < (layout.instanceFieldsOf owner).length :=
      Nat.lt_of_add_lt_add_left inObject
    have isThere := List.getElem?_eq_getElem placeLt
    rcases (mem_instanceFieldsOf wellFormed acyclic ordered known).mp
      (List.getElem_mem placeLt) with
      ⟨field, found, isInstance, descends⟩
    have isField : registry.ObjectField owner _ field := ⟨found, isInstance, descends⟩
    refine ⟨_,
      ⟨field, isField,
        (offset?_of_objectField wellFormed acyclic ordered known isField).mpr isThere⟩, ?_⟩
    rintro id ⟨other, isOther, offsetEq⟩
    have otherThere := (offset?_of_objectField wellFormed acyclic ordered known isOther).mp offsetEq
    exact Option.some.inj (otherThere.symm.trans isThere)
  · intro place outside
    rw [writes.heap_eq, ObjectMemory.heapWith_of_not_mem fun isWritten =>
      outside (covers.mem_iff.mp isWritten)]
    rfl
  · intro other isOther isNotScratch
    rw [writes.registers other isNotScratch]
    exact (ObjectMemory.register_put ..).trans (if_neg isOther)

end

end Layout

namespace Program.AnalyzedAs

variable {program : Program} {members : Members} {resolution : Resolution}

/-- Parents are laid out before their children. -/
theorem ordered (analyzedAs : program.AnalyzedAs members resolution) :
    Layout.Ordered resolution.registry (Hierarchy.ofClasses program.classes).order := by
  rcases analyzedAs.completing with ⟨settled, completing⟩
  have grows := analyzedAs.valid.2
  have sameClasses := (congrArg Array.size grows.classes_eq).trans completing.classCount_eq
  exact settled.ordered sameClasses fun id => (grows.parent?_eq id).trans (completing.parent_eq id)

end Program.AnalyzedAs

/-- On every machine, the code that makes an object of a class of an accepted program runs to its
end and leaves behind a complete object, in room that was not in use, and changes nothing else. -/
theorem CheckedProgram.objectInit_complete {program : Program} {checked : CheckedProgram}
    (isChecked : (Analysis.ofProgram program).checked = .ok checked) {owner : ClassId}
    (known : owner.index < checked.registry.classCount) {object scratch : Register}
    (differs : object ≠ scratch) (allocator : Allocator) (before : ObjectMemory) :
    ∃ after address written,
      before.execute allocator (checked.layout.objectInit checked.registry owner object scratch) =
        some after ∧
        checked.layout.Initializes checked.registry owner object scratch address
          written before after := by
  rcases Analysis.analyzedAs_of_checked isChecked with ⟨members, resolution, analyzedAs, _, rfl⟩
  exact Layout.exists_initializes analyzedAs.wellFormed analyzedAs.acyclic analyzedAs.ordered known
    differs allocator before

/-- Three classes in a row, in each of which a double field follows a word or the other way
round. -/
def layeredProgram : Program :=
  let origin : Position := ⟨1, 1⟩
  let field (name : String) (kind : Primitive) (isStatic : Bool) : FieldDecl :=
    ⟨name, .primitive kind, .publicMember, isStatic, origin⟩
  { classes :=
      [⟨"Lower", some ⟨"Middle", origin⟩, [field "weight" .double false, field "total" .double true,
          field "done" .bool false], [], origin⟩,
        ⟨"Upper", none, [field "first" .int false, field "scale" .double false], [], origin⟩,
        ⟨"Middle", some ⟨"Upper", origin⟩,
          [field "label" .string false, field "height" .double false], [], origin⟩] }

/-- The first object of the lowest class. -/
theorem CheckedProgram.objectInit_complete_layeredProgram : ∃ checked : CheckedProgram,
    (Analysis.ofProgram layeredProgram).checked = .ok checked ∧ 0 < checked.registry.classCount ∧
      checked.layout.objectSize ⟨0⟩ = 7 ∧ Register.general 0 ≠ Register.general 1 ∧
      ∃ after address written,
        ObjectMemory.blank.execute .bump
          (checked.layout.objectInit checked.registry ⟨0⟩ (.general 0) (.general 1)) =
            some after ∧
        checked.layout.Initializes checked.registry ⟨0⟩ (.general 0) (.general 1) address
          written .blank after := by
  have tested : (Analysis.ofProgram layeredProgram).checked.toOption.any (fun checked =>
      decide (0 < checked.registry.classCount ∧ checked.layout.objectSize ⟨0⟩ = 7)) =
        true := by decide +kernel
  cases isChecked : (Analysis.ofProgram layeredProgram).checked with
  | error diagnostics => simp [isChecked, Except.toOption] at tested
  | ok checked =>
    rw [isChecked] at tested
    rcases of_decide_eq_true tested with ⟨known, sizeEq⟩
    have differs : Register.general 0 ≠ Register.general 1 := by decide
    exact ⟨checked, rfl, known, sizeEq, differs,
      objectInit_complete isChecked known differs .bump .blank⟩

end Decaf
