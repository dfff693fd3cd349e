import Decaf.Code.Layout
import Decaf.Machine.Instruction
import Decaf.Machine.Label

/-!
# New objects

A new object is a fresh block with the vtable of its class in the first word and zeros in all
fields; the zero of a `double` field is a double.
-/

namespace Decaf

namespace Registry

/-- The label of a method's code. -/
def methodLabel (registry : Registry) (id : MethodId) : String :=
  match registry.methodEntry? id with
  | some entry => Label.method (registry.className entry.owner) entry.name
  | none => ""

/-- Whether a field holds a double. -/
def isDoubleField (registry : Registry) (id : FieldId) : Bool :=
  (registry.fieldEntry? id).any fun entry => entry.type = .double

end Registry

namespace Layout

/-- Stores what a register holds into fields of an object. -/
def storeFields (layout : Layout) (registry : Registry) (object source : Register)
    (fields : List FieldId) : List Instruction :=
  fields.filterMap fun field =>
    ((registry.fieldEntry? field).bind layout.offset?).map fun offset =>
      .storeHeap object offset source

/-- Puts a zero into a register and from there into fields of an object, if there are any. -/
def clearFields (layout : Layout) (registry : Registry) (object scratch : Register)
    (zero : Instruction) (fields : List FieldId) : List Instruction :=
  if fields.isEmpty then [] else zero :: layout.storeFields registry object scratch fields

/-- Makes a new object of a class in the register `object`; the register `scratch` is used on the
way. -/
def objectInit (layout : Layout) (registry : Registry) (owner : ClassId)
    (object scratch : Register) : List Instruction :=
  let (doubles, words) := (layout.instanceFieldsOf owner).partition registry.isDoubleField
  [.allocate object (layout.objectSize owner),
    .moveLabel scratch (Label.vtable (registry.className owner)),
    .storeHeap object 0 scratch] ++
    layout.clearFields registry object scratch (.moveInt scratch 0) words ++
    layout.clearFields registry object scratch (.moveDouble scratch (.zero false)) doubles

end Layout

end Decaf
