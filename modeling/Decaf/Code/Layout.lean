import Decaf.Registry

/-!
# The layout of objects and static fields

An object is a block of words. The first one holds the vtable of its class; its fields follow, those
of the ancestors first, so that a field has the same place in the objects of all classes below its
own. The static fields of all classes share one area.
-/

namespace Decaf

/-- Where the fields of a program's classes are. -/
structure Layout where
  /-- The instance fields of each class in the order of their places, by class number. -/
  instanceFields : Array (List FieldId)
  /-- The static fields in the order of their places. -/
  staticFields : List FieldId
  deriving Repr, Inhabited

namespace Layout

/-- The instance fields of a class, inherited ones included, in the order of their places. -/
def instanceFieldsOf (layout : Layout) (id : ClassId) : List FieldId :=
  (layout.instanceFields[id.index]?).getD []

/-- How many words an object of a class takes. -/
def objectSize (layout : Layout) (id : ClassId) : Nat := 1 + (layout.instanceFieldsOf id).length

/-- How many words the static fields take. -/
def staticSize (layout : Layout) : Nat := layout.staticFields.length

/-- The place of a field: in an object for an instance field, in the area of static fields for a
static one. -/
def offset? (layout : Layout) (field : FieldEntry) : Option Nat :=
  if field.isStatic then layout.staticFields.idxOf? field.id
  else ((layout.instanceFieldsOf field.owner).idxOf? field.id).map fun position => 1 + position

/-- Whether a registered field is static. -/
def isStaticField (registry : Registry) (id : FieldId) : Bool :=
  (registry.fieldEntry? id).any FieldEntry.isStatic

/-- Lays out the objects of a class behind the fields of its parent. -/
def placeClass (registry : Registry) (layout : Layout) (id : ClassId) : Layout :=
  match registry.classEntry? id with
  | none => layout
  | some entry =>
    let inherited := (entry.parent.map layout.instanceFieldsOf).getD []
    let own := entry.fields.filter fun field => !isStaticField registry field
    { layout with instanceFields := layout.instanceFields.setIfInBounds id.index (inherited ++
        own) }

/-- The static fields of all classes. -/
def staticFieldsOf (registry : Registry) : List FieldId :=
  (registry.classes.toList.flatMap ClassEntry.fields).filter (isStaticField registry)

/-- The layout of all classes, given in an order with every parent in front of its children. -/
def ofRegistry (registry : Registry) (order : List ClassId) : Layout :=
  order.foldl (placeClass registry)
    ⟨Array.replicate registry.classCount [], staticFieldsOf registry⟩

end Layout

end Decaf
