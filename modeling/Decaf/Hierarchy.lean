import Decaf.Diagnostic
import Decaf.Inheritance
import Decaf.Registry
import Decaf.Tree.Program

/-!
# The class hierarchy of a program

The first look at a program registers its classes under their names and links each to its parent. A
class whose name is taken is dropped, a class with an unknown parent is left without one, and so are
the classes on a cycle. What remains is acyclic, so the classes can be ordered with every parent in
front of its children.
-/

namespace Decaf

/-- The classes of a program on record. -/
structure Hierarchy where
  /-- The classes with their parents; they have no members yet. -/
  registry : Registry := .empty
  /-- The number of each declared class, in the order of declaration; a dropped class has none. -/
  classIds : List (Option ClassId) := []
  /-- The registered classes, every parent in front of its children. -/
  order : List ClassId := []
  diagnostics : List Diagnostic := []
  deriving Inhabited

namespace Hierarchy

/-- Registers one more declared class. -/
def addClass (hierarchy : Hierarchy) (decl : ClassDecl) : Hierarchy :=
  match hierarchy.registry.registerClass decl.name (decl.parent.map ParentName.name)
    decl.position with
  | .ok (id, registry) => { hierarchy with registry, classIds := hierarchy.classIds ++ [some id] }
  | .error _ =>
    { hierarchy with
      classIds := hierarchy.classIds ++ [none]
      diagnostics :=
        hierarchy.diagnostics ++
          [⟨decl.position, .duplicateDeclaration decl.name "the global scope"⟩] }

/-- Links one registered class to the class that its declaration names as its parent. -/
def linkParent (hierarchy : Hierarchy) (decl : ClassDecl) (id : ClassId) : Hierarchy :=
  match decl.parent with
  | none => hierarchy
  | some written =>
    match hierarchy.registry.classNamed? written.name with
    | some parent =>
      { hierarchy with
        registry := hierarchy.registry.modifyClass id fun entry =>
          { entry with parent := some parent } }
    | none =>
      { hierarchy with
        diagnostics :=
          hierarchy.diagnostics ++ [⟨written.position, .unknownParent decl.name written.name⟩] }

/-- Links the class of a declaration to its parent, unless the declaration was dropped. -/
def linkDeclared (hierarchy : Hierarchy) (declared : ClassDecl × Option ClassId) : Hierarchy :=
  match declared.2 with
  | some id => hierarchy.linkParent declared.1 id
  | none => hierarchy

/-- The parent links as a bare relation. -/
def inheritance (registry : Registry) : Inheritance := ⟨registry.classes.map ClassEntry.parent⟩

/-- The names along the cycle through a class, from the class up to itself. -/
def cycleText (registry : Registry) (start : ClassId) : String :=
  " -> ".intercalate (((inheritance registry).walkRound start ++ [start]).map registry.className)

/-- The complaint about a cycle, at its class of lowest number. -/
def cycleDiagnostic? (registry : Registry) (cycle : List ClassId) : Option Diagnostic := do
  let first ← cycle.head?
  let entry ← registry.classEntry? first
  return ⟨entry.position, .circularInheritance (cycleText registry first)⟩

/-- Takes a class's parent away. -/
def unlink (registry : Registry) (id : ClassId) : Registry :=
  registry.modifyClass id fun entry => { entry with parent := none }

/-- Takes the parents away from all classes on cycles. -/
def breakCycles (hierarchy : Hierarchy) : Hierarchy :=
  let cycles := (inheritance hierarchy.registry).cycles
  { hierarchy with
    registry := cycles.flatten.foldl unlink hierarchy.registry
    diagnostics := hierarchy.diagnostics ++ cycles.filterMap (cycleDiagnostic? hierarchy.registry) }

/-- Orders the classes; were the links cyclic, the order of registration would do. -/
def arrange (hierarchy : Hierarchy) : Hierarchy :=
  let links := inheritance hierarchy.registry
  { hierarchy with order := links.parentsFirst?.getD links.classIds }

/-- The hierarchy of declared classes. -/
def ofClasses (classes : List ClassDecl) : Hierarchy :=
  let registered := classes.foldl addClass {}
  ((classes.zip registered.classIds).foldl linkDeclared registered).breakCycles.arrange

/-- The position of a class's declaration among the declared classes. -/
def declarationOf? (hierarchy : Hierarchy) (id : ClassId) : Option Nat :=
  hierarchy.classIds.idxOf? (some id)

end Hierarchy

end Decaf
