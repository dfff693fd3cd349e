import Decaf.Identity

/-!
# Inheritance

Which class extends which, as a bare relation on class numbers. A class extends at most one other,
so the classes above it form a chain that either ends or runs into a cycle. `cycles` lists every
cycle once, and `parentsFirst` orders the classes so that each comes behind its parent.
-/

namespace Decaf

/-- The parent of each class, by class number. -/
structure Inheritance where
  /-- The parent of the class numbered `n` stands at index `n`. -/
  parents : Array (Option ClassId)
  deriving DecidableEq, Repr

namespace Inheritance

/-- How many classes there are. -/
def size (inheritance : Inheritance) : Nat := inheritance.parents.size

/-- All classes in the order of their numbers. -/
def classIds (inheritance : Inheritance) : List ClassId :=
  (List.range inheritance.size).map ClassId.mk

/-- The parent of a class. -/
def parent? (inheritance : Inheritance) (id : ClassId) : Option ClassId :=
  inheritance.parents[id.index]?.join

/-- At most `count` classes above a class, nearest first. -/
def aboveWithin (inheritance : Inheritance) : Nat → ClassId → List ClassId
  | 0, _ => []
  | count + 1, id =>
    match inheritance.parent? id with
    | none => []
    | some parent => parent :: inheritance.aboveWithin count parent

/-- The classes above a class, nearest first; a cycle may be walked through more than once. -/
def above (inheritance : Inheritance) (id : ClassId) : List ClassId :=
  inheritance.aboveWithin inheritance.size id

/-- Whether a class is above itself. -/
def isCyclic (inheritance : Inheritance) (id : ClassId) : Bool := (inheritance.above id).contains id

/-- Whether no class above a class has a lower number. -/
def isLowest (inheritance : Inheritance) (id : ClassId) : Bool :=
  (inheritance.above id).all fun other => id.index ≤ other.index

/-- A class that is above itself and the classes from there up to itself. -/
def walkRound (inheritance : Inheritance) (id : ClassId) : List ClassId :=
  id :: (inheritance.above id).takeWhile fun other => other ≠ id

/-- The classes of the cycle through a class, lowest number first. -/
def cycleOf (inheritance : Inheritance) (id : ClassId) : List ClassId :=
  let round := inheritance.walkRound id
  inheritance.classIds.filter fun candidate => round.contains candidate

/-- Every cycle once, as its classes in the order of their numbers; the cycle with the lowest number
comes first. -/
def cycles (inheritance : Inheritance) : List (List ClassId) :=
  (inheritance.classIds.filter fun id => inheritance.isCyclic id && inheritance.isLowest id).map
    inheritance.cycleOf

/-- The classes that extend a class, lowest number first. -/
def children (inheritance : Inheritance) (id : ClassId) : List ClassId :=
  inheritance.classIds.filter fun candidate => inheritance.parent? candidate = some id

/-- Puts a class in front of those placed already, and in between all classes below it that have no
place yet; `depth` bounds how far down they are. -/
def placeBelow (inheritance : Inheritance) : Nat → List ClassId → ClassId → List ClassId
  | 0, placed, _ => placed
  | depth + 1, placed, id =>
    if placed.contains id then placed
    else id :: (inheritance.children id).foldl (inheritance.placeBelow depth) placed

/-- The classes in an order in which every class comes behind its parent; there is none when some
class is above itself. -/
def parentsFirst? (inheritance : Inheritance) : Option (List ClassId) :=
  if inheritance.cycles = [] then
    some (inheritance.classIds.foldl (inheritance.placeBelow inheritance.size) [])
  else none

end Inheritance

end Decaf
