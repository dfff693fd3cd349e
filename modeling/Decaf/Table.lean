import Std.Data.TreeMap

/-!
# Findings by number

A table holds what a phase found out about some of the numbered nodes or declarations of a program.
-/

namespace Decaf

/-- A finite map from numbers. -/
structure Table (Finding : Type) where
  /-- The findings in the order of the numbers. -/
  entries : Std.TreeMap Nat Finding compare

namespace Table

variable {Finding : Type}

/-- The table without findings. -/
def empty : Table Finding := ⟨∅⟩

instance : Inhabited (Table Finding) := ⟨empty⟩

/-- What was found about a number. -/
def get? (table : Table Finding) (number : Nat) : Option Finding := table.entries[number]?

/-- Records a finding in place of an earlier one. -/
def insert (table : Table Finding) (number : Nat) (finding : Finding) : Table Finding :=
  ⟨table.entries.insert number finding⟩

/-- About how many numbers something was found. -/
def size (table : Table Finding) : Nat := table.entries.size

@[simp]
theorem get?_empty (number : Nat) : (empty : Table Finding).get? number = none := by
  simp [empty, get?]

theorem get?_insert (table : Table Finding) (number other : Nat) (finding : Finding) :
    (table.insert number finding).get? other =
      if number = other then some finding else table.get? other := by
  simp [insert, get?, Std.TreeMap.getElem?_insert]

@[simp]
theorem get?_insert_self (table : Table Finding) (number : Nat) (finding : Finding) :
    (table.insert number finding).get? number = some finding := by
  simp [get?_insert]

end Table

end Decaf
