import Mathlib.Data.List.Basic
import Mathlib.Data.List.Nodup
import Mathlib.Data.List.Perm.Subperm
import Mathlib.Data.Nat.Find
import Mathlib.Logic.Relation
import Decaf.Inheritance

/-!
# Walking up

The classes above a class as a relation: the transitive closure of the parent links. The bounded
walk of `above` finds all of them, since a shortest way up visits no class twice. So a relation
without cycles in the sense of `cycles` is one in which no class is above itself.
-/

namespace Decaf

namespace Inheritance

variable {inheritance : Inheritance}
variable {other : ClassId}

/-- One class extends another. -/
def Extends (inheritance : Inheritance) (child parent : ClassId) : Prop :=
  inheritance.parent? child = some parent

/-- One class is above another. -/
def IsAbove (inheritance : Inheritance) (id other : ClassId) : Prop :=
  Relation.TransGen inheritance.Extends id other

/-- No class is above itself. -/
def Acyclic (inheritance : Inheritance) : Prop := ∀ id, ¬ inheritance.IsAbove id id

/-- Every parent is one of the classes. -/
def InRange (inheritance : Inheritance) : Prop :=
  ∀ child parent, inheritance.Extends child parent → parent.index < inheritance.size

theorem index_lt_of_extends {child parent : ClassId} (isParent : inheritance.Extends child parent) :
    child.index < inheritance.size := by
  by_contra outside
  have unknown : inheritance.parents[child.index]? = none := by
    simpa [size] using outside
  simp [Extends, parent?, unknown] at isParent

theorem mem_classIds {id : ClassId} : id ∈ inheritance.classIds ↔ id.index < inheritance.size := by
  constructor
  · intro idMem
    rcases List.mem_map.mp idMem with ⟨number, numberMem, rfl⟩
    exact List.mem_range.mp numberMem
  · intro idLt
    exact List.mem_map.mpr ⟨id.index, List.mem_range.mpr idLt, rfl⟩

theorem nodup_classIds : inheritance.classIds.Nodup :=
  List.nodup_range.map fun _ _ same => congrArg ClassId.index same

theorem length_classIds : inheritance.classIds.length = inheritance.size := by
  simp [classIds]

theorem length_le_size {ids : List ClassId} (nodup : ids.Nodup)
    (inRange : ∀ id ∈ ids, id.index < inheritance.size) : ids.length ≤ inheritance.size := by
  have isSubset : ids ⊆ inheritance.classIds := fun id idMem => mem_classIds.mpr (inRange id idMem)
  simpa [length_classIds] using (List.subperm_of_subset nodup isSubset).length_le

/-! ## The walk in steps -/

/-- The class a number of steps above a class. -/
def up (inheritance : Inheritance) : Nat → ClassId → Option ClassId
  | 0, id => some id
  | count + 1, id => (inheritance.parent? id).bind (inheritance.up count)

theorem up_add (first second : Nat) (id : ClassId) :
    inheritance.up (first + second) id = (inheritance.up first id).bind
      (inheritance.up second) := by
  induction first generalizing id with
  | zero => simp [up]
  | succ first ih =>
    rw [Nat.succ_add_eq_add_succ, Nat.add_succ]
    cases parentEq : inheritance.parent? id with
    | none => simp [up, parentEq]
    | some parent => simp [up, parentEq, ih]

theorem isAbove_iff_up {id : ClassId} :
    inheritance.IsAbove id other ↔ ∃ count, inheritance.up (count + 1) id = some other := by
  constructor
  · intro isAbove
    induction isAbove with
    | single isParent => exact ⟨0, by simp [up, show _ = _ from isParent]⟩
    | tail _ isParent ih =>
      rcases ih with ⟨count, reached⟩
      refine ⟨count + 1, ?_⟩
      rw [up_add, reached]
      simp [up, show _ = _ from isParent]
  · rintro ⟨count, reached⟩
    induction count generalizing id with
    | zero =>
      rcases Option.bind_eq_some_iff.mp reached with ⟨parent, isParent, same⟩
      cases same
      exact .single isParent
    | succ count ih =>
      rcases Option.bind_eq_some_iff.mp reached with ⟨parent, isParent, rest⟩
      exact .head isParent (ih rest)

theorem mem_aboveWithin {bound : Nat} {id : ClassId} :
    other ∈ inheritance.aboveWithin bound id ↔
      ∃ count < bound, inheritance.up (count + 1) id = some other := by
  induction bound generalizing id with
  | zero => simp [aboveWithin]
  | succ bound ih =>
    rw [aboveWithin]
    cases parentEq : inheritance.parent? id with
    | none => simp [up, parentEq]
    | some parent =>
      simp only [List.mem_cons, ih]
      constructor
      · rintro (rfl | ⟨count, countLt, reached⟩)
        · exact ⟨0, by omega, by simp [up, parentEq]⟩
        · exact ⟨count + 1, by omega, by simpa [up, parentEq] using reached⟩
      · rintro ⟨_ | count, countLt, reached⟩
        · left
          simpa [up, parentEq, eq_comm] using reached
        · right
          exact ⟨count, by omega, by simpa [up, parentEq] using reached⟩

theorem up_shortened {first second rest : Nat} {id passed : ClassId}
    (earlier : inheritance.up first id = some passed)
    (later : inheritance.up second id = some passed)
    (reached : inheritance.up (second + rest) id = some other) :
    inheritance.up (first + rest) id = some other := by
  rw [up_add, later] at reached
  rw [up_add, earlier]
  exact reached

theorem lt_size_of_distinct {count : Nat} {passed : Nat → ClassId}
    (known : ∀ step ≤ count, (passed step).index < inheritance.size)
    (distinct : ∀ first second, first < second → second ≤ count → passed first ≠ passed second) :
    count < inheritance.size := by
  have nodup : ((List.range (count + 1)).map passed).Nodup := by
    refine List.nodup_range.map_on ?_
    intro first firstMem second secondMem same
    rw [List.mem_range] at firstMem secondMem
    rcases Nat.lt_trichotomy first second with firstLt | equal | secondLt
    · exact absurd same (distinct first second firstLt (by omega))
    · exact equal
    · exact absurd same.symm (distinct second first secondLt (by omega))
  have bounded := @length_le_size inheritance _ nodup (by
    intro id idMem
    rcases List.mem_map.mp idMem with ⟨step, stepMem, rfl⟩
    rw [List.mem_range] at stepMem
    exact known step (by omega))
  rw [List.length_map, List.length_range] at bounded
  exact bounded

/-- A shortest way up passes through distinct classes that all have a parent, so it is no longer
than there are classes. -/
theorem shortest_lt_size {count : Nat} {id : ClassId}
    (reached : inheritance.up (count + 1) id = some other)
    (shortest : ∀ fewer < count, inheritance.up (fewer + 1) id ≠ some other) :
    count < inheritance.size := by
  have passes : ∀ step ≤ count, ∃ passed, inheritance.up step id = some passed ∧
      passed.index < inheritance.size := by
    intro step stepLe
    have split := reached
    rw [show count + 1 = step + ((count - step) + 1) by omega, up_add] at split
    rcases Option.bind_eq_some_iff.mp split with ⟨passed, passedEq, further⟩
    rcases Option.bind_eq_some_iff.mp further with ⟨parent, isParent, _⟩
    exact ⟨passed, passedEq, index_lt_of_extends isParent⟩
  choose! passed passedEq known using passes
  refine lt_size_of_distinct known ?_
  intro first second firstLt secondLe same
  have earlier := passedEq first (by omega)
  rw [same] at earlier
  have arrived : inheritance.up (second + ((count - second) + 1)) id = some other := by
    rwa [show second + ((count - second) + 1) = count + 1 by omega]
  have shortened := up_shortened earlier (passedEq second secondLe) arrived
  exact shortest (first + (count - second)) (by omega) (by simpa [Nat.add_assoc] using shortened)

/-- Without cycles no way up has as many steps as there are classes. -/
theorem up_size_eq_none (acyclic : inheritance.Acyclic) (known : inheritance.InRange) {id : ClassId}
    (idKnown : id.index < inheritance.size) : inheritance.up inheritance.size id = none := by
  by_contra reached
  rcases Option.ne_none_iff_exists'.mp reached with ⟨last, lastEq⟩
  have passes : ∀ step ≤ inheritance.size, ∃ passed, inheritance.up step id = some passed := by
    intro step stepLe
    have split := lastEq
    rw [show inheritance.size = step + (inheritance.size - step) by omega, up_add] at split
    rcases Option.bind_eq_some_iff.mp split with ⟨passed, passedEq, _⟩
    exact ⟨passed, passedEq⟩
  choose! passed passedEq using passes
  have allKnown : ∀ step ≤ inheritance.size, (passed step).index < inheritance.size := by
    intro step stepLe
    have stepEq := passedEq step stepLe
    cases step with
    | zero =>
      cases stepEq
      exact idKnown
    | succ step =>
      rw [up_add, passedEq step (by omega)] at stepEq
      have isParent : inheritance.Extends (passed step) (passed (step + 1)) := by
        simpa [up, Extends] using stepEq
      exact known _ _ isParent
  refine absurd (lt_size_of_distinct allKnown ?_) (Nat.lt_irrefl _)
  intro first second firstLt secondLe same
  have later := passedEq second secondLe
  rw [show second = first + ((second - first - 1) + 1) by omega, up_add,
    passedEq first (by omega)] at later
  rw [show first + ((second - first - 1) + 1) = second by omega, ← same] at later
  exact acyclic _ (isAbove_iff_up.mpr ⟨_, later⟩)

theorem mem_above_iff {id : ClassId} :
    other ∈ inheritance.above id ↔ inheritance.IsAbove id other := by
  rw [above, mem_aboveWithin, isAbove_iff_up]
  constructor
  · rintro ⟨count, _, reached⟩
    exact ⟨count, reached⟩
  · intro reachable
    classical
    have reached := Nat.find_spec reachable
    exact ⟨Nat.find reachable, shortest_lt_size reached fun _ fewer => Nat.find_min reachable fewer,
      reached⟩

/-! ## Cycles -/

theorem isCyclic_iff {id : ClassId} :
    inheritance.isCyclic id = true ↔ inheritance.IsAbove id id := by
  rw [isCyclic, List.contains_iff_mem, mem_above_iff]

theorem isLowest_iff {id : ClassId} :
    inheritance.isLowest id = true ↔ ∀ other, inheritance.IsAbove id other →
      id.index ≤ other.index := by
  simp [isLowest, List.all_eq_true, mem_above_iff]

/-- From every class above a class on a cycle the way leads back to that class. -/
theorem isAbove_back {id : ClassId} (cyclic : inheritance.IsAbove id id)
    (isAbove : inheritance.IsAbove id other) : inheritance.IsAbove other id := by
  have stepBack : ∀ {child parent : ClassId}, inheritance.IsAbove child id →
      inheritance.Extends child parent → parent = id ∨ inheritance.IsAbove parent id := by
    intro child parent leadsBack isParent
    rcases Relation.TransGen.head'_iff.mp leadsBack with ⟨next, nextExtends, rest⟩
    have same : next = parent := Option.some.inj (nextExtends.symm.trans isParent)
    subst same
    rcases Relation.reflTransGen_iff_eq_or_transGen.mp rest with same | rest
    · exact .inl same.symm
    · exact .inr rest
  induction isAbove with
  | single isParent =>
    rcases stepBack cyclic isParent with rfl | leadsBack
    · exact cyclic
    · exact leadsBack
  | tail _ isParent ih =>
    rcases stepBack ih isParent with rfl | leadsBack
    · exact cyclic
    · exact leadsBack

/-- Every cycle has a class of lowest number. -/
theorem exists_lowest {id : ClassId} (cyclic : inheritance.IsAbove id id) :
    ∃ lowest, inheritance.IsAbove id lowest ∧ inheritance.isCyclic lowest = true ∧
      inheritance.isLowest lowest = true := by
  classical
  have occupied : ∃ number, inheritance.IsAbove id ⟨number⟩ := ⟨id.index, cyclic⟩
  have lowestAbove := Nat.find_spec occupied
  have isMinimal := fun number => Nat.find_min' (m := number) occupied
  have leadsBack := isAbove_back cyclic lowestAbove
  exact ⟨⟨Nat.find occupied⟩, lowestAbove, isCyclic_iff.mpr (leadsBack.trans lowestAbove),
    isLowest_iff.mpr fun other otherAbove => isMinimal other.index (lowestAbove.trans otherAbove)⟩

theorem cycles_eq_nil_iff : inheritance.cycles = [] ↔ inheritance.Acyclic := by
  rw [cycles, List.map_eq_nil_iff, List.filter_eq_nil_iff]
  constructor
  · intro noLowest id cyclic
    rcases exists_lowest cyclic with ⟨lowest, _, lowestCyclic, isLowest⟩
    rcases Relation.TransGen.head'_iff.mp (isCyclic_iff.mp lowestCyclic) with ⟨_, isParent, _⟩
    have known := mem_classIds.mpr (index_lt_of_extends isParent)
    exact noLowest lowest known (by simp [lowestCyclic, isLowest])
  · intro acyclic id _ isRoot
    rw [Bool.and_eq_true] at isRoot
    exact acyclic id (isCyclic_iff.mp isRoot.1)

theorem mem_takeWhile_aboveWithin {count bound : Nat} {id stop : ClassId} (inRange : count < bound)
    (reached : inheritance.up (count + 1) id = some other) (differs : other ≠ stop)
    (passesBy : ∀ fewer < count, inheritance.up (fewer + 1) id ≠ some stop) :
    other ∈ (inheritance.aboveWithin bound id).takeWhile fun passed => passed ≠ stop := by
  induction count generalizing id bound with
  | zero =>
    obtain ⟨bound, rfl⟩ := Nat.exists_eq_add_of_lt inRange
    have isParent : inheritance.parent? id = some other := by simpa [up] using reached
    simp [aboveWithin, isParent, differs]
  | succ count ih =>
    obtain ⟨rest, rfl⟩ := Nat.exists_eq_add_of_lt inRange
    rcases Option.bind_eq_some_iff.mp reached with ⟨parent, isParent, further⟩
    have parentDiffers : parent ≠ stop := by
      rintro rfl
      exact passesBy 0 (by omega) (by simp [up, isParent])
    have behind := @ih (count + 1 + rest) parent (by omega) further
      fun fewer isFewer passed =>
        passesBy (fewer + 1) (by omega) (by simp [up, isParent] at passed ⊢; exact passed)
    simp only [ne_eq, decide_not] at behind
    simp [aboveWithin, isParent, parentDiffers, behind]

section

variable {id : ClassId} (cyclic : inheritance.IsAbove id id)
include cyclic

theorem index_lt_of_cyclic : id.index < inheritance.size := by
  rcases Relation.TransGen.head'_iff.mp cyclic with ⟨_, isParent, _⟩
  exact index_lt_of_extends isParent

/-- The way round a cycle passes through all classes above the one where it starts. -/
theorem mem_walkRound : other ∈ inheritance.walkRound id ↔ inheritance.IsAbove id other := by
  rw [walkRound, List.mem_cons]
  constructor
  · rintro (rfl | isBehind)
    · exact cyclic
    · exact mem_above_iff.mp ((List.takeWhile_prefix _).subset isBehind)
  · intro isAbove
    by_cases same : other = id
    · exact .inl same
    · classical
      have reachable := isAbove_iff_up.mp isAbove
      have reached := Nat.find_spec reachable
      have inRange := shortest_lt_size reached fun _ fewer => Nat.find_min reachable fewer
      refine .inr (mem_takeWhile_aboveWithin inRange reached same ?_)
      intro fewer isFewer back
      rw [show Nat.find reachable + 1 = (fewer + 1) + (Nat.find reachable - fewer - 1 + 1) by omega,
        up_add, back] at reached
      exact Nat.find_min reachable (by omega) reached

theorem mem_cycleOf : other ∈ inheritance.cycleOf id ↔ inheritance.IsAbove id other := by
  simp only [cycleOf, List.mem_filter, List.contains_iff_mem, mem_walkRound cyclic,
    and_iff_right_iff_imp, mem_classIds]
  intro isAbove
  have otherCyclic := (isAbove_back cyclic isAbove).trans isAbove
  exact index_lt_of_cyclic otherCyclic

end

theorem mem_cycles {cycle : List ClassId} :
    cycle ∈ inheritance.cycles ↔ ∃ id, inheritance.IsAbove id id ∧
    (∀ other, inheritance.IsAbove id other → id.index ≤ other.index) ∧
    inheritance.cycleOf id = cycle := by
  simp only [cycles, List.mem_map, List.mem_filter, Bool.and_eq_true, isCyclic_iff,
    isLowest_iff, mem_classIds]
  constructor
  · rintro ⟨id, ⟨_, cyclic, isLowest⟩, cycleEq⟩
    exact ⟨id, cyclic, isLowest, cycleEq⟩
  · rintro ⟨id, cyclic, isLowest, cycleEq⟩
    exact ⟨id, ⟨index_lt_of_cyclic cyclic, cyclic, isLowest⟩, cycleEq⟩

/-- Every class on a cycle is listed with its cycle. -/
theorem mem_flatten_cycles {id : ClassId} :
    id ∈ inheritance.cycles.flatten ↔ inheritance.IsAbove id id := by
  rw [List.mem_flatten]
  constructor
  · rintro ⟨cycle, isCycle, isThere⟩
    rcases mem_cycles.mp isCycle with ⟨lowest, cyclic, _, rfl⟩
    have isAbove := (mem_cycleOf cyclic).mp isThere
    exact (isAbove_back cyclic isAbove).trans isAbove
  · intro cyclic
    rcases exists_lowest cyclic with ⟨lowest, lowestAbove, lowestCyclic, isLowest⟩
    rw [isCyclic_iff] at lowestCyclic
    refine ⟨inheritance.cycleOf lowest,
      mem_cycles.mpr ⟨lowest, lowestCyclic, isLowest_iff.mp isLowest, rfl⟩, ?_⟩
    exact (mem_cycleOf lowestCyclic).mpr (isAbove_back cyclic lowestAbove)

end Inheritance

end Decaf
