import Mathlib.Data.List.Nodup
import Decaf.Proofs.Inheritance.Above

/-!
# The list of cycles and the order of classes

A cycle is a set of classes each of which is above all of them, itself included, and nothing else is
above it. The list of cycles has every such set once. The way round a cycle follows the links from
its class of lowest number until it is back there.
-/

namespace Decaf

/-- The sets of classes that some links lead round through, each of them once. -/
structure ListsCycles (links : ClassId → ClassId → Prop) (cycles : List (List ClassId)) : Prop where
  closed : ∀ cycle ∈ cycles, cycle ≠ [] ∧ cycle.Nodup ∧
    ∀ id ∈ cycle, ∀ other, other ∈ cycle ↔ Relation.TransGen links id other
  covers : ∀ id, Relation.TransGen links id id → ∃ cycle ∈ cycles, id ∈ cycle
  disjoint : cycles.Pairwise List.Disjoint

theorem ListsCycles.nil_iff {links : ClassId → ClassId → Prop} {cycles : List (List ClassId)}
    (lists : ListsCycles links cycles) : cycles = [] ↔ ∀ id, ¬ Relation.TransGen links id id := by
  constructor
  · rintro rfl id cyclic
    rcases lists.covers id cyclic with ⟨_, isCycle, _⟩
    cases isCycle
  · intro acyclic
    refine List.eq_nil_iff_forall_not_mem.mpr fun cycle isCycle => ?_
    rcases lists.closed cycle isCycle with ⟨nonempty, _, closed⟩
    rcases List.exists_mem_of_ne_nil cycle nonempty with ⟨id, isThere⟩
    exact acyclic id ((closed id isThere id).mp isThere)

namespace Inheritance

section

variable {inheritance : Inheritance}

theorem listsCycles_cycles : ListsCycles inheritance.Extends inheritance.cycles where
  closed cycle isCycle := by
    rcases mem_cycles.mp isCycle with ⟨lowest, cyclic, _, rfl⟩
    refine ⟨List.ne_nil_of_mem ((mem_cycleOf cyclic).mpr cyclic), nodup_classIds.filter _, ?_⟩
    intro id isThere other
    have isAbove := (mem_cycleOf cyclic).mp isThere
    rw [mem_cycleOf cyclic]
    exact ⟨(isAbove_back cyclic isAbove).trans, isAbove.trans⟩
  covers id cyclic := List.mem_flatten.mp (mem_flatten_cycles.mpr cyclic)
  disjoint := by
    rw [cycles, List.pairwise_map]
    refine (nodup_classIds.filter _).pairwise_of_forall_ne ?_
    simp only [List.mem_filter, Bool.and_eq_true, isCyclic_iff, isLowest_iff]
    rintro first ⟨_, firstCyclic, firstLowest⟩ second ⟨_, secondCyclic, secondLowest⟩
      differ id inFirst inSecond
    rw [mem_cycleOf firstCyclic] at inFirst
    rw [mem_cycleOf secondCyclic] at inSecond
    -- Each of the two classes of lowest number is above the other one.
    have secondAbove := inFirst.trans (isAbove_back secondCyclic inSecond)
    have firstAbove := inSecond.trans (isAbove_back firstCyclic inFirst)
    have sameIndex := Nat.le_antisymm (firstLowest _ secondAbove) (secondLowest _ firstAbove)
    exact differ (congrArg ClassId.mk sameIndex)

/-- A cycle is listed from its class of lowest number. -/
theorem head?_cycleOf {id : ClassId} (cyclic : inheritance.IsAbove id id)
    (isLowest : ∀ other, inheritance.IsAbove id other → id.index ≤ other.index) :
    (inheritance.cycleOf id).head? = some id := by
  have isThere := (mem_cycleOf cyclic).mpr cyclic
  have sorted : (inheritance.cycleOf id).Pairwise fun first second =>
      first.index < second.index := by
    apply List.Pairwise.filter
    rw [classIds, List.pairwise_map]
    exact List.pairwise_lt_range
  cases cycleEq : inheritance.cycleOf id with
  | nil => simp [cycleEq] at isThere
  | cons first later =>
    rw [cycleEq] at isThere sorted
    have firstAbove := isLowest first ((mem_cycleOf cyclic).mp (by simp [cycleEq]))
    rcases List.mem_cons.mp isThere with rfl | isLater
    · rfl
    · exact absurd ((List.pairwise_cons.mp sorted).1 id isLater) (Nat.not_lt.mpr firstAbove)

/-- A walk that stops in front of a class leads there link by link. -/
theorem isChain_takeWhile {count bound : Nat} {id stop : ClassId} (inRange : count < bound)
    (reached : inheritance.up (count + 1) id = some stop)
    (passesBy : ∀ fewer < count, inheritance.up (fewer + 1) id ≠ some stop) :
    List.IsChain inheritance.Extends
      (id :: ((inheritance.aboveWithin bound id).takeWhile fun passed => passed ≠ stop) ++
        [stop]) := by
  induction count generalizing id bound with
  | zero =>
    obtain ⟨bound, rfl⟩ := Nat.exists_eq_add_of_lt inRange
    have isParent : inheritance.parent? id = some stop := by simpa [up] using reached
    simp [aboveWithin, isParent, Extends]
  | succ count ih =>
    obtain ⟨rest, rfl⟩ := Nat.exists_eq_add_of_lt inRange
    rcases Option.bind_eq_some_iff.mp reached with ⟨parent, isParent, further⟩
    have differs : parent ≠ stop := by
      rintro rfl
      exact passesBy 0 (by omega) (by simp [up, isParent])
    have behind := @ih (count + 1 + rest) parent (by omega) further
      fun fewer isFewer passed =>
        passesBy (fewer + 1) (by omega) (by simp [up, isParent] at passed ⊢; exact passed)
    simp only [ne_eq, decide_not, List.cons_append] at behind
    simp [aboveWithin, isParent, differs, Extends, behind]

theorem isChain_walkRound {id : ClassId} (cyclic : inheritance.IsAbove id id) :
    List.IsChain inheritance.Extends (inheritance.walkRound id ++ [id]) := by
  classical
  have reachable := isAbove_iff_up.mp cyclic
  have reached := Nat.find_spec reachable
  have passesBy := fun fewer => Nat.find_min (m := fewer) reachable
  exact isChain_takeWhile (shortest_lt_size reached passesBy) reached passesBy

end

/-!
## Parents first

The order of `parentsFirst?` lists every class once, with the classes that extend a class behind it.
A class is put in front of the classes placed already after all classes below it have got their
places, and the bound on the depth is never reached, since the classes on the way down are distinct.
-/

section

variable {inheritance : Inheritance}

/-- Distinct classes, each in front of the classes that extend it, all of which are there. -/
inductive Arranged (inheritance : Inheritance) : List ClassId → Prop where
  | nil : Arranged inheritance []
  | cons {id : ClassId} {rest : List ClassId} (fresh : id ∉ rest)
      (childrenBehind : ∀ child, inheritance.Extends child id → child ∈ rest)
      (arranged : Arranged inheritance rest) : Arranged inheritance (id :: rest)

namespace Arranged

variable {ids front : List ClassId} {child parent : ClassId}

theorem nodup (arranged : inheritance.Arranged ids) : ids.Nodup := by
  induction arranged with
  | nil => exact List.nodup_nil
  | cons fresh _ _ ih => exact List.nodup_cons.mpr ⟨fresh, ih⟩

theorem child_mem (arranged : inheritance.Arranged ids)
    (parentMem : parent ∈ ids) (isParent : inheritance.Extends child parent) : child ∈ ids := by
  induction arranged with
  | nil => simp at parentMem
  | cons fresh childrenBehind _ ih =>
    rcases List.mem_cons.mp parentMem with rfl | parentMem
    · exact List.mem_cons_of_mem _ (childrenBehind child isParent)
    · exact List.mem_cons_of_mem _ (ih parentMem)

theorem of_append (arranged : inheritance.Arranged (front ++ ids)) : inheritance.Arranged ids := by
  induction front with
  | nil => exact arranged
  | cons first front ih =>
    cases arranged with
    | cons _ _ rest => exact ih rest

/-- A parent does not stand behind its child. -/
theorem parent_mem_front {rest : List ClassId}
    (arranged : inheritance.Arranged (front ++ child :: rest))
    (isParent : inheritance.Extends child parent)
    (parentMem : parent ∈ front ++ child :: rest) : parent ∈ front := by
  rcases List.mem_append.mp parentMem with inFront | parentMem
  · exact inFront
  · cases arranged.of_append with
    | cons fresh childrenBehind behind =>
      rcases List.mem_cons.mp parentMem with rfl | parentMem
      · exact absurd (childrenBehind _ isParent) fresh
      · exact absurd (behind.child_mem parentMem isParent) fresh

end Arranged

/-- Some classes get places in front of others, together with classes below them. -/
structure Places (inheritance : Inheritance) (roots before after : List ClassId) : Prop where
  arranged : inheritance.Arranged after
  keeps : before ⊆ after
  places : roots ⊆ after
  origin : ∀ id ∈ after, id ∈ before ∨ ∃ root ∈ roots, id = root ∨ inheritance.IsAbove id root

theorem places_foldl {place : List ClassId → ClassId → List ClassId} {roots : List ClassId}
    (each : ∀ root ∈ roots, ∀ before, inheritance.Arranged before →
      inheritance.Places [root] before (place before root))
    {before : List ClassId} (arranged : inheritance.Arranged before) :
    inheritance.Places roots before (roots.foldl place before) := by
  induction roots generalizing before with
  | nil => exact ⟨arranged, List.Subset.refl _, List.nil_subset _, fun id idMem => .inl idMem⟩
  | cons first roots ih =>
    have placed := each first List.mem_cons_self before arranged
    have others :=
      ih (fun root rootMem => each root (List.mem_cons_of_mem _ rootMem)) placed.arranged
    refine ⟨others.arranged, List.Subset.trans placed.keeps others.keeps, ?_, ?_⟩
    · exact List.cons_subset.mpr
        ⟨others.keeps (placed.places List.mem_cons_self), others.places⟩
    · intro id idMem
      rcases others.origin id idMem with idMem | ⟨root, rootMem, below⟩
      · rcases placed.origin id idMem with idMem | ⟨root, rootMem, below⟩
        · exact .inl idMem
        · exact .inr ⟨root, List.mem_cons.mpr (.inl (List.mem_singleton.mp rootMem)), below⟩
      · exact .inr ⟨root, List.mem_cons_of_mem _ rootMem, below⟩

theorem mem_children {id child : ClassId} :
    child ∈ inheritance.children id ↔ inheritance.Extends child id := by
  rw [children, List.mem_filter, mem_classIds, decide_eq_true_iff]
  exact ⟨And.right, fun isParent => ⟨index_lt_of_extends isParent, isParent⟩⟩

/-- The `trail` holds the classes from which the walk came down to a class. -/
theorem places_placeBelow (acyclic : inheritance.Acyclic) {depth : Nat}
    {trail placed : List ClassId} {id : ClassId} (known : id.index < inheritance.size)
    (trailNodup : trail.Nodup)
    (trailAbove : ∀ passed ∈ trail, inheritance.IsAbove id passed ∧ passed.index < inheritance.size)
    (deep : inheritance.size ≤ trail.length + depth) (arranged : inheritance.Arranged placed) :
    inheritance.Places [id] placed (inheritance.placeBelow depth placed id) := by
  have idFresh : id ∉ trail := fun idMem => acyclic id (trailAbove id idMem).1
  have walkNodup : (id :: trail).Nodup := List.nodup_cons.mpr ⟨idFresh, trailNodup⟩
  have walkKnown : ∀ passed ∈ id :: trail, passed.index < inheritance.size := by
    intro passed passedMem
    rcases List.mem_cons.mp passedMem with rfl | passedMem
    · exact known
    · exact (trailAbove passed passedMem).2
  induction depth generalizing trail placed id with
  | zero =>
    have short := length_le_size walkNodup walkKnown
    simp only [List.length_cons] at short
    omega
  | succ depth ih =>
    rw [placeBelow]
    split
    next isPlaced =>
      have idMem := List.contains_iff_mem.mp isPlaced
      exact ⟨arranged, List.Subset.refl _, by simpa using idMem,
        fun other otherMem => .inl otherMem⟩
    next notPlaced =>
      have below : inheritance.Places (inheritance.children id) placed
          ((inheritance.children id).foldl (inheritance.placeBelow depth) placed) := by
        refine places_foldl ?_ arranged
        intro child childMem before beforeArranged
        have isParent := mem_children.mp childMem
        have childAbove : ∀ passed ∈ id :: trail,
            inheritance.IsAbove child passed ∧ passed.index < inheritance.size := by
          intro passed passedMem
          refine ⟨?_, walkKnown passed passedMem⟩
          rcases List.mem_cons.mp passedMem with rfl | passedMem
          · exact .single isParent
          · exact .head isParent (trailAbove passed passedMem).1
        have childKnown := index_lt_of_extends isParent
        have childFresh : child ∉ id :: trail := fun childMem =>
          acyclic child (childAbove child childMem).1
        refine ih childKnown walkNodup childAbove ?_ beforeArranged childFresh
          (List.nodup_cons.mpr ⟨childFresh, walkNodup⟩) ?_
        · simp only [List.length_cons]
          omega
        · intro passed passedMem
          rcases List.mem_cons.mp passedMem with rfl | passedMem
          · exact childKnown
          · exact walkKnown passed passedMem
      have isFresh : id ∉ (inheritance.children id).foldl (inheritance.placeBelow depth)
          placed := by
        intro idMem
        rcases below.origin id idMem with idMem | ⟨child, childMem, isBelow⟩
        · exact notPlaced (List.contains_iff_mem.mpr idMem)
        · have isParent := mem_children.mp childMem
          rcases isBelow with rfl | isBelow
          · exact acyclic id (.single isParent)
          · exact acyclic id (isBelow.tail isParent)
      refine ⟨.cons isFresh ?_ below.arranged, ?_, by simp, ?_⟩
      · intro child isParent
        exact below.places (mem_children.mpr isParent)
      · exact List.subset_cons_of_subset _ below.keeps
      · intro other otherMem
        rcases List.mem_cons.mp otherMem with rfl | otherMem
        · exact .inr ⟨other, by simp, .inl rfl⟩
        · rcases below.origin other otherMem with otherMem | ⟨child, childMem, isBelow⟩
          · exact .inl otherMem
          · have isParent := mem_children.mp childMem
            refine .inr ⟨id, by simp, .inr ?_⟩
            rcases isBelow with rfl | isBelow
            · exact .single isParent
            · exact isBelow.tail isParent

theorem parentsFirst?_of_acyclic (acyclic : inheritance.Acyclic) :
    ∃ order, inheritance.parentsFirst? = some order ∧ inheritance.Arranged order ∧
      order.Perm inheritance.classIds := by
  have placed : inheritance.Places inheritance.classIds []
      (inheritance.classIds.foldl (inheritance.placeBelow inheritance.size) []) := by
    refine places_foldl ?_ .nil
    intro id idMem before arranged
    exact @places_placeBelow _ acyclic _ [] _ _ (mem_classIds.mp idMem) List.nodup_nil (by simp)
      (by simp) arranged
  refine ⟨_, if_pos (cycles_eq_nil_iff.mpr acyclic), placed.arranged, ?_⟩
  refine (List.perm_ext_iff_of_nodup placed.arranged.nodup nodup_classIds).mpr ?_
  intro id
  refine ⟨?_, fun idMem => placed.places idMem⟩
  intro idMem
  rcases placed.origin id idMem with idMem | ⟨root, rootMem, isBelow⟩
  · simp at idMem
  · rcases isBelow with rfl | isBelow
    · exact rootMem
    · rcases Relation.TransGen.head'_iff.mp isBelow with ⟨_, isParent, _⟩
      exact mem_classIds.mpr (index_lt_of_extends isParent)

end

end Inheritance

end Decaf
