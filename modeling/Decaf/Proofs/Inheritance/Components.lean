import Mathlib.Data.List.Chain
import Mathlib.Data.List.Sort
import Mathlib.Data.List.TakeWhile
import Decaf.Ordered
import Decaf.Proofs.Inheritance.Order

/-!
# Cycles as rounds and as components

A round leads from a class through distinct classes back to where it began, link by link. As a class
extends at most one other, rounds that meet have the same classes, and everything above one of them
is on the round. So a cycle of the list is a round in the order of numbers, every round is in the
list once, and the cycles are those strongly connected components of the links that have a link
inside.
-/

namespace Decaf

variable {first second ids : List ClassId}

/-- Distinct classes, each linked to the next one and the last one to the first. -/
structure IsRound (links : ClassId → ClassId → Prop) (round : List ClassId) : Prop where
  nonempty : round ≠ []
  nodup : round.Nodup
  closed : List.IsChain links (round ++ round.head?.toList)

/-- The strongly connected components of links between some classes, in any order. -/
structure ListsComponents (links : ClassId → ClassId → Prop) (ids : List ClassId)
    (components : List (List ClassId)) : Prop where
  perm : components.flatten.Perm ids
  nonempty : ∀ component ∈ components, component ≠ []
  connected : ∀ component ∈ components, ∀ id ∈ component, ∀ other, other ∈ component ↔
    Relation.ReflTransGen links id other ∧ Relation.ReflTransGen links other id

/-! ## Orders -/

/-- The order of dictionaries. -/
def isListedFirst : List ClassId → List ClassId → Bool
  | [], _ => true
  | _ :: _, [] => false
  | first :: front, second :: behind =>
    decide (first.index < second.index) ||
      (decide (first.index = second.index) && isListedFirst front behind)

/-- Classes in the order of their numbers. -/
def inOrder (ids : List ClassId) : List ClassId :=
  sortBy (fun first second => decide (first.index ≤ second.index)) ids

theorem isListedFirst_total (first second : List ClassId) :
    (isListedFirst first second || isListedFirst second first) = true := by
  induction first generalizing second with
  | nil => simp [isListedFirst]
  | cons head front ih =>
    cases second with
    | nil => simp [isListedFirst]
    | cons other behind =>
      have rest := ih behind
      rcases Nat.lt_trichotomy head.index other.index with isLess | same | isMore
      · simp [isListedFirst, isLess]
      · simpa [isListedFirst, same] using rest
      · simp [isListedFirst, isMore]

theorem isListedFirst_trans {third : List ClassId} (early : isListedFirst first second = true)
    (late : isListedFirst second third = true) : isListedFirst first third = true := by
  induction first generalizing second third with
  | nil => simp [isListedFirst]
  | cons head front ih =>
    cases second with
    | nil => simp [isListedFirst] at early
    | cons other behind =>
      cases third with
      | nil => simp [isListedFirst] at late
      | cons last rest =>
        simp only [isListedFirst, Bool.or_eq_true, Bool.and_eq_true,
          decide_eq_true_eq] at early late ⊢
        rcases early with isLess | ⟨same, early⟩
        · left
          omega
        · rcases late with isLess | ⟨sameLast, late⟩
          · left
            omega
          · right
            exact ⟨same.trans sameLast, ih early late⟩

theorem isListedFirst_antisymm (early : isListedFirst first second = true)
    (late : isListedFirst second first = true) : first = second := by
  induction first generalizing second with
  | nil =>
    cases second with
    | nil => rfl
    | cons => simp [isListedFirst] at late
  | cons head front ih =>
    cases second with
    | nil => simp [isListedFirst] at early
    | cons other behind =>
      simp only [isListedFirst, Bool.or_eq_true, Bool.and_eq_true, decide_eq_true_eq] at early late
      rcases early with isLess | ⟨same, early⟩
      · omega
      · rcases late with isMore | ⟨_, late⟩
        · omega
        · rw [ih early late, show head = other from congrArg ClassId.mk same]

theorem mem_inOrder {id : ClassId} : id ∈ inOrder ids ↔ id ∈ ids :=
  (perm_sortBy _ ids).mem_iff

/-- Only one list has the same classes in the order of their numbers. -/
theorem eq_inOrder {sorted : List ClassId}
    (ascending : sorted.Pairwise fun first second => first.index < second.index) (nodup : ids.Nodup)
    (sameClasses : ∀ id, id ∈ sorted ↔ id ∈ ids) : inOrder ids = sorted := by
  have isSorted : (inOrder ids).Pairwise fun first second => first.index ≤ second.index := by
    have total (first second : ClassId) :
        (decide (first.index ≤ second.index) || decide (second.index ≤ first.index)) = true := by
      simp only [Bool.or_eq_true, decide_eq_true_eq]
      omega
    have transitive {first second third : ClassId}
        (early : decide (first.index ≤ second.index) = true)
        (late : decide (second.index ≤ third.index) = true) :
        decide (first.index ≤ third.index) = true := by
      simp only [decide_eq_true_eq] at early late ⊢
      omega
    simpa [inOrder] using pairwise_sortBy total transitive ids
  have sortedNodup : sorted.Nodup := by
    apply ascending.imp
    intro first second isLess same
    simp [same] at isLess
  have perm : (inOrder ids).Perm sorted :=
    (perm_sortBy _ ids).trans ((List.perm_ext_iff_of_nodup nodup sortedNodup).mpr fun id =>
      (sameClasses id).symm)
  apply List.Perm.eq_of_pairwise _ isSorted (ascending.imp Nat.le_of_lt) perm
  intro first second _ _ isLess isMore
  exact congrArg ClassId.mk (Nat.le_antisymm isLess isMore)

namespace Inheritance

variable {inheritance : Inheritance}
variable {id stop : ClassId} {ids : List ClassId}

/-! ## Rounds -/

/-- From a class on a round the links lead to the classes of the round and to no others. -/
theorem mem_iff_isAbove_of_isRound {round : List ClassId}
    (isRound : IsRound inheritance.Extends round) (isThere : id ∈ round) (other : ClassId) :
    other ∈ round ↔ inheritance.IsAbove id other := by
  cases round with
  | nil => exact absurd rfl isRound.nonempty
  | cons first rest =>
    have closed : List.IsChain inheritance.Extends (first :: rest ++ [first]) := isRound.closed
    have walk : (first :: rest ++ [first]).Pairwise inheritance.IsAbove := by
      have : Trans inheritance.IsAbove inheritance.IsAbove inheritance.IsAbove := ⟨.trans⟩
      apply List.isChain_iff_pairwise.mp
      exact closed.imp fun _ _ => .single
    have back : ∀ passed ∈ first :: rest, inheritance.IsAbove passed first := by
      intro passed isPassed
      exact (List.pairwise_append.mp walk).2.2 passed isPassed first (by simp)
    have ahead : ∀ passed ∈ first :: rest, inheritance.IsAbove first passed := by
      intro passed isPassed
      rcases List.mem_cons.mp isPassed with rfl | isLater
      · exact back passed isPassed
      · exact (List.pairwise_cons.mp walk).1 passed (List.mem_append_left _ isLater)
    -- The parent of a class on the round is the class that the round goes on with.
    have staysOn : ∀ passed ∈ first :: rest, ∀ parent, inheritance.Extends passed parent →
        parent ∈ first :: rest := by
      intro passed isPassed parent isParent
      rcases List.append_of_mem isPassed with ⟨front, behind, splitEq⟩
      rw [splitEq, List.append_assoc, List.cons_append] at closed
      have goesOn := closed.right_of_append
      cases behind with
      | nil =>
        have isLink : inheritance.Extends passed first := by simpa using goesOn
        have same : parent = first := Option.some.inj (isParent.symm.trans isLink)
        simp [same]
      | cons next behind =>
        have isLink := (List.isChain_cons_cons.mp goesOn).1
        have same : parent = next := Option.some.inj (isParent.symm.trans isLink)
        simp [splitEq, same]
    constructor
    · intro otherThere
      exact (back id isThere).trans (ahead other otherThere)
    · intro isAbove
      induction isAbove with
      | single isParent => exact staysOn id isThere _ isParent
      | tail _ isParent ih => exact staysOn _ ih _ isParent

/-- There is one way up to a class that is not passed before. -/
theorem way_unique {first : ClassId} {front behind : List ClassId}
    (one : List.IsChain inheritance.Extends (first :: front ++ [stop]))
    (other : List.IsChain inheritance.Extends (first :: behind ++ [stop]))
    (notInFront : stop ∉ front) (notBehind : stop ∉ behind) : front = behind := by
  induction front generalizing first behind with
  | nil =>
    cases behind with
    | nil => rfl
    | cons next behind =>
      have toStop : inheritance.Extends first stop := by simpa using one
      have toNext := (List.isChain_cons_cons.mp other).1
      have same : stop = next := Option.some.inj (toStop.symm.trans toNext)
      simp [same] at notBehind
  | cons passed front ih =>
    have toPassed := (List.isChain_cons_cons.mp one).1
    cases behind with
    | nil =>
      have toStop : inheritance.Extends first stop := by simpa using other
      have same : stop = passed := Option.some.inj (toStop.symm.trans toPassed)
      simp [same] at notInFront
    | cons next behind =>
      have toNext := (List.isChain_cons_cons.mp other).1
      obtain rfl : passed = next := Option.some.inj (toPassed.symm.trans toNext)
      rw [ih (List.isChain_cons_cons.mp one).2 (List.isChain_cons_cons.mp other).2
        (fun isThere => notInFront (List.mem_cons_of_mem _ isThere))
        (fun isThere => notBehind (List.mem_cons_of_mem _ isThere))]

/-- A way up to a class that is not passed before visits no class twice. -/
theorem nodup_of_isChain {way : List ClassId}
    (leads : List.IsChain inheritance.Extends (way ++ [stop])) (notPassed : stop ∉ way) :
    way.Nodup := by
  induction way with
  | nil => exact List.nodup_nil
  | cons first rest ih =>
    have notInRest : stop ∉ rest := fun isThere => notPassed (List.mem_cons_of_mem _ isThere)
    apply List.nodup_cons.mpr
    constructor
    · intro again
      rcases List.append_of_mem again with ⟨front, behind, restEq⟩
      have shorter : List.IsChain inheritance.Extends (first :: behind ++ [stop]) := by
        apply leads.suffix
        exact ⟨first :: front, by simp [restEq]⟩
      have notBehind : stop ∉ behind := fun isThere => notInRest (by simp [restEq, isThere])
      have same := congrArg List.length (way_unique leads shorter notInRest notBehind)
      simp [restEq] at same
      omega
    · exact ih leads.tail notInRest

theorem isRound_walkRound (cyclic : inheritance.IsAbove id id) :
    IsRound inheritance.Extends (inheritance.walkRound id) where
  nonempty := by simp [walkRound]
  nodup := by
    have notAgain : id ∉ (inheritance.above id).takeWhile fun passed => passed ≠ id := by
      intro isThere
      simpa using List.mem_takeWhile_imp isThere
    have leads := isChain_walkRound cyclic
    exact List.nodup_cons.mpr ⟨notAgain, nodup_of_isChain leads.tail notAgain⟩
  closed := isChain_walkRound cyclic

/-! ## The list of cycles -/

theorem ascending_cycleOf (id : ClassId) :
    (inheritance.cycleOf id).Pairwise fun first second => first.index < second.index := by
  apply List.Pairwise.filter
  rw [classIds, List.pairwise_map]
  exact List.pairwise_lt_range

section

variable (cyclic : inheritance.IsAbove id id) (nodup : ids.Nodup)
  (sameClasses : ∀ other, other ∈ ids ↔ inheritance.IsAbove id other)
include cyclic nodup sameClasses

/-- The classes of a cycle in the order of their numbers, whichever way they are given. -/
theorem inOrder_eq_cycleOf : inOrder ids = inheritance.cycleOf id := by
  apply eq_inOrder (ascending_cycleOf id) nodup
  intro other
  rw [mem_cycleOf cyclic, sameClasses]

theorem inOrder_mem_cycles : inOrder ids ∈ inheritance.cycles := by
  rcases exists_lowest cyclic with ⟨lowest, lowestAbove, lowestCyclic, isLowest⟩
  rw [isCyclic_iff] at lowestCyclic
  have fromLowest : ∀ other, other ∈ ids ↔ inheritance.IsAbove lowest other := by
    intro other
    rw [sameClasses]
    exact ⟨(isAbove_back cyclic lowestAbove).trans, lowestAbove.trans⟩
  rw [inOrder_eq_cycleOf lowestCyclic nodup fromLowest]
  exact mem_cycles.mpr ⟨lowest, lowestCyclic, isLowest_iff.mp isLowest, rfl⟩

end

theorem nodup_cycles : inheritance.cycles.Nodup := by
  have lists := inheritance.listsCycles_cycles
  apply lists.disjoint.imp_of_mem
  intro first second isFirst _ apart same
  rcases List.exists_mem_of_ne_nil first (lists.closed first isFirst).1 with ⟨id, isThere⟩
  exact apart isThere (same ▸ isThere)

/-- A cycle comes before those whose lowest numbers are higher. -/
theorem lowestFirst_cycles : inheritance.cycles.Pairwise fun first second =>
    ∀ id ∈ first.head?, ∀ other ∈ second.head?, id.index < other.index := by
  have ascending : inheritance.classIds.Pairwise fun first second =>
      first.index < second.index := by
    rw [classIds, List.pairwise_map]
    exact List.pairwise_lt_range
  rw [cycles, List.pairwise_map]
  apply (ascending.filter _).imp_of_mem
  intro first second isFirst isSecond isLess id isHead other isOther
  simp only [List.mem_filter, Bool.and_eq_true, isCyclic_iff, isLowest_iff] at isFirst isSecond
  rw [head?_cycleOf isFirst.2.1 isFirst.2.2] at isHead
  rw [head?_cycleOf isSecond.2.1 isSecond.2.2] at isOther
  cases isHead
  cases isOther
  exact isLess

/-! ## Components -/

/-- Whether a component has a link inside: it has several classes, or its only class extends
itself. -/
def holdsLink (inheritance : Inheritance) (component : List ClassId) : Bool :=
  decide (1 < component.length) || component.head?.any fun id =>
    decide (inheritance.parent? id = some id)

/-- The components with a link inside, each in the order of numbers, in the order of
dictionaries. -/
def cyclesAmong (inheritance : Inheritance) (components : List (List ClassId)) :
    List (List ClassId) :=
  sortBy isListedFirst ((components.filter inheritance.holdsLink).map inOrder)

theorem isListedFirst_of_head {first second : List ClassId} (nonempty : second ≠ [])
    (isLess : ∀ id ∈ first.head?, ∀ other ∈ second.head?, id.index < other.index) :
    isListedFirst first second = true := by
  cases first with
  | nil => simp [isListedFirst]
  | cons id front =>
    cases second with
    | nil => exact absurd rfl nonempty
    | cons other behind => simp [isListedFirst, isLess id rfl other rfl]

/-- The components are the cycles and the classes that are on none, one by one. -/
theorem listsComponents_cycles : ListsComponents inheritance.Extends inheritance.classIds
    (inheritance.cycles ++ (inheritance.classIds.filter fun id => !inheritance.isCyclic id).map
      ([·])) := by
  have lists := inheritance.listsCycles_cycles
  have onCycle {id : ClassId} : (∃ cycle ∈ inheritance.cycles, id ∈ cycle) ↔
      inheritance.IsAbove id id := by
    rw [← mem_flatten_cycles, List.mem_flatten]
  constructor
  · have nodup : (inheritance.cycles.flatten ++ inheritance.classIds.filter fun id =>
        !inheritance.isCyclic id).Nodup := by
      apply List.nodup_append.mpr
      refine ⟨List.nodup_flatten.mpr ⟨fun cycle isCycle =>
        (lists.closed cycle isCycle).2.1, lists.disjoint⟩, nodup_classIds.filter _, ?_⟩
      rintro id isThere _ isOutside rfl
      have isCyclic := isCyclic_iff.mpr (mem_flatten_cycles.mp isThere)
      simp [isCyclic] at isOutside
    rw [List.flatten_append, ← List.flatMap_def, List.flatMap_singleton']
    apply (List.perm_ext_iff_of_nodup nodup nodup_classIds).mpr
    intro id
    rw [List.mem_append, mem_flatten_cycles, List.mem_filter]
    constructor
    · rintro (cyclic | ⟨isThere, _⟩)
      · rcases Relation.TransGen.head'_iff.mp cyclic with ⟨_, isParent, _⟩
        exact mem_classIds.mpr (index_lt_of_extends isParent)
      · exact isThere
    · intro isThere
      by_cases cyclic : inheritance.IsAbove id id
      · exact .inl cyclic
      · have notCyclic : inheritance.isCyclic id = false :=
          Bool.eq_false_iff.mpr (mt isCyclic_iff.mp cyclic)
        exact .inr ⟨isThere, by rw [notCyclic, Bool.not_false]⟩
  · intro component isComponent
    rcases List.mem_append.mp isComponent with isCycle | isSingle
    · exact (lists.closed component isCycle).1
    · rcases List.mem_map.mp isSingle with ⟨id, _, rfl⟩
      simp
  · intro component isComponent id isThere other
    rcases List.mem_append.mp isComponent with isCycle | isSingle
    · have cyclic := onCycle.mp ⟨component, isCycle, isThere⟩
      rw [(lists.closed component isCycle).2.2 id isThere other]
      constructor
      · intro isAbove
        exact ⟨isAbove.to_reflTransGen, (isAbove_back cyclic isAbove).to_reflTransGen⟩
      · rintro ⟨ahead, _⟩
        exact Relation.TransGen.trans_left cyclic ahead
    · rcases List.mem_map.mp isSingle with ⟨single, isListed, rfl⟩
      obtain rfl := List.mem_singleton.mp isThere
      have notCyclic : ¬ inheritance.IsAbove id id := by
        rw [← isCyclic_iff]
        simpa using (List.mem_filter.mp isListed).2
      rw [List.mem_singleton]
      constructor
      · rintro rfl
        exact ⟨.refl, .refl⟩
      · rintro ⟨ahead, back⟩
        rcases Relation.reflTransGen_iff_eq_or_transGen.mp ahead with same | isAbove
        · exact same
        · exact absurd (Relation.TransGen.trans_left isAbove back) notCyclic

theorem exists_other (nodup : ids.Nodup) (isLong : 1 < ids.length) (id : ClassId) :
    ∃ other ∈ ids, other ≠ id := by
  match ids with
  | [] => simp at isLong
  | [_] => simp at isLong
  | first :: second :: rest =>
    by_cases same : second = id
    · refine ⟨first, by simp, ?_⟩
      rintro rfl
      simp [same] at nodup
    · exact ⟨second, by simp, same⟩

section

variable {components : List (List ClassId)} {component : List ClassId}
  (lists : ListsComponents inheritance.Extends inheritance.classIds components)

include lists

variable {id : ClassId}

theorem mem_component_iff (isComponent : component ∈ components) (isThere : id ∈ component)
    (cyclic : inheritance.IsAbove id id) (other : ClassId) :
    other ∈ component ↔ inheritance.IsAbove id other := by
  rw [lists.connected component isComponent id isThere]
  constructor
  · rintro ⟨ahead, _⟩
    exact Relation.TransGen.trans_left cyclic ahead
  · intro isAbove
    exact ⟨isAbove.to_reflTransGen, (isAbove_back cyclic isAbove).to_reflTransGen⟩

theorem nodup_component (isComponent : component ∈ components) : component.Nodup := by
  have all := lists.perm.nodup_iff.mpr nodup_classIds
  exact (List.nodup_flatten.mp all).1 component isComponent

/-- The components with a link inside are those of classes that are above themselves. -/
theorem holdsLink_iff (isComponent : component ∈ components) (isThere : id ∈ component) :
    inheritance.holdsLink component = true ↔ inheritance.IsAbove id id := by
  have nodup := nodup_component lists isComponent
  have connected := lists.connected component isComponent id isThere
  simp only [holdsLink, Bool.or_eq_true, decide_eq_true_eq]
  constructor
  · rintro (isLong | ownParent)
    · rcases exists_other nodup isLong id with ⟨other, otherThere, differs⟩
      rcases (connected other).mp otherThere with ⟨ahead, back⟩
      rcases Relation.reflTransGen_iff_eq_or_transGen.mp ahead with same | isAbove
      · exact absurd same differs
      · exact Relation.TransGen.trans_left isAbove back
    · rcases (Option.any_eq_true _ _).mp ownParent with ⟨first, isFirst, same⟩
      have isParent : inheritance.parent? first = some first := of_decide_eq_true same
      have isLink : inheritance.Extends first first := isParent
      rcases (connected first).mp (List.mem_of_mem_head? isFirst) with ⟨ahead, back⟩
      exact Relation.TransGen.trans_right ahead (Relation.TransGen.trans_left (.single isLink) back)
  · intro cyclic
    rcases Relation.TransGen.head'_iff.mp cyclic with ⟨parent, isParent, _⟩
    have parentThere :=
      (mem_component_iff lists isComponent isThere cyclic parent).mpr (.single isParent)
    match component with
    | [] => simp at isThere
    | [only] =>
      right
      obtain rfl := List.mem_singleton.mp isThere
      obtain rfl := List.mem_singleton.mp parentThere
      exact decide_eq_true isParent
    | first :: second :: rest =>
      left
      simp

theorem exists_component (known : id.index < inheritance.size) :
    ∃ component ∈ components, id ∈ component :=
  List.mem_flatten.mp (lists.perm.mem_iff.mpr (mem_classIds.mpr known))

/-- A component with a link inside is a cycle once its classes are in order, and there are no other
cycles. -/
theorem mem_cyclesAmong {cycle : List ClassId} :
    cycle ∈ inheritance.cyclesAmong components ↔ cycle ∈ inheritance.cycles := by
  rw [cyclesAmong, (perm_sortBy _ _).mem_iff, List.mem_map]
  constructor
  · rintro ⟨component, isListed, rfl⟩
    rcases List.mem_filter.mp isListed with ⟨isComponent, holds⟩
    rcases List.exists_mem_of_ne_nil component (lists.nonempty component isComponent) with
      ⟨id, isThere⟩
    have cyclic := (holdsLink_iff lists isComponent isThere).mp holds
    exact inOrder_mem_cycles cyclic (nodup_component lists isComponent)
      (mem_component_iff lists isComponent isThere cyclic)
  · intro isCycle
    rcases mem_cycles.mp isCycle with ⟨lowest, cyclic, _, rfl⟩
    rcases Relation.TransGen.head'_iff.mp cyclic with ⟨_, isParent, _⟩
    rcases exists_component lists (index_lt_of_extends isParent) with
      ⟨component, isComponent, isThere⟩
    refine ⟨component, List.mem_filter.mpr ⟨isComponent, ?_⟩, ?_⟩
    · exact (holdsLink_iff lists isComponent isThere).mpr cyclic
    · exact inOrder_eq_cycleOf cyclic (nodup_component lists isComponent)
        (mem_component_iff lists isComponent isThere cyclic)

theorem nodup_cyclesAmong : (inheritance.cyclesAmong components).Nodup := by
  rw [cyclesAmong, (perm_sortBy _ _).nodup_iff]
  have disjoint := (List.nodup_flatten.mp (lists.perm.nodup_iff.mpr nodup_classIds)).2
  rw [List.Nodup, List.pairwise_map]
  apply (disjoint.filter _).imp_of_mem
  intro first second isFirst _ apart same
  rcases List.exists_mem_of_ne_nil first (lists.nonempty first (List.mem_filter.mp isFirst).1) with
    ⟨id, isThere⟩
  have alsoThere : id ∈ inOrder second := same ▸ mem_inOrder.mpr isThere
  exact apart isThere (mem_inOrder.mp alsoThere)

theorem cyclesAmong_eq_cycles : inheritance.cyclesAmong components = inheritance.cycles := by
  have perm : (inheritance.cyclesAmong components).Perm inheritance.cycles :=
    (List.perm_ext_iff_of_nodup (nodup_cyclesAmong lists) nodup_cycles).mpr fun _ =>
      mem_cyclesAmong lists
  have isSorted : (inheritance.cyclesAmong components).Pairwise fun first second =>
      isListedFirst first second = true :=
    pairwise_sortBy isListedFirst_total isListedFirst_trans _
  have cyclesSorted : inheritance.cycles.Pairwise fun first second =>
      isListedFirst first second = true := by
    apply inheritance.lowestFirst_cycles.imp_of_mem
    intro first second _ isSecond isLess
    exact isListedFirst_of_head (inheritance.listsCycles_cycles.closed second isSecond).1 isLess
  apply List.Perm.eq_of_pairwise _ isSorted cyclesSorted perm
  intro first second _ _ early late
  exact isListedFirst_antisymm early late

end

end Inheritance

end Decaf
