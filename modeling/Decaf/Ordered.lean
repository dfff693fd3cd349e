/-!
# Sorting

Lists are sorted by insertion, so that elements of equal rank keep their order.
-/

namespace Decaf

variable {Element : Type}

/-- Puts an element into a sorted list, in front of the first element that it may stand in front
of. -/
def insertOrdered (isBeforeOrAt : Element → Element → Bool) (element : Element) :
    List Element → List Element
  | [] => [element]
  | first :: rest =>
    if isBeforeOrAt element first then element :: first :: rest
    else first :: insertOrdered isBeforeOrAt element rest

/-- The elements of a list in order; those of equal rank keep their order. -/
def sortBy (isBeforeOrAt : Element → Element → Bool) : List Element → List Element
  | [] => []
  | element :: rest => insertOrdered isBeforeOrAt element (sortBy isBeforeOrAt rest)

theorem perm_insertOrdered (isBeforeOrAt : Element → Element → Bool) (element : Element)
    (elements : List Element) :
    (insertOrdered isBeforeOrAt element elements).Perm (element :: elements) := by
  induction elements with
  | nil => exact .refl _
  | cons first rest ih =>
    rw [insertOrdered]
    split
    · exact .refl _
    · exact (ih.cons first).trans (.swap element first rest)

theorem perm_sortBy (isBeforeOrAt : Element → Element → Bool) (elements : List Element) :
    (sortBy isBeforeOrAt elements).Perm elements := by
  induction elements with
  | nil => exact .refl _
  | cons element rest ih => exact (perm_insertOrdered _ element _).trans (ih.cons element)

theorem pairwise_insertOrdered {isBeforeOrAt : Element → Element → Bool}
    (total : ∀ left right, (isBeforeOrAt left right || isBeforeOrAt right left) = true)
    (transitive : ∀ {first second third}, isBeforeOrAt first second = true →
      isBeforeOrAt second third = true → isBeforeOrAt first third = true)
    (element : Element) {elements : List Element}
    (sorted : elements.Pairwise fun left right => isBeforeOrAt left right = true) :
    (insertOrdered isBeforeOrAt element elements).Pairwise
      fun left right => isBeforeOrAt left right = true := by
  induction elements with
  | nil => exact List.pairwise_singleton _ _
  | cons first rest ih =>
    rcases List.pairwise_cons.mp sorted with ⟨firstLe, restSorted⟩
    rw [insertOrdered]
    split
    next elementLe =>
      refine List.pairwise_cons.mpr ⟨?_, sorted⟩
      intro other otherMem
      rcases List.mem_cons.mp otherMem with rfl | otherMem
      · exact elementLe
      · exact transitive elementLe (firstLe other otherMem)
    next elementNotLe =>
      refine List.pairwise_cons.mpr ⟨?_, ih restSorted⟩
      intro other otherMem
      rcases List.mem_cons.mp ((perm_insertOrdered _ _ _).mem_iff.mp otherMem) with rfl | otherMem
      · have either := total other first
        simpa [elementNotLe] using either
      · exact firstLe other otherMem

theorem pairwise_sortBy {isBeforeOrAt : Element → Element → Bool}
    (total : ∀ left right, (isBeforeOrAt left right || isBeforeOrAt right left) = true)
    (transitive : ∀ {first second third}, isBeforeOrAt first second = true →
      isBeforeOrAt second third = true → isBeforeOrAt first third = true)
    (elements : List Element) :
    (sortBy isBeforeOrAt elements).Pairwise fun left right => isBeforeOrAt left right = true := by
  induction elements with
  | nil => exact .nil
  | cons element rest ih => exact pairwise_insertOrdered total transitive element ih

end Decaf
