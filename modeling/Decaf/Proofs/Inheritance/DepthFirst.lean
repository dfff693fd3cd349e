import Decaf.Proofs.Inheritance.Components

/-!
# Depth-first walks

A depth-first walk enters a class once, goes on to the classes that extend it, and leaves it after
them. Listed from the last class left to the first one, the classes stand in the order of
`parentsFirst?`, as long as no class is above itself: what was entered and not left is then above
the class where the walk is, so nothing below it was missed. With a cycle no order has every class
behind its parent.
-/

namespace Decaf

/-- Every class stands behind its parent. -/
def Inheritance.ParentsFirst (inheritance : Inheritance) (order : List ClassId) : Prop :=
  ∀ child parent, inheritance.Extends child parent → order.idxOf parent < order.idxOf child

/-- How far a depth-first walk has come. -/
structure Traversal where
  /-- The classes that were entered. -/
  visited : List ClassId
  /-- The classes that were left again, the last one first. -/
  finished : List ClassId

namespace Traversal

/-- Enters a class. -/
def enter (traversal : Traversal) (id : ClassId) : Traversal :=
  { traversal with visited := id :: traversal.visited }

/-- Leaves a class. -/
def leave (traversal : Traversal) (id : ClassId) : Traversal :=
  { traversal with finished := id :: traversal.finished }

end Traversal

namespace Inheritance

variable {inheritance : Inheritance} {roots : List ClassId} {before after : Traversal}
variable {order : List ClassId}

/-- A depth-first walk from some classes in turn; classes that were entered before are passed
over. -/
inductive Walks (inheritance : Inheritance) : List ClassId → Traversal → Traversal → Prop where
  | nil {traversal : Traversal} : Walks inheritance [] traversal traversal
  | passOver {id : ClassId} {rest : List ClassId} {before after : Traversal}
      (isKnown : id ∈ before.visited)
      (later : Walks inheritance rest before after) : Walks inheritance (id :: rest) before after
  | descend {id : ClassId} {rest : List ClassId} {before inside after : Traversal}
      (isNew : id ∉ before.visited)
      (below : Walks inheritance (inheritance.children id) (before.enter id) inside)
      (later : Walks inheritance rest (inside.leave id) after) :
      Walks inheritance (id :: rest) before after

/-- The order in which a depth-first walk over all classes leaves them, reversed. -/
def IsDepthFirstOrder (inheritance : Inheritance) (order : List ClassId) : Prop :=
  ∃ after, inheritance.Walks inheritance.classIds ⟨[], []⟩ after ∧ after.finished = order

/-! ## There is one walk -/

theorem Walks.unique {other : Traversal} (walks : inheritance.Walks roots before after)
    (alsoWalks : inheritance.Walks roots before other) : other = after := by
  induction walks generalizing other with
  | nil =>
    cases alsoWalks
    rfl
  | passOver isKnown _ ih =>
    cases alsoWalks with
    | passOver _ later => exact ih later
    | descend isNew _ _ => exact absurd isKnown isNew
  | descend isNew _ _ ihBelow ihLater =>
    cases alsoWalks with
    | passOver isKnown _ => exact absurd isKnown isNew
    | descend _ below later =>
      obtain rfl := ihBelow below
      exact ihLater later

theorem Walks.visited_subset (walks : inheritance.Walks roots before after) :
    before.visited ⊆ after.visited := by
  induction walks with
  | nil => exact List.Subset.refl _
  | passOver _ _ ih => exact ih
  | descend _ _ _ ihBelow ihLater =>
    intro id isThere
    exact ihLater (ihBelow (List.mem_cons_of_mem _ isThere))

/-- How many classes were not entered yet. -/
def unvisited (inheritance : Inheritance) (traversal : Traversal) : Nat :=
  inheritance.classIds.countP fun id => id ∉ traversal.visited

theorem countP_unvisited_le (ids : List ClassId) (isSubset : before.visited ⊆ after.visited) :
    (ids.countP fun id => id ∉ after.visited) ≤ ids.countP fun id => id ∉ before.visited := by
  apply List.countP_mono_left
  intro id _ isNew
  simp only [decide_eq_true_eq] at isNew ⊢
  exact fun isThere => isNew (isSubset isThere)

theorem unvisited_enter_lt {id : ClassId} (known : id.index < inheritance.size)
    (isNew : id ∉ before.visited) :
    inheritance.unvisited (before.enter id) < inheritance.unvisited before := by
  have isSubset : before.visited ⊆ (before.enter id).visited := List.subset_cons_self _ _
  rcases List.append_of_mem (mem_classIds.mpr known) with ⟨front, rest, classIdsEq⟩
  have inFront := countP_unvisited_le front isSubset
  have inRest := countP_unvisited_le rest isSubset
  have isEntered : id ∈ (before.enter id).visited := List.mem_cons_self
  simp only [unvisited, classIdsEq, List.countP_append, List.countP_cons, isNew, isEntered,
    not_true_eq_false, not_false_eq_true, decide_true, decide_false]
  simp only [Bool.false_eq_true, if_true, if_false]
  omega

/-- The walk comes to an end, since every class is entered once. -/
theorem exists_walks (count : Nat) (few : inheritance.unvisited before ≤ count)
    (known : ∀ id ∈ roots, id.index < inheritance.size) :
    ∃ after, inheritance.Walks roots before after := by
  induction count using Nat.strong_induction_on generalizing roots before with
  | h count outer =>
    induction roots generalizing before with
    | nil => exact ⟨before, .nil⟩
    | cons id rest ih =>
      have restKnown := fun other isThere => known other (List.mem_cons_of_mem _ isThere)
      by_cases isKnown : id ∈ before.visited
      · rcases ih few restKnown with ⟨after, later⟩
        exact ⟨after, .passOver isKnown later⟩
      · have fewer := unvisited_enter_lt (known id List.mem_cons_self) isKnown
        have childrenKnown : ∀ child ∈ inheritance.children id, child.index < inheritance.size := by
          intro child isChild
          exact index_lt_of_extends (mem_children.mp isChild)
        rcases outer _ (Nat.lt_of_lt_of_le fewer few) (Nat.le_refl _) childrenKnown with
          ⟨inside, below⟩
        have stillFew : inheritance.unvisited (inside.leave id) ≤ count := by
          have shrinks : inheritance.unvisited inside ≤ inheritance.unvisited (before.enter id) :=
            countP_unvisited_le _ below.visited_subset
          have unchanged : inheritance.unvisited (inside.leave id) =
            inheritance.unvisited inside := rfl
          omega
        rcases ih stillFew restKnown with ⟨after, later⟩
        exact ⟨after, .descend isKnown below later⟩

theorem exists_isDepthFirstOrder (inheritance : Inheritance) :
    ∃ order, inheritance.IsDepthFirstOrder order := by
  rcases exists_walks _ (Nat.le_refl _) fun id isThere => mem_classIds.mp isThere with
    ⟨after, walks⟩
  exact ⟨after.finished, after, walks, rfl⟩

theorem IsDepthFirstOrder.unique {other : List ClassId}
    (isOrder : inheritance.IsDepthFirstOrder order)
    (alsoOrder : inheritance.IsDepthFirstOrder other) : other = order := by
  rcases isOrder with ⟨after, walks, rfl⟩
  rcases alsoOrder with ⟨final, alsoWalks, rfl⟩
  rw [walks.unique alsoWalks]

/-! ## The order of a walk -/

/-- Without cycles the classes that were entered and not left are above the one that the walk is at,
and those that were left are in their places. -/
theorem Walks.finished_eq (acyclic : inheritance.Acyclic) {depth : Nat} {trail : List ClassId}
    (walks : inheritance.Walks roots before after) (trailNodup : trail.Nodup)
    (trailKnown : ∀ passed ∈ trail, passed.index < inheritance.size)
    (known : ∀ root ∈ roots, root.index < inheritance.size)
    (trailAbove : ∀ root ∈ roots, ∀ passed ∈ trail, inheritance.IsAbove root passed)
    (deep : inheritance.size ≤ trail.length + depth)
    (entered : ∀ id, id ∈ before.visited ↔ id ∈ before.finished ∨ id ∈ trail) :
    after.finished = roots.foldl (inheritance.placeBelow depth) before.finished ∧
      ∀ id, id ∈ after.visited ↔ id ∈ after.finished ∨ id ∈ trail := by
  induction walks generalizing depth trail with
  | nil => exact ⟨rfl, entered⟩
  | @passOver id rest before after isKnown _ ih =>
    have isPlaced : id ∈ before.finished := by
      rcases (entered id).mp isKnown with isPlaced | onTrail
      · exact isPlaced
      · exact absurd (trailAbove id List.mem_cons_self id onTrail) (acyclic id)
    have unchanged : inheritance.placeBelow depth before.finished id = before.finished := by
      cases depth with
      | zero => rfl
      | succ depth => simp [placeBelow, isPlaced]
    rw [List.foldl_cons, unchanged]
    exact ih trailNodup trailKnown (fun root isRoot => known root (List.mem_cons_of_mem _ isRoot))
      (fun root isRoot => trailAbove root (List.mem_cons_of_mem _ isRoot)) deep entered
  | @descend id rest before inside after isNew _ _ ihBelow ihLater =>
    have notPlaced : id ∉ before.finished := fun isPlaced =>
      isNew ((entered id).mpr (.inl isPlaced))
    have notOnTrail : id ∉ trail := fun onTrail => isNew ((entered id).mpr (.inr onTrail))
    have longer : (id :: trail).Nodup := List.nodup_cons.mpr ⟨notOnTrail, trailNodup⟩
    have longerKnown : ∀ passed ∈ id :: trail, passed.index < inheritance.size :=
      List.forall_mem_cons.mpr ⟨known id List.mem_cons_self, trailKnown⟩
    have short := length_le_size longer longerKnown
    simp only [List.length_cons] at short
    cases depth with
    | zero => omega
    | succ depth =>
      have belowAll : ∀ child ∈ inheritance.children id, ∀ passed ∈ id :: trail,
          inheritance.IsAbove child passed := by
        intro child isChild passed onWay
        have isParent := mem_children.mp isChild
        rcases List.mem_cons.mp onWay with rfl | onTrail
        · exact .single isParent
        · exact .head isParent (trailAbove id List.mem_cons_self passed onTrail)
      have enteredBelow : ∀ other, other ∈ (before.enter id).visited ↔
          other ∈ (before.enter id).finished ∨ other ∈ id :: trail := by
        intro other
        simp only [Traversal.enter, List.mem_cons, entered]
        tauto
      have childrenKnown : ∀ child ∈ inheritance.children id, child.index < inheritance.size := by
        intro child isChild
        exact index_lt_of_extends (mem_children.mp isChild)
      have stillDeep : inheritance.size ≤ (id :: trail).length + depth := by
        simp only [List.length_cons]
        omega
      rcases ihBelow longer longerKnown childrenKnown belowAll stillDeep enteredBelow with
        ⟨placedBelow, leftBelow⟩
      have placed : (inside.leave id).finished = inheritance.placeBelow (depth + 1)
          before.finished id := by
        simp [Traversal.leave, placeBelow, notPlaced, placedBelow, Traversal.enter]
      have leftAll : ∀ other, other ∈ (inside.leave id).visited ↔
          other ∈ (inside.leave id).finished ∨ other ∈ trail := by
        intro other
        simp only [Traversal.leave, List.mem_cons, leftBelow]
        tauto
      rw [List.foldl_cons, ← placed]
      exact ihLater trailNodup trailKnown (fun root isRoot =>
        known root (List.mem_cons_of_mem _ isRoot))
          (fun root isRoot => trailAbove root (List.mem_cons_of_mem _ isRoot)) deep leftAll

theorem IsDepthFirstOrder.eq_of_acyclic (acyclic : inheritance.Acyclic)
    (isOrder : inheritance.IsDepthFirstOrder order) :
    order = inheritance.classIds.foldl (inheritance.placeBelow inheritance.size) [] := by
  rcases isOrder with ⟨after, walks, rfl⟩
  have placed := @Walks.finished_eq _ _ _ _ acyclic inheritance.size [] walks
    List.nodup_nil (by simp)
    (fun id isThere => mem_classIds.mp isThere) (by simp) (by simp) (by simp)
  exact placed.1

/-! ## Parents first -/

theorem ParentsFirst.acyclic (parentsFirst : inheritance.ParentsFirst order) :
    inheritance.Acyclic := by
  have ascends {id other : ClassId} (isAbove : inheritance.IsAbove id other) : order.idxOf other <
      order.idxOf id := by
    induction isAbove with
    | single isParent => exact parentsFirst _ _ isParent
    | tail _ isParent ih => exact Nat.lt_trans (parentsFirst _ _ isParent) ih
  intro id cyclic
  exact Nat.lt_irrefl _ (ascends cyclic)

theorem Arranged.parentsFirst (arranged : inheritance.Arranged order)
    (complete : ∀ child parent, inheritance.Extends child parent → parent ∈ order) :
    inheritance.ParentsFirst order := by
  intro child parent isParent
  have parentThere := complete child parent isParent
  rcases List.append_of_mem (arranged.child_mem parentThere isParent) with ⟨front, rest, rfl⟩
  have inFront := arranged.parent_mem_front isParent parentThere
  have notInFront : child ∉ front := by
    have nodup := List.nodup_append.mp arranged.nodup
    exact fun isThere => nodup.2.2 child isThere child (by simp) rfl
  rw [List.idxOf_append_of_mem inFront, List.idxOf_append_of_notMem notInFront]
  have isEarly := List.idxOf_lt_length_of_mem inFront
  omega

theorem parentsFirst?_isSome_iff :
    inheritance.parentsFirst?.isSome = true ↔ inheritance.cycles = [] := by
  rw [parentsFirst?]
  split <;> simp [*]

theorem acyclic_of_parentsFirst? (isOrder : inheritance.parentsFirst? = some order) :
    inheritance.Acyclic := by
  apply cycles_eq_nil_iff.mp
  rw [← parentsFirst?_isSome_iff, isOrder, Option.isSome_some]

/-- The order of `parentsFirst?` is the depth-first order, if that one has the parents first. -/
theorem parentsFirst?_eq_some_iff (inRange : inheritance.InRange) {result : List ClassId}
    (isOrder : inheritance.IsDepthFirstOrder order) :
    inheritance.parentsFirst? = some result ↔ result = order ∧ inheritance.ParentsFirst order := by
  constructor
  · intro isResult
    have acyclic := acyclic_of_parentsFirst? isResult
    rcases parentsFirst?_of_acyclic acyclic with ⟨arrangedOrder, isArranged, arranged, perm⟩
    obtain rfl := Option.some.inj (isArranged.symm.trans isResult)
    have same : order = arrangedOrder := by
      rw [isOrder.eq_of_acyclic acyclic, ← Option.some_inj, ← isArranged]
      exact (if_pos (cycles_eq_nil_iff.mpr acyclic)).symm
    refine ⟨same.symm, same ▸ arranged.parentsFirst ?_⟩
    intro child parent isParent
    exact perm.mem_iff.mpr (mem_classIds.mpr (inRange child parent isParent))
  · rintro ⟨rfl, parentsFirst⟩
    have acyclic := parentsFirst.acyclic
    rw [parentsFirst?, if_pos (cycles_eq_nil_iff.mpr acyclic), isOrder.eq_of_acyclic acyclic]

/-- The list of cycles is complete: it has each round once, in the order of numbers, and no other
classes. -/
structure FindsCycles (inheritance : Inheritance) : Prop where
  once : ∀ round, IsRound inheritance.Extends round → inheritance.cycles.count (inOrder round) = 1
  isRound : ∀ cycle ∈ inheritance.cycles, ∃ round,
    IsRound inheritance.Extends round ∧ inOrder round = cycle
  ascending : ∀ cycle ∈ inheritance.cycles, cycle.Pairwise fun first second =>
    first.index < second.index
  lowestFirst : inheritance.cycles.Pairwise fun first second =>
    ∀ id ∈ first.head?, ∀ other ∈ second.head?, id.index < other.index
  mem_iff : ∀ id, (∃ cycle ∈ inheritance.cycles, id ∈ cycle) ↔ inheritance.IsAbove id id
  components : (∃ components, ListsComponents inheritance.Extends inheritance.classIds components) ∧
    ∀ components, ListsComponents inheritance.Extends inheritance.classIds components →
      inheritance.cyclesAmong components = inheritance.cycles

/-- The classes are ordered depth first, unless there is a cycle. -/
structure OrdersClasses (inheritance : Inheritance) : Prop where
  isSome_iff : inheritance.parentsFirst?.isSome = true ↔ inheritance.cycles = []
  sound : ∀ order, inheritance.parentsFirst? = some order →
    order.Perm inheritance.classIds ∧ inheritance.ParentsFirst order
  depthFirst : ∃ order, inheritance.IsDepthFirstOrder order ∧
    (∀ other, inheritance.IsDepthFirstOrder other → other = order) ∧
    ∀ result, inheritance.parentsFirst? = some result ↔
      result = order ∧ inheritance.ParentsFirst order

theorem findsCycles (inheritance : Inheritance) : inheritance.FindsCycles where
  once round isRound := by
    rcases List.exists_mem_of_ne_nil round isRound.nonempty with ⟨id, isThere⟩
    have isAbove := mem_iff_isAbove_of_isRound isRound isThere
    exact List.count_eq_one_of_mem nodup_cycles
      (inOrder_mem_cycles ((isAbove id).mp isThere) isRound.nodup isAbove)
  isRound cycle isCycle := by
    rcases mem_cycles.mp isCycle with ⟨lowest, cyclic, _, rfl⟩
    have isRound := isRound_walkRound cyclic
    refine ⟨inheritance.walkRound lowest, isRound, inOrder_eq_cycleOf cyclic isRound.nodup ?_⟩
    exact mem_iff_isAbove_of_isRound isRound (by simp [walkRound])
  ascending cycle isCycle := by
    rcases mem_cycles.mp isCycle with ⟨lowest, _, _, rfl⟩
    exact ascending_cycleOf lowest
  lowestFirst := lowestFirst_cycles
  mem_iff id := by rw [← mem_flatten_cycles, List.mem_flatten]
  components := ⟨⟨_, listsComponents_cycles⟩, fun _ lists => cyclesAmong_eq_cycles lists⟩

theorem cycles_and_order_exact (inheritance : Inheritance) (inRange : inheritance.InRange) :
    inheritance.FindsCycles ∧ inheritance.OrdersClasses := by
  refine ⟨inheritance.findsCycles, ?_⟩
  rcases inheritance.exists_isDepthFirstOrder with ⟨order, isOrder⟩
  refine ⟨parentsFirst?_isSome_iff, ?_, order, isOrder, fun _ alsoOrder => isOrder.unique alsoOrder,
    fun result => parentsFirst?_eq_some_iff inRange isOrder⟩
  intro result isResult
  have acyclic := acyclic_of_parentsFirst? isResult
  rcases parentsFirst?_of_acyclic acyclic with ⟨_, isArranged, _, perm⟩
  obtain rfl := Option.some.inj (isArranged.symm.trans isResult)
  rcases (parentsFirst?_eq_some_iff inRange isOrder).mp isResult with ⟨rfl, parentsFirst⟩
  exact ⟨perm, parentsFirst⟩

/-- Two classes that extend each other, a class below them, one that extends itself and one without
a parent. -/
def tangled : Inheritance := ⟨#[some ⟨2⟩, some ⟨0⟩, some ⟨0⟩, some ⟨3⟩, none]⟩

theorem cycles_and_order_exact_tangled : tangled.InRange ∧ tangled.cycles = [[⟨0⟩, ⟨2⟩], [⟨3⟩]] ∧
    tangled.parentsFirst? = none ∧ tangled.FindsCycles ∧ tangled.OrdersClasses := by
  have inRange : tangled.InRange := by
    intro child parent isParent
    have bounded : ∀ known ∈ tangled.classIds, ∀ above ∈ tangled.parent? known,
      above.index < tangled.size := by decide
    exact bounded child (mem_classIds.mpr (index_lt_of_extends isParent)) parent isParent
  exact ⟨inRange, by decide, by decide, cycles_and_order_exact tangled inRange⟩

end Inheritance

end Decaf
