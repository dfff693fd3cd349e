import Decaf.Proofs.Members.Slots

/-!
# Assignability is an order

The classes of a program are left without cycles, whatever was wrong with their declarations, and
members change no parents. So the walk upward from a class ends before its bound cuts it, one class
is assignable to another if the parent links lead from the one to the other, and assignability is a
partial order. A class has every member of the classes that it is assignable to, or one that hides
it.
-/

namespace Decaf

namespace Registry

section

variable {registry before after : Registry}

/-- Another registry is filled further, and all classes keep their parents. -/
structure Filled (before after : Registry) : Prop where
  run : Run before after
  parent_eq : ∀ id, after.parent? id = before.parent? id

/-- Assignability is a partial order on the types on record, and follows the parent links. -/
structure OrdersTypes (registry : Registry) : Prop where
  refl : ∀ type, registry.isAssignable type type = true
  trans : ∀ first second third, registry.KnowsType first → registry.KnowsType second →
    registry.KnowsType third →
    registry.isAssignable first second = true → registry.isAssignable second third = true →
    registry.isAssignable first third = true
  antisymm : ∀ first second, registry.KnowsType first → registry.KnowsType second →
    registry.isAssignable first second = true → registry.isAssignable second first = true →
    first = second
  object_iff : ∀ lower upper, registry.KnowsClass lower → registry.KnowsClass upper →
    (registry.isAssignable (.object lower) (.object upper) = true ↔
      registry.DescendsFrom lower upper)
  uncut : ∀ id, registry.KnowsClass id →
    registry.ancestors id = id :: ((registry.parent? id).map registry.ancestors).getD []
  members : ∀ lower upper, registry.KnowsClass lower → registry.KnowsClass upper →
    registry.isAssignable (.object lower) (.object upper) = true → ∀ name symbol,
    registry.findMember? upper name = some symbol → ∃ found,
    registry.findMember? lower name = some found

theorem isAssignable_refl (type : DataType) : registry.isAssignable type type = true := by
  simp [isAssignable]

theorem DescendsFrom.antisymm (acyclic : registry.Acyclic) {lower upper : ClassId}
    (descends : registry.DescendsFrom lower upper) (ascends : registry.DescendsFrom upper lower) :
    lower = upper := by
  rcases Relation.ReflTransGen.cases_head descends with same | ⟨parent, isParent, further⟩
  · exact same
  · exact absurd (further.trans ascends) (acyclic.not_descendsFrom_parent isParent)

theorem Closed.inRange (closed : registry.Closed) : (Hierarchy.inheritance registry).InRange := by
  apply inRange_inheritance
  intro id parent isParent
  rcases Option.bind_eq_some_iff.mp isParent with ⟨entry, found, parentEq⟩
  exact (closed.classes (Array.mem_of_getElem? found)).parent parentEq

section

variable (inRange : (Hierarchy.inheritance registry).InRange) (acyclic : registry.Acyclic)

include inRange acyclic

variable {lower upper : ClassId} {first second : DataType}

theorem isAssignable_object_iff (known : registry.KnowsClass lower) :
    registry.isAssignable (.object lower) (.object upper) = true ↔
      registry.DescendsFrom lower upper := by
  rw [← mem_ancestors_iff inRange acyclic known]
  simp only [isAssignable, isSubclass, Bool.or_eq_true, decide_eq_true_eq, List.contains_iff_mem]
  constructor
  · rintro (same | isThere)
    · cases same
      exact (mem_ancestors_iff inRange acyclic known).mpr .refl
    · exact isThere
  · exact .inr

/-- Beside equal types only references are assignable: `null` to every class and a class to those
above it. -/
theorem isAssignable_iff_of_known {source target : DataType} (known : registry.KnowsType source) :
    registry.isAssignable source target = true ↔
      source = target ∨ (source = .null ∧ ∃ owner, target = .object owner) ∨
      ∃ lower upper, source = .object lower ∧ target = .object upper ∧
      registry.DescendsFrom lower upper := by
  cases source with
  | primitive kind => simp [isAssignable]
  | null => cases target <;> simp [isAssignable]
  | object lower =>
    cases target with
    | primitive kind => simp [isAssignable]
    | null => simp [isAssignable]
    | object upper =>
      rw [isAssignable_object_iff inRange acyclic known]
      constructor
      · intro descends
        exact .inr (.inr ⟨lower, upper, rfl, rfl, descends⟩)
      · rintro (same | ⟨isNull, _⟩ | ⟨_, _, isLower, isUpper, descends⟩)
        · cases same
          exact .refl
        · cases isNull
        · cases isLower
          cases isUpper
          exact descends

theorem isAssignable_trans {third : DataType} (firstKnown : registry.KnowsType first)
    (secondKnown : registry.KnowsType second) (early : registry.isAssignable first second = true)
    (late : registry.isAssignable second third = true) :
    registry.isAssignable first third = true := by
  rw [isAssignable_iff_of_known inRange acyclic firstKnown] at early ⊢
  rw [isAssignable_iff_of_known inRange acyclic secondKnown] at late
  rcases early with rfl | ⟨rfl, owner, rfl⟩ | ⟨lower, upper, rfl, rfl, descends⟩
  · exact late
  · rcases late with rfl | ⟨isNull, _⟩ | ⟨_, upper, _, rfl, _⟩
    · exact .inr (.inl ⟨rfl, owner, rfl⟩)
    · cases isNull
    · exact .inr (.inl ⟨rfl, upper, rfl⟩)
  · rcases late with rfl | ⟨isNull, _⟩ | ⟨_, top, same, rfl, further⟩
    · exact .inr (.inr ⟨lower, upper, rfl, rfl, descends⟩)
    · cases isNull
    · cases same
      exact .inr (.inr ⟨lower, top, rfl, rfl, descends.trans further⟩)

theorem isAssignable_antisymm (firstKnown : registry.KnowsType first)
    (secondKnown : registry.KnowsType second) (early : registry.isAssignable first second = true)
    (late : registry.isAssignable second first = true) : first = second := by
  rw [isAssignable_iff_of_known inRange acyclic firstKnown] at early
  rw [isAssignable_iff_of_known inRange acyclic secondKnown] at late
  rcases early with same | ⟨rfl, owner, rfl⟩ | ⟨lower, upper, rfl, rfl, descends⟩
  · exact same
  · rcases late with same | ⟨isNull, _⟩ | ⟨_, _, _, isObject, _⟩
    · exact same.symm
    · cases isNull
    · cases isObject
  · rcases late with same | ⟨isNull, _⟩ | ⟨_, _, isUpper, isLower, ascends⟩
    · exact same.symm
    · cases isNull
    · cases isUpper
      cases isLower
      rw [descends.antisymm acyclic ascends]

/-- A class has a member of every name that a class above it has one of. -/
theorem exists_findMember?_of_descendsFrom (known : registry.KnowsClass lower)
    (descends : registry.DescendsFrom lower upper) {name : String} {symbol : Symbol}
    (found : registry.findMember? upper name = some symbol) :
    ∃ own, registry.findMember? lower name = some own := by
  rcases List.exists_of_findSome?_eq_some found with ⟨ancestor, isThere, isOwn⟩
  have isAncestor := (mem_ancestors_iff inRange acyclic known).mpr
    (descends.trans (descendsFrom_of_mem_ancestors isThere))
  apply Option.isSome_iff_exists.mp
  rw [findMember?, List.findSome?_isSome_iff]
  exact ⟨ancestor, isAncestor, by rw [isOwn, Option.isSome_some]⟩

theorem ordersTypes : registry.OrdersTypes where
  refl := isAssignable_refl
  trans _ _ _ firstKnown secondKnown _ := isAssignable_trans inRange acyclic firstKnown secondKnown
  antisymm _ _ firstKnown secondKnown :=
    isAssignable_antisymm inRange acyclic firstKnown secondKnown
  object_iff _ _ known _ := isAssignable_object_iff inRange acyclic known
  uncut _ known := ancestors_eq_of_inRange inRange acyclic known
  members _ _ known _ isAssignable _ _ :=
    exists_findMember?_of_descendsFrom inRange acyclic known
      ((isAssignable_object_iff inRange acyclic known).mp isAssignable)

end

end

/-! ## Members leave the parents alone -/

section

variable {registry after : Registry}
variable {name : String} {type : DataType} {position : Position}

theorem parent?_modifyClass {change : ClassEntry → ClassEntry}
    (same : ∀ entry, (change entry).parent = entry.parent) (id child : ClassId) :
    (registry.modifyClass id change).parent? child = registry.parent? child := by
  rw [parent?_eq, map_classEntry?_modifyClass ClassEntry.parent same, parent?_eq]

theorem parent?_of_registerField {owner : ClassId} {visibility : Visibility} {isStatic : Bool}
    {id : FieldId}
    (registered : registry.registerField owner name type visibility isStatic position =
      .ok (id, after))
    (child : ClassId) : after.parent? child = registry.parent? child := by
  rw [registerField] at registered
  split at registered
  · cases registered
  · cases registered
    exact @parent?_modifyClass registry (fun found =>
      { found with fields := found.fields ++ [⟨registry.fields.size⟩] }) (fun _ => rfl) owner child

theorem parent?_of_registerMethod {signature : MethodSignature} {id : MethodId}
    (registered : registry.registerMethod signature = .ok (id, after)) (child : ClassId) :
    after.parent? child = registry.parent? child := by
  rw [registerMethod] at registered
  split at registered
  · cases registered
  · cases registered
    exact @parent?_modifyClass registry (fun found =>
      { found with methods := found.methods ++ [⟨registry.methods.size⟩] })
      (fun _ => rfl) signature.owner child

theorem parent?_of_registerVariable {scope : ScopeId} {method : MethodId} {storage : Storage}
    {id : VariableId}
    (registered : registry.registerVariable scope name type method storage position =
      .ok (id, after))
    (child : ClassId) : after.parent? child = registry.parent? child := by
  rw [registerVariable] at registered
  split at registered
  · cases registered
  · cases registered
    rfl

end

end Registry

namespace Members

variable {members before after : Members}

/-- The classes have the same parents as before. -/
def KeepsParents (before after : Members) : Prop :=
  ∀ child, after.registry.parent? child = before.registry.parent? child

theorem KeepsParents.of_eq (same : after.registry = before.registry) :
    KeepsParents before after := by
  intro child
  rw [same]

theorem KeepsParents.trans {between : Members} (early : KeepsParents before between)
    (late : KeepsParents between after) : KeepsParents before after :=
  fun child => (late child).trans (early child)

theorem keepsParents_foldl {Item : Type} {step : Members → Item → Members}
    (each : ∀ members item, KeepsParents members (step members item)) (items : List Item)
    (members : Members) : KeepsParents members (items.foldl step members) := by
  induction items generalizing members with
  | nil => exact .of_eq rfl
  | cons item rest ih => exact (each members item).trans (ih _)

theorem registry_typeOr (placeholder : DataType) (written : TypeName) (position : Position) :
    (members.typeOr placeholder written position).2.registry = members.registry := by
  rw [typeOr]
  split <;> rfl

theorem keepsParents_addField (owner : ClassId) (members : Members) (decl : FieldDecl) :
    KeepsParents members (addField owner members decl) := by
  rw [addField]
  split
  · exact .of_eq rfl
  · have typed : KeepsParents members (members.typeOr .null decl.type decl.position).2 :=
      .of_eq (registry_typeOr _ _ _)
    dsimp only
    split
    next registered => exact typed.trans (Registry.parent?_of_registerField registered)
    next => exact typed

theorem keepsParents_addParameter (method : MethodId) (scope : ScopeId) (members : Members)
    (declared : (VariableDecl × DataType) × Nat) :
    KeepsParents members (addParameter method scope members declared) := by
  intro child
  rw [addParameter]
  split
  next registered =>
    exact Registry.parent?_of_registerVariable registered child
  next => rfl

theorem keepsParents_enterMethod (members : Members) (source : MethodSource)
    (signature : Registry.MethodSignature) (replaced : Option MethodId) :
    KeepsParents members (members.enterMethod source signature replaced) := by
  rw [enterMethod]
  split
  next => exact .of_eq rfl
  next id registry registered =>
    have entered : ∀ child, (registry.modifyMethod id fun entry =>
        { entry with overrides := replaced }).parent? child = members.registry.parent? child := by
      intro child
      exact Registry.parent?_of_registerMethod registered child
    dsimp only
    split
    · exact entered
    · intro child
      rw [← entered child]
      exact keepsParents_foldl (keepsParents_addParameter _ _) _ _ child

theorem keepsParents_addMethod (owner : ClassId) (members : Members) (source : MethodSource) :
    KeepsParents members (addMethod owner members source) := by
  rw [addMethod]
  split
  · exact .of_eq rfl
  · refine KeepsParents.trans (.of_eq ?_) (keepsParents_enterMethod _ _ _ _)
    exact (overridden?_spec _ _).2.1.trans
      ((registry_typeOr _ _ _).trans (registry_parameterTypes _))

theorem parent?_placeMethod (vtable : List MethodId) (registry : Registry) (id : MethodId)
    (child : ClassId) :
    (placeMethod (vtable, registry) id).2.parent? child = registry.parent? child := by
  simp only [placeMethod]
  repeat' split
  all_goals rfl

theorem parent?_foldl_placeMethod (methods : List MethodId) (state : List MethodId × Registry)
    (child : ClassId) :
    (methods.foldl placeMethod state).2.parent? child = state.2.parent? child := by
  induction methods generalizing state with
  | nil => rfl
  | cons id rest ih =>
    rw [List.foldl_cons, ih]
    exact parent?_placeMethod _ _ _ _

theorem parent?_buildVtable (registry : Registry) (owner child : ClassId) :
    (buildVtable registry owner).parent? child = registry.parent? child := by
  rw [buildVtable]
  split
  · rfl
  next entry _ =>
    have placed :=
      parent?_foldl_placeMethod entry.methods (inheritedVtable registry owner, registry) child
    refine (Registry.parent?_modifyClass ?_ owner child).trans placed
    intro _
    rfl

theorem keepsParents_addClassById (classes : List ClassDecl) (hierarchy : Hierarchy)
    (members : Members) (owner : ClassId) :
    KeepsParents members (addClassById classes hierarchy members owner) := by
  rw [addClassById]
  split
  · exact .of_eq rfl
  · split
    · exact .of_eq rfl
    · intro child
      rw [addClass, parent?_buildVtable]
      exact ((keepsParents_foldl (keepsParents_addField owner) _ _).trans
        (keepsParents_foldl (keepsParents_addMethod owner) _ _)) child

/-- The members of a program are filled in as their declarations say, whether or not there is
something wrong. -/
theorem filled_ofHierarchy (classes : List ClassDecl) :
    (Hierarchy.ofClasses classes).registry.Filled
    (ofHierarchy classes (Hierarchy.ofClasses classes)).registry where
  run := (recorded_ofHierarchy classes).1
  parent_eq := keepsParents_foldl (keepsParents_addClassById classes _) _ _

end Members

/-- The classes of every program, erroneous ones included, are ordered by assignability, with and
without their members. -/
theorem Hierarchy.isAssignable_partial_order (classes : List ClassDecl) {registry : Registry}
    (filled : (ofClasses classes).registry.Filled registry) : registry.OrdersTypes := by
  have closed : registry.Closed := filled.run.closed (inRange_ofClasses classes).closed
  have acyclic : registry.Acyclic :=
    Registry.acyclic_congr filled.parent_eq (settled_ofClasses classes).acyclic
  exact Registry.ordersTypes closed.inRange acyclic

/-- A vehicle with a field and a truck below it; two classes that extend each other, and a second
truck. -/
def fleet : List ClassDecl :=
  [⟨"Vehicle", none, [⟨"weight", .primitive .int, .publicMember, false, ⟨2, 3⟩⟩], [], ⟨1, 1⟩⟩,
    ⟨"Truck", some ⟨"Vehicle", ⟨4, 21⟩⟩, [], [], ⟨4, 1⟩⟩,
    ⟨"Chicken", some ⟨"Egg", ⟨5, 23⟩⟩, [], [], ⟨5, 1⟩⟩,
    ⟨"Egg", some ⟨"Chicken", ⟨6, 19⟩⟩, [], [], ⟨6, 1⟩⟩,
    ⟨"Truck", some ⟨"Lorry", ⟨7, 21⟩⟩, [], [], ⟨7, 1⟩⟩]

theorem isAssignable_partial_order_fleet :
    (Hierarchy.ofClasses fleet).diagnostics.length = 2 ∧
      (Members.ofHierarchy fleet (Hierarchy.ofClasses fleet)).registry.findMember? ⟨0⟩ "weight" =
        some (.ofField ⟨0⟩) ∧
      (Members.ofHierarchy fleet (Hierarchy.ofClasses fleet)).registry.OrdersTypes :=
  ⟨by decide +kernel, by decide +kernel,
    Hierarchy.isAssignable_partial_order fleet (Members.filled_ofHierarchy fleet)⟩

end Decaf
