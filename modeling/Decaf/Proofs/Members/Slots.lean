import Decaf.Proofs.Members.Records
import Decaf.Proofs.Members.Registration
import Decaf.Proofs.Members.Vtable

/-!
# Slots in range

A class with faulty declarations gets its members all the same. A method still replaces only what is
found above its class, and only classes whose vtables are laid out have methods with slots. That is
enough for every slot that a replacing method takes over to be a place in the vtable at hand.
-/

namespace Decaf

namespace Members

open Registry (ChangesOnly)

variable {members : Members} {owner : ClassId} {front : List ClassId}
variable {base : Registry} {id : MethodId}

/-- The vtables of the classes in `front` are laid out. -/
structure Slotted (front : List ClassId) (registry : Registry) : Prop where
  consistent : registry.Consistent
  overrides_above : ∀ {id method replaced}, registry.methodEntry? id = some method →
    method.overrides = some replaced → ∃ parent target,
    registry.parent? method.owner = some parent ∧
      registry.methodEntry? replaced = some target ∧ registry.DescendsFrom parent target.owner
  laidOut : ∀ {id method slot}, registry.methodEntry? id = some method → method.slot = some slot →
    method.owner ∈ front
  inVtable : ∀ {lower found id method slot},
    lower ∈ front → registry.classEntry? lower = some found →
    registry.methodEntry? id = some method → method.slot = some slot →
      registry.DescendsFrom lower method.owner → slot < found.vtable.length

/-- New methods have no slots yet, and changes elsewhere do not matter. -/
theorem Slotted.grow {before after : Registry} (slotted : Slotted front before)
    (consistent : after.Consistent) (sameParents : ∀ id, after.parent? id = before.parent? id)
    (sameClasses : ∀ id ∈ front, after.classEntry? id = before.classEntry? id)
    (kept : ∀ {id method}, before.methodEntry? id = some method →
      after.methodEntry? id = some method)
    (fresh : ∀ {id method}, after.methodEntry? id = some method →
      before.methodEntry? id = some method ∨
      (method.slot = none ∧ ∀ replaced, method.overrides = some replaced →
        before.findInherited? method.owner method.name = some (.ofMethod replaced))) :
    Slotted front after := by
  have sameDescends : ∀ {child ancestor}, after.DescendsFrom child ancestor ↔
      before.DescendsFrom child ancestor := Registry.descendsFrom_congr sameParents
  refine ⟨consistent, ?_, ?_, ?_⟩
  · intro id method replaced found isReplaced
    rw [sameParents]
    rcases fresh found with isOld | ⟨_, inherits⟩
    · rcases slotted.overrides_above isOld isReplaced with
        ⟨parent, target, isParent, targetFound, descends⟩
      exact ⟨parent, target, isParent, kept targetFound, sameDescends.mpr descends⟩
    · rcases Option.bind_eq_some_iff.mp (inherits replaced isReplaced) with
        ⟨parent, isParent, inParent⟩
      rcases Registry.exists_methodEntry slotted.consistent.toWellFormed
        (Registry.findMethod?_eq_some.mpr inParent) with ⟨target, targetFound, _, descends⟩
      exact ⟨parent, target, isParent, kept targetFound, sameDescends.mpr descends⟩
  · intro id method slot found hasSlot
    rcases fresh found with isOld | ⟨noSlot, _⟩
    · exact slotted.laidOut isOld hasSlot
    · simp [noSlot] at hasSlot
  · intro lower entry id method slot inFront classFound found hasSlot descends
    rw [sameClasses lower inFront] at classFound
    rcases fresh found with isOld | ⟨noSlot, _⟩
    · exact slotted.inVtable inFront classFound isOld hasSlot (sameDescends.mp descends)
    · simp [noSlot] at hasSlot

/-! ## Fields and methods -/

/-- A class is getting its members, perhaps faulty ones. -/
structure Gathering (front : List ClassId) (owner : ClassId) (base registry : Registry) : Prop where
  slotted : Slotted front registry
  changes : ChangesOnly owner base registry

section

variable (isNew : owner ∉ front) (known : owner.index < base.classCount)
  (gathering : Gathering front owner base members.registry)
include isNew known gathering

theorem gathering_addField (decl : FieldDecl) :
    Gathering front owner base (addField owner members decl).registry := by
  rcases Registry.exists_classEntry (gathering.changes.classCount_eq.symm ▸ known) with
    ⟨found, ownerFound⟩
  unfold addField
  split
  · exact gathering
  next noConflict =>
    have fresh := (fieldConflict?_eq_none noConflict).1
    have typedRegistry : (members.typeOr .null decl.type decl.position).2.registry =
        members.registry := by
      unfold typeOr
      split <;> rfl
    generalize members.typeOr .null decl.type decl.position = typed at typedRegistry
    rcases typed with ⟨type, typedMembers⟩
    dsimp only at typedRegistry ⊢
    rw [Registry.registerField_eq _ _ _ _ _ (typedRegistry ▸ ownerFound), typedRegistry, fresh]
    have wellFormed := gathering.slotted.consistent.toWellFormed
    have changes := @ChangesOnly.fieldAdded found members.registry wellFormed
      ⟨⟨members.registry.fields.size⟩, decl.name, type, owner, decl.visibility,
        decl.isStatic, decl.position⟩
      ownerFound
    refine ⟨gathering.slotted.grow ⟨?_, ?_⟩ changes.parent_eq ?_ id Or.inl,
      gathering.changes.trans changes⟩
    · exact wellFormed.fieldAdded ownerFound rfl fresh
    · exact gathering.slotted.consistent.toLexical.fieldAdded wellFormed ownerFound
    · intro id inFront
      refine changes.class_eq ?_
      rintro rfl
      exact isNew inFront

theorem gathering_enterMethod {source : MethodSource}
    {signature : Registry.MethodSignature} (owned : signature.owner = owner)
    (fresh : members.registry.ownMember? owner signature.name = none) {replaced : Option MethodId}
    (inherits : ∀ id, replaced = some id →
      members.registry.findInherited? owner signature.name = some (.ofMethod id)) :
    Gathering front owner base (members.enterMethod source signature replaced).registry := by
  rcases Registry.exists_classEntry (gathering.changes.classCount_eq.symm ▸ known) with
    ⟨found, ownerFound⟩
  rw [← owned] at ownerFound fresh inherits
  rcases @entered_enterMethod _ _ _ source gathering.slotted.consistent
    ownerFound fresh replaced with
    ⟨next, inside⟩
  have changes : ChangesOnly owner members.registry
      (members.enterMethod source signature replaced).registry := owned ▸ inside.changes
  have unknown : members.registry.methodEntry?
      (enteredMethod members.registry signature replaced).id = none := by
    simp [enteredMethod, Registry.nextMethod, Registry.methodEntry?]
  refine ⟨gathering.slotted.grow inside.consistent changes.parent_eq ?_ ?_ ?_,
    gathering.changes.trans changes⟩
  · intro id inFront
    exact changes.class_eq fun same => isNew (same ▸ inFront)
  · intro id method isOld
    rw [inside.others]
    · exact isOld
    · rintro rfl
      simp [unknown] at isOld
  · intro id method isEntry
    by_cases isEntered : id = (enteredMethod members.registry signature replaced).id
    · rcases inside.entered with ⟨parameters, enteredEq⟩
      rw [isEntered, enteredEq] at isEntry
      cases isEntry
      exact .inr ⟨rfl, inherits⟩
    · rw [inside.others isEntered] at isEntry
      exact .inl isEntry

end

theorem registry_parameterTypes (decls : List VariableDecl) :
    (members.parameterTypes decls).2.registry = members.registry := by
  induction decls generalizing members with
  | nil => rfl
  | cons decl decls ih =>
    rw [parameterTypes]
    refine ih.trans ?_
    unfold typeOr
    split <;> rfl

theorem gathering_addMethod (isNew : owner ∉ front) (known : owner.index < base.classCount)
    (gathering : Gathering front owner base members.registry) (source : MethodSource) :
    Gathering front owner base (addMethod owner members source).registry := by
  unfold addMethod
  dsimp only
  split
  · exact gathering
  next inherited inheritedEq =>
    rcases inheritedMethod_eq_ok inheritedEq with ⟨fresh, inheritedCases⟩
    have typesRegistry := @registry_parameterTypes members source.decl.parameters
    generalize members.parameterTypes source.decl.parameters = typed at typesRegistry
    rcases typed with ⟨types, typedMembers⟩
    dsimp only at typesRegistry ⊢
    have returnRegistry : (typedMembers.typeOr .void source.decl.returnType
        source.decl.position).2.registry = typedMembers.registry := by
      unfold typeOr
      split <;> rfl
    generalize typedMembers.typeOr .void source.decl.returnType source.decl.position = returned
      at returnRegistry
    rcases returned with ⟨returnType, returnMembers⟩
    dsimp only at returnRegistry ⊢
    generalize signatureEq : Registry.MethodSignature.mk owner source.decl.name types returnType
      source.decl.visibility source.decl.isStatic source.decl.position = signature
    rcases @overridden?_spec returnMembers signature
      (inherited.bind returnMembers.registry.methodEntry?) with
      ⟨replacedFound, replacedRegistry, _⟩
    generalize returnMembers.overridden? signature
      (inherited.bind returnMembers.registry.methodEntry?) =
        replacing at replacedFound replacedRegistry
    rcases replacing with ⟨replaced, replacedMembers⟩
    dsimp only at replacedFound replacedRegistry ⊢
    have sameRegistry : replacedMembers.registry = members.registry :=
      replacedRegistry.trans (returnRegistry.trans typesRegistry)
    rw [returnRegistry, typesRegistry] at replacedFound
    have named : signature.name = source.decl.name := by rw [← signatureEq]
    apply gathering_enterMethod isNew known (sameRegistry.symm ▸ gathering)
    · rw [← signatureEq]
    · rw [sameRegistry, named, fresh]
    · intro id isReplaced
      rw [sameRegistry, named]
      rcases replacedFound id isReplaced with ⟨entry, entryFound, rfl⟩
      rcases Option.bind_eq_some_iff.mp entryFound with ⟨taken, rfl, takenFound⟩
      rw [gathering.slotted.consistent.method_id takenFound]
      rcases inheritedCases with ⟨_, isNone⟩ | ⟨other, inherits, isSome⟩
      · cases isNone
      · cases isSome
        exact inherits

/-! ## Vtables -/

/-- What laying out a vtable does not change about a method. -/
def linksOf (registry : Registry) (id : MethodId) : Option (ClassId × Option MethodId) :=
  (registry.methodEntry? id).map fun method => (method.owner, method.overrides)

/-- The own methods of a class are taking their places in its vtable. -/
structure Filling (start : Registry) (owner : ClassId) (vtable : List MethodId)
    (registry : Registry) : Prop where
  consistent : registry.Consistent
  changes : ChangesOnly owner start registry
  noShorter : (inheritedVtable start owner).length ≤ vtable.length
  sameLinks : ∀ id, linksOf registry id = linksOf start id
  slot_lt : ∀ {id method slot}, registry.methodEntry? id = some method → method.owner = owner →
    method.slot = some slot → slot < vtable.length

variable {start registry : Registry} {vtable : List MethodId}

theorem filling_start (slotted : Slotted front start) (isNew : owner ∉ front) :
    Filling start owner (inheritedVtable start owner) start where
  consistent := slotted.consistent
  changes := .refl _ _
  noShorter := Nat.le_refl _
  sameLinks _ := rfl
  slot_lt found owned hasSlot := absurd (owned ▸ slotted.laidOut found hasSlot) isNew

theorem Filling.exists_start (filling : Filling start owner vtable registry)
    {method : MethodEntry} (found : registry.methodEntry? id = some method) :
    ∃ before, start.methodEntry? id = some before ∧ before.owner = method.owner ∧
      before.overrides = method.overrides := by
  have links := filling.sameLinks id
  simp only [linksOf, found, Option.map_some] at links
  rcases Option.map_eq_some_iff.mp links.symm with ⟨before, beforeFound, same⟩
  exact ⟨before, beforeFound, congrArg Prod.fst same, congrArg Prod.snd same⟩

theorem Filling.exists_now (filling : Filling start owner vtable registry)
    {before : MethodEntry} (beforeFound : start.methodEntry? id = some before) :
    ∃ method, registry.methodEntry? id = some method ∧ method.owner = before.owner := by
  have links := filling.sameLinks id
  simp only [linksOf, beforeFound, Option.map_some] at links
  rcases Option.map_eq_some_iff.mp links with ⟨method, found, same⟩
  exact ⟨method, found, congrArg Prod.fst same⟩

section

variable (slotted : Slotted front start) (acyclic : start.Acyclic)
  (parentDone : ∀ {parent}, start.parent? owner = some parent → parent ∈ front)

include slotted acyclic parentDone

variable {id : MethodId} {method : MethodEntry}

section

variable (filling : Filling start owner vtable registry)
  (found : registry.methodEntry? id = some method) (owned : method.owner = owner)
include filling found owned

/-- The slot that a method takes over is that of a method above its class, which the vtable started
with. -/
theorem Filling.inheritedSlot_lt {slot : Nat}
    (inherits : inheritedSlot? registry method = some slot) : slot < vtable.length := by
  rcases Option.bind_eq_some_iff.mp inherits with ⟨entry, entryFound, hasSlot⟩
  rcases Option.bind_eq_some_iff.mp entryFound with ⟨replaced, isReplaced, replacedFound⟩
  rcases filling.exists_start found with ⟨before, beforeFound, sameOwner, sameOverrides⟩
  rcases slotted.overrides_above beforeFound (sameOverrides.trans isReplaced) with
    ⟨parent, target, isParent, targetFound, descends⟩
  rw [sameOwner, owned] at isParent
  have apart : target.owner ≠ owner := by
    intro same
    exact acyclic.not_descendsFrom_parent isParent (same ▸ descends)
  cases replacedFound.symm.trans ((filling.changes.method_iff apart).mpr targetFound)
  rcases Registry.exists_classEntry (slotted.consistent.parent_known isParent) with
    ⟨upper, upperFound⟩
  have inParent := slotted.inVtable (parentDone isParent) upperFound targetFound hasSlot descends
  have startsWith : inheritedVtable start owner = upper.vtable := by
    simp [inheritedVtable, isParent, upperFound]
  have noShorter := filling.noShorter
  rw [startsWith] at noShorter
  omega

theorem filling_placeMethod :
    Filling start owner (placeMethod (vtable, registry) id).1
      (placeMethod (vtable, registry) id).2 := by
  have withSlot : ∀ (slot : Nat) (larger : List MethodId), vtable.length ≤ larger.length →
      slot < larger.length → Filling start owner larger
        (registry.modifyMethod id fun entry => { entry with slot := some slot }) := by
    intro slot larger noShorter inRange
    refine ⟨⟨?_, ?_⟩, ?_, Nat.le_trans filling.noShorter noShorter, ?_, ?_⟩
    · exact filling.consistent.toWellFormed.modifyMethod id (fun _ => rfl)
        (fun _ => rfl) (fun _ => rfl) (fun _ => rfl)
    · exact filling.consistent.toLexical.modifyMethod id (fun _ => rfl)
    · exact filling.changes.trans (.modifyMethod found owned (fun _ => rfl))
    · intro other
      rw [← filling.sameLinks, linksOf, linksOf, Registry.methodEntry?_modifyMethod]
      split
      · rw [Option.map_map]
        rfl
      · rfl
    · intro other entry own entryFound entryOwned hasSlot
      rw [Registry.methodEntry?_modifyMethod] at entryFound
      split at entryFound
      · rcases Option.map_eq_some_iff.mp entryFound with ⟨old, _, rfl⟩
        cases hasSlot
        exact inRange
      · exact Nat.lt_of_lt_of_le (filling.slot_lt entryFound entryOwned hasSlot) noShorter
  simp only [placeMethod, found]
  split
  · exact filling
  · split
    next slot inherits =>
      have inRange := filling.inheritedSlot_lt slotted acyclic parentDone found owned inherits
      exact withSlot slot _ (by simp) (by simpa using inRange)
    next => exact withSlot _ _ (by simp) (by simp)

end

theorem filling_foldl (isNew : owner ∉ front) {methods : List MethodId}
    (own : ∀ id ∈ methods, ∃ method, start.methodEntry? id = some method ∧ method.owner = owner) :
    Filling start owner (methods.foldl placeMethod (inheritedVtable start owner, start)).1
      (methods.foldl placeMethod (inheritedVtable start owner, start)).2 := by
  have filled : ∀ (rest : List MethodId) (state : List MethodId × Registry),
      (∀ id ∈ rest, ∃ method, start.methodEntry? id = some method ∧ method.owner = owner) →
        Filling start owner state.1 state.2 →
          Filling start owner (rest.foldl placeMethod state).1
          (rest.foldl placeMethod state).2 := by
    intro rest
    induction rest with
    | nil => exact fun _ _ filling => filling
    | cons id rest ih =>
      intro state ownRest filling
      rcases ownRest id (by simp) with ⟨before, beforeFound, owned⟩
      rcases filling.exists_now beforeFound with ⟨method, found, sameOwner⟩
      exact ih _ (fun other isOther => ownRest other (by simp [isOther]))
        (filling_placeMethod slotted acyclic parentDone filling found (sameOwner.trans owned))
  exact filled methods _ own (filling_start slotted isNew)

end

variable {rest : List ClassId}

/-- Whenever a method takes over a slot while the vtable of a class is laid out, the slot is a place
in the vtable. -/
def SlotsInRange (registry : Registry) (owner : ClassId) : Prop :=
  ∀ found early id late vtable placed method slot, registry.classEntry? owner = some found →
    found.methods = early ++ id :: late →
      early.foldl placeMethod (inheritedVtable registry owner, registry) = (vtable, placed) →
        placed.methodEntry? id = some method → inheritedSlot? placed method = some slot →
          slot < vtable.length

theorem own_methods (wellFormed : start.WellFormed) {found : ClassEntry}
    (classFound : start.classEntry? owner = some found) :
    ∀ id ∈ found.methods, ∃ method, start.methodEntry? id = some method ∧ method.owner = owner := by
  intro id isMethod
  rw [wellFormed.methods_eq classFound] at isMethod
  exact wellFormed.mem_methodsOf.mp isMethod

section

variable (slotted : Slotted front start) (acyclic : start.Acyclic)
  (parentDone : ∀ {parent}, start.parent? owner = some parent → parent ∈ front)
  (isNew : owner ∉ front)
include slotted acyclic parentDone isNew

theorem slotsInRange :
    SlotsInRange start owner := by
  intro found early id late vtable placed method slot classFound methodsEq
    placedEq methodFound inherits
  have own := own_methods slotted.consistent.toWellFormed classFound
  have earlyOwn : ∀ other ∈ early, ∃ entry,
      start.methodEntry? other = some entry ∧ entry.owner = owner :=
    fun other isEarly => own other (by simp [methodsEq, isEarly])
  have filling := filling_foldl slotted acyclic parentDone isNew earlyOwn
  rw [placedEq] at filling
  rcases own id (by simp [methodsEq]) with ⟨before, beforeFound, owned⟩
  rcases filling.exists_start methodFound with ⟨same, sameFound, sameOwner, _⟩
  cases beforeFound.symm.trans sameFound
  exact filling.inheritedSlot_lt slotted acyclic parentDone methodFound
    (sameOwner.symm.trans owned) inherits

theorem slotted_buildVtable (apart : ∀ {id}, id ∈ front → ¬ start.DescendsFrom id owner)
    (known : owner.index < start.classCount) :
    Slotted (front ++ [owner]) (buildVtable start owner) ∧
      ChangesOnly owner start (buildVtable start owner) := by
  rcases Registry.exists_classEntry known with ⟨found, classFound⟩
  have filling := filling_foldl slotted acyclic parentDone isNew
    (own_methods slotted.consistent.toWellFormed classFound)
  simp only [buildVtable, classFound]
  generalize found.methods.foldl placeMethod (inheritedVtable start owner, start) = state at filling
  rcases state with ⟨vtable, registry⟩
  dsimp only at filling ⊢
  have changes : ChangesOnly owner start (registry.modifyClass owner fun entry =>
      { entry with vtable }) :=
    filling.changes.trans (.modifyClass (fun _ => rfl) (fun _ => rfl))
  have sameDescends : ∀ {child ancestor},
      (registry.modifyClass owner fun entry => { entry with vtable }).DescendsFrom child ancestor ↔
        start.DescendsFrom child ancestor := Registry.descendsFrom_congr changes.parent_eq
  refine ⟨⟨⟨?_, filling.consistent.toLexical.modifyClass owner _⟩, ?_, ?_, ?_⟩, changes⟩
  · refine filling.consistent.toWellFormed.modifyClass owner (fun _ => rfl)
      (fun _ => rfl) (fun _ => rfl) (fun _ => rfl) (fun _ => rfl) ?_
    intro entry parent entryFound parentEq
    exact filling.consistent.parent_known (by rw [Registry.parent?, entryFound]; exact parentEq)
  · intro id method replaced methodFound isReplaced
    rcases filling.exists_start methodFound with ⟨before, beforeFound, sameOwner, sameOverrides⟩
    rcases slotted.overrides_above beforeFound (sameOverrides.trans isReplaced) with
      ⟨parent, target, isParent, targetFound, descends⟩
    rcases filling.exists_now targetFound with ⟨now, nowFound, sameTarget⟩
    refine ⟨parent, now, ?_, nowFound, sameDescends.mpr (sameTarget ▸ descends)⟩
    rw [changes.parent_eq, ← sameOwner, isParent]
  · intro id method slot methodFound hasSlot
    by_cases owned : method.owner = owner
    · simp [owned]
    · exact List.mem_append_left _
        (slotted.laidOut ((filling.changes.method_iff owned).mp methodFound) hasSlot)
  · intro lower entry id method slot isDone entryFound methodFound hasSlot descends
    have descends := sameDescends.mp descends
    rcases List.mem_append.mp isDone with inFront | isOwner
    · have foreign : method.owner ≠ owner := fun owned => apart inFront (owned ▸ descends)
      have differs : lower ≠ owner := fun same => isNew (same ▸ inFront)
      rw [changes.class_eq differs] at entryFound
      exact slotted.inVtable inFront entryFound
        ((filling.changes.method_iff foreign).mp methodFound) hasSlot descends
    · cases List.mem_singleton.mp isOwner
      rw [Registry.classEntry?_modifyClass, if_pos rfl] at entryFound
      rcases Option.map_eq_some_iff.mp entryFound with ⟨old, _, rfl⟩
      by_cases owned : method.owner = owner
      · exact filling.slot_lt methodFound owned hasSlot
      · -- The method belongs to a class above, whose slots the vtable started with.
        rcases Relation.ReflTransGen.cases_head descends with same | ⟨parent, isParent, above⟩
        · exact absurd same.symm owned
        · rcases Registry.exists_classEntry (slotted.consistent.parent_known isParent) with
            ⟨upper, upperFound⟩
          have inParent := slotted.inVtable (parentDone isParent) upperFound
            ((filling.changes.method_iff owned).mp methodFound) hasSlot above
          have startsWith : inheritedVtable start owner = upper.vtable := by
            simp [inheritedVtable, isParent, upperFound]
          have noShorter := filling.noShorter
          rw [startsWith] at noShorter
          exact Nat.lt_of_lt_of_le inParent noShorter

end

/-! ## Classes -/

/-- A class with its own members, just before its vtable is laid out. -/
def withOwnMembers (members : Members) (owner : ClassId) (classIndex : Nat) (decl : ClassDecl) :
    Members :=
  (sourcesOf classIndex decl).foldl (addMethod owner) (decl.fields.foldl (addField owner) members)

theorem addClass_eq (classIndex : Nat) (decl : ClassDecl) :
    addClass members owner classIndex decl =
      { members.withOwnMembers owner classIndex decl with
        registry :=
          buildVtable (members.withOwnMembers owner classIndex decl).registry owner } := rfl

theorem gathering_withOwnMembers (isNew : owner ∉ front)
    (known : owner.index < members.registry.classCount) (slotted : Slotted front members.registry)
    (classIndex : Nat) (decl : ClassDecl) :
    Gathering front owner members.registry
      (members.withOwnMembers owner classIndex decl).registry := by
  have foldl_keeps :
      ∀ {Item : Type} (step : Members → Item → Members) (items : List Item) {base : Registry}
      {start : Members}, (∀ {members} item, Gathering front owner base members.registry →
        Gathering front owner base (step members item).registry) →
          Gathering front owner base start.registry →
            Gathering front owner base (items.foldl step start).registry := by
    intro Item step items base start keeps gathering
    induction items generalizing start with
    | nil => exact gathering
    | cons item items ih => exact ih (keeps item gathering)
  exact foldl_keeps _ _ (fun source gathering => gathering_addMethod isNew known gathering source)
    (foldl_keeps _ _ (fun field gathering => gathering_addField isNew known gathering field)
      ⟨slotted, .refl _ _⟩)

/-- The vtables of the classes in `front` are laid out, and the classes themselves are as before. -/
structure InTurn (hierarchy : Hierarchy) (front : List ClassId) (members : Members) : Prop where
  slotted : Slotted front members.registry
  classCount_eq : members.registry.classCount = hierarchy.registry.classCount
  parent_eq : ∀ id, members.registry.parent? id = hierarchy.registry.parent? id

variable {classes : List ClassDecl} {hierarchy : Hierarchy}

theorem inTurn_addClass (acyclic : hierarchy.registry.Acyclic) (turn : hierarchy.Turn front owner)
    (inTurn : InTurn hierarchy front members) (classIndex : Nat) (decl : ClassDecl) :
    SlotsInRange (members.withOwnMembers owner classIndex decl).registry owner ∧
      InTurn hierarchy (front ++ [owner]) (addClass members owner classIndex decl) := by
  have known : owner.index < members.registry.classCount := inTurn.classCount_eq ▸ turn.known
  rcases gathering_withOwnMembers turn.isNew known inTurn.slotted classIndex decl with
    ⟨slotted, changes⟩
  rw [addClass_eq]
  generalize members.withOwnMembers owner classIndex decl = gathered at slotted changes
  have gatheredAcyclic := changes.acyclic (Registry.acyclic_congr inTurn.parent_eq acyclic)
  have sameParents : ∀ id, gathered.registry.parent? id = hierarchy.registry.parent? id :=
    fun id => (changes.parent_eq id).trans (inTurn.parent_eq id)
  have parentDone : ∀ {parent}, gathered.registry.parent? owner = some parent → parent ∈ front :=
    fun isParent => turn.parent_done ((sameParents owner).symm.trans isParent)
  have apart : ∀ {id}, id ∈ front → ¬ gathered.registry.DescendsFrom id owner := by
    intro id inFront
    rw [Registry.descendsFrom_congr sameParents]
    exact turn.apart inFront
  rcases slotted_buildVtable slotted gatheredAcyclic parentDone turn.isNew apart
    (changes.classCount_eq ▸ known) with ⟨laidOut, building⟩
  refine ⟨slotsInRange slotted gatheredAcyclic parentDone turn.isNew, laidOut, ?_, ?_⟩
  · exact building.classCount_eq.trans (changes.classCount_eq.trans inTurn.classCount_eq)
  · exact fun id => (building.parent_eq id).trans (sameParents id)

theorem inTurn_addClassById (settled : hierarchy.Settled classes.length)
    (orderEq : hierarchy.order = front ++ owner :: rest) (inTurn : InTurn hierarchy front members) :
    InTurn hierarchy (front ++ [owner]) (addClassById classes hierarchy members owner) := by
  have turn := settled.turn orderEq
  rcases settled.exists_declaration turn.known with ⟨index, decl, indexEq, declEq⟩
  simp only [addClassById, indexEq, declEq]
  exact (inTurn_addClass settled.acyclic turn inTurn index decl).2

theorem inTurn_foldl (settled : hierarchy.Settled classes.length) (later : List ClassId)
    (orderEq : hierarchy.order = front ++ (later ++ rest))
      (inTurn : InTurn hierarchy front members) :
    InTurn hierarchy (front ++ later) (later.foldl (addClassById classes hierarchy) members) := by
  induction later generalizing front members with
  | nil => simpa using inTurn
  | cons owner later ih =>
    have rest := ih (by simp [orderEq]) (inTurn_addClassById settled orderEq inTurn)
    simpa using rest

theorem inTurn_start (settled : hierarchy.Settled classes.length) :
    InTurn hierarchy [] { registry := hierarchy.registry } := by
  have noMethods : ∀ id, hierarchy.registry.methodEntry? id = none := by
    simp [Registry.methodEntry?, settled.bare.noMethods]
  refine ⟨⟨settled.bare.consistent, ?_, ?_, ?_⟩, rfl, fun _ => rfl⟩
  · intro id method _ found
    simp [noMethods] at found
  · intro id method _ found
    simp [noMethods] at found
  · simp

/-- Also in a program with faulty declarations, every slot taken over while a vtable is laid out is
a place in that vtable. -/
theorem slotsInRange_ofHierarchy (classes : List ClassDecl) {front : List ClassId} {owner : ClassId}
    (orderEq : (Hierarchy.ofClasses classes).order = front ++ owner :: rest) (classIndex : Nat)
    (decl : ClassDecl) :
    SlotsInRange
      ((front.foldl (addClassById classes (Hierarchy.ofClasses classes))
        { registry := (Hierarchy.ofClasses classes).registry }).withOwnMembers owner
          classIndex decl).registry
      owner := by
  have settled := Hierarchy.settled_ofClasses classes
  have inTurn := inTurn_foldl settled front (by simpa using orderEq) (inTurn_start settled)
  exact (inTurn_addClass settled.acyclic (settled.turn orderEq) inTurn classIndex decl).1

end Members

end Decaf
