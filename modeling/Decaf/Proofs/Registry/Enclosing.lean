import Decaf.Proofs.Registry.Closed
import Decaf.Proofs.Registry.Lexical

/-!
# Scopes around scopes

The scope of a method's parameters lies in the scope of the class that declares the method, and that
one lies in the global scope. Fields are declared in the scopes of their classes only. So a field
that is found by its name alone belongs to the class of the method, or to a class above it.
-/

namespace Decaf

namespace Registry

variable {registry before after : Registry}

/-- A scope lies where it belongs, and so do the fields in it. -/
structure HousedScope (registry : Registry) (scope : Scope) : Prop where
  body : ∀ {method}, scope.kind = .methodBody method → ∃ outer entry found,
    scope.parent = some outer ∧
    registry.methodEntry? method = some entry ∧ registry.scopes.get? outer = some found ∧
    found.kind = .classMembers entry.owner
  members : ∀ {owner}, scope.kind = .classMembers owner → ∃ outer found, scope.parent = some outer ∧
    registry.scopes.get? outer = some found ∧ found.kind = .global
  global : scope.kind = .global → scope.parent = none
  field : ∀ {name id}, scope.get? name = some (.ofField id) → ∃ entry,
    registry.fieldEntry? id = some entry ∧
    scope.kind = .classMembers entry.owner

/-- All scopes lie where they belong. -/
structure Housed (registry : Registry) : Prop where
  scopes : ∀ {id scope}, registry.scopes.get? id = some scope → registry.HousedScope scope
  root : ∃ found, registry.scopes.get? ScopeTree.global = some found ∧ found.kind = .global
  class_scope : ∀ {id entry}, registry.classEntry? id = some entry →
    ∃ found, registry.scopes.get? entry.scope = some found ∧ found.kind = .classMembers id

/-- Scopes, the owners of methods, and fields stay as they are. -/
structure Stays (before after : Registry) : Prop where
  scopes : before.scopes.Grows after.scopes
  methods : ∀ {id entry}, before.methodEntry? id = some entry →
    ∃ kept, after.methodEntry? id = some kept ∧ kept.owner = entry.owner
  fields : ∀ {id entry}, before.fieldEntry? id = some entry → after.fieldEntry? id = some entry

namespace Stays

theorem housedScope (stays : Stays before after) {scope : Scope}
    (housed : before.HousedScope scope) : after.HousedScope scope where
  body isBody := by
    rcases housed.body isBody with
      ⟨outer, entry, found, parentEq, methodFound, scopeFound, isMembers⟩
    rcases stays.methods methodFound with ⟨kept, keptFound, sameOwner⟩
    rcases stays.scopes.kind_eq ⟨found, scopeFound, isMembers⟩ with ⟨last, lastFound, lastMembers⟩
    exact ⟨outer, kept, last, parentEq, keptFound, lastFound, sameOwner ▸ lastMembers⟩
  members isMembers := by
    rcases housed.members isMembers with ⟨outer, found, parentEq, scopeFound, isGlobal⟩
    rcases stays.scopes.kind_eq ⟨found, scopeFound, isGlobal⟩ with ⟨last, lastFound, lastGlobal⟩
    exact ⟨outer, last, parentEq, lastFound, lastGlobal⟩
  global := housed.global
  field declared := by
    rcases housed.field declared with ⟨entry, found, isMembers⟩
    exact ⟨entry, stays.fields found, isMembers⟩

end Stays

theorem HousedScope.extend {scope : Scope} (housed : registry.HousedScope scope) (name : String)
    {symbol : Symbol}
    (fits : ∀ id, symbol = .ofField id → ∃ entry,
      registry.fieldEntry? id = some entry ∧ scope.kind = .classMembers entry.owner) :
    registry.HousedScope (scope.extend name symbol) where
  body := housed.body
  members := housed.members
  global := housed.global
  field declared := by
    rw [Scope.get?_extend, Option.or_eq_some_iff] at declared
    rcases declared with old | ⟨_, isNew⟩
    · exact housed.field old
    · exact fits _ (Option.some.inj (Option.ite_none_right_eq_some.mp isNew).2)

namespace Housed

theorem empty : Registry.empty.Housed where
  scopes {id scope} found := by
    have isGlobal : scope = ⟨ScopeTree.global, .global, none, []⟩ := by
      simp only [Registry.empty, ScopeTree.start, ScopeTree.get?, Array.getElem?_singleton] at found
      split at found
      · exact (Option.some.inj found).symm
      · cases found
    subst isGlobal
    refine ⟨?_, ?_, fun _ => rfl, ?_⟩ <;> intros <;> contradiction
  root := ⟨_, rfl, rfl⟩
  class_scope found := by simp [Registry.empty, classEntry?] at found

/-- The scopes stay housed when one of them gets a declaration. -/
theorem extended (housed : before.Housed) (stays : Stays before after) {place : ScopeId}
    {name : String} {symbol : Symbol}
    (fits : ∀ id, symbol = .ofField id → ∃ entry found,
      after.fieldEntry? id = some entry ∧ before.scopes.get? place = some found ∧
      found.kind = .classMembers entry.owner)
    {id : ScopeId} {scope : Scope}
    (scopeFound : (before.scopes.extended place name symbol).get? id = some scope) :
    after.HousedScope scope := by
  rw [ScopeTree.get?_extended] at scopeFound
  split at scopeFound
  next same =>
    rcases Option.map_eq_some_iff.mp scopeFound with ⟨old, oldFound, rfl⟩
    refine (stays.housedScope (housed.scopes oldFound)).extend name ?_
    intro field isField
    rcases fits field isField with ⟨entry, found, fieldFound, foundEq, isMembers⟩
    cases (same ▸ foundEq).symm.trans oldFound
    exact ⟨entry, fieldFound, isMembers⟩
  next => exact stays.housedScope (housed.scopes scopeFound)

/-- What is left to show when no entry of a class changes its scope. -/
theorem grow (housed : before.Housed) (stays : Stays before after)
    (scopes : ∀ {id scope}, after.scopes.get? id = some scope → after.HousedScope scope)
    (sameScope : ∀ {id entry}, after.classEntry? id = some entry →
      ∃ old, before.classEntry? id = some old ∧ old.scope = entry.scope) : after.Housed where
  scopes := scopes
  root := stays.scopes.kind_eq housed.root
  class_scope found := by
    rcases sameScope found with ⟨old, oldFound, same⟩
    exact same ▸ stays.scopes.kind_eq (housed.class_scope oldFound)

theorem modifyClass (housed : registry.Housed) (id : ClassId) {change : ClassEntry → ClassEntry}
    (keepsScope : ∀ entry, (change entry).scope = entry.scope) :
    (registry.modifyClass id change).Housed := by
  have stays : Stays registry (registry.modifyClass id change) :=
    ⟨.refl _, fun found => ⟨_, found, rfl⟩, fun found => found⟩
  refine housed.grow stays (fun found => stays.housedScope (housed.scopes found)) ?_
  intro other entry found
  rw [classEntry?_modifyClass] at found
  split at found
  · rcases Option.map_eq_some_iff.mp found with ⟨old, oldFound, rfl⟩
    exact ⟨old, oldFound, (keepsScope old).symm⟩
  · exact ⟨entry, found, rfl⟩

theorem modifyMethod (housed : registry.Housed) (id : MethodId) {change : MethodEntry → MethodEntry}
    (keepsOwner : ∀ entry, (change entry).owner = entry.owner) :
    (registry.modifyMethod id change).Housed := by
  have stays : Stays registry (registry.modifyMethod id change) := by
    refine ⟨.refl _, ?_, fun found => found⟩
    intro other entry found
    rw [methodEntry?_modifyMethod]
    split
    · exact ⟨change entry, by rw [found, Option.map_some], keepsOwner entry⟩
    · exact ⟨entry, found, rfl⟩
  exact housed.grow stays (fun found => stays.housedScope (housed.scopes found)) fun found =>
    ⟨_, found, rfl⟩

end Housed

theorem HousedScope.opened {tree : ScopeTree} {kind : ScopeKind} {parent : ScopeId}
    (old : ∀ {id scope}, tree.get? id = some scope → registry.HousedScope scope)
    (new : registry.HousedScope ⟨⟨tree.size⟩, kind, some parent, []⟩) {id : ScopeId} {scope : Scope}
    (found : (tree.push kind parent).2.get? id = some scope) : registry.HousedScope scope := by
  rw [ScopeTree.get?_push] at found
  split at found
  · cases found
    exact new
  · exact old found

namespace Housed

variable {found : ClassEntry}

section

variable (housed : registry.Housed)
include housed

theorem classAdded {entry : ClassEntry} (numbered : entry.id = ⟨registry.classCount⟩)
    (opened : entry.scope = ⟨registry.scopes.size⟩) : (registry.classAdded entry).Housed := by
  have stays : Stays registry (registry.classAdded entry) :=
    ⟨(ScopeTree.Grows.extended _ _ _ _).trans (.push _ _ _), fun found => ⟨_, found, rfl⟩,
      fun found => found⟩
  refine ⟨?_, stays.scopes.kind_eq housed.root, ?_⟩
  · intro id scope scopeFound
    refine HousedScope.opened (housed.extended stays (by simp)) ⟨by simp, ?_, by simp,
      by simp [Scope.get?]⟩ scopeFound
    intro _ _
    rcases stays.scopes.kind_eq housed.root with ⟨root, rootFound, isGlobal⟩
    exact ⟨_, root, rfl, rootFound, isGlobal⟩
  · intro id other found
    rw [classEntry?_classAdded] at found
    split at found
    next isNew =>
      cases found
      refine ⟨⟨⟨registry.scopes.size⟩, .classMembers entry.id, some ScopeTree.global, []⟩, ?_, ?_⟩
      · simp [Registry.classAdded, ScopeTree.get?_push, opened]
      · rw [numbered, isNew]
    next => exact stays.scopes.kind_eq (housed.class_scope found)

theorem fieldAdded {entry : FieldEntry} (numbered : entry.id = ⟨registry.fields.size⟩)
    (ownerFound : registry.classEntry? entry.owner = some found) :
    (registry.fieldAdded found.scope entry).Housed := by
  have keeps : ∀ {id old}, registry.fieldEntry? id = some old →
      Registry.fieldEntry? (registry.fieldAdded found.scope entry) id = some old := by
    intro id old oldFound
    rw [fieldEntry?_fieldAdded, if_neg, oldFound]
    rintro rfl
    exact Nat.lt_irrefl _ (Array.getElem?_eq_some_iff.mp oldFound).1
  have stays : Stays registry (registry.fieldAdded found.scope entry) :=
    ⟨.extended _ _ _ _, fun found => ⟨_, found, rfl⟩, keeps⟩
  refine housed.grow stays (housed.extended stays ?_) ?_
  · rintro _ ⟨⟩
    rcases housed.class_scope ownerFound with ⟨scope, scopeFound, isMembers⟩
    exact ⟨entry, scope, by rw [fieldEntry?_fieldAdded, if_pos numbered], scopeFound, isMembers⟩
  · intro id other otherFound
    rw [classEntry?_fieldAdded] at otherFound
    split at otherFound
    · rcases Option.map_eq_some_iff.mp otherFound with ⟨old, oldFound, rfl⟩
      exact ⟨old, oldFound, rfl⟩
    · exact ⟨other, otherFound, rfl⟩

theorem methodAdded {entry : MethodEntry} (numbered : entry.id = ⟨registry.methods.size⟩)
    (ownerFound : registry.classEntry? entry.owner = some found) :
    (registry.methodAdded found.scope entry).Housed := by
  have keeps : ∀ {id old}, registry.methodEntry? id = some old →
      Registry.methodEntry? (registry.methodAdded found.scope entry) id = some old := by
    intro id old oldFound
    rw [methodEntry?_methodAdded, if_neg, oldFound]
    rintro rfl
    exact Nat.lt_irrefl _ (Array.getElem?_eq_some_iff.mp oldFound).1
  have stays : Stays registry (registry.methodAdded found.scope entry) :=
    ⟨(ScopeTree.Grows.extended _ _ _ _).trans (.push _ _ _), fun found => ⟨_, keeps found, rfl⟩,
      fun found => found⟩
  refine housed.grow stays ?_ ?_
  · intro id scope scopeFound
    refine HousedScope.opened (housed.extended stays (by simp)) ⟨?_, by simp, by simp,
      by simp [Scope.get?]⟩ scopeFound
    rintro _ ⟨⟩
    rcases stays.scopes.kind_eq (housed.class_scope ownerFound) with ⟨scope, scopeFound, isMembers⟩
    exact ⟨_, entry, scope, rfl, by rw [methodEntry?_methodAdded, if_pos numbered],
      scopeFound, isMembers⟩
  · intro id other otherFound
    rw [classEntry?_methodAdded] at otherFound
    split at otherFound
    · rcases Option.map_eq_some_iff.mp otherFound with ⟨old, oldFound, rfl⟩
      exact ⟨old, oldFound, rfl⟩
    · exact ⟨other, otherFound, rfl⟩

theorem variableAdded (scope : ScopeId) (entry : VariableEntry) :
    (registry.variableAdded scope entry).Housed := by
  have stays : Stays registry (registry.variableAdded scope entry) :=
    ⟨.extended _ _ _ _, fun found => ⟨_, found, rfl⟩, fun found => found⟩
  exact housed.grow stays (housed.extended stays (by simp)) fun found => ⟨_, found, rfl⟩

theorem openBlock (scope : ScopeId) : (registry.openBlock scope).2.Housed := by
  have stays : Stays registry (registry.openBlock scope).2 :=
    ⟨.push _ _ _, fun found => ⟨_, found, rfl⟩, fun found => found⟩
  refine housed.grow stays ?_ fun found => ⟨_, found, rfl⟩
  intro id opened scopeFound
  exact HousedScope.opened (fun found => stays.housedScope (housed.scopes found))
    ⟨by simp, by simp, by simp, by simp [Scope.get?]⟩ scopeFound

end

end Housed

theorem Step.housed (step : Step before after) (housed : before.Housed) : after.Housed := by
  cases step with
  | registerClass registered =>
    rcases classAdded_of_registerClass registered with ⟨-, -, rfl⟩
    exact housed.classAdded rfl rfl
  | registerField ownerKnown _ registered =>
    rcases fieldAdded_of_registerField ownerKnown registered with ⟨found, foundEq, -, -, rfl⟩
    exact housed.fieldAdded rfl foundEq
  | registerMethod ownerKnown _ _ registered =>
    rcases methodAdded_of_registerMethod ownerKnown registered with ⟨found, foundEq, -, -, rfl⟩
    exact housed.methodAdded rfl foundEq
  | registerVariable _ _ _ registered =>
    rcases variableAdded_of_registerVariable registered with ⟨-, -, rfl⟩
    exact housed.variableAdded _ _
  | openBlock _ => exact housed.openBlock _
  | setParent _ _ | setVtable _ _ => exact housed.modifyClass _ fun _ => rfl
  | setOverrides _ _ | setSlot _ | addParameter _ _ => exact housed.modifyMethod _ fun _ => rfl

theorem Run.housed (run : Run before after) (housed : before.Housed) : after.Housed := by
  induction run with
  | refl => exact housed
  | tail _ step ih => exact step.housed ih

end Registry

end Decaf
