import Decaf.Proofs.Registry.Registration

/-!
# Scopes of method bodies

The scopes in a method body declare variables of that method and nothing else. A variable of a
method is told from its others by its storage, and the rank of a parameter is below the number of
parameters.
-/

namespace Decaf

/-- A scope is that of a method's parameters or lies in it. -/
inductive ScopeTree.Home (tree : ScopeTree) : ScopeId → MethodId → Prop where
  | body {id : ScopeId} {scope : Scope} {method : MethodId} (found : tree.get? id = some scope)
      (isBody : scope.kind = .methodBody method) : Home tree id method
  | block {id parent : ScopeId} {scope : Scope} {method : MethodId}
      (found : tree.get? id = some scope)
      (isBlock : scope.kind = .block) (parentEq : scope.parent = some parent)
      (home : Home tree parent method) : Home tree id method

namespace ScopeTree.Home

variable {tree grown : ScopeTree} {id : ScopeId} {method : MethodId}

theorem known (home : tree.Home id method) : id.index < tree.size := by
  cases home with
  | body found _ => exact lt_size_of_get? found
  | block found _ _ _ => exact lt_size_of_get? found

theorem kind (home : tree.Home id method) : ∃ scope, tree.get? id = some scope ∧
    scope.kind ≠ .global ∧ ∀ owner, scope.kind ≠ .classMembers owner := by
  cases home with
  | body found isBody => exact ⟨_, found, by simp [isBody], by simp [isBody]⟩
  | block found isBlock _ _ => exact ⟨_, found, by simp [isBlock], by simp [isBlock]⟩

theorem unique {other : MethodId} (home : tree.Home id method) (otherHome : tree.Home id other) :
    method = other := by
  induction home with
  | body found isBody =>
    cases otherHome with
    | body otherFound otherBody =>
      cases found.symm.trans otherFound
      exact ScopeKind.methodBody.inj (isBody.symm.trans otherBody)
    | block otherFound isBlock _ _ =>
      cases found.symm.trans otherFound
      cases isBody.symm.trans isBlock
  | block found isBlock parentEq _ ih =>
    cases otherHome with
    | body otherFound otherBody =>
      cases found.symm.trans otherFound
      cases isBlock.symm.trans otherBody
    | block otherFound _ otherParent otherHome =>
      cases found.symm.trans otherFound
      cases parentEq.symm.trans otherParent
      exact ih otherHome

theorem grow (home : tree.Home id method) (grows : tree.Grows grown) : grown.Home id method := by
  induction home with
  | body found isBody =>
    rcases grows _ _ found with ⟨scope, scopeFound, sameKind, _, _⟩
    exact .body scopeFound (sameKind.trans isBody)
  | block found isBlock parentEq _ ih =>
    rcases grows _ _ found with ⟨scope, scopeFound, sameKind, sameParent, _⟩
    exact .block scopeFound (sameKind.trans isBlock) (sameParent.trans parentEq) ih

/-- A scope that was there before lay in the same method. -/
theorem shrink (home : grown.Home id method) (grows : tree.Grows grown)
    (parents_lt : ∀ {id scope parent}, tree.get? id = some scope → scope.parent = some parent →
      parent.index < id.index)
    (old : id.index < tree.size) : tree.Home id method := by
  induction home with
  | @body id scope method found isBody =>
    have before : tree.get? id = some tree.scopes[id.index] := Array.getElem?_eq_getElem old
    rcases grows _ _ before with ⟨same, sameFound, sameKind, _, _⟩
    cases found.symm.trans sameFound
    exact .body before (sameKind.symm.trans isBody)
  | @block id parent scope method found isBlock parentEq _ ih =>
    have before : tree.get? id = some tree.scopes[id.index] := Array.getElem?_eq_getElem old
    rcases grows _ _ before with ⟨same, sameFound, sameKind, sameParent, _⟩
    cases found.symm.trans sameFound
    have beforeParent := sameParent.symm.trans parentEq
    have parentLt := parents_lt before beforeParent
    exact .block before (sameKind.symm.trans isBlock) beforeParent (ih (Nat.lt_trans parentLt old))

end ScopeTree.Home

/-- The global scope and those of class members lie outside of all method bodies. -/
def Scope.IsOuter (scope : Scope) : Prop :=
  scope.kind = .global ∨ ∃ owner, scope.kind = .classMembers owner

namespace ScopeTree

variable {tree : ScopeTree}
variable {id : ScopeId} {scope : Scope}

theorem Home.not_isOuter {method : MethodId} (home : tree.Home id method)
    (found : tree.get? id = some scope) : ¬ scope.IsOuter := by
  rcases home.kind with ⟨same, sameFound, notGlobal, notMembers⟩
  cases found.symm.trans sameFound
  rintro (isGlobal | ⟨owner, isMembers⟩)
  · exact notGlobal isGlobal
  · exact notMembers owner isMembers

theorem Grows.outer {grown : ScopeTree} (grows : tree.Grows grown)
    (found : tree.get? id = some scope) (isOuter : scope.IsOuter) :
    ∃ after, grown.get? id = some after ∧ after.IsOuter := by
  rcases grows _ _ found with ⟨after, afterFound, sameKind, _, _⟩
  exact ⟨after, afterFound, by simpa only [Scope.IsOuter, sameKind] using isOuter⟩

/-- Only blocks lie in scopes of method bodies, and only there variables are declared. -/
structure Nested (tree : ScopeTree) : Prop where
  parent_outer : ∀ {id scope parent}, tree.get? id = some scope → scope.kind ≠ .block →
    scope.parent = some parent → ∃ found, tree.get? parent = some found ∧ found.IsOuter
  no_variable : ∀ {id scope name variableId}, tree.get? id = some scope → scope.IsOuter →
    scope.get? name ≠ some (.ofVariable variableId)

namespace Nested

theorem start : ScopeTree.start.Nested := by
  have only : ∀ {id scope}, ScopeTree.start.get? id = some scope →
      scope = ⟨ScopeTree.global, .global, none, []⟩ := by
    intro id scope found
    simp only [ScopeTree.start, ScopeTree.get?, Array.getElem?_singleton] at found
    split at found
    · exact (Option.some.inj found).symm
    · cases found
  constructor
  · intro id scope parent found _ parentEq
    simp [only found] at parentEq
  · intro id scope name variableId found _
    simp [only found, Scope.get?]

theorem extended (nested : tree.Nested) {scope : ScopeId} {name : String} {symbol : Symbol}
    (fits : ∀ found variableId, tree.get? scope = some found → symbol = .ofVariable variableId →
      ¬ found.IsOuter) : (tree.extended scope name symbol).Nested := by
  constructor
  · intro id grown parent grownFound notBlock parentEq
    rw [get?_extended] at grownFound
    have old : ∃ found, tree.get? parent = some found ∧ found.IsOuter := by
      split at grownFound
      · rcases Option.map_eq_some_iff.mp grownFound with ⟨found, foundEq, rfl⟩
        exact nested.parent_outer foundEq notBlock parentEq
      · exact nested.parent_outer grownFound notBlock parentEq
    rcases old with ⟨found, foundEq, isOuter⟩
    exact (Grows.extended _ _ _ _).outer foundEq isOuter
  · intro id grown other variableId grownFound isOuter declared
    rw [get?_extended] at grownFound
    split at grownFound
    next same =>
      rcases Option.map_eq_some_iff.mp grownFound with ⟨found, foundEq, rfl⟩
      simp only [Scope.get?_extend, Option.or_eq_some_iff] at declared
      rcases declared with declared | ⟨_, declared⟩
      · exact nested.no_variable foundEq isOuter declared
      · split at declared
        · exact fits found variableId (same ▸ foundEq) (Option.some.inj declared) isOuter
        · cases declared
    next => exact nested.no_variable grownFound isOuter declared

theorem push (nested : tree.Nested) {kind : ScopeKind} {parent : ScopeId}
    (fits : kind ≠ .block → ∃ found, tree.get? parent = some found ∧ found.IsOuter) :
    (tree.push kind parent).2.Nested := by
  constructor
  · intro id grown upper grownFound notBlock parentEq
    have old : ∃ found, tree.get? upper = some found ∧ found.IsOuter := by
      rw [get?_push] at grownFound
      split at grownFound
      · cases grownFound
        cases parentEq
        exact fits notBlock
      · exact nested.parent_outer grownFound notBlock parentEq
    rcases old with ⟨found, foundEq, isOuter⟩
    exact (Grows.push _ _ _).outer foundEq isOuter
  · intro id grown name variableId grownFound isOuter
    rw [get?_push] at grownFound
    split at grownFound
    · cases grownFound
      simp [Scope.get?]
    · exact nested.no_variable grownFound isOuter

end Nested

end ScopeTree

namespace Registry

variable {registry : Registry}

/-- The scopes of method bodies and the variables agree. -/
structure Lexical (registry : Registry) : Prop where
  nested : registry.scopes.Nested
  parents_lt : ∀ {id scope parent}, registry.scopes.get? id = some scope →
    scope.parent = some parent →
    parent.index < id.index
  declares : ∀ {id method name symbol}, registry.scopes.Home id method →
    registry.scopes.declared? id name = some symbol → ∃ owned entry, symbol = .ofVariable owned ∧
      registry.variableEntry? owned = some entry ∧ entry.method = method
  variable_id : ∀ {id entry}, registry.variableEntry? id = some entry → entry.id = id
  variable_method : ∀ {id entry}, registry.variableEntry? id = some entry →
    ∃ method, registry.methodEntry? entry.method = some method ∧
      ∀ rank, entry.storage = .parameter rank → rank < method.arity
  storage_inj : ∀ {first second firstEntry secondEntry},
    registry.variableEntry? first = some firstEntry →
    registry.variableEntry? second = some secondEntry → firstEntry.method = secondEntry.method →
      firstEntry.storage = secondEntry.storage → first = second

namespace Lexical

variable {scope : ScopeId} {found : ClassEntry}

/-- New scopes are empty and lie in older ones, old ones keep what they declare, and methods keep
their parameters. -/
theorem of_scopes {after : Registry} (lexical : registry.Lexical)
    (grows : registry.scopes.Grows after.scopes)
    (sameVariables : after.variableEntries = registry.variableEntries)
    (keepsArity : ∀ {id method}, registry.methodEntry? id = some method → ∃ kept,
      after.methodEntry? id = some kept ∧ kept.arity = method.arity)
    (newScope : ∀ {id scope}, after.scopes.get? id = some scope → registry.scopes.size ≤ id.index →
      scope.symbols = [] ∧ ∀ parent, scope.parent = some parent →
      parent.index < registry.scopes.size)
    (sameDeclared : ∀ {id method}, registry.scopes.Home id method → ∀ name,
      after.scopes.declared? id name = registry.scopes.declared? id name)
    (nested : after.scopes.Nested) : after.Lexical := by
  have sameVariable : ∀ id, after.variableEntry? id = registry.variableEntry? id := by
    simp [Registry.variableEntry?, sameVariables]
  refine
    { nested, parents_lt := ?_, declares := ?_, variable_id := ?_, variable_method := ?_
      storage_inj := ?_ }
  · intro id scope parent found parentEq
    by_cases old : id.index < registry.scopes.size
    · have before : registry.scopes.get? id = some registry.scopes.scopes[id.index] :=
        Array.getElem?_eq_getElem old
      rcases grows _ _ before with ⟨same, sameFound, _, sameParent, _⟩
      cases found.symm.trans sameFound
      exact lexical.parents_lt before (sameParent.symm.trans parentEq)
    · have isNew := Nat.le_of_not_lt old
      exact Nat.lt_of_lt_of_le ((newScope found isNew).2 parent parentEq) isNew
  · intro id method name symbol home declared
    simp only [sameVariable]
    by_cases old : id.index < registry.scopes.size
    · have before := home.shrink grows lexical.parents_lt old
      rw [sameDeclared before] at declared
      exact lexical.declares before declared
    · rcases home.kind with ⟨scope, found, _⟩
      have isEmpty := (newScope found (Nat.le_of_not_lt old)).1
      simp [ScopeTree.declared?, found, Scope.get?, isEmpty] at declared
  · intro id entry found
    exact lexical.variable_id ((sameVariable id).symm.trans found)
  · intro id entry found
    rcases lexical.variable_method ((sameVariable id).symm.trans found) with
      ⟨method, methodFound, ranks⟩
    rcases keepsArity methodFound with ⟨kept, keptFound, sameArity⟩
    exact ⟨kept, keptFound, fun rank isParameter => by rw [sameArity]; exact ranks rank isParameter⟩
  · intro first second firstEntry secondEntry firstFound secondFound sameMethod sameStorage
    exact lexical.storage_inj ((sameVariable first).symm.trans firstFound)
      ((sameVariable second).symm.trans secondFound) sameMethod sameStorage

/-- A declaration in a scope that belongs to no method body changes nothing there. -/
theorem declared?_extended_of_outer {id : ScopeId} {method : MethodId} {found : Scope}
    (home : registry.scopes.Home id method) (scopeFound : registry.scopes.get? scope = some found)
    (outer : found.IsOuter) (name other : String) (symbol : Symbol) :
    (registry.scopes.extended scope name symbol).declared? id other =
      registry.scopes.declared? id other := by
  have differs : scope ≠ id := by
    rintro rfl
    exact home.not_isOuter scopeFound outer
  simp [ScopeTree.declared?_extended, differs]

theorem empty : Registry.empty.Lexical where
  nested := .start
  parents_lt := by
    intro id scope parent found parentEq
    have isGlobal : scope = ⟨ScopeTree.global, .global, none, []⟩ := by
      simp only [Registry.empty, ScopeTree.start, ScopeTree.get?, Array.getElem?_singleton] at found
      split at found
      · exact (Option.some.inj found).symm
      · cases found
    simp [isGlobal] at parentEq
  declares := by
    intro id method name symbol home declared
    rcases home.kind with ⟨scope, found, notGlobal, _⟩
    simp only [Registry.empty, ScopeTree.start, ScopeTree.get?, Array.getElem?_singleton] at found
    split at found
    · cases found
      exact absurd rfl notGlobal
    · cases found
  variable_id found := by simp [Registry.empty, variableEntry?] at found
  variable_method found := by simp [Registry.empty, variableEntry?] at found
  storage_inj found := by simp [Registry.empty, variableEntry?] at found

section

variable (lexical : registry.Lexical)
include lexical

theorem fieldAdded (wellFormed : registry.WellFormed)
    {entry : FieldEntry} (known : registry.classEntry? entry.owner = some found) :
    (registry.fieldAdded found.scope entry).Lexical := by
  rcases wellFormed.class_scope known with ⟨scope, scopeFound, isMembers⟩
  refine lexical.of_scopes (.extended _ _ _ _) rfl (fun methodFound => ⟨_, methodFound, rfl⟩) ?_ ?_
    (lexical.nested.extended fun _ _ _ isVariable => by cases isVariable)
  · intro id scope found isNew
    have inRange := ScopeTree.lt_size_of_get? found
    simp only [Registry.fieldAdded, ScopeTree.size_extended] at inRange
    omega
  · intro id method home name
    exact declared?_extended_of_outer home scopeFound (.inr ⟨_, isMembers⟩) _ _ _

theorem methodAdded (wellFormed : registry.WellFormed)
    {entry : MethodEntry} (known : registry.classEntry? entry.owner = some found) :
    (registry.methodAdded found.scope entry).Lexical := by
  rcases wellFormed.class_scope known with ⟨scope, scopeFound, isMembers⟩
  have extendedNested : (registry.scopes.extended found.scope entry.name
      (.ofMethod entry.id)).Nested :=
    lexical.nested.extended fun _ _ _ isVariable => by cases isVariable
  refine lexical.of_scopes (.trans (.extended _ _ _ _) (.push _ _ _)) rfl ?_ ?_ ?_
    (extendedNested.push fun _ =>
      (ScopeTree.Grows.extended _ _ _ _).outer scopeFound (.inr ⟨_, isMembers⟩))
  · intro id method methodFound
    have isOld : id ≠ ⟨registry.methods.size⟩ := by
      rintro rfl
      simp [Registry.methodEntry?] at methodFound
    exact ⟨method, by rwa [Registry.methodEntry?_methodAdded, if_neg isOld], rfl⟩
  · intro id new newFound isNew
    have scopeKnown := ScopeTree.lt_size_of_get? scopeFound
    simp only [Registry.methodAdded, ScopeTree.get?_push, ScopeTree.size_extended] at newFound
    split at newFound
    · cases newFound
      exact ⟨rfl, by rintro parent ⟨⟩; exact scopeKnown⟩
    · have inRange := ScopeTree.lt_size_of_get? newFound
      rw [ScopeTree.size_extended] at inRange
      omega
  · intro id method home name
    have old : id.index <
        (registry.scopes.extended found.scope entry.name (.ofMethod entry.id)).size := by
      simpa using home.known
    exact (ScopeTree.declared?_push old name).trans
      (declared?_extended_of_outer home scopeFound (.inr ⟨_, isMembers⟩) _ _ _)

theorem classAdded (wellFormed : registry.WellFormed) (entry : ClassEntry) :
    (registry.classAdded entry).Lexical := by
  rcases wellFormed.global_scope with ⟨scope, scopeFound, isGlobal⟩
  have extendedNested :
      (registry.scopes.extended ScopeTree.global entry.name (.ofClass entry.id)).Nested :=
    lexical.nested.extended fun _ _ _ isVariable => by cases isVariable
  refine lexical.of_scopes (.trans (.extended _ _ _ _) (.push _ _ _)) rfl
    (fun methodFound => ⟨_, methodFound, rfl⟩) ?_ ?_
    (extendedNested.push fun _ =>
      (ScopeTree.Grows.extended _ _ _ _).outer scopeFound (.inl isGlobal))
  · intro id new newFound isNew
    have scopeKnown := ScopeTree.lt_size_of_get? scopeFound
    simp only [Registry.classAdded, ScopeTree.get?_push, ScopeTree.size_extended] at newFound
    split at newFound
    · cases newFound
      exact ⟨rfl, by rintro parent ⟨⟩; exact scopeKnown⟩
    · have inRange := ScopeTree.lt_size_of_get? newFound
      rw [ScopeTree.size_extended] at inRange
      omega
  · intro id method home name
    have old : id.index < (registry.scopes.extended ScopeTree.global entry.name
        (.ofClass entry.id)).size := by
      simpa using home.known
    exact (ScopeTree.declared?_push old name).trans
      (declared?_extended_of_outer home scopeFound (.inl isGlobal) _ _ _)

theorem openBlock {parent : ScopeId}
    (known : parent.index < registry.scopes.size) : (registry.openBlock parent).2.Lexical := by
  refine lexical.of_scopes (.push _ _ _) rfl (fun methodFound => ⟨_, methodFound, rfl⟩) ?_ ?_
    (lexical.nested.push fun notBlock => absurd rfl notBlock)
  · intro id new newFound isNew
    simp only [Registry.openBlock, ScopeTree.get?_push] at newFound
    split at newFound
    · cases newFound
      exact ⟨rfl, by rintro upper ⟨⟩; exact known⟩
    · exact absurd (ScopeTree.lt_size_of_get? newFound) (Nat.not_lt_of_le isNew)
  · intro id method home name
    exact ScopeTree.declared?_push home.known name

theorem modifyMethod (id : MethodId) {change : MethodEntry → MethodEntry}
    (sameTypes : ∀ entry, (change entry).parameterTypes = entry.parameterTypes) :
    (registry.modifyMethod id change).Lexical := by
  refine lexical.of_scopes (.refl _) rfl ?_ ?_ (fun _ _ => rfl) lexical.nested
  · intro other method found
    rw [Registry.methodEntry?_modifyMethod, found]
    split
    · exact ⟨_, rfl, by rw [MethodEntry.arity, sameTypes, MethodEntry.arity]⟩
    · exact ⟨_, rfl, rfl⟩
  · intro other scope found isNew
    exact absurd (ScopeTree.lt_size_of_get? found) (Nat.not_lt_of_le isNew)

theorem modifyClass (id : ClassId) (change : ClassEntry → ClassEntry) :
    (registry.modifyClass id change).Lexical := by
  refine lexical.of_scopes (.refl _) rfl (fun methodFound => ⟨_, methodFound, rfl⟩)
    ?_ (fun _ _ => rfl) lexical.nested
  intro other scope found isNew
  exact absurd (ScopeTree.lt_size_of_get? found) (Nat.not_lt_of_le isNew)

/-- A variable is declared in a scope of its method, and its storage is that of no other. -/
theorem variableAdded {entry : VariableEntry}
    {method : MethodEntry} (home : registry.scopes.Home scope entry.method)
    (numbered : entry.id = ⟨registry.variableEntries.size⟩)
    (methodFound : registry.methodEntry? entry.method = some method)
    (rank_lt : ∀ rank, entry.storage = .parameter rank → rank < method.arity)
    (storageFresh : ∀ {id other}, registry.variableEntry? id = some other →
      other.method = entry.method → other.storage ≠ entry.storage) :
    (registry.variableAdded scope entry).Lexical := by
  have grows : registry.scopes.Grows (registry.variableAdded scope entry).scopes :=
    .extended _ _ _ _
  have isOld : ∀ {id other}, registry.variableEntry? id = some other →
      id ≠ ⟨registry.variableEntries.size⟩ := by
    rintro id other found rfl
    simp [Registry.variableEntry?] at found
  refine
    { nested := lexical.nested.extended fun found _ foundEq _ => home.not_isOuter foundEq
      parents_lt := ?_, declares := ?_, variable_id := ?_, variable_method :=
        ?_, storage_inj := ?_ }
  · intro id found parent foundEq parentEq
    simp only [Registry.variableAdded, ScopeTree.get?_extended] at foundEq
    split at foundEq
    · rcases Option.map_eq_some_iff.mp foundEq with ⟨old, oldFound, rfl⟩
      exact lexical.parents_lt oldFound parentEq
    · exact lexical.parents_lt foundEq parentEq
  · intro id other name symbol otherHome declared
    have old : id.index < registry.scopes.size := by
      simpa [Registry.variableAdded] using otherHome.known
    have before := otherHome.shrink grows lexical.parents_lt old
    simp only [Registry.variableAdded, ScopeTree.declared?_extended,
      Option.or_eq_some_iff] at declared
    rcases declared with declared | ⟨_, declared⟩
    · rcases lexical.declares before declared with ⟨owned, found, rfl, foundEq, sameMethod⟩
      exact ⟨owned, found, rfl,
        by rw [Registry.variableEntry?_variableAdded, if_neg (isOld foundEq)]; exact foundEq,
        sameMethod⟩
    · split at declared
      next matching =>
        cases declared
        refine ⟨entry.id, entry, rfl,
          by rw [Registry.variableEntry?_variableAdded, if_pos numbered], ?_⟩
        rw [matching.1] at home
        exact home.unique before
      next => cases declared
  · intro id found foundEq
    rw [Registry.variableEntry?_variableAdded] at foundEq
    split at foundEq
    next isNew =>
      cases foundEq
      exact numbered.trans isNew.symm
    next => exact lexical.variable_id foundEq
  · intro id found foundEq
    rw [Registry.variableEntry?_variableAdded] at foundEq
    split at foundEq
    · cases foundEq
      exact ⟨method, methodFound, rank_lt⟩
    · exact lexical.variable_method foundEq
  · intro first second firstEntry secondEntry firstFound secondFound sameMethod sameStorage
    rw [Registry.variableEntry?_variableAdded] at firstFound secondFound
    split at firstFound
    next firstNew =>
      split at secondFound
      next secondNew => exact firstNew.trans secondNew.symm
      next =>
        cases firstFound
        exact absurd sameStorage.symm (storageFresh secondFound sameMethod.symm)
    next =>
      split at secondFound
      next =>
        cases secondFound
        exact absurd sameStorage (storageFresh firstFound sameMethod)
      next => exact lexical.storage_inj firstFound secondFound sameMethod sameStorage

end

end Lexical

/-- Variables are no members. -/
theorem ownMember?_variableAdded (wellFormed : registry.WellFormed) {scope : ScopeId}
    {method : MethodId} (home : registry.scopes.Home scope method) (entry : VariableEntry)
    (owner : ClassId) (name : String) :
    (registry.variableAdded scope entry).ownMember? owner name =
      registry.ownMember? owner name := by
  have sameScope : (registry.variableAdded scope entry).memberScope? owner =
      registry.memberScope? owner :=
    rfl
  rw [ownMember?_eq, ownMember?_eq, sameScope]
  cases ownScope : registry.memberScope? owner with
  | none => rfl
  | some memberScope =>
    rcases home.kind with ⟨found, foundEq, _, notMembers⟩
    have differs :=
      (wellFormed.memberScope_ne ownScope ⟨found, foundEq, rfl⟩ (notMembers owner)).symm
    simp [variableAdded, ScopeTree.declared?_extended, differs]

/-- All views of a registry agree. -/
structure Consistent (registry : Registry) : Prop extends registry.WellFormed, registry.Lexical

end Registry

end Decaf
