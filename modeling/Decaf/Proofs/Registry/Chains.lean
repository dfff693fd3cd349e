import Mathlib.Data.List.Nodup
import Decaf.Proofs.Registry.Lookup

/-!
# Chains of scopes

Scopes are numbered by their places and lie in scopes that were opened earlier. So the way outward
from a scope goes down in numbers: no bound cuts it short, and it ends at the global scope, the only
one that lies in no other.

There is one scope for each class, and one global scope. So a name that is looked up from a place in
a method body goes through the blocks around the place, the parameters, the members of the class,
those that the class inherits, and the classes, and through nothing else.
-/

namespace Decaf

/-! ## The way outward -/

namespace Scope

/-- Where names are distinct, a name stands for what was declared under it. -/
theorem get?_eq_some_iff {scope : Scope} (distinct : (scope.symbols.map Prod.fst).Nodup)
    {name : String} {symbol : Symbol} :
    scope.get? name = some symbol ↔ (name, symbol) ∈ scope.symbols := by
  rw [get?, Option.map_eq_some_iff]
  constructor
  · rintro ⟨⟨other, _⟩, found, rfl⟩
    have sameName : other = name := by simpa using List.find?_some found
    exact sameName ▸ List.mem_of_find?_eq_some found
  · intro isThere
    cases found : scope.symbols.find? fun entry => entry.1 = name with
    | none => simpa using List.find?_eq_none.mp found _ isThere
    | some entry =>
      have sameName : entry.1 = name := by simpa using List.find?_some found
      have same :=
        List.inj_on_of_nodup_map distinct (List.mem_of_find?_eq_some found) isThere sameName
      exact ⟨entry, rfl, by rw [same]⟩

end Scope

namespace ScopeTree

variable {tree : ScopeTree} {id : ScopeId} {scope : Scope}

/-- Scopes are numbered by their places and lie in earlier ones; only the first one lies in none. -/
structure Ordered (tree : ScopeTree) : Prop where
  numbered : ∀ {id scope}, tree.get? id = some scope → scope.id = id
  outside : ∀ {id scope outer}, tree.get? id = some scope → scope.parent = some outer →
    outer.index < id.index
  root : ∀ {id scope}, tree.get? id = some scope → scope.parent = none → id = global

theorem exists_of_extended {place : ScopeId} {name : String} {symbol : Symbol}
    (found : (tree.extended place name symbol).get? id = some scope) :
    ∃ old, tree.get? id = some old ∧
      scope = if place = id then old.extend name symbol else old := by
  rw [get?_extended] at found
  split at found
  next same =>
    rcases Option.map_eq_some_iff.mp found with ⟨old, oldFound, rfl⟩
    exact ⟨old, oldFound, by rw [if_pos same]⟩
  next differs => exact ⟨scope, found, by rw [if_neg differs]⟩

theorem eq_of_get?_start (found : ScopeTree.start.get? id = some scope) :
    id = global ∧ scope = ⟨global, .global, none, []⟩ := by
  rcases id with ⟨place⟩
  simp only [ScopeTree.start, get?, Array.getElem?_singleton] at found
  split at found
  next isFirst => exact ⟨congrArg ScopeId.mk isFirst, (Option.some.inj found).symm⟩
  next => cases found

namespace Ordered

theorem start : ScopeTree.start.Ordered := by
  constructor
  · intro id scope found
    rcases eq_of_get?_start found with ⟨rfl, rfl⟩
    rfl
  · intro id scope outer found parentEq
    rcases eq_of_get?_start found with ⟨rfl, rfl⟩
    cases parentEq
  · intro id scope found _
    exact (eq_of_get?_start found).1

theorem extended (ordered : tree.Ordered) (place : ScopeId) (name : String) (symbol : Symbol) :
    (tree.extended place name symbol).Ordered := by
  constructor
  · intro id scope found
    rcases exists_of_extended found with ⟨old, oldFound, rfl⟩
    have numbered := ordered.numbered oldFound
    split <;> exact numbered
  · intro id scope outer found parentEq
    rcases exists_of_extended found with ⟨old, oldFound, rfl⟩
    apply ordered.outside oldFound
    split at parentEq <;> exact parentEq
  · intro id scope found noParent
    rcases exists_of_extended found with ⟨old, oldFound, rfl⟩
    apply ordered.root oldFound
    split at noParent <;> exact noParent

theorem push (ordered : tree.Ordered) (kind : ScopeKind) {parent : ScopeId}
    (known : parent.index < tree.size) : (tree.push kind parent).2.Ordered := by
  constructor
  · intro id scope found
    rw [get?_push] at found
    split at found
    next isNew =>
      cases found
      exact isNew.symm
    next => exact ordered.numbered found
  · intro id scope outer found parentEq
    rw [get?_push] at found
    split at found
    next isNew =>
      cases found
      cases parentEq
      rw [isNew]
      exact known
    next => exact ordered.outside found parentEq
  · intro id scope found noParent
    rw [get?_push] at found
    split at found
    · cases found
      cases noParent
    · exact ordered.root found noParent

/-- More steps than the number of the scope lead no further. -/
theorem chainWithin_succ (ordered : tree.Ordered) {count : Nat} (isFew : id.index < count) :
    tree.chainWithin (count + 1) id = tree.chainWithin count id := by
  induction count generalizing id with
  | zero => omega
  | succ count ih =>
    rw [chainWithin, chainWithin]
    cases found : tree.get? id with
    | none => rfl
    | some scope =>
      cases parentEq : scope.parent with
      | none => simp [parentEq]
      | some outer =>
        have isOutside := ordered.outside found parentEq
        simp only [parentEq, Option.map_some, Option.getD_some, @ih outer (by omega)]

/-- The bound does not cut the way outward short. -/
theorem chain_eq (ordered : tree.Ordered) (found : tree.get? id = some scope) :
    tree.chain id = scope :: (scope.parent.map tree.chain).getD [] := by
  have known := lt_size_of_get? found
  rcases Nat.exists_eq_succ_of_ne_zero (Nat.ne_zero_of_lt known) with ⟨count, countEq⟩
  rw [chain, countEq, Nat.succ_eq_add_one, chainWithin, found]
  cases parentEq : scope.parent with
  | none => simp [parentEq]
  | some outer =>
    have isOutside := ordered.outside found parentEq
    have further := @chainWithin_succ tree outer ordered count (by omega)
    simp only [parentEq, Option.map_some, Option.getD_some, chain, countEq,
      Nat.succ_eq_add_one, further]

theorem chain_ends (ordered : tree.Ordered) (found : tree.get? id = some scope) :
    ∃ front root, tree.chain id = front ++ [root] ∧ tree.get? global = some root := by
  generalize placeEq : id.index = place
  induction place using Nat.strongRecOn generalizing id scope with
  | ind place ih =>
    rw [ordered.chain_eq found]
    cases parentEq : scope.parent with
    | none => exact ⟨[], scope, rfl, ordered.root found parentEq ▸ found⟩
    | some outer =>
      have isOutside := ordered.outside found parentEq
      have outerKnown : outer.index < tree.size := Nat.lt_trans isOutside (lt_size_of_get? found)
      have outerFound : tree.get? outer = some tree.scopes[outer.index] :=
        Array.getElem?_eq_getElem outerKnown
      rcases ih outer.index (by omega) outerFound rfl with ⟨front, root, chainEq, isRoot⟩
      refine ⟨scope :: front, root, ?_, isRoot⟩
      simp only [Option.map_some, Option.getD_some, chainEq, List.cons_append]

end Ordered

end ScopeTree

/-! ## Where scopes are -/

/-- The variables of a scope in the order of declaration. -/
abbrev Block := List (String × VariableId)

namespace Block

/-- A block as a scope holds it. -/
def symbols (block : Block) : List (String × Symbol) :=
  block.map fun declared => (declared.1, .ofVariable declared.2)

theorem get?_of_symbols {block : Block} {scope : Scope} (symbolsEq : scope.symbols = block.symbols)
    (name : String) : scope.get? name = (block.lookup name).map Symbol.ofVariable := by
  rw [Scope.get?, symbolsEq]
  clear symbolsEq
  induction block with
  | nil => rfl
  | cons declared block ih =>
    rw [symbols, List.map_cons, ← symbols, List.find?_cons, List.lookup_cons]
    by_cases same : declared.1 = name
    · simp [same]
    · have differs : (name == declared.1) = false := by simpa using Ne.symm same
      simpa [same, differs] using ih

end Block

namespace Registry

variable {registry before after : Registry}

/-- A scope of a class is the one that the class has on record, and the global scope is the first
one. -/
structure Placed (registry : Registry) : Prop where
  global_unique : ∀ {id scope}, registry.scopes.get? id = some scope → scope.kind = .global →
    id = ScopeTree.global
  members_unique : ∀ {id scope owner}, registry.scopes.get? id = some scope →
    scope.kind = .classMembers owner →
    registry.memberScope? owner = some id

namespace Placed

variable {tree : ScopeTree} {scope : Scope}

theorem empty : Registry.empty.Placed where
  global_unique {id scope} found _ := by
    rcases id with ⟨index⟩
    simp only [Registry.empty, ScopeTree.start, ScopeTree.get?, Array.getElem?_singleton] at found
    split at found
    next first => exact congrArg ScopeId.mk first
    next => cases found
  members_unique {id scope owner} found isMembers := by
    simp only [Registry.empty, ScopeTree.start, ScopeTree.get?, Array.getElem?_singleton] at found
    split at found
    · cases found
      cases isMembers
    · cases found

/-- What is left to show when classes keep their scopes. -/
theorem grow (placed : before.Placed)
    (sameScope : ∀ {owner scope}, before.memberScope? owner = some scope →
      after.memberScope? owner = some scope)
    (scopes : ∀ {id scope}, after.scopes.get? id = some scope →
      (∃ old, before.scopes.get? id = some old ∧ old.kind = scope.kind) ∨
      (scope.kind ≠ .global ∧ ∀ owner, scope.kind = .classMembers owner →
        after.memberScope? owner = some id)) :
    after.Placed where
  global_unique found isGlobal := by
    rcases scopes found with ⟨old, oldFound, sameKind⟩ | ⟨notGlobal, _⟩
    · exact placed.global_unique oldFound (sameKind.trans isGlobal)
    · exact absurd isGlobal notGlobal
  members_unique found isMembers := by
    rcases scopes found with ⟨old, oldFound, sameKind⟩ | ⟨_, isPlaced⟩
    · exact sameScope (placed.members_unique oldFound (sameKind.trans isMembers))
    · exact isPlaced _ isMembers

theorem exists_of_extended {place id : ScopeId} {name : String} {symbol : Symbol}
    (found : (tree.extended place name symbol).get? id = some scope) :
    ∃ old, tree.get? id = some old ∧ old.kind = scope.kind := by
  rcases ScopeTree.exists_of_extended found with ⟨old, oldFound, rfl⟩
  refine ⟨old, oldFound, ?_⟩
  split <;> rfl

/-- Opening a scope leaves the others where they are. -/
theorem exists_of_push {parent id : ScopeId} {kind : ScopeKind}
    (found : (tree.push kind parent).2.get? id = some scope) :
    tree.get? id = some scope ∨ id = ⟨tree.size⟩ ∧ scope.kind = kind := by
  rw [ScopeTree.get?_push] at found
  split at found
  next isNew =>
    cases found
    exact .inr ⟨isNew, rfl⟩
  next => exact .inl found

section

variable (placed : registry.Placed)
include placed

theorem classAdded {entry : ClassEntry} (numbered : entry.id = ⟨registry.classCount⟩)
    (opened : entry.scope = ⟨registry.scopes.size⟩) : (registry.classAdded entry).Placed := by
  refine placed.grow ?_ fun found => ?_
  · intro owner scope ownScope
    rcases memberScope?_eq_some.mp ownScope with ⟨old, oldFound, rfl⟩
    refine memberScope?_eq_some.mpr ⟨old, ?_, rfl⟩
    rw [classEntry?_classAdded, if_neg, oldFound]
    rintro rfl
    exact Nat.lt_irrefl _ (lt_classCount oldFound)
  · rcases exists_of_push found with isOld | ⟨rfl, isMembers⟩
    · exact .inl (exists_of_extended isOld)
    · refine .inr ⟨by simp [isMembers], fun owner isOwner => ?_⟩
      obtain rfl : entry.id = owner := by simpa [isMembers] using isOwner
      exact memberScope?_eq_some.mpr ⟨entry, by rw [numbered, classEntry?_classAdded, if_pos rfl],
        by simp [opened]⟩

theorem fieldAdded (scope : ScopeId) (entry : FieldEntry) :
    (registry.fieldAdded scope entry).Placed :=
  placed.grow (fun ownScope => (memberScope?_fieldAdded scope entry _).trans ownScope)
    fun found => .inl (exists_of_extended found)

theorem methodAdded (scope : ScopeId) (entry : MethodEntry) :
    (registry.methodAdded scope entry).Placed := by
  refine placed.grow (fun ownScope => (memberScope?_methodAdded scope entry _).trans ownScope)
    fun found => ?_
  rcases exists_of_push found with isOld | ⟨_, isBody⟩
  · exact .inl (exists_of_extended isOld)
  · exact .inr (by simp [isBody])

theorem variableAdded (scope : ScopeId) (entry : VariableEntry) :
    (registry.variableAdded scope entry).Placed :=
  placed.grow (fun ownScope => ownScope) fun found => .inl (exists_of_extended found)

theorem openBlock (scope : ScopeId) : (registry.openBlock scope).2.Placed := by
  refine placed.grow (fun ownScope => ownScope) fun found => ?_
  rcases exists_of_push found with isOld | ⟨_, isBlock⟩
  · exact .inl ⟨_, isOld, rfl⟩
  · exact .inr (by simp [isBlock])

theorem modifyClass (id : ClassId) {change : ClassEntry → ClassEntry}
    (keepsScope : ∀ entry, (change entry).scope = entry.scope) :
    (registry.modifyClass id change).Placed :=
  placed.grow (fun ownScope =>
    (map_classEntry?_modifyClass ClassEntry.scope keepsScope _).trans ownScope)
    fun found => .inl ⟨_, found, rfl⟩

theorem modifyMethod (id : MethodId) (change : MethodEntry → MethodEntry) :
    (registry.modifyMethod id change).Placed :=
  placed.grow (fun ownScope => ownScope) fun found => .inl ⟨_, found, rfl⟩

end

end Placed

theorem Step.placed (step : Step before after) (placed : before.Placed) : after.Placed := by
  cases step with
  | registerClass registered =>
    rcases classAdded_of_registerClass registered with ⟨-, -, rfl⟩
    exact placed.classAdded rfl rfl
  | registerField ownerKnown _ registered =>
    rcases fieldAdded_of_registerField ownerKnown registered with ⟨_, -, -, -, rfl⟩
    exact placed.fieldAdded _ _
  | registerMethod ownerKnown _ _ registered =>
    rcases methodAdded_of_registerMethod ownerKnown registered with ⟨_, -, -, -, rfl⟩
    exact placed.methodAdded _ _
  | registerVariable _ _ _ registered =>
    rcases variableAdded_of_registerVariable registered with ⟨-, -, rfl⟩
    exact placed.variableAdded _ _
  | openBlock _ => exact placed.openBlock _
  | setParent _ _ | setVtable _ _ => exact placed.modifyClass _ fun _ => rfl
  | setOverrides _ _ | setSlot _ | addParameter _ _ => exact placed.modifyMethod _ _

theorem Run.placed (run : Run before after) (placed : before.Placed) : after.Placed := by
  induction run with
  | refl => exact placed
  | tail _ step ih => exact step.placed ih

end Registry

/-- The blocks around a scope of a method body, innermost first; the last one holds the
parameters. -/
inductive ScopeTree.Frames (tree : ScopeTree) (method : MethodId) : ScopeId → List Block → Prop
  | body {id scope block} (found : tree.get? id = some scope)
  (isBody : scope.kind = .methodBody method)
      (symbolsEq : scope.symbols = Block.symbols block) : Frames tree method id [block]
  | block {id scope outer block blocks} (found : tree.get? id = some scope)
      (isBlock : scope.kind = .block)
      (parentEq : scope.parent = some outer) (symbolsEq : scope.symbols = Block.symbols block)
      (around : Frames tree method outer blocks) : Frames tree method id (block :: blocks)

namespace ScopeTree.Frames

variable {tree grown : ScopeTree} {method : MethodId} {id : ScopeId} {blocks : List Block}

theorem known (frames : tree.Frames method id blocks) : id.index < tree.size := by
  cases frames with
  | body found _ _ => exact lt_size_of_get? found
  | block found _ _ _ _ => exact lt_size_of_get? found

theorem keep (frames : tree.Frames method id blocks)
    (same : ∀ {id scope}, tree.get? id = some scope → grown.get? id = some scope) :
    grown.Frames method id blocks := by
  induction frames with
  | body found isBody symbolsEq => exact .body (same found) isBody symbolsEq
  | block found isBlock parentEq symbolsEq _ ih =>
    exact .block (same found) isBlock parentEq symbolsEq ih

/-- A block that is opened has no variables yet. -/
theorem opened (frames : tree.Frames method id blocks) :
    (tree.push .block id).2.Frames method (tree.push .block id).1 ([] :: blocks) := by
  have new : (tree.push .block id).2.get? (tree.push .block id).1 = some ⟨⟨tree.size⟩,
      .block, some id, []⟩ := by
    simp [get?_push]
  refine .block new rfl rfl rfl (frames.keep fun {other scope} found => ?_)
  rw [get?_push, if_neg, found]
  rintro rfl
  exact Nat.lt_irrefl _ (lt_size_of_get? found)

section

variable (parents_lt : ∀ {id scope parent}, tree.get? id = some scope → scope.parent = some parent →
  parent.index < id.index)

include parents_lt

/-- A declaration further in changes nothing around it. -/
theorem outside (frames : tree.Frames method id blocks) {inner : ScopeId}
    (isOuter : id.index < inner.index) (name : String) (symbol : Symbol) :
    (tree.extended inner name symbol).Frames method id blocks := by
  have elsewhere {place : ScopeId} (apart : place.index < inner.index) :
      (tree.extended inner name symbol).get? place = tree.get? place := by
    rw [get?_extended, if_neg]
    rintro rfl
    exact Nat.lt_irrefl _ apart
  induction frames with
  | body found isBody symbolsEq => exact .body ((elsewhere isOuter).trans found) isBody symbolsEq
  | block found isBlock parentEq symbolsEq _ ih =>
    exact .block ((elsewhere isOuter).trans found) isBlock parentEq symbolsEq
      (ih (Nat.lt_trans (parents_lt found parentEq) isOuter))

/-- A declaration goes to the end of the innermost block. -/
theorem declared {block : Block} (frames : tree.Frames method id (block :: blocks)) (name : String)
    (variableId : VariableId) :
    (tree.extended id name (.ofVariable variableId)).Frames method id
      ((block ++ [(name, variableId)]) :: blocks) := by
  have extendedAt {scope : Scope} (found : tree.get? id = some scope) :
      (tree.extended id name (.ofVariable variableId)).get? id =
        some (scope.extend name (.ofVariable variableId)) := by
    rw [get?_extended, if_pos rfl, found, Option.map_some]
  cases frames with
  | body found isBody symbolsEq =>
    exact .body (extendedAt found) isBody (by simp [Scope.extend, symbolsEq, Block.symbols])
  | block found isBlock parentEq symbolsEq around =>
    exact .block (extendedAt found) isBlock parentEq
      (by simp [Scope.extend, symbolsEq, Block.symbols])
      (around.outside parents_lt (parents_lt found parentEq) name _)

end

variable {block : Block}

theorem declared?_eq (frames : tree.Frames method id (block :: blocks)) (name : String) :
    tree.declared? id name = (block.lookup name).map Symbol.ofVariable := by
  cases frames with
  | body found _ symbolsEq =>
    rw [declared?, found, Option.bind_some, Block.get?_of_symbols symbolsEq]
  | block found _ _ symbolsEq _ =>
    rw [declared?, found, Option.bind_some, Block.get?_of_symbols symbolsEq]

/-- Around a block that was opened in a scope there is still that scope. -/
theorem closed (frames : grown.Frames method (tree.push .block id).1 (block :: blocks))
    (grows : (tree.push .block id).2.Grows grown) : grown.Frames method id blocks := by
  have new : (tree.push .block id).2.get? (tree.push .block id).1 = some ⟨⟨tree.size⟩,
      .block, some id, []⟩ := by
    simp [get?_push]
  rcases grows _ _ new with ⟨scope, scopeFound, kindEq, parentEq, _⟩
  cases frames with
  | body found isBody _ =>
    obtain rfl := Option.some.inj (scopeFound.symm.trans found)
    cases kindEq.symm.trans isBody
  | block found _ outerEq _ around =>
    obtain rfl := Option.some.inj (scopeFound.symm.trans found)
    cases parentEq.symm.trans outerEq
    exact around

end ScopeTree.Frames

/-- What a name stands for at a place with some blocks around it in a method of a class. -/
def Registry.meaning? (registry : Registry) (owner : ClassId) (blocks : List Block)
    (name : String) : Option Symbol :=
  ((blocks.findSome? fun block => block.lookup name).map Symbol.ofVariable).or <|
    (registry.ownMember? owner name).or <|
      (registry.findInherited? owner name).or ((registry.classNamed? name).map Symbol.ofClass)

/-- A class has a member under a name: its own one, or else that of the nearest class above which
has one. -/
inductive Registry.HasMember (registry : Registry) (name : String) : ClassId → Symbol → Prop
  | own {owner symbol} (declares : registry.Declares owner name symbol) :
  HasMember registry name owner symbol
  | inherited {owner parent symbol} (hasNone : ∀ other, ¬ registry.Declares owner name other)
      (parentEq : registry.parent? owner = some parent)
      (above : HasMember registry name parent symbol) : HasMember registry name owner symbol

/-- What a name stands for at a place, as the declarations have it. -/
inductive Registry.Means (registry : Registry) (owner : ClassId) (blocks : List Block)
    (name : String) :
    Symbol → Prop
  | ofBlock {id} (innermost : (blocks.findSome? fun block => block.lookup name) = some id) :
      Means registry owner blocks name (.ofVariable id)
  | ofMember {symbol} (noVariable : ∀ block ∈ blocks, block.lookup name = none)
      (has : registry.HasMember name owner symbol) : Means registry owner blocks name symbol
  | ofClass {id entry} (noVariable : ∀ block ∈ blocks, block.lookup name = none)
      (noMember : ∀ other, ¬ registry.HasMember name owner other)
      (found : registry.classEntry? id = some entry)
      (named : entry.name = name) : Means registry owner blocks name (.ofClass id)

namespace Registry

variable {registry : Registry}

section

variable (wellFormed : registry.WellFormed) (acyclic : registry.Acyclic)

include wellFormed acyclic

variable {owner : ClassId} {name : String} {symbol : Symbol}

theorem findMember?_eq_some :
    registry.findMember? owner name = some symbol ↔ registry.HasMember name owner symbol := by
  induction owner using acyclic.induction wellFormed with
  | step owner ih =>
    rw [findMember?_eq wellFormed acyclic, Option.or_eq_some_iff, wellFormed.own_iff]
    constructor
    · rintro (declares | ⟨hasNone, isInherited⟩)
      · exact .own declares
      · rcases Option.bind_eq_some_iff.mp isInherited with ⟨parent, parentEq, found⟩
        refine .inherited (fun other declares => ?_) parentEq ((ih parent parentEq).mp found)
        cases hasNone.symm.trans (wellFormed.own_iff.mpr declares)
    · intro has
      cases has with
      | own declares => exact .inl declares
      | inherited hasNone parentEq above =>
        refine .inr ⟨Option.eq_none_iff_forall_ne_some.mpr fun other isOwn =>
          hasNone other (wellFormed.own_iff.mp isOwn), ?_⟩
        rw [findInherited?, parentEq]
        exact (ih _ parentEq).mpr above

theorem meaning?_eq (owner : ClassId) (blocks : List Block) (name : String) :
    registry.meaning? owner blocks name =
    ((blocks.findSome? fun block => block.lookup name).map Symbol.ofVariable).or
      ((registry.findMember? owner name).or ((registry.classNamed? name).map Symbol.ofClass)) := by
  rw [meaning?, findMember?_eq wellFormed acyclic, Option.or_assoc]

/-- A name stands for the innermost declaration around the place. -/
theorem meaning?_eq_some {blocks : List Block} :
    registry.meaning? owner blocks name = some symbol ↔
      registry.Means owner blocks name symbol := by
  rw [meaning?_eq wellFormed acyclic, Option.or_eq_some_iff, Option.or_eq_some_iff,
    findMember?_eq_some wellFormed acyclic, Option.map_eq_none_iff, List.findSome?_eq_none_iff]
  constructor
  · rintro (isVariable | ⟨noVariable, has | ⟨noMember, isClass⟩⟩)
    · rcases Option.map_eq_some_iff.mp isVariable with ⟨id, innermost, rfl⟩
      exact .ofBlock innermost
    · exact .ofMember noVariable has
    · rcases Option.map_eq_some_iff.mp isClass with ⟨id, isNamed, rfl⟩
      rcases Option.map_eq_some_iff.mp ((classNamed?_eq_some wellFormed).mp isNamed) with
        ⟨entry, found, named⟩
      refine .ofClass noVariable (fun other has => ?_) found named
      cases noMember.symm.trans ((findMember?_eq_some wellFormed acyclic).mpr has)
  · intro means
    cases means with
    | ofBlock innermost => exact .inl (by rw [innermost, Option.map_some])
    | ofMember noVariable has => exact .inr ⟨noVariable, .inl has⟩
    | @ofClass id entry noVariable noMember found named =>
      refine .inr ⟨noVariable, .inr ⟨Option.eq_none_iff_forall_ne_some.mpr fun other isMember =>
        noMember other ((findMember?_eq_some wellFormed acyclic).mp isMember), ?_⟩⟩
      rw [(classNamed?_eq_some wellFormed).mpr (by rw [found, Option.map_some, named]),
        Option.map_some]

end

variable {scope : Scope}

/-- Scopes and variables have no say in what a name means with given blocks around it. -/
theorem SameMembers.meaning?_eq {other : Registry} (same : registry.SameMembers other)
    (wellFormed : registry.WellFormed) (otherWellFormed : other.WellFormed) (owner : ClassId)
    (blocks : List Block) (name : String) :
    other.meaning? owner blocks name = registry.meaning? owner blocks name := by
  rw [meaning?, meaning?, same.ownMember?_eq wellFormed otherWellFormed,
    same.findInherited?_eq wellFormed otherWellFormed,
    same.classNamed?_eq wellFormed otherWellFormed]

theorem visibleIn?_of_members {owner : ClassId} (isMembers : scope.kind = .classMembers owner)
    (name : String) :
    registry.visibleIn? scope name = (scope.get? name).or (registry.findInherited? owner name) := by
  rw [visibleIn?, isMembers]
  cases scope.get? name <;> rfl

theorem visibleIn?_of_other (notMembers : ∀ owner, scope.kind ≠ .classMembers owner)
    (name : String) : registry.visibleIn? scope name = scope.get? name := by
  rw [visibleIn?]
  cases scope.get? name with
  | some symbol => rfl
  | none => cases kindEq : scope.kind <;> simp_all

theorem get?_of_global (wellFormed : registry.WellFormed) {root : Scope}
    (found : registry.scopes.get? ScopeTree.global = some root) (name : String) :
    root.get? name = (registry.classNamed? name).map Symbol.ofClass := by
  have declared : registry.scopes.declared? ScopeTree.global name = root.get? name := by
    rw [ScopeTree.declared?, found, Option.bind_some]
  rw [classNamed?, declared]
  cases symbolEq : root.get? name with
  | none => rfl
  | some symbol =>
    rcases wellFormed.global_iff.mp (declared.trans symbolEq) with ⟨id, rfl, _⟩
    rfl

section

variable (consistent : registry.Consistent) (housed : registry.Housed) (placed : registry.Placed)

include consistent housed placed

variable {count : Nat} {id : ScopeId} {method : MethodId} {entry : MethodEntry}
  {blocks : List Block}

/-- From the scope of a class on, names are members or classes. -/
theorem findSome?_members {scope : Scope} {owner : ClassId}
    (found : registry.scopes.get? id = some scope) (isMembers : scope.kind = .classMembers owner)
    (enough : id.index < count) (name : String) :
    ((registry.scopes.chainWithin count id).findSome? fun candidate =>
      registry.visibleIn? candidate name) = registry.meaning? owner [] name := by
  rcases (housed.scopes found).members isMembers with ⟨outer, root, parentEq, rootFound, isGlobal⟩
  have above := consistent.parents_lt found parentEq
  have own : scope.get? name = registry.ownMember? owner name := by
    rw [ownMember?_eq, placed.members_unique found isMembers, Option.bind_some,
      ScopeTree.declared?, found, Option.bind_some]
  obtain ⟨rest, rfl⟩ : ∃ rest, count = rest + 1 + 1 := ⟨count - 2, by omega⟩
  have rootEq : registry.visibleIn? root name = (registry.classNamed? name).map Symbol.ofClass := by
    rw [visibleIn?_of_other (by simp [isGlobal])]
    exact get?_of_global consistent.toWellFormed
      (placed.global_unique rootFound isGlobal ▸ rootFound) name
  simp only [ScopeTree.chainWithin, found, parentEq, Option.map_some, Option.getD_some, rootFound,
    (housed.scopes rootFound).global isGlobal, Option.map_none, Option.getD_none,
    List.findSome?_cons,
    visibleIn?_of_members isMembers, rootEq, List.findSome?_nil, own, meaning?, Option.none_or]
  cases registry.ownMember? owner name with
  | some symbol => rfl
  | none =>
    cases registry.findInherited? owner name with
    | some symbol => rfl
    | none => cases registry.classNamed? name <;> rfl

/-- A lookup goes through the blocks around a place, the members of the class and the classes. -/
theorem findSome?_of_frames (methodFound : registry.methodEntry? method = some entry)
    (frames : registry.scopes.Frames method id blocks) (enough : id.index < count) (name : String) :
    ((registry.scopes.chainWithin count id).findSome? fun candidate =>
      registry.visibleIn? candidate name) = registry.meaning? entry.owner blocks name := by
  induction frames generalizing count with
  | @body id scope block found isBody symbolsEq =>
    rcases (housed.scopes found).body isBody with
      ⟨outer, same, members, parentEq, sameFound, membersFound, isMembers⟩
    obtain rfl := Option.some.inj (methodFound.symm.trans sameFound)
    have above := consistent.parents_lt found parentEq
    obtain ⟨rest, rfl⟩ : ∃ rest, count = rest + 1 := ⟨count - 1, by omega⟩
    have outside := findSome?_members consistent housed placed membersFound isMembers
      (Nat.lt_of_lt_of_le above (Nat.le_of_lt_succ enough)) name
    simp only [ScopeTree.chainWithin, found, parentEq, Option.map_some, Option.getD_some,
      List.findSome?_cons, visibleIn?_of_other (show ∀ owner,
        scope.kind ≠ .classMembers owner by simp [isBody]),
      Block.get?_of_symbols symbolsEq, outside, meaning?]
    cases block.lookup name <;> rfl
  | @block id scope outer block blocks found isBlock parentEq symbolsEq around ih =>
    have above := consistent.parents_lt found parentEq
    obtain ⟨rest, rfl⟩ : ∃ rest, count = rest + 1 := ⟨count - 1, by omega⟩
    have outside := ih (Nat.lt_of_lt_of_le above (Nat.le_of_lt_succ enough))
    simp only [ScopeTree.chainWithin, found, parentEq, Option.map_some, Option.getD_some,
      List.findSome?_cons, visibleIn?_of_other (show ∀ owner,
        scope.kind ≠ .classMembers owner by simp [isBlock]),
      Block.get?_of_symbols symbolsEq, outside, meaning?]
    cases block.lookup name <;> rfl

theorem lookup?_of_frames (methodFound : registry.methodEntry? method = some entry)
    (frames : registry.scopes.Frames method id blocks) (name : String) :
    registry.lookup? id name = registry.meaning? entry.owner blocks name :=
  findSome?_of_frames consistent housed placed methodFound frames frames.known name

end

end Registry

end Decaf
