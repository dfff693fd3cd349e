import Decaf.Proofs.Registry.Chains
import Decaf.Proofs.Registry.Registration
import Decaf.Proofs.Registry.Requests

/-!
# What a log of requests leaves on record

Requests are served one after another, table by table. Whatever was asked for, the registry is what
the log says: the declarations of a scope and the members of a class are those granted for it, in
order. Names stay distinct within a scope, the index of a scope agrees with its declarations,
numbers agree with places, and the way outward from a scope ends at the global one. So a request is
refused just if its scope has the name, and then nothing has changed.
-/

namespace Decaf

namespace Symbol

/-- The field that a symbol is. -/
def field? : Symbol → Option FieldId
  | .ofField id => some id
  | .ofClass _ | .ofMethod _ | .ofVariable _ => none

/-- The method that a symbol is. -/
def method? : Symbol → Option MethodId
  | .ofMethod id => some id
  | .ofClass _ | .ofField _ | .ofVariable _ => none

end Symbol

namespace Registry

/-! ## Logs -/

/-- A request that was served. -/
structure Served where
  request : Request
  /-- The scope that it concerned. -/
  scope : ScopeId
  answer : Except Symbol Receipt

namespace Served

/-- The symbol that was put on record. -/
def symbol? (served : Served) : Option Symbol :=
  match served.answer with
  | .ok (.declared symbol) => some symbol
  | .ok (.opened _) | .error _ => none

/-- The name that was declared in a scope, with its symbol. -/
def declaredIn? (id : ScopeId) (served : Served) : Option (String × Symbol) :=
  if served.scope = id then served.request.name?.bind fun name => served.symbol?.map fun symbol =>
    (name, symbol)
  else none

/-- The member that a class got. -/
def memberOf? (owner : ClassId) (served : Served) : Option Symbol :=
  if served.request.owner? = some owner then served.symbol? else none

end Served

/-- A request as it is served if it is granted. -/
def Request.served (registry : Registry) (request : Request) : Served :=
  ⟨request, request.scope registry, .ok (request.receipt registry)⟩

/-- Requests are served one after another. -/
inductive Serves : List Served → Tables → Prop where
  | start : Serves [] .start
  | granted {log : List Served} {tables after : Tables} {request : Request} {receipt : Receipt}
      (serves : Serves log tables) (suits : request.Suits tables.registry)
      (ran : request.procedure tables = .ok receipt after) :
      Serves (log ++ [⟨request, request.scope tables.registry, .ok receipt⟩]) after
  | refused {log : List Served} {tables after : Tables} {request : Request} {existing : Symbol}
      (serves : Serves log tables) (suits : request.Suits tables.registry)
      (ran : request.procedure tables = .error existing after) :
      Serves (log ++ [⟨request, request.scope tables.registry, .error existing⟩]) after

/-! ## Declarations -/

namespace Tables

variable {log : List Served} {tables after : Tables} {served : Served}

/-- The scopes have the declarations of a log, and the index has their places. -/
structure Follows (log : List Served) (tables : Tables) : Prop where
  ordered : tables.registry.scopes.Ordered
  global_known : tables.registry.KnowsScope ScopeTree.global
  distinct : ∀ {id scope}, tables.registry.scopes.get? id = some scope →
    (scope.symbols.map Prod.fst).Nodup
  index_iff : ∀ {id scope name place}, tables.registry.scopes.get? id = some scope →
    (tables.index id name = some place ↔ (scope.symbols.map Prod.fst)[place]? = some name)
  symbols_eq : ∀ {id scope}, tables.registry.scopes.get? id = some scope →
    scope.symbols = log.filterMap (Served.declaredIn? id)
  scope_known : ∀ served ∈ log, tables.registry.KnowsScope served.scope

namespace Follows

theorem congr (follows : Follows log tables)
    (sameScopes : after.registry.scopes = tables.registry.scopes)
    (sameIndex : after.index = tables.index) : Follows log after := by
  rcases follows with ⟨ordered, global_known, distinct, index_iff, symbols_eq, scope_known⟩
  constructor <;> simp only [KnowsScope, sameScopes, sameIndex] at * <;> assumption

theorem start : Follows [] .start where
  ordered := .start
  global_known := Nat.zero_lt_one
  distinct found := by
    rcases ScopeTree.eq_of_get?_start found with ⟨_, rfl⟩
    exact List.nodup_nil
  index_iff found := by
    rcases ScopeTree.eq_of_get?_start found with ⟨_, rfl⟩
    simp [Tables.start]
  symbols_eq found := by
    rcases ScopeTree.eq_of_get?_start found with ⟨_, rfl⟩
    rfl
  scope_known := by simp

/-- The index finds what is declared. -/
theorem indexed?_eq (follows : Follows log tables) (id : ScopeId) (name : String) :
    tables.indexed? id name = tables.registry.scopes.declared? id name := by
  rw [indexed?, ScopeTree.declared?]
  cases found : tables.registry.scopes.get? id with
  | none => simp
  | some scope =>
    rw [Option.bind_some]
    apply Option.ext
    intro symbol
    rw [Scope.get?_eq_some_iff (follows.distinct found), Option.bind_eq_some_iff]
    constructor
    · rintro ⟨place, isNoted, isThere⟩
      have nameThere := (follows.index_iff found).mp isNoted
      rcases Option.map_eq_some_iff.mp isThere with ⟨⟨other, _⟩, entryThere, rfl⟩
      have sameName : other = name := by simpa [entryThere] using nameThere
      exact sameName ▸ List.mem_of_getElem? entryThere
    · intro isThere
      rcases List.mem_iff_getElem?.mp isThere with ⟨place, entryThere⟩
      exact ⟨place, (follows.index_iff found).mpr (by simp [entryThere]), by simp [entryThere]⟩

/-- A request that declares nothing leaves the scopes as they are. -/
theorem passed (follows : Follows log tables) (known : tables.registry.KnowsScope served.scope)
    (nothing : ∀ id, served.declaredIn? id = none) : Follows (log ++ [served]) tables where
  ordered := follows.ordered
  global_known := follows.global_known
  distinct := follows.distinct
  index_iff := follows.index_iff
  symbols_eq found := by simp [follows.symbols_eq found, nothing]
  scope_known other isServed := by
    rcases List.mem_append.mp isServed with isOld | isNew
    · exact follows.scope_known other isOld
    · exact List.mem_singleton.mp isNew ▸ known

theorem opened (follows : Follows log tables) (kind : ScopeKind) {parent : ScopeId}
    (known : tables.registry.KnowsScope parent) : Follows log (tables.opened kind parent) := by
  have grows : tables.registry.scopes.size ≤ (tables.opened kind parent).registry.scopes.size := by
    simp [Tables.opened]
  have cases_ {id : ScopeId} {scope : Scope}
      (found : (tables.opened kind parent).registry.scopes.get? id = some scope) :
      id = ⟨tables.registry.scopes.size⟩ ∧ scope.symbols = [] ∨
        id ≠ ⟨tables.registry.scopes.size⟩ ∧ tables.registry.scopes.get? id = some scope := by
    rw [Tables.opened, ScopeTree.get?_push] at found
    split at found
    next isNew =>
      cases found
      exact .inl ⟨isNew, rfl⟩
    next isOld => exact .inr ⟨isOld, found⟩
  constructor
  · exact follows.ordered.push kind known
  · exact Nat.lt_of_lt_of_le follows.global_known grows
  · intro id scope found
    rcases cases_ found with ⟨_, noSymbols⟩ | ⟨_, isOld⟩
    · simp [noSymbols]
    · exact follows.distinct isOld
  · intro id scope name place found
    rcases cases_ found with ⟨isNew, noSymbols⟩ | ⟨differs, isOld⟩
    · simp [Tables.opened, isNew, noSymbols]
    · simp only [Tables.opened, if_neg differs]
      exact follows.index_iff isOld
  · intro id scope found
    rcases cases_ found with ⟨isNew, noSymbols⟩ | ⟨_, isOld⟩
    · -- Nothing was declared in a scope before it was opened.
      rw [noSymbols, eq_comm, List.filterMap_eq_nil_iff]
      intro served isServed
      have isEarlier := follows.scope_known served isServed
      have differs : served.scope ≠ id := by
        rintro rfl
        rw [isNew] at isEarlier
        exact Nat.lt_irrefl _ isEarlier
      rw [Served.declaredIn?, if_neg differs]
    · exact follows.symbols_eq isOld
  · intro served isServed
    exact Nat.lt_of_lt_of_le (follows.scope_known served isServed) grows

theorem getElem?_concat_eq_some {Item : Type} {items : List Item} {last item : Item} {place : Nat} :
    (items ++ [last])[place]? = some item ↔ items[place]? = some item ∨ place = items.length ∧
      last = item := by
  rcases Nat.lt_trichotomy place items.length with isInside | rfl | isBeyond
  · simp [List.getElem?_append_left isInside, Nat.ne_of_lt isInside]
  · simp
  · have outside : (items ++ [last])[place]? = none := by
      rw [List.getElem?_eq_none_iff, List.length_append]
      exact isBeyond
    simp [outside, List.getElem?_eq_none (Nat.le_of_lt isBeyond), Nat.ne_of_gt isBeyond]

theorem noted (follows : Follows log tables) {name : String} {symbol : Symbol}
    (known : tables.registry.KnowsScope served.scope) (nameEq : served.request.name? = some name)
    (symbolEq : served.symbol? = some symbol)
    (fresh : tables.registry.scopes.declared? served.scope name = none) :
    Follows (log ++ [served]) (tables.noted served.scope name symbol) := by
  have sameSize : (tables.noted served.scope name symbol).registry.scopes.size =
      tables.registry.scopes.size :=
    size_noted served.scope name symbol
  have cases_ {id : ScopeId} {scope : Scope}
      (found : (tables.noted served.scope name symbol).registry.scopes.get? id = some scope) :
      ∃ old, tables.registry.scopes.get? id = some old ∧
        scope.symbols = old.symbols ++ if served.scope = id then [(name, symbol)] else [] := by
    rcases ScopeTree.exists_of_extended found with ⟨old, oldFound, rfl⟩
    refine ⟨old, oldFound, ?_⟩
    split <;> simp [Scope.extend]
  have isNew {old : Scope} (found : tables.registry.scopes.get? served.scope = some old) :
      name ∉ old.symbols.map Prod.fst := by
    intro isThere
    rcases List.mem_map.mp isThere with ⟨⟨_, other⟩, entryThere, rfl⟩
    rw [ScopeTree.declared?, found, Option.bind_some] at fresh
    rw [(Scope.get?_eq_some_iff (follows.distinct found)).mpr entryThere] at fresh
    cases fresh
  constructor
  · exact follows.ordered.extended _ _ _
  · exact Nat.lt_of_lt_of_le follows.global_known (Nat.le_of_eq sameSize.symm)
  · intro id scope found
    rcases cases_ found with ⟨old, oldFound, symbolsEq⟩
    rw [symbolsEq]
    split
    next same =>
      subst same
      rw [List.map_append, List.map_singleton]
      exact List.nodup_append_comm.mp
        (List.nodup_cons.mpr ⟨isNew oldFound, follows.distinct oldFound⟩)
    next => simpa using follows.distinct oldFound
  · intro id scope other place found
    rcases cases_ found with ⟨old, oldFound, symbolsEq⟩
    have isNoted := @index_iff _ _ follows id old other place oldFound
    rw [symbolsEq, Tables.noted]
    by_cases same : served.scope = id
    · subst same
      have notThere := isNew oldFound
      rw [if_pos rfl, List.map_append, List.map_singleton,
        getElem?_concat_eq_some, ← isNoted, oldFound]
      by_cases sameName : other = name
      · subst sameName
        have unknown : tables.index served.scope other ≠ some place := by
          rw [Ne, isNoted]
          exact fun isThere => notThere (List.mem_of_getElem? isThere)
        simp [unknown, eq_comm]
      · simp [sameName, Ne.symm sameName]
    · simpa [same, Ne.symm same] using isNoted
  · intro id scope found
    rcases cases_ found with ⟨old, oldFound, symbolsEq⟩
    rw [symbolsEq, follows.symbols_eq oldFound, List.filterMap_append]
    congr 1
    by_cases same : served.scope = id <;> simp [Served.declaredIn?, same, nameEq, symbolEq]
  · intro other isServed
    apply Nat.lt_of_lt_of_le _ (Nat.le_of_eq sameSize.symm)
    rcases List.mem_append.mp isServed with isOld | isLast
    · exact follows.scope_known other isOld
    · exact List.mem_singleton.mp isLast ▸ known

/-- A request that is granted declares its name, and then a scope is opened if it needs one. -/
theorem granted (follows : Follows log tables) {request : Request}
    (known : tables.registry.KnowsScope (request.scope tables.registry))
    (free : request.existing? tables.registry = none) :
    Follows (log ++ [request.served tables.registry]) (tables.granted request) := by
  have declared : Follows (log ++ [request.served tables.registry]) (tables.declaring request) := by
    rw [declaring]
    split
    next name symbol nameEq receiptEq =>
      have fresh : tables.registry.scopes.declared? (request.scope tables.registry)
          name = none := by
        rwa [Request.existing?, nameEq, Option.bind_some] at free
      have symbolEq : (request.served tables.registry).symbol? = some symbol := by
        rw [Request.served, Served.symbol?, receiptEq]
      exact follows.noted known nameEq symbolEq fresh
    next nothing =>
      apply follows.passed known
      intro id
      rw [Served.declaredIn?]
      split
      · cases nameEq : request.name? with
        | none => simp [Request.served, nameEq]
        | some name =>
          cases receiptEq : request.receipt tables.registry with
          | declared symbol => exact absurd receiptEq (nothing name symbol nameEq)
          | opened => simp [Request.served, Served.symbol?, receiptEq]
      · rfl
  have rescoped : Follows (log ++ [request.served tables.registry]) (tables.rescoped request) := by
    rw [Tables.rescoped]
    split
    · exact declared.opened _ (declared.scope_known _ (List.mem_append_right _ List.mem_cons_self))
    · exact declared
  exact rescoped.congr scopes_rescoped.symm rfl

end Follows

end Tables

/-! ## Members -/

section

variable {registry after : Registry} {log : List Served} {served : Served}

/-- The lists of the classes have the members of a log, and all entries are numbered by their
places. -/
structure Enlists (log : List Served) (registry : Registry) : Prop where
  class_id : ∀ {id entry}, registry.classEntry? id = some entry → entry.id = id
  field_id : ∀ {id entry}, registry.fieldEntry? id = some entry → entry.id = id
  method_id : ∀ {id entry}, registry.methodEntry? id = some entry → entry.id = id
  variable_id : ∀ {id entry}, registry.variableEntry? id = some entry → entry.id = id
  class_scope : ∀ {id entry}, registry.classEntry? id = some entry → registry.KnowsScope entry.scope
  fields_eq : ∀ {id entry}, registry.classEntry? id = some entry →
    entry.fields = log.filterMap fun served => (served.memberOf? id).bind Symbol.field?
  methods_eq : ∀ {id entry}, registry.classEntry? id = some entry →
    entry.methods = log.filterMap fun served => (served.memberOf? id).bind Symbol.method?
  fieldsOf_eq : ∀ {id entry}, registry.classEntry? id = some entry →
    entry.fields = registry.fieldsOf id
  methodsOf_eq : ∀ {id entry}, registry.classEntry? id = some entry →
    entry.methods = registry.methodsOf id
  owner_known : ∀ served ∈ log, ∀ owner ∈ served.request.owner?, registry.KnowsClass owner
  field_owner : ∀ entry ∈ registry.fields, registry.KnowsClass entry.owner
  method_owner : ∀ entry ∈ registry.methods, registry.KnowsClass entry.owner

theorem larger_granted (request : Request) : Larger registry (request.granted registry) := by
  cases request <;> constructor <;>
    simp [Request.granted, classAdded, fieldAdded, methodAdded, variableAdded, modifyClass]

namespace Enlists

variable {id : ClassId}

theorem empty : Enlists [] .empty where
  class_id found := by simp [Registry.empty, classEntry?] at found
  field_id found := by simp [Registry.empty, fieldEntry?] at found
  method_id found := by simp [Registry.empty, methodEntry?] at found
  variable_id found := by simp [Registry.empty, Registry.variableEntry?] at found
  class_scope found := by simp [Registry.empty, classEntry?] at found
  fields_eq found := by simp [Registry.empty, classEntry?] at found
  methods_eq found := by simp [Registry.empty, classEntry?] at found
  fieldsOf_eq found := by simp [Registry.empty, classEntry?] at found
  methodsOf_eq found := by simp [Registry.empty, classEntry?] at found
  owner_known := by simp
  field_owner := by simp [Registry.empty]
  method_owner := by simp [Registry.empty]

section

variable (enlists : Enlists log registry)
include enlists

/-- The scope that a request concerns is on record if what the request names is. -/
theorem scope_known (global : registry.KnowsScope ScopeTree.global) {request : Request}
    (suits : request.Suits registry) : registry.KnowsScope (request.scope registry) := by
  have ofOwner {owner : ClassId} (known : registry.KnowsClass owner) :
      registry.KnowsScope ((registry.memberScope? owner).getD ScopeTree.global) := by
    rcases exists_classEntry known with ⟨entry, found⟩
    rw [Request.memberScope?_of_known found]
    exact enlists.class_scope found
  cases request with
  | addClass => exact global
  | addField owner => exact ofOwner (suits.owner owner rfl)
  | addMethod signature => exact ofOwner (suits.owner signature.owner rfl)
  | addVariable scope => exact suits.scope scope rfl
  | openBlock parent => exact suits.scope parent rfl

theorem fieldsOf_eq_nil (isNew : ¬ registry.KnowsClass id) : registry.fieldsOf id = [] := by
  rw [Registry.fieldsOf, List.map_eq_nil_iff, List.filter_eq_nil_iff]
  intro field isField isOwned
  obtain rfl := of_decide_eq_true isOwned
  exact isNew (enlists.field_owner field (Array.mem_toList_iff.mp isField))

theorem methodsOf_eq_nil (isNew : ¬ registry.KnowsClass id) : registry.methodsOf id = [] := by
  rw [Registry.methodsOf, List.map_eq_nil_iff, List.filter_eq_nil_iff]
  intro method isMethod isOwned
  obtain rfl := of_decide_eq_true isOwned
  exact isNew (enlists.method_owner method (Array.mem_toList_iff.mp isMethod))

/-- What is left to show when a class gets at most one member, and at most one class is new. -/
theorem grow (larger : Larger registry after)
    (ownerKnown : ∀ owner ∈ served.request.owner?, registry.KnowsClass owner)
    (classes : ∀ {id entry}, after.classEntry? id = some entry →
      (¬ registry.KnowsClass id ∧ entry.id = id ∧ after.KnowsScope entry.scope ∧ entry.fields = [] ∧
        entry.methods = []) ∨ ∃ old, registry.classEntry? id = some old ∧ entry.id = old.id ∧
        entry.scope = old.scope ∧
        entry.fields = old.fields ++ ((served.memberOf? id).bind Symbol.field?).toList ∧
        entry.methods = old.methods ++ ((served.memberOf? id).bind Symbol.method?).toList)
    (fields : ∀ {id entry}, after.fieldEntry? id = some entry →
      registry.fieldEntry? id = some entry ∨ entry.id = id ∧ registry.KnowsClass entry.owner)
    (methods : ∀ {id entry}, after.methodEntry? id = some entry →
      registry.methodEntry? id = some entry ∨ entry.id = id ∧ registry.KnowsClass entry.owner)
    (variables_ : ∀ {id entry}, after.variableEntry? id = some entry →
      registry.variableEntry? id = some entry ∨ entry.id = id)
    (fieldsOf : ∀ id, after.fieldsOf id = registry.fieldsOf id ++
      ((served.memberOf? id).bind Symbol.field?).toList)
    (methodsOf : ∀ id, after.methodsOf id = registry.methodsOf id ++
      ((served.memberOf? id).bind Symbol.method?).toList) :
    Enlists (log ++ [served]) after := by
  -- A class that is new has no members, since nothing was asked for it before.
  have noMember {id : ClassId} (isNew : ¬ registry.KnowsClass id) : ∀ other ∈ log ++ [served],
      other.memberOf? id = none := by
    intro other isServed
    have differs : other.request.owner? ≠ some id := by
      intro isOwner
      rcases List.mem_append.mp isServed with isOld | isLast
      · exact isNew (enlists.owner_known other isOld id isOwner)
      · obtain rfl := List.mem_singleton.mp isLast
        exact isNew (ownerKnown id isOwner)
    rw [Served.memberOf?, if_neg differs]
  have concat {Item : Type} (pick : Served → Option Item) :
      (log ++ [served]).filterMap pick = log.filterMap pick ++ (pick served).toList := by
    rw [List.filterMap_append]
    cases picked : pick served <;> simp [picked]
  constructor
  · intro id entry found
    rcases classes found with ⟨_, sameId, _⟩ | ⟨old, oldFound, sameId, _⟩
    · exact sameId
    · exact sameId.trans (enlists.class_id oldFound)
  · intro id entry found
    rcases fields found with isOld | ⟨sameId, _⟩
    · exact enlists.field_id isOld
    · exact sameId
  · intro id entry found
    rcases methods found with isOld | ⟨sameId, _⟩
    · exact enlists.method_id isOld
    · exact sameId
  · intro id entry found
    rcases variables_ found with isOld | sameId
    · exact enlists.variable_id isOld
    · exact sameId
  · intro id entry found
    rcases classes found with ⟨_, _, known, _⟩ | ⟨old, oldFound, _, sameScope, _⟩
    · exact known
    · rw [sameScope]
      exact Nat.lt_of_lt_of_le (enlists.class_scope oldFound) larger.scopes_le
  · intro id entry found
    rcases classes found with ⟨isNew, _, _, noFields, _⟩ | ⟨old, oldFound, _, _, fieldsEq, _⟩
    · rw [noFields, eq_comm, List.filterMap_eq_nil_iff]
      intro other isServed
      rw [noMember isNew other isServed, Option.bind_none]
    · rw [fieldsEq, enlists.fields_eq oldFound, concat]
  · intro id entry found
    rcases classes found with ⟨isNew, _, _, _, noMethods⟩ | ⟨old, oldFound, _, _, _, methodsEq⟩
    · rw [noMethods, eq_comm, List.filterMap_eq_nil_iff]
      intro other isServed
      rw [noMember isNew other isServed, Option.bind_none]
    · rw [methodsEq, enlists.methods_eq oldFound, concat]
  · intro id entry found
    rw [fieldsOf]
    rcases classes found with ⟨isNew, _, _, noFields, _⟩ | ⟨old, oldFound, _, _, fieldsEq, _⟩
    · rw [noFields, enlists.fieldsOf_eq_nil isNew, noMember isNew served (by simp)]
      rfl
    · rw [fieldsEq, enlists.fieldsOf_eq oldFound]
  · intro id entry found
    rw [methodsOf]
    rcases classes found with ⟨isNew, _, _, _, noMethods⟩ | ⟨old, oldFound, _, _, _, methodsEq⟩
    · rw [noMethods, enlists.methodsOf_eq_nil isNew, noMember isNew served (by simp)]
      rfl
    · rw [methodsEq, enlists.methodsOf_eq oldFound]
  · intro other isServed owner isOwner
    apply Nat.lt_of_lt_of_le _ larger.classes_le
    rcases List.mem_append.mp isServed with isOld | isLast
    · exact enlists.owner_known other isOld owner isOwner
    · obtain rfl := List.mem_singleton.mp isLast
      exact ownerKnown owner isOwner
  · intro entry isField
    apply Nat.lt_of_lt_of_le _ larger.classes_le
    rcases Array.mem_iff_getElem?.mp isField with ⟨place, isThere⟩
    rcases @fields ⟨place⟩ entry isThere with isOld | ⟨_, known⟩
    · exact enlists.field_owner entry (Array.mem_of_getElem? isOld)
    · exact known
  · intro entry isMethod
    apply Nat.lt_of_lt_of_le _ larger.classes_le
    rcases Array.mem_iff_getElem?.mp isMethod with ⟨place, isThere⟩
    rcases @methods ⟨place⟩ entry isThere with isOld | ⟨_, known⟩
    · exact enlists.method_owner entry (Array.mem_of_getElem? isOld)
    · exact known

/-- A request that concerns no class leaves the classes as they are. -/
theorem elsewhere (larger : Larger registry after) (noMember : ∀ id, served.memberOf? id = none)
    (ownerKnown : ∀ owner ∈ served.request.owner?, registry.KnowsClass owner)
    (sameClasses : after.classes = registry.classes) (sameFields : after.fields = registry.fields)
    (sameMethods : after.methods = registry.methods)
    (variables_ : ∀ {id entry}, after.variableEntry? id = some entry →
      registry.variableEntry? id = some entry ∨ entry.id = id) :
    Enlists (log ++ [served]) after := by
  apply enlists.grow larger ownerKnown
  · intro id entry found
    rw [ classEntry?, sameClasses] at found
    exact .inr ⟨entry, found, rfl, rfl, by simp [noMember], by simp [noMember]⟩
  · intro id entry found
    rw [ fieldEntry?, sameFields] at found
    exact .inl found
  · intro id entry found
    rw [ methodEntry?, sameMethods] at found
    exact .inl found
  · exact variables_
  · intro id
    simp [Registry.fieldsOf, sameFields, noMember]
  · intro id
    simp [Registry.methodsOf, sameMethods, noMember]

end

@[simp]
theorem memberOf?_addClass (name : String) (parentName : Option String) (position : Position)
    (id : ClassId) :
    ((Request.addClass name parentName position).served registry).memberOf? id = none := rfl

@[simp]
theorem memberOf?_addField (owner : ClassId) (name : String) (type : DataType)
    (visibility : Visibility) (isStatic : Bool) (position : Position) (id : ClassId) :
    ((Request.addField owner name type visibility isStatic position).served registry).memberOf? id =
      if owner = id then some (.ofField ⟨registry.fields.size⟩) else none := by
  simp [Served.memberOf?, Request.served, Request.owner?, Served.symbol?, Request.receipt]

@[simp]
theorem memberOf?_addMethod (signature : MethodSignature) (id : ClassId) :
    ((Request.addMethod signature).served registry).memberOf? id =
      if signature.owner = id then some (.ofMethod ⟨registry.methods.size⟩) else none := by
  simp [Served.memberOf?, Request.served, Request.owner?, Served.symbol?, Request.receipt]

theorem granted (enlists : Enlists log registry) {request : Request}
    (suits : request.Suits registry) :
    Enlists (log ++ [request.served registry]) (request.granted registry) := by
  have larger := @larger_granted registry request
  cases request with
  | addClass name parentName position =>
    apply enlists.grow larger suits.owner
    · intro id entry found
      rw [Request.granted, Registry.classEntry?_classAdded] at found
      split at found
      next isNew =>
        cases found
        refine .inl ⟨by simp [isNew, KnowsClass, classCount], isNew.symm, ?_, rfl, rfl⟩
        simp [KnowsScope, Request.granted, classAdded, nextClass]
      next => exact .inr ⟨entry, found, rfl, rfl, by simp, by simp⟩
    · exact .inl
    · exact .inl
    · exact .inl
    · intro id
      simp [Request.granted, Registry.fieldsOf, classAdded]
    · intro id
      simp [Request.granted, Registry.methodsOf, classAdded]
  | addField owner name type visibility isStatic position =>
    apply enlists.grow larger suits.owner
    · intro id entry found
      rcases classEntry?_fieldAdded_eq_some found with ⟨old, oldFound, rfl⟩
      refine .inr ⟨old, oldFound, rfl, rfl, ?_, ?_⟩
      · by_cases same : owner = id <;> simp [same, Symbol.field?]
      · by_cases same : owner = id <;> simp [same, Symbol.method?]
    · intro id entry found
      rw [Request.granted, Registry.fieldEntry?_fieldAdded] at found
      split at found
      next isNew =>
        cases found
        exact .inr ⟨isNew.symm, suits.owner owner rfl⟩
      next => exact .inl found
    · exact .inl
    · exact .inl
    · intro id
      rw [Request.granted, fieldsOf_fieldAdded]
      by_cases same : owner = id <;> simp [same, Symbol.field?]
    · intro id
      rw [Request.granted, methodsOf_fieldAdded]
      by_cases same : owner = id <;> simp [same, Symbol.method?]
  | addMethod signature =>
    apply enlists.grow larger suits.owner
    · intro id entry found
      rcases classEntry?_methodAdded_eq_some found with ⟨old, oldFound, rfl⟩
      refine .inr ⟨old, oldFound, rfl, rfl, ?_, ?_⟩
      · by_cases same : signature.owner = id <;> simp [same, Symbol.field?]
      · by_cases same : signature.owner = id <;> simp [same, Symbol.method?, nextMethod]
    · exact .inl
    · intro id entry found
      rw [Request.granted, Registry.methodEntry?_methodAdded] at found
      split at found
      next isNew =>
        cases found
        exact .inr ⟨isNew.symm, suits.owner signature.owner rfl⟩
      next => exact .inl found
    · exact .inl
    · intro id
      rw [Request.granted, fieldsOf_methodAdded]
      by_cases same : signature.owner = id <;> simp [same, Symbol.field?]
    · intro id
      rw [Request.granted, methodsOf_methodAdded]
      by_cases same : signature.owner = id <;> simp [same, Symbol.method?, nextMethod]
  | addVariable scope name type method storage position =>
    apply enlists.elsewhere larger (fun _ => rfl) suits.owner rfl rfl rfl
    intro id entry found
    rw [Request.granted, Registry.variableEntry?_variableAdded] at found
    split at found
    next isNew =>
      cases found
      exact .inr isNew.symm
    next => exact .inl found
  | openBlock parent => exact enlists.elsewhere larger (fun _ => rfl) suits.owner rfl rfl rfl .inl

end Enlists

end

/-! ## Runs -/

namespace Tables

variable {tables after : Tables} {log : List Served} {request : Request}

/-- The registry is what a log says, and its views agree. -/
structure Sound (log : List Served) (tables : Tables) : Prop where
  distinct : ∀ id scope, tables.registry.scopes.get? id = some scope →
    (scope.symbols.map Prod.fst).Nodup
  get?_iff : ∀ id scope, tables.registry.scopes.get? id = some scope → ∀ name symbol,
    scope.get? name = some symbol ↔ (name, symbol) ∈ scope.symbols
  indexed : ∀ id name, tables.indexed? id name = tables.registry.scopes.declared? id name
  symbols_eq : ∀ id scope, tables.registry.scopes.get? id = some scope →
    scope.symbols = log.filterMap (Served.declaredIn? id)
  fields_eq : ∀ id entry, tables.registry.classEntry? id = some entry →
    entry.fields = (log.filterMap fun served => (served.memberOf? id).bind Symbol.field?) ∧
      entry.fields = tables.registry.fieldsOf id
  methods_eq : ∀ id entry, tables.registry.classEntry? id = some entry →
    entry.methods = (log.filterMap fun served => (served.memberOf? id).bind Symbol.method?) ∧
      entry.methods = tables.registry.methodsOf id
  class_id : ∀ id entry, tables.registry.classEntry? id = some entry → entry.id = id
  field_id : ∀ id entry, tables.registry.fieldEntry? id = some entry → entry.id = id
  method_id : ∀ id entry, tables.registry.methodEntry? id = some entry → entry.id = id
  variable_id : ∀ id entry, tables.registry.variableEntry? id = some entry → entry.id = id
  scope_id : ∀ id scope, tables.registry.scopes.get? id = some scope → scope.id = id
  outside : ∀ id scope, tables.registry.scopes.get? id = some scope → ∀ outer ∈ scope.parent,
    outer.index < id.index
  uncut : ∀ id scope, tables.registry.scopes.get? id = some scope →
    tables.registry.scopes.chain id =
      scope :: (scope.parent.map tables.registry.scopes.chain).getD []
  ends : ∀ id scope, tables.registry.scopes.get? id = some scope → ∃ front root,
    tables.registry.scopes.chain id = front ++ [root] ∧
    tables.registry.scopes.get? ScopeTree.global = some root

/-- A request is refused just if its scope declares its name, and then nothing changes at all; else
it is served as by the registration. -/
structure Answers (tables : Tables) (request : Request) : Prop where
  refused_iff : ∀ existing, request.handle tables.registry = .error existing ↔
    ∃ name ∈ request.name?, ∃ scope,
    tables.registry.scopes.get? (request.scope tables.registry) = some scope ∧
    (name, existing) ∈ scope.symbols
  unchanged : ∀ existing after, request.procedure tables = .error existing after ↔
    request.handle tables.registry = .error existing ∧ after = tables
  granted : ∀ receipt registry, request.handle tables.registry = .ok (receipt, registry) ↔
    ∃ after, request.procedure tables = .ok receipt after ∧ after.registry = registry

theorem Follows.declared?_eq_some (follows : Follows log tables) {id : ScopeId} {name : String}
    {symbol : Symbol} :
    tables.registry.scopes.declared? id name = some symbol ↔
      ∃ scope, tables.registry.scopes.get? id = some scope ∧ (name, symbol) ∈ scope.symbols := by
  rw [ScopeTree.declared?, Option.bind_eq_some_iff]
  constructor
  · rintro ⟨scope, found, declared⟩
    exact ⟨scope, found, (Scope.get?_eq_some_iff (follows.distinct found)).mp declared⟩
  · rintro ⟨scope, found, isThere⟩
    exact ⟨scope, found, (Scope.get?_eq_some_iff (follows.distinct found)).mpr isThere⟩

/-- The index gives the same answers as the scopes do. -/
theorem Follows.procedure_eq (follows : Follows log tables) (request : Request) :
    request.procedure tables = match request.existing? tables.registry with
    | some existing => .error existing tables
    | none => .ok (request.receipt tables.registry) (tables.granted request) := by
  have sameLookup : tables.indexed? (request.scope tables.registry) =
      tables.registry.scopes.declared? (request.scope tables.registry) :=
      funext (follows.indexed?_eq _)
  have lookedUp := Tables.procedure_eq request tables
  rw [sameLookup] at lookedUp
  exact lookedUp

end Tables

/-- Every request that is served adds to the scopes and lists what the log says of it. -/
theorem Serves.invariant {log : List Served} {tables : Tables} (serves : Serves log tables) :
    tables.Follows log ∧ Enlists log tables.registry := by
  induction serves with
  | start => exact ⟨.start, .empty⟩
  | granted serves suits ran ih =>
    rcases ih with ⟨follows, enlists⟩
    have known := enlists.scope_known follows.global_known suits
    rw [follows.procedure_eq] at ran
    split at ran
    · cases ran
    next free =>
      cases ran
      exact ⟨follows.granted known free, enlists.granted suits⟩
  | refused serves suits ran ih =>
    rcases ih with ⟨follows, enlists⟩
    have known := enlists.scope_known follows.global_known suits
    rw [follows.procedure_eq] at ran
    split at ran
    · cases ran
      refine ⟨follows.passed known ?_, enlists.elsewhere (.refl _) ?_ suits.owner rfl rfl rfl .inl⟩
      · intro id
        simp [Served.declaredIn?, Served.symbol?]
      · intro id
        simp [Served.memberOf?, Served.symbol?]
    · cases ran

namespace Tables

variable {tables : Tables} {log : List Served} {request : Request}

theorem Follows.sound (follows : Follows log tables) (enlists : Enlists log tables.registry) :
    tables.Sound log where
  distinct _ _ found := follows.distinct found
  get?_iff _ _ found _ _ := Scope.get?_eq_some_iff (follows.distinct found)
  indexed := follows.indexed?_eq
  symbols_eq _ _ found := follows.symbols_eq found
  fields_eq _ _ found := ⟨enlists.fields_eq found, enlists.fieldsOf_eq found⟩
  methods_eq _ _ found := ⟨enlists.methods_eq found, enlists.methodsOf_eq found⟩
  class_id _ _ found := enlists.class_id found
  field_id _ _ found := enlists.field_id found
  method_id _ _ found := enlists.method_id found
  variable_id _ _ found := enlists.variable_id found
  scope_id _ _ found := follows.ordered.numbered found
  outside _ _ found _ isOutside := follows.ordered.outside found isOutside
  uncut _ _ found := follows.ordered.chain_eq found
  ends _ _ found := follows.ordered.chain_ends found

theorem Follows.answers (follows : Follows log tables) (suits : request.Suits tables.registry) :
    tables.Answers request := by
  have handled := request.handle_eq suits
  have served := follows.procedure_eq request
  have standsInWay (existing : Symbol) : request.existing? tables.registry = some existing ↔
      ∃ name ∈ request.name?, ∃ scope,
      tables.registry.scopes.get? (request.scope tables.registry) = some scope ∧
        (name, existing) ∈ scope.symbols := by
    rw [Request.existing?, Option.bind_eq_some_iff]
    simp only [follows.declared?_eq_some, Option.mem_def]
  cases existingEq : request.existing? tables.registry with
  | some found =>
    rw [existingEq] at handled served
    constructor
    · intro existing
      rw [← standsInWay, handled, existingEq]
      simp
    · intro existing after
      rw [handled, served]
      simp [eq_comm]
    · intro receipt registry
      rw [handled, served]
      simp
  | none =>
    rw [existingEq] at handled served
    constructor
    · intro existing
      rw [← standsInWay, handled, existingEq]
      simp
    · intro existing after
      rw [handled, served]
      simp
    · intro receipt registry
      rw [handled, served]
      constructor
      · intro isResult
        cases isResult
        exact ⟨_, rfl, rfl⟩
      · rintro ⟨after, isResult, rfl⟩
        cases isResult
        rfl

end Tables

/-- After any sequence of requests the views of the registry agree, and the next request is refused
without a trace or served as a whole. -/
theorem serves_sound {log : List Served} {tables : Tables} (serves : Serves log tables) :
    tables.Sound log ∧ ∀ request : Request, request.Suits tables.registry →
      tables.Answers request := by
  rcases serves.invariant with ⟨follows, enlists⟩
  exact ⟨follows.sound enlists, fun _ suits => follows.answers suits⟩

/-- A class, another one of its name, a field and a method with a variable in a block. -/
def sketch : List Request :=
  [.addClass "Point" none ⟨1, 1⟩, .addClass "Point" none ⟨9, 1⟩,
    .addField ⟨0⟩ "x" .int .publicMember false ⟨2, 3⟩,
    .addMethod ⟨⟨0⟩, "move", [], .void, .publicMember, false, ⟨3, 3⟩⟩,
    .openBlock ⟨2⟩, .addVariable ⟨3⟩ "x" .int ⟨0⟩ (.body 0) ⟨4, 5⟩]

theorem serves_sound_sketch : ∃ log tables, Serves log tables ∧ log.map Served.request = sketch ∧
    tables.Sound log ∧ tables.registry.scopes.size = 4 ∧
    (∀ request : Request, request.Suits tables.registry → tables.Answers request) := by
  have first := Serves.granted .start (by decide)
    (show Request.procedure (.addClass "Point" none ⟨1, 1⟩) .start = .ok _ _ from rfl)
  have second := first.refused (by decide)
    (show Request.procedure (.addClass "Point" none ⟨9, 1⟩) _ = .error _ _ from rfl)
  have third := second.granted (by decide)
    (show Request.procedure (.addField ⟨0⟩ "x" .int .publicMember false ⟨2, 3⟩) _ =
      .ok _ _ from rfl)
  have fourth := third.granted (by decide)
    (show Request.procedure (.addMethod ⟨⟨0⟩, "move", [], .void, .publicMember, false, ⟨3, 3⟩⟩) _ =
      .ok _ _ from rfl)
  have fifth :=
    fourth.granted (by decide) (show Request.procedure (.openBlock ⟨2⟩) _ = .ok _ _ from rfl)
  have last := fifth.granted (by decide)
    (show Request.procedure (.addVariable ⟨3⟩ "x" .int ⟨0⟩ (.body 0) ⟨4, 5⟩) _ = .ok _ _ from rfl)
  rcases serves_sound last with ⟨sound, answers⟩
  exact ⟨_, _, last, rfl, sound, rfl, answers⟩

end Registry

end Decaf
