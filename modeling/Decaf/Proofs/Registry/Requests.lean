import Decaf.Proofs.Registry.Closed

/-!
# Requests to the registry

The registrations as one kind of request. A request that suits the registry is refused if the scope
that it concerns declares its name, and else it is granted with the next number. `procedure` serves
it table by table: the scope with the index of its names first, then the new scope, the list of the
owner and the entry. A refusal leaves whatever was changed up to there; since the name is looked up
first, that is nothing.
-/

namespace Decaf

namespace Registry

/-- What the registry can be asked for. -/
inductive Request where
  | addClass (name : String) (parentName : Option String) (position : Position)
  | addField (owner : ClassId) (name : String) (type : DataType) (visibility : Visibility)
      (isStatic : Bool) (position : Position)
  | addMethod (signature : MethodSignature)
  | addVariable (scope : ScopeId) (name : String) (type : DataType) (method : MethodId)
      (storage : Storage) (position : Position)
  | openBlock (parent : ScopeId)

/-- What a request that is granted is answered with. -/
inductive Receipt where
  | declared (symbol : Symbol)
  | opened (scope : ScopeId)
  deriving DecidableEq

namespace Request

/-- The name that a request is to declare. -/
def name? : Request → Option String
  | addClass name _ _ | addField _ name _ _ _ _ | addVariable _ name _ _ _ _ => some name
  | addMethod signature => some signature.name
  | openBlock _ => none

/-- The class that is to get a member. -/
def owner? : Request → Option ClassId
  | addField owner _ _ _ _ _ => some owner
  | addMethod signature => some signature.owner
  | addClass _ _ _ | addVariable _ _ _ _ _ _ | openBlock _ => none

/-- The scope that a request concerns: where it declares its name or opens a block. -/
def scope (registry : Registry) : Request → ScopeId
  | addClass _ _ _ => ScopeTree.global
  | addField owner _ _ _ _ _ => (registry.memberScope? owner).getD ScopeTree.global
  | addMethod signature => (registry.memberScope? signature.owner).getD ScopeTree.global
  | addVariable scope _ _ _ _ _ => scope
  | openBlock parent => parent

/-- The scope that a request names. -/
def namedScope? : Request → Option ScopeId
  | addVariable scope _ _ _ _ _ | openBlock scope => some scope
  | addClass _ _ _ | addField _ _ _ _ _ _ | addMethod _ => none

/-- The owner and the scope that a request names are on record. -/
structure Suits (registry : Registry) (request : Request) : Prop where
  owner : ∀ owner ∈ request.owner?, registry.KnowsClass owner
  scope : ∀ scope ∈ request.namedScope?, registry.KnowsScope scope

instance (registry : Registry) (request : Request) : Decidable (request.Suits registry) :=
  decidable_of_iff ((∀ owner ∈ request.owner?, owner.index < registry.classes.size) ∧
      ∀ scope ∈ request.namedScope?, scope.index < registry.scopes.size)
    ⟨fun ⟨owner, scope⟩ => ⟨owner, scope⟩, fun suits => ⟨suits.owner, suits.scope⟩⟩

/-- Serves a request with the registrations. -/
def handle (registry : Registry) : Request → Except Symbol (Receipt × Registry)
  | addClass name parentName position =>
    (registry.registerClass name parentName position).map fun (id, after) =>
      (.declared (.ofClass id), after)
  | addField owner name type visibility isStatic position =>
    (registry.registerField owner name type visibility isStatic position).map fun (id, after) =>
      (.declared (.ofField id), after)
  | addMethod signature =>
    (registry.registerMethod signature).map fun (id, after) => (.declared (.ofMethod id), after)
  | addVariable scope name type method storage position =>
    (registry.registerVariable scope name type method storage position).map fun (id, after) =>
      (.declared (.ofVariable id), after)
  | openBlock parent => .ok (.opened (registry.openBlock parent).1, (registry.openBlock parent).2)

/-! ## What comes of a request -/

/-- What stands in the way of a request. -/
def existing? (registry : Registry) (request : Request) : Option Symbol :=
  request.name?.bind (registry.scopes.declared? (request.scope registry))

/-- The receipt for the next declaration or scope. -/
def receipt (registry : Registry) : Request → Receipt
  | addClass _ _ _ => .declared (.ofClass ⟨registry.classCount⟩)
  | addField _ _ _ _ _ _ => .declared (.ofField ⟨registry.fields.size⟩)
  | addMethod _ => .declared (.ofMethod ⟨registry.methods.size⟩)
  | addVariable _ _ _ _ _ _ => .declared (.ofVariable ⟨registry.variableEntries.size⟩)
  | openBlock _ => .opened ⟨registry.scopes.size⟩

/-- The kind of the scope that a request opens. -/
def kind? (registry : Registry) : Request → Option ScopeKind
  | addClass _ _ _ => some (.classMembers ⟨registry.classCount⟩)
  | addMethod _ => some (.methodBody ⟨registry.methods.size⟩)
  | openBlock _ => some .block
  | addField _ _ _ _ _ _ | addVariable _ _ _ _ _ _ => none

/-- The registry after a request that is granted. -/
def granted (registry : Registry) : Request → Registry
  | addClass name parentName position =>
    registry.classAdded (registry.nextClass name parentName position)
  | addField owner name type visibility isStatic position =>
    registry.fieldAdded ((registry.memberScope? owner).getD ScopeTree.global)
      { id := ⟨registry.fields.size⟩, name, type, owner, visibility, isStatic, position }
  | addMethod signature =>
    registry.methodAdded ((registry.memberScope? signature.owner).getD ScopeTree.global)
      (registry.nextMethod signature)
  | addVariable scope name type method storage position =>
    registry.variableAdded scope
      { id := ⟨registry.variableEntries.size⟩, name, type, method, storage, position }
  | openBlock parent => { registry with scopes := (registry.scopes.push .block parent).2 }

variable {registry : Registry} {request : Request}

theorem memberScope?_of_known {owner : ClassId} {entry : ClassEntry}
    (found : registry.classEntry? owner = some entry) :
    (registry.memberScope? owner).getD ScopeTree.global = entry.scope := by
  rw [memberScope?, found]
  rfl

/-- A request is refused because of a declaration that exists, or else granted. -/
theorem handle_eq (suits : request.Suits registry) : request.handle registry =
    match request.existing? registry with
    | some existing => .error existing
    | none => .ok (request.receipt registry, request.granted registry) := by
  cases request with
  | addClass name parentName position =>
    rw [handle, registerClass_eq]
    simp only [existing?, name?, scope, Option.bind_some]
    cases registry.scopes.declared? ScopeTree.global name <;> rfl
  | addField owner name type visibility isStatic position =>
    rcases exists_classEntry (suits.owner owner rfl) with ⟨entry, found⟩
    have ownMember : registry.ownMember? owner name =
        registry.scopes.declared? entry.scope name := by
      rw [ownMember?, found, Option.bind_some]
    rw [handle, registerField_eq _ _ _ _ _ found, ownMember]
    simp only [existing?, name?, scope, Option.bind_some, receipt, granted,
      memberScope?_of_known found]
    cases registry.scopes.declared? entry.scope name <;> rfl
  | addMethod signature =>
    rcases exists_classEntry (suits.owner signature.owner rfl) with ⟨entry, found⟩
    have ownMember : registry.ownMember? signature.owner signature.name =
        registry.scopes.declared? entry.scope signature.name := by
      rw [ownMember?, found, Option.bind_some]
    rw [handle, registerMethod_eq _ found, ownMember]
    simp only [existing?, name?, scope, Option.bind_some, receipt, granted,
      memberScope?_of_known found]
    cases registry.scopes.declared? entry.scope signature.name <;> rfl
  | addVariable scope name type method storage position =>
    rw [handle, registerVariable_eq]
    simp only [existing?, name?, Request.scope, Option.bind_some]
    cases registry.scopes.declared? scope name <;> rfl
  | openBlock parent => rfl

end Request

/-! ## Table by table -/

/-- The tables of the registry with an index from the names in a scope to their places there. -/
structure Tables where
  registry : Registry
  index : ScopeId → String → Option Nat

namespace Tables

/-- The tables before the first request. -/
def start : Tables := ⟨.empty, fun _ _ => none⟩

/-- What a name stands for in a scope, found through the index. -/
def indexed? (tables : Tables) (scope : ScopeId) (name : String) : Option Symbol :=
  (tables.index scope name).bind fun place =>
    (tables.registry.scopes.get? scope).bind fun found => found.symbols[place]?.map Prod.snd

/-- The tables with one more declaration at the end of a scope. -/
def noted (tables : Tables) (scope : ScopeId) (name : String) (symbol : Symbol) : Tables where
  registry := { tables.registry with scopes := tables.registry.scopes.extended scope name symbol }
  index other otherName :=
    if other = scope ∧ otherName = name then (tables.registry.scopes.get? scope).map fun found =>
      found.symbols.length
    else tables.index other otherName

/-- The tables with one more scope; its index is empty. -/
def opened (tables : Tables) (kind : ScopeKind) (parent : ScopeId) : Tables where
  registry := { tables.registry with scopes := (tables.registry.scopes.push kind parent).2 }
  index other name :=
    if other = ⟨tables.registry.scopes.size⟩ then none else tables.index other name

/-- Declares a name, unless the scope has it already. -/
def declare (scope : ScopeId) (name : String) (symbol : Symbol) : EStateM Symbol Tables Unit := do
  match (← get).indexed? scope name with
  | some existing => throw existing
  | none => modify fun tables => tables.noted scope name symbol

/-- Opens a scope. -/
def openScope (kind : ScopeKind) (parent : ScopeId) : EStateM Symbol Tables ScopeId := do
  let tables ← get
  set (tables.opened kind parent)
  return ⟨tables.registry.scopes.size⟩

/-- Changes a table of entries. -/
def change (update : Registry → Registry) : EStateM Symbol Tables Unit :=
  modify fun tables => { tables with registry := update tables.registry }

end Tables

open Tables in
/-- Serves a request table by table. -/
def Request.procedure : Request → EStateM Symbol Tables Receipt
  | addClass name parentName position => do
    let id : ClassId := ⟨(← get).registry.classes.size⟩
    declare ScopeTree.global name (.ofClass id)
    let scope ← openScope (.classMembers id) ScopeTree.global
    change fun registry =>
      { registry with classes := registry.classes.push ⟨id, name, parentName, none, scope, [],
          [], [], position⟩ }
    return .declared (.ofClass id)
  | addField owner name type visibility isStatic position => do
    let registry := (← get).registry
    let id : FieldId := ⟨registry.fields.size⟩
    declare ((registry.memberScope? owner).getD ScopeTree.global) name (.ofField id)
    change fun registry => registry.modifyClass owner fun found =>
      { found with fields := found.fields ++ [id] }
    change fun registry =>
      { registry with
        fields := registry.fields.push { id, name, type, owner, visibility, isStatic, position } }
    return .declared (.ofField id)
  | addMethod signature => do
    let registry := (← get).registry
    let id : MethodId := ⟨registry.methods.size⟩
    let ownerScope := (registry.memberScope? signature.owner).getD ScopeTree.global
    declare ownerScope signature.name (.ofMethod id)
    let scope ← openScope (.methodBody id) ownerScope
    change fun registry =>
      registry.modifyClass signature.owner fun found =>
        { found with methods := found.methods ++ [id] }
    change fun registry =>
      { registry with
        methods := registry.methods.push { registry.nextMethod signature with id, scope } }
    return .declared (.ofMethod id)
  | addVariable scope name type method storage position => do
    let id : VariableId := ⟨(← get).registry.variableEntries.size⟩
    declare scope name (.ofVariable id)
    change fun registry =>
      { registry with
        variableEntries :=
          registry.variableEntries.push { id, name, type, method, storage, position } }
    return .declared (.ofVariable id)
  | openBlock parent => do
    let scope ← openScope .block parent
    return .opened scope

namespace Tables

variable {tables : Tables} {request : Request}

/-- The tables after the declaration of a request. -/
def declaring (tables : Tables) (request : Request) : Tables :=
  match request.name?, request.receipt tables.registry with
  | some name, .declared symbol => tables.noted (request.scope tables.registry) name symbol
  | _, _ => tables

/-- The tables after a request has got its declaration and its scope. -/
def rescoped (tables : Tables) (request : Request) : Tables :=
  match request.kind? tables.registry with
  | some kind => (tables.declaring request).opened kind (request.scope tables.registry)
  | none => tables.declaring request

/-- The tables after a request that is granted. -/
def granted (tables : Tables) (request : Request) : Tables :=
  ⟨request.granted tables.registry, (tables.rescoped request).index⟩

theorem scopes_rescoped :
    (tables.rescoped request).registry.scopes = (tables.granted request).registry.scopes := by
  cases request <;> rfl

theorem get_run (tables : Tables) :
    (get : EStateM Symbol Tables Tables) tables = .ok tables tables := rfl

theorem declare_run (scope : ScopeId) (name : String) (symbol : Symbol) (tables : Tables) :
    declare scope name symbol tables =
      match tables.indexed? scope name with
      | some existing => .error existing tables
      | none => .ok () (tables.noted scope name symbol) := by
  simp only [declare, bind, EStateM.bind, get_run]
  cases tables.indexed? scope name <;> rfl

theorem openScope_run (kind : ScopeKind) (parent : ScopeId) (tables : Tables) :
    openScope kind parent tables = .ok ⟨tables.registry.scopes.size⟩ (tables.opened kind parent) :=
  rfl

theorem size_noted (scope : ScopeId) (name : String) (symbol : Symbol) :
    (tables.noted scope name symbol).registry.scopes.size = tables.registry.scopes.size :=
  ScopeTree.size_extended scope name symbol

/-- The tables are left alone or changed as a whole. -/
theorem procedure_eq (request : Request) (tables : Tables) : request.procedure tables =
    match request.name?.bind (tables.indexed? (request.scope tables.registry)) with
    | some existing => .error existing tables
    | none => .ok (request.receipt tables.registry) (tables.granted request) := by
  cases request with
  | addClass name parentName position =>
    simp only [Request.procedure, Request.name?, Request.scope, Option.bind_some, bind,
      EStateM.bind, get_run, declare_run]
    cases tables.indexed? ScopeTree.global name with
    | some existing => rfl
    | none =>
      simp only [openScope_run, size_noted]
      rfl
  | addField owner name type visibility isStatic position =>
    simp only [Request.procedure, Request.name?, Request.scope, Option.bind_some, bind,
      EStateM.bind, get_run, declare_run]
    cases tables.indexed? ((tables.registry.memberScope? owner).getD ScopeTree.global) name <;> rfl
  | addMethod signature =>
    simp only [Request.procedure, Request.name?, Request.scope, Option.bind_some, bind,
      EStateM.bind, get_run, declare_run]
    cases tables.indexed? ((tables.registry.memberScope? signature.owner).getD ScopeTree.global)
      signature.name with
    | some existing => rfl
    | none =>
      simp only [openScope_run, size_noted]
      rfl
  | addVariable scope name type method storage position =>
    simp only [Request.procedure, Request.name?, Request.scope, Option.bind_some, bind,
      EStateM.bind, get_run, declare_run]
    cases tables.indexed? scope name <;> rfl
  | openBlock parent => rfl

end Tables

end Registry

end Decaf
