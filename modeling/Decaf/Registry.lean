import Decaf.Registry.Entry
import Decaf.Registry.Scope

/-!
# The registry

The registry owns the entries and the scopes of a program. Names are registered in a scope; a
registration fails when the scope already holds the name, and then nothing is registered. Members
are found in a class or in the nearest ancestor that declares them, and the assignability of types
follows the parent links.
-/

namespace Decaf

/-- All registered declarations and their scopes. -/
structure Registry where
  /-- The classes in the order of registration. -/
  classes : Array ClassEntry := #[]
  /-- The fields in the order of registration. -/
  fields : Array FieldEntry := #[]
  /-- The methods in the order of registration. -/
  methods : Array MethodEntry := #[]
  /-- The variables in the order of registration. -/
  variableEntries : Array VariableEntry := #[]
  /-- The scopes in which they are declared. -/
  scopes : ScopeTree := .start
  deriving Repr, Inhabited

namespace Registry

/-- The registry without declarations. -/
def empty : Registry := {}

/-- The entry of a class. -/
def classEntry? (registry : Registry) (id : ClassId) : Option ClassEntry :=
  registry.classes[id.index]?

/-- The entry of a field. -/
def fieldEntry? (registry : Registry) (id : FieldId) : Option FieldEntry :=
  registry.fields[id.index]?

/-- The entry of a method. -/
def methodEntry? (registry : Registry) (id : MethodId) : Option MethodEntry :=
  registry.methods[id.index]?

/-- The entry of a variable. -/
def variableEntry? (registry : Registry) (id : VariableId) : Option VariableEntry :=
  registry.variableEntries[id.index]?

/-- How many classes are registered. -/
def classCount (registry : Registry) : Nat := registry.classes.size

/-! ## Registration -/

/-- Changes the entry of a class. -/
def modifyClass (registry : Registry) (id : ClassId) (change : ClassEntry → ClassEntry) :
    Registry :=
  { registry with classes := registry.classes.modify id.index change }

/-- Changes the entry of a method. -/
def modifyMethod (registry : Registry) (id : MethodId) (change : MethodEntry → MethodEntry) :
    Registry :=
  { registry with methods := registry.methods.modify id.index change }

/-- Registers a class and opens the scope of its members. -/
def registerClass (registry : Registry) (name : String) (parentName : Option String)
    (position : Position) : Except Symbol (ClassId × Registry) :=
  let id : ClassId := ⟨registry.classes.size⟩
  match registry.scopes.declare ScopeTree.global name (.ofClass id) with
  | .error existing => .error existing
  | .ok declared =>
    let (scope, scopes) := declared.push (.classMembers id) ScopeTree.global
    let entry : ClassEntry :=
      { id, name, parentName, parent := none, scope, fields := [], methods := [], vtable := []
        position }
    .ok (id, { registry with classes := registry.classes.push entry, scopes })

/-- The scope of a class's members. -/
def memberScope? (registry : Registry) (owner : ClassId) : Option ScopeId :=
  (registry.classEntry? owner).map ClassEntry.scope

/-- What a name declared in the class itself stands for. -/
def ownMember? (registry : Registry) (owner : ClassId) (name : String) : Option Symbol :=
  (registry.classEntry? owner).bind fun entry => registry.scopes.declared? entry.scope name

/-- Registers a field in its class. -/
def registerField (registry : Registry) (owner : ClassId) (name : String) (type : DataType)
    (visibility : Visibility) (isStatic : Bool) (position : Position) :
    Except Symbol (FieldId × Registry) :=
  let id : FieldId := ⟨registry.fields.size⟩
  let scope := (registry.memberScope? owner).getD ScopeTree.global
  match registry.scopes.declare scope name (.ofField id) with
  | .error existing => .error existing
  | .ok scopes =>
    let entry : FieldEntry := { id, name, type, owner, visibility, isStatic, position }
    let registry := registry.modifyClass owner fun found =>
      { found with fields := found.fields ++ [id] }
    .ok (id, { registry with fields := registry.fields.push entry, scopes })

/-- What a method is registered with. -/
structure MethodSignature where
  owner : ClassId
  name : String
  parameterTypes : List DataType
  returnType : DataType
  visibility : Visibility
  isStatic : Bool
  position : Position
  deriving DecidableEq, Repr

/-- Registers a method in its class and opens the scope of its parameters. -/
def registerMethod (registry : Registry) (signature : MethodSignature) :
    Except Symbol (MethodId × Registry) :=
  let id : MethodId := ⟨registry.methods.size⟩
  let ownerScope := (registry.memberScope? signature.owner).getD ScopeTree.global
  match registry.scopes.declare ownerScope signature.name (.ofMethod id) with
  | .error existing => .error existing
  | .ok declared =>
    let (scope, scopes) := declared.push (.methodBody id) ownerScope
    let entry : MethodEntry :=
      { id
        name := signature.name
        parameters := []
        parameterTypes := signature.parameterTypes
        returnType := signature.returnType
        owner := signature.owner
        visibility := signature.visibility
        isStatic := signature.isStatic
        slot := none
        overrides := none
        scope
        position := signature.position }
    let registry :=
      registry.modifyClass signature.owner fun found =>
        { found with methods := found.methods ++ [id] }
    .ok (id, { registry with methods := registry.methods.push entry, scopes })

/-- Registers a variable in a scope. -/
def registerVariable (registry : Registry) (scope : ScopeId) (name : String) (type : DataType)
    (method : MethodId) (storage : Storage) (position : Position) :
    Except Symbol (VariableId × Registry) :=
  let id : VariableId := ⟨registry.variableEntries.size⟩
  match registry.scopes.declare scope name (.ofVariable id) with
  | .error existing => .error existing
  | .ok scopes =>
    let entry : VariableEntry := { id, name, type, method, storage, position }
    .ok (id, { registry with variableEntries := registry.variableEntries.push entry, scopes })

/-- Opens a block inside a scope. -/
def openBlock (registry : Registry) (parent : ScopeId) : ScopeId × Registry :=
  let (scope, scopes) := registry.scopes.push .block parent
  (scope, { registry with scopes })

/-! ## Classes and types -/

/-- The class with a given name. -/
def classNamed? (registry : Registry) (name : String) : Option ClassId :=
  match registry.scopes.declared? ScopeTree.global name with
  | some (.ofClass id) => some id
  | some (.ofField _) | some (.ofMethod _) | some (.ofVariable _) | none => none

/-- The parent of a class. -/
def parent? (registry : Registry) (id : ClassId) : Option ClassId :=
  (registry.classEntry? id).bind ClassEntry.parent

/-- At most `count` classes from a class upward. -/
def ancestorsWithin (registry : Registry) : Nat → ClassId → List ClassId
  | 0, _ => []
  | count + 1, id => id :: ((registry.parent? id).map (registry.ancestorsWithin count)).getD []

/-- A class, its parent, the parent of that, and so on. There are no more of them than classes. -/
def ancestors (registry : Registry) (id : ClassId) : List ClassId :=
  registry.ancestorsWithin registry.classCount id

/-- Whether a class is another one or descends from it. -/
def isSubclass (registry : Registry) (child ancestor : ClassId) : Bool :=
  (registry.ancestors child).contains ancestor

/-- Whether a value of one type may be used where the other type is expected. -/
def isAssignable (registry : Registry) (source target : DataType) : Bool :=
  source = target ||
    match source, target with
    | .null, .object _ => true
    | .object child, .object ancestor => registry.isSubclass child ancestor
    | _, _ => false

/-- Whether a value of one of two types may be used where the other is expected. -/
def areRelated (registry : Registry) (left right : DataType) : Bool :=
  registry.isAssignable left right || registry.isAssignable right left

/-- The type that a written type stands for; a class has to be registered. -/
def resolveType? (registry : Registry) : TypeName → Option DataType
  | .primitive kind => some (.primitive kind)
  | .named name => (registry.classNamed? name).map DataType.object

/-! ## Members and names -/

/-- What a member name stands for in a class: the nearest declaration from the class upward. -/
def findMember? (registry : Registry) (owner : ClassId) (name : String) : Option Symbol :=
  (registry.ancestors owner).findSome? fun ancestor => registry.ownMember? ancestor name

/-- What a member name stands for in the classes above a class. -/
def findInherited? (registry : Registry) (owner : ClassId) (name : String) : Option Symbol :=
  (registry.parent? owner).bind fun parent => registry.findMember? parent name

/-- The field that a member name stands for in a class. -/
def findField? (registry : Registry) (owner : ClassId) (name : String) : Option FieldId :=
  match registry.findMember? owner name with
  | some (.ofField id) => some id
  | some (.ofClass _) | some (.ofMethod _) | some (.ofVariable _) | none => none

/-- The method that a member name stands for in a class. -/
def findMethod? (registry : Registry) (owner : ClassId) (name : String) : Option MethodId :=
  match registry.findMember? owner name with
  | some (.ofMethod id) => some id
  | some (.ofClass _) | some (.ofField _) | some (.ofVariable _) | none => none

/-- What a name stands for in a scope, inherited members included when the scope is that of a
class. -/
def visibleIn? (registry : Registry) (scope : Scope) (name : String) : Option Symbol :=
  match scope.get? name, scope.kind with
  | some symbol, _ => some symbol
  | none, .classMembers owner => registry.findInherited? owner name
  | none, _ => none

/-- What a name stands for where it is used: the innermost scope that knows it decides. -/
def lookup? (registry : Registry) (scope : ScopeId) (name : String) : Option Symbol :=
  (registry.scopes.chain scope).findSome? fun candidate => registry.visibleIn? candidate name

/-! ## Names for messages -/

/-- The name of a class. -/
def className (registry : Registry) (id : ClassId) : String :=
  ((registry.classEntry? id).map ClassEntry.name).getD ""

/-- The name of a type. -/
def typeName (registry : Registry) : DataType → String
  | .object owner => registry.className owner
  | .primitive kind => toString (DataType.primitive kind)
  | .null => toString DataType.null

/-- The class in which a symbol is declared; a class counts as declared in itself. -/
def ownerOf? (registry : Registry) : Symbol → Option ClassId
  | .ofClass id => some id
  | .ofField id => (registry.fieldEntry? id).map FieldEntry.owner
  | .ofMethod id => (registry.methodEntry? id).map MethodEntry.owner
  | .ofVariable id =>
    (registry.variableEntry? id).bind fun entry =>
      (registry.methodEntry? entry.method).map MethodEntry.owner

/-- The name of the class in which a symbol is declared. -/
def ownerName (registry : Registry) (symbol : Symbol) : String :=
  ((registry.ownerOf? symbol).map registry.className).getD ""

/-- A method's name behind the name of its class. -/
def methodPath (registry : Registry) (id : MethodId) : String :=
  match registry.methodEntry? id with
  | some entry => registry.className entry.owner ++ "." ++ entry.name
  | none => ""

end Registry

end Decaf
