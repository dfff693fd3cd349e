import Decaf.Hierarchy

/-!
# The members of a program's classes

Classes get their members parents first, so that whatever a class inherits is settled before its own
members are looked at. A member's name may stand for one thing only, in its class and in those
above, with one exception: a method may replace an inherited method of equal signature, and then
takes over its slot in the vtable. A member with a type that does not exist is registered with a
placeholder, so that later mentions of its name raise no further complaint.
-/

namespace Decaf

/-- Where a registered method is declared. -/
structure MethodSource where
  /-- The position of its class among the declared classes. -/
  classIndex : Nat
  /-- Its position among the declared methods of the class. -/
  methodIndex : Nat
  decl : MethodDecl
  deriving Repr

/-- The members of all classes on record. -/
structure Members where
  /-- The classes with their members. -/
  registry : Registry
  /-- The declaration of each registered method, by method number. -/
  sources : Array MethodSource := #[]
  fieldCount : Nat := 0
  /-- How many methods replace an inherited one. -/
  overrideCount : Nat := 0
  diagnostics : List Diagnostic := []
  deriving Inhabited

namespace Members

/-- Adds a complaint. -/
def report (members : Members) (position : Position) (cause : Cause) : Members :=
  { members with diagnostics := members.diagnostics ++ [⟨position, cause⟩] }

/-- The type that a written type stands for, or a placeholder and a complaint if there is no such
type. -/
def typeOr (members : Members) (placeholder : DataType) (written : TypeName) (position : Position) :
    DataType × Members :=
  match members.registry.resolveType? written with
  | some type => (type, members)
  | none => (placeholder, members.report position (.unknownType (toString written)))

/-! ## Fields -/

/-- Why a class cannot have a field of a given name. -/
def fieldConflict? (registry : Registry) (owner : ClassId) (name : String) : Option Cause :=
  match registry.ownMember? owner name, registry.findInherited? owner name with
  | some (.ofField _), _ => some (.duplicateDeclaration name s!"class '{registry.className owner}'")
  | some other, _ => some (.memberRoleConflict name other.role "field" (registry.className owner))
  | none, some (.ofField inherited) =>
    some (.hiddenField name (registry.ownerName (.ofField inherited)))
  | none, some other =>
    some (.memberRoleConflict name other.role "field" (registry.ownerName other))
  | none, none => none

/-- Registers a declared field. -/
def addField (owner : ClassId) (members : Members) (decl : FieldDecl) : Members :=
  match fieldConflict? members.registry owner decl.name with
  | some cause => members.report decl.position cause
  | none =>
    let (type, members) := members.typeOr .null decl.type decl.position
    match members.registry.registerField owner decl.name type decl.visibility decl.isStatic
      decl.position with
    | .ok (_, registry) => { members with registry, fieldCount := members.fieldCount + 1 }
    | .error _ => members

/-! ## Methods -/

/-- The inherited method that a method of a given name would replace, or why a class cannot have
such a method. -/
def inheritedMethod (registry : Registry) (owner : ClassId) (name : String) :
    Except Cause (Option MethodId) :=
  match registry.ownMember? owner name, registry.findInherited? owner name with
  | some (.ofMethod _), _ =>
    .error (.duplicateDeclaration name s!"class '{registry.className owner}'")
  | some other, _ =>
    .error (.memberRoleConflict name other.role "method" (registry.className owner))
  | none, some (.ofMethod inherited) => .ok (some inherited)
  | none, some other =>
    .error (.memberRoleConflict name other.role "method" (registry.ownerName other))
  | none, none => .ok none

/-- Types as a message lists them. -/
def typeList (registry : Registry) (types : List DataType) : String :=
  ", ".intercalate (types.map registry.typeName)

/-- How a method's signature differs from that of the method it would replace. -/
def overrideFault? (registry : Registry) (signature : Registry.MethodSignature)
    (inherited : MethodEntry) : Option String :=
  if signature.isStatic ≠ inherited.isStatic then
    some <|
      if signature.isStatic then "a static method cannot override an instance method"
      else "an instance method cannot override a static method"
  else if signature.parameterTypes ≠ inherited.parameterTypes then
    some <|
      s!"parameter types ({typeList registry signature.parameterTypes}) differ from " ++
        s!"({typeList registry inherited.parameterTypes})"
  else if signature.returnType ≠ inherited.returnType then
    some <|
      s!"return type '{registry.typeName signature.returnType}' differs from " ++
        s!"'{registry.typeName inherited.returnType}'"
  else none

/-- The method that a new method replaces: the inherited one if the signatures agree. -/
def overridden? (members : Members) (signature : Registry.MethodSignature)
    (inherited : Option MethodEntry) : Option MethodId × Members :=
  match inherited with
  | none => (none, members)
  | some entry =>
    match overrideFault? members.registry signature entry with
    | none => (some entry.id, members)
    | some reason =>
      (none, members.report signature.position
        (.incompatibleOverride (members.registry.className signature.owner) signature.name
          (members.registry.className entry.owner) reason))

/-- Registers a parameter of a method; `declared` holds its declaration and its type, and its rank
among the declared parameters. -/
def addParameter (method : MethodId) (scope : ScopeId) (members : Members)
    (declared : (VariableDecl × DataType) × Nat) : Members :=
  let ((decl, type), rank) := declared
  match members.registry.registerVariable scope decl.name type method (.parameter rank)
    decl.position with
  | .ok (id, registry) =>
    let registry :=
      registry.modifyMethod method fun entry =>
        { entry with parameters := entry.parameters ++ [id] }
    { members with registry }
  | .error _ =>
    members.report decl.position
      (.duplicateDeclaration decl.name s!"method '{members.registry.methodPath method}'")

/-- The types of declared parameters. -/
def parameterTypes (members : Members) : List VariableDecl → List DataType × Members
  | [] => ([], members)
  | decl :: rest =>
    let (type, members) := members.typeOr .null decl.type decl.position
    let (types, members) := members.parameterTypes rest
    (type :: types, members)

/-- Puts a method with its parameters on record. -/
def enterMethod (members : Members) (source : MethodSource) (signature : Registry.MethodSignature)
    (replaced : Option MethodId) : Members :=
  match members.registry.registerMethod signature with
  | .error _ => members
  | .ok (id, registry) =>
    let members : Members :=
      { members with
        registry := registry.modifyMethod id fun entry => { entry with overrides := replaced }
        sources := members.sources.push source
        overrideCount := members.overrideCount + if replaced.isSome then 1 else 0 }
    match members.registry.methodEntry? id with
    | none => members
    | some entry =>
      (source.decl.parameters.zip signature.parameterTypes).zipIdx.foldl
        (addParameter id entry.scope) members

/-- Registers a declared method. -/
def addMethod (owner : ClassId) (members : Members) (source : MethodSource) : Members :=
  let decl := source.decl
  match inheritedMethod members.registry owner decl.name with
  | .error cause => members.report decl.position cause
  | .ok inherited =>
    let (parameterTypes, members) := members.parameterTypes decl.parameters
    let (returnType, members) := members.typeOr .void decl.returnType decl.position
    let signature : Registry.MethodSignature :=
      { owner
        name := decl.name
        parameterTypes
        returnType
        visibility := decl.visibility
        isStatic := decl.isStatic
        position := decl.position }
    let (replaced, members) :=
      members.overridden? signature (inherited.bind members.registry.methodEntry?)
    members.enterMethod source signature replaced

/-! ## Vtables -/

/-- The slot of the method that a method replaces. -/
def inheritedSlot? (registry : Registry) (method : MethodEntry) : Option Nat :=
  (method.overrides.bind registry.methodEntry?).bind MethodEntry.slot

/-- Puts a class's own method into the vtable: into the slot of the method it replaces, else into a
new one. Static methods have no slot. -/
def placeMethod (state : List MethodId × Registry) (id : MethodId) : List MethodId × Registry :=
  let (vtable, registry) := state
  match registry.methodEntry? id with
  | none => (vtable, registry)
  | some method =>
    if method.isStatic then (vtable, registry)
    else
      let withSlot (slot : Nat) := registry.modifyMethod id fun entry =>
        { entry with slot := some slot }
      match inheritedSlot? registry method with
      | some slot => (vtable.set slot id, withSlot slot)
      | none => (vtable ++ [id], withSlot vtable.length)

/-- The vtable that a class starts from: that of its parent. -/
def inheritedVtable (registry : Registry) (owner : ClassId) : List MethodId :=
  (((registry.parent? owner).bind registry.classEntry?).map ClassEntry.vtable).getD []

/-- Lays out the vtable of a class whose methods are registered. -/
def buildVtable (registry : Registry) (owner : ClassId) : Registry :=
  match registry.classEntry? owner with
  | none => registry
  | some entry =>
    let (vtable, registry) :=
      entry.methods.foldl placeMethod (inheritedVtable registry owner, registry)
    registry.modifyClass owner fun entry => { entry with vtable }

/-! ## Classes -/

/-- The declared methods of a class with their places. -/
def sourcesOf (classIndex : Nat) (decl : ClassDecl) : List MethodSource :=
  decl.methods.zipIdx.map fun (method, methodIndex) => ⟨classIndex, methodIndex, method⟩

/-- Registers the members of one class. -/
def addClass (members : Members) (owner : ClassId) (classIndex : Nat) (decl : ClassDecl) :
    Members :=
  let members := decl.fields.foldl (addField owner) members
  let members := (sourcesOf classIndex decl).foldl (addMethod owner) members
  { members with registry := buildVtable members.registry owner }

/-- Registers the members of the class with a given number. -/
def addClassById (classes : List ClassDecl) (hierarchy : Hierarchy) (members : Members)
    (owner : ClassId) : Members :=
  match hierarchy.declarationOf? owner with
  | none => members
  | some index =>
    match classes[index]? with
    | none => members
    | some decl => members.addClass owner index decl

/-- Registers the members of all classes of a hierarchy, parents first. -/
def ofHierarchy (classes : List ClassDecl) (hierarchy : Hierarchy) : Members :=
  hierarchy.order.foldl (addClassById classes hierarchy) { registry := hierarchy.registry }

end Members

end Decaf
