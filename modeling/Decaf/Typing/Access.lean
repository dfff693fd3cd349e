import Decaf.Typing.Setting

/-!
# Access to members

A member is reached in one of four ways: by its bare name, through a class, through `super`, or
through an object. The way has to suit the member: static members belong to classes and instance
members to objects. A private member may be named in its own class only.
-/

namespace Decaf

/-- How a member is reached. -/
inductive Reach where
  /-- By its name alone, within the class. -/
  | bare
  /-- Through the name of a class. -/
  | throughClass
  /-- Through `super`. -/
  | throughSuper
  /-- Through an object. -/
  | throughObject
  deriving DecidableEq, Repr

namespace Reach

/-- Whether code that reaches a static or an instance method in this way may call it; the answer is
the reason why not. -/
def methodFault? (reach : Reach) (setting : Setting) (owner : ClassId) (method : MethodEntry) :
    Option String :=
  let path := setting.registry.methodPath method.id
  match reach, method.isStatic with
  | .bare, false =>
    if setting.method.isStatic then
      some s!"instance method '{path}' cannot be called from static method '{setting.methodPath}'"
    else none
  | .throughClass, false =>
    some
      s!"instance method '{path}' cannot be called through class '{setting.registry.className owner}'"
  | .throughSuper, true => some s!"static method '{path}' cannot be called through 'super'"
  | .throughObject, true => some s!"static method '{path}' must be called through its class"
  | .bare, true | .throughClass, true | .throughSuper, false | .throughObject, false => none

/-- Why a field cannot be accessed in this way. -/
def fieldFault? (reach : Reach) (setting : Setting) (owner : ClassId) (field : FieldEntry) :
    Option String :=
  match reach, field.isStatic with
  | .throughClass, false =>
    some <|
      s!"instance field '{field.name}' cannot be accessed through class " ++
        s!"'{setting.registry.className owner}'"
  | .throughSuper, true | .throughObject, true =>
    some s!"static field '{field.name}' must be accessed through its class"
  | .bare, _ | .throughClass, true | .throughSuper, false | .throughObject, false => none

/-- How a call that reaches an instance method in this way selects it. -/
def dispatch? (reach : Reach) (method : MethodEntry) : Option Dispatch :=
  if method.isStatic then some .static
  else if reach = .throughSuper then some .super
  else method.slot.map Dispatch.virtual

end Reach

namespace Setting

/-- Why a member that is private to a class cannot be named here. -/
def privacyFault? (setting : Setting) (role name : String) (owner : ClassId)
    (visibility : Visibility) : Option Cause :=
  if visibility = .privateMember ∧ owner ≠ setting.method.owner then
    some (.privateMember role name (setting.registry.className owner))
  else none

/-- The class in which a member is looked up, and how it is reached. The receiver is what stands in
front of the dot, if there is one. -/
def reached (setting : Setting) (receiver : Option Meaning) (member : String) :
    Except Cause (ClassId × Reach) :=
  match receiver with
  | none => .ok (setting.method.owner, .bare)
  | some (.aClass id) => .ok (id, .throughClass)
  | some (.asParent parent) => .ok (parent, .throughSuper)
  | some (.value (.object owner)) => .ok (owner, .throughObject)
  | some (.value other) => .error (.notAnObject member (setting.registry.typeName other))

/-- The method of a given name in a class. -/
def methodIn (setting : Setting) (owner : ClassId) (name : String) : Except Cause MethodEntry :=
  match (setting.registry.findMethod? owner name).bind setting.registry.methodEntry? with
  | some method => .ok method
  | none => .error (.unknownMember (setting.registry.className owner) "method" name)

/-- The field of a given name in a class. -/
def fieldIn (setting : Setting) (owner : ClassId) (name : String) : Except Cause FieldEntry :=
  match (setting.registry.findField? owner name).bind setting.registry.fieldEntry? with
  | some field => .ok field
  | none => .error (.unknownMember (setting.registry.className owner) "field" name)

end Setting

end Decaf
