import Decaf.Identity

/-!
# Scopes

A scope maps names to the declarations they stand for. Scopes form a tree: the global scope is its
root and every other scope lies in one that was opened before it. Within a scope a name is declared
at most once, and the declarations keep their order.
-/

namespace Decaf

/-- What a name can stand for. -/
inductive Symbol where
  | ofClass (id : ClassId)
  | ofField (id : FieldId)
  | ofMethod (id : MethodId)
  | ofVariable (id : VariableId)
  deriving DecidableEq, Repr

namespace Symbol

/-- What kind of declaration a symbol is, as messages name it. -/
def role : Symbol → String
  | .ofClass _ => "class"
  | .ofField _ => "field"
  | .ofMethod _ => "method"
  | .ofVariable _ => "variable"

instance : ToString Symbol where
  toString
    | .ofClass id => toString id
    | .ofField id => toString id
    | .ofMethod id => toString id
    | .ofVariable id => toString id

end Symbol

/-- What a scope belongs to. -/
inductive ScopeKind where
  | global
  | classMembers (owner : ClassId)
  | methodBody (method : MethodId)
  | block
  deriving DecidableEq, Repr

/-- One scope. -/
structure Scope where
  id : ScopeId
  /-- What the scope belongs to. -/
  kind : ScopeKind
  /-- The scope around this one; only the global scope has none. -/
  parent : Option ScopeId
  /-- The declared names with what they stand for, in the order of declaration. -/
  symbols : List (String × Symbol)
  deriving DecidableEq, Repr

namespace Scope

/-- What a name declared in this very scope stands for. -/
def get? (scope : Scope) (name : String) : Option Symbol :=
  (scope.symbols.find? fun entry => entry.1 = name).map Prod.snd

/-- The scope with one more declaration. -/
def extend (scope : Scope) (name : String) (symbol : Symbol) : Scope :=
  { scope with symbols := scope.symbols ++ [(name, symbol)] }

end Scope

/-- All scopes of a program. -/
structure ScopeTree where
  /-- The scopes in the order in which they were opened. -/
  scopes : Array Scope
  deriving Repr

namespace ScopeTree

/-- The number of the global scope. -/
def global : ScopeId := ⟨0⟩

/-- The tree that has only the global scope. -/
def start : ScopeTree := ⟨#[⟨global, .global, none, []⟩]⟩

instance : Inhabited ScopeTree := ⟨start⟩

/-- The scope with a given number. -/
def get? (tree : ScopeTree) (id : ScopeId) : Option Scope := tree.scopes[id.index]?

/-- How many scopes there are. -/
def size (tree : ScopeTree) : Nat := tree.scopes.size

/-- Opens a scope inside another one. -/
def push (tree : ScopeTree) (kind : ScopeKind) (parent : ScopeId) : ScopeId × ScopeTree :=
  let id : ScopeId := ⟨tree.size⟩
  (id, ⟨tree.scopes.push ⟨id, kind, some parent, []⟩⟩)

/-- What a name declared in one given scope stands for. -/
def declared? (tree : ScopeTree) (scope : ScopeId) (name : String) : Option Symbol :=
  (tree.get? scope).bind fun found => found.get? name

/-- Declares a name in a scope. The error is what the scope already declares under that name. -/
def declare (tree : ScopeTree) (scope : ScopeId) (name : String) (symbol : Symbol) :
    Except Symbol ScopeTree :=
  match tree.declared? scope name with
  | some existing => .error existing
  | none => .ok ⟨tree.scopes.modify scope.index fun found => found.extend name symbol⟩

/-- At most `count` scopes from a scope outward. -/
def chainWithin (tree : ScopeTree) : Nat → ScopeId → List Scope
  | 0, _ => []
  | count + 1, id =>
    match tree.get? id with
    | none => []
    | some scope => scope :: (scope.parent.map (tree.chainWithin count)).getD []

/-- A scope and those around it, innermost first. No scope lies around itself, so there are no more
of them than scopes in the tree. -/
def chain (tree : ScopeTree) (id : ScopeId) : List Scope := tree.chainWithin tree.size id

/-- The method in whose body a scope lies. -/
def enclosingMethod? (tree : ScopeTree) (id : ScopeId) : Option MethodId :=
  (tree.chain id).findSome? fun scope =>
    match scope.kind with
    | .methodBody method => some method
    | .global | .classMembers _ | .block => none

end ScopeTree

end Decaf
