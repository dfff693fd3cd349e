/-!
# Identities of declarations and tree nodes

Classes, members, variables and scopes are numbered in the order of their registration, and the
nodes of a tree in the order of their creation. Each kind of thing has an index type of its own, so
that an index of one kind cannot be used for another.
-/

namespace Decaf

/-- Names a registered class. -/
structure ClassId where
  /-- Position in the order of registration. -/
  index : Nat
  deriving DecidableEq, Repr, Inhabited

/-- Names a registered field. -/
structure FieldId where
  /-- Position in the order of registration. -/
  index : Nat
  deriving DecidableEq, Repr, Inhabited

/-- Names a registered method. -/
structure MethodId where
  /-- Position in the order of registration. -/
  index : Nat
  deriving DecidableEq, Repr, Inhabited

/-- Names a registered parameter or local. -/
structure VariableId where
  /-- Position in the order of registration. -/
  index : Nat
  deriving DecidableEq, Repr, Inhabited

/-- Names a scope. -/
structure ScopeId where
  /-- Position in the order of creation. -/
  index : Nat
  deriving DecidableEq, Repr, Inhabited

/-- Names an expression node of a program. -/
structure ExprId where
  /-- Position in the order of creation. -/
  index : Nat
  deriving DecidableEq, Repr, Inhabited

/-- Names a statement node of a program. -/
structure StmtId where
  /-- Position in the order of creation. -/
  index : Nat
  deriving DecidableEq, Repr, Inhabited

instance : ToString ClassId := ⟨fun identity => "class_" ++ toString identity.index⟩

instance : ToString FieldId := ⟨fun identity => "field_" ++ toString identity.index⟩

instance : ToString MethodId := ⟨fun identity => "method_" ++ toString identity.index⟩

instance : ToString VariableId := ⟨fun identity => "var_" ++ toString identity.index⟩

instance : ToString ScopeId := ⟨fun identity => "scope_" ++ toString identity.index⟩

end Decaf
