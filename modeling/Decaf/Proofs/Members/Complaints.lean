import Decaf.Members

/-!
# Complaints about declarations

Registering classes and their members complains about the declarations only, never about itself.
-/

namespace Decaf

/-- None of the complaints is an internal error. -/
def Diagnostic.AllOrdinary (diagnostics : List Diagnostic) : Prop :=
  ∀ diagnostic ∈ diagnostics, diagnostic.cause.category ≠ .internal

namespace Diagnostic.AllOrdinary

variable {diagnostics more : List Diagnostic}

theorem append (left : AllOrdinary diagnostics) (right : AllOrdinary more) :
    AllOrdinary (diagnostics ++ more) := by
  intro diagnostic isThere
  rcases List.mem_append.mp isThere with isLeft | isRight
  · exact left diagnostic isLeft
  · exact right diagnostic isRight

theorem add (ordinary : AllOrdinary diagnostics) (position : Position) {cause : Cause}
    (isOrdinary : cause.category ≠ .internal) :
    AllOrdinary (diagnostics ++ [⟨position, cause⟩]) := by
  refine ordinary.append fun diagnostic isThere => ?_
  rw [List.mem_singleton.mp isThere]
  exact isOrdinary

end Diagnostic.AllOrdinary

/-- Steps that add no internal error add none together. -/
theorem Diagnostic.AllOrdinary.foldl {State Item : Type} (complaints : State → List Diagnostic)
    {step : State → Item → State}
    (keeps : ∀ state item, AllOrdinary (complaints state) →
      AllOrdinary (complaints (step state item)))
    (items : List Item) {state : State} (first : AllOrdinary (complaints state)) :
    AllOrdinary (complaints (items.foldl step state)) :=
  List.foldlRecOn (motive := fun state => AllOrdinary (complaints state)) items step first
    fun state kept item _ => keeps state item kept

open Diagnostic

namespace Hierarchy

variable {hierarchy : Hierarchy}

theorem ordinary_addClass (ordinary : AllOrdinary hierarchy.diagnostics) (decl : ClassDecl) :
    AllOrdinary (hierarchy.addClass decl).diagnostics := by
  unfold addClass
  split
  · exact ordinary
  · exact ordinary.add _ nofun

theorem ordinary_linkDeclared (ordinary : AllOrdinary hierarchy.diagnostics)
    (declared : ClassDecl × Option ClassId) :
    AllOrdinary (hierarchy.linkDeclared declared).diagnostics := by
  unfold linkDeclared
  split
  · unfold linkParent
    split
    · exact ordinary
    · split
      · exact ordinary
      · exact ordinary.add _ nofun
  · exact ordinary

theorem ordinary_breakCycles (ordinary : AllOrdinary hierarchy.diagnostics) :
    AllOrdinary hierarchy.breakCycles.diagnostics := by
  refine ordinary.append fun diagnostic isThere => ?_
  rcases List.mem_filterMap.mp isThere with ⟨cycle, _, diagnosticEq⟩
  simp only [cycleDiagnostic?, bind, Option.bind_eq_some_iff, pure,
    Option.some.injEq] at diagnosticEq
  rcases diagnosticEq with ⟨_, _, _, _, rfl⟩
  exact nofun

/-- Nothing that is wrong with the classes of a program is an internal error. -/
theorem ordinary_ofClasses (classes : List ClassDecl) :
    AllOrdinary (ofClasses classes).diagnostics := by
  have registered : AllOrdinary (classes.foldl addClass {}).diagnostics :=
    .foldl diagnostics (fun _ decl ordinary => ordinary_addClass ordinary decl) classes
      (by simp [AllOrdinary])
  exact ordinary_breakCycles
    (.foldl diagnostics (fun _ declared ordinary =>
      ordinary_linkDeclared ordinary declared) _ registered)

end Hierarchy

namespace Members

variable {members : Members} {owner : ClassId}

section

variable (ordinary : AllOrdinary members.diagnostics)
include ordinary

theorem ordinary_typeOr (placeholder : DataType) (written : TypeName) (position : Position) :
    AllOrdinary (members.typeOr placeholder written position).2.diagnostics := by
  unfold typeOr
  split
  · exact ordinary
  · exact ordinary.add _ nofun

theorem ordinary_addField (decl : FieldDecl) :
    AllOrdinary (addField owner members decl).diagnostics := by
  unfold addField
  split
  next cause conflict =>
    refine ordinary.add _ ?_
    unfold fieldConflict? at conflict
    split at conflict <;> cases conflict <;> exact nofun
  next =>
    have typed := ordinary_typeOr ordinary .null decl.type decl.position
    dsimp only
    split <;> exact typed

theorem ordinary_parameterTypes (decls : List VariableDecl) :
    AllOrdinary (members.parameterTypes decls).2.diagnostics := by
  induction decls generalizing members with
  | nil => exact ordinary
  | cons decl rest ih => exact ih (ordinary_typeOr ordinary .null decl.type decl.position)

theorem ordinary_overridden? (signature : Registry.MethodSignature)
    (inherited : Option MethodEntry) :
    AllOrdinary (members.overridden? signature inherited).2.diagnostics := by
  unfold overridden?
  split
  · exact ordinary
  · split
    · exact ordinary
    · exact ordinary.add _ nofun

end

theorem ordinary_addParameter (method : MethodId) (scope : ScopeId)
    (ordinary : AllOrdinary members.diagnostics) (declared : (VariableDecl × DataType) × Nat) :
    AllOrdinary (addParameter method scope members declared).diagnostics := by
  unfold addParameter
  dsimp only
  split
  · exact ordinary
  · exact ordinary.add _ nofun

theorem ordinary_enterMethod (ordinary : AllOrdinary members.diagnostics) (source : MethodSource)
    (signature : Registry.MethodSignature) (replaced : Option MethodId) :
    AllOrdinary (members.enterMethod source signature replaced).diagnostics := by
  unfold enterMethod
  split
  · exact ordinary
  · dsimp only
    split
    · exact ordinary
    · exact .foldl diagnostics (fun _ declared kept =>
        ordinary_addParameter _ _ kept declared) _ ordinary

theorem ordinary_addMethod (ordinary : AllOrdinary members.diagnostics) (source : MethodSource) :
    AllOrdinary (addMethod owner members source).diagnostics := by
  unfold addMethod
  dsimp only
  split
  next cause conflict =>
    refine ordinary.add _ ?_
    unfold inheritedMethod at conflict
    split at conflict <;> cases conflict <;> exact nofun
  next inherited _ =>
    have parameters := ordinary_parameterTypes ordinary source.decl.parameters
    have result := ordinary_typeOr parameters .void source.decl.returnType source.decl.position
    exact ordinary_enterMethod (ordinary_overridden? result _ _) _ _ _

theorem ordinary_addClassById (classes : List ClassDecl) (hierarchy : Hierarchy)
    (ordinary : AllOrdinary members.diagnostics) (owner : ClassId) :
    AllOrdinary (addClassById classes hierarchy members owner).diagnostics := by
  unfold addClassById
  split
  · exact ordinary
  · split
    · exact ordinary
    · refine .foldl diagnostics (fun _ source kept => ordinary_addMethod kept source) _ ?_
      exact .foldl diagnostics (fun _ decl kept => ordinary_addField kept decl) _ ordinary

/-- Nothing that is wrong with the members of a program's classes is an internal error. -/
theorem ordinary_ofHierarchy (classes : List ClassDecl) (hierarchy : Hierarchy) :
    AllOrdinary (ofHierarchy classes hierarchy).diagnostics :=
  .foldl diagnostics (fun _ owner ordinary =>
    ordinary_addClassById classes hierarchy ordinary owner) _ (by simp [AllOrdinary])

end Members

end Decaf
