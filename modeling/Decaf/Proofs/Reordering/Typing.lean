import Decaf.Proofs.Reordering.Registries
import Decaf.Proofs.Resolution.Coverage
import Decaf.Proofs.Typing.Decision

/-!
# Types in reordered programs

The rules of the language look at classes, members and variables, never at their numbers. So an
expression that has a meaning in one setting has the same meaning in a setting that holds the same
classes in another order, and the statements that follow the rules are the same.
-/

namespace Decaf

/-- Two variables are on record with the same type. -/
def SameVariable (classes other : List ClassDecl) (registry otherRegistry : Registry)
    (id otherId : VariableId) : Prop :=
  ∃ type otherType, registry.HasType id type ∧ otherRegistry.HasType otherId otherType ∧
    SameType classes other type otherType

/-- Two meanings are alike but for the numbers of classes. -/
inductive SameMeaning (classes other : List ClassDecl) : Meaning → Meaning → Prop
  | value {type otherType : DataType} (same : SameType classes other type otherType) :
      SameMeaning classes other (.value type) (.value otherType)
  | aClass {id otherId : ClassId} (same : SameClass classes other id otherId) :
      SameMeaning classes other (.aClass id) (.aClass otherId)
  | asParent {id otherId : ClassId} (same : SameClass classes other id otherId) :
      SameMeaning classes other (.asParent id) (.asParent otherId)

/-- Two calls reach their methods in the same way. -/
inductive SameDispatch : Dispatch → Dispatch → Prop
  | virtual {slot otherSlot : Nat} : SameDispatch (.virtual slot) (.virtual otherSlot)
  | super : SameDispatch .super .super
  | static : SameDispatch .static .static

/-- Two judgements are about the same declarations. -/
structure SameJudgement (classes other : List ClassDecl) (registry otherRegistry : Registry)
    (judgement otherJudgement : Judgement) : Prop where
  meaning : SameMeaning classes other judgement.meaning otherJudgement.meaning
  target : Option.Rel (fun target otherTarget => SameDispatch target.dispatch otherTarget.dispatch ∧
    SameSymbol classes other registry otherRegistry
    (SameVariable classes other registry otherRegistry)
      (.ofMethod target.method) (.ofMethod otherTarget.method)) judgement.target
      otherJudgement.target
  field : Option.Rel (fun id otherId =>
    SameSymbol classes other registry otherRegistry
      (SameVariable classes other registry otherRegistry)
      (.ofField id) (.ofField otherId)) judgement.field otherJudgement.field

/-- A judgement about a node that is neither a call nor the name of a field. -/
theorem SameJudgement.ofMeaning {classes other : List ClassDecl} {registry otherRegistry : Registry}
    {meaning otherMeaning : Meaning} (same : SameMeaning classes other meaning otherMeaning) :
    SameJudgement classes other registry otherRegistry { meaning } { meaning := otherMeaning } :=
  ⟨same, .none, .none⟩

/-- Two settings belong to the same declared method of a reordered program. -/
structure SameSetting (classes other : List ClassDecl) (setting otherSetting : Setting) : Prop where
  reordering : Reordering classes other setting.registry otherSetting.registry
  method : SameMethod classes other setting.method otherSetting.method

/-- A name that is bound in one setting is bound to the same declaration in the other one. -/
def BoundAlike (classes other : List ClassDecl) (setting otherSetting : Setting) (node : Expr) :
    Prop :=
  node.isName = true → ∀ symbol, setting.bindings.symbol? node.id = some symbol →
    ∃ otherSymbol, otherSetting.bindings.symbol? node.id = some otherSymbol ∧
      SameSymbol classes other setting.registry otherSetting.registry
        (SameVariable classes other setting.registry otherSetting.registry) symbol otherSymbol

variable {classes other : List ClassDecl} {registry otherRegistry : Registry}
  {setting otherSetting : Setting}

/-! ## Types and operators -/

namespace SameType

variable {type otherType : DataType} (same : SameType classes other type otherType)

include same

theorem eq_primitive_iff {kind : Primitive} :
    otherType = .primitive kind ↔ type = .primitive kind := by
  cases same with
  | primitive => exact Iff.rfl
  | object => simp
  | null => simp

theorem isReference_eq : otherType.isReference = type.isReference := by
  cases same <;> rfl

theorem isNumber (number : type.IsNumber) : otherType.IsNumber := by
  cases same with
  | primitive => exact number
  | object => cases number
  | null => cases number

end SameType

namespace Reordering

variable (reordering : Reordering classes other registry otherRegistry)
  {left otherLeft right otherRight : DataType} (leftSame : SameType classes other left otherLeft)
  (rightSame : SameType classes other right otherRight)

include reordering leftSame rightSame

theorem usableAs (usable : registry.UsableAs left right) :
    otherRegistry.UsableAs otherLeft otherRight := by
  have nodup := reordering.otherHolds.nodup
  cases usable with
  | same =>
    obtain rfl := leftSame.unique nodup rightSame
    exact .same
  | null =>
    cases leftSame
    cases rightSame
    exact .null
  | subclass descends =>
    cases leftSame with
    | object childSame =>
      cases rightSame with
      | object ancestorSame =>
        rcases reordering.exists_descends childSame descends with
          ⟨otherUpper, otherDescends, upperSame⟩
        obtain rfl := ancestorSame.unique nodup upperSame
        exact .subclass otherDescends

theorem takes {operator : BinaryOperator} {result : DataType}
    (takes : operator.Takes registry left right result) :
    ∃ otherResult, operator.Takes otherRegistry otherLeft otherRight otherResult ∧
      SameType classes other result otherResult := by
  cases takes with
  | arithmetic family number =>
    obtain rfl := leftSame.unique reordering.otherHolds.nodup rightSame
    exact ⟨_, .arithmetic family (leftSame.isNumber number), leftSame⟩
  | relational family number =>
    obtain rfl := leftSame.unique reordering.otherHolds.nodup rightSame
    exact ⟨_, .relational family (leftSame.isNumber number), .primitive⟩
  | equalValues family isValue =>
    cases leftSame
    cases rightSame
    exact ⟨_, .equalValues family isValue, .primitive⟩
  | equalReferences family leftReference rightReference related =>
    refine ⟨_, .equalReferences family (leftSame.isReference_eq.trans leftReference)
      (rightSame.isReference_eq.trans rightReference) ?_, .primitive⟩
    exact related.imp (reordering.usableAs leftSame rightSame)
      (reordering.usableAs rightSame leftSame)
  | logical family =>
    cases leftSame
    cases rightSame
    exact ⟨_, .logical family, .primitive⟩

end Reordering

theorem UnaryOperator.Takes.reordered {operator : UnaryOperator} {type otherType result : DataType}
    (takes : operator.Takes type result) (same : SameType classes other type otherType) :
    ∃ otherResult, operator.Takes otherType otherResult ∧
      SameType classes other result otherResult := by
  cases takes with
  | negate number => exact ⟨_, .negate (same.isNumber number), same⟩
  | not =>
    cases same
    exact ⟨_, .not, .primitive⟩

/-! ## Members -/

namespace SameSetting

variable (settings : SameSetting classes other setting otherSetting)

include settings

variable {receiver otherReceiver : Option Meaning} {owner : ClassId} {reach : Reach} {name : String}
  {dispatch : Dispatch} {types otherTypes : List DataType}

theorem looksIn (same : Option.Rel (SameMeaning classes other) receiver otherReceiver)
    (looksIn : setting.LooksIn receiver owner reach) :
    ∃ otherOwner, otherSetting.LooksIn otherReceiver otherOwner reach ∧
      SameClass classes other owner otherOwner := by
  cases looksIn with
  | bare =>
    cases same
    exact ⟨_, .bare, settings.method.owner⟩
  | throughClass =>
    cases same with
    | some same =>
      cases same with
      | aClass same => exact ⟨_, .throughClass, same⟩
  | throughSuper =>
    cases same with
    | some same =>
      cases same with
      | asParent same => exact ⟨_, .throughSuper, same⟩
  | throughObject =>
    cases same with
    | some same =>
      cases same with
      | value same =>
        cases same with
        | object same => exact ⟨_, .throughObject, same⟩

theorem suits {isStatic : Bool} (suits : reach.Suits setting isStatic) :
    reach.Suits otherSetting isStatic := by
  cases reach with
  | bare => exact fun otherStatic => suits (settings.method.isStatic_eq ▸ otherStatic)
  | throughClass | throughSuper | throughObject => exact suits

theorem allows {otherOwner : ClassId} (same : SameClass classes other owner otherOwner)
    {visibility : Visibility} (allows : setting.Allows owner visibility) :
    otherSetting.Allows otherOwner visibility := by
  intro isPrivate
  obtain rfl := allows isPrivate
  exact settings.method.owner.unique settings.reordering.otherHolds.nodup same

theorem selects {method otherMethod : MethodEntry}
    (same : SameMethod classes other method otherMethod) {id : MethodId}
    (inClass : otherSetting.registry.findMethod? owner name = some id)
    (found : otherSetting.registry.methodEntry? id = some otherMethod)
    (selects : reach.Selects method dispatch) :
    ∃ otherDispatch, reach.Selects otherMethod otherDispatch ∧
      SameDispatch dispatch otherDispatch := by
  cases selects with
  | static isStatic => exact ⟨_, .static (same.isStatic_eq.trans isStatic), .static⟩
  | super isInstance viaSuper =>
    exact ⟨_, .super (same.isStatic_eq.trans isInstance) viaSuper, .super⟩
  | virtual isInstance notSuper slotEq =>
    have otherInstance := same.isStatic_eq.trans isInstance
    rcases settings.reordering.otherHolds.hasSlot inClass found otherInstance with
      ⟨slot, otherSlotEq⟩
    exact ⟨_, .virtual otherInstance notSuper otherSlotEq, .virtual⟩

theorem usableAs_all {expected otherExpected : List DataType}
    (same : List.Forall₂ (SameType classes other) types otherTypes)
    (expectedSame : List.Forall₂ (SameType classes other) expected otherExpected)
    (fits : List.Forall₂ setting.registry.UsableAs types expected) :
    List.Forall₂ otherSetting.registry.UsableAs otherTypes otherExpected := by
  induction fits generalizing otherTypes otherExpected with
  | nil =>
    cases same
    cases expectedSame
    exact .nil
  | cons usable _ ih =>
    cases same with
    | cons typeSame restSame =>
      cases expectedSame with
      | cons parameterSame parametersSame =>
        exact .cons (settings.reordering.usableAs typeSame parameterSame usable)
          (ih restSame parametersSame)

theorem calls
    (same : Option.Rel (SameMeaning classes other) receiver otherReceiver)
    (typesSame : List.Forall₂ (SameType classes other) types otherTypes) {method : MethodEntry}
    (calls : setting.Calls receiver name types method dispatch) :
    ∃ otherMethod otherDispatch,
      otherSetting.Calls otherReceiver name otherTypes otherMethod otherDispatch ∧
      SameJudgement classes other setting.registry otherSetting.registry
        { meaning := .value method.returnType, target := some ⟨method.id, dispatch⟩ }
        { meaning := .value otherMethod.returnType, target := some ⟨otherMethod.id,
              otherDispatch⟩ } := by
  rcases calls with ⟨⟨owner, reach, id, looksIn, inClass, found, suits, selects⟩, allowed, fits⟩
  rcases settings.looksIn same looksIn with ⟨otherOwner, otherLooksIn, ownerSame⟩
  rcases settings.reordering.exists_method ownerSame inClass found with
    ⟨otherId, otherMethod, otherInClass, otherFound, methodSame⟩
  rcases settings.selects methodSame otherInClass otherFound selects with
    ⟨otherDispatch, otherSelects, dispatchSame⟩
  refine ⟨otherMethod, otherDispatch,
    ⟨⟨otherOwner, reach, otherId, otherLooksIn, otherInClass, otherFound, ?_, otherSelects⟩, ?_,
      settings.usableAs_all typesSame methodSame.parameterTypes fits⟩,
    .value methodSame.returnType, .some ⟨dispatchSame, .ofMethod ?_ ?_ methodSame⟩, .none⟩
  · exact methodSame.isStatic_eq ▸ settings.suits suits
  · exact methodSame.visibility_eq ▸ settings.allows methodSame.owner allowed
  · exact settings.reordering.holds.wellFormed.method_id found ▸ found
  · exact settings.reordering.otherHolds.wellFormed.method_id otherFound ▸ otherFound

/-- Names of the same field have the same meaning. -/
theorem fieldNamed {id otherId : FieldId} {field otherField : FieldEntry}
    (found : setting.registry.fieldEntry? id = some field)
    (otherFound : otherSetting.registry.fieldEntry? otherId = some otherField)
    (same : SameField classes other field otherField) :
    SameJudgement classes other setting.registry otherSetting.registry
      { meaning := .value field.type, field := some field.id }
      { meaning := .value otherField.type, field := some otherField.id } where
  meaning := .value same.type
  target := .none
  field := by
    refine .some (.ofField ?_ ?_ same)
    · exact settings.reordering.holds.wellFormed.field_id found ▸ found
    · exact settings.reordering.otherHolds.wellFormed.field_id otherFound ▸ otherFound

theorem accesses {receiver otherReceiver : Meaning}
    (same : SameMeaning classes other receiver otherReceiver) {field : FieldEntry}
    (accesses : setting.Accesses receiver name field) :
    ∃ otherField, otherSetting.Accesses otherReceiver name otherField ∧
      SameJudgement classes other setting.registry otherSetting.registry
        { meaning := .value field.type, field := some field.id }
        { meaning := .value otherField.type, field := some otherField.id } := by
  rcases accesses with ⟨⟨owner, reach, id, looksIn, inClass, found, suits⟩, allowed⟩
  rcases settings.looksIn (.some same) looksIn with ⟨otherOwner, otherLooksIn, ownerSame⟩
  rcases settings.reordering.exists_field ownerSame inClass found with
    ⟨otherId, otherField, otherInClass, otherFound, fieldSame⟩
  refine ⟨otherField,
    ⟨⟨otherOwner, reach, otherId, otherLooksIn, otherInClass, otherFound, ?_⟩, ?_⟩,
    settings.fieldNamed found otherFound fieldSame⟩
  · exact fieldSame.isStatic_eq ▸ settings.suits suits
  · exact fieldSame.visibility_eq ▸ settings.allows fieldSame.owner allowed

end SameSetting

variable {expr : Expr} {inner : List Judgement} {types : List DataType} {type : DataType}
  {judgement : Judgement}

/-! ## Expressions -/

theorem Setting.Assignable.reordered (assignable : setting.Assignable expr)
    (bound : ∀ node ∈ expr.nodes, BoundAlike classes other setting otherSetting node) :
    otherSetting.Assignable expr := by
  cases assignable with
  | ofVariable isBound =>
    rcases bound _ (Expr.self_mem_nodes _) rfl _ isBound with ⟨_, otherBound, same⟩
    cases same with
    | ofVariable => exact .ofVariable otherBound
  | ofField isBound =>
    rcases bound _ (Expr.self_mem_nodes _) rfl _ isBound with ⟨_, otherBound, same⟩
    cases same with
    | ofField => exact .ofField otherBound
  | ofAccess => exact .ofAccess

/-- Judgements about arguments, found one by one, make up a list. -/
theorem exists_reordered {arguments : List Expr} (length_eq : inner.length = arguments.length)
    (each : ∀ pair ∈ arguments.zip inner, ∃ otherJudgement,
      Derives otherSetting pair.1 otherJudgement ∧ SameJudgement classes other setting.registry
      otherSetting.registry pair.2 otherJudgement) :
    ∃ otherInner : List Judgement, otherInner.length = arguments.length ∧
      (∀ pair ∈ arguments.zip otherInner, Derives otherSetting pair.1 pair.2) ∧
        List.Forall₂ (fun judgement otherJudgement =>
          SameMeaning classes other judgement.meaning otherJudgement.meaning) inner otherInner := by
  induction arguments generalizing inner with
  | nil =>
    obtain rfl := List.length_eq_zero_iff.mp length_eq
    exact ⟨[], rfl, by simp, .nil⟩
  | cons argument arguments ih =>
    cases inner with
    | nil => cases length_eq
    | cons judgement inner =>
      rcases each (argument, judgement) (by simp) with ⟨otherJudgement, derives, same⟩
      rcases ih (Nat.succ.inj length_eq) fun pair isPair => each pair (by simp [isPair]) with
        ⟨otherInner, otherLength, otherDerive, allSame⟩
      refine ⟨otherJudgement :: otherInner, by simp [otherLength], ?_, .cons same.meaning allSame⟩
      rw [List.zip_cons_cons, List.forall_mem_cons]
      exact ⟨derives, otherDerive⟩

/-- Judgements about the same values are about values of the same types. -/
theorem exists_types {otherInner : List Judgement}
    (same : List.Forall₂ (fun judgement otherJudgement =>
      SameMeaning classes other judgement.meaning otherJudgement.meaning) inner otherInner)
    (areValues : inner.map Judgement.meaning = types.map Meaning.value) :
    ∃ otherTypes, otherInner.map Judgement.meaning = otherTypes.map Meaning.value ∧
      List.Forall₂ (SameType classes other) types otherTypes := by
  induction same generalizing types with
  | nil =>
    obtain rfl := List.map_eq_nil_iff.mp areValues.symm
    exact ⟨[], rfl, .nil⟩
  | @cons judgement otherJudgement _ _ meaningSame _ ih =>
    rcases List.map_eq_cons_iff.mp areValues.symm with ⟨type, rest, rfl, isValue, restEq⟩
    rcases ih restEq.symm with ⟨otherTypes, otherValues, typesSame⟩
    rw [← isValue] at meaningSame
    generalize meaningEq : otherJudgement.meaning = meaning at meaningSame
    cases meaningSame with
    | value typeSame =>
      exact ⟨_ :: otherTypes, by simp [meaningEq, otherValues], .cons typeSame typesSame⟩

theorem forall_ne_void {otherTypes : List DataType}
    (same : List.Forall₂ (SameType classes other) types otherTypes)
    (notVoid : ∀ type ∈ types, type ≠ .void) : ∀ type ∈ otherTypes, type ≠ .void := by
  induction same with
  | nil => exact notVoid
  | cons typeSame _ ih =>
    rw [List.forall_mem_cons] at notVoid ⊢
    exact ⟨fun isVoid => notVoid.1 (typeSame.eq_primitive_iff.mp isVoid), ih notVoid.2⟩

/-- A meaning like that of a value is that of a value. -/
theorem SameMeaning.exists_value {meaning otherMeaning : Meaning}
    (same : SameMeaning classes other meaning otherMeaning) (isValue : meaning = .value type) :
    ∃ otherType, otherMeaning = .value otherType ∧ SameType classes other type otherType := by
  subst isValue
  cases same with
  | value typeSame => exact ⟨_, rfl, typeSame⟩

theorem SameJudgement.exists_value {otherJudgement : Judgement}
    (same : SameJudgement classes other registry otherRegistry judgement otherJudgement)
    (isValue : judgement.meaning = .value type) :
    ∃ otherType, otherJudgement.meaning = .value otherType ∧
      SameType classes other type otherType :=
  same.meaning.exists_value isValue

section

variable (settings : SameSetting classes other setting otherSetting)
include settings

/-- An expression that has a meaning has the same meaning when the classes are reordered. -/
theorem Derives.reordered (derives : Derives setting expr judgement)
    (bound : ∀ node ∈ expr.nodes, BoundAlike classes other setting otherSetting node) :
    ∃ otherJudgement, Derives otherSetting expr otherJudgement ∧
      SameJudgement classes other setting.registry otherSetting.registry
        judgement otherJudgement := by
  have ofChild {expr child : Expr} (bound : ∀ node ∈ expr.nodes,
      BoundAlike classes other setting otherSetting node)
      (isChild : child ∈ expr.children := by simp [Expr.children]) :
      ∀ node ∈ child.nodes, BoundAlike classes other setting otherSetting node :=
    fun node isNode => bound node (Expr.nodes_subset_of_child (List.Subset.refl _) isChild isNode)
  induction derives with
  | @literal site value =>
    refine ⟨_, .literal, .ofMeaning (.value ?_)⟩
    cases value <;> constructor
  | ofVariable isBound found =>
    rcases bound _ (Expr.self_mem_nodes _) rfl _ isBound with ⟨_, otherBound, same⟩
    cases same with
    | ofVariable same =>
      rcases same with ⟨_, _, ⟨entry, entryFound, rfl⟩, ⟨otherEntry, otherFound, rfl⟩, typeSame⟩
      obtain rfl := Option.some.inj (found.symm.trans entryFound)
      exact ⟨_, .ofVariable otherBound otherFound, .ofMeaning (.value typeSame)⟩
  | ofField isBound found suits allowed =>
    rcases bound _ (Expr.self_mem_nodes _) rfl _ isBound with ⟨_, otherBound, same⟩
    cases same with
    | ofField again otherFound same =>
      obtain rfl := Option.some.inj (found.symm.trans again)
      exact ⟨_, .ofField otherBound otherFound (same.isStatic_eq ▸ settings.suits suits)
        (same.visibility_eq ▸ settings.allows same.owner allowed),
        settings.fieldNamed found otherFound same⟩
  | ofClass isBound =>
    rcases bound _ (Expr.self_mem_nodes _) rfl _ isBound with ⟨_, otherBound, same⟩
    cases same with
    | ofClass same => exact ⟨_, .ofClass otherBound, .ofMeaning (.aClass same)⟩
  | this isInstance =>
    exact ⟨_, .this (settings.method.isStatic_eq.trans isInstance),
      .ofMeaning (.value (.object settings.method.owner))⟩
  | super isInstance isParent =>
    rcases settings.reordering.exists_parent settings.method.owner isParent with
      ⟨otherParent, otherIsParent, same⟩
    exact ⟨_, .super (settings.method.isStatic_eq.trans isInstance) otherIsParent,
      .ofMeaning (.asParent same)⟩
  | new isBound =>
    rcases bound _ (Expr.self_mem_nodes _) rfl _ isBound with ⟨_, otherBound, same⟩
    cases same with
    | ofClass same => exact ⟨_, .new otherBound, .ofMeaning (.value (.object same))⟩
  | unary _ isValue takes ih =>
    rcases ih (ofChild bound) with ⟨inner, operandDerives, same⟩
    rcases same.exists_value isValue with ⟨otherType, otherIsValue, typeSame⟩
    rcases takes.reordered typeSame with ⟨otherResult, otherTakes, resultSame⟩
    exact ⟨_, .unary operandDerives otherIsValue otherTakes, .ofMeaning (.value resultSame)⟩
  | binary _ _ leftIsValue rightIsValue takes leftIh rightIh =>
    rcases leftIh (ofChild bound) with ⟨leftInner, leftDerives, leftSame⟩
    rcases rightIh (ofChild bound) with ⟨rightInner, rightDerives, rightSame⟩
    rcases leftSame.exists_value leftIsValue with ⟨otherLeft, otherLeftIsValue, leftTypeSame⟩
    rcases rightSame.exists_value rightIsValue with ⟨otherRight, otherRightIsValue, rightTypeSame⟩
    rcases settings.reordering.takes leftTypeSame rightTypeSame takes with
      ⟨otherResult, otherTakes, resultSame⟩
    exact ⟨_, .binary leftDerives rightDerives otherLeftIsValue otherRightIsValue otherTakes,
      .ofMeaning (.value resultSame)⟩
  | callBare length_eq _ areValues notVoid calls ih =>
    rcases exists_reordered length_eq fun pair isPair => ih pair isPair (ofChild bound
      (by simp [Expr.children, (List.of_mem_zip isPair).1])) with ⟨otherInner, otherLength,
      otherDerive, allSame⟩
    rcases exists_types allSame areValues with ⟨otherTypes, otherValues, typesSame⟩
    rcases settings.calls .none typesSame calls with
      ⟨otherMethod, otherDispatch, otherCalls, sameCall⟩
    exact ⟨_, .callBare otherLength otherDerive otherValues (forall_ne_void typesSame notVoid)
      otherCalls, sameCall⟩
  | callOn _ length_eq _ areValues notVoid calls receiverIh ih =>
    rcases receiverIh (ofChild bound) with ⟨otherOuter, receiverDerives, receiverSame⟩
    rcases exists_reordered length_eq fun pair isPair => ih pair isPair (ofChild bound
      (by simp [Expr.children, (List.of_mem_zip isPair).1])) with ⟨otherInner, otherLength,
      otherDerive, allSame⟩
    rcases exists_types allSame areValues with ⟨otherTypes, otherValues, typesSame⟩
    rcases settings.calls (.some receiverSame.meaning) typesSame calls with
      ⟨otherMethod, otherDispatch, otherCalls, sameCall⟩
    exact ⟨_, .callOn receiverDerives otherLength otherDerive otherValues
      (forall_ne_void typesSame notVoid) otherCalls, sameCall⟩
  | fieldAccess _ accesses ih =>
    rcases ih (ofChild bound) with ⟨otherOuter, receiverDerives, receiverSame⟩
    rcases settings.accesses receiverSame.meaning accesses with
      ⟨otherField, otherAccesses, fieldSame⟩
    exact ⟨_, .fieldAccess receiverDerives otherAccesses, fieldSame⟩
  | @step site operator yieldsNew target inner type _ assignable isValue number ih =>
    have targetBound : ∀ node ∈ target.nodes, BoundAlike classes other setting otherSetting node :=
      ofChild bound
    rcases ih targetBound with ⟨inner, targetDerives, same⟩
    rcases same.exists_value isValue with ⟨otherType, otherIsValue, typeSame⟩
    exact ⟨_, .step targetDerives (assignable.reordered targetBound) otherIsValue
      (typeSame.isNumber number), .ofMeaning (.value typeSame)⟩

/-- An expression that is a value is a value of the same type when the classes are reordered. -/
theorem Setting.Types.reordered (types : setting.Types expr type)
    (bound : ∀ node ∈ expr.nodes, BoundAlike classes other setting otherSetting node) :
    ∃ otherType, otherSetting.Types expr otherType ∧ SameType classes other type otherType := by
  rcases types with ⟨⟨judgement, derives, isValue⟩, notVoid⟩
  rcases derives.reordered settings bound with ⟨otherJudgement, otherDerives, same⟩
  rcases same.exists_value isValue with ⟨otherType, otherIsValue, typeSame⟩
  exact ⟨otherType, ⟨⟨otherJudgement, otherDerives, otherIsValue⟩,
    fun isVoid => notVoid (typeSame.eq_primitive_iff.mp isVoid)⟩, typeSame⟩

theorem Setting.Types.reordered_primitive
    {kind : Primitive} (types : setting.Types expr (.primitive kind))
    (bound : ∀ node ∈ expr.nodes, BoundAlike classes other setting otherSetting node) :
    otherSetting.Types expr (.primitive kind) := by
  rcases types.reordered settings bound with ⟨_, otherTypes, same⟩
  cases same
  exact otherTypes

end

/-! ## Statements -/

/-- A statement that follows the rules does so when the classes are reordered. -/
theorem WellTyped.reordered (settings : SameSetting classes other setting otherSetting)
    {inLoop : Bool} {stmt : Stmt} (typed : WellTyped setting inLoop stmt)
    (bound : ∀ node ∈ stmt.exprNodes, BoundAlike classes other setting otherSetting node) :
    WellTyped otherSetting inLoop stmt := by
  have ofChild {stmt child : Stmt} (bound : ∀ node ∈ stmt.exprNodes,
      BoundAlike classes other setting otherSetting node)
      (isChild : child ∈ stmt.children := by simp [Stmt.children]) :
      ∀ node ∈ child.exprNodes, BoundAlike classes other setting otherSetting node :=
    fun node isNode =>
      bound node (Stmt.exprNodes_subset_of_child (List.Subset.refl _) isChild isNode)
  have ofExpr {stmt : Stmt} {expr : Expr}
      (bound : ∀ node ∈ stmt.exprNodes, BoundAlike classes other setting otherSetting node)
      (isExpr : expr ∈ stmt.exprs := by simp [Stmt.exprs]) :
      ∀ node ∈ expr.nodes, BoundAlike classes other setting otherSetting node :=
    fun node isNode => bound node (Stmt.nodes_subset_of_expr (List.Subset.refl _) isExpr isNode)
  induction typed with
  | block _ ih => exact .block fun stmt isThere => ih stmt isThere (ofChild bound isThere)
  | ifElse conditionTyped _ _ thenIh elseIh =>
    exact .ifElse (conditionTyped.reordered_primitive settings (ofExpr bound))
      (thenIh (ofChild bound))
      fun stmt isThere =>
        elseIh stmt isThere (ofChild bound (by simp [Stmt.children, Option.mem_def.mp isThere]))
  | whileLoop conditionTyped _ ih =>
    exact .whileLoop (conditionTyped.reordered_primitive settings (ofExpr bound))
      (ih (ofChild bound))
  | forLoop _ conditionTyped _ _ initIh updateIh bodyIh =>
    refine .forLoop (fun stmt isThere => initIh stmt isThere (ofChild bound ?_))
      (fun expr isThere => ?_)
      (fun stmt isThere => updateIh stmt isThere (ofChild bound ?_)) (bodyIh (ofChild bound ?_))
    · simp [Stmt.children, Option.mem_def.mp isThere]
    · exact (conditionTyped expr isThere).reordered_primitive settings
        (ofExpr bound (by simp [Stmt.exprs, Option.mem_def.mp isThere]))
    · simp [Stmt.children, Option.mem_def.mp isThere]
    · simp [Stmt.children]
  | retNone isVoid => exact .retNone (settings.method.returnType.eq_primitive_iff.mpr isVoid)
  | retValue notVoid valueTyped fits =>
    rcases valueTyped.reordered settings (ofExpr bound) with ⟨otherType, otherTyped, typeSame⟩
    exact .retValue (fun isVoid => notVoid (settings.method.returnType.eq_primitive_iff.mp isVoid))
      otherTyped (settings.reordering.usableAs typeSame settings.method.returnType fits)
  | evaluate derives isValue =>
    rcases derives.reordered settings (ofExpr bound) with ⟨otherJudgement, otherDerives, same⟩
    rcases same.exists_value isValue with ⟨otherType, otherIsValue, _⟩
    exact .evaluate otherDerives otherIsValue
  | @assign inLoop site target value _ _ _ assignable targetDerives targetIsValue valueTyped fits =>
    have targetBound : ∀ node ∈ target.nodes, BoundAlike classes other setting otherSetting node :=
      ofExpr bound
    rcases targetDerives.reordered settings targetBound with ⟨otherJudgement, otherDerives, same⟩
    rcases same.exists_value targetIsValue with ⟨otherExpected, otherIsValue, expectedSame⟩
    rcases valueTyped.reordered settings (ofExpr bound) with ⟨otherType, otherTyped, typeSame⟩
    exact .assign (assignable.reordered targetBound) otherDerives otherIsValue otherTyped
      (settings.reordering.usableAs typeSame expectedSame fits)
  | declare => exact .declare
  | print valueTyped =>
    exact .print (valueTyped.reordered_primitive settings (ofExpr bound))
  | breakLoop => exact .breakLoop
  | continueLoop => exact .continueLoop
  | skip => exact .skip

theorem Checking.BodyTyped.reordered (settings : SameSetting classes other setting otherSetting)
    {body : Stmt} (typed : BodyTyped setting body)
    (bound : ∀ node ∈ body.exprNodes, BoundAlike classes other setting otherSetting node) :
    BodyTyped otherSetting body where
  wellTyped := typed.wellTyped.reordered settings bound
  returns notVoid := typed.returns fun isVoid =>
    notVoid (settings.method.returnType.eq_primitive_iff.mpr isVoid)

end Decaf
