import Decaf.Proofs.Registry.Lookup
import Decaf.Typing

/-!
# The rules of the language

What an expression stands for and which statements are well-typed, as rules that mention neither
complaints nor tables. An expression that can be derived comes with all that code generation needs
to know of its outermost node: its type if it is a value, the method that a call selects and how,
and the field that a name stands for.
-/

namespace Decaf

variable {type result left right : DataType} {operator : UnaryOperator} {name : String}
  {owner : ClassId} {reach : Reach} {method : MethodEntry}

/-! ## Types and operators -/

/-- A value of the first type may be used where the second one is expected. -/
inductive Registry.UsableAs (registry : Registry) : DataType → DataType → Prop where
  | same {type : DataType} : UsableAs registry type type
  | null {owner : ClassId} : UsableAs registry .null (.object owner)
  | subclass {child ancestor : ClassId} (descends : registry.DescendsFrom child ancestor) :
      UsableAs registry (.object child) (.object ancestor)

/-- Arithmetic is defined on integers and on doubles. -/
inductive DataType.IsNumber : DataType → Prop where
  | int : IsNumber .int
  | double : IsNumber .double

/-- A unary operator takes an operand of the first type and has a result of the second one. -/
inductive UnaryOperator.Takes : UnaryOperator → DataType → DataType → Prop where
  | negate {type : DataType} (number : type.IsNumber) : Takes .negate type type
  | not : Takes .not .bool .bool

/-- A binary operator takes operands of the first two types and has a result of the third one. -/
inductive BinaryOperator.Takes (registry : Registry) (operator : BinaryOperator) :
    DataType → DataType → DataType → Prop where
  | arithmetic {type : DataType} (family : operator.family = .arithmetic) (number : type.IsNumber) :
      Takes registry operator type type type
  | relational {type : DataType} (family : operator.family = .relational) (number : type.IsNumber) :
      Takes registry operator type type .bool
  | equalValues {kind : Primitive} (family : operator.family = .equality) (isValue : kind ≠ .void) :
      Takes registry operator (.primitive kind) (.primitive kind) .bool
  | equalReferences {left right : DataType} (family : operator.family = .equality)
      (leftReference : left.isReference = true) (rightReference : right.isReference = true)
      (related : registry.UsableAs left right ∨ registry.UsableAs right left) :
      Takes registry operator left right .bool
  | logical (family : operator.family = .logical) : Takes registry operator .bool .bool .bool

/-! ## Members -/

/-- Where a member is looked up: by its bare name in the class of the code, and else in the class
that stands in front of the dot, in the parent, or in the class of an object. -/
inductive Setting.LooksIn (setting : Setting) : Option Meaning → ClassId → Reach → Prop where
  | bare : LooksIn setting none setting.method.owner .bare
  | throughClass {id : ClassId} : LooksIn setting (some (.aClass id)) id .throughClass
  | throughSuper {parent : ClassId} : LooksIn setting (some (.asParent parent)) parent .throughSuper
  | throughObject {owner : ClassId} :
      LooksIn setting (some (.value (.object owner))) owner .throughObject

/-- Static members belong to classes and instance members to objects. A bare name reaches an
instance member through the current object, which static methods do not have. -/
def Reach.Suits (reach : Reach) (setting : Setting) (isStatic : Bool) : Prop :=
  match reach with
  | .bare => setting.method.isStatic = true → isStatic = true
  | .throughClass => isStatic = true
  | .throughSuper | .throughObject => isStatic = false

/-- Private members are for the code of the declaring class. -/
def Setting.Allows (setting : Setting) (owner : ClassId) (visibility : Visibility) : Prop :=
  visibility = .privateMember → owner = setting.method.owner

/-- How a call that reaches a method in this way selects the code to run. -/
inductive Reach.Selects (reach : Reach) (method : MethodEntry) : Dispatch → Prop where
  | static (isStatic : method.isStatic = true) : Selects reach method .static
  | super (isInstance : method.isStatic = false) (viaSuper : reach = .throughSuper) :
      Selects reach method .super
  | virtual {slot : Nat} (isInstance : method.isStatic = false) (notSuper : reach ≠ .throughSuper)
      (slotEq : method.slot = some slot) : Selects reach method (.virtual slot)

/-- A call with arguments of these types calls a method. -/
structure Setting.Calls (setting : Setting) (receiver : Option Meaning) (name : String)
    (types : List DataType) (method : MethodEntry) (dispatch : Dispatch) : Prop where
  found : ∃ owner reach id, setting.LooksIn receiver owner reach ∧
    setting.registry.findMethod? owner name = some id ∧
    setting.registry.methodEntry? id = some method ∧
    reach.Suits setting method.isStatic ∧ reach.Selects method dispatch
  allowed : setting.Allows method.owner method.visibility
  fits : List.Forall₂ setting.registry.UsableAs types method.parameterTypes

/-- A field name behind a dot names a field. -/
structure Setting.Accesses (setting : Setting) (receiver : Meaning) (name : String)
    (field : FieldEntry) : Prop where
  found : ∃ owner reach id, setting.LooksIn (some receiver) owner reach ∧
    setting.registry.findField? owner name = some id ∧
    setting.registry.fieldEntry? id = some field ∧
    reach.Suits setting field.isStatic
  allowed : setting.Allows field.owner field.visibility

/-! ## Expressions -/

/-- What an expression stands for, and what its outermost node selects. -/
structure Judgement where
  meaning : Meaning
  /-- The target of a call. -/
  target : Option CallTarget := none
  /-- The field that a name stands for. -/
  field : Option FieldId := none

/-- The type of an expression that is a value. -/
def Judgement.type? (judgement : Judgement) : Option DataType :=
  match judgement.meaning with
  | .value type => some type
  | .aClass _ | .asParent _ => none

/-- An expression names a variable or a field. -/
inductive Setting.Assignable (setting : Setting) : Expr → Prop where
  | ofVariable {site : Site ExprId} {name : String} {id : VariableId}
      (bound : setting.bindings.symbol? site.id = some (.ofVariable id)) :
      Assignable setting (.identifier site name)
  | ofField {site : Site ExprId} {name : String} {id : FieldId}
      (bound : setting.bindings.symbol? site.id = some (.ofField id)) :
      Assignable setting (.identifier site name)
  | ofAccess {site : Site ExprId} {receiver : Expr} {name : String} :
      Assignable setting (.fieldAccess site receiver name)

/-- An expression has a meaning by the rules of the language. -/
inductive Derives (setting : Setting) : Expr → Judgement → Prop where
  | literal {site : Site ExprId} {value : Literal} :
      Derives setting (.literal site value) { meaning := .value value.type }
  | ofVariable {site : Site ExprId} {name : String} {id : VariableId} {entry : VariableEntry}
      (bound : setting.bindings.symbol? site.id = some (.ofVariable id))
      (found : setting.registry.variableEntry? id = some entry) :
      Derives setting (.identifier site name) { meaning := .value entry.type }
  | ofField {site : Site ExprId} {name : String} {id : FieldId} {field : FieldEntry}
      (bound : setting.bindings.symbol? site.id = some (.ofField id))
      (found : setting.registry.fieldEntry? id = some field)
      (suits : Reach.bare.Suits setting field.isStatic)
      (allowed : setting.Allows field.owner field.visibility) :
      Derives setting (.identifier site name)
      { meaning := .value field.type, field := some field.id }
  | ofClass {site : Site ExprId} {name : String} {id : ClassId}
      (bound : setting.bindings.symbol? site.id = some (.ofClass id)) :
      Derives setting (.identifier site name) { meaning := .aClass id }
  | this {site : Site ExprId} (isInstance : setting.method.isStatic = false) :
      Derives setting (.this site) { meaning := .value (.object setting.method.owner) }
  | super {site : Site ExprId} {parent : ClassId} (isInstance : setting.method.isStatic = false)
      (parentEq : setting.registry.parent? setting.method.owner = some parent) :
      Derives setting (.super site) { meaning := .asParent parent }
  | new {site : Site ExprId} {className : String} {id : ClassId}
      (bound : setting.bindings.symbol? site.id = some (.ofClass id)) :
      Derives setting (.new site className) { meaning := .value (.object id) }
  | unary {site : Site ExprId} {operator : UnaryOperator} {operand : Expr} {inner : Judgement}
      {type result : DataType} (operandDerives : Derives setting operand inner)
      (isValue : inner.meaning = .value type) (takes : operator.Takes type result) :
      Derives setting (.unary site operator operand) { meaning := .value result }
  | binary {site : Site ExprId} {operator : BinaryOperator} {left right : Expr}
      {leftInner rightInner : Judgement} {leftType rightType result : DataType}
      (leftDerives : Derives setting left leftInner)
      (rightDerives : Derives setting right rightInner)
      (leftIsValue : leftInner.meaning = .value leftType)
      (rightIsValue : rightInner.meaning = .value rightType)
      (takes : operator.Takes setting.registry leftType rightType result) :
      Derives setting (.binary site operator left right) { meaning := .value result }
  | callBare {site : Site ExprId} {name : String} {arguments : List Expr} {inner : List Judgement}
      {types : List DataType} {method : MethodEntry} {dispatch : Dispatch}
      (length_eq : inner.length = arguments.length)
      (argumentsDerive : ∀ pair ∈ arguments.zip inner, Derives setting pair.1 pair.2)
      (areValues : inner.map Judgement.meaning = types.map Meaning.value)
      (notVoid : ∀ type ∈ types, type ≠ .void)
      (calls : setting.Calls none name types method dispatch) :
      Derives setting (.call site none name arguments)
        { meaning := .value method.returnType, target := some ⟨method.id, dispatch⟩ }
  | callOn {site : Site ExprId} {receiver : Expr} {name : String} {arguments : List Expr}
      {outer : Judgement}
      {inner : List Judgement} {types : List DataType} {method : MethodEntry} {dispatch : Dispatch}
      (receiverDerives : Derives setting receiver outer)
      (length_eq : inner.length = arguments.length)
      (argumentsDerive : ∀ pair ∈ arguments.zip inner, Derives setting pair.1 pair.2)
      (areValues : inner.map Judgement.meaning = types.map Meaning.value)
      (notVoid : ∀ type ∈ types, type ≠ .void)
      (calls : setting.Calls (some outer.meaning) name types method dispatch) :
      Derives setting (.call site (some receiver) name arguments)
        { meaning := .value method.returnType, target := some ⟨method.id, dispatch⟩ }
  | fieldAccess {site : Site ExprId} {receiver : Expr} {name : String} {outer : Judgement}
      {field : FieldEntry} (receiverDerives : Derives setting receiver outer)
      (accesses : setting.Accesses outer.meaning name field) :
      Derives setting (.fieldAccess site receiver name)
        { meaning := .value field.type, field := some field.id }
  | step {site : Site ExprId} {operator : StepOperator} {yieldsNew : Bool} {target : Expr}
      {inner : Judgement}
      {type : DataType} (targetDerives : Derives setting target inner)
      (assignable : setting.Assignable target)
      (isValue : inner.meaning = .value type) (number : type.IsNumber) :
      Derives setting (.step site operator yieldsNew target) { meaning := .value type }

/-- An expression is a value of a type by the rules. -/
structure Setting.Types (setting : Setting) (expr : Expr) (type : DataType) : Prop where
  derives : ∃ judgement, Derives setting expr judgement ∧ judgement.meaning = .value type
  isValue : type ≠ .void

/-! ## Statements -/

/-- A statement follows the rules; `inLoop` tells whether there is a loop around it. -/
inductive WellTyped (setting : Setting) : Bool → Stmt → Prop where
  | block {inLoop : Bool} {site : Site StmtId} {statements : List Stmt}
      (all : ∀ stmt ∈ statements, WellTyped setting inLoop stmt) :
      WellTyped setting inLoop (.block site statements)
  | ifElse {inLoop : Bool} {site : Site StmtId} {condition : Expr} {thenBranch : Stmt}
      {elseBranch : Option Stmt} (conditionTyped : setting.Types condition .bool)
      (thenTyped : WellTyped setting inLoop thenBranch)
      (elseTyped : ∀ stmt ∈ elseBranch, WellTyped setting inLoop stmt) :
      WellTyped setting inLoop (.ifElse site condition thenBranch elseBranch)
  | whileLoop {inLoop : Bool} {site : Site StmtId} {condition : Expr} {body : Stmt}
      (conditionTyped : setting.Types condition .bool) (bodyTyped : WellTyped setting true body) :
      WellTyped setting inLoop (.whileLoop site condition body)
  | forLoop {inLoop : Bool} {site : Site StmtId} {init : Option Stmt} {condition : Option Expr}
      {update : Option Stmt} {body : Stmt} (initTyped : ∀ stmt ∈ init,
        WellTyped setting inLoop stmt)
      (conditionTyped : ∀ expr ∈ condition, setting.Types expr .bool)
      (updateTyped : ∀ stmt ∈ update, WellTyped setting true stmt)
        (bodyTyped : WellTyped setting true body) :
      WellTyped setting inLoop (.forLoop site init condition update body)
  | retNone {inLoop : Bool} {site : Site StmtId} (isVoid : setting.method.returnType = .void) :
      WellTyped setting inLoop (.ret site none)
  | retValue {inLoop : Bool} {site : Site StmtId} {value : Expr} {type : DataType}
      (notVoid : setting.method.returnType ≠ .void) (valueTyped : setting.Types value type)
      (fits : setting.registry.UsableAs type setting.method.returnType) :
      WellTyped setting inLoop (.ret site (some value))
  | evaluate {inLoop : Bool} {site : Site StmtId} {expr : Expr} {judgement : Judgement}
      {type : DataType}
      (derives : Derives setting expr judgement) (isValue : judgement.meaning = .value type) :
      WellTyped setting inLoop (.evaluate site expr)
  | assign {inLoop : Bool} {site : Site StmtId} {target value : Expr} {judgement : Judgement}
      {expected type : DataType} (assignable : setting.Assignable target)
      (targetDerives : Derives setting target judgement)
      (targetIsValue : judgement.meaning = .value expected)
      (valueTyped : setting.Types value type) (fits : setting.registry.UsableAs type expected) :
      WellTyped setting inLoop (.assign site target value)
  | declare {inLoop : Bool} {site : Site StmtId} {declared : List VariableDecl} :
      WellTyped setting inLoop (.declare site declared)
  | print {inLoop : Bool} {site : Site StmtId} {value : Expr} {kind : Primitive}
      (valueTyped : setting.Types value (.primitive kind)) :
      WellTyped setting inLoop (.print site value)
  | breakLoop {site : Site StmtId} : WellTyped setting true (.breakLoop site)
  | continueLoop {site : Site StmtId} : WellTyped setting true (.continueLoop site)
  | skip {inLoop : Bool} {site : Site StmtId} : WellTyped setting inLoop (.skip site)

/-! ## The checks that decide the rules -/

variable {setting : Setting} {registry : Registry}

theorem Registry.isAssignable_iff (wellFormed : registry.WellFormed) (acyclic : registry.Acyclic)
    {source target : DataType} :
    registry.isAssignable source target = true ↔ registry.UsableAs source target := by
  constructor
  · intro assignable
    simp only [isAssignable, Bool.or_eq_true, decide_eq_true_eq] at assignable
    rcases assignable with rfl | below
    · exact .same
    · split at below
      · exact .null
      · exact .subclass (descendsFrom_of_mem_ancestors (List.contains_iff_mem.mp below))
      · simp at below
  · intro fits
    cases fits with
    | same => simp [isAssignable]
    | null => simp [isAssignable]
    | @subclass child ancestor descends =>
      rcases Relation.ReflTransGen.cases_head descends with rfl | ⟨_, parentEq, _⟩
      · simp [isAssignable]
      · have known := lt_classCount_of_parent parentEq
        have listed := mem_ancestors_of_descendsFrom wellFormed acyclic known descends
        simp [isAssignable, isSubclass, listed]

theorem DataType.isNumeric_iff : type.isNumeric = true ↔ type.IsNumber := by
  constructor
  · intro numeric
    rcases type with kind | owner | _
    · cases kind <;> first | exact .int | exact .double | simp [isNumeric,
        Primitive.isNumeric] at numeric
    · simp [isNumeric] at numeric
    · simp [isNumeric] at numeric
  · intro number
    cases number <;> rfl

theorem DataType.IsNumber.ne_void (number : type.IsNumber) : type ≠ .void := by
  cases number <;> simp

theorem UnaryOperator.resultType?_eq_some :
    operator.resultType? type = some result ↔ operator.Takes type result := by
  constructor
  · intro resultEq
    cases operator with
    | negate =>
      simp only [resultType?, Option.ite_none_right_eq_some, Option.some.injEq] at resultEq
      rcases resultEq with ⟨numeric, rfl⟩
      exact .negate (DataType.isNumeric_iff.mp numeric)
    | not =>
      simp only [resultType?, Option.ite_none_right_eq_some, Option.some.injEq] at resultEq
      rcases resultEq with ⟨rfl, rfl⟩
      exact .not
  · intro takes
    cases takes with
    | negate number => simp [resultType?, DataType.isNumeric_iff.mpr number]
    | not => rfl

theorem UnaryOperator.Takes.ne_void (takes : operator.Takes type result) : type ≠ .void := by
  cases takes with
  | negate number => exact number.ne_void
  | not => simp

theorem Registry.areComparable_iff (wellFormed : registry.WellFormed) (acyclic : registry.Acyclic) :
    registry.areComparable left right = true ↔
      (left.isReference = true ∧ right.isReference = true ∧
        (registry.UsableAs left right ∨ registry.UsableAs right left)) ∨
        ∃ kind, kind ≠ .void ∧ left = .primitive kind ∧ right = .primitive kind := by
  unfold areComparable areRelated
  rcases left with kind | owner | _ <;> rcases right with otherKind | other | _ <;>
    simp [DataType.isReference, ← isAssignable_iff wellFormed acyclic]
  constructor
  · rintro ⟨rfl, isValue⟩
    exact ⟨isValue, rfl⟩
  · rintro ⟨isValue, rfl⟩
    exact ⟨rfl, isValue⟩

theorem BinaryOperator.resultType?_eq_some (wellFormed : registry.WellFormed)
    (acyclic : registry.Acyclic) {operator : BinaryOperator} :
    operator.resultType? registry left right = some result ↔
      operator.Takes registry left right result := by
  constructor
  · intro resultEq
    unfold resultType? at resultEq
    split at resultEq <;> simp only [Option.ite_none_right_eq_some, Option.some.injEq] at resultEq
    next family =>
      rcases resultEq with ⟨⟨rfl, numeric⟩, rfl⟩
      exact .arithmetic family (DataType.isNumeric_iff.mp numeric)
    next family =>
      rcases resultEq with ⟨⟨rfl, numeric⟩, rfl⟩
      exact .relational family (DataType.isNumeric_iff.mp numeric)
    next family =>
      rcases resultEq with ⟨comparable, rfl⟩
      rcases (Registry.areComparable_iff wellFormed acyclic).mp comparable with
        ⟨leftReference, rightReference, related⟩ | ⟨kind, isValue, rfl, rfl⟩
      · exact .equalReferences family leftReference rightReference related
      · exact .equalValues family isValue
    next family =>
      rcases resultEq with ⟨⟨rfl, rfl⟩, rfl⟩
      exact .logical family
  · intro takes
    cases takes with
    | arithmetic family number => simp [resultType?, family, DataType.isNumeric_iff.mpr number]
    | relational family number => simp [resultType?, family, DataType.isNumeric_iff.mpr number]
    | @equalValues kind family isValue =>
      have comparable :=
        (Registry.areComparable_iff wellFormed acyclic).mpr (.inr ⟨kind, isValue, rfl, rfl⟩)
      simp [resultType?, family, comparable]
    | equalReferences family leftReference rightReference related =>
      have comparable := (Registry.areComparable_iff wellFormed acyclic).mpr
        (.inl ⟨leftReference, rightReference, related⟩)
      simp [resultType?, family, comparable]
    | logical family => simp [resultType?, family]

theorem BinaryOperator.Takes.ne_void {operator : BinaryOperator}
    (takes : operator.Takes registry left right result) : left ≠ .void ∧ right ≠ .void := by
  cases takes with
  | arithmetic _ number => exact ⟨number.ne_void, number.ne_void⟩
  | relational _ number => exact ⟨number.ne_void, number.ne_void⟩
  | equalValues _ isValue => exact ⟨by simpa using isValue, by simpa using isValue⟩
  | equalReferences _ leftReference rightReference =>
    constructor
    · rintro rfl
      simp [DataType.isReference] at leftReference
    · rintro rfl
      simp [DataType.isReference] at rightReference
  | logical => simp

theorem Setting.reached_eq_ok {receiver : Option Meaning} :
    setting.reached receiver name = .ok (owner, reach) ↔ setting.LooksIn receiver owner reach := by
  constructor
  · intro reachedEq
    unfold reached at reachedEq
    split at reachedEq <;> cases reachedEq
    · exact .bare
    · exact .throughClass
    · exact .throughSuper
    · exact .throughObject
  · intro looksIn
    cases looksIn <;> rfl

theorem Setting.methodIn_eq_ok :
    setting.methodIn owner name = .ok method ↔
      ∃ id, setting.registry.findMethod? owner name = some id ∧
        setting.registry.methodEntry? id = some method := by
  rw [← Option.bind_eq_some_iff]
  unfold methodIn
  cases (setting.registry.findMethod? owner name).bind setting.registry.methodEntry? <;> simp

theorem Setting.fieldIn_eq_ok {field : FieldEntry} :
    setting.fieldIn owner name = .ok field ↔
      ∃ id, setting.registry.findField? owner name = some id ∧
        setting.registry.fieldEntry? id = some field := by
  rw [← Option.bind_eq_some_iff]
  unfold fieldIn
  cases (setting.registry.findField? owner name).bind setting.registry.fieldEntry? <;> simp

theorem Reach.methodFault?_eq_none :
    reach.methodFault? setting owner method = none ↔ reach.Suits setting method.isStatic := by
  cases reach <;> cases isStatic : method.isStatic <;> simp [methodFault?, Suits, isStatic]

/-- A field behind a dot is never reached by its bare name. -/
theorem Setting.LooksIn.fieldFault?_eq_none {receiver : Meaning} {other : ClassId}
    (looksIn : setting.LooksIn (some receiver) owner reach) {field : FieldEntry} :
    reach.fieldFault? setting other field = none ↔ reach.Suits setting field.isStatic := by
  cases looksIn <;> cases isStatic : field.isStatic <;>
    simp [Reach.fieldFault?, Reach.Suits, isStatic]

theorem Setting.privacyFault?_eq_none {role : String} {visibility : Visibility} :
    setting.privacyFault? role name owner visibility = none ↔ setting.Allows owner visibility := by
  simp [privacyFault?, Allows]

theorem Reach.dispatch?_eq_some {dispatch : Dispatch} :
    reach.dispatch? method = some dispatch ↔ reach.Selects method dispatch := by
  constructor
  · intro dispatchEq
    unfold dispatch? at dispatchEq
    split at dispatchEq
    next isStatic =>
      cases dispatchEq
      exact .static isStatic
    next isInstance =>
      rw [Bool.not_eq_true] at isInstance
      split at dispatchEq
      next viaSuper =>
        cases dispatchEq
        exact .super isInstance viaSuper
      next notSuper =>
        rcases Option.map_eq_some_iff.mp dispatchEq with ⟨slot, slotEq, rfl⟩
        exact .virtual isInstance notSuper slotEq
  · intro selects
    cases selects with
    | static isStatic => simp [dispatch?, isStatic]
    | super isInstance viaSuper => simp [dispatch?, isInstance, viaSuper]
    | virtual isInstance notSuper slotEq => simp [dispatch?, isInstance, notSuper, slotEq]

theorem Setting.isAssignable_iff {expr : Expr} :
    Checking.isAssignable setting expr = true ↔ setting.Assignable expr := by
  constructor
  · intro assignable
    unfold Checking.isAssignable at assignable
    split at assignable
    · split at assignable
      next bound => exact .ofVariable bound
      next bound => exact .ofField bound
      all_goals simp at assignable
    · exact .ofAccess
    all_goals simp at assignable
  · intro assignable
    cases assignable with
    | ofVariable bound => simp [Checking.isAssignable, bound]
    | ofField bound => simp [Checking.isAssignable, bound]
    | ofAccess => rfl

end Decaf
