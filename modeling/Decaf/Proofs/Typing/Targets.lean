import Decaf.Proofs.Typing.Rules
import Decaf.Proofs.Typing.Methods

/-!
# Targets and fields on record

A target is written down for a call only when a method of the called name was found in some class
and takes as many arguments as the call has, and a field for an access only when it was found in
some class. What stands in front of the dot is then a value, unless the member belongs to a class or
is reached with `super`. None of this depends on what else is found out, nor on how often a node is
checked.
-/

namespace Decaf

/-- A call by a name with a number of arguments may have a target: a class has a method of that name
with as many parameters, and the way of reaching it suits the method. -/
def Registry.Offers (registry : Registry) (name : String) (count : Nat) (target : CallTarget)
    (owner : ClassId) (method : MethodEntry) : Prop :=
  ∃ id reach, registry.findMethod? owner name = some id ∧ registry.methodEntry? id = some method ∧
    target.method = method.id ∧ count = method.arity ∧ Reach.Selects reach method target.dispatch

/-- An expression is no value: it is `super` or the name of a class. -/
inductive Bindings.IsScope (bindings : Bindings) : Expr → Prop where
  | super {site : Site ExprId} : IsScope bindings (.super site)
  | ofClass {site : Site ExprId} {name : String} {id : ClassId}
      (bound : bindings.symbol? site.id = some (.ofClass id)) :
      IsScope bindings (.identifier site name)

namespace Checking

variable {Result Next : Type} {onCall : ExprId → CallTarget → Prop}
  {onField : ExprId → FieldId → Prop}

/-- Where a check adds no complaint, each target and each field that it writes down has a certain
property. -/
def Notes (onCall : ExprId → CallTarget → Prop) (onField : ExprId → FieldId → Prop)
    (check : Checking Result) : Prop :=
  ∀ before, before.diagnostics <+: (check.run before).2.diagnostics ∧
    ((check.run before).2.diagnostics = before.diagnostics →
      (∀ id target, (check.run before).2.table.call? id = some target →
        before.table.call? id = some target ∨ onCall id target) ∧
        ∀ id field, (check.run before).2.table.field? id = some field →
        before.table.field? id = some field ∨ onField id field)

namespace Notes

variable {check : Checking Result}

theorem pure (result : Result) : Notes onCall onField (Pure.pure result) :=
  fun _ => ⟨List.prefix_rfl, fun _ => ⟨fun _ _ => .inl, fun _ _ => .inl⟩⟩

/-- The second check may rely on what the first one always has as its result. -/
theorem bind_of {next : Result → Checking Next} (early : Notes onCall onField check)
    (post : Result → Prop) (returns : ∀ before, post (check.run before).1)
    (late : ∀ result, post result → Notes onCall onField (next result)) :
    Notes onCall onField (check >>= next) := by
  intro before
  rcases early before with ⟨firstGrows, firstHolds⟩
  rcases late (check.run before).1 (returns before) (check.run before).2 with
    ⟨secondGrows, secondHolds⟩
  refine ⟨firstGrows.trans secondGrows, fun silent => ?_⟩
  have firstSilent : (check.run before).2.diagnostics = before.diagnostics :=
    (firstGrows.eq_of_length_le
      (Nat.le_trans secondGrows.length_le (Nat.le_of_eq (congrArg List.length silent)))).symm
  rcases firstHolds firstSilent with ⟨firstCalls, firstFields⟩
  rcases secondHolds (silent.trans firstSilent.symm) with ⟨secondCalls, secondFields⟩
  refine ⟨fun id target isNoted => ?_, fun id field isNoted => ?_⟩
  · rcases secondCalls id target isNoted with wasThere | isFine
    · exact firstCalls id target wasThere
    · exact .inr isFine
  · rcases secondFields id field isNoted with wasThere | isFine
    · exact firstFields id field wasThere
    · exact .inr isFine

theorem bind {next : Result → Checking Next} (early : Notes onCall onField check)
    (late : ∀ result, Notes onCall onField (next result)) : Notes onCall onField (check >>= next) :=
  early.bind_of (fun _ => True) (fun _ => trivial) fun result _ => late result

end Notes

variable {id : ExprId} {site : Site ExprId} {position : Position} {receiver : Option Meaning}
  {owner : ClassId} {reach : Reach} {types : List (Expr × Option DataType)} {name : String}
  {expr value : Expr} {bindings : Bindings}

/-- A check that leaves the targets and the fields as they are. -/
theorem notes_of_same {check : Checking Result}
    (grows : ∀ before, before.diagnostics <+: (check.run before).2.diagnostics)
    (sameCalls : ∀ before, (check.run before).2.table.calls = before.table.calls)
    (sameFields : ∀ before, (check.run before).2.table.fields = before.table.fields) :
    Notes onCall onField check :=
  fun before => ⟨grows before, fun _ =>
    ⟨fun id target isNoted => .inl (by rwa [TypeTable.call?, sameCalls] at isNoted),
      fun id field isNoted => .inl (by rwa [TypeTable.field?, sameFields] at isNoted)⟩⟩

theorem notes_report (position : Position) (cause : Cause) :
    Notes onCall onField (report position cause) :=
  notes_of_same (fun _ => List.prefix_append _ _) (fun _ => rfl) fun _ => rfl

theorem notes_reportAny (position : Position) (cause : Option Cause) :
    Notes onCall onField (reportAny position cause) := by
  cases cause with
  | none => exact .pure ()
  | some cause => exact notes_report position cause

theorem notes_reject (position : Position) (cause : Cause) :
    Notes onCall onField (reject position cause : Checking (Option Result)) :=
  (notes_report position cause).bind fun _ => .pure none

theorem notes_recordMeaning (id : ExprId) (meaning : Option Meaning) :
    Notes onCall onField (recordMeaning id meaning) := by
  rcases meaning with _ | type | owner | parent
  · exact .pure ()
  · exact notes_of_same (fun _ => List.prefix_rfl) (fun _ => rfl) fun _ => rfl
  · exact .pure ()
  · exact .pure ()

theorem notes_recordField {field : FieldId} (isFine : onField id field) :
    Notes onCall onField (recordField id field) := by
  refine fun before => ⟨List.prefix_rfl, fun _ => ⟨fun _ _ => .inl, fun other found isNoted => ?_⟩⟩
  by_cases isSame : other = id
  · subst isSame
    obtain rfl := Option.some.inj ((TypeTable.field?_setField field).symm.trans isNoted)
    exact .inr isFine
  · rw [← (TypeTable.agreesAt_setField isSame field).field]
    exact .inl isNoted

theorem notes_recordCall {target : CallTarget} (isFine : onCall id target) :
    Notes onCall onField (recordCall id target) := by
  refine fun before => ⟨List.prefix_rfl, fun _ => ⟨fun other found isNoted => ?_, fun _ _ => .inl⟩⟩
  by_cases isSame : other = id
  · subst isSame
    obtain rfl := Option.some.inj ((TypeTable.call?_setCall target).symm.trans isNoted)
    exact .inr isFine
  · rw [← (TypeTable.agreesAt_setCall isSame target).call]
    exact .inl isNoted

theorem notes_conclude {check : Checking (Option Meaning)} (notes : Notes onCall onField check) :
    Notes onCall onField (conclude site check) :=
  notes.bind fun meaning => (notes_recordMeaning site.id meaning).bind fun _ => .pure meaning

/-! ## Parts of expressions -/

variable {setting : Setting}

theorem notes_asValue (expr : Expr) (meaning : Option Meaning) :
    Notes onCall onField (asValue setting expr meaning) := by
  unfold asValue
  split
  · exact .pure none
  · split
    · exact notes_reject _ _
    · exact .pure _
  · exact notes_reject _ _
  · exact notes_reject _ _

theorem notes_asValues (meanings : List (Expr × Option Meaning)) :
    Notes onCall onField (asValues setting meanings) := by
  induction meanings with
  | nil => exact .pure []
  | cons pair rest ih => exact (notes_asValue pair.1 pair.2).bind fun _ => ih.bind fun _ => .pure _

theorem notes_checkIdentifier (isFine : ∀ field, onField site.id field) (name : String) :
    Notes onCall onField (checkIdentifier setting site name) := by
  unfold checkIdentifier
  split
  · exact .pure none
  · exact .pure _
  · split
    next field _ =>
      unfold checkBareField
      split
      · exact notes_reject _ _
      · exact (notes_reportAny _ _).bind fun _ =>
          (notes_recordField (isFine _)).bind fun _ => .pure _
    · exact .pure none
  · exact notes_reject _ _
  · exact .pure _

theorem notes_resultOr (position : Position) (type : Option DataType)
    (operator requirement : String) :
    Notes onCall onField (resultOr position type operator requirement) := by
  cases type with
  | none => exact notes_reject _ _
  | some type => exact .pure _

theorem notes_checkUnary (position : Position) (operator : UnaryOperator)
    (operand : Option DataType) :
    Notes onCall onField (checkUnary setting position operator operand) := by
  cases operand with
  | none => exact .pure none
  | some type => exact notes_resultOr _ _ _ _

theorem notes_checkBinary (position : Position) (operator : BinaryOperator)
    (left right : Option DataType) :
    Notes onCall onField (checkBinary setting position operator left right) := by
  unfold checkBinary
  split
  · exact notes_resultOr _ _ _ _
  · exact .pure none

theorem notes_checkStep (position : Position) (operator : StepOperator) (target : Expr)
    (meaning : Option Meaning) :
    Notes onCall onField (checkStep setting position operator target meaning) := by
  unfold checkStep
  split
  · refine (notes_asValue target meaning).bind fun type => ?_
    cases type with
    | none => exact .pure none
    | some type => exact notes_resultOr _ _ _ _
  · exact notes_reject _ _

theorem notes_checkArguments (path : String) (number : Nat)
    (arguments : List (Expr × Option DataType)) (types : List DataType) :
    Notes onCall onField (checkArguments setting path number arguments types) := by
  induction arguments generalizing number types with
  | nil =>
    unfold checkArguments
    exact .pure ()
  | cons argument rest ih =>
    rcases argument with ⟨expr, found⟩
    cases types with
    | nil => cases found <;> exact .pure ()
    | cons expected types =>
      cases found with
      | none => exact ih (number + 1) types
      | some found =>
        unfold checkArguments
        split
        · exact ih (number + 1) types
        · exact (notes_report _ _).bind fun _ => ih (number + 1) types

/-- What follows a complaint does not matter. -/
theorem notes_report_bind {cause : Cause} {next : Unit → Checking Result}
    (later : Notes (fun _ _ => True) (fun _ _ => True) (next ())) :
    Notes onCall onField (report position cause >>= next) := by
  intro before
  have reported := List.prefix_append before.diagnostics [⟨position, cause⟩]
  have grows := (later { before with diagnostics := before.diagnostics ++ [⟨position, cause⟩] }).1
  refine ⟨reported.trans grows, fun silent => ?_⟩
  have tooLong := Nat.le_trans grows.length_le (Nat.le_of_eq (congrArg List.length silent))
  rw [List.length_append] at tooLong
  exact absurd tooLong (Nat.not_succ_le_self _)

/-- What follows may rely on there being no cause for a complaint. -/
theorem notes_reportAny_bind {cause : Option Cause} {next : Unit → Checking Result}
    (later : Notes (fun id target => cause = none → onCall id target) (fun id field =>
      cause = none → onField id field) (next ())) :
    Notes onCall onField (reportAny position cause >>= next) := by
  cases cause with
  | none =>
    intro before
    refine (later before).imp_right fun holds silent => (holds silent).imp ?_ ?_
    · exact fun calls id target isNoted =>
        (calls id target isNoted).imp_right fun isFine => isFine rfl
    · exact fun fields id field isNoted =>
        (fields id field isNoted).imp_right fun isFine => isFine rfl
  | some cause =>
    refine notes_report_bind fun before => (later before).imp_right fun _ _ =>
      ⟨fun _ _ _ => .inr trivial, fun _ _ _ => .inr trivial⟩

/-- A field that is written down was found in the class that the receiver leads to. -/
theorem notes_checkFieldAccess (name : String)
    (isFine : ∀ meaning ∈ receiver, ∀ owner reach id field,
      setting.LooksIn (some meaning) owner reach → setting.registry.fieldEntry? id = some field →
      reach.Suits setting field.isStatic → onField site.id field.id) :
    Notes onCall onField (checkFieldAccess setting site receiver name) := by
  unfold checkFieldAccess
  split
  · exact .pure none
  next meaning =>
    split
    · exact notes_reject _ _
    next owner reach reached =>
      have looksIn := Setting.reached_eq_ok.mp reached
      split
      · exact notes_reject _ _
      next field found =>
        rcases Setting.fieldIn_eq_ok.mp found with ⟨id, _, entry⟩
        refine notes_reportAny_bind ((notes_reportAny _ _).bind fun _ =>
          (notes_recordField fun noFault => ?_).bind fun _ => .pure _)
        have suits := looksIn.fieldFault?_eq_none.mp (Option.map_eq_none_iff.mp noFault)
        exact isFine meaning rfl owner reach id field looksIn entry suits

/-! ## Calls -/

/-- A target that is written down suits the way in which it is reached. -/
theorem notes_checkCallOf {method : MethodEntry}
    (isFine : ∀ dispatch, reach.Suits setting method.isStatic → types.length = method.arity →
      reach.Selects method dispatch → onCall site.id ⟨method.id, dispatch⟩) :
    Notes onCall onField (checkCallOf setting site owner reach method types) := by
  unfold checkCallOf
  refine notes_reportAny_bind ((notes_reportAny _ _).bind fun _ => ?_)
  cases dispatched : reach.dispatch? method with
  | none =>
    dsimp only
    split
    · exact (notes_checkArguments _ _ _ _).bind fun _ => notes_reject _ _
    · exact (notes_report _ _).bind fun _ => notes_reject _ _
  | some dispatch =>
    dsimp only
    split
    next sameCount =>
      refine (notes_checkArguments _ _ _ _).bind fun _ =>
        (notes_recordCall fun noFault => ?_).bind fun _ => .pure _
      have suits := Reach.methodFault?_eq_none.mp (Option.map_eq_none_iff.mp noFault)
      exact isFine dispatch suits sameCount (Reach.dispatch?_eq_some.mp dispatched)
    · exact notes_report_bind ((notes_recordCall trivial).bind fun _ => .pure _)

theorem notes_checkCall
    (isFine : ∀ owner reach id method dispatch, setting.LooksIn receiver owner reach →
      setting.registry.findMethod? owner name = some id →
      setting.registry.methodEntry? id = some method → reach.Suits setting method.isStatic →
      types.length = method.arity → reach.Selects method dispatch →
      onCall site.id ⟨method.id, dispatch⟩) :
    Notes onCall onField (checkCall setting site receiver name types) := by
  unfold checkCall
  split
  · exact notes_reject _ _
  next owner reach reached =>
    split
    · exact notes_reject _ _
    next method found =>
      rcases Setting.methodIn_eq_ok.mp found with ⟨id, named, entry⟩
      exact notes_checkCallOf fun dispatch =>
        isFine owner reach id method dispatch (Setting.reached_eq_ok.mp reached) named entry

/-! ## What expressions stand for -/

/-- What an expression is found to stand for is a value, unless it is `super` or the name of a
class. -/
def Stands (bindings : Bindings) (expr : Expr) (found : Option Meaning) : Prop :=
  ∀ meaning ∈ found, (∀ type, meaning ≠ .value type) → bindings.IsScope expr

/-- A check finds a value, if anything. -/
def FindsValue (check : Checking (Option Meaning)) : Prop :=
  ∀ before, ∀ meaning ∈ (check.run before).1, ∃ type, meaning = .value type

theorem findsValue_reject (position : Position) (cause : Cause) :
    FindsValue (reject position cause) := by
  rintro _ _ ⟨⟩

theorem findsValue_none : FindsValue (pure none) := by
  rintro _ _ ⟨⟩

theorem findsValue_value (type : DataType) : FindsValue (pure (some (.value type))) := by
  rintro _ _ ⟨⟩
  exact ⟨type, rfl⟩

theorem FindsValue.after {check : Checking Result} {next : Result → Checking (Option Meaning)}
    (finds : ∀ result, FindsValue (next result)) : FindsValue (check >>= next) :=
  fun _ => finds _ _

theorem findsValue_resultOr (position : Position) (type : Option DataType)
    (operator requirement : String) : FindsValue (resultOr position type operator requirement) := by
  cases type with
  | none => exact findsValue_reject _ _
  | some type => exact findsValue_value type

theorem findsValue_checkCall (site : Site ExprId) (receiver : Option Meaning) (name : String)
    (types : List (Expr × Option DataType)) :
    FindsValue (checkCall setting site receiver name types) := by
  unfold checkCall
  split
  · exact findsValue_reject _ _
  · split
    · exact findsValue_reject _ _
    · unfold checkCallOf
      refine .after fun _ => .after fun _ => ?_
      dsimp only
      split <;> refine .after fun _ => ?_
      all_goals
        split
        · exact .after fun _ => findsValue_value _
        · exact findsValue_reject _ _

theorem findsValue_checkFieldAccess (site : Site ExprId) (receiver : Option Meaning)
    (name : String) : FindsValue (checkFieldAccess setting site receiver name) := by
  unfold checkFieldAccess
  split
  · exact findsValue_none
  · split
    · exact findsValue_reject _ _
    · split
      · exact findsValue_reject _ _
      · exact .after fun _ => .after fun _ => .after fun _ => findsValue_value _

theorem findsValue_checkStep (position : Position) (operator : StepOperator) (target : Expr)
    (meaning : Option Meaning) :
    FindsValue (checkStep setting position operator target meaning) := by
  unfold checkStep
  split
  · refine .after fun type => ?_
    cases type with
    | none => exact findsValue_none
    | some type => exact findsValue_resultOr _ _ _ _
  · exact findsValue_reject _ _

theorem findsValue_conclude {check : Checking (Option Meaning)} (finds : FindsValue check) :
    FindsValue (conclude site check) :=
  fun before => finds before

theorem stands_of_findsValue {check : Checking (Option Meaning)} (finds : FindsValue check)
    (before : Findings) : Stands bindings expr (check.run before).1 := by
  intro meaning isFound notValue
  rcases finds before meaning isFound with ⟨type, isValue⟩
  exact absurd isValue (notValue type)

theorem stands_checkExpr (expr : Expr) (before : Findings) :
    Stands setting.bindings expr ((checkExpr setting expr).run before).1 := by
  cases expr with
  | literal site value =>
    exact stands_of_findsValue (findsValue_conclude (findsValue_value _)) before
  | this site => exact stands_of_findsValue (findsValue_conclude (findsValue_value _)) before
  | super site => exact fun _ _ _ => .super
  | identifier site name =>
    intro meaning isFound notValue
    replace isFound : meaning ∈ ((checkIdentifier setting site name).run before).1 := isFound
    unfold checkIdentifier at isFound
    split at isFound
    · cases isFound
    · rcases Option.map_eq_some_iff.mp isFound with ⟨entry, _, rfl⟩
      exact absurd rfl (notValue _)
    · split at isFound
      · unfold checkBareField at isFound
        split at isFound
        · cases isFound
        · cases isFound
          exact absurd rfl (notValue _)
      · cases isFound
    · cases isFound
    next id bound => exact .ofClass bound
  | new site name =>
    refine stands_of_findsValue (findsValue_conclude ?_) before
    intro _ meaning isFound
    replace isFound : newMeaning setting site.id = some meaning := isFound
    unfold newMeaning at isFound
    split at isFound <;> cases isFound
    exact ⟨_, rfl⟩
  | unary site operator operand =>
    refine stands_of_findsValue (.after fun meaning =>
      findsValue_conclude (.after fun type => ?_)) before
    cases type with
    | none => exact findsValue_none
    | some type => exact findsValue_resultOr _ _ _ _
  | binary site operator left right =>
    refine stands_of_findsValue (.after fun _ => .after fun _ => findsValue_conclude
      (.after fun leftType => .after fun rightType => ?_)) before
    unfold checkBinary
    split
    · exact findsValue_resultOr _ _ _ _
    · exact findsValue_none
  | call site receiver name arguments =>
    cases receiver with
    | none =>
      refine stands_of_findsValue (.after fun _ => findsValue_conclude (.after fun _ => ?_)) before
      exact findsValue_checkCall _ _ _ _
    | some receiver =>
      refine stands_of_findsValue (.after fun _ => .after fun _ =>
        findsValue_conclude (.after fun _ => ?_)) before
      split
      · exact findsValue_none
      · exact findsValue_checkCall _ _ _ _
  | fieldAccess site receiver name =>
    exact stands_of_findsValue (.after fun _ =>
      findsValue_conclude (findsValue_checkFieldAccess _ _ _)) before
  | step site operator yieldsNew target =>
    exact stands_of_findsValue (.after fun _ =>
      findsValue_conclude (findsValue_checkStep _ _ _ _)) before

/-! ## Expressions -/

/-- A target is on offer for a call among some nodes. What stands in front of the dot is a value if
the target is found in its vtable, and else it is not. -/
def IsOffered (registry : Registry) (bindings : Bindings) (nodes : List Expr) (id : ExprId)
    (target : CallTarget) : Prop :=
  ∃ site receiver name arguments owner method,
    .call site receiver name arguments ∈ nodes ∧ site.id = id ∧
    registry.Offers name arguments.length target owner method ∧
    ∀ inner ∈ receiver, (∀ slot, target.dispatch ≠ .virtual slot) → bindings.IsScope inner

/-- A field is that of a name among some nodes. A static field is not reached through a value. -/
def IsNamed (registry : Registry) (bindings : Bindings) (nodes : List Expr) (id : ExprId)
    (field : FieldId) : Prop :=
  ∃ node ∈ nodes, node.id = id ∧ ∀ site receiver name, node = .fieldAccess site receiver name →
    ∃ place entry, registry.fieldEntry? place = some entry ∧ entry.id = field ∧
      (entry.isStatic = true → bindings.IsScope receiver)

/-- What a check writes down without complaints fits the nodes that it is about. -/
def NotesAmong (registry : Registry) (bindings : Bindings) (nodes : List Expr)
    (check : Checking Result) : Prop :=
  Notes (IsOffered registry bindings nodes) (IsNamed registry bindings nodes) check

variable {nodes : List Expr}

/-- A member is static only if it is reached through a class. -/
theorem isScope_of_suits {meaning : Meaning} {isStatic : Bool}
    (stands : Stands setting.bindings expr (some meaning))
    (looksIn : setting.LooksIn (some meaning) owner reach) (suits : reach.Suits setting isStatic)
    (notOnObject : isStatic = true ∨ reach = .throughSuper) : setting.bindings.IsScope expr := by
  refine stands meaning rfl fun type isValue => ?_
  subst isValue
  cases looksIn with
  | throughObject =>
    rcases notOnObject with isStatic | isSuper
    · cases isStatic.symm.trans suits
    · cases isSuper

theorem length_asValues (meanings : List (Expr × Option Meaning)) (before : Findings) :
    ((asValues setting meanings).run before).1.length = meanings.length := by
  induction meanings generalizing before with
  | nil => rfl
  | cons pair rest ih => exact congrArg Nat.succ (ih _)

theorem length_checkExprs (exprs : List Expr) (before : Findings) :
    ((checkExprs setting exprs).run before).1.length = exprs.length := by
  induction exprs generalizing before with
  | nil => rfl
  | cons expr rest ih => exact congrArg Nat.succ (ih _)

theorem notes_checkExprs {exprs : List Expr}
    (each : ∀ expr ∈ exprs, Notes onCall onField (checkExpr setting expr)) :
    Notes onCall onField (checkExprs setting exprs) := by
  induction exprs with
  | nil => exact .pure []
  | cons expr rest ih =>
    exact (each expr List.mem_cons_self).bind fun _ =>
      (ih fun other isOther => each other (List.mem_cons_of_mem _ isOther)).bind fun _ => .pure _

/-- The arguments of a call are all passed on to its check. -/
theorem notes_callTyping {receiver : Option Expr} {arguments : List Expr}
    (isNode : .call site receiver name arguments ∈ nodes) {meanings : List (Option Meaning)}
    (sameLength : meanings.length = arguments.length) {meaning : Option Meaning}
    (stands : ∀ inner ∈ receiver, meaning.isSome ∧ Stands setting.bindings inner meaning) :
    NotesAmong setting.registry setting.bindings nodes (do
      let types ← asValues setting (arguments.zip meanings)
      checkCall setting site meaning name (arguments.zip types)) := by
  refine (notes_asValues _).bind_of (fun types => types.length = (arguments.zip meanings).length)
    (length_asValues _) fun types counted => notes_checkCall ?_
  intro owner reach id method dispatch looksIn named entry suits sameCount selects
  refine ⟨site, receiver, name, arguments, owner, method, isNode, rfl,
    ⟨id, reach, named, entry, rfl, ?_, selects⟩, ?_⟩
  · simp only [List.length_zip] at counted sameCount
    omega
  · intro inner isReceiver notVirtual
    rcases stands inner isReceiver with ⟨isThere, stands⟩
    rcases Option.isSome_iff_exists.mp isThere with ⟨found, rfl⟩
    cases selects with
    | static isStatic => exact isScope_of_suits stands looksIn suits (.inl isStatic)
    | super _ viaSuper => exact isScope_of_suits stands looksIn suits (.inr viaSuper)
    | virtual => exact absurd rfl (notVirtual _)

theorem notes_checkExpr (isPart : expr.nodes ⊆ nodes) :
    NotesAmong setting.registry setting.bindings nodes (checkExpr setting expr) := by
  induction expr with
  | literal | this | super | new => exact notes_conclude (.pure _)
  | identifier site name =>
    refine notes_conclude (notes_checkIdentifier (fun field => ?_) name)
    exact ⟨_, isPart (Expr.self_mem_nodes _), rfl, fun _ _ _ isAccess => by cases isAccess⟩
  | unary site operator operand ih =>
    refine (ih (Expr.nodes_subset_of_child isPart)).bind fun meaning => notes_conclude ?_
    exact (notes_asValue _ _).bind fun _ => notes_checkUnary _ _ _
  | binary site operator left right leftIh rightIh =>
    refine (leftIh (Expr.nodes_subset_of_child isPart)).bind fun leftMeaning => ?_
    refine (rightIh (Expr.nodes_subset_of_child isPart)).bind fun rightMeaning =>
      notes_conclude ?_
    exact (notes_asValue _ _).bind fun _ => (notes_asValue _ _).bind fun _ =>
      notes_checkBinary _ _ _ _
  | call site receiver name arguments receiverIh argumentsIh =>
    have isNode := isPart (Expr.self_mem_nodes _)
    have each := notes_checkExprs fun argument isArgument =>
      argumentsIh argument isArgument
        (Expr.nodes_subset_of_child isPart (by simp [Expr.children, isArgument]))
    have calling {next : List (Option Meaning) → Checking (Option Meaning)}
        (late : ∀ meanings, meanings.length = arguments.length →
          NotesAmong setting.registry setting.bindings nodes (next meanings)) :
        NotesAmong setting.registry setting.bindings nodes
            (checkExprs setting arguments >>= next) :=
      each.bind_of (fun meanings => meanings.length = arguments.length)
        (length_checkExprs arguments) late
    cases receiver with
    | none =>
      refine calling fun meanings counted => notes_conclude ?_
      exact notes_callTyping isNode counted (by simp)
    | some receiver =>
      refine (receiverIh receiver rfl (Expr.nodes_subset_of_child isPart)).bind_of
        (Stands setting.bindings receiver) (stands_checkExpr receiver)
        fun receiverMeaning stands => ?_
      refine calling fun meanings counted => notes_conclude ?_
      cases receiverMeaning with
      | none => exact (notes_asValues _).bind fun _ => .pure none
      | some meaning =>
        refine notes_callTyping isNode counted fun inner isReceiver => ⟨rfl, ?_⟩
        obtain rfl := Option.some.inj isReceiver
        exact stands
  | fieldAccess site receiver name ih =>
    refine (ih (Expr.nodes_subset_of_child isPart)).bind_of
      (Stands setting.bindings receiver) (stands_checkExpr receiver) fun found stands =>
        notes_conclude ?_
    refine notes_checkFieldAccess name
      fun meaning isFound owner reach id field looksIn entry suits => ?_
    obtain rfl := Option.mem_def.mp isFound
    refine ⟨_, isPart (Expr.self_mem_nodes _), rfl, ?_⟩
    rintro _ _ _ ⟨⟩
    exact ⟨id, field, entry, rfl, fun isStatic =>
      isScope_of_suits stands looksIn suits (.inl isStatic)⟩
  | step site operator yieldsNew target ih =>
    refine (ih (Expr.nodes_subset_of_child isPart)).bind fun meaning => notes_conclude ?_
    exact notes_checkStep _ _ _ _

theorem notes_checkValue (isPart : expr.nodes ⊆ nodes) :
    NotesAmong setting.registry setting.bindings nodes (checkValue setting expr) :=
  (notes_checkExpr isPart).bind fun _ => notes_asValue _ _

/-! ## Statements -/

theorem notes_checkCondition (construct : String) {condition : Expr}
    (isPart : condition.nodes ⊆ nodes) :
    NotesAmong setting.registry setting.bindings nodes
      (checkCondition setting construct condition) := by
  refine (notes_checkValue isPart).bind fun type => ?_
  cases type with
  | none => exact .pure ()
  | some type =>
    dsimp only
    split
    · exact .pure ()
    · exact notes_report _ _

theorem notes_checkReturn (position : Position) {value : Option Expr}
    (isPart : Expr.nodesOption value ⊆ nodes) :
    NotesAmong setting.registry setting.bindings nodes (checkReturn setting position value) := by
  unfold checkReturn
  cases value with
  | none =>
    dsimp only
    split
    · exact .pure ()
    · exact notes_report _ _
  | some value =>
    dsimp only
    split
    · exact (notes_checkExpr isPart).bind fun _ => notes_report _ _
    · refine (notes_checkValue isPart).bind fun type => ?_
      cases type with
      | none => exact .pure ()
      | some type =>
        dsimp only
        split
        · exact .pure ()
        · exact notes_report _ _

theorem notes_checkAssign {target : Expr} (targetIsPart : target.nodes ⊆ nodes)
    (valueIsPart : value.nodes ⊆ nodes) :
    NotesAmong setting.registry setting.bindings nodes (checkAssign setting target value) := by
  unfold checkAssign
  split
  · refine (notes_checkExpr targetIsPart).bind fun meaning =>
      (notes_checkValue valueIsPart).bind fun type => ?_
    split
    · split
      · exact .pure ()
      · exact notes_report _ _
    · exact .pure ()
  · exact (notes_report _ _).bind fun _ => (notes_checkExpr valueIsPart).bind fun _ => .pure ()

theorem notes_checkEvaluate (isPart : expr.nodes ⊆ nodes) :
    NotesAmong setting.registry setting.bindings nodes (checkEvaluate setting expr) := by
  refine (notes_checkExpr isPart).bind fun meaning => ?_
  split
  · exact .pure ()
  · exact (notes_asValue _ _).bind fun _ => .pure ()

theorem notes_checkPrint (isPart : value.nodes ⊆ nodes) :
    NotesAmong setting.registry setting.bindings nodes (checkPrint setting value) := by
  refine (notes_checkValue isPart).bind fun type => ?_
  cases type with
  | none => exact .pure ()
  | some type =>
    dsimp only
    split
    · exact .pure ()
    · exact notes_report _ _

theorem notes_checkLoopExit (inLoop : Bool) (position : Position) (keyword : String) :
    Notes onCall onField (checkLoopExit inLoop position keyword) := by
  unfold checkLoopExit
  split
  · exact .pure ()
  · exact notes_report _ _

/-- A part of a statement that need not be there. -/
theorem notes_part {Part : Type} {part : Option Part} {check : Part → Checking Unit}
    (each : ∀ given ∈ part, Notes onCall onField (check given)) :
    Notes onCall onField (part.elim (pure ()) check) := by
  cases part with
  | none => exact .pure ()
  | some given => exact each given rfl

theorem notes_checkStmts {statements : List Stmt} {inLoop : Bool}
    (each : ∀ stmt ∈ statements, Notes onCall onField (checkStmt setting inLoop stmt)) :
    Notes onCall onField (checkStmts setting inLoop statements) := by
  induction statements with
  | nil => exact .pure ()
  | cons stmt rest ih =>
    exact (each stmt List.mem_cons_self).bind fun _ => ih fun other isOther =>
      each other (List.mem_cons_of_mem _ isOther)

theorem notes_checkStmt {stmt : Stmt} (isPart : stmt.exprNodes ⊆ nodes) (inLoop : Bool) :
    NotesAmong setting.registry setting.bindings nodes (checkStmt setting inLoop stmt) := by
  induction stmt generalizing inLoop with
  | block site statements ih =>
    exact notes_checkStmts fun stmt isStmt =>
      ih stmt isStmt (Stmt.exprNodes_subset_of_child isPart isStmt) inLoop
  | ifElse site condition thenBranch elseBranch thenIh elseIh =>
    rw [checkStmt_ifElse]
    refine (notes_checkCondition "if" (Stmt.nodes_subset_of_expr isPart)).bind fun _ => ?_
    refine (thenIh (Stmt.exprNodes_subset_of_child isPart) inLoop).bind fun _ => ?_
    refine notes_part fun stmt isElse =>
      elseIh stmt isElse (Stmt.exprNodes_subset_of_child isPart ?_) inLoop
    obtain rfl := Option.mem_def.mp isElse
    simp [Stmt.children]
  | whileLoop site condition body ih =>
    refine (notes_checkCondition "while" (Stmt.nodes_subset_of_expr isPart)).bind fun _ => ?_
    exact ih (Stmt.exprNodes_subset_of_child isPart) true
  | forLoop site init condition update body initIh updateIh bodyIh =>
    rw [checkStmt_forLoop]
    refine (notes_part fun expr isCondition => notes_checkCondition "for"
      (Stmt.nodes_subset_of_expr isPart (by simpa [Stmt.exprs] using isCondition))).bind fun _ => ?_
    refine (notes_part fun stmt isInit => initIh stmt isInit
      (Stmt.exprNodes_subset_of_child isPart ?_) inLoop).bind fun _ => ?_
    · simp [Stmt.children, Option.mem_def.mp isInit]
    refine (bodyIh (Stmt.exprNodes_subset_of_child isPart) true).bind fun _ => ?_
    refine notes_part fun stmt isUpdate =>
      updateIh stmt isUpdate (Stmt.exprNodes_subset_of_child isPart ?_) true
    simp [Stmt.children, Option.mem_def.mp isUpdate]
  | ret site value => exact notes_checkReturn site.position isPart
  | evaluate site expr => exact notes_checkEvaluate isPart
  | assign site target value =>
    exact notes_checkAssign (Stmt.nodes_subset_of_expr isPart)
      (Stmt.nodes_subset_of_expr isPart)
  | declare site declared => exact .pure ()
  | print site value => exact notes_checkPrint isPart
  | breakLoop site => exact notes_checkLoopExit _ _ _
  | continueLoop site => exact notes_checkLoopExit _ _ _
  | skip site => exact .pure ()

/-! ## Methods -/

theorem notes_checkMethods {bodies : List MethodBody}
    (arePart : ∀ body ∈ bodies, body.source.decl.body.exprNodes ⊆ nodes) :
    NotesAmong registry bindings nodes (checkMethods registry bindings bodies) := by
  induction bodies with
  | nil => exact .pure ()
  | cons body rest ih =>
    have restNotes := ih fun other isOther => arePart other (List.mem_cons_of_mem _ isOther)
    refine Notes.bind ?_ fun _ => restNotes
    unfold checkMethod
    split
    · exact .pure ()
    next method _ =>
      refine Notes.bind (notes_checkStmt (arePart body List.mem_cons_self) false) fun _ => ?_
      unfold checkCompletion
      split
      · exact notes_report _ _
      · exact .pure ()

end Checking

variable {exprCount : Nat} {sources : Array MethodSource} {resolution : Resolution}

/-- Every target and every field that a program without complaints has on record fits a node in one
of its methods. -/
theorem Findings.notes_ofResolution
    (silent : (ofResolution exprCount sources resolution).diagnostics = []) :
    (∀ id target, (ofResolution exprCount sources resolution).table.call? id = some target →
      Checking.IsOffered resolution.registry resolution.bindings
        ((MethodBody.inSourceOrder sources).flatMap fun body =>
          body.source.decl.body.exprNodes) id target) ∧
    ∀ id field, (ofResolution exprCount sources resolution).table.field? id = some field →
      Checking.IsNamed resolution.registry resolution.bindings
        ((MethodBody.inSourceOrder sources).flatMap fun body =>
          body.source.decl.body.exprNodes) id field := by
  have notes : Checking.NotesAmong resolution.registry resolution.bindings
      ((MethodBody.inSourceOrder sources).flatMap fun body => body.source.decl.body.exprNodes)
      (Checking.checkMethods resolution.registry resolution.bindings
        (MethodBody.inSourceOrder sources)) :=
    Checking.notes_checkMethods fun body isBody node isNode =>
      List.mem_flatMap.mpr ⟨body, isBody, isNode⟩
  refine ((notes { table := .ofSize exprCount }).2 silent).imp ?_ ?_
  · refine fun calls id target isNoted => (calls id target isNoted).resolve_left fun wasThere => ?_
    simp [TypeTable.call?, TypeTable.ofSize] at wasThere
  · refine fun fields id field isNoted => (fields id field isNoted).resolve_left fun wasThere => ?_
    simp [TypeTable.field?, TypeTable.ofSize] at wasThere

/-- Every target that a program without complaints has on record is on offer for a call in one of
its methods. -/
theorem Findings.offers_of_call
    (silent : (ofResolution exprCount sources resolution).diagnostics = []) {id : ExprId}
    {target : CallTarget}
    (isNoted : (ofResolution exprCount sources resolution).table.call? id = some target) :
    ∃ site receiver name arguments owner method, .call site receiver name arguments ∈
        ((MethodBody.inSourceOrder sources).flatMap fun body => body.source.decl.body.exprNodes) ∧
          site.id = id ∧
          resolution.registry.Offers name arguments.length target owner method := by
  rcases (notes_ofResolution silent).1 id target isNoted with
    ⟨site, receiver, name, arguments, owner, method, isNode, sameId, isOffered, _⟩
  exact ⟨site, receiver, name, arguments, owner, method, isNode, sameId, isOffered⟩

end Decaf
