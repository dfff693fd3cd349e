import Decaf.Proofs.Resolution.Progress
import Decaf.Proofs.Typing.Meaning

/-!
# Soundness of expression checking

When checking an expression adds no complaint, the expression has a meaning by the rules, and the
table holds the findings that the rules ask for. Whether there are complaints or not, none of them
is internal: every instance method that can be found has a slot.
-/

namespace Decaf

/-- What type checking takes for granted about its setting. -/
structure Setting.Sound (setting : Setting) : Prop where
  closed : setting.registry.Closed
  slotted : ∀ {owner name method}, setting.methodIn owner name = .ok method →
    method.isStatic = false →
    ∃ slot, method.slot = some slot

namespace Checking

variable {setting : Setting} {count : Nat} {own : List ExprId}
variable {name : String} {owner : ClassId} {cause : Cause} {site : Site ExprId}
  {method : MethodEntry} {receiver : Option Meaning} {exprs nodes : List Expr}

theorem ordinary_of_privacyFault? {role : String} {visibility : Visibility}
    (faultEq : setting.privacyFault? role name owner visibility = some cause) :
    cause.category ≠ .internal := by
  unfold Setting.privacyFault? at faultEq
  split at faultEq <;> cases faultEq
  simp [Cause.category]

theorem ordinary_of_staticContext {fault : Option String}
    (faultEq : fault.map Cause.staticContext = some cause) : cause.category ≠ .internal := by
  rcases Option.map_eq_some_iff.mp faultEq with ⟨_, _, rfl⟩
  simp [Cause.category]

/-! ## Values -/

theorem ensures_asValue (setting : Setting) (expr : Expr) (meaning : Option Meaning) :
    Ensures count [] (asValue setting expr meaning) fun result _ => ∀ found, meaning = some found →
      ∃ type, found = .value type ∧ type ≠ .void ∧ result = some type := by
  unfold asValue
  split
  · exact (ensures_pure none).mono (by simp) (by simp)
  next type =>
    split
    · exact (ensures_reject _ (by simp [Cause.category])).mono (by simp) (by simp)
    next isValue =>
      refine (ensures_pure (some type)).mono (by simp) ?_
      rintro _ _ rfl _ ⟨⟩
      exact ⟨type, rfl, isValue, rfl⟩
  · exact (ensures_reject _ (by simp [Cause.category])).mono (by simp) (by simp)
  · exact (ensures_reject _ (by simp [Cause.category])).mono (by simp) (by simp)

theorem ensures_asValues (setting : Setting) (exprs : List Expr)
    (meanings : List (Option Meaning)) :
    Ensures count [] (asValues setting (exprs.zip meanings)) fun results _ =>
      ∀ founds : List Meaning,
      meanings = founds.map some → founds.length = exprs.length → ∃ types : List DataType,
        founds = types.map Meaning.value ∧ (∀ type ∈ types, type ≠ .void) ∧
          results = types.map some := by
  induction exprs generalizing meanings with
  | nil =>
    refine (ensures_pure []).mono (by simp) ?_
    rintro _ _ rfl founds - noFounds
    exact ⟨[], List.length_eq_zero_iff.mp noFounds, by simp, rfl⟩
  | cons expr exprs ih =>
    cases meanings with
    | nil => exact (ensures_pure []).mono (by simp) (by simp)
    | cons meaning meanings =>
      refine (ensures_asValue setting expr meaning).bind fun type => ?_
      refine (ih meanings).bind fun types => ?_
      refine (ensures_pure (type :: types)).mono (by simp) ?_
      rintro _ _ rfl _ restHolds - _ firstHolds - founds foundsEq lengthEq
      cases founds with
      | nil => simp at foundsEq
      | cons found founds =>
        simp only [List.map_cons, List.cons.injEq] at foundsEq
        simp only [List.length_cons, Nat.add_right_cancel_iff] at lengthEq
        rcases firstHolds found foundsEq.1 with ⟨firstType, rfl, isValue, rfl⟩
        rcases restHolds founds foundsEq.2 lengthEq with ⟨restTypes, rfl, areValues, rfl⟩
        exact ⟨firstType :: restTypes, rfl, by simpa using ⟨isValue, areValues⟩, rfl⟩

/-! ## Names -/

/-- What has to hold in a table so that an identifier has a meaning, apart from its type. -/
theorem ensures_checkIdentifier
    (settled : Resolution.Settles setting.registry setting.bindings setting.method
      (.identifier site name)) :
    Ensures count [site.id] (checkIdentifier setting site name) fun meaning table => ∃ found,
      meaning = some found ∧ ∀ later : TypeTable, later.field? site.id = table.field? site.id →
        (∀ type, found = .value type → later.typeOf? site.id = some type) →
          Means setting later (.identifier site name) found := by
  rcases settled with ⟨symbol, bound, known, own⟩
  unfold checkIdentifier
  rw [bound]
  cases symbol with
  | ofVariable id =>
    rcases own id rfl with ⟨entry, found, owned⟩
    refine (ensures_pure _).mono (by simp) ?_
    rintro _ table rfl
    rw [found]
    exact ⟨_, rfl, fun later _ typed => .ofVariable bound found owned (typed _ rfl)⟩
  | ofField id =>
    have found : setting.registry.fieldEntry? id = some setting.registry.fields[id.index] :=
      Array.getElem?_eq_getElem known
    generalize setting.registry.fields[id.index] = field at found
    simp only [found, checkBareField]
    split
    · exact (ensures_reject _ (by simp [Cause.category])).mono (by simp) (by simp)
    next fits =>
      refine (ensures_reportAny site.position fun _ => ordinary_of_privacyFault?).bind fun _ => ?_
      refine (ensures_recordField site.id field.id).bind fun _ => ?_
      refine (ensures_pure _).mono (by simp) ?_
      rintro _ table rfl recorded named agrees _ allowed -
      refine ⟨_, rfl, fun later sameField typed => ?_⟩
      refine .ofField bound found ?_ allowed ?_ (typed _ rfl)
      · simpa using fits
      · rw [sameField, (agrees site.id (by simp)).field, named]
  | ofMethod id => exact (ensures_reject _ (by simp [Cause.category])).mono (by simp) (by simp)
  | ofClass id =>
    refine (ensures_pure _).mono (by simp) ?_
    rintro _ table rfl
    exact ⟨_, rfl, fun later _ _ => .ofClass bound⟩

/-! ## Operators -/

theorem ensures_resultOr (position : Position) (type : Option DataType)
    (operator requirement : String) :
    Ensures count [] (resultOr position type operator requirement) fun meaning _ =>
      ∃ result, type = some result ∧ meaning = some (.value result) := by
  unfold resultOr
  split
  next result =>
    refine (ensures_pure _).mono (by simp) ?_
    rintro _ _ rfl
    exact ⟨result, rfl, rfl⟩
  · exact (ensures_reject _ (by simp [Cause.category])).mono (by simp) (by simp)

section

variable (setting) (position : Position)

theorem ensures_checkUnary (operator : UnaryOperator) (operand : Option DataType) :
    Ensures count [] (checkUnary setting position operator operand) fun meaning _ => ∀ type,
      operand = some type → ∃ result, operator.resultType? type = some result ∧
        meaning = some (.value result) := by
  unfold checkUnary
  split
  · exact (ensures_pure _).mono (by simp) (by simp)
  next type =>
    refine (ensures_resultOr _ _ _ _).mono (by simp) ?_
    rintro _ _ holds _ ⟨⟩
    exact holds

theorem ensures_checkBinary (operator : BinaryOperator) (left right : Option DataType) :
    Ensures count [] (checkBinary setting position operator left right) fun meaning _ =>
      ∀ leftType rightType, left = some leftType → right = some rightType → ∃ result,
        operator.resultType? setting.registry leftType rightType = some result ∧
          meaning = some (.value result) := by
  unfold checkBinary
  split
  next leftType rightType =>
    refine (ensures_resultOr _ _ _ _).mono (by simp) ?_
    rintro _ _ holds _ _ ⟨⟩ ⟨⟩
    exact holds
  next incomplete =>
    refine (ensures_pure _).mono (by simp) ?_
    rintro _ _ - leftType rightType rfl rfl
    exact (incomplete leftType rightType rfl rfl).elim

theorem ensures_unaryTyping (operator : UnaryOperator) (operand : Expr) (meaning : Option Meaning) :
    Ensures count [] (do checkUnary setting position operator (← asValue setting operand meaning))
      fun last _ =>
        ∀ found, meaning = some found → ∃ type result, found = .value type ∧ type ≠ .void ∧
          operator.resultType? type = some result ∧ last = some (.value result) := by
  refine (ensures_asValue setting operand meaning).bind fun value => ?_
  refine (ensures_checkUnary setting position operator value).mono (by simp) ?_
  rintro _ _ checked - isValue - found foundEq
  rcases isValue found foundEq with ⟨type, rfl, notVoid, valueEq⟩
  rcases checked type valueEq with ⟨result, fits, lastEq⟩
  exact ⟨type, result, rfl, notVoid, fits, lastEq⟩

theorem ensures_binaryTyping (operator : BinaryOperator) (left right : Expr)
    (leftMeaning rightMeaning : Option Meaning) :
    Ensures count [] (do
        let leftType ← asValue setting left leftMeaning
        let rightType ← asValue setting right rightMeaning
        checkBinary setting position operator leftType rightType) fun last _ =>
      ∀ leftFound rightFound, leftMeaning = some leftFound → rightMeaning = some rightFound →
        ∃ leftType rightType result, leftFound = .value leftType ∧ rightFound = .value rightType ∧
          leftType ≠ .void ∧ rightType ≠ .void ∧
          operator.resultType? setting.registry leftType rightType = some result ∧
          last = some (.value result) := by
  refine (ensures_asValue setting left leftMeaning).bind fun leftValue => ?_
  refine (ensures_asValue setting right rightMeaning).bind fun rightValue => ?_
  refine (ensures_checkBinary setting position operator leftValue rightValue).mono (by simp) ?_
  rintro _ _ checked - rightIsValue - - leftIsValue - leftFound rightFound leftEq rightEq
  rcases leftIsValue leftFound leftEq with ⟨leftType, rfl, leftNotVoid, leftValueEq⟩
  rcases rightIsValue rightFound rightEq with ⟨rightType, rfl, rightNotVoid, rightValueEq⟩
  rcases checked leftType rightType leftValueEq rightValueEq with ⟨result, fits, lastEq⟩
  exact ⟨leftType, rightType, result, rfl, rfl, leftNotVoid, rightNotVoid, fits, lastEq⟩

theorem ensures_checkStep (operator : StepOperator) (target : Expr) (meaning : Option Meaning) :
    Ensures count [] (checkStep setting position operator target meaning) fun result _ => ∀ found,
      meaning = some found → isAssignable setting target = true ∧ ∃ type, found = .value type ∧
        type.isNumeric = true ∧ result = some (.value type) := by
  unfold checkStep
  split
  next assignable =>
    refine (ensures_asValue setting target meaning).bind fun value => ?_
    cases value with
    | none =>
      refine (ensures_pure _).mono (by simp) ?_
      rintro _ _ - _ holds - found isFound
      rcases holds found isFound with ⟨type, _, _, noType⟩
      cases noType
    | some type =>
      refine (ensures_resultOr _ _ _ _).mono (by simp) ?_
      rintro _ _ ⟨result, numeric, rfl⟩ _ holds - found isFound
      rcases holds found isFound with ⟨_, rfl, _, typeEq⟩
      cases typeEq
      simp only [Option.ite_none_right_eq_some, Option.some.injEq] at numeric
      rcases numeric with ⟨numeric, rfl⟩
      exact ⟨assignable, type, rfl, numeric, rfl⟩
  · exact (ensures_reject _ (by simp [Cause.category])).mono (by simp) (by simp)

end

/-! ## Members -/

theorem ensures_checkArguments (setting : Setting) (path : String) (number : Nat)
    (arguments : List (Expr × Option DataType)) (expected : List DataType) :
    Ensures count [] (checkArguments setting path number arguments expected) fun _ _ =>
      ∀ types : List DataType,
      arguments.map Prod.snd = types.map some → types.length = expected.length →
        List.Forall₂ (fun type expected => setting.registry.isAssignable type expected = true) types
          expected := by
  induction arguments generalizing number expected with
  | nil =>
    unfold checkArguments
    refine (ensures_pure _).mono (by simp) ?_
    rintro - - - types typesEq lengthEq
    obtain rfl : types = [] := by simpa using typesEq.symm
    obtain rfl : expected = [] := by simpa using lengthEq.symm
    exact .nil
  | cons argument arguments ih =>
    rcases argument with ⟨argument, found⟩
    cases expected with
    | nil =>
      cases found <;>
      · unfold checkArguments
        refine (ensures_pure _).mono (by simp) ?_
        rintro - - - types typesEq lengthEq
        obtain rfl : types = [] := by simpa using lengthEq
        simp at typesEq
    | cons first expected =>
      cases found with
      | none =>
        unfold checkArguments
        refine (ih (number + 1) expected).mono (by simp) ?_
        rintro - - - types typesEq -
        cases types <;> simp at typesEq
      | some found =>
        unfold checkArguments
        split
        next fits =>
          refine (ih (number + 1) expected).mono (by simp) ?_
          rintro - - holds types typesEq lengthEq
          cases types with
          | nil => simp at typesEq
          | cons type types =>
            simp only [List.map_cons, List.cons.injEq, Option.some.injEq] at typesEq
            simp only [List.length_cons, Nat.add_right_cancel_iff] at lengthEq
            exact .cons (typesEq.1 ▸ fits) (holds types typesEq.2 lengthEq)
        next =>
          refine (ensures_report _ (by simp [Cause.category])).bind fun _ => ?_
          exact (ih (number + 1) expected).mono (by simp) fun _ _ _ _ absurd => absurd.elim

theorem exists_dispatch (reach : Reach)
    (slotted : method.isStatic = false → ∃ slot, method.slot = some slot) :
    ∃ dispatch, reach.dispatch? method = some dispatch := by
  unfold Reach.dispatch?
  split
  · exact ⟨_, rfl⟩
  next notStatic =>
    split
    · exact ⟨_, rfl⟩
    next =>
      rcases slotted (by simpa using notStatic) with ⟨slot, slotEq⟩
      exact ⟨.virtual slot, by rw [slotEq]; rfl⟩

theorem ensures_checkCallOf {reach : Reach}
    (slotted : method.isStatic = false → ∃ slot, method.slot = some slot)
    (arguments : List (Expr × Option DataType)) :
    Ensures count [site.id]
      (checkCallOf setting site owner reach method arguments) fun meaning table =>
      ∀ types : List DataType, arguments.map Prod.snd = types.map some → ∃ dispatch,
        reach.methodFault? setting owner method = none ∧
        setting.privacyFault? "method" method.name method.owner method.visibility = none ∧
        List.Forall₂ (fun type expected => setting.registry.isAssignable type expected = true) types
          method.parameterTypes ∧
        reach.dispatch? method = some dispatch ∧ table.call? site.id = some ⟨method.id, dispatch⟩ ∧
          meaning = some (.value method.returnType) := by
  unfold checkCallOf
  refine (ensures_reportAny site.position fun _ => ordinary_of_staticContext).bind fun _ => ?_
  refine (ensures_reportAny site.position fun _ => ordinary_of_privacyFault?).bind fun _ => ?_
  rcases exists_dispatch reach slotted with ⟨dispatch, dispatchEq⟩
  simp only [dispatchEq]
  have last : ∀ {result : Option Meaning}, result = some (.value method.returnType) →
      Ensures count [site.id] (do recordCall site.id ⟨method.id, dispatch⟩; return result)
      fun meaning table =>
        table.call? site.id = some ⟨method.id, dispatch⟩ ∧
            meaning = some (.value method.returnType) := by
    rintro _ rfl
    refine (ensures_recordCall site.id ⟨method.id, dispatch⟩).bind fun _ => ?_
    refine (ensures_pure _).mono (by simp) ?_
    rintro _ table rfl earlier recorded agrees
    exact ⟨(agrees _ (by simp)).call.trans recorded, rfl⟩
  split
  next arity =>
    refine (ensures_checkArguments setting _ 1 arguments method.parameterTypes).bind fun _ => ?_
    refine (last rfl).mono (List.Subset.refl _) ?_
    rintro meaning table ⟨recorded, rfl⟩ _ fits - _ allowed - _ faultless - types typesEq
    have lengthEq : types.length = method.parameterTypes.length := by
      rw [← List.length_map some, ← typesEq, List.length_map]
      exact arity
    exact ⟨dispatch, by simpa using faultless, allowed, fits types typesEq lengthEq,
      rfl, recorded, rfl⟩
  next =>
    refine (ensures_report _ (by simp [Cause.category])).bind fun _ => ?_
    exact (last rfl).mono (List.Subset.refl _) fun _ _ _ _ absurd => absurd.elim

theorem ensures_checkCall (sound : setting.Sound) (arguments : List (Expr × Option DataType)) :
    Ensures count [site.id] (checkCall setting site receiver name arguments) fun meaning table =>
      ∀ types : List DataType, arguments.map Prod.snd = types.map some →
        ∃ owner reach method dispatch,
        CallFits setting receiver name types owner reach method ∧
          reach.dispatch? method = some dispatch ∧
          table.call? site.id = some ⟨method.id, dispatch⟩ ∧
          meaning = some (.value method.returnType) := by
  unfold checkCall
  cases reachedEq : setting.reached receiver name with
  | error cause =>
    refine (ensures_reject _ ?_).mono (by simp) (by simp)
    unfold Setting.reached at reachedEq
    split at reachedEq <;> cases reachedEq
    simp [Cause.category]
  | ok target =>
    rcases target with ⟨owner, reach⟩
    dsimp only
    cases foundEq : setting.methodIn owner name with
    | error cause =>
      refine (ensures_reject _ ?_).mono (by simp) (by simp)
      unfold Setting.methodIn at foundEq
      split at foundEq <;> cases foundEq
      simp [Cause.category]
    | ok method =>
      refine (ensures_checkCallOf (sound.slotted foundEq) arguments).mono (by simp) ?_
      intro meaning table holds types typesEq
      rcases holds types typesEq with
        ⟨dispatch, faultless, allowed, fits, dispatched, recorded, meaningEq⟩
      exact ⟨owner, reach, method, dispatch, ⟨reachedEq, foundEq, faultless, allowed, fits⟩,
        dispatched, recorded, meaningEq⟩

/-- The part of the check of a call that follows those of its receiver and its arguments. -/
theorem ensures_callTyping (sound : setting.Sound)
    (receiver : Option Meaning) (arguments : List Expr) (meanings : List (Option Meaning)) :
    Ensures count [site.id] (do
        let types ← asValues setting (arguments.zip meanings)
        checkCall setting site receiver name (arguments.zip types)) fun last table =>
      ∀ founds : List Meaning, meanings = founds.map some → founds.length = arguments.length →
        ∃ types : List DataType, founds = types.map Meaning.value ∧ (∀ type ∈ types, type ≠ .void) ∧
          ∃ owner reach method dispatch, CallFits setting receiver name types owner reach method ∧
            reach.dispatch? method = some dispatch ∧ table.call? site.id =
              some ⟨method.id, dispatch⟩ ∧
            last = some (.value method.returnType) := by
  refine (ensures_asValues setting arguments meanings).bind fun results => ?_
  refine (ensures_checkCall sound (arguments.zip results)).mono (List.Subset.refl _) ?_
  intro last table holds _ valued _ founds foundsEq lengthEq
  rcases valued founds foundsEq lengthEq with ⟨types, rfl, areValues, rfl⟩
  refine ⟨types, rfl, areValues, holds types ?_⟩
  rw [List.map_snd_zip]
  simpa using Nat.le_of_eq lengthEq

theorem ensures_callOnTyping (sound : setting.Sound)
    (receiverMeaning : Option Meaning) (arguments : List Expr) (meanings : List (Option Meaning)) :
    Ensures count [site.id] (do
        let types ← asValues setting (arguments.zip meanings)
        match receiverMeaning with
        | none => return none
        | some meaning =>
          checkCall setting site (some meaning) name (arguments.zip types)) fun last table =>
            ∀ received, receiverMeaning = some received → ∀ founds : List Meaning,
              meanings = founds.map some →
              founds.length = arguments.length → ∃ types : List DataType,
              founds = types.map Meaning.value ∧
                (∀ type ∈ types, type ≠ .void) ∧ ∃ owner reach method dispatch,
                  CallFits setting (some received) name types owner reach method ∧
                    reach.dispatch? method = some dispatch ∧ table.call? site.id =
                      some ⟨method.id, dispatch⟩ ∧
                    last = some (.value method.returnType) := by
  cases receiverMeaning with
  | none =>
    refine Ensures.bind (ensures_asValues setting arguments meanings) fun results => ?_
    exact (ensures_pure none).mono (List.nil_subset [site.id]) (by simp)
  | some received =>
    refine (ensures_callTyping sound (some received) arguments meanings).mono
      (List.Subset.refl _) ?_
    rintro _ _ holds _ ⟨⟩
    exact holds

theorem arguments_mean {table : TypeTable} {arguments : List Expr} {types : List DataType}
    (mean : ∀ pair ∈ arguments.zip (types.map Meaning.value), Means setting table pair.1 pair.2) :
    ∀ pair ∈ arguments.zip types, Means setting table pair.1 (.value pair.2) := by
  intro pair pairMem
  refine mean (pair.1, .value pair.2) ?_
  rw [List.zip_map_right]
  exact List.mem_map_of_mem pairMem

theorem ensures_checkFieldAccess :
    Ensures count [site.id] (checkFieldAccess setting site receiver name)
      fun meaning table => ∀ found,
      receiver = some found → ∃ owner reach field, AccessFits setting found name owner reach field ∧
        table.field? site.id = some field.id ∧ meaning = some (.value field.type) := by
  unfold checkFieldAccess
  cases receiver with
  | none => exact (ensures_pure _).mono (by simp) (by simp)
  | some receiver =>
    dsimp only
    cases reachedEq : setting.reached (some receiver) name with
    | error cause =>
      refine (ensures_reject _ ?_).mono (by simp) (by simp)
      unfold Setting.reached at reachedEq
      split at reachedEq <;> cases reachedEq
      simp [Cause.category]
    | ok target =>
      rcases target with ⟨owner, reach⟩
      dsimp only
      cases foundEq : setting.fieldIn owner name with
      | error cause =>
        refine (ensures_reject _ ?_).mono (by simp) (by simp)
        unfold Setting.fieldIn at foundEq
        split at foundEq <;> cases foundEq
        simp [Cause.category]
      | ok field =>
        dsimp only [checkAccessTo]
        refine (ensures_reportAny site.position fun _ => ordinary_of_staticContext).bind fun _ => ?_
        refine (ensures_reportAny site.position fun _ => ordinary_of_privacyFault?).bind fun _ => ?_
        refine (ensures_recordField site.id field.id).bind fun _ => ?_
        refine (ensures_pure _).mono (by simp) ?_
        rintro _ table rfl _ recorded agrees _ allowed - _ faultless - _ ⟨⟩
        exact ⟨owner, reach, field, ⟨reachedEq, foundEq, by simpa using faultless, allowed⟩,
          (agrees _ (by simp)).field.trans recorded, rfl⟩

/-! ## Expressions -/

theorem ensures_checkExprs
    (each : ∀ expr ∈ exprs, Ensures count (expr.nodes.map Expr.id) (checkExpr setting expr)
      fun meaning table => ∃ found, meaning = some found ∧ Means setting table expr found)
    (nodup : ((Expr.nodesAll exprs).map Expr.id).Nodup) :
    Ensures count ((Expr.nodesAll exprs).map Expr.id) (checkExprs setting exprs)
      fun meanings table =>
        ∃ founds : List Meaning, meanings = founds.map some ∧ founds.length = exprs.length ∧
          ∀ pair ∈ exprs.zip founds, Means setting table pair.1 pair.2 := by
  induction exprs with
  | nil =>
    refine (ensures_pure _).mono (by simp) ?_
    rintro _ _ rfl
    exact ⟨[], rfl, rfl, by simp⟩
  | cons expr exprs ih =>
    rw [Expr.nodesAll] at nodup ⊢
    rw [List.map_append]
    refine (each expr (by simp)).bind fun first => ?_
    have restNodup := (List.nodup_append.mp (List.map_append ▸ nodup)).2.1
    rw [← List.append_nil (List.map Expr.id (Expr.nodesAll exprs))]
    refine (ih (fun other isOther => each other (by simp [isOther])) restNodup).bind fun rest => ?_
    refine (ensures_pure _).mono (by simp) ?_
    rintro _ table rfl earlier ⟨founds, rfl, lengthEq, restMean⟩ agrees start
      ⟨found, rfl, means⟩ startAgrees
    refine ⟨found :: founds, rfl, by simp [lengthEq], ?_⟩
    intro pair pairMem
    rw [List.zip_cons_cons] at pairMem
    rcases List.mem_cons.mp pairMem with rfl | inRest
    · refine means.congr fun node nodeMem => startAgrees _ ?_
      simpa using not_mem_ids nodup nodeMem
    · exact (restMean pair inRest).congr fun node nodeMem => agrees _ (by simp)

/-- The nodes of an expression are resolved, and each has a place of its own in the table. -/
structure Checkable (setting : Setting) (count : Nat) (nodes : List Expr) : Prop where
  settled : ∀ node ∈ nodes, Resolution.Settles setting.registry setting.bindings setting.method node
  inRange : ∀ node ∈ nodes, node.id.index < count
  nodup : (nodes.map Expr.id).Nodup

theorem Checkable.part {part : List Expr} (checkable : Checkable setting count nodes)
    (sublist : part.Sublist nodes) : Checkable setting count part where
  settled node nodeMem := checkable.settled node (sublist.subset nodeMem)
  inRange node nodeMem := checkable.inRange node (sublist.subset nodeMem)
  nodup := checkable.nodup.sublist (sublist.map _)

theorem Checkable.perm {other : List Expr} (checkable : Checkable setting count nodes)
    (perm : other.Perm nodes) : Checkable setting count other where
  settled node nodeMem := checkable.settled node (perm.subset nodeMem)
  inRange node nodeMem := checkable.inRange node (perm.subset nodeMem)
  nodup := (perm.map Expr.id).nodup_iff.mpr checkable.nodup

theorem checkable_argument {expr : Expr} (exprMem : expr ∈ exprs)
    (checkable : Checkable setting count (Expr.nodesAll exprs)) :
    Checkable setting count expr.nodes := by
  induction exprs with
  | nil => simp at exprMem
  | cons first rest ih =>
    rw [Expr.nodesAll] at checkable
    rcases List.mem_cons.mp exprMem with rfl | inRest
    · exact checkable.part (List.sublist_append_left _ _)
    · exact ih inRest (checkable.part (List.sublist_append_right _ _))

theorem ensures_checkExpr (sound : setting.Sound) (expr : Expr)
    (checkable : Checkable setting count expr.nodes) :
    Ensures count (expr.nodes.map Expr.id) (checkExpr setting expr) fun meaning table => ∃ found,
      meaning = some found ∧ Means setting table expr found := by
  have here : expr.id.index < count := checkable.inRange expr expr.self_mem_nodes
  induction expr with
  | literal site value =>
    refine (ensures_conclude here (ensures_pure _)).mono (List.Subset.refl _) ?_
    rintro _ table ⟨_, rfl, -, -, -, typed⟩
    exact ⟨_, rfl, .literal (typed _ rfl)⟩
  | identifier site name =>
    have settled := checkable.settled _ (Expr.self_mem_nodes _)
    refine (ensures_conclude here (ensures_checkIdentifier settled)).mono
      (by simp [Expr.nodes, Expr.id, Expr.site]) ?_
    rintro _ table ⟨earlier, ⟨found, rfl, means⟩, -, -, sameField, typed⟩
    exact ⟨found, rfl, means table sameField fun type isType => typed type (congrArg some isType)⟩
  | this site =>
    have settled := checkable.settled _ (Expr.self_mem_nodes _)
    refine (ensures_conclude here (ensures_pure _)).mono (List.Subset.refl _) ?_
    rintro _ table ⟨_, rfl, -, -, -, typed⟩
    exact ⟨_, rfl, .this settled (typed _ rfl)⟩
  | super site =>
    rcases checkable.settled _ (Expr.self_mem_nodes _) with ⟨isInstance, parent, parentEq⟩
    refine (ensures_conclude here (ensures_pure _)).mono (List.Subset.refl _) ?_
    rintro _ table ⟨_, rfl, -⟩
    exact ⟨.asParent parent, by rw [parentEq]; rfl, .super isInstance parentEq⟩
  | new site className =>
    rcases checkable.settled _ (Expr.self_mem_nodes _) with ⟨id, bound, known⟩
    refine (ensures_conclude here (ensures_pure _)).mono (List.Subset.refl _) ?_
    have meaningEq : newMeaning setting site.id = some (.value (.object id)) := by
      simp only [newMeaning, bound]
    rintro _ table ⟨_, rfl, -, -, -, typed⟩
    exact ⟨_, meaningEq, .new bound (typed _ meaningEq)⟩
  | unary site operator operand ih =>
    have inner := checkable.part (List.sublist_append_left _ [_])
    have ids : (Expr.nodes (.unary site operator operand)).map Expr.id =
        operand.nodes.map Expr.id ++ [site.id] := by
      simp [Expr.nodes, Expr.id, Expr.site]
    rw [ids]
    refine (ih inner (inner.inRange operand operand.self_mem_nodes)).bind fun meaning => ?_
    refine (ensures_conclude here
      (ensures_unaryTyping setting site.position operator operand meaning)).mono
      (List.Subset.refl _) ?_
    rintro last table ⟨_, holds, -, -, -, typed⟩ earlier ⟨found, foundEq, means⟩ agrees
    rcases holds found foundEq with ⟨type, result, rfl, notVoid, fits, lastEq⟩
    refine ⟨_, lastEq, .unary (means.congr fun node nodeMem => agrees _ ?_)
      notVoid fits (typed _ lastEq)⟩
    exact not_mem_ids checkable.nodup nodeMem
  | binary site operator left right leftIh rightIh =>
    have both := checkable.part (List.sublist_append_left _ [_])
    have leftPart := both.part (List.sublist_append_left _ _)
    have rightPart := both.part (List.sublist_append_right _ _)
    have ids : (Expr.nodes (.binary site operator left right)).map Expr.id =
        left.nodes.map Expr.id ++ (right.nodes.map Expr.id ++ [site.id]) := by
      simp [Expr.nodes, Expr.id, Expr.site]
    rw [ids]
    refine (leftIh leftPart (leftPart.inRange left left.self_mem_nodes)).bind fun leftMeaning => ?_
    refine (rightIh rightPart (rightPart.inRange right right.self_mem_nodes)).bind
      fun rightMeaning => ?_
    refine (ensures_conclude here
      (ensures_binaryTyping setting site.position operator left right
        leftMeaning rightMeaning)).mono
      (List.Subset.refl _) ?_
    rintro last table ⟨_, holds, -, -, -, typed⟩ between ⟨rightFound,
      rightEq, rightMeans⟩ rightAgrees earlier ⟨leftFound, leftEq, leftMeans⟩ leftAgrees
    rcases holds leftFound rightFound leftEq rightEq with
      ⟨leftType, rightType, result, rfl, rfl, leftNotVoid, rightNotVoid, fits, lastEq⟩
    have distinct := checkable.nodup
    rw [ids] at distinct
    refine ⟨_, lastEq, .binary (leftMeans.congr fun node nodeMem => leftAgrees _ ?_)
      (rightMeans.congr fun node nodeMem => rightAgrees _ ?_) leftNotVoid rightNotVoid
      fits (typed _ lastEq)⟩
    · exact fun isLater => (List.nodup_append.mp distinct).2.2 _ (List.mem_map_of_mem nodeMem)
        _ isLater rfl
    · exact fun isSelf => (List.nodup_append.mp (List.nodup_append.mp distinct).2.1).2.2 _
        (List.mem_map_of_mem nodeMem) _ isSelf rfl
  | call site receiver name arguments receiverIh argumentsIh =>
    cases receiver with
    | none =>
      have inner := checkable.part (List.sublist_append_left _ [_])
      have ids : (Expr.nodes (.call site none name arguments)).map Expr.id =
          (Expr.nodesAll arguments).map Expr.id ++ [site.id] := by
        simp [Expr.nodes, Expr.id, Expr.site]
      rw [ids]
      have each : ∀ expr ∈ arguments,
          Ensures count (expr.nodes.map Expr.id) (checkExpr setting expr)
          fun meaning table => ∃ found, meaning = some found ∧ Means setting table expr found := by
        intro expr exprMem
        have part := checkable_argument exprMem inner
        exact argumentsIh expr exprMem part (part.inRange expr expr.self_mem_nodes)
      refine (ensures_checkExprs each inner.nodup).bind fun meanings => ?_
      refine (ensures_conclude here (ensures_callTyping sound none arguments meanings)).mono
        (by simp [Expr.site]) ?_
      rintro last table ⟨middle, holds, -, sameCall, -, typed⟩ earlier ⟨founds,
        foundsEq, lengthEq, mean⟩ agrees
      rcases holds founds foundsEq lengthEq with
        ⟨types, rfl, areValues, owner, reach, method, dispatch, fits, dispatched, recorded, lastEq⟩
      refine ⟨_, lastEq, .callBare (arguments_mean fun pair pairMem => ?_) (by simpa using lengthEq)
        areValues fits dispatched (sameCall.trans recorded) (typed _ lastEq)⟩
      refine (mean pair pairMem).congr fun node nodeMem => agrees _ ?_
      exact not_mem_ids checkable.nodup
        (Expr.mem_nodesAll.mpr ⟨pair.1, (List.of_mem_zip pairMem).1, nodeMem⟩)
    | some receiver =>
      have both := checkable.part (List.sublist_append_left _ [_])
      have receiverPart := both.part (List.sublist_append_left _ _)
      have argumentsPart := both.part (List.sublist_append_right _ _)
      have ids : (Expr.nodes (.call site (some receiver) name arguments)).map Expr.id =
          receiver.nodes.map Expr.id ++ ((Expr.nodesAll arguments).map Expr.id ++ [site.id]) := by
        simp [Expr.nodes, Expr.id, Expr.site]
      rw [ids]
      have each : ∀ expr ∈ arguments,
          Ensures count (expr.nodes.map Expr.id) (checkExpr setting expr)
          fun meaning table => ∃ found, meaning = some found ∧ Means setting table expr found := by
        intro expr exprMem
        have part := checkable_argument exprMem argumentsPart
        exact argumentsIh expr exprMem part (part.inRange expr expr.self_mem_nodes)
      refine (receiverIh receiver rfl receiverPart
        (receiverPart.inRange receiver receiver.self_mem_nodes)).bind fun receiverMeaning => ?_
      refine (ensures_checkExprs each argumentsPart.nodup).bind fun meanings => ?_
      refine (ensures_conclude here
        (ensures_callOnTyping sound receiverMeaning arguments meanings)).mono
        (by simp [Expr.site]) ?_
      rintro last table ⟨middle, holds, -, sameCall, -, typed⟩ between ⟨founds,
        foundsEq, lengthEq, mean⟩ agrees
        earlier ⟨received, receivedEq, receiverMeans⟩ receiverAgrees
      rcases holds received receivedEq founds foundsEq lengthEq with
        ⟨types, rfl, areValues, owner, reach, method, dispatch, fits, dispatched, recorded, lastEq⟩
      have distinct := checkable.nodup
      rw [ids] at distinct
      refine ⟨_, lastEq, .callOn (receiverMeans.congr fun node nodeMem => receiverAgrees _ ?_)
        (arguments_mean fun pair pairMem => ?_) (by simpa using lengthEq) areValues fits dispatched
        (sameCall.trans recorded) (typed _ lastEq)⟩
      · exact fun isLater => (List.nodup_append.mp distinct).2.2 _ (List.mem_map_of_mem nodeMem)
          _ isLater rfl
      · refine (mean pair pairMem).congr fun node nodeMem => agrees _ fun isSelf => ?_
        exact (List.nodup_append.mp (List.nodup_append.mp distinct).2.1).2.2 _ (List.mem_map_of_mem
          (Expr.mem_nodesAll.mpr ⟨pair.1, (List.of_mem_zip pairMem).1, nodeMem⟩)) _ isSelf rfl
  | fieldAccess site receiver name ih =>
    have inner := checkable.part (List.sublist_append_left _ [_])
    have ids : (Expr.nodes (.fieldAccess site receiver name)).map Expr.id =
        receiver.nodes.map Expr.id ++ [site.id] := by
      simp [Expr.nodes, Expr.id, Expr.site]
    rw [ids]
    refine (ih inner (inner.inRange receiver receiver.self_mem_nodes)).bind fun meaning => ?_
    refine (ensures_conclude here ensures_checkFieldAccess).mono (by simp [Expr.site]) ?_
    rintro last table ⟨_, holds, -, -, sameField, typed⟩ earlier ⟨found, foundEq, means⟩ agrees
    rcases holds found foundEq with ⟨owner, reach, field, fits, named, lastEq⟩
    refine ⟨_, lastEq, .fieldAccess (means.congr fun node nodeMem => agrees _ ?_) fits
      (sameField.trans named) (typed _ lastEq)⟩
    exact not_mem_ids checkable.nodup nodeMem
  | step site operator yieldsNew target ih =>
    have inner := checkable.part (List.sublist_append_left _ [_])
    have ids : (Expr.nodes (.step site operator yieldsNew target)).map Expr.id =
        target.nodes.map Expr.id ++ [site.id] := by
      simp [Expr.nodes, Expr.id, Expr.site]
    rw [ids]
    refine (ih inner (inner.inRange target target.self_mem_nodes)).bind fun meaning => ?_
    refine (ensures_conclude here
      (ensures_checkStep setting site.position operator target meaning)).mono
      (List.Subset.refl _) ?_
    rintro last table ⟨_, holds, -, -, -, typed⟩ earlier ⟨found, foundEq, means⟩ agrees
    rcases holds found foundEq with ⟨assignable, type, rfl, numeric, lastEq⟩
    refine ⟨_, lastEq, .step (means.congr fun node nodeMem => agrees _ ?_) assignable numeric
      (typed _ lastEq)⟩
    exact not_mem_ids checkable.nodup nodeMem

end Checking

end Decaf
