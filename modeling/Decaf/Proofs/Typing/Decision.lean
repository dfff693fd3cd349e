import Decaf.Proofs.Checked
import Decaf.Proofs.Tree.Forest
import Decaf.Proofs.Typing.Completeness

/-!
# Type checking decides the rules

Checking a resolved program raises no complaint if and only if every body follows the rules and
every method with a result returns. Then the table says about each node what the rules say, and
nothing else.
-/

namespace Decaf

variable {setting : Setting} {table : TypeTable}

/-! ## From findings to rules -/

section

variable (wellFormed : setting.registry.WellFormed) (acyclic : setting.registry.Acyclic)

include wellFormed acyclic

variable {name : String} {owner : ClassId} {reach : Reach} {expr : Expr}

theorem CallFits.calls {receiver : Option Meaning} {types : List DataType}
    {method : MethodEntry} {dispatch : Dispatch}
    (fits : CallFits setting receiver name types owner reach method)
    (dispatched : reach.dispatch? method = some dispatch) :
    setting.Calls receiver name types method dispatch := by
  rcases Setting.methodIn_eq_ok.mp fits.found with ⟨id, isFound, entryFound⟩
  refine ⟨⟨owner, reach, id, Setting.reached_eq_ok.mp fits.reached, isFound, entryFound,
    Reach.methodFault?_eq_none.mp fits.faultless, Reach.dispatch?_eq_some.mp dispatched⟩,
    Setting.privacyFault?_eq_none.mp fits.allowed, ?_⟩
  exact fits.fits.imp fun _ _ assignable =>
    (Registry.isAssignable_iff wellFormed acyclic).mp assignable

omit wellFormed acyclic in
theorem AccessFits.accesses {receiver : Meaning}
    {field : FieldEntry} (fits : AccessFits setting receiver name owner reach field) :
    setting.Accesses receiver name field := by
  rcases Setting.fieldIn_eq_ok.mp fits.found with ⟨id, isFound, entryFound⟩
  have looksIn := Setting.reached_eq_ok.mp fits.reached
  exact ⟨⟨owner, reach, id, looksIn, isFound, entryFound,
    looksIn.fieldFault?_eq_none.mp fits.faultless⟩, Setting.privacyFault?_eq_none.mp fits.allowed⟩

omit wellFormed acyclic in
theorem exists_judgements {exprs : List Expr} {types : List DataType}
    (length_eq : types.length = exprs.length)
    (each : ∀ pair ∈ exprs.zip types, ∃ judgement,
      Derives setting pair.1 judgement ∧ judgement.meaning = .value pair.2) :
    ∃ inner : List Judgement, inner.length = exprs.length ∧
      (∀ pair ∈ exprs.zip inner, Derives setting pair.1 pair.2) ∧
        inner.map Judgement.meaning = types.map Meaning.value := by
  induction exprs generalizing types with
  | nil => exact ⟨[], rfl, by simp, by simp [List.length_eq_zero_iff.mp length_eq]⟩
  | cons expr exprs ih =>
    cases types with
    | nil => simp at length_eq
    | cons type types =>
      rcases each (expr, type) (by simp) with ⟨judgement, derives, isValue⟩
      rcases @ih types (by simpa using length_eq) fun pair isPair =>
        each pair (by simp [isPair]) with ⟨inner, innerLength, innerDerive, innerValues⟩
      refine ⟨judgement :: inner, by simp [innerLength], ?_, by simp [isValue, innerValues]⟩
      intro pair isPair
      rcases List.mem_cons.mp isPair with rfl | isPair
      · exact derives
      · exact innerDerive pair isPair

theorem Means.derives {meaning : Meaning} (means : Means setting table expr meaning) :
    ∃ judgement, Derives setting expr judgement ∧ judgement.meaning = meaning := by
  induction means with
  | literal => exact ⟨_, .literal, rfl⟩
  | ofVariable bound found => exact ⟨_, .ofVariable bound found, rfl⟩
  | ofField bound found fits allowed =>
    exact ⟨_, .ofField bound found fits (Setting.privacyFault?_eq_none.mp allowed), rfl⟩
  | ofClass bound => exact ⟨_, .ofClass bound, rfl⟩
  | this isInstance => exact ⟨_, .this isInstance, rfl⟩
  | super isInstance parentEq => exact ⟨_, .super isInstance parentEq, rfl⟩
  | new bound => exact ⟨_, .new bound, rfl⟩
  | unary _ _ fits _ ih =>
    rcases ih with ⟨inner, derives, isValue⟩
    exact ⟨_, .unary derives isValue (UnaryOperator.resultType?_eq_some.mp fits), rfl⟩
  | binary _ _ _ _ fits _ leftIh rightIh =>
    rcases leftIh with ⟨leftInner, leftDerives, leftIsValue⟩
    rcases rightIh with ⟨rightInner, rightDerives, rightIsValue⟩
    exact ⟨_, .binary leftDerives rightDerives leftIsValue rightIsValue
      ((BinaryOperator.resultType?_eq_some wellFormed acyclic).mp fits), rfl⟩
  | callBare _ length_eq areValues fits dispatched _ _ ih =>
    rcases exists_judgements length_eq ih with ⟨inner, innerLength, innerDerive, innerValues⟩
    exact ⟨_, .callBare innerLength innerDerive innerValues areValues
      (fits.calls wellFormed acyclic dispatched), rfl⟩
  | callOn _ _ length_eq areValues fits dispatched _ _ receiverIh ih =>
    rcases receiverIh with ⟨outer, receiverDerives, rfl⟩
    rcases exists_judgements length_eq ih with ⟨inner, innerLength, innerDerive, innerValues⟩
    exact ⟨_, .callOn receiverDerives innerLength innerDerive innerValues areValues
      (fits.calls wellFormed acyclic dispatched), rfl⟩
  | fieldAccess _ fits _ _ ih =>
    rcases ih with ⟨outer, receiverDerives, rfl⟩
    exact ⟨_, .fieldAccess receiverDerives fits.accesses, rfl⟩
  | step _ assignable numeric _ ih =>
    rcases ih with ⟨inner, derives, isValue⟩
    exact ⟨_, .step derives (Setting.isAssignable_iff.mp assignable) isValue
      (DataType.isNumeric_iff.mp numeric), rfl⟩

theorem HasType.types {type : DataType} (hasType : HasType setting table expr type) :
    setting.Types expr type :=
  ⟨hasType.means.derives wellFormed acyclic, hasType.isValue⟩

theorem Accepted.wellTyped {inLoop : Bool} {stmt : Stmt}
    (accepted : Accepted setting table inLoop stmt) : WellTyped setting inLoop stmt := by
  induction accepted with
  | block _ ih => exact .block ih
  | ifElse conditionTyped _ _ thenIh elseIh =>
    exact .ifElse (conditionTyped.types wellFormed acyclic) thenIh elseIh
  | whileLoop conditionTyped _ ih => exact .whileLoop (conditionTyped.types wellFormed acyclic) ih
  | forLoop _ conditionTyped _ _ initIh updateIh bodyIh =>
    exact .forLoop initIh (fun expr isCondition =>
      (conditionTyped expr isCondition).types wellFormed acyclic) updateIh bodyIh
  | retNone isVoid => exact .retNone isVoid
  | retValue notVoid valueTyped fits =>
    exact .retValue notVoid (valueTyped.types wellFormed acyclic)
      ((Registry.isAssignable_iff wellFormed acyclic).mp fits)
  | evaluate means =>
    rcases means.derives wellFormed acyclic with ⟨judgement, derives, isValue⟩
    exact .evaluate derives isValue
  | assign assignable targetMeans valueTyped fits =>
    rcases targetMeans.derives wellFormed acyclic with ⟨judgement, derives, isValue⟩
    exact .assign (Setting.isAssignable_iff.mp assignable) derives isValue
      (valueTyped.types wellFormed acyclic) ((Registry.isAssignable_iff wellFormed acyclic).mp fits)
  | declare => exact .declare
  | @print inLoop site value type valueTyped printable =>
    cases type with
    | primitive kind => exact .print (valueTyped.types wellFormed acyclic)
    | object owner => simp [Checking.isPrintable] at printable
    | null => simp [Checking.isPrintable] at printable
  | breakLoop => exact .breakLoop
  | continueLoop => exact .continueLoop
  | skip => exact .skip

end

variable {receiver : Option Meaning} {reach : Reach} {method : MethodEntry} {name : String}
  {result other : DataType}

/-! ## One meaning for each expression -/

theorem Setting.LooksIn.unique {owner other : ClassId} {otherReach : Reach}
    (looksIn : setting.LooksIn receiver owner reach)
    (otherLooksIn : setting.LooksIn receiver other otherReach) :
    owner = other ∧ reach = otherReach := by
  cases looksIn <;> cases otherLooksIn <;> exact ⟨rfl, rfl⟩

theorem Reach.Selects.unique {dispatch other : Dispatch} (selects : reach.Selects method dispatch)
    (otherSelects : reach.Selects method other) : dispatch = other := by
  rw [← dispatch?_eq_some] at selects otherSelects
  exact Option.some.inj (selects.symm.trans otherSelects)

theorem Setting.Calls.unique {types otherTypes : List DataType}
    {other : MethodEntry} {dispatch otherDispatch : Dispatch}
    (calls : setting.Calls receiver name types method dispatch)
    (otherCalls : setting.Calls receiver name otherTypes other otherDispatch) :
    method = other ∧ dispatch = otherDispatch := by
  rcases calls.found with ⟨owner, reach, id, looksIn, isFound, entryFound, _, selects⟩
  rcases otherCalls.found with
    ⟨_, _, otherId, otherLooksIn, otherIsFound, otherEntryFound, _, otherSelects⟩
  rcases looksIn.unique otherLooksIn with ⟨rfl, rfl⟩
  cases isFound.symm.trans otherIsFound
  cases entryFound.symm.trans otherEntryFound
  exact ⟨rfl, selects.unique otherSelects⟩

theorem Setting.Accesses.unique {receiver : Meaning} {field other : FieldEntry}
    (accesses : setting.Accesses receiver name field)
    (otherAccesses : setting.Accesses receiver name other) : field = other := by
  rcases accesses.found with ⟨owner, reach, id, looksIn, isFound, entryFound, _⟩
  rcases otherAccesses.found with ⟨_, _, otherId, otherLooksIn, otherIsFound, otherEntryFound, _⟩
  rcases looksIn.unique otherLooksIn with ⟨rfl, rfl⟩
  cases isFound.symm.trans otherIsFound
  exact Option.some.inj (entryFound.symm.trans otherEntryFound)

theorem UnaryOperator.Takes.unique {operator : UnaryOperator} {type : DataType}
    (takes : operator.Takes type result) (otherTakes : operator.Takes type other) :
    result = other := by
  rw [← resultType?_eq_some] at takes otherTakes
  exact Option.some.inj (takes.symm.trans otherTakes)

theorem BinaryOperator.Takes.unique {registry : Registry} {operator : BinaryOperator}
    {left right : DataType} (takes : operator.Takes registry left right result)
    (otherTakes : operator.Takes registry left right other) : result = other := by
  cases takes <;> cases otherTakes <;> simp_all

/-- By the rules an expression has one meaning at most. -/
theorem Derives.unique {expr : Expr} {judgement other : Judgement}
    (derives : Derives setting expr judgement) (otherDerives : Derives setting expr other) :
    judgement = other := by
  induction derives generalizing other with
  | literal => cases otherDerives; rfl
  | ofVariable bound found =>
    cases otherDerives with
    | ofVariable otherBound otherFound =>
      cases bound.symm.trans otherBound
      cases found.symm.trans otherFound
      rfl
    | ofField otherBound => cases bound.symm.trans otherBound
    | ofClass otherBound => cases bound.symm.trans otherBound
  | ofField bound found =>
    cases otherDerives with
    | ofVariable otherBound => cases bound.symm.trans otherBound
    | ofField otherBound otherFound =>
      cases bound.symm.trans otherBound
      cases found.symm.trans otherFound
      rfl
    | ofClass otherBound => cases bound.symm.trans otherBound
  | ofClass bound =>
    cases otherDerives with
    | ofVariable otherBound => cases bound.symm.trans otherBound
    | ofField otherBound => cases bound.symm.trans otherBound
    | ofClass otherBound => cases bound.symm.trans otherBound; rfl
  | this => cases otherDerives; rfl
  | super _ parentEq =>
    cases otherDerives with
    | super _ otherParentEq => cases parentEq.symm.trans otherParentEq; rfl
  | new bound =>
    cases otherDerives with
    | new otherBound => cases bound.symm.trans otherBound; rfl
  | unary _ isValue takes ih =>
    cases otherDerives with
    | unary otherDerives otherIsValue otherTakes =>
      cases ih otherDerives
      cases isValue.symm.trans otherIsValue
      rw [takes.unique otherTakes]
  | binary _ _ leftIsValue rightIsValue takes leftIh rightIh =>
    cases otherDerives with
    | binary otherLeft otherRight otherLeftIsValue otherRightIsValue otherTakes =>
      cases leftIh otherLeft
      cases rightIh otherRight
      cases leftIsValue.symm.trans otherLeftIsValue
      cases rightIsValue.symm.trans otherRightIsValue
      rw [takes.unique otherTakes]
  | callBare _ _ _ _ calls =>
    cases otherDerives with
    | callBare _ _ _ _ otherCalls =>
      rcases calls.unique otherCalls with ⟨rfl, rfl⟩
      rfl
  | callOn _ _ _ _ _ calls receiverIh =>
    cases otherDerives with
    | callOn otherReceiver _ _ _ _ otherCalls =>
      cases receiverIh otherReceiver
      rcases calls.unique otherCalls with ⟨rfl, rfl⟩
      rfl
  | fieldAccess _ accesses ih =>
    cases otherDerives with
    | fieldAccess otherReceiver otherAccesses =>
      cases ih otherReceiver
      cases accesses.unique otherAccesses
      rfl
  | step _ _ isValue _ ih =>
    cases otherDerives with
    | step otherTarget _ otherIsValue _ =>
      cases ih otherTarget
      cases isValue.symm.trans otherIsValue
      rfl

/-! ## Methods -/

namespace Checking

/-- A method body follows the rules, and a method with a result does not reach the end of its
body. -/
structure BodyTyped (setting : Setting) (body : Stmt) : Prop where
  wellTyped : WellTyped setting false body
  returns : setting.method.returnType ≠ .void → body.canComplete = false

variable {registry : Registry} {bindings : Bindings}

theorem passes_checkMethod (wellFormed : registry.WellFormed) (acyclic : registry.Acyclic)
    {body : MethodBody} {method : MethodEntry} (found : registry.methodEntry? body.id = some method)
    (typed : BodyTyped ⟨registry, bindings, method⟩ body.source.decl.body) :
    Passes ⟨registry, bindings, method⟩ body.source.decl.body.exprNodes
      (checkMethod registry bindings body) () := by
  have completes : checkCompletion ⟨registry, bindings, method⟩ body.source.decl = pure () := by
    apply if_neg
    rintro ⟨notVoid, canComplete⟩
    rw [typed.returns notVoid] at canComplete
    cases canComplete
  rw [checkMethod, found, ← List.append_nil body.source.decl.body.exprNodes]
  dsimp only
  rw [completes]
  exact (passes_checkStmt wellFormed acyclic typed.wellTyped).bind (passes_pure ())

/-- The findings about some bodies were written down: what the rules say about each node. -/
structure BodiesRecorded (registry : Registry) (bindings : Bindings) (bodies : List MethodBody)
    (before after : TypeTable) : Prop where
  size_eq : after.types.size = before.types.size
  elsewhere : ∀ {id}, id ∉ (bodies.flatMap fun body =>
    body.source.decl.body.exprNodes).map Expr.id →
    after.AgreesAt before id
  judged : ∀ body ∈ bodies, ∀ method, registry.methodEntry? body.id = some method →
    ∀ node ∈ body.source.decl.body.exprNodes, before.Unknown node.id →
      ∃ judgement, Derives ⟨registry, bindings, method⟩ node judgement ∧
      after.Shows node.id judgement

/-- Bodies that follow the rules are checked without complaints. -/
theorem passes_checkMethods (wellFormed : registry.WellFormed) (acyclic : registry.Acyclic)
    {bodies : List MethodBody}
    (typed : ∀ body ∈ bodies, ∃ method, registry.methodEntry? body.id = some method ∧
      BodyTyped ⟨registry, bindings, method⟩ body.source.decl.body) (before : Findings)
    (inRange : ∀ body ∈ bodies, ∀ node ∈ body.source.decl.body.exprNodes,
      node.id.index < before.table.types.size)
    (nodup : ((bodies.flatMap fun body => body.source.decl.body.exprNodes).map Expr.id).Nodup) :
    ∃ after, (checkMethods registry bindings bodies).run before = ((),
      { before with table := after }) ∧
      BodiesRecorded registry bindings bodies before.table after := by
  induction bodies generalizing before with
  | nil => exact ⟨before.table, rfl, rfl, fun _ => .refl _ _, by simp⟩
  | cons body bodies ih =>
    rw [List.flatMap_cons] at nodup
    have nodups := List.nodup_append.mp (List.map_append ▸ nodup)
    rcases typed body (by simp) with ⟨method, found, bodyTyped⟩
    rcases passes_checkMethod wellFormed acyclic found bodyTyped before (inRange body (by simp))
      nodups.1 with
      ⟨between, firstRan, firstRecords⟩
    have stillInRange : ∀ other ∈ bodies, ∀ node ∈ other.source.decl.body.exprNodes,
        node.id.index < between.types.size := by
      intro other isOther node isNode
      rw [firstRecords.size_eq]
      exact inRange other (by simp [isOther]) node isNode
    rcases ih (fun other isOther => typed other (by simp [isOther]))
      { before with table := between } stillInRange nodups.2.1 with ⟨after, restRan, restRecords⟩
    refine ⟨after, ?_, restRecords.size_eq.trans firstRecords.size_eq, ?_, ?_⟩
    · rw [checkMethods, StateT.run_bind, firstRan]
      exact restRan
    · intro id elsewhere
      rw [List.flatMap_cons, List.map_append, List.mem_append, not_or] at elsewhere
      exact (restRecords.elsewhere elsewhere.2).trans (firstRecords.elsewhere elsewhere.1)
    · intro other isOther otherMethod otherFound node isNode isUnknown
      rcases List.mem_cons.mp isOther with rfl | inRest
      · cases Option.some.inj (found.symm.trans otherFound)
        rcases firstRecords.judged node isNode isUnknown with ⟨judgement, derives, isShown⟩
        exact ⟨judgement, derives, isShown.congr (restRecords.elsewhere (not_mem_ids nodup isNode))⟩
      · have swapped := (List.perm_append_comm.map Expr.id).nodup_iff.mp nodup
        have inBodies : node ∈ bodies.flatMap fun body => body.source.decl.body.exprNodes :=
          List.mem_flatMap.mpr ⟨other, inRest, isNode⟩
        exact restRecords.judged other inRest otherMethod otherFound node isNode
          (isUnknown.congr (firstRecords.elsewhere (not_mem_ids swapped inBodies)))

end Checking

/-! ## Programs -/

/-- Type checking a program whose names are resolved finds no fault if and only if the body of every
declared method follows the rules, and then it writes down just what the rules say about each
expression. -/
theorem Findings.decides_ofResolution {program : Program} {members : Members}
    {resolution : Resolution} (resolvedAs : program.ResolvedAs members resolution) :
    ((ofResolution program.exprs.size members.sources resolution).diagnostics = [] ↔
      ∀ body ∈ MethodBody.inSourceOrder members.sources, ∃ method,
        resolution.registry.methodEntry? body.id = some method ∧
          Checking.BodyTyped ⟨resolution.registry,
            resolution.bindings, method⟩ body.source.decl.body) ∧
    ((ofResolution program.exprs.size members.sources resolution).diagnostics = [] →
      ∀ body ∈ MethodBody.inSourceOrder members.sources, ∀ method,
        resolution.registry.methodEntry? body.id = some method →
          ∀ node ∈ body.source.decl.body.exprNodes,
          ∃ judgement, Derives ⟨resolution.registry, resolution.bindings, method⟩ node judgement ∧
            (ofResolution program.exprs.size members.sources resolution).table.Shows
              node.id judgement) := by
  have wellFormed := resolvedAs.wellFormed
  have acyclic := resolvedAs.acyclic
  have sound := (checked_ofResolution resolvedAs.isForest resolvedAs.bodies resolvedAs.dispatch
    resolvedAs.wellFormed_members resolvedAs.resolved resolvedAs.silent).2
  have typed : (ofResolution program.exprs.size members.sources resolution).diagnostics = [] →
      ∀ body ∈ MethodBody.inSourceOrder members.sources, ∃ method,
        resolution.registry.methodEntry? body.id = some method ∧
          Checking.BodyTyped ⟨resolution.registry, resolution.bindings, method⟩
          body.source.decl.body := by
    intro faultless body isBody
    rcases resolvedAs.exists_method isBody with ⟨method, found⟩
    have accepted := sound faultless body isBody method found
    exact ⟨method, found, accepted.accepted.wellTyped wellFormed acyclic, accepted.returns⟩
  have perm := flatMap_inSourceOrder members.sources fun source => source.decl.body.exprNodes
  have nodup := (perm.map Expr.id).nodup_iff.mpr resolvedAs.bodies.expr_ids
  have passes : (∀ body ∈ MethodBody.inSourceOrder members.sources, ∃ method,
      resolution.registry.methodEntry? body.id = some method ∧
        Checking.BodyTyped ⟨resolution.registry,
          resolution.bindings, method⟩ body.source.decl.body) →
      ∃ after, ofResolution program.exprs.size members.sources resolution =
        { table := after } ∧ Checking.BodiesRecorded resolution.registry resolution.bindings
          (MethodBody.inSourceOrder members.sources) (.ofSize program.exprs.size) after := by
    intro bodiesTyped
    have inRange : ∀ body ∈ MethodBody.inSourceOrder members.sources,
        ∀ node ∈ body.source.decl.body.exprNodes,
        node.id.index < (TypeTable.ofSize program.exprs.size).types.size := by
      intro body isBody node isNode
      have isListed : node ∈ members.sources.toList.flatMap fun source =>
          source.decl.body.exprNodes :=
        perm.mem_iff.mp (List.mem_flatMap.mpr ⟨body, isBody, isNode⟩)
      rcases List.mem_flatMap.mp isListed with ⟨source, isSource, inSource⟩
      have stands :=
        resolvedAs.isForest.expr_at (resolvedAs.bodies.expr_known source isSource inSource)
      simpa [TypeTable.ofSize] using (Array.getElem?_eq_some_iff.mp stands).1
    rcases Checking.passes_checkMethods wellFormed acyclic bodiesTyped
      { table := .ofSize program.exprs.size } inRange nodup with ⟨after, ran, recorded⟩
    exact ⟨after, congrArg Prod.snd ran, recorded⟩
  refine ⟨⟨typed, fun bodiesTyped => ?_⟩, fun faultless body isBody method found node isNode => ?_⟩
  · rcases passes bodiesTyped with ⟨after, findingsEq, -⟩
    exact congrArg Findings.diagnostics findingsEq
  · rcases passes (typed faultless) with ⟨after, findingsEq, recorded⟩
    rw [findingsEq]
    exact recorded.judged body isBody method found node isNode (TypeTable.unknown_ofSize _ _)

namespace Analysis

/-- What type checking finds out about a program is what the rules say. It finds no fault if and
only if the body of every declared method follows the rules, and then the table holds, for each
expression, the type, the target and the field of its one and only derivation. -/
theorem findings_decide {value : Json} {program : Program}
    (decoded : Program.ofJson value = .ok program) {findings : Findings}
    (checked : (ofProgram program).findings = some findings) :
    ∃ resolution, (ofProgram program).resolution = some resolution ∧
      (∀ source, source ∈ Members.allSources program.classes ↔
        ∃ body ∈ MethodBody.inSourceOrder (ofProgram program).members.sources,
          body.source = source) ∧
      (findings.diagnostics = [] ↔
        ∀ body ∈ MethodBody.inSourceOrder (ofProgram program).members.sources, ∃ method,
          resolution.registry.methodEntry? body.id = some method ∧
            Checking.BodyTyped ⟨resolution.registry, resolution.bindings, method⟩
              body.source.decl.body) ∧
      (findings.diagnostics = [] →
        ∀ body ∈ MethodBody.inSourceOrder (ofProgram program).members.sources, ∀ method,
          resolution.registry.methodEntry? body.id = some method →
            ∀ node ∈ body.source.decl.body.exprNodes, ∃ judgement,
              (∀ other, Derives ⟨resolution.registry, resolution.bindings, method⟩ node other ↔
                other = judgement) ∧ findings.table.Shows node.id judgement) := by
  rcases resolvedAs (Program.isForest_ofJson decoded) checked with
    ⟨resolution, resolutionEq, resolvedAs, rfl⟩
  have decides := Findings.decides_ofResolution resolvedAs
  refine ⟨resolution, resolutionEq, fun source => resolvedAs.exists_body, decides.1, ?_⟩
  intro faultless body isBody method found node isNode
  rcases decides.2 faultless body isBody method found node isNode with ⟨judgement, derives, isShown⟩
  refine ⟨judgement, fun other => ⟨fun otherDerives => otherDerives.unique derives, ?_⟩, isShown⟩
  rintro rfl
  exact derives

/-- `int twice(int x) { return x + x; }` -/
def doublingProgram : Json :=
  .oneClass "Main" [.method "twice" "int" [.variableOf "x" "int"]
    [.node "Return" [("value", .binary "+" (.identifier "x") (.identifier "x"))]]]

theorem findings_decide_doublingProgram : ∃ program findings, ∃ resolution : Resolution,
    Program.ofJson doublingProgram = .ok program ∧ (ofProgram program).findings = some findings ∧
      findings.diagnostics = [] ∧
      ∀ body ∈ MethodBody.inSourceOrder (ofProgram program).members.sources, ∃ method,
        resolution.registry.methodEntry? body.id = some method ∧
          Checking.BodyTyped ⟨resolution.registry, resolution.bindings, method⟩
            body.source.decl.body := by
  rcases Program.exists_of_test doublingProgram
    (fun program => ((ofProgram program).findings.map Findings.diagnostics) = some [])
    (by decide +kernel) with ⟨program, decoded, tested⟩
  rcases Option.map_eq_some_iff.mp (of_decide_eq_true tested) with ⟨findings, checked, faultless⟩
  rcases findings_decide decoded checked with ⟨resolution, -, -, decides, -⟩
  exact ⟨program, findings, resolution, decoded, checked, faultless, decides.mp faultless⟩

end Analysis

end Decaf
