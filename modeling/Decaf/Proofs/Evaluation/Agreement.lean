import Decaf.Proofs.Evaluation.Representation
import Decaf.Proofs.Typing.Rules

/-!
# Calculating what is meant

On a memory that represents the contents of the cells, the calculation that stands behind the code
of a well-typed expression comes to the word of the value that the expression means, and leaves a
memory that represents the contents then; and where the evaluation fails the calculation stops.
-/

namespace Decaf

open Generation (Calculation)

/-! ## Calculations in steps -/

namespace Generation.Calculation

variable {Result Next : Type}

/-- Nothing is left to calculate. -/
def done (result : Result) : Calculation Result := fun _ memory => some (result, memory)

/-- The later calculation goes on with the result of the first. -/
def andThen (first : Calculation Result) (later : Result → Calculation Next) : Calculation Next :=
  fun primitives memory => (first primitives memory).bind fun outcome =>
    later outcome.1 primitives outcome.2

/-- An operation on words. -/
def operate (word : Primitives → Option Word) : Calculation Word :=
  fun primitives memory => (word primitives).map fun word => (word, memory)

theorem andThen_done (first : Calculation Result) : first.andThen done = first := by
  funext primitives memory
  exact Option.bind_fun_some _

end Generation.Calculation

namespace MethodContext

variable (context : MethodContext) (target : Expr) (object : List Word)
variable {operator : BinaryOperator}

/-- Reads from the location that an expression names, once the object in front of the dot is
there. -/
def fetch : Calculation Word := fun _ memory =>
  ((context.location? object memory target).bind memory.read?).map fun word => (word, memory)

/-- Writes to the location that an expression names. -/
def store (word : Word) : Calculation Unit := fun _ memory =>
  ((context.location? object memory target).bind (memory.write? word)).map fun last => ((), last)

theorem compute_unary (site : Site ExprId) (operator : UnaryOperator) (operand : Expr) :
    context.compute (.unary site operator operand) = (context.compute operand).andThen fun word =>
      .operate fun primitives =>
        primitives.unary (operator.opcode (context.isDouble operand)) word := rfl

theorem compute_binary (site : Site ExprId) (isPlain : operator.isShortCircuit = false)
    (left right : Expr) :
    context.compute (.binary site operator left right) = (context.compute left).andThen fun first =>
      (context.compute right).andThen fun second => .operate fun primitives =>
        (operator.opcode? (context.isDouble left)).bind fun opcode =>
          primitives.binary opcode first second := by
  rw [compute, if_neg (by simp [isPlain])]
  funext primitives memory
  simp only [Calculation.andThen, Calculation.operate, Option.map_bind]
  rfl

theorem compute_shortCircuit (site : Site ExprId)
    (isShortCircuit : operator.isShortCircuit = true) (left right : Expr) :
    context.compute (.binary site operator left right) = (context.compute left).andThen
      fun first primitives memory =>
        (operator.decides? first).bind fun decides =>
          if decides then some (first, memory) else context.compute right primitives memory := by
  rw [compute, if_pos isShortCircuit]
  rfl

theorem compute_step (site : Site ExprId) (operator : StepOperator) (yieldsNew : Bool)
    (target : Expr) {type : DataType} (typed : context.table.typeOf? site.id = some type) :
    context.compute (.step site operator yieldsNew target) = (context.computeObject target).andThen
      fun object primitives memory => (context.location? object memory target).bind
        (memory.step primitives (operator.opcode (type = .double)) (type = .double) yieldsNew) := by
  simp only [compute, typed, Option.some_inj]
  rfl

/-- A word stands for a value of a type. -/
def Stands (world : World) (type : DataType) (value : Value) (word : Word) : Prop :=
  word = value.word ∧ world.Admits context.registry type value

/-- The location that an expression names is that of a cell; or there is no cell and nothing to be
read there. -/
def Finds (world : World) (background : Memory) (target : Expr) (type : DataType)
    (cell : Option Cell) (object : List Word) : Prop :=
  ∀ contents memory, Represents context world background contents memory →
    ∃ location, context.location? object memory target = some location ∧
      match cell with
      | some cell => context.Keeps world cell type location
      | none => memory.read? location = none

end MethodContext

/-- An evaluation and a calculation come to related results, or both to none. -/
def Agrees {Result Calculated : Type} (context : MethodContext) (world : World)
    (background : Memory) (evaluation : Evaluating Result) (calculation : Calculation Calculated)
    (related : Result → Calculated → Prop) : Prop :=
  ∀ contents memory, Represents context world background contents memory →
    Option.Rel (fun outcome calculated =>
        related outcome.1 calculated.1 ∧ Represents context world background outcome.2 calculated.2)
      (evaluation.run contents) (calculation world.primitives memory)

variable {context : MethodContext} {world : World} {background : Memory}

namespace Agrees

variable {Result Calculated Next NextCalculated : Type} {evaluation : Evaluating Result}
  {calculation : Calculation Calculated} {related : Result → Calculated → Prop}

theorem pure {result : Result} {calculated : Calculated} (isRelated : related result calculated) :
    Agrees context world background (Pure.pure result) (.done calculated) related :=
  fun _ _ represents => .some ⟨isRelated, represents⟩

theorem bind {next : Result → Evaluating Next} {later : Calculated → Calculation NextCalculated}
    {relatedNext : Next → NextCalculated → Prop}
    (first : Agrees context world background evaluation calculation related)
    (rest : ∀ result calculated, related result calculated →
      Agrees context world background (next result) (later calculated) relatedNext) :
    Agrees context world background (evaluation >>= next) (calculation.andThen later)
      relatedNext := by
  intro contents memory represents
  have agrees := first contents memory represents
  unfold Calculation.andThen
  rw [StateT.run_bind]
  generalize evaluation.run contents = outcome at agrees ⊢
  generalize calculation world.primitives memory = calculated at agrees ⊢
  cases agrees with
  | none => exact .none
  | some holds => exact rest _ _ holds.1 _ _ holds.2

/-- One word as the object in front of a dot. -/
theorem single {evaluation : Evaluating Value} {calculation : Calculation Word}
    {related : Value → Word → Prop}
    (agrees : Agrees context world background evaluation calculation related)
    {change : Value → Next} {relatedNext : Next → List Word → Prop}
    (keeps : ∀ value word, related value word → relatedNext (change value) [word]) :
    Agrees context world background (change <$> evaluation) calculation.single relatedNext := by
  intro contents memory represents
  have outcomes := agrees contents memory represents
  unfold Calculation.single
  rw [StateT.run_map]
  generalize evaluation.run contents = outcome at outcomes ⊢
  generalize calculation world.primitives memory = calculated at outcomes ⊢
  cases outcomes with
  | none => exact .none
  | some holds => exact .some ⟨keeps _ _ holds.1, holds.2⟩

end Agrees

/-! ## Operators, reading and writing -/

variable {type : DataType} {target : Expr} {cell : Option Cell} {object : List Word}

theorem agrees_operate {value : Option Value} {word : Primitives → Option Word}
    (corresponds : Corresponds world context.registry type value (word world.primitives)) :
    Agrees context world background (liftM value) (.operate word) (context.Stands world type) := by
  intro contents memory represents
  rw [Calculation.operate, corresponds.word_eq]
  cases value with
  | none => exact .none
  | some value => exact .some ⟨⟨rfl, corresponds.admits value rfl⟩, represents⟩

theorem agrees_readCell (finds : context.Finds world background target type cell object) :
    Agrees context world background (readCell cell) (context.fetch target object)
      (context.Stands world type) := by
  intro contents memory represents
  rcases finds contents memory represents with ⟨location, locationEq, isThere⟩
  rw [MethodContext.fetch, locationEq, Option.bind_some]
  cases cell with
  | none =>
    rw [show memory.read? location = none from isThere]
    exact .none
  | some cell =>
    have keeps : context.Keeps world cell type location := isThere
    rw [represents.word keeps]
    exact .some ⟨⟨rfl, represents.typed keeps⟩, represents⟩

section

variable (regular : context.Regular)

include regular

variable {site : Site ExprId} {id : FieldId} {field : FieldEntry}

theorem agrees_writeCell (finds : context.Finds world background target type cell object)
    {value : Value} (admits : world.Admits context.registry type value) :
    Agrees context world background (writeCell cell value) (context.store target object value.word)
      fun _ _ => True := by
  intro contents memory represents
  rcases finds contents memory represents with ⟨location, locationEq, isThere⟩
  rw [MethodContext.store, locationEq, Option.bind_some]
  cases cell with
  | none =>
    rw [Memory.write?_eq_none isThere]
    exact .none
  | some cell =>
    rcases represents.write regular isThere admits with ⟨last, written, representsLast⟩
    rw [written]
    exact .some ⟨trivial, representsLast⟩

/-- The steps of `++` and `--`, for a cell. -/
theorem agrees_step (finds : context.Finds world background target type cell object)
    (isNumeric : type.isNumeric = true) (operator : StepOperator) (yieldsNew : Bool) :
    Agrees context world background
      (do
        let old ← readCell cell
        let new ← operator.result? world.primitives old
        writeCell cell new
        return if yieldsNew then new else old)
      (fun primitives memory => (context.location? object memory target).bind
        (memory.step primitives (operator.opcode (type = .double)) (type = .double) yieldsNew))
      (context.Stands world type) := by
  have inSteps : (fun primitives memory => (context.location? object memory target).bind
      (memory.step primitives (operator.opcode (type = .double)) (type = .double) yieldsNew)) =
        (context.fetch target object).andThen fun old =>
          (Calculation.operate fun primitives =>
            primitives.binary (operator.opcode (type = .double)) old
                (.one (type = .double))).andThen fun new =>
                  (context.store target object new).andThen fun _ =>
                      .done (if yieldsNew then new else old) := by
    funext primitives memory
    cases locationEq : context.location? object memory target with
    | none => simp [Calculation.andThen, MethodContext.fetch, locationEq]
    | some location =>
      simp only [Option.bind_some, Memory.step, Option.bind_eq_bind, Calculation.andThen,
        MethodContext.fetch, MethodContext.store, Calculation.operate, Calculation.done,
        Option.bind_map, Function.comp_def, locationEq]
      rfl
  rw [inSteps]
  refine (agrees_readCell finds).bind fun old oldWord oldStands => ?_
  rcases oldStands with ⟨rfl, oldAdmits⟩
  refine (agrees_operate (StepOperator.corresponds_result? oldAdmits isNumeric operator
    world.primitives)).bind fun new newWord newStands => ?_
  rcases newStands with ⟨rfl, newAdmits⟩
  refine (agrees_writeCell regular finds newAdmits).bind fun _ _ _ => ?_
  cases yieldsNew with
  | true => exact .pure ⟨rfl, newAdmits⟩
  | false => exact .pure ⟨rfl, oldAdmits⟩

/-! ## Names -/

theorem finds_variable {id : VariableId} {entry : VariableEntry}
    (bound : context.bindings.symbol? site.id = some (.ofVariable id))
    (found : context.registry.variableEntry? id = some entry)
    (own : entry.method = context.method.id) (name : String) :
    context.Finds world background (.identifier site name) entry.type
      (some (.ofVariable id)) object := by
  intro contents memory represents
  rcases regular.slot found own with ⟨slot, slotEq, _⟩
  exact ⟨.slot slot, by simp [MethodContext.location?, bound, found, slotEq],
    .ofVariable found own slotEq⟩

omit regular in
/-- A static field, or an instance field of the class of the current object, has a cell. -/
theorem exists_ownCell (found : context.registry.fieldEntry? id = some field)
    (reaches : field.isStatic = false → context.method.isStatic = false ∧
      context.registry.DescendsFrom context.method.owner field.owner)
    {offset : Nat} (offsetEq : context.layout.offset? field = some offset) {contents : Contents}
    {memory : Memory} (represents : Represents context world background contents memory) :
    ∃ cell, ownCell? context.setting world id = some cell ∧
      context.Keeps world cell field.type (Generating.ownLocation field offset memory) := by
  have foundHere : context.setting.registry.fieldEntry? id = some field := found
  cases isStatic : field.isStatic with
  | true =>
    refine ⟨.ofStatic id, by simp [ownCell?, foundHere, isStatic], ?_⟩
    rw [Generating.ownLocation, if_pos isStatic]
    exact .ofStatic found isStatic offsetEq
  | false =>
    rcases reaches isStatic with ⟨isInstance, above⟩
    rcases represents.current isInstance with
      ⟨address, currentEq, ⟨actual, isActual, descends⟩, inFirst⟩
    refine ⟨.ofObject address id, by simp [ownCell?, foundHere, isStatic, currentEq], ?_⟩
    rw [Generating.ownLocation, if_neg (by simp [isStatic]), inFirst]
    exact .ofObject found isStatic ⟨actual, isActual, descends.trans above⟩ offsetEq

theorem finds_ownField (bound : context.bindings.symbol? site.id = some (.ofField id))
    (found : context.registry.fieldEntry? id = some field)
    (named : context.fieldNamed? site = some field)
    (reaches : field.isStatic = false → context.method.isStatic = false ∧
      context.registry.DescendsFrom context.method.owner field.owner)
    (name : String) :
    context.Finds world background (.identifier site name) field.type
      (ownCell? context.setting world id) object := by
  intro contents memory represents
  rcases regular.offset found with ⟨offset, offsetEq⟩
  rcases exists_ownCell found reaches offsetEq represents with ⟨cell, cellEq, keeps⟩
  refine ⟨_, by simp [MethodContext.location?, bound, named, offsetEq]; rfl, ?_⟩
  rw [cellEq]
  exact keeps

section

variable {site : Site ExprId} {receiver : Expr} {name : String} {owner : ClassId} {id : FieldId}
  {field : FieldEntry} (named : context.fieldNamed? site = some field)
  (found : context.registry.fieldEntry? id = some field)
  (inOwner : context.registry.findField? owner name = some id)

include named found inOwner

/-- A field of an object is looked up in the class of the object, and there it is the one that was
found earlier. -/
theorem finds_member (isInstance : field.isStatic = false) (notSuper : receiver.isSuper = false)
    {value : Value} (admits : world.Admits context.registry (.object owner) value) :
    context.Finds world background (.fieldAccess site receiver name) field.type
      (memberCell? context.setting world name value) [value.word] := by
  intro contents memory represents
  rcases regular.offset found with ⟨offset, offsetEq⟩
  have needed : Generating.needsObject field receiver = true := by
    simp [Generating.needsObject, isInstance, notSuper]
  refine ⟨.field value.word offset, by simp [MethodContext.location?, named, offsetEq, needed], ?_⟩
  cases admits with
  | noObject => rfl
  | @object _ address hasObject =>
    rcases hasObject with ⟨actual, isActual, descends⟩
    have inActual : context.setting.registry.findField? actual name = some id :=
      regular.keepsField descends inOwner
    rcases Registry.exists_fieldEntry regular.wellFormed inOwner with ⟨same, sameFound, _, above⟩
    cases found.symm.trans sameFound
    simp only [memberCell?, isActual, inActual, Option.bind_some, Option.map_some]
    exact .ofObject found isInstance ⟨actual, isActual, descends.trans above⟩ offsetEq

theorem finds_held (notNeeded : Generating.needsObject field receiver = false)
    (reaches : field.isStatic = false →
      context.method.isStatic = false ∧ context.registry.DescendsFrom context.method.owner owner) :
    context.Finds world background (.fieldAccess site receiver name) field.type
      (ownCell? context.setting world id) [] := by
  intro contents memory represents
  rcases regular.offset found with ⟨offset, offsetEq⟩
  rcases Registry.exists_fieldEntry regular.wellFormed inOwner with ⟨same, sameFound, _, above⟩
  cases found.symm.trans sameFound
  have reachesField : field.isStatic = false →
      context.method.isStatic = false ∧
      context.registry.DescendsFrom context.method.owner field.owner :=
    fun isInstance => (reaches isInstance).imp_right fun reachesOwner => reachesOwner.trans above
  rcases exists_ownCell found reachesField offsetEq represents with ⟨cell, cellEq, keeps⟩
  refine ⟨_, by simp [MethodContext.location?, named, offsetEq, notNeeded]; rfl, ?_⟩
  rw [cellEq]
  exact keeps

end

end

/-! ## Expressions -/

/-- What has the value of an expression in front of a dot stands for no class. -/
theorem holder?_of_means {table : TypeTable} {expr : Expr} {meaning : Meaning}
    (means : Means context.setting table expr meaning) :
    holder? context.setting expr = match meaning with
      | .value _ => none
      | .aClass id | .asParent id => some id := by
  cases means with
  | ofVariable bound | ofField bound | ofClass bound => simp [holder?, bound]
  | super _ parentEq => exact parentEq
  | _ => rfl

/-- What an expression evaluates to, and the cell that it stands for, are what the calculations come
to. -/
structure Realizes (context : MethodContext) (world : World) (background : Memory) (expr : Expr)
    (type : DataType) : Prop where
  value : Agrees context world background (eval context.setting world expr) (context.compute expr)
    (context.Stands world type)
  cell : Checking.isAssignable context.setting expr = true →
    Agrees context world background (evalCell context.setting world expr)
    (context.computeObject expr)
      (context.Finds world background expr type)

section

variable (regular : context.Regular)

include regular

variable {site : Site ExprId} {name : String} {meaning : Meaning} {operator : BinaryOperator}
  {left right : Expr} {leftType rightType result : DataType}

theorem agrees_evalMember {receiver : Expr} {owner : ClassId} {reach : Reach} {field : FieldEntry}
    (receiverMeans : Means context.setting context.table receiver meaning)
    (fits : AccessFits context.setting meaning name owner reach field)
    (named : context.table.field? site.id = some field.id)
    (receiverAgrees : ∀ type, meaning = .value type →
      Agrees context world background (eval context.setting world receiver)
      (context.compute receiver) (context.Stands world type)) :
    Agrees context world background
      (evalMember context.setting world receiver name (eval context.setting world receiver))
      (context.objectOf site receiver (context.compute receiver))
      (context.Finds world background (.fieldAccess site receiver name) field.type) := by
  rcases Setting.fieldIn_eq_ok.mp fits.found with ⟨id, inOwner, found⟩
  have inOwnerHere : context.registry.findField? owner name = some id := inOwner
  have foundHere : context.registry.fieldEntry? id = some field := found
  obtain rfl := regular.fieldId foundHere
  have namedHere : context.fieldNamed? site = some field := by
    rw [MethodContext.fieldNamed?, named, Option.bind_some, foundHere]
  have objectEq : context.objectOf site receiver (context.compute receiver) =
      if Generating.needsObject field receiver =
        true then (context.compute receiver).single else .done [] := by
    simp only [MethodContext.objectOf, namedHere, Option.mem_some_iff, exists_eq_left']
    rfl
  have suits := Setting.LooksIn.fieldFault?_eq_none (Setting.reached_eq_ok.mp fits.reached)
    |>.mp fits.faultless
  have holderEq := holder?_of_means receiverMeans
  rw [objectEq, evalMember, holderEq]
  cases Setting.reached_eq_ok.mp fits.reached with
  | throughObject =>
    have isInstance : field.isStatic = false := suits
    have notSuper : receiver.isSuper = false := by
      cases receiver with
      | super _ => cases receiverMeans
      | _ => rfl
    rw [if_pos (by simp [Generating.needsObject, isInstance, notSuper])]
    refine (receiverAgrees _ rfl).single ?_
    rintro value _ ⟨rfl, admits⟩
    exact finds_member regular namedHere foundHere inOwnerHere isInstance notSuper admits
  | throughClass =>
    have isStatic : field.isStatic = true := suits
    have notNeeded : Generating.needsObject field receiver = false := by
      simp [Generating.needsObject, isStatic]
    rw [if_neg (by simp [notNeeded])]
    refine .pure ?_
    rw [inOwner, Option.bind_some]
    exact finds_held regular namedHere foundHere inOwnerHere notNeeded (by simp [isStatic])
  | throughSuper =>
    rcases receiverMeans.eq_super with ⟨isSuper, isInstance⟩
    have notNeeded : Generating.needsObject field receiver = false := by
      simp [Generating.needsObject, isSuper]
    rw [if_neg (by simp [notNeeded])]
    refine .pure ?_
    rw [inOwner, Option.bind_some]
    refine finds_held regular namedHere foundHere inOwnerHere notNeeded fun _ => ⟨isInstance, ?_⟩
    cases receiverMeans with
    | super _ parentEq => exact .single parentEq

omit regular in
theorem realizes_name {type : DataType}
    (finds : context.Finds world background (.identifier site name) type
      (nameCell? context.setting world site) []) :
    Realizes context world background (.identifier site name) type :=
  ⟨agrees_readCell finds, fun _ => .pure finds⟩

omit regular in
theorem agrees_binary (isPlain : operator.isShortCircuit = false)
    (fits : operator.resultType? context.registry leftType rightType = some result)
    (isDouble : context.isDouble left = decide (leftType = .double))
    (leftAgrees : Agrees context world background (eval context.setting world left)
      (context.compute left) (context.Stands world leftType))
    (rightAgrees : Agrees context world background (eval context.setting world right)
      (context.compute right) (context.Stands world rightType))
    (site : Site ExprId) :
    Agrees context world background (eval context.setting world (.binary site operator left right))
      (context.compute (.binary site operator left right)) (context.Stands world result) := by
  have isOpen : ∀ value, ¬operator.IsDecidedBy value := by
    rintro value (⟨rfl, _⟩ | ⟨rfl, _⟩) <;> cases isPlain
  rw [eval, context.compute_binary site isPlain, isDouble]
  refine leftAgrees.bind fun first firstWord firstStands => ?_
  rcases firstStands with ⟨rfl, firstAdmits⟩
  rw [if_neg (isOpen first)]
  refine rightAgrees.bind fun second secondWord secondStands => ?_
  rcases secondStands with ⟨rfl, secondAdmits⟩
  exact agrees_operate (BinaryOperator.corresponds_result? firstAdmits secondAdmits
    isPlain fits world.primitives)

omit regular in
theorem agrees_shortCircuit (isShortCircuit : operator.isShortCircuit = true)
    (fits : operator.resultType? context.registry leftType rightType = some result)
    (leftAgrees : Agrees context world background (eval context.setting world left)
      (context.compute left) (context.Stands world leftType))
    (rightAgrees : Agrees context world background (eval context.setting world right)
      (context.compute right) (context.Stands world rightType))
    (site : Site ExprId) :
    Agrees context world background (eval context.setting world (.binary site operator left right))
      (context.compute (.binary site operator left right)) (context.Stands world result) := by
  rcases BinaryOperator.bool_of_isShortCircuit isShortCircuit fits with ⟨rfl, rfl, rfl⟩
  rw [eval, context.compute_shortCircuit site isShortCircuit]
  refine leftAgrees.bind fun first firstWord firstStands => ?_
  rcases firstStands with ⟨rfl, firstAdmits⟩
  rcases firstAdmits.truth with ⟨first, rfl⟩
  rw [Value.word_bool, BinaryOperator.decides?_ofBool isShortCircuit]
  by_cases isDecided : operator.IsDecidedBy (.bool first)
  · simp only [if_pos isDecided, decide_eq_true isDecided]
    exact .pure ⟨rfl, .bool first⟩
  · simp only [if_neg isDecided, decide_eq_false isDecided]
    rw [← Calculation.andThen_done (context.compute right)]
    refine rightAgrees.bind fun second secondWord secondStands => ?_
    rcases secondStands with ⟨rfl, secondAdmits⟩
    rcases secondAdmits.truth with ⟨second, rfl⟩
    rw [BinaryOperator.result?_of_not_isDecidedBy isShortCircuit isDecided]
    exact .pure ⟨rfl, .bool second⟩

/-- The calculation of a well-typed expression is its evaluation. -/
theorem realizes_of_means {expr : Expr} (means : Means context.setting context.table expr meaning)
    (isQuiet : expr.IsQuiet)
    (settled : ∀ node ∈ expr.nodes,
      Resolution.Settles context.registry context.bindings context.method node) :
    ∀ type, meaning = .value type → Realizes context world background expr type := by
  induction means with
  | @literal site value typed =>
    rintro _ ⟨⟩
    refine ⟨?_, by simp [Checking.isAssignable]⟩
    exact .pure ⟨(Literal.word_value value _).symm, World.admits_literal _ value⟩
  | @ofVariable site name id entry bound found own typed =>
    rintro _ ⟨⟩
    have cellEq : nameCell? context.setting world site = some (.ofVariable id) := by
      simp [nameCell?, show context.setting.bindings.symbol? site.id = _ from bound]
    exact realizes_name (cellEq ▸ finds_variable regular bound found own name)
  | @ofField site name id field bound found fits allowed named typed =>
    rintro _ ⟨⟩
    have cellEq : nameCell? context.setting world site = ownCell? context.setting world id := by
      simp [nameCell?, show context.setting.bindings.symbol? site.id = _ from bound]
    have namedHere : context.fieldNamed? site = some field := by
      rw [MethodContext.fieldNamed?, named, Option.bind_some, regular.fieldId found]
      exact found
    have boundHere : context.bindings.symbol? site.id = some (.ofField id) := bound
    refine realizes_name (cellEq ▸ finds_ownField regular bound found namedHere
      (fun isInstance => ⟨?_, ?_⟩) name)
    · cases isStatic : context.method.isStatic with
      | false => rfl
      | true => cases isInstance.symm.trans (fits isStatic)
    · rcases settled _ (Expr.self_mem_nodes (.identifier site name)) with ⟨symbol, symbolEq, seen⟩
      cases boundHere.symm.trans symbolEq
      rcases seen.field id rfl with ⟨entry, sameField, methodFound, fieldFound, descends⟩
      cases regular.registered.symm.trans methodFound
      cases fieldFound.symm.trans found
      exact descends
  | ofClass bound => rintro _ ⟨⟩
  | @this site isInstance typed =>
    rintro _ ⟨⟩
    refine ⟨?_, by simp [Checking.isAssignable]⟩
    intro contents memory represents
    rcases represents.current isInstance with ⟨address, currentEq, hasObject, inFirst⟩
    simp only [eval, MethodContext.compute, currentEq, inFirst]
    exact .some ⟨⟨rfl, .object hasObject⟩, represents⟩
  | super isInstance parentEq => rintro _ ⟨⟩
  | @new site className id bound typed =>
    simpa [Expr.isQuiet] using isQuiet _ (Expr.self_mem_nodes (.new site className))
  | @unary site operator operand type result operandMeans isValue fits typed ih =>
    rintro _ ⟨⟩
    have operandQuiet : operand.IsQuiet := fun node nodeMem =>
      isQuiet node (by simp [Expr.nodes, nodeMem])
    have operandSettled : ∀ node ∈ operand.nodes, _ := fun node nodeMem =>
      settled node (by simp [Expr.nodes, nodeMem])
    have isDouble : context.isDouble operand = decide (type = .double) := by
      simp [MethodContext.isDouble, operandMeans.typeOf?]
    refine ⟨?_, by simp [Checking.isAssignable]⟩
    rw [eval, context.compute_unary, isDouble]
    refine (ih operandQuiet operandSettled type rfl).value.bind fun value word stands => ?_
    rcases stands with ⟨rfl, admits⟩
    exact agrees_operate (UnaryOperator.corresponds_result? admits fits world.primitives)
  | @binary site operator left right leftType rightType result leftMeans rightMeans leftIsValue
      rightIsValue fits typed leftIh rightIh =>
      rintro _ ⟨⟩
      have leftRealizes := leftIh (fun node nodeMem => isQuiet node (by simp [Expr.nodes, nodeMem]))
        (fun node nodeMem => settled node (by simp [Expr.nodes, nodeMem])) leftType rfl
      have rightRealizes :=
        rightIh (fun node nodeMem => isQuiet node (by simp [Expr.nodes, nodeMem]))
          (fun node nodeMem => settled node (by simp [Expr.nodes, nodeMem])) rightType rfl
      refine ⟨?_, by simp [Checking.isAssignable]⟩
      cases isShortCircuit : operator.isShortCircuit with
      | true =>
        exact agrees_shortCircuit isShortCircuit fits leftRealizes.value rightRealizes.value site
      | false =>
        have isDouble : context.isDouble left = decide (leftType = .double) := by
          simp [MethodContext.isDouble, leftMeans.typeOf?]
        exact agrees_binary isShortCircuit fits isDouble leftRealizes.value rightRealizes.value site
  | @callBare site name arguments =>
    simpa [Expr.isQuiet] using isQuiet _ (Expr.self_mem_nodes (.call site none name arguments))
  | @callOn site receiver name arguments =>
    simpa [Expr.isQuiet] using isQuiet _
      (Expr.self_mem_nodes (.call site (some receiver) name arguments))
  | @fieldAccess site receiver name receiverMeaning owner reach field receiverMeans
      fits named typed ih =>
    rintro _ ⟨⟩
    have receiverRealizes := ih (fun node nodeMem => isQuiet node (by simp [Expr.nodes, nodeMem]))
      (fun node nodeMem => settled node (by simp [Expr.nodes, nodeMem]))
    have agrees := agrees_evalMember regular receiverMeans fits named
      fun type isValue => (receiverRealizes type isValue).value
    exact ⟨agrees.bind fun cell words finds => agrees_readCell finds, fun _ => agrees⟩
  | @step site operator yieldsNew target type targetMeans assignable numeric typed ih =>
    rintro _ ⟨⟩
    have targetRealizes := ih (fun node nodeMem => isQuiet node (by simp [Expr.nodes, nodeMem]))
      (fun node nodeMem => settled node (by simp [Expr.nodes, nodeMem])) type rfl
    refine ⟨?_, by simp [Checking.isAssignable]⟩
    rw [eval, context.compute_step site operator yieldsNew target typed]
    exact (targetRealizes.cell assignable).bind fun cell words finds =>
      agrees_step regular finds numeric operator yieldsNew

end

end Decaf
