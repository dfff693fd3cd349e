import Decaf.Proofs.Machine.Execution
import Decaf.Tree.Expr
import Decaf.Typing.Setting
import Decaf.Proofs.Code.ShortCircuit
import Decaf.Proofs.Registry.Lookup
import Decaf.Typing.OperatorType

/-!
# Evaluating expressions to values

What an expression without calls and new objects means, from left to right. Values know of which
kind they are, so operators look at their operands and not at types that were found out earlier, and
a member of an object is looked up in the class of the object. Where nothing results the evaluation
has failed: an integer was divided by zero, or a field of `null` was asked for.
-/

namespace Decaf

/-- A value of a program. -/
inductive Value where
  | int (value : Int32)
  | double (value : Binary64)
  | bool (value : Bool)
  /-- A string, by its address. -/
  | string (address : Nat)
  | object (address : Nat)
  | null
  deriving DecidableEq, Repr

/-- What holds a value: a variable, a static field, or a field of an object. -/
inductive Cell where
  | ofVariable (id : VariableId)
  | ofStatic (id : FieldId)
  | ofObject (address : Nat) (id : FieldId)
  deriving DecidableEq, Repr

/-- The values in all cells. -/
abbrev Contents : Type := Cell → Value

/-- What an evaluation finds and leaves as it is. -/
structure World where
  primitives : Primitives
  /-- The address of the current object. -/
  current : Option Nat
  /-- The classes of the objects, by address. -/
  classOf : Nat → Option ClassId

/-- An evaluation reads and writes the contents of cells, and it may fail. -/
abbrev Evaluating := StateT Contents Option

/-- The value in a cell. -/
def readCell (cell : Option Cell) : Evaluating Value := do
  let cell ← cell
  let contents ← get
  return contents cell

/-- Puts a value into a cell. -/
def writeCell (cell : Option Cell) (value : Value) : Evaluating Unit := do
  let cell ← cell
  modify fun contents => Function.update contents cell value

/-! ## Operators -/

/-- What a literal stands for. -/
def Literal.value (primitives : Primitives) : Literal → Value
  | .int value => .int value
  | .double value => .double value
  | .bool value => .bool value
  | .string text => .string (primitives.textAddress text)
  | .null => .null

/-- What an operator makes of a value, if it is defined there. -/
def UnaryOperator.result? (operator : UnaryOperator) (primitives : Primitives) :
    Value → Option Value
  | .int value => if operator = .negate then some (.int (-value)) else none
  | .double value => if operator = .negate then some (.double (primitives.negate value)) else none
  | .bool value => if operator = .not then some (.bool !value) else none
  | .string _ | .object _ | .null => none

/-- Adds or subtracts one. -/
def StepOperator.result? (operator : StepOperator) (primitives : Primitives) : Value → Option Value
  | .int value =>
    match operator with
    | .increment => some (.int (value + 1))
    | .decrement => some (.int (value - 1))
  | .double value =>
    match operator with
    | .increment => some (.double (primitives.calculate .fadd value .one))
    | .decrement => some (.double (primitives.calculate .fsub value .one))
  | .bool _ | .string _ | .object _ | .null => none

namespace BinaryOperator

/-- Integers wrap around, and cannot be divided by zero. -/
def onInts (operator : BinaryOperator) (left right : Int32) : Option Value :=
  match operator with
  | .add => some (.int (left + right))
  | .subtract => some (.int (left - right))
  | .multiply => some (.int (left * right))
  | .divide => if right = 0 then none else some (.int (left / right))
  | .less => some (.bool (left < right))
  | .lessEqual => some (.bool (left ≤ right))
  | .greater => some (.bool (right < left))
  | .greaterEqual => some (.bool (right ≤ left))
  | .equal => some (.bool (left = right))
  | .notEqual => some (.bool (left ≠ right))
  | .and | .or => none

/-- What an operator makes of two doubles. -/
def onDoubles (operator : BinaryOperator) (primitives : Primitives) (left right : Binary64) :
    Option Value :=
  match operator with
  | .add => some (.double (primitives.calculate .fadd left right))
  | .subtract => some (.double (primitives.calculate .fsub left right))
  | .multiply => some (.double (primitives.calculate .fmul left right))
  | .divide => some (.double (primitives.calculate .fdiv left right))
  | .less => some (.bool (primitives.compare .flt left right))
  | .lessEqual => some (.bool (primitives.compare .fleq left right))
  | .greater => some (.bool (primitives.compare .fgt left right))
  | .greaterEqual => some (.bool (primitives.compare .fgeq left right))
  | .equal => some (.bool (primitives.compare .feq left right))
  | .notEqual => some (.bool (primitives.compare .fne left right))
  | .and | .or => none

/-- What an operator makes of two truth values. -/
def onBools (operator : BinaryOperator) (left right : Bool) : Option Value :=
  match operator with
  | .equal => some (.bool (left = right))
  | .notEqual => some (.bool (left ≠ right))
  | .and => some (.bool (left && right))
  | .or => some (.bool (left || right))
  | .add | .subtract | .multiply | .divide | .less | .lessEqual | .greater | .greaterEqual => none

/-- References are the same if they are to the same address. -/
def onReferences (operator : BinaryOperator) (left right : Value) : Option Value :=
  match operator with
  | .equal => some (.bool (left = right))
  | .notEqual => some (.bool (left ≠ right))
  | .add | .subtract | .multiply | .divide | .less | .lessEqual | .greater | .greaterEqual | .and
  | .or => none

/-- What an operator makes of two values. -/
def result? (operator : BinaryOperator) (primitives : Primitives) (left right : Value) :
    Option Value :=
  match left, right with
  | .int left, .int right => operator.onInts left right
  | .double left, .double right => operator.onDoubles primitives left right
  | .bool left, .bool right => operator.onBools left right
  | left, right => operator.onReferences left right

/-- Whether the left operand of `&&` or `||` makes the right one unnecessary. -/
def IsDecidedBy (operator : BinaryOperator) (left : Value) : Prop :=
  (operator = .and ∧ left = .bool false) ∨ (operator = .or ∧ left = .bool true)

instance (operator : BinaryOperator) (left : Value) : Decidable (operator.IsDecidedBy left) :=
  inferInstanceAs (Decidable (_ ∨ _))

end BinaryOperator

/-! ## Names -/

section

variable (setting : Setting) (world : World)

/-- The cell of a field that is not reached through an object: a static field, or a field of the
current object. -/
def ownCell? (id : FieldId) : Option Cell :=
  (setting.registry.fieldEntry? id).bind fun field =>
    if field.isStatic then some (.ofStatic id) else world.current.map fun address =>
      .ofObject address id

/-- The cell of a field of an object; `null` has none. -/
def memberCell? (name : String) : Value → Option Cell
  | .object address =>
    (world.classOf address).bind fun owner =>
      (setting.registry.findField? owner name).map (.ofObject address)
  | .int _ | .double _ | .bool _ | .string _ | .null => none

/-- The cell that a name by itself stands for. -/
def nameCell? (site : Site ExprId) : Option Cell :=
  match setting.bindings.symbol? site.id with
  | some (.ofVariable id) => some (.ofVariable id)
  | some (.ofField id) => ownCell? setting world id
  | some (.ofClass _) | some (.ofMethod _) | none => none

/-- The class that stands in front of a dot, by its name or as `super`. -/
def holder? : Expr → Option ClassId
  | .identifier site _ =>
    match setting.bindings.symbol? site.id with
    | some (.ofClass id) => some id
    | some (.ofVariable _) | some (.ofField _) | some (.ofMethod _) | none => none
  | .super _ => setting.registry.parent? setting.method.owner
  | .literal .. | .this .. | .new .. | .call .. | .fieldAccess .. | .unary .. | .binary ..
  | .step .. => none

/-- The cell behind a dot, given the evaluation of what is in front of it. -/
def evalMember (receiver : Expr) (name : String) (object : Evaluating Value) :
    Evaluating (Option Cell) :=
  match holder? setting receiver with
  | some owner => return (setting.registry.findField? owner name).bind (ownCell? setting world)
  | none => memberCell? setting world name <$> object

/-! ## Expressions -/

mutual

/-- The value of an expression. -/
def eval : Expr → Evaluating Value
  | .literal _ value => return value.value world.primitives
  | .identifier site _ => readCell (nameCell? setting world site)
  | .this _ => liftM (world.current.map Value.object)
  | .super _ => failure
  | .new _ _ => failure
  | .call _ _ _ _ => failure
  | .fieldAccess _ receiver name => do
    let cell ← evalMember setting world receiver name (eval receiver)
    readCell cell
  | .unary _ operator operand => do
    let value ← eval operand
    operator.result? world.primitives value
  | .binary _ operator left right => do
    let first ← eval left
    if operator.IsDecidedBy first then return first
    else do
      let second ← eval right
      operator.result? world.primitives first second
  | .step _ operator yieldsNew target => do
    let cell ← evalCell target
    let old ← readCell cell
    let new ← operator.result? world.primitives old
    writeCell cell new
    return if yieldsNew then new else old
termination_by structural expr => expr

/-- The cell that an expression stands for. -/
def evalCell : Expr → Evaluating (Option Cell)
  | .identifier site _ => return nameCell? setting world site
  | .fieldAccess _ receiver name => evalMember setting world receiver name (eval receiver)
  | .literal _ _ => return none
  | .this _ => return none
  | .super _ => return none
  | .new _ _ => return none
  | .call _ _ _ _ => return none
  | .unary _ _ _ => return none
  | .binary _ _ _ _ => return none
  | .step _ _ _ _ => return none
termination_by structural expr => expr

end

/-- An assignment: what is in front of the dot comes first, then the value. -/
def evalAssign (target value : Expr) : Evaluating Unit := do
  let cell ← evalCell setting world target
  let value ← eval setting world value
  writeCell cell value

end

/-!
## Values as words

The machine has no truth values and no `null`, and its operations do not look at what kind of word
they get. On values of the types that the operators ask for, the operation chosen by the static type
agrees with the operator.
-/

/-- The word that represents a value. -/
def Value.word : Value → Word
  | .int value => .int value
  | .double value => .double value
  | .bool value => .ofBool value
  | .string address => .text address
  | .object address => .object address
  | .null => .null

@[simp]
theorem Value.word_bool (value : Bool) : (Value.bool value).word = .ofBool value := rfl

theorem Literal.word_value (literal : Literal) (primitives : Primitives) :
    (literal.value primitives).word = literal.word primitives := by
  cases literal <;> rfl

namespace World

variable {world : World} {registry : Registry}

/-- At an address is an object of a class, or of one below it. -/
def HasObject (world : World) (registry : Registry) (owner : ClassId) (address : Nat) : Prop :=
  ∃ actual, world.classOf address = some actual ∧ registry.DescendsFrom actual owner

/-- The values of a type. A variable of type `string` that nothing was assigned to holds `null`. -/
inductive Admits (world : World) (registry : Registry) : DataType → Value → Prop where
  | int (value : Int32) : Admits world registry .int (.int value)
  | double (value : Binary64) : Admits world registry .double (.double value)
  | bool (value : Bool) : Admits world registry .bool (.bool value)
  | string (address : Nat) : Admits world registry .string (.string address)
  | noString : Admits world registry .string .null
  | object {owner : ClassId} {address : Nat} (hasObject : world.HasObject registry owner address) :
      Admits world registry (.object owner) (.object address)
  | noObject (owner : ClassId) : Admits world registry (.object owner) .null
  | null : Admits world registry .null .null

/-- A value may be used where another type is expected if its type may. -/
theorem Admits.of_isAssignable {source target : DataType} {value : Value}
    (admits : world.Admits registry source value)
    (fits : registry.isAssignable source target = true) : world.Admits registry target value := by
  rcases Bool.or_eq_true_iff.mp fits with same | wider
  · exact of_decide_eq_true same ▸ admits
  · cases admits with
    | @object owner address hasObject =>
      cases target with
      | object upper =>
        rcases hasObject with ⟨actual, isActual, descends⟩
        have above := Registry.descendsFrom_of_mem_ancestors (List.contains_iff_mem.mp wider)
        exact .object ⟨actual, isActual, descends.trans above⟩
      | _ => cases wider
    | noObject owner | null =>
      cases target with
      | object upper => exact .noObject upper
      | _ => cases wider
    | _ => cases wider

theorem admits_literal (primitives : Primitives) (literal : Literal) :
    world.Admits registry literal.type (literal.value primitives) := by
  cases literal with
  | int value => exact .int value
  | double value => exact .double value
  | bool value => exact .bool value
  | string text => exact .string _
  | null => exact .null

/-- What a number can be. -/
theorem Admits.number {type : DataType} {value : Value} (admits : world.Admits registry type value)
    (isNumeric : type.isNumeric = true) :
    (type = .int ∧ ∃ number, value = .int number) ∨
      (type = .double ∧ ∃ number, value = .double number) := by
  cases admits with
  | int number => exact .inl ⟨rfl, number, rfl⟩
  | double number => exact .inr ⟨rfl, number, rfl⟩
  | _ => cases isNumeric

theorem Admits.truth {value : Value} (admits : world.Admits registry .bool value) :
    ∃ truth, value = .bool truth := by
  cases admits with
  | bool truth => exact ⟨truth, rfl⟩

end World

namespace Value

variable {left right : Value}

/-- Strings, objects and `null`. -/
inductive IsReference : Value → Prop where
  | string (address : Nat) : IsReference (.string address)
  | object (address : Nat) : IsReference (.object address)
  | null : IsReference .null

theorem IsReference.same?_word (leftIs : left.IsReference) (rightIs : right.IsReference) :
    left.word.same? right.word = some (decide (left = right)) := by
  cases leftIs <;> cases rightIs <;> simp [word, Word.same?, Word.null]

theorem IsReference.result?_eq (leftIs : left.IsReference) (rightIs : right.IsReference)
    (operator : BinaryOperator) (primitives : Primitives) :
    operator.result? primitives left right = operator.onReferences left right := by
  cases leftIs <;> cases rightIs <;> rfl

end Value

namespace World

variable {world : World} {registry : Registry}

theorem Admits.isReference {type : DataType} {value : Value}
    (admits : world.Admits registry type value) (notInt : type ≠ .int) (notDouble : type ≠ .double)
    (notBool : type ≠ .bool) : value.IsReference := by
  cases admits with
  | int _ => exact absurd rfl notInt
  | double _ => exact absurd rfl notDouble
  | bool _ => exact absurd rfl notBool
  | string address => exact .string address
  | object _ => exact .object _
  | noString | noObject _ | null => exact .null

/-- Values of comparable types are of the same kind. -/
theorem comparable_cases {leftType rightType : DataType} {left right : Value}
    (leftAdmits : world.Admits registry leftType left)
    (rightAdmits : world.Admits registry rightType right)
    (comparable : registry.areComparable leftType rightType = true) :
    (∃ first second, left = .int first ∧ right = .int second ∧ leftType ≠ .double) ∨
      (∃ first second, left = .double first ∧ right = .double second ∧ leftType = .double) ∨
      (∃ first second, left = .bool first ∧ right = .bool second ∧ leftType ≠ .double) ∨
      (left.IsReference ∧ right.IsReference ∧ leftType ≠ .double) := by
  unfold Registry.areComparable at comparable
  split at comparable
  next references =>
    rcases Bool.and_eq_true_iff.mp references with ⟨leftIs, rightIs⟩
    refine .inr
      (.inr (.inr ⟨leftAdmits.isReference ?_ ?_ ?_, rightAdmits.isReference ?_ ?_ ?_, ?_⟩)) <;>
      rintro rfl <;> first | cases leftIs | cases rightIs
  next =>
    obtain rfl : leftType = rightType := of_decide_eq_true (Bool.and_eq_true_iff.mp comparable).1
    cases leftAdmits with
    | int first =>
      cases rightAdmits with | int second => exact .inl ⟨first, second, rfl, rfl, by decide⟩
    | double first =>
      cases rightAdmits with | double second => exact .inr (.inl ⟨first, second, rfl, rfl, rfl⟩)
    | bool first =>
      cases rightAdmits with | bool second =>
        exact .inr (.inr (.inl ⟨first, second, rfl, rfl, by decide⟩))
    | string address =>
      exact .inr
        (.inr (.inr ⟨.string address, rightAdmits.isReference (by simp) (by simp) (by simp),
          by simp⟩))
    | object _ =>
      exact .inr
        (.inr (.inr ⟨.object _, rightAdmits.isReference (by simp) (by simp) (by simp), by simp⟩))
    | noString | noObject _ | null =>
      exact .inr
        (.inr (.inr ⟨.null, rightAdmits.isReference (by simp) (by simp) (by simp), by simp⟩))

end World

/-! ## Operators -/

variable {world : World} {registry : Registry}

/-- An operation on words agrees with one on values, which yields values of a type. -/
structure Corresponds (world : World) (registry : Registry) (type : DataType) (value : Option Value)
    (word : Option Word) : Prop where
  word_eq : word = value.map Value.word
  admits : ∀ result ∈ value, world.Admits registry type result

theorem UnaryOperator.corresponds_result? {operator : UnaryOperator} {type result : DataType}
    {value : Value} (admits : world.Admits registry type value)
    (fits : operator.resultType? type = some result) (primitives : Primitives) :
    Corresponds world registry result (operator.result? primitives value)
      (primitives.unary (operator.opcode (type = .double)) value.word) := by
  cases operator with
  | negate =>
    rcases Option.ite_none_right_eq_some.mp fits with ⟨isNumeric, ⟨⟩⟩
    rcases admits.number isNumeric with ⟨rfl, number, rfl⟩ | ⟨rfl, number, rfl⟩
    · exact ⟨rfl, by rintro _ ⟨⟩; exact .int _⟩
    · exact ⟨rfl, by rintro _ ⟨⟩; exact .double _⟩
  | not =>
    rcases Option.ite_none_right_eq_some.mp fits with ⟨rfl, ⟨⟩⟩
    rcases admits.truth with ⟨truth, rfl⟩
    refine ⟨?_, by rintro _ ⟨⟩; exact .bool _⟩
    cases truth <;> rfl

theorem StepOperator.corresponds_result? {type : DataType} {value : Value}
    (admits : world.Admits registry type value) (isNumeric : type.isNumeric = true)
    (operator : StepOperator) (primitives : Primitives) :
    Corresponds world registry type (operator.result? primitives value)
      (primitives.binary (operator.opcode (type = .double)) value.word
        (.one (type = .double))) := by
  rcases admits.number isNumeric with ⟨rfl, number, rfl⟩ | ⟨rfl, number, rfl⟩
  · cases operator <;> exact ⟨rfl, by rintro _ ⟨⟩; exact .int _⟩
  · cases operator <;> exact ⟨rfl, by rintro _ ⟨⟩; exact .double _⟩

namespace BinaryOperator

variable {operator : BinaryOperator} {leftType rightType result : DataType} {left right : Value}

theorem corresponds_onInts (registry : Registry) (world : World) (operator : BinaryOperator)
    (primitives : Primitives) (left right : Int32) :
    Corresponds world registry (if operator.family = .arithmetic then .int else .bool)
      (operator.onInts left right)
      ((operator.opcode? false).bind fun opcode =>
        primitives.binary opcode (.int left) (.int right)) := by
  cases operator with
  | add | subtract | multiply => exact ⟨rfl, by rintro _ ⟨⟩; exact .int _⟩
  | divide =>
    by_cases isZero : right = 0
    · exact ⟨by simp [opcode?, onInts, Primitives.binary, isZero], by simp [onInts, isZero]⟩
    · refine ⟨by simp [opcode?, onInts, Primitives.binary, isZero, Value.word], ?_⟩
      simp only [onInts, if_neg isZero]
      rintro _ ⟨⟩
      exact .int _
  | less | lessEqual | greater | greaterEqual => exact ⟨rfl, by rintro _ ⟨⟩; exact .bool _⟩
  | equal | notEqual =>
    refine ⟨?_, by rintro _ ⟨⟩; exact .bool _⟩
    simp [opcode?, onInts, Primitives.binary, Word.same?, Value.word]
  | and | or => exact ⟨rfl, by rintro _ ⟨⟩⟩

theorem corresponds_onDoubles (registry : Registry) (world : World) (operator : BinaryOperator)
    (primitives : Primitives) (left right : Binary64) :
    Corresponds world registry (if operator.family = .arithmetic then .double else .bool)
      (operator.onDoubles primitives left right)
      ((operator.opcode? true).bind fun opcode =>
        primitives.binary opcode (.double left) (.double right)) := by
  cases operator with
  | add | subtract | multiply | divide => exact ⟨rfl, by rintro _ ⟨⟩; exact .double _⟩
  | less | lessEqual | greater | greaterEqual | equal | notEqual =>
    exact ⟨rfl, by rintro _ ⟨⟩; exact .bool _⟩
  | and | or => exact ⟨rfl, by rintro _ ⟨⟩⟩

theorem corresponds_onBools (registry : Registry) (world : World)
    (isEquality : operator.family = .equality) (primitives : Primitives) (left right : Bool) :
    Corresponds world registry .bool (operator.onBools left right)
      ((operator.opcode? false).bind fun opcode =>
        primitives.binary opcode (.ofBool left) (.ofBool right)) := by
  cases operator with
  | equal | notEqual =>
    refine ⟨?_, by rintro _ ⟨⟩; exact .bool _⟩
    cases left <;> cases right <;> rfl
  | _ => cases isEquality

theorem corresponds_onReferences (registry : Registry) (world : World)
    (isEquality : operator.family = .equality) (primitives : Primitives) (leftIs : left.IsReference)
    (rightIs : right.IsReference) :
    Corresponds world registry .bool (operator.onReferences left right)
      ((operator.opcode? false).bind fun opcode =>
        primitives.binary opcode left.word right.word) := by
  have same := leftIs.same?_word rightIs
  cases operator with
  | equal | notEqual =>
    refine ⟨?_, by rintro _ ⟨⟩; exact .bool _⟩
    simp [opcode?, onReferences, Primitives.binary, same]
  | _ => cases isEquality

theorem corresponds_result?_of_numeric (leftAdmits : world.Admits registry leftType left)
    (rightAdmits : world.Admits registry leftType right) (isNumeric : leftType.isNumeric = true)
    (operator : BinaryOperator) (primitives : Primitives) :
    Corresponds world registry (if operator.family = .arithmetic then leftType else .bool)
      (operator.result? primitives left right)
      ((operator.opcode? (leftType = .double)).bind fun opcode =>
        primitives.binary opcode left.word right.word) := by
  rcases leftAdmits.number isNumeric with ⟨rfl, first, rfl⟩ | ⟨rfl, first, rfl⟩
  · cases rightAdmits with
    | int second => exact corresponds_onInts registry world operator primitives first second
  · cases rightAdmits with
    | double second => exact corresponds_onDoubles registry world operator primitives first second

theorem corresponds_result?_of_comparable (leftAdmits : world.Admits registry leftType left)
    (rightAdmits : world.Admits registry rightType right)
    (comparable : registry.areComparable leftType rightType = true)
    (isEquality : operator.family = .equality) (primitives : Primitives) :
    Corresponds world registry .bool (operator.result? primitives left right)
      ((operator.opcode? (leftType = .double)).bind fun opcode =>
        primitives.binary opcode left.word right.word) := by
  have notArithmetic : (if operator.family = .arithmetic then leftType else DataType.bool) =
      .bool := by
    simp [isEquality]
  rcases World.comparable_cases leftAdmits rightAdmits comparable with
    ⟨first, second, rfl, rfl, notDouble⟩ |
    ⟨first, second, rfl, rfl, rfl⟩ | ⟨first, second, rfl, rfl, notDouble⟩ | ⟨leftIs,
      rightIs, notDouble⟩
  · cases leftAdmits
    exact notArithmetic ▸ corresponds_onInts registry world operator primitives first second
  · exact notArithmetic ▸ corresponds_onDoubles registry world operator primitives first second
  · rw [decide_eq_false notDouble]
    exact corresponds_onBools registry world isEquality primitives first second
  · rw [decide_eq_false notDouble, leftIs.result?_eq rightIs]
    exact corresponds_onReferences registry world isEquality primitives leftIs rightIs

/-- The operation that the type of the left operand decides on does what the operator does. -/
theorem corresponds_result? (leftAdmits : world.Admits registry leftType left)
    (rightAdmits : world.Admits registry rightType right)
    (isPlain : operator.isShortCircuit = false)
    (fits : operator.resultType? registry leftType rightType = some result)
    (primitives : Primitives) :
    Corresponds world registry result (operator.result? primitives left right)
      ((operator.opcode? (leftType = .double)).bind fun opcode =>
        primitives.binary opcode left.word right.word) := by
  unfold resultType? at fits
  cases familyEq : operator.family with
  | arithmetic =>
    rw [familyEq] at fits
    rcases Option.ite_none_right_eq_some.mp fits with ⟨⟨rfl, isNumeric⟩, ⟨⟩⟩
    simpa [familyEq] using corresponds_result?_of_numeric leftAdmits rightAdmits
      isNumeric operator primitives
  | relational =>
    rw [familyEq] at fits
    rcases Option.ite_none_right_eq_some.mp fits with ⟨⟨rfl, isNumeric⟩, ⟨⟩⟩
    simpa [familyEq] using corresponds_result?_of_numeric leftAdmits rightAdmits
      isNumeric operator primitives
  | equality =>
    rw [familyEq] at fits
    rcases Option.ite_none_right_eq_some.mp fits with ⟨comparable, ⟨⟩⟩
    exact corresponds_result?_of_comparable leftAdmits rightAdmits comparable familyEq primitives
  | logical => simp [isShortCircuit, familyEq] at isPlain

/-- The operands of `&&` and `||` are truth values, and so is the result. -/
theorem bool_of_isShortCircuit (isShortCircuit : operator.isShortCircuit = true)
    (fits : operator.resultType? registry leftType rightType = some result) :
    leftType = .bool ∧ rightType = .bool ∧ result = .bool := by
  have familyEq : operator.family = .logical := of_decide_eq_true isShortCircuit
  rw [resultType?, familyEq] at fits
  rcases Option.ite_none_right_eq_some.mp fits with ⟨⟨leftBool, rightBool⟩, ⟨⟩⟩
  exact ⟨leftBool, rightBool, rfl⟩

/-- The machine sees from the word of the left operand whether it decides. -/
theorem decides?_ofBool (isShortCircuit : operator.isShortCircuit = true) (left : Bool) :
    operator.decides? (.ofBool left) = some (decide (operator.IsDecidedBy (.bool left))) := by
  cases operator with
  | and | or => cases left <;> rfl
  | _ => cases isShortCircuit

/-- When the left operand leaves it open, the right one is the result. -/
theorem result?_of_not_isDecidedBy (isShortCircuit : operator.isShortCircuit = true) {left : Bool}
    (isOpen : ¬operator.IsDecidedBy (.bool left)) (primitives : Primitives) (right : Bool) :
    operator.result? primitives (.bool left) (.bool right) = some (.bool right) := by
  cases operator with
  | and => cases left with
    | true => rfl
    | false => exact absurd (.inl ⟨rfl, rfl⟩) isOpen
  | or => cases left with
    | false => rfl
    | true => exact absurd (.inr ⟨rfl, rfl⟩) isOpen
  | _ => cases isShortCircuit

end BinaryOperator

end Decaf
