import Decaf.Proofs.Listing.Steps

/-!
# Operations that are accounted for

Names, operators and places: what their code does, and which frame slots it uses.
-/

namespace Decaf

namespace MethodContext

/-- The slots of variables are in front of the spill slots. -/
def KeepsVariables (context : MethodContext) : Prop :=
  ∀ id slot, context.slotOf? id = some slot → slot < context.frame.spillBase

variable {context : MethodContext}

theorem writes_identifier {site : Site ExprId} {name : String} {id : VariableId} {slot : Nat}
    (bound : context.bindings.symbol? site.id = some (.ofVariable id))
    (isSlot : context.slotOf? id = some slot) :
    context.writes (.identifier site name) = [.write slot] := by
  simp [writes, bound, isSlot]

end MethodContext

namespace Generating

variable {context : MethodContext} {registerCount first : Nat} {position : Position}
variable {object scratch : Register} {acts : List Action}

/-! ## Names -/

theorem enacts_receiverSlot :
    Enacts context registerCount first [] (receiverSlot context position) context.Reaches :=
  (enacts_orFail _ _).mono fun _ isReceiver => .inl isReceiver

theorem enacts_variableSlot (id : VariableId) :
    Enacts context registerCount first [] (variableSlot context position id)
      fun slot => context.slotOf? id = some slot :=
  enacts_orFail _ _

theorem enacts_fieldOffset (field : FieldEntry) :
    Enacts context registerCount first [] (fieldOffset context position field) fun _ => True :=
  (enacts_orFail _ _).mono fun _ _ => trivial

theorem enacts_readOwnField (field : FieldEntry) :
    Enacts context registerCount first [] (readOwnField context position field) fun _ => True := by
  refine (enacts_fieldOffset field).andThen fun offset => ?_
  split
  · exact enacts_produce fun _ => enacts_passive rfl
  · exact enacts_receiverSlot.bind fun slot reaches => enacts_acquire.andThen fun acquired =>
      (enacts_loadStack reaches).andThen fun _ =>
        (enacts_passive rfl).andThen fun _ => .pure trivial

theorem enacts_readObjectField (field : FieldEntry) (object : Option Temporary) :
    Enacts context registerCount first [] (readObjectField context position field object)
      fun _ => True :=
  (enacts_fieldOffset field).andThen fun _ => (enacts_operand object).andThen fun object =>
    (enacts_load object).andThen fun _ => (enacts_release object).andThen fun _ =>
      enacts_produce fun _ => enacts_passive rfl

theorem enacts_readIdentifier (site : Site ExprId) :
    Enacts context registerCount first [] (readIdentifier context site) fun _ => True := by
  unfold readIdentifier
  split
  next id bound =>
    exact (enacts_variableSlot id).bind fun slot isSlot => enacts_produce fun _ =>
      enacts_loadStack (.inr ⟨id, isSlot⟩)
  · exact (enacts_orFail _ _).andThen fun field => enacts_readOwnField field
  all_goals exact enacts_fail _

theorem enacts_readThis :
    Enacts context registerCount first [] (readThis context position) fun _ => True :=
  enacts_receiverSlot.bind fun _ reaches => enacts_produce fun _ => enacts_loadStack reaches

theorem isPassive_clearFields (layout : Layout) (registry : Registry) {zero : Instruction}
    (isPassive : zero.isPassive = true) (fields : List FieldId) :
    ∀ instruction ∈ layout.clearFields registry object scratch zero fields,
      instruction.isPassive = true := by
  intro instruction isThere
  unfold Layout.clearFields at isThere
  split at isThere
  · cases isThere
  · rcases List.mem_cons.mp isThere with rfl | isStore
    · exact isPassive
    · rcases List.mem_filterMap.mp isStore with ⟨field, _, found⟩
      rcases Option.map_eq_some_iff.mp found with ⟨offset, _, rfl⟩
      rfl

/-- The code that makes an object names its class, and fills the object without touching the
frame. -/
theorem mem_objectInit {layout : Layout} {registry : Registry} {owner : ClassId}
    {instruction : Instruction}
    (isThere : instruction ∈ layout.objectInit registry owner object scratch) :
    instruction = .moveLabel scratch (Label.vtable (registry.className owner)) ∨
      instruction.isPassive = true := by
  simp only [Layout.objectInit, List.mem_append, List.mem_cons,
    List.not_mem_nil, or_false] at isThere
  rcases isThere with ((rfl | rfl | rfl) | isWord) | isDouble
  · exact .inr rfl
  · exact .inl rfl
  · exact .inr rfl
  · exact .inr (isPassive_clearFields layout registry (by rfl) _ _ isWord)
  · exact .inr (isPassive_clearFields layout registry (by rfl) _ _ isDouble)

theorem filter_isAction_objectInit (layout : Layout) (registry : Registry) (owner : ClassId)
    (object scratch : Register) (base : Nat) :
    (layout.objectInit registry owner object scratch).filter (Instruction.isAction base) =
      [.moveLabel scratch (Label.vtable (registry.className owner))] := by
  have silent {zero : Instruction} (isPassive : zero.isPassive = true) (fields : List FieldId) :
      (layout.clearFields registry object scratch zero fields).filter
      (Instruction.isAction base) = [] :=
    List.filter_eq_nil_iff.mpr fun instruction isThere => by
      simp [Instruction.isAction_of_isPassive
        (isPassive_clearFields layout registry isPassive fields instruction isThere)]
  have noWords := silent (show (Instruction.moveInt scratch 0).isPassive = true from rfl)
  have noDoubles :=
    silent (show (Instruction.moveDouble scratch (.zero false)).isPassive = true from rfl)
  simp only [Layout.objectInit, List.filter_append, noWords, noDoubles, List.append_nil]
  rfl

theorem enacts_newObject (site : Site ExprId) (name : String) :
    Enacts context registerCount first [.perform (.new site name)] (newObject context site) fun _ =>
      True := by
  unfold newObject
  split
  next id bound =>
    refine enacts_acquire.andThen fun object => enacts_acquire.andThen fun scratch => ?_
    have calm : ∀ instruction ∈ context.layout.objectInit context.registry id object.2 scratch.2,
        instruction.IsCalm := by
      intro instruction isThere
      rcases mem_objectInit isThere with rfl | isPassive
      · exact ⟨rfl, rfl, rfl, rfl⟩
      · exact Instruction.isCalm_of_isPassive isPassive
    have fits (slotCount : Nat) :
        ∀ instruction ∈ context.layout.objectInit context.registry id object.2 scratch.2,
        context.FitsFrame slotCount instruction := by
      intro instruction isThere
      rcases mem_objectInit isThere with rfl | isPassive
      · trivial
      · exact context.fitsFrame_of_isPassive isPassive slotCount
    refine (enacts_emitAll calm ?_ fits).finish fun _ _ =>
      (enacts_release _).andThen fun _ => .pure trivial
    rw [filter_isAction_objectInit]
    exact .cons (.make bound) .nil
  all_goals exact enacts_fail _

/-! ## Operators -/

theorem enacts_applyUnary (opcode : UnaryOpcode) (value : Option Temporary) :
    Enacts context registerCount first [] (applyUnary position opcode value) fun _ => True :=
  (enacts_operand value).andThen fun value => (enacts_load value).andThen fun _ =>
    (enacts_release value).andThen fun _ => enacts_produce fun _ => enacts_passive rfl

theorem enacts_applyBinary (opcode : Option BinaryOpcode) (left right : Option Temporary) :
    Enacts context registerCount first [] (applyBinary position opcode left right) fun _ => True :=
  (enacts_operand left).andThen fun left => (enacts_operand right).andThen fun right =>
    (enacts_orFail _ _).andThen fun _ =>
      (enacts_withPool (RegisterPool.onlySpills_loadPair left right)
        (RegisterPool.keepsWellFormed_loadPair left right)).andThen fun _ =>
          (enacts_release left).andThen fun _ => (enacts_release right).andThen fun _ =>
            enacts_produce fun _ => enacts_passive rfl

/-! ## Places -/

/-- Writing to a place writes to the variable there, if there is one. -/
def PlaceHas (context : MethodContext) (acts : List Action) : Place → Prop
  | .frame slot => acts = [.write slot] ∧ ∃ id, context.slotOf? id = some slot
  | .area _ | .heap .. => acts = []

theorem enacts_ownFieldPlace (field : FieldEntry) :
    Enacts context registerCount first [] (ownFieldPlace context position field)
      (PlaceHas context []) := by
  refine (enacts_fieldOffset field).andThen fun offset => ?_
  split
  · exact .pure rfl
  · exact enacts_receiverSlot.bind fun slot reaches =>
      (enacts_produce fun _ => enacts_loadStack reaches).andThen fun _ => .pure rfl

theorem enacts_place (target : Expr) (object : Option Temporary) :
    Enacts context registerCount first [] (place context position target object)
      (PlaceHas context (context.writes target)) := by
  cases target with
  | identifier site name =>
    rw [place]
    split
    next id bound =>
      exact (enacts_variableSlot id).bind fun slot isSlot =>
        .pure ⟨context.writes_identifier bound isSlot, id, isSlot⟩
    all_goals
      next notVariable =>
        simp only [MethodContext.writes, notVariable]
        exact (enacts_orFail _ _).andThen fun field => enacts_ownFieldPlace field
  | fieldAccess site receiver name =>
    refine (enacts_orFail _ _).andThen fun field => ?_
    split
    · exact (enacts_fieldOffset field).andThen fun _ =>
        (enacts_operand object).andThen fun _ => .pure rfl
    · exact enacts_ownFieldPlace field
  | literal | this | super | new | call | unary | binary | step => exact enacts_fail _

theorem enacts_readPlace (target : Register) {place : Place} (has : PlaceHas context acts place) :
    Enacts context registerCount first [] (readPlace position target place) fun _ => True := by
  cases place with
  | frame slot =>
    rcases has with ⟨-, id, isSlot⟩
    exact enacts_loadStack (.inr ⟨id, isSlot⟩)
  | area offset => exact enacts_passive rfl
  | heap object offset => exact (enacts_load object).andThen fun _ => enacts_passive rfl

theorem enacts_writePlace (keeps : context.KeepsVariables) (source : Register) {place : Place}
    (has : PlaceHas context acts place) :
    Enacts context registerCount first acts (writePlace position source place) fun _ => True := by
  cases place with
  | frame slot =>
    rcases has with ⟨rfl, id, isSlot⟩
    exact enacts_storeStack isSlot (keeps id slot isSlot)
  | area offset =>
    obtain rfl : acts = [] := has
    exact enacts_passive rfl
  | heap object offset =>
    obtain rfl : acts = [] := has
    exact (enacts_load object).andThen fun _ => (enacts_passive rfl).andThen fun _ =>
      enacts_release object

theorem enacts_stepPlace (keeps : context.KeepsVariables) (opcode : BinaryOpcode)
    (isDouble yieldsNew : Bool) {place : Place} (has : PlaceHas context acts place) :
    Enacts context registerCount first acts (stepPlace position opcode isDouble yieldsNew place)
      fun _ => True := by
  refine enacts_acquire.andThen fun old => (enacts_readPlace _ has).andThen fun _ =>
    enacts_acquire.andThen fun new => Enacts.andThen (enacts_passive ?_) fun _ =>
      (enacts_passive rfl).andThen fun _ => (enacts_writePlace keeps _ has).finish fun _ _ => ?_
  · unfold loadOne
    split <;> rfl
  · split
    · exact (enacts_release _).andThen fun _ => .pure trivial
    · exact (enacts_release _).andThen fun _ => .pure trivial

end Generating

end Decaf
