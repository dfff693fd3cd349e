import Decaf.Proofs.Spilling.Steps

/-!
# Operations that leave spilled temporaries alone

What each kind of expression does with the values of its operands: none but these are loaded or
given up. A call spills what is in registers, and loads nothing but the object whose method is
called.
-/

namespace Decaf

namespace Generating

variable {base : Nat} {loads : Nat → Prop} {nodes : List Expr} {here : Set Temporary}
  {position : Position} {context : MethodContext} {temporary : Temporary}

/-! ## Values -/

theorem mem_having (isHere : temporary ∈ here) (value : Option Temporary) :
    temporary ∈ having here value := by
  cases value with
  | none => exact isHere
  | some other => exact Set.mem_insert_of_mem _ isHere

/-- In which order values are counted makes no difference. -/
theorem insert_having (temporary : Temporary) (here : Set Temporary) (value : Option Temporary) :
    insert temporary (having here value) = having (insert temporary here) value := by
  cases value with
  | none => rfl
  | some other => exact Set.insert_comm _ _ _

/-- What may wait when several values are there as well. -/
def havingAll (here : Set Temporary) (values : List (Option Temporary)) : Set Temporary :=
  values.foldl having here

theorem having_havingAll (value : Option Temporary) (values : List (Option Temporary)) :
    havingAll (having here value) values = having (havingAll here values) value := by
  induction values generalizing here with
  | nil => rfl
  | cons other rest ih =>
    have swap : having (having here value) other = having (having here other) value := by
      cases value with
      | none => rfl
      | some temporary => exact (insert_having temporary here other).symm
    rw [havingAll, List.foldl_cons, swap]
    exact ih

theorem mem_havingAll (isHere : temporary ∈ here) (values : List (Option Temporary)) :
    temporary ∈ havingAll here values := by
  induction values generalizing here with
  | nil => exact isHere
  | cons value rest ih => exact ih (mem_having isHere value)

/-! ## Names -/

section

variable (grants : context.Grants base loads nodes)
include grants

theorem aside_loadStack {target : Register} {slot : Nat} (reads : context.Reads nodes slot) :
    (Instruction.loadStack target slot).IsAside base loads := by
  refine ⟨rfl, rfl, (grants.keeps reads).1, ?_⟩
  rintro _ _ ⟨⟩
  exact (grants.keeps reads).2

theorem tends_readOwnField (field : FieldEntry) :
    Tends base loads here (readOwnField context position field) (fun result => insert result here)
      fun _ => True := by
  refine Tends.bind (tends_orFail _ _ _) fun offset _ => ?_
  split
  · exact tends_produce fun _ => ⟨rfl, rfl, trivial, nofun⟩
  · exact Tends.bind (tends_orFail _ _ _) fun slot isReceiver =>
      tends_acquire.andThen fun acquired =>
      (tends_emit (aside_loadStack grants (.inl isReceiver))).andThen fun _ =>
      (tends_passive rfl).andThen fun _ => .pure rfl trivial

theorem tends_readThis :
    Tends base loads here (readThis context position) (fun result => insert result here)
      fun _ => True :=
  Tends.bind (tends_orFail _ _ _) fun _ isReceiver => tends_produce fun _ =>
    aside_loadStack grants (.inl isReceiver)

theorem tends_readIdentifier {site : Site ExprId} {name : String}
    (isNode : .identifier site name ∈ nodes) :
    Tends base loads here (readIdentifier context site) (fun result => insert result here) fun _ =>
      True := by
  unfold readIdentifier
  split
  next id bound =>
    exact Tends.bind (tends_orFail _ _ _) fun slot isSlot => tends_produce fun _ =>
      aside_loadStack grants (MethodContext.reads_of_slotOf? isNode bound isSlot)
  · exact Tends.bind (tends_orFail _ _ _) fun field _ => tends_readOwnField grants field
  all_goals exact tends_fail _ _

end

theorem tends_readObjectField (field : FieldEntry) (object : Option Temporary) :
    Tends base loads (having here object) (readObjectField context position field object)
      (fun result => insert result here) fun _ => True :=
  Tends.bind (tends_orFail _ _ _) fun _ _ => .operand fun object isObject => by
    subst isObject
    exact (tends_load (Set.mem_insert _ _)).andThen fun _ => (tends_release rfl).andThen fun _ =>
      tends_produce fun _ => ⟨rfl, rfl, trivial, nofun⟩

theorem tends_newObject (site : Site ExprId) :
    Tends base loads here (newObject context site) (fun result => insert result here) fun _ =>
      True := by
  unfold newObject
  split
  next id _ =>
    refine tends_acquire.andThen fun object => tends_acquire.andThen fun scratch =>
      Tends.andThen (tends_emitAll ?_)
      fun _ => (tends_release rfl).andThen fun _ => .pure rfl trivial
    intro instruction isThere
    rcases mem_objectInit isThere with rfl | isPassive
    · exact ⟨rfl, rfl, trivial, nofun⟩
    · exact Instruction.isAside_of_isPassive isPassive base loads
  all_goals exact tends_fail _ _

/-! ## Operators -/

theorem tends_literal (value : Literal) :
    Tends base loads here (produce position value.load) (fun result => insert result here)
      fun _ => True :=
  tends_produce fun _ => by cases value <;> exact ⟨rfl, rfl, trivial, nofun⟩

theorem tends_applyUnary (opcode : UnaryOpcode) (value : Option Temporary) :
    Tends base loads (having here value) (applyUnary position opcode value)
      (fun result => insert result here) fun _ => True :=
  .operand fun value isValue => by
    subst isValue
    exact (tends_load (Set.mem_insert _ _)).andThen fun _ => (tends_release rfl).andThen fun _ =>
      tends_produce fun _ => ⟨rfl, rfl, trivial, nofun⟩

theorem tends_applyBinary (opcode : Option BinaryOpcode) (left right : Option Temporary) :
    Tends base loads (having (having here left) right) (applyBinary position opcode left right)
      (fun result => insert result here) fun _ => True :=
  .operand fun left isLeft => .operand fun right isRight => by
    subst isLeft isRight
    refine Tends.bind (tends_orFail _ _ _) fun opcode _ => ?_
    refine (tends_loadPair (Set.mem_insert_of_mem _ (Set.mem_insert _ _))
      (Set.mem_insert _ _)).andThen fun _ => ?_
    exact (tends_release (Set.insert_comm _ _ _)).andThen fun _ => (tends_release rfl).andThen
      fun _ => tends_produce fun _ => ⟨rfl, rfl, trivial, nofun⟩

/-! ## Places -/

/-- The frame slot of a place is in front of the spill slots and may be loaded. -/
def StaysInFront (base : Nat) (loads : Nat → Prop) : Place → Prop
  | .frame slot => slot < base ∧ loads slot
  | .area _ | .heap .. => True

section

variable (grants : context.Grants base loads nodes)
include grants

theorem tends_ownFieldPlace (field : FieldEntry) :
    Tends base loads here (ownFieldPlace context position field) (fun place =>
      having here (Place.object? place)) (StaysInFront base loads) := by
  refine Tends.bind (tends_orFail _ _ _) fun offset _ => ?_
  split
  · exact .pure rfl trivial
  · exact Tends.bind (tends_orFail _ _ _) fun slot isReceiver =>
      (tends_produce fun _ => aside_loadStack grants (.inl isReceiver)).andThen fun _ =>
        .pure rfl trivial

theorem tends_place {target : Expr} (isNode : target ∈ nodes) {object : Option Temporary}
    (fits : FitsTarget context target object) :
    Tends base loads (having here object) (place context position target object)
      (fun place => having here (Place.object? place)) (StaysInFront base loads) := by
  unfold place
  split
  next site name =>
    rcases fits with rfl | ⟨_, _, _, _, ⟨⟩, _⟩
    split
    next id bound =>
      exact Tends.bind (tends_orFail _ _ _) fun slot isSlot =>
        .pure rfl (grants.keeps (MethodContext.reads_of_slotOf? isNode bound isSlot))
    all_goals exact Tends.bind (tends_orFail _ _ _) fun field _ => tends_ownFieldPlace grants field
  next site receiver name =>
    refine Tends.bind (tends_orFail _ _ _) fun field found => ?_
    split
    next =>
      refine Tends.bind (tends_orFail _ _ _) fun offset _ => .operand fun object isObject => ?_
      subst isObject
      exact .pure rfl trivial
    next noObject =>
      rcases fits with rfl | ⟨_, _, _, other, ⟨⟩, otherFound, needed⟩
      · exact tends_ownFieldPlace grants field
      · obtain rfl := Option.some.inj (found.symm.trans otherFound)
        exact absurd needed noObject
  all_goals exact tends_fail _ _

end

section

variable {place : Place} (stays : StaysInFront base loads place)
include stays

theorem tends_readPlace (target : Register)
    (isHere : ∀ object, Place.object? place = some object → object ∈ here) :
    Tends base loads here (readPlace position target place) (fun _ => here) fun _ => True := by
  cases place with
  | frame slot =>
    refine tends_emit ⟨rfl, rfl, stays.1, ?_⟩
    rintro _ _ ⟨⟩
    exact stays.2
  | area offset => exact tends_passive rfl
  | heap object offset => exact (tends_load (isHere object rfl)).andThen fun _ => tends_passive rfl

theorem tends_writePlace (source : Register) :
    Tends base loads (having here (Place.object? place)) (writePlace position source place)
      (fun _ => here) fun _ => True := by
  cases place with
  | frame slot => exact tends_emit ⟨rfl, rfl, stays.1, nofun⟩
  | area offset => exact tends_passive rfl
  | heap object offset =>
    exact (tends_load (Set.mem_insert _ _)).andThen fun _ => (tends_passive rfl).andThen fun _ =>
      tends_release rfl

theorem tends_stepPlace (opcode : BinaryOpcode) (isDouble yieldsNew : Bool) :
    Tends base loads (having here (Place.object? place))
      (stepPlace position opcode isDouble yieldsNew place)
      (fun result => insert result here) fun _ => True := by
  refine tends_acquire.andThen fun old =>
    Tends.andThen (tends_readPlace stays _ fun object isObject => ?_) fun _ =>
    tends_acquire.andThen fun new => Tends.andThen (tends_passive ?_) fun _ =>
    (tends_passive rfl).andThen fun _ => ?_
  · rw [isObject]
    exact Set.mem_insert_of_mem _ (Set.mem_insert _ _)
  · unfold loadOne
    split <;> rfl
  · rw [insert_having, insert_having]
    refine (tends_writePlace stays _).andThen fun _ => ?_
    split
    · exact (tends_release (Set.insert_comm _ _ _)).andThen fun _ => .pure rfl trivial
    · exact (tends_release rfl).andThen fun _ => .pure rfl trivial

end

/-! ## Calls -/

theorem tends_pushThis (grants : context.Grants base loads nodes) :
    Tends base loads here (pushThis context position) (fun _ => here) fun _ => True :=
  Tends.bind (tends_orFail _ _ _) fun _ isReceiver => tends_acquire.andThen fun _ =>
    (tends_emit (aside_loadStack grants (.inl isReceiver))).andThen fun _ =>
      (tends_push _).andThen fun _ => tends_release rfl

theorem tends_pushArgument (argument : Option Temporary) :
    Tends base loads (having here argument) (pushArgument position argument)
      (fun _ => here) fun _ => True :=
  .operand fun argument isArgument => by
    subst isArgument
    exact (tends_load (Set.mem_insert _ _)).andThen fun _ => (tends_push _).andThen fun _ =>
      tends_release rfl

theorem tends_pushArguments (arguments : List (Option Temporary)) :
    Tends base loads (havingAll here arguments) (arguments.forM (pushArgument position))
      (fun _ => here) fun _ => True := by
  induction arguments with
  | nil => exact .pure rfl trivial
  | cons argument rest ih =>
    change Tends base loads (havingAll (having here argument) rest) _ _ _
    rw [having_havingAll, List.forM_eq_forM, List.forM_cons]
    exact (tends_pushArgument argument).andThen fun _ => ih

/-- The receiver is pushed, and waits for the call. -/
theorem tends_pushReceiver (receiver : Option Temporary) (arguments : List (Option Temporary)) :
    Tends base loads (havingAll (having here receiver) arguments) (pushReceiver position receiver)
      (fun result => havingAll (insert result here) arguments) fun _ => True :=
  .operand fun receiver isReceiver => by
    subst isReceiver
    exact (tends_load (mem_havingAll (Set.mem_insert _ _) arguments)).andThen fun _ =>
      (tends_push _).andThen fun _ => .pure rfl trivial

theorem tends_callThrough (receiver : Temporary) (slot : Nat) :
    Tends base loads (insert receiver here) (callThrough position receiver slot)
      (fun _ => here) fun _ => True :=
  (tends_load (Set.mem_insert _ _)).andThen fun _ => (tends_release rfl).andThen fun _ =>
    tends_acquire.andThen fun _ => (tends_passive rfl).andThen fun _ =>
      (tends_call rfl).andThen fun _ => tends_release rfl

theorem tends_callThroughThis (grants : context.Grants base loads nodes) (slot : Nat) :
    Tends base loads here (callThroughThis context position slot) (fun _ => here) fun _ => True :=
  Tends.bind (tends_orFail _ _ _) fun _ isReceiver => tends_acquire.andThen fun _ =>
    (tends_emit (aside_loadStack grants (.inl isReceiver))).andThen fun _ =>
    (tends_passive rfl).andThen fun _ => (tends_call rfl).andThen fun _ => tends_release rfl

theorem tends_finishCall (target : CallTarget) (pushed : Nat) :
    Tends base loads here (finishCall context position target pushed) (having here) fun _ =>
      True := by
  unfold finishCall
  refine Tends.bind_if (fun _ => tends_emit ⟨rfl, rfl, trivial, nofun⟩) (fun _ => rfl) ?_
  split
  · split
    · exact .pure rfl trivial
    · exact Tends.andThen (tends_produce fun _ => ⟨rfl, rfl, trivial, nofun⟩) fun _ =>
        .pure rfl trivial
  · exact .pure rfl trivial

/-- Whether or not the receiver of a call was evaluated, the call leaves nothing but its result. -/
theorem tends_generateCall (grants : context.Grants base loads nodes) {target : CallTarget}
    {receiver : Option (Option Temporary)}
    (fits : receiver = none ∨ evaluatesReceiver target.dispatch = true)
    (arguments : List (Option Temporary)) :
    Tends base loads (havingAll (having here receiver.join) arguments)
      (generateCall context position target receiver arguments) (having here) fun _ => True := by
  unfold generateCall
  split
  next slot receiver _ =>
    refine (tends_pushReceiver receiver arguments).andThen fun receiver => ?_
    exact (tends_pushArguments arguments).andThen fun _ => (tends_spillAllExcept _).andThen fun _ =>
      (tends_callThrough receiver slot).andThen fun _ => tends_finishCall target _
  next slot _ =>
    exact (tends_pushThis grants).andThen fun _ => (tends_pushArguments arguments).andThen fun _ =>
      (tends_spillAllExcept _).andThen fun _ => (tends_callThroughThis grants slot).andThen fun _ =>
        tends_finishCall target _
  next isSuper =>
    obtain rfl := fits.resolve_right (by simp [isSuper, evaluatesReceiver])
    exact (tends_pushThis grants).andThen fun _ => (tends_pushArguments arguments).andThen fun _ =>
      (tends_spillAllExcept _).andThen fun _ => (tends_call rfl).andThen fun _ =>
        tends_finishCall target _
  next isStatic =>
    obtain rfl := fits.resolve_right (by simp [isStatic, evaluatesReceiver])
    exact (tends_pushArguments arguments).andThen fun _ => (tends_spillAllExcept _).andThen fun _ =>
      (tends_call rfl).andThen fun _ => tends_finishCall target _

end Generating

end Decaf
