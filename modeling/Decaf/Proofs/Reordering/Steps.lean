import Decaf.Proofs.Pool.Operations
import Decaf.Proofs.Code.Steps

/-!
# Operations and steps side by side

What an operation does to the pool, and whether it fails, is a matter of the pool alone. The code
that was emitted before decides nothing.
-/

namespace Decaf

namespace RegisterPool

variable {Result Next : Type}

/-- How an operation ends, and the pool that it leaves behind. -/
def Operation.ends (operation : Operation Result) (session : Session) :
    Except PoolFault Result × RegisterPool :=
  ((operation.run session).1, (operation.run session).2.pool)

/-- The operation ends in the same way whatever code was emitted before. -/
def Operation.IgnoresCode (operation : Operation Result) : Prop :=
  ∀ session other : Session, session.pool = other.pool →
    operation.ends session = operation.ends other

namespace Operation.IgnoresCode

variable {operation : Operation Result} {next : Result → Operation Next}

theorem pure (result : Result) : IgnoresCode (Pure.pure result) :=
  fun _ _ same => Prod.ext rfl same

theorem bind (first : IgnoresCode operation) (rest : ∀ result, IgnoresCode (next result)) :
    IgnoresCode (operation >>= next) := by
  intro session other same
  have firstEnds := Prod.mk.inj (first session other same)
  rw [ends, ends, run_bind, run_bind]
  generalize operation.run session = ended, operation.run other = otherEnded at firstEnds
  rcases ended with ⟨outcome, between⟩
  rcases otherEnded with ⟨otherOutcome, otherBetween⟩
  obtain ⟨rfl, poolEq⟩ := firstEnds
  cases outcome with
  | error fault => exact Prod.ext rfl poolEq
  | ok result => exact rest result between otherBetween poolEq

theorem forM {Item : Type} {step : Item → Operation Unit} (each : ∀ item, IgnoresCode (step item))
    (items : List Item) : IgnoresCode (items.forM step) := by
  induction items with
  | nil => exact .pure ()
  | cons item items ih => exact (each item).bind fun _ => ih

end Operation.IgnoresCode

open Operation

theorem ignoresCode_spill (register : Nat) (temporary : Temporary) :
    IgnoresCode (spill register temporary) := by
  intro session other same
  simp only [ends, run_spill, spilledSession, same]

theorem ignoresCode_evict : IgnoresCode evict := by
  intro session other same
  simp only [ends, run_evict, same]
  cases other.pool.victim? with
  | none => simp only [same]
  | some victim => simp only [spilledSession, same]

theorem ignoresCode_vacate : IgnoresCode vacate := by
  intro session other same
  simp only [ends, run_vacate, same]
  cases other.pool.freeRegister? with
  | none => exact ignoresCode_evict session other same
  | some register => simp only [same]

theorem ignoresCode_occupy (register : Nat) : IgnoresCode (occupy register) := by
  intro session other same
  simp only [ends, run_occupy, occupiedSession, same]

theorem ignoresCode_acquire : IgnoresCode acquire :=
  ignoresCode_vacate.bind ignoresCode_occupy

theorem ignoresCode_acquireSpecific (register : Nat) : IgnoresCode (acquireSpecific register) := by
  intro session other same
  simp only [ends, run_acquireSpecific, same]
  cases other.pool.content? register with
  | none => exact ignoresCode_occupy register session other same
  | some resident =>
    dsimp only
    split
    · simp only [same]
    · exact ignoresCode_occupy register _ _ (by simp only [spilledSession, same])

theorem ignoresCode_reload (temporary : Temporary) (slot : Nat) :
    IgnoresCode (reload temporary slot) := by
  refine ignoresCode_vacate.bind fun register => ?_
  intro session other same
  simp only [ends, run_bind, run_modify, run_pure, same]

theorem ignoresCode_fetch (temporary : Temporary) : IgnoresCode (fetch temporary) := by
  intro session other same
  simp only [ends, run_fetch, same]
  cases other.pool.registerOf? temporary with
  | some register => simp only [same]
  | none =>
    cases other.pool.slotOf? temporary with
    | some slot => exact ignoresCode_reload temporary slot session other same
    | none => simp only [same]

theorem ignoresCode_pinAll (temporaries : List Temporary) : IgnoresCode (pinAll temporaries) := by
  intro session other same
  simp only [ends, pinAll, run_modify, same]

theorem ignoresCode_loadOne (temporary : Temporary) : IgnoresCode (loadOne temporary) :=
  (ignoresCode_pinAll _).bind fun _ => ignoresCode_fetch temporary

theorem ignoresCode_loadPair (left right : Temporary) : IgnoresCode (loadPair left right) :=
  (ignoresCode_pinAll _).bind fun _ => (ignoresCode_fetch left).bind fun _ =>
    (ignoresCode_fetch right).bind fun _ => .pure _

theorem ignoresCode_spillAllExcept (kept : List Temporary) : IgnoresCode (spillAllExcept kept) := by
  intro session other same
  rw [spillAllExcept, ends, ends, run_bind, run_bind, run_get, run_get]
  dsimp only
  rw [same]
  refine IgnoresCode.forM (fun resident => ?_) _ session other same
  exact ignoresCode_spill resident.1 resident.2.temporary

end RegisterPool

/-!
## Code generation side by side

Two steps of code generation go side by side when, from states with the same temporaries and equally
many loops around, they both fail or both come to such states again. The code itself may be any.
-/

/-- Two states of code generation agree in all that decides whether it goes on. -/
structure Generation.Alike (generation other : Generation) : Prop where
  pool_eq : generation.pool = other.pool
  depth_eq : generation.emitter.loops.length = other.emitter.loops.length

theorem Generation.Alike.ends {Result : Type} {generation other : Generation}
    (alike : generation.Alike other) {operation : RegisterPool.Operation Result}
    (ignoresCode : operation.IgnoresCode) :
    operation.ends generation.session = operation.ends other.session :=
  ignoresCode _ _ alike.pool_eq

namespace Generating

variable {Result OtherResult Next OtherNext : Type} {related : Result → OtherResult → Prop}
  {last : Next → OtherNext → Prop} {position otherPosition : Position}

/-- Two steps end in the same way. -/
inductive EndsAlike (related : Result → OtherResult → Prop) :
    Except Diagnostic (Result × Generation) → Except Diagnostic (OtherResult × Generation) → Prop
  | done {result : Result} {otherResult : OtherResult} {after otherAfter : Generation}
      (same : related result otherResult) (alike : after.Alike otherAfter) :
      EndsAlike related (.ok (result, after)) (.ok (otherResult, otherAfter))
  | failed {diagnostic otherDiagnostic : Diagnostic} :
      EndsAlike related (.error diagnostic) (.error otherDiagnostic)

/-- Two steps go side by side to related results. -/
def Matches (related : Result → OtherResult → Prop) (step : Generating Result)
    (other : Generating OtherResult) : Prop :=
  ∀ before otherBefore : Generation, before.Alike otherBefore →
    EndsAlike related (step.run before) (other.run otherBefore)

namespace Matches

variable {step : Generating Result} {other : Generating OtherResult}
  {next : Result → Generating Next} {otherNext : OtherResult → Generating OtherNext}
variable {condition otherCondition : Prop}

theorem pure {result : Result} {otherResult : OtherResult} (same : related result otherResult) :
    Matches related (Pure.pure result) (Pure.pure otherResult) :=
  fun _ _ alike => .done same alike

theorem bind (first : Matches related step other)
    (rest : ∀ result otherResult, related result otherResult →
      Matches last (next result) (otherNext otherResult)) :
    Matches last (step >>= next) (other >>= otherNext) := by
  intro before otherBefore alike
  have ends := first before otherBefore alike
  rw [StateT.run_bind, StateT.run_bind]
  generalize step.run before = ended, other.run otherBefore = otherEnded at ends
  cases ends with
  | done same alike => exact rest _ _ same _ _ alike
  | failed => exact .failed

/-- Behind steps with the same result. -/
theorem andThen {step other : Generating Result} {otherNext : Result → Generating OtherNext}
    (first : Matches Eq step other) (rest : ∀ result,
      Matches last (next result) (otherNext result)) :
    Matches last (step >>= next) (other >>= otherNext) := by
  refine first.bind ?_
  rintro result _ rfl
  exact rest result

theorem map {change : Result → Next} {otherChange : OtherResult → OtherNext}
    (matched : Matches related step other)
    (weaken : ∀ result otherResult, related result otherResult →
      last (change result) (otherChange otherResult)) :
    Matches last (change <$> step) (otherChange <$> other) := by
  rw [map_eq_pure_bind, map_eq_pure_bind]
  exact matched.bind fun result otherResult same => .pure (weaken result otherResult same)

theorem ite [Decidable condition] [Decidable otherCondition]
    {thenStep elseStep : Generating Result} {thenOther elseOther : Generating OtherResult}
    (same : otherCondition ↔ condition) (thenMatches : Matches related thenStep thenOther)
    (elseMatches : Matches related elseStep elseOther) :
    Matches related (if condition then thenStep else elseStep)
      (if otherCondition then thenOther else elseOther) := by
  by_cases holds : condition
  · rw [if_pos holds, if_pos (same.mpr holds)]
    exact thenMatches
  · rw [if_neg holds, if_neg (mt same.mp holds)]
    exact elseMatches

/-- A step that is left out under some condition, and what comes behind it. -/
theorem bind_if [Decidable condition] [Decidable otherCondition] {step other : Generating Unit}
    {next : Unit → Generating Next} {otherNext : Unit → Generating OtherNext}
    (first : Matches Eq (if condition then step else Pure.pure ())
      (if otherCondition then other else Pure.pure ()))
    (rest : Matches last (next ()) (otherNext ())) :
    Matches last (if condition then step >>= next else next ())
      (if otherCondition then other >>= otherNext else otherNext ()) := by
  have unfolds {Later : Type} (holds : Prop) [Decidable holds] (step : Generating Unit)
      (next : Unit → Generating Later) :
      (if holds then step >>= next else next ()) = (if holds then step else Pure.pure ()) >>=
      next := by
    split <;> rfl
  rw [unfolds, unfolds]
  exact first.bind fun _ _ _ => rest

theorem forM {Item OtherItem : Type} {pairs : Item → OtherItem → Prop}
    {step : Item → Generating Unit} {other : OtherItem → Generating Unit}
    (each : ∀ item otherItem, pairs item otherItem → Matches Eq (step item) (other otherItem))
    {items : List Item} {otherItems : List OtherItem} (same : List.Forall₂ pairs items otherItems) :
    Matches Eq (items.forM step) (otherItems.forM other) := by
  induction same with
  | nil => exact .pure rfl
  | cons itemSame _ ih => exact (each _ _ itemSame).andThen fun _ => ih

theorem some {step other : Generating Result} (matched : Matches Eq step other) :
    Matches Eq (Option.some <$> step) (Option.some <$> other) :=
  matched.map fun _ _ => congrArg Option.some

end Matches

/-! ## Steps that fail and steps that do not -/

theorem matches_fail (explanation otherExplanation : String) :
    Matches related (fail position explanation) (fail otherPosition otherExplanation) :=
  fun _ _ _ => .failed

theorem matches_orFail {content : Option Result} {otherContent : Option OtherResult}
    (same : Option.Rel related content otherContent) (explanation otherExplanation : String) :
    Matches related (orFail content position explanation)
      (orFail otherContent otherPosition otherExplanation) := by
  cases same with
  | some same => exact .pure same
  | none => exact matches_fail _ _

theorem matches_get : Matches Generation.Alike get get :=
  fun _ _ alike => .done alike alike

theorem matches_modify {change otherChange : Generation → Generation}
    (keeps : ∀ generation other, generation.Alike other →
      (change generation).Alike (otherChange other)) :
    Matches Eq (modify change) (modify otherChange) :=
  fun before otherBefore alike => .done rfl (keeps before otherBefore alike)

theorem matches_emit (instruction otherInstruction : Instruction) :
    Matches Eq (emit instruction) (emit otherInstruction) :=
  matches_modify fun _ _ alike => ⟨alike.pool_eq, alike.depth_eq⟩

theorem matches_emitAll (instructions otherInstructions : List Instruction) :
    Matches Eq (emitAll instructions) (emitAll otherInstructions) :=
  matches_modify fun _ _ alike => ⟨alike.pool_eq, alike.depth_eq⟩

/-- Emitting or not makes no difference. -/
theorem matches_emitIf (condition otherCondition : Prop) [Decidable condition]
    [Decidable otherCondition] (instruction otherInstruction : Instruction) :
    Matches Eq (if condition then emit instruction else pure ())
      (if otherCondition then emit otherInstruction else pure ()) := by
  have change (holds : Prop) [Decidable holds] (emitted : Instruction) :
      (if holds then emit emitted else pure ()) = modify fun generation =>
        if holds then { generation with emitter := generation.emitter.emit emitted }
        else generation := by
    split <;> rfl
  rw [change, change]
  refine matches_modify fun _ _ alike => ?_
  split <;> split <;> exact ⟨alike.pool_eq, alike.depth_eq⟩

theorem matches_freshLabel : Matches (fun _ _ => True) freshLabel freshLabel :=
  fun _ _ alike => .done trivial ⟨alike.pool_eq, alike.depth_eq⟩

/-! ## Temporaries -/

theorem matches_withPool {operation : RegisterPool.Operation Result}
    (ignoresCode : operation.IgnoresCode) :
    Matches Eq (withPool position operation) (withPool otherPosition operation) := by
  intro before otherBefore alike
  have ends := Prod.mk.inj (alike.ends ignoresCode)
  rw [run_withPool, run_withPool]
  generalize operation.run before.session = ended,
    operation.run otherBefore.session = otherEnded at ends
  rcases ended with ⟨outcome, session⟩
  rcases otherEnded with ⟨otherOutcome, otherSession⟩
  obtain ⟨rfl, poolEq⟩ := ends
  cases outcome with
  | error fault => exact .failed
  | ok result => exact .done rfl ⟨poolEq, alike.depth_eq⟩

theorem matches_acquire : Matches Eq (acquire position) (acquire otherPosition) :=
  matches_withPool RegisterPool.ignoresCode_acquire

theorem matches_produce (instruction otherInstruction : Register → Instruction) :
    Matches Eq (produce position instruction) (produce otherPosition otherInstruction) := by
  refine matches_acquire.andThen ?_
  rintro ⟨temporary, register⟩
  exact (matches_emit _ _).andThen fun _ => .pure rfl

theorem matches_load (temporary : Temporary) :
    Matches Eq (load position temporary) (load otherPosition temporary) :=
  matches_withPool (RegisterPool.ignoresCode_loadOne temporary)

theorem matches_release (temporary : Temporary) :
    Matches Eq (release temporary) (release temporary) :=
  matches_modify fun _ _ alike =>
    ⟨congrArg (RegisterPool.release · temporary) alike.pool_eq, alike.depth_eq⟩

theorem matches_unpinAll : Matches Eq unpinAll unpinAll :=
  matches_modify fun _ _ alike => ⟨congrArg RegisterPool.unpinAll alike.pool_eq, alike.depth_eq⟩

theorem matches_spillAllExcept (kept : List Temporary) :
    Matches Eq (spillAllExcept position kept) (spillAllExcept otherPosition kept) :=
  matches_withPool (RegisterPool.ignoresCode_spillAllExcept kept)

theorem matches_operand (value : Option Temporary) :
    Matches Eq (operand position value) (operand otherPosition value) := by
  refine matches_orFail ?_ _ _
  cases value with
  | none => exact .none
  | some temporary => exact .some rfl

theorem Matches.conclude {step : Generating Result} {other : Generating OtherResult}
    (matched : Matches related step other) :
    Matches related (Generating.conclude step) (Generating.conclude other) :=
  matched.bind fun _ _ same => matches_unpinAll.andThen fun _ => .pure same

end Generating

end Decaf
