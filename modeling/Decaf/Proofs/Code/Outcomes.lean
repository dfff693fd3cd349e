import Decaf.Proofs.Code.Temporaries

/-!
# Steps that may fail

What can be said about a step of code generation without knowing that it succeeds. It is all that is
needed of a program whose listing is there.
-/

namespace Decaf

namespace Generating

variable {Result Next : Type} {before : Generation}

/-- If a step succeeds, its result and the state afterwards satisfy `post`. -/
def Whenever (step : Generating Result) (before : Generation) (post : Result → Generation → Prop) :
    Prop :=
  ∀ result after, step.run before = .ok (result, after) → post result after

theorem Succeeds.whenever {step : Generating Result} {post : Result → Generation → Prop}
    (succeeds : Succeeds step before post) : Whenever step before post := by
  rcases succeeds with ⟨result, after, ran, holds⟩
  intro other last otherRan
  obtain ⟨rfl, rfl⟩ := Prod.mk.inj (Except.ok.inj (ran.symm.trans otherRan))
  exact holds

namespace Whenever

variable {step : Generating Result} {post : Result → Generation → Prop}

theorem pure {result : Result} (holds : post result before) :
    Whenever (Pure.pure result) before post := by
  rintro _ _ ⟨⟩
  exact holds

theorem bind {next : Result → Generating Next} {last : Next → Generation → Prop}
    (first : Whenever step before post)
    (rest : ∀ result between, post result between → Whenever (next result) between last) :
    Whenever (step >>= next) before last := by
  intro final after ran
  rw [StateT.run_bind] at ran
  cases firstRan : step.run before with
  | error diagnostic =>
    rw [firstRan] at ran
    cases ran
  | ok outcome =>
    rw [firstRan] at ran
    exact rest outcome.1 outcome.2 (first outcome.1 outcome.2 firstRan) final after ran

theorem mono {weaker : Result → Generation → Prop} (whenever : Whenever step before post)
    (weaken : ∀ result after, post result after → weaker result after) :
    Whenever step before weaker :=
  fun result after ran => weaken result after (whenever result after ran)

theorem and {other : Result → Generation → Prop} (whenever : Whenever step before post)
    (also : Whenever step before other) :
    Whenever step before fun result after => post result after ∧ other result after :=
  fun result after ran => ⟨whenever result after ran, also result after ran⟩

section

variable {value : Result} {between : Generation} {last : Next → Generation → Prop}

/-- A step whose outcome is known comes first. -/
theorem goOnWith {next : Result → Generating Next}
    (known : Whenever step before fun result after => value = result ∧ between = after)
    (rest : Whenever (next value) between last) : Whenever (step >>= next) before last := by
  refine known.bind ?_
  rintro _ _ ⟨rfl, rfl⟩
  exact rest

theorem goOn {code : Generating Unit} {next : Unit → Generating Next}
    (known : Whenever code before fun _ after => after = between)
    (rest : Whenever (next ()) between last) : Whenever (code >>= next) before last :=
  known.bind fun _ _ sameState => sameState ▸ rest

theorem goesTo {code : Generating Unit} {post : Unit → Generation → Prop}
    (known : Whenever code before fun _ after => after = between) (holds : post () between) :
    Whenever code before post :=
  known.mono fun _ _ sameState => sameState ▸ holds

end

/-- It is not forgotten how a step was carried out. -/
theorem withRun (whenever : Whenever step before post) :
    Whenever step before fun result after =>
      post result after ∧ step.run before = .ok (result, after) :=
  fun result after ran => ⟨whenever result after ran, ran⟩

theorem map {change : Result → Next} {last : Next → Generation → Prop}
    (whenever : Whenever step before post)
    (weaken : ∀ result after, post result after → last (change result) after) :
    Whenever (change <$> step) before last := by
  rw [map_eq_pure_bind]
  exact whenever.bind fun result after holds => .pure (weaken result after holds)

/-- A step that is left out under some condition. -/
theorem bind_if {condition : Prop} [Decidable condition] {step : Generating Unit}
    {post : Unit → Generation → Prop} {next : Unit → Generating Next}
    {last : Next → Generation → Prop}
    (first : Whenever (if condition then step else Pure.pure ()) before post)
    (rest : ∀ between, post () between → Whenever (next ()) between last) :
    Whenever (if condition then step >>= next else next ()) before last := by
  split
  next holds =>
    rw [if_pos holds] at first
    exact first.bind fun _ => rest
  next fails =>
    rw [if_neg fails] at first
    exact rest before (first () before rfl)

end Whenever

theorem whenever_fail (position : Position) (explanation : String)
    {post : Result → Generation → Prop} : Whenever (fail position explanation) before post :=
  nofun

theorem whenever_orFail (content : Option Result) (position : Position) (explanation : String) :
    Whenever (orFail content position explanation) before fun result after =>
      content = some result ∧ before = after := by
  cases content with
  | some result => exact .pure ⟨rfl, rfl⟩
  | none => exact whenever_fail _ _

/-- What has to be there is there when the code goes on. -/
theorem whenever_found {content : Option Result} {position : Position} {explanation : String}
    {next : Result → Generating Next} {post : Next → Generation → Prop}
    (rest : ∀ result, content = some result → Whenever (next result) before post) :
    Whenever (orFail content position explanation >>= next) before post := by
  refine (whenever_orFail _ _ _).bind ?_
  rintro result _ ⟨found, rfl⟩
  exact rest result found

theorem whenever_operand (position : Position) (value : Option Temporary) :
    Whenever (operand position value) before fun result after =>
      value = some result ∧ before = after :=
  whenever_orFail value position _

theorem whenever_conclude {step : Generating Result} {post : Result → Generation → Prop}
    (whenever : Whenever step before post) :
    Whenever (conclude step) before fun result after => ∃ between,
      post result between ∧ after = between.unpinned := by
  refine whenever.bind fun result between holds => ?_
  refine succeeds_unpinAll.whenever.bind fun _ after afterEq => ?_
  exact .pure ⟨between, holds, afterEq⟩

theorem whenever_get : Whenever get before fun now after => before = now ∧ before = after :=
  .pure ⟨rfl, rfl⟩

theorem whenever_withPool {position : Position} {operation : RegisterPool.Operation Result}
    {post : Result → Generation → Prop}
    (holds : ∀ result session, operation.run before.session = (.ok result, session) →
      post result (before.resume session)) :
    Whenever (withPool position operation) before post := by
  intro result after ran
  rw [run_withPool] at ran
  split at ran
  next found session operated =>
    obtain ⟨rfl, rfl⟩ := Prod.mk.inj (Except.ok.inj ran)
    exact holds found session operated
  next => cases ran

theorem whenever_freshLabel : Whenever freshLabel before fun label after =>
    Label.inner before.emitter.nextLabel = label ∧
      { before with emitter := { before.emitter with nextLabel := before.emitter.nextLabel + 1 } } =
        after := by
  rintro _ _ ⟨⟩
  exact ⟨rfl, rfl⟩

end Generating

end Decaf
