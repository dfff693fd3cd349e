import Decaf.Code.Generation
import Decaf.Proofs.Machine.Execution
import Decaf.Proofs.Pool.Pinned

/-!
# Steps of code generation

A step of code generation that succeeds emits a block of code and may move temporaries about.
`Emits` says what every such step keeps. A step that is put together from others succeeds if these
do, one after the other.
-/

namespace Decaf

namespace Instruction

/-- The registers that an instruction names. -/
def registers : Instruction → List Register
  | .moveInt target _ | .moveDouble target _ | .moveString target _ | .moveLabel target _ =>
    [target]
  | .move target source | .unary _ target source => [target, source]
  | .loadStack target _ | .loadStatic target _ | .allocate target _ => [target]
  | .storeStack _ source | .storeStatic _ source | .push source | .retValue source
  | .print _ source => [source]
  | .loadHeap target base _ => [target, base]
  | .storeHeap base _ source => [base, source]
  | .binary _ target left right => [target, left, right]
  | .branchIfZero condition _ | .branchIfNonzero condition _ => [condition]
  | .callVirtual table _ => [table]
  | .label _ | .staticData _ | .vtable .. | .jump _ | .pop _ | .call _ | .enter _ | .ret | .halt =>
    []

/-- An instruction names general registers below a bound only. -/
def NamesBelow (bound : Nat) (instruction : Instruction) : Prop :=
  ∀ index, .general index ∈ instruction.registers → index < bound

theorem namesBelow_of_spillMove {pool : RegisterPool} {move : Instruction}
    (spills : pool.SpillMove move) : move.NamesBelow pool.registers.length := by
  intro index named
  cases spills with
  | out registerLt _ =>
    simp only [registers, List.mem_singleton, Register.general.injEq] at named
    exact named ▸ registerLt
  | back registerLt _ =>
    simp only [registers, List.mem_singleton, Register.general.injEq] at named
    exact named ▸ registerLt

end Instruction

/-! ## What steps keep -/

namespace Generation

variable {before between after : Generation} {block more : List Instruction}
  {moved : List Temporary}

/-- The generation as the pool's operations see it. -/
def session (generation : Generation) : RegisterPool.Session :=
  ⟨generation.pool, generation.emitter.code⟩

/-- Goes on after an operation of the pool. -/
def resume (generation : Generation) (session : RegisterPool.Session) : Generation :=
  ⟨session.pool, { generation.emitter with code := session.code }⟩

/-- A block of code was emitted. The spilled temporaries that are not in `moved` are where they
were. -/
structure Emits (before after : Generation) (block : List Instruction) (moved : List Temporary) :
    Prop where
  wellFormed : after.pool.WellFormed
  length_eq : after.pool.registers.length = before.pool.registers.length
  base_eq : after.pool.spillBase = before.pool.spillBase
  next_le : before.pool.nextTemporary ≤ after.pool.nextTemporary
  loops_eq : after.emitter.loops = before.emitter.loops
  nextLabel_le : before.emitter.nextLabel ≤ after.emitter.nextLabel
  code_eq : after.emitter.code.toList = before.emitter.code.toList ++ block
  named : ∀ instruction ∈ block, instruction.NamesBelow before.pool.registers.length
  spilled_keeps : ∀ entry ∈ before.pool.spilled, entry.temporary ∉ moved →
    entry ∈ after.pool.spilled

namespace Emits

theorem refl (wellFormed : before.pool.WellFormed) : Emits before before [] [] where
  wellFormed := wellFormed
  length_eq := rfl
  base_eq := rfl
  next_le := Nat.le_refl _
  loops_eq := rfl
  nextLabel_le := Nat.le_refl _
  code_eq := (List.append_nil _).symm
  named := by simp
  spilled_keeps _ isSpilled _ := isSpilled

theorem trans {laterMoved : List Temporary} (early : Emits before between block moved)
    (late : Emits between after more laterMoved) :
    Emits before after (block ++ more) (moved ++ laterMoved) where
  wellFormed := late.wellFormed
  length_eq := late.length_eq.trans early.length_eq
  base_eq := late.base_eq.trans early.base_eq
  next_le := Nat.le_trans early.next_le late.next_le
  loops_eq := late.loops_eq.trans early.loops_eq
  nextLabel_le := Nat.le_trans early.nextLabel_le late.nextLabel_le
  code_eq := by rw [late.code_eq, early.code_eq, List.append_assoc]
  named := by
    intro instruction isEmitted
    rcases List.mem_append.mp isEmitted with isEarly | isLate
    · exact early.named instruction isEarly
    · exact early.length_eq ▸ late.named instruction isLate
  spilled_keeps := by
    intro entry isSpilled notMoved
    rw [List.mem_append, not_or] at notMoved
    exact late.spilled_keeps entry (early.spilled_keeps entry isSpilled notMoved.1) notMoved.2

/-- Temporaries that were not live before do not count as moved. -/
theorem narrow {fewer : List Temporary} (emits : Emits before after block moved)
    (notLive : ∀ temporary ∈ moved, temporary ∈ fewer ∨ ¬before.pool.IsLive temporary) :
    Emits before after block fewer :=
  { emits with
    spilled_keeps := by
      intro entry isSpilled notFewer
      refine emits.spilled_keeps entry isSpilled fun isMoved => ?_
      rcases notLive _ isMoved with isFewer | isDead
      · exact notFewer isFewer
      · exact isDead (.inr ⟨entry, isSpilled, rfl⟩) }

/-- Moves of the pool are emitted. -/
theorem of_shuffle {session : RegisterPool.Session} {moves : List Instruction}
    (shuffle : RegisterPool.Shuffle before.session session moves)
    (keeps : ∀ entry ∈ before.pool.spilled, entry.temporary ∉ moved →
      entry ∈ session.pool.spilled) :
    Emits before (before.resume session) moves moved where
  wellFormed := shuffle.wellFormed
  length_eq := shuffle.length_eq
  base_eq := shuffle.base_eq
  next_le := Nat.le_of_eq shuffle.next_eq.symm
  loops_eq := rfl
  nextLabel_le := Nat.le_refl _
  code_eq := shuffle.code_eq
  named move isMove := by
    have namesBelow := Instruction.namesBelow_of_spillMove (shuffle.spillMoves move isMove)
    rwa [shuffle.length_eq] at namesBelow
  spilled_keeps := keeps

end Emits

end Generation

/-! ## Steps that succeed -/

namespace Generating

variable {Result Next : Type} {before : Generation}

/-- A step succeeds, with a result and a state afterwards that satisfy `post`. -/
def Succeeds (step : Generating Result) (before : Generation) (post : Result → Generation → Prop) :
    Prop :=
  ∃ result after, step.run before = .ok (result, after) ∧ post result after

namespace Succeeds

variable {step : Generating Result} {post : Result → Generation → Prop}

theorem pure {result : Result} (holds : post result before) :
    Succeeds (Pure.pure result) before post :=
  ⟨result, before, rfl, holds⟩

theorem bind {next : Result → Generating Next} {last : Next → Generation → Prop}
    (first : Succeeds step before post)
    (rest : ∀ result between, post result between → Succeeds (next result) between last) :
    Succeeds (step >>= next) before last := by
  rcases first with ⟨result, between, ran, holds⟩
  rcases rest result between holds with ⟨final, after, ranRest, holdsLast⟩
  refine ⟨final, after, ?_, holdsLast⟩
  rw [StateT.run_bind, ran]
  exact ranRest

theorem mono {weaker : Result → Generation → Prop} (succeeds : Succeeds step before post)
    (weaken : ∀ result after, post result after → weaker result after) :
    Succeeds step before weaker := by
  rcases succeeds with ⟨result, after, ran, holds⟩
  exact ⟨result, after, ran, weaken result after holds⟩

theorem map {change : Result → Next} {last : Next → Generation → Prop}
    (succeeds : Succeeds step before post)
    (weaken : ∀ result after, post result after → last (change result) after) :
    Succeeds (change <$> step) before last := by
  rcases succeeds with ⟨result, after, ran, holds⟩
  refine ⟨change result, after, ?_, weaken result after holds⟩
  rw [StateT.run_map, ran]
  rfl

section

variable {value : Result} {between : Generation} {last : Next → Generation → Prop}

/-- A step whose outcome is known comes first. -/
theorem goOnWith {next : Result → Generating Next}
    (known : Succeeds step before fun result after => value = result ∧ between = after)
    (rest : Succeeds (next value) between last) : Succeeds (step >>= next) before last := by
  refine known.bind ?_
  rintro _ _ ⟨rfl, rfl⟩
  exact rest

theorem goOn {code : Generating Unit} {next : Unit → Generating Next}
    (known : Succeeds code before fun _ after => after = between)
    (rest : Succeeds (next ()) between last) : Succeeds (code >>= next) before last :=
  known.bind fun _ _ sameState => sameState ▸ rest

theorem goesTo {code : Generating Unit} {post : Unit → Generation → Prop}
    (known : Succeeds code before fun _ after => after = between) (holds : post () between) :
    Succeeds code before post :=
  known.mono fun _ _ sameState => sameState ▸ holds

end

/-- A step that is left out under some condition. -/
theorem bind_if {condition : Prop} [Decidable condition] {step : Generating Unit}
    {post : Unit → Generation → Prop} {next : Unit → Generating Next}
    {last : Next → Generation → Prop}
    (first : Succeeds (if condition then step else Pure.pure ()) before post)
    (rest : ∀ between, post () between → Succeeds (next ()) between last) :
    Succeeds (if condition then step >>= next else next ()) before last := by
  split
  next holds =>
    rw [if_pos holds] at first
    exact first.bind fun _ => rest
  next fails =>
    rw [if_neg fails] at first
    rcases first with ⟨_, _, ran, holds⟩
    cases ran
    exact rest before holds

end Succeeds

variable {position : Position}

theorem succeeds_get : Succeeds get before fun now after => before = now ∧ before = after :=
  ⟨_, _, rfl, rfl, rfl⟩

theorem succeeds_orFail {content : Option Result} {result : Result}
    (isThere : content = some result) (position : Position) (explanation : String) :
    Succeeds (orFail content position explanation) before fun found after =>
      result = found ∧ before = after := by
  subst isThere
  exact ⟨result, before, rfl, rfl, rfl⟩

theorem succeeds_operand {value : Option Temporary} {temporary : Temporary}
    (isThere : value = some temporary) (position : Position) :
    Succeeds (operand position value) before fun found after =>
      temporary = found ∧ before = after :=
  succeeds_orFail isThere position _

/-- An operation on the pool goes on with the rest of the emitter unchanged, or its fault becomes an
internal error. -/
theorem run_withPool {operation : RegisterPool.Operation Result} :
    (withPool position operation).run before = match operation.run before.session with
      | (.ok result, session) => .ok (result, before.resume session)
      | (.error fault, _) => .error ⟨position, .internal fault.message⟩ :=
  rfl

theorem succeeds_withPool {operation : RegisterPool.Operation Result}
    {result : Result} {session : RegisterPool.Session}
    (ran : operation.run before.session = (.ok result, session)) :
    Succeeds (withPool position operation) before fun found after =>
      result = found ∧ before.resume session = after := by
  refine ⟨result, before.resume session, ?_, rfl, rfl⟩
  rw [run_withPool, ran]

end Generating

end Decaf
