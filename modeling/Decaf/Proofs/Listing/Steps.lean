import Decaf.Proofs.Listing.Accounts

/-!
# Steps that are accounted for

What a step of code generation adds to the code is accounted for if what was there before is.
`Enacts` says this of a step together with what its code does; steps that follow each other do one
thing after the other.
-/

namespace Decaf

open RegisterPool (OnlySpills MovesTo)

namespace Instruction

variable {instruction : Instruction}

/-- Instructions that only work on registers, on the heap and on the static area, print or
return. -/
def isPassive : Instruction → Bool
  | .moveInt .. | .moveDouble .. | .moveString .. | .move .. | .loadHeap .. | .storeHeap ..
  | .loadStatic ..
  | .storeStatic .. | .binary .. | .unary .. | .allocate .. | .print .. | .ret | .retValue _ => true
  | _ => false

/-- An instruction that places no label, leads nowhere, pushes nothing and calls nothing. -/
structure IsCalm (instruction : Instruction) : Prop where
  label?_eq : instruction.label? = none
  target?_eq : instruction.target? = none
  isLevel : instruction.isLevel = true
  isCall_eq : instruction.isCall = false

theorem isCalm_of_isPassive (isPassive : instruction.isPassive = true) : instruction.IsCalm := by
  cases instruction <;> first | exact ⟨rfl, rfl, rfl, rfl⟩ | cases isPassive

theorem isCalm_of_movesTo {slots : Nat → Prop} (moves : MovesTo slots instruction) :
    instruction.IsCalm := by
  rcases moves with ⟨_, _, _, rfl | rfl⟩ <;> exact ⟨rfl, rfl, rfl, rfl⟩

theorem isAction_of_isPassive (isPassive : instruction.isPassive = true) (base : Nat) :
    instruction.isAction base = false := by
  cases instruction <;> first | rfl | cases isPassive

end Instruction

variable {context : MethodContext} {instruction : Instruction}

theorem MethodContext.fitsFrame_of_isPassive (isPassive : instruction.isPassive = true)
    (slotCount : Nat) : context.FitsFrame slotCount instruction := by
  cases instruction <;> trivial

theorem MethodContext.FitsFrame.mono {slotCount larger : Nat}
    (fits : context.FitsFrame slotCount instruction) (isLe : slotCount ≤ larger) :
    context.FitsFrame larger instruction := by
  have isMore {slot : Nat} : context.frame.spillBase ≤ slot ∧ slot < context.frame.spillBase +
      slotCount →
      context.frame.spillBase ≤ slot ∧ slot < context.frame.spillBase + larger := by
    omega
  cases instruction <;> first | exact fits.imp_right isMore | exact fits

/-- An instruction may stand on the way to a call: it writes nothing in front of the spill slots. -/
structure MethodContext.LeadsUp (context : MethodContext) (slotCount : Nat)
    (instruction : Instruction) : Prop where
  isCode : instruction.isOperandCode = true
  fits : context.FitsFrame slotCount instruction
  spills : ∀ slot source, instruction = .storeStack slot source → context.frame.spillBase ≤ slot

/-- Code was added that leads up to a call. -/
structure Generation.Passing (context : MethodContext) (registerCount : Nat)
    (before after : Generation) (block : List Instruction) : Prop where
  nextLabel_eq : after.emitter.nextLabel = before.emitter.nextLabel
  loops_eq : after.emitter.loops = before.emitter.loops
  code_eq : after.emitter.code.toList = before.emitter.code.toList ++ block
  pool : context.PoolFits registerCount after.pool
  slotCount_le : before.pool.slotCount ≤ after.pool.slotCount
  leadsUp : ∀ instruction ∈ block, context.LeadsUp after.pool.slotCount instruction

theorem MethodContext.PoolFits.released {registerCount : Nat} {pool : RegisterPool}
    (fits : context.PoolFits registerCount pool) (temporary : Temporary) :
    context.PoolFits registerCount (pool.release temporary) where
  base_eq := (RegisterPool.spillBase_release _ _).trans fits.base_eq
  length_eq := (RegisterPool.length_registers_release _ _).trans fits.length_eq
  slotsMade := fits.slotsMade.release temporary
  wellFormed named := (RegisterPool.releases_release (fits.wellFormed named) temporary).wellFormed

/-- The code is accounted for, and starts with what was there before. -/
structure Generation.Gains (context : MethodContext) (registerCount first : Nat)
    (opened : List String) (acts : List Action) (before after : Generation) : Prop where
  isPrefix : before.emitter.code.toList <+: after.emitter.code.toList
  accounted : after.Accounted context registerCount first opened acts

namespace Generation

variable {context : MethodContext} {registerCount first : Nat} {opened : List String}
  {acts more : List Action} {before between after : Generation} {block : List Instruction}
variable {name : String}

/-- Calm code follows. -/
theorem Accounted.append (accounted : before.Accounted context registerCount first opened acts)
    (nextEq : after.emitter.nextLabel = before.emitter.nextLabel)
    (loopsEq : after.emitter.loops = before.emitter.loops)
    (codeEq : after.emitter.code.toList = before.emitter.code.toList ++ block)
    (pool : context.PoolFits registerCount after.pool)
    (slotsLe : before.pool.slotCount ≤ after.pool.slotCount)
    (calm : ∀ instruction ∈ block, instruction.IsCalm)
    (does : List.Forall₂ context.Does
      (block.filter (Instruction.isAction context.frame.spillBase)) more)
    (fits : ∀ instruction ∈ block, context.FitsFrame after.pool.slotCount instruction) :
    after.Accounted context registerCount first opened (acts ++ more) where
  first_le := nextEq ▸ accounted.first_le
  labels := by
    refine accounted.labels.append nextEq loopsEq codeEq ?_ ?_
    · exact List.filterMap_eq_nil_iff.mpr fun instruction isThere =>
        (calm instruction isThere).label?_eq
    · have noTargets : targetsOf block = [] :=
        List.filterMap_eq_nil_iff.mpr fun instruction isThere =>
          (calm instruction isThere).target?_eq
      rw [noTargets]
      exact List.nil_subset _
  acts := by
    rw [codeEq]
    exact accounted.acts.append (fun instruction isThere => (calm instruction isThere).isLevel)
      (fun instruction isThere => (calm instruction isThere).isCall_eq) does
  frame instruction isThere := by
    rw [codeEq] at isThere
    rcases List.mem_append.mp isThere with isEarly | isNew
    · exact (accounted.frame instruction isEarly).mono slotsLe
    · exact fits instruction isNew
  pool := pool

/-- One calm instruction follows. -/
theorem Accounted.emitted (accounted : before.Accounted context registerCount first opened acts)
    (calm : ∀ instruction ∈ block, instruction.IsCalm)
    (does : List.Forall₂ context.Does
      (block.filter (Instruction.isAction context.frame.spillBase)) more)
    (fits : ∀ instruction ∈ block, context.FitsFrame before.pool.slotCount instruction) :
    (before.emitted block).Accounted context registerCount first opened (acts ++ more) :=
  accounted.append rfl rfl (by simp [Generation.emitted, Emitter.append]) accounted.pool
    (Nat.le_refl _) calm does fits

/-! ## On the way to a call -/

theorem Passing.refl (pool : context.PoolFits registerCount before.pool) :
    before.Passing context registerCount before [] :=
  ⟨rfl, rfl, (List.append_nil _).symm, pool, Nat.le_refl _, nofun⟩

theorem Passing.trans {more : List Instruction}
    (early : before.Passing context registerCount between block)
    (late : between.Passing context registerCount after more) :
    before.Passing context registerCount after (block ++ more) where
  nextLabel_eq := late.nextLabel_eq.trans early.nextLabel_eq
  loops_eq := late.loops_eq.trans early.loops_eq
  code_eq := by rw [late.code_eq, early.code_eq, List.append_assoc]
  pool := late.pool
  slotCount_le := Nat.le_trans early.slotCount_le late.slotCount_le
  leadsUp instruction isThere := by
    rcases List.mem_append.mp isThere with isEarly | isLate
    · have leadsUp := early.leadsUp instruction isEarly
      exact { leadsUp with fits := leadsUp.fits.mono late.slotCount_le }
    · exact late.leadsUp instruction isLate

/-- The pool moves temporaries about. -/
theorem Passing.of_spills (pool : context.PoolFits registerCount before.pool)
    {session : RegisterPool.Session} (spills : RegisterPool.Spills before.session session)
    (wellFormed : registerCount ≤ Register.nameCount → session.pool.WellFormed) :
    ∃ moves, before.Passing context registerCount (before.resume session) moves ∧
      (∀ move ∈ moves, move.isLevel = true) ∧ session.code.toList = before.session.code.toList ++
        moves := by
  rcases spills.added with ⟨moves, codeEq, areMoves⟩
  have baseEq : before.pool.spillBase = context.frame.spillBase := pool.base_eq
  refine ⟨moves, ⟨rfl, rfl, codeEq, ?_, spills.slotCount_le, fun move isMove => ?_⟩,
    fun move isMove => ?_, codeEq⟩
  · exact ⟨spills.base_eq.trans baseEq, spills.length_eq.trans pool.length_eq,
      spills.slotsMade pool.slotsMade, wellFormed⟩
  · rcases areMoves move isMove with ⟨slot, ⟨isSpill, isMade⟩, register, isStore | isLoad⟩
    · subst isStore
      have isSpill : context.frame.spillBase ≤ slot := baseEq ▸ isSpill
      refine ⟨rfl, .inr ⟨isSpill, baseEq ▸ isMade pool.slotsMade⟩, ?_⟩
      rintro _ _ ⟨⟩
      exact isSpill
    · subst isLoad
      exact ⟨rfl, .inr ⟨baseEq ▸ isSpill, baseEq ▸ isMade pool.slotsMade⟩, nofun⟩
  · exact (Instruction.isCalm_of_movesTo (areMoves move isMove)).isLevel

theorem Passing.emitted (pool : context.PoolFits registerCount before.pool)
    (leadsUp : ∀ instruction ∈ block, context.LeadsUp before.pool.slotCount instruction) :
    before.Passing context registerCount (before.emitted block) block :=
  ⟨rfl, rfl, by simp [Generation.emitted, Emitter.append], pool, Nat.le_refl _, leadsUp⟩

theorem Passing.released (pool : context.PoolFits registerCount before.pool)
    (temporary : Temporary) :
    before.Passing context registerCount (before.released temporary) [] where
  nextLabel_eq := rfl
  loops_eq := rfl
  code_eq := (List.append_nil _).symm
  pool := pool.released temporary
  slotCount_le := Nat.le_of_eq (RegisterPool.slotCount_release _ _).symm
  leadsUp := nofun

/-- Code is accounted for that may stand on the way to a call and pushes nothing. -/
theorem Accounted.of_passing (accounted : before.Accounted context registerCount first opened acts)
    (passing : before.Passing context registerCount after block)
    (level : ∀ instruction ∈ block, instruction.isLevel = true) :
    after.Accounted context registerCount first opened acts := by
  have isFine (instruction : Instruction) (isThere : instruction ∈ block) :
      instruction.IsCalm ∧ instruction.isAction context.frame.spillBase = false := by
    have leadsUp := passing.leadsUp instruction isThere
    have isLevel := level instruction isThere
    have isCode := leadsUp.isCode
    cases instruction with
    | storeStack slot source =>
      exact ⟨⟨rfl, rfl, rfl, rfl⟩,
        by simpa [Instruction.isAction] using leadsUp.spills slot source rfl⟩
    | loadStack | loadHeap => exact ⟨⟨rfl, rfl, rfl, rfl⟩, rfl⟩
    | push => cases isLevel
    | _ => cases isCode
  rw [← List.append_nil acts]
  refine accounted.append passing.nextLabel_eq passing.loops_eq passing.code_eq passing.pool
    passing.slotCount_le
    (fun instruction isThere => (isFine instruction isThere).1) ?_ fun instruction isThere =>
      (passing.leadsUp instruction isThere).fits
  rw [List.filter_eq_nil_iff.mpr
    fun instruction isThere => by simp [(isFine instruction isThere).2]]
  exact .nil

/-! ## Labels -/

theorem Accounted.perm (accounted : before.Accounted context registerCount first opened acts)
    {reordered : List String} (isPerm : opened.Perm reordered) :
    before.Accounted context registerCount first reordered acts :=
  { accounted with labels := accounted.labels.perm isPerm }

/-- An open label is placed. -/
theorem Accounted.place
    (accounted : before.Accounted context registerCount first (name :: opened) acts) :
    (before.emitted [.label name]).Accounted context registerCount first opened acts where
  first_le := accounted.first_le
  labels := by
    have same : (before.emitted [.label name]).emitter = before.emitter.emit (.label name) := by
      simp [Generation.emitted, Emitter.append, Emitter.emit]
    rw [same]
    exact accounted.labels.place
  acts := by
    have placed : context.ActsFit registerCount (acts ++ [])
        (before.emitter.code.toList ++ [.label name]) :=
      accounted.acts.append (by simp [Instruction.isLevel]) (by simp [Instruction.isCall]) .nil
    simpa [Generation.emitted, Emitter.append] using placed
  frame instruction isThere := by
    have isThere : instruction ∈ before.emitter.code.toList ++ [.label name] := by
      simpa [Generation.emitted, Emitter.append] using isThere
    rcases List.mem_append.mp isThere with isEarly | isNew
    · exact accounted.frame instruction isEarly
    · rw [List.mem_singleton.mp isNew]
      trivial
  pool := accounted.pool

section

variable (accounted : before.Accounted context registerCount first opened acts)
include accounted

/-- An instruction follows that leads to a label that was handed out. -/
theorem Accounted.lead (instruction : Instruction) (leads : instruction.target? = some name)
    (isKnown : name ∈ labelsOf before.emitter.code.toList ++ opened) :
    (before.emitted [instruction]).Accounted context registerCount first opened acts := by
  have isJump : instruction.label? = none ∧ instruction.isLevel = true ∧
      instruction.isCall = false ∧
      instruction.isAction context.frame.spillBase = false ∧
      context.FitsFrame before.pool.slotCount instruction := by
    cases instruction <;> first | exact ⟨rfl, rfl, rfl, rfl, trivial⟩ | cases leads
  rcases isJump with ⟨noLabel, level, noCall, noAction, fits⟩
  have codeEq : (before.emitted [instruction]).emitter.code.toList = before.emitter.code.toList ++
      [instruction] := by
    simp [Generation.emitted, Emitter.append]
  refine ⟨accounted.first_le,
    accounted.labels.append rfl rfl codeEq (by simp [labelsOf, noLabel]) ?_, ?_, ?_, accounted.pool⟩
  · simpa [targetsOf, leads] using isKnown
  · have placed : context.ActsFit registerCount (acts ++ [])
        (before.emitter.code.toList ++ [instruction]) :=
      accounted.acts.append (by simpa using level) (by simpa using noCall) (by simp [noAction])
    simpa [Generation.emitted, Emitter.append] using placed
  · intro other isThere
    rw [codeEq] at isThere
    rcases List.mem_append.mp isThere with isEarly | isNew
    · exact accounted.frame other isEarly
    · rw [List.mem_singleton.mp isNew]
      exact fits

/-- A label is handed out. -/
theorem Accounted.freshLabel :
    Generation.Accounted context registerCount first
      (Label.inner before.emitter.nextLabel :: opened) acts
      { before with emitter := { before.emitter with nextLabel := before.emitter.nextLabel +
        1 } } where
  first_le := Nat.le_succ_of_le accounted.first_le
  labels := accounted.labels.freshLabel accounted.first_le
  acts := accounted.acts
  frame := accounted.frame
  pool := accounted.pool

theorem Accounted.released (temporary : Temporary) :
    (before.released temporary).Accounted context registerCount first opened acts :=
  accounted.of_passing (.released accounted.pool temporary) nofun

theorem Accounted.unpinned : before.unpinned.Accounted context registerCount first opened acts where
  first_le := accounted.first_le
  labels := accounted.labels
  acts := accounted.acts
  frame := accounted.frame
  pool :=
    { base_eq := accounted.pool.base_eq
      length_eq := by
        rw [← accounted.pool.length_eq]
        exact List.length_map _
      slotsMade := accounted.pool.slotsMade.mapResidents _
      wellFormed := fun named =>
        RegisterPool.wellFormed_mapResidents (accounted.pool.wellFormed named) fun _ => rfl }

end

/-! ## Code that grows -/

theorem Gains.refl (accounted : before.Accounted context registerCount first opened acts) :
    before.Gains context registerCount first opened acts before :=
  ⟨List.prefix_refl _, accounted⟩

theorem Gains.trans {inner outer : List String}
    (early : before.Gains context registerCount first inner acts between)
    (late : between.Gains context registerCount first outer more after) :
    before.Gains context registerCount first outer more after :=
  ⟨early.isPrefix.trans late.isPrefix, late.accounted⟩

theorem prefix_emitted (before : Generation) (block : List Instruction) :
    before.emitter.code.toList <+: (before.emitted block).emitter.code.toList :=
  ⟨block, by simp [emitted, Emitter.append]⟩

theorem Gains.released (gains : before.Gains context registerCount first opened acts after)
    (temporary : Temporary) :
    before.Gains context registerCount first opened acts (after.released temporary) :=
  ⟨gains.isPrefix, gains.accounted.released temporary⟩

theorem Gains.unpinned (gains : before.Gains context registerCount first opened acts after) :
    before.Gains context registerCount first opened acts after.unpinned :=
  ⟨gains.isPrefix, gains.accounted.unpinned⟩

end Generation

namespace Generating

open Generation

variable {Result Next : Type} {context : MethodContext} {registerCount first : Nat}
  {more later : List Action}

section

variable (context : MethodContext) (registerCount first : Nat)

/-- Where a step is carried out, its code stands behind what was there, does what is told and no
more, and is accounted for, and the result of the step is as told. -/
def Enacts (more : List Action) (step : Generating Result) (post : Result → Prop) : Prop :=
  ∀ opened acts before, Generation.Accounted context registerCount first opened acts before →
    Whenever step before fun result after =>
      post result ∧ before.Gains context registerCount first opened (acts ++ more) after

end

namespace Enacts

variable {step : Generating Result} {post : Result → Prop} {last : Next → Prop}

theorem pure {result : Result} (holds : post result) :
    Enacts context registerCount first [] (Pure.pure result) post := by
  intro opened acts before accounted
  rw [← List.append_nil acts] at accounted
  exact .pure ⟨holds, .refl accounted⟩

section

variable {next : Result → Generating Next}

theorem bind (early : Enacts context registerCount first more step post)
    (rest : ∀ result, post result → Enacts context registerCount first later (next result) last) :
    Enacts context registerCount first (more ++ later) (step >>= next) last := by
  intro opened acts before accounted
  refine (early opened acts before accounted).bind fun result between ⟨holds, gains⟩ => ?_
  rw [← List.append_assoc]
  exact (rest result holds opened (acts ++ more) between gains.accounted).mono fun _ _ =>
    .imp_right gains.trans

/-- The first step does nothing. -/
theorem andUse (early : Enacts context registerCount first [] step post)
    (rest : ∀ result, post result → Enacts context registerCount first later (next result) last) :
    Enacts context registerCount first later (step >>= next) last :=
  early.bind rest

/-- The first step does nothing, and what its result is does not matter. -/
theorem andThen (early : Enacts context registerCount first [] step post)
    (rest : ∀ result, Enacts context registerCount first later (next result) last) :
    Enacts context registerCount first later (step >>= next) last :=
  early.andUse fun result _ => rest result

/-- The steps behind the first one do nothing. -/
theorem finish (early : Enacts context registerCount first more step post)
    (rest : ∀ result, post result → Enacts context registerCount first [] (next result) last) :
    Enacts context registerCount first more (step >>= next) last := by
  have both := early.bind rest
  rwa [List.append_nil] at both

end

theorem map {change : Result → Next} (early : Enacts context registerCount first more step post)
    (holds : ∀ result, post result → last (change result)) :
    Enacts context registerCount first more (change <$> step) last := by
  rw [map_eq_pure_bind]
  exact early.finish fun result isResult => .pure (holds result isResult)

theorem mono {weaker : Result → Prop} (early : Enacts context registerCount first more step post)
    (weaken : ∀ result, post result → weaker result) :
    Enacts context registerCount first more step weaker :=
  fun opened acts before accounted =>
      (early opened acts before accounted).mono fun result _ holds =>
        holds.imp_left (weaken result)

end Enacts

variable {position : Position}
variable {instruction : Instruction} {slot : Nat}

theorem enacts_fail (explanation : String) {post : Result → Prop} :
    Enacts context registerCount first more (fail position explanation) post :=
  fun _ _ _ _ => whenever_fail _ _

theorem enacts_orFail (content : Option Result) (explanation : String) :
    Enacts context registerCount first [] (orFail content position explanation) fun result =>
      content = some result := by
  cases content with
  | some result => exact .pure rfl
  | none => exact enacts_fail _

/-- A step that needs something to be there. -/
theorem enacts_found {content : Option Result} {explanation : String}
    {next : Result → Generating Next} {post : Next → Prop}
    (rest : ∀ result, content = some result →
      Enacts context registerCount first more (next result) post) :
    Enacts context registerCount first more (orFail content position explanation >>= next) post :=
  (enacts_orFail content explanation).bind rest

theorem enacts_operand (value : Option Temporary) :
    Enacts context registerCount first [] (operand position value) fun result =>
      value = some result :=
  enacts_orFail value _

theorem enacts_get : Enacts context registerCount first [] get fun _ => True := by
  intro opened acts before accounted
  rw [← List.append_nil acts] at accounted
  rintro _ _ ⟨⟩
  exact ⟨trivial, .refl accounted⟩

/-- What the pool emits is accounted for. -/
theorem gains_withPool {operation : RegisterPool.Operation Result} (spills : OnlySpills operation)
    {opened : List String} {acts : List Action} {before : Generation}
    (accounted : before.Accounted context registerCount first opened acts)
    (wellFormed : registerCount ≤ Register.nameCount →
      (operation.run before.session).2.pool.WellFormed) :
    Whenever (withPool position operation) before fun _ after =>
      before.Gains context registerCount first opened acts after := by
  refine whenever_withPool fun result session ran => ?_
  have spilling := spills before.session
  rw [ran] at spilling wellFormed
  rcases Passing.of_spills accounted.pool spilling wellFormed with ⟨moves, passing, level, -⟩
  exact ⟨⟨moves, passing.code_eq.symm⟩, accounted.of_passing passing level⟩

theorem enacts_withPool {operation : RegisterPool.Operation Result} (spills : OnlySpills operation)
    (keeps : RegisterPool.KeepsWellFormed operation) :
    Enacts context registerCount first [] (withPool position operation) fun _ => True := by
  intro opened acts before accounted
  rw [List.append_nil]
  refine (gains_withPool spills accounted fun named => ?_).mono fun _ _ gains => ⟨trivial, gains⟩
  exact keeps _ (accounted.pool.wellFormed named)

theorem enacts_acquire : Enacts context registerCount first [] (acquire position) fun _ => True :=
  enacts_withPool RegisterPool.onlySpills_acquire RegisterPool.keepsWellFormed_acquire

theorem enacts_load (temporary : Temporary) :
    Enacts context registerCount first [] (load position temporary) fun _ => True :=
  enacts_withPool (RegisterPool.onlySpills_loadOne temporary)
    (RegisterPool.keepsWellFormed_loadOne temporary)

theorem enacts_spillAllExcept (kept : List Temporary) :
    Enacts context registerCount first [] (spillAllExcept position kept) fun _ => True :=
  enacts_withPool (RegisterPool.onlySpills_spillAllExcept kept)
    (RegisterPool.keepsWellFormed_spillAllExcept kept)

theorem enacts_release (temporary : Temporary) :
    Enacts context registerCount first [] (release temporary) fun _ => True := by
  intro opened acts before accounted
  rw [List.append_nil]
  exact (succeeds_release temporary).whenever.mono fun _ _ same =>
    same ▸ ⟨trivial, (Gains.refl accounted).released temporary⟩

theorem enacts_unpinAll : Enacts context registerCount first [] unpinAll fun _ => True := by
  intro opened acts before accounted
  rw [List.append_nil]
  exact succeeds_unpinAll.whenever.mono fun _ _ same =>
    same ▸ ⟨trivial, (Gains.refl accounted).unpinned⟩

theorem enacts_emitAll {block : List Instruction} (calm : ∀ instruction ∈ block, instruction.IsCalm)
    (does : List.Forall₂ context.Does
      (block.filter (Instruction.isAction context.frame.spillBase)) more)
    (fits : ∀ slotCount, ∀ instruction ∈ block, context.FitsFrame slotCount instruction) :
    Enacts context registerCount first more (emitAll block) fun _ => True := by
  intro opened acts before accounted
  refine (succeeds_emitAll block).whenever.mono fun _ _ same =>
    same ▸ ⟨trivial, prefix_emitted _ _, ?_⟩
  exact accounted.emitted calm does (fits _)

theorem enacts_emit (calm : instruction.IsCalm)
    (does : List.Forall₂ context.Does
      ([instruction].filter (Instruction.isAction context.frame.spillBase)) more)
    (fits : ∀ slotCount, context.FitsFrame slotCount instruction) :
    Enacts context registerCount first more (emit instruction) fun _ => True := by
  intro opened acts before accounted
  refine (succeeds_emit instruction).whenever.mono fun _ _ same =>
    same ▸ ⟨trivial, prefix_emitted _ _, ?_⟩
  exact accounted.emitted (by simpa using calm) does (by simpa using fits _)

theorem enacts_passive (isPassive : instruction.isPassive = true) :
    Enacts context registerCount first [] (emit instruction) fun _ => True :=
  enacts_emit (Instruction.isCalm_of_isPassive isPassive)
    (by simp [Instruction.isAction_of_isPassive isPassive])
    (context.fitsFrame_of_isPassive isPassive)

theorem enacts_loadStack {target : Register} (reaches : context.Reaches slot) :
    Enacts context registerCount first [] (emit (.loadStack target slot)) fun _ => True :=
  enacts_emit ⟨rfl, rfl, rfl, rfl⟩ .nil fun _ => .inl reaches

/-- A variable is written to. -/
theorem enacts_storeStack {source : Register} {id : VariableId}
    (isSlot : context.slotOf? id = some slot) (inFrame : slot < context.frame.spillBase) :
    Enacts context registerCount first [.write slot] (emit (.storeStack slot source))
      fun _ => True :=
  enacts_emit ⟨rfl, rfl, rfl, rfl⟩ (by simpa [Instruction.isAction, inFrame] using .write) fun _ =>
    .inl ⟨id, isSlot⟩

theorem enacts_produce {instruction : Register → Instruction}
    (emits : ∀ register, Enacts context registerCount first [] (emit (instruction register))
      fun _ => True) :
    Enacts context registerCount first [] (produce position instruction) fun _ => True :=
  enacts_acquire.andThen fun acquired => (emits acquired.2).andThen fun _ => .pure trivial

section

variable {step : Generating Result} {post : Result → Prop}
  (enacts : Enacts context registerCount first more step post)
include enacts

theorem Enacts.conclude :
    Enacts context registerCount first more (Generating.conclude step) post :=
  enacts.finish fun _ holds => enacts_unpinAll.andThen fun _ => .pure holds

theorem Enacts.concludeSome :
    Enacts context registerCount first more (Generating.conclude (some <$> step)) fun _ => True :=
  (enacts.map fun _ _ => trivial).conclude

end

end Generating

end Decaf
