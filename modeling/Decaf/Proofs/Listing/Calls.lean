import Decaf.Proofs.Listing.Operations

/-!
# Calls that are accounted for

A call pushes its operands one after the other, spills what is left in registers, and is carried
out; what was pushed is removed directly behind it. Whatever the pool moves about in between, the
words that are pushed are those of the operands.
-/

namespace Decaf

open RegisterPool (OnlySpills MovesTo)

/-! ## Words that are pushed -/

namespace Store

variable {Word : Type} (store : Store Word)

theorem sends_append (code more : List Instruction) :
    store.sends (code ++ more) = store.sends code ++ (store.run code).sends more := by
  induction code generalizing store with
  | nil => rfl
  | cons instruction rest ih =>
    cases instruction <;> simp [sends, run_cons, ih, move]

theorem sends_of_isLevel {code : List Instruction}
    (level : ∀ instruction ∈ code, instruction.isLevel = true) : store.sends code = [] := by
  induction code generalizing store with
  | nil => rfl
  | cons instruction rest ih =>
    have isLevel := level instruction List.mem_cons_self
    have restEmpty := fun store => ih store fun other isOther =>
      level other (List.mem_cons_of_mem _ isOther)
    cases instruction <;> first | exact restEmpty _ | cases isLevel

end Store

namespace RegisterPool

/-- What a successful load of a temporary has done. -/
theorem shuffle_of_run_loadOne {before after : Session} (wellFormed : before.pool.WellFormed)
    {temporary : Temporary} {register : Register}
    (ran : (loadOne temporary).run before = (.ok register, after)) :
    ∃ index moves resident, register = .general index ∧ index < before.pool.registers.length ∧
      Shuffle before after moves ∧ after.pool.content? index = some resident ∧
      resident.temporary = temporary := by
  rcases fetches_of_run_loadOne wellFormed ran with ⟨index, moves, rfl, fetches⟩
  rcases fetches.resident with ⟨resident, held, isSame, _⟩
  have pinned := shuffle_pinned wellFormed [temporary]
  exact ⟨index, _, resident, rfl, pinned.length_eq ▸ fetches.registerLt,
    pinned.trans fetches.toShuffle, held, isSame⟩

end RegisterPool

/-! ## Pushing -/

namespace Generation

section

variable (context : MethodContext) (registerCount : Nat) (before : Generation)
  (operands : List Operand)

/-- Operands were pushed, the temporaries that are still there have kept their words, and something
holds of the registers and slots now. -/
def PushedWith (holds : ∀ {Word : Type}, Store Word → (Temporary → Word) → Prop)
    (after : Generation) : Prop :=
  ∃ block, before.Passing context registerCount after block ∧ wordsPushed block = operands.length ∧
    (registerCount ≤ Register.nameCount →
      ∀ {Word : Type} (store : Store Word) (contents : Temporary → Word),
      before.pool.Holds store contents →
      store.sends block = operands.map (Operand.word store contents) ∧
        after.pool.Holds (store.run block) contents ∧ holds (store.run block) contents)

/-- Operands were pushed; the temporaries that are still there have kept their words. -/
def Pushed (after : Generation) : Prop :=
  before.PushedWith context registerCount operands (fun _ _ => True) after

end

variable {context : MethodContext} {registerCount : Nat} {before between after : Generation}
  {operands : List Operand}

theorem pushed_nil (pool : context.PoolFits registerCount before.pool) :
    before.Pushed context registerCount [] before :=
  ⟨[], .refl pool, rfl, fun _ _ _ _ holds => ⟨rfl, holds, trivial⟩⟩

/-- Code that pushes nothing is added, and keeps the words of the temporaries. -/
theorem Pushed.quietly (pushed : before.Pushed context registerCount operands between)
    {moves : List Instruction} (passing : between.Passing context registerCount after moves)
    (level : ∀ move ∈ moves, move.isLevel = true)
    {holds : ∀ {Word : Type}, Store Word → (Temporary → Word) → Prop}
    (keeps : registerCount ≤ Register.nameCount →
      ∀ {Word : Type} (store : Store Word) (contents : Temporary → Word),
      between.pool.Holds store contents → after.pool.Holds (store.run moves) contents ∧
      holds (store.run moves) contents) :
    before.PushedWith context registerCount operands holds after := by
  rcases pushed with ⟨block, early, counted, values⟩
  refine ⟨block ++ moves, early.trans passing, ?_, fun named Word store contents held => ?_⟩
  · rw [wordsPushed_append, wordsPushed_of_isLevel level, counted, Int.add_zero]
  · rcases values named store contents held with ⟨sent, nowHeld, -⟩
    rw [Store.sends_append, Store.sends_of_isLevel _ level, List.append_nil, Store.run_append]
    exact ⟨sent, keeps named _ contents nowHeld⟩

/-- A register with a known word is pushed. -/
theorem PushedWith.push {register : Register} {value : Temporary}
    (pushed : before.PushedWith context registerCount operands
      (fun store contents => store.registers register = contents value) between) :
    before.Pushed context registerCount (operands ++ [.temporary value])
      (between.emitted [.push register]) := by
  rcases pushed with ⟨block, early, counted, values⟩
  have passing : between.Passing context registerCount (between.emitted [.push register])
      [.push register] :=
    .emitted early.pool fun instruction isThere => by
      rw [List.mem_singleton.mp isThere]
      exact ⟨rfl, trivial, nofun⟩
  refine ⟨block ++ [.push register], early.trans passing, ?_,
    fun named Word store contents held => ?_⟩
  · rw [wordsPushed_append, counted]
    simp [wordsPushed, Instruction.pushes]
  · rcases values named store contents held with ⟨sent, nowHeld, isWord⟩
    rw [Store.sends_append, sent, Store.run_append]
    exact ⟨by simp [Store.sends, Operand.word, isWord], nowHeld, trivial⟩

theorem Pushed.released (pushed : before.Pushed context registerCount operands between)
    (temporary : Temporary) :
    before.Pushed context registerCount operands (between.released temporary) := by
  rcases pushed with ⟨block, early, counted, values⟩
  refine ⟨block ++ [], early.trans (.released early.pool temporary),
    by rw [List.append_nil, counted], ?_⟩
  intro named Word store contents held
  rcases values named store contents held with ⟨sent, nowHeld, -⟩
  rw [List.append_nil]
  exact ⟨sent, (RegisterPool.releases_release (early.pool.wellFormed named) temporary).holds
    nowHeld, trivial⟩

end Generation

/-- The slot of the current object is the first one, and no spill slot. -/
theorem Frame.eq_of_receiverSlot? {frame : Frame} {slot : Nat}
    (isSlot : frame.receiverSlot? = some slot) : slot = 0 ∧ 0 < frame.spillBase := by
  unfold receiverSlot? at isSlot
  split at isSlot
  next hasReceiver =>
    refine ⟨(Option.some.inj isSlot).symm, ?_⟩
    simp only [spillBase, incoming, firstArgument, hasReceiver, if_true]
    omega
  next => cases isSlot

namespace Generating

open Generation

variable {context : MethodContext} {registerCount : Nat} {before between : Generation}
  {operands : List Operand} {position : Position}

/-- A temporary is brought into a register, which has its word then. -/
theorem pushed_load (pushed : before.Pushed context registerCount operands between)
    (value : Temporary) :
    Whenever (load position value) between fun register after =>
      before.PushedWith context registerCount operands
        (fun store contents => store.registers register = contents value) after := by
  refine whenever_withPool fun register session ran => ?_
  have pool : context.PoolFits registerCount between.pool := by
    rcases pushed with ⟨_, early, -⟩
    exact early.pool
  have spills := RegisterPool.onlySpills_loadOne value between.session
  rw [ran] at spills
  have wellFormed : registerCount ≤ Register.nameCount → session.pool.WellFormed := fun named => by
    have keeps := RegisterPool.keepsWellFormed_loadOne value between.session (pool.wellFormed named)
    rwa [ran] at keeps
  rcases Passing.of_spills pool spills wellFormed with ⟨moves, passing, level, codeEq⟩
  refine pushed.quietly passing level fun named Word store contents held => ?_
  rcases RegisterPool.shuffle_of_run_loadOne (pool.wellFormed named) ran with
    ⟨index, others, resident, rfl, -, shuffle, isThere, rfl⟩
  obtain rfl := List.append_cancel_left (codeEq.symm.trans shuffle.code_eq)
  have nowHeld := shuffle.holds held
  exact ⟨nowHeld, nowHeld.resident isThere⟩

theorem pushed_pushArgument (pushed : before.Pushed context registerCount operands between)
    (argument : Option Temporary) :
    Whenever (pushArgument position argument) between fun _ after => ∃ value,
      argument = some value ∧
      before.Pushed context registerCount (operands ++ [.temporary value]) after := by
  refine whenever_found ?_
  rintro value rfl
  refine (pushed_load pushed value).bind fun register loaded isLoaded => ?_
  refine (succeeds_emit _).whenever.goOn ?_
  refine (succeeds_release value).whenever.goesTo ?_
  exact ⟨value, rfl, isLoaded.push.released value⟩

theorem pushed_pushArguments (arguments : List (Option Temporary))
    (pushed : before.Pushed context registerCount operands between) :
    Whenever (arguments.forM (pushArgument position)) between fun _ after =>
      ∃ values : List Temporary,
      arguments = values.map some ∧
      before.Pushed context registerCount (operands ++ values.map .temporary) after := by
  induction arguments generalizing operands between with
  | nil => exact .pure ⟨[], rfl, by rwa [List.map_nil, List.append_nil]⟩
  | cons argument rest ih =>
    refine (pushed_pushArgument pushed argument).bind ?_
    rintro _ after ⟨value, rfl, nowPushed⟩
    refine (ih nowPushed).mono ?_
    rintro _ last ⟨values, rfl, allPushed⟩
    exact ⟨value :: values, rfl, by simpa using allPushed⟩

theorem pushed_pushReceiver (pushed : before.Pushed context registerCount operands between)
    (receiver : Option Temporary) :
    Whenever (pushReceiver position receiver) between fun value after => receiver = some value ∧
      before.Pushed context registerCount (operands ++ [.temporary value]) after := by
  refine whenever_found ?_
  rintro value rfl
  refine (pushed_load pushed value).bind fun register loaded isLoaded => ?_
  refine (succeeds_emit _).whenever.goOn ?_
  exact .pure ⟨rfl, isLoaded.push⟩

/-- The current object is pushed first; it is what was in its slot all the time. -/
theorem pushed_pushThis (pool : context.PoolFits registerCount before.pool) :
    Whenever (pushThis context position) before fun _ after =>
      context.frame.receiverSlot? = some 0 ∧ before.Pushed context registerCount [.this] after := by
  refine whenever_found fun slot isSlot => ?_
  obtain ⟨rfl, isLow⟩ := Frame.eq_of_receiverSlot? isSlot
  have acquires : Whenever (acquire position) before fun acquired after => ∃ session,
      after = before.resume session ∧
      RegisterPool.acquire.run before.session = (.ok acquired, session) :=
    whenever_withPool fun acquired session ran => ⟨session, rfl, ran⟩
  refine acquires.bind ?_
  rintro ⟨temporary, register⟩ _ ⟨session, rfl, ran⟩
  have spills := RegisterPool.onlySpills_acquire before.session
  have keeps := RegisterPool.keepsWellFormed_acquire before.session
  rw [ran] at spills keeps
  rcases Passing.of_spills pool spills fun named => keeps (pool.wellFormed named) with
    ⟨moves, acquiring, level, codeEq⟩
  refine (succeeds_emit _).whenever.goOn ?_
  refine (succeeds_emit _).whenever.goOn ?_
  refine (succeeds_release temporary).whenever.goesTo ?_
  have loading : (before.resume session).Passing context registerCount
      ((before.resume session).emitted [.loadStack register 0, .push register])
      [.loadStack register 0, .push register] :=
    .emitted acquiring.pool fun instruction isThere => by
      rcases List.mem_cons.mp isThere with rfl | isPush
      · exact ⟨rfl, .inl (.inl isSlot), nofun⟩
      · rw [List.mem_singleton.mp isPush]
        exact ⟨rfl, trivial, nofun⟩
  have passing := acquiring.trans (loading.trans (.released loading.pool temporary))
  rw [List.append_nil] at passing
  refine ⟨isSlot, moves ++ [.loadStack register 0, .push register], ?_, ?_,
    fun named Word store contents held => ?_⟩
  · rw [emitted_emitted]
    exact passing
  · rw [wordsPushed_append, wordsPushed_of_isLevel level]
    rfl
  · rcases RegisterPool.run_acquire_spec
      (show before.session.pool.WellFormed from pool.wellFormed named) with
      ⟨made, index, _, others, acquired, produces⟩ | ⟨failed, -⟩
    · obtain ⟨same, rfl⟩ := Prod.mk.inj (acquired.symm.trans ran)
      obtain ⟨rfl, rfl⟩ := Prod.mk.inj (Except.ok.inj same)
      obtain rfl := List.append_cancel_left (codeEq.symm.trans produces.code_eq)
      have unmoved : (store.run moves).slots 0 = store.slots 0 :=
        RegisterPool.slots_run_of_lt produces.spillMoves
          (by rw [produces.base_eq]; exact pool.base_eq ▸ isLow) store
      have nowHeld := produces.holds ((store.run moves).slots 0) held
      rw [Store.sends_append, Store.sends_of_isLevel _ level, Store.run_append]
      refine ⟨?_, ?_, trivial⟩
      · simp [Store.sends, Operand.word, Store.move, unmoved]
      -- The temporary that was made for the object is given up again.
      · have releases := RegisterPool.releases_release produces.wellFormed made
        refine (releases.holds nowHeld).congr fun other isLive => ?_
        exact (Function.update_of_ne ((releases.isLive_iff other).mp isLive).1 _ _).symm
    · cases failed.symm.trans ran

end Generating

/-! ## Carrying out -/

namespace Generation

/-- Everything is there for a call. -/
def Prepared (context : MethodContext) (registerCount : Nat) (before : Generation)
    (operands : List Operand) (after : Generation) : Prop :=
  ∃ block, before.Passing context registerCount after block ∧ wordsPushed block = operands.length ∧
    (registerCount ≤ Register.nameCount →
      ∀ {Word : Type} (store : Store Word) (contents : Temporary → Word),
      before.pool.Holds store contents →
      store.sends block = operands.map (Operand.word store contents))

variable {context : MethodContext} {registerCount first : Nat} {opened : List String}
  {acts : List Action} {before between after : Generation} {operands : List Operand}

theorem Pushed.prepared (pushed : before.Pushed context registerCount operands after) :
    before.Prepared context registerCount operands after := by
  rcases pushed with ⟨block, passing, counted, values⟩
  exact ⟨block, passing, counted, fun named Word store contents held =>
    (values named store contents held).1⟩

theorem Prepared.pool (prepared : before.Prepared context registerCount operands after) :
    context.PoolFits registerCount after.pool := by
  rcases prepared with ⟨_, passing, -⟩
  exact passing.pool

theorem Prepared.quietly (prepared : before.Prepared context registerCount operands between)
    {moves : List Instruction} (passing : between.Passing context registerCount after moves)
    (level : ∀ move ∈ moves, move.isLevel = true) :
    before.Prepared context registerCount operands after := by
  rcases prepared with ⟨block, early, counted, values⟩
  refine ⟨block ++ moves, early.trans passing, ?_, fun named Word store contents held => ?_⟩
  · rw [wordsPushed_append, wordsPushed_of_isLevel level, counted, Int.add_zero]
  · rw [Store.sends_append, Store.sends_of_isLevel _ level, List.append_nil]
    exact values named store contents held

theorem Prepared.released (prepared : before.Prepared context registerCount operands between)
    (temporary : Temporary) :
    before.Prepared context registerCount operands (between.released temporary) :=
  prepared.quietly (.released prepared.pool temporary) nofun

/-- The instructions that remove a number of words. -/
def popping (words : Nat) : List Instruction := if words > 0 then [.pop words] else []

theorem popping_eq (words : Nat) :
    words = 0 ∧ popping words = [] ∨ words ≠ 0 ∧ popping words = [.pop words] := by
  unfold popping
  split
  · exact .inr ⟨by omega, rfl⟩
  · exact .inl ⟨by omega, rfl⟩

/-- A call for which everything is there is accounted for, behind the code that was there before. -/
theorem Accounted.called (accounted : before.Accounted context registerCount first opened acts)
    (prepared : before.Prepared context registerCount operands between) {call : Instruction}
    {site : Site ExprId} {receiver : Option Expr} {name : String} {arguments : List Expr}
    {target : CallTarget} (found : context.table.call? site.id = some target)
    (does : context.Does call (.perform (.call site receiver name arguments)))
    (evaluated : context.Evaluated receiver arguments target.dispatch before operands) :
    before.Gains context registerCount first opened
      (acts ++ [.perform (.call site receiver name arguments)])
      (between.emitted (call :: popping operands.length)) := by
  rcases prepared with ⟨pushing, passing, counted, values⟩
  have codeEq : (between.emitted (call :: popping operands.length)).emitter.code.toList =
      before.emitter.code.toList ++ (pushing ++ call :: popping operands.length) := by
    simp [Generation.emitted, Emitter.append, passing.code_eq]
  have quiet {instruction : Instruction}
      (isThere : instruction ∈ pushing ++ call :: popping operands.length) :
      instruction.label? = none ∧ instruction.target? = none := by
    rcases List.mem_append.mp isThere with isPushing | isBehind
    · have isCode := (passing.leadsUp instruction isPushing).isCode
      cases instruction <;> first | exact ⟨rfl, rfl⟩ | cases isCode
    · rcases List.mem_cons.mp isBehind with rfl | isPop
      · cases does <;> exact ⟨rfl, rfl⟩
      · rcases popping_eq operands.length with ⟨-, same⟩ | ⟨-, same⟩
        · simp [same] at isPop
        · rw [same] at isPop
          rw [List.mem_singleton.mp isPop]
          exact ⟨rfl, rfl⟩
  refine ⟨⟨_, codeEq.symm⟩,
    Nat.le_trans accounted.first_le (Nat.le_of_eq passing.nextLabel_eq.symm), ?_, ?_, ?_,
    passing.pool⟩
  · refine accounted.labels.append passing.nextLabel_eq passing.loops_eq codeEq ?_ ?_
    · exact List.filterMap_eq_nil_iff.mpr fun instruction isThere => (quiet isThere).1
    · have noTargets := List.filterMap_eq_nil_iff.mpr fun instruction isThere => (quiet isThere).2
      rw [targetsOf, noTargets]
      exact List.nil_subset _
  · have isCode : ∀ instruction ∈ pushing, instruction.isOperandCode = true :=
      fun instruction isThere => (passing.leadsUp instruction isThere).isCode
    have carriesOut : context.CarriesOut registerCount (before.emitter.code.toList ++ pushing)
        (popping operands.length) receiver arguments target.dispatch operands := by
      refine ⟨⟨before, pushing, rfl, isCode, accounted.acts.balanced, counted,
        evaluated, values⟩, ?_⟩
      rcases popping_eq operands.length with ⟨isZero, same⟩ | ⟨notZero, same⟩
      · rw [same, if_pos (List.length_eq_zero_iff.mp isZero)]
        rfl
      · rw [same, if_neg fun isEmpty => notZero (by rw [isEmpty]; rfl)]
        rfl
    rw [codeEq]
    refine accounted.acts.append_call found carriesOut isCode
      (fun slot source isThere => (passing.leadsUp _ isThere).spills slot source rfl) does
      ⟨operands.length, ?_, counted⟩
    rcases popping_eq operands.length with ⟨isZero, same⟩ | ⟨_, same⟩
    · exact .inl ⟨same, isZero⟩
    · exact .inr same
  · intro instruction isThere
    rw [codeEq] at isThere
    rcases List.mem_append.mp isThere with isEarly | isNew
    · exact (accounted.frame instruction isEarly).mono passing.slotCount_le
    · rcases List.mem_append.mp isNew with isPushing | isBehind
      · exact (passing.leadsUp instruction isPushing).fits
      · rcases List.mem_cons.mp isBehind with rfl | isPop
        · cases does <;> trivial
        · rcases popping_eq operands.length with ⟨-, same⟩ | ⟨-, same⟩
          · simp [same] at isPop
          · rw [same] at isPop
            rw [List.mem_singleton.mp isPop]
            trivial

end Generation

namespace Generating

open Generation

variable {context : MethodContext} {registerCount first : Nat} {opened : List String}
  {acts : List Action} {start before between : Generation} {operands : List Operand}
  {position : Position}

theorem prepared_withPool {Result : Type} {operation : RegisterPool.Operation Result}
    (spills : OnlySpills operation) (keeps : RegisterPool.KeepsWellFormed operation)
    (prepared : before.Prepared context registerCount operands between) :
    Whenever (withPool position operation) between fun _ after =>
      before.Prepared context registerCount operands after := by
  refine whenever_withPool fun result session ran => ?_
  have spilling := spills between.session
  have wellFormed := keeps between.session
  rw [ran] at spilling wellFormed
  rcases Passing.of_spills prepared.pool spilling fun named =>
    wellFormed (prepared.pool.wellFormed named) with ⟨moves, passing, level, -⟩
  exact prepared.quietly passing level

section

variable (prepared : before.Prepared context registerCount operands between)
include prepared

theorem prepared_spillAllExcept (kept : List Temporary) :
    Whenever (spillAllExcept position kept) between fun _ after =>
      before.Prepared context registerCount operands after :=
  prepared_withPool (RegisterPool.onlySpills_spillAllExcept kept)
    (RegisterPool.keepsWellFormed_spillAllExcept kept) prepared

theorem prepared_acquire :
    Whenever (acquire position) between fun _ after =>
      before.Prepared context registerCount operands after :=
  prepared_withPool RegisterPool.onlySpills_acquire RegisterPool.keepsWellFormed_acquire prepared

theorem prepared_load (temporary : Temporary) :
    Whenever (load position temporary) between fun _ after =>
      before.Prepared context registerCount operands after :=
  prepared_withPool (RegisterPool.onlySpills_loadOne temporary)
    (RegisterPool.keepsWellFormed_loadOne temporary) prepared

theorem prepared_emit {instruction : Instruction}
    (leadsUp : ∀ slotCount, context.LeadsUp slotCount instruction)
    (isLevel : instruction.isLevel = true) :
    Whenever (emit instruction) between fun _ after =>
      before.Prepared context registerCount operands after := by
  refine (succeeds_emit instruction).whenever.goesTo ?_
  exact prepared.quietly (.emitted prepared.pool (by simpa using leadsUp _))
    (by simpa using isLevel)

theorem prepared_callThrough (receiver : Temporary)
    (slot : Nat) : Whenever (callThrough position receiver slot) between fun _ after =>
      ∃ last table temporary, before.Prepared context registerCount operands last ∧
        after = (last.emitted [.callVirtual table slot]).released temporary := by
  refine (prepared_load prepared receiver).bind fun base loaded isPrepared => ?_
  refine (succeeds_release receiver).whenever.goOn ?_
  refine (prepared_acquire (isPrepared.released receiver)).bind fun acquired made nowPrepared => ?_
  have leadsUp : ∀ slotCount, context.LeadsUp slotCount (.loadHeap acquired.2 base 0) :=
    fun _ => ⟨rfl, trivial, nofun⟩
  refine (prepared_emit nowPrepared leadsUp rfl).bind fun _ last isLast => ?_
  refine (succeeds_emit _).whenever.goOn ?_
  exact (succeeds_release acquired.1).whenever.mono fun _ _ same =>
    ⟨last, acquired.2, acquired.1, isLast, same⟩

theorem prepared_callThroughThis (slot : Nat) :
    Whenever (callThroughThis context position slot) between fun _ after =>
      ∃ last table temporary, before.Prepared context registerCount operands last ∧
        after = (last.emitted [.callVirtual table slot]).released temporary := by
  refine whenever_found fun frameSlot isSlot => ?_
  refine (prepared_acquire prepared).bind fun acquired made nowPrepared => ?_
  have loadsThis : ∀ slotCount, context.LeadsUp slotCount (.loadStack acquired.2 frameSlot) :=
    fun _ => ⟨rfl, .inl (.inl isSlot), nofun⟩
  have loadsTable : ∀ slotCount, context.LeadsUp slotCount (.loadHeap acquired.2 acquired.2 0) :=
    fun _ => ⟨rfl, trivial, nofun⟩
  refine (prepared_emit nowPrepared loadsThis rfl).bind fun _ between isPrepared => ?_
  refine (prepared_emit isPrepared loadsTable rfl).bind fun _ last isLast => ?_
  refine (succeeds_emit _).whenever.goOn ?_
  exact (succeeds_release acquired.1).whenever.mono fun _ _ same =>
    ⟨last, acquired.2, acquired.1, isLast, same⟩

end

/-- What was pushed is removed, and the result is fetched. -/
theorem gains_finishCall {target : CallTarget} {pushed : Nat}
    (gains : before.Gains context registerCount first opened acts
      (between.emitted (popping pushed))) :
    Whenever (finishCall context position target pushed) between fun _ after =>
      before.Gains context registerCount first opened acts after := by
  have removed : Whenever (if pushed > 0 then emit (.pop pushed) else pure ())
      between fun _ after =>
        before.Gains context registerCount first opened acts after := by
    unfold popping at gains
    split
    next isMore =>
      rw [if_pos isMore] at gains
      exact (succeeds_emit _).whenever.mono fun _ _ same => same ▸ gains
    next isZero =>
      rw [if_neg isZero] at gains
      exact .pure (by simpa [emitted, Emitter.append] using gains)
  unfold finishCall
  refine Whenever.bind_if removed fun after gains => ?_
  split
  · split
    · exact .pure gains
    · refine Whenever.bind
        ((enacts_produce fun _ => enacts_passive rfl) opened acts after gains.accounted) ?_
      rintro _ _ ⟨-, fetched⟩
      rw [List.append_nil] at fetched
      exact .pure (gains.trans fetched)
  · exact .pure gains

section

variable {site : Site ExprId} {name : String} {arguments : List Expr} {target : CallTarget}
  {values : List (Option Temporary)}
variable {receiver : Option Expr} {pushed slot : Nat}

section

variable (accounted : before.Accounted context registerCount first opened acts)
include accounted

section

variable (prepared : before.Prepared context registerCount operands between)
  (found : context.table.call? site.id = some target)
include prepared found

/-- A method that is named is called. -/
theorem gains_callNamed (isDirect : evaluatesReceiver target.dispatch = false)
    (evaluated : context.Evaluated receiver arguments target.dispatch before operands)
    (counted : operands.length = pushed) :
    Whenever
      (do emit (.call (context.registry.methodLabel
        target.method)); finishCall context position target pushed)
      between fun _ after => before.Gains context registerCount first opened
        (acts ++ [.perform (.call site receiver name arguments)]) after := by
  refine (succeeds_emit _).whenever.goOn ?_
  refine gains_finishCall ?_
  rw [emitted_emitted, ← counted]
  exact accounted.called prepared found (.call found isDirect) evaluated

/-- The method in a slot of a vtable was called. -/
theorem gains_callSlot (isVirtual : target.dispatch = .virtual slot)
    (evaluated : context.Evaluated receiver arguments target.dispatch before operands)
    (counted : operands.length = pushed) (table : Register) (temporary : Temporary) :
    Whenever (finishCall context position target pushed)
      ((between.emitted [.callVirtual table slot]).released temporary)
      fun _ after => before.Gains context registerCount first opened
        (acts ++ [.perform (.call site receiver name arguments)]) after := by
  have same : ((between.emitted [.callVirtual table slot]).released temporary).emitted
      (popping operands.length) =
        (between.emitted (.callVirtual table slot :: popping operands.length)).released
          temporary := by
    simp [emitted, released, Emitter.append]
  refine gains_finishCall ?_
  rw [← counted, same]
  exact (accounted.called prepared found (.callVirtual found isVirtual) evaluated).released
    temporary

end

/-- A call on an evaluated receiver. -/
theorem gains_generateCall_on (found : context.table.call? site.id = some target)
    (isVirtual : target.dispatch = .virtual slot) {receiver : Expr} {object : Option Temporary}
    {middle : Generation}
    (receiverRan : (generateExpr context receiver).run start = .ok (object, middle))
    (argumentsRan : (generateExprs context arguments).run middle = .ok (values, before)) :
    Whenever (generateCall context position target (some object) values) before fun _ after =>
      before.Gains context registerCount first opened
        (acts ++ [.perform (.call site (some receiver) name arguments)]) after := by
  unfold generateCall
  rw [isVirtual]
  refine (pushed_pushReceiver (pushed_nil accounted.pool) object).bind ?_
  rintro value _ ⟨rfl, pushedReceiver⟩
  refine (pushed_pushArguments values pushedReceiver).bind ?_
  rintro _ _ ⟨temporaries, rfl, pushed⟩
  refine (prepared_spillAllExcept pushed.prepared _).bind fun _ cleared prepared => ?_
  have evaluated : context.Evaluated (some receiver) arguments target.dispatch before
      (.temporary value :: temporaries.map .temporary) := by
    rw [isVirtual]
    exact .onValue receiverRan argumentsRan
  refine (prepared_callThrough prepared value slot).bind ?_
  rintro _ _ ⟨last, table, temporary, isLast, rfl⟩
  exact gains_callSlot accounted isLast found isVirtual evaluated (by simp) table temporary

/-- A call of the current object, or of no object. -/
theorem gains_generateCall_own (found : context.table.call? site.id = some target)
    (isOwn : receiver = none ∨ evaluatesReceiver target.dispatch = false)
    (argumentsRan : (generateExprs context arguments).run start = .ok (values, before)) :
    Whenever (generateCall context position target none values) before fun _ after =>
      before.Gains context registerCount first opened
        (acts ++ [.perform (.call site receiver name arguments)]) after := by
  unfold generateCall
  cases dispatchEq : target.dispatch with
  | virtual slot =>
    refine (pushed_pushThis accounted.pool).bind fun _ between ⟨isInstance, pushedThis⟩ => ?_
    refine (pushed_pushArguments values pushedThis).bind ?_
    rintro _ _ ⟨temporaries, rfl, pushed⟩
    refine (prepared_spillAllExcept pushed.prepared _).bind fun _ cleared prepared => ?_
    have evaluated : context.Evaluated receiver arguments target.dispatch before
        (.this :: temporaries.map .temporary) := by
      refine .onThis (.inl ⟨isOwn.resolve_right ?_, ?_⟩) isInstance argumentsRan <;>
        simp [dispatchEq, evaluatesReceiver]
    refine (prepared_callThroughThis prepared slot).bind ?_
    rintro _ _ ⟨last, table, temporary, isLast, rfl⟩
    exact gains_callSlot accounted isLast found dispatchEq evaluated (by simp) table temporary
  | super =>
    refine (pushed_pushThis accounted.pool).bind fun _ between ⟨isInstance, pushedThis⟩ => ?_
    refine (pushed_pushArguments values pushedThis).bind ?_
    rintro _ _ ⟨temporaries, rfl, pushed⟩
    refine (prepared_spillAllExcept pushed.prepared _).bind fun _ cleared prepared => ?_
    exact gains_callNamed accounted prepared found (by simp [dispatchEq, evaluatesReceiver])
      (.onThis (.inr dispatchEq) isInstance argumentsRan) (by simp)
  | static =>
    refine (pushed_pushArguments values (pushed_nil accounted.pool)).bind ?_
    rintro _ _ ⟨temporaries, rfl, pushed⟩
    refine (prepared_spillAllExcept pushed.prepared _).bind fun _ cleared prepared => ?_
    have evaluated : context.Evaluated receiver arguments target.dispatch before
        (temporaries.map .temporary) := by
      rw [dispatchEq]
      exact .onNothing argumentsRan
    exact gains_callNamed accounted prepared found (by simp [dispatchEq, evaluatesReceiver])
      evaluated (by simp)

end

end

end Generating

end Decaf
