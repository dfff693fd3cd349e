import Decaf.Proofs.Code.ShortCircuit
import Decaf.Proofs.Listing.Operations
import Decaf.Proofs.Registers.Operations
import Decaf.Proofs.Spilling.Flow

/-!
# Steps that leave spilled temporaries alone

A step of code generation moves temporaries about, but those that are to stay in their spill slots
are not touched. `Tends` says so of a step, together with the temporaries that may wait for their
use before and after it.
-/

namespace Decaf

open RegisterPool (Guards Carries Transfers Avoids Transfer)

namespace Instruction

/-- An instruction that has nothing to do with spill slots, and behind which the code just goes on
or ends. -/
structure IsAside (base : Nat) (loads : Nat → Prop) (instruction : Instruction) : Prop where
  label?_eq : instruction.label? = none
  target?_eq : instruction.target? = none
  keeps : instruction.Keeps base loads

theorem isAside_of_isPassive {instruction : Instruction} (isPassive : instruction.isPassive = true)
    (base : Nat) (loads : Nat → Prop) : instruction.IsAside base loads := by
  cases instruction <;> first | exact ⟨rfl, rfl, trivial, nofun⟩ | cases isPassive

end Instruction

namespace MethodContext

/-- What the code of a method may name in its frame stays in front of the spill slots. -/
def StaysBelow (context : MethodContext) (base : Nat) : Prop :=
  ∀ slot, context.Reaches slot → slot < base

/-- The slots of the variables that are named in some expressions. -/
def Names (context : MethodContext) (nodes : List Expr) (slot : Nat) : Prop :=
  ∃ site name id entry, .identifier site name ∈ nodes ∧ context.bindings.symbol? site.id =
    some (.ofVariable id) ∧
    context.registry.variableEntry? id = some entry ∧ context.frame.slot? entry = some slot

/-- The slots that the code of some expressions may load: those of the named variables and of the
current object. -/
def Reads (context : MethodContext) (nodes : List Expr) (slot : Nat) : Prop :=
  context.frame.receiverSlot? = some slot ∨ context.Names nodes slot

/-- The code of some expressions may load what they name, and all of that stands in front of the
spill slots. -/
structure Grants (context : MethodContext) (base : Nat) (loads : Nat → Prop) (nodes : List Expr) :
    Prop where
  inFront : context.StaysBelow base
  mayLoad : ∀ slot, context.Reads nodes slot → loads slot

variable {context : MethodContext} {base slot : Nat} {loads : Nat → Prop} {nodes : List Expr}

theorem reads_of_slotOf? {site : Site ExprId} {name : String}
    (isNode : .identifier site name ∈ nodes) {id : VariableId}
    (bound : context.bindings.symbol? site.id = some (.ofVariable id))
    (isSlot : context.slotOf? id = some slot) : context.Reads nodes slot := by
  rcases Option.bind_eq_some_iff.mp isSlot with ⟨entry, found, slotEq⟩
  exact .inr ⟨site, name, id, entry, isNode, bound, found, slotEq⟩

theorem Grants.keeps (grants : context.Grants base loads nodes) (reads : context.Reads nodes slot) :
    slot < base ∧ loads slot := by
  refine ⟨grants.inFront slot ?_, grants.mayLoad slot reads⟩
  rcases reads with isReceiver | ⟨_, _, id, entry, _, _, found, slotEq⟩
  · exact .inl isReceiver
  · exact .inr ⟨id, Option.bind_eq_some_iff.mpr ⟨entry, found, slotEq⟩⟩

end MethodContext

namespace Generation

variable {session : RegisterPool.Session} {instruction : Instruction}

/-- Every spilled temporary is stored in its slot. Nothing is known yet of labels that are still to
be handed out, and nothing is taken to be stored at the labels that loops are left by. -/
structure Traced (first : Nat) (facts : String → Option (Set (Nat × Nat))) (history : List Transfer)
    (generation : Generation) : Prop where
  traces : RegisterPool.Traces first facts history generation.session
  fresh : ∀ number, generation.emitter.nextLabel ≤ number → facts (Label.inner number) = none
  loops : ∀ labels ∈ generation.emitter.loops,
    facts labels.breakTo = some ∅ ∧ facts labels.continueTo = some ∅

/-- Code was generated that moves none of the kept temporaries, and leaves all temporaries stored
that were stored before. -/
def Passes (base : Nat) (loads : Nat → Prop) (kept : Set Spilled) (before after : Generation) :
    Prop :=
  ∃ history, Transfers (Instruction.Keeps base loads) before.session history after.session ∧
    Avoids kept history ∧
    ∀ first facts past, before.Traced first facts past →
      ∃ more, Extends facts more ∧ after.Traced first more (past ++ history)

/-- One generation is reached from another one by moves of temporaries, and by code that uses no
spill slot. -/
def LeadsTo (base : Nat) (before after : Generation) : Prop :=
  ∃ history, Transfers (Instruction.Spares base) before.session history after.session

variable {base first : Nat} {loads : Nat → Prop} {facts : String → Option (Set (Nat × Nat))}
  {history : List Transfer} {kept fewer : Set Spilled} {here there : Set Temporary}
  {before between after : Generation}

theorem Traced.resume {later : List Transfer} (traced : before.Traced first facts history)
    (transfers : Transfers (fun _ => False) before.session later session)
    (wellFormed : before.pool.WellFormed) :
    (before.resume session).Traced first facts (history ++ later) :=
  ⟨traced.traces.of_transfers transfers wellFormed, traced.fresh, traced.loops⟩

theorem Traced.emitted (traced : before.Traced first facts history) (instruction : Instruction)
    (meets : instruction.Meets facts (storedBehind first facts before.emitter.code.toList))
    (stays : ∀ entry ∈ before.pool.spilled, ∀ place,
      RegisterPool.lastOf? history entry.temporary = some ⟨place, entry.temporary, true⟩ →
      (before.pool.spillBase + entry.slot, first + place) ∈
        storedBehind first facts before.emitter.code.toList →
      (before.pool.spillBase + entry.slot, first + place) ∈ instruction.leavesStored facts
      (first + before.emitter.code.toList.length)
      (storedBehind first facts before.emitter.code.toList)) :
    (before.emitted [instruction]).Traced first facts history := by
  refine ⟨?_, traced.fresh, traced.loops⟩
  rw [session_emitted]
  exact traced.traces.emit instruction meets stays

/-- An instruction that is no label and uses no spill slot leaves the spilled temporaries stored. -/
theorem Traced.emitted_spares (traced : before.Traced first facts history)
    (notLabel : instruction.label? = none) (spares : instruction.Spares before.pool.spillBase)
    (meets : instruction.Meets facts (storedBehind first facts before.emitter.code.toList)) :
    (before.emitted [instruction]).Traced first facts history := by
  refine traced.emitted instruction meets fun entry isSpilled place isLast isStored => ?_
  rw [Instruction.leavesStored, notLabel]
  split
  · exact Set.mem_univ _
  · cases storeEq : instruction.storesTo? with
    | none => exact isStored
    | some slot =>
      rcases Instruction.storesTo?_eq_some.mp storeEq with ⟨source, rfl⟩
      have isBelow : slot < before.pool.spillBase := spares
      exact .inr ⟨isStored, fun same => Nat.not_lt.mpr (Nat.le_add_right _ _) (same ▸ isBelow)⟩

/-- A label is handed out, and gets known together with what is taken to be stored there. -/
theorem Traced.labelTaken (traced : before.Traced first facts history) (known : Set (Nat × Nat)) :
    Extends facts (Function.update facts (Label.inner before.emitter.nextLabel) (some known)) ∧
      before.labelTaken.Traced first
        (Function.update facts (Label.inner before.emitter.nextLabel) (some known)) history := by
  have isMore : Extends facts
      (Function.update facts (Label.inner before.emitter.nextLabel) (some known)) := by
    intro name others isKnown
    rw [Function.update_of_ne, isKnown]
    rintro rfl
    cases (traced.fresh _ (Nat.le_refl _)).symm.trans isKnown
  refine ⟨isMore, traced.traces.extend isMore, fun number isFresh => ?_, fun labels isLoop => ?_⟩
  · rw [Function.update_of_ne, traced.fresh number (Nat.le_of_succ_le isFresh)]
    intro same
    exact Nat.ne_of_gt isFresh (Label.inner_injective same)
  · exact ⟨isMore _ _ (traced.loops labels isLoop).1, isMore _ _ (traced.loops labels isLoop).2⟩

theorem Passes.refl (before : Generation) : before.Passes base loads kept before :=
  ⟨[], .none, RegisterPool.avoids_nil, fun _ facts _ traced =>
    ⟨facts, .refl facts, by rwa [List.append_nil]⟩⟩

theorem Passes.trans (early : before.Passes base loads kept between)
    (late : between.Passes base loads kept after) : before.Passes base loads kept after := by
  rcases early with ⟨history, transfers, avoids, keeps⟩
  rcases late with ⟨later, laterTransfers, laterAvoids, laterKeeps⟩
  refine ⟨history ++ later, transfers.trans laterTransfers, avoids.append laterAvoids,
    fun first facts past traced => ?_⟩
  rcases keeps first facts past traced with ⟨more, isMore, tracedBetween⟩
  rcases laterKeeps first more _ tracedBetween with ⟨most, isMost, tracedAfter⟩
  exact ⟨most, isMore.trans isMost, List.append_assoc past history later ▸ tracedAfter⟩

theorem Passes.resume (guards : Guards base kept here before.pool)
    (carries : Carries base kept before.session there session) :
    before.Passes base loads kept (before.resume session) := by
  rcases carries.history with ⟨history, transfers, avoids⟩
  refine ⟨history, transfers.mono fun _ => False.elim, avoids,
    fun first facts past traced => ⟨facts, .refl facts, ?_⟩⟩
  exact traced.resume transfers guards.wellFormed

theorem Passes.emitted (guards : Guards base kept here before.pool)
    (aside : instruction.IsAside base loads) :
    before.Passes base loads kept (before.emitted [instruction]) := by
  refine ⟨[], ?_, RegisterPool.avoids_nil, fun first facts past traced => ⟨facts, .refl facts, ?_⟩⟩
  · rw [session_emitted]
    exact Transfers.none.emit instruction aside.keeps
  · rw [List.append_nil]
    refine traced.emitted_spares aside.label?_eq (guards.base_eq.symm ▸ aside.keeps.1)
      fun name isNamed => ?_
    simp [aside.label?_eq, aside.target?_eq] at isNamed

theorem LeadsTo.refl (before : Generation) : before.LeadsTo base before := ⟨[], .none⟩

theorem LeadsTo.trans (early : before.LeadsTo base between) (late : between.LeadsTo base after) :
    before.LeadsTo base after := by
  rcases early with ⟨history, transfers⟩
  rcases late with ⟨later, laterTransfers⟩
  exact ⟨history ++ later, transfers.trans laterTransfers⟩

theorem LeadsTo.emit (leads : before.LeadsTo base after) (spares : instruction.Spares base) :
    before.LeadsTo base (after.emitted [instruction]) := by
  rcases leads with ⟨history, transfers⟩
  refine ⟨history, ?_⟩
  rw [session_emitted]
  exact transfers.emit instruction spares

theorem LeadsTo.release (leads : before.LeadsTo base after) (temporary : Temporary) :
    before.LeadsTo base (after.released temporary) := by
  rcases leads with ⟨history, transfers⟩
  exact ⟨history, transfers.release temporary⟩

theorem LeadsTo.unpin (leads : before.LeadsTo base after) : before.LeadsTo base after.unpinned := by
  rcases leads with ⟨history, transfers⟩
  exact ⟨history, transfers.unpin⟩

theorem Passes.leadsTo (passes : before.Passes base loads kept after) :
    before.LeadsTo base after := by
  rcases passes with ⟨history, transfers, -⟩
  exact ⟨history, transfers.mono fun _ keeps => keeps.1⟩

end Generation

namespace Generating

open Generation

variable {Result Next : Type} {base : Nat} {loads : Nat → Prop} {here : Set Temporary}
  {position : Position} {temporary : Temporary}

/-- Whatever is to stay in its spill slot stays there while a step is carried out. The temporaries
that may wait for their use besides are known before and after the step. -/
def Tends (base : Nat) (loads : Nat → Prop) (here : Set Temporary) (step : Generating Result)
    (there : Result → Set Temporary) (holds : Result → Prop) : Prop :=
  ∀ kept before, Guards base kept here before.pool → Whenever step before fun result after =>
    before.Passes base loads kept after ∧ Guards base kept (there result) after.pool ∧ holds result

namespace Tends

variable {step : Generating Result} {next : Result → Generating Next}
  {there : Result → Set Temporary} {last : Next → Set Temporary} {holds : Result → Prop}
  {post : Next → Prop}

theorem pure {result : Result} (same : here = there result) (isFit : holds result) :
    Tends base loads here (Pure.pure result) there holds :=
  fun _ before guards => Whenever.pure ⟨.refl before, same ▸ guards, isFit⟩

theorem bind (first : Tends base loads here step there holds)
    (rest : ∀ result, holds result → Tends base loads (there result) (next result) last post) :
    Tends base loads here (step >>= next) last post := by
  intro kept before guards
  refine (first kept before guards).bind fun result between ⟨passes, guardsBetween, isFit⟩ => ?_
  refine (rest result isFit kept between guardsBetween).mono
    fun _ after ⟨passesOn, guardsAfter, holdsLast⟩ => ?_
  exact ⟨passes.trans passesOn, guardsAfter, holdsLast⟩

theorem mono {weaker : Result → Prop} (tends : Tends base loads here step there holds)
    (weaken : ∀ result, holds result → weaker result) : Tends base loads here step there weaker :=
  fun kept before guards =>
      (tends kept before guards).mono fun result _ ⟨passes, guardsAfter, isFit⟩ =>
        ⟨passes, guardsAfter, weaken result isFit⟩

/-- One step after the other. -/
theorem andThen (first : Tends base loads here step there fun _ => True)
    (rest : ∀ result, Tends base loads (there result) (next result) last post) :
    Tends base loads here (step >>= next) last post :=
  first.bind fun result _ => rest result

theorem map (last : Next → Set Temporary) {change : Result → Next}
    (tends : Tends base loads here step (fun result => last (change result)) holds)
    (weaken : ∀ result, holds result → post (change result)) :
    Tends base loads here (change <$> step) last post := by
  rw [map_eq_pure_bind]
  exact tends.bind fun result isFit => .pure rfl (weaken result isFit)

/-- A step that is left out under some condition. -/
theorem bind_if {condition : Prop} [Decidable condition] {step : Generating Unit}
    {next : Unit → Generating Next} {there : Set Temporary}
    (first : condition → Tends base loads here step (fun _ => there) fun _ => True)
    (same : ¬condition → here = there) (rest : Tends base loads there (next ()) last post) :
    Tends base loads here (if condition then step >>= next else next ()) last post := by
  split
  next isTrue => exact (first isTrue).andThen fun _ => rest
  next isFalse => exact same isFalse ▸ rest

/-- A value goes on to the next step only if it is there. -/
theorem operand {value : Option Temporary} {next : Temporary → Generating Next}
    (rest : ∀ temporary, value = some temporary →
      Tends base loads here (next temporary) last post) :
    Tends base loads here (Generating.operand position value >>= next) last post := by
  intro kept before guards
  refine (whenever_operand position value).bind ?_
  rintro temporary _ ⟨isValue, rfl⟩
  exact rest temporary isValue kept before guards

end Tends

variable {instruction : Instruction}

theorem tends_fail (position : Position) (explanation : String) {there : Result → Set Temporary}
    {holds : Result → Prop} : Tends base loads here (fail position explanation) there holds :=
  fun _ _ _ => whenever_fail _ _

theorem tends_orFail (content : Option Result) (position : Position) (explanation : String) :
    Tends base loads here (orFail content position explanation) (fun _ => here) fun result =>
      content = some result := by
  intro kept before guards
  refine (whenever_orFail content position explanation).mono ?_
  rintro result _ ⟨found, rfl⟩
  exact ⟨.refl before, guards, found⟩

theorem tends_withPool {operation : RegisterPool.Operation Result} {there : Result → Set Temporary}
    (carries : ∀ {kept before result after}, Guards base kept here before.pool →
      operation.run before = (.ok result, after) → Carries base kept before (there result) after) :
    Tends base loads here (withPool position operation) there fun _ => True := by
  intro kept before guards
  refine whenever_withPool fun result session ran => ?_
  have carried := @carries kept before.session result session guards ran
  exact ⟨.resume guards carried, carried.guards, trivial⟩

theorem tends_acquire :
    Tends base loads here (acquire position) (fun acquired => insert acquired.1 here)
      fun _ => True :=
  tends_withPool Guards.acquire

theorem tends_load (isHere : temporary ∈ here) :
    Tends base loads here (load position temporary) (fun _ => here) fun _ => True :=
  tends_withPool fun guards => guards.loadOne isHere

theorem tends_loadPair {left right : Temporary} (leftHere : left ∈ here)
    (rightHere : right ∈ here) :
    Tends base loads here (withPool position (RegisterPool.loadPair left right))
      (fun _ => here) fun _ => True :=
  tends_withPool fun guards => guards.loadPair leftHere rightHere

theorem tends_spillAllExcept (spared : List Temporary) :
    Tends base loads here (spillAllExcept position spared) (fun _ => here) fun _ => True :=
  tends_withPool Guards.spillAllExcept

/-- A temporary is given up; the others are those that are left. -/
theorem tends_release {left : Set Temporary} (hereEq : here = insert temporary left) :
    Tends base loads here (release temporary) (fun _ => left) fun _ => True := by
  intro kept before guards
  have carries : Carries base kept before.session left ⟨before.pool.release temporary,
      before.emitter.code⟩ :=
    Guards.release (hereEq ▸ guards)
  refine (succeeds_release temporary).whenever.goesTo ?_
  exact ⟨.resume guards carries, carries.guards, trivial⟩

theorem tends_unpinAll : Tends base loads here unpinAll (fun _ => here) fun _ => True := by
  intro kept before guards
  have carries : Carries base kept before.session here ⟨before.pool.unpinAll,
    before.emitter.code⟩ := Guards.unpin guards
  refine succeeds_unpinAll.whenever.goesTo ?_
  exact ⟨.resume guards carries, carries.guards, trivial⟩

theorem tends_emit (aside : instruction.IsAside base loads) :
    Tends base loads here (emit instruction) (fun _ => here) fun _ => True := by
  intro kept before guards
  refine (succeeds_emit instruction).whenever.goesTo ?_
  exact ⟨.emitted guards aside, guards, trivial⟩

theorem tends_passive (isPassive : instruction.isPassive = true) :
    Tends base loads here (emit instruction) (fun _ => here) fun _ => True :=
  tends_emit (Instruction.isAside_of_isPassive isPassive base loads)

theorem tends_push (register : Register) :
    Tends base loads here (emit (.push register)) (fun _ => here) fun _ => True :=
  tends_emit ⟨rfl, rfl, trivial, nofun⟩

theorem tends_call {call : Instruction} (isCall : call.isCall = true) :
    Tends base loads here (emit call) (fun _ => here) fun _ => True :=
  tends_emit (by cases call <;> first | exact ⟨rfl, rfl, trivial, nofun⟩ | cases isCall)

theorem tends_emitAll {block : List Instruction}
    (aside : ∀ instruction ∈ block, instruction.IsAside base loads) :
    Tends base loads here (emitAll block) (fun _ => here) fun _ => True := by
  intro kept before guards
  refine (succeeds_emitAll block).whenever.goesTo ?_
  refine ⟨?_, guards, trivial⟩
  induction block generalizing before with
  | nil =>
    rw [emitted_nil]
    exact .refl before
  | cons instruction block ih =>
    have first : before.Passes base loads kept (before.emitted [instruction]) :=
      .emitted guards (aside instruction List.mem_cons_self)
    rw [← List.singleton_append, ← emitted_emitted]
    exact first.trans (ih (fun other isOther =>
      aside other (List.mem_cons_of_mem _ isOther)) _ guards)

/-- A temporary is made, and its register filled. -/
theorem tends_produce {instruction : Register → Instruction}
    (aside : ∀ register, (instruction register).IsAside base loads) :
    Tends base loads here (produce position instruction) (fun result => insert result here)
      fun _ => True :=
  tends_acquire.andThen fun acquired => (tends_emit (aside acquired.2)).andThen fun _ =>
    .pure rfl trivial

theorem Tends.conclude {step : Generating Result} {there : Result → Set Temporary}
    {holds : Result → Prop} (tends : Tends base loads here step there holds) :
    Tends base loads here (Generating.conclude step) there holds :=
  tends.bind fun _ isFit => tends_unpinAll.andThen fun _ => .pure rfl isFit

/-- The own code of an expression leaves a value. -/
theorem Tends.concludeSome {step : Generating Temporary} {start : Set Temporary}
    (tends : Tends base loads start step (fun result => insert result here) fun _ => True) :
    Tends base loads start (Generating.conclude (some <$> step)) (having here) fun _ => True :=
  Tends.conclude (Tends.map (having here) tends fun _ _ => trivial)

end Generating

end Decaf
