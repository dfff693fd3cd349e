import Decaf.Proofs.Spilling.Operations

/-!
# Spilled temporaries past an operand

At the branch past the right operand of `&&` or `||` all temporaries that wait for their use are in
their spill slots, and they stay there while the right operand is evaluated. So behind the label
where both ways meet, the same line stored each of them last, whichever way control took.
-/

namespace Decaf

open RegisterPool (Guards Carries Transfers Avoids Transfer ResidentsWithin lastOf?)

namespace Generation

/-- Slots of temporaries, each with the line that stored the temporary there. -/
def storesOf (base first : Nat) (history : List Transfer) (kept : Set Spilled) : Set (Nat × Nat) :=
  {known | ∃ entry ∈ kept, ∃ place, lastOf? history entry.temporary = some ⟨place,
    entry.temporary, true⟩ ∧
    known = (base + entry.slot, first + place)}

variable {base first : Nat} {loads : Nat → Prop} {facts : String → Option (Set (Nat × Nat))}
  {history later : List Transfer} {kept : Set Spilled} {here : Set Temporary}
  {before after : Generation}

theorem storesOf_append (avoids : Avoids kept later) :
    storesOf base first (history ++ later) kept = storesOf base first history kept := by
  refine Set.ext fun known => exists_congr fun entry => and_congr_right fun isKept => ?_
  rw [avoids.lastOf?_append isKept]

/-- A spilled temporary was last stored by the line that is on record for it. -/
theorem Traced.storesOf_subset (traced : before.Traced first facts history)
    (areSpilled : ∀ entry ∈ kept, entry ∈ before.pool.spilled) :
    storesOf before.pool.spillBase first history kept ⊆
      storedBehind first facts before.emitter.code.toList := by
  rintro _ ⟨entry, isKept, place, isLast, rfl⟩
  rcases traced.traces.stored entry (areSpilled entry isKept) with ⟨other, isOtherLast, isStored⟩
  obtain rfl := (Transfer.mk.inj (Option.some.inj (isLast.symm.trans isOtherLast))).1
  exact isStored

/-- The code branches past an operand. Everything that waits for its use is in its spill slot, and
the label is known to find it there. -/
structure Forks (base : Nat) (loads : Nat → Prop) (kept : Set Spilled) (here : Set Temporary)
    (before : Generation) (label : String) (after : Generation) : Prop where
  history : ∃ history, Transfers (Instruction.Keeps base loads) before.session history
    after.session ∧ Avoids kept history ∧
    ∀ first facts past, before.Traced first facts past → ∃ more, Extends facts more ∧
      more label =
        some (storesOf base first (past ++ history) {entry | entry ∈ after.pool.spilled}) ∧
      after.Traced first more (past ++ history)
  guards : Guards base kept here after.pool
  alone : Guards base {entry | entry ∈ after.pool.spilled} ∅ after.pool

/-- Both ways meet behind an operand, where the result is the only temporary in a register. -/
structure Joins (base : Nat) (loads : Nat → Prop) (kept : Set Spilled) (before : Generation)
    (label : String) (result : Temporary) (after : Generation) : Prop where
  history : ∃ history, Transfers (Instruction.Keeps base loads) before.session history
    after.session ∧ Avoids kept history ∧
    ∀ first facts past, before.Traced first facts past →
    facts label = some (storesOf base first past kept) →
      ∃ more, Extends facts more ∧ after.Traced first more (past ++ history)
  guards : Guards base kept {result} after.pool

/-- A branch tests the register of an operand that is given up behind it. -/
def TestsAt (operator : BinaryOperator) (index : Nat) (label : String) (left : Temporary)
    (after : Generation) : Prop :=
  ∃ loaded : Generation, loaded.pool.HoldsPinned (.general index) left ∧
    label = Label.inner loaded.emitter.nextLabel ∧
    after = ((loaded.labelTaken.emitted [operator.branch (.general index) label]).released
      left).unpinned

/-- What copies a register to another one, unless that is the same. -/
def copyOf (source target : Nat) : List Instruction :=
  if source = target then [] else [.move (.general target) (.general source)]

/-- The generation at the label behind an operand that was put into a register and given up. -/
def atLabel (loaded : Generation) (source index : Nat) (right : Temporary) (label : String) :
    Generation :=
  ((loaded.emitted (copyOf source index)).released right).emitted [.label label]

/-- In front of a label an operand is put into a register and given up. At the label no register is
taken, so that the result is made in this register without any code. -/
def FillsAt (index : Nat) (label : String) (right result : Temporary) (after : Generation) : Prop :=
  ∃ (loaded : Generation) (source : Nat), loaded.pool.HoldsPinned (.general source) right ∧
    (∀ register, (loaded.atLabel source index right label).pool.content? register = none) ∧
      (RegisterPool.acquireSpecific index).run (loaded.atLabel source index right label).session =
        (.ok (result, .general index), after.session) ∧
          after.emitter.code = (loaded.atLabel source index right label).emitter.code

/-- The branch past an operand is emitted while the other operand is the only temporary in a
register. -/
theorem forks_branch {temporary : Temporary} (loads : Nat → Prop)
    (guards : Guards base kept (insert temporary here) before.pool)
    (within : before.pool.ResidentsWithin [temporary]) (operator : BinaryOperator)
    (register : Register) :
    Forks base loads kept here before (Label.inner before.emitter.nextLabel)
      ((before.labelTaken.emitted
        [operator.branch register (Label.inner before.emitter.nextLabel)]).released
        temporary).unpinned := by
  obtain rfl := guards.base_eq
  have branches : (operator.branch register (Label.inner before.emitter.nextLabel)).Keeps
      before.pool.spillBase loads ∧
      (operator.branch register (Label.inner before.emitter.nextLabel)).label? = none ∧
      (operator.branch register (Label.inner before.emitter.nextLabel)).target? =
        some (Label.inner before.emitter.nextLabel) := by
    unfold BinaryOperator.branch
    split <;> exact ⟨⟨trivial, nofun⟩, rfl, rfl⟩
  generalize operator.branch register (Label.inner before.emitter.nextLabel) = branch at branches ⊢
  rcases branches with ⟨keeps, notLabel, leads⟩
  have releases := RegisterPool.releases_release guards.wellFormed temporary
  have released := (@Guards.release _ kept here before.session temporary guards).guards
  have guardsAfter :=
    (@Guards.unpin _ kept here ⟨before.pool.release temporary, before.emitter.code⟩ released).guards
  have wereSpilled : ∀ entry ∈ (before.pool.release temporary).spilled,
      entry ∈ before.pool.spilled :=
    fun entry isSpilled => ((releases.spilled_iff entry).mp isSpilled).1
  have givesUp : Transfers (fun _ => False) (before.labelTaken.emitted [branch]).session []
      (((before.labelTaken.emitted [branch]).released temporary).unpinned).session :=
    (Transfers.none.release temporary).unpin
  refine ⟨⟨[], ?_, RegisterPool.avoids_nil, fun first facts past traced => ?_⟩, guardsAfter, ?_⟩
  · have emits : Transfers (Instruction.Keeps before.pool.spillBase loads) before.session []
        (before.labelTaken.emitted [branch]).session := by
      rw [session_emitted]
      exact Transfers.none.emit branch keeps
    exact emits.trans (givesUp.mono fun _ => False.elim)
  · let known :=
      storesOf before.pool.spillBase first past
      {entry | entry ∈ (before.pool.release temporary).spilled}
    rcases traced.labelTaken known with ⟨isMore, taken⟩
    have isKnown : Function.update facts (Label.inner before.emitter.nextLabel) (some known)
        (Label.inner before.emitter.nextLabel) = some known := Function.update_self _ _ _
    have emitted := taken.emitted_spares notLabel keeps.1 fun name isNamed => by
      rw [notLabel, leads] at isNamed
      obtain rfl := Option.some.inj (isNamed.resolve_left nofun)
      exact ⟨known, taken.storesOf_subset wereSpilled, isKnown⟩
    have resumed := emitted.resume givesUp guards.wellFormed
    rw [List.append_nil] at resumed ⊢
    exact ⟨_, isMore, isKnown, resumed⟩
  · refine ⟨guardsAfter.wellFormed, guardsAfter.base_eq, fun _ isSpilled => isSpilled,
      fun other isLive => ?_, nofun⟩
    rcases isLive with ⟨index, resident, held, -⟩ | ⟨entry, isSpilled, same⟩
    · rw [unpinned, RegisterPool.unpinAll, RegisterPool.content?_mapResidents,
        Option.map_eq_some_iff] at held
      rcases held with ⟨original, wasHeld, -⟩
      rcases (releases.content?_iff index original).mp wasHeld with ⟨found, differs⟩
      exact absurd (List.mem_singleton.mp (within index original found)) differs
    · exact .inr ⟨entry, isSpilled, same⟩

/-- At the label behind an operand everything that waits for its use is in its spill slot. -/
theorem joins_label {index : Nat} (guards : Guards base kept ∅ before.pool)
    (inRange : index < before.pool.registers.length) (label : String) :
    Joins base loads kept before label ⟨before.pool.nextTemporary⟩
      ((before.emitted [.label label]).resume
        (RegisterPool.occupiedSession (before.emitted [.label label]).session index)) := by
  obtain rfl := guards.base_eq
  have carries := @Guards.occupy _ kept ∅ (before.emitted [.label label]).session index guards
    inRange (guards.vacant index)
  have occupies : Transfers (fun _ => False) (before.emitted [.label label]).session []
      (RegisterPool.occupiedSession (before.emitted [.label label]).session index) :=
    Transfers.none.occupy inRange (guards.vacant index)
  refine ⟨⟨[], ?_, RegisterPool.avoids_nil, fun first facts past traced isKnown => ?_⟩, ?_⟩
  · have emits : Transfers (Instruction.Keeps before.pool.spillBase loads) before.session []
        (before.emitted [.label label]).session := by
      rw [session_emitted]
      exact Transfers.none.emit (.label label) ⟨trivial, nofun⟩
    exact emits.trans (occupies.mono fun _ => False.elim)
  · have subset := traced.storesOf_subset guards.keeps
    refine ⟨facts, .refl facts,
      Traced.resume (traced.emitted (.label label) ?_ fun entry isSpilled place isLast _ => ?_)
      occupies guards.wellFormed⟩
    · rintro _ (⟨⟨⟩⟩ | ⟨⟨⟩⟩)
      exact ⟨_, subset, isKnown⟩
    · simp only [Instruction.leavesStored, Instruction.isTerminator, Instruction.label?, isKnown,
        Option.getD_some]
      exact ⟨entry, @Guards.kept_of_spilled _ kept before.session entry guards isSpilled,
        place, isLast, rfl⟩
  · have made := carries.guards
    rwa [insert_empty_eq] at made

variable {between returned : Generation} {label : String} {result : Temporary}

theorem Forks.leadsTo (forks : Forks base loads kept here before label after) :
    before.LeadsTo base after := by
  rcases forks.history with ⟨history, transfers, -⟩
  exact ⟨history, transfers.mono fun _ keeps => keeps.1⟩

theorem Joins.leadsTo (joins : Joins base loads kept before label result after) :
    before.LeadsTo base after := by
  rcases joins.history with ⟨history, transfers, -⟩
  exact ⟨history, transfers.mono fun _ keeps => keeps.1⟩

theorem Passes.forks (early : before.Passes base loads kept between)
    (forks : Forks base loads kept here between label after) :
    Forks base loads kept here before label after := by
  rcases early with ⟨history, transfers, avoids, keeps⟩
  rcases forks.history with ⟨later, laterTransfers, laterAvoids, laterKeeps⟩
  refine ⟨⟨history ++ later, transfers.trans laterTransfers, avoids.append laterAvoids,
    fun first facts past traced => ?_⟩, forks.guards, forks.alone⟩
  rcases keeps first facts past traced with ⟨more, isMore, tracedBetween⟩
  rcases laterKeeps first more _ tracedBetween with ⟨most, isMost, isKnown, tracedAfter⟩
  rw [List.append_assoc] at isKnown tracedAfter
  exact ⟨most, isMore.trans isMost, isKnown, tracedAfter⟩

theorem Passes.joins (early : before.Passes base loads kept between)
    (joins : Joins base loads kept between label result after) :
    Joins base loads kept before label result after := by
  rcases early with ⟨history, transfers, avoids, keeps⟩
  rcases joins.history with ⟨later, laterTransfers, laterAvoids, laterKeeps⟩
  refine ⟨⟨history ++ later, transfers.trans laterTransfers, avoids.append laterAvoids,
    fun first facts past traced isKnown => ?_⟩, joins.guards⟩
  rcases keeps first facts past traced with ⟨more, isMore, tracedBetween⟩
  rw [← storesOf_append avoids] at isKnown
  rcases laterKeeps first more _ tracedBetween (isMore _ _ isKnown) with ⟨most, isMost, tracedAfter⟩
  rw [List.append_assoc] at tracedAfter
  exact ⟨most, isMore.trans isMost, tracedAfter⟩

/-- Between the branch and the label all that waited at the branch stays where it is, so it is found
there behind the label. -/
theorem Forks.joined (forks : Forks base loads kept here before label between)
    (passes : between.Passes base loads {entry | entry ∈ between.pool.spilled} returned)
    (joins : Joins base loads {entry | entry ∈ between.pool.spilled} returned label result after) :
    before.Passes base loads kept after ∧ Guards base kept (insert result here) after.pool := by
  have subset : kept ⊆ {entry | entry ∈ between.pool.spilled} := forks.guards.keeps
  constructor
  · rcases forks.history with ⟨history, transfers, avoids, keeps⟩
    rcases passes.joins joins with ⟨⟨later, laterTransfers, laterAvoids, laterKeeps⟩, -⟩
    refine ⟨history ++ later, transfers.trans laterTransfers,
      avoids.append (laterAvoids.mono subset), fun first facts past traced => ?_⟩
    rcases keeps first facts past traced with ⟨more, isMore, isKnown, tracedBetween⟩
    rcases laterKeeps first more _ tracedBetween isKnown with ⟨most, isMost, tracedAfter⟩
    rw [List.append_assoc] at tracedAfter
    exact ⟨most, isMore.trans isMost, tracedAfter⟩
  · refine ⟨joins.guards.wellFormed, joins.guards.base_eq, fun entry isKept =>
      joins.guards.keeps entry (subset isKept), fun temporary isLive => ?_,
      fun entry isKept isHere => ?_⟩
    · rcases joins.guards.live temporary isLive with rfl | ⟨entry, isSpilled, same⟩
      · exact .inl (Set.mem_insert _ _)
      · exact (forks.guards.live temporary (.inr ⟨entry, isSpilled, same⟩)).imp_left
          (Set.mem_insert_of_mem _)
    · rcases isHere with isResult | isHere
      · exact joins.guards.apart entry (subset isKept) isResult
      · exact forks.guards.apart entry isKept isHere

end Generation

namespace Generating

open Generation

variable {base : Nat} {loads : Nat → Prop} {kept : Set Spilled} {here : Set Temporary}
  {before : Generation} {position : Position} {context : MethodContext}

/-! ## Short circuits -/

/-- Only the given temporary is left in a register. -/
theorem residentsWithin_spillAllExcept (wellFormed : before.pool.WellFormed)
    (spared : List Temporary) :
    Whenever (spillAllExcept position spared) before fun _ after =>
      after.pool.ResidentsWithin spared := by
  refine whenever_withPool fun _ session ran => ?_
  rcases @RegisterPool.run_spillAllExcept_spec before.session wellFormed spared with
    ⟨other, moves, otherRan, clears⟩
  obtain ⟨-, rfl⟩ := Prod.mk.inj (otherRan.symm.trans ran)
  exact fun register resident held => ((clears.content?_iff register resident).mp held).2

/-- A temporary that is loaded is in a register; all others that are in one were there before. -/
theorem whenever_loaded (wellFormed : before.pool.WellFormed) (temporary : Temporary) :
    Whenever (load position temporary) before fun register after => ∃ index,
      register = .general index ∧
      index < after.pool.registers.length ∧ after.pool.HoldsPinned register temporary ∧
      (before.pool.ResidentsWithin [temporary] → after.pool.ResidentsWithin [temporary]) := by
  refine whenever_withPool fun register session ran => ?_
  rcases @RegisterPool.fetches_of_run_loadOne before.session session temporary
    wellFormed register ran with
    ⟨index, moves, rfl, fetches⟩
  refine ⟨index, rfl, fetches.length_eq ▸ fetches.registerLt, fetches.holdsPinned,
    fun within other resident held => ?_⟩
  rcases fetches.content?_before other resident held with wasHeld | same
  · rw [RegisterPool.pinnedSession, RegisterPool.content?_foldl_pin,
      Option.map_eq_some_iff] at wasHeld
    rcases wasHeld with ⟨original, found, rfl⟩
    have isOriginal := within other original found
    split <;> exact isOriginal
  · exact List.mem_singleton.mpr same

/-- What the code in front of a branch comes to: the left operand is loaded into the register that
is tested. -/
theorem forks_branchPast {left : Temporary} (loads : Nat → Prop)
    (guards : Guards base kept (insert left here) before.pool) (operator : BinaryOperator) :
    Whenever (branchPast position operator (some left)) before fun answer after => ∃ index,
      answer.1 = .general index ∧ index < after.pool.registers.length ∧
        Forks base loads kept here before answer.2 after ∧
        TestsAt operator index answer.2 left after := by
  refine (whenever_operand _ _).bind ?_
  rintro _ _ ⟨⟨⟩, rfl⟩
  have spills : Tends base loads (insert left here) (spillAllExcept position [left])
      (fun _ => insert left here) fun _ => True := tends_spillAllExcept [left]
  have fetches : Tends base loads (insert left here) (load position left)
      (fun _ => insert left here) fun _ => True :=
    tends_load (Set.mem_insert _ _)
  refine ((spills kept before guards).and
    (residentsWithin_spillAllExcept guards.wellFormed [left])).bind ?_
  rintro _ cleared ⟨⟨passes, guardsCleared, -⟩, within⟩
  refine ((fetches kept cleared guardsCleared).and
    (whenever_loaded guardsCleared.wellFormed left)).bind ?_
  rintro register loaded ⟨⟨passesOn, guardsLoaded, -⟩, index, rfl, inRange, isHeld, stays⟩
  have forks := forks_branch loads guardsLoaded (stays within) operator (.general index)
  refine whenever_freshLabel.goOnWith ?_
  refine (succeeds_emit _).whenever.goOn ?_
  refine (succeeds_release left).whenever.goOn ?_
  refine succeeds_unpinAll.whenever.goOn ?_
  rcases forks.history with ⟨_, transfers, -, -⟩
  refine .pure ⟨index, rfl, ?_, (passes.trans passesOn).forks forks, loaded, isHeld, rfl, rfl⟩
  exact (transfers.wellFormed guardsLoaded.wellFormed).2.2.symm ▸ inRange

/-- What the code behind a right operand comes to: the operand is put into the register that the
left one had. -/
theorem joins_joinRight {right : Temporary} {index : Nat} (loads : Nat → Prop)
    (guards : Guards base kept (insert right ∅) before.pool)
    (inRange : index < before.pool.registers.length) (label : String) :
    Whenever (joinRight position (.general index) label (some right)) before fun result after =>
      Joins base loads kept before label result after ∧ FillsAt index label right result after ∧
        ∀ register,
        after.pool.content? register = if register = index then some ⟨result,
        after.pool.clock, true⟩ else none := by
  refine (whenever_operand _ _).bind ?_
  rintro _ _ ⟨⟨⟩, rfl⟩
  have fetches : Tends base loads (insert right ∅) (load position right) (fun _ => insert right ∅)
      fun _ => True :=
    tends_load (Set.mem_insert _ _)
  refine ((fetches kept before guards).and (whenever_loaded guards.wellFormed right)).bind ?_
  rintro _ loaded ⟨⟨passes, guardsLoaded, -⟩, source, rfl, -, isHeld, -⟩
  have moves : Tends base loads (insert right ∅) (if Register.general source ≠ .general index
      then emit (.move (.general index) (.general source)) else pure ()) (fun _ =>
        insert right ∅) fun _ => True := by
    split
    · exact tends_passive rfl
    · exact .pure rfl trivial
  have copies : Whenever (if Register.general source ≠ .general index
      then emit (.move (.general index) (.general source)) else pure ()) loaded
      fun _ after => after = loaded.emitted (copyOf source index) := by
    by_cases same : source = index
    · rw [if_neg (by simpa using same), copyOf, if_pos same, emitted_nil]
      exact .pure rfl
    · rw [if_pos (by simpa using same), copyOf, if_neg same]
      exact (succeeds_emit _).whenever
  refine Whenever.bind_if ((moves kept loaded guardsLoaded).and copies) ?_
  rintro _ ⟨⟨passesOn, guardsMoved, -⟩, rfl⟩
  have gives : Tends base loads (insert right ∅) (release right) (fun _ => ∅) fun _ => True :=
    tends_release rfl
  refine ((gives kept _ guardsMoved).and (succeeds_release right).whenever).bind ?_
  rintro _ _ ⟨⟨passesLast, guardsReleased, -⟩, rfl⟩
  refine (succeeds_emit _).whenever.goOn ?_
  have early := (passes.trans passesOn).trans passesLast
  have stillInRange : index <
      ((loaded.emitted (copyOf source index)).released right).pool.registers.length := by
    rcases early with ⟨_, transfers, -, -⟩
    exact (transfers.wellFormed guards.wellFormed).2.2.symm ▸ inRange
  have guardsLabel : Guards base kept ∅ (loaded.atLabel source index right label).session.pool :=
    guardsReleased
  have occupies : Whenever (withPool position (RegisterPool.acquireSpecific index))
      (loaded.atLabel source index right label) fun acquired after =>
        Joins base loads kept before label acquired.1 after ∧
          FillsAt index label right acquired.1 after ∧ ∀ register,
          after.pool.content? register = if register = index then some ⟨acquired.1,
            after.pool.clock, true⟩ else none := by
    refine whenever_withPool fun acquired session ran => ?_
    rcases guardsLabel.acquireSpecific ran with ⟨rfl, rfl⟩
    have produces := RegisterPool.produces_occupied
      (RegisterPool.clears_vacant guardsLabel.wellFormed stillInRange (guardsLabel.vacant index))
    refine ⟨early.joins (joins_label guardsReleased stillInRange label),
      ⟨loaded, source, isHeld, guardsLabel.vacant, ran, rfl⟩, fun register => ?_⟩
    exact (produces.content?_eq register).trans (by rw [guardsLabel.vacant register]; rfl)
  exact occupies.bind fun _ _ both => .pure both

end Generating

/-- How the code of `&&` or `||` is generated: between the code of the operands stands a branch, and
behind them the label that it leads to. -/
structure ShortCircuit (context : MethodContext) (position : Position) (operator : BinaryOperator)
    (left right : Expr) (before : Generation) where
  leftValue : Temporary
  /-- The generation behind the left operand. -/
  evaluated : Generation
  /-- The register that is tested. -/
  index : Nat
  label : String
  /-- The generation behind the branch. -/
  branched : Generation
  rightValue : Temporary
  /-- The generation behind the right operand. -/
  returned : Generation
  result : Temporary
  /-- The generation behind the label. -/
  joined : Generation
  leftRan : (Generating.generateExpr context left).run before = .ok (some leftValue, evaluated)
  branchRan : (Generating.branchPast position operator (some leftValue)).run evaluated =
    .ok ((.general index, label), branched)
  rightRan : (Generating.generateExpr context right).run branched = .ok (some rightValue, returned)
  joinRan : (Generating.joinRight position (.general index) label (some rightValue)).run returned =
    .ok (result, joined)

namespace ShortCircuit

variable {context : MethodContext} {position : Position} {operator : BinaryOperator}
  {left right : Expr} {before : Generation}

/-- Both ways to the label leave the result in the same register and all other temporaries in the
same spill slots. -/
structure MeetsAgain (base : Nat) (run : ShortCircuit context position operator left right before) :
    Prop where
  /-- On the way past the right operand the left one stays in the register that was tested. -/
  tests : Generation.TestsAt operator run.index run.label run.leftValue run.branched
  /-- At the branch nothing else is in a register. -/
  vacant : ∀ register, run.branched.pool.content? register = none
  /-- On the other way nothing that waits at the branch is stored or loaded. -/
  untouched : ∃ history, Transfers (Instruction.Spares base) run.branched.session
    history run.joined.session ∧
    ∀ transfer ∈ history, ¬run.branched.pool.IsLive transfer.temporary
  /-- The right operand is put into the same register, which is free at the label. -/
  fills : Generation.FillsAt run.index run.label run.rightValue run.result run.joined
  /-- Behind the label nothing but the result is in a register. -/
  alone : ∀ register, run.joined.pool.content? register =
    if register = run.index then some ⟨run.result, run.joined.pool.clock, true⟩ else none

end ShortCircuit

namespace Generating

open Generation

variable {base : Nat} {loads : Nat → Prop} {kept : Set Spilled} {here : Set Temporary}
  {before : Generation} {position : Position} {context : MethodContext}
variable {left right : Expr}

section

variable (operator : BinaryOperator)
  (leftTends : Tends base loads here (generateExpr context left) (having here) fun _ => True)
  (rightTends : Tends base loads ∅ (generateExpr context right) (having ∅) fun _ => True)
include operator leftTends rightTends

/-- What the code of `&&` or `||` comes to. -/
theorem whenever_shortCircuit (guards : Guards base kept here before.pool) :
    Whenever (do
      let leftValue ← generateExpr context left
      let (register, label) ← branchPast position operator leftValue
      let rightValue ← generateExpr context right
      conclude (some <$> joinRight position register label rightValue)) before fun result after =>
        ∃ run : ShortCircuit context position operator left right before, result = some run.result ∧
          after = run.joined.unpinned ∧ run.MeetsAgain base ∧
          run.evaluated.LeadsTo base run.branched ∧
          run.returned.LeadsTo base run.joined ∧ before.Passes base loads kept run.joined ∧
          Guards base kept (insert run.result here) run.joined.pool := by
  refine (leftTends kept before guards).withRun.bind
    fun leftValue evaluated ⟨⟨early, guardsLeft, _⟩, leftRan⟩ => ?_
  cases leftValue with
  | none => exact whenever_fail _ _
  | some leftValue =>
    refine (forks_branchPast loads guardsLeft operator).withRun.bind ?_
    rintro ⟨register, label⟩ branched ⟨⟨index, rfl, inRange, forks, tests⟩, branchRan⟩
    refine (rightTends _ branched forks.alone).withRun.bind
      fun rightValue returned ⟨⟨passes, guardsReturned, _⟩, rightRan⟩ => ?_
    cases rightValue with
    | none => exact whenever_fail _ _
    | some rightValue =>
      have stillInRange : index < returned.pool.registers.length := by
        rcases passes with ⟨_, transfers, -, -⟩
        exact (transfers.wellFormed forks.alone.wellFormed).2.2.symm ▸ inRange
      have joins : Whenever (some <$> joinRight position (.general index) label
          (some rightValue)) returned
          fun result after => ∃ run : ShortCircuit context position operator left right before,
            result = some run.result ∧ after = run.joined ∧ run.MeetsAgain base ∧
              run.evaluated.LeadsTo base run.branched ∧ run.returned.LeadsTo base run.joined ∧
                before.Passes base loads kept run.joined ∧
                  Guards base kept (insert run.result here) run.joined.pool := by
        refine (joins_joinRight loads guardsReturned stillInRange label).withRun.map ?_
        rintro result joined ⟨⟨joins, fills, alone⟩, joinRan⟩
        rcases forks.joined passes joins with ⟨passesOn, guardsJoined⟩
        have vacant := @Guards.vacant _ _ branched.session forks.alone
        refine ⟨⟨leftValue, evaluated, index, label, branched, rightValue, returned, result, joined,
          leftRan, branchRan, rightRan, joinRan⟩, rfl, rfl, ⟨tests, vacant, ?_, fills, alone⟩,
          forks.leadsTo, joins.leadsTo,
          early.trans passesOn, guardsJoined⟩
        rcases (passes.joins joins).history with ⟨history, transfers, avoids, -⟩
        refine ⟨history, transfers.mono fun _ keeps => keeps.1, fun transfer isThere isLive => ?_⟩
        rcases isLive with ⟨register, resident, isHeld, -⟩ | ⟨entry, isSpilled, same⟩
        · cases (vacant register).symm.trans isHeld
        · exact avoids transfer isThere entry isSpilled same.symm
      refine (whenever_conclude joins).mono ?_
      rintro _ _ ⟨_, ⟨run, rfl, rfl, both⟩, rfl⟩
      exact ⟨run, rfl, rfl, both⟩

/-- The right operand of `&&` or `||` leaves alone what waits besides its left one. -/
theorem tends_shortCircuit :
    Tends base loads here (do
      let leftValue ← generateExpr context left
      let (register, label) ← branchPast position operator leftValue
      let rightValue ← generateExpr context right
      conclude (some <$> joinRight position register label rightValue)) (having here) fun _ =>
        True := by
  intro kept before guards
  refine (whenever_shortCircuit operator leftTends rightTends guards).mono ?_
  rintro _ _ ⟨run, rfl, rfl, -, -, -, passes, guardsJoined⟩
  have unpins : Carries base kept run.joined.session (insert run.result here)
      ⟨run.joined.pool.unpinAll, run.joined.emitter.code⟩ :=
    Guards.unpin guardsJoined
  exact ⟨passes.trans (.resume guardsJoined unpins), unpins.guards, trivial⟩

end

end Generating

end Decaf
