import Decaf.Proofs.Events.Methods
import Decaf.Proofs.Spilling.Entries

/-!
# Spill slots in the code of methods

In the code of a method, a temporary that comes back from its spill slot was stored there on every
way from the start of the method. The branch past the right operand of `&&` or `||` makes no
difference: both ways behind it find the result in the same register, and all else in the same
slots.
-/

namespace Decaf

open Generation Generating

open RegisterPool (Guards Session Transfer Transfers)

variable {base : Nat} {before after : Session} {history : List Transfer}

/-- Every load from a spill slot in the code of a method is on record, and whichever way control
takes from the start to it, it passes a line that stores the same temporary to the same slot, and
then no other line that stores there. -/
structure StoresOnEveryWay (base : Nat) (history : List Transfer) (code : List Instruction) :
    Prop where
  recorded : ∀ place target slot, code[place]? = some (.loadStack target slot) → base ≤ slot →
    ∃ load ∈ history, load.isStore = false ∧ place = 2 + load.place
  stored : ∀ load ∈ history, load.isStore = false → ∃ store ∈ history, store.isStore = true ∧
    store.temporary = load.temporary ∧ ∃ slot target,
    code[2 + load.place]? = some (.loadStack target slot) ∧
      ∀ way : List Nat, (way ++ [2 + load.place]).IsChain (Flows code) →
      (way ++ [2 + load.place]).head? = some 0 →
        ∃ early late source, way = early ++ (2 + store.place) :: late ∧
          code[2 + store.place]? = some (.storeStack slot source) ∧
          ∀ line ∈ late, ∀ other, code[line]? ≠ some (.storeStack slot other)

/-- What was stored in the code of a body was stored in the code of the method, which starts two
lines earlier. -/
theorem RegisterPool.Traces.storesOnEveryWay {facts : String → Option (Set (Nat × Nat))}
    {front : List Instruction} (traces : RegisterPool.Traces 2 facts history after)
    (transfers : Transfers (Instruction.Spares base) before history after)
    (wellFormed : before.pool.WellFormed) (startsEmpty : before.code = #[])
    (isFront : front.length = 2) (spares : ∀ instruction ∈ front, instruction.Spares base)
    (meet : AllMeet 0 facts front) (nothingStored : storedBehind 0 facts front = ∅) :
    StoresOnEveryWay base history (front ++ after.code.toList) := by
  have behind (code : List Instruction) (place : Nat) : (front ++ code)[2 + place]? =
      code[place]? := by
    rw [List.getElem?_append_right (by omega), isFront, Nat.add_sub_cancel_left]
  have shifted {code : List Instruction} (meets : AllMeet 2 facts code) :
      AllMeet 0 facts (front ++ code) ∧ storedBehind 0 facts (front ++ code) =
        storedBehind 2 facts code := by
    have prepended := @AllMeet.prepend 0 facts code front
    rw [isFront] at prepended
    exact prepended meets meet nothingStored
  refine ⟨fun place target slot found isSpill => ?_, fun load isThere isLoad => ?_⟩
  · by_cases inFront : place < 2
    · rw [List.getElem?_append_left (by omega)] at found
      exact absurd (spares _ (List.mem_of_getElem? found)) (Nat.not_lt.mpr isSpill)
    · obtain ⟨inBody, rfl⟩ : ∃ inBody, place = 2 + inBody := ⟨place - 2, by omega⟩
      rw [behind, Array.getElem?_toList] at found
      rcases transfers.mem_of_added wellFormed (by simp [startsEmpty]) found with
        isBelow | ⟨load, isThere, rfl, both⟩
      · exact absurd isBelow (Nat.not_lt.mpr isSpill)
      · rcases both with ⟨-, _, _, ⟨⟩⟩ | ⟨isLoad, -⟩
        exact ⟨load, isThere, isLoad, rfl⟩
  · rcases traces.reloaded load isThere isLoad with
      ⟨store, wasThere, isStore, same, slot, target, found, isStored⟩
    refine ⟨store, wasThere, isStore, same, slot, target, (behind _ _).trans found,
      fun way isWay fromStart => ?_⟩
    have inRange := (List.getElem?_eq_some_iff.mp found).1
    have early : AllMeet 2 facts (after.code.toList.take load.place) :=
      AllMeet.front (by rw [List.take_append_drop]; exact traces.meet)
    have storedThere : (slot, 2 + store.place) ∈ storedAt facts (front ++ after.code.toList)
        (2 + load.place) := by
      rw [storedAt_of_not_label ((behind _ _).trans found) rfl, List.take_append, isFront,
        Nat.add_sub_cancel_left, List.take_of_length_le (by omega), (shifted early).2]
      exact isStored
    rcases (shifted traces.meet).1.passes_store isWay fromStart storedThere with
      ⟨first, late, wayEq, ⟨source, isSource⟩, others⟩
    exact ⟨first, late, source, wayEq, isSource, others⟩

namespace MethodContext

variable {context : MethodContext} {registerCount first last : Nat} {body : Stmt}
  {code : Array Instruction}

/-- At the start of a method nothing is spilled. -/
theorem recorded_start (context : MethodContext) (named : registerCount ≤ Register.nameCount)
    {facts : String → Option (Set (Nat × Nat))}
    (fresh : ∀ number, facts (Label.inner number) = none) :
    (context.start registerCount first).Recorded (context.start registerCount first).session
      context.frame.spillBase 2 facts ∅ := by
  have wellFormed := RegisterPool.wellFormed_start named context.frame.spillBase
  refine ⟨⟨[], .none, ⟨allMeet_nil, nofun, nofun⟩, fun number _ => fresh number, nofun⟩, wellFormed,
    rfl, nofun, ?_, nofun⟩
  rintro temporary (⟨register, resident, held, -⟩ | ⟨entry, isSpilled, -⟩)
  · exact absurd (held.symm.trans (RegisterPool.content?_start _ _ register))
      (Option.some_ne_none _)
  · cases isSpilled

/-- The code of a method loads from its spill slots only what it has stored there on every way. -/
theorem storesOnEveryWay_generate (inFront : context.StaysBelow context.frame.spillBase)
    (named : registerCount ≤ Register.nameCount)
    (generated : context.generate registerCount first body = .ok (code, last)) :
    ∃ history after, (generateBody context body).run (context.start registerCount first) =
      .ok ((), after) ∧
      Transfers (Instruction.Spares context.frame.spillBase)
        (context.start registerCount first).session history
        after.session ∧ code = context.assemble after ∧
          StoresOnEveryWay context.frame.spillBase history code.toList := by
  let label := context.registry.methodLabel context.method.id
  let facts : String → Option (Set (Nat × Nat)) := fun name => if name = label then some ∅ else none
  have fresh : ∀ number, facts (Label.inner number) = none := fun number =>
    if_neg fun same => context.registry.methodLabel_ne_inner _ number same.symm
  have bodyRecords : Whenever (generateBody context body) (context.start registerCount first)
      fun _ after =>
        Records (context.start registerCount first).session context.frame.spillBase 2 facts ∅
          after := by
    refine records_bind (records_generateStmt inFront body (context.recorded_start named fresh)) ?_
    intro more between _ recorded
    refine whenever_get.goOnWith ?_
    split
    · refine (succeeds_emit _).whenever.goesTo ?_
      exact ⟨more, .refl more, recorded_emitted recorded rfl trivial nofun⟩
    · exact .pure ⟨more, .refl more, recorded⟩
  unfold MethodContext.generate at generated
  split at generated
  next after ran =>
    obtain ⟨rfl, -⟩ := Prod.mk.inj (Except.ok.inj generated)
    rcases bodyRecords () after ran with ⟨more, isMore, ⟨history, transfers, traced⟩, guards⟩
    refine ⟨history, after, ran, transfers, rfl, ?_⟩
    have known : more label = some ∅ := isMore _ _ (if_pos rfl)
    have codeEq : (context.assemble after).toList =
        [.label label, .enter (context.frame.localCount + after.pool.slotCount)] ++
        after.emitter.code.toList := by
      simp [assemble, label]
    have front : AllMeet 0 more [.label label,
        .enter (context.frame.localCount + after.pool.slotCount)] := by
      have labelled : AllMeet 0 more ([] ++ [.label label]) := by
        refine allMeet_concat.mpr ⟨allMeet_nil, ?_⟩
        rintro _ (⟨⟨⟩⟩ | ⟨⟨⟩⟩)
        exact ⟨∅, Set.empty_subset _, known⟩
      exact allMeet_concat.mpr ⟨labelled, by rintro _ (⟨⟨⟩⟩ | ⟨⟨⟩⟩)⟩
    have nothingStored : storedBehind 0 more [.label label,
        .enter (context.frame.localCount + after.pool.slotCount)] = ∅ := by
      simp [storedBehind, Instruction.leavesStored, Instruction.isTerminator, Instruction.label?,
        Instruction.storesTo?, known]
    rw [codeEq]
    exact traced.traces.storesOnEveryWay transfers (RegisterPool.wellFormed_start named _) rfl rfl
      (by simp [Instruction.Spares]) front nothingStored
  next => cases generated

/-- The code of `&&` or `||` keeps both ways behind its left operand in step. -/
theorem meetsAgain_of_means {site : Site ExprId} {operator : BinaryOperator} {left right : Expr}
    {type : DataType} (complete : context.Complete)
    (inFront : context.StaysBelow context.frame.spillBase)
    (means : Means context.setting context.table (.binary site operator left right) (.value type))
    (isShortCircuit : operator.isShortCircuit = true) {before : Generation} (ready : before.Ready)
    (baseEq : before.pool.spillBase = context.frame.spillBase) :
    ∃ run : ShortCircuit context site.position operator left right before,
      (generateExpr context (.binary site operator left right)).run before = .ok (some run.result,
        run.joined.unpinned) ∧
        run.MeetsAgain context.frame.spillBase := by
  rcases (generates_of_means complete means type rfl).1 before ready baseEq with
    ⟨value, after, ran, -⟩
  have generated := ran
  rw [generateExpr, if_pos isShortCircuit] at ran
  have inLeft := (tends_generate (grantsAll inFront) (List.Subset.refl left.nodes)).1
  have inRight := (tends_generate (grantsAll inFront) (List.Subset.refl right.nodes)).1
  rcases whenever_shortCircuit operator (inLeft _) (inRight ∅)
    (Guards.of_wellFormed ready.wellFormed baseEq) value after ran with ⟨run, rfl, rfl, meets, -⟩
  exact ⟨run, generated, meets⟩

end MethodContext

/-! ## Listings -/

/-- Spilled temporaries are in their slots on all ways to where they are used, and the operands of
`&&` and `||` make no difference, in whichever state with nothing pinned their code starts. In the
run that writes the code of a method, each operator of the body is entered in such a state. -/
structure CheckedProgram.SpillsOnEveryWay (program : CheckedProgram) (registerCount : Nat)
    (listed : ListedMethod) : Prop where
  stores : ∃ history after,
    (generateBody (program.contextOf program.layout listed.method) listed.body).run
        ((program.contextOf program.layout listed.method).start registerCount listed.firstLabel) =
          .ok ((), after) ∧
      Transfers (Instruction.Spares (program.frameOf listed.method).spillBase)
        ((program.contextOf program.layout listed.method).start registerCount
          listed.firstLabel).session history
        after.session ∧
      listed.code = (program.contextOf program.layout listed.method).assemble after ∧
      StoresOnEveryWay (program.frameOf listed.method).spillBase history listed.code.toList
  meets : ∀ {site operator left right}, .binary site operator left right ∈ listed.body.exprNodes →
    operator.isShortCircuit = true → ∀ before : Generation, before.Ready →
      before.pool.spillBase = (program.frameOf listed.method).spillBase →
        ∃ run : ShortCircuit (program.contextOf program.layout listed.method) site.position operator
            left right before,
          (generateExpr (program.contextOf program.layout listed.method)
            (.binary site operator left right)).run before =
              .ok (some run.result, run.joined.unpinned) ∧
            run.MeetsAgain (program.frameOf listed.method).spillBase
  enters : Options.minRegisters ≤ registerCount → ∀ {site operator left right},
    .binary site operator left right ∈ listed.body.exprNodes → ∀ after,
      (generateBody (program.contextOf program.layout listed.method) listed.body).run
          ((program.contextOf program.layout listed.method).start registerCount listed.firstLabel) =
            .ok ((), after) →
        Enters (program.contextOf program.layout listed.method)
          (program.frameOf listed.method).spillBase (.binary site operator left right)
          ((program.contextOf program.layout listed.method).start registerCount
            listed.firstLabel) after

/-- In the code of every method of a program, all that comes back from a spill slot was stored there
on every way, and both ways past the right operand of `&&` or `||` end with the same temporaries in
the same places. -/
theorem Program.IsForest.spillsOnEveryWay {program : Program} {options : Options}
    {listing : Listing} (isForest : program.IsForest)
    (named : options.registerCount ≤ Options.maxRegisters)
    (compiled : program.compile options = .ok listing) :
    ∃ checked methods, (Analysis.ofProgram program).checked = .ok checked ∧
      checked.ListedAs options listing methods ∧
      ∀ listed ∈ methods, checked.SpillsOnEveryWay options.registerCount listed := by
  rcases exists_listedAs compiled with ⟨checked, methods, isChecked, listedAs⟩
  have declared := (declared_of_checked isChecked).1
  have sound := sound_of_checked isForest isChecked
  refine ⟨checked, methods, isChecked, listedAs, fun listed isListed => ?_⟩
  have generates := listedAs.generates isListed
  have found := declared.found_of_generates generates
  have inFront : (checked.contextOf checked.layout listed.method).StaysBelow
      (checked.frameOf listed.method).spillBase :=
    fun _ reaches => declared.reaches_lt found reaches
  rcases generates.isMethod with ⟨body, isBody, bodyFound, bodyEq⟩
  refine ⟨MethodContext.storesOnEveryWay_generate inFront named generates.generated, ?_, ?_⟩
  · intro site operator left right isNode isShortCircuit before ready baseEq
    rcases sound.bodies body isBody with ⟨method, methodFound, accepted, -, -⟩
    obtain rfl := Option.some.inj (methodFound.symm.trans bodyFound)
    rw [← bodyEq] at isNode
    rcases accepted.accepted.means_of_mem isNode with ⟨meaning, means⟩
    cases meaning with
    | value type =>
      exact MethodContext.meetsAgain_of_means (sound.complete methodFound) inFront means
        isShortCircuit ready baseEq
    | aClass | asParent => cases means
  · intro enough site operator left right isNode after ran
    have areNodes : listed.body.exprNodes ⊆ checked.nodes :=
      bodyEq ▸ fun node isNode => List.mem_flatMap.mpr ⟨body, isBody, isNode⟩
    have needs := needsValues_of_checked isForest.toIndexed isChecked listed.method areNodes
    have resting := resting_start (checked.contextOf checked.layout listed.method) enough
      named listed.firstLabel
    have visited := visits_generateBody inFront needs (List.Subset.refl _) _ ⟨resting.idle.ready,
      resting.base_eq⟩ () after ran
    exact visited.enters _ isNode rfl

/-- What was read as a program spills on every way. -/
theorem Program.spillsOnEveryWay_of_compile {value : Json} {program : Program} {options : Options}
    {listing : Listing} (decoded : Program.ofJson value = .ok program)
    (named : options.registerCount ≤ Options.maxRegisters)
    (compiled : program.compile options = .ok listing) :
    ∃ checked methods, (Analysis.ofProgram program).checked = .ok checked ∧
      checked.ListedAs options listing methods ∧
      ∀ listed ∈ methods, checked.SpillsOnEveryWay options.registerCount listed :=
  (isForest_ofJson decoded).spillsOnEveryWay named compiled

/-- `bool same(bool first, bool second) { return first == (second && (first || second)); }` and an
empty `main` -/
def choosingProgram : Json :=
  .oneClass "Main"
    [.method "same" "boolean" [.variableOf "first" "boolean", .variableOf "second" "boolean"]
      [.node "Return"
        [("value", .binary "==" (.identifier "first")
          (.binary "&&" (.identifier "second")
            (.binary "||" (.identifier "first") (.identifier "second"))))]],
    .method "main" "void" [] []]

/-- The first operand of the comparison waits in its slot on both ways past the inner operands. -/
theorem spillsOnEveryWay_choosingProgram :
    ∃ program listing, Program.ofJson choosingProgram = .ok program ∧
    3 ≤ Options.maxRegisters ∧ program.compile ⟨3, true⟩ = .ok listing ∧
    ∃ checked methods, (Analysis.ofProgram program).checked = .ok checked ∧
      checked.ListedAs ⟨3, true⟩ listing methods ∧ ∀ listed ∈ methods,
        checked.SpillsOnEveryWay 3 listed := by
  rcases Program.exists_of_test choosingProgram (fun program =>
    (program.compile ⟨3, true⟩).toOption.isSome) (by decide +kernel) with ⟨program, decoded, tested⟩
  rcases Program.exists_listing tested with ⟨listing, compiled⟩
  exact ⟨program, listing, decoded, by decide, compiled,
    Program.spillsOnEveryWay_of_compile decoded (by decide) compiled⟩

end Decaf
