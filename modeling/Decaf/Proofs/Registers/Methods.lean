import Decaf.Proofs.Compiler
import Decaf.Proofs.Listing.Declarations
import Decaf.Proofs.Registers.Bodies

/-!
# Registers in the code of methods

In the code of a method every register that is used was filled on all ways there from the start of
the method or from the last call.
-/

namespace Decaf

open Generation Generating

namespace MethodContext

variable {context : MethodContext} {registerCount first last : Nat} {body : Stmt}
  {code : Array Instruction}

/-- At the start of a method no register is filled, and nothing is known of labels inside the
method. -/
theorem disciplined_start (context : MethodContext) (registerCount first : Nat)
    {facts : String → Option (Set Nat)} (fresh : ∀ number, facts (Label.inner number) = none) :
    (context.start registerCount first).Disciplined registerCount facts ∅ [] := by
  have noResidents : (RegisterPool.start registerCount context.frame.spillBase).residents = [] := by
    rw [RegisterPool.residents_eq, RegisterPool.start, List.append_nil,
      List.eq_nil_iff_forall_not_mem]
    rintro ⟨register, resident⟩ isThere
    rcases RegisterPool.mem_numbered.mp isThere with ⟨place, _, held⟩
    have isNone :=
      (List.getElem?_replicate ▸ held : (if place < registerCount then some none else none) = _)
    split at isNone
    · cases Option.some.inj isNone
    · cases isNone
  refine ⟨⟨List.length_replicate, supplies_nil, fetchesResults_nil, ?_, fun isThere => ?_⟩,
    fun number _ => fresh number, by rintro _ ⟨⟩⟩
  · unfold RegisterPool.Unique
    change ((RegisterPool.start registerCount context.frame.spillBase).residents.map _).Nodup
    rw [noResidents]
    exact List.nodup_nil
  · have isThere : _ ∈ (RegisterPool.start registerCount context.frame.spillBase).residents :=
      isThere
    rw [noResidents] at isThere
    cases isThere

/-- The code of a method uses registers only that are filled on every way to it. -/
theorem supplies_generate
    (generated : context.generate registerCount first body = .ok (code, last)) :
    ∃ facts, Supplies registerCount facts code.toList ∧ FetchesResults code.toList := by
  let label := context.registry.methodLabel context.method.id
  let facts : String → Option (Set Nat) := fun name => if name = label then some ∅ else none
  have fresh : ∀ number, facts (Label.inner number) = none := fun number =>
    if_neg fun same => context.registry.methodLabel_ne_inner _ number same.symm
  have bodyRests : Whenever (generateBody context body) (context.start registerCount first)
      fun _ after => Rests registerCount facts after := by
    refine rests_bind (rests_generateStmt body
      (disciplined_start context registerCount first fresh)) ?_
    intro more between _ disciplined
    refine whenever_get.goOnWith ?_
    split
    · refine (succeeds_emit _).whenever.goesTo ?_
      exact ⟨more, .refl more,
        disciplined.emitted_ending .ret rfl (by rintro _ ⟨⟩) (by rintro _ ⟨⟩)⟩
    · exact .pure ⟨more, .refl more, disciplined⟩
  unfold MethodContext.generate at generated
  split at generated
  next generation ran =>
    obtain ⟨rfl, -⟩ := Prod.mk.inj (Except.ok.inj generated)
    rcases bodyRests () generation ran with ⟨more, isMore, disciplined⟩
    have known : more label = some ∅ := isMore _ _ (if_pos rfl)
    have codeEq : (context.assemble generation).toList =
        [.label label, .enter (context.frame.localCount + generation.pool.slotCount)] ++
        generation.emitter.code.toList := by
      simp [assemble, label]
    have nothingFilled : filledBehind registerCount more
        [.label label, .enter (context.frame.localCount + generation.pool.slotCount)] = ∅ := by
      simp [filledBehind, Instruction.leaves, Instruction.isTerminator, Instruction.isCall,
        Instruction.label?, Instruction.writes?, known]
    refine ⟨more, ?_, ?_⟩
    · rw [codeEq]
      refine disciplined.orderly.supplies.prepend ?_ nothingFilled
      have labelled : Supplies registerCount more ([] ++ [.label label]) :=
        supplies_concat.mpr ⟨supplies_nil, by rintro _ ⟨⟩, by rintro _ ⟨⟩,
          fun name isNamed => ⟨∅, subset_rfl, ?_⟩⟩
      · refine supplies_concat.mpr ⟨labelled, ?_, ?_, ?_⟩ <;>
          simp [Instruction.reads, Instruction.writes?, Instruction.label?, Instruction.target?]
      · obtain rfl : label = name := by
          simpa [Instruction.label?, Instruction.target?] using isNamed
        exact known
    · rw [codeEq]
      refine disciplined.orderly.takes.prepend ?_
      simp [Instruction.reads]
  next => cases generated

end MethodContext

/-! ## Listings -/

/-- The result of a call is moved away behind the call and behind the removal of all that was pushed
for it, of which there is none only where nothing was pushed. The register for results is not used
otherwise. -/
def TakesResults (code : List Instruction) : Prop :=
  ∀ front instruction behind, code = front ++ instruction :: behind → .result ∈ instruction.reads →
    (∃ target, instruction = .move target .result) ∧
      ∃ earlier call, ∃ words : Nat, call.isCall = true ∧ wordsPushed earlier = words ∧
        front = earlier ++ call :: if words = 0 then [] else [.pop words]

/-- The label and the entry of a method are no calls, so each call stands in the code behind
them. -/
theorem exists_inner_of_isCall {label : String} {extent : Nat}
    {code earlier rest : List Instruction} {call : Instruction}
    (codeEq : .label label :: .enter extent :: code = earlier ++ call :: rest)
    (isCall : call.isCall = true) :
    ∃ inner, earlier = .label label :: .enter extent :: inner ∧ code = inner ++ call :: rest := by
  match earlier with
  | [] =>
    obtain ⟨rfl, -⟩ := List.cons.inj codeEq
    cases isCall
  | [first] =>
    obtain ⟨rfl, -⟩ := List.cons.inj (List.cons.inj codeEq).2
    cases isCall
  | first :: second :: inner =>
    obtain ⟨rfl, restEq⟩ := List.cons.inj codeEq
    obtain ⟨rfl, innerEq⟩ := List.cons.inj restEq
    exact ⟨inner, rfl, innerEq⟩

/-- What is pushed for a call is known, so what stands between the call and the move of its result
is known too. -/
theorem FetchesResults.takesResults {context : MethodContext} {registerCount extent : Nat}
    {label : String} {acts : List Action} {code : List Instruction}
    (fetches : FetchesResults (.label label :: .enter extent :: code))
    (fit : context.ActsFit registerCount acts code) :
    TakesResults (.label label :: .enter extent :: code) := by
  intro front instruction behind codeEq isRead
  rcases fetches front instruction behind codeEq isRead with
    ⟨⟨target, rfl⟩, earlier, call, isCall, frontEq⟩
  obtain ⟨popping, isPopping, rfl⟩ : ∃ popping : List Instruction,
      (popping = [] ∨ ∃ words, popping = [.pop words]) ∧ front = earlier ++ call :: popping := by
    rcases frontEq with rfl | ⟨words, rfl⟩
    · exact ⟨[], .inl rfl, rfl⟩
    · exact ⟨[.pop words], .inr ⟨words, rfl⟩, rfl⟩
  refine ⟨⟨target, rfl⟩, earlier, call, ?_⟩
  rw [List.append_assoc, List.cons_append] at codeEq
  rcases exists_inner_of_isCall codeEq isCall with ⟨inner, rfl, innerEq⟩
  rcases fit.calls inner call _ innerEq isCall with ⟨_, _, _, _, _, operands, _, _, carriesOut⟩
  rcases carriesOut.pushed with ⟨before, pushing, rfl, _, levelBefore, pushedEq, _⟩
  refine ⟨operands.length, isCall, ?_, ?_⟩
  · rw [← pushedEq, ← zero_add (wordsPushed pushing), ← levelBefore, ← wordsPushed_append]
    simp [wordsPushed, Instruction.pushes]
  · have popped := carriesOut.popped
    rcases isPopping with rfl | ⟨words, rfl⟩
    · have noOperands : operands = [] := by
        by_contra someOperands
        rw [if_neg someOperands] at popped
        cases popped
      simp [noOperands]
    · rcases Option.ite_none_left_eq_some.mp popped.symm with ⟨someOperands, same⟩
      rw [if_neg (by simpa using someOperands), Option.some.inj same]

/-- Nothing in a register outlives a call: whichever way control takes from a call to the use of a
register, the register is filled again on the way. What a method returns is fetched directly behind
the call, or behind the removal of what was pushed for it. -/
structure NothingOutlivesCalls (code : List Instruction) : Prop where
  refills : ∀ (start place index : Nat) (call instruction : Instruction) (between : List Nat),
    code[start]? = some call → call.isCall = true →
    (start :: (between ++ [place])).IsChain (Flows code) →
      code[place]? = some instruction → .general index ∈ instruction.reads →
        ∃ middle ∈ between, ∃ other,
        code[middle]? = some other ∧ other.writes? = some (.general index)
  takesResults : TakesResults code

/-- In the code of every method of a listing nothing in a register outlives a call. -/
theorem Program.nothingOutlivesCalls_of_compile {program : Program} {options : Options}
    {listing : Listing} (compiled : program.compile options = .ok listing) :
    ∃ checked methods, (Analysis.ofProgram program).checked = .ok checked ∧
      checked.ListedAs options listing methods ∧
      ∀ listed ∈ methods, NothingOutlivesCalls listed.code.toList := by
  rcases exists_listedAs compiled with ⟨checked, methods, isChecked, listedAs⟩
  refine ⟨checked, methods, isChecked, listedAs, fun listed isListed => ?_⟩
  have generates := listedAs.generates isListed
  rcases MethodContext.supplies_generate generates.generated with ⟨facts, supplies, fetches⟩
  rcases (declared_of_checked isChecked).1.accounted generates with ⟨after, accounted, -, codeEq⟩
  refine ⟨fun _ _ _ _ _ _ isThere isCall way found isRead =>
    supplies.refills isThere isCall way found isRead, ?_⟩
  rw [codeEq] at fetches ⊢
  exact fetches.takesResults accounted.acts

/-- The first sum waits in its slot for the second call. -/
theorem nothingOutlivesCalls_callingProgram :
    ∃ program listing, Program.ofJson callingProgram = .ok program ∧
    program.compile ⟨3, true⟩ = .ok listing ∧ ∃ checked methods,
      (Analysis.ofProgram program).checked = .ok checked ∧
      checked.ListedAs ⟨3, true⟩ listing methods ∧ ∀ listed ∈ methods,
      NothingOutlivesCalls listed.code.toList := by
  rcases compiles_callingProgram with ⟨program, listing, decoded, compiled⟩
  exact ⟨program, listing, decoded, compiled, Program.nothingOutlivesCalls_of_compile compiled⟩

end Decaf
