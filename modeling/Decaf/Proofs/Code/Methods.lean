import Decaf.Compiler
import Decaf.Code
import Decaf.Proofs.Checked
import Decaf.Proofs.Code.Statements

/-!
# The parts of a listing and the code of methods

A listing falls into the directives, the entry stub and the code of the methods, one after the
other. Each method's labels are numbered from where the method before it left off.
-/

namespace Decaf

/-- A method whose code stands in a listing. -/
structure ListedMethod where
  method : MethodEntry
  body : Stmt
  /-- The number of its first label. -/
  firstLabel : Nat
  /-- The number behind that of its last label. -/
  nextLabel : Nat
  code : Array Instruction

namespace CheckedProgram

variable {program : CheckedProgram} {options : Options} {registerCount : Nat} {listing : Listing}
variable {methods : List ListedMethod} {listed : ListedMethod}

/-- The code of a method was generated. -/
structure Generates (program : CheckedProgram) (registerCount : Nat) (listed : ListedMethod) :
    Prop where
  /-- The method is one of the program's, with this body. -/
  isMethod : ∃ body ∈ program.bodies, program.registry.methodEntry? body.id = some listed.method ∧
    body.source.decl.body = listed.body
  generated : (program.contextOf program.layout listed.method).generate registerCount
    listed.firstLabel listed.body = .ok (listed.code, listed.nextLabel)

/-- Methods are generated one after the other from a label number on. -/
def GeneratesAll (program : CheckedProgram) (registerCount : Nat) : Nat → List ListedMethod → Prop
  | _, [] => True
  | first, listed :: rest =>
    listed.firstLabel = first ∧ program.Generates registerCount listed ∧
      GeneratesAll program registerCount listed.nextLabel rest

theorem GeneratesAll.generates {first : Nat}
    (generatesAll : program.GeneratesAll registerCount first methods)
      (isListed : listed ∈ methods) :
    program.Generates registerCount listed := by
  induction methods generalizing first with
  | nil => cases isListed
  | cons head rest ih =>
    rcases List.mem_cons.mp isListed with rfl | inRest
    · exact generatesAll.2.1
    · exact ih generatesAll.2.2 inRest

/-- The parts of a listing. -/
structure ListedAs (program : CheckedProgram) (options : Options) (listing : Listing)
    (methods : List ListedMethod) : Prop where
  generatesAll : program.GeneratesAll options.registerCount 0 methods
  methods_eq : methods.map ListedMethod.method =
    program.bodies.filterMap fun body => program.registry.methodEntry? body.id
  instructions_eq : listing.instructions.toList = program.directives ++
    ((if options.entryStub then program.entryStub else []) ++ methods.flatMap fun listed =>
      listed.code.toList)

theorem ListedAs.generates (listedAs : program.ListedAs options listing methods)
    (isListed : listed ∈ methods) : program.Generates options.registerCount listed :=
  listedAs.generatesAll.generates isListed

/-- What went wrong with one method is not forgotten. -/
theorem diagnostics_foldl_addMethod (layout : Layout) (bodies : List MethodBody)
    (before : MethodCode) :
    (bodies.foldl (program.addMethod layout registerCount) before).diagnostics = [] →
      before.diagnostics = [] := by
  induction bodies generalizing before with
  | nil => exact id
  | cons body rest ih =>
    intro silent
    have added := ih _ silent
    unfold addMethod at added
    split at added
    · exact added
    · dsimp only at added
      split at added
      · exact added
      · exact (List.append_eq_nil_iff.mp added).1

theorem foldl_addMethod {bodies : List MethodBody} (areBodies : bodies ⊆ program.bodies)
    (before : MethodCode)
    (silent : (bodies.foldl (program.addMethod program.layout registerCount)
      before).diagnostics = []) :
    ∃ methods, program.GeneratesAll registerCount before.nextLabel methods ∧
      methods.map ListedMethod.method = bodies.filterMap (fun body =>
        program.registry.methodEntry? body.id) ∧
      (bodies.foldl (program.addMethod program.layout registerCount) before).code.toList =
        before.code.toList ++ methods.flatMap fun listed => listed.code.toList := by
  induction bodies generalizing before with
  | nil => exact ⟨[], trivial, rfl, by simp⟩
  | cons body rest ih =>
    have isBody := areBodies List.mem_cons_self
    rw [List.foldl_cons] at silent ⊢
    have added := diagnostics_foldl_addMethod _ _ _ silent
    rcases ih (List.subset_of_cons_subset areBodies) _ silent with
      ⟨methods, generatesAll, methodsEq, codeEq⟩
    cases found : program.registry.methodEntry? body.id with
    | none =>
      have same : program.addMethod program.layout registerCount before body = before := by
        simp only [addMethod, found]
      rw [same] at generatesAll codeEq ⊢
      exact ⟨methods, generatesAll, by rw [methodsEq, List.filterMap_cons, found], codeEq⟩
    | some method =>
      cases generated : (program.contextOf program.layout method).generate
          registerCount before.nextLabel body.source.decl.body with
      | error diagnostic =>
        have fails : (program.addMethod program.layout registerCount before body).diagnostics =
            before.diagnostics ++ [diagnostic] := by
          simp only [addMethod, found, generated]
        rw [fails] at added
        simp at added
      | ok outcome =>
        have same : program.addMethod program.layout registerCount before body =
            { before with code := before.code ++ outcome.1, nextLabel := outcome.2 } := by
          simp only [addMethod, found, generated]
        rw [same] at generatesAll codeEq ⊢
        exact ⟨⟨method, body.source.decl.body, before.nextLabel, outcome.2, outcome.1⟩ :: methods,
          ⟨rfl, ⟨⟨body, isBody, found, rfl⟩, generated⟩, generatesAll⟩,
          by rw [List.map_cons, methodsEq, List.filterMap_cons, found], by rw [codeEq]; simp⟩

theorem exists_listedAs (listed : program.listing options = .ok listing) :
    ∃ methods, program.ListedAs options listing methods := by
  unfold CheckedProgram.listing at listed
  dsimp only at listed
  split at listed
  next silent =>
    obtain rfl := Except.ok.inj listed
    rcases foldl_addMethod (List.Subset.refl _) {} silent with
      ⟨methods, generatesAll, methodsEq, codeEq⟩
    refine ⟨methods, generatesAll, methodsEq, ?_⟩
    have codeListEq : (program.methodCode options.registerCount).code.toList =
        methods.flatMap fun listed => listed.code.toList := by
      simpa [methodCode] using codeEq
    simp [codeListEq]
  next => cases listed

end CheckedProgram

variable {options : Options}

theorem Program.exists_listing {program : Program}
    (compiles : (program.compile options).toOption.isSome = true) :
    ∃ listing, program.compile options = .ok listing := by
  cases compiled : program.compile options with
  | error diagnostics => simp [compiled, Except.toOption] at compiles
  | ok listing => exact ⟨listing, rfl⟩

/-- An accepted program passed all checks, and its listing has the parts that it should have. -/
theorem Program.exists_listedAs {program : Program} {listing : Listing}
    (compiled : program.compile options = .ok listing) :
    ∃ checked methods, (Analysis.ofProgram program).checked = .ok checked ∧
      checked.ListedAs options listing methods := by
  unfold Program.compile at compiled
  cases isChecked : (Analysis.ofProgram program).checked with
  | error diagnostics =>
    rw [isChecked] at compiled
    cases compiled
  | ok checked =>
    rw [isChecked] at compiled
    cases listed : checked.listing options with
    | error diagnostics =>
      simp only [Except.bind, listed] at compiled
      cases compiled
    | ok other =>
      simp only [Except.bind, listed] at compiled
      obtain rfl := Except.ok.inj compiled
      rcases CheckedProgram.exists_listedAs listed with ⟨methods, listedAs⟩
      exact ⟨checked, methods, rfl, listedAs⟩

/-!
## Code for methods

The code of every method of a checked program is generated. It is the label of the method, the entry
into its frame, the pieces of its body and, where the end of the body can be reached, a `ret`.
-/

open Generation Generating

/-- The `ret` behind the code of the body of a method without a result. -/
def MethodContext.ending (context : MethodContext) (code : List Instruction) : List Instruction :=
  if context.method.returnType = .void ∧ !(code.getLast?.map Instruction.isTerminator).getD
    false then [.ret] else []

theorem Registry.methodLabel_ne_inner (registry : Registry) (id : MethodId) (number : Nat) :
    registry.methodLabel id ≠ Label.inner number := by
  unfold Registry.methodLabel
  split
  · exact Label.method_ne_inner _ _ _
  · intro same
    have letter : "L".length = 1 := by decide
    have lengths : 0 = "L".length + number.repr.length := by
      simpa [Label.inner, toString] using congrArg String.length same
    omega

/-- The code of a method, and how it falls into pieces. -/
structure CodeOf (context : MethodContext) (registerCount first last : Nat) (body : Stmt)
    (pieces : List Piece) (code : Array Instruction) : Prop where
  lowered : Lowered context none body pieces
  labelled : Labelled first last [] (Piece.flatten pieces)
  first_le : first ≤ last
  named : ∀ instruction ∈ code, instruction.NamesBelow registerCount
  code_eq : ∃ size, code.toList = .label (context.registry.methodLabel context.method.id) ::
    .enter size :: (Piece.flatten pieces ++ context.ending (Piece.flatten pieces))

namespace CodeOf

variable {context : MethodContext} {registerCount first last : Nat} {body : Stmt}
  {pieces : List Piece} {code : Array Instruction}

theorem exists_front (codeOf : CodeOf context registerCount first last body pieces code) :
    ∃ front, front.length = 2 ∧ front.filterMap Instruction.label? =
      [context.registry.methodLabel context.method.id] ∧
      code.toList = front ++ Piece.flatten pieces ++ context.ending (Piece.flatten pieces) := by
  rcases codeOf.code_eq with ⟨size, codeEq⟩
  exact ⟨[.label (context.registry.methodLabel context.method.id), .enter size], rfl, rfl, codeEq⟩

/-- No label is defined twice in the code of a method. -/
theorem nodup_labels (codeOf : CodeOf context registerCount first last body pieces code) :
    (labelsOf code.toList).Nodup := by
  rcases codeOf.exists_front with ⟨front, _, frontEq, codeEq⟩
  have endingEq : labelsOf (context.ending (Piece.flatten pieces)) = [] := by
    unfold MethodContext.ending
    split <;> rfl
  rw [codeEq, labelsOf_append, labelsOf_append, endingEq, List.append_nil, labelsOf, frontEq]
  refine List.nodup_cons.mpr ⟨fun isThere => ?_, codeOf.labelled.nodup⟩
  rcases codeOf.labelled.numbered _ isThere with ⟨number, _, _, same⟩
  exact context.registry.methodLabel_ne_inner _ _ same

end CodeOf

namespace Generating

variable {context : MethodContext} {registerCount : Nat}

theorem resting_start (context : MethodContext) (enough : 3 ≤ registerCount)
    (named : registerCount ≤ Register.nameCount) (nextLabel : Nat) :
    Resting context [] (context.start registerCount nextLabel) where
  idle :=
    { ready :=
        { wellFormed := RegisterPool.wellFormed_start named context.frame.spillBase
          enough := by simpa [MethodContext.start, RegisterPool.start] using enough
          unpinned := by
            intro register resident held
            simp [MethodContext.start, RegisterPool.content?_start] at held }
      noneLive := RegisterPool.not_isLive_start _ _ }
  base_eq := rfl
  loops_eq := rfl

/-- The end of the code of a body. -/
theorem succeeds_end (generation : Generation) :
    Succeeds
      (do if context.method.returnType = .void ∧ !(← get).emitter.endsWithTerminator then emit .ret)
      generation fun _ after =>
        after = generation.emitted (context.ending generation.emitter.code.toList) := by
  refine succeeds_get.goOnWith ?_
  have endsEq : generation.emitter.endsWithTerminator =
      (generation.emitter.code.toList.getLast?.map Instruction.isTerminator).getD false := by
    rw [Emitter.endsWithTerminator, Array.getLast?_toList]
  rw [MethodContext.ending, ← endsEq]
  split
  · exact succeeds_emit _
  · refine .pure ?_
    simp [Generation.emitted, Emitter.append]

/-- The code of a body without complaints is generated. -/
theorem exists_generate (complete : context.Complete) {body : Stmt}
    (accepted : Accepted context.setting context.table false body)
    (known : DeclaresKnown context body) (enough : 3 ≤ registerCount)
    (named : registerCount ≤ Register.nameCount) (first : Nat) :
    ∃ code last pieces, context.generate registerCount first body = .ok (code, last) ∧
      CodeOf context registerCount first last body pieces code := by
  have resting := resting_start context enough named first
  have generated : Succeeds (generateBody context body) (context.start registerCount first)
      fun _ after => ∃ pieces,
      Lowered context none body pieces ∧ ∃ between,
      after = between.emitted (context.ending (Piece.flatten pieces)) ∧
        Written (context.start registerCount first) between [] (Piece.flatten pieces) := by
    refine (generatesStmt_of_accepted complete accepted known _ _ resting (by simp)).bind ?_
    rintro _ between ⟨pieces, lowered, written⟩
    refine (succeeds_end between).goesTo ?_
    have codeEq : between.emitter.code.toList = Piece.flatten pieces := by
      simpa [MethodContext.start, Emitter.start] using written.emits.code_eq
    exact ⟨pieces, lowered, between, by rw [codeEq], written⟩
  rcases generated with ⟨_, _, ran, pieces, lowered, between, rfl, written⟩
  have codeEq : between.emitter.code.toList = Piece.flatten pieces := by
    simpa [MethodContext.start, Emitter.start] using written.emits.code_eq
  have lengthEq : (context.start registerCount first).pool.registers.length = registerCount := by
    simp [MethodContext.start, RegisterPool.start]
  have bodyNamed := written.emits.named
  rw [lengthEq] at bodyNamed
  have endNamed : ∀ instruction ∈ context.ending (Piece.flatten pieces),
      instruction.NamesBelow registerCount := by
    intro instruction isEnd
    unfold MethodContext.ending at isEnd
    split at isEnd
    · rw [List.mem_singleton.mp isEnd]
      rintro _ ⟨⟩
    · cases isEnd
  have assembled :
      (context.assemble (between.emitted (context.ending (Piece.flatten pieces)))).toList =
        .label (context.registry.methodLabel context.method.id) ::
          .enter (context.frame.localCount + between.pool.slotCount) ::
            (Piece.flatten pieces ++ context.ending (Piece.flatten pieces)) := by
    simp [MethodContext.assemble, Generation.emitted, Emitter.append, codeEq]
  refine ⟨_, between.emitter.nextLabel, pieces, by rw [MethodContext.generate, ran]; rfl, lowered,
    written.labelled, written.emits.nextLabel_le, ?_, _, assembled⟩
  intro instruction isThere
  rw [← Array.mem_toList_iff, assembled] at isThere
  simp only [List.mem_cons, List.mem_append] at isThere
  rcases isThere with rfl | rfl | isBody | isEnd
  · rintro _ ⟨⟩
  · rintro _ ⟨⟩
  · exact bodyNamed _ isBody
  · exact endNamed _ isEnd

end Generating

/-! ## All methods -/

namespace CheckedProgram

variable {program : CheckedProgram} {registerCount : Nat}

/-- The code of one method of a program. -/
structure MethodPart (program : CheckedProgram) (registerCount : Nat) (body : MethodBody)
    (method : MethodEntry) (pieces : List Piece) (code : Array Instruction) : Prop where
  found : program.registry.methodEntry? body.id = some method
  sound : program.BodySound method body.source.decl.body
  generated : ∃ first last,
    (program.contextOf program.layout method).generate registerCount first body.source.decl.body =
      .ok (code, last) ∧
    CodeOf (program.contextOf program.layout method) registerCount first last
      body.source.decl.body pieces code

theorem Sound.exists_methodPart (sound : program.Sound) (enough : 3 ≤ registerCount)
    (named : registerCount ≤ Register.nameCount) {body : MethodBody}
    (isBody : body ∈ program.bodies) (first : Nat) :
    ∃ method code last pieces, program.MethodPart registerCount body method pieces code ∧
      (program.contextOf program.layout method).generate registerCount first body.source.decl.body =
        .ok (code, last) := by
  rcases sound.bodies body isBody with ⟨method, found, bodySound⟩
  rcases exists_generate (sound.complete found) bodySound.accepted.accepted bodySound.locals
    enough named first with
    ⟨code, last, pieces, generated, codeOf⟩
  exact ⟨method, code, last, pieces, ⟨found, bodySound, first, last, generated, codeOf⟩, generated⟩

/-- The code of methods is generated one after the other. -/
theorem Sound.foldl_addMethod (sound : program.Sound) (enough : 3 ≤ registerCount)
    (named : registerCount ≤ Register.nameCount) {bodies : List MethodBody}
    (areBodies : bodies ⊆ program.bodies) (before : MethodCode) :
    ∃ parts : List (MethodBody × Array Instruction), parts.map Prod.fst = bodies ∧
      (∀ part ∈ parts, ∃ method pieces,
        program.MethodPart registerCount part.1 method pieces part.2) ∧
      (bodies.foldl (program.addMethod program.layout registerCount) before).diagnostics =
        before.diagnostics ∧
      (bodies.foldl (program.addMethod program.layout registerCount) before).code.toList =
        before.code.toList ++ parts.flatMap fun part => part.2.toList := by
  induction bodies generalizing before with
  | nil => exact ⟨[], rfl, by simp, rfl, by simp⟩
  | cons body rest ih =>
    have isBody := areBodies List.mem_cons_self
    rcases sound.exists_methodPart enough named isBody before.nextLabel with
      ⟨method, code, last, pieces, part, generated⟩
    have added : program.addMethod program.layout registerCount before body =
        { before with code := before.code ++ code, nextLabel := last } := by
      simp only [addMethod, part.found, generated]
    rcases ih (List.subset_of_cons_subset areBodies)
      { before with code := before.code ++ code, nextLabel := last } with
      ⟨parts, bodiesEq, areParts, diagnosticsEq, codeEq⟩
    refine ⟨(body, code) :: parts, by simp [bodiesEq], ?_, ?_, ?_⟩
    · rintro other isPart
      rcases List.mem_cons.mp isPart with rfl | inRest
      · exact ⟨method, pieces, part⟩
      · exact areParts other inRest
    · rw [List.foldl_cons, added, diagnosticsEq]
    · rw [List.foldl_cons, added, codeEq]
      simp

/-- The listing of a sound program exists, and consists of the directives, the stub and the code of
the methods. -/
theorem Sound.exists_listing (sound : program.Sound) (options : Options)
    (enough : 3 ≤ options.registerCount) (named : options.registerCount ≤ Register.nameCount) :
    ∃ (listing : Listing) (parts : List (MethodBody × Array Instruction)),
      program.listing options = .ok listing ∧
      parts.map Prod.fst = program.bodies ∧
      (∀ part ∈ parts, ∃ method pieces,
      program.MethodPart options.registerCount part.1 method pieces part.2) ∧
      listing.instructions.toList = program.directives ++
        (if options.entryStub then program.entryStub else []) ++
        parts.flatMap fun part => part.2.toList := by
  rcases sound.foldl_addMethod enough named (List.Subset.refl _) {} with
    ⟨parts, bodiesEq, areParts, diagnosticsEq, codeEq⟩
  have noDiagnostics : (program.methodCode options.registerCount).diagnostics = [] := diagnosticsEq
  have codeListEq : (program.methodCode options.registerCount).code.toList =
      parts.flatMap fun part => part.2.toList := by
    simpa [methodCode] using codeEq
  refine ⟨_, parts, by rw [CheckedProgram.listing, if_pos noDiagnostics], bodiesEq, areParts, ?_⟩
  simp [codeListEq]

end CheckedProgram

end Decaf
