import Decaf.Proofs.Listing.Links
import Decaf.Proofs.Text.LineBreaks

/-!
# The lines of a listing

The line of an instruction takes its characters from fixed words, registers, numbers, quoted
constants and labels, and only a label can bring a line break along. The labels of a compiled
program are made of the names of its classes and methods. So where no name breaks a line, the text
of a listing has one line for each instruction. A string constant never breaks its line, and can be
read back from it.
-/

namespace Decaf

open LineBreaks

/-! ## Lines of instructions -/

namespace Instruction

variable {breaks : LineBreaks}
variable {instruction : Instruction}

/-- The labels that a line of a listing names, those that it defines included. -/
def labels (instruction : Instruction) : List String :=
  instruction.defines?.toList ++ instruction.references

/-- Only labels can break the line of an instruction. -/
theorem unbroken_render (named : ∀ name ∈ instruction.labels, breaks.Unbroken name) :
    breaks.Unbroken instruction.render := by
  unfold render
  cases instruction with
  | vtable name slots =>
    have nameUnbroken := named name List.mem_cons_self
    have slotsUnbroken : ∀ slot ∈ slots, breaks.Unbroken slot :=
      fun slot isSlot => named slot (List.mem_cons_of_mem _ isSlot)
    cases slots with
    | nil => exact unbroken_append.mpr ⟨unbroken_of_all (by decide), nameUnbroken⟩
    | cons slot slots =>
      simp (disch := decide) only [unbroken_append, unbroken_of_all, true_and, and_true]
      exact ⟨nameUnbroken, unbroken_intercalate (unbroken_of_all (by decide)) slotsUnbroken⟩
  | label | jump | branchIfZero | branchIfNonzero | call | moveLabel =>
    have nameUnbroken := named _ List.mem_cons_self
    simp (disch := decide) only [unbroken_append, unbroken_of_all, unbroken_register,
      true_and, and_true]
    exact nameUnbroken
  | _ =>
    simp (disch := decide) only [unbroken_append, unbroken_of_all, unbroken_nat, unbroken_int32,
      unbroken_register, unbroken_binary64, unbroken_quoted, unbroken_binaryOpcode,
      unbroken_unaryOpcode, unbroken_printKind, and_self]

theorem unbroken_line (named : ∀ name ∈ instruction.labels, breaks.Unbroken name) :
    breaks.Unbroken instruction.line := by
  unfold line
  split
  · exact unbroken_render named
  · exact unbroken_append.mpr ⟨unbroken_of_all (by decide), unbroken_render named⟩

end Instruction

/-! ## String constants -/

/-- A line ends in a constant: behind its first quote, the first unescaped quote is the last
character of the line, and what stands between the two is the constant with escapes. -/
def EndsInConstant (line constant : String) : Prop :=
  ∃ written, line.toList.dropWhile (· ≠ '"') = '"' :: (written ++ ['"']) ∧
    splitAtQuote? (written ++ ['"']) = some (written, []) ∧ unescape? written = some constant.toList

/-- A line ends in one constant only. -/
theorem EndsInConstant.eq {line constant other : String} (ends : EndsInConstant line constant)
    (endsOther : EndsInConstant line other) : constant = other := by
  rcases ends with ⟨written, fromQuote, -, reads⟩
  rcases endsOther with ⟨otherWritten, otherFromQuote, -, otherReads⟩
  have sameTail := (List.cons.inj (fromQuote.symm.trans otherFromQuote)).2
  rw [List.append_cancel_right sameTail, otherReads] at reads
  exact (String.toList_injective (Option.some.inj reads)).symm

theorem quote_not_mem_register (register : Register) : '"' ∉ (toString register).toList := by
  cases register with
  | general index =>
    intro isThere
    rw [show toString (Register.general index) = "r" ++ toString index from rfl,
      String.toList_append, List.mem_append] at isThere
    rcases isThere with isLetter | isDigit
    · exact absurd isLetter (by decide)
    · rw [Nat.toString_eq_ofList_toDigits, String.toList_ofList] at isDigit
      rcases exists_digitChar_of_mem_toDigits (by decide) isDigit with ⟨digit, digitLt, same⟩
      exact (hexDigit_facts digit (by omega)).2.2.1 same.symm
  | result => decide

theorem endsInConstant_moveString (target : Register) (constant : String) :
    EndsInConstant (Instruction.moveString target constant).line constant := by
  have spells := spells_escapeText .listing constant.toList
  have lineEq : (Instruction.moveString target constant).line =
      "    move_immed_s " ++ toString target ++ ", " ++ quoted .listing constant := by
    rw [show (Instruction.moveString target constant).line =
      "    " ++ ("move_immed_s " ++ toString target ++ ", " ++ quoted .listing constant) from rfl]
    simp only [← String.append_assoc]
    rfl
  -- The quote in front of the constant is the first one of the line.
  have inTarget : ∀ letter ∈ (toString target).toList, decide (letter ≠ '"') = true := by
    refine fun letter isThere => decide_eq_true ?_
    rintro rfl
    exact quote_not_mem_register target isThere
  have noQuote : ∀ letter ∈ "    move_immed_s ".toList ++ (toString target).toList ++ ", ".toList,
      decide (letter ≠ '"') = true :=
    List.forall_mem_append.mpr
      ⟨List.forall_mem_append.mpr ⟨List.all_eq_true.mp (by decide), inTarget⟩,
        List.all_eq_true.mp (by decide)⟩
  refine ⟨escapeText .listing constant.toList, ?_, spells.splitAtQuote?_eq [], spells.unescape?_eq⟩
  rw [lineEq, String.toList_append, String.toList_append, String.toList_append,
    List.dropWhile_append_of_pos noQuote, quoted, String.toList_ofList]
  rfl

/-! ## Texts of listings -/

namespace Listing

/-- Each instruction has a line of its own. -/
theorem lines_render {breaks : LineBreaks} {listing : Listing}
    (unbroken : ∀ instruction ∈ listing.instructions, ∀ name ∈ instruction.labels,
      breaks.Unbroken name) :
    breaks.lines listing.render = listing.instructions.toList.map Instruction.line ++ [""] := by
  have joined : listing.render =
      String.join (listing.instructions.toList.map fun instruction =>
        instruction.line ++ "\n") := by
    simp only [render, String.join, List.foldl_map, ← Array.foldl_toList, String.append_assoc]
  have linesOf (instructions : List Instruction)
      (unbroken : ∀ instruction ∈ instructions, ∀ name ∈ instruction.labels, breaks.Unbroken name) :
      breaks.lines (String.join (instructions.map fun instruction => instruction.line ++ "\n")) =
        instructions.map Instruction.line ++ [""] := by
    induction instructions with
    | nil => exact lines_empty breaks
    | cons instruction rest ih =>
      rw [List.forall_mem_cons] at unbroken
      rw [List.map_cons, String.join_cons, lines_append (Instruction.unbroken_line unbroken.1),
        ih unbroken.2]
      rfl
  rw [joined]
  exact linesOf _ fun instruction isThere => unbroken instruction (Array.mem_toList_iff.mp isThere)

end Listing

/-! ## The labels of a program -/

namespace Registry

/-- The labels that a program can have. -/
inductive HasLabel (registry : Registry) : String → Prop where
  | entry : registry.HasLabel Label.entry
  | inner (number : Nat) : registry.HasLabel (Label.inner number)
  | vtable (id : ClassId) : registry.HasLabel (Label.vtable (registry.className id))
  | method (id : MethodId) : registry.HasLabel (registry.methodLabel id)

end Registry

namespace CheckedProgram

variable {program : CheckedProgram} {options : Options} {registerCount : Nat} {listing : Listing}
  {methods : List ListedMethod} {instruction : Instruction}

theorem hasLabel_directive (isThere : instruction ∈ program.directives) :
    ∀ name ∈ instruction.labels, program.registry.HasLabel name := by
  rcases List.mem_cons.mp isThere with rfl | isVtable
  · exact nofun
  · rcases List.mem_map.mp isVtable with ⟨entry, isEntry, rfl⟩
    rcases List.getElem?_of_mem isEntry with ⟨place, found⟩
    rw [Array.getElem?_toList] at found
    have named : program.registry.className ⟨place⟩ = entry.name := Registry.className_eq found
    refine List.forall_mem_cons.mpr ⟨named ▸ .vtable ⟨place⟩, fun label isSlot => ?_⟩
    rcases List.mem_map.mp isSlot with ⟨id, _, rfl⟩
    exact .method id

theorem hasLabel_startCall {method : MethodEntry}
    (isThere : instruction ∈ program.startCall method) :
    ∀ name ∈ instruction.labels, program.registry.HasLabel name := by
  rcases mem_startCall isThere with rfl | rfl | unlabelled
  · exact List.forall_mem_singleton.mpr (.method method.id)
  · exact List.forall_mem_singleton.mpr (.vtable method.owner)
  · rw [Instruction.labels, unlabelled.defines?_eq, unlabelled.references_eq]
    exact nofun

theorem hasLabel_entryStub (isThere : instruction ∈ program.entryStub) :
    ∀ name ∈ instruction.labels, program.registry.HasLabel name := by
  unfold entryStub at isThere
  split at isThere
  · cases isThere
  next method _ =>
    split at isThere
    · rcases List.mem_append.mp isThere with isFront | isLast
      · rcases List.mem_cons.mp isFront with rfl | inCall
        · exact List.forall_mem_singleton.mpr .entry
        · exact hasLabel_startCall inCall
      · rw [List.mem_singleton.mp isLast]
        exact nofun
    · cases isThere

/-- Labels in the code of a method are numbered, and what is called or made has a label of its
own. -/
theorem Declared.hasLabel_code (declared : program.Declared) {listed : ListedMethod}
    (generates : program.Generates registerCount listed)
    (isThere : instruction ∈ listed.code.toList) :
    ∀ name ∈ instruction.labels, program.registry.HasLabel name := by
  rcases declared.accounted generates with ⟨after, accounted, _, codeEq⟩
  have numbered : ∀ name ∈ labelsOf after.emitter.code.toList, program.registry.HasLabel name := by
    intro name isLabel
    rcases accounted.labels.numbered name (List.mem_append_left _ isLabel) with ⟨number, _, _, rfl⟩
    exact .inner number
  have targets : ∀ name ∈ targetsOf after.emitter.code.toList, program.registry.HasLabel name := by
    intro name isTarget
    have isLabel := accounted.labels.targets isTarget
    rw [List.append_nil] at isLabel
    exact numbered name isLabel
  have noVtable := declared.not_vtable_mem generates
  rw [codeEq] at isThere noVtable
  rcases List.mem_cons.mp isThere with rfl | isThere
  · exact List.forall_mem_singleton.mpr (.method listed.method.id)
  rcases List.mem_cons.mp isThere with rfl | isThere
  · exact nofun
  -- Calls and new objects are among the actions that the body asks for, and so have a label that
  -- the program can have.
  have acts (isAction : instruction.isAction (program.frameOf listed.method).spillBase = true) :
      ∃ action, (program.contextOf program.layout listed.method).Does instruction action :=
    exists_of_forall₂ accounted.acts.does (List.mem_filter.mpr ⟨isThere, isAction⟩)
  cases instruction with
  | label name => exact List.forall_mem_singleton.mpr (numbered name (mem_labelsOf.mpr isThere))
  | vtable name slots =>
    exact absurd (List.mem_cons_of_mem _ (List.mem_cons_of_mem _ isThere)) (noVtable name slots)
  | jump name | branchIfZero _ name | branchIfNonzero _ name =>
    exact List.forall_mem_singleton.mpr (targets name (List.mem_filterMap.mpr ⟨_, isThere, rfl⟩))
  | call name =>
    rcases acts rfl with ⟨action, does⟩
    cases does with
    | call => exact List.forall_mem_singleton.mpr (.method _)
  | moveLabel target name =>
    rcases acts rfl with ⟨action, does⟩
    cases does with
    | make => exact List.forall_mem_singleton.mpr (.vtable _)
  | _ => exact nofun

/-- Whatever label a listing names, the program can have it. -/
theorem Declared.hasLabel (declared : program.Declared)
    (listedAs : program.ListedAs options listing methods)
    (isThere : instruction ∈ listing.instructions) :
    ∀ name ∈ instruction.labels, program.registry.HasLabel name := by
  rw [← Array.mem_toList_iff, listedAs.instructions_eq, List.mem_append, List.mem_append] at isThere
  rcases isThere with isDirective | isStub | isCode
  · exact hasLabel_directive isDirective
  · split at isStub
    · exact hasLabel_entryStub isStub
    · cases isStub
  · rcases List.mem_flatMap.mp isCode with ⟨listed, isListed, inCode⟩
    exact declared.hasLabel_code (listedAs.generates isListed) inCode

end CheckedProgram

namespace Program

variable {program : Program} {breaks : LineBreaks}

/-- No name of a class or of a method breaks a line. -/
def NamesUnbroken (program : Program) (breaks : LineBreaks) : Prop :=
  ∀ decl ∈ program.classes, breaks.Unbroken decl.name ∧ ∀ method ∈ decl.methods,
    breaks.Unbroken method.name

instance (program : Program) (breaks : LineBreaks) : Decidable (program.NamesUnbroken breaks) :=
  inferInstanceAs (Decidable (∀ decl ∈ program.classes, breaks.Unbroken decl.name ∧
    ∀ method ∈ decl.methods, breaks.Unbroken method.name))

/-- Each registered method has a declaration of its name. -/
theorem AnalyzedAs.exists_methodDecl {members : Members} {resolution : Resolution}
    (analyzedAs : program.AnalyzedAs members resolution) {id : MethodId} {entry : MethodEntry}
    (found : resolution.registry.methodEntry? id = some entry) :
    ∃ decl ∈ program.classes, ∃ method ∈ decl.methods, method.name = entry.name := by
  have membersFree := analyzedAs.membersFree
  rw [analyzedAs.membersEq] at membersFree
  have tabled := Members.tabled_ofHierarchy analyzedAs.hierarchyFree membersFree
  have wasFound : members.registry.methodEntry? id = some entry :=
    (analyzedAs.valid.2.methodEntry?_eq id).symm.trans found
  have isRecord := List.mem_map_of_mem (f := MethodEntry.record)
    (Array.mem_toList_iff.mpr (Array.mem_of_getElem? wasFound))
  rw [analyzedAs.membersEq, tabled.methods_eq] at isRecord
  rcases List.mem_flatMap.mp isRecord with ⟨owner, _, isThere⟩
  unfold Members.declaredMethods at isThere
  cases declared : program.classes[owner.index]? with
  | none => simp [declared] at isThere
  | some decl =>
    rw [declared, Option.map_some, Option.getD_some] at isThere
    rcases List.mem_map.mp isThere with ⟨method, isMethod, recordEq⟩
    exact ⟨decl, List.mem_of_getElem? declared, method, isMethod,
      congrArg MethodRecord.name recordEq⟩

namespace NamesUnbroken

variable {checked : CheckedProgram}

section

variable (unbroken : program.NamesUnbroken breaks)
  (isChecked : (Analysis.ofProgram program).checked = .ok checked)
include unbroken isChecked

theorem className (id : ClassId) : breaks.Unbroken (checked.registry.className id) := by
  cases found : checked.registry.classEntry? id with
  | none =>
    rw [Registry.className, found]
    exact unbroken_of_all (by decide)
  | some entry =>
    rcases Analysis.analyzedAs_of_checked isChecked with ⟨members, resolution, analyzedAs, _, rfl⟩
    rcases analyzedAs.exists_decl found with ⟨decl, isDecl, same⟩
    rw [Registry.className_eq found, ← same]
    exact (unbroken decl isDecl).1

theorem methodLabel (id : MethodId) : breaks.Unbroken (checked.registry.methodLabel id) := by
  cases found : checked.registry.methodEntry? id with
  | none =>
    simp only [Registry.methodLabel, found]
    exact unbroken_of_all (by decide)
  | some entry =>
    have classUnbroken := unbroken.className isChecked entry.owner
    have nameUnbroken : breaks.Unbroken entry.name := by
      rcases Analysis.analyzedAs_of_checked isChecked with ⟨members, resolution, analyzedAs, _, rfl⟩
      rcases analyzedAs.exists_methodDecl found with ⟨decl, isDecl, method, isMethod, same⟩
      exact same ▸ (unbroken decl isDecl).2 method isMethod
    rw [Registry.methodLabel_eq found, Label.method]
    simp (disch := decide) only [unbroken_append, unbroken_of_all, unbroken_nat, true_and, and_true]
    exact ⟨classUnbroken, nameUnbroken⟩

theorem hasLabel
    {name : String} (hasLabel : checked.registry.HasLabel name) : breaks.Unbroken name := by
  cases hasLabel with
  | entry => exact unbroken_of_all (by decide)
  | inner number => exact unbroken_append.mpr ⟨unbroken_of_all (by decide), unbroken_nat number⟩
  | vtable id =>
    have classUnbroken := unbroken.className isChecked id
    rw [Label.vtable]
    simp (disch := decide) only [unbroken_append, unbroken_of_all, unbroken_nat, true_and]
    exact classUnbroken
  | method id => exact unbroken.methodLabel isChecked id

end

/-- No label in the listing of the program breaks a line. -/
theorem labels (unbroken : program.NamesUnbroken breaks) {options : Options} {listing : Listing}
    (compiled : program.compile options = .ok listing) :
    ∀ instruction ∈ listing.instructions, ∀ name ∈ instruction.labels, breaks.Unbroken name := by
  rcases exists_listedAs compiled with ⟨checked, methods, isChecked, listedAs⟩
  have declared := (declared_of_checked isChecked).1
  exact fun _ isThere name isName =>
    unbroken.hasLabel isChecked (declared.hasLabel listedAs isThere name isName)

end NamesUnbroken

end Program

/-- String constants survive the text of a listing: no constant breaks its line, each line ends in
its constant, and different constants have different lines. Where no label breaks a line, and so for
every compiled program in which no name of a class or of a method does, the text has one line for
each instruction, in order, and nothing behind the last. -/
theorem Listing.constants_and_lines_survive (breaks : LineBreaks) :
    (∀ target constant, breaks.Unbroken (Instruction.moveString target constant).line ∧
      EndsInConstant (Instruction.moveString target constant).line constant) ∧
    (∀ target other constant different, constant ≠ different →
      (Instruction.moveString target constant).line ≠
        (Instruction.moveString other different).line) ∧
    (∀ listing : Listing, (∀ instruction ∈ listing.instructions, ∀ name ∈ instruction.labels,
      breaks.Unbroken name) →
      breaks.lines listing.render = listing.instructions.toList.map Instruction.line ++ [""]) ∧
    ∀ (program : Program) (options : Options) (listing : Listing), program.NamesUnbroken breaks →
      program.compile options = .ok listing →
        breaks.lines listing.render = listing.instructions.toList.map Instruction.line ++ [""] := by
  refine ⟨fun target constant =>
    ⟨Instruction.unbroken_line nofun, endsInConstant_moveString target constant⟩, ?_,
    fun listing unbroken => listing.lines_render unbroken,
    fun program options listing unbroken compiled =>
      listing.lines_render (unbroken.labels compiled)⟩
  intro target other constant different differs same
  have ends := endsInConstant_moveString target constant
  rw [same] at ends
  exact differs (ends.eq (endsInConstant_moveString other different))

/-- `void main() { print("say \"hi\"\n"); }` -/
def greetingProgram : Json :=
  .oneClass "Main" [.method "main" "void" []
    [.node "Print" [("value", .literal "string" (.string "say \"hi\"\n"))]]]

/-- A loop around a constant with a line break. -/
def greetingListing : Listing :=
  ⟨#[.label "again", .moveString (.general 2) "say \"hi\"\n", .jump "again"]⟩

/-- A line break and its escape are told apart, and neither breaks a line. -/
theorem constants_and_lines_greetingProgram :
    ("a\n" ≠ "a\\n" ∧ (Instruction.moveString (.general 0) "a\n").line ≠
      (Instruction.moveString (.general 0) "a\\n").line) ∧
    ((∀ instruction ∈ greetingListing.instructions, ∀ name ∈ instruction.labels,
      LineBreaks.lineFeed.Unbroken name) ∧
      LineBreaks.lineFeed.lines greetingListing.render = greetingListing.instructions.toList.map
        Instruction.line ++ [""]) ∧
    ∃ program listing, Program.ofJson greetingProgram = .ok program ∧
      program.NamesUnbroken LineBreaks.unicode ∧
      program.compile ⟨3, true⟩ = .ok listing ∧
        LineBreaks.unicode.lines listing.render = listing.instructions.toList.map
          Instruction.line ++ [""] := by
  refine ⟨⟨by decide, (Listing.constants_and_lines_survive .lineFeed).2.1 _ _ _ _ (by decide)⟩, ?_,
    ?_⟩
  · have unbroken : ∀ instruction ∈ greetingListing.instructions, ∀ name ∈ instruction.labels,
        LineBreaks.lineFeed.Unbroken name := by
      decide
    exact ⟨unbroken, (Listing.constants_and_lines_survive .lineFeed).2.2.1 _ unbroken⟩
  · rcases Program.exists_of_test greetingProgram (fun program =>
        (program.compile ⟨3, true⟩).toOption.isSome &&
        decide (program.NamesUnbroken LineBreaks.unicode)) (by decide +kernel) with ⟨program,
        decoded, tested⟩
    rw [Bool.and_eq_true] at tested
    have unbroken : program.NamesUnbroken LineBreaks.unicode := of_decide_eq_true tested.2
    rcases Program.exists_listing tested.1 with ⟨listing, compiled⟩
    exact ⟨program, listing, decoded, unbroken, compiled,
      (Listing.constants_and_lines_survive .unicode).2.2.2 program _ listing unbroken compiled⟩

end Decaf
