import Decaf.Proofs.Listing.Declarations
import Decaf.Proofs.Members.Accepted
import Decaf.Proofs.Compiler

/-!
# The labels of a listing

A label tells what it stands for. Its first letter tells methods, vtables and places inside methods
apart, and the length in front of a class name tells where the name ends, as long as the name itself
does not begin with a digit. So each label of a listing is defined once.
-/

namespace Decaf

namespace Label

variable {className otherClass : String}

/-- A class name can be told from the number in front of it. -/
def SetsApart (className : String) : Prop := ∀ first ∈ className.toList.head?, first.isDigit = false

instance (className : String) : Decidable (SetsApart className) :=
  decidable_of_iff ((className.toList.head?.all fun first => !first.isDigit) = true) (by
    simp [SetsApart, Option.all_eq_true])

theorem toList_method (className methodName : String) : (Label.method className methodName).toList =
    'M' :: '_' :: (Nat.toDigits 10 className.utf8ByteSize ++
      (className.toList ++ '_' :: methodName.toList)) := by
  have written : Label.method className methodName =
      "M_" ++ String.ofList (Nat.toDigits 10 className.utf8ByteSize) ++
      className ++ "_" ++ methodName := by
    rw [← Nat.repr_eq_ofList_toDigits]
    rfl
  simp [written]

theorem toList_vtable (className : String) : (Label.vtable className).toList =
    'V' :: '_' :: (Nat.toDigits 10 className.utf8ByteSize ++ className.toList) := by
  have written : Label.vtable className =
      "V_" ++ String.ofList (Nat.toDigits 10 className.utf8ByteSize) ++ className := by
    rw [← Nat.repr_eq_ofList_toDigits]
    rfl
  simp [written]

/-- A number ends where something begins that is not a digit. -/
theorem toDigits_append_inj {number other : Nat} {rest more : List Char}
    (restApart : ∀ first ∈ rest.head?, first.isDigit = false)
    (moreApart : ∀ first ∈ more.head?, first.isDigit = false)
    (same : Nat.toDigits 10 number ++ rest = Nat.toDigits 10 other ++ more) :
    number = other ∧ rest = more := by
  have areDigits (count : Nat) : ∀ digit ∈ Nat.toDigits 10 count, digit.isDigit = true :=
    fun _ => Nat.isDigit_of_mem_toDigits (by decide) (by decide)
  have noDigits {tail : List Char} (apart : ∀ first ∈ tail.head?, first.isDigit = false) :
      tail.takeWhile Char.isDigit = [] := by
    cases tail with
    | nil => rfl
    | cons first tail => simp [apart first rfl]
  have sameDigits := congrArg (List.takeWhile Char.isDigit) same
  rw [List.takeWhile_append_of_pos (areDigits number),
    List.takeWhile_append_of_pos (areDigits other), noDigits restApart, noDigits moreApart,
    List.append_nil, List.append_nil] at sameDigits
  have sameNumber := congrArg (fun written => Nat.ofDigitChars 10 written 0) sameDigits
  rw [Nat.ofDigitChars_toDigits (by decide) (by decide),
    Nat.ofDigitChars_toDigits (by decide) (by decide)] at sameNumber
  rw [sameDigits] at same
  exact ⟨sameNumber, List.append_cancel_left same⟩

/-- The label of a method tells its class and its name. -/
theorem method_inj {methodName otherName : String} (apart : SetsApart className)
    (otherApart : SetsApart otherClass)
    (same : Label.method className methodName = Label.method otherClass otherName) :
    className = otherClass ∧ methodName = otherName := by
  have behindClass {name : String} (apart : SetsApart name) (tail : List Char) :
      ∀ first ∈ (name.toList ++ '_' :: tail).head?, first.isDigit = false := by
    cases letters : name.toList with
    | nil => simp
    | cons letter rest => simpa [SetsApart, letters] using apart
  have sameLetters := congrArg String.toList same
  rw [toList_method, toList_method, List.cons.injEq, List.cons.injEq] at sameLetters
  rcases toDigits_append_inj (behindClass apart _) (behindClass otherApart _) sameLetters.2.2 with
    ⟨sameSize, sameRest⟩
  have sameBytes : (className ++ ("_" ++ methodName)).toByteArray =
      (otherClass ++ ("_" ++ otherName)).toByteArray :=
    congrArg String.toByteArray (String.toList_injective (by simpa using sameRest))
  rw [String.toByteArray_append, String.toByteArray_append] at sameBytes
  have sameClass : className = otherClass :=
    String.toByteArray_inj.mp (ByteArray.append_inj_left sameBytes sameSize)
  subst sameClass
  have sameName := List.append_cancel_left sameRest
  exact ⟨rfl, String.toList_injective (List.cons.inj sameName).2⟩

theorem vtable_inj (apart : SetsApart className) (otherApart : SetsApart otherClass)
    (same : Label.vtable className = Label.vtable otherClass) : className = otherClass := by
  have sameLetters := congrArg String.toList same
  rw [toList_vtable, toList_vtable, List.cons.injEq, List.cons.injEq] at sameLetters
  exact String.toList_injective (toDigits_append_inj apart otherApart sameLetters.2.2).2

/-- What a label stands for. -/
inductive Kind where
  | entry
  | method
  | vtable
  | inner
  deriving DecidableEq

/-- The first letter of a label. -/
def Kind.letter : Kind → Char
  | .entry => '_'
  | .method => 'M'
  | .vtable => 'V'
  | .inner => 'L'

/-- A label begins with the letter of what it stands for. -/
def IsKind (kind : Kind) (label : String) : Prop := label.toList.head? = some kind.letter

theorem isKind_entry : IsKind .entry Label.entry := by
  rw [IsKind]
  decide

theorem isKind_method (className methodName : String) :
    IsKind .method (Label.method className methodName) := by
  rw [IsKind, toList_method]
  rfl

theorem isKind_vtable (className : String) : IsKind .vtable (Label.vtable className) := by
  rw [IsKind, toList_vtable]
  rfl

theorem isKind_inner (number : Nat) : IsKind .inner (Label.inner number) := by
  have letter : (toString "L").toList.head? = some 'L' := by decide
  simp [IsKind, Label.inner, letter, Kind.letter]

theorem IsKind.eq {kind other : Kind} {label : String} (isKind : IsKind kind label)
    (isOther : IsKind other label) : kind = other := by
  have same : kind.letter = other.letter := Option.some.inj (isKind.symm.trans isOther)
  cases kind <;> cases other <;> first | rfl | exact absurd same (by decide)

end Label

namespace Instruction

/-- The label that a line of a listing defines. -/
def defines? : Instruction → Option String
  | .label name | .vtable name _ => some name
  | _ => none

/-- The labels that a line of a listing mentions without defining them. -/
def references : Instruction → List String
  | .jump name | .branchIfZero _ name | .branchIfNonzero _ name | .call name | .moveLabel _ name =>
    [name]
  | .vtable _ slots => slots
  | _ => []

/-- A line that has nothing to do with labels. -/
structure IsUnlabelled (instruction : Instruction) : Prop where
  defines?_eq : instruction.defines? = none
  references_eq : instruction.references = []

theorem isUnlabelled_of_isPassive {instruction : Instruction}
    (isPassive : instruction.isPassive = true) : instruction.IsUnlabelled := by
  cases instruction <;> first | exact ⟨rfl, rfl⟩ | cases isPassive

end Instruction

variable {code : List Instruction}

/-- The labels that are defined in a listing, by directives too. -/
def definedIn (code : List Instruction) : List String := code.filterMap Instruction.defines?

theorem definedIn_append (code more : List Instruction) :
    definedIn (code ++ more) = definedIn code ++ definedIn more :=
  List.filterMap_append

theorem mem_definedIn {name : String} :
    name ∈ definedIn code ↔ .label name ∈ code ∨ ∃ slots, .vtable name slots ∈ code := by
  have defines_iff (instruction : Instruction) : instruction.defines? = some name ↔
      instruction = .label name ∨ ∃ slots, instruction = .vtable name slots := by
    cases instruction <;> simp [Instruction.defines?]
  simp only [definedIn, List.mem_filterMap, defines_iff]
  constructor
  · rintro ⟨instruction, isThere, rfl | ⟨slots, rfl⟩⟩
    · exact .inl isThere
    · exact .inr ⟨slots, isThere⟩
  · rintro (isThere | ⟨slots, isThere⟩)
    · exact ⟨_, isThere, .inl rfl⟩
    · exact ⟨_, isThere, .inr ⟨slots, rfl⟩⟩

/-- Without directives labels are what is defined. -/
theorem definedIn_eq_labelsOf (noVtable : ∀ name slots, .vtable name slots ∉ code) :
    definedIn code = labelsOf code := by
  refine List.filterMap_congr fun instruction isThere => ?_
  cases instruction with
  | vtable name slots => exact absurd isThere (noVtable name slots)
  | _ => rfl

namespace Registry

variable {registry : Registry}
variable {id : MethodId} {method : MethodEntry} {entry : ClassEntry}

/-- All class names can be told from the numbers in front of them. -/
def NamesApart (registry : Registry) : Prop :=
  ∀ {id entry}, registry.classEntry? id = some entry → Label.SetsApart entry.name

theorem methodLabel_eq (found : registry.methodEntry? id = some method) :
    registry.methodLabel id = Label.method (registry.className method.owner) method.name := by
  simp only [methodLabel, found]

theorem className_eq {id : ClassId} (found : registry.classEntry? id = some entry) :
    registry.className id = entry.name := by
  simp [className, found]

theorem eq_of_className (wellFormed : registry.WellFormed) {id other : ClassId}
    {otherEntry : ClassEntry} (found : registry.classEntry? id = some entry)
    (otherFound : registry.classEntry? other = some otherEntry)
    (same : entry.name = otherEntry.name) : id = other := by
  have named : registry.classNamed? entry.name = some id :=
    (classNamed?_eq_some wellFormed).mpr (by simp [found])
  have otherNamed : registry.classNamed? entry.name = some other :=
    (classNamed?_eq_some wellFormed).mpr (by simp [otherFound, same])
  exact Option.some.inj (named.symm.trans otherNamed)

/-- The label of a method is that of no other method. -/
theorem methodLabel_inj (wellFormed : registry.WellFormed) (apart : registry.NamesApart)
    {other : MethodId} {otherMethod : MethodEntry} (found : registry.methodEntry? id = some method)
    (otherFound : registry.methodEntry? other = some otherMethod)
    (same : registry.methodLabel id = registry.methodLabel other) : id = other := by
  rcases exists_classEntry (wellFormed.method_owner found) with ⟨owner, ownerFound⟩
  rcases exists_classEntry (wellFormed.method_owner otherFound) with ⟨otherOwner, otherOwnerFound⟩
  rw [methodLabel_eq found, methodLabel_eq otherFound, className_eq ownerFound,
    className_eq otherOwnerFound] at same
  rcases Label.method_inj (apart ownerFound) (apart otherOwnerFound) same with ⟨sameClass, sameName⟩
  have sameOwner := eq_of_className wellFormed ownerFound otherOwnerFound sameClass
  have declares : registry.ownMember? method.owner method.name = some (.ofMethod id) :=
    wellFormed.own_iff.mpr ⟨method, found, rfl, rfl⟩
  have otherDeclares : registry.ownMember? method.owner method.name = some (.ofMethod other) :=
    wellFormed.own_iff.mpr ⟨otherMethod, otherFound, sameOwner.symm, sameName.symm⟩
  exact Symbol.ofMethod.inj (Option.some.inj (declares.symm.trans otherDeclares))

theorem isKind_methodLabel (found : registry.methodEntry? id = some method) :
    Label.IsKind .method (registry.methodLabel id) :=
  methodLabel_eq found ▸ Label.isKind_method _ _

end Registry

namespace CheckedProgram

variable {program : CheckedProgram} {options : Options} {registerCount : Nat} {listing : Listing}
  {methods : List ListedMethod}
variable {listed : ListedMethod}

/-- The labels of the vtables differ. -/
theorem nodup_definedIn_directives (wellFormed : program.registry.WellFormed)
    (apart : program.registry.NamesApart) :
    (definedIn program.directives).Nodup ∧ ∀ label ∈ definedIn program.directives,
      Label.IsKind .vtable label := by
  have definedEq : definedIn program.directives =
      program.registry.classes.toList.map fun entry => Label.vtable entry.name := by
    rw [directives, definedIn, List.filterMap_cons_none rfl, List.filterMap_map]
    exact congrFun List.filterMap_eq_map _
  rw [definedEq]
  refine ⟨?_, fun label isThere => ?_⟩
  · refine List.pairwise_map.mpr
      (List.pairwise_iff_getElem.mpr fun place other placeLt otherLt isBefore same => ?_)
    have found : program.registry.classEntry? ⟨place⟩ =
        some program.registry.classes.toList[place] := by
      simp [Registry.classEntry?]
    have otherFound : program.registry.classEntry? ⟨other⟩ =
        some program.registry.classes.toList[other] := by
      simp [Registry.classEntry?]
    have sameName := Label.vtable_inj (apart found) (apart otherFound) same
    have sameId := Registry.eq_of_className wellFormed found otherFound sameName
    have samePlace := congrArg ClassId.index sameId
    dsimp only at samePlace
    omega
  · rcases List.mem_map.mp isThere with ⟨entry, _, rfl⟩
    exact Label.isKind_vtable _

/-- The call that starts a program mentions the method, and the vtable of its class if it needs an
object. -/
theorem mem_startCall {method : MethodEntry} {instruction : Instruction}
    (isThere : instruction ∈ program.startCall method) :
    instruction = .call (program.registry.methodLabel method.id) ∨
      instruction = .moveLabel (.general 1)
        (Label.vtable (program.registry.className method.owner)) ∨
      instruction.IsUnlabelled := by
  unfold startCall at isThere
  dsimp only at isThere
  split at isThere
  · exact .inl (List.mem_singleton.mp isThere)
  · simp only [List.mem_append, List.mem_cons, List.not_mem_nil, or_false] at isThere
    rcases isThere with isInit | rfl | rfl | rfl
    · exact .inr ((Generating.mem_objectInit isInit).imp_right
        Instruction.isUnlabelled_of_isPassive)
    · exact .inr (.inr ⟨rfl, rfl⟩)
    · exact .inl rfl
    · exact .inr (.inr ⟨rfl, rfl⟩)

/-- The stub defines one label at most. -/
theorem definedIn_entryStub (program : CheckedProgram) :
    definedIn program.entryStub = [] ∨ definedIn program.entryStub = [Label.entry] := by
  unfold entryStub
  split
  · exact .inl rfl
  next method _ =>
    have noneInCall : definedIn (program.startCall method) = [] := by
      refine List.filterMap_eq_nil_iff.mpr fun instruction isThere => ?_
      rcases mem_startCall isThere with rfl | rfl | unlabelled
      · rfl
      · rfl
      · exact unlabelled.defines?_eq
    split
    · right
      rw [← List.singleton_append, List.append_assoc, definedIn_append,
        definedIn_append, noneInCall]
      rfl
    · exact .inl rfl

section

variable (declared : program.Declared)
include declared

theorem Declared.not_vtable_mem
    (generates : program.Generates registerCount listed) (name : String) (slots : List String) :
    .vtable name slots ∉ listed.code.toList := by
  rcases declared.accounted generates with ⟨after, accounted, _, codeEq⟩
  intro isThere
  rw [codeEq] at isThere
  exact accounted.frame (.vtable name slots) (by simpa using isThere)

/-- The code of a method defines its own label and some that were handed out for it. -/
theorem Declared.definedIn_code (generates : program.Generates registerCount listed) : ∃ inner,
      definedIn listed.code.toList = program.registry.methodLabel listed.method.id :: inner ∧
        inner.Nodup ∧
        listed.firstLabel ≤ listed.nextLabel ∧ ∀ label ∈ inner, ∃ number,
          listed.firstLabel ≤ number ∧
          number < listed.nextLabel ∧ label = Label.inner number := by
  rcases declared.accounted generates with ⟨after, accounted, nextEq, codeEq⟩
  have numbered := accounted.labels.numbered
  have nodup := accounted.labels.nodup
  rw [List.append_nil] at numbered nodup
  refine ⟨labelsOf after.emitter.code.toList, ?_, nodup, nextEq ▸ accounted.first_le,
    nextEq ▸ numbered⟩
  rw [definedIn_eq_labelsOf (declared.not_vtable_mem generates), codeEq]
  rfl

/-- The labels in methods differ: each method has a label of its own, and uses numbers of its own
for those inside. -/
theorem Declared.nodup_definedIn_methods (apart : program.registry.NamesApart)
    {first : Nat} (generatesAll : program.GeneratesAll registerCount first methods)
    (nodup : (methods.map fun listed => listed.method.id).Nodup) :
    (definedIn (methods.flatMap fun listed => listed.code.toList)).Nodup ∧
      ∀ label ∈ definedIn (methods.flatMap fun listed => listed.code.toList),
        (∃ listed ∈ methods, label = program.registry.methodLabel listed.method.id) ∨
          ∃ number, first ≤ number ∧ label = Label.inner number := by
  induction methods generalizing first with
  | nil => exact ⟨List.nodup_nil, nofun⟩
  | cons listed rest ih =>
    rcases generatesAll with ⟨rfl, generates, generatesRest⟩
    rw [List.map_cons, List.nodup_cons] at nodup
    rcases ih generatesRest nodup.2 with ⟨restNodup, restLabels⟩
    rcases declared.definedIn_code generates with ⟨inner, definedEq, innerNodup, firstLe, numbered⟩
    have found := declared.found_of_generates generates
    have isMethod := Registry.isKind_methodLabel found
    have ownIsNew : program.registry.methodLabel listed.method.id ∉
        inner ++ definedIn (rest.flatMap fun other => other.code.toList) := by
      intro isThere
      rcases List.mem_append.mp isThere with isInner | isRest
      · rcases numbered _ isInner with ⟨number, _, _, same⟩
        cases isMethod.eq (same ▸ Label.isKind_inner number)
      · rcases restLabels _ isRest with ⟨other, isOther, same⟩ | ⟨number, _, same⟩
        · have otherFound := declared.found_of_generates (generatesRest.generates isOther)
          have sameId := Registry.methodLabel_inj declared.consistent.toWellFormed
            apart found otherFound same
          exact nodup.1 (sameId ▸ List.mem_map_of_mem isOther)
        · cases isMethod.eq (same ▸ Label.isKind_inner number)
    have disjoint : List.Disjoint inner
        (definedIn (rest.flatMap fun other => other.code.toList)) := by
      intro label isInner isRest
      rcases numbered label isInner with ⟨number, _, isBefore, rfl⟩
      rcases restLabels _ isRest with ⟨other, isOther, same⟩ | ⟨next, isAfter, same⟩
      · have isMethod :=
          Registry.isKind_methodLabel
            (declared.found_of_generates (generatesRest.generates isOther))
        cases isMethod.eq (same ▸ Label.isKind_inner number)
      · have := Label.inner_injective same
        omega
    rw [List.flatMap_cons, definedIn_append, definedEq, List.cons_append]
    refine ⟨List.nodup_cons.mpr ⟨ownIsNew, innerNodup.append restNodup disjoint⟩,
      fun label isThere => ?_⟩
    rcases List.mem_cons.mp isThere with rfl | isThere
    · exact .inl ⟨listed, List.mem_cons_self, rfl⟩
    · rcases List.mem_append.mp isThere with isInner | isRest
      · rcases numbered label isInner with ⟨number, isAfter, _, same⟩
        exact .inr ⟨number, isAfter, same⟩
      · rcases restLabels label isRest with ⟨other, isOther, same⟩ | ⟨number, isAfter, same⟩
        · exact .inl ⟨other, List.mem_cons_of_mem _ isOther, same⟩
        · exact .inr ⟨number, Nat.le_trans firstLe isAfter, same⟩

/-- The listed methods are the declared ones, each once. -/
theorem Declared.ids_eq (listedAs : program.ListedAs options listing methods) :
    (methods.map fun listed => listed.method.id) = program.bodies.map MethodBody.id := by
  have idsEq : (methods.map fun listed => listed.method.id) =
      (methods.map ListedMethod.method).map MethodEntry.id := by
    rw [List.map_map]
    rfl
  rw [idsEq, listedAs.methods_eq, List.map_filterMap, ← List.filterMap_eq_map]
  refine List.filterMap_congr fun body isBody => ?_
  have known := declared.mem_bodies.mp (List.mem_map_of_mem isBody)
  obtain ⟨method, found⟩ : ∃ method, program.registry.methodEntry? body.id = some method :=
    ⟨_, Array.getElem?_eq_getElem known⟩
  rw [found, Option.map_some, declared.consistent.method_id found]
  rfl

/-- Each label of a listing is defined once. -/
theorem Declared.nodup_definedIn (apart : program.registry.NamesApart)
    (listedAs : program.ListedAs options listing methods) :
    (definedIn listing.instructions.toList).Nodup := by
  have ids : (methods.map fun listed => listed.method.id).Nodup :=
    declared.ids_eq listedAs ▸ declared.bodies_nodup
  rcases nodup_definedIn_directives declared.consistent.toWellFormed apart with
    ⟨vtablesNodup, areVtables⟩
  rcases declared.nodup_definedIn_methods apart listedAs.generatesAll ids with ⟨codeNodup, inCode⟩
  have codeLabels : ∀ label ∈ definedIn (methods.flatMap fun listed => listed.code.toList),
      Label.IsKind .method label ∨ Label.IsKind .inner label := by
    intro label isThere
    rcases inCode label isThere with ⟨listed, isListed, rfl⟩ | ⟨number, _, rfl⟩
    · exact .inl (Registry.isKind_methodLabel
        (declared.found_of_generates (listedAs.generates isListed)))
    · exact .inr (Label.isKind_inner number)
  have stub : definedIn (if options.entryStub then program.entryStub else []) = [] ∨
      definedIn (if options.entryStub then program.entryStub else []) = [Label.entry] := by
    split
    · exact program.definedIn_entryStub
    · exact .inl rfl
  have vtablesApart : List.Disjoint (definedIn program.directives)
      (Label.entry :: definedIn (methods.flatMap fun listed => listed.code.toList)) := by
    intro label isVtable isThere
    have isVtable := areVtables label isVtable
    rcases List.mem_cons.mp isThere with rfl | isThere
    · cases isVtable.eq Label.isKind_entry
    · rcases codeLabels label isThere with isMethod | isInner
      · cases isVtable.eq isMethod
      · cases isVtable.eq isInner
  have entryApart : Label.entry ∉ definedIn (methods.flatMap fun listed => listed.code.toList) := by
    intro isThere
    rcases codeLabels _ isThere with isMethod | isInner
    · cases Label.isKind_entry.eq isMethod
    · cases Label.isKind_entry.eq isInner
  have all := vtablesNodup.append (List.nodup_cons.mpr ⟨entryApart, codeNodup⟩) vtablesApart
  rw [listedAs.instructions_eq, definedIn_append, definedIn_append]
  rcases stub with noStub | hasStub
  · rw [noStub, List.nil_append]
    exact all.sublist ((List.sublist_cons_self _ _).append_left _)
  · rw [hasStub]
    exact all

end

end CheckedProgram

namespace Program

variable {program : Program}

/-- Each registered class has a declaration of its name. -/
theorem AnalyzedAs.exists_decl {members : Members} {resolution : Resolution}
    (analyzedAs : program.AnalyzedAs members resolution) {id : ClassId} {entry : ClassEntry}
    (found : resolution.registry.classEntry? id = some entry) :
    ∃ decl ∈ program.classes, decl.name = entry.name := by
  have membersFree := analyzedAs.membersFree
  rw [analyzedAs.membersEq] at membersFree
  have follows := Hierarchy.follows_ofClasses analyzedAs.hierarchyFree
  have tabled := Members.tabled_ofHierarchy analyzedAs.hierarchyFree membersFree
  have sameEntry : members.registry.classEntry? id = some entry := by
    rw [Registry.classEntry?, ← analyzedAs.valid.2.classes_eq]
    exact found
  have named := tabled.names_eq id
  rw [← analyzedAs.membersEq, sameEntry, Option.map_some, follows.records.name_eq] at named
  rcases Option.map_eq_some_iff.mp named.symm with ⟨decl, isDecl, same⟩
  exact ⟨decl, List.mem_of_getElem? isDecl, same⟩

theorem namesApart_of_checked {checked : CheckedProgram}
    (isChecked : (Analysis.ofProgram program).checked = .ok checked)
    (apart : ∀ decl ∈ program.classes, Label.SetsApart decl.name) :
    checked.registry.NamesApart := by
  rcases Analysis.analyzedAs_of_checked isChecked with ⟨members, resolution, analyzedAs, _, rfl⟩
  intro id entry found
  rcases analyzedAs.exists_decl found with ⟨decl, isDecl, same⟩
  exact same ▸ apart decl isDecl

end Program

end Decaf
