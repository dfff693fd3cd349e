import Decaf.Compiler
import Decaf.Proofs.Members.Declared
import Decaf.Proofs.Resolution.Methods
import Decaf.Proofs.Typing.Methods
import Decaf.Proofs.Code.Calculating
import Decaf.Proofs.Code.Layout

/-!
# Checked programs

What the phases in front of type checking have made sure of when they have no complaints.
-/

namespace Decaf

/-- A program whose declarations are registered and whose names are resolved, all without
complaints. -/
structure Program.AnalyzedAs (program : Program) (members : Members) (resolution : Resolution) :
    Prop where
  hierarchyFree : (Hierarchy.ofClasses program.classes).diagnostics = []
  membersFree : members.diagnostics = []
  membersEq : members = .ofHierarchy program.classes (Hierarchy.ofClasses program.classes)
  resolutionEq : resolution = .ofMembers members
  silent : resolution.diagnostics = []

namespace Program.AnalyzedAs

variable {program : Program} {members : Members} {resolution : Resolution}

section

variable (analyzedAs : program.AnalyzedAs members resolution)
include analyzedAs

theorem completing :
    (Hierarchy.ofClasses program.classes).Settled program.classes.length ∧
      Members.Completing (Hierarchy.ofClasses program.classes)
        (Hierarchy.ofClasses program.classes).order members := by
  have membersFree := analyzedAs.membersFree
  rw [analyzedAs.membersEq] at membersFree ⊢
  exact Members.completing_ofHierarchy membersFree

theorem wellFormed_members : members.registry.WellFormed :=
  analyzedAs.completing.2.consistent.toWellFormed

theorem dispatch : members.registry.SoundDispatch :=
  analyzedAs.completing.2.soundDispatch analyzedAs.completing.1

theorem run_members : Registry.Run .empty members.registry := by
  rw [analyzedAs.membersEq]
  exact (Hierarchy.inRange_ofClasses _).run.trans (Members.recorded_ofHierarchy program.classes).1

theorem parameters : Members.OnlyParameters members.registry := by
  rw [analyzedAs.membersEq]
  exact (Members.recorded_ofHierarchy program.classes).2.1

theorem valid : resolution.Valid ∧ members.registry.Extends resolution.registry := by
  rw [analyzedAs.resolutionEq]
  exact Resolution.extends_ofMembers analyzedAs.completing.2.consistent analyzedAs.run_members
    analyzedAs.parameters

theorem wellFormed : resolution.registry.WellFormed :=
  analyzedAs.valid.1.consistent.toWellFormed

theorem acyclic : resolution.registry.Acyclic :=
  Registry.acyclic_congr analyzedAs.valid.2.parent?_eq
    (analyzedAs.completing.2.acyclic analyzedAs.completing.1.acyclic)

/-- There is a body for each registered method. -/
theorem count_eq : members.sources.size = resolution.registry.methods.size := by
  rw [analyzedAs.valid.2.methods_eq, analyzedAs.membersEq]
  exact (Members.recorded_ofHierarchy program.classes).2.2.1.symm

/-- The bodies have just the declared methods. -/
theorem exists_body {source : MethodSource} :
    source ∈ Members.allSources program.classes ↔
      ∃ body ∈ MethodBody.inSourceOrder members.sources, body.source = source := by
  have hierarchyFree := analyzedAs.hierarchyFree
  have membersFree := analyzedAs.membersFree
  rw [analyzedAs.membersEq] at membersFree ⊢
  rw [← Members.mem_sources_iff hierarchyFree membersFree]
  constructor
  · intro isRecorded
    rcases List.getElem_of_mem isRecorded with ⟨index, inRange, rfl⟩
    refine ⟨⟨⟨index⟩, _⟩, (Findings.perm_inSourceOrder _).mem_iff.mpr (List.mem_map.mpr ?_), rfl⟩
    exact ⟨(_, index), List.mem_zipIdx_iff_getElem?.mpr (List.getElem?_eq_getElem inRange), rfl⟩
  · rintro ⟨body, isBody, rfl⟩
    rcases List.mem_map.mp ((Findings.perm_inSourceOrder _).mem_iff.mp isBody) with
      ⟨pair, isPair, rfl⟩
    exact List.fst_mem_of_mem_zipIdx isPair

/-- Each body belongs to a registered method. -/
theorem exists_method {body : MethodBody}
    (isBody : body ∈ MethodBody.inSourceOrder members.sources) :
    ∃ method, resolution.registry.methodEntry? body.id = some method := by
  rcases List.mem_map.mp ((Findings.perm_inSourceOrder _).mem_iff.mp isBody) with
    ⟨pair, isPair, rfl⟩
  have found := List.mem_zipIdx_iff_getElem?.mp isPair
  have inRange : pair.2 < resolution.registry.methods.size := by
    rw [← analyzedAs.count_eq, ← Array.length_toList]
    exact (List.getElem?_eq_some_iff.mp found).1
  exact ⟨_, Array.getElem?_eq_getElem inRange⟩

end

end Program.AnalyzedAs

/-- A resolved program in which each node hangs in one place. -/
structure Program.ResolvedAs (program : Program) (members : Members)
    (resolution : Resolution) : Prop extends program.AnalyzedAs members resolution where
  isForest : program.IsForest

namespace Program.ResolvedAs

variable {program : Program} {members : Members} {resolution : Resolution}

theorem bodies (resolvedAs : program.ResolvedAs members resolution) :
    program.Bodies members.sources.toList :=
  resolvedAs.membersEq ▸ resolvedAs.isForest.bodies

theorem resolved (resolvedAs : program.ResolvedAs members resolution) :
    Resolution.Resolved members.registry members.sources.toList.zipIdx resolution := by
  rw [resolvedAs.resolutionEq]
  exact Resolution.resolved_ofMembers resolvedAs.bodies resolvedAs.completing.2.consistent
    resolvedAs.run_members resolvedAs.parameters

end Program.ResolvedAs

namespace Analysis

variable {findings : Findings}

/-- The phases that lead up to the findings had no complaints. -/
theorem analyzedAs {program : Program} (checked : (ofProgram program).findings = some findings) :
    ∃ resolution, (ofProgram program).resolution = some resolution ∧
      program.AnalyzedAs (ofProgram program).members resolution ∧
      findings = .ofResolution program.exprs.size (ofProgram program).members.sources
          resolution := by
  unfold ofProgram ofDeclarations at checked ⊢
  dsimp only at checked ⊢
  split at checked
  next silent =>
    rcases List.append_eq_nil_iff.mp silent with ⟨hierarchyFree, membersFree⟩
    rw [if_pos silent]
    simp only [typing] at checked
    split at checked
    next resolutionFree =>
      refine ⟨_, rfl, ⟨hierarchyFree, membersFree, rfl, rfl, resolutionFree⟩, ?_⟩
      exact (Option.some.inj checked).symm
    · cases checked
  · cases checked

theorem resolvedAs {program : Program} (isForest : program.IsForest)
    (checked : (ofProgram program).findings = some findings) :
    ∃ resolution, (ofProgram program).resolution = some resolution ∧
      program.ResolvedAs (ofProgram program).members resolution ∧
      findings = .ofResolution program.exprs.size (ofProgram program).members.sources
          resolution := by
  rcases analyzedAs checked with ⟨resolution, found, isAnalyzed, findingsEq⟩
  exact ⟨resolution, found, ⟨isAnalyzed, isForest⟩, findingsEq⟩

end Analysis

/-!
## Programs without complaints

When the phases up to type checking have no complaints, they have put everything on record that the
code generator looks for: each body follows the rules, and its variables and fields have their
places.
-/

namespace CheckedProgram

/-- The body of a method follows the rules of names and types. -/
structure BodySound (program : CheckedProgram) (method : MethodEntry) (body : Stmt) : Prop where
  accepted : Checking.BodyAccepted ⟨program.registry, program.bindings, method⟩ program.table body
  settled : ∀ node ∈ body.exprNodes,
    Resolution.Settles program.registry program.bindings method node
  locals : ∀ node ∈ body.nodes, ∀ id ∈ program.bindings.declarationsOf node.id, ∃ entry,
    program.registry.variableEntry? id = some entry ∧ entry.method = method.id

/-- The variables of a method have places of their own in its frame. -/
structure Framed (program : CheckedProgram) : Prop where
  consistent : program.registry.Consistent
  rank_lt : ∀ {id entry rank}, program.registry.variableEntry? id = some entry →
    entry.storage = .body rank →
    rank < (program.bindings.localsOf entry.method).length

/-- What the earlier phases have made sure of. -/
structure Sound (program : CheckedProgram) : Prop extends Framed program where
  closed : program.registry.Closed
  acyclic : program.registry.Acyclic
  ordered : Layout.Ordered program.registry program.order
  keepsField : ∀ {lower upper name id}, program.registry.DescendsFrom lower upper →
    program.registry.findField? upper name = some id →
    program.registry.findField? lower name = some id
  bodies : ∀ body ∈ program.bodies, ∃ method, program.registry.methodEntry? body.id = some method ∧
    program.BodySound method body.source.decl.body

variable {program : CheckedProgram}

/-- Parameters come first, and locals behind them. -/
theorem slot?_eq_some {method : MethodEntry} {entry : VariableEntry} {slot : Nat}
    (slotEq : (program.frameOf method).slot? entry = some slot) : entry.method = method.id ∧
      ((∃ rank, entry.storage = .parameter rank ∧
        slot = (program.frameOf method).firstArgument + rank) ∨
        ∃ rank, entry.storage = .body rank ∧ slot = (program.frameOf method).incoming + rank) := by
  rcases Option.ite_none_right_eq_some.mp slotEq with ⟨own, storedAt⟩
  refine ⟨own, ?_⟩
  cases storageEq : entry.storage with
  | parameter rank =>
    rw [storageEq] at storedAt
    exact .inl ⟨rank, rfl, (Option.some.inj storedAt).symm⟩
  | body rank =>
    rw [storageEq] at storedAt
    exact .inr ⟨rank, rfl, (Option.some.inj storedAt).symm⟩

namespace Framed

variable {method : MethodEntry} {id : VariableId} {entry : VariableEntry}

section

variable (framed : program.Framed)
  (methodFound : program.registry.methodEntry? method.id = some method)
include framed methodFound

theorem parameter_lt (found : program.registry.variableEntry? id = some entry)
    (own : entry.method = method.id) {rank : Nat} (isParameter : entry.storage = .parameter rank) :
    (program.frameOf method).firstArgument + rank < (program.frameOf method).incoming := by
  rcases framed.consistent.variable_method found with ⟨owner, ownerFound, rankLt⟩
  cases (own ▸ ownerFound).symm.trans methodFound
  exact Nat.add_lt_add_left (rankLt rank isParameter) _

theorem slot
    (found : program.registry.variableEntry? id = some entry) (isOwn : entry.method = method.id) :
    ∃ slot, (program.frameOf method).slot? entry = some slot ∧
      slot < (program.frameOf method).spillBase := by
  have isMethod : entry.method = (program.frameOf method).method := isOwn
  cases storageEq : entry.storage with
  | parameter rank =>
    have inArguments := framed.parameter_lt methodFound found isOwn storageEq
    refine ⟨(program.frameOf method).firstArgument + rank,
      by simp [Frame.slot?, isMethod, storageEq], ?_⟩
    exact Nat.lt_of_lt_of_le inArguments (Nat.le_add_right _ _)
  | body rank =>
    have inLocals := framed.rank_lt found storageEq
    rw [isOwn] at inLocals
    refine ⟨(program.frameOf method).incoming + rank,
      by simp [Frame.slot?, isMethod, storageEq], ?_⟩
    exact Nat.add_lt_add_left inLocals _

theorem slot_inj {first second : VariableId} {firstEntry secondEntry : VariableEntry}
    (firstFound : program.registry.variableEntry? first = some firstEntry)
    (secondFound : program.registry.variableEntry? second = some secondEntry) {slot : Nat}
    (firstSlot : (program.frameOf method).slot? firstEntry = some slot)
    (secondSlot : (program.frameOf method).slot? secondEntry = some slot) : first = second := by
  rcases slot?_eq_some firstSlot with ⟨firstOwn, firstStored⟩
  rcases slot?_eq_some secondSlot with ⟨secondOwn, secondStored⟩
  refine framed.consistent.storage_inj firstFound secondFound (firstOwn.trans secondOwn.symm) ?_
  rcases firstStored with ⟨first, isFirst, rfl⟩ | ⟨first, isFirst, rfl⟩ <;>
    rcases secondStored with ⟨second, isSecond, sameSlot⟩ | ⟨second, isSecond, sameSlot⟩
  · rw [isFirst, isSecond, Nat.add_left_cancel sameSlot]
  · have below := framed.parameter_lt methodFound firstFound firstOwn isFirst
    omega
  · have below := framed.parameter_lt methodFound secondFound secondOwn isSecond
    omega
  · rw [isFirst, isSecond, Nat.add_left_cancel sameSlot]

end

end Framed

/-- Whatever the generator looks for is on record. -/
theorem Sound.complete (sound : program.Sound) {id : MethodId} {method : MethodEntry}
    (found : program.registry.methodEntry? id = some method) :
    (program.contextOf program.layout method).Complete where
  fieldId fieldFound := sound.consistent.field_id fieldFound
  methodId methodFound := sound.consistent.method_id methodFound
  slot variableFound isOwn := by
    have sameId := sound.consistent.method_id found
    exact sound.slot (sameId ▸ found) variableFound isOwn
  offset fieldFound := Layout.exists_offset sound.consistent.toWellFormed sound.ordered fieldFound
  receiver notStatic := by simp [contextOf, frameOf, Frame.ofMethod] at notStatic ⊢; exact notStatic

end CheckedProgram

variable {checked : CheckedProgram}

@[simp]
theorem Analysis.hierarchy_ofProgram (program : Program) :
    (ofProgram program).hierarchy = Hierarchy.ofClasses program.classes := by
  simp only [ofProgram, ofDeclarations]
  split <;> rfl

@[simp]
theorem Analysis.members_ofProgram (program : Program) :
    (ofProgram program).members = Members.ofHierarchy program.classes
      (Hierarchy.ofClasses program.classes) := by
  simp only [ofProgram, ofDeclarations]
  split <;> rfl

theorem Analysis.resolution_ofProgram {program : Program}
    (silent : (ofProgram program).declarationDiagnostics = []) :
    (ofProgram program).resolution = some (.ofMembers (ofProgram program).members) := by
  rw [declarationDiagnostics, hierarchy_ofProgram, members_ofProgram] at silent
  rw [members_ofProgram, ofProgram, ofDeclarations, if_pos silent]

/-- The order of the classes is an order for every registry with the same links. -/
theorem Hierarchy.Settled.ordered {hierarchy : Hierarchy} {declared : Nat}
    (settled : hierarchy.Settled declared) {registry : Registry}
    (sameCount : registry.classCount = hierarchy.registry.classCount)
    (sameParents : ∀ id, registry.parent? id = hierarchy.registry.parent? id) :
    Layout.Ordered registry hierarchy.order where
  complete := sameCount ▸ settled.mem_order
  nodup := settled.arranged.nodup
  parent_first orderEq isParent :=
    (settled.turn orderEq).parent_done ((sameParents _).symm.trans isParent)

/-- What is handed to the code generator of a program with these members whose names are resolved in
this way. -/
def CheckedProgram.ofResolution (program : Program) (members : Members) (resolution : Resolution) :
    CheckedProgram where
  registry := resolution.registry
  order := (Hierarchy.ofClasses program.classes).order
  bodies := MethodBody.inSourceOrder members.sources
  bindings := resolution.bindings
  table := (Findings.ofResolution program.exprs.size members.sources resolution).table

/-- A resolved program that type checking accepts is sound. -/
theorem Program.ResolvedAs.sound {program : Program} {members : Members} {resolution : Resolution}
    (resolvedAs : program.ResolvedAs members resolution)
    (typed : (Findings.ofResolution program.exprs.size members.sources
      resolution).diagnostics = []) :
    (CheckedProgram.ofResolution program members resolution).Sound := by
  have resolved := resolvedAs.resolved
  rcases resolvedAs.completing with ⟨settled, completing⟩
  have sameClasses : resolution.registry.classCount =
      (Hierarchy.ofClasses program.classes).registry.classCount := by
    rw [← completing.classCount_eq]
    exact congrArg Array.size resolved.registry.classes_eq
  have accepts :=
    (Findings.checked_ofResolution resolvedAs.isForest resolvedAs.bodies resolvedAs.dispatch
    resolvedAs.wellFormed_members resolved resolvedAs.silent).2 typed
  refine
    { consistent := resolved.valid.consistent
      closed := resolved.valid.closed
      acyclic := resolvedAs.acyclic
      rank_lt := resolved.valid.rank_lt
      ordered := settled.ordered sameClasses fun id =>
        (resolved.registry.parent?_eq id).trans (completing.parent_eq id)
      keepsField := ?_
      bodies := ?_ }
  · intro lower upper name id descends found
    dsimp only [CheckedProgram.ofResolution] at descends found ⊢
    have sameField :=
      resolved.registry.findField?_eq resolvedAs.wellFormed_members resolvedAs.wellFormed
    rw [Registry.descendsFrom_congr resolved.registry.parent?_eq] at descends
    rw [sameField] at found ⊢
    exact Registry.keepsField_of_descendsFrom (completing.dispatches_of_known settled)
      descends found
  · intro body isBody
    rcases resolvedAs.exists_method isBody with ⟨method, found⟩
    rcases List.mem_map.mp ((Findings.perm_inSourceOrder _).mem_iff.mp isBody) with
      ⟨pair, isPair, rfl⟩
    have bodySettled := resolved.settled resolvedAs.silent pair isPair method found
    exact ⟨method, found, accepts _ isBody method found, bodySettled.exprs, bodySettled.locals⟩

/-- What is checked of a program without complaints. -/
theorem Analysis.analyzedAs_of_checked {program : Program}
    (isChecked : (Analysis.ofProgram program).checked = .ok checked) :
    ∃ members resolution, program.AnalyzedAs members resolution ∧
      (Findings.ofResolution program.exprs.size members.sources resolution).diagnostics = [] ∧
      checked = .ofResolution program members resolution := by
  unfold Analysis.checked at isChecked
  split at isChecked
  next => cases isChecked
  next => cases isChecked
  next resolution findings resolutionEq findingsEq =>
    split at isChecked
    next silent =>
      rcases Analysis.analyzedAs findingsEq with ⟨_, sameResolution, analyzedAs, rfl⟩
      obtain rfl := Option.some.inj (resolutionEq.symm.trans sameResolution)
      obtain rfl := Except.ok.inj isChecked
      exact ⟨_, _, analyzedAs, silent, by rw [CheckedProgram.ofResolution, hierarchy_ofProgram]⟩
    next => cases isChecked

theorem Analysis.resolvedAs_of_checked {program : Program} (isForest : program.IsForest)
    (isChecked : (Analysis.ofProgram program).checked = .ok checked) :
    ∃ members resolution, program.ResolvedAs members resolution ∧
      (Findings.ofResolution program.exprs.size members.sources resolution).diagnostics = [] ∧
      checked = .ofResolution program members resolution := by
  rcases analyzedAs_of_checked isChecked with ⟨members, resolution, analyzedAs, rest⟩
  exact ⟨members, resolution, ⟨analyzedAs, isForest⟩, rest⟩

/-- A program without complaints is sound. -/
theorem Program.sound_of_checked {program : Program} (isForest : program.IsForest)
    (isChecked : (Analysis.ofProgram program).checked = .ok checked) : checked.Sound := by
  rcases Analysis.resolvedAs_of_checked isForest isChecked with
    ⟨members, resolution, resolvedAs, silent, rfl⟩
  exact resolvedAs.sound silent

end Decaf
