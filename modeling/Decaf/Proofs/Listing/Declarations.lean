import Decaf.Proofs.Checked
import Decaf.Proofs.Code.Methods
import Decaf.Proofs.Listing.Bodies
import Decaf.Proofs.Typing.Decision
import Decaf.Proofs.Typing.Targets

/-!
# What accepted programs declare

A program without complaints has one body for each of its methods, its vtables hold the methods that
calls through them look for, and what is on record about a node was found for a node with its
number. None of this depends on whether nodes hang in several places.
-/

namespace Decaf

namespace CheckedProgram

/-- The expressions in the bodies. -/
def nodes (program : CheckedProgram) : List Expr :=
  program.bodies.flatMap fun body => body.source.decl.body.exprNodes

/-- A node in the bodies is told by its number. -/
def Numbered (program : CheckedProgram) : Prop :=
  ∀ node other, node ∈ program.nodes → other ∈ program.nodes → node.id = other.id → node = other

/-- What is known of a program without complaints. -/
structure Declared (program : CheckedProgram) : Prop extends Framed program where
  closed : program.registry.Closed
  acyclic : program.registry.Acyclic
  bodies_nodup : (program.bodies.map MethodBody.id).Nodup
  mem_bodies : ∀ {id}, id ∈ program.bodies.map MethodBody.id ↔ program.registry.KnowsMethod id
  slot_reaches : ∀ {lower upper name id method slot}, program.registry.DescendsFrom lower upper →
    program.registry.findMethod? upper name = some id →
    program.registry.methodEntry? id = some method →
      method.isStatic = false → method.slot = some slot → ∃ found target entry,
        program.registry.classEntry? lower = some found ∧ found.vtable[slot]? = some target ∧
          program.registry.methodEntry? target = some entry ∧ entry.isStatic = false ∧
          entry.arity = method.arity
  vtable_holds : ∀ {id entry slot target}, program.registry.classEntry? id = some entry →
    entry.vtable[slot]? = some target →
    ∃ method, program.registry.methodEntry? target = some method ∧ method.slot = some slot ∧
      program.registry.findMethod? id method.name = some target
  target : ∀ {id target}, program.table.call? id = some target →
    ∃ site receiver name arguments owner method,
    .call site receiver name arguments ∈ program.nodes ∧ site.id = id ∧
      program.registry.Offers name arguments.length target owner method
  meaning : ∀ {id symbol}, program.bindings.symbol? id = some symbol →
    ∃ node ∈ program.nodes, node.id = id ∧ Resolution.CanMean program.registry node symbol

end CheckedProgram

namespace Program.AnalyzedAs

variable {program : Program} {members : Members} {resolution : Resolution}
variable {slot : Nat}

theorem perm_bodies (members : Members) :
    ((MethodBody.inSourceOrder members.sources).map MethodBody.id).Perm
      ((List.range members.sources.size).map MethodId.mk) := by
  have perm := (Findings.perm_inSourceOrder members.sources).map MethodBody.id
  have ids : (members.sources.toList.zipIdx.map fun pair =>
      (⟨⟨pair.2⟩, pair.1⟩ : MethodBody)).map MethodBody.id =
        (List.range members.sources.size).map MethodId.mk := by
    rw [List.map_map, ← Array.length_toList,
      List.range_eq_range', ← List.zipIdx_map_snd 0 members.sources.toList, List.map_map]
    rfl
  rwa [ids] at perm

section

variable (analyzedAs : program.AnalyzedAs members resolution)
include analyzedAs

/-- The nodes of the bodies are nodes of the program. -/
theorem nodes_subset :
    ((MethodBody.inSourceOrder members.sources).flatMap fun body =>
      body.source.decl.body.exprNodes) ⊆ program.exprNodes := by
  have perm := Findings.flatMap_inSourceOrder members.sources fun source =>
    source.decl.body.exprNodes
  intro node isNode
  have isSource := perm.mem_iff.mp isNode
  rw [analyzedAs.membersEq] at isSource
  exact program.exprs_subperm.subset isSource

/-- The slots still lead to the methods that names stand for when the names in bodies are
resolved. -/
theorem slot_reaches {lower upper : ClassId} {name : String} {id : MethodId} {method : MethodEntry}
    (descends : resolution.registry.DescendsFrom lower upper)
    (named : resolution.registry.findMethod? upper name = some id)
    (methodFound : resolution.registry.methodEntry? id = some method)
    (isInstance : method.isStatic = false) (slotEq : method.slot = some slot) :
    ∃ found target entry, resolution.registry.classEntry? lower = some found ∧
      found.vtable[slot]? = some target ∧ resolution.registry.methodEntry? target = some entry ∧
      entry.isStatic = false ∧ entry.arity = method.arity := by
  have grows := analyzedAs.valid.2
  rw [grows.findMethod?_eq analyzedAs.wellFormed_members analyzedAs.wellFormed] at named
  rw [grows.methodEntry?_eq] at methodFound
  rw [Registry.descendsFrom_congr grows.parent?_eq] at descends
  rcases analyzedAs.dispatch.slot_reaches descends named methodFound isInstance slotEq with
    ⟨found, target, entry, classFound, inTable, _, targetFound, targetIsInstance, sameParameters, _⟩
  refine ⟨found, target, entry, ?_, inTable, (grows.methodEntry?_eq target).trans targetFound,
    targetIsInstance, ?_⟩
  · rw [Registry.classEntry?, grows.classes_eq]
    exact classFound
  · rw [MethodEntry.arity, MethodEntry.arity, sameParameters]

/-- The slots of vtables still hold the methods that names stand for. -/
theorem vtable_holds {id : ClassId} {entry : ClassEntry} {target : MethodId}
    (found : resolution.registry.classEntry? id = some entry)
    (inTable : entry.vtable[slot]? = some target) :
    ∃ method, resolution.registry.methodEntry? target = some method ∧ method.slot = some slot ∧
      resolution.registry.findMethod? id method.name = some target := by
  have grows := analyzedAs.valid.2
  have wasFound : members.registry.classEntry? id = some entry := by
    rw [Registry.classEntry?, ← grows.classes_eq]
    exact found
  rcases analyzedAs.completing with ⟨settled, completing⟩
  have known := (Array.getElem?_eq_some_iff.mp wasFound).1
  rcases (completing.dispatches_of_known settled id known).listed wasFound inTable with
    ⟨method, methodFound, _, slotEq, named⟩
  refine ⟨method, (grows.methodEntry?_eq target).trans methodFound, slotEq, ?_⟩
  rw [grows.findMethod?_eq analyzedAs.wellFormed_members analyzedAs.wellFormed]
  exact named

/-- What is known of the declarations when type checking has no complaints either. -/
theorem declared
    (silent : (Findings.ofResolution program.exprs.size members.sources
      resolution).diagnostics = []) :
    (CheckedProgram.ofResolution program members resolution).Declared where
  consistent := analyzedAs.valid.1.consistent
  rank_lt := analyzedAs.valid.1.rank_lt
  closed := analyzedAs.valid.1.closed
  acyclic := analyzedAs.acyclic
  bodies_nodup := by
    have injective : Function.Injective MethodId.mk := fun _ _ => MethodId.mk.inj
    exact (perm_bodies members).nodup_iff.mpr (List.nodup_range.map injective)
  mem_bodies := by
    intro id
    dsimp only [CheckedProgram.ofResolution]
    rw [(perm_bodies members).mem_iff, List.mem_map, Registry.KnowsMethod, ← analyzedAs.count_eq]
    constructor
    · rintro ⟨number, inRange, rfl⟩
      exact List.mem_range.mp inRange
    · intro inRange
      exact ⟨id.index, List.mem_range.mpr inRange, rfl⟩
  slot_reaches := analyzedAs.slot_reaches
  vtable_holds := analyzedAs.vtable_holds
  target := Findings.offers_of_call silent
  meaning := by
    intro id symbol isBound
    rw [analyzedAs.resolutionEq] at isBound ⊢
    rcases Resolution.canMean_ofMembers analyzedAs.completing.2.consistent analyzedAs.run_members
      analyzedAs.parameters isBound with ⟨source, isSource, node, isNode, sameId, means⟩
    have perm := Findings.flatMap_inSourceOrder members.sources fun source =>
      source.decl.body.exprNodes
    refine ⟨node, perm.mem_iff.mpr ?_, sameId, means⟩
    exact List.mem_flatMap.mpr ⟨source, isSource, isNode⟩

end

end Program.AnalyzedAs

variable {checked : CheckedProgram}

/-- An accepted program is declared as it should be, and its bodies are made of the nodes of the
program. -/
theorem Program.declared_of_checked {program : Program}
    (isChecked : (Analysis.ofProgram program).checked = .ok checked) :
    checked.Declared ∧ checked.nodes ⊆ program.exprNodes := by
  rcases Analysis.analyzedAs_of_checked isChecked with
    ⟨members, resolution, analyzedAs, silent, rfl⟩
  exact ⟨analyzedAs.declared silent, analyzedAs.nodes_subset⟩

theorem Program.numbered_of_checked {program : Program} (indexed : program.Indexed)
    (isChecked : (Analysis.ofProgram program).checked = .ok checked) : checked.Numbered := by
  have areNodes := (declared_of_checked isChecked).2
  exact fun _ _ isNode isOther sameId => indexed.expr_eq (areNodes isNode) (areNodes isOther) sameId

/-- Where each node hangs in one place, what is on record about it is what the rules say in the
method where it hangs. -/
theorem Program.judged_of_checked {program : Program} (isForest : program.IsForest)
    (isChecked : (Analysis.ofProgram program).checked = .ok checked) {body : MethodBody}
    (isBody : body ∈ checked.bodies) {method : MethodEntry}
    (found : checked.registry.methodEntry? body.id = some method) {node : Expr}
    (isNode : node ∈ body.source.decl.body.exprNodes) :
    ∃ judgement, Derives ⟨checked.registry, checked.bindings, method⟩ node judgement ∧
      checked.table.Shows node.id judgement := by
  rcases Analysis.analyzedAs_of_checked isChecked with
    ⟨members, resolution, analyzedAs, silent, rfl⟩
  exact (Findings.decides_ofResolution ⟨analyzedAs, isForest⟩).2 silent body isBody
    method found node isNode

namespace CheckedProgram.Declared

variable {program : CheckedProgram} {id : MethodId} {method : MethodEntry}
variable {registerCount : Nat} {listed : ListedMethod}

section

variable (declared : program.Declared)
include declared

theorem registered (found : program.registry.methodEntry? id = some method) :
    program.registry.methodEntry? method.id = some method :=
  (declared.consistent.method_id found).symm ▸ found

/-- Variables stay in front of spilled temporaries. -/
theorem keepsVariables (found : program.registry.methodEntry? id = some method) :
    (program.contextOf program.layout method).KeepsVariables := by
  intro variableId slot isSlot
  rcases Option.bind_eq_some_iff.mp isSlot with ⟨entry, entryFound, slotEq⟩
  rcases declared.slot (declared.registered found) entryFound (slot?_eq_some slotEq).1 with
    ⟨other, sameSlot, inFrame⟩
  cases slotEq.symm.trans sameSlot
  exact inFrame

theorem found_of_generates (generates : program.Generates registerCount listed) :
    program.registry.methodEntry? listed.method.id = some listed.method := by
  rcases generates.isMethod with ⟨body, _, found, -⟩
  exact declared.registered found

/-- All that the generator leaves behind in the code of a method is accounted for. -/
theorem accounted (generates : program.Generates registerCount listed) : ∃ after : Generation,
      after.Accounted (program.contextOf program.layout listed.method) registerCount
        listed.firstLabel []
        ((program.contextOf program.layout listed.method).actionsOfStmt listed.body) ∧
      after.emitter.nextLabel = listed.nextLabel ∧
      listed.code.toList = .label (program.registry.methodLabel listed.method.id) ::
        .enter ((program.frameOf listed.method).localCount + after.pool.slotCount) ::
          after.emitter.code.toList :=
  MethodContext.accounted_generate (declared.keepsVariables (declared.found_of_generates generates))
    generates.generated

theorem reaches_lt (found : program.registry.methodEntry? id = some method) {slot : Nat}
    (reaches : (program.contextOf program.layout method).Reaches slot) :
    slot < (program.frameOf method).spillBase := by
  rcases reaches with isReceiver | ⟨variableId, isSlot⟩
  · rcases Option.ite_none_right_eq_some.mp isReceiver with ⟨hasReceiver, isFirst⟩
    obtain rfl := Option.some.inj isFirst
    have behind : (program.frameOf method).firstArgument = 1 := if_pos hasReceiver
    rw [Frame.spillBase, Frame.incoming]
    omega
  · exact declared.keepsVariables found variableId slot isSlot

end

end CheckedProgram.Declared

end Decaf
