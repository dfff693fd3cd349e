import Decaf.Proofs.Listing.Labels

/-!
# Labels lead where they should

In the listing of an accepted program nothing leads to a label that is not there. A jump stays in
its method, a call leads to the code of the method that was found for its node, a slot of a vtable
to the code of the method that the class has there, and a new object refers to the vtable of its
class.
-/

namespace Decaf

/-! ## Nodes that ask for something -/

namespace MethodContext

variable {context : MethodContext} {node : Expr}
variable {action : Action} {expr : Expr} {stmt : Stmt}

theorem not_mem_writes (target : Expr) : .perform node ∉ context.writes target := by
  unfold writes
  split
  · split <;> simp
  all_goals exact nofun

theorem actions_of_actionsOfTarget {target : Expr}
    (isThere : .perform node ∈ context.actionsOfTarget target) :
    .perform node ∈ context.actions target := by
  cases target with
  | fieldAccess site receiver name => exact isThere
  | _ => cases isThere

theorem mem_actionsOfAll {exprs : List Expr} :
    action ∈ context.actionsOfAll exprs ↔ ∃ expr ∈ exprs, action ∈ context.actions expr := by
  induction exprs with
  | nil => simp [actionsOfAll]
  | cons expr rest ih => simp [actionsOfAll, ih]

theorem mem_actionsOfStmts {statements : List Stmt} :
    action ∈ context.actionsOfStmts statements ↔ ∃ stmt ∈ statements,
      action ∈ context.actionsOfStmt stmt := by
  induction statements with
  | nil => simp [actionsOfStmts]
  | cons stmt rest ih => simp [actionsOfStmts, ih]

/-- What an expression does is asked for by itself or by its children. -/
theorem eq_or_child_of_mem_actions (isThere : .perform node ∈ context.actions expr) :
    node = expr ∨ ∃ child ∈ expr.children, .perform node ∈ context.actions child := by
  cases expr with
  | literal | identifier | this | super => cases isThere
  | new site name => exact .inl (Action.perform.inj (List.mem_singleton.mp isThere))
  | unary site operator operand => exact .inr ⟨operand, List.mem_cons_self, isThere⟩
  | binary site operator left right =>
    rcases List.mem_append.mp isThere with isLeft | isRight
    · exact .inr ⟨left, List.mem_cons_self, isLeft⟩
    · exact .inr ⟨right, List.mem_cons_of_mem _ List.mem_cons_self, isRight⟩
  | fieldAccess site receiver field =>
    rw [actions] at isThere
    split at isThere
    · exact .inr ⟨receiver, List.mem_cons_self, isThere⟩
    · cases isThere
  | step site operator yieldsNew target =>
    rcases List.mem_append.mp isThere with isTarget | isWrite
    · exact .inr ⟨target, List.mem_cons_self, actions_of_actionsOfTarget isTarget⟩
    · exact absurd isWrite (not_mem_writes target)
  | call site receiver name arguments =>
    have inArguments (isArgument : .perform node ∈ context.actionsOfAll arguments) :
        ∃ child ∈ (Expr.call site receiver name arguments).children,
        .perform node ∈ context.actions child := by
      rcases mem_actionsOfAll.mp isArgument with ⟨argument, isOne, isThere⟩
      exact ⟨argument, List.mem_append_right _ isOne, isThere⟩
    cases receiver with
    | none =>
      rcases List.mem_append.mp isThere with isArgument | isLast
      · exact .inr (inArguments isArgument)
      · exact .inl (Action.perform.inj (List.mem_singleton.mp isLast))
    | some receiver =>
      rw [actions, List.mem_append, List.mem_append] at isThere
      rcases isThere with (isReceiver | isArgument) | isLast
      · split at isReceiver
        · exact .inr ⟨receiver, List.mem_append_left _ List.mem_cons_self, isReceiver⟩
        · cases isReceiver
      · exact .inr (inArguments isArgument)
      · exact .inl (Action.perform.inj (List.mem_singleton.mp isLast))

theorem mem_nodes_of_mem_actions (isThere : .perform node ∈ context.actions expr) :
    node ∈ expr.nodes := by
  induction expr using Expr.induction_children with
  | each expr ih =>
    rcases eq_or_child_of_mem_actions isThere with same | ⟨child, isChild, inChild⟩
    · exact Expr.mem_nodes_iff.mpr (.inl same)
    · exact Expr.mem_nodes_iff.mpr (.inr ⟨child, isChild, ih child isChild inChild⟩)

/-- What a statement does is asked for by its expressions or by its children. -/
theorem expr_or_child_of_mem_actions (isThere : .perform node ∈ context.actionsOfStmt stmt) :
    (∃ expr ∈ stmt.exprs, .perform node ∈ context.actions expr) ∨
      ∃ child ∈ stmt.children, .perform node ∈ context.actionsOfStmt child := by
  cases stmt with
  | block site statements => exact .inr (mem_actionsOfStmts.mp isThere)
  | ifElse site condition thenBranch elseBranch =>
    cases elseBranch <;> simpa [actionsOfStmt, Stmt.exprs, Stmt.children, or_assoc] using isThere
  | whileLoop site condition body =>
    rcases List.mem_append.mp isThere with isCondition | inBody
    · exact .inl ⟨condition, List.mem_cons_self, isCondition⟩
    · exact .inr ⟨body, List.mem_cons_self, inBody⟩
  | forLoop site init condition update body =>
    rw [Generating.actionsOfStmt_forLoop] at isThere
    cases init <;> cases condition <;> cases update <;>
      simp [Stmt.exprs, Stmt.children] at isThere ⊢ <;> tauto
  | ret site value =>
    cases value with
    | none => cases isThere
    | some value => exact .inl ⟨value, List.mem_cons_self, isThere⟩
  | evaluate site expr => exact .inl ⟨expr, List.mem_cons_self, isThere⟩
  | assign site target value =>
    rw [actionsOfStmt, List.mem_append, List.mem_append] at isThere
    rcases isThere with (isTarget | isValue) | isWrite
    · exact .inl ⟨target, List.mem_cons_self, actions_of_actionsOfTarget isTarget⟩
    · exact .inl ⟨value, List.mem_cons_of_mem _ List.mem_cons_self, isValue⟩
    · exact absurd isWrite (not_mem_writes target)
  | print site value => exact .inl ⟨value, List.mem_cons_self, isThere⟩
  | declare site declared => simp [actionsOfStmt] at isThere
  | breakLoop | continueLoop | skip => cases isThere

theorem mem_exprNodes_of_mem_actions (isThere : .perform node ∈ context.actionsOfStmt stmt) :
    node ∈ stmt.exprNodes := by
  induction stmt using Stmt.induction_children with
  | each stmt ih =>
    rcases expr_or_child_of_mem_actions isThere with
      ⟨expr, isExpr, inExpr⟩ | ⟨child, isChild, inChild⟩
    · exact Stmt.mem_exprNodes_iff.mpr (.inl ⟨expr, isExpr, mem_nodes_of_mem_actions inExpr⟩)
    · exact Stmt.mem_exprNodes_iff.mpr (.inr ⟨child, isChild, ih child isChild inChild⟩)

end MethodContext

/-! ## What labels lead to -/

namespace CheckedProgram

variable {site : Site ExprId} {name : String} {arguments : List Expr} {target : CallTarget}
  {instruction : Instruction}

/-- The code of a method stands in the listing, behind the label of the method. -/
def Lists (program : CheckedProgram) (methods : List ListedMethod) (id : MethodId) : Prop :=
  ∃ listed ∈ methods, program.registry.methodEntry? id = some listed.method ∧
    .label (program.registry.methodLabel id) ∈ listed.code.toList

/-- Type checking has found a target for a call: the method of the called name in some class, with
as many parameters as the call has arguments. -/
def Finds (program : CheckedProgram) (site : Site ExprId) (name : String) (arguments : List Expr)
    (target : CallTarget) : Prop :=
  program.table.call? site.id = some target ∧ ∃ owner method,
    program.registry.Offers name arguments.length target owner method

/-- An instruction refers to what the node that asks for it stands for. -/
inductive Refers (program : CheckedProgram) (methods : List ListedMethod) :
    Instruction → Action → Prop where
  | make {site : Site ExprId} {name : String} {id : ClassId} {entry : ClassEntry}
      (bound : program.bindings.symbol? site.id = some (.ofClass id))
      (found : program.registry.classEntry? id = some entry)
      (named : entry.name = name) {target : Register} :
      Refers program methods (.moveLabel target (Label.vtable name)) (.perform (.new site name))
  | call {site : Site ExprId} {receiver : Option Expr} {name : String} {arguments : List Expr}
      {target : CallTarget}
      (finds : program.Finds site name arguments target)
      (isDirect : Generating.evaluatesReceiver target.dispatch = false)
      (lists : program.Lists methods target.method) :
      Refers program methods (.call (program.registry.methodLabel target.method))
        (.perform (.call site receiver name arguments))
  | callVirtual {site : Site ExprId} {receiver : Option Expr} {name : String}
      {arguments : List Expr} {target : CallTarget}
      {slot : Nat} (finds : program.Finds site name arguments target)
      (isVirtual : target.dispatch = .virtual slot)
      {table : Register} : Refers program methods (.callVirtual table slot)
      (.perform (.call site receiver name arguments))
  | write {slot : Nat} {source : Register} :
      Refers program methods (.storeStack slot source) (.write slot)

/-- Whatever a listing refers to is there, and it is what it should be. -/
structure Linked (program : CheckedProgram) (methods : List ListedMethod) : Prop where
  jumps : ∀ listed ∈ methods, targetsOf listed.code.toList ⊆ labelsOf listed.code.toList
  acts : ∀ listed ∈ methods, List.Forall₂ (program.Refers methods)
    (listed.code.toList.filter (Instruction.isAction (program.frameOf listed.method).spillBase))
      ((program.contextOf program.layout listed.method).actionsOfStmt listed.body)
  vtables : ∀ name slots, .vtable name slots ∈ program.directives → ∃ id entry,
    program.registry.classEntry? id = some entry ∧ name = Label.vtable entry.name ∧
      ∀ (slot : Nat) label, slots[slot]? = some label → ∃ target method,
      program.Lists methods target ∧
        label = program.registry.methodLabel target ∧
        program.registry.methodEntry? target = some method ∧
        method.slot = some slot ∧ program.registry.findMethod? id method.name = some target
  start : ∀ instruction ∈ program.entryStub, instruction.references = [] ∨ ∃ method,
    program.mainMethod? = some method ∧
    (program.Lists methods method.id ∧
      instruction = .call (program.registry.methodLabel method.id) ∨
      ∃ register entry, program.registry.classEntry? method.owner = some entry ∧
        instruction = .moveLabel register (Label.vtable entry.name))

variable {program : CheckedProgram} {options : Options} {registerCount : Nat} {listing : Listing}
  {methods : List ListedMethod}

theorem Declared.lists (declared : program.Declared)
    (listedAs : program.ListedAs options listing methods) {id : MethodId}
    (known : program.registry.KnowsMethod id) : program.Lists methods id := by
  have isListed := declared.mem_bodies.mpr known
  rw [← declared.ids_eq listedAs] at isListed
  rcases List.mem_map.mp isListed with ⟨listed, isThere, rfl⟩
  have generates := listedAs.generates isThere
  rcases declared.accounted generates with ⟨after, _, _, codeEq⟩
  refine ⟨listed, isThere, declared.found_of_generates generates, ?_⟩
  rw [codeEq]
  exact List.mem_cons_self

theorem Generates.nodes_subset {listed : ListedMethod}
    (generates : program.Generates registerCount listed) :
    listed.body.exprNodes ⊆ program.nodes := by
  rcases generates.isMethod with ⟨body, isBody, _, bodyEq⟩
  exact fun node isNode => List.mem_flatMap.mpr ⟨body, isBody, bodyEq ▸ isNode⟩

theorem Declared.finds (declared : program.Declared) (numbered : program.Numbered)
    {receiver : Option Expr} (isNode : .call site receiver name arguments ∈ program.nodes)
    (found : program.table.call? site.id = some target) :
    program.Finds site name arguments target := by
  rcases declared.target found with ⟨other, _, _, _, owner, method, isOther, sameId, isOffered⟩
  cases numbered _ _ isOther isNode sameId
  exact ⟨found, owner, method, isOffered⟩

theorem Finds.known
    (finds : program.Finds site name arguments target) (declared : program.Declared) :
    program.registry.KnowsMethod target.method := by
  rcases finds.2 with ⟨owner, method, id, reach, _, methodFound, same, _⟩
  rw [same, declared.consistent.method_id methodFound]
  exact (Array.getElem?_eq_some_iff.mp methodFound).1

/-- The nodes of a method get what they ask for. -/
theorem Declared.refers (declared : program.Declared) (numbered : program.Numbered)
    (listedAs : program.ListedAs options listing methods) {method : MethodEntry} {action : Action}
    (isNode : ∀ node, action = .perform node → node ∈ program.nodes)
    (does : (program.contextOf program.layout method).Does instruction action) :
    program.Refers methods instruction action := by
  cases does with
  | make bound =>
    rcases declared.meaning bound with ⟨node, isThere, sameId, means⟩
    cases numbered _ _ isThere (isNode _ rfl) sameId
    rcases means with ⟨id, same, named⟩
    cases same
    rcases Option.map_eq_some_iff.mp named with ⟨entry, found, rfl⟩
    dsimp only [contextOf]
    rw [Registry.className_eq found]
    exact .make bound found rfl
  | call found isDirect =>
    have finds := declared.finds numbered (isNode _ rfl) found
    exact .call finds isDirect (declared.lists listedAs (finds.known declared))
  | callVirtual found isVirtual =>
    exact .callVirtual (declared.finds numbered (isNode _ rfl) found) isVirtual
  | write => exact .write

theorem mem_entryStub (isThere : instruction ∈ program.entryStub) :
    instruction.references = [] ∨ ∃ method,
      program.mainMethod? = some method ∧ instruction ∈ program.startCall method := by
  unfold entryStub at isThere
  split at isThere
  · cases isThere
  next method isMain =>
    split at isThere
    · rcases List.mem_append.mp isThere with isFirst | isLast
      · rcases List.mem_cons.mp isFirst with rfl | inCall
        · exact .inl rfl
        · exact .inr ⟨method, isMain, inCall⟩
      · rw [List.mem_singleton.mp isLast]
        exact .inl rfl
    · cases isThere

namespace Declared

theorem vtables (declared : program.Declared) (listedAs : program.ListedAs options listing methods)
    {name : String} {slots : List String} (isThere : .vtable name slots ∈ program.directives) :
    ∃ id entry, program.registry.classEntry? id = some entry ∧ name = Label.vtable entry.name ∧
      ∀ (slot : Nat) label, slots[slot]? = some label → ∃ target method,
        program.Lists methods target ∧
        label = program.registry.methodLabel target ∧
        program.registry.methodEntry? target = some method ∧
        method.slot = some slot ∧ program.registry.findMethod? id method.name = some target := by
  rcases List.mem_cons.mp isThere with same | isVtable
  · cases same
  · rcases List.mem_map.mp isVtable with ⟨entry, isEntry, same⟩
    obtain ⟨rfl, rfl⟩ := Instruction.vtable.inj same
    rcases List.getElem?_of_mem isEntry with ⟨place, found⟩
    rw [Array.getElem?_toList] at found
    refine ⟨⟨place⟩, entry, found, rfl, fun slot label isSlot => ?_⟩
    rw [List.getElem?_map] at isSlot
    rcases Option.map_eq_some_iff.mp isSlot with ⟨target, inTable, rfl⟩
    rcases declared.vtable_holds found inTable with ⟨method, methodFound, slotEq, named⟩
    have known := (declared.closed.classes (Array.mem_toList_iff.mp isEntry)).vtable
      (List.mem_of_getElem? inTable)
    exact ⟨target, method, declared.lists listedAs known, rfl, methodFound, slotEq, named⟩

theorem start (declared : program.Declared) (listedAs : program.ListedAs options listing methods)
    {instruction : Instruction} (isThere : instruction ∈ program.entryStub) :
    instruction.references = [] ∨ ∃ method, program.mainMethod? = some method ∧
      (program.Lists methods method.id ∧
        instruction = .call (program.registry.methodLabel method.id) ∨
        ∃ register entry, program.registry.classEntry? method.owner = some entry ∧
          instruction = .moveLabel register (Label.vtable entry.name)) := by
  rcases mem_entryStub isThere with noReferences | ⟨method, isMain, inCall⟩
  · exact .inl noReferences
  · rcases List.mem_filterMap.mp (List.mem_of_find?_eq_some isMain) with ⟨body, _, methodFound⟩
    have found := declared.registered methodFound
    rcases mem_startCall inCall with rfl | rfl | unlabelled
    · have known := (Array.getElem?_eq_some_iff.mp found).1
      exact .inr ⟨method, isMain, .inl ⟨declared.lists listedAs known, rfl⟩⟩
    · rcases Registry.exists_classEntry (declared.consistent.method_owner found) with
        ⟨entry, entryFound⟩
      rw [Registry.className_eq entryFound]
      exact .inr ⟨method, isMain, .inr ⟨_, entry, entryFound, rfl⟩⟩
    · exact .inl unlabelled.references_eq

theorem linked (declared : program.Declared) (numbered : program.Numbered)
    (listedAs : program.ListedAs options listing methods) : program.Linked methods where
  jumps listed isListed := by
    rcases declared.accounted (listedAs.generates isListed) with ⟨after, accounted, _, codeEq⟩
    have targets := accounted.labels.targets
    rw [List.append_nil] at targets
    rw [codeEq]
    exact fun name isTarget => List.mem_cons_of_mem _ (targets isTarget)
  acts listed isListed := by
    have generates := listedAs.generates isListed
    rcases declared.accounted generates with ⟨after, accounted, _, codeEq⟩
    rw [codeEq]
    rcases List.forall₂_iff_zip.mp accounted.acts.does with ⟨lengthEq, does⟩
    refine List.forall₂_iff_zip.mpr ⟨lengthEq, fun isPair =>
      declared.refers numbered listedAs ?_ (does isPair)⟩
    rintro node rfl
    exact generates.nodes_subset
      (MethodContext.mem_exprNodes_of_mem_actions (List.of_mem_zip isPair).2)
  vtables _ _ isThere := declared.vtables listedAs isThere
  start _ isThere := declared.start listedAs isThere

end Declared

/-! ## No label is missing -/

/-- Each instruction has something that asks for it. -/
theorem exists_of_forall₂ {Left Right : Type} {relation : Left → Right → Prop} {left : List Left}
    {right : List Right} (related : List.Forall₂ relation left right) {item : Left}
    (isThere : item ∈ left) : ∃ other, relation item other := by
  induction related with
  | nil => cases isThere
  | cons first _ ih =>
    rcases List.mem_cons.mp isThere with rfl | inRest
    · exact ⟨_, first⟩
    · exact ih inRest

theorem Lists.defined {id : MethodId} (lists : program.Lists methods id)
    (listedAs : program.ListedAs options listing methods) :
    program.registry.methodLabel id ∈ definedIn listing.instructions.toList := by
  rcases lists with ⟨listed, isListed, _, isThere⟩
  rw [mem_definedIn, listedAs.instructions_eq]
  exact .inl (List.mem_append_right _
    (List.mem_append_right _ (List.mem_flatMap.mpr ⟨listed, isListed, isThere⟩)))

theorem ListedAs.defined_vtable (listedAs : program.ListedAs options listing methods) {id : ClassId}
    {entry : ClassEntry} (found : program.registry.classEntry? id = some entry) :
    Label.vtable entry.name ∈ definedIn listing.instructions.toList := by
  have isEntry := Array.mem_toList_iff.mpr (Array.mem_of_getElem? found)
  rw [mem_definedIn, listedAs.instructions_eq]
  exact .inr ⟨_, List.mem_append_left _ (List.mem_cons_of_mem _ (List.mem_map_of_mem isEntry))⟩

namespace Linked

variable {instruction : Instruction}

section

variable (linked : program.Linked methods)
include linked

theorem references_directive (listedAs : program.ListedAs options listing methods)
    (isThere : instruction ∈ program.directives) :
    instruction.references ⊆ definedIn listing.instructions.toList := by
  rcases List.mem_cons.mp isThere with rfl | isVtable
  · exact List.nil_subset _
  · rcases List.mem_map.mp isVtable with ⟨declaring, _, rfl⟩
    rcases linked.vtables _ _ isThere with ⟨id, entry, _, _, holds⟩
    intro label isSlot
    rcases List.getElem?_of_mem isSlot with ⟨slot, isSlot⟩
    rcases holds slot label isSlot with ⟨target, method, lists, rfl, _⟩
    exact lists.defined listedAs

theorem references_entryStub (listedAs : program.ListedAs options listing methods)
    (isThere : instruction ∈ program.entryStub) :
    instruction.references ⊆ definedIn listing.instructions.toList := by
  rcases linked.start instruction isThere with
    noReferences | ⟨method, _, ⟨lists, rfl⟩ | ⟨register, entry, found, rfl⟩⟩
  · rw [noReferences]
    exact List.nil_subset _
  · exact List.cons_subset.mpr ⟨lists.defined listedAs, List.nil_subset _⟩
  · exact List.cons_subset.mpr ⟨listedAs.defined_vtable found, List.nil_subset _⟩

theorem references_code (declared : program.Declared)
    (listedAs : program.ListedAs options listing methods) {listed : ListedMethod}
    (isListed : listed ∈ methods) (isThere : instruction ∈ listed.code.toList) :
    instruction.references ⊆ definedIn listing.instructions.toList := by
  have leads {name : String} (isTarget : instruction.target? = some name) :
      name ∈ definedIn listing.instructions.toList := by
    have isLabel :=
      linked.jumps listed isListed (List.mem_filterMap.mpr ⟨instruction, isThere, isTarget⟩)
    rw [mem_definedIn, listedAs.instructions_eq]
    exact .inl (List.mem_append_right _ (List.mem_append_right _
      (List.mem_flatMap.mpr ⟨listed, isListed, mem_labelsOf.mp isLabel⟩)))
  have acts (isAction : instruction.isAction (program.frameOf listed.method).spillBase = true) :
      ∃ action, program.Refers methods instruction action :=
    exists_of_forall₂ (linked.acts listed isListed) (List.mem_filter.mpr ⟨isThere, isAction⟩)
  cases instruction with
  | jump | branchIfZero | branchIfNonzero =>
    exact List.cons_subset.mpr ⟨leads rfl, List.nil_subset _⟩
  | vtable name slots =>
    exact absurd isThere (declared.not_vtable_mem (listedAs.generates isListed) name slots)
  | call name =>
    rcases acts rfl with ⟨action, refers⟩
    cases refers with
    | call _ _ lists => exact List.cons_subset.mpr ⟨lists.defined listedAs, List.nil_subset _⟩
  | moveLabel register name =>
    rcases acts rfl with ⟨action, refers⟩
    cases refers with
    | make _ found named =>
      exact List.cons_subset.mpr ⟨named ▸ listedAs.defined_vtable found, List.nil_subset _⟩
  | _ => exact List.nil_subset _

/-- A label that is mentioned is defined. -/
theorem references_subset (declared : program.Declared)
    (listedAs : program.ListedAs options listing methods)
    (isThere : instruction ∈ listing.instructions) :
    instruction.references ⊆ definedIn listing.instructions.toList := by
  rw [← Array.mem_toList_iff, listedAs.instructions_eq, List.mem_append, List.mem_append] at isThere
  rcases isThere with isDirective | isStub | isCode
  · exact linked.references_directive listedAs isDirective
  · split at isStub
    · exact linked.references_entryStub listedAs isStub
    · cases isStub
  · rcases List.mem_flatMap.mp isCode with ⟨listed, isListed, inCode⟩
    exact linked.references_code declared listedAs isListed inCode

end

end Linked

end CheckedProgram

/-- Each label of a listing is defined once, and each label that is mentioned is defined, where it
should be. -/
theorem Program.linked_of_compile {program : Program} {options : Options} {listing : Listing}
    (indexed : program.Indexed) (apart : ∀ decl ∈ program.classes, Label.SetsApart decl.name)
    (compiled : program.compile options = .ok listing) :
    (definedIn listing.instructions.toList).Nodup ∧
      (∀ instruction ∈ listing.instructions,
        instruction.references ⊆ definedIn listing.instructions.toList) ∧
      ∃ checked methods, (Analysis.ofProgram program).checked = .ok checked ∧
        checked.ListedAs options listing methods ∧
        checked.Linked methods ∧
        (program.IsForest → ∀ listed ∈ methods, ∀ node ∈ listed.body.exprNodes, ∃ judgement,
          Derives ⟨checked.registry, checked.bindings, listed.method⟩ node judgement ∧
            checked.table.call? node.id = judgement.target) := by
  rcases exists_listedAs compiled with ⟨checked, methods, isChecked, listedAs⟩
  have declared := (declared_of_checked isChecked).1
  have linked := declared.linked (numbered_of_checked indexed isChecked) listedAs
  refine ⟨declared.nodup_definedIn (namesApart_of_checked isChecked apart) listedAs,
    fun _ isThere => linked.references_subset declared listedAs isThere, checked, methods,
    isChecked, listedAs, linked, ?_⟩
  intro isForest listed isListed node isNode
  rcases (listedAs.generates isListed).isMethod with ⟨body, isBody, found, bodyEq⟩
  rcases judged_of_checked isForest isChecked isBody found (bodyEq ▸ isNode) with
    ⟨judgement, derives, shows⟩
  exact ⟨judgement, derives, shows.call⟩

theorem linked_callingProgram :
    ∃ program listing, Program.ofJson callingProgram = .ok program ∧ program.Indexed ∧
    (∀ decl ∈ program.classes, Label.SetsApart decl.name) ∧
      program.compile ⟨3, true⟩ = .ok listing ∧
      (definedIn listing.instructions.toList).Nodup ∧
      (∀ instruction ∈ listing.instructions,
        instruction.references ⊆ definedIn listing.instructions.toList) ∧
      ∃ checked methods, (Analysis.ofProgram program).checked = .ok checked ∧
        checked.ListedAs ⟨3, true⟩ listing methods ∧ checked.Linked methods := by
  rcases Program.exists_of_test callingProgram (fun program =>
      (program.compile ⟨3, true⟩).toOption.isSome &&
      program.classes.all fun decl => Label.SetsApart decl.name)
    (by decide +kernel) with ⟨program, decoded, tested⟩
  rw [Bool.and_eq_true, List.all_eq_true] at tested
  have apart : ∀ decl ∈ program.classes, Label.SetsApart decl.name :=
    fun decl isDecl => of_decide_eq_true (tested.2 decl isDecl)
  have isForest := Program.isForest_ofJson decoded
  rcases Program.exists_listing tested.1 with ⟨listing, compiled⟩
  rcases Program.linked_of_compile isForest.toIndexed apart compiled with
    ⟨nodup, closed, checked, methods, isChecked, listedAs, linked, -⟩
  exact ⟨program, listing, decoded, isForest.toIndexed, apart, compiled, nodup, closed, checked,
    methods, isChecked, listedAs, linked⟩

end Decaf
