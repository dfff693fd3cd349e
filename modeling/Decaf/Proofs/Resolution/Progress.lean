import Decaf.Proofs.Members.Records
import Decaf.Proofs.Registry.Lookup
import Decaf.Proofs.Tree.Nodes
import Decaf.Resolution

/-!
# Progress of resolution

While names are resolved the registry only gains scopes and locals, what is bound stays bound, and
complaints stay. `Resolves` says this of a part of the work together with what the part is
responsible for: its nodes are settled unless there are complaints. Parts with different nodes
compose.
-/

namespace Decaf

namespace Registry

variable {before between after : Registry}

/-- A registry gains scopes and variables, and nothing else. -/
structure Extends (before after : Registry) : Prop where
  run : Run before after
  classes_eq : after.classes = before.classes
  fields_eq : after.fields = before.fields
  methods_eq : after.methods = before.methods
  scopes : before.scopes.Grows after.scopes
  keeps_variable : ∀ {id entry}, before.variableEntry? id = some entry →
    after.variableEntry? id = some entry

namespace Extends

theorem refl (registry : Registry) : Extends registry registry :=
  ⟨.refl, rfl, rfl, rfl, .refl _, id⟩

theorem trans (early : Extends before between) (late : Extends between after) :
    Extends before after where
  run := early.run.trans late.run
  classes_eq := late.classes_eq.trans early.classes_eq
  fields_eq := late.fields_eq.trans early.fields_eq
  methods_eq := late.methods_eq.trans early.methods_eq
  scopes := early.scopes.trans late.scopes
  keeps_variable found := late.keeps_variable (early.keeps_variable found)

section

variable (grows : Extends before after)
include grows

theorem sameMembers : SameMembers before after :=
  ⟨grows.classes_eq, grows.fields_eq, grows.methods_eq⟩

theorem parent?_eq (id : ClassId) : after.parent? id = before.parent? id :=
  grows.sameMembers.parent?_eq id

theorem methodEntry?_eq (id : MethodId) : after.methodEntry? id = before.methodEntry? id :=
  grows.sameMembers.methodEntry?_eq id

theorem larger (closed : before.Closed) : Larger before after :=
  grows.run.larger closed

theorem seenIn (closed : before.Closed) {method : MethodId}
    {symbol : Symbol} (seen : before.SeenIn method symbol) : after.SeenIn method symbol where
  known := (grows.larger closed).knows seen.known
  own id isVariable := by
    rcases seen.own id isVariable with ⟨entry, found, owned⟩
    exact ⟨entry, grows.keeps_variable found, owned⟩
  field id isField := by
    rcases seen.field id isField with ⟨entry, field, methodFound, fieldFound, descends⟩
    refine ⟨entry, field, (grows.methodEntry?_eq _).trans methodFound, ?_, ?_⟩
    · rw [ fieldEntry?, grows.fields_eq, ← fieldEntry?, fieldFound]
    · exact (descendsFrom_congr grows.parent?_eq).mpr descends

end

end Extends

end Registry

namespace Bindings

variable {bindings : Bindings}

theorem symbol?_bind (expr other : ExprId) (symbol : Symbol) :
    (bindings.bind expr symbol).symbol? other =
      if other = expr then some symbol else bindings.symbol? other := by
  rcases expr with ⟨number⟩
  rcases other with ⟨otherNumber⟩
  simp [symbol?, bind, Table.get?_insert, eq_comm]

theorem declarationsOf_declare (stmt other : StmtId) (id : VariableId) :
    (bindings.declare stmt id).declarationsOf other =
      if other = stmt then bindings.declarationsOf stmt ++
        [id] else bindings.declarationsOf other := by
  rcases stmt with ⟨number⟩
  rcases other with ⟨otherNumber⟩
  by_cases same : otherNumber = number
  · simp [declarationsOf, declare, same]
  · simp [declarationsOf, declare, Table.get?_insert, same, Ne.symm same]

theorem localsOf_addLocal (method other : MethodId) (id : VariableId) :
    (bindings.addLocal method id).localsOf other =
      if other = method then bindings.localsOf method ++ [id] else bindings.localsOf other := by
  rcases method with ⟨number⟩
  rcases other with ⟨otherNumber⟩
  by_cases same : otherNumber = number
  · simp [localsOf, addLocal, same]
  · simp [localsOf, addLocal, Table.get?_insert, same, Ne.symm same]

end Bindings

namespace Resolution

variable {resolution : Resolution}

/-- What resolution keeps true of itself. -/
structure Valid (resolution : Resolution) : Prop where
  consistent : resolution.registry.Consistent
  run : Registry.Run .empty resolution.registry
  symbols_known : ∀ {id symbol}, resolution.bindings.symbol? id = some symbol →
    resolution.registry.Knows symbol
  declared_known : ∀ {stmt id}, id ∈ resolution.bindings.declarationsOf stmt →
    resolution.registry.KnowsVariable id
  locals_known : ∀ {method id}, id ∈ resolution.bindings.localsOf method →
    resolution.registry.KnowsVariable id
  rank_lt : ∀ {id entry rank}, resolution.registry.variableEntry? id = some entry →
    entry.storage = .body rank → rank < (resolution.bindings.localsOf entry.method).length
  ordinary : ∀ {diagnostic}, diagnostic ∈ resolution.diagnostics →
    diagnostic.cause.category ≠ .internal

theorem Valid.closed (valid : resolution.Valid) : resolution.registry.Closed :=
  valid.run.closed .empty

theorem Valid.housed (valid : resolution.Valid) : resolution.registry.Housed :=
  valid.run.housed .empty

/-- What resolution has to find out about a node is found out. -/
def Settles (registry : Registry) (bindings : Bindings) (method : MethodEntry) : Expr → Prop
  | .identifier site _ =>
    ∃ symbol, bindings.symbol? site.id = some symbol ∧ registry.SeenIn method.id symbol
  | .new site _ => ∃ id, bindings.symbol? site.id = some (.ofClass id) ∧ registry.KnowsClass id
  | .this _ => method.isStatic = false
  | .super _ => method.isStatic = false ∧ ∃ parent, registry.parent? method.owner = some parent
  | .literal .. | .call .. | .fieldAccess .. | .unary .. | .binary .. | .step .. => True

theorem Settles.mono {registry grown : Registry} {bindings later : Bindings} {method : MethodEntry}
    {node : Expr} (settles : Settles registry bindings method node) (closed : registry.Closed)
    (grows : registry.Extends grown)
      (sameSymbol : later.symbol? node.id = bindings.symbol? node.id) :
    Settles grown later method node := by
  cases node with
  | identifier site name =>
    rcases settles with ⟨symbol, bound, seen⟩
    exact ⟨symbol, sameSymbol.trans bound, grows.seenIn closed seen⟩
  | new site className =>
    rcases settles with ⟨id, bound, known⟩
    exact ⟨id, sameSymbol.trans bound, Nat.lt_of_lt_of_le known (grows.larger closed).classes_le⟩
  | super site =>
    rcases settles with ⟨notStatic, parent, parentEq⟩
    exact ⟨notStatic, parent, by rw [grows.parent?_eq, parentEq]⟩
  | this _ => exact settles
  | literal _ _ | call _ _ _ _ | fieldAccess _ _ _ | unary _ _ _ | binary _ _ _ _ | step _ _ _ _ =>
    trivial

/-- What a node can be bound to: the name behind `new` stands for a class of that name. -/
def CanMean (registry : Registry) : Expr → Symbol → Prop
  | .new _ name, symbol =>
    ∃ id, symbol = .ofClass id ∧ (registry.classEntry? id).map ClassEntry.name = some name
  | .literal .., _ | .identifier .., _ | .this .., _ | .super .., _ | .call .., _
  | .fieldAccess .., _ | .unary .., _ | .binary .., _ | .step .., _ => True

theorem CanMean.mono {registry grown : Registry} {node : Expr} {symbol : Symbol}
    (means : CanMean registry node symbol) (grows : registry.Extends grown) :
    CanMean grown node symbol := by
  cases node with
  | new site name =>
    rcases means with ⟨id, rfl, named⟩
    exact ⟨id, rfl, by rw [Registry.classEntry?, grows.classes_eq]; exact named⟩
  | literal | identifier | this | super | call | fieldAccess | unary | binary | step => trivial

/-- The work on some expressions and statements of a method. -/
structure Resolves (method : MethodEntry) (exprs : List Expr) (stmts : List Stmt)
    (before after : Resolution) : Prop where
  valid : after.Valid
  registry : before.registry.Extends after.registry
  diagnostics : before.diagnostics <+: after.diagnostics
  symbol_elsewhere : ∀ {id}, id ∉ exprs.map Expr.id →
    after.bindings.symbol? id = before.bindings.symbol? id
  declared_elsewhere : ∀ {id}, id ∉ stmts.map Stmt.id →
    after.bindings.declarationsOf id = before.bindings.declarationsOf id
  settled : after.diagnostics = [] → (exprs.map Expr.id).Nodup → ∀ node ∈ exprs,
    Settles after.registry after.bindings method node
  declared : ∀ {id variableId}, variableId ∈ after.bindings.declarationsOf id →
    variableId ∈ before.bindings.declarationsOf id ∨ ∃ entry,
      after.registry.variableEntry? variableId = some entry ∧ entry.method = method.id
  bound : ∀ {id symbol}, after.bindings.symbol? id = some symbol →
    before.bindings.symbol? id = some symbol ∨ ∃ node ∈ exprs,
    node.id = id ∧ CanMean after.registry node symbol

namespace Resolves

variable {method : MethodEntry} {exprs more : List Expr} {stmts moreStmts : List Stmt}
  {before between after : Resolution}
variable {expr : Expr}

theorem refl (valid : before.Valid) : Resolves method [] [] before before where
  valid := valid
  registry := .refl _
  diagnostics := List.prefix_rfl
  symbol_elsewhere _ := rfl
  declared_elsewhere _ := rfl
  settled := by simp
  declared := .inl
  bound := .inl

theorem trans (early : Resolves method exprs stmts before between)
    (late : Resolves method more moreStmts between after) :
    Resolves method (exprs ++ more) (stmts ++ moreStmts) before after where
  valid := late.valid
  registry := early.registry.trans late.registry
  diagnostics := early.diagnostics.trans late.diagnostics
  symbol_elsewhere elsewhere := by
    simp only [List.map_append, List.mem_append, not_or] at elsewhere
    rw [late.symbol_elsewhere elsewhere.2, early.symbol_elsewhere elsewhere.1]
  declared_elsewhere elsewhere := by
    simp only [List.map_append, List.mem_append, not_or] at elsewhere
    rw [late.declared_elsewhere elsewhere.2, early.declared_elsewhere elsewhere.1]
  settled silent distinct node nodeMem := by
    have silentBetween : between.diagnostics = [] := List.prefix_nil.mp (silent ▸ late.diagnostics)
    rw [List.map_append, List.nodup_append] at distinct
    rcases distinct with ⟨distinctEarly, distinctLate, disjoint⟩
    rcases List.mem_append.mp nodeMem with isEarly | isLate
    · refine (early.settled silentBetween distinctEarly node isEarly).mono early.valid.closed
        late.registry ?_
      apply late.symbol_elsewhere
      exact fun isLate => disjoint _ (List.mem_map_of_mem isEarly) _ isLate rfl
    · exact late.settled silent distinctLate node isLate
  declared isDeclared := by
    rcases late.declared isDeclared with isEarlier | isNew
    · rcases early.declared isEarlier with isOld | ⟨entry, found, owned⟩
      · exact .inl isOld
      · exact .inr ⟨entry, late.registry.keeps_variable found, owned⟩
    · exact .inr isNew
  bound isBound := by
    rcases late.bound isBound with isEarlier | ⟨node, isNode, idEq, means⟩
    · rcases early.bound isEarlier with isOld | ⟨node, isNode, idEq, means⟩
      · exact .inl isOld
      · exact .inr ⟨node, List.mem_append_left _ isNode, idEq, means.mono late.registry⟩
    · exact .inr ⟨node, List.mem_append_right _ isNode, idEq, means⟩

/-- A node about which there is nothing more to find out. -/
theorem node (valid : before.Valid)
    (settles : Settles before.registry before.bindings method expr) :
    Resolves method [expr] [] before before where
  valid := valid
  registry := .refl _
  diagnostics := List.prefix_rfl
  symbol_elsewhere _ := rfl
  declared_elsewhere _ := rfl
  settled _ _ := by simpa using settles
  declared := .inl
  bound := .inl

/-- A node that is settled once its parts are. -/
theorem andNode (inner : Resolves method exprs [] before after)
    (settles : ∀ registry bindings, Settles registry bindings method expr) :
    Resolves method (exprs ++ [expr]) [] before after :=
  inner.trans (.node inner.valid (settles _ _))

theorem widen (inner : Resolves method exprs stmts before after) (subset : stmts ⊆ moreStmts) :
    Resolves method exprs moreStmts before after where
  valid := inner.valid
  registry := inner.registry
  diagnostics := inner.diagnostics
  symbol_elsewhere := inner.symbol_elsewhere
  declared_elsewhere elsewhere := by
    apply inner.declared_elsewhere
    intro isOwn
    rcases List.mem_map.mp isOwn with ⟨stmt, stmtMem, rfl⟩
    exact elsewhere (List.mem_map_of_mem (subset stmtMem))
  settled := inner.settled
  declared := inner.declared
  bound := inner.bound

theorem andStmt (inner : Resolves method exprs stmts before after) (stmt : Stmt) :
    Resolves method exprs (stmts ++ [stmt]) before after :=
  inner.widen (by simp)

theorem stmtNode (valid : before.Valid) (stmt : Stmt) :
    Resolves method [] [stmt] before before where
  valid := valid
  registry := .refl _
  diagnostics := List.prefix_rfl
  symbol_elsewhere _ := rfl
  declared_elsewhere _ := rfl
  settled := by simp
  declared := .inl
  bound := .inl

/-- A complaint settles every account. -/
theorem report (valid : before.Valid) (position : Position) {cause : Cause}
    (isOrdinary : cause.category ≠ .internal) (exprs : List Expr) (stmts : List Stmt) :
    Resolves method exprs stmts before (before.report position cause) where
  valid :=
    { consistent := valid.consistent
      run := valid.run
      symbols_known := valid.symbols_known
      declared_known := valid.declared_known
      locals_known := valid.locals_known
      rank_lt := valid.rank_lt
      ordinary := by
        intro diagnostic isReported
        rcases List.mem_append.mp isReported with isOld | isNew
        · exact valid.ordinary isOld
        · rw [List.mem_singleton.mp isNew]
          exact isOrdinary }
  registry := .refl _
  diagnostics := List.prefix_append _ _
  symbol_elsewhere _ := rfl
  declared_elsewhere _ := rfl
  settled := by simp [Resolution.report]
  declared := .inl
  bound := .inl

theorem bind (valid : before.Valid) {symbol : Symbol} (known : before.registry.Knows symbol)
    (means : CanMean before.registry expr symbol)
    (settles : ∀ bindings : Bindings, bindings.symbol? expr.id = some symbol →
      Settles before.registry bindings method expr) :
    Resolves method [expr] [] before
      { before with bindings := before.bindings.bind expr.id symbol } where
  valid :=
    { consistent := valid.consistent
      run := valid.run
      symbols_known := by
        intro id found isBound
        rw [Bindings.symbol?_bind] at isBound
        split at isBound
        · exact Option.some.inj isBound ▸ known
        · exact valid.symbols_known isBound
      declared_known := valid.declared_known
      locals_known := valid.locals_known
      rank_lt := valid.rank_lt
      ordinary := valid.ordinary }
  registry := .refl _
  diagnostics := List.prefix_rfl
  symbol_elsewhere elsewhere := by
    rw [Bindings.symbol?_bind, if_neg (by simpa using elsewhere)]
  declared_elsewhere _ := rfl
  settled _ _ := by
    simpa using settles _ (by simp [Bindings.symbol?_bind])
  declared := .inl
  bound isBound := by
    rw [Bindings.symbol?_bind] at isBound
    split at isBound
    next same =>
      exact .inr ⟨expr, List.mem_singleton_self expr, same.symm, Option.some.inj isBound ▸ means⟩
    next => exact .inl isBound

/-- Opening a scope inside a scope of the method gives another one. -/
theorem openBlock (valid : before.Valid) {scope : ScopeId}
    (home : before.registry.scopes.Home scope method.id) :
    Resolves method [] [] before (before.openBlock scope).2 ∧
      (before.openBlock scope).2.registry.scopes.Home (before.openBlock scope).1 method.id := by
  have step : Registry.Step before.registry (before.registry.openBlock scope).2 :=
    .openBlock home.known
  have grows : before.registry.scopes.Grows (before.registry.openBlock scope).2.scopes :=
    .push _ _ _
  refine ⟨⟨?_, ?_, List.prefix_rfl, fun _ => rfl, fun _ => rfl, by simp, .inl, .inl⟩, ?_⟩
  · exact
      { consistent :=
          { toWellFormed := valid.consistent.toWellFormed.openBlock scope
            toLexical := valid.consistent.toLexical.openBlock home.known }
        run := valid.run.tail step
        symbols_known := fun bound =>
          (step.larger_and_closed valid.closed).1.knows (valid.symbols_known bound)
        declared_known := valid.declared_known
        locals_known := valid.locals_known
        rank_lt := valid.rank_lt
        ordinary := valid.ordinary }
  · exact ⟨.single step, rfl, rfl, rfl, grows, id⟩
  · have opened : (before.openBlock scope).2.registry.scopes.get? (before.openBlock scope).1 =
        some ⟨⟨before.registry.scopes.size⟩, .block, some scope, []⟩ := by
      simp [Resolution.openBlock, Registry.openBlock, ScopeTree.get?_push]
    exact .block opened rfl rfl (home.grow grows)

end Resolves

end Resolution

end Decaf
