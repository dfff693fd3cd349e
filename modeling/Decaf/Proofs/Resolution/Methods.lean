import Decaf.Proofs.Members.Declared
import Decaf.Proofs.Resolution.Bodies

/-!
# Resolution of a program

The bodies of a program have no node in common, so what resolution finds out about one of them is
still there at the end.
-/

namespace Decaf

namespace Resolution

variable {members : Members} {id : ExprId} {symbol : Symbol}

/-- What resolution has to find out about the body of a method is found out. -/
structure BodySettled (resolution : Resolution) (method : MethodEntry) (body : Stmt) : Prop where
  exprs : ∀ node ∈ body.exprNodes, Settles resolution.registry resolution.bindings method node
  locals : ∀ node ∈ body.nodes, ∀ id ∈ resolution.bindings.declarationsOf node.id, ∃ entry,
    resolution.registry.variableEntry? id = some entry ∧ entry.method = method.id

/-- The bodies of some methods are resolved. -/
structure Resolved (base : Registry) (done : List (MethodSource × Nat)) (resolution : Resolution) :
    Prop where
  valid : resolution.Valid
  registry : base.Extends resolution.registry
  settled : resolution.diagnostics = [] → ∀ pair ∈ done, ∀ method,
    resolution.registry.methodEntry? ⟨pair.2⟩ = some method →
      resolution.BodySettled method pair.1.decl.body
  untouched : ∀ {id}, id ∉ (done.flatMap fun pair => pair.1.decl.body.nodes).map Stmt.id →
    resolution.bindings.declarationsOf id = []

variable {base : Registry} {done rest : List (MethodSource × Nat)} {pair : MethodSource × Nat}
  {before after : Resolution} {method : MethodEntry}

theorem resolved_start (consistent : base.Consistent) (run : Registry.Run .empty base)
    (parameters : Members.OnlyParameters base) : Resolved base [] { registry := base } where
  valid :=
    { consistent
      run
      symbols_known := by simp [Bindings.symbol?, Bindings.empty]
      declared_known := by simp [Bindings.declarationsOf, Bindings.empty]
      locals_known := by simp [Bindings.localsOf, Bindings.empty]
      rank_lt := by
        intro id entry rank found storageEq
        have isParameter := parameters entry (Array.mem_of_getElem? found)
        simp [VariableEntry.isParameter, storageEq] at isParameter
      ordinary := by simp }
  registry := .refl base
  settled := by simp
  untouched := by simp [Bindings.declarationsOf, Bindings.empty]

theorem inside_body (valid : before.Valid) {id : MethodId}
    (found : before.registry.methodEntry? id = some method) :
    Inside method method.scope before := by
  have sameId := valid.consistent.method_id found
  rcases valid.consistent.method_scope found with ⟨scope, scopeFound, isBody⟩
  exact ⟨valid, sameId ▸ found, .body scopeFound (sameId ▸ isBody)⟩

theorem BodySettled.later {exprs : List Expr} {stmts : List Stmt} {other : MethodEntry}
    {body : Stmt} (settled : before.BodySettled method body) (closed : before.registry.Closed)
    (resolves : Resolves other exprs stmts before after)
    (exprsElsewhere : ∀ node ∈ body.exprNodes, node.id ∉ exprs.map Expr.id)
    (stmtsElsewhere : ∀ node ∈ body.nodes, node.id ∉ stmts.map Stmt.id) :
    after.BodySettled method body where
  exprs node nodeMem := (settled.exprs node nodeMem).mono closed resolves.registry
    (resolves.symbol_elsewhere (exprsElsewhere node nodeMem))
  locals node nodeMem id isDeclared := by
    rw [resolves.declared_elsewhere (stmtsElsewhere node nodeMem)] at isDeclared
    rcases settled.locals node nodeMem id isDeclared with ⟨entry, found, owned⟩
    exact ⟨entry, resolves.registry.keeps_variable found, owned⟩

theorem resolved_resolveMethod (resolved : Resolved base done before)
    (exprIds : ((done.flatMap (fun pair => pair.1.decl.body.exprNodes) ++
      pair.1.decl.body.exprNodes).map Expr.id).Nodup)
    (stmtIds : ((done.flatMap (fun pair => pair.1.decl.body.nodes) ++
      pair.1.decl.body.nodes).map Stmt.id).Nodup) :
    Resolved base (done ++ [pair]) (resolveMethod before pair) := by
  unfold resolveMethod
  cases found : before.registry.methodEntry? ⟨pair.2⟩ with
  | none =>
    refine ⟨resolved.valid, resolved.registry, ?_, ?_⟩
    · intro silent other isDone method methodFound
      rcases List.mem_append.mp isDone with isOld | isNew
      · exact resolved.settled silent other isOld method methodFound
      · rw [List.mem_singleton.mp isNew] at methodFound
        cases found.symm.trans methodFound
    · intro id elsewhere
      apply resolved.untouched
      intro isOld
      exact elsewhere (by simp_all)
  | some method =>
    have resolves := resolves_body (inside_body resolved.valid found) pair.1.decl.body
    dsimp only
    generalize resolveBody method pair.1.decl.body before = after at resolves
    refine ⟨resolves.valid, resolved.registry.trans resolves.registry, ?_, ?_⟩
    · intro silent other isDone otherMethod otherFound
      rw [resolves.registry.methodEntry?_eq] at otherFound
      have silentBefore : before.diagnostics = [] :=
        List.prefix_nil.mp (silent ▸ resolves.diagnostics)
      rcases List.mem_append.mp isDone with isOld | isNew
      · apply (resolved.settled silentBefore other isOld otherMethod otherFound).later
          resolved.valid.closed resolves
        · exact fun node nodeMem =>
            not_mem_ids exprIds (List.mem_flatMap.mpr ⟨other, isOld, nodeMem⟩)
        · exact fun node nodeMem =>
            not_mem_ids stmtIds (List.mem_flatMap.mpr ⟨other, isOld, nodeMem⟩)
      · obtain rfl := List.mem_singleton.mp isNew
        cases found.symm.trans otherFound
        refine ⟨resolves.settled silent ?_, ?_⟩
        · rw [List.map_append, List.nodup_append] at exprIds
          exact exprIds.2.1
        · intro node nodeMem id isDeclared
          refine (resolves.declared isDeclared).resolve_left ?_
          rw [resolved.untouched]
          · simp
          · rw [List.map_append, List.nodup_append] at stmtIds
            exact fun isOld => stmtIds.2.2 _ isOld _ (List.mem_map_of_mem nodeMem) rfl
    · intro id elsewhere
      simp only [List.flatMap_append, List.map_append, List.mem_append, not_or,
        List.flatMap_singleton] at elsewhere
      rw [resolves.declared_elsewhere elsewhere.2, resolved.untouched elsewhere.1]

theorem resolved_foldl (resolved : Resolved base done before)
    (exprIds : (((done ++ rest).flatMap fun pair => pair.1.decl.body.exprNodes).map Expr.id).Nodup)
    (stmtIds : (((done ++ rest).flatMap fun pair => pair.1.decl.body.nodes).map Stmt.id).Nodup) :
    Resolved base (done ++ rest) (rest.foldl resolveMethod before) := by
  induction rest generalizing done before with
  | nil => simpa using resolved
  | cons pair rest ih =>
    rw [List.append_cons] at exprIds stmtIds ⊢
    rw [List.foldl_cons]
    refine ih (resolved_resolveMethod resolved ?_ ?_) exprIds stmtIds
    · simp only [List.flatMap_append, List.flatMap_singleton, List.map_append] at exprIds ⊢
      exact (List.nodup_append.mp exprIds).1
    · simp only [List.flatMap_append, List.flatMap_singleton, List.map_append] at stmtIds ⊢
      exact (List.nodup_append.mp stmtIds).1

theorem extends_foldl (valid : before.Valid) (extended : base.Extends before.registry) :
    (rest.foldl resolveMethod before).Valid ∧
      base.Extends (rest.foldl resolveMethod before).registry := by
  induction rest generalizing before with
  | nil => exact ⟨valid, extended⟩
  | cons pair rest ih =>
    rw [List.foldl_cons, resolveMethod]
    split
    next method found =>
      have resolves := resolves_body (inside_body valid found) pair.1.decl.body
      exact ih resolves.valid (extended.trans resolves.registry)
    next => exact ih valid extended

/-- Resolution keeps what it starts with, whatever numbers the nodes have. -/
theorem extends_ofMembers (consistent : members.registry.Consistent)
    (run : Registry.Run .empty members.registry)
    (parameters : Members.OnlyParameters members.registry) :
    (ofMembers members).Valid ∧ members.registry.Extends (ofMembers members).registry :=
  extends_foldl (resolved_start consistent run parameters).valid (.refl _)

theorem bound_foldl (valid : before.Valid)
    (isBound : (rest.foldl resolveMethod before).bindings.symbol? id = some symbol) :
    before.bindings.symbol? id = some symbol ∨ ∃ pair ∈ rest, ∃ node ∈ pair.1.decl.body.exprNodes,
      node.id = id ∧ CanMean (rest.foldl resolveMethod before).registry node symbol := by
  induction rest generalizing before with
  | nil => exact .inl isBound
  | cons pair rest ih =>
    rw [List.foldl_cons] at isBound ⊢
    have late {between : Resolution} (valid : between.Valid)
        (isBound : (rest.foldl resolveMethod between).bindings.symbol? id = some symbol) :
        between.bindings.symbol? id = some symbol ∨ ∃ other ∈ pair :: rest,
        ∃ node ∈ other.1.decl.body.exprNodes,
          node.id = id ∧ CanMean (rest.foldl resolveMethod between).registry node symbol :=
      (ih valid isBound).imp_right fun ⟨other, isOther, found⟩ =>
        ⟨other, List.mem_cons_of_mem _ isOther, found⟩
    rw [resolveMethod] at isBound ⊢
    split at isBound
    next method found =>
      have resolves := resolves_body (inside_body valid found) pair.1.decl.body
      rcases late resolves.valid isBound with isBetween | isLater
      · rcases resolves.bound isBetween with isOld | ⟨node, isNode, idEq, means⟩
        · exact .inl isOld
        · refine .inr ⟨pair, List.mem_cons_self, node, isNode, idEq, means.mono ?_⟩
          exact (extends_foldl resolves.valid (.refl _)).2
      · exact .inr isLater
    next => exact late valid isBound

/-- Whatever a number is bound to, there is a node with this number that can mean it. -/
theorem canMean_ofMembers (consistent : members.registry.Consistent)
    (run : Registry.Run .empty members.registry)
    (parameters : Members.OnlyParameters members.registry)
    (isBound : (ofMembers members).bindings.symbol? id = some symbol) :
    ∃ source ∈ members.sources.toList, ∃ node ∈ source.decl.body.exprNodes,
      node.id = id ∧ CanMean (ofMembers members).registry node symbol := by
  rcases bound_foldl (resolved_start consistent run parameters).valid isBound with
    isOld | ⟨pair, isPair, found⟩
  · cases isOld
  · exact ⟨pair.1, List.fst_mem_of_mem_zipIdx isPair, found⟩

/-- In a program whose nodes have numbers of their own, resolution settles every body. -/
theorem resolved_ofMembers {program : Program} (bodies : program.Bodies members.sources.toList)
    (consistent : members.registry.Consistent) (run : Registry.Run .empty members.registry)
    (parameters : Members.OnlyParameters members.registry) :
    Resolved members.registry members.sources.toList.zipIdx (ofMembers members) := by
  refine resolved_foldl (resolved_start consistent run parameters) ?_ ?_
  · rw [List.nil_append,
      Members.flatMap_zipIdx _ (fun source : MethodSource => source.decl.body.exprNodes)]
    exact bodies.expr_ids
  · rw [List.nil_append,
      Members.flatMap_zipIdx _ (fun source : MethodSource => source.decl.body.nodes)]
    exact bodies.stmt_ids

end Resolution

end Decaf
