import QueryPlan.Proofs.Lowering.Direct
import QueryPlan.Proofs.Plan.Node

/-!
# Drafts do what steps say

A clause run on a draft between two clauses has the outcome of its step, and leaves a draft between
two clauses (`outcome_clause`). By induction this carries over to all clauses of a query
(`outcome_clauses`), so that the plan of a query is what the steps of its clauses make of nothing
(`SingleQuery.toPlan_eq`).
-/

namespace QueryPlan

namespace Drafting

variable {catalog : Catalog} {source : GraphSource} {kind : Option QueryKind} {n : Nat}

/-! ## Actions -/

theorem outcome_defaultScan (top : Option Plan) (pending : List (Option String × Expr))
    (nodes : List (String × Node)) (edges : List BoundEdge) :
    outcome defaultScan ⟨catalog, source, top.toList, pending, nodes, edges, kind, n⟩ =
      source.inputOr catalog top >>= fun p =>
        .ok ((), ⟨catalog, source, [p], pending, nodes, edges, kind, n⟩) := by
  cases top with
  | some p => rfl
  | none =>
      cases source with
      | entity graph => simp [defaultScan, GraphSource.inputOr, GraphSource.scan]
      | substitution home labels => simp [defaultScan, GraphSource.inputOr, GraphSource.scan]

theorem outcome_addAll (bs : List Binding) (d : Draft) :
    outcome (addAll bs) d =
      .ok ((), { d with pending := d.pending ++ bs.map fun b => (some b.name, b.expr) }) := by
  induction bs generalizing d with
  | nil => simp [addAll]
  | cons b bs ih => simp [addAll, ih]

theorem extendBindings_named (bound bs : List Binding) :
    extendBindings bound (bs.map fun b => (some b.name, b.expr)) =
      .ok (Binding.extend bound bs) := by
  induction bs generalizing bound with
  | nil => rfl
  | cons b bs ih =>
      simp only [List.map_cons, extendBindings, Binding.extend]
      split
      · exact ih bound
      · exact ih (bound ++ [b])

theorem outcome_combineMatch (top : Option Plan) (calls : List Binding) :
    outcome combineMatch ⟨catalog, source, top.toList,
        calls.map fun b => (some b.name, b.expr), [], [], kind, n⟩ =
      source.inputOr catalog top >>= fun input => input.extendMatch calls >>= fun p =>
        .ok ((), .between catalog source (some p) kind n) := by
  simp only [combineMatch, outcome_bind, outcome_defaultScan]
  cases h : source.inputOr catalog top with
  | error e => simp
  | ok input =>
      simp only [ok_bind, outcome_pop, topOf]
      by_cases hm : input.model = .graph
      · simp [Plan.extendMatch, require, hm, extendBindings_named]
        cases matchBase input with
        | error e => simp
        | ok r => simp [Draft.between]
      · simp [Plan.extendMatch, require, hm]

theorem outcome_combineFilter (p : Plan) (predicate : Expr) :
    outcome combineFilter ⟨catalog, source, [p], [(none, predicate)], [], [], kind, n⟩ =
      p.restrict predicate >>= fun q => .ok ((), .between catalog source (some q) kind n) := by
  simp only [combineFilter, outcome_bind, outcome_get, ok_bind, projectIfBare, Draft.scope,
    List.length_singleton]
  by_cases hs : p.schema.isSingle .graph = true
  · simp only [Plan.restrict, hs]
    cases hp : Plan.projectColumns p [⟨some (exprName 0), predicate⟩] with
    | error e => simp [hs, topOf, fillNames, hp]
    | ok project =>
        have hschema : project.schema = [⟨exprName 0, predicate.ty⟩] := by
          rw [(Plan.yields_projectColumns p _).result hp]
          rfl
        simp [hs, topOf, fillNames, hp, hschema, Schema.namedRefs, conjunction, Draft.between]
  · simp [Plan.restrict, hs, topOf, conjunction, Draft.between]

theorem outcome_whereClause (p : Plan) (condition : Option Expression) :
    outcome (whereClause condition) (.between catalog source (some p) kind n) =
      p.restrictBy condition >>= fun q => .ok ((), .between catalog source (some q) kind n) := by
  cases condition with
  | none => rfl
  | some condition =>
      simp only [whereClause, Plan.restrictBy, outcome_bind, outcome_get, ok_bind, outcome_lift]
      cases h : condition.toExpr p.schema with
      | error e => simp [Draft.between, Draft.scope, h]
      | ok predicate => simp [Draft.between, Draft.scope, h, outcome_combineFilter]

theorem outcome_bindNode (key : String) (node : Node) (d : Draft) :
    outcome (bindNode key node) d =
      if d.isBound key then .ok (false, d)
      else .ok (true, { d with nodes := d.nodes ++ [(key, node)] }) := by
  simp only [bindNode, outcome_bind, outcome_get, ok_bind]
  split <;> rfl

theorem outcome_bindNodes (ks : List KeyedNode) (d : Draft) :
    outcome (bindNodes ks) d = .ok ((), { d with nodes := KeyedNode.collect d.nodes ks }) := by
  induction ks generalizing d with
  | nil => rfl
  | cons k ks ih =>
      by_cases h : d.nodes.any (·.1 = k.key) = true
      · simp [bindNodes, outcome_bindNode, KeyedNode.collect, Draft.isBound, h, ih]
      · simp [bindNodes, outcome_bindNode, KeyedNode.collect, Draft.isBound, h, ih]

theorem outcome_bindEdges (es : List BoundEdge) (d : Draft) :
    outcome (bindEdges es) d = .ok ((), { d with edges := d.edges ++ es }) := by
  induction es generalizing d with
  | nil => simp [bindEdges]
  | cons e es ih => simp [bindEdges, ih]

theorem outcome_combineValues (top : Option Plan) (nodes : List (String × Node))
    (edges : List BoundEdge) :
    outcome combineValues ⟨catalog, source, top.toList, [], nodes, edges, kind, n⟩ =
      source.insert top nodes edges >>= fun p =>
        .ok ((), .between catalog source (some p) kind n) := by
  simp only [combineValues, GraphSource.insert, outcome_bind, outcome_get, ok_bind]
  split
  · simp
  · cases source with
    | substitution home labels => simp [Draft.target, GraphSource.target]
    | entity graph =>
        cases top with
        | none => simp [Draft.target, GraphSource.target, insertInput, Draft.between]
        | some p => simp [Draft.target, GraphSource.target, insertInput, Draft.between]

theorem outcome_combineModify (top : Option Plan) (write : Write)
    (queued : List (Option String × Expr)) :
    outcome (combineModify write) ⟨catalog, source, top.toList, queued, [], [], kind, n⟩ =
      source.write top write queued >>= fun p =>
        .ok ((), .between catalog source (some p) kind n) := by
  simp only [combineModify, GraphSource.write, outcome_bind, outcome_get, ok_bind]
  split
  · simp
  · cases source with
    | substitution home labels => simp [Draft.target, GraphSource.target]
    | entity graph =>
        cases top with
        | none => simp [Draft.target, GraphSource.target, topOf]
        | some p => simp [Draft.target, GraphSource.target, topOf, Draft.between]

/-! ## Clauses -/

theorem outcome_counting {α : Type} (f : Nat → Except Error (α × Nat)) (d : Draft) :
    outcome (counting f) d =
      f d.anonymous >>= fun r => .ok (r.1, { d with anonymous := r.2 }) := by
  simp [counting]

theorem outcome_queueing (f : Schema → List (Option String × Expr) →
    Except Error (List (Option String × Expr))) (d : Draft) :
    outcome (queueing f) d =
      f d.scope d.pending >>= fun queue => .ok ((), { d with pending := queue }) := by
  simp [queueing]

theorem outcome_replaceTop (f : Plan → Except Error Plan) (p : Plan) :
    outcome (replaceTop f) (.between catalog source (some p) kind n) =
      f p >>= fun q => .ok ((), .between catalog source (some q) kind n) := by
  simp [replaceTop, topOf, Draft.between]

theorem outcome_projection (p : Projection) (top : Option Plan) :
    outcome (projection p) (.between catalog source top kind n) =
      source.inputOr catalog top >>= fun input => p.toPlan input >>= fun q =>
        .ok ((), .between catalog source (some q) kind n) := by
  simp only [projection, outcome_bind, Draft.between, outcome_defaultScan]
  cases h : source.inputOr catalog top with
  | error e => simp
  | ok input => exact outcome_replaceTop p.toPlan input

@[simp] theorem scope_between (top : Option Plan) :
    (Draft.between catalog source top kind n).scope = scopeOf top := by
  cases top <;> rfl

theorem outcome_matchClause (c : MatchClause) (top : Option Plan) :
    outcome (matchClause c) (.between catalog source top kind n) =
      c.step catalog source top n >>= fun r =>
        .ok ((), .between catalog source (some r.1) (kind.or (some .select)) r.2) := by
  by_cases ho : c.optional = true
  · simp [matchClause, MatchClause.step, ho, require]
  · simp only [matchClause, MatchClause.step, ho, if_false, if_true, Bool.false_eq_true,
      Bool.not_false, require, outcome_bind, outcome_setKindIfUnset, outcome_counting,
      outcome_addAll, ok_bind, Draft.between]
    cases h : patternCalls n [] c.patterns with
    | error e => simp
    | ok r =>
        obtain ⟨calls, m⟩ := r
        simp only [ok_bind, List.nil_append, outcome_combineMatch]
        cases hi : source.inputOr catalog top with
        | error e => simp
        | ok input =>
            cases hp : input.extendMatch calls with
            | error e => simp [hp]
            | ok p =>
                simp only [ok_bind, outcome_whereClause, hp]
                cases hq : p.restrictBy c.condition with
                | error e => simp
                | ok q => simp [Draft.between]

/-- `SET`, `REMOVE` and `DELETE` differ only in what they queue. -/
theorem outcome_write (write : Write) (k : QueryKind) (top : Option Plan)
    (f : Schema → List (Option String × Expr) → Except Error (List (Option String × Expr))) :
    outcome (do setKind k; queueing f; combineModify write) (.between catalog source top kind n) =
      f (scopeOf top) [] >>= fun queued => source.write top write queued >>= fun p =>
        .ok ((), .between catalog source (some p) (some k) n) := by
  simp only [outcome_bind, outcome_setKind, ok_bind, outcome_queueing]
  change (f (Draft.between catalog source top (some k) n).scope [] >>= _) >>= _ = _
  rw [scope_between]
  cases h : f (scopeOf top) [] with
  | error e => simp
  | ok queued => exact outcome_combineModify top write queued

theorem outcome_createClause (c : CreateClause) (top : Option Plan) :
    outcome (createClause c) (.between catalog source top kind n) =
      c.step source top n >>= fun r =>
        .ok ((), .between catalog source (some r.1) (some .insert) r.2) := by
  simp only [createClause, CreateClause.step, outcome_bind, outcome_setKind, outcome_get, ok_bind,
    outcome_counting]
  change (createPatterns (Draft.between catalog source top (some .insert) n).scope n c.patterns >>=
    _) >>= _ = _
  rw [scope_between]
  cases h : createPatterns (scopeOf top) n c.patterns with
  | error e => simp
  | ok r =>
      obtain ⟨created, m⟩ := r
      simp [outcome_bindNodes, outcome_bindEdges, Draft.between, outcome_combineValues]

theorem outcome_unwindClause (c : UnwindClause) (top : Option Plan) :
    outcome (unwindClause c) (.between catalog source top kind n) =
      c.step top >>= fun p => .ok ((), .between catalog source (some p) kind n) := by
  cases top with
  | none => simp [unwindClause, UnwindClause.step, Draft.between]
  | some p => exact outcome_replaceTop c.over p

theorem outcome_callClause (home : NamespaceId) (c : CallClause) (top : Option Plan) :
    outcome (callClause home c) (.between catalog source top kind n) =
      c.step home top >>= fun p =>
        .ok ((), .between catalog source (some p) (kind.or (some .select)) n) := by
  cases top with
  | none => simp [callClause, CallClause.step, Draft.between]
  | some p => rfl

/-- **A clause does what its step says.** -/
theorem outcome_clause (home : NamespaceId) (c : Clause) (top : Option Plan) :
    outcome (clause home c) (.between catalog source top kind n) =
      c.step catalog source home top n >>= fun r =>
        .ok ((), .between catalog source r.1 (c.kindAfter kind) r.2) := by
  cases c with
  | matching m => simp [clause, Clause.step, Clause.kindAfter, outcome_matchClause]
  | passing w =>
      simp only [clause, Clause.step, Clause.kindAfter, outcome_bind, outcome_projection]
      cases h : source.inputOr catalog top with
      | error e => simp
      | ok input =>
          cases hp : w.projection.toPlan input with
          | error e => simp [hp]
          | ok p => simp [hp, outcome_whereClause]
  | returning r => simp [clause, Clause.step, Clause.kindAfter, outcome_projection]
  | creating create => simp [clause, Clause.step, Clause.kindAfter, outcome_createClause]
  | setting s =>
      rw [clause, outcome_write]
      simp [Clause.step, Clause.kindAfter]
  | removing r =>
      rw [clause, outcome_write]
      simp [Clause.step, Clause.kindAfter]
  | deleting delete =>
      rw [clause, outcome_write]
      simp [Clause.step, Clause.kindAfter]
  | unwinding u => simp [clause, Clause.step, Clause.kindAfter, outcome_unwindClause]
  | calling call => simp [clause, Clause.step, Clause.kindAfter, outcome_callClause]
  | onGraph _ => rfl
  | merging _ => rfl
  | repeating _ _ _ _ => rfl
  | loading _ => rfl

/-- By induction on the clauses: each starts from the draft that the one before it left. -/
theorem outcome_clauses (home : NamespaceId) (index : Nat) (cs : List Clause) (top : Option Plan) :
    outcome (clauses home index cs) (.between catalog source top kind n) =
      Clause.steps catalog source home index top n cs >>= fun r =>
        .ok ((), .between catalog source r.1 (cs.foldl Clause.kindAfter kind) r.2) := by
  induction cs generalizing index top kind n with
  | nil => rfl
  | cons c cs ih =>
      cases hr : c.step catalog source home top n with
      | error e =>
          have hc : outcome (clause home c) (.between catalog source top kind n) = .error e := by
            rw [outcome_clause, hr, error_bind]
          obtain ⟨d, hd⟩ := outcome_eq_error.mp hc
          simp [outcome, clauses, Clause.steps, hr, hd]
      | ok r =>
          have hc : outcome (clause home c) (.between catalog source top kind n) =
              .ok ((), .between catalog source r.1 (c.kindAfter kind) r.2) := by
            rw [outcome_clause, hr, ok_bind]
          have hrest : outcome (clauses home index (c :: cs)) (.between catalog source top kind n) =
              outcome (clauses home (index + 1) cs)
                (.between catalog source r.1 (c.kindAfter kind) r.2) := by
            simp only [outcome, clauses, outcome_eq_ok.mp hc]
          rw [hrest, ih (index + 1) r.1]
          simp only [Clause.steps, hr, List.foldl_cons]

end Drafting

theorem finish_between (catalog : Catalog) (source : GraphSource) (top : Option Plan)
    (kind : Option QueryKind) (n : Nat) :
    (Draft.between catalog source top kind n).finish = finalPlan kind top := by
  cases top <;> rfl

/-- The plan of a query is what the steps of its clauses make. -/
theorem SingleQuery.toPlan_eq (q : SingleQuery) (catalog : Catalog) (home : NamespaceId)
    (allowSubstitution : Bool) :
    q.toPlan catalog home allowSubstitution =
      GraphSource.resolve catalog home allowSubstitution (mentionedLabels q.clauses) >>=
        fun source => Clause.steps catalog source home 0 none 0 q.clauses >>=
          fun r => finalPlan (q.clauses.foldl Clause.kindAfter none) r.1 := by
  unfold SingleQuery.toPlan
  congr 1
  funext source
  rw [Draft.empty_eq_between]
  cases hs : Clause.steps catalog source home 0 none 0 q.clauses with
  | error e =>
      have hc : Drafting.outcome (Drafting.clauses home 0 q.clauses)
          (.between catalog source none none 0) = .error e := by
        rw [Drafting.outcome_clauses, hs, error_bind]
      obtain ⟨d, hd⟩ := Drafting.outcome_eq_error.mp hc
      simp [hd]
  | ok r =>
      have hc : Drafting.outcome (Drafting.clauses home 0 q.clauses)
          (.between catalog source none none 0) =
          .ok ((), .between catalog source r.1 (q.clauses.foldl Clause.kindAfter none) r.2) := by
        rw [Drafting.outcome_clauses, hs, ok_bind]
      simp [Drafting.outcome_eq_ok.mp hc, finish_between]

end QueryPlan
