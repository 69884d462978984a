import QueryPlan.Proofs.Compiler.Endpoints
import QueryPlan.Proofs.Compiler.Models
import QueryPlan.Proofs.Expr.Aggregates
import QueryPlan.Proofs.Lowering.Grouping
import QueryPlan.Proofs.Lowering.Updates

/-!
# Aggregates in compiled plans

Whatever a clause puts into a plan is lowered from an expression of the query, or is made of fields,
literals and lowered expressions by operators of its own. None of this calls an aggregate.
Aggregates are computed by groups only, and a group finds the arguments of its calls among the
columns of the projection right below it. `Plan.ScalarAt` says so of one node; each step of a query
keeps it true of all nodes, and so does a run of queries.
-/

namespace QueryPlan

def Op.isAggregate : Op → Bool
  | aggregate _ _ => true
  | _ => false

/-! ## Plans without aggregates in their expressions -/

namespace Plan

/-- No expression of the node calls an aggregate. If it groups, its input is a projection whose
fields are its columns one by one, and the arguments of its calls are columns that call none. -/
structure ScalarAt (n : Plan) : Prop where
  exprs : ∀ e ∈ n.op.exprs, e.AggregateFree
  arguments : ∀ keys calls, n.op = .aggregate keys calls → ∃ project columns,
    n.inputs = [project] ∧ project.op = .project columns ∧
    columns.map Column.name = project.schema.names.map some ∧
    ∀ call ∈ calls, ∀ i ∈ call.args, ∃ column,
      columns[i]? = some column ∧ column.expr.AggregateFree

/-- So it is with every node. -/
def ScalarThroughout (p : Plan) : Prop := ∀ n : Plan, n.IsNodeOf p → n.ScalarAt

variable {p q input : Plan} {op : Op} {tag : Option Nat} {schema : Schema} {model : Model}
  {columns : List Column}

theorem ScalarAt.throughout (h : p.ScalarAt)
    (hinputs : ∀ input ∈ p.inputs, input.ScalarThroughout) : p.ScalarThroughout := by
  intro n hn
  cases hn with
  | self => exact h
  | input hn hmem => exact hinputs _ hmem n hn

theorem scalarThroughout_of_exprs (hplain : p.op.isAggregate = false)
    (hexprs : ∀ e ∈ p.op.exprs, e.AggregateFree)
    (hinputs : ∀ input ∈ p.inputs, input.ScalarThroughout) : p.ScalarThroughout := by
  refine ScalarAt.throughout ⟨hexprs, ?_⟩ hinputs
  intro keys calls hop
  rw [hop] at hplain
  cases hplain

namespace ScalarThroughout

theorem inputs (h : p.ScalarThroughout) : ∀ input ∈ p.inputs, input.ScalarThroughout :=
  fun _ hinput n hn => h n (.input hn hinput)

theorem tagWith (h : p.ScalarThroughout) (n : Nat) : (p.tagWith n).ScalarThroughout := by
  obtain ⟨hexprs, harguments⟩ := h p (.self p)
  exact ScalarAt.throughout ⟨hexprs, harguments⟩ h.inputs

theorem reads (h : input.ScalarThroughout) (hplain : op.isAggregate = false)
    (hexprs : ∀ e ∈ op.exprs, e.AggregateFree) :
    ScalarThroughout ⟨tag, op, [input], schema, model⟩ :=
  scalarThroughout_of_exprs hplain hexprs (List.forall_mem_singleton.mpr h)

theorem projecting (h : input.ScalarThroughout) (hcolumns : ∀ c ∈ columns, c.expr.AggregateFree) :
    (input.projecting columns).ScalarThroughout := h.reads rfl (List.forall_mem_map.mpr hcolumns)

theorem modify {entity : Entity} {write : Write} {targets : List Binding}
    (h : input.ScalarThroughout) (htargets : ∀ t ∈ targets, t.expr.AggregateFree) :
    ScalarThroughout ⟨tag, .modify entity write targets, [input], schema, model⟩ :=
  h.reads rfl (List.forall_mem_map.mpr htargets)

theorem sorting (h : input.ScalarThroughout) (keys : List SortKey) (offset limit : Option Nat) :
    (input.sorting keys offset limit).ScalarThroughout := h.reads rfl (List.forall_mem_nil _)

theorem unwind {index : Nat} {asName : String} (h : input.ScalarThroughout)
    (hp : Plan.unwind input index asName = .ok p) : p.ScalarThroughout := by
  obtain ⟨ty, rfl⟩ := (yields_unwind input index asName).result hp
  exact h.reads rfl (List.forall_mem_nil _)

theorem toModel {target : Model} {operation : QueryKind} (h : p.ScalarThroughout)
    (hq : p.toModel target operation = .ok q) : q.ScalarThroughout := by
  unfold Plan.toModel at hq
  split at hq
  · cases hq
    exact h
  · obtain rfl := (yields_transform _ _ _).result hq
    exact h.reads rfl (List.forall_mem_nil _)

/-- A condition is lowered over the plan that it filters. -/
theorem restrictBy {condition : Option Expression} (h : p.ScalarThroughout)
    (hq : p.restrictBy condition = .ok q) : q.ScalarThroughout := by
  cases restrictedBy_of_restrictBy hq with
  | none => exact h
  | filtered hpredicate =>
      have hfree := Expression.aggregateFree_toExpr hpredicate
      exact h.reads rfl (List.forall_mem_singleton.mpr hfree)
  | @computed _ predicate columns _ hpredicate hcolumns =>
      have hfree : ∀ c ∈ columns, c.expr.AggregateFree := by
        rw [hcolumns]
        exact List.forall_mem_singleton.mpr (Expression.aggregateFree_toExpr hpredicate)
      have hcomputed := h.projecting hfree
      exact hcomputed.reads rfl (List.forall_mem_singleton.mpr (.ref 0 predicate.ty))

end ScalarThroughout

theorem scalarThroughout_scan (entity : Entity) :
    ScalarThroughout ⟨none, .scan entity, [], entity.schema, entity.model⟩ :=
  scalarThroughout_of_exprs rfl (List.forall_mem_nil _) (List.forall_mem_nil _)

theorem scalarThroughout_values {v : LiteralRows} (h : Plan.values v = .ok p) :
    p.ScalarThroughout := by
  obtain rfl := (yields_values v).result h
  exact scalarThroughout_of_exprs rfl (List.forall_mem_nil _) (List.forall_mem_nil _)

/-- Procedures take no arguments. -/
theorem scalarThroughout_call {c : ProcedureCall} (h : Plan.call c = .ok p) :
    p.ScalarThroughout := by
  obtain ⟨-, hnone⟩ := checked_call h
  obtain ⟨schema, rfl⟩ := (yields_call c).result h
  refine scalarThroughout_of_exprs rfl ?_ (List.forall_mem_nil _)
  rw [hnone]
  exact List.forall_mem_nil _

end Plan

/-! ## Projections -/

theorem aggregateFree_starColumns (s : Schema) : ∀ c ∈ starColumns s, c.expr.AggregateFree := by
  intro c hc
  obtain ⟨i, f, -, rfl⟩ := mem_starColumns hc
  exact .ref i f.ty

theorem Column.aggregateFree_again (columns : List Column) :
    ∀ c ∈ Column.again columns, c.expr.AggregateFree := by
  intro c hc
  obtain ⟨i, hi, rfl⟩ := List.mem_mapIdx.mp hc
  exact .ref i _

namespace Projection

variable {p : Projection} {input plan : Plan} {columns : List Column}

theorem aggregateFree_columns {scope : Schema} (h : p.columns scope = .ok columns) :
    ∀ c ∈ columns, c.expr.AggregateFree := by
  obtain ⟨items, hitems, h⟩ := bind_eq_ok.mp h
  cases h
  refine List.forall_mem_append.mpr ⟨aggregateFree_starColumns _, fun c hc => ?_⟩
  obtain ⟨item, -, hitem⟩ := exists_mem_of_forall₂ (itemColumns_eq_ok.mp hitems) hc
  exact Expression.aggregateFree_toExpr hitem.expr

theorem scalarThroughout_of_plain
    (hplain : p.items.any (·.expression.containsAggregate) = false)
    (hinput : input.ScalarThroughout) (h : p.toPlan input = .ok plan) : plan.ScalarThroughout := by
  cases hsorted : p.isSorted with
  | false =>
      obtain ⟨columns, hcolumns, rfl⟩ := toPlan_eq_projecting hplain hsorted h
      exact hinput.projecting (aggregateFree_columns hcolumns)
  | true =>
      obtain ⟨columns, hidden, hiddenNames, keys, offset, limit, hplan⟩ :=
        exists_sortedAs hplain hsorted h
      have hhidden : ∀ c ∈ hidden, c.expr.AggregateFree := by
        intro c hc
        obtain ⟨item, -, hitem⟩ := hplan.hides.becomes c hc
        exact Expression.aggregateFree_toExpr hitem.expr
      have hcolumns := aggregateFree_columns hplan.lowered
      have hrows := (hinput.projecting (List.forall_mem_append.mpr ⟨hcolumns, hhidden⟩)).sorting
        keys offset limit
      rw [hplan.shape]
      split
      · exact hrows
      · exact hrows.projecting (Column.aggregateFree_again columns)

/-- Groups find their arguments among the columns, all of which are lowered or repeat fields. -/
theorem GroupedAs.scalarThroughout {calls : List Aggregate}
    (h : p.GroupedAs input.schema columns calls) (hinput : input.ScalarThroughout) (width : Nat) :
    ((input.projecting columns).grouping width calls).ScalarThroughout := by
  have hcolumns : ∀ c ∈ columns, c.expr.AggregateFree := by
    intro c hc
    rcases h.computed c hc with hstar | ⟨e, he⟩
    · exact aggregateFree_starColumns _ c hstar
    · exact Expression.aggregateFree_toExpr he
  refine Plan.ScalarAt.throughout ⟨List.forall_mem_nil _, ?_⟩
    (List.forall_mem_singleton.mpr (hinput.projecting hcolumns))
  intro keys others hop
  cases hop
  obtain ⟨names, hnames⟩ := h.named
  refine ⟨input.projecting columns, columns, rfl, rfl, ?_, fun call hcall i hi => ?_⟩
  · have hfields : (input.projecting columns).schema.names = names := Column.names_fields hnames
    rw [hfields, hnames]
  · obtain ⟨item, -, hcalled⟩ := exists_mem_of_forall₂ h.calls hcall
    cases hcalled with
    | countStar _ => cases hi
    | @call _ _ _ _ _ column _ _ hcolumn harg =>
        obtain rfl := List.mem_singleton.mp hi
        exact ⟨column, hcolumn, Expression.aggregateFree_toExpr harg⟩

theorem scalarThroughout_toPlan (hinput : input.ScalarThroughout)
    (h : p.toPlan input = .ok plan) : plan.ScalarThroughout := by
  cases hgroups : p.items.any (·.expression.containsAggregate) with
  | false => exact scalarThroughout_of_plain hgroups hinput h
  | true =>
      obtain ⟨-, columns, calls, hgrouped, hplan⟩ := toPlan_eq_grouping hgroups h
      have hscalar := hgrouped.scalarThroughout hinput (p.keyWidth input.schema)
      rcases hplan with rfl | ⟨keys, offset, limit, rfl⟩
      · exact hscalar
      · exact hscalar.sorting keys offset limit

end Projection

/-! ## Matches -/

theorem PathOf.aggregateFree_bindings (paths : List Path) :
    ∀ b ∈ PathOf.bindings paths, b.expr.AggregateFree := by
  intro b hb
  obtain ⟨path, -, hb⟩ := List.mem_flatMap.mp hb
  obtain ⟨name, -, rfl⟩ := List.mem_map.mp hb
  refine .apply trivial (List.forall_mem_cons.mpr ⟨.ref 0 .graph, ?_⟩)
  exact List.forall_mem_cons.mpr ⟨.ofValue _, List.forall_mem_singleton.mpr (.ofValue _)⟩

namespace Plan.ScalarThroughout

variable {top p : Plan}

/-- What is bound already was bound by a match of the plan. -/
theorem matchBase {base : Plan} {bound : List Binding} (h : top.ScalarThroughout)
    (hbase : Drafting.matchBase top = .ok (base, bound)) :
    base.ScalarThroughout ∧ ∀ b ∈ bound, b.expr.AggregateFree := by
  have hexprs := (h top (.self top)).exprs
  unfold Drafting.matchBase at hbase
  split at hbase
  · next bindings hop =>
      split at hbase
      · next input rest hinputs =>
          cases hbase
          rw [hop] at hexprs
          exact ⟨h.inputs _ (by simp [hinputs]), List.forall_mem_map.mp hexprs⟩
      · cases hbase
  · split at hbase
    · cases hbase
      exact ⟨h, List.forall_mem_nil _⟩
    · cases hbase

theorem extendMatch {paths : List Path} (h : top.ScalarThroughout)
    (hp : top.extendMatch (PathOf.bindings paths) = .ok p) : p.ScalarThroughout := by
  obtain ⟨-, base, bound, hbase, hp⟩ := Plan.extendMatch_eq_ok.mp hp
  obtain ⟨hinput, hbound⟩ := h.matchBase hbase
  obtain rfl := (yields_patternMatch base _).result hp
  refine hinput.reads rfl (List.forall_mem_map.mpr fun b hb => ?_)
  rcases Binding.mem_of_mem_extend hb with hold | hnew
  · exact hbound b hold
  · exact PathOf.aggregateFree_bindings paths b hnew

end Plan.ScalarThroughout

/-! ## Writes -/

theorem aggregateFree_endpointExpr (scope : Schema) (key : String) :
    (endpointExpr scope key).AggregateFree := by
  unfold endpointExpr
  split
  · exact .ref _ _
  · exact .ofValue _

theorem aggregateFree_newElements {scope : Schema} {nodes : List (String × Node)}
    {edges : List BoundEdge} {columns : List Column}
    (h : newElements scope nodes edges = .ok columns) : ∀ c ∈ columns, c.expr.AggregateFree := by
  obtain ⟨edgeColumns, hedgeColumns, h⟩ := bind_eq_ok.mp h
  cases h
  obtain ⟨-, -, hcalls⟩ := newEdges_creates hedgeColumns
  intro c hc
  rcases List.mem_append.mp hc with hnode | hedge
  · obtain ⟨node, hexpr⟩ := mem_newNodes c hnode
    rw [hexpr]
    exact .ofValue _
  · obtain ⟨bound, -, ty, hexpr⟩ := hcalls c hedge
    have hleft := aggregateFree_endpointExpr scope bound.left
    have hright := aggregateFree_endpointExpr scope bound.right
    rw [hexpr]
    refine .apply trivial (List.forall_mem_cons.mpr ⟨.ofValue _, ?_⟩)
    exact List.forall_mem_cons.mpr ⟨hleft, List.forall_mem_singleton.mpr hright⟩

namespace UpdateItem

variable {scope : Schema} {item : UpdateItem} {items : List UpdateItem} {target start e : Expr}

theorem Wraps.aggregateFree (h : item.Wraps scope target e) (htarget : target.AggregateFree) :
    e.AggregateFree := by
  have hpair (v : Value) : ∀ o ∈ [target, .ofValue v], o.AggregateFree :=
    List.forall_mem_cons.mpr ⟨htarget, List.forall_mem_singleton.mpr (.ofValue v)⟩
  cases h with
  | setProperty hv =>
      have hvalue := Expression.aggregateFree_toExpr hv
      refine .apply trivial (List.forall_mem_cons.mpr ⟨htarget, ?_⟩)
      exact List.forall_mem_cons.mpr ⟨.ofValue _, List.forall_mem_singleton.mpr hvalue⟩
  | replaceProperties hv | mergeProperties hv =>
      have hvalue := Expression.aggregateFree_toExpr hv
      refine .apply trivial (List.forall_mem_cons.mpr ⟨htarget, ?_⟩)
      exact List.forall_mem_cons.mpr ⟨hvalue, List.forall_mem_singleton.mpr (.ofValue _)⟩
  | setLabels _ => exact .apply trivial (hpair _)
  | removeProperty => exact .apply trivial (hpair _)
  | removeLabels => exact .apply trivial (hpair _)

theorem Folds.aggregateFree (h : Folds scope start items e) (hstart : start.AggregateFree) :
    e.AggregateFree := by
  induction h with
  | nil => exact hstart
  | snoc _ hwraps ih => exact hwraps.aggregateFree ih

end UpdateItem

theorem UpdatesOf.aggregateFree {scope : Schema} {items : List UpdateItem}
    {targets : List Binding} (h : UpdatesOf scope items targets) :
    ∀ t ∈ targets, t.expr.AggregateFree := by
  intro t ht
  obtain ⟨i, f, -, hfolds⟩ := h.made t ht
  exact hfolds.aggregateFree (.ref i f.ty)

/-- What is queued for deletion are the fields of variables. -/
theorem queueDeletes_eq_ok {scope : Schema} {names : List String}
    {queue : List (Option String × Expr)} (targets : List Binding)
    (htargets : ∀ t ∈ targets, scope.lookup t.name = .ok t.expr)
    (h : queueDeletes scope (targets.map Binding.queued) names = .ok queue) :
    ∃ all : List Binding, queue = all.map Binding.queued ∧
      ∀ t ∈ all, scope.lookup t.name = .ok t.expr := by
  induction names generalizing targets with
  | nil =>
      cases h
      exact ⟨targets, rfl, htargets⟩
  | cons name names ih =>
      obtain ⟨target, htarget, h⟩ := bind_eq_ok.mp h
      obtain ⟨_, -, h⟩ := bind_eq_ok.mp h
      split at h
      · exact ih targets htargets h
      · have hqueue : (targets ++ [(⟨name, target⟩ : Binding)]).map Binding.queued =
            targets.map Binding.queued ++ [(some name, target)] := by
          rw [List.map_append]
          rfl
        rw [← hqueue] at h
        refine ih _ (List.forall_mem_append.mpr ⟨htargets, ?_⟩) h
        exact List.forall_mem_singleton.mpr htarget

/-! ## Steps -/

/-- No expression of the plan so far calls an aggregate. -/
def TopScalar (top : Option Plan) : Prop := ∀ p ∈ top, p.ScalarThroughout

section Steps

variable {catalog : Catalog} {source : GraphSource} {home : NamespaceId} {top : Option Plan}
  {n m : Nat} {p : Plan}

theorem GraphSource.scalarThroughout_inputOr (htop : TopScalar top)
    (h : source.inputOr catalog top = .ok p) : p.ScalarThroughout := by
  cases top with
  | some q =>
      cases h
      exact htop p rfl
  | none =>
      cases source with
      | entity graph =>
          obtain rfl := (Plan.yields_scan graph).result h
          exact Plan.scalarThroughout_scan graph
      | substitution home labels =>
          obtain ⟨info, -, -, rfl⟩ := (Plan.yields_substitutionScan catalog home labels).result h
          refine Plan.scalarThroughout_of_exprs rfl (List.forall_mem_nil _) ?_
          exact List.forall_mem_map.mpr fun entity _ => Plan.scalarThroughout_scan entity

theorem MatchClause.scalarThroughout_step {c : MatchClause} (htop : TopScalar top)
    (h : c.step catalog source top n = .ok (p, m)) : p.ScalarThroughout := by
  obtain ⟨-, paths, input, made, -, hinput, hmade, hp⟩ := MatchClause.step_eq_ok.mp h
  have hscalar := GraphSource.scalarThroughout_inputOr htop hinput
  exact (hscalar.extendMatch hmade).restrictBy hp

theorem CreateClause.scalarThroughout_step {c : CreateClause} (htop : TopScalar top)
    (h : c.step source top n = .ok (p, m)) : p.ScalarThroughout := by
  obtain ⟨⟨created, k⟩, -, h⟩ := bind_eq_ok.mp h
  obtain ⟨p, hp, h⟩ := bind_eq_ok.mp h
  cases h
  obtain ⟨entity, input, hinput, hop, hinputs⟩ := GraphSource.insert_eq_ok hp
  have hscalar : input.ScalarThroughout := by
    cases top with
    | none =>
        rw [insertInput] at hinput
        exact Plan.scalarThroughout_values hinput
    | some q =>
        obtain ⟨columns, hcolumns, hinput⟩ := bind_eq_ok.mp hinput
        obtain rfl := (Plan.yields_projectColumns q columns).result hinput
        exact (htop q rfl).projecting (aggregateFree_newElements hcolumns)
  refine Plan.scalarThroughout_of_exprs ?_ ?_ ?_
  · rw [hop]
    rfl
  · rw [hop]
    exact List.forall_mem_nil _
  · rw [hinputs]
    exact List.forall_mem_singleton.mpr hscalar

theorem UnwindClause.scalarThroughout_step {c : UnwindClause} (htop : TopScalar top)
    (h : c.step top = .ok p) : p.ScalarThroughout := by
  cases top with
  | none =>
      dsimp only [UnwindClause.step, UnwindClause.standalone] at h
      split at h
      · cases h
      · obtain ⟨rows, hrows, h⟩ := bind_eq_ok.mp h
        exact (Plan.scalarThroughout_values hrows).unwind h
  | some q =>
      obtain ⟨lowered, hlowered, h⟩ := bind_eq_ok.mp h
      obtain ⟨e, he, h⟩ := bind_eq_ok.mp h
      have hfree : e.AggregateFree := by
        have hlowered := Expression.aggregateFree_toExpr hlowered
        unfold Expr.asList at he
        split at he
        · cases he
          exact hlowered
        · exact .call he trivial (List.forall_mem_singleton.mpr hlowered)
      split at h
      · exact (htop q rfl).unwind h
      · obtain ⟨project, hproject, h⟩ := bind_eq_ok.mp h
        obtain rfl := (Plan.yields_projectColumns _ _).result hproject
        have hcolumns : ∀ c' ∈ starColumns q.schema ++ [(⟨some c.asName, e⟩ : Column)],
            c'.expr.AggregateFree :=
          List.forall_mem_append.mpr
            ⟨aggregateFree_starColumns _, List.forall_mem_singleton.mpr hfree⟩
        exact ((htop q rfl).projecting hcolumns).unwind h

theorem CallClause.scalarThroughout_step {c : CallClause} (h : c.step home top = .ok p) :
    p.ScalarThroughout := by
  cases top with
  | none =>
      obtain ⟨arguments, -, h⟩ := bind_eq_ok.mp h
      exact Plan.scalarThroughout_call h
  | some q => cases h

/-- **A step puts no aggregate into an expression.** -/
theorem Clause.topScalar_step {c : Clause} {r : Option Plan × Nat} (htop : TopScalar top)
    (h : c.step catalog source home top n = .ok r) : TopScalar r.1 := by
  intro p hp
  -- `SET` and `REMOVE` have one description between them; the other clauses are taken one by one.
  by_cases hupdate : c.write? = some .update
  · obtain ⟨entity, input, targets, rfl, hupdates, rfl⟩ := Clause.step_update hupdate h
    cases hp
    exact (htop input rfl).modify hupdates.aggregateFree
  cases c with
  | matching c =>
      obtain ⟨⟨q, k⟩, hstep, h⟩ := bind_eq_ok.mp h
      cases h
      cases hp
      exact c.scalarThroughout_step htop hstep
  | passing w =>
      obtain ⟨input, hinput, h⟩ := bind_eq_ok.mp h
      obtain ⟨projected, hprojected, h⟩ := bind_eq_ok.mp h
      obtain ⟨q, hq, h⟩ := bind_eq_ok.mp h
      cases h
      cases hp
      have hscalar := GraphSource.scalarThroughout_inputOr htop hinput
      exact (Projection.scalarThroughout_toPlan hscalar hprojected).restrictBy hq
  | returning r =>
      obtain ⟨input, hinput, h⟩ := bind_eq_ok.mp h
      obtain ⟨q, hq, h⟩ := bind_eq_ok.mp h
      cases h
      cases hp
      have hscalar := GraphSource.scalarThroughout_inputOr htop hinput
      exact Projection.scalarThroughout_toPlan hscalar hq
  | creating create =>
      obtain ⟨⟨q, k⟩, hstep, h⟩ := bind_eq_ok.mp h
      cases h
      cases hp
      exact create.scalarThroughout_step htop hstep
  | setting _ | removing _ => exact absurd rfl hupdate
  | deleting delete =>
      obtain ⟨queue, hqueue, h⟩ := bind_eq_ok.mp h
      obtain ⟨q, hq, h⟩ := bind_eq_ok.mp h
      cases h
      cases hp
      obtain ⟨targets, rfl, htargets⟩ :=
        queueDeletes_eq_ok [] (List.forall_mem_nil _) hqueue
      obtain ⟨entity, input, -, rfl, rfl⟩ := GraphSource.write_eq_ok hq
      exact (htop input rfl).modify fun t ht => Schema.aggregateFree_lookup (htargets t ht)
  | unwinding u =>
      obtain ⟨q, hq, h⟩ := bind_eq_ok.mp h
      cases h
      cases hp
      exact u.scalarThroughout_step htop hq
  | calling call =>
      obtain ⟨q, hq, h⟩ := bind_eq_ok.mp h
      cases h
      cases hp
      exact call.scalarThroughout_step hq
  | onGraph _ =>
      cases h
      exact htop p hp
  | merging _ | repeating _ _ _ _ | loading _ => cases h

/-- **Nor does a run of clauses.** -/
theorem Clause.topScalar_steps {index : Nat} {cs : List Clause} {r : Option Plan × Nat}
    (htop : TopScalar top) (h : Clause.steps catalog source home index top n cs = .ok r) :
    TopScalar r.1 := by
  induction cs generalizing index top n with
  | nil =>
      cases h
      exact htop
  | cons c cs ih =>
      obtain ⟨mid, k, hstep, h⟩ := Clause.steps_cons_eq_ok h
      exact ih (Clause.topScalar_step htop hstep) h

end Steps

theorem Query.scalarThroughout_toPlan {query : Query} {catalog : Catalog} {home : NamespaceId}
    {allow : Bool} {root : Plan} {kind : QueryKind}
    (h : query.toPlan catalog home allow = .ok (root, kind)) : root.ScalarThroughout := by
  cases query with
  | single q =>
      obtain ⟨source, n, -, hsteps, -⟩ := SingleQuery.toPlan_eq_ok h
      have hnone : TopScalar none := nofun
      exact Clause.topScalar_steps hnone hsteps root rfl
  | union _ _ => cases h
  | periodicCommit _ _ => cases h

/-! ## Compilers -/

namespace Compiler

variable {catalog : Catalog} {settings : Settings} {c : Compiler}

theorem InUse.scalarThroughout {query : Query} {compiled : Compiled}
    (hc : InUse catalog settings c) (h : (c.compile query).1 = .ok compiled) :
    compiled.root.ScalarThroughout := by
  refine hc.holds_of_compiled ?_ h
  intro query root p kind n hplan hp
  exact ((Query.scalarThroughout_toPlan hplan).toModel (toModel_of_deliver hp)).tagWith n

/-- **Aggregates never become scalar expressions.** The search for aggregates finds exactly those
expressions that have one somewhere, and over no scope can one of these be lowered. A function has
the name of an aggregate exactly if the name can be read as that of an aggregate function. And
whatever a compiler has been asked before, no node of a plan that it answers with has an expression
that calls a function under such a name; a node that groups has a projection below it, and the
arguments of its aggregates are columns of this projection, which call no such function either. -/
theorem aggregates_stay_out_of_expressions :
    (∀ e : Expression, (e.containsAggregate = true ↔ e.HasAggregate) ∧
      (e.containsAggregate = true → ∀ scope, ∃ error, e.toExpr scope = .error error)) ∧
    (∀ name, isAggregateName name = true ↔ ∃ f, AggregateFunction.ofName? name = some f) ∧
    ∀ (catalog : Catalog) (settings : Settings) (c : Compiler) (query : Query)
      (compiled : Compiled), InUse catalog settings c → (c.compile query).1 = .ok compiled →
      ∀ n : Plan, n.IsNodeOf compiled.root → n.ScalarAt := by
  refine ⟨fun e => ⟨Expression.containsAggregate_iff, fun h scope => ?_⟩, fun name => ?_, ?_⟩
  · exact Expression.toExpr_of_containsAggregate h
  · rw [isAggregateName_eq_isSome, Option.isSome_iff_exists]
  · intro catalog settings c query compiled hc h
    exact hc.scalarThroughout h

/-- `MATCH (p:Person) RETURN toUpper(p.name) AS name, MAX(size(p.name)) AS longest,
count(*) AS total` -/
def longestNames : Query :=
  .single ⟨[.matching ⟨false, [.node ⟨some "p", ["Person"], [], none⟩], none, none⟩,
    .returning ⟨⟨false, false,
      [⟨.call "toUpper" [.property "p" "name"] false, some "name", none⟩,
        ⟨.call "MAX" [.call "size" [.property "p" "name"] false] false, some "longest", none⟩,
        ⟨.countStar, some "total", none⟩], [], none, none⟩, none⟩], none⟩

/-- Asked a second time, a compiler answers with groups whose argument is computed below them. In
`CASE count(*) WHEN 1 THEN 'one' END` the search finds the input, and lowering refuses it. -/
theorem longestNames_groups_over_columns :
    ∃ c compiled, InUse registry .default c ∧ (c.compile longestNames).1 = .ok compiled ∧
      compiled.root.fingerprint =
        "Aggregate[GRAPH](keys=[0], calls=[MAX($1) AS longest, COUNT(*) AS total])" ++
        "[Project[GRAPH](\"name\"=toupper(EXTRACT_PROPERTY($0, \"name\")), " ++
        "\"EXPR$0\"=size(EXTRACT_PROPERTY($0, \"name\")))" ++
        "[Match[GRAPH](p=PATTERN_MATCH($0, <(p:Person)>, \"p\"))" ++
        "[Transform[GRAPH](DOCUMENT->GRAPH, SELECT, order=[node], names=[\"Person\"])" ++
        "[graph: graph][Scan[DOCUMENT](e1:Person)]]]]" ∧
      (∀ n : Plan, n.IsNodeOf compiled.root → n.ScalarAt) ∧
      isAggregateName "MAX" = true ∧
      ∃ error, (Expression.case (some .countStar)
        [(.literal (.integer 1), .literal (.string "one"))] none).toExpr [] = .error error := by
  let asked := ((new registry .default).compile longestNames).2
  have hinUse : InUse registry .default asked := .compile longestNames .new
  have hrun : (asked.compile longestNames).1.toOption.map
      (fun compiled => compiled.root.fingerprint) = some
        ("Aggregate[GRAPH](keys=[0], calls=[MAX($1) AS longest, COUNT(*) AS total])" ++
        "[Project[GRAPH](\"name\"=toupper(EXTRACT_PROPERTY($0, \"name\")), " ++
        "\"EXPR$0\"=size(EXTRACT_PROPERTY($0, \"name\")))" ++
        "[Match[GRAPH](p=PATTERN_MATCH($0, <(p:Person)>, \"p\"))" ++
        "[Transform[GRAPH](DOCUMENT->GRAPH, SELECT, order=[node], names=[\"Person\"])" ++
        "[graph: graph][Scan[DOCUMENT](e1:Person)]]]]") := by
    decide +kernel
  obtain ⟨compiled, h, htext⟩ := toOption_map_eq_some.mp hrun
  obtain ⟨hsearch, hnames, hplans⟩ := aggregates_stay_out_of_expressions
  have hname : isAggregateName "MAX" = true := (hnames "MAX").mpr ⟨.max, by decide +kernel⟩
  have hrefused := (hsearch (.case (some .countStar)
    [(.literal (.integer 1), .literal (.string "one"))] none)).2 rfl []
  exact ⟨asked, compiled, hinUse, h, htext,
    hplans registry .default asked longestNames compiled hinUse h, hname, hrefused⟩

end Compiler

end QueryPlan
