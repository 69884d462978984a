import QueryPlan.Proofs.Lowering.Projection
import QueryPlan.Proofs.Lowering.Steps
import QueryPlan.Proofs.Plan.WellFormed

/-!
# The data models of what lowering makes

`Plan.InGraph` is the shape of the plans that lowering makes. It is a chain of operators in the
graph model that do not change the model, down to a leaf in the graph model or to a graph made up
from the entities of a namespace. The latter is the one place below the root where the model
changes. A clause puts at least one operator on what it starts from, so the made-up graph is never
left on its own.
-/

namespace QueryPlan

namespace Plan

/-- A graph made up from entities of a namespace that has none: a change of model to the graph right
above scans of such entities. -/
structure StandsIn (catalog : Catalog) (home : NamespaceId) (p : Plan) : Prop where
  noGraph : catalog.graph? home = none
  model : p.model = .graph
  inputs_ne : p.inputs ≠ []
  isConversion : ∃ c, p.op = .transform c ∧ c.target = .graph ∧
    ∀ i ∈ p.inputs, i.inputs = [] ∧ i.model = c.source ∧
      ∃ entity ∈ catalog.entitiesOf home, i.op = .scan entity

/-- A plan in the graph model, with no change of model but that of a graph that is made up. -/
inductive InGraph (catalog : Catalog) (home : NamespaceId) : Plan → Prop
  | leaf {tag : Option Nat} {op : Op} {schema : Schema} :
      op.isTransform = false → InGraph catalog home ⟨tag, op, [], schema, .graph⟩
  | reads {tag : Option Nat} {op : Op} {input : Plan} {schema : Schema} :
      op.isTransform = false → InGraph catalog home input →
      InGraph catalog home ⟨tag, op, [input], schema, .graph⟩
  | madeUp {p : Plan} : p.StandsIn catalog home → InGraph catalog home p

variable {catalog : Catalog} {home : NamespaceId} {base p : Plan}

theorem InGraph.model (h : p.InGraph catalog home) : p.model = .graph := by
  cases h with
  | leaf _ => rfl
  | reads _ _ => rfl
  | madeUp h => exact h.model

theorem InGraph.tagWith (h : p.InGraph catalog home) (n : Nat) :
    (p.tagWith n).InGraph catalog home := by
  cases h with
  | leaf hop => exact .leaf hop
  | reads hop hinput => exact .reads hop hinput
  | madeUp h => exact .madeUp ⟨h.noGraph, h.model, h.inputs_ne, h.isConversion⟩

/-- A node with one input is in the graph model if its input is. -/
theorem InGraph.rebuild {op : Op} {schema : Schema} (h : base.InGraph catalog home)
    (hop : op.isTransform = false) (hnode : Plan.rebuild op [base] schema = .ok p) :
    p.InGraph catalog home := by
  have hmodel := (checked_of_rebuild hnode).model
  obtain ⟨s, m, rfl, -⟩ := (yields_rebuild op [base] schema).result hnode
  obtain rfl : Model.graph = m := h.model.symm.trans (hmodel hop base List.mem_cons_self)
  exact .reads hop h

theorem ReadBy.inGraph (h : base.ReadBy p) (hbase : base.InGraph catalog home) :
    p.InGraph catalog home := by
  induction h with
  | self => exact hbase
  | read op _ _ hop hnode ih => exact ih.rebuild hop hnode

/-- What a match reads is in the graph model if the match is. -/
theorem InGraph.belowMatch {bindings : List Binding} (h : p.InGraph catalog home)
    (hop : p.op = .bind bindings) (hinputs : p.inputs = [base]) : base.InGraph catalog home := by
  cases h with
  | leaf _ => cases hinputs
  | reads _ hinput =>
      cases hinputs
      exact hinput
  | madeUp h =>
      obtain ⟨c, hc, -⟩ := h.isConversion
      rw [hop] at hc
      cases hc

/-- A change of model in such a plan makes up a graph. -/
theorem InGraph.standsIn {c : Conversion} (h : p.InGraph catalog home)
    (hop : p.op = .transform c) : p.StandsIn catalog home := by
  cases h with
  | leaf hplain =>
      cases hop
      cases hplain
  | reads hplain _ =>
      cases hop
      cases hplain
  | madeUp h => exact h

/-- Any other node of such a plan has one input at most. -/
theorem InGraph.length_inputs (h : p.InGraph catalog home) (hop : p.op.isTransform = false) :
    p.inputs.length ≤ 1 := by
  cases h with
  | leaf _ => exact Nat.zero_le 1
  | reads _ _ => exact Nat.le_refl 1
  | madeUp h =>
      obtain ⟨c, hc, -⟩ := h.isConversion
      rw [hc] at hop
      cases hop

/-- A node of such a plan is itself such a plan, or a scan right below a graph that is made up. -/
theorem InGraph.isNodeOf {n : Plan} (h : p.InGraph catalog home) (hn : n.IsNodeOf p) :
    n.InGraph catalog home ∨ ∃ t : Plan, t.IsNodeOf p ∧ t.StandsIn catalog home ∧ n ∈ t.inputs := by
  induction hn with
  | self => exact Or.inl h
  | @input p q hnode hmem ih =>
      cases h with
      | leaf _ => cases hmem
      | reads _ hinput =>
          obtain rfl := List.mem_singleton.mp hmem
          rcases ih hinput with hn | ⟨t, ht, hstands, hn⟩
          · exact Or.inl hn
          · exact Or.inr ⟨t, .input ht hmem, hstands, hn⟩
      | madeUp h =>
          obtain ⟨c, -, -, hscans⟩ := h.isConversion
          obtain ⟨hleaf, -⟩ := hscans p hmem
          cases hnode with
          | self => exact Or.inr ⟨q, .self q, h, hmem⟩
          | input _ hbelow =>
              rw [hleaf] at hbelow
              cases hbelow

/-- A change of model anywhere in such a plan makes up a graph. -/
theorem InGraph.standsIn_of_isNodeOf {n : Plan} {c : Conversion} (h : p.InGraph catalog home)
    (hn : n.IsNodeOf p) (hop : n.op = .transform c) : n.StandsIn catalog home := by
  rcases h.isNodeOf hn with hgraph | ⟨t, -, hstands, hmem⟩
  · exact hgraph.standsIn hop
  · -- The other nodes are scans, which change no model.
    obtain ⟨d, -, -, hscans⟩ := hstands.isConversion
    obtain ⟨-, -, entity, -, hscan⟩ := hscans n hmem
    rw [hop] at hscan
    cases hscan

/-- Every other node of such a plan is in the graph model and reads one plan at most, but for the
scans right below a graph that is made up. -/
theorem InGraph.model_of_isNodeOf {n : Plan} (h : p.InGraph catalog home) (hn : n.IsNodeOf p)
    (hop : n.op.isTransform = false) : (n.model = .graph ∧ n.inputs.length ≤ 1) ∨
      ∃ t : Plan, t.IsNodeOf p ∧ t.StandsIn catalog home ∧ n ∈ t.inputs := by
  rcases h.isNodeOf hn with hgraph | hscan
  · exact Or.inl ⟨hgraph.model, hgraph.length_inputs hop⟩
  · exact Or.inr hscan

end Plan

/-! ## Sources -/

namespace GraphSource

variable {catalog : Catalog} {home : NamespaceId} {allow : Bool} {labels : List String}
  {source : GraphSource}

/-- What a query reads: the graph of the namespace, or one made up because there is none. -/
theorem resolve_eq_ok (h : resolve catalog home allow labels = .ok source) :
    (∃ graph, catalog.graph? home = some graph ∧ source = .entity graph) ∨
      (catalog.graph? home = none ∧ source = .substitution home labels) := by
  unfold resolve at h
  split at h
  · next graph hgraph =>
      cases h
      exact Or.inl ⟨graph, hgraph, rfl⟩
  · next hnone =>
      split at h
      · cases h
        exact Or.inr ⟨hnone, rfl⟩
      · cases h

end GraphSource

theorem Catalog.model_of_graph? {catalog : Catalog} {home : NamespaceId} {graph : Entity}
    (h : catalog.graph? home = some graph) : graph.model = .graph := by
  have hgraph := List.find?_some h
  simp only [Bool.and_eq_true, decide_eq_true_eq] at hgraph
  exact hgraph.2

namespace Plan

variable {catalog : Catalog} {home : NamespaceId} {labels : List String} {p : Plan}

theorem standsIn_substitutionScan (hnone : catalog.graph? home = none)
    (h : substitutionScan catalog home labels = .ok p) : p.StandsIn catalog home := by
  have hagain := (Reachable.substitutionScan h).wellBuilt.again
  obtain ⟨info, -, hne, rfl⟩ := (yields_substitutionScan _ _ _).result h
  obtain ⟨-, hmodels⟩ := (checked_of_rebuild hagain).conversion _ rfl
  refine ⟨hnone, rfl, ?_, _, rfl, rfl, ?_⟩
  · simpa [madeUpGraph] using hne
  · intro i hi
    have hmodel := hmodels i hi
    obtain ⟨entity, hentity, rfl⟩ := List.mem_map.mp hi
    exact ⟨rfl, hmodel, entity, List.mem_of_mem_filter hentity, rfl⟩

end Plan

section Steps

variable {catalog : Catalog} {home : NamespaceId} {allow : Bool} {labels : List String}
  {source : GraphSource} {top : Option Plan}

theorem GraphSource.inGraph_scan {p : Plan}
    (hsource : GraphSource.resolve catalog home allow labels = .ok source)
    (h : source.scan catalog = .ok p) : p.InGraph catalog home := by
  rcases GraphSource.resolve_eq_ok hsource with ⟨graph, hgraph, rfl⟩ | ⟨hnone, rfl⟩
  · obtain rfl := (Plan.yields_scan graph).result h
    rw [Catalog.model_of_graph? hgraph]
    exact .leaf rfl
  · exact .madeUp (Plan.standsIn_substitutionScan hnone h)

/-! ## Steps -/

/-- The plan so far, if there is one, is in the graph model. -/
def TopInGraph (catalog : Catalog) (home : NamespaceId) (top : Option Plan) : Prop :=
  ∀ p ∈ top, p.InGraph catalog home

theorem StartsFrom.inGraph {p : Plan}
    (hsource : GraphSource.resolve catalog home allow labels = .ok source)
    (h : StartsFrom catalog source top p) (htop : TopInGraph catalog home top) :
    p.InGraph catalog home := by
  induction h with
  | top p => exact htop p rfl
  | scan hp => exact GraphSource.inGraph_scan hsource hp
  | values hp =>
      obtain rfl := (Plan.yields_values _).result hp
      exact .leaf rfl
  | call hp =>
      obtain ⟨schema, rfl⟩ := (Plan.yields_call _).result hp
      exact .leaf rfl
  | belowMatch _ hop hinputs ih => exact (ih htop).belowMatch hop hinputs

theorem ReadsFrom.inGraph {p : Plan}
    (hsource : GraphSource.resolve catalog home allow labels = .ok source)
    (h : ReadsFrom catalog source top p) (htop : TopInGraph catalog home top) :
    p.InGraph catalog home := by
  obtain ⟨base, hbase, hread⟩ := h
  exact hread.inGraph (hbase.inGraph hsource htop)

/-- **A step stays in the graph model.** -/
theorem Clause.Makes.inGraph {c : Clause} {r : Option Plan}
    (hsource : GraphSource.resolve catalog home allow labels = .ok source)
    (h : c.Makes catalog source top r) (htop : TopInGraph catalog home top) :
    TopInGraph catalog home r := by
  intro p hp
  cases h with
  | read _ _ hread =>
      cases hp
      exact hread.inGraph hsource htop
  | write _ _ hread hnode =>
      cases hp
      exact (hread.inGraph hsource htop).rebuild rfl hnode
  | skip _ => exact htop p hp

end Steps

/-! ## The operator on top -/

namespace Plan

/-- The operator on top does not change the model. -/
def IsPlain (p : Plan) : Prop := p.op.isTransform = false

theorem isPlain_extendMatch {top p : Plan} {calls : List Binding}
    (h : top.extendMatch calls = .ok p) : p.IsPlain := by
  obtain ⟨-, -, h⟩ := bind_eq_ok.mp h
  obtain ⟨⟨input, bound⟩, -, h⟩ := bind_eq_ok.mp h
  rw [(yields_patternMatch input (Binding.extend bound calls)).result h]
  rfl

theorem isPlain_restrictBy {p q : Plan} {condition : Option Expression} (hp : p.IsPlain)
    (h : p.restrictBy condition = .ok q) : q.IsPlain := by
  cases restrictedBy_of_restrictBy h with
  | none => exact hp
  | filtered _ => rfl
  | computed _ _ _ => rfl

end Plan

namespace Projection

variable {p : Projection} {input q : Plan}

theorem isPlain_sort (h : p.sort input = .ok q) : q.IsPlain := by
  obtain ⟨keys, offset, limit, -, -, -, rfl⟩ := sort_eq_sorting h
  rfl

theorem isPlain_group (h : p.group input = .ok q) : q.IsPlain := by
  obtain ⟨⟨itemKeys, items⟩, -, h⟩ := bind_eq_ok.mp h
  obtain ⟨⟨columns, calls⟩, -, h⟩ := bind_eq_ok.mp h
  obtain ⟨project, -, h⟩ := bind_eq_ok.mp h
  rw [(Plan.yields_aggregate _ _ _).result h]
  rfl

theorem isPlain_sortGroups (hinput : input.IsPlain) (h : p.sortGroups input = .ok q) :
    q.IsPlain := by
  unfold sortGroups at h
  split at h
  · split at h
    · cases h
    · exact isPlain_sort h
  · cases h
    exact hinput

theorem isPlain_toPlan (h : p.toPlan input = .ok q) : q.IsPlain := by
  obtain ⟨-, -, h⟩ := bind_eq_ok.mp h
  obtain ⟨-, -, h⟩ := bind_eq_ok.mp h
  split at h
  · obtain ⟨groups, hgroups, h⟩ := bind_eq_ok.mp h
    exact isPlain_sortGroups (isPlain_group hgroups) h
  · obtain ⟨columns, -, h⟩ := bind_eq_ok.mp h
    split at h
    · obtain ⟨hidden, -, h⟩ := bind_eq_ok.mp h
      obtain ⟨project, -, h⟩ := bind_eq_ok.mp h
      obtain ⟨sorted, hsorted, h⟩ := bind_eq_ok.mp h
      split at h
      · cases h
        exact isPlain_sort hsorted
      · rw [(Plan.yields_projectColumns _ _).result h]
        rfl
    · rw [(Plan.yields_projectColumns _ _).result h]
      rfl

end Projection

theorem UnwindClause.isPlain_step {c : UnwindClause} {top : Option Plan} {p : Plan}
    (h : c.step top = .ok p) : p.IsPlain := by
  cases top with
  | none =>
      dsimp only [UnwindClause.step, UnwindClause.standalone] at h
      split at h
      · cases h
      · obtain ⟨rows, -, h⟩ := bind_eq_ok.mp h
        obtain ⟨ty, rfl⟩ := (Plan.yields_unwind _ _ _).result h
        rfl
  | some q =>
      obtain ⟨e, -, h⟩ := bind_eq_ok.mp h
      obtain ⟨list, -, h⟩ := bind_eq_ok.mp h
      split at h
      · obtain ⟨ty, rfl⟩ := (Plan.yields_unwind _ _ _).result h
        rfl
      · obtain ⟨project, -, h⟩ := bind_eq_ok.mp h
        obtain ⟨ty, rfl⟩ := (Plan.yields_unwind _ _ _).result h
        rfl

theorem CallClause.isPlain_step {home : NamespaceId} {c : CallClause} {top : Option Plan} {p : Plan}
    (h : c.step home top = .ok p) : p.IsPlain := by
  cases top with
  | none =>
      obtain ⟨arguments, -, h⟩ := bind_eq_ok.mp h
      obtain ⟨schema, rfl⟩ := (Plan.yields_call _).result h
      rfl
  | some q => cases h

section Steps

variable {catalog : Catalog} {source : GraphSource} {home : NamespaceId} {top : Option Plan}

/-- The plan so far, if there is one, has an operator on top that does not change the model. -/
def TopPlain (top : Option Plan) : Prop := ∀ p ∈ top, p.IsPlain

/-- What a clause that writes makes has the write on top. -/
theorem Clause.Makes.isPlain_of_write {c : Clause} {w : Write} {r : Option Plan}
    (h : c.Makes catalog source top r) (hw : c.write? = some w) : TopPlain r := by
  intro p hp
  cases h with
  | read hread _ _ =>
      rw [hw] at hread
      cases hread
  | write _ _ _ hnode =>
      cases hp
      obtain ⟨s, m, rfl, -⟩ := (Plan.yields_rebuild _ _ _).result hnode
      rfl
  | skip huse =>
      cases c with
      | onGraph _ => cases hw
      | _ => cases huse

/-- **Every clause leaves an operator on top that does not change the model**, if the clauses before
it do. -/
theorem Clause.step_topPlain {c : Clause} {n : Nat} {r : Option Plan × Nat}
    (hreach : TopReachable top) (htop : TopPlain top)
    (h : c.step catalog source home top n = .ok r) : TopPlain r.1 := by
  have hmakes := (c.yields_step catalog source home hreach n).result h
  intro p hp
  cases c with
  | matching m =>
      obtain ⟨⟨q, k⟩, hstep, h⟩ := bind_eq_ok.mp h
      cases h
      cases hp
      obtain ⟨-, -, hstep⟩ := bind_eq_ok.mp hstep
      obtain ⟨⟨calls, j⟩, -, hstep⟩ := bind_eq_ok.mp hstep
      obtain ⟨input, -, hstep⟩ := bind_eq_ok.mp hstep
      obtain ⟨matched, hmatched, hstep⟩ := bind_eq_ok.mp hstep
      obtain ⟨restricted, hrestricted, hstep⟩ := bind_eq_ok.mp hstep
      cases hstep
      exact Plan.isPlain_restrictBy (Plan.isPlain_extendMatch hmatched) hrestricted
  | passing w =>
      obtain ⟨input, -, h⟩ := bind_eq_ok.mp h
      obtain ⟨projected, hprojected, h⟩ := bind_eq_ok.mp h
      obtain ⟨restricted, hrestricted, h⟩ := bind_eq_ok.mp h
      cases h
      cases hp
      exact Plan.isPlain_restrictBy (Projection.isPlain_toPlan hprojected) hrestricted
  | returning clause =>
      obtain ⟨input, -, h⟩ := bind_eq_ok.mp h
      obtain ⟨projected, hprojected, h⟩ := bind_eq_ok.mp h
      cases h
      cases hp
      exact Projection.isPlain_toPlan hprojected
  | creating _ | setting _ | removing _ | deleting _ => exact hmakes.isPlain_of_write rfl p hp
  | unwinding u =>
      obtain ⟨q, hq, h⟩ := bind_eq_ok.mp h
      cases h
      cases hp
      exact UnwindClause.isPlain_step hq
  | calling call =>
      obtain ⟨q, hq, h⟩ := bind_eq_ok.mp h
      cases h
      cases hp
      exact CallClause.isPlain_step hq
  | onGraph _ =>
      cases h
      exact htop p hp
  | merging _ | repeating _ _ _ _ | loading _ => cases h

/-! ## Runs -/

/-- **What a run leaves is in the graph model**, and the operator on top does not change it. -/
theorem Clause.steps_inGraph {allow : Bool} {labels : List String} {index n : Nat}
    {cs : List Clause} {r : Option Plan × Nat}
    (hsource : GraphSource.resolve catalog home allow labels = .ok source)
    (hreach : TopReachable top) (hgraph : TopInGraph catalog home top) (hplain : TopPlain top)
    (h : Clause.steps catalog source home index top n cs = .ok r) :
    TopInGraph catalog home r.1 ∧ TopPlain r.1 := by
  induction cs generalizing index top n with
  | nil =>
      cases h
      exact ⟨hgraph, hplain⟩
  | cons c cs ih =>
      obtain ⟨mid, m, hstep, h⟩ := Clause.steps_cons_eq_ok h
      have hmakes := (c.yields_step catalog source home hreach n).result hstep
      exact ih (hmakes.reachable hreach) (hmakes.inGraph hsource hgraph)
        (Clause.step_topPlain hreach hplain hstep) h

end Steps

theorem SingleQuery.inGraph_toPlan {q : SingleQuery} {catalog : Catalog} {home : NamespaceId}
    {allow : Bool} {root : Plan} {kind : QueryKind}
    (h : q.toPlan catalog home allow = .ok (root, kind)) :
    root.InGraph catalog home ∧ root.IsPlain := by
  obtain ⟨source, n, hsource, hsteps, -⟩ := SingleQuery.toPlan_eq_ok h
  obtain ⟨hgraph, hplain⟩ := Clause.steps_inGraph hsource topReachable_none nofun nofun hsteps
  exact ⟨hgraph root rfl, hplain root rfl⟩

/-- **What lowering makes is in the graph model.** -/
theorem Query.inGraph_toPlan {q : Query} {catalog : Catalog} {home : NamespaceId} {allow : Bool}
    {root : Plan} {kind : QueryKind} (h : q.toPlan catalog home allow = .ok (root, kind)) :
    root.InGraph catalog home ∧ root.IsPlain := by
  cases q with
  | single q => exact SingleQuery.inGraph_toPlan h
  | union _ _ => cases h
  | periodicCommit _ _ => cases h

end QueryPlan
