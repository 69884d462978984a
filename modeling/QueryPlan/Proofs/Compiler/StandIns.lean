import QueryPlan.Proofs.Compiler.Models
import QueryPlan.Proofs.Lowering.Progress

/-!
# Which entities stand in for a graph

A namespace without a graph is read through one that is made up from some of its entities. Which
ones is settled before the first clause is lowered, by the labels of all clauses together.
`SingleQuery.standIns` says it of the query as it is written, without a list of labels.

The plan of a query that reads the graph is a chain of nodes with one input each, down to the graph
that is made up (`Plan.Supports`). So the scans below that graph are all leaves of the plan.
-/

namespace QueryPlan

/-! ## What a query asks for -/

/-- A clause that matches, creates or merges has a node of this sort. -/
def Clause.HasNode (P : NodePattern → Prop) : Clause → Prop
  | .matching c => ∃ p ∈ c.patterns, ∃ n ∈ p.nodes, P n
  | .creating c => ∃ p ∈ c.patterns, ∃ n ∈ p.nodes, P n
  | .merging c => ∃ n ∈ c.pattern.nodes, P n
  | _ => False

instance (P : NodePattern → Prop) [DecidablePred P] : (c : Clause) → Decidable (c.HasNode P)
  | .matching c => inferInstanceAs (Decidable (∃ p ∈ c.patterns, ∃ n ∈ p.nodes, P n))
  | .creating c => inferInstanceAs (Decidable (∃ p ∈ c.patterns, ∃ n ∈ p.nodes, P n))
  | .merging c => inferInstanceAs (Decidable (∃ n ∈ c.pattern.nodes, P n))
  | .passing _ | .returning _ | .setting _ | .removing _ | .deleting _ | .unwinding _ | .calling _
  | .onGraph _ | .repeating _ _ _ _ | .loading _ => inferInstanceAs (Decidable False)

/-- Whether a clause that comes first reads the graph. -/
def Clause.readsGraph : Clause → Bool
  | .matching _ | .passing _ | .returning _ => true
  | _ => false

namespace SingleQuery

/-- A node of the query has the label. -/
def Mentions (q : SingleQuery) (label : String) : Prop :=
  ∃ c ∈ q.clauses, c.HasNode fun n => label ∈ n.labels

/-- No node of the query has a label. -/
def MentionsNone (q : SingleQuery) : Prop :=
  ∀ c ∈ q.clauses, ¬c.HasNode fun n => n.labels ≠ []

instance (q : SingleQuery) (label : String) : Decidable (q.Mentions label) :=
  inferInstanceAs (Decidable (∃ c ∈ q.clauses, _))

instance (q : SingleQuery) : Decidable q.MentionsNone :=
  inferInstanceAs (Decidable (∀ c ∈ q.clauses, _))

/-- The same labels, wherever, however often and in whatever order they stand. -/
def SameLabels (q q' : SingleQuery) : Prop := ∀ label, q.Mentions label ↔ q'.Mentions label

/-- The entities that the query reads in place of the graph of a namespace, in catalog order. -/
def standIns (q : SingleQuery) (catalog : Catalog) (home : NamespaceId) : List Entity :=
  catalog.entities.filter fun e => e.home = home ∧ (q.Mentions e.name ∨ q.MentionsNone)

/-- Whether the first clause that does more than name a graph reads the graph. -/
def readsGraph (q : SingleQuery) : Bool :=
  (q.clauses.find? fun c => !c.isUse).any Clause.readsGraph

end SingleQuery

/-! ## Labels -/

theorem mem_foldl_firstSeen (items seen : List String) (a : String) :
    a ∈ items.foldl (fun seen item => if seen.contains item then seen else seen ++ [item]) seen ↔
      a ∈ seen ∨ a ∈ items := by
  induction items generalizing seen with
  | nil => simp
  | cons item items ih =>
    rw [List.foldl_cons, ih, List.mem_cons, ← or_assoc]
    refine or_congr_left ?_
    split
    · next hseen =>
        have hmem : item ∈ seen := by simpa using hseen
        exact ⟨Or.inl, fun h => h.elim id fun heq => heq ▸ hmem⟩
    · rw [List.mem_append, List.mem_singleton]

theorem mem_firstSeen {items : List String} {a : String} : a ∈ firstSeen items ↔ a ∈ items := by
  rw [firstSeen, mem_foldl_firstSeen]
  exact or_iff_right List.not_mem_nil

theorem Clause.hasNode_iff {P : NodePattern → Prop} {c : Clause} :
    c.HasNode P ↔ ∃ p ∈ c.patterns, ∃ n ∈ p.nodes, P n := by
  cases c <;> simp [HasNode, patterns]

namespace SingleQuery

variable {q q' : SingleQuery}

theorem mem_mentionedLabels {label : String} :
    label ∈ mentionedLabels q.clauses ↔ q.Mentions label := by
  simp only [mentionedLabels, mem_firstSeen, List.mem_flatMap, Mentions, Clause.hasNode_iff]
  constructor
  · rintro ⟨n, ⟨p, ⟨c, hc, hp⟩, hn⟩, hlabel⟩
    exact ⟨c, hc, p, hp, n, hn, hlabel⟩
  · rintro ⟨c, hc, p, hp, n, hn, hlabel⟩
    exact ⟨n, ⟨p, ⟨c, hc, hp⟩, hn⟩, hlabel⟩

theorem mentionsNone_iff : q.MentionsNone ↔ ∀ label, ¬q.Mentions label := by
  simp only [MentionsNone, Mentions, Clause.hasNode_iff]
  constructor
  · rintro hnone label ⟨c, hc, p, hp, n, hn, hlabel⟩
    exact hnone c hc ⟨p, hp, n, hn, List.ne_nil_of_mem hlabel⟩
  · rintro hnone c hc ⟨p, hp, n, hn, hlabels⟩
    obtain ⟨label, hlabel⟩ := List.exists_mem_of_ne_nil _ hlabels
    exact hnone label ⟨c, hc, p, hp, n, hn, hlabel⟩

theorem isEmpty_mentionedLabels_iff :
    (mentionedLabels q.clauses).isEmpty = true ↔ q.MentionsNone := by
  rw [List.isEmpty_iff, List.eq_nil_iff_forall_not_mem, mentionsNone_iff]
  exact forall_congr' fun label => not_congr mem_mentionedLabels

/-- The list of labels picks the entities that the query asks for. -/
theorem standIns_mentionedLabels (catalog : Catalog) (home : NamespaceId) :
    catalog.standIns home (mentionedLabels q.clauses) = q.standIns catalog home := by
  rw [Catalog.standIns, Catalog.entitiesOf, List.filter_filter, standIns]
  refine List.filter_congr fun e _ => ?_
  rw [Bool.eq_iff_iff, Bool.and_eq_true, Bool.or_eq_true, isEmpty_mentionedLabels_iff,
    List.contains_iff_mem, mem_mentionedLabels, decide_eq_true_iff, decide_eq_true_iff, and_comm,
    or_comm]

theorem SameLabels.standIns_eq (h : q.SameLabels q') (catalog : Catalog) (home : NamespaceId) :
    q.standIns catalog home = q'.standIns catalog home := by
  have hnone : q.MentionsNone ↔ q'.MentionsNone := by
    rw [mentionsNone_iff, mentionsNone_iff]
    exact forall_congr' fun label => not_congr (h label)
  simp only [standIns, h _, hnone]

end SingleQuery

/-! ## Plans over one plan -/

namespace Plan

/-- The nodes that read nothing, from left to right. -/
def leaves (p : Plan) : List Plan := p.nodes.filter fun n => n.inputs.isEmpty

/-- The plan reads the graph made up from these entities, and nothing else: above that graph every
node reads one plan. -/
structure ReadsMadeUp (info : Namespace) (es : List Entity) (p : Plan) : Prop where
  leaves : p.leaves = es.map scanNode
  nodes : ∃ above, p.nodes = es.map scanNode ++ madeUpGraph info es :: above ∧
    ∀ n ∈ above, n.inputs.length = 1

/-- A plan is reached from another one through nodes that read one plan each. -/
inductive Supports (base : Plan) : Plan → Prop
  | self : Supports base base
  | node {tag : Option Nat} {op : Op} {input : Plan} {schema : Schema} {model : Model} :
      op.arity = 1 → Supports base input → Supports base ⟨tag, op, [input], schema, model⟩

variable {base input p q : Plan}

theorem arity_of_rebuild {op : Op} {schema : Schema} (h : rebuild op [input] schema = .ok p) :
    op.arity = 1 := by
  cases op with
  | scan _ | values _ | call _ => cases h
  | _ => rfl

theorem Supports.rebuild {op : Op} {schema : Schema} (h : base.Supports input)
    (hnode : Plan.rebuild op [input] schema = .ok p) : base.Supports p := by
  have harity := arity_of_rebuild hnode
  obtain ⟨s, m, rfl, -⟩ := (yields_rebuild op [input] schema).result hnode
  exact .node harity h

theorem ReadBy.supports (h : input.ReadBy p) (hinput : base.Supports input) : base.Supports p := by
  induction h with
  | self => exact hinput
  | read op _ _ _ hnode ih => exact ih.rebuild hnode

theorem Supports.toModel {target : Model} {operation : QueryKind} (h : base.Supports p)
    (hq : p.toModel target operation = .ok q) : base.Supports q := by
  unfold Plan.toModel at hq
  split at hq
  · cases hq
    exact h
  · rw [(yields_transform _ _ _).result hq]
    exact .node rfl h

/-- What a match reads stands above all that the match stands above, other than itself. -/
theorem Supports.belowMatch {bindings : List Binding} (h : base.Supports p)
    (hbase : ∀ bindings, base.op ≠ .bind bindings) (hop : p.op = .bind bindings)
    (hinputs : p.inputs = [input]) : base.Supports input := by
  cases h with
  | self => exact absurd hop (hbase bindings)
  | node _ hinput =>
      cases hinputs
      exact hinput

/-- The nodes of a plan are those of the plan it stands on, and the nodes above. -/
theorem Supports.exists_nodes (h : base.Supports p) :
    ∃ above, p.nodes = base.nodes ++ above ∧
      ∀ n ∈ above, n.inputs.length = 1 ∧ n.op.arity = 1 := by
  induction h with
  | self => exact ⟨[], (List.append_nil _).symm, List.forall_mem_nil _⟩
  | @node tag op input schema model hop _ ih =>
      obtain ⟨above, hnodes, habove⟩ := ih
      refine ⟨above ++ [⟨tag, op, [input], schema, model⟩], ?_, ?_⟩
      · rw [nodes, nodesAll, nodesAll, List.append_nil, hnodes, List.append_assoc]
      · rw [List.forall_mem_append, List.forall_mem_singleton]
        exact ⟨habove, rfl, hop⟩

/-! ## Plans over a graph that is made up -/

section MadeUp

variable {info : Namespace} {es : List Entity}

theorem nodes_madeUpGraph :
    (madeUpGraph info es).nodes = es.map scanNode ++ [madeUpGraph info es] := by
  have hscans : nodesAll (es.map scanNode) = es.map scanNode := by
    induction es with
    | nil => rfl
    | cons e es ih =>
        rw [List.map_cons, nodesAll, ih]
        rfl
  rw [nodes_eq]
  exact congrArg (· ++ _) hscans

/-- Above the graph that is made up there are no leaves. -/
theorem Supports.readsMadeUp (h : (madeUpGraph info es).Supports p) (hne : es ≠ []) :
    p.ReadsMadeUp info es := by
  obtain ⟨above, hnodes, habove⟩ := h.exists_nodes
  rw [nodes_madeUpGraph, List.append_assoc, List.singleton_append] at hnodes
  refine ⟨?_, above, hnodes, fun n hn => (habove n hn).1⟩
  have hscans : (es.map scanNode).filter (fun n => n.inputs.isEmpty) = es.map scanNode := by
    rw [List.filter_eq_self, List.forall_mem_map]
    exact fun _ _ => rfl
  have hgraph : (madeUpGraph info es).inputs.isEmpty = false := by
    simpa [madeUpGraph] using hne
  have hnone : above.filter (fun n => n.inputs.isEmpty) = [] := by
    rw [List.filter_eq_nil_iff]
    intro n hn hempty
    have hone := (habove n hn).1
    rw [List.isEmpty_iff.mp hempty] at hone
    cases hone
  rw [Plan.leaves, hnodes, List.filter_append, List.filter_cons_of_neg (by simp [hgraph]), hscans,
    hnone, List.append_nil]

/-- Delivery adds to a plan above the graph that is made up. -/
theorem Supports.deliver {target : Model} {operation : QueryKind}
    (h : (madeUpGraph info es).Supports p) (hplain : p.IsPlain)
    (hq : p.toModel target operation = .ok q) (n : Nat) :
    (madeUpGraph info es).Supports (q.tagWith n) := by
  unfold Plan.toModel at hq
  split at hq
  · cases hq
    cases h with
    | self => cases hplain
    | node hop hinput => exact .node hop hinput
  · rw [(yields_transform _ _ _).result hq]
    exact .node rfl h

end MadeUp

/-! ## Plans that bring their own rows -/

/-- Rows that are written out or that a procedure gives. -/
inductive IsOwnRows : Plan → Prop
  | values {tag : Option Nat} {v : LiteralRows} {schema : Schema} {model : Model} :
      IsOwnRows ⟨tag, .values v, [], schema, model⟩
  | call {tag : Option Nat} {c : ProcedureCall} {schema : Schema} {model : Model} :
      IsOwnRows ⟨tag, .call c, [], schema, model⟩

theorem IsOwnRows.tagWith (h : base.IsOwnRows) (n : Nat) : (base.tagWith n).IsOwnRows := by
  cases h with
  | values => exact .values
  | call => exact .call

theorem IsOwnRows.op_ne_bind (h : base.IsOwnRows) (bindings : List Binding) :
    base.op ≠ .bind bindings := by
  intro hop
  cases h with
  | values | call => cases hop

theorem IsOwnRows.nodes (h : base.IsOwnRows) : base.nodes = [base] := by
  cases h with
  | values | call => rfl

/-- The plan stands above rows of its own. -/
def OnOwnRows (p : Plan) : Prop := ∃ base : Plan, base.IsOwnRows ∧ base.Supports p

theorem OnOwnRows.tagWith (h : p.OnOwnRows) (n : Nat) : (p.tagWith n).OnOwnRows := by
  obtain ⟨base, hbase, hsupports⟩ := h
  cases hsupports with
  | self => exact ⟨p.tagWith n, hbase.tagWith n, .self⟩
  | node harity hinput => exact ⟨base, hbase, .node harity hinput⟩

theorem OnOwnRows.op_ne_scan (h : p.OnOwnRows) {n : Plan} (hn : n ∈ p.nodes) (e : Entity) :
    n.op ≠ .scan e := by
  intro hscan
  obtain ⟨base, hbase, hsupports⟩ := h
  obtain ⟨above, hnodes, habove⟩ := hsupports.exists_nodes
  rw [hnodes, hbase.nodes, List.singleton_append, List.mem_cons] at hn
  rcases hn with rfl | hn
  · cases hbase with
    | values | call => cases hscan
  · have harity := (habove n hn).2
    rw [hscan] at harity
    cases harity

end Plan

/-! ## Steps -/

section Steps

variable {catalog : Catalog} {source : GraphSource} {home : NamespaceId} {base : Plan}
  {top : Option Plan} {c : Clause} {cs : List Clause} {index n : Nat} {r : Option Plan × Nat}

/-- There is a plan so far, and it stands above a given one. -/
def Plan.SupportsTop (base : Plan) : Option Plan → Prop
  | some p => base.Supports p
  | none => False

theorem StartsFrom.supports {p : Plan} (h : StartsFrom catalog source top p)
    (hbase : ∀ bindings, base.op ≠ .bind bindings) (htop : base.SupportsTop top) :
    base.Supports p := by
  induction h with
  | top p => exact htop
  | scan _ | values _ | call _ => exact htop.elim
  | belowMatch _ hop hinputs ih => exact (ih htop).belowMatch hbase hop hinputs

/-- **One step**: nothing below the plan so far changes, but for matches that are taken up. -/
theorem Clause.Makes.supports {r : Option Plan} (h : c.Makes catalog source top r)
    (hbase : ∀ bindings, base.op ≠ .bind bindings) (htop : base.SupportsTop top) :
    base.SupportsTop r := by
  cases h with
  | read _ _ hread =>
      obtain ⟨q, hq, hread⟩ := hread
      exact hread.supports (hq.supports hbase htop)
  | write _ _ hread hnode =>
      obtain ⟨q, hq, hread⟩ := hread
      exact (hread.supports (hq.supports hbase htop)).rebuild hnode
  | skip _ => exact htop

/-- **A run**, by what a step keeps. -/
theorem Clause.steps_supports (hbase : ∀ bindings, base.op ≠ .bind bindings)
    (hreach : TopReachable top) (htop : base.SupportsTop top)
    (h : Clause.steps catalog source home index top n cs = .ok r) : base.SupportsTop r.1 := by
  induction cs generalizing index top n with
  | nil =>
      cases h
      exact htop
  | cons c cs ih =>
      obtain ⟨mid, m, hstep, h⟩ := Clause.steps_cons_eq_ok h
      have hmakes := (c.yields_step catalog source home hreach n).result hstep
      exact ih (hmakes.reachable hreach) (hmakes.supports hbase htop) h

/-- A clause that reads the graph and comes first is carried out over the whole graph. -/
theorem Clause.step_of_readsGraph (hc : c.readsGraph = true)
    (h : c.step catalog source home none n = .ok r) :
    ∃ base, source.scan catalog = .ok base ∧ c.step catalog source home (some base) n = .ok r := by
  cases c with
  | matching m =>
      obtain ⟨made, hmade, h⟩ := bind_eq_ok.mp h
      obtain ⟨_, hrequired, hmade⟩ := bind_eq_ok.mp hmade
      obtain ⟨calls, hcalls, hmade⟩ := bind_eq_ok.mp hmade
      obtain ⟨base, hbase, hmade⟩ := bind_eq_ok.mp hmade
      have hagain : m.step catalog source (some base) n = .ok made :=
        bind_eq_ok.mpr ⟨_, hrequired, bind_eq_ok.mpr ⟨calls, hcalls, hmade⟩⟩
      exact ⟨base, hbase, bind_eq_ok.mpr ⟨made, hagain, h⟩⟩
  | passing _ | returning _ =>
      obtain ⟨base, hbase, h⟩ := bind_eq_ok.mp h
      exact ⟨base, hbase, h⟩
  | _ => cases hc

/-- Nothing is written to a graph that is made up. -/
theorem Clause.Makes.write?_eq_none {labels : List String} {r : Option Plan}
    (h : c.Makes catalog (.substitution home labels) top r) : c.write? = none := by
  cases h with
  | read hread _ _ => exact hread
  | write _ htarget _ _ => cases htarget
  | skip huse =>
      cases c with
      | onGraph _ => rfl
      | _ => cases huse

/-- Over a graph that is made up, any other clause that comes first brings its own rows. -/
theorem Clause.step_of_not_readsGraph {labels : List String} (huse : c.isUse = false)
    (hc : c.readsGraph = false)
    (h : c.step catalog (.substitution home labels) home none n = .ok r) :
    ∃ base : Plan, base.IsOwnRows ∧ base.SupportsTop r.1 := by
  have hmakes := (c.yields_step catalog _ home topReachable_none n).result h
  cases c with
  | unwinding u =>
      obtain ⟨p, hp, h⟩ := bind_eq_ok.mp h
      cases h
      dsimp only [UnwindClause.step, UnwindClause.standalone] at hp
      split at hp
      · cases hp
      · obtain ⟨rows, hrows, hp⟩ := bind_eq_ok.mp hp
        obtain rfl := (Plan.yields_values _).result hrows
        obtain ⟨ty, rfl⟩ := (Plan.yields_unwind _ _ _).result hp
        exact ⟨_, .values, .node rfl .self⟩
  | calling call =>
      obtain ⟨p, hp, h⟩ := bind_eq_ok.mp h
      cases h
      obtain ⟨arguments, -, hp⟩ := bind_eq_ok.mp hp
      obtain ⟨schema, rfl⟩ := (Plan.yields_call _).result hp
      exact ⟨_, .call, .self⟩
  | creating _ | setting _ | removing _ | deleting _ => cases hmakes.write?_eq_none
  | merging _ | repeating _ _ _ _ | loading _ => cases h
  | onGraph _ => cases huse
  | matching _ | passing _ | returning _ => cases hc

/-- Clauses that only name a graph leave the start to the first one that does more. -/
theorem Clause.steps_of_first (hfirst : (cs.find? fun c => !c.isUse) = some c)
    (h : Clause.steps catalog source home index none n cs = .ok r) :
    ∃ i rest mid m, c.step catalog source home none n = .ok (mid, m) ∧
      Clause.steps catalog source home i mid m rest = .ok r := by
  induction cs generalizing index with
  | nil => cases hfirst
  | cons d cs ih =>
      obtain ⟨mid, m, hstep, hrest⟩ := Clause.steps_cons_eq_ok h
      cases huse : d.isUse with
      | true =>
          rw [List.find?_cons_of_neg (by simp [huse])] at hfirst
          cases d with
          | onGraph _ =>
              cases hstep
              exact ih hfirst hrest
          | _ => cases huse
      | false =>
          rw [List.find?_cons_of_pos (by simp [huse])] at hfirst
          cases hfirst
          exact ⟨_, cs, mid, m, hstep, hrest⟩

end Steps

/-! ## Queries -/

namespace SingleQuery

variable {q : SingleQuery} {catalog : Catalog} {home : NamespaceId} {allow : Bool} {root : Plan}
  {kind : QueryKind}

/-- Without a graph, the source of a query is one that is made up. -/
theorem steps_of_toPlan (hnone : catalog.graph? home = none)
    (h : q.toPlan catalog home allow = .ok (root, kind)) :
    ∃ n, Clause.steps catalog (.substitution home (mentionedLabels q.clauses)) home 0 none 0
      q.clauses = .ok (some root, n) := by
  obtain ⟨source, n, hsource, hsteps, -⟩ := SingleQuery.toPlan_eq_ok h
  rcases GraphSource.resolve_eq_ok hsource with ⟨graph, hgraph, -⟩ | ⟨-, rfl⟩
  · rw [hnone] at hgraph
    cases hgraph
  · exact ⟨n, hsteps⟩

/-- **A query that reads the graph** gives a plan above the graph made up from the entities that it
asks for. -/
theorem supports_toPlan (hnone : catalog.graph? home = none) (hreads : q.readsGraph = true)
    (h : q.toPlan catalog home allow = .ok (root, kind)) :
    ∃ info, catalog.findNamespace? home = some info ∧ q.standIns catalog home ≠ [] ∧
      (Plan.madeUpGraph info (q.standIns catalog home)).Supports root := by
  obtain ⟨n, hsteps⟩ := steps_of_toPlan hnone h
  obtain ⟨c, hfirst, hc⟩ := (Option.any_eq_true _ _).mp hreads
  obtain ⟨i, rest, mid, m, hstep, hrest⟩ := Clause.steps_of_first hfirst hsteps
  obtain ⟨base, hscan, hstep⟩ := Clause.step_of_readsGraph hc hstep
  have hreach : TopReachable (some base) := by
    rintro p ⟨⟩
    exact (StartsFrom.scan hscan).reachable topReachable_none
  obtain ⟨info, hinfo, hne, hbase⟩ := (Plan.yields_substitutionScan _ _ _).result hscan
  rw [standIns_mentionedLabels] at hne hbase
  subst hbase
  have hop : ∀ bindings, (Plan.madeUpGraph info (q.standIns catalog home)).op ≠ .bind bindings := by
    rintro bindings ⟨⟩
  have hmakes := (c.yields_step catalog _ home hreach 0).result hstep
  have hmid := hmakes.supports hop .self
  exact ⟨info, hinfo, hne, Clause.steps_supports hop (hmakes.reachable hreach) hmid hrest⟩

/-- **Any other query** gives a plan above rows of its own. -/
theorem onOwnRows_toPlan (hnone : catalog.graph? home = none) (hreads : q.readsGraph = false)
    (h : q.toPlan catalog home allow = .ok (root, kind)) : root.OnOwnRows := by
  obtain ⟨n, hsteps⟩ := steps_of_toPlan hnone h
  cases hfirst : q.clauses.find? fun c => !c.isUse with
  | none =>
      have huse : q.clauses.all Clause.isUse = true := by
        simpa [List.find?_eq_none] using hfirst
      rw [Clause.steps_of_use huse] at hsteps
      cases hsteps
  | some c =>
      have huse : c.isUse = false := by simpa using List.find?_some hfirst
      have hc := (Option.any_eq_false _ _).mp hreads c hfirst
      obtain ⟨i, rest, mid, m, hstep, hrest⟩ := Clause.steps_of_first hfirst hsteps
      have hmakes := (c.yields_step catalog _ home topReachable_none 0).result hstep
      obtain ⟨base, hbase, hmid⟩ := Clause.step_of_not_readsGraph huse hc hstep
      have hreach := hmakes.reachable topReachable_none
      exact ⟨base, hbase, Clause.steps_supports hbase.op_ne_bind hreach hmid hrest⟩

end SingleQuery

namespace Compiler

variable {catalog : Catalog} {settings : Settings}

/-- What is answered to a query that reads the graph. -/
theorem readsMadeUp_of_compile {q : SingleQuery} {compiled : Compiled}
    (hnone : catalog.graph? settings.home = none) (hreads : q.readsGraph = true)
    (h : ((Compiler.new catalog settings).compile (.single q)).1 = .ok compiled) :
    ∃ info, catalog.findNamespace? settings.home = some info ∧
      q.standIns catalog settings.home ≠ [] ∧
      compiled.root.ReadsMadeUp info (q.standIns catalog settings.home) := by
  obtain ⟨root, p, hplan, hp, hcompiled⟩ := compile_new_eq_ok h
  obtain ⟨info, hinfo, hne, hsupports⟩ := SingleQuery.supports_toPlan hnone hreads hplan
  have hplain := (SingleQuery.inGraph_toPlan hplan).2
  refine ⟨info, hinfo, hne, ?_⟩
  rw [hcompiled]
  exact (hsupports.deliver hplain (toModel_of_deliver hp) 0).readsMadeUp hne

/-- **The entities that stand in are those that the labels ask for.** In a namespace without a
graph, the plan of a query that reads the graph has as its leaves, in catalog order, the scans of
the entities of the namespace whose names are labels of nodes in the query, or of all its entities
if no node has a label. Right above them is the graph made up from them, and above that every node
reads one plan. A query with the same labels, wherever they stand in it, reads the same. A query
that does not read the graph has no scans at all.

Each query is compiled by a compiler that has served nothing yet, so that no plan kept for another
query comes in between. -/
theorem stand_ins_follow_labels (query : Query) (compiled : Compiled)
    (hnone : catalog.graph? settings.home = none)
    (h : ((Compiler.new catalog settings).compile query).1 = .ok compiled) :
    ∃ q, query = .single q ∧
      (q.readsGraph = true → ∃ info, catalog.findNamespace? settings.home = some info ∧
        q.standIns catalog settings.home ≠ [] ∧
        compiled.root.ReadsMadeUp info (q.standIns catalog settings.home) ∧
        ∀ (q' : SingleQuery) (compiled' : Compiled),
          ((Compiler.new catalog settings).compile (.single q')).1 = .ok compiled' →
          q'.readsGraph = true → q'.SameLabels q →
          compiled'.root.ReadsMadeUp info (q.standIns catalog settings.home)) ∧
      (q.readsGraph = false → ∀ n ∈ compiled.root.nodes, ∀ e, n.op ≠ .scan e) := by
  obtain ⟨root, p, hplan, hp, hcompiled⟩ := compile_new_eq_ok h
  cases query with
  | union _ _ => cases hplan
  | periodicCommit _ _ => cases hplan
  | single q =>
      refine ⟨q, rfl, ?_, ?_⟩
      · intro hreads
        obtain ⟨info, hinfo, hne, hroot⟩ := readsMadeUp_of_compile hnone hreads h
        refine ⟨info, hinfo, hne, hroot, ?_⟩
        intro q' compiled' h' hreads' hlabels
        obtain ⟨info', hinfo', -, hroot'⟩ := readsMadeUp_of_compile hnone hreads' h'
        cases hinfo.symm.trans hinfo'
        rwa [hlabels.standIns_eq] at hroot'
      · intro hreads n hn e
        obtain ⟨base, hbase, hroot⟩ := SingleQuery.onOwnRows_toPlan hnone hreads hplan
        have hown : p.OnOwnRows := ⟨base, hbase, hroot.toModel (toModel_of_deliver hp)⟩
        rw [hcompiled] at hn
        exact (hown.tagWith 0).op_ne_scan hn e

/-- `MATCH (a:Pet), (b:Person:Pet) RETURN a` -/
def petsAndPersons : SingleQuery :=
  ⟨[.matching ⟨false, [.node ⟨some "a", ["Pet"], [], none⟩,
      .node ⟨some "b", ["Person", "Pet"], [], none⟩], none, none⟩,
    .returning ⟨⟨false, false, [⟨.var "a", none, none⟩], [], none, none⟩, none⟩], none⟩

/-- `MATCH (p:Person) MATCH (:Pet) RETURN p` -/
def personsThenPets : SingleQuery :=
  ⟨[.matching ⟨false, [.node ⟨some "p", ["Person"], [], none⟩], none, none⟩,
    .matching ⟨false, [.node ⟨none, ["Pet"], [], none⟩], none, none⟩,
    .returning ⟨⟨false, false, [⟨.var "p", none, none⟩], [], none, none⟩, none⟩], none⟩

/-- The order of the labels, their repetition and the clauses they stand in make no difference: the
scans are in catalog order. -/
theorem pets_and_persons_read_alike :
    ∃ compiled compiled', registry.graph? ⟨0⟩ = none ∧
      ((Compiler.new registry .default).compile (.single petsAndPersons)).1 = .ok compiled ∧
      ((Compiler.new registry .default).compile (.single personsThenPets)).1 = .ok compiled' ∧
      mentionedLabels petsAndPersons.clauses = ["Pet", "Person"] ∧
      mentionedLabels personsThenPets.clauses = ["Person", "Pet"] ∧
      compiled.root.leaves = registry.entities.map Plan.scanNode ∧
      compiled'.root.leaves = registry.entities.map Plan.scanNode := by
  have hnone : registry.graph? ⟨0⟩ = none := by decide
  have hlabels : mentionedLabels petsAndPersons.clauses = ["Pet", "Person"] := by decide
  have hlabels' : mentionedLabels personsThenPets.clauses = ["Person", "Pet"] := by decide
  have hall : petsAndPersons.standIns registry ⟨0⟩ = registry.entities := by decide
  obtain ⟨compiled, h⟩ := exists_compile_of_isOk (c := Compiler.new registry .default)
    (q := .single petsAndPersons) (by decide +kernel)
  obtain ⟨compiled', h'⟩ := exists_compile_of_isOk (c := Compiler.new registry .default)
    (q := .single personsThenPets) (by decide +kernel)
  obtain ⟨q, ⟨⟩, hreads, -⟩ := stand_ins_follow_labels (.single petsAndPersons) compiled hnone h
  obtain ⟨info, -, -, hroot, hothers⟩ := hreads rfl
  have hsame : personsThenPets.SameLabels petsAndPersons := by
    intro label
    rw [← SingleQuery.mem_mentionedLabels, ← SingleQuery.mem_mentionedLabels, hlabels, hlabels']
    simp [or_comm]
  have hroot' := hothers personsThenPets compiled' h' rfl hsame
  refine ⟨compiled, compiled', hnone, h, h', hlabels, hlabels', ?_, ?_⟩
  · rw [hroot.leaves]
    exact congrArg _ hall
  · rw [hroot'.leaves]
    exact congrArg _ hall

end Compiler

end QueryPlan
