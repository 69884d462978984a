import QueryPlan.Proofs.Plan.Validity

/-!
# The writes of a plan

A plan that reads one other plan at each node is a chain from its leaf to its root. The writes of a
plan are those of the nodes on its chain, in that order. A plan *has* a list of writes if they are
the ones on its chain and there are none elsewhere in it.

`Plan.ReadBy` puts operators on top of a plan that write nothing and do not change the data model.
They change neither the writes nor whether the plan can be made.
-/

namespace QueryPlan

/-- The write that an operator does, and the entity it goes to. -/
def Op.write? : Op → Option (Write × Entity)
  | .modify entity write _ => some (write, entity)
  | _ => none

namespace Plan

/-- The nodes from the leaf up to the root, as long as each reads one plan. -/
def chain : Plan → List Plan
  | ⟨tag, op, [input], schema, model⟩ => input.chain ++ [⟨tag, op, [input], schema, model⟩]
  | p => [p]

mutual

/-- All nodes, those that a node reads before it. -/
def nodes : Plan → List Plan
  | ⟨tag, op, inputs, schema, model⟩ => nodesAll inputs ++ [⟨tag, op, inputs, schema, model⟩]

def nodesAll : List Plan → List Plan
  | [] => []
  | p :: ps => p.nodes ++ nodesAll ps

end

/-- The writes on the chain, the first one first. -/
def writes (p : Plan) : List (Write × Entity) := p.chain.filterMap fun n => n.op.write?

/-- The writes anywhere in the plan. -/
def allWrites (p : Plan) : List (Write × Entity) := p.nodes.filterMap fun n => n.op.write?

/-- The writes are these, all of them on the chain. -/
structure HasWrites (p : Plan) (ws : List (Write × Entity)) : Prop where
  onChain : p.writes = ws
  anywhere : p.allWrites = ws

variable {tag : Option Nat} {op : Op} {inputs : List Plan} {input p : Plan} {schema : Schema}
  {model : Model} {ws : List (Write × Entity)}

theorem nodes_eq (p : Plan) : p.nodes = nodesAll p.inputs ++ [p] := by
  cases p
  rw [nodes]

theorem mem_nodesAll_iff {n : Plan} {ps : List Plan} :
    n ∈ nodesAll ps ↔ ∃ p ∈ ps, n ∈ p.nodes := by
  induction ps with
  | nil => simp [nodesAll]
  | cons p ps ih => simp [nodesAll, ih]

theorem IsNodeOf.mem_nodes {n : Plan} (h : n.IsNodeOf p) : n ∈ p.nodes := by
  induction h with
  | self =>
      rw [nodes_eq]
      exact List.mem_append_right _ List.mem_cons_self
  | input _ hmem ih =>
      rw [nodes_eq]
      exact List.mem_append_left _ (mem_nodesAll_iff.mpr ⟨_, hmem, ih⟩)

mutual

theorem isNodeOf_of_mem_nodes {n : Plan} : ∀ {p : Plan}, n ∈ p.nodes → n.IsNodeOf p
  | ⟨tag, op, inputs, schema, model⟩, h => by
    rw [nodes, List.mem_append, List.mem_singleton] at h
    rcases h with hbelow | rfl
    · obtain ⟨input, hinput, hn⟩ := exists_isNodeOf_of_mem_nodesAll hbelow
      exact .input hn hinput
    · exact .self _

theorem exists_isNodeOf_of_mem_nodesAll {n : Plan} : ∀ {ps : List Plan}, n ∈ nodesAll ps →
    ∃ p ∈ ps, n.IsNodeOf p
  | p :: ps, h => by
    rw [nodesAll, List.mem_append] at h
    rcases h with hfirst | hrest
    · exact ⟨p, List.mem_cons_self, isNodeOf_of_mem_nodes hfirst⟩
    · obtain ⟨q, hq, hn⟩ := exists_isNodeOf_of_mem_nodesAll hrest
      exact ⟨q, List.mem_cons_of_mem p hq, hn⟩

end

theorem writes_over :
    writes ⟨tag, op, [input], schema, model⟩ = input.writes ++ op.write?.toList := by
  cases hop : op.write? <;> simp [writes, chain, hop]

theorem allWrites_node :
    allWrites ⟨tag, op, inputs, schema, model⟩ =
      inputs.flatMap allWrites ++ op.write?.toList := by
  have hall : (nodesAll inputs).filterMap (fun n => n.op.write?) = inputs.flatMap allWrites := by
    induction inputs with
    | nil => rfl
    | cons i is ih => rw [nodesAll, List.filterMap_append, ih, List.flatMap_cons, allWrites]
  rw [allWrites, nodes, List.filterMap_append, hall]
  cases hop : op.write? <;> simp [hop]

/-- A node adds its own write after those of the plan it reads. -/
theorem HasWrites.node (h : HasWrites input ws) :
    HasWrites ⟨tag, op, [input], schema, model⟩ (ws ++ op.write?.toList) := by
  refine ⟨?_, ?_⟩
  · rw [writes_over, h.onChain]
  · rw [allWrites_node, List.flatMap_singleton, h.anywhere]

/-- A node that writes nothing has the writes of the plan it reads, and no others. -/
theorem hasWrites_over_iff (hop : op.write? = none) :
    HasWrites ⟨tag, op, [input], schema, model⟩ ws ↔ HasWrites input ws := by
  have hchain : writes ⟨tag, op, [input], schema, model⟩ = input.writes := by
    rw [writes_over, hop, Option.toList_none, List.append_nil]
  have hall : allWrites ⟨tag, op, [input], schema, model⟩ = input.allWrites := by
    rw [allWrites_node, hop, Option.toList_none, List.append_nil, List.flatMap_singleton]
  exact ⟨fun h => ⟨hchain ▸ h.onChain, hall ▸ h.anywhere⟩,
    fun h => ⟨hchain ▸ h.onChain, hall ▸ h.anywhere⟩⟩

/-- The writes do not depend on the tag. -/
theorem HasWrites.tagWith (n : Nat) (h : HasWrites p ws) : HasWrites (p.tagWith n) ws := by
  obtain ⟨tag, op, inputs, schema, model⟩ := p
  refine ⟨?_, ?_⟩
  · rw [← h.onChain]
    match inputs with
    | [] => rfl
    | [input] => rw [Plan.tagWith, writes_over, writes_over]
    | _ :: _ :: _ => rfl
  · rw [← h.anywhere, Plan.tagWith, allWrites_node, allWrites_node]

/-- Nothing is written by a node that writes nothing, over any number of such plans. -/
theorem hasWrites_nil (hop : op.write? = none) (hinputs : ∀ i ∈ inputs, HasWrites i []) :
    HasWrites ⟨tag, op, inputs, schema, model⟩ [] := by
  refine ⟨?_, ?_⟩
  · match inputs with
    | [] => simp [writes, chain, hop]
    | [input] =>
        have hinput := hinputs input List.mem_cons_self
        exact ((hasWrites_over_iff hop).mpr hinput).onChain
    | _ :: _ :: _ => simp [writes, chain, hop]
  · rw [allWrites_node, hop, Option.toList_none, List.append_nil, List.flatMap_eq_nil_iff]
    exact fun i hi => (hinputs i hi).anywhere

/-! ## Reading without writing -/

/-- The plan is read by another one through operators that write nothing and do not change the data
model. -/
inductive ReadBy (base : Plan) : Plan → Prop
  | self : ReadBy base base
  | read {input p : Plan} (op : Op) : ReadBy base input → op.write? = none →
      op.isTransform = false → rebuild op [input] [] = .ok p → ReadBy base p

theorem ReadBy.hasWrites {base : Plan} (h : base.ReadBy p) (hbase : HasWrites base ws) :
    HasWrites p ws := by
  induction h with
  | self => exact hbase
  | read op _ hop _ hnode ih =>
      obtain ⟨s, m, rfl, -⟩ := (yields_rebuild op _ _).result hnode
      exact (hasWrites_over_iff hop).mpr ih

theorem reachable_projectColumns {columns : List Column} (hinput : Reachable input)
    (h : projectColumns input columns = .ok p) : Reachable p := by
  have hzip : ((columns.map Column.name).zip (columns.map Column.expr)).map
      (fun pair => (⟨pair.1, pair.2⟩ : Column)) = columns := by
    clear h
    induction columns with
    | nil => rfl
    | cons c cs ih => exact congrArg (c :: ·) ih
  have hproject : project input (columns.map Column.expr) (columns.map Column.name) =
      projectColumns input columns := by
    simp only [project, pairUp, List.length_map, ↓reduceIte, ok_bind]
    exact congrArg (projectColumns input) hzip
  exact .project hinput (hproject.trans h)

/-- What `rebuild` makes over one reachable plan is reachable. -/
theorem Reachable.rebuild (h : Reachable input) (hnode : Plan.rebuild op [input] schema = .ok p) :
    Reachable p := by
  cases op with
  | filter predicate => exact .filter h hnode
  | project columns => exact reachable_projectColumns h hnode
  | bind bindings => exact .patternMatch h hnode
  | aggregate keys calls => exact .aggregate h hnode
  | modify entity write targets => exact .modify h hnode
  | unwind index asName => exact .unwind h hnode
  | transform c => exact .transform (List.forall_mem_singleton.mpr h) hnode
  | sort keys offset limit => exact .sort h hnode
  | scan _ | values _ | call _ => cases hnode

/-- What `rebuild` makes over reachable plans is reachable. -/
theorem reachable_of_rebuild (h : ∀ input ∈ inputs, Reachable input)
    (hnode : Plan.rebuild op inputs schema = .ok p) : Reachable p := by
  rcases inputs with _ | ⟨input, _ | ⟨_, _⟩⟩
  · cases op with
    | scan entity => exact .scan hnode
    | values v => exact .values hnode
    | call c => exact .call hnode
    | transform c => exact .transform h hnode
    | _ => cases hnode
  · exact (h input List.mem_cons_self).rebuild hnode
  · cases op with
    | transform c => exact .transform h hnode
    | _ => cases hnode

theorem ReadBy.reachable {base : Plan} (h : base.ReadBy p) (hbase : Reachable base) :
    Reachable p := by
  induction h with
  | self => exact hbase
  | read op _ _ _ hnode ih => exact ih.rebuild hnode

namespace ReadBy

variable {base : Plan}

theorem yields_filter (h : base.ReadBy input) (predicate : Expr) :
    Yields (Plan.filter input predicate) base.ReadBy :=
  (Plan.yields_filter input predicate).of_ok fun _ hp => .read (.filter predicate) h rfl rfl hp

theorem yields_projectColumns (h : base.ReadBy input) (columns : List Column) :
    Yields (Plan.projectColumns input columns) base.ReadBy :=
  (Plan.yields_projectColumns input columns).of_ok fun _ hp =>
    .read (.project columns) h rfl rfl hp

theorem yields_patternMatch (h : base.ReadBy input) (bindings : List Binding) :
    Yields (Plan.patternMatch input (bindings.map Binding.expr) (bindings.map Binding.name))
      base.ReadBy :=
  (Plan.yields_patternMatch input bindings).of_ok fun _ hp => .read (.bind bindings) h rfl rfl hp

theorem yields_aggregate (h : base.ReadBy input) (keys : List Nat) (calls : List Aggregate) :
    Yields (Plan.aggregate input keys calls) base.ReadBy :=
  (Plan.yields_aggregate input keys calls).of_ok fun _ hp =>
    .read (.aggregate keys calls) h rfl rfl hp

theorem yields_unwind (h : base.ReadBy input) (index : Nat) (asName : String) :
    Yields (Plan.unwind input index asName) base.ReadBy :=
  (Plan.yields_unwind input index asName).of_ok fun _ hp =>
    .read (.unwind index asName) h rfl rfl hp

theorem yields_sort (h : base.ReadBy input) (keys : List SortKey) (offset limit : Option Nat) :
    Yields (Plan.sort input keys offset limit) base.ReadBy :=
  (Plan.yields_sort input keys offset limit).of_ok fun _ hp =>
    .read (.sort keys offset limit) h rfl rfl hp

end ReadBy

end Plan

end QueryPlan
