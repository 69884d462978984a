import QueryPlan.Proofs.Compiler.Creation

/-!
# Ends of created edges

Every edge that a query creates has both of its ends. Keys carry the argument: the ends of an edge
are keys of nodes of its own pattern, collecting nodes loses no key and keeps one node for each, and
a node literal goes by its key. So an end is a field of the plan so far, or else the name of exactly
one node that is created along with the edge, and nodes and edges that are written out are always
accepted.
-/

namespace QueryPlan

/-- One node, and no other, goes by the name. -/
def NamesOne (nodes : List Node) (key : String) : Prop :=
  nodes.countP (fun node => node.endpoint? = some key) = 1

/-- An end of an edge that is created over a plan: the last field of this name that the plan has, or
if it has none, a placeholder for the one node of this name that is created too. -/
def Expr.IsEnd (scope : Schema) (nodes : List Node) (key : String) (operand : Expr) : Prop :=
  (∃ i field, scope.IsLast key i field ∧ operand = .ref i field.ty) ∨
    (key ∉ scope.names ∧ operand = .ofValue (.node (.standIn key)) ∧ NamesOne nodes key)

/-- What an insert reads, over the plans that come before it: nodes and edges written out, of which
each end names one node; or columns, each a node literal or a call that attaches an edge to its
ends. -/
inductive Plan.JoinsEdges (input : Plan) : List Plan → Prop
  | written {rows : LiteralRows} : input.op = .values rows →
      (∀ edge ∈ rows.edges, NamesOne rows.nodes edge.source ∧ NamesOne rows.nodes edge.target) →
      JoinsEdges input []
  | computed {upstream : Plan} {columns : List Column} : input.op = .project columns →
      (∀ column ∈ columns, (∃ node, column.expr = .ofValue (.node node)) ∨
        ∃ edge source target ty,
          column.expr = .apply .adjustEdge [.ofValue (.edge edge), source, target] ty ∧
          source.IsEnd upstream.schema input.createdNodes edge.source ∧
          target.IsEnd upstream.schema input.createdNodes edge.target) →
      JoinsEdges input [upstream]

/-! ## Keys -/

namespace KeyedNode

/-- The first node of a key stays, unless the key is taken. -/
theorem key_mem_fresh {taken : List String} {ks : List KeyedNode} {key : String}
    (h : key ∈ ks.map KeyedNode.key) (hnew : key ∉ taken) :
    key ∈ (fresh taken ks).map KeyedNode.key := by
  induction ks generalizing taken with
  | nil => cases h
  | cons k ks ih =>
      unfold fresh
      by_cases hself : k.key = key
      · subst hself
        rw [if_neg hnew]
        exact List.mem_cons_self
      · have hrest : key ∈ ks.map KeyedNode.key := by
          rcases List.mem_cons.mp h with hfirst | hrest
          · exact absurd hfirst.symm hself
          · exact hrest
        split
        · exact ih hrest hnew
        · refine List.mem_cons_of_mem _ (ih hrest ?_)
          rw [List.mem_cons, not_or]
          exact ⟨Ne.symm hself, hnew⟩

/-- Nodes that go by keys of their own are named by their keys. -/
theorem namesOne {ks : List KeyedNode} {key : String} (hnodup : (ks.map KeyedNode.key).Nodup)
    (hkeys : ∀ k ∈ ks, k.node.endpoint? = some k.key) (hkey : key ∈ ks.map KeyedNode.key) :
    NamesOne (ks.map KeyedNode.node) key := by
  have hcount : (ks.map KeyedNode.node).countP (fun node => node.endpoint? = some key) =
      (ks.map KeyedNode.key).count key := by
    rw [List.count, List.countP_map, List.countP_map]
    refine List.countP_congr fun k hk => ?_
    simp [hkeys k hk]
  rw [NamesOne, hcount]
  exact List.count_eq_one_of_mem hnodup hkey

/-- The nodes that are left after taking some keys are named by the other keys. -/
theorem namesOne_fresh {taken : List String} {ks : List KeyedNode} {key : String}
    (hkeys : ∀ k ∈ ks, k.node.endpoint? = some k.key) (hkey : key ∈ ks.map KeyedNode.key)
    (hnew : key ∉ taken) : NamesOne ((fresh taken ks).map KeyedNode.node) key :=
  namesOne (nodup_keys_fresh taken ks) (fun k hk => hkeys k (mem_fresh hk).1)
    (key_mem_fresh hkey hnew)

end KeyedNode

/-! ## Ends of relationships -/

theorem Pattern.ends_mem_referents {p : Pattern} {count : Nat} {r : Relationship}
    (h : r ∈ p.relationships count) :
    r.left ∈ (NodePattern.referents count p.nodes).map Prod.fst ∧
      r.right ∈ (NodePattern.referents count p.nodes).map Prod.fst := by
  dsimp only [Pattern.relationships] at h
  rw [← List.map_uncurry_zip_eq_zipWith] at h
  obtain ⟨⟨e, left, right⟩, hends, rfl⟩ := List.mem_map.mp h
  obtain ⟨hleft, hright⟩ := List.of_mem_zip (List.of_mem_zip hends).2
  exact ⟨hleft, List.mem_of_mem_tail hright⟩

/-- A relationship is between nodes of the patterns. -/
theorem Relationship.ends_mem_referents {ps : List Pattern} {count : Nat} {r : Relationship}
    (h : r ∈ Relationship.ofPatterns count ps) :
    r.left ∈ (NodePattern.referents count (ps.flatMap Pattern.nodes)).map Prod.fst ∧
      r.right ∈ (NodePattern.referents count (ps.flatMap Pattern.nodes)).map Prod.fst := by
  induction ps generalizing count with
  | nil => cases h
  | cons p ps ih =>
      rw [List.flatMap_cons, NodePattern.referents_append, List.map_append]
      rcases List.mem_append.mp h with hfirst | hrest
      · obtain ⟨hleft, hright⟩ := Pattern.ends_mem_referents hfirst
        exact ⟨List.mem_append_left _ hleft, List.mem_append_left _ hright⟩
      · obtain ⟨hleft, hright⟩ := ih hrest
        exact ⟨List.mem_append_right _ hleft, List.mem_append_right _ hright⟩

namespace Creation

/-- Nodes go by their keys, and edges are attached to keys of nodes. -/
structure Joined (created : Creation) : Prop where
  keys : ∀ k ∈ created.nodes, k.node.endpoint? = some k.key
  attached : ∀ bound ∈ created.edges,
    bound.left = bound.edge.source ∧ bound.right = bound.edge.target
  ends : ∀ bound ∈ created.edges,
    bound.edge.source ∈ created.nodes.map KeyedNode.key ∧
      bound.edge.target ∈ created.nodes.map KeyedNode.key

theorem IsOf.joined {created : Creation} {n count : Nat} {ps : List Pattern}
    (h : created.IsOf n count (ps.flatMap Pattern.nodes) (Relationship.ofPatterns count ps)) :
    created.Joined := by
  have hkeys : created.nodes.map KeyedNode.key =
      (NodePattern.referents count (ps.flatMap Pattern.nodes)).map fun r => r.1.key n :=
    map_eq_of_forall₂ h.nodes fun _ _ hk => hk.key
  have hmem : ∀ r ∈ (NodePattern.referents count (ps.flatMap Pattern.nodes)).map Prod.fst,
      r.key n ∈ created.nodes.map KeyedNode.key := by
    intro r hr
    obtain ⟨entry, hentry, rfl⟩ := List.mem_map.mp hr
    rw [hkeys]
    exact List.mem_map_of_mem hentry
  refine ⟨fun k hk => ?_, h.attached, fun bound hbound => ?_⟩
  · obtain ⟨r, -, hr⟩ := exists_mem_of_forall₂ h.nodes hk
    exact hr.endpoint
  · obtain ⟨r, hr, hdescribes⟩ := exists_mem_of_forall₂ h.edges hbound
    obtain ⟨hleft, hright⟩ := Relationship.ends_mem_referents hr
    rcases hdescribes.ends with ⟨-, hsource, htarget⟩ | ⟨-, hsource, htarget⟩
    · rw [hsource, htarget]
      exact ⟨hmem _ hleft, hmem _ hright⟩
    · rw [hsource, htarget]
      exact ⟨hmem _ hright, hmem _ hleft⟩

end Creation

/-! ## Inserts -/

/-- An end is looked for among the fields first. -/
theorem isEnd_endpointExpr {scope : Schema} {nodes : List Node} {key : String}
    (h : key ∉ scope.names → NamesOne nodes key) :
    (endpointExpr scope key).IsEnd scope nodes key := by
  unfold endpointExpr
  split
  · next i field hfound => exact Or.inl ⟨i, field, Schema.find?_eq_some_iff.mp hfound, rfl⟩
  · next hnone =>
      have hnew := Schema.find?_eq_none_iff.mp hnone
      exact Or.inr ⟨hnew, rfl, h hnew⟩

/-- The columns of new nodes are node literals. -/
theorem mem_newNodes {scope : Schema} {n : Nat} {nodes : List (String × Node)} :
    ∀ c ∈ (newNodes scope n nodes).1, ∃ node, c.expr = .ofValue (.node node) := by
  induction nodes generalizing n with
  | nil => exact List.forall_mem_nil _
  | cons first rest ih =>
      obtain ⟨key, node⟩ := first
      unfold newNodes
      split
      · exact ih
      · split
        · exact List.forall_mem_cons.mpr ⟨⟨node, rfl⟩, ih⟩
        · exact List.forall_mem_cons.mpr ⟨⟨node, rfl⟩, ih⟩

/-- What an insert reads has the ends of all its edges. -/
theorem insertInput_joins {top : Option Plan} {created : Creation} {input : Plan}
    (hjoined : created.Joined)
    (h : insertInput top (KeyedNode.collect [] created.nodes) created.edges = .ok input) :
    input.JoinsEdges top.toList := by
  obtain ⟨hnodes, -⟩ := insertInput_creates h hjoined.attached
  have hone : ∀ key ∈ created.nodes.map KeyedNode.key, key ∉ (scopeOf top).names →
      NamesOne input.createdNodes key := by
    intro key hkey hnew
    rw [hnodes]
    exact KeyedNode.namesOne_fresh hjoined.keys hkey hnew
  cases top with
  | none =>
      rw [insertInput] at h
      obtain rfl := (Plan.yields_values _).result h
      refine .written rfl fun edge hedge => ?_
      obtain ⟨bound, hbound, rfl⟩ := List.mem_map.mp hedge
      obtain ⟨hsource, htarget⟩ := hjoined.ends bound hbound
      exact ⟨hone _ hsource List.not_mem_nil, hone _ htarget List.not_mem_nil⟩
  | some p =>
      obtain ⟨columns, hcolumns, h⟩ := bind_eq_ok.mp h
      obtain rfl := (Plan.yields_projectColumns p columns).result h
      obtain ⟨edgeColumns, hedgeColumns, hcolumns⟩ := bind_eq_ok.mp hcolumns
      cases hcolumns
      refine .computed rfl fun column hcolumn => ?_
      rcases List.mem_append.mp hcolumn with hnode | hedge
      · exact Or.inl (mem_newNodes column hnode)
      · right
        obtain ⟨-, -, hcalls⟩ := newEdges_creates hedgeColumns
        obtain ⟨bound, hbound, ty, hexpr⟩ := hcalls column hedge
        obtain ⟨hleft, hright⟩ := hjoined.attached bound hbound
        obtain ⟨hsource, htarget⟩ := hjoined.ends bound hbound
        rw [hleft, hright] at hexpr
        exact ⟨bound.edge, _, _, ty, hexpr, isEnd_endpointExpr (hone _ hsource),
          isEnd_endpointExpr (hone _ htarget)⟩

/-- The clause puts an insert on the plan so far. Its edges are those of the relationships, each
pointing from source to target, and they have their ends. -/
theorem CreateClause.step_joins {source : GraphSource} {top : Option Plan} {n m : Nat}
    {c : CreateClause} {p : Plan} (h : c.step source top n = .ok (p, m)) :
    ∃ entity input, p.op = .modify entity .insert [] ∧ p.inputs = [input] ∧
      input.inputs = top.toList ∧
      List.Forall₂ (Relationship.Describes (Referent.key n)) (Relationship.ofPatterns 0 c.patterns)
        input.createdEdges ∧
      input.JoinsEdges top.toList := by
  obtain ⟨⟨created, k⟩, hcreated, h⟩ := bind_eq_ok.mp h
  obtain ⟨p, hp, h⟩ := bind_eq_ok.mp h
  cases h
  have hisOf : created.IsOf n 0 _ _ := createPatterns_isOf hcreated
  obtain ⟨entity, input, hinput, hop, hinputs⟩ := GraphSource.insert_eq_ok hp
  obtain ⟨-, hedges, -, hbelow⟩ := insertInput_creates hinput hisOf.attached
  refine ⟨entity, input, hop, hinputs, hbelow, ?_, insertInput_joins hisOf.joined hinput⟩
  rw [hedges]
  exact List.forall₂_map_right_iff.mpr hisOf.edges

/-! ## Inserts that are written out -/

/-- A name that one node goes by is among the names of nodes. -/
theorem NamesOne.mem_endpoints {nodes : List Node} {key : String} (h : NamesOne nodes key) :
    key ∈ nodes.filterMap NodeOf.endpoint? := by
  have hpos : 0 < nodes.countP (fun node => node.endpoint? = some key) := by
    rw [h]
    exact Nat.one_pos
  obtain ⟨node, hnode, hkey⟩ := List.countP_pos_iff.mp hpos
  exact List.mem_filterMap.mpr ⟨node, hnode, of_decide_eq_true hkey⟩

/-- Nodes and edges without rows are accepted if each edge has its ends. -/
theorem Plan.exists_values {nodes : List Node} {edges : List Edge}
    (h : ∀ edge ∈ edges, NamesOne nodes edge.source ∧ NamesOne nodes edge.target) :
    ∃ p, Plan.values ⟨nodes, edges, [], []⟩ = .ok p := by
  have hends : edges.find? (fun edge => !LiteralRows.holdsEnds ⟨nodes, edges, [], []⟩ edge) =
      none := by
    refine List.find?_eq_none.mpr fun edge hedge => ?_
    obtain ⟨hsource, htarget⟩ := h edge hedge
    simp [LiteralRows.holdsEnds, hsource.mem_endpoints, htarget.mem_endpoints]
  have hbuild : Plan.values ⟨nodes, edges, [], []⟩ = Plan.build (.values ⟨nodes, edges, [], []⟩) []
      (LiteralRows.schema ⟨nodes, edges, [], []⟩) .graph := by
    simp [Plan.values, hends]
  exact ⟨_, hbuild.trans rfl⟩

theorem Plan.exists_modify_insert (entity : Entity) (input : Plan) :
    ∃ p, Plan.modify entity input .insert [] [] = .ok p := by
  have htargets : Plan.modify entity input .insert [] [] =
      Plan.modifyTargets entity input .insert [] := rfl
  rw [htargets]
  exact ⟨_, Plan.modifyTargets_eq_ok.mpr ⟨rfl, rfl⟩⟩

theorem KeyedNode.collect_ne_nil {ks : List KeyedNode} (h : ks ≠ []) : collect [] ks ≠ [] := by
  obtain ⟨k, ks, rfl⟩ := List.exists_cons_of_ne_nil h
  rw [collect_eq]
  exact List.cons_ne_nil _ _

/-- Where nothing comes before it, a clause fails only if one of its patterns does. -/
theorem CreateClause.exists_step {entity : Entity} {n m : Nat} {c : CreateClause}
    {created : Creation} (hsome : c.patterns ≠ [])
    (h : createPatterns [] n c.patterns = .ok (created, m)) :
    ∃ p, c.step (.entity entity) none n = .ok (p, m) := by
  have hisOf : created.IsOf n 0 _ _ := createPatterns_isOf h
  have hnodes : created.nodes ≠ [] := by
    intro hnone
    obtain ⟨p, ps, hpatterns⟩ := List.exists_cons_of_ne_nil hsome
    have hlength := hisOf.nodes.length_eq
    rw [hnone, hpatterns, List.flatMap_cons, NodePattern.referents_append, Pattern.nodes] at hlength
    simp [NodePattern.referents] at hlength
  have hcollected : KeyedNode.collect [] created.nodes =
      (KeyedNode.fresh [] created.nodes).map fun k => (k.key, k.node) :=
    KeyedNode.collect_eq [] created.nodes
  obtain ⟨input, hinput⟩ :
      ∃ input, insertInput none (KeyedNode.collect [] created.nodes) created.edges = .ok input := by
    rw [insertInput, hcollected, List.map_map]
    refine Plan.exists_values fun edge hedge => ?_
    obtain ⟨bound, hbound, rfl⟩ := List.mem_map.mp hedge
    obtain ⟨hsource, htarget⟩ := hisOf.joined.ends bound hbound
    exact ⟨KeyedNode.namesOne_fresh hisOf.joined.keys hsource List.not_mem_nil,
      KeyedNode.namesOne_fresh hisOf.joined.keys htarget List.not_mem_nil⟩
  obtain ⟨p, hp⟩ := Plan.exists_modify_insert entity input
  have hinsert : GraphSource.insert (.entity entity) none (KeyedNode.collect [] created.nodes)
      created.edges = .ok p := by
    have hwritten : (KeyedNode.collect [] created.nodes).isEmpty = false :=
      List.isEmpty_eq_false_iff.mpr (KeyedNode.collect_ne_nil hnodes)
    simp [GraphSource.insert, GraphSource.target, hwritten, hinput, hp]
  refine ⟨p, ?_⟩
  have hstep : c.step (.entity entity) none n =
      createPatterns [] n c.patterns >>= fun r =>
        GraphSource.insert (.entity entity) none (KeyedNode.collect [] r.1.nodes) r.1.edges >>=
          fun p => .ok (p, r.2) := rfl
  rw [hstep, h, ok_bind, hinsert, ok_bind]

namespace Compiler

/-- Only single queries compile. -/
theorem single_of_compiled {catalog : Catalog} {settings : Settings} {query : Query}
    {q : SingleQuery} {compiled : Compiled}
    (h : ((Compiler.new catalog settings).compile query).1 = .ok compiled)
    (hq : q ∈ query.parts) : query = .single q := by
  obtain ⟨root, p, hplan, -⟩ := compile_new_eq_ok h
  cases query with
  | single single => rw [List.mem_singleton.mp hq]
  | union queries all => cases hplan
  | periodicCommit batchSize single => cases hplan

/-- **Created edges have their ends.** Without a plan so far, a clause that creates is accepted
whenever its patterns are: no edge is refused for an end that is missing. In every query that
compiles, the plan has an insert for each clause that creates. The edges of this insert are the
relationships of the clause, all outgoing, with source and target exchanged exactly for incoming
ones. Without a plan so far, each end names exactly one of the nodes written out; over a plan, each
end is the last field of its name, or else a placeholder for exactly one of the nodes created along
with the edge. Compiled means: by a compiler that has served nothing yet, and so keeps no plan that
it could answer with instead. -/
theorem created_edges_never_dangle :
    (∀ (catalog : Catalog) (entity : Entity) (kind : Option QueryKind) (n m : Nat)
      (c : CreateClause) (created : Creation), c.patterns ≠ [] →
      createPatterns [] n c.patterns = .ok (created, m) →
      ∃ after, Drafting.createClause c ⟨catalog, .entity entity, [], [], [], [], kind, n⟩ =
        .ok () after) ∧
    ∀ (catalog : Catalog) (settings : Settings) (query : Query) (q : SingleQuery)
      (compiled : Compiled) (i : Nat) (c : CreateClause),
      ((Compiler.new catalog settings).compile query).1 = .ok compiled → q ∈ query.parts →
      q.clauses[i]? = some (.creating c) →
      ∃ (before : Draft) (input : Plan) (entity : Entity),
        q.draftAfter catalog settings.home settings.allowSubstitution i = .ok before ∧
        compiled.root.Holds (.modify entity .insert []) [input] ∧ input.inputs = before.stack ∧
        List.Forall₂ (Relationship.Describes (Referent.key before.anonymous))
          (Relationship.ofPatterns 0 c.patterns) input.createdEdges ∧
        input.JoinsEdges before.stack := by
  constructor
  · intro catalog entity kind n m c created hsome hcreated
    obtain ⟨p, hp⟩ : ∃ p, c.step (.entity entity) none n = .ok (p, m) :=
      CreateClause.exists_step hsome hcreated
    have houtcome : Drafting.outcome (Drafting.createClause c)
        (.between catalog (.entity entity) none kind n) =
          .ok ((), .between catalog (.entity entity) (some p) (some .insert) m) := by
      rw [Drafting.outcome_createClause, hp, ok_bind]
    exact ⟨_, Drafting.outcome_eq_ok.mp houtcome⟩
  · intro catalog settings query q compiled i c h hq hget
    rw [single_of_compiled h hq] at h
    obtain ⟨source, before, n, after, m, kindBefore, kindAfter, hbefore, -, hstep, hkept⟩ :=
      clause_of_compiled h hget
    obtain ⟨⟨p, k⟩, hstep, hp⟩ := bind_eq_ok.mp hstep
    cases hp
    obtain ⟨entity, input, hop, hinputs, hbelow, hedges, hjoins⟩ := CreateClause.step_joins hstep
    have hholds : compiled.root.Holds p.op p.inputs := by
      cases hkept p rfl with
      | node hholds => exact hholds
      | extended hbind _ =>
          rw [hop] at hbind
          cases hbind
    rw [hop, hinputs] at hholds
    exact ⟨_, input, entity, hbefore, hholds, hbelow, hedges, hjoins⟩

/-- `MATCH (a:Person) CREATE (:Post)<-[:WROTE]-(a)` -/
def credited : SingleQuery where
  clauses := [.matching ⟨false, [.node ⟨some "a", ["Person"], [], none⟩], none, none⟩,
    .creating ⟨[.path ⟨none, ⟨none, ["Post"], [], none⟩,
      [⟨none, ["WROTE"], .incoming, [], none, ⟨some "a", [], [], none⟩, none⟩], none⟩], none⟩]
  span := none

/-- The edge points from the person, a field of the match, to the post, which has no variable. -/
theorem credited_edges_joined :
    ∃ (compiled : Compiled) (upstream input : Plan) (entity : Entity),
      ((Compiler.new .withDefaultGraph .default).compile (.single credited)).1 = .ok compiled ∧
      compiled.root.Holds (.modify entity .insert []) [input] ∧
      upstream.schema = [⟨"a", .node⟩] ∧
      input.createdEdges.map (fun edge => (edge.source, edge.target)) = [("a", "_anon0")] ∧
      input.JoinsEdges [upstream] := by
  obtain ⟨compiled, h⟩ : ∃ compiled, ((Compiler.new .withDefaultGraph .default).compile
      (.single credited)).1 = .ok compiled := exists_compile_of_isOk (by decide +kernel)
  have hdraft : (credited.draftAfter .withDefaultGraph ⟨0⟩ true 1).toOption.map
      (fun d => (d.stack.map Plan.schema, d.anonymous)) = some ([[⟨"a", .node⟩]], 0) := by
    decide +kernel
  obtain ⟨before, input, entity, hbefore, hholds, -, hedges, hjoins⟩ :=
    created_edges_never_dangle.2 _ _ _ credited compiled 1 _ h (List.mem_singleton_self _) rfl
  change credited.draftAfter .withDefaultGraph ⟨0⟩ true 1 = .ok before at hbefore
  rw [hbefore] at hdraft
  obtain ⟨upstream, hstack, hschema⟩ :=
    List.map_eq_singleton_iff.mp (congrArg Prod.fst (Option.some.inj hdraft))
  have hcount : before.anonymous = 0 := congrArg Prod.snd (Option.some.inj hdraft)
  rw [hcount] at hedges
  have hends : input.createdEdges.map (fun edge => (edge.source, edge.target)) =
      [("a", "_anon0")] := by
    obtain ⟨edge, rest, hdescribes, hrest, hcreated⟩ := List.forall₂_cons_left_iff.mp hedges
    obtain rfl := List.forall₂_nil_left_iff.mp hrest
    rcases hdescribes.ends with ⟨houtgoing, -, -⟩ | ⟨-, hsource, htarget⟩
    · cases houtgoing
    · rw [hcreated, List.map_singleton, hsource, htarget]
      decide +kernel
  rw [hstack] at hjoins
  exact ⟨compiled, upstream, input, entity, h, hholds, hschema, hends, hjoins⟩

end Compiler

end QueryPlan
