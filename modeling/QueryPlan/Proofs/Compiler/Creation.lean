import QueryPlan.Proofs.Compiler.Matches
import QueryPlan.Proofs.Draft.Endpoints
import QueryPlan.Proofs.Lowering.Create

/-!
# What a query creates

A clause that creates puts an insert on the plan. The nodes and edges that this insert creates are
written out, or over the plan so far they are columns, a node literal for each new node and a call
that attaches an edge to its ends for each new edge. Either way they are as the patterns of the
clause are written, exactly if the keys made up for nodes without a variable are fresh
(`Compiler.created_as_written_iff_keys_fresh`).
-/

namespace QueryPlan

/-! ## Reading created elements off a plan -/

/-- The node that a column creates. -/
def Expr.createdNode? : Expr → Option Node
  | .literal (.node node) _ => some node
  | _ => none

/-- The edge that a column creates. -/
def Expr.createdEdge? : Expr → Option Edge
  | .apply .adjustEdge (.literal (.edge edge) _ :: _) _ => some edge
  | _ => none

namespace Plan

/-- The nodes that an insert of the plan creates. -/
def createdNodes (p : Plan) : List Node :=
  match p.op with
  | .values rows => rows.nodes
  | .project columns => columns.filterMap fun c => c.expr.createdNode?
  | _ => []

/-- The edges that an insert of the plan creates. -/
def createdEdges (p : Plan) : List Edge :=
  match p.op with
  | .values rows => rows.edges
  | .project columns => columns.filterMap fun c => c.expr.createdEdge?
  | _ => []

/-- A column that creates an edge attaches it to the fields of the scope that have the names of its
ends, and to placeholders of these names where the scope has no such field. -/
def AttachesEdges (p : Plan) (scope : Schema) : Prop :=
  ∀ columns, p.op = .project columns → ∀ c ∈ columns, ∀ edge, c.expr.createdEdge? = some edge →
    ∃ ty, c.expr = .apply .adjustEdge
      [.ofValue (.edge edge), endpointExpr scope edge.source, endpointExpr scope edge.target] ty

end Plan

/-! ## Columns -/

/-- A column for each node that the scope has no field for. -/
theorem newNodes_creates (scope : Schema) (n : Nat) (nodes : List (String × Node)) :
    ((newNodes scope n nodes).1.filterMap fun c => c.expr.createdNode?) =
        (nodes.filter fun node => decide (node.1 ∉ scope.names)).map Prod.snd ∧
      ∀ c ∈ (newNodes scope n nodes).1, c.expr.createdEdge? = none := by
  induction nodes generalizing n with
  | nil => exact ⟨rfl, List.forall_mem_nil _⟩
  | cons first rest ih =>
      obtain ⟨key, node⟩ := first
      unfold newNodes
      by_cases hfield : key ∈ scope.names
      · rw [if_pos (Schema.isSome_indexOf?.mpr hfield),
          List.filter_cons_of_neg (by simpa using hfield)]
        exact ih n
      · rw [if_neg (mt Schema.isSome_indexOf?.mp hfield),
          List.filter_cons_of_pos (by simpa using hfield)]
        cases node.var with
        | some name =>
            obtain ⟨hnodes, hedges⟩ := ih n
            refine ⟨?_, List.forall_mem_cons.mpr ⟨rfl, hedges⟩⟩
            exact congrArg (node :: ·) hnodes
        | none =>
            obtain ⟨hnodes, hedges⟩ := ih (n + 1)
            refine ⟨?_, List.forall_mem_cons.mpr ⟨rfl, hedges⟩⟩
            exact congrArg (node :: ·) hnodes

/-- The call that creates an edge. -/
theorem createdEdge?_of_call {scope : Schema} {bound : BoundEdge} {call : Expr}
    (h : Expr.call .adjustEdge [.ofValue (.edge bound.edge), endpointExpr scope bound.left,
      endpointExpr scope bound.right] = .ok call) :
    ∃ ty, call = .apply .adjustEdge [.ofValue (.edge bound.edge), endpointExpr scope bound.left,
      endpointExpr scope bound.right] ty := by
  obtain ⟨ty, -, h⟩ := bind_eq_ok.mp h
  cases h
  exact ⟨ty, rfl⟩

/-- A column for each edge, attached to its ends. -/
theorem newEdges_creates {scope : Schema} {n : Nat} {edges : List BoundEdge}
    {columns : List Column} (h : newEdges scope n edges = .ok columns) :
    (columns.filterMap fun c => c.expr.createdNode?) = [] ∧
      (columns.filterMap fun c => c.expr.createdEdge?) = edges.map BoundEdge.edge ∧
      ∀ c ∈ columns, ∃ bound ∈ edges, ∃ ty, c.expr = .apply .adjustEdge
        [.ofValue (.edge bound.edge), endpointExpr scope bound.left,
          endpointExpr scope bound.right] ty := by
  induction edges generalizing n columns with
  | nil =>
      cases h
      exact ⟨rfl, rfl, List.forall_mem_nil _⟩
  | cons bound rest ih =>
      rw [newEdges, EndpointCase.ends_classify, ok_bind] at h
      obtain ⟨call, hcall, h⟩ := bind_eq_ok.mp h
      obtain ⟨ty, rfl⟩ := createdEdge?_of_call hcall
      -- With or without a name, a column for the edge comes before those of the rest.
      obtain ⟨name, m, others, hothers, rfl⟩ : ∃ name m others, newEdges scope m rest = .ok others ∧
          columns = ⟨name, .apply .adjustEdge [.ofValue (.edge bound.edge),
            endpointExpr scope bound.left, endpointExpr scope bound.right] ty⟩ :: others := by
        cases hname : bound.name with
        | some name =>
            simp only [hname] at h
            obtain ⟨others, hothers, h⟩ := bind_eq_ok.mp h
            cases h
            exact ⟨_, n, others, hothers, rfl⟩
        | none =>
            simp only [hname] at h
            obtain ⟨others, hothers, h⟩ := bind_eq_ok.mp h
            cases h
            exact ⟨_, n + 1, others, hothers, rfl⟩
      obtain ⟨hnodes, hedges, hcalls⟩ := ih hothers
      refine ⟨hnodes, congrArg (bound.edge :: ·) hedges, List.forall_mem_cons.mpr ⟨?_, ?_⟩⟩
      · exact ⟨bound, List.mem_cons_self, ty, rfl⟩
      · intro c hc
        obtain ⟨other, hother, hexpr⟩ := hcalls c hc
        exact ⟨other, List.mem_cons_of_mem _ hother, hexpr⟩

/-! ## Inserts -/

/-- What an insert reads creates the first node of each key that the scope has no field for, and all
edges, and it reads the plan so far. -/
theorem insertInput_creates {top : Option Plan} {ks : List KeyedNode} {edges : List BoundEdge}
    {input : Plan} (h : insertInput top (KeyedNode.collect [] ks) edges = .ok input)
    (hattached : ∀ bound ∈ edges,
      bound.left = bound.edge.source ∧ bound.right = bound.edge.target) :
    input.createdNodes = (KeyedNode.fresh (scopeOf top).names ks).map KeyedNode.node ∧
      input.createdEdges = edges.map BoundEdge.edge ∧ input.AttachesEdges (scopeOf top) ∧
      input.inputs = top.toList := by
  have hcollect : KeyedNode.collect [] ks =
      (KeyedNode.fresh [] ks).map fun k => (k.key, k.node) := KeyedNode.collect_eq [] ks
  rw [hcollect] at h
  cases top with
  | none =>
      rw [insertInput] at h
      obtain rfl := (Plan.yields_values _).result h
      refine ⟨List.map_map, rfl, ?_, rfl⟩
      intro columns hop
      cases hop
  | some p =>
      obtain ⟨columns, hcolumns, h⟩ := bind_eq_ok.mp h
      obtain rfl := (Plan.yields_projectColumns p columns).result h
      obtain ⟨edgeColumns, hedgeColumns, hcolumns⟩ := bind_eq_ok.mp hcolumns
      cases hcolumns
      obtain ⟨hnodes, hnodeColumns⟩ := newNodes_creates p.schema 0
        ((KeyedNode.fresh [] ks).map fun k => (k.key, k.node))
      obtain ⟨hnone, hedges, hcalls⟩ := newEdges_creates hedgeColumns
      refine ⟨?_, ?_, ?_, rfl⟩
      · -- The fields of the input are left out afterwards, as if they had been taken beforehand.
        have hfilter : (KeyedNode.fresh [] ks).filter (fun k => decide (k.key ∉ p.schema.names)) =
            KeyedNode.fresh p.schema.names ks := KeyedNode.filter_fresh ks (by simp)
        show List.filterMap _ _ = _
        rw [List.filterMap_append, hnodes, hnone, List.append_nil, List.filter_map, List.map_map]
        exact congrArg (List.map KeyedNode.node) hfilter
      · show List.filterMap _ _ = _
        rw [List.filterMap_append, List.filterMap_eq_nil_iff.mpr hnodeColumns, List.nil_append,
          hedges]
      · intro columns hop c hc edge hedge
        cases hop
        rcases List.mem_append.mp hc with hnode | hcall
        · rw [hnodeColumns c hnode] at hedge
          cases hedge
        · obtain ⟨bound, hbound, ty, hexpr⟩ := hcalls c hcall
          rw [hexpr] at hedge
          cases hedge
          obtain ⟨hleft, hright⟩ := hattached bound hbound
          rw [hleft, hright] at hexpr
          exact ⟨ty, hexpr⟩

theorem GraphSource.insert_eq_ok {source : GraphSource} {top : Option Plan}
    {nodes : List (String × Node)} {edges : List BoundEdge} {p : Plan}
    (h : source.insert top nodes edges = .ok p) :
    ∃ entity input, insertInput top nodes edges = .ok input ∧
      p.op = .modify entity .insert [] ∧ p.inputs = [input] := by
  unfold GraphSource.insert at h
  split at h
  · cases h
  · obtain ⟨entity, -, h⟩ := bind_eq_ok.mp h
    obtain ⟨input, hinput, h⟩ := bind_eq_ok.mp h
    obtain rfl := (Plan.yields_modify entity input .insert []).result h
    exact ⟨entity, input, hinput, rfl, rfl⟩

/-- **A clause creates what its patterns say, exactly if the keys it makes up are fresh.** -/
theorem CreateClause.step_creates {source : GraphSource} {top : Option Plan} {n m : Nat}
    {c : CreateClause} {p : Plan} (h : c.step source top n = .ok (p, m)) :
    ∃ entity input, p.op = .modify entity .insert [] ∧ p.inputs = [input] ∧
      input.inputs = top.toList ∧ input.AttachesEdges (scopeOf top) ∧
      (CreatesAsWritten (scopeOf top) c.patterns input.createdNodes input.createdEdges ↔
        KeysFresh (scopeOf top) n c.patterns) := by
  obtain ⟨⟨created, k⟩, hcreated, h⟩ := bind_eq_ok.mp h
  obtain ⟨p, hp, h⟩ := bind_eq_ok.mp h
  cases h
  have hisOf : created.IsOf n 0 _ _ := createPatterns_isOf hcreated
  obtain ⟨entity, input, hinput, hop, hinputs⟩ := GraphSource.insert_eq_ok hp
  obtain ⟨hnodes, hedges, hattaches, hbelow⟩ := insertInput_creates hinput hisOf.attached
  refine ⟨entity, input, hop, hinputs, hbelow, hattaches, ?_⟩
  rw [hnodes, hedges]
  exact createsAsWritten_iff hisOf.nodes (List.forall₂_map_right_iff.mpr hisOf.edges)

namespace Compiler

/-- **Nodes and edges are created as written exactly if the keys made up are fresh.** For each
clause that creates, the draft after it has an insert on top, which the compiled plan keeps. What
this insert reads creates the nodes and edges that the patterns of the clause describe, none lost
and no two made one, if and only if no key that the clause makes up for a node without a variable is
a variable of its nodes or a field of the draft before it. The compiler is one that has served
nothing yet. -/
theorem created_as_written_iff_keys_fresh (catalog : Catalog) (settings : Settings)
    (q : SingleQuery) (compiled : Compiled) (i : Nat) (c : CreateClause)
    (h : ((Compiler.new catalog settings).compile (.single q)).1 = .ok compiled)
    (hget : q.clauses[i]? = some (.creating c)) :
    ∃ (before after : Draft) (top input : Plan) (entity : Entity),
      q.draftAfter catalog settings.home settings.allowSubstitution i = .ok before ∧
      q.draftAfter catalog settings.home settings.allowSubstitution (i + 1) = .ok after ∧
      after.stack = [top] ∧ top.op = .modify entity .insert [] ∧ top.inputs = [input] ∧
      compiled.root.Holds (.modify entity .insert []) [input] ∧
      input.inputs = before.stack ∧ input.AttachesEdges before.scope ∧
      (CreatesAsWritten before.scope c.patterns input.createdNodes input.createdEdges ↔
        KeysFresh before.scope before.anonymous c.patterns) := by
  obtain ⟨source, before, n, after, m, kindBefore, kindAfter, hbefore, hafter, hstep, hkept⟩ :=
    clause_of_compiled h hget
  obtain ⟨⟨p, k⟩, hstep, hp⟩ := bind_eq_ok.mp hstep
  cases hp
  obtain ⟨entity, input, hop, hinputs, hbelow, hattaches, hiff⟩ := CreateClause.step_creates hstep
  have hholds : compiled.root.Holds p.op p.inputs := by
    cases hkept p rfl with
    | node hholds => exact hholds
    | extended hbind _ =>
        rw [hop] at hbind
        cases hbind
  rw [hop, hinputs] at hholds
  refine ⟨_, _, p, input, entity, hbefore, hafter, rfl, hop, hinputs, hholds, hbelow, ?_, ?_⟩
  · rw [Drafting.scope_between]
    exact hattaches
  · rw [Drafting.scope_between]
    exact hiff

/-- `MATCH (a:Person) CREATE (a)-[:WROTE]->(:Post), (b:Tag)` -/
def taggedPost : SingleQuery where
  clauses := [.matching ⟨false, [.node ⟨some "a", ["Person"], [], none⟩], none, none⟩,
    .creating ⟨[.path ⟨none, ⟨some "a", [], [], none⟩,
        [⟨none, ["WROTE"], .outgoing, [], none, ⟨none, ["Post"], [], none⟩, none⟩], none⟩,
      .node ⟨some "b", ["Tag"], [], none⟩], none⟩]
  span := none

theorem taggedPost_created_as_written :
    ∃ compiled input entity,
      ((Compiler.new .withDefaultGraph .default).compile (.single taggedPost)).1 = .ok compiled ∧
      compiled.root.Holds (.modify entity .insert []) [input] ∧
      CreatesAsWritten [⟨"a", .node⟩] ((taggedPost.clauses.drop 1).flatMap Clause.patterns)
        input.createdNodes input.createdEdges := by
  obtain ⟨compiled, h⟩ : ∃ compiled, ((Compiler.new .withDefaultGraph .default).compile
      (.single taggedPost)).1 = .ok compiled := exists_compile_of_isOk (by decide +kernel)
  have hdraft : (taggedPost.draftAfter .withDefaultGraph ⟨0⟩ true 1).toOption.map
      (fun d => (d.scope, d.anonymous)) = some ([⟨"a", .node⟩], 0) := by decide +kernel
  obtain ⟨before, after, top, input, entity, hbefore, -, -, -, -, hholds, -, -, hiff⟩ :=
    created_as_written_iff_keys_fresh _ _ taggedPost compiled 1 _ h rfl
  change taggedPost.draftAfter .withDefaultGraph ⟨0⟩ true 1 = .ok before at hbefore
  rw [hbefore] at hdraft
  have hscope : before.scope = [⟨"a", .node⟩] := congrArg Prod.fst (Option.some.inj hdraft)
  have hcount : before.anonymous = 0 := congrArg Prod.snd (Option.some.inj hdraft)
  rw [hscope, hcount] at hiff
  exact ⟨compiled, input, entity, h, hholds, hiff.mpr (by decide +kernel)⟩

/-- `CREATE (_anon0:A), (:B)` -/
def borrowedKey : SingleQuery where
  clauses := [.creating ⟨[.node ⟨some "_anon0", ["A"], [], none⟩,
    .node ⟨none, ["B"], [], none⟩], none⟩]
  span := none

/-- A variable may have the name that is made up as a key for another node. That node is then lost.
-/
theorem borrowedKey_loses_node :
    ∃ compiled input,
      ((Compiler.new .withDefaultGraph .default).compile (.single borrowedKey)).1 = .ok compiled ∧
      compiled.root.inputs = [input] ∧ input.createdNodes.map NodeOf.labels = [["A"]] ∧
      ¬CreatesAsWritten [] (borrowedKey.clauses.flatMap Clause.patterns) input.createdNodes
        input.createdEdges := by
  have hlabels : ((Compiler.new .withDefaultGraph .default).compile
      (.single borrowedKey)).1.toOption.map (fun compiled => compiled.root.inputs.map
        fun input => input.createdNodes.map NodeOf.labels) = some [[["A"]]] := by decide +kernel
  cases h : ((Compiler.new .withDefaultGraph .default).compile (.single borrowedKey)).1 with
  | error e =>
      rw [h] at hlabels
      cases hlabels
  | ok compiled =>
      rw [h] at hlabels
      obtain ⟨input, hinput, hlabels⟩ := List.map_eq_singleton_iff.mp (Option.some.inj hlabels)
      refine ⟨compiled, input, rfl, hinput, hlabels, ?_⟩
      rintro ⟨name, -, -, hnodes, -⟩
      -- Two nodes are due, and one is created.
      have hone : (input.createdNodes.map NodeOf.labels).length = 1 := by
        rw [hlabels, List.length_singleton]
      have htwo := hnodes.length_eq
      rw [List.length_map] at hone
      rw [hone] at htwo
      revert htwo
      decide

end Compiler

end QueryPlan
