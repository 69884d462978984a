import QueryPlan.Proofs.Compiler.Endpoints
import QueryPlan.Proofs.Compiler.Models
import QueryPlan.Proofs.Compiler.Writes

/-!
# Writes that write nothing

Every write of a plan is the work of one clause (`SingleQuery.write_made_by`). An update or a
deletion without targets is refused. A clause that creates is refused if it has no patterns at all.
What it creates is found out later: its relationships, and of its nodes those that the plan so far
has no field for. So an insert creates nothing if the clause only names nodes that are there
(`Compiler.writes_nonempty_iff`).
-/

namespace QueryPlan

/-! ## Inserts that create something -/

/-- What an insert reads creates something: nodes that are written out, or a column that is a node
literal or attaches an edge. -/
def Plan.createsSomething (p : Plan) : Bool :=
  match p.op with
  | .values rows => !rows.nodes.isEmpty
  | .project columns =>
      columns.any fun c => c.expr.createdNode?.isSome || c.expr.createdEdge?.isSome
  | _ => false

/-- The patterns have a relationship, or a node that goes by a key that is no field of the scope. -/
def NamesNew (scope : Schema) (n : Nat) (ps : List Pattern) : Prop :=
  (∃ p ∈ ps, p.edges ≠ []) ∨
    ∃ r ∈ NodePattern.referents 0 (ps.flatMap Pattern.nodes), r.1.key n ∉ scope.names

instance (scope : Schema) (n : Nat) (ps : List Pattern) : Decidable (NamesNew scope n ps) :=
  inferInstanceAs (Decidable ((∃ p ∈ ps, p.edges ≠ []) ∨ ∃ r ∈ _, _))

theorem Plan.createsSomething_values {p : Plan} {rows : LiteralRows} (h : p.op = .values rows) :
    p.createsSomething = true ↔ p.createdNodes ≠ [] := by
  simp [createsSomething, createdNodes, h]

theorem Plan.createsSomething_project {p : Plan} {columns : List Column}
    (h : p.op = .project columns) :
    p.createsSomething = true ↔ p.createdNodes ≠ [] ∨ p.createdEdges ≠ [] := by
  simp only [createsSomething, createdNodes, createdEdges, h, List.any_eq_true, Bool.or_eq_true,
    Option.isSome_iff_ne_none, ne_eq, List.filterMap_eq_nil_iff, not_forall, exists_prop,
    and_or_left, exists_or]

theorem KeyedNode.fresh_ne_nil_iff {taken : List String} {ks : List KeyedNode} :
    fresh taken ks ≠ [] ↔ ∃ k ∈ ks, k.key ∉ taken := by
  constructor
  · intro h
    obtain ⟨k, hk⟩ := List.exists_mem_of_ne_nil _ h
    exact ⟨k, mem_fresh hk⟩
  · rintro ⟨k, hk, hnew⟩ hnil
    have hkey := key_mem_fresh (List.mem_map_of_mem hk) hnew
    rw [hnil] at hkey
    cases hkey

theorem Pattern.relationships_eq_nil_iff {p : Pattern} {count : Nat} :
    p.relationships count = [] ↔ p.edges = [] := by
  cases hedges : p.edges with
  | nil => simp [Pattern.relationships, hedges]
  | cons edge edges =>
      simp [Pattern.relationships, hedges, Pattern.nodes, NodePattern.referents]

theorem Relationship.ofPatterns_ne_nil_iff {ps : List Pattern} (count : Nat) :
    Relationship.ofPatterns count ps ≠ [] ↔ ∃ p ∈ ps, p.edges ≠ [] := by
  induction ps generalizing count with
  | nil => simp [Relationship.ofPatterns]
  | cons p ps ih =>
      rw [Relationship.ofPatterns, ne_eq, List.append_eq_nil_iff, not_and_or,
        Pattern.relationships_eq_nil_iff, ← ne_eq, ← ne_eq, ih _, List.exists_mem_cons_iff]

/-- The nodes that a clause creates, if any: those under keys that are no fields. -/
theorem Creation.IsOf.fresh_ne_nil_iff {created : Creation} {n : Nat} {nodes : List NodePattern}
    {edges : List Relationship} (h : created.IsOf n 0 nodes edges) {taken : List String} :
    KeyedNode.fresh taken created.nodes ≠ [] ↔
      ∃ r ∈ NodePattern.referents 0 nodes, r.1.key n ∉ taken := by
  have hkeys : created.nodes.map KeyedNode.key =
      (NodePattern.referents 0 nodes).map fun r => r.1.key n :=
    map_eq_of_forall₂ h.nodes fun _ _ hk => hk.key
  have hmem : (∃ key ∈ created.nodes.map KeyedNode.key, key ∉ taken) ↔
      ∃ key ∈ (NodePattern.referents 0 nodes).map fun r => r.1.key n, key ∉ taken := by rw [hkeys]
  simpa [KeyedNode.fresh_ne_nil_iff] using hmem

/-- **A clause creates something exactly if it names something new.** -/
theorem CreateClause.step_createsSomething {source : GraphSource} {top : Option Plan} {n m : Nat}
    {c : CreateClause} {p : Plan} (h : c.step source top n = .ok (p, m)) :
    ∃ entity input, p.op = .modify entity .insert [] ∧ p.inputs = [input] ∧
      (input.createsSomething = true ↔ NamesNew (scopeOf top) n c.patterns) := by
  obtain ⟨⟨created, k⟩, hcreated, h⟩ := bind_eq_ok.mp h
  obtain ⟨p, hp, h⟩ := bind_eq_ok.mp h
  cases h
  have hisOf : created.IsOf n 0 _ _ := createPatterns_isOf hcreated
  obtain ⟨entity, input, hinput, hop, hinputs⟩ := GraphSource.insert_eq_ok hp
  obtain ⟨hnodes, hedges, -, -⟩ := insertInput_creates hinput hisOf.attached
  refine ⟨entity, input, hop, hinputs, ?_⟩
  have hnew : input.createdNodes ≠ [] ↔
      ∃ r ∈ NodePattern.referents 0 (c.patterns.flatMap Pattern.nodes),
        r.1.key n ∉ (scopeOf top).names := by
    rw [hnodes, ne_eq, List.map_eq_nil_iff]
    exact hisOf.fresh_ne_nil_iff
  have hjoined : input.createdEdges ≠ [] ↔ ∃ p ∈ c.patterns, p.edges ≠ [] := by
    rw [hedges, ← Relationship.ofPatterns_ne_nil_iff 0, ne_eq, ne_eq,
      ← List.length_eq_zero_iff, ← List.length_eq_zero_iff, List.length_map, hisOf.edges.length_eq]
  cases top with
  | none =>
      rw [insertInput] at hinput
      obtain rfl := (Plan.yields_values _).result hinput
      rw [Plan.createsSomething_values rfl, hnew, NamesNew, or_iff_right_of_imp]
      -- Nothing is there yet, so the ends of a relationship are new nodes.
      intro hrelated
      obtain ⟨r, hr⟩ := List.exists_mem_of_ne_nil _
        ((Relationship.ofPatterns_ne_nil_iff 0).mpr hrelated)
      obtain ⟨left, hleft, -⟩ := List.mem_map.mp (Relationship.ends_mem_referents hr).1
      exact ⟨left, hleft, List.not_mem_nil⟩
  | some q =>
      obtain ⟨columns, -, hinput⟩ := bind_eq_ok.mp hinput
      obtain rfl := (Plan.yields_projectColumns q columns).result hinput
      rw [Plan.createsSomething_project rfl, hnew, hjoined, NamesNew, or_comm]

/-! ## Which clause a write comes from -/

namespace Plan

variable {p q base : Plan} {op : Op} {inputs : List Plan} {w : Write × Entity}

theorem Holds.mem_allWrites (h : p.Holds op inputs) (hw : op.write? = some w) :
    w ∈ p.allWrites := by
  obtain ⟨n, hn, rfl, -⟩ := h
  exact List.mem_filterMap.mpr ⟨n, hn.mem_nodes, hw⟩

/-- A node with this operator is the root or is in an input. -/
theorem holds_cases {tag : Option Nat} {top : Op} {below : List Plan} {schema : Schema}
    {model : Model} (h : Holds ⟨tag, top, below, schema, model⟩ op inputs) :
    (top = op ∧ below = inputs) ∨ ∃ input ∈ below, input.Holds op inputs := by
  obtain ⟨n, hn, rfl, rfl⟩ := h
  cases hn with
  | self => exact Or.inl ⟨rfl, rfl⟩
  | input hn hmem => exact Or.inr ⟨_, hmem, n, hn, rfl, rfl⟩

theorem Holds.of_tagWith {tag : Nat} (h : (p.tagWith tag).Holds op inputs) : p.Holds op inputs := by
  rcases holds_cases h with ⟨rfl, rfl⟩ | ⟨input, hmem, hinput⟩
  · exact p.holds_self
  · exact hinput.isNodeOf (.input (.self input) hmem)

/-- The writes of a plan that reads another one without writing are those of the other one. -/
theorem ReadBy.holds_write (h : base.ReadBy p) (hp : p.Holds op inputs)
    (hw : op.write? = some w) : base.Holds op inputs := by
  induction h with
  | self => exact hp
  | read reading _ hreading _ hnode ih =>
      obtain ⟨s, m, rfl, -⟩ := (yields_rebuild reading _ _).result hnode
      rcases holds_cases hp with ⟨rfl, -⟩ | ⟨input, hmem, hinput⟩
      · rw [hreading] at hw
        cases hw
      · rw [List.mem_singleton.mp hmem] at hinput
        exact ih hinput

theorem holds_write_of_toModel {target : Model} {operation : QueryKind}
    (h : p.toModel target operation = .ok q) (hq : q.Holds op inputs) (hw : op.write? = some w) :
    p.Holds op inputs := by
  unfold toModel at h
  split at h
  · cases h
    exact hq
  · obtain rfl := (yields_transform _ _ _).result h
    rcases holds_cases hq with ⟨rfl, -⟩ | ⟨input, hmem, hinput⟩
    · cases hw
    · rwa [List.mem_singleton.mp hmem] at hinput

end Plan

section

variable {catalog : Catalog} {source : GraphSource} {home : NamespaceId} {top : Option Plan}
  {op : Op} {inputs : List Plan} {w : Write × Entity}

/-- Where a step starts, there are no writes but those of the plan so far. -/
theorem StartsFrom.holds_write {p : Plan} (h : StartsFrom catalog source top p)
    (hp : p.Holds op inputs) (hw : op.write? = some w) : ∃ q ∈ top, q.Holds op inputs := by
  cases top with
  | none =>
      -- A source of rows writes nothing.
      have hnone : p.HasWrites [] := h.hasWrites rfl
      have hmem := hp.mem_allWrites hw
      rw [hnone.anywhere] at hmem
      cases hmem
  | some q =>
      refine ⟨q, rfl, ?_⟩
      generalize htop : some q = top at h
      induction h with
      | top p =>
          cases htop
          exact hp
      | scan _ | values _ | call _ => cases htop
      | belowMatch _ _ hinputs ih =>
          refine ih (hp.isNodeOf (.input (.self _) ?_)) htop
          rw [hinputs]
          exact List.mem_cons_self

theorem ReadsFrom.holds_write {p : Plan} (h : ReadsFrom catalog source top p)
    (hp : p.Holds op inputs) (hw : op.write? = some w) : ∃ q ∈ top, q.Holds op inputs := by
  obtain ⟨base, hbase, hread⟩ := h
  exact hbase.holds_write (hread.holds_write hp hw) hw

/-- **A write of what a step makes** was there before, or it is the step's own. -/
theorem Clause.Makes.holds_write {c : Clause} {p : Plan}
    (h : c.Makes catalog source top (some p)) (hp : p.Holds op inputs) (hw : op.write? = some w) :
    (∃ q ∈ top, q.Holds op inputs) ∨ c.write? = some w.1 ∧ p.op = op ∧ p.inputs = inputs := by
  generalize hmade : some p = made at h
  cases h with
  | read _ _ hread =>
      cases hmade
      exact Or.inl (hread.holds_write hp hw)
  | write hclause _ hread hnode =>
      cases hmade
      obtain ⟨s, m, rfl, -⟩ := (Plan.yields_rebuild _ _ _).result hnode
      rcases Plan.holds_cases hp with ⟨rfl, rfl⟩ | ⟨input, hmem, hinput⟩
      · cases hw
        exact Or.inr ⟨hclause, rfl, rfl⟩
      · rw [List.mem_singleton.mp hmem] at hinput
        exact Or.inl (hread.holds_write hinput hw)
  | skip _ => exact Or.inl ⟨p, hmade.symm, hp⟩

/-- **A write of what a run leaves** was there before, or one of the clauses made it. -/
theorem Clause.steps_holds_write {cs : List Clause} {index n m : Nat} {p : Plan}
    (htop : TopReachable top)
    (h : Clause.steps catalog source home index top n cs = .ok (some p, m))
    (hp : p.Holds op inputs) (hw : op.write? = some w) :
    (∃ q ∈ top, q.Holds op inputs) ∨ ∃ i c before k made l, cs[i]? = some c ∧
      Clause.steps catalog source home index top n (cs.take i) = .ok (before, k) ∧
      c.step catalog source home before k = .ok (some made, l) ∧ c.write? = some w.1 ∧
      made.op = op ∧ made.inputs = inputs := by
  induction cs generalizing index top n with
  | nil =>
      cases h
      exact Or.inl ⟨p, rfl, hp⟩
  | cons c cs ih =>
      obtain ⟨mid, k, hstep, h⟩ := Clause.steps_cons_eq_ok h
      have hmakes := (c.yields_step catalog source home htop n).result hstep
      -- The rest of the run made the write, or it stands in what the first clause leaves.
      rcases ih (hmakes.reachable htop) h with
        ⟨q, hq, hholds⟩ | ⟨i, d, before, k, made, l, hget, hbefore, hrest⟩
      · obtain rfl : mid = some q := hq
        rcases hmakes.holds_write hholds hw with hbefore | ⟨hclause, hop, hinputs⟩
        · exact Or.inl hbefore
        · exact Or.inr ⟨0, c, top, n, q, k, rfl, rfl, hstep, hclause, hop, hinputs⟩
      · refine Or.inr ⟨i + 1, d, before, k, made, l, hget, ?_, hrest⟩
        rw [List.take_succ_cons, Clause.steps_of_step hstep]
        exact hbefore

/-- **Each write of a query's plan is made by one of its clauses.** -/
theorem SingleQuery.write_made_by {q : SingleQuery} {allow : Bool} {root : Plan}
    {kind : QueryKind} (h : q.toPlan catalog home allow = .ok (root, kind))
    (hroot : root.Holds op inputs) (hw : op.write? = some w) :
    ∃ i c source before kindBefore k made l, q.clauses[i]? = some c ∧
      q.draftAfter catalog home allow i = .ok (.between catalog source before kindBefore k) ∧
      c.step catalog source home before k = .ok (some made, l) ∧ c.write? = some w.1 ∧
      made.op = op ∧ made.inputs = inputs := by
  obtain ⟨source, n, hsource, hsteps, -⟩ := SingleQuery.toPlan_eq_ok h
  rcases Clause.steps_holds_write topReachable_none hsteps hroot hw with
    ⟨_, hnone, -⟩ | ⟨i, c, before, k, made, l, hget, hbefore, hrest⟩
  · cases hnone
  · exact ⟨i, c, source, before, _, k, made, l, hget, SingleQuery.draftAfter_eq hsource hbefore,
      hrest⟩

end

theorem Clause.exists_creating_of_write? {c : Clause} (h : c.write? = some .insert) :
    ∃ create, c = .creating create := by
  cases c with
  | creating create => exact ⟨create, rfl⟩
  | _ => cases h

/-! ## Compiled plans -/

/-- An update or a deletion that can be made has targets. -/
theorem Plan.WellBuilt.targets_ne_nil {p n : Plan} (h : p.WellBuilt) (hn : n.IsNodeOf p)
    {entity : Entity} {write : Write} {targets : List Binding}
    (hop : n.op = .modify entity write targets) (hwrite : write ≠ .insert) : targets ≠ [] := by
  have hagain := (h.isNodeOf hn).again
  rw [hop] at hagain
  obtain ⟨input, hinputs⟩ := exists_input_of_rebuild hagain rfl rfl
  rw [hinputs] at hagain
  exact mt (modify_eq_ok.mp hagain).1.mpr hwrite

namespace Compiler

/-- The insert of a clause, which the compiled plan keeps. -/
theorem insert_of_compiled {catalog : Catalog} {settings : Settings} {q : SingleQuery}
    {compiled : Compiled} {i : Nat} {c : CreateClause}
    (h : ((Compiler.new catalog settings).compile (.single q)).1 = .ok compiled)
    (hget : q.clauses[i]? = some (.creating c)) :
    ∃ before entity input,
      q.draftAfter catalog settings.home settings.allowSubstitution i = .ok before ∧
      compiled.root.Holds (.modify entity .insert []) [input] ∧
      (input.createsSomething = true ↔
        NamesNew before.scope before.anonymous c.patterns) := by
  obtain ⟨source, before, n, after, m, kindBefore, kindAfter, hbefore, -, hstep, hkept⟩ :=
    clause_of_compiled h hget
  obtain ⟨⟨p, k⟩, hstep, hp⟩ := bind_eq_ok.mp hstep
  cases hp
  obtain ⟨entity, input, hop, hinputs, hiff⟩ := CreateClause.step_createsSomething hstep
  have hholds : compiled.root.Holds p.op p.inputs := by
    cases hkept p rfl with
    | node hholds => exact hholds
    | extended hbind _ =>
        rw [hop] at hbind
        cases hbind
  rw [hop, hinputs] at hholds
  refine ⟨_, entity, input, hbefore, hholds, ?_⟩
  rw [Drafting.scope_between]
  exact hiff

/-- An insert in a compiled plan is traced back to the clause that made it. -/
theorem clause_of_insert {catalog : Catalog} {settings : Settings} {q : SingleQuery}
    {compiled : Compiled} {n : Plan} {entity : Entity} {targets : List Binding}
    (h : ((Compiler.new catalog settings).compile (.single q)).1 = .ok compiled)
    (hn : n.IsNodeOf compiled.root) (hop : n.op = .modify entity .insert targets) :
    ∃ i c before input, q.clauses[i]? = some (.creating c) ∧
      q.draftAfter catalog settings.home settings.allowSubstitution i = .ok before ∧
      n.inputs = [input] ∧
      (input.createsSomething = true ↔
        NamesNew before.scope before.anonymous c.patterns) := by
  obtain ⟨root, p, hplan, hp, hroot⟩ := compile_new_eq_ok h
  have hwrite : n.op.write? = some (.insert, entity) := by
    rw [hop]
    rfl
  have hholds : compiled.root.Holds n.op n.inputs := ⟨n, hn, rfl, rfl⟩
  rw [hroot] at hholds
  have hlowered := Plan.holds_write_of_toModel (toModel_of_deliver hp) hholds.of_tagWith hwrite
  obtain ⟨i, clause, source, top, kindBefore, k, made, l, hget, hdraft, hstep, hclause, -, hmade⟩ :=
    SingleQuery.write_made_by hplan hlowered hwrite
  obtain ⟨c, rfl⟩ := Clause.exists_creating_of_write? hclause
  obtain ⟨⟨_, _⟩, hstep, hsame⟩ := bind_eq_ok.mp hstep
  cases hsame
  obtain ⟨_, input, -, hinputs, hiff⟩ := CreateClause.step_createsSomething hstep
  refine ⟨i, c, _, input, hget, hdraft, hmade.symm.trans hinputs, ?_⟩
  rw [Drafting.scope_between]
  exact hiff

/-- **No write is empty, but for inserts that find everything there.** Whatever a compiler has been
asked before, an update or a deletion in a plan that it answers with has targets. In the plan of a
query all inserts create something, nodes that are written out, or columns of which one is a node
literal or attaches an edge, if and only if each clause of the query that creates has a relationship
or a node that goes by a key which is no field of the draft before it. -/
theorem writes_nonempty_iff (catalog : Catalog) (settings : Settings) :
    (∀ (c : Compiler) (query : Query) (compiled : Compiled), InUse catalog settings c →
      (c.compile query).1 = .ok compiled →
      ∀ (n : Plan) (entity : Entity) (write : Write) (targets : List Binding),
        n.IsNodeOf compiled.root → n.op = .modify entity write targets → write ≠ .insert →
        targets ≠ []) ∧
    ∀ (query : Query) (compiled : Compiled),
      ((Compiler.new catalog settings).compile query).1 = .ok compiled →
      ∃ q, query = .single q ∧
        ((∀ (n : Plan) (entity : Entity) (targets : List Binding), n.IsNodeOf compiled.root →
            n.op = .modify entity .insert targets →
            ∃ input, n.inputs = [input] ∧ input.createsSomething = true) ↔
          ∀ (i : Nat) (c : CreateClause), q.clauses[i]? = some (.creating c) →
            ∃ before, q.draftAfter catalog settings.home settings.allowSubstitution i =
                .ok before ∧
              NamesNew before.scope before.anonymous c.patterns) := by
  constructor
  · intro c query compiled hc h
    refine hc.holds_of_compiled (P := fun root => ∀ (n : Plan) (entity : Entity) (write : Write)
      (targets : List Binding), n.IsNodeOf root → n.op = .modify entity write targets →
        write ≠ .insert → targets ≠ []) ?_ h
    intro query root p kind tag hplan hp n entity write targets hn hop hwrite
    have hreach := Plan.Reachable.toModel (Query.reachable_toPlan hplan) (toModel_of_deliver hp)
    exact (hreach.wellBuilt.tagWith tag).targets_ne_nil hn hop hwrite
  · intro query compiled h
    obtain ⟨root, p, hplan, -⟩ := compile_new_eq_ok h
    cases query with
    | union _ _ => cases hplan
    | periodicCommit _ _ => cases hplan
    | single q =>
        refine ⟨q, rfl, ?_, ?_⟩
        · intro hall i c hget
          obtain ⟨before, entity, input, hbefore, ⟨n, hn, hop, hinputs⟩, hiff⟩ :=
            insert_of_compiled h hget
          obtain ⟨read, hread, hcreates⟩ := hall n entity [] hn hop
          rw [hinputs] at hread
          cases hread
          exact ⟨before, hbefore, hiff.mp hcreates⟩
        · intro hall n entity targets hn hop
          obtain ⟨i, c, before, input, hget, hbefore, hinputs, hiff⟩ := clause_of_insert h hn hop
          obtain ⟨draft, hdraft, hnew⟩ := hall i c hget
          cases hbefore.symm.trans hdraft
          exact ⟨input, hinputs, hiff.mpr hnew⟩

/-- `MATCH (a:Person) SET a.seen = true CREATE (a)` -/
def seenThenCreated : SingleQuery where
  clauses := [.matching ⟨false, [.node ⟨some "a", ["Person"], [], none⟩], none, none⟩,
    .setting ⟨[.property "a" "seen" (.literal (.bool true))], none⟩,
    .creating ⟨[.node ⟨some "a", [], [], none⟩], none⟩]
  span := none

/-- After an update nothing goes by the name of the person that was matched, so a node is
created. -/
theorem seenThenCreated_writes_nonempty :
    ∃ compiled,
      ((Compiler.new .withDefaultGraph .default).compile (.single seenThenCreated)).1 =
        .ok compiled ∧
      compiled.root.allWrites.map Prod.fst = [.update, .insert] ∧
      (∀ (n : Plan) (entity : Entity) (write : Write) (targets : List Binding),
        n.IsNodeOf compiled.root → n.op = .modify entity write targets → write ≠ .insert →
        targets ≠ []) ∧
      ∀ (n : Plan) (entity : Entity) (targets : List Binding), n.IsNodeOf compiled.root →
        n.op = .modify entity .insert targets →
        ∃ input, n.inputs = [input] ∧ input.createsSomething = true := by
  have hwrites : ((Compiler.new .withDefaultGraph .default).compile
      (.single seenThenCreated)).1.toOption.map
        (fun compiled => compiled.root.allWrites.map Prod.fst) = some [.update, .insert] := by
    decide +kernel
  have hdraft : (seenThenCreated.draftAfter .withDefaultGraph ⟨0⟩ true 2).toOption.map
      (fun d => decide (NamesNew d.scope d.anonymous [.node ⟨some "a", [], [], none⟩])) =
        some true := by decide +kernel
  obtain ⟨compiled, h, hwrites⟩ := toOption_map_eq_some.mp hwrites
  obtain ⟨before, hbefore, hnew⟩ := toOption_map_eq_some.mp hdraft
  obtain ⟨htargets, hinserts⟩ := writes_nonempty_iff .withDefaultGraph .default
  obtain ⟨q, hq, hiff⟩ := hinserts _ _ h
  cases hq
  refine ⟨compiled, h, hwrites, htargets _ _ _ .new h, hiff.mpr ?_⟩
  intro i c hget
  match i, hget with
  | 2, rfl => exact ⟨before, hbefore, of_decide_eq_true hnew⟩

/-- `MATCH (n) CREATE (n)` -/
def matchedThenCreated : SingleQuery where
  clauses := [.matching ⟨false, [.node ⟨some "n", [], [], none⟩], none, none⟩,
    .creating ⟨[.node ⟨some "n", [], [], none⟩], none⟩]
  span := none

/-- The node that is to be created is there already, and the insert creates nothing. -/
theorem matchedThenCreated_writes_nothing :
    ∃ compiled input,
      ((Compiler.new .withDefaultGraph .default).compile (.single matchedThenCreated)).1 =
        .ok compiled ∧
      compiled.root.op.write?.map Prod.fst = some .insert ∧ compiled.root.inputs = [input] ∧
      input.createsSomething = false := by
  have hroot : ((Compiler.new .withDefaultGraph .default).compile
      (.single matchedThenCreated)).1.toOption.map (fun compiled =>
        (compiled.root.op.write?.map Prod.fst,
          compiled.root.inputs.map Plan.createsSomething)) = some (some .insert, [false]) := by
    decide +kernel
  obtain ⟨compiled, h, hroot⟩ := toOption_map_eq_some.mp hroot
  obtain ⟨hwrite, hinputs⟩ := Prod.mk.inj hroot
  obtain ⟨input, hinput, hcreates⟩ := List.map_eq_singleton_iff.mp hinputs
  exact ⟨compiled, input, h, hwrite, hinput, hcreates⟩

end Compiler

end QueryPlan
