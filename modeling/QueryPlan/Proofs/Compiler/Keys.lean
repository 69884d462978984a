import QueryPlan.Proofs.Lowering.Create
import QueryPlan.Proofs.Lowering.Paths
import QueryPlan.Proofs.Lowering.Progress

/-!
# The keys of a query

A node without a variable gets a key, numbered by a counter that matches and creations share and
that each clause takes over from the one before it. The nodes that a lowering makes are listed by
`nodesMade`, which follows it up to the point where it fails, if it does: a node made before that
point has its key from the same counter. All nodes are made in turn (`NodePattern.MadeInTurn`), so
their keys are those of an interval of numbers (`NodePattern.MadeInTurn.keys`), and no two of them
agree.
-/

namespace QueryPlan

/-! ## Nodes made in turn -/

/-- Nodes made one after the other, each with the counter that the one before it left. -/
inductive NodePattern.MadeInTurn : Nat → List NodePattern → List Node → Nat → Prop
  | nil (n : Nat) : NodePattern.MadeInTurn n [] [] n
  | cons {n k m : Nat} {p : NodePattern} {made : KeyedNode} {ps : List NodePattern}
      {nodes : List Node} : p.toNode n = .ok (made, k) → NodePattern.MadeInTurn k ps nodes m →
      NodePattern.MadeInTurn n (p :: ps) (made.node :: nodes) m

namespace NodePattern.MadeInTurn

variable {n k m : Nat} {ps qs : List NodePattern} {nodes others : List Node}

theorem append (h : MadeInTurn n ps nodes k) (hothers : MadeInTurn k qs others m) :
    MadeInTurn n (ps ++ qs) (nodes ++ others) m := by
  induction h with
  | nil => exact hothers
  | cons hfirst _ ih => exact .cons hfirst (ih hothers)

theorem describes (h : MadeInTurn n ps nodes m) :
    List.Forall₂ NodePattern.Describes ps nodes := by
  induction h with
  | nil => exact .nil
  | cons hfirst _ ih => exact .cons (toNode_eq_ok hfirst).1 ih

/-- A node has the next key if its pattern has no variable, and none otherwise. -/
theorem key_toNode {p : NodePattern} {made : KeyedNode} (h : p.toNode n = .ok (made, m)) :
    made.node.key.toList = (List.range' n (anonymous [p])).map Draft.anonymousKey := by
  obtain ⟨hdescribes, hkey, hendpoint, -⟩ := toNode_eq_ok h
  cases hvar : p.var with
  | some name =>
      have hnone : made.node.key = none := by simpa [hvar] using hdescribes.key
      rw [hnone, anonymous_singleton_of_some hvar]
      rfl
  | none =>
      have hsome : made.node.key = some (Draft.anonymousKey n) := by
        simpa [NodeOf.endpoint?, hdescribes.var, hkey, hvar] using hendpoint
      rw [hsome, anonymous_singleton_of_none hvar]
      rfl

/-- The keys are those of the numbers that the counter runs through. -/
theorem keys (h : MadeInTurn n ps nodes m) :
    nodes.filterMap NodeOf.key = (List.range' n (anonymous ps)).map Draft.anonymousKey := by
  induction h with
  | nil n => rfl
  | @cons n k m p made ps nodes hfirst _ ih =>
      obtain ⟨-, -, -, rfl⟩ := toNode_eq_ok hfirst
      calc
        (made.node :: nodes).filterMap NodeOf.key
            = made.node.key.toList ++ nodes.filterMap NodeOf.key := by
          cases hkey : made.node.key <;> simp [hkey]
        _ = (List.range' n (anonymous [p]) ++ List.range' (n + anonymous [p]) (anonymous ps)).map
            Draft.anonymousKey := by rw [key_toNode hfirst, ih, List.map_append]
        _ = (List.range' n (anonymous (p :: ps))).map Draft.anonymousKey := by
          rw [List.range'_append_1, ← anonymous_cons]

theorem nodup_keys (h : MadeInTurn n ps nodes m) : (nodes.filterMap NodeOf.key).Nodup := by
  rw [h.keys]
  exact (List.nodup_range' 1).map Draft.anonymousKey_injective

/-- The counter moves once for each key, so no key has been made that the nodes do not have. -/
theorem counter (h : MadeInTurn n ps nodes m) : m = n + (nodes.filterMap NodeOf.key).length := by
  rw [h.keys, List.length_map, List.length_range']
  induction h with
  | nil => rfl
  | @cons n k m p made ps nodes hfirst _ ih =>
      obtain ⟨-, -, -, rfl⟩ := toNode_eq_ok hfirst
      rw [ih, anonymous_cons p ps, Nat.add_assoc]

end NodePattern.MadeInTurn

/-! ## The nodes of patterns -/

/-- The nodes made on the way along relationships, as far as the lowering comes. -/
def EdgePattern.nodesMade (n : Nat) (left : String) : List EdgePattern → List Node
  | [] => []
  | p :: ps =>
    match p.target.toNode n with
    | .error _ => []
    | .ok (right, n) =>
      match p.toEdge left right.key with
      | .error _ => [right.node]
      | .ok _ => right.node :: EdgePattern.nodesMade n right.key ps

/-- The nodes made of a pattern that is matched, as far as the lowering comes. -/
def Pattern.nodesMade (n : Nat) (p : Pattern) : List Node :=
  match p.source.toNode n with
  | .error _ => []
  | .ok (first, n) => first.node :: EdgePattern.nodesMade n first.key p.edges

/-- The nodes made of a pattern that is created, as far as the lowering comes. -/
def Pattern.nodesCreated (scope : Schema) (n : Nat) (p : Pattern) : List Node :=
  if p.var.isSome || 1 < p.edges.length then []
  else
    match createNode scope n p.source with
    | .error _ => []
    | .ok (left, n) =>
      match p.edges with
      | [] => [left.node]
      | edge :: _ =>
        match createNode scope n edge.target with
        | .error _ => [left.node]
        | .ok (right, _) => [left.node, right.node]

/-- The nodes made of patterns one after the other, as far as the lowering comes. -/
def Pattern.nodesInTurn {α : Type} (made : Nat → Pattern → List Node)
    (lower : Nat → Pattern → Except Error (α × Nat)) (n : Nat) : List Pattern → List Node
  | [] => []
  | p :: ps =>
    match lower n p with
    | .error _ => made n p
    | .ok (_, m) => made n p ++ Pattern.nodesInTurn made lower m ps

/-- The nodes made of the patterns of a clause. -/
def Clause.nodesMade (scope : Schema) (n : Nat) : Clause → List Node
  | .matching c =>
    if c.optional then [] else Pattern.nodesInTurn Pattern.nodesMade Pattern.toPath n c.patterns
  | .creating c =>
    Pattern.nodesInTurn (Pattern.nodesCreated scope) (createPattern scope) n c.patterns
  | _ => []

/-- The nodes made while clauses are lowered onto a draft. -/
def Drafting.nodesMade (home : NamespaceId) : List Clause → Draft → List Node
  | [], _ => []
  | c :: cs, d =>
    match Drafting.clause home c d with
    | .error _ _ => c.nodesMade d.scope d.anonymous
    | .ok _ after => c.nodesMade d.scope d.anonymous ++ Drafting.nodesMade home cs after

/-- The nodes made while a query is lowered, in the order in which they are made. If the lowering
fails, these are the nodes made up to there. -/
def SingleQuery.nodesMade (q : SingleQuery) (catalog : Catalog) (home : NamespaceId)
    (allowSubstitution : Bool) : List Node :=
  match GraphSource.resolve catalog home allowSubstitution (mentionedLabels q.clauses) with
  | .error _ => []
  | .ok source => Drafting.nodesMade home q.clauses (.empty catalog source)

/-! ## Counters -/

section Patterns

open NodePattern (MadeInTurn)

/-- The relationships of a path are followed to the end. -/
theorem EdgePattern.madeInTurn_of_toSteps {ps : List EdgePattern} {n m : Nat} {left : String}
    {steps : List (Edge × Node)} (h : EdgePattern.toSteps n left ps = .ok (steps, m)) :
    EdgePattern.nodesMade n left ps = steps.map Prod.snd ∧
      MadeInTurn n (ps.map EdgePattern.target) (EdgePattern.nodesMade n left ps) m := by
  induction ps generalizing n left steps with
  | nil =>
      cases h
      exact ⟨rfl, .nil _⟩
  | cons p ps ih =>
      obtain ⟨⟨right, k⟩, hright, h⟩ := bind_eq_ok.mp h
      obtain ⟨edge, hedge, h⟩ := bind_eq_ok.mp h
      obtain ⟨⟨rest, l⟩, hrest, h⟩ := bind_eq_ok.mp h
      cases h
      obtain ⟨hnodes, hmade⟩ := ih hrest
      simp only [EdgePattern.nodesMade, hright, hedge]
      exact ⟨congrArg (right.node :: ·) hnodes, .cons hright hmade⟩

theorem Pattern.madeInTurn_of_toPath {p : Pattern} {n m : Nat} {path : Path}
    (h : p.toPath n = .ok (path, m)) :
    p.nodesMade n = path.nodes ∧ MadeInTurn n p.nodes (p.nodesMade n) m := by
  obtain ⟨⟨first, k⟩, hfirst, h⟩ := bind_eq_ok.mp h
  obtain ⟨⟨steps, l⟩, hsteps, h⟩ := bind_eq_ok.mp h
  cases h
  obtain ⟨hnodes, hmade⟩ := EdgePattern.madeInTurn_of_toSteps hsteps
  simp only [Pattern.nodesMade, hfirst]
  exact ⟨congrArg (first.node :: ·) hnodes, .cons hfirst hmade⟩

theorem Pattern.madeInTurn_of_createPattern {scope : Schema} {p : Pattern} {n m : Nat}
    {created : Creation} (h : createPattern scope n p = .ok (created, m)) :
    p.nodesCreated scope n = created.nodes.map KeyedNode.node ∧
      MadeInTurn n p.nodes (p.nodesCreated scope n) m := by
  obtain ⟨_, hvar, h⟩ := bind_eq_ok.mp h
  obtain ⟨_, hlength, h⟩ := bind_eq_ok.mp h
  obtain ⟨⟨left, k⟩, hleft, h⟩ := bind_eq_ok.mp h
  have haccepted : (p.var.isSome || decide (1 < p.edges.length)) = false := by
    simp_all
  rw [Pattern.nodesCreated, haccepted, Pattern.nodes]
  cases hedges : p.edges with
  | nil =>
      simp only [hedges] at h
      cases h
      simp only [hleft, Bool.false_eq_true, if_false]
      exact ⟨rfl, .cons (createNode_eq_ok hleft) (.nil _)⟩
  | cons edge rest =>
      -- There is at most one relationship.
      have hrest : rest = [] := by simpa [hedges] using hlength
      subst hrest
      simp only [hedges] at h
      obtain ⟨⟨right, l⟩, hright, h⟩ := bind_eq_ok.mp h
      obtain ⟨bound, -, h⟩ := bind_eq_ok.mp h
      cases h
      simp only [hleft, hright, Bool.false_eq_true, if_false]
      exact ⟨rfl, .cons (createNode_eq_ok hleft) (.cons (createNode_eq_ok hright) (.nil _))⟩

/-- Some patterns have been made nodes of in turn, the counter starting at `n`. -/
def KeyedFrom (n : Nat) (nodes : List Node) : Prop := ∃ ps m, MadeInTurn n ps nodes m

theorem KeyedFrom.nil (n : Nat) : KeyedFrom n [] := ⟨[], n, .nil n⟩

theorem KeyedFrom.cons {n k : Nat} {p : NodePattern} {made : KeyedNode} {nodes : List Node}
    (h : p.toNode n = .ok (made, k)) : KeyedFrom k nodes → KeyedFrom n (made.node :: nodes)
  | ⟨ps, m, hnodes⟩ => ⟨p :: ps, m, .cons h hnodes⟩

theorem NodePattern.MadeInTurn.keyedFrom {n k : Nat} {ps : List NodePattern}
    {nodes others : List Node} (h : MadeInTurn n ps nodes k) :
    KeyedFrom k others → KeyedFrom n (nodes ++ others)
  | ⟨qs, m, hothers⟩ => ⟨ps ++ qs, m, h.append hothers⟩

theorem EdgePattern.keyedFrom_nodesMade (n : Nat) (left : String) (ps : List EdgePattern) :
    KeyedFrom n (EdgePattern.nodesMade n left ps) := by
  fun_induction EdgePattern.nodesMade n left ps with
  | case1 n => exact .nil n
  | case2 n => exact .nil n
  | case3 _ _ _ _ _ _ hright => exact .cons hright (.nil _)
  | case4 _ _ _ _ _ _ hright _ _ ih => exact .cons hright ih

theorem Pattern.keyedFrom_nodesMade (n : Nat) (p : Pattern) : KeyedFrom n (p.nodesMade n) := by
  unfold Pattern.nodesMade
  split
  · exact .nil n
  · next hfirst => exact .cons hfirst (EdgePattern.keyedFrom_nodesMade _ _ _)

theorem Pattern.keyedFrom_nodesCreated (scope : Schema) (n : Nat) (p : Pattern) :
    KeyedFrom n (p.nodesCreated scope n) := by
  unfold Pattern.nodesCreated
  split
  · exact .nil n
  · split
    · exact .nil n
    · next hleft =>
        split
        · exact .cons (createNode_eq_ok hleft) (.nil _)
        · split
          · exact .cons (createNode_eq_ok hleft) (.nil _)
          · next hright =>
              exact .cons (createNode_eq_ok hleft) (.cons (createNode_eq_ok hright) (.nil _))

section Sequences

variable {α β : Type} {made : Nat → Pattern → List Node}
  {lower : Nat → Pattern → Except Error (α × Nat)}
  {all : Nat → List Pattern → Except Error (β × Nat)} {n m : Nat} {ps : List Pattern} {b : β}

/-- By induction on the patterns: the counter that one of them leaves is where the next one starts.
-/
theorem Pattern.madeInTurn_of_all
    (hlower : ∀ {n p a k}, lower n p = .ok (a, k) → MadeInTurn n p.nodes (made n p) k)
    (hnil : ∀ {n b k}, all n [] = .ok (b, k) → n = k)
    (hcons : ∀ {n p ps b k}, all n (p :: ps) = .ok (b, k) →
      ∃ a l b', lower n p = .ok (a, l) ∧ all l ps = .ok (b', k))
    (h : all n ps = .ok (b, m)) :
    MadeInTurn n (ps.flatMap Pattern.nodes) (Pattern.nodesInTurn made lower n ps) m := by
  induction ps generalizing n b with
  | nil =>
      obtain rfl := hnil h
      exact .nil n
  | cons p ps ih =>
      obtain ⟨a, k, b', hp, hps⟩ := hcons h
      simp only [Pattern.nodesInTurn, hp, List.flatMap_cons]
      exact (hlower hp).append (ih hps)

theorem Pattern.keyedFrom_nodesInTurn
    (hlower : ∀ {n p a k}, lower n p = .ok (a, k) → MadeInTurn n p.nodes (made n p) k)
    (hmade : ∀ n p, KeyedFrom n (made n p)) (n : Nat) (ps : List Pattern) :
    KeyedFrom n (Pattern.nodesInTurn made lower n ps) := by
  fun_induction Pattern.nodesInTurn made lower n ps with
  | case1 n => exact .nil n
  | case2 n p => exact hmade n p
  | case3 n p ps a k hp ih => exact (hlower hp).keyedFrom ih

end Sequences

variable {catalog : Catalog} {source : GraphSource} {home : NamespaceId} {top : Option Plan}
  {n : Nat} {kind : Option QueryKind}

/-- The counter after a clause is where its nodes have brought it. -/
theorem Clause.madeInTurn_of_step {c : Clause} {r : Option Plan × Nat}
    (h : c.step catalog source home top n = .ok r) :
    MadeInTurn n (c.patterns.flatMap Pattern.nodes) (c.nodesMade (scopeOf top) n) r.2 := by
  have hsame {x : Except Error Plan} (hx : (x >>= fun p => .ok (some p, n)) = .ok r) :
      MadeInTurn n [] [] r.2 := by
    obtain ⟨p, -, hx⟩ := bind_eq_ok.mp hx
    cases hx
    exact .nil n
  cases c with
  | matching c =>
      obtain ⟨p, -, hstep⟩ := Clause.step_matching.mp h
      obtain ⟨hoptional, paths, -, -, hpaths, -⟩ := MatchClause.step_eq_ok.mp hstep
      simp only [Clause.nodesMade, hoptional, Bool.false_eq_true, if_false]
      refine Pattern.madeInTurn_of_all (fun hp => (Pattern.madeInTurn_of_toPath hp).2) ?_ ?_ hpaths
      · rintro _ _ _ ⟨⟩
        rfl
      · intro n p ps b k hall
        obtain ⟨⟨path, l⟩, hp, hall⟩ := bind_eq_ok.mp hall
        obtain ⟨⟨rest, _⟩, hps, hall⟩ := bind_eq_ok.mp hall
        cases hall
        exact ⟨path, l, rest, hp, hps⟩
  | creating c =>
      obtain ⟨⟨p, m⟩, hstep, h⟩ := bind_eq_ok.mp h
      cases h
      obtain ⟨⟨created, k⟩, hcreated, hstep⟩ := bind_eq_ok.mp hstep
      obtain ⟨q, -, hstep⟩ := bind_eq_ok.mp hstep
      cases hstep
      refine Pattern.madeInTurn_of_all (fun hp => (Pattern.madeInTurn_of_createPattern hp).2) ?_ ?_
        hcreated
      · rintro _ _ _ ⟨⟩
        rfl
      · intro n p ps b k hall
        obtain ⟨⟨first, l⟩, hp, hall⟩ := bind_eq_ok.mp hall
        obtain ⟨⟨rest, _⟩, hps, hall⟩ := bind_eq_ok.mp hall
        cases hall
        exact ⟨first, l, rest, hp, hps⟩
  | passing w =>
      obtain ⟨input, -, h⟩ := bind_eq_ok.mp h
      obtain ⟨p, -, h⟩ := bind_eq_ok.mp h
      exact hsame h
  | returning c =>
      obtain ⟨input, -, h⟩ := bind_eq_ok.mp h
      exact hsame h
  | setting c | removing c | deleting c =>
      obtain ⟨queued, -, h⟩ := bind_eq_ok.mp h
      exact hsame h
  | unwinding u => exact hsame h
  | calling call => exact hsame h
  | onGraph use =>
      cases h
      exact .nil n
  | merging c => cases h
  | repeating _ _ _ _ => cases h
  | loading c => cases h

theorem Clause.keyedFrom_nodesMade (scope : Schema) (n : Nat) (c : Clause) :
    KeyedFrom n (c.nodesMade scope n) := by
  cases c with
  | matching c =>
      rw [Clause.nodesMade]
      split
      · exact .nil n
      · exact Pattern.keyedFrom_nodesInTurn (fun hp => (Pattern.madeInTurn_of_toPath hp).2)
          Pattern.keyedFrom_nodesMade n c.patterns
  | creating c =>
      exact Pattern.keyedFrom_nodesInTurn (fun hp => (Pattern.madeInTurn_of_createPattern hp).2)
        (Pattern.keyedFrom_nodesCreated scope) n c.patterns
  | _ => exact .nil n

/-- By induction on the clauses, each of which starts from the draft that the one before it left. -/
theorem Drafting.madeInTurn_of_steps {index : Nat} {cs : List Clause} {r : Option Plan × Nat}
    (h : Clause.steps catalog source home index top n cs = .ok r) :
    MadeInTurn n ((cs.flatMap Clause.patterns).flatMap Pattern.nodes)
      (Drafting.nodesMade home cs (.between catalog source top kind n)) r.2 := by
  induction cs generalizing index top kind n with
  | nil =>
      cases h
      exact .nil n
  | cons c cs ih =>
      obtain ⟨mid, m, hstep, h⟩ := Clause.steps_cons_eq_ok h
      have hclause : Drafting.outcome (Drafting.clause home c)
          (.between catalog source top kind n) =
          .ok ((), .between catalog source mid (c.kindAfter kind) m) := by
        rw [Drafting.outcome_clause, hstep, ok_bind]
      simp only [Drafting.nodesMade, Drafting.outcome_eq_ok.mp hclause, Drafting.scope_between,
        List.flatMap_cons, List.flatMap_append]
      exact (Clause.madeInTurn_of_step hstep).append (ih h)

theorem Drafting.keyedFrom_nodesMade (cs : List Clause) :
    KeyedFrom n (Drafting.nodesMade home cs (.between catalog source top kind n)) := by
  induction cs generalizing top kind n with
  | nil => exact .nil n
  | cons c cs ih =>
      have hclause : Drafting.outcome (Drafting.clause home c)
          (.between catalog source top kind n) = _ := Drafting.outcome_clause home c top
      cases hstep : c.step catalog source home top n with
      | error e =>
          rw [hstep, error_bind] at hclause
          obtain ⟨after, hafter⟩ := Drafting.outcome_eq_error.mp hclause
          simp only [Drafting.nodesMade, hafter]
          exact c.keyedFrom_nodesMade _ n
      | ok r =>
          rw [hstep, ok_bind] at hclause
          simp only [Drafting.nodesMade, Drafting.outcome_eq_ok.mp hclause, Drafting.scope_between]
          exact (Clause.madeInTurn_of_step hstep).keyedFrom ih

end Patterns

/-- **Paths are connected as patterns are written, and keys tell nodes apart.**

- The path of a pattern has a node for each node of the pattern, with its labels, properties and
  variable, and one edge less. Edge `i` leads from node `i` to node `i + 1`, by the names under
  which edges refer to them, and has the types, the direction and the hops of its relationship.
- A pattern becomes a path if its properties are literals, and not otherwise.
- The keys made up while a query is lowered, by matches and by creations alike, are pairwise
  distinct, also if the lowering fails. If it succeeds, a node has been made of each node pattern,
  and the counter has moved once for each key.
-/
theorem paths_connected_as_written :
    (∀ (p : Pattern) (n m : Nat) (path : Path), p.toPath n = .ok (path, m) →
      p.ConnectedBy path ∧ p.nodesMade n = path.nodes) ∧
    (∀ (p : Pattern) (n : Nat), (∃ path m, p.toPath n = .ok (path, m)) ↔ p.AllLiteral) ∧
    (∀ (scope : Schema) (p : Pattern) (n m : Nat) (created : Creation),
      createPattern scope n p = .ok (created, m) →
      p.nodesCreated scope n = created.nodes.map KeyedNode.node) ∧
    ∀ (q : SingleQuery) (catalog : Catalog) (home : NamespaceId) (allow : Bool),
      ((q.nodesMade catalog home allow).filterMap NodeOf.key).Nodup ∧
      ∀ r, q.toPlan catalog home allow = .ok r →
        List.Forall₂ NodePattern.CarriedBy
          ((q.clauses.flatMap Clause.patterns).flatMap Pattern.nodes)
          (q.nodesMade catalog home allow) ∧
        ∃ d, q.draftAfter catalog home allow q.clauses.length = .ok d ∧
          d.anonymous = ((q.nodesMade catalog home allow).filterMap NodeOf.key).length := by
  refine ⟨fun p n m path h => ⟨Pattern.toPath_connectedBy h, (Pattern.madeInTurn_of_toPath h).1⟩,
    fun p n => Pattern.exists_toPath n,
    fun scope p n m created h => (Pattern.madeInTurn_of_createPattern h).1,
    fun q catalog home allow => ⟨?_, fun r h => ?_⟩⟩
  · unfold SingleQuery.nodesMade
    split
    · exact List.nodup_nil
    · rw [Draft.empty_eq_between]
      obtain ⟨ps, m, hmade⟩ := Drafting.keyedFrom_nodesMade q.clauses
      exact hmade.nodup_keys
  · rw [SingleQuery.toPlan_eq] at h
    obtain ⟨source, hsource, h⟩ := bind_eq_ok.mp h
    obtain ⟨⟨top, n⟩, hsteps, -⟩ := bind_eq_ok.mp h
    have hmade : NodePattern.MadeInTurn 0 _
        (Drafting.nodesMade home q.clauses (.between catalog source none none 0)) n :=
      Drafting.madeInTurn_of_steps hsteps
    have hdraft := SingleQuery.draftAfter_eq hsource (q.clauses.take_length.symm ▸ hsteps)
    simp only [SingleQuery.nodesMade, hsource, Draft.empty_eq_between]
    exact ⟨hmade.describes.imp fun _ _ hnode => hnode.carriedBy, _, hdraft,
      hmade.counter.trans (Nat.zero_add _)⟩

/-- `(:Person)-[:KNOWS*2..]->()<-[:WROTE {draft: false, draft: true}]-(b)` -/
def acquaintedAuthor : Pattern :=
  .path ⟨none, ⟨none, ["Person"], [], none⟩,
    [⟨none, ["KNOWS"], .outgoing, [], some ⟨some 2, none⟩, ⟨none, [], [], none⟩, none⟩,
      ⟨none, ["WROTE"], .incoming,
        [("draft", .literal (.bool false)), ("draft", .literal (.bool true))], none,
        ⟨some "b", [], [], none⟩, none⟩], none⟩

/-- `MATCH (:Person)-[:KNOWS*2..]->()<-[:WROTE {draft: false, draft: true}]-(b) MATCH (:Tag)
CREATE (b)-[:HAS]->(:Note)` -/
def authorNotes : SingleQuery where
  clauses := [.matching ⟨false, [acquaintedAuthor], none, none⟩,
    .matching ⟨false, [.node ⟨none, ["Tag"], [], none⟩], none, none⟩,
    .creating ⟨[.path ⟨none, ⟨some "b", [], [], none⟩,
      [⟨none, ["HAS"], .outgoing, [], none, ⟨none, ["Note"], [], none⟩, none⟩], none⟩], none⟩]
  span := none

/-- Two nodes in a row without a variable, then one with a variable; and keys that run on from one
clause to the next. -/
theorem authorNotes_connected :
    (∃ path m, acquaintedAuthor.toPath 7 = .ok (path, m) ∧ acquaintedAuthor.ConnectedBy path ∧
      path.edges.map (fun e => (e.source, e.target, e.minHops, e.maxHops)) =
        [("_anon7", "_anon8", 2, none), ("_anon8", "b", 1, some 1)]) ∧
    ∃ r, authorNotes.toPlan .withDefaultGraph ⟨0⟩ true = .ok r ∧
      ((authorNotes.nodesMade .withDefaultGraph ⟨0⟩ true).filterMap NodeOf.key).Nodup ∧
      (authorNotes.nodesMade .withDefaultGraph ⟨0⟩ true).filterMap NodeOf.key =
        ["_anon0", "_anon1", "_anon2", "_anon3"] ∧
      List.Forall₂ NodePattern.CarriedBy
        ((authorNotes.clauses.flatMap Clause.patterns).flatMap Pattern.nodes)
        (authorNotes.nodesMade .withDefaultGraph ⟨0⟩ true) ∧
      ∃ d, authorNotes.draftAfter .withDefaultGraph ⟨0⟩ true 3 = .ok d ∧ d.anonymous = 4 := by
  obtain ⟨hpath, -, -, hquery⟩ := paths_connected_as_written
  constructor
  · have hedges : (acquaintedAuthor.toPath 7).toOption.map (fun r => r.1.edges.map fun e =>
        (e.source, e.target, e.minHops, e.maxHops)) =
        some [("_anon7", "_anon8", 2, none), ("_anon8", "b", 1, some 1)] := by decide +kernel
    obtain ⟨⟨path, m⟩, h, hedges⟩ := toOption_map_eq_some.mp hedges
    exact ⟨path, m, h, (hpath _ _ _ _ h).1, hedges⟩
  · obtain ⟨hnodup, hcarried⟩ := hquery authorNotes .withDefaultGraph ⟨0⟩ true
    have hplan : (authorNotes.toPlan .withDefaultGraph ⟨0⟩ true).toOption.map (fun _ => ()) =
        some () := by decide +kernel
    obtain ⟨r, h, -⟩ := toOption_map_eq_some.mp hplan
    have hkeys : (authorNotes.nodesMade .withDefaultGraph ⟨0⟩ true).filterMap NodeOf.key =
        ["_anon0", "_anon1", "_anon2", "_anon3"] := by decide +kernel
    obtain ⟨hnodes, d, hdraft, hcount⟩ := hcarried r h
    rw [hkeys] at hcount
    exact ⟨r, h, hnodup, hkeys, hnodes, d, hdraft, hcount⟩

end QueryPlan
