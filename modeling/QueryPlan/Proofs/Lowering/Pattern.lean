import QueryPlan.Proofs.Lists
import QueryPlan.Proofs.Lowering.Direct

/-!
# What patterns bind

A clause turns its patterns into paths (`Pattern.toPaths`) and binds the elements that the paths
name. A name that comes again is left out twice over: within the clause, and against the match that
the clause extends. Neither changes what is bound in the end, which is what all named elements of
all paths add to the bindings there are (`Binding.extend_newBindings`). In this form clauses can be
cut in two and put together again.
-/

namespace QueryPlan

/-! ## Literals as patterns write them -/

/-- The literal has what the node pattern says. It has a key if the pattern has no variable. -/
structure NodePattern.Describes (p : NodePattern) (node : Node) : Prop where
  labels : node.labels = p.labels
  properties : literalProperties p.properties = .ok node.properties
  var : node.var = p.var
  key : node.key.isSome = p.var.isNone
  placeholder : node.placeholder = false

/-- The literal has what the relationship says. Without a range it is one hop long. -/
structure EdgePattern.Describes (p : EdgePattern) (edge : Edge) : Prop where
  types : edge.labels = p.types
  properties : literalProperties p.properties = .ok edge.properties
  var : edge.var = p.var
  direction : edge.direction = p.direction
  minHops : edge.minHops = (p.range.bind HopRange.least).getD 1
  maxHops : edge.maxHops = (p.range.map HopRange.most).getD (some 1)

/-- The path has the nodes and the relationships of the pattern, in order. -/
structure Pattern.Describes (p : Pattern) (path : Path) : Prop where
  nodes : List.Forall₂ NodePattern.Describes p.nodes path.nodes
  edges : List.Forall₂ EdgePattern.Describes p.edges path.edges
  var : path.var = p.var

/-- How many nodes have no variable. -/
def NodePattern.anonymous (ps : List NodePattern) : Nat := ps.countP (·.var.isNone)

/-- How many nodes of patterns have no variable. -/
def Pattern.anonymous (ps : List Pattern) : Nat :=
  NodePattern.anonymous (ps.flatMap Pattern.nodes)

/-- The variables of a pattern. -/
def Pattern.variables (p : Pattern) : List String :=
  p.nodes.filterMap NodePattern.var ++ p.edges.filterMap EdgePattern.var ++ p.var.toList

theorem NodePattern.anonymous_cons (p : NodePattern) (ps : List NodePattern) :
    NodePattern.anonymous (p :: ps) = NodePattern.anonymous [p] + NodePattern.anonymous ps := by
  rw [← List.singleton_append, NodePattern.anonymous, List.countP_append]
  rfl

theorem Pattern.anonymous_cons (p : Pattern) (ps : List Pattern) :
    Pattern.anonymous (p :: ps) = NodePattern.anonymous p.nodes + Pattern.anonymous ps := by
  rw [Pattern.anonymous, List.flatMap_cons, NodePattern.anonymous, List.countP_append]
  rfl

/-- The literal of a node, which edges refer to by its variable or by the next key. -/
theorem NodePattern.toNode_eq_ok {p : NodePattern} {n m : Nat} {k : KeyedNode}
    (h : p.toNode n = .ok (k, m)) :
    p.Describes k.node ∧ k.key = p.var.getD (Draft.anonymousKey n) ∧
      k.node.endpoint? = some k.key ∧ m = n + NodePattern.anonymous [p] := by
  obtain ⟨properties, hproperties, h⟩ := bind_eq_ok.mp h
  cases hvar : p.var with
  | some name =>
      simp only [hvar] at h
      cases h
      refine ⟨⟨rfl, hproperties, hvar.symm, ?_, rfl⟩, rfl, rfl, ?_⟩
      · simp [hvar, NodeOf.ofPattern]
      · simp [NodePattern.anonymous, hvar]
  | none =>
      simp only [hvar] at h
      cases h
      refine ⟨⟨rfl, hproperties, hvar.symm, ?_, rfl⟩, rfl, rfl, ?_⟩
      · simp [hvar]
      · simp [NodePattern.anonymous, hvar]

theorem EdgePattern.toEdge_eq_ok {p : EdgePattern} {left right : String} {edge : Edge}
    (h : p.toEdge left right = .ok edge) : p.Describes edge := by
  obtain ⟨properties, hproperties, h⟩ := bind_eq_ok.mp h
  cases hrange : p.range with
  | none =>
      simp only [hrange] at h
      cases h
      exact ⟨rfl, hproperties, rfl, rfl, by simp [hrange, EdgeOf.single],
        by simp [hrange, EdgeOf.single]⟩
  | some range =>
      simp only [hrange] at h
      cases h
      exact ⟨rfl, hproperties, rfl, rfl, by simp [hrange], by simp [hrange]⟩

theorem EdgePattern.toSteps_eq_ok {ps : List EdgePattern} {n m : Nat} {left : String}
    {steps : List (Edge × Node)} (h : EdgePattern.toSteps n left ps = .ok (steps, m)) :
    List.Forall₂ NodePattern.Describes (ps.map EdgePattern.target) (steps.map Prod.snd) ∧
      List.Forall₂ EdgePattern.Describes ps (steps.map Prod.fst) ∧
      m = n + NodePattern.anonymous (ps.map EdgePattern.target) := by
  induction ps generalizing n left steps with
  | nil =>
      cases h
      exact ⟨.nil, .nil, rfl⟩
  | cons p ps ih =>
      obtain ⟨⟨right, k⟩, hnode, h⟩ := bind_eq_ok.mp h
      obtain ⟨edge, hedge, h⟩ := bind_eq_ok.mp h
      obtain ⟨⟨rest, m'⟩, hrest, h⟩ := bind_eq_ok.mp h
      cases h
      obtain ⟨hright, -, -, rfl⟩ := NodePattern.toNode_eq_ok hnode
      obtain ⟨hnodes, hedges, rfl⟩ := ih hrest
      refine ⟨.cons hright hnodes, .cons (EdgePattern.toEdge_eq_ok hedge) hedges, ?_⟩
      rw [List.map_cons, NodePattern.anonymous_cons p.target (ps.map _), Nat.add_assoc]

/-- The path of a pattern has what the pattern says, and the counter moves past its nodes without a
variable. -/
theorem Pattern.toPath_eq_ok {p : Pattern} {n m : Nat} {path : Path}
    (h : p.toPath n = .ok (path, m)) :
    p.Describes path ∧ m = n + NodePattern.anonymous p.nodes := by
  obtain ⟨⟨first, k⟩, hfirst, h⟩ := bind_eq_ok.mp h
  obtain ⟨⟨steps, m'⟩, hsteps, h⟩ := bind_eq_ok.mp h
  cases h
  obtain ⟨hnode, -, -, rfl⟩ := NodePattern.toNode_eq_ok hfirst
  obtain ⟨hnodes, hedges, rfl⟩ := EdgePattern.toSteps_eq_ok hsteps
  refine ⟨⟨.cons hnode hnodes, hedges, rfl⟩, ?_⟩
  rw [Pattern.nodes, NodePattern.anonymous_cons p.source (p.edges.map _), Nat.add_assoc]

/-! ## The names of a path -/

namespace PathOf

/-- The names that a path binds, each once. -/
def names (path : Path) : List String := path.namedElements.map Prod.fst

/-- The pattern call that binds a named element of a path. -/
def binding (path : Path) (name : String) : Binding :=
  ⟨name, .apply .patternMatch [.ref 0 .graph, .ofValue (.path path), .ofString name]
    ((path.elementTy? name).getD .any)⟩

/-- Going through entries gathers their names, if each entry adds its own. -/
theorem mem_foldl_names {name : String}
    {f : List (String × Ty) → Option String × Ty → List (String × Ty)}
    (hf : ∀ acc entry, name ∈ (f acc entry).map Prod.fst ↔
      name ∈ acc.map Prod.fst ∨ some name = entry.1)
    (entries : List (Option String × Ty)) (acc : List (String × Ty)) :
    name ∈ (entries.foldl f acc).map Prod.fst ↔
      name ∈ acc.map Prod.fst ∨ some name ∈ entries.map Prod.fst := by
  induction entries generalizing acc with
  | nil => simp
  | cons entry rest ih => rw [List.foldl_cons, ih, hf, List.map_cons, List.mem_cons, or_assoc]

theorem mem_firstNamed {entries : List (Option String × Ty)} {name : String} :
    name ∈ (firstNamed entries).map Prod.fst ↔ some name ∈ entries.map Prod.fst := by
  unfold firstNamed
  rw [mem_foldl_names]
  · simp
  · rintro acc ⟨entryName, ty⟩
    cases entryName with
    | none => simp
    | some other =>
        by_cases hknown : other ∈ acc.map Prod.fst
        · have hany : acc.any (·.1 = other) = true := by simpa using hknown
          simp only [hany, if_true, Option.some.injEq]
          exact ⟨Or.inl, fun h => h.elim id fun h => h ▸ hknown⟩
        · have hany : ¬acc.any (·.1 = other) = true := by simpa using hknown
          simp [hany]

theorem mem_interleave {nodes : List Node} {edges : List Edge} {name : String} :
    some name ∈ (interleave nodes edges).map Prod.fst ↔
      (∃ node ∈ nodes, node.var = some name) ∨
        ∃ edge ∈ edges.take nodes.length, edge.var = some name := by
  induction nodes generalizing edges with
  | nil => simp [interleave]
  | cons node nodes ih =>
      cases edges with
      | nil =>
          rw [interleave, List.map_cons, List.mem_cons, ih]
          simp [eq_comm]
      | cons edge edges =>
          rw [interleave, List.map_cons, List.map_cons, List.mem_cons, List.mem_cons, ih]
          simp only [List.length_cons, List.take_succ_cons, List.exists_mem_cons_iff]
          rw [eq_comm, @eq_comm _ (some name) edge.var]
          simp only [or_assoc, or_left_comm]

theorem isSome_elementTy? {path : Path} {name : String} :
    (path.elementTy? name).isSome = true ↔
      (∃ node ∈ path.nodes, node.var = some name) ∨
        (∃ edge ∈ path.edges, edge.var = some name) ∨ path.var = some name := by
  unfold elementTy?
  split
  · next h => simp [h]
  · next hvar =>
      split
      · next h =>
          simp only [List.any_eq_true, decide_eq_true_eq] at h
          simp [h]
      · next hnodes =>
          simp only [List.any_eq_true, decide_eq_true_eq] at hnodes
          split
          · next h =>
              simp only [List.any_eq_true, decide_eq_true_eq] at h
              simp [h]
          · next hedges =>
              simp only [List.any_eq_true, decide_eq_true_eq] at hedges
              simp [hvar, hnodes, hedges]

/-- Every name that a path binds is that of an element. -/
theorem isSome_of_mem_names {path : Path} {name : String} (h : name ∈ path.names) :
    (path.elementTy? name).isSome = true := by
  rw [names, namedElements, mem_firstNamed, List.map_append, List.mem_append, mem_interleave] at h
  rw [isSome_elementTy?]
  rcases h with (hnode | ⟨edge, hmem, hvar⟩) | hpath
  · exact Or.inl hnode
  · exact Or.inr (Or.inl ⟨edge, List.mem_of_mem_take hmem, hvar⟩)
  · exact Or.inr (Or.inr (by simpa [eq_comm] using hpath))

theorem mem_names {path : Path} {name : String} (h : path.edges.length ≤ path.nodes.length) :
    name ∈ path.names ↔ (path.elementTy? name).isSome = true := by
  rw [names, namedElements, mem_firstNamed, List.map_append, List.mem_append, mem_interleave,
    isSome_elementTy?, List.take_of_length_le h]
  simp [eq_comm, or_assoc]

/-- Binding a named element cannot fail. -/
theorem elementCall_eq {path : Path} {name : String} (h : name ∈ path.names) :
    elementCall path name = .ok (path.binding name).expr := by
  obtain ⟨ty, hty⟩ := Option.isSome_iff_exists.mp (isSome_of_mem_names h)
  have hresult : Operator.patternMatch.resultType
      [.ref 0 .graph, .ofValue (.path path), .ofString name] = .ok ty := by
    have hgraph : Expr.expect (fun t => t == .graph || t == .any) "graph" (.ref 0 .graph) =
        .ok () := rfl
    have hpath : (Expr.ofValue (.path path)).expectPath = .ok path := rfl
    have hname : (Expr.ofString name).expectString = .ok name := rfl
    simp only [Operator.resultType, Operator.ternary, hgraph, hpath, hname, ok_bind, hty]
    rfl
  rw [elementCall, Expr.call, hresult, binding, hty]
  rfl

end PathOf

theorem Pattern.Describes.map_labels {p : Pattern} {path : Path} (h : p.Describes path) :
    path.nodes.map NodeOf.labels = p.nodes.map NodePattern.labels :=
  map_eq_of_forall₂ h.nodes fun _ _ hnode => hnode.labels

theorem Pattern.Describes.map_node_var {p : Pattern} {path : Path} (h : p.Describes path) :
    path.nodes.map NodeOf.var = p.nodes.map NodePattern.var :=
  map_eq_of_forall₂ h.nodes fun _ _ hnode => hnode.var

theorem Pattern.Describes.map_edge_var {p : Pattern} {path : Path} (h : p.Describes path) :
    path.edges.map EdgeOf.var = p.edges.map EdgePattern.var :=
  map_eq_of_forall₂ h.edges fun _ _ hedge => hedge.var

theorem Pattern.Describes.length_edges_le {p : Pattern} {path : Path} (h : p.Describes path) :
    path.edges.length ≤ path.nodes.length := by
  rw [← h.edges.length_eq, ← h.nodes.length_eq, Pattern.nodes]
  simp

/-- The path of a pattern names the variables of the pattern. -/
theorem Pattern.Describes.mem_names {p : Pattern} {path : Path} (h : p.Describes path)
    {name : String} : name ∈ path.names ↔ name ∈ p.variables := by
  have hnode : (∃ node ∈ path.nodes, node.var = some name) ↔
      some name ∈ p.nodes.map NodePattern.var := by
    rw [← h.map_node_var, List.mem_map]
  have hedge : (∃ edge ∈ path.edges, edge.var = some name) ↔
      some name ∈ p.edges.map EdgePattern.var := by
    rw [← h.map_edge_var, List.mem_map]
  rw [PathOf.mem_names h.length_edges_le, PathOf.isSome_elementTy?, hnode, hedge, h.var,
    Pattern.variables]
  simp

/-! ## Patterns, paths and bindings -/

/-- The paths of patterns, and the counter after them. -/
def Pattern.toPaths (n : Nat) : List Pattern → Except Error (List Path × Nat)
  | [] => .ok ([], n)
  | p :: ps => do
    let (first, n) ← p.toPath n
    let (rest, n) ← Pattern.toPaths n ps
    return (first :: rest, n)

theorem Pattern.toPaths_append (n : Nat) (ps qs : List Pattern) :
    Pattern.toPaths n (ps ++ qs) = Pattern.toPaths n ps >>= fun r =>
      Pattern.toPaths r.2 qs >>= fun s => .ok (r.1 ++ s.1, s.2) := by
  induction ps generalizing n with
  | nil =>
      rw [List.nil_append, Pattern.toPaths, ok_bind]
      cases Pattern.toPaths n qs <;> rfl
  | cons p ps ih =>
      rw [List.cons_append, Pattern.toPaths, Pattern.toPaths]
      cases p.toPath n with
      | error e => rfl
      | ok r =>
          simp only [ok_bind, ih]
          cases Pattern.toPaths r.2 ps with
          | error e => rfl
          | ok s =>
              show (Pattern.toPaths s.2 qs >>= _) >>= _ = Pattern.toPaths s.2 qs >>= _
              cases Pattern.toPaths s.2 qs <;> rfl

/-- Each path is that of a pattern, and the counter moves past all nodes without a variable. -/
theorem Pattern.toPaths_eq_ok {ps : List Pattern} {n m : Nat} {paths : List Path}
    (h : Pattern.toPaths n ps = .ok (paths, m)) :
    List.Forall₂ Pattern.Describes ps paths ∧ m = n + Pattern.anonymous ps := by
  induction ps generalizing n paths with
  | nil =>
      cases h
      exact ⟨.nil, rfl⟩
  | cons p ps ih =>
      obtain ⟨⟨first, k⟩, hfirst, h⟩ := bind_eq_ok.mp h
      obtain ⟨⟨rest, m'⟩, hrest, h⟩ := bind_eq_ok.mp h
      cases h
      obtain ⟨hdescribes, rfl⟩ := Pattern.toPath_eq_ok hfirst
      obtain ⟨hothers, rfl⟩ := ih hrest
      refine ⟨.cons hdescribes hothers, ?_⟩
      rw [Pattern.anonymous_cons, Nat.add_assoc]

/-- Paths name what their patterns name. -/
theorem Pattern.exists_mem_names {ps : List Pattern} {paths : List Path} {name : String}
    (h : List.Forall₂ Pattern.Describes ps paths) :
    (∃ path ∈ paths, name ∈ path.names) ↔ ∃ p ∈ ps, name ∈ p.variables := by
  induction h with
  | nil => simp
  | cons hdescribes _ ih =>
      rw [List.exists_mem_cons_iff, List.exists_mem_cons_iff, hdescribes.mem_names, ih]

/-- One pattern among others: the paths before it, and its own, drawn with the counter past them. -/
theorem Pattern.toPaths_at {ps : List Pattern} {p : Pattern} {i n m : Nat} {paths : List Path}
    (hget : ps[i]? = some p) (h : Pattern.toPaths n ps = .ok (paths, m)) :
    ∃ before path after k, paths = before ++ path :: after ∧
      List.Forall₂ Pattern.Describes (ps.take i) before ∧
      p.toPath (n + Pattern.anonymous (ps.take i)) = .ok (path, k) := by
  rw [← take_append_cons_drop hget, Pattern.toPaths_append] at h
  obtain ⟨⟨before, j⟩, hbefore, h⟩ := bind_eq_ok.mp h
  obtain ⟨⟨rest, k⟩, hrest, h⟩ := bind_eq_ok.mp h
  cases h
  obtain ⟨⟨path, l⟩, hpath, hrest⟩ := bind_eq_ok.mp hrest
  obtain ⟨⟨after, k'⟩, hafter, hrest⟩ := bind_eq_ok.mp hrest
  cases hrest
  obtain ⟨hdescribes, rfl⟩ := Pattern.toPaths_eq_ok hbefore
  exact ⟨before, path, after, l, rfl, hdescribes, hpath⟩

/-- The bindings of all named elements of paths, repeated names and all. -/
def PathOf.bindings (paths : List Path) : List Binding :=
  paths.flatMap fun path => path.names.map path.binding

theorem PathOf.mem_names_bindings {paths : List Path} {name : String} :
    name ∈ (PathOf.bindings paths).map Binding.name ↔ ∃ path ∈ paths, name ∈ path.names := by
  simp [PathOf.bindings, PathOf.binding, List.map_flatMap, Function.comp_def]

/-- The bindings of named elements at the first place of each name that is not taken. -/
def PathOf.newBindings (taken : List String) : List Path → List Binding
  | [] => []
  | path :: rest =>
    let first := (path.names.filter fun name => !taken.contains name).map path.binding
    first ++ PathOf.newBindings (taken ++ first.map Binding.name) rest

theorem elementCalls_eq {path : Path} (taken : List String) {names : List String}
    (h : ∀ name ∈ names, name ∈ path.names) :
    elementCalls path taken names =
      .ok ((names.filter fun name => !taken.contains name).map path.binding) := by
  induction names with
  | nil => rfl
  | cons name names ih =>
      obtain ⟨hname, hnames⟩ := List.forall_mem_cons.mp h
      unfold elementCalls
      split
      · next htaken =>
          rw [ih hnames, List.filter_cons_of_neg (by simpa using htaken)]
      · next htaken =>
          rw [PathOf.elementCall_eq hname, ih hnames,
            List.filter_cons_of_pos (by simpa using htaken)]
          rfl

/-- Once the paths are drawn, finding what they bind cannot fail. -/
theorem patternCalls_eq (n : Nat) (taken : List String) (ps : List Pattern) :
    patternCalls n taken ps = Pattern.toPaths n ps >>= fun r =>
      .ok (PathOf.newBindings taken r.1, r.2) := by
  induction ps generalizing n taken with
  | nil => rfl
  | cons p ps ih =>
      rw [patternCalls, Pattern.toPaths]
      cases p.toPath n with
      | error e => rfl
      | ok r =>
          obtain ⟨path, k⟩ := r
          have hcalls : elementCalls path taken (path.namedElements.map Prod.fst) = _ :=
            elementCalls_eq taken fun _ h => h
          simp only [ok_bind, hcalls, ih]
          cases Pattern.toPaths k ps <;> rfl

/-! ## Adding bindings -/

namespace Binding

/-- A binding is left out exactly if its name is bound. -/
theorem extend_cons (bound : List Binding) (b : Binding) (rest : List Binding) :
    Binding.extend bound (b :: rest) =
      if b.name ∈ bound.map Binding.name then Binding.extend bound rest
      else Binding.extend (bound ++ [b]) rest := by
  have hany : bound.any (·.name = b.name) = true ↔ b.name ∈ bound.map Binding.name := by simp
  rw [Binding.extend]
  exact if_congr hany rfl rfl

theorem extend_append (bound first second : List Binding) :
    Binding.extend bound (first ++ second) =
      Binding.extend (Binding.extend bound first) second := by
  induction first generalizing bound with
  | nil => rfl
  | cons b rest ih =>
      rw [List.cons_append, extend_cons, extend_cons]
      split
      · exact ih bound
      · exact ih (bound ++ [b])

/-- Bindings are added at the end, one for each name that is not bound. -/
theorem exists_extend_eq (bound calls : List Binding) :
    ∃ new, Binding.extend bound calls = bound ++ new ∧ (new.map Binding.name).Nodup ∧
      ∀ name, name ∈ new.map Binding.name ↔
        name ∉ bound.map Binding.name ∧ name ∈ calls.map Binding.name := by
  induction calls generalizing bound with
  | nil => exact ⟨[], (List.append_nil bound).symm, List.nodup_nil, by simp⟩
  | cons b rest ih =>
      rw [extend_cons]
      split
      · next hbound =>
          obtain ⟨new, heq, hnodup, hnames⟩ := ih bound
          refine ⟨new, heq, hnodup, fun name => ?_⟩
          rw [hnames, List.map_cons, List.mem_cons]
          constructor
          · rintro ⟨hnew, hrest⟩
            exact ⟨hnew, Or.inr hrest⟩
          · rintro ⟨hnew, rfl | hrest⟩
            · exact (hnew hbound).elim
            · exact ⟨hnew, hrest⟩
      · next hbound =>
          obtain ⟨new, heq, hnodup, hnames⟩ := ih (bound ++ [b])
          have hb : b.name ∉ new.map Binding.name :=
            fun hmem => ((hnames b.name).mp hmem).1 (by simp)
          refine ⟨b :: new, by rw [heq, List.append_assoc, List.singleton_append],
            List.nodup_cons.mpr ⟨hb, hnodup⟩, fun name => ?_⟩
          rw [List.map_cons, List.map_cons, List.mem_cons, List.mem_cons, hnames, List.map_append,
            List.mem_append, List.map_singleton, List.mem_singleton, not_or]
          by_cases hname : name = b.name
          · simp [hname, hbound]
          · simp [hname]

theorem prefix_extend (bound calls : List Binding) : bound <+: Binding.extend bound calls := by
  obtain ⟨new, heq, -⟩ := exists_extend_eq bound calls
  exact ⟨new, heq.symm⟩

theorem mem_names_extend {bound calls : List Binding} {name : String} :
    name ∈ (Binding.extend bound calls).map Binding.name ↔
      name ∈ bound.map Binding.name ∨ name ∈ calls.map Binding.name := by
  obtain ⟨new, heq, -, hnames⟩ := exists_extend_eq bound calls
  rw [heq, List.map_append, List.mem_append, hnames]
  by_cases hbound : name ∈ bound.map Binding.name
  · exact iff_of_true (Or.inl hbound) (Or.inl hbound)
  · rw [or_iff_right hbound, or_iff_right hbound, and_iff_right hbound]

/-- The first binding of a name that is not bound is taken. -/
theorem mem_extend {bound before after : List Binding} {b : Binding}
    (hbound : b.name ∉ bound.map Binding.name) (hbefore : b.name ∉ before.map Binding.name) :
    b ∈ Binding.extend bound (before ++ b :: after) := by
  have hnew : b.name ∉ (Binding.extend bound before).map Binding.name := by
    rw [mem_names_extend]
    exact not_or.mpr ⟨hbound, hbefore⟩
  rw [extend_append, extend_cons, if_neg hnew]
  exact (prefix_extend _ after).subset (by simp)

theorem mem_of_mem_extend {bound calls : List Binding} {b : Binding}
    (h : b ∈ Binding.extend bound calls) : b ∈ bound ∨ b ∈ calls := by
  induction calls generalizing bound with
  | nil => exact Or.inl h
  | cons first rest ih =>
      rw [extend_cons] at h
      split at h
      · exact (ih h).imp_right (List.mem_cons_of_mem first)
      · rcases ih h with hbound | hrest
        · rcases List.mem_append.mp hbound with hold | hnew
          · exact Or.inl hold
          · exact Or.inr (List.mem_singleton.mp hnew ▸ List.mem_cons_self)
        · exact Or.inr (List.mem_cons_of_mem first hrest)

/-- Bindings whose names are bound may as well be left out. -/
theorem extend_filter (keep : Binding → Bool) {bound calls : List Binding}
    (h : ∀ b ∈ calls, keep b = false → b.name ∈ bound.map Binding.name) :
    Binding.extend bound (calls.filter keep) = Binding.extend bound calls := by
  induction calls generalizing bound with
  | nil => rfl
  | cons b rest ih =>
      obtain ⟨hb, hrest⟩ := List.forall_mem_cons.mp h
      cases hkeep : keep b with
      | false =>
          rw [List.filter_cons_of_neg (by simp [hkeep]), extend_cons, if_pos (hb hkeep)]
          exact ih hrest
      | true =>
          rw [List.filter_cons_of_pos hkeep, extend_cons, extend_cons]
          split
          · exact ih hrest
          · refine ih fun c hc hdrop => ?_
            rw [List.map_append, List.mem_append]
            exact Or.inl (hrest c hc hdrop)

/-- **Leaving out repeated names changes nothing**, as long as the names taken are bound. -/
theorem extend_newBindings {taken : List String} {bound : List Binding} (paths : List Path)
    (h : ∀ name ∈ taken, name ∈ bound.map Binding.name) :
    Binding.extend bound (PathOf.newBindings taken paths) =
      Binding.extend bound (PathOf.bindings paths) := by
  induction paths generalizing taken bound with
  | nil => rfl
  | cons path rest ih =>
      have hfirst : Binding.extend bound
          ((path.names.filter fun name => !taken.contains name).map path.binding) =
          Binding.extend bound (path.names.map path.binding) := by
        have hfilter : (path.names.filter fun name => !taken.contains name).map path.binding =
            (path.names.map path.binding).filter fun b => !taken.contains b.name := by
          rw [List.filter_map]
          rfl
        rw [hfilter]
        refine extend_filter _ fun b _ htaken => h b.name ?_
        simpa using htaken
      rw [PathOf.newBindings, extend_append, PathOf.bindings, List.flatMap_cons, extend_append,
        hfirst]
      refine ih fun name hname => ?_
      rw [← hfirst, mem_names_extend]
      rcases List.mem_append.mp hname with htaken | hnew
      · exact Or.inl (h name htaken)
      · exact Or.inr hnew

end Binding

/-! ## Matches -/

/-- What a match binds over a plan depends only on the bindings there are in the end. -/
theorem Plan.extendMatch_newBindings (input : Plan) (paths : List Path) :
    input.extendMatch (PathOf.newBindings [] paths) =
      input.extendMatch (PathOf.bindings paths) := by
  unfold Plan.extendMatch
  simp only [Binding.extend_newBindings paths (List.forall_mem_nil _)]

/-- The step of a match, by way of the paths of its patterns. -/
theorem MatchClause.step_eq_ok {catalog : Catalog} {source : GraphSource} {top : Option Plan}
    {n m : Nat} {c : MatchClause} {p : Plan} :
    c.step catalog source top n = .ok (p, m) ↔
      c.optional = false ∧ ∃ paths input made, Pattern.toPaths n c.patterns = .ok (paths, m) ∧
        source.inputOr catalog top = .ok input ∧
        input.extendMatch (PathOf.bindings paths) = .ok made ∧
        made.restrictBy c.condition = .ok p := by
  unfold MatchClause.step
  simp only [bind_eq_ok, require_eq_ok, patternCalls_eq]
  constructor
  · rintro ⟨-, hoptional, _, ⟨⟨paths, k⟩, hpaths, hcalls⟩, input, hinput, made, hmade, q, hq, h⟩
    cases hcalls
    cases h
    rw [Plan.extendMatch_newBindings] at hmade
    exact ⟨by simpa using hoptional, paths, input, made, hpaths, hinput, hmade, hq⟩
  · rintro ⟨hoptional, paths, input, made, hpaths, hinput, hmade, hq⟩
    rw [← Plan.extendMatch_newBindings] at hmade
    exact ⟨(), by simp [hoptional], _, ⟨_, hpaths, rfl⟩, input, hinput, made, hmade, p, hq, rfl⟩

theorem Clause.step_matching {catalog : Catalog} {source : GraphSource} {home : NamespaceId}
    {top : Option Plan} {n : Nat} {c : MatchClause} {r : Option Plan × Nat} :
    Clause.step catalog source home top n (.matching c) = .ok r ↔
      ∃ p, r.1 = some p ∧ c.step catalog source top n = .ok (p, r.2) := by
  rw [Clause.step, bind_eq_ok]
  constructor
  · rintro ⟨⟨p, m⟩, hstep, h⟩
    cases h
    exact ⟨p, rfl, hstep⟩
  · obtain ⟨last, m⟩ := r
    rintro ⟨p, rfl, hstep⟩
    exact ⟨(p, m), hstep, rfl⟩

/-- What extending a match makes: one match that binds what was bound and what is new. -/
theorem Plan.extendMatch_eq_ok {top p : Plan} {calls : List Binding} :
    top.extendMatch calls = .ok p ↔
      top.model = .graph ∧ ∃ base bound, Drafting.matchBase top = .ok (base, bound) ∧
        Plan.patternMatch base ((Binding.extend bound calls).map Binding.expr)
          ((Binding.extend bound calls).map Binding.name) = .ok p := by
  unfold Plan.extendMatch
  simp only [bind_eq_ok, require_eq_ok, decide_eq_true_eq]
  constructor
  · rintro ⟨-, hmodel, ⟨base, bound⟩, hbase, h⟩
    exact ⟨hmodel, base, bound, hbase, h⟩
  · rintro ⟨hmodel, base, bound, hbase, h⟩
    exact ⟨(), hmodel, ⟨base, bound⟩, hbase, h⟩

end QueryPlan
