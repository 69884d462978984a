import QueryPlan.Proofs.Lowering.Pattern

/-!
# Paths as patterns write them

A path is made from left to right: each relationship makes the node it leads to, and an edge from
the node before it. So edge `i` lies between node `i` and node `i + 1` (`Pattern.ConnectedBy`), also
where a run of nodes has no variables and is told apart by keys alone. Properties are kept in the
order of their keys, and what they say is read off the entries as written (`Properties.WrittenBy`).
A path can be made exactly if the entries are literals (`Pattern.exists_toPath`).
-/

namespace QueryPlan

/-! ## Properties -/

theorem lookup_cons_eq_ite {α : Type} (key name : String) (value : α) (rest : List (String × α)) :
    List.lookup key ((name, value) :: rest) =
      if key = name then some value else List.lookup key rest := by
  rw [List.lookup_cons]
  by_cases h : key = name
  · rw [beq_iff_eq.mpr h, if_pos h]
  · rw [beq_false_of_ne h, if_neg h]

namespace Properties

theorem lookup_insert (key name : String) (value : Value) (properties : Properties) :
    List.lookup key (insert name value properties) =
      if key = name then some value else List.lookup key properties := by
  fun_induction insert name value properties with
  | case1 => exact lookup_cons_eq_ite key name value []
  | case2 => exact lookup_cons_eq_ite key name value _
  | case3 => rw [lookup_cons_eq_ite, lookup_cons_eq_ite]; split <;> rfl
  | case4 other held rest _ hne ih =>
      -- What the new entry is put behind has another key.
      rw [lookup_cons_eq_ite, lookup_cons_eq_ite, ih]
      by_cases h : key = other
      · subst h
        rw [if_pos rfl, if_neg (Ne.symm hne), if_pos rfl]
      · rw [if_neg h, if_neg h]

theorem ofList_concat (entries : List (String × Value)) (last : String × Value) :
    ofList (entries ++ [last]) = insert last.1 last.2 (ofList entries) := by
  rw [ofList, List.foldl_append]
  rfl

/-- Of two entries with one key the last one counts. -/
theorem lookup_ofList (key : String) (entries : List (String × Value)) :
    List.lookup key (ofList entries) = List.lookup key entries.reverse := by
  rw [← List.reverse_reverse entries]
  induction entries.reverse with
  | nil => rfl
  | cons last others ih =>
      rw [List.reverse_reverse] at ih ⊢
      rw [List.reverse_cons, ofList_concat, lookup_insert, lookup_cons_eq_ite, ih]

theorem mem_insert {name : String} {value : Value} {properties : Properties} {p : String × Value}
    (h : p ∈ insert name value properties) : p = (name, value) ∨ p ∈ properties := by
  fun_induction insert name value properties with grind

/-- The properties are among the entries they are made of. -/
theorem mem_of_mem_ofList {entries : List (String × Value)} {p : String × Value}
    (h : p ∈ ofList entries) : p ∈ entries := by
  rw [← List.reverse_reverse entries] at h ⊢
  generalize entries.reverse = reversed at h ⊢
  induction reversed with
  | nil => cases h
  | cons last others ih =>
      rw [List.reverse_cons] at h ⊢
      rw [ofList_concat] at h
      rcases mem_insert h with rfl | hmem
      · exact List.mem_append_right _ List.mem_cons_self
      · exact List.mem_append_left _ (ih hmem)

theorem sorted_insert {name : String} {value : Value} {properties : Properties}
    (h : properties.Pairwise (·.1 < ·.1)) :
    (insert name value properties).Pairwise (·.1 < ·.1) := by
  fun_induction insert name value properties with
  | case1 => exact List.pairwise_singleton _ _
  | case2 other held rest hlt =>
      refine List.pairwise_cons.mpr ⟨List.forall_mem_cons.mpr ⟨hlt, fun p hp => ?_⟩, h⟩
      exact String.lt_trans hlt ((List.pairwise_cons.mp h).1 p hp)
  | case3 => exact List.pairwise_cons.mpr (List.pairwise_cons.mp h)
  | case4 other held rest hge hne ih =>
      obtain ⟨hfirst, hrest⟩ := List.pairwise_cons.mp h
      have hlt : other < name := by
        refine Decidable.byContradiction fun hnot => hne ?_
        exact String.le_antisymm (String.not_lt.mp hnot) (String.not_lt.mp hge)
      refine List.pairwise_cons.mpr ⟨fun p hp => ?_, ih hrest⟩
      rcases mem_insert hp with rfl | hmem
      · exact hlt
      · exact hfirst p hmem

theorem sorted_ofList (entries : List (String × Value)) :
    (ofList entries).Pairwise (·.1 < ·.1) := by
  rw [← List.reverse_reverse entries]
  induction entries.reverse with
  | nil => exact List.Pairwise.nil
  | cons last others ih =>
      rw [List.reverse_cons, ofList_concat]
      exact sorted_insert ih

end Properties

/-- The properties are what the entries of a pattern write: the value of each entry under its key,
in the order of the keys. Of two entries with one key the last one counts. -/
structure Properties.WrittenBy (entries : List (String × Expression)) (properties : Properties) :
    Prop where
  sorted : properties.Pairwise (·.1 < ·.1)
  value : ∀ key, List.lookup key properties =
    (List.lookup key entries.reverse).bind Expression.literalValue?

/-- An entry of a pattern and the property it writes. -/
def WritesEntry (entry : String × Expression) (p : String × Value) : Prop :=
  entry.1 = p.1 ∧ entry.2.literalValue? = some p.2

theorem literalEntries_eq_ok {entries : List (String × Expression)}
    {values : List (String × Value)} :
    literalEntries entries = .ok values ↔ List.Forall₂ WritesEntry entries values := by
  induction entries generalizing values with
  | nil => simp [literalEntries, eq_comm]
  | cons entry rest ih =>
      obtain ⟨key, e⟩ := entry
      unfold literalEntries
      constructor
      · intro h
        split at h
        · next v hv =>
            obtain ⟨others, hothers, h⟩ := bind_eq_ok.mp h
            cases h
            exact .cons ⟨rfl, hv⟩ (ih.mp hothers)
        · cases h
      · rintro (_ | ⟨⟨rfl, hv⟩, hrest⟩)
        simp only [hv, ih.mpr hrest]
        rfl

theorem lookup_values {entries : List (String × Expression)} {values : List (String × Value)}
    (h : List.Forall₂ WritesEntry entries values) (key : String) :
    List.lookup key values = (List.lookup key entries).bind Expression.literalValue? := by
  induction h with
  | nil => rfl
  | @cons entry p _ _ hfirst _ ih =>
      obtain ⟨hkey, hvalue⟩ := hfirst
      rw [lookup_cons_eq_ite, lookup_cons_eq_ite, hkey, ih]
      split
      · exact hvalue.symm
      · rfl

theorem literalProperties_writtenBy {entries : List (String × Expression)}
    {properties : Properties} (h : literalProperties entries = .ok properties) :
    properties.WrittenBy entries := by
  obtain ⟨values, hvalues, h⟩ := bind_eq_ok.mp h
  cases h
  refine ⟨Properties.sorted_ofList values, fun key => ?_⟩
  rw [Properties.lookup_ofList]
  exact lookup_values (List.forall₂_reverse_iff.mpr (literalEntries_eq_ok.mp hvalues)) key

/-- All entries are literals. -/
def AllLiteral (entries : List (String × Expression)) : Prop :=
  ∀ entry ∈ entries, entry.2.literalValue?.isSome = true

theorem exists_literalProperties {entries : List (String × Expression)} :
    (∃ properties, literalProperties entries = .ok properties) ↔ AllLiteral entries := by
  constructor
  · rintro ⟨properties, h⟩ entry hentry
    obtain ⟨values, hvalues, -⟩ := bind_eq_ok.mp h
    obtain ⟨p, -, -, hvalue⟩ := exists_mem_of_forall₂ (literalEntries_eq_ok.mp hvalues).flip hentry
    exact Option.isSome_of_eq_some hvalue
  · intro h
    have hwrites : ∀ entry ∈ entries, ∃ p, WritesEntry entry p := by
      intro entry hentry
      obtain ⟨v, hv⟩ := Option.isSome_iff_exists.mp (h entry hentry)
      exact ⟨(entry.1, v), rfl, hv⟩
    obtain ⟨values, hvalues⟩ := exists_forall₂ hwrites
    exact ⟨.ofList values, bind_eq_ok.mpr ⟨values, literalEntries_eq_ok.mpr hvalues, rfl⟩⟩

/-! ## Nodes and edges -/

/-- The literal carries what the node pattern says, and a key if the pattern has no variable. -/
structure NodePattern.CarriedBy (p : NodePattern) (node : Node) : Prop where
  labels : node.labels = p.labels
  properties : Properties.WrittenBy p.properties node.properties
  var : node.var = p.var
  key : node.key.isSome = p.var.isNone

/-- The literal connects two nodes as the relationship says. -/
structure EdgePattern.ConnectedBy (p : EdgePattern) (left right : Node) (edge : Edge) : Prop where
  source : left.endpoint? = some edge.source
  target : right.endpoint? = some edge.target
  types : edge.labels = p.types
  direction : edge.direction = p.direction
  properties : Properties.WrittenBy p.properties edge.properties
  var : edge.var = p.var
  single : p.range = none → edge.minHops = 1 ∧ edge.maxHops = some 1
  ranged : ∀ range, p.range = some range →
    edge.minHops = range.least.getD 1 ∧ edge.maxHops = range.most

/-- The path has a node for each node of the pattern and an edge for each relationship, between one
node and the next. -/
structure Pattern.ConnectedBy (p : Pattern) (path : Path) : Prop where
  length : path.nodes.length = path.edges.length + 1
  nodes : List.Forall₂ NodePattern.CarriedBy p.nodes path.nodes
  edges : path.edges.length = p.edges.length ∧ ∀ i edge, path.edges[i]? = some edge →
    ∃ relationship left right, p.edges[i]? = some relationship ∧ path.nodes[i]? = some left ∧
      path.nodes[i + 1]? = some right ∧ relationship.ConnectedBy left right edge
  var : path.var = p.var

theorem NodePattern.Describes.carriedBy {p : NodePattern} {node : Node} (h : p.Describes node) :
    p.CarriedBy node :=
  ⟨h.labels, literalProperties_writtenBy h.properties, h.var, h.key⟩

theorem EdgePattern.Describes.connectedBy {p : EdgePattern} {left right : Node} {edge : Edge}
    (h : p.Describes edge) (hsource : left.endpoint? = some edge.source)
    (htarget : right.endpoint? = some edge.target) : p.ConnectedBy left right edge where
  source := hsource
  target := htarget
  types := h.types
  direction := h.direction
  properties := literalProperties_writtenBy h.properties
  var := h.var
  single hrange := by simp [h.minHops, h.maxHops, hrange]
  ranged range hrange := by simp [h.minHops, h.maxHops, hrange]

theorem EdgePattern.toEdge_ends {p : EdgePattern} {left right : String} {edge : Edge}
    (h : p.toEdge left right = .ok edge) : edge.source = left ∧ edge.target = right := by
  obtain ⟨properties, -, h⟩ := bind_eq_ok.mp h
  split at h
  · cases h
    exact ⟨rfl, rfl⟩
  · cases h
    exact ⟨rfl, rfl⟩

/-- By induction on the relationships: the node that one of them leads to is where the next one
starts. -/
theorem EdgePattern.toSteps_linked {ps : List EdgePattern} {n m : Nat} {left : String}
    {steps : List (Edge × Node)} (h : EdgePattern.toSteps n left ps = .ok (steps, m)) {first : Node}
    (hfirst : first.endpoint? = some left) {i : Nat} {edge : Edge}
    (hedge : (steps.map Prod.fst)[i]? = some edge) :
    ∃ a b, (first :: steps.map Prod.snd)[i]? = some a ∧ (steps.map Prod.snd)[i]? = some b ∧
      a.endpoint? = some edge.source ∧ b.endpoint? = some edge.target := by
  induction ps generalizing n left steps first i with
  | nil =>
      cases h
      cases hedge
  | cons p ps ih =>
      obtain ⟨⟨right, k⟩, hright, h⟩ := bind_eq_ok.mp h
      obtain ⟨made, hmade, h⟩ := bind_eq_ok.mp h
      obtain ⟨⟨rest, l⟩, hrest, h⟩ := bind_eq_ok.mp h
      cases h
      obtain ⟨-, -, hendpoint, -⟩ := NodePattern.toNode_eq_ok hright
      cases i with
      | zero =>
          cases hedge
          obtain ⟨hsource, htarget⟩ := EdgePattern.toEdge_ends hmade
          exact ⟨first, right.node, rfl, rfl, hsource ▸ hfirst, htarget ▸ hendpoint⟩
      | succ i => exact ih hrest hendpoint hedge

theorem Pattern.toPath_connectedBy {p : Pattern} {n m : Nat} {path : Path}
    (h : p.toPath n = .ok (path, m)) : p.ConnectedBy path := by
  obtain ⟨hdescribes, -⟩ := Pattern.toPath_eq_ok h
  have hedges : path.edges.length = p.edges.length := hdescribes.edges.length_eq.symm
  have hnodes : path.nodes.length = p.edges.length + 1 := by
    rw [← hdescribes.nodes.length_eq, Pattern.nodes, List.length_cons, List.length_map]
  refine ⟨hedges ▸ hnodes, hdescribes.nodes.imp fun _ _ hnode => hnode.carriedBy,
    ⟨hedges, fun i edge hedge => ?_⟩, hdescribes.var⟩
  obtain ⟨relationship, hrelationship, hedgeDescribes⟩ :=
    exists_getElem?_of_forall₂ hdescribes.edges.flip hedge
  obtain ⟨⟨first, k⟩, hfirst, h⟩ := bind_eq_ok.mp h
  obtain ⟨⟨steps, l⟩, hsteps, h⟩ := bind_eq_ok.mp h
  cases h
  obtain ⟨-, -, hendpoint, -⟩ := NodePattern.toNode_eq_ok hfirst
  obtain ⟨left, right, hleft, hright, hsource, htarget⟩ :=
    EdgePattern.toSteps_linked hsteps hendpoint hedge
  exact ⟨relationship, left, right, hrelationship, hleft, hright,
    hedgeDescribes.connectedBy hsource htarget⟩

/-! ## Which patterns become paths -/

/-- All properties of the pattern are literals. -/
def Pattern.AllLiteral (p : Pattern) : Prop :=
  (∀ node ∈ p.nodes, QueryPlan.AllLiteral node.properties) ∧
    ∀ edge ∈ p.edges, QueryPlan.AllLiteral edge.properties

theorem NodePattern.exists_toNode {p : NodePattern} (h : AllLiteral p.properties) (n : Nat) :
    ∃ k m, p.toNode n = .ok (k, m) := by
  obtain ⟨properties, hproperties⟩ := exists_literalProperties.mpr h
  rw [NodePattern.toNode, hproperties, ok_bind]
  split
  · exact ⟨_, _, rfl⟩
  · exact ⟨_, _, rfl⟩

theorem EdgePattern.exists_toEdge {p : EdgePattern} (h : AllLiteral p.properties)
    (left right : String) : ∃ edge, p.toEdge left right = .ok edge := by
  obtain ⟨properties, hproperties⟩ := exists_literalProperties.mpr h
  simp only [EdgePattern.toEdge, hproperties, ok_bind]
  split
  · exact ⟨_, rfl⟩
  · exact ⟨_, rfl⟩

theorem EdgePattern.exists_toSteps {ps : List EdgePattern}
    (hnodes : ∀ p ∈ ps, AllLiteral p.target.properties) (hedges : ∀ p ∈ ps, AllLiteral p.properties)
    (n : Nat) (left : String) : ∃ steps m, EdgePattern.toSteps n left ps = .ok (steps, m) := by
  induction ps generalizing n left with
  | nil => exact ⟨[], n, rfl⟩
  | cons p ps ih =>
      obtain ⟨hnode, hnodes⟩ := List.forall_mem_cons.mp hnodes
      obtain ⟨hedge, hedges⟩ := List.forall_mem_cons.mp hedges
      obtain ⟨right, k, hright⟩ := NodePattern.exists_toNode hnode n
      obtain ⟨edge, hmade⟩ := EdgePattern.exists_toEdge hedge left right.key
      obtain ⟨rest, m, hrest⟩ := ih hnodes hedges k right.key
      exact ⟨(edge, right.node) :: rest, m, by
        simp only [EdgePattern.toSteps, hright, hmade, hrest, ok_bind]; rfl⟩

/-- A pattern becomes a path exactly if its properties are literals. -/
theorem Pattern.exists_toPath {p : Pattern} (n : Nat) :
    (∃ path m, p.toPath n = .ok (path, m)) ↔ p.AllLiteral := by
  constructor
  · rintro ⟨path, m, h⟩
    obtain ⟨hdescribes, -⟩ := Pattern.toPath_eq_ok h
    constructor
    · intro node hnode
      obtain ⟨literal, -, hliteral⟩ := exists_mem_of_forall₂ hdescribes.nodes.flip hnode
      exact exists_literalProperties.mp ⟨_, hliteral.properties⟩
    · intro edge hedge
      obtain ⟨literal, -, hliteral⟩ := exists_mem_of_forall₂ hdescribes.edges.flip hedge
      exact exists_literalProperties.mp ⟨_, hliteral.properties⟩
  · rintro ⟨hnodes, hedges⟩
    obtain ⟨hsource, htargets⟩ := List.forall_mem_cons.mp hnodes
    have htargets : ∀ edge ∈ p.edges, QueryPlan.AllLiteral edge.target.properties :=
      fun edge hedge => htargets _ (List.mem_map_of_mem hedge)
    obtain ⟨first, k, hfirst⟩ := NodePattern.exists_toNode hsource n
    obtain ⟨steps, m, hsteps⟩ := EdgePattern.exists_toSteps htargets hedges k first.key
    exact ⟨_, m, by simp only [Pattern.toPath, hfirst, hsteps, ok_bind]; rfl⟩

end QueryPlan
