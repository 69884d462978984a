import QueryPlan.Expr.Typing
import QueryPlan.Proofs.Lists

/-!
# Values that equal themselves

Equality of values compares numbers as numbers, so it is finer than what can be observed of a value
in one place, where a number is not a number, and coarser in another, where the two zeros are one.

A value equals itself unless something in it is not a number (`Value.equal_self`). And equal values
have in common what the rules for the types of calls look for: they are the same text, both are
lists of texts or edges or both are not, and as paths they bind the same names.
-/

namespace QueryPlan

theorem Binary64.equal_self {x : Binary64} (h : x.isNaN = false) : (x == x) = true := by
  show x.equal x = true
  simp [Binary64.equal, h]

namespace Value

/-- The values right inside a value. -/
def children : Value → List Value
  | list items => items
  | map entries => entries.map Prod.snd
  | node n => n.properties.map Prod.snd
  | edge e => e.properties.map Prod.snd
  | path p => p.nodes.flatMap (fun n => n.properties.map Prod.snd) ++
      p.edges.flatMap (fun e => e.properties.map Prod.snd)
  | _ => []

/-- The value itself, the values right inside it, those inside these and so on. -/
inductive IsPartOf : Value → Value → Prop
  | self (v : Value) : IsPartOf v v
  | child {s c v : Value} : IsPartOf s c → c ∈ v.children → IsPartOf s v

/-- Every number in the value is one. -/
def NaNFree (v : Value) : Prop := ∀ x : Binary64, (float x).IsPartOf v → x.isNaN = false

theorem nanFree_float {x : Binary64} (h : x.isNaN = false) : (float x).NaNFree := by
  intro y hy
  cases hy with
  | self => exact h
  | child _ hc => cases hc

theorem NaNFree.child {v c : Value} (h : v.NaNFree) (hc : c ∈ v.children) : c.NaNFree :=
  fun x hx => h x (.child hx hc)

/-! ## Induction on what is inside a value -/

theorem sizeOf_lt_of_mem_properties {v : Value} {properties : List (String × Value)}
    (h : v ∈ properties.map Prod.snd) : sizeOf v < sizeOf properties := by
  obtain ⟨⟨key, v⟩, hmem, rfl⟩ := List.mem_map.mp h
  have hlt := List.sizeOf_lt_of_mem hmem
  simp only [Prod.mk.sizeOf_spec] at hlt
  show sizeOf v < sizeOf properties
  omega

theorem sizeOf_lt_of_mem_children {c v : Value} (h : c ∈ v.children) : sizeOf c < sizeOf v := by
  cases v with
  | list items =>
      have hlt : sizeOf c < sizeOf items := List.sizeOf_lt_of_mem h
      simp only [list.sizeOf_spec]
      omega
  | map entries =>
      have hlt : sizeOf c < sizeOf entries := sizeOf_lt_of_mem_properties h
      simp only [map.sizeOf_spec]
      omega
  | node n =>
      obtain ⟨labels, properties, var, key, placeholder⟩ := n
      have hlt : sizeOf c < sizeOf properties := sizeOf_lt_of_mem_properties h
      simp only [node.sizeOf_spec, NodeOf.mk.sizeOf_spec]
      omega
  | edge e =>
      obtain ⟨labels, properties, source, target, direction, var, minHops, maxHops⟩ := e
      have hlt : sizeOf c < sizeOf properties := sizeOf_lt_of_mem_properties h
      simp only [edge.sizeOf_spec, EdgeOf.mk.sizeOf_spec]
      omega
  | path p =>
      obtain ⟨nodes, edges, var⟩ := p
      simp only [path.sizeOf_spec, PathOf.mk.sizeOf_spec]
      rcases List.mem_append.mp h with hnode | hedge
      · obtain ⟨n, hn, hc⟩ := List.mem_flatMap.mp hnode
        have hlt : sizeOf n < sizeOf nodes := List.sizeOf_lt_of_mem hn
        have hlt' : sizeOf c < sizeOf n.properties := sizeOf_lt_of_mem_properties hc
        obtain ⟨labels, properties, var, key, placeholder⟩ := n
        simp only [NodeOf.mk.sizeOf_spec] at hlt
        dsimp only at hlt'
        omega
      · obtain ⟨e, he, hc⟩ := List.mem_flatMap.mp hedge
        have hlt : sizeOf e < sizeOf edges := List.sizeOf_lt_of_mem he
        have hlt' : sizeOf c < sizeOf e.properties := sizeOf_lt_of_mem_properties hc
        obtain ⟨labels, properties, source, target, direction, var, minHops, maxHops⟩ := e
        simp only [EdgeOf.mk.sizeOf_spec] at hlt
        dsimp only at hlt'
        omega
  | _ => cases h

/-- What holds of a value whenever it holds of the values right inside it holds of every value. -/
@[elab_as_elim]
theorem inside_induction {motive : Value → Prop}
    (step : ∀ v : Value, (∀ c ∈ v.children, motive c) → motive v) (v : Value) : motive v :=
  step v fun c hc =>
    have := sizeOf_lt_of_mem_children hc
    inside_induction step c
termination_by sizeOf v

/-! ## Equality, member by member -/

theorem equalList_iff {as bs : List Value} :
    equalList as bs = true ↔ List.Forall₂ (fun a b => (a == b) = true) as bs := by
  induction as generalizing bs with
  | nil => cases bs <;> simp [equalList]
  | cons a as ih =>
      cases bs with
      | nil => simp [equalList]
      | cons b bs =>
          rw [equalList, Bool.and_eq_true, List.forall₂_cons, ih]
          rfl

theorem equalEntries_iff {as bs : List (String × Value)} :
    equalEntries as bs = true ↔
      List.Forall₂ (fun a b => a.1 = b.1 ∧ (a.2 == b.2) = true) as bs := by
  induction as generalizing bs with
  | nil => cases bs <;> simp [equalEntries]
  | cons a as ih =>
      cases bs with
      | nil => simp [equalEntries]
      | cons b bs =>
          rw [equalEntries, Bool.and_eq_true, Bool.and_eq_true, beq_iff_eq, List.forall₂_cons, ih]
          rfl

theorem equalNodes_iff {as bs : List Node} :
    equalNodes as bs = true ↔ List.Forall₂ (fun a b => equalNode a b = true) as bs := by
  induction as generalizing bs with
  | nil => cases bs <;> simp [equalNodes]
  | cons a as ih =>
      cases bs with
      | nil => simp [equalNodes]
      | cons b bs => rw [equalNodes, Bool.and_eq_true, List.forall₂_cons, ih]

theorem equalEdges_iff {as bs : List Edge} :
    equalEdges as bs = true ↔ List.Forall₂ (fun a b => equalEdge a b = true) as bs := by
  induction as generalizing bs with
  | nil => cases bs <;> simp [equalEdges]
  | cons a as ih =>
      cases bs with
      | nil => simp [equalEdges]
      | cons b bs => rw [equalEdges, Bool.and_eq_true, List.forall₂_cons, ih]

/-! ## Values that equal themselves -/

theorem equalEntries_self {entries : List (String × Value)}
    (h : ∀ v ∈ entries.map Prod.snd, (v == v) = true) : equalEntries entries entries = true := by
  refine equalEntries_iff.mpr (List.forall₂_same.mpr fun entry hentry => ⟨rfl, ?_⟩)
  exact h entry.2 (List.mem_map_of_mem hentry)

theorem equalNode_self {n : Node} (h : ∀ v ∈ n.properties.map Prod.snd, (v == v) = true) :
    equalNode n n = true := by
  obtain ⟨labels, properties, var, key, placeholder⟩ := n
  simp [equalNode, equalEntries_self h]

theorem equalEdge_self {e : Edge} (h : ∀ v ∈ e.properties.map Prod.snd, (v == v) = true) :
    equalEdge e e = true := by
  obtain ⟨labels, properties, source, target, direction, var, minHops, maxHops⟩ := e
  simp [equalEdge, equalEntries_self h]

theorem equalPath_self {p : Path} (h : ∀ v ∈ (path p).children, (v == v) = true) :
    equalPath p p = true := by
  obtain ⟨nodes, edges, var⟩ := p
  obtain ⟨hnodes, hedges⟩ := List.forall_mem_append.mp h
  rw [List.forall_mem_flatMap] at hnodes hedges
  have hsame : equalNodes nodes nodes = true :=
    equalNodes_iff.mpr (List.forall₂_same.mpr fun n hn => equalNode_self (hnodes n hn))
  have hsame' : equalEdges edges edges = true :=
    equalEdges_iff.mpr (List.forall₂_same.mpr fun e he => equalEdge_self (hedges e he))
  simp [equalPath, hsame, hsame']

/-- **A value equals itself unless something in it is not a number.** -/
theorem equal_self {v : Value} (h : v.NaNFree) : (v == v) = true := by
  induction v using inside_induction with
  | step v ih =>
      have hinside : ∀ c ∈ v.children, (c == c) = true := fun c hc => ih c hc (h.child hc)
      show v.equal v = true
      cases v with
      | null => simp [equal]
      | bool b => simp [equal]
      | int i => simp [equal]
      | string s => simp [equal]
      | float x =>
          rw [equal]
          exact Binary64.equal_self (h x (.self _))
      | list items =>
          rw [equal]
          exact equalList_iff.mpr (List.forall₂_same.mpr hinside)
      | map entries =>
          rw [equal]
          exact equalEntries_self hinside
      | node n =>
          rw [equal]
          exact equalNode_self hinside
      | edge e =>
          rw [equal]
          exact equalEdge_self hinside
      | path p =>
          rw [equal]
          exact equalPath_self hinside

/-! ## What equal values have in common -/

/-- What a path calls its elements, and their types. -/
def elementTypes? : Value → Option (String → Option Ty)
  | path p => some p.elementTy?
  | _ => none

def isEdge : Value → Bool
  | edge _ => true
  | _ => false

theorem string?_of_equal {v w : Value} (h : (v == w) = true) : v.string? = w.string? := by
  change v.equal w = true at h
  cases v <;> cases w <;> simp_all [equal, string?]

theorem isStringList_of_equal {v w : Value} (h : (v == w) = true) :
    Expr.isStringList v = Expr.isStringList w := by
  change v.equal w = true at h
  cases v with
  | list as =>
      cases w with
      | list bs =>
          rw [equal] at h
          have hstrings : as.map string? = bs.map string? :=
            (map_eq_of_forall₂ (equalList_iff.mp h) fun a b hab => (string?_of_equal hab).symm).symm
          have hall (items : List Value) :
              Expr.isStringList (list items) = (items.map string?).all Option.isSome := by
            rw [Expr.isStringList, List.all_map]
            rfl
          rw [hall, hall, hstrings]
      | _ => simp [equal] at h
  | _ => cases w <;> simp_all [equal, Expr.isStringList]

theorem var_of_equalNode {a b : Node} (h : equalNode a b = true) : a.var = b.var := by
  obtain ⟨labels, properties, var, key, placeholder⟩ := a
  simp only [equalNode, Bool.and_eq_true, beq_iff_eq] at h
  exact h.1.1.2

theorem var_of_equalEdge {a b : Edge} (h : equalEdge a b = true) : a.var = b.var := by
  obtain ⟨labels, properties, source, target, direction, var, minHops, maxHops⟩ := a
  simp only [equalEdge, Bool.and_eq_true, beq_iff_eq] at h
  exact h.1.1.2

/-- Equal paths bind the same names, to elements of the same types. -/
theorem elementTy?_of_equalPath {p q : Path} (h : equalPath p q = true) :
    p.elementTy? = q.elementTy? := by
  obtain ⟨nodes, edges, var⟩ := p
  simp only [equalPath, Bool.and_eq_true, beq_iff_eq] at h
  obtain ⟨⟨hnodes, hedges⟩, hvar⟩ := h
  have hnodeVars : nodes.map NodeOf.var = q.nodes.map NodeOf.var :=
    (map_eq_of_forall₂ (equalNodes_iff.mp hnodes) fun a b hab => (var_of_equalNode hab).symm).symm
  have hedgeVars : edges.map EdgeOf.var = q.edges.map EdgeOf.var :=
    (map_eq_of_forall₂ (equalEdges_iff.mp hedges) fun a b hab => (var_of_equalEdge hab).symm).symm
  -- A path is asked only for the names of its elements.
  have hread (p : Path) (name : String) : p.elementTy? name =
      if p.var = some name then some .path
      else if (p.nodes.map NodeOf.var).any (· = some name) then some .node
      else if (p.edges.map EdgeOf.var).any (· = some name) then some .edge
      else none := by
    rw [List.any_map, List.any_map]
    rfl
  funext name
  rw [hread, hread, ← hvar, ← hnodeVars, ← hedgeVars]

theorem elementTypes?_of_equal {v w : Value} (h : (v == w) = true) :
    v.elementTypes? = w.elementTypes? := by
  change v.equal w = true at h
  cases v with
  | path p =>
      cases w with
      | path q =>
          rw [equal] at h
          exact congrArg some (elementTy?_of_equalPath h)
      | _ => simp [equal] at h
  | _ => cases w <;> simp_all [equal, elementTypes?]

theorem isEdge_of_equal {v w : Value} (h : (v == w) = true) : v.isEdge = w.isEdge := by
  change v.equal w = true at h
  cases v <;> cases w <;> simp_all [equal, isEdge]

end Value

end QueryPlan
