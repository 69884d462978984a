import Mathlib.Data.List.Induction
import QueryPlan.Proofs.Lowering.Pattern

/-!
# The types of the elements of a path

A path says in two ways what its names stand for. `namedElements` goes through the path as it is
written, the path's own name last, and takes each name for what it stands for first. `elementTy?`
asks for the path first, then for a node, then for an edge; it gives the types of pattern calls.
Both know the same names. They give them the same types unless a name stands for elements of two
kinds, and even then if it stands for a node first and for an edge later.
-/

namespace QueryPlan

/-- If an edge has the name of a node, then that of a node before it. -/
def NodeFirst (nodes edges : List (Option String)) (name : String) : Prop :=
  ∀ i, edges[i]? = some (some name) → some name ∈ nodes → some name ∈ nodes.take (i + 1)

/-- No name of the pattern stands for elements of different kinds: the variable of the path is that
of no other element, and that of a relationship may be that of a node, but then of one before it. -/
structure Pattern.ClearKinds (p : Pattern) : Prop where
  path_apart : ∀ name, p.var = some name →
    some name ∉ p.nodes.map NodePattern.var ∧ some name ∉ p.edges.map EdgePattern.var
  node_first : ∀ name, NodeFirst (p.nodes.map NodePattern.var) (p.edges.map EdgePattern.var) name

section NodeFirst

variable {nodes edges : List (Option String)} {node edge : Option String} {name : String}

theorem nodeFirst_nil : NodeFirst nodes [] name := by
  intro i hedge
  simp at hedge

theorem nodeFirst_head : NodeFirst (some name :: nodes) edges name := by
  intro i _ _
  simp

/-- An edge before all nodes with its name has the name to itself. -/
theorem nodeFirst_cons_found (hnode : node ≠ some name) :
    NodeFirst (node :: nodes) (some name :: edges) name ↔ some name ∉ nodes := by
  constructor
  · intro h hmem
    have hfirst := h 0 rfl (List.mem_cons_of_mem node hmem)
    simp [hnode.symm] at hfirst
  · intro hfree i _ hmem
    rcases List.mem_cons.mp hmem with heq | hmem
    · exact absurd heq.symm hnode
    · exact absurd hmem hfree

theorem nodeFirst_cons_other (hnode : node ≠ some name) (hedge : edge ≠ some name) :
    NodeFirst (node :: nodes) (edge :: edges) name ↔ NodeFirst nodes edges name := by
  constructor
  · intro h i hi hmem
    have hfirst := h (i + 1) hi (List.mem_cons_of_mem node hmem)
    rw [List.take_succ_cons] at hfirst
    exact (List.mem_cons.mp hfirst).resolve_left hnode.symm
  · intro h i hi hmem
    have hmem := (List.mem_cons.mp hmem).resolve_left hnode.symm
    cases i with
    | zero => exact absurd (Option.some.inj hi) hedge
    | succ i =>
        rw [List.take_succ_cons]
        exact List.mem_cons_of_mem node (h i hi hmem)

end NodeFirst

namespace PathOf

/-! ## Names at their first place -/

section FirstNamed

variable {entries : List (Option String × Ty)} {name : String} {ty : Ty}

theorem firstNamed_concat_none (entries : List (Option String × Ty)) (ty : Ty) :
    firstNamed (entries ++ [(none, ty)]) = firstNamed entries := by
  simp [firstNamed]

theorem firstNamed_concat_known (h : some name ∈ entries.map Prod.fst) (ty : Ty) :
    firstNamed (entries ++ [(some name, ty)]) = firstNamed entries := by
  have hany : (firstNamed entries).any (·.1 = name) = true := by
    simpa using mem_firstNamed.mpr h
  unfold firstNamed at hany ⊢
  rw [List.foldl_append]
  exact if_pos hany

theorem firstNamed_concat_new (h : some name ∉ entries.map Prod.fst) (ty : Ty) :
    firstNamed (entries ++ [(some name, ty)]) = firstNamed entries ++ [(name, ty)] := by
  have hany : ¬(firstNamed entries).any (·.1 = name) = true := by
    simpa using mt mem_firstNamed.mp h
  unfold firstNamed at hany ⊢
  rw [List.foldl_append]
  exact if_neg hany

theorem lookup_cons_of_ne {key : Option String} (h : some name ≠ key) (ty : Ty)
    (rest : List (Option String × Ty)) :
    ((key, ty) :: rest).lookup (some name) = rest.lookup (some name) := by
  rw [List.lookup_cons, beq_eq_false_iff_ne.mpr h]

theorem lookup_eq_none_iff :
    entries.lookup (some name) = none ↔ some name ∉ entries.map Prod.fst := by
  simp only [List.lookup_eq_none_iff, List.mem_map, bne_iff_ne, ne_eq, not_exists, not_and]
  exact forall₂_congr fun entry _ => not_congr eq_comm

/-- A name is listed with the type of the entry that has it first. -/
theorem mem_firstNamed_iff :
    (name, ty) ∈ firstNamed entries ↔ entries.lookup (some name) = some ty := by
  induction entries using List.reverseRecOn with
  | nil => simp [firstNamed]
  | append_singleton entries entry ih =>
      obtain ⟨key, t⟩ := entry
      rw [List.lookup_append]
      by_cases hname : some name = key
      · subst hname
        by_cases hknown : some name ∈ entries.map Prod.fst
        · have hsome : entries.lookup (some name) ≠ none := fun h => lookup_eq_none_iff.mp h hknown
          obtain ⟨u, hu⟩ := Option.ne_none_iff_exists'.mp hsome
          rw [firstNamed_concat_known hknown, ih, hu, Option.some_or]
        · have hnew : (name, ty) ∉ firstNamed entries :=
            fun h => hknown (mem_firstNamed.mp (List.mem_map_of_mem h))
          rw [firstNamed_concat_new hknown, lookup_eq_none_iff.mpr hknown, List.mem_append]
          simp [hnew, eq_comm]
      · rw [lookup_cons_of_ne hname, List.lookup_nil, Option.or_none, ← ih]
        cases key with
        | none => rw [firstNamed_concat_none]
        | some other =>
            by_cases hknown : some other ∈ entries.map Prod.fst
            · rw [firstNamed_concat_known hknown]
            · have hdiffers : (name, ty) ≠ (other, t) := fun h => hname (congrArg (some ·.1) h)
              rw [firstNamed_concat_new hknown, List.mem_append, List.mem_singleton,
                or_iff_left hdiffers]

theorem nodup_firstNamed (entries : List (Option String × Ty)) :
    ((firstNamed entries).map Prod.fst).Nodup := by
  induction entries using List.reverseRecOn with
  | nil => exact List.nodup_nil
  | append_singleton entries entry ih =>
      obtain ⟨other, t⟩ := entry
      cases other with
      | none => rwa [firstNamed_concat_none]
      | some other =>
          by_cases hknown : some other ∈ entries.map Prod.fst
          · rwa [firstNamed_concat_known hknown]
          · rw [firstNamed_concat_new hknown, List.map_append]
            refine List.nodup_append.mpr ⟨ih, by simp, ?_⟩
            intro name hname b hb hsame
            obtain rfl := List.mem_singleton.mp hb
            exact hknown (mem_firstNamed.mp (hsame ▸ hname))

end FirstNamed

/-! ## Nodes and edges as written -/

/-- What a name stands for if nodes are asked before edges. -/
def kindOf (nodes edges : List (Option String)) (name : String) : Option Ty :=
  if some name ∈ nodes then some .node else if some name ∈ edges then some .edge else none

theorem elementTy?_eq (path : Path) (name : String) : path.elementTy? name =
    if path.var = some name then some .path
    else kindOf (path.nodes.map NodeOf.var) (path.edges.map EdgeOf.var) name := by
  simp [elementTy?, kindOf]

theorem kindOf_cons_node {nodes edges : List (Option String)} {node : Option String} {name : String}
    (h : some name ≠ node) : kindOf (node :: nodes) edges name = kindOf nodes edges name := by
  simp [kindOf, h]

theorem kindOf_cons_edge {nodes edges : List (Option String)} {edge : Option String} {name : String}
    (h : some name ≠ edge) : kindOf nodes (edge :: edges) name = kindOf nodes edges name := by
  simp [kindOf, h]

/-- Going through nodes and edges as written finds what asking for nodes first finds, exactly if an
edge with the name of a node comes after one. -/
theorem lookup_interleave_eq_kindOf_iff {nodes : List Node} {edges : List Edge}
    (h : edges.length ≤ nodes.length) (name : String) :
    (interleave nodes edges).lookup (some name) =
        kindOf (nodes.map NodeOf.var) (edges.map EdgeOf.var) name ↔
      NodeFirst (nodes.map NodeOf.var) (edges.map EdgeOf.var) name := by
  induction nodes generalizing edges with
  | nil =>
      obtain rfl : edges = [] := List.length_eq_zero_iff.mp (Nat.le_zero.mp h)
      exact iff_of_true rfl nodeFirst_nil
  | cons node nodes ih =>
      by_cases hnode : node.var = some name
      · refine iff_of_true ?_ (by simpa [hnode] using nodeFirst_head)
        cases edges <;> simp [interleave, kindOf, hnode]
      · have hother : some name ≠ node.var := fun heq => hnode heq.symm
        cases edges with
        | nil =>
            have hrest : (interleave nodes []).lookup (some name) =
                kindOf (nodes.map NodeOf.var) [] name := (ih (Nat.zero_le _)).mpr nodeFirst_nil
            refine iff_of_true ?_ nodeFirst_nil
            rw [interleave, lookup_cons_of_ne hother, hrest, List.map_cons, kindOf_cons_node hother]
            rfl
        | cons edge edges =>
            have hle : edges.length ≤ nodes.length := Nat.le_of_succ_le_succ h
            rw [interleave, lookup_cons_of_ne hother, List.map_cons, List.map_cons,
              kindOf_cons_node hother]
            by_cases hedge : edge.var = some name
            · -- The edge is found, so there must be no node to ask for.
              rw [hedge, List.lookup_cons_self, nodeFirst_cons_found hnode]
              simp [kindOf]
            · rw [lookup_cons_of_ne fun heq => hedge heq.symm, nodeFirst_cons_other hnode hedge,
                ← ih hle, kindOf_cons_edge fun heq => hedge heq.symm]

/-- Nothing among nodes and edges is a path. -/
theorem lookup_interleave_ne_path (nodes : List Node) (edges : List Edge) (name : String) :
    (interleave nodes edges).lookup (some name) ≠ some .path := by
  induction nodes generalizing edges with
  | nil => simp [interleave]
  | cons node nodes ih =>
      cases edges with
      | nil =>
          rw [interleave, List.lookup_cons]
          split
          · simp
          · exact ih []
      | cons edge edges =>
          rw [interleave, List.lookup_cons]
          split
          · simp
          · rw [List.lookup_cons]
            split
            · simp
            · exact ih edges

/-! ## The two ways side by side -/

section

variable {path : Path} {name : String} {ty : Ty}

/-- A name is listed as what it stands for first among nodes and edges, or else as the path. -/
theorem mem_namedElements_iff : (name, ty) ∈ path.namedElements ↔
    (interleave path.nodes path.edges).lookup (some name) = some ty ∨
      (interleave path.nodes path.edges).lookup (some name) = none ∧
        path.var = some name ∧ ty = .path := by
  rw [namedElements, mem_firstNamed_iff, List.lookup_append, Option.or_eq_some_iff]
  by_cases hvar : path.var = some name
  · simp [hvar, eq_comm]
  · rw [lookup_cons_of_ne fun heq => hvar heq.symm]
    simp [hvar]

/-- A name is listed with one type. -/
theorem type_unique {other : Ty} (h : (name, ty) ∈ path.namedElements)
    (hother : (name, other) ∈ path.namedElements) : ty = other :=
  Option.some.inj ((mem_firstNamed_iff.mp h).symm.trans (mem_firstNamed_iff.mp hother))

theorem lookup_interleave_eq_none_iff (h : path.edges.length ≤ path.nodes.length) :
    (interleave path.nodes path.edges).lookup (some name) = none ↔
      some name ∉ path.nodes.map NodeOf.var ∧ some name ∉ path.edges.map EdgeOf.var := by
  rw [lookup_eq_none_iff, mem_interleave, List.take_of_length_le h, not_or]
  simp

/-- **When the two ways agree.** -/
theorem listed_as_typed_iff (h : path.edges.length ≤ path.nodes.length) :
    (∀ entry ∈ path.namedElements, path.elementTy? entry.1 = some entry.2) ↔
      (∀ name, path.var = some name →
        some name ∉ path.nodes.map NodeOf.var ∧ some name ∉ path.edges.map EdgeOf.var) ∧
      ∀ name, NodeFirst (path.nodes.map NodeOf.var) (path.edges.map EdgeOf.var) name := by
  constructor
  · intro hagree
    have hapart : ∀ name, path.var = some name →
        some name ∉ path.nodes.map NodeOf.var ∧ some name ∉ path.edges.map EdgeOf.var := by
      intro name hvar
      rw [← lookup_interleave_eq_none_iff h, Option.eq_none_iff_forall_ne_some]
      intro ty hty
      have htyped := hagree (name, ty) (mem_namedElements_iff.mpr (Or.inl hty))
      rw [elementTy?_eq, if_pos hvar] at htyped
      exact lookup_interleave_ne_path _ _ name (hty.trans htyped.symm)
    refine ⟨hapart, fun name => ?_⟩
    by_cases hvar : path.var = some name
    · intro i hi hmem
      exact absurd hmem (hapart name hvar).1
    · rw [← lookup_interleave_eq_kindOf_iff h]
      cases hfound : (interleave path.nodes path.edges).lookup (some name) with
      | none =>
          obtain ⟨hnodes, hedges⟩ := (lookup_interleave_eq_none_iff h).mp hfound
          rw [kindOf, if_neg hnodes, if_neg hedges]
      | some ty =>
          have htyped := hagree (name, ty) (mem_namedElements_iff.mpr (Or.inl hfound))
          rw [elementTy?_eq, if_neg hvar] at htyped
          exact htyped.symm
  · rintro ⟨hapart, hfirst⟩ ⟨name, ty⟩ hentry
    rw [elementTy?_eq]
    rcases mem_namedElements_iff.mp hentry with hfound | ⟨-, hvar, rfl⟩
    · have hvar : path.var ≠ some name := by
        intro hvar
        rw [(lookup_interleave_eq_none_iff h).mpr (hapart name hvar)] at hfound
        cases hfound
      rw [if_neg hvar, ← (lookup_interleave_eq_kindOf_iff h name).mpr (hfirst name), hfound]
    · rw [if_pos hvar]

theorem elementTy?_eq_ty_binding (h : name ∈ path.names) :
    path.elementTy? name = some (path.binding name).expr.ty := by
  obtain ⟨ty, hty⟩ := Option.isSome_iff_exists.mp (isSome_of_mem_names h)
  rw [binding, hty]
  rfl

end

end PathOf

/-! ## Paths of patterns -/

namespace Pattern

theorem Describes.listed_as_typed_iff {p : Pattern} {path : Path} (h : p.Describes path) :
    (∀ entry ∈ path.namedElements, path.elementTy? entry.1 = some entry.2) ↔ p.ClearKinds := by
  rw [PathOf.listed_as_typed_iff h.length_edges_le, h.map_node_var, h.map_edge_var, h.var]
  exact ⟨fun ⟨hapart, hfirst⟩ => ⟨hapart, hfirst⟩, fun h => ⟨h.path_apart, h.node_first⟩⟩

/-- **When elements are typed as they are listed.** The names that the path of a pattern lists are
all different, and they are the names of its elements. The calls that a clause makes for such a
path, whichever names are taken before, are those for the other names; none of them is refused, and
each has the type of the element. This is the type that the name is listed with, and the calls have
the types that their names are listed with, if and only if no name of the pattern stands for
elements of different kinds, unless for a node first and a relationship later. -/
theorem elements_typed_as_listed_iff {p : Pattern} {n m : Nat} {path : Path}
    (h : p.toPath n = .ok (path, m)) :
    (path.namedElements.map Prod.fst).Nodup ∧
    (∀ name, name ∈ path.namedElements.map Prod.fst ↔ (path.elementTy? name).isSome = true) ∧
    (∀ taken, ∃ calls, elementCalls path taken (path.namedElements.map Prod.fst) = .ok calls ∧
      calls.map Binding.name =
        (path.namedElements.map Prod.fst).filter (fun name => !taken.contains name) ∧
      ∀ b ∈ calls, path.elementTy? b.name = some b.expr.ty) ∧
    ((∀ entry ∈ path.namedElements, path.elementTy? entry.1 = some entry.2) ↔ p.ClearKinds) ∧
    ((∀ taken calls, elementCalls path taken (path.namedElements.map Prod.fst) = .ok calls →
      ∀ b ∈ calls, (b.name, b.expr.ty) ∈ path.namedElements) ↔ p.ClearKinds) := by
  have hdescribes := (toPath_eq_ok h).1
  have hcalls : ∀ taken, elementCalls path taken (path.namedElements.map Prod.fst) =
      .ok ((path.names.filter fun name => !taken.contains name).map path.binding) :=
    fun taken => elementCalls_eq taken fun _ hname => hname
  refine ⟨PathOf.nodup_firstNamed _, fun name => PathOf.mem_names hdescribes.length_edges_le, ?_,
    hdescribes.listed_as_typed_iff, ?_⟩
  · intro taken
    refine ⟨_, hcalls taken, ?_, ?_⟩
    · simp [PathOf.binding, PathOf.names, Function.comp_def]
    · intro b hb
      obtain ⟨name, hname, rfl⟩ := List.mem_map.mp hb
      exact PathOf.elementTy?_eq_ty_binding (List.mem_of_mem_filter hname)
  · rw [← hdescribes.listed_as_typed_iff]
    constructor
    · rintro htyped ⟨name, ty⟩ hentry
      have hname : name ∈ path.names := List.mem_map_of_mem hentry
      have hcall : path.binding name ∈
          (path.names.filter fun name => !([] : List String).contains name).map path.binding :=
        List.mem_map_of_mem (List.mem_filter.mpr ⟨hname, rfl⟩)
      have hlisted := htyped [] _ (hcalls []) _ hcall
      rw [PathOf.elementTy?_eq_ty_binding hname, PathOf.type_unique hlisted hentry]
    · intro htyped taken calls hok b hb
      obtain rfl := Except.ok.inj ((hcalls taken).symm.trans hok)
      obtain ⟨name, hname, rfl⟩ := List.mem_map.mp hb
      have hname := List.mem_of_mem_filter hname
      obtain ⟨entry, hentry, rfl⟩ := List.mem_map.mp hname
      have hty := (PathOf.elementTy?_eq_ty_binding hname).symm.trans (htyped entry hentry)
      rw [Option.some.inj hty]
      exact hentry

/-- `p = (a)-[a]->(b)` -/
def namedAlike : Pattern :=
  .path ⟨some "p", ⟨some "a", [], [], none⟩,
    [⟨some "a", [], .outgoing, [], none, ⟨some "b", [], [], none⟩, none⟩], none⟩

/-- A relationship that has the name of the node before it. The name stands for the node. -/
theorem namedAlike_typed_as_listed :
    ∃ path m, namedAlike.toPath 0 = .ok (path, m) ∧
      path.namedElements = [("a", .node), ("b", .node), ("p", .path)] ∧
      ∀ entry ∈ path.namedElements, path.elementTy? entry.1 = some entry.2 := by
  obtain ⟨⟨path, m⟩, h⟩ : ∃ r, namedAlike.toPath 0 = .ok r := ⟨_, rfl⟩
  obtain ⟨-, -, -, hiff, -⟩ := elements_typed_as_listed_iff h
  refine ⟨path, m, h, ?_, hiff.mpr ⟨?_, ?_⟩⟩
  · cases h
    rfl
  · rintro name hvar
    cases hvar
    decide
  · intro name i hedge _
    match i with
    | 0 =>
        cases hedge
        decide
    | _ + 1 => cases hedge

/-- `()-[a]->(a)` -/
def borrowedName : Pattern :=
  .path ⟨none, ⟨none, [], [], none⟩,
    [⟨some "a", [], .outgoing, [], none, ⟨some "a", [], [], none⟩, none⟩], none⟩

/-- **A relationship that has the name of the node after it** is listed as an edge, and the call
that binds the name is that of a node. -/
theorem borrowedName_typed_otherwise :
    ∃ path m call, borrowedName.toPath 0 = .ok (path, m) ∧
      path.namedElements = [("a", .edge)] ∧ path.elementTy? "a" = some .node ∧
      elementCall path "a" = .ok call ∧ call.ty = .node :=
  ⟨_, _, _, rfl, rfl, rfl, rfl, rfl⟩

end Pattern

end QueryPlan
