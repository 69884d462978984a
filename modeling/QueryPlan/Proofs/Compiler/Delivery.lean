import QueryPlan.Proofs.Compiler.Models

/-!
# What other models get to see

A plan that is wanted in another model is delivered with the fields it has in the graph model, under
the same names. A field that is a node, an edge or a path becomes a document. The conversion looks
at the type of a field and not into it, so a list keeps the type of its elements, and pieces of the
graph that stand in lists are delivered as they are.
-/

namespace QueryPlan

namespace Ty

/-- Whether values of the type are nodes, edges or paths, or lists of such values to any depth. -/
def mentionsElement : Ty → Bool
  | list element => element.mentionsElement
  | t => t.isGraphElement

/-- A type mentions pieces of the graph if it is the type of one or of a list that does. -/
theorem mentionsElement_iff (t : Ty) : t.mentionsElement = true ↔
    t.isGraphElement = true ∨ ∃ element, t = .list element ∧ element.mentionsElement = true := by
  cases t <;> simp [mentionsElement, isGraphElement]

end Ty

namespace Field

variable (f : Field)

@[simp] theorem name_converted : f.converted.name = f.name := by
  unfold converted
  split <;> rfl

@[simp] theorem ty_converted :
    f.converted.ty = if f.ty.isGraphElement then .document else f.ty := by
  unfold converted
  split <;> rfl

theorem isGraphElement_converted : f.converted.ty.isGraphElement = false := by
  rw [ty_converted]
  split
  · rfl
  · next hplain => exact eq_false_of_ne_true hplain

/-- Pieces of the graph are left in a field exactly if they are in a list. -/
theorem mentionsElement_converted : f.converted.ty.mentionsElement = true ↔
    ∃ element, f.ty = .list element ∧ element.mentionsElement = true := by
  rw [Ty.mentionsElement_iff, isGraphElement_converted, ty_converted]
  by_cases h : f.ty.isGraphElement = true
  · -- A document is no list, and neither is a node, an edge or a path.
    rw [if_pos h]
    have hlist (element : Ty) : f.ty ≠ .list element := by
      intro heq
      rw [heq] at h
      cases h
    simp [hlist]
  · rw [if_neg h]
    simp

end Field

theorem Schema.names_converted (schema : Schema) :
    Schema.names (schema.map Field.converted) = schema.names := by
  unfold Schema.names
  rw [List.map_map]
  exact List.map_congr_left fun f _ => f.name_converted

/-! ## The plan that is delivered -/

/-- With another model asked for, what is delivered reads a plan in the graph model and has its
fields, converted. -/
theorem Plan.Bridged.exists_input {catalog : Catalog} {settings : Settings} {kind : QueryKind}
    {p : Plan} (h : p.Bridged catalog settings kind) (hmodel : settings.targetModel ≠ .graph) :
    ∃ input, p.inputs = [input] ∧ input.model = .graph ∧
      p.schema = input.schema.map Field.converted := by
  cases h with
  | inGraph hgraph _ _ => exact absurd hgraph hmodel
  | converted _ hgraph _ _ _ => exact ⟨_, rfl, hgraph.model, rfl⟩

namespace Compiler

variable {catalog : Catalog} {settings : Settings} {c : Compiler} {query : Query} {root p : Plan}
  {kind : QueryKind}

theorem finish_of_deliver (h : deliver c.settings root kind = .ok p) :
    (c.finish root kind).1 = .ok ⟨(c.interner.intern (p.tagWith c.nextTag)).1, kind⟩ := by
  rw [finish, h]

/-- Asked for the graph model, a new compiler answers with what lowering makes. -/
theorem compile_in_graph
    (hplan : query.toPlan catalog settings.home settings.allowSubstitution = .ok (root, kind)) :
    ((new catalog (settings.withTargetModel .graph)).compile query).1 =
      .ok ⟨root.tagWith 0, kind⟩ := by
  have hdeliver : deliver (settings.withTargetModel .graph) root kind = .ok root := by
    rw [deliver_eq_toModel _ kind (Query.reachable_toPlan hplan)]
    exact if_pos (Query.inGraph_toPlan hplan).1.model
  rw [compile_of_ok hplan, finish_of_deliver hdeliver]
  exact congrArg (fun p : Plan => Except.ok (⟨p, kind⟩ : Compiled)) (Interner.intern_empty _ _)

/-- Where nothing is kept, the plan that is read is the one that the graph model would be given. -/
theorem compile_input_in_graph {compiled : Compiled} {input : Plan}
    (hmodel : c.settings.targetModel ≠ .graph) (hnone : c.interner.plans = [])
    (h : (c.compile query).1 = .ok compiled) (hinput : compiled.root.inputs = [input]) :
    ((new c.catalog (c.settings.withTargetModel .graph)).compile query).1 =
      .ok ⟨input.tagWith 0, compiled.kind⟩ := by
  obtain ⟨root, kind, p, hplan, hp, rfl⟩ := compile_eq_ok h
  have hsame : (c.interner.intern (p.tagWith c.nextTag)).1 = p.tagWith c.nextTag := by
    rcases c.interner.intern_eq_or_mem (p.tagWith c.nextTag) with hsame | hkept
    · exact hsame
    · rw [hnone] at hkept
      cases hkept
  have hinputs : p.inputs = [root] := by
    have hconverted := toModel_of_deliver hp
    rw [Plan.toModel, if_neg] at hconverted
    · rw [(Plan.yields_transform _ _ _).result hconverted]
    · rw [(Query.inGraph_toPlan hplan).1.model]
      exact Ne.symm hmodel
  obtain rfl : root = input := by
    rw [hsame] at hinput
    exact List.singleton_inj.mp (hinputs.symm.trans hinput)
  exact compile_in_graph hplan

/-- **What is left of the graph in other models.** A plan that is delivered in another model than
the graph model reads a plan in the graph model. That is the plan which a compiler asked for the
graph model answers with, unless an interned plan is taken for it. The two have the same field names
in the same order. Nodes, edges and paths become documents, and no other field changes its type; so
no field is a node, an edge or a path. But pieces of the graph are gone from the types altogether
only if the plan in the graph model has no field that is a list of such pieces, or a list of such
lists. -/
theorem delivered_without_elements_iff {compiled : Compiled} (hc : InUse catalog settings c)
    (hmodel : settings.targetModel ≠ .graph) (h : (c.compile query).1 = .ok compiled) :
    ∃ input : Plan, compiled.root.inputs = [input] ∧ input.model = .graph ∧
      (c.interner.plans = [] →
        ((new catalog (settings.withTargetModel .graph)).compile query).1 =
          .ok ⟨input.tagWith 0, compiled.kind⟩) ∧
      compiled.root.schema.names = input.schema.names ∧
      compiled.root.schema.map Field.ty =
        input.schema.map (fun f => if f.ty.isGraphElement then .document else f.ty) ∧
      (∀ f ∈ compiled.root.schema, f.ty.isGraphElement = false) ∧
      ((∀ f ∈ compiled.root.schema, f.ty.mentionsElement = false) ↔
        ∀ f ∈ input.schema, ∀ element, f.ty = .list element →
          element.mentionsElement = false) := by
  have hkeeps := hc.keepsBridged
  obtain ⟨input, hinput, hgraph, hschema⟩ := (hkeeps.bridged h).exists_input hmodel
  refine ⟨input, hinput, hgraph, ?_, ?_, ?_, ?_, ?_⟩
  · obtain ⟨rfl, rfl, -⟩ := hkeeps
    exact fun hnone => compile_input_in_graph hmodel hnone h hinput
  · rw [hschema]
    exact input.schema.names_converted
  · rw [hschema, List.map_map]
    exact List.map_congr_left fun f _ => f.ty_converted
  · rw [hschema]
    intro f hf
    obtain ⟨g, -, rfl⟩ := List.mem_map.mp hf
    exact g.isGraphElement_converted
  · rw [hschema, List.forall_mem_map]
    refine forall₂_congr fun f _ => ?_
    rw [Bool.eq_false_iff, ne_eq, f.mentionsElement_converted]
    simp

/-- `MATCH (n) RETURN … AS found` -/
def foundAs (e : Expression) : Query :=
  .single ⟨[.matching ⟨false, [.node ⟨some "n", [], [], none⟩], none, none⟩,
    .returning ⟨⟨false, false, [⟨e, some "found", none⟩], [], none, none⟩, none⟩], none⟩

/-- Nodes are delivered as documents. -/
theorem nodes_delivered_as_documents :
    ∃ compiled, InUse .withDefaultGraph (Settings.default.withTargetModel .document)
        (new .withDefaultGraph (Settings.default.withTargetModel .document)) ∧
      ((new .withDefaultGraph (Settings.default.withTargetModel .document)).compile
        (foundAs (.var "n"))).1 = .ok compiled ∧
      compiled.root.schema.names = ["found"] ∧
      ∀ f ∈ compiled.root.schema, f.ty.mentionsElement = false := by
  have hanswer : ((new .withDefaultGraph (Settings.default.withTargetModel .document)).compile
      (foundAs (.var "n"))).1.toOption.map
        (fun compiled => compiled.root.inputs.map Plan.schema) =
      some [[⟨"found", .node⟩]] := by decide +kernel
  obtain ⟨compiled, h, hread⟩ := toOption_map_eq_some.mp hanswer
  obtain ⟨input, hinput, -, -, hnames, -, -, hiff⟩ :=
    delivered_without_elements_iff .new (by decide) h
  have hschema : input.schema = [⟨"found", .node⟩] := by
    rw [hinput] at hread
    exact List.singleton_inj.mp hread
  rw [hschema] at hnames hiff
  refine ⟨compiled, .new, h, hnames, hiff.mpr ?_⟩
  simp

/-- **Nodes in a list are delivered as nodes.** -/
theorem listed_nodes_delivered_as_nodes :
    ∃ compiled, ((new .withDefaultGraph (Settings.default.withTargetModel .document)).compile
        (foundAs (.list [.var "n"]))).1 = .ok compiled ∧
      compiled.root.model = .document ∧ compiled.root.schema = [⟨"found", .list .node⟩] := by
  have hanswer : ((new .withDefaultGraph (Settings.default.withTargetModel .document)).compile
      (foundAs (.list [.var "n"]))).1.toOption.map
        (fun compiled => (compiled.root.model, compiled.root.schema)) =
      some (.document, [⟨"found", .list .node⟩]) := by decide +kernel
  obtain ⟨compiled, h, hseen⟩ := toOption_map_eq_some.mp hanswer
  obtain ⟨hmodel, hschema⟩ := Prod.mk.inj hseen
  exact ⟨compiled, h, hmodel, hschema⟩

end Compiler

end QueryPlan
