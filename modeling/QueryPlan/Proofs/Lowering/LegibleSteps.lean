import QueryPlan.Proofs.Lowering.Legible
import QueryPlan.Proofs.Lowering.Models

/-!
# Plain queries become legible plans

Each step of a plain query makes a legible plan of a legible one, so a run of its steps leaves a
legible plan.

The catalog must find each of its entities under its number, since of an entity the fingerprint
shows no more than the number and the name.
-/

namespace QueryPlan

open Text

/-- Each entity is found under its number. -/
def Catalog.FindsItsEntities (catalog : Catalog) : Prop :=
  ∀ e ∈ catalog.entities, e.KnownTo catalog

instance (catalog : Catalog) : Decidable catalog.FindsItsEntities :=
  inferInstanceAs (Decidable (∀ e ∈ catalog.entities, catalog.entity? e.id = some e))

/-! ## Graphs -/

namespace GraphSource

/-- A graph of its own is in the catalog. -/
def Known (catalog : Catalog) : GraphSource → Prop
  | entity graph => graph.KnownTo catalog ∧ graph.model = .graph
  | substitution _ _ => True

variable {catalog : Catalog} {source : GraphSource}

theorem known_of_resolve {home : NamespaceId} {allow : Bool} {labels : List String}
    (hcatalog : catalog.FindsItsEntities) (h : resolve catalog home allow labels = .ok source) :
    source.Known catalog := by
  rcases resolve_eq_ok h with ⟨graph, hgraph, rfl⟩ | ⟨-, rfl⟩
  · exact ⟨hcatalog graph (List.mem_of_find?_eq_some hgraph), Catalog.model_of_graph? hgraph⟩
  · trivial

theorem Known.target {entity : Entity} (h : source.Known catalog)
    (hentity : source.target = .ok entity) : entity.KnownTo catalog := by
  cases source with
  | entity graph =>
      cases hentity
      exact h.1
  | substitution home labels => cases hentity

end GraphSource

/-- The plan so far, if there is one, is legible. -/
def TopLegible (catalog : Catalog) (top : Option Plan) : Prop := ∀ p ∈ top, p.Legible catalog

section Steps

variable {catalog : Catalog} {source : GraphSource} {home : NamespaceId} {top : Option Plan}
  {n m : Nat} {p : Plan}

theorem GraphSource.legible_inputOr (hcatalog : catalog.FindsItsEntities)
    (hsource : source.Known catalog) (htop : TopLegible catalog top)
    (h : source.inputOr catalog top = .ok p) : p.Legible catalog := by
  cases top with
  | some q =>
      cases h
      exact htop p rfl
  | none =>
      cases source with
      | entity graph =>
          obtain rfl := (Plan.yields_scan graph).result h
          refine Plan.legible_leaf hsource.1 ?_
          rw [Entity.schema, hsource.2]
          exact List.forall_mem_singleton.mpr (by decide)
      | substitution home labels =>
          obtain ⟨info, -, -, rfl⟩ := (Plan.yields_substitutionScan catalog home labels).result h
          have htitles : ∀ f ∈ Schema.single "graph" .graph, isTitle f.name = true :=
            List.forall_mem_singleton.mpr (by decide)
          refine ⟨Plan.readable_node trivial (fun _ => htitles) ?_, htitles⟩
          refine List.forall_mem_map.mpr fun entity hentity => Plan.readable_node ?_ nofun
            (List.forall_mem_nil _)
          exact hcatalog entity (List.mem_of_mem_filter (List.mem_of_mem_filter hentity))

theorem MatchClause.legible_step {c : MatchClause} (hcatalog : catalog.FindsItsEntities)
    (hsource : source.Known catalog) (htop : TopLegible catalog top)
    (hc : (Clause.matching c).isPlain = true) (h : c.step catalog source top n = .ok (p, m)) :
    p.Legible catalog := by
  obtain ⟨hpatterns, hcondition⟩ := Bool.and_eq_true_iff.mp hc
  obtain ⟨-, paths, input, made, hpaths, hinput, hmade, hp⟩ := MatchClause.step_eq_ok.mp h
  have hplain := Pattern.plain_toPaths (List.all_eq_true.mp hpatterns) hpaths
  have hlegible := GraphSource.legible_inputOr hcatalog hsource htop hinput
  exact (hlegible.readable.extendMatch (PathOf.readable_bindings hplain) hmade).restrictBy
    hcondition hp

theorem legible_insertInput {nodes : List (String × Node)} {edges : List BoundEdge}
    (htop : TopLegible catalog top) (hnodes : ∀ entry ∈ nodes, Value.PlainNode entry.2)
    (hedges : ∀ b ∈ edges, b.Plain) (h : insertInput top nodes edges = .ok p) :
    p.Legible catalog := by
  cases top with
  | none =>
      rw [insertInput] at h
      refine legible_values ⟨List.forall_mem_map.mpr hnodes, ?_, List.forall_mem_nil _,
        fun _ => rfl⟩ (List.forall_mem_nil _) h
      exact List.forall_mem_map.mpr fun b hb => (hedges b hb).edge
  | some q =>
      obtain ⟨columns, hcolumns, h⟩ := bind_eq_ok.mp h
      obtain ⟨edgeColumns, hedgeColumns, hcolumns⟩ := bind_eq_ok.mp hcolumns
      cases hcolumns
      obtain rfl := (Plan.yields_projectColumns _ _).result h
      exact (htop q rfl).readable.projecting (List.forall_mem_append.mpr
        ⟨legible_newNodes hnodes, legible_newEdges hedges hedgeColumns⟩)

theorem CreateClause.legible_step {c : CreateClause} (hsource : source.Known catalog)
    (htop : TopLegible catalog top) (hc : (Clause.creating c).isPlain = true)
    (h : c.step source top n = .ok (p, m)) : p.Legible catalog := by
  obtain ⟨⟨created, k⟩, hcreated, h⟩ := bind_eq_ok.mp h
  obtain ⟨q, hq, h⟩ := bind_eq_ok.mp h
  cases h
  have hplain := plain_createPatterns (List.all_eq_true.mp hc) hcreated
  have hnodes := KeyedNode.plain_collect hplain.nodes
  unfold GraphSource.insert at hq
  split at hq
  · cases hq
  · obtain ⟨entity, hentity, hq⟩ := bind_eq_ok.mp hq
    obtain ⟨input, hinput, hq⟩ := bind_eq_ok.mp hq
    obtain rfl := (Plan.yields_modify entity input .insert []).result hq
    have hlegible := legible_insertInput htop hnodes hplain.edges hinput
    exact hlegible.readable.modify (hsource.target hentity) (List.forall_mem_nil _)

theorem GraphSource.legible_write {write : Write} {queued : List (Option String × Expr)}
    (hsource : source.Known catalog) (htop : TopLegible catalog top)
    (hqueued : ReadableQueue queued) (h : source.write top write queued = .ok p) :
    p.Legible catalog := by
  unfold GraphSource.write at h
  split at h
  · cases h
  · obtain ⟨entity, hentity, h⟩ := bind_eq_ok.mp h
    obtain ⟨input, hinput, h⟩ := bind_eq_ok.mp h
    obtain ⟨targets, htargets, h⟩ := bind_eq_ok.mp h
    obtain rfl := (Plan.yields_modify entity input write targets).result h
    cases top with
    | none => cases hinput
    | some q =>
        cases hinput
        exact (htop _ rfl).readable.modify (hsource.target hentity)
          (readable_targetsOf hqueued htargets)

theorem Value.PlainlyNamed.asList {v : Value} (h : v.PlainlyNamed) : v.asList.PlainlyNamed := by
  cases v with
  | list items => exact h
  | null => exact plainlyNamed_list (List.forall_mem_nil _)
  | _ => exact plainlyNamed_list (List.forall_mem_singleton.mpr h)

theorem UnwindClause.legible_step {c : UnwindClause} (htop : TopLegible catalog top)
    (hc : (Clause.unwinding c).isPlain = true) (h : c.step top = .ok p) : p.Legible catalog := by
  obtain ⟨hexpression, hname⟩ := Bool.and_eq_true_iff.mp hc
  cases top with
  | none =>
      dsimp only [UnwindClause.step, UnwindClause.standalone] at h
      split at h
      · cases h
      · next v hv =>
          obtain ⟨rows, hrows, h⟩ := bind_eq_ok.mp h
          have hlist := (Expression.plainlyNamed_literalValue hexpression hv).asList
          have hplain : LiteralRows.PlainlyNamed ⟨[], [], [[v.asList]], [c.asName]⟩ :=
            ⟨List.forall_mem_nil _, List.forall_mem_nil _,
              List.forall_mem_singleton.mpr (List.forall_mem_singleton.mpr hlist), nofun⟩
          have hlegible : rows.Legible catalog :=
            legible_values hplain (List.forall_mem_singleton.mpr hname) hrows
          exact hlegible.readable.unwind hname h
  | some q =>
      have hq := htop q rfl
      obtain ⟨lowered, hlowered, h⟩ := bind_eq_ok.mp h
      obtain ⟨e, he, h⟩ := bind_eq_ok.mp h
      have hlowered := Expression.readable_toExpr hexpression hlowered
      have hreadable : e.Readable := by
        unfold Expr.asList at he
        split at he
        · cases he
          exact hlowered
        · exact .call he trivial (List.forall_mem_singleton.mpr hlowered)
      split at h
      · exact hq.readable.unwind hname h
      · obtain ⟨project, hproject, h⟩ := bind_eq_ok.mp h
        obtain rfl := (Plan.yields_projectColumns _ _).result hproject
        have hlast : Column.Legible ⟨some c.asName, e⟩ :=
          Column.legible rfl (isTitle_of_isPlain hname) hreadable
        have hlegible := hq.readable.projecting (List.forall_mem_append.mpr
          ⟨legible_starColumns hq.titles, List.forall_mem_singleton.mpr hlast⟩)
        exact hlegible.readable.unwind hname h

/-- The fields of procedures have titles. -/
theorem plain_of_procedureSchema? {name : String} {full : Schema}
    (h : procedureSchema? name = some full) :
    isPlain name = true ∧ ∀ f ∈ full, isTitle f.name = true := by
  unfold procedureSchema? at h
  split at h
  · cases h
    decide
  · cases h
    decide
  · cases h
    decide
  · cases h
    decide
  · cases h

theorem mem_of_yieldFields {full fields : Schema} {items : List String}
    (h : Plan.yieldFields full items = .ok fields) : ∀ f ∈ fields, f ∈ full := by
  induction items generalizing fields with
  | nil =>
      cases h
      exact List.forall_mem_nil _
  | cons item items ih =>
      unfold Plan.yieldFields at h
      split at h
      · next index field hfound =>
          obtain ⟨rest, hrest, h⟩ := bind_eq_ok.mp h
          cases h
          have hfield := List.mem_of_getElem? (Schema.find?_eq_some_iff.mp hfound).field
          exact List.forall_mem_cons.mpr ⟨hfield, ih hrest⟩
      · cases h

theorem legible_call {c : ProcedureCall} (hitems : ∀ item ∈ c.yieldItems, isPlain item = true)
    (hall : c.yieldAll = true → c.yieldItems = []) (h : Plan.call c = .ok p) :
    p.Legible catalog := by
  unfold Plan.call at h
  split at h
  · cases h
  · next full hfull =>
      obtain ⟨hprocedure, htitles⟩ := plain_of_procedureSchema? hfull
      obtain ⟨_, harguments, h⟩ := bind_eq_ok.mp h
      have harguments := List.isEmpty_iff.mp (require_eq_ok.mp harguments)
      have hreadable : c.Readable :=
        ⟨hprocedure, harguments ▸ List.forall_mem_nil _, hitems, hall⟩
      have hnode {fields : Schema} (hfields : ∀ f ∈ fields, f ∈ full)
          (h : Plan.build (.call c) [] fields .graph = .ok p) : p.Legible catalog := by
        obtain rfl := (Plan.yields_build _ _ _ _).result h
        exact Plan.legible_leaf hreadable fun f hf => htitles f (hfields f hf)
      dsimp only at h
      split at h
      · exact hnode (fun _ hf => hf) h
      · obtain ⟨fields, hfields, h⟩ := bind_eq_ok.mp h
        exact hnode (mem_of_yieldFields hfields) h

theorem CallClause.legible_step {c : CallClause} (hc : (Clause.calling c).isPlain = true)
    (h : c.step home top = .ok p) : p.Legible catalog := by
  obtain ⟨hitems, hall⟩ := Bool.and_eq_true_iff.mp hc
  cases top with
  | none =>
      obtain ⟨arguments, -, h⟩ := bind_eq_ok.mp h
      refine legible_call (List.all_eq_true.mp hitems) (fun hyield => ?_) h
      have hyield : c.yieldAll = true := hyield
      simpa [hyield] using hall
  | some q => cases h

/-- **A step of a plain clause makes a legible plan of a legible one.** -/
theorem Clause.topLegible_step {c : Clause} {r : Option Plan × Nat}
    (hcatalog : catalog.FindsItsEntities) (hsource : source.Known catalog)
    (htop : TopLegible catalog top) (hc : c.isPlain = true)
    (h : c.step catalog source home top n = .ok r) : TopLegible catalog r.1 := by
  have hwrite {write : Write} {queued : List (Option String × Expr)}
      (hqueued : ReadableQueue queued)
      (h : (source.write top write queued >>= fun p => .ok (some p, n)) = .ok r) :
      TopLegible catalog r.1 := by
    obtain ⟨p, hp, h⟩ := bind_eq_ok.mp h
    cases h
    rintro _ ⟨⟩
    exact GraphSource.legible_write hsource htop hqueued hp
  have hempty : ReadableQueue [] := List.forall_mem_nil _
  cases c with
  | matching c =>
      obtain ⟨⟨q, k⟩, hstep, h⟩ := bind_eq_ok.mp h
      cases h
      rintro _ ⟨⟩
      exact c.legible_step hcatalog hsource htop hc hstep
  | passing w =>
      obtain ⟨hprojection, hcondition⟩ := Bool.and_eq_true_iff.mp hc
      obtain ⟨input, hinput, h⟩ := bind_eq_ok.mp h
      obtain ⟨projected, hprojected, h⟩ := bind_eq_ok.mp h
      obtain ⟨q, hq, h⟩ := bind_eq_ok.mp h
      cases h
      rintro _ ⟨⟩
      have hlegible := GraphSource.legible_inputOr hcatalog hsource htop hinput
      exact (Projection.legible_toPlan hprojection hlegible hprojected).restrictBy hcondition hq
  | returning r =>
      obtain ⟨input, hinput, h⟩ := bind_eq_ok.mp h
      obtain ⟨q, hq, h⟩ := bind_eq_ok.mp h
      cases h
      rintro _ ⟨⟩
      have hlegible := GraphSource.legible_inputOr hcatalog hsource htop hinput
      exact Projection.legible_toPlan hc hlegible hq
  | creating create =>
      obtain ⟨⟨q, k⟩, hstep, h⟩ := bind_eq_ok.mp h
      cases h
      rintro _ ⟨⟩
      exact create.legible_step hsource htop hc hstep
  | setting s =>
      obtain ⟨queued, hqueued, h⟩ := bind_eq_ok.mp h
      rw [queueSets_eq_foldlM] at hqueued
      refine hwrite (readable_queueItems ?_ hempty hqueued) h
      exact List.forall_mem_map.mpr (List.all_eq_true.mp hc)
  | removing s =>
      obtain ⟨queued, hqueued, h⟩ := bind_eq_ok.mp h
      rw [queueRemoves_eq_foldlM] at hqueued
      refine hwrite (readable_queueItems ?_ hempty hqueued) h
      exact List.forall_mem_map.mpr (List.all_eq_true.mp hc)
  | deleting delete =>
      obtain ⟨queued, hqueued, h⟩ := bind_eq_ok.mp h
      exact hwrite (readable_queueDeletes (List.all_eq_true.mp hc) hempty hqueued) h
  | unwinding u =>
      obtain ⟨q, hq, h⟩ := bind_eq_ok.mp h
      cases h
      rintro _ ⟨⟩
      exact u.legible_step htop hc hq
  | calling call =>
      obtain ⟨q, hq, h⟩ := bind_eq_ok.mp h
      cases h
      rintro _ ⟨⟩
      exact call.legible_step hc hq
  | onGraph _ =>
      cases h
      exact htop
  | merging _ | repeating _ _ _ _ | loading _ => cases h

/-- **So does a run of them.** -/
theorem Clause.topLegible_steps {index : Nat} {cs : List Clause} {r : Option Plan × Nat}
    (hcatalog : catalog.FindsItsEntities) (hsource : source.Known catalog)
    (htop : TopLegible catalog top) (hcs : ∀ c ∈ cs, c.isPlain = true)
    (h : Clause.steps catalog source home index top n cs = .ok r) : TopLegible catalog r.1 := by
  induction cs generalizing index top n with
  | nil =>
      cases h
      exact htop
  | cons c cs ih =>
      obtain ⟨hc, hcs⟩ := List.forall_mem_cons.mp hcs
      obtain ⟨mid, k, hstep, h⟩ := Clause.steps_cons_eq_ok h
      exact ih (Clause.topLegible_step hcatalog hsource htop hc hstep) hcs h

end Steps

/-- **A plain query becomes a legible plan.** -/
theorem Query.legible_toPlan {q : Query} {catalog : Catalog} {home : NamespaceId} {allow : Bool}
    {root : Plan} {kind : QueryKind} (hcatalog : catalog.FindsItsEntities)
    (hq : q.isPlain = true) (h : q.toPlan catalog home allow = .ok (root, kind)) :
    root.Legible catalog := by
  cases q with
  | single q =>
      obtain ⟨source, n, hsource, hsteps, -⟩ := SingleQuery.toPlan_eq_ok h
      have hclauses : ∀ c ∈ q.clauses, c.isPlain = true := by simpa [isPlain, parts] using hq
      have hnone : TopLegible catalog none := nofun
      exact Clause.topLegible_steps hcatalog (GraphSource.known_of_resolve hcatalog hsource) hnone
        hclauses hsteps root rfl
  | union _ _ => cases h
  | periodicCommit _ _ => cases h

end QueryPlan
