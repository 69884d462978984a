import QueryPlan.Proofs.Compiler.Transparency
import QueryPlan.Proofs.Lowering.Models

/-!
# Where compiled plans change their data model

Lowering stays in the graph model, apart from the graph that it makes up for a namespace without
one. Delivery adds one change of model on top if another model is asked for. An interned plan may
come from another query, but only from one with the same fingerprint, and the fingerprint of a
change of model begins with the models and the kind of query. So the shape below holds of every plan
that a compiler answers with, whatever it has compiled before.
-/

namespace QueryPlan

namespace Plan

/-- What is delivered for a query of some kind: a plan in the graph model, or such a plan under a
change to the model asked for. -/
inductive Bridged (catalog : Catalog) (settings : Settings) (kind : QueryKind) : Plan → Prop
  | inGraph {p : Plan} : settings.targetModel = .graph → p.InGraph catalog settings.home →
      p.IsPlain → Bridged catalog settings kind p
  | converted {tag : Option Nat} {c : Conversion} {input : Plan} :
      settings.targetModel ≠ .graph → input.InGraph catalog settings.home → c.source = .graph →
      c.target = settings.targetModel → c.operation = kind →
      Bridged catalog settings kind ⟨tag, .transform c, [input],
        input.schema.map Field.converted, settings.targetModel⟩

/-- A node that another one reads, directly or through others. -/
def IsBelow (n p : Plan) : Prop := ∃ input ∈ p.inputs, n.IsNodeOf input

variable {catalog : Catalog} {settings : Settings} {kind : QueryKind} {n p : Plan}

namespace Bridged

theorem tagWith (h : p.Bridged catalog settings kind) (n : Nat) :
    (p.tagWith n).Bridged catalog settings kind := by
  cases h with
  | inGraph hmodel hgraph hplain => exact .inGraph hmodel (hgraph.tagWith n) hplain
  | converted hmodel hgraph hsource htarget hkind =>
      exact .converted hmodel hgraph hsource htarget hkind

theorem model (h : p.Bridged catalog settings kind) : p.model = settings.targetModel := by
  cases h with
  | inGraph hmodel hgraph _ => rw [hmodel, hgraph.model]
  | converted _ _ _ _ _ => rfl

theorem isTransform_iff (h : p.Bridged catalog settings kind) :
    p.op.isTransform = true ↔ settings.targetModel ≠ .graph := by
  cases h with
  | inGraph hmodel _ hplain =>
      rw [hplain]
      exact iff_of_false nofun fun hne => hne hmodel
  | converted hmodel _ _ _ _ => exact iff_of_true rfl hmodel

theorem conversion {c : Conversion} (h : p.Bridged catalog settings kind)
    (hop : p.op = .transform c) :
    c.source = .graph ∧ c.target = settings.targetModel ∧ c.operation = kind := by
  cases h with
  | inGraph _ _ hplain =>
      rw [IsPlain, hop] at hplain
      cases hplain
  | converted _ _ hsource htarget hkind =>
      cases hop
      exact ⟨hsource, htarget, hkind⟩

/-- Every change of model below the root makes up a graph. -/
theorem standsIn {c : Conversion} (h : p.Bridged catalog settings kind) (hn : n.IsBelow p)
    (hop : n.op = .transform c) : n.StandsIn catalog settings.home := by
  obtain ⟨input, hmem, hn⟩ := hn
  cases h with
  | inGraph _ hgraph _ => exact hgraph.standsIn_of_isNodeOf (.input hn hmem) hop
  | converted _ hgraph _ _ _ =>
      obtain rfl := List.mem_singleton.mp hmem
      exact hgraph.standsIn_of_isNodeOf hn hop

/-- A node that changes no model is in the graph model and reads one plan at most, or is a scan
right below a graph that is made up. -/
theorem model_of_isNodeOf (h : p.Bridged catalog settings kind) (hn : n.IsNodeOf p)
    (hop : n.op.isTransform = false) : (n.model = .graph ∧ n.inputs.length ≤ 1) ∨
      ∃ t : Plan, t.IsNodeOf p ∧ t.StandsIn catalog settings.home ∧ n ∈ t.inputs := by
  cases h with
  | inGraph _ hgraph _ => exact hgraph.model_of_isNodeOf hn hop
  | converted _ hgraph _ _ _ =>
      cases hn with
      | self => cases hop
      | input hn hmem =>
          obtain rfl := List.mem_singleton.mp hmem
          rcases hgraph.model_of_isNodeOf hn hop with hplain | ⟨t, ht, hstands, hn⟩
          · exact Or.inl hplain
          · exact Or.inr ⟨t, .input ht hmem, hstands, hn⟩

/-- The fingerprint of a change of model begins with the two models and the kind of query. -/
theorem exists_fingerprint (h : p.Bridged catalog settings kind)
    (hmodel : settings.targetModel ≠ .graph) : ∃ rest : String, p.fingerprint =
      "Transform[" ++ settings.targetModel.text ++ "](" ++ Model.graph.text ++ "->" ++
        settings.targetModel.text ++ ", " ++ (kind.text ++ rest) := by
  cases h with
  | inGraph hgraph _ _ => exact absurd hgraph hmodel
  | converted _ _ hsource htarget hkind =>
      rw [fingerprint, headline, Plan.kind, Op.kind, Op.payload, Conversion.text, hsource, htarget,
        hkind]
      simp only [String.append_assoc]
      exact ⟨_, rfl⟩

end Bridged

end Plan

/-- No kind of query is written like the beginning of another one. -/
theorem QueryKind.eq_of_text_append {k l : QueryKind} {s t : String}
    (h : k.text ++ s = l.text ++ t) : k = l := by
  have hchars : k.text.toList ++ s.toList = l.text.toList ++ t.toList := by
    rw [← String.toList_append, h, String.toList_append]
  cases k <;> cases l <;> simp [QueryKind.text] at hchars ⊢

/-- Plans with one fingerprint are delivered for the same kinds of query. -/
theorem Plan.Bridged.of_fingerprint {catalog : Catalog} {settings : Settings}
    {kind other : QueryKind} {p q : Plan} (hp : p.Bridged catalog settings kind)
    (hq : q.Bridged catalog settings other) (h : p.fingerprint = q.fingerprint) :
    q.Bridged catalog settings kind := by
  by_cases hmodel : settings.targetModel = .graph
  · -- The graph model shows no kind, and asks for none.
    cases hq with
    | inGraph _ hgraph hplain => exact .inGraph hmodel hgraph hplain
    | converted hne _ _ _ _ => exact absurd hmodel hne
  · obtain ⟨rest, hrest⟩ := hp.exists_fingerprint hmodel
    obtain ⟨rest', hrest'⟩ := hq.exists_fingerprint hmodel
    rw [h, hrest', String.append_right_inj] at hrest
    rwa [← QueryKind.eq_of_text_append hrest]

/-! ## Interning -/

namespace Interner

/-- What is kept stands under its fingerprint and was delivered for some kind of query. -/
def KeepsBridged (catalog : Catalog) (settings : Settings) (i : Interner) : Prop :=
  ∀ entry ∈ i.plans, entry.1 = entry.2.fingerprint ∧
    ∃ kind, entry.2.Bridged catalog settings kind

variable {catalog : Catalog} {settings : Settings} {i : Interner} {p : Plan} {kind : QueryKind}

/-- A plan that is delivered comes back as one delivered for the same kind of query, whichever plan
it is. -/
theorem KeepsBridged.fst_intern (h : i.KeepsBridged catalog settings)
    (hp : p.Bridged catalog settings kind) : (i.intern p).1.Bridged catalog settings kind := by
  rcases i.intern_eq_or_mem p with hsame | hkept
  · rwa [hsame]
  · obtain ⟨hkey, other, hother⟩ := h _ hkept
    exact hp.of_fingerprint hother hkey

theorem KeepsBridged.snd_intern (h : i.KeepsBridged catalog settings)
    (hp : p.Bridged catalog settings kind) : (i.intern p).2.KeepsBridged catalog settings := by
  intro entry hentry
  rcases mem_plans_intern hentry with hold | rfl
  · exact h entry hold
  · exact ⟨rfl, kind, hp⟩

end Interner

/-! ## Compilers -/

namespace Compiler

variable {catalog : Catalog} {settings : Settings} {c : Compiler} {query : Query}

/-- A compiler for a catalog and settings that has been asked for queries only. -/
inductive InUse (catalog : Catalog) (settings : Settings) : Compiler → Prop
  | new : InUse catalog settings (Compiler.new catalog settings)
  | compile {c : Compiler} (query : Query) : InUse catalog settings c →
      InUse catalog settings (c.compile query).2
  | clear {c : Compiler} : InUse catalog settings c → InUse catalog settings c.clear

structure KeepsBridged (catalog : Catalog) (settings : Settings) (c : Compiler) : Prop where
  catalog_eq : c.catalog = catalog
  settings_eq : c.settings = settings
  keeps : c.interner.KeepsBridged catalog settings

/-- What is delivered for a query changes the model at the bridges only. -/
theorem bridged_deliver {root p : Plan} {kind : QueryKind}
    (hplan : query.toPlan catalog settings.home settings.allowSubstitution = .ok (root, kind))
    (h : deliver settings root kind = .ok p) : p.Bridged catalog settings kind := by
  obtain ⟨hgraph, hplain⟩ := Query.inGraph_toPlan hplan
  have h := toModel_of_deliver h
  unfold Plan.toModel at h
  rw [hgraph.model] at h
  split at h
  · next htarget =>
      cases h
      exact .inGraph htarget.symm hgraph hplain
  · next htarget =>
      rw [(Plan.yields_transform _ _ _).result h]
      exact .converted (Ne.symm htarget) hgraph rfl rfl rfl

/-- **One query**: the compiler keeps such plans still. -/
theorem KeepsBridged.compile (h : KeepsBridged catalog settings c) (query : Query) :
    KeepsBridged catalog settings (c.compile query).2 := by
  obtain ⟨rfl, rfl, hkeeps⟩ := h
  cases hplan : query.toPlan c.catalog c.settings.home c.settings.allowSubstitution with
  | error e =>
      rw [compile_of_error hplan]
      exact ⟨rfl, rfl, hkeeps⟩
  | ok r =>
      obtain ⟨root, kind⟩ := r
      obtain ⟨p, hp⟩ := exists_deliver c.settings kind (Query.reachable_toPlan hplan)
      rw [compile_of_ok hplan, finish, hp]
      exact ⟨rfl, rfl, hkeeps.snd_intern ((bridged_deliver hplan hp).tagWith c.nextTag)⟩

/-- **A run of queries.** -/
theorem InUse.keepsBridged (h : InUse catalog settings c) : KeepsBridged catalog settings c := by
  induction h with
  | new => exact ⟨rfl, rfl, List.forall_mem_nil _⟩
  | compile query _ ih => exact ih.compile query
  | clear _ ih => exact ⟨ih.catalog_eq, ih.settings_eq, List.forall_mem_nil _⟩

/-- What such a compiler answers with is what is delivered for the kind of query that it reports. -/
theorem KeepsBridged.bridged {compiled : Compiled} (h : KeepsBridged catalog settings c)
    (hcompiled : (c.compile query).1 = .ok compiled) :
    compiled.root.Bridged catalog settings compiled.kind := by
  obtain ⟨rfl, rfl, hkeeps⟩ := h
  obtain ⟨root, kind, p, hplan, hp, rfl⟩ := compile_eq_ok hcompiled
  exact hkeeps.fst_intern ((bridged_deliver hplan hp).tagWith c.nextTag)

/-- What holds of every plan delivered for a query, under whatever tag. -/
def HoldsOfDelivered (catalog : Catalog) (settings : Settings) (P : Plan → Prop) : Prop :=
  ∀ (query : Query) (root p : Plan) (kind : QueryKind) (n : Nat),
    query.toPlan catalog settings.home settings.allowSubstitution = .ok (root, kind) →
    deliver settings root kind = .ok p → P (p.tagWith n)

/-- **A compiler keeps nothing but what it delivered for queries.** -/
theorem InUse.keeps_delivered {P : Plan → Prop} (hc : InUse catalog settings c)
    (hP : HoldsOfDelivered catalog settings P) : ∀ entry ∈ c.interner.plans, P entry.2 := by
  induction hc with
  | new => exact List.forall_mem_nil _
  | clear _ _ => exact List.forall_mem_nil _
  | @compile c query hc ih =>
      obtain ⟨rfl, rfl, -⟩ := hc.keepsBridged
      cases hplan : query.toPlan c.catalog c.settings.home c.settings.allowSubstitution with
      | error e =>
          rw [compile_of_error hplan]
          exact ih
      | ok r =>
          obtain ⟨root, kind⟩ := r
          obtain ⟨p, hp⟩ := exists_deliver c.settings kind (Query.reachable_toPlan hplan)
          rw [compile_of_ok hplan, finish, hp]
          intro entry hentry
          rcases Interner.mem_plans_intern hentry with hold | rfl
          · exact ih entry hold
          · exact hP query root p kind c.nextTag hplan hp

/-- An answer is delivered for the query, or for another one before. -/
theorem InUse.holds_of_compiled {P : Plan → Prop} {compiled : Compiled}
    (hc : InUse catalog settings c) (hP : HoldsOfDelivered catalog settings P)
    (h : (c.compile query).1 = .ok compiled) : P compiled.root := by
  obtain ⟨rfl, rfl, -⟩ := hc.keepsBridged
  obtain ⟨root, kind, p, hplan, hp, rfl⟩ := compile_eq_ok h
  rcases c.interner.intern_eq_or_mem (p.tagWith c.nextTag) with hsame | hkept
  · rw [hsame]
    exact hP query root p kind c.nextTag hplan hp
  · exact hc.keeps_delivered hP _ hkept

/-- **Models change at the bridges only.** Whatever a compiler has been asked before, a plan that it
answers with is in the model asked for. There is a change of model at its root exactly if that is
not the graph model; it leads from the graph model to the model asked for, and its operation is the
kind that is reported. Every other change of model makes up a graph right above scans of entities,
in a namespace that has no graph. A node that changes no model is in the graph model and reads one
plan at most, unless it is one of these scans. -/
theorem models_change_at_bridges_only {compiled : Compiled} (hc : InUse catalog settings c)
    (h : (c.compile query).1 = .ok compiled) :
    compiled.root.model = settings.targetModel ∧
    (compiled.root.op.isTransform = true ↔ settings.targetModel ≠ .graph) ∧
    (∀ conversion, compiled.root.op = .transform conversion →
      conversion.source = .graph ∧ conversion.target = settings.targetModel ∧
        conversion.operation = compiled.kind) ∧
    (∀ (n : Plan) (conversion : Conversion), n.IsBelow compiled.root →
      n.op = .transform conversion → n.StandsIn catalog settings.home) ∧
    ∀ n : Plan, n.IsNodeOf compiled.root → n.op.isTransform = false →
      (n.model = .graph ∧ n.inputs.length ≤ 1) ∨
        ∃ t : Plan, t.IsNodeOf compiled.root ∧ t.StandsIn catalog settings.home ∧
          n ∈ t.inputs := by
  have hbridged := hc.keepsBridged.bridged h
  exact ⟨hbridged.model, hbridged.isTransform_iff, fun _ hop => hbridged.conversion hop,
    fun _ _ hn hop => hbridged.standsIn hn hop, fun _ hn hop => hbridged.model_of_isNodeOf hn hop⟩

/-- Two collections in a namespace that has no graph. -/
def registry : Catalog where
  namespaces := [⟨⟨0⟩, "registry", .document⟩]
  entities := [⟨⟨1⟩, "Person", ⟨0⟩, .document, []⟩, ⟨⟨2⟩, "Pet", ⟨0⟩, .document, []⟩]

/-- `MATCH (p:Person) RETURN p` -/
def persons : Query :=
  .single ⟨[.matching ⟨false, [.node ⟨some "p", ["Person"], [], none⟩], none, none⟩,
    .returning ⟨⟨false, false, [⟨.var "p", none, none⟩], [], none, none⟩, none⟩], none⟩

/-- Asked twice for rows about persons, a compiler answers the second time with the plan it kept.
That plan changes the model twice. -/
theorem persons_bridged_twice :
    ∃ c compiled, InUse registry (Settings.default.withTargetModel .relational) c ∧
      c.interner.plans.length = 1 ∧ (c.compile persons).1 = .ok compiled ∧
      compiled.root.nodes.map Plan.kind = ["Scan", "Transform", "Match", "Project", "Transform"] ∧
      compiled.root.model = .relational ∧
      ∀ (n : Plan) (conversion : Conversion), n.IsBelow compiled.root →
        n.op = .transform conversion → n.StandsIn registry ⟨0⟩ := by
  let asked := ((new registry (Settings.default.withTargetModel .relational)).compile persons).2
  have hinUse : InUse registry (Settings.default.withTargetModel .relational) asked :=
    .compile persons .new
  have hkept : asked.interner.plans.length = 1 := by decide +kernel
  have hkinds : (asked.compile persons).1.toOption.map
      (fun compiled => compiled.root.nodes.map Plan.kind) =
        some ["Scan", "Transform", "Match", "Project", "Transform"] := by decide +kernel
  obtain ⟨compiled, h, hkinds⟩ := toOption_map_eq_some.mp hkinds
  obtain ⟨hmodel, -, -, hbelow, -⟩ := models_change_at_bridges_only hinUse h
  exact ⟨asked, compiled, hinUse, hkept, h, hkinds, hmodel, hbelow⟩

end Compiler

end QueryPlan
