import QueryPlan.Proofs.Catalog.Additions
import QueryPlan.Proofs.Compiler.Transparency
import QueryPlan.Proofs.Lowering.LegibleSteps

/-!
# Plain requests are answered transparently

A name can make a fingerprint look like that of another plan, but only with characters that
fingerprints themselves use between names. Where the names in the requests are free of these, and
the catalog finds its entities, fingerprints tell the delivered plans apart, whatever the settings.
So interning does not show. Catalogs that are made by additions find their entities.
-/

namespace QueryPlan

namespace Catalog

variable {c : Catalog}

/-! ## Catalogs that find their entities -/

theorem FindsItsEntities.addEntity {home : NamespaceId} {name : String} {model : Model}
    {columns : List Field} (h : c.FindsItsEntities)
    (hwell : c.TakesUp (⟨·, name, home, model, columns⟩) (c.addEntity home name model columns)) :
    (c.addEntity home name model columns).2.FindsItsEntities := by
  intro e he
  rcases List.mem_append.mp he with hold | hnew
  · exact (c.foundIn_addEntity home name model columns).entities e.id e (h e hold)
  · obtain rfl := List.mem_singleton.mp hnew
    exact hwell.found

/-- **One addition.** -/
theorem FindsItsEntities.perform {a : Addition} (h : c.FindsItsEntities) (hwell : a.GoesWell c) :
    (a.perform c).FindsItsEntities := by
  cases a with
  | newNamespace name model => exact h
  | newGraph home name => exact h.addEntity hwell
  | newCollection home name => exact h.addEntity hwell
  | newTable home name columns => exact h.addEntity hwell

/-- **Additions in order**, as long as there are numbers for them. -/
theorem FindsItsEntities.after {calls : List Addition} (h : c.FindsItsEntities)
    (hroom : c.HasRoom calls) : (c.after calls).FindsItsEntities := by
  rw [← allGoWell_iff_hasRoom] at hroom
  induction calls generalizing c with
  | nil => exact h
  | cons a calls ih =>
      obtain ⟨hfirst, hrest⟩ := (c.allGoWell_cons_iff calls a).mp hroom
      exact ih (h.perform hfirst) hrest

example : withDefaultGraph.FindsItsEntities := by decide

end Catalog

/-! ## What plain requests deliver -/

/-- The names of the request can be read off: a query is plain, a plan that was built otherwise is
legible. -/
def Request.IsPlain (catalog : Catalog) : Request → Prop
  | .compile q => q.isPlain = true
  | .finish root _ => root.WellBuilt ∧ root.Legible catalog
  | .clear => True

namespace Compiler

variable {catalog : Catalog} {settings : Settings}

theorem readable_of_deliver {root p : Plan} {kind : QueryKind} (hbuilt : root.WellBuilt)
    (hroot : root.Legible catalog) (h : deliver settings root kind = .ok p) :
    p.WellBuilt ∧ p.Readable catalog := by
  have hmodel := toModel_of_deliver h
  exact ⟨Plan.wellBuilt_toModel hbuilt hmodel, hroot.toModel hmodel⟩

/-- **What a plain request delivers** is well built, and its names can be read off. -/
theorem readable_of_delivers {r : Request} {p : Plan} (hcatalog : catalog.FindsItsEntities)
    (hr : r.IsPlain catalog) (h : r.Delivers catalog settings p) :
    p.WellBuilt ∧ p.Readable catalog := by
  obtain ⟨kind, h⟩ := h
  cases r with
  | clear => cases h
  | finish root rootKind =>
      obtain ⟨q, hq, h⟩ := bind_eq_ok.mp (Option.some.inj h)
      cases h
      exact readable_of_deliver hr.1 hr.2 hq
  | compile q =>
      obtain ⟨⟨root, rootKind⟩, hroot, h⟩ := bind_eq_ok.mp (Option.some.inj h)
      obtain ⟨q, hq, h⟩ := bind_eq_ok.mp h
      cases h
      exact readable_of_deliver (Query.reachable_toPlan hroot).wellBuilt
        (Query.legible_toPlan hcatalog hr hroot) hq

/-- **Fingerprints tell apart what plain requests deliver.** -/
theorem tellsApart_isPlain (hcatalog : catalog.FindsItsEntities) :
    TellsApart catalog settings (Request.IsPlain catalog) := by
  intro r s p q hr hs hp hq hsame
  obtain ⟨hpBuilt, hpRead⟩ := readable_of_delivers hcatalog hr hp
  obtain ⟨hqBuilt, hqRead⟩ := readable_of_delivers hcatalog hs hq
  exact Plan.bare_eq_of_fingerprint_eq hpBuilt hqBuilt hpRead hqRead hsame

/-- **Plain requests are answered transparently**, whatever room there is for plans. -/
theorem transparent_of_isPlain {rs : List Request} (hcatalog : catalog.FindsItsEntities)
    (hrs : ∀ r ∈ rs, r.IsPlain catalog) : Transparent catalog settings rs :=
  transparent_iff_plain.mpr
    (serving_new.content_answers hrs (Or.inr (tellsApart_isPlain hcatalog)))

/-! ## Counts under titles -/

theorem isPlain_countsAs (names : List String) :
    (countsAs names).isPlain = names.all Text.isTitle := by
  simp [countsAs, Query.isPlain, Query.parts, Clause.isPlain, Projection.isPlain, List.all_map,
    Function.comp_def, Expression.isPlain, ReturnItem.name]

/-- Counts are never taken for one another if their names are titles. -/
theorem transparent_countsAs {lists : List (List String)} (hcatalog : catalog.FindsItsEntities)
    (h : ∀ names ∈ lists, ∀ name ∈ names, Text.isTitle name = true) :
    Transparent catalog settings (lists.map fun names => .compile (countsAs names)) := by
  refine transparent_of_isPlain hcatalog fun r hr => ?_
  obtain ⟨names, hnames, rfl⟩ := List.mem_map.mp hr
  exact (isPlain_countsAs names).trans (List.all_eq_true.mpr (h names hnames))

end Compiler

end QueryPlan
