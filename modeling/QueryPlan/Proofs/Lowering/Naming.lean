import QueryPlan.Proofs.Expr.Scoping
import QueryPlan.Proofs.Lowering.Grouping
import QueryPlan.Proofs.Lowering.Progress

/-!
# Columns and their names

`RETURN` and `WITH` do not give one name to two columns that are asked for. Hidden sort columns and
the columns of arguments are gone from what they leave, but groups have a column of their own, the
key, and its name `_id` is compared with no other. So the columns left have different names exactly
if no aggregate is called `_id`, and exactly then each column can be referred to by its name, and
all of them can be returned.
-/

namespace QueryPlan

/-! ## Names in schemas -/

namespace Schema

variable {s : Schema}

theorem isLast_of_nodup (h : s.names.Nodup) {i : Nat} {f : Field} (hf : s[i]? = some f) :
    s.IsLast f.name i f := by
  refine ⟨hf, rfl, fun j g hj hg hname => ?_⟩
  have hi : s.names[i]? = some f.name := by rw [names, List.getElem?_map, hf, Option.map_some]
  have hagain : s.names[j]? = some f.name := by
    rw [names, List.getElem?_map, hg, Option.map_some, hname]
  obtain ⟨hlt, -⟩ := List.getElem?_eq_some_iff.mp hi
  have hij : i = j := (List.getElem?_inj hlt h).mp (hi.trans hagain.symm)
  omega

/-- **Names differ exactly if each field is found by its name.** -/
theorem nodup_names_iff : s.names.Nodup ↔
    ∀ i f, s[i]? = some f → s.lookup f.name = .ok (.ref i f.ty) := by
  constructor
  · intro h i f hf
    exact lookup_eq_ok.mpr ⟨i, f, isLast_of_nodup h hf, rfl⟩
  · intro h
    rw [List.nodup_iff_getElem?_ne_getElem?]
    intro i j hij hj hname
    -- Both fields are found by the one name, so they stand at the one place it stands for.
    obtain ⟨g, hg⟩ : ∃ g, s[j]? = some g := by
      rw [names, List.length_map] at hj
      exact ⟨s[j], List.getElem?_eq_getElem hj⟩
    rw [names, List.getElem?_map, List.getElem?_map, hg, Option.map_some,
      Option.map_eq_some_iff] at hname
    obtain ⟨f, hf, hname⟩ := hname
    have hlookup := h i f hf
    rw [hname, h j g hg, Except.ok.injEq, Expr.ref.injEq] at hlookup
    omega

end Schema

/-! ## Projections -/

namespace Projection

variable {p : Projection} {input plan : Plan}

/-- No aggregate has the name of the group's key. -/
def SparesKey (p : Projection) : Prop :=
  ∀ item ∈ p.items, item.expression.containsAggregate = true → item.name ≠ "_id"

/-- Without aggregates, the columns have the names asked for. -/
theorem names_of_plain (hplain : p.items.any (·.expression.containsAggregate) = false)
    (h : p.toPlan input = .ok plan) : plan.schema.names = p.names input.schema := by
  cases hsorted : p.isSorted with
  | false =>
      obtain ⟨columns, hcolumns, rfl⟩ := toPlan_eq_projecting hplain hsorted h
      exact Column.names_fields (name_columns hcolumns)
  | true =>
      obtain ⟨columns, hidden, hiddenNames, keys, offset, limit, hplan⟩ :=
        exists_sortedAs hplain hsorted h
      have hnames := Column.names_fields (name_columns hplan.lowered)
      rw [hplan.shape]
      split
      · next hnone =>
          rw [List.isEmpty_iff.mp hnone, List.append_nil]
          exact hnames
      · rw [Plan.projecting, Column.fields_again (name_columns hplan.lowered), hnames]

theorem sparesKey_of_plain (hplain : p.items.any (·.expression.containsAggregate) = false) :
    p.SparesKey := by
  intro item hitem hagg
  exact absurd hagg (by simpa using List.any_eq_false.mp hplain item hitem)

theorem names_groupFields (p : Projection) :
    p.groupFields.names = "_id" :: p.aggregateItems.map ReturnItem.name := by
  rw [groupFields, Schema.names, List.map_cons, List.map_map]
  rfl

theorem sparesKey_iff : p.SparesKey ↔ "_id" ∉ p.aggregateItems.map ReturnItem.name := by
  constructor
  · intro h hmem
    obtain ⟨item, hitem, hname⟩ := List.mem_map.mp hmem
    obtain ⟨hitem, hagg⟩ := List.mem_filter.mp hitem
    exact h item hitem hagg hname
  · intro h item hitem hagg hname
    exact h (List.mem_map.mpr ⟨item, List.mem_filter.mpr ⟨hitem, hagg⟩, hname⟩)

/-- **A projection gives its columns different names exactly if it spares the key's name**, and it
has columns. -/
theorem names_toPlan (h : p.toPlan input = .ok plan) :
    plan.schema ≠ [] ∧ (plan.schema.names.Nodup ↔ p.SparesKey) := by
  cases hgroups : p.items.any (·.expression.containsAggregate) with
  | false =>
      obtain ⟨hsome, hnodup, -⟩ := (toPlan_eq_ok hgroups).mp h
      have hnames := names_of_plain hgroups h
      refine ⟨fun hnone => hsome ?_, ?_⟩
      · rw [← hnames, hnone]
        rfl
      · rw [hnames]
        exact iff_of_true hnodup (sparesKey_of_plain hgroups)
  | true =>
      obtain ⟨hnodup, -⟩ := toPlan_eq_grouping hgroups h
      have hsublist : (p.aggregateItems.map ReturnItem.name).Sublist (p.names input.schema) :=
        (List.filter_sublist.map _).trans (List.sublist_append_right _ _)
      rw [schema_eq_groupFields hgroups h]
      refine ⟨List.cons_ne_nil _ _, ?_⟩
      rw [names_groupFields, List.nodup_cons, sparesKey_iff]
      exact and_iff_left (hnodup.sublist hsublist)

end Projection

/-- The references of a star are accepted. -/
theorem checkRefs_starColumns (s : Schema) :
    checkRefs s ((starColumns s).map Column.expr) = .ok () := by
  refine checkAll_eq_ok.mpr fun r hr => ?_
  obtain ⟨e, he, hr⟩ := Expr.mem_refsAll.mp hr
  obtain ⟨column, hcolumn, rfl⟩ := List.mem_map.mp he
  obtain ⟨i, f, hf, rfl⟩ := mem_starColumns hcolumn
  obtain rfl := List.mem_singleton.mp hr
  exact ⟨f, hf, rfl⟩

namespace Projection

/-- A star and nothing else. -/
def all : Projection := ⟨false, true, [], [], none, none⟩

/-- **All fields of a plan can be projected exactly if their names differ.** -/
theorem exists_toPlan_all {plan : Plan} (hsome : plan.schema ≠ []) :
    (∃ q, all.toPlan plan = .ok q) ↔ plan.schema.names.Nodup := by
  have hnames : all.names plan.schema = plan.schema.names := List.append_nil _
  simp only [toPlan_eq_ok (p := all) rfl, hnames]
  constructor
  · rintro ⟨q, -, hnodup, -⟩
    exact hnodup
  · intro hnodup
    have hproject : Plan.projectColumns plan (starColumns plan.schema ++ []) =
        .ok (plan.projecting (starColumns plan.schema ++ [])) := by
      refine Plan.projectColumns_eq_ok.mpr ⟨?_, rfl⟩
      rw [List.append_nil]
      exact checkRefs_starColumns plan.schema
    refine ⟨_, fun hnone => hsome ?_, hnodup, _, rfl, hproject⟩
    exact List.map_eq_nil_iff.mp hnone

end Projection

/-! ## Clauses -/

/-- A condition keeps the fields. Only the bare graph is replaced by what the condition computes. -/
theorem Plan.schema_restrictBy {p q : Plan} {condition : Option Expression}
    (h : p.restrictBy condition = .ok q) :
    q.schema = p.schema ∨ ∃ f g, p.schema = [f] ∧ q.schema = [g] := by
  cases restrictedBy_of_restrictBy h with
  | none => exact Or.inl rfl
  | filtered _ => exact Or.inl rfl
  | computed hbare _ hcolumns =>
      obtain ⟨f, hf⟩ : ∃ f, p.schema = [f] := by
        unfold Schema.isSingle at hbare
        split at hbare
        · next f hf => exact ⟨f, hf⟩
        · cases hbare
      subst hcolumns
      exact Or.inr ⟨f, _, hf, rfl⟩

namespace Clause

variable {catalog : Catalog} {source : GraphSource} {home : NamespaceId} {top : Option Plan}
  {n : Nat} {c : Clause} {p : Projection} {plan : Plan}

/-- The projection of a `RETURN` or a `WITH`. -/
def projection? : Clause → Option Projection
  | .passing w => some w.projection
  | .returning r => some r.projection
  | _ => none

/-- `RETURN *` -/
def returnAll : Clause := .returning ⟨.all, none⟩

theorem step_projection {r : Option Plan × Nat} (hc : c.projection? = some p)
    (h : c.step catalog source home top n = .ok r) :
    ∃ plan, r = (some plan, n) ∧ plan.schema ≠ [] ∧ (plan.schema.names.Nodup ↔ p.SparesKey) := by
  cases c with
  | returning clause =>
      cases hc
      obtain ⟨input, -, h⟩ := bind_eq_ok.mp h
      obtain ⟨plan, hplan, h⟩ := bind_eq_ok.mp h
      cases h
      obtain ⟨hsome, hnames⟩ := Projection.names_toPlan hplan
      exact ⟨plan, rfl, hsome, hnames⟩
  | passing clause =>
      cases hc
      obtain ⟨input, -, h⟩ := bind_eq_ok.mp h
      obtain ⟨plan, hplan, h⟩ := bind_eq_ok.mp h
      obtain ⟨last, hlast, h⟩ := bind_eq_ok.mp h
      cases h
      obtain ⟨hsome, hnames⟩ := Projection.names_toPlan hplan
      refine ⟨last, rfl, ?_⟩
      rcases Plan.schema_restrictBy hlast with hsame | ⟨f, g, hf, hg⟩
      · rw [hsame]
        exact ⟨hsome, hnames⟩
      · rw [hf] at hnames
        have hone : Schema.names [f] = [f.name] := rfl
        rw [hone, iff_true_left (List.nodup_singleton _)] at hnames
        rw [hg]
        exact ⟨List.cons_ne_nil _ _, iff_of_true (List.nodup_singleton _) hnames⟩
  | _ => cases hc

theorem exists_step_returnAll :
    (∃ r, returnAll.step catalog source home (some plan) n = .ok r) ↔
      ∃ q, Projection.all.toPlan plan = .ok q := by
  constructor
  · rintro ⟨r, h⟩
    obtain ⟨input, hinput, h⟩ := bind_eq_ok.mp h
    obtain ⟨q, hq, -⟩ := bind_eq_ok.mp h
    cases hinput
    exact ⟨q, hq⟩
  · rintro ⟨q, hq⟩
    exact ⟨(some q, n), bind_eq_ok.mpr ⟨plan, rfl, bind_eq_ok.mpr ⟨q, hq, rfl⟩⟩⟩

end Clause

namespace Drafting

variable {catalog : Catalog} {source : GraphSource} {home : NamespaceId}

/-- A run of clauses on the empty draft succeeds exactly if their steps do. -/
theorem clauses_eq_ok {cs : List Clause} {after : Draft} :
    clauses home 0 cs (.empty catalog source) = .ok () after ↔
      ∃ top n, Clause.steps catalog source home 0 none 0 cs = .ok (top, n) ∧
        after = .between catalog source top (cs.foldl Clause.kindAfter none) n := by
  rw [← outcome_eq_ok, Draft.empty_eq_between, outcome_clauses, bind_eq_ok]
  constructor
  · rintro ⟨⟨top, n⟩, hsteps, h⟩
    cases h
    exact ⟨top, n, hsteps, rfl⟩
  · rintro ⟨top, n, hsteps, rfl⟩
    exact ⟨(top, n), hsteps, rfl⟩

/-- **When the columns of `RETURN` and `WITH` can be told apart.** After any clauses, a `RETURN` or
`WITH` that can be lowered leaves columns with different names exactly if none of its aggregates is
called `_id`, the name of the group's key. Exactly then each column can be referred to by its name,
and exactly then `RETURN *` can follow. -/
theorem columns_named_apart_iff {cs : List Clause} {c : Clause} {p : Projection} {after : Draft}
    (hc : c.projection? = some p)
    (h : clauses home 0 (cs ++ [c]) (.empty catalog source) = .ok () after) :
    ∃ plan, after.stack = [plan] ∧
      (plan.schema.names.Nodup ↔ p.SparesKey) ∧
      ((∀ i f, plan.schema[i]? = some f → plan.schema.lookup f.name = .ok (.ref i f.ty)) ↔
        p.SparesKey) ∧
      ((∃ last, clauses home 0 (cs ++ [c, .returnAll]) (.empty catalog source) = .ok () last) ↔
        p.SparesKey) := by
  obtain ⟨top, n, hsteps, rfl⟩ := clauses_eq_ok.mp h
  rw [Clause.steps_append] at hsteps
  obtain ⟨⟨before, m⟩, hbefore, hsteps⟩ := bind_eq_ok.mp hsteps
  obtain ⟨mid, k, hstep, hlast⟩ := Clause.steps_cons_eq_ok hsteps
  cases hlast
  obtain ⟨plan, hplan, hsome, hnames⟩ := Clause.step_projection hc hstep
  cases hplan
  refine ⟨plan, rfl, hnames, ?_, ?_⟩
  · rw [← hnames, Schema.nodup_names_iff]
  · rw [← hnames, ← Projection.exists_toPlan_all hsome, ← Clause.exists_step_returnAll]
    simp only [clauses_eq_ok, Clause.steps_append, hbefore, ok_bind, Clause.steps_of_step hstep]
    constructor
    · rintro ⟨last, top, n, hrun, -⟩
      obtain ⟨mid, k, hreturn, -⟩ := Clause.steps_cons_eq_ok hrun
      exact ⟨(mid, k), hreturn⟩
    · rintro ⟨⟨mid, k⟩, hreturn⟩
      exact ⟨_, mid, k, Clause.steps_of_step hreturn, rfl⟩

/-- The empty draft over the default graph. -/
def onDefaultGraph : Draft :=
  .empty .withDefaultGraph (.entity ⟨⟨1⟩, "graph", ⟨0⟩, .graph, []⟩)

/-- `MATCH (n)` -/
def matchNodes : Clause := .matching ⟨false, [.node ⟨some "n", [], [], none⟩], none, none⟩

/-- `WITH n.name, count(*) AS total ORDER BY total LIMIT 3` -/
def withTotal : WithClause :=
  ⟨⟨false, false, [⟨.property "n" "name", none, none⟩, ⟨.countStar, some "total", none⟩],
    [⟨.var "total", .ascending⟩], none, some (.literal (.integer 3))⟩, none, none⟩

/-- Both columns are found by their names, and both can be returned. -/
theorem withTotal_columns_named_apart :
    ∃ (after last : Draft) (plan : Plan),
      clauses ⟨0⟩ 0 [matchNodes, .passing withTotal] onDefaultGraph = .ok () after ∧
      after.stack = [plan] ∧ plan.schema.names = ["_id", "total"] ∧ plan.schema.names.Nodup ∧
      (∀ i f, plan.schema[i]? = some f → plan.schema.lookup f.name = .ok (.ref i f.ty)) ∧
      clauses ⟨0⟩ 0 [matchNodes, .passing withTotal, .returnAll] onDefaultGraph = .ok () last := by
  have hrun : (outcome (clauses ⟨0⟩ 0 [matchNodes, .passing withTotal]) onDefaultGraph).toOption.map
      (fun r => r.2.stack.map fun plan => plan.schema.names) = some [["_id", "total"]] := by
    decide +kernel
  obtain ⟨⟨_, after⟩, houtcome, hnames⟩ := toOption_map_eq_some.mp hrun
  have hafter : clauses ⟨0⟩ 0 ([matchNodes] ++ [.passing withTotal]) onDefaultGraph =
      .ok () after := outcome_eq_ok.mp houtcome
  have hspares : withTotal.projection.SparesKey := by
    simp [Projection.SparesKey, withTotal, Expression.containsAggregate, ReturnItem.name]
  obtain ⟨plan, hstack, hnodup, hlookup, hreturn⟩ := columns_named_apart_iff rfl hafter
  rw [hstack, List.map_singleton, List.cons.injEq] at hnames
  obtain ⟨last, hlast⟩ := hreturn.mpr hspares
  exact ⟨after, last, plan, hafter, hstack, hnames.1, hnodup.mpr hspares, hlookup.mpr hspares,
    hlast⟩

/-- `RETURN count(*) AS _id` -/
def countAsId : Clause :=
  .returning ⟨⟨false, false, [⟨.countStar, some "_id", none⟩], [], none, none⟩, none⟩

/-- The count and the key of its groups have one name, and `RETURN *` cannot follow. -/
theorem countAsId_columns_named_alike :
    ∃ (after : Draft) (plan : Plan),
      clauses ⟨0⟩ 0 [countAsId] onDefaultGraph = .ok () after ∧ after.stack = [plan] ∧
      plan.schema.names = ["_id", "_id"] ∧ ¬plan.schema.names.Nodup ∧
      ¬∃ last, clauses ⟨0⟩ 0 [countAsId, .returnAll] onDefaultGraph = .ok () last := by
  have hrun : (outcome (clauses ⟨0⟩ 0 [countAsId]) onDefaultGraph).toOption.map
      (fun r => r.2.stack.map fun plan => plan.schema.names) = some [["_id", "_id"]] := by
    decide +kernel
  have hfails : (outcome (clauses ⟨0⟩ 0 [countAsId, .returnAll]) onDefaultGraph).toOption.isSome =
      false := by
    decide +kernel
  obtain ⟨⟨_, after⟩, houtcome, hnames⟩ := toOption_map_eq_some.mp hrun
  obtain ⟨plan, hstack, hnames⟩ := List.map_eq_singleton_iff.mp hnames
  refine ⟨after, plan, outcome_eq_ok.mp houtcome, hstack, hnames, ?_, ?_⟩
  · rw [hnames]
    decide
  · rintro ⟨last, hlast⟩
    rw [outcome_eq_ok.mpr hlast] at hfails
    cases hfails

end Drafting

end QueryPlan
