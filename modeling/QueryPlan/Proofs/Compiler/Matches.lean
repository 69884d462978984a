import QueryPlan.Proofs.Compiler.Outcome
import QueryPlan.Proofs.Expr.WellTyped
import QueryPlan.Proofs.Lowering.Progress

/-!
# The matches of a query

A match that comes right after another one extends it, so two of them do what one match with the
patterns of both does (`Compiler.consecutive_matches_merge`).

Patterns reach a plan through the variables they name, and a variable stays with the pattern that
names it first. So a pattern stands in the plan if it names a new variable
(`Compiler.new_variables_keep_patterns`), and need not stand there if it names none.
-/

namespace QueryPlan

/-! ## Two matches in a row -/

namespace Plan

/-- A match given as calls and names is made exactly if it is put on a graph, the calls are pattern
calls, and these refer to fields of the graph. -/
theorem patternMatch_eq_ok {input p : Plan} {bindings : List Binding} :
    patternMatch input (bindings.map Binding.expr) (bindings.map Binding.name) = .ok p ↔
      input.model = .graph ∧ (∀ b ∈ bindings, b.expr.operator? = some .patternMatch) ∧
      (∀ r ∈ Expr.refsAll (bindings.map Binding.expr),
        ∃ field, input.schema[r.1]? = some field ∧ field.ty = r.2) ∧
      p = ⟨none, .bind bindings, [input], Binding.fields bindings, .graph⟩ := by
  have hpaired (hmodel : input.model = .graph) :
      patternMatch input (bindings.map Binding.expr) (bindings.map Binding.name) =
        matchBindings input bindings := by
    simp only [patternMatch, require, hmodel, pairUp, List.length_map, decide_true, if_true,
      ok_bind, Binding.zip_name_expr]
  constructor
  · intro h
    obtain ⟨_, hmodel, -⟩ := bind_eq_ok.mp h
    rw [hpaired (by simpa using hmodel)] at h
    obtain ⟨hmodel, hcalls, hrefs, hp⟩ := matchBindings_eq_ok.mp h
    exact ⟨hmodel, hcalls, checkAll_eq_ok.mp hrefs, hp⟩
  · rintro ⟨hmodel, hcalls, hrefs, hp⟩
    rw [hpaired hmodel]
    exact matchBindings_eq_ok.mpr ⟨hmodel, hcalls, checkAll_eq_ok.mpr hrefs, hp⟩

/-- A match that can be made can be made with fewer bindings. -/
theorem exists_patternMatch_of_prefix {input p : Plan} {few all : List Binding} (h : few <+: all)
    (hall : patternMatch input (all.map Binding.expr) (all.map Binding.name) = .ok p) :
    ∃ q, patternMatch input (few.map Binding.expr) (few.map Binding.name) = .ok q := by
  obtain ⟨hmodel, hcalls, hrefs, -⟩ := patternMatch_eq_ok.mp hall
  refine ⟨_, patternMatch_eq_ok.mpr ⟨hmodel, fun b hb => hcalls b (h.subset hb), ?_, rfl⟩⟩
  intro r hr
  obtain ⟨e, he, hr⟩ := Expr.mem_refsAll.mp hr
  obtain ⟨b, hb, rfl⟩ := List.mem_map.mp he
  exact hrefs r (Expr.mem_refsAll.mpr ⟨b.expr, List.mem_map_of_mem (h.subset hb), hr⟩)

/-- Extending a match twice is extending it once by all bindings. -/
theorem extendMatch_append {top q : Plan} {first second : List Binding} :
    (∃ p, top.extendMatch first = .ok p ∧ p.extendMatch second = .ok q) ↔
      top.extendMatch (first ++ second) = .ok q := by
  constructor
  · rintro ⟨p, hp, hq⟩
    obtain ⟨hmodel, base, bound, hbase, hp⟩ := extendMatch_eq_ok.mp hp
    obtain rfl := (yields_patternMatch base _).result hp
    obtain ⟨-, base', bound', hbase', hq⟩ := extendMatch_eq_ok.mp hq
    -- The match in between is taken apart into what it was made of.
    cases hbase'
    rw [← Binding.extend_append] at hq
    exact extendMatch_eq_ok.mpr ⟨hmodel, base, bound, hbase, hq⟩
  · intro hq
    obtain ⟨hmodel, base, bound, hbase, hq⟩ := extendMatch_eq_ok.mp hq
    rw [Binding.extend_append] at hq
    obtain ⟨p, hp⟩ := exists_patternMatch_of_prefix (Binding.prefix_extend _ second) hq
    refine ⟨p, extendMatch_eq_ok.mpr ⟨hmodel, base, bound, hbase, hp⟩, ?_⟩
    obtain rfl := (yields_patternMatch base _).result hp
    exact extendMatch_eq_ok.mpr ⟨rfl, base, _, rfl, hq⟩

end Plan

theorem PathOf.bindings_append (first second : List Path) :
    PathOf.bindings (first ++ second) = PathOf.bindings first ++ PathOf.bindings second :=
  List.flatMap_append

/-- Two matches in a row, the first without a condition, step as one. -/
theorem MatchClause.step_append {catalog : Catalog} {source : GraphSource} {top : Option Plan}
    {n m : Nat} {ps qs : List Pattern} {condition : Option Expression} {s t u : Option Span}
    {q : Plan} :
    (∃ p k, MatchClause.step catalog source top n ⟨false, ps, none, s⟩ = .ok (p, k) ∧
      MatchClause.step catalog source (some p) k ⟨false, qs, condition, t⟩ = .ok (q, m)) ↔
      MatchClause.step catalog source top n ⟨false, ps ++ qs, condition, u⟩ = .ok (q, m) := by
  simp only [MatchClause.step_eq_ok, Pattern.toPaths_append, true_and]
  constructor
  · rintro ⟨p, k, ⟨first, input, made, hfirst, hinput, hmade, hp⟩,
      second, input', all, hsecond, hinput', hall, hq⟩
    cases hp
    cases hinput'
    refine ⟨first ++ second, input, all, ?_, hinput, ?_, hq⟩
    · rw [hfirst, ok_bind, hsecond, ok_bind]
    · rw [PathOf.bindings_append]
      exact Plan.extendMatch_append.mp ⟨p, hmade, hall⟩
  · rintro ⟨paths, input, all, hpaths, hinput, hall, hq⟩
    obtain ⟨⟨first, k⟩, hfirst, hpaths⟩ := bind_eq_ok.mp hpaths
    obtain ⟨⟨second, m'⟩, hsecond, hpaths⟩ := bind_eq_ok.mp hpaths
    cases hpaths
    rw [PathOf.bindings_append] at hall
    obtain ⟨made, hmade, hall⟩ := Plan.extendMatch_append.mpr hall
    exact ⟨made, k, ⟨first, input, made, hfirst, hinput, hmade, rfl⟩,
      second, made, all, hsecond, rfl, hall, hq⟩

section Merging

variable (cs ds : List Clause) (ps qs : List Pattern) (condition : Option Expression)
  (s t u : Option Span)

/-- Clauses with two matches in a row. -/
def matchTwice : List Clause :=
  cs ++ [.matching ⟨false, ps, none, s⟩, .matching ⟨false, qs, condition, t⟩] ++ ds

/-- The same clauses with one match for both. -/
def matchOnce : List Clause := cs ++ [.matching ⟨false, ps ++ qs, condition, u⟩] ++ ds

theorem mentionedLabels_matchTwice :
    mentionedLabels (matchTwice cs ds ps qs condition s t) =
      mentionedLabels (matchOnce cs ds ps qs condition u) := by
  simp [mentionedLabels, matchTwice, matchOnce, Clause.patterns]

theorem kindAfter_matchTwice (kind : Option QueryKind) :
    (matchTwice cs ds ps qs condition s t).foldl Clause.kindAfter kind =
      (matchOnce cs ds ps qs condition u).foldl Clause.kindAfter kind := by
  simp only [matchTwice, matchOnce, List.foldl_append, List.foldl_cons, List.foldl_nil]
  cases cs.foldl Clause.kindAfter kind <;> rfl

theorem steps_matchTwice {catalog : Catalog} {source : GraphSource} {home : NamespaceId}
    {index n : Nat} {top : Option Plan} {r : Option Plan × Nat} :
    Clause.steps catalog source home index top n (matchTwice cs ds ps qs condition s t) = .ok r ↔
      Clause.steps catalog source home index top n (matchOnce cs ds ps qs condition u) = .ok r := by
  simp only [matchTwice, matchOnce, Clause.steps_append, bind_eq_ok]
  constructor
  · rintro ⟨⟨last, k⟩, ⟨⟨before, j⟩, hbefore, hmatches⟩, hafter⟩
    obtain ⟨mid, i, hfirst, hmatches⟩ := Clause.steps_cons_eq_ok hmatches
    obtain ⟨last, k, hsecond, hmatches⟩ := Clause.steps_cons_eq_ok hmatches
    cases hmatches
    obtain ⟨p, rfl, hfirst⟩ := Clause.step_matching.mp hfirst
    obtain ⟨q, rfl, hsecond⟩ := Clause.step_matching.mp hsecond
    have honce : Clause.step catalog source home before j
        (.matching ⟨false, ps ++ qs, condition, u⟩) = .ok (some q, k) :=
      Clause.step_matching.mpr ⟨q, rfl, MatchClause.step_append.mp ⟨p, i, hfirst, hsecond⟩⟩
    exact ⟨(some q, k), ⟨(before, j), hbefore, Clause.steps_of_step honce⟩,
      Clause.steps_index hafter _⟩
  · rintro ⟨⟨last, k⟩, ⟨⟨before, j⟩, hbefore, hmatch⟩, hafter⟩
    obtain ⟨last, k, honce, hmatch⟩ := Clause.steps_cons_eq_ok hmatch
    cases hmatch
    obtain ⟨q, rfl, honce⟩ := Clause.step_matching.mp honce
    obtain ⟨p, i, hfirst, hsecond⟩ := MatchClause.step_append.mpr honce
    refine ⟨(some q, k), ⟨(before, j), hbefore, ?_⟩, Clause.steps_index hafter _⟩
    rw [Clause.steps_of_step (Clause.step_matching.mpr ⟨p, rfl, hfirst⟩)]
    exact Clause.steps_of_step (Clause.step_matching.mpr ⟨q, rfl, hsecond⟩)

theorem toPlan_matchTwice {catalog : Catalog} {home : NamespaceId} {allow : Bool}
    {span span' : Option Span} {r : Plan × QueryKind} :
    SingleQuery.toPlan ⟨matchTwice cs ds ps qs condition s t, span⟩ catalog home allow = .ok r ↔
      SingleQuery.toPlan ⟨matchOnce cs ds ps qs condition u, span'⟩ catalog home allow = .ok r := by
  simp only [SingleQuery.toPlan_eq, bind_eq_ok,
    mentionedLabels_matchTwice cs ds ps qs condition s t u,
    kindAfter_matchTwice cs ds ps qs condition s t u, steps_matchTwice cs ds ps qs condition s t u]

end Merging

namespace Compiler

/-- Queries that give the same plans are compiled to the same, whatever the compiler has seen. -/
theorem compile_congr (c : Compiler) {q q' : Query}
    (h : ∀ r, q.toPlan c.catalog c.settings.home c.settings.allowSubstitution = .ok r ↔
      q'.toPlan c.catalog c.settings.home c.settings.allowSubstitution = .ok r) :
    (∀ compiled, (c.compile q).1 = .ok compiled ↔ (c.compile q').1 = .ok compiled) ∧
      (c.compile q).2 = (c.compile q').2 := by
  cases hq : q.toPlan c.catalog c.settings.home c.settings.allowSubstitution with
  | ok r =>
      obtain ⟨root, kind⟩ := r
      rw [compile_of_ok hq, compile_of_ok ((h _).mp hq)]
      exact ⟨fun _ => Iff.rfl, rfl⟩
  | error e =>
      cases hq' : q'.toPlan c.catalog c.settings.home c.settings.allowSubstitution with
      | ok r =>
          rw [(h r).mpr hq'] at hq
          cases hq
      | error e' =>
          rw [compile_of_error hq, compile_of_error hq']
          exact ⟨fun _ => iff_of_false nofun nofun, rfl⟩

/-- **Two matches in a row are one match.** For any compiler, in particular a new one, a query with
two matches in a row, the first without a condition, compiles exactly if the query with one match
for the patterns of both does. The answers are then the same, root and kind, and so is what the
compiler keeps. -/
theorem consecutive_matches_merge (c : Compiler) (cs ds : List Clause) (ps qs : List Pattern)
    (condition : Option Expression) (s t u span span' : Option Span) :
    (∀ compiled,
      (c.compile (.single ⟨cs ++ [.matching ⟨false, ps, none, s⟩,
        .matching ⟨false, qs, condition, t⟩] ++ ds, span⟩)).1 = .ok compiled ↔
      (c.compile (.single ⟨cs ++ [.matching ⟨false, ps ++ qs, condition, u⟩] ++ ds,
        span'⟩)).1 = .ok compiled) ∧
    (c.compile (.single ⟨cs ++ [.matching ⟨false, ps, none, s⟩,
        .matching ⟨false, qs, condition, t⟩] ++ ds, span⟩)).2 =
      (c.compile (.single ⟨cs ++ [.matching ⟨false, ps ++ qs, condition, u⟩] ++ ds, span'⟩)).2 :=
  c.compile_congr fun _ => toPlan_matchTwice cs ds ps qs condition s t u

end Compiler

/-! ## Patterns in the plan -/

/-- What a match binds; other plans bind nothing. -/
def Plan.bindings (p : Plan) : List Binding :=
  match p.op with
  | .bind bindings => bindings
  | _ => []

/-- What is bound already when a match comes next. -/
def Draft.bindings (d : Draft) : List Binding := (d.stack.head?.map Plan.bindings).getD []

/-- The path that a pattern call matches. -/
def Expr.matchedPath? : Expr → Option Path
  | .apply .patternMatch [_, .literal (.path path) _, _] _ => some path
  | _ => none

theorem PathOf.matchedPath?_binding (path : Path) (name : String) :
    (path.binding name).expr.matchedPath? = some path := rfl

theorem Plan.bound_of_matchBase {p base : Plan} {bound : List Binding}
    (h : Drafting.matchBase p = .ok (base, bound)) : bound = p.bindings := by
  unfold Drafting.matchBase at h
  split at h
  · next bindings hop =>
      split at h
      · cases h
        rw [Plan.bindings, hop]
      · cases h
  · next hop =>
      split at h
      · cases h
        rw [Plan.bindings]
        split
        · next bindings hbind => exact (hop bindings hbind).elim
        · rfl
      · cases h

/-- A match takes up what is bound on top of the draft; a scan binds nothing. -/
theorem GraphSource.bindings_inputOr {catalog : Catalog} {source : GraphSource} {top : Option Plan}
    {kind : Option QueryKind} {n : Nat} {input : Plan}
    (h : source.inputOr catalog top = .ok input) :
    input.bindings = (Draft.between catalog source top kind n).bindings := by
  cases top with
  | some p =>
      cases h
      rfl
  | none =>
      cases source with
      | entity graph =>
          obtain rfl := (Plan.yields_scan graph).result h
          rfl
      | substitution home labels =>
          obtain ⟨info, -, -, rfl⟩ := (Plan.yields_substitutionScan catalog home labels).result h
          rfl

/-- The match that a clause makes binds what is bound already and what its paths name first. -/
theorem MatchClause.exists_match {catalog : Catalog} {source : GraphSource} {top : Option Plan}
    {n m : Nat} {c : MatchClause} {p : Plan} (kind : Option QueryKind)
    (h : c.step catalog source top n = .ok (p, m)) :
    ∃ (paths : List Path) (made input : Plan), Pattern.toPaths n c.patterns = .ok (paths, m) ∧
      made.op = .bind (Binding.extend (Draft.between catalog source top kind n).bindings
        (PathOf.bindings paths)) ∧
      made.inputs = [input] ∧ made.IsNodeOf p := by
  obtain ⟨-, paths, input, made, hpaths, hinput, hmade, hp⟩ := MatchClause.step_eq_ok.mp h
  obtain ⟨-, base, bound, hbase, hmade⟩ := Plan.extendMatch_eq_ok.mp hmade
  obtain rfl := (Plan.yields_patternMatch base _).result hmade
  refine ⟨paths, _, base, hpaths, ?_, rfl,
    ((Plan.ReadBy.self.yields_restrictBy c.condition).result hp).isNodeOf⟩
  rw [Plan.bound_of_matchBase hbase, GraphSource.bindings_inputOr hinput]

/-- A name that a path is the first to name is bound by that path. -/
theorem PathOf.binding_mem_extend {bound : List Binding} {before after : List Path} {path : Path}
    {name : String} (hname : name ∈ path.names) (hbound : name ∉ bound.map Binding.name)
    (hbefore : ∀ other ∈ before, name ∉ other.names) :
    path.binding name ∈ Binding.extend bound (PathOf.bindings (before ++ path :: after)) := by
  obtain ⟨first, last, hnames, hfirst⟩ := List.eq_append_cons_of_mem hname
  have hsplit : PathOf.bindings (before ++ path :: after) =
      (PathOf.bindings before ++ first.map path.binding) ++
        path.binding name :: (last.map path.binding ++ PathOf.bindings after) := by
    rw [PathOf.bindings_append]
    simp [PathOf.bindings, hnames]
  rw [hsplit]
  refine Binding.mem_extend hbound ?_
  rw [List.map_append, List.mem_append, PathOf.mem_names_bindings]
  rintro (⟨other, hother, hmem⟩ | hmem)
  · exact hbefore other hother hmem
  · rw [List.map_map] at hmem
    obtain ⟨same, hsame, heq⟩ := List.mem_map.mp hmem
    change same = name at heq
    exact hfirst (heq ▸ hsame)

/-- The `j`-th of the patterns is the first one that names the variable, and the variable is not
bound before. -/
structure Pattern.Introduces (bound : List Binding) (ps : List Pattern) (j : Nat)
    (name : String) : Prop where
  named : ∃ p, ps[j]? = some p ∧ name ∈ p.variables
  unbound : name ∉ bound.map Binding.name
  first : ∀ earlier ∈ ps.take j, name ∉ earlier.variables

theorem Pattern.exists_introduces {bound : List Binding} {ps : List Pattern} {name : String} :
    (∃ j, Pattern.Introduces bound ps j name) ↔
      name ∉ bound.map Binding.name ∧ ∃ p ∈ ps, name ∈ p.variables := by
  constructor
  · rintro ⟨j, ⟨p, hp, hname⟩, hunbound, -⟩
    exact ⟨hunbound, p, List.mem_of_getElem? hp, hname⟩
  · rintro ⟨hunbound, p, hp, hname⟩
    have hsome : (ps.find? (name ∈ ·.variables)).isSome := by
      rw [List.find?_isSome]
      exact ⟨p, hp, by simpa using hname⟩
    obtain ⟨first, hfirst⟩ := Option.isSome_iff_exists.mp hsome
    obtain ⟨hnamed, before, after, rfl, hbefore⟩ := List.find?_eq_some_iff_append.mp hfirst
    refine ⟨before.length, ⟨first, by simp, by simpa using hnamed⟩, hunbound, ?_⟩
    intro earlier hearlier
    rw [List.take_left] at hearlier
    simpa using hbefore earlier hearlier

/-- **What patterns add to the bindings**: one binding for each variable they introduce, by the path
of the pattern that introduces it. -/
theorem Pattern.extend_bindings {ps : List Pattern} {paths : List Path} {n m : Nat}
    (bound : List Binding) (h : Pattern.toPaths n ps = .ok (paths, m)) :
    ∃ new, Binding.extend bound (PathOf.bindings paths) = bound ++ new ∧
      (new.map Binding.name).Nodup ∧
      (∀ name, name ∈ new.map Binding.name ↔ ∃ j, Pattern.Introduces bound ps j name) ∧
      ∀ j p, ps[j]? = some p →
        ∃ path k, p.toPath (n + Pattern.anonymous (ps.take j)) = .ok (path, k) ∧
          p.Describes path ∧
          ∀ name, Pattern.Introduces bound ps j name → path.binding name ∈ new := by
  obtain ⟨new, heq, hnodup, hnames⟩ := Binding.exists_extend_eq bound (PathOf.bindings paths)
  refine ⟨new, heq, hnodup, fun name => ?_, fun j p hp => ?_⟩
  · rw [hnames, PathOf.mem_names_bindings, Pattern.exists_mem_names (Pattern.toPaths_eq_ok h).1,
      Pattern.exists_introduces]
  · obtain ⟨earlier, path, later, k, rfl, hearlier, hpath⟩ := Pattern.toPaths_at hp h
    have hdescribes := (Pattern.toPath_eq_ok hpath).1
    refine ⟨path, k, hpath, hdescribes, ?_⟩
    rintro name ⟨⟨q, hq, hname⟩, hunbound, hfirst⟩
    obtain rfl : p = q := Option.some.inj (hp.symm.trans hq)
    have hmem : path.binding name ∈ Binding.extend bound
        (PathOf.bindings (earlier ++ path :: later)) := by
      refine PathOf.binding_mem_extend (hdescribes.mem_names.mpr hname) hunbound ?_
      intro other hother hmem
      obtain ⟨pattern, hpattern, hmem⟩ :=
        (Pattern.exists_mem_names hearlier).mp ⟨other, hother, hmem⟩
      exact hfirst pattern hpattern hmem
    rw [heq, List.mem_append] at hmem
    exact hmem.resolve_left fun hbound => hunbound (List.mem_map_of_mem hbound)

namespace Compiler

/-- What a clause leaves on top of the draft is kept in the compiled plan. -/
theorem clause_of_compiled {catalog : Catalog} {settings : Settings} {q : SingleQuery}
    {compiled : Compiled} {i : Nat} {c : Clause}
    (h : ((Compiler.new catalog settings).compile (.single q)).1 = .ok compiled)
    (hget : q.clauses[i]? = some c) :
    ∃ source before k after m kindBefore kindAfter,
      q.draftAfter catalog settings.home settings.allowSubstitution i =
        .ok (.between catalog source before kindBefore k) ∧
      q.draftAfter catalog settings.home settings.allowSubstitution (i + 1) =
        .ok (.between catalog source after kindAfter m) ∧
      c.step catalog source settings.home before k = .ok (after, m) ∧
      ∀ p, after = some p → p.KeptIn compiled.root := by
  obtain ⟨root, p, hplan, hp, hroot⟩ := compile_new_eq_ok h
  obtain ⟨source, before, k, after, m, kindBefore, kindAfter, hbefore, hafter, -, hstep, hkept⟩ :=
    SingleQuery.clause_at hplan hget
  refine ⟨source, before, k, after, m, kindBefore, kindAfter, hbefore, hafter, hstep, ?_⟩
  intro top htop
  rw [hroot]
  exact ((hkept top htop).isNodeOf (Plan.isNodeOf_toModel (toModel_of_deliver hp))).tagWith 0

/-- **Patterns that name something new stand in the plan.** A match clause leaves a match on the
draft, which binds what was bound before and every variable of the clause's patterns, and the
compiled plan has that match, perhaps with more bindings. What the clause adds is one binding for
each variable that it introduces and nothing else, by a pattern call for the path of the pattern
that introduces the variable, with all the labels, properties, types and hops of this pattern.

The compiler is one that has served nothing yet, and keeps no plan to answer with instead. -/
theorem new_variables_keep_patterns (catalog : Catalog) (settings : Settings) (q : SingleQuery)
    (compiled : Compiled) (i : Nat) (c : MatchClause)
    (h : ((Compiler.new catalog settings).compile (.single q)).1 = .ok compiled)
    (hget : q.clauses[i]? = some (.matching c)) :
    ∃ (before after : Draft) (top input : Plan) (new more : List Binding),
      q.draftAfter catalog settings.home settings.allowSubstitution i = .ok before ∧
      q.draftAfter catalog settings.home settings.allowSubstitution (i + 1) = .ok after ∧
      after.stack = [top] ∧ top.Holds (.bind (before.bindings ++ new)) [input] ∧
      compiled.root.Holds (.bind (before.bindings ++ new ++ more)) [input] ∧
      (∀ p ∈ c.patterns, ∀ name ∈ p.variables,
        name ∈ (before.bindings ++ new).map Binding.name) ∧
      (new.map Binding.name).Nodup ∧
      (∀ name, name ∈ new.map Binding.name ↔
        ∃ j, Pattern.Introduces before.bindings c.patterns j name) ∧
      ∀ j p, c.patterns[j]? = some p →
        ∃ path k, p.toPath (before.anonymous + Pattern.anonymous (c.patterns.take j)) =
            .ok (path, k) ∧ p.Describes path ∧
          ∀ name, Pattern.Introduces before.bindings c.patterns j name →
            ∃ b ∈ new, b.name = name ∧ b.expr.matchedPath? = some path := by
  obtain ⟨source, before, n, after, m, kindBefore, kindAfter, hbefore, hafter, hstep, hkept⟩ :=
    clause_of_compiled h hget
  obtain ⟨top, htop, hstep⟩ := Clause.step_matching.mp hstep
  cases htop
  obtain ⟨paths, made, input, hpaths, hop, hinputs, hnode⟩ :=
    MatchClause.exists_match kindBefore hstep
  obtain ⟨new, heq, hnodup, hnames, hpatterns⟩ := Pattern.extend_bindings
    (Draft.between catalog source before kindBefore n).bindings hpaths
  rw [heq] at hop
  obtain ⟨more, hmore⟩ := ((Plan.KeptIn.of_isNodeOf hnode).trans (hkept top rfl)).holds_bind hop
  rw [hinputs] at hmore
  have htop : top.Holds made.op made.inputs := made.holds_self.isNodeOf hnode
  rw [hop, hinputs] at htop
  refine ⟨_, _, top, input, new, more, hbefore, hafter, rfl, htop, hmore, ?_, hnodup, hnames, ?_⟩
  · intro p hp name hname
    rw [List.map_append, List.mem_append, hnames, Pattern.exists_introduces]
    exact or_iff_not_imp_left.mpr fun hunbound => ⟨hunbound, p, hp, hname⟩
  · intro j p hp
    obtain ⟨path, k, hpath, hdescribes, hnew⟩ := hpatterns j p hp
    exact ⟨path, k, hpath, hdescribes, fun name hname =>
      ⟨path.binding name, hnew name hname, rfl, path.matchedPath?_binding name⟩⟩

/-- `MATCH (a:Person) MATCH (a)-[:KNOWS]->(b:Person) RETURN b` -/
def acquaintances : SingleQuery where
  clauses := [.matching ⟨false, [.node ⟨some "a", ["Person"], [], none⟩], none, none⟩,
    .matching ⟨false, [.path ⟨none, ⟨some "a", [], [], none⟩,
      [⟨none, ["KNOWS"], .outgoing, [], none, ⟨some "b", ["Person"], [], none⟩, none⟩], none⟩],
      none, none⟩,
    .returning ⟨⟨false, false, [⟨.var "b", none, none⟩], [], none, none⟩, none⟩]
  span := none

/-- The second match extends the first one; its pattern comes in by the variable that is new. -/
theorem acquaintances_keeps_pattern :
    ∃ compiled bindings input path,
      ((Compiler.new .withDefaultGraph .default).compile (.single acquaintances)).1 =
        .ok compiled ∧
      compiled.root.Holds (.bind bindings) [input] ∧
      path.nodes.map NodeOf.labels = [[], ["Person"]] ∧
      ∃ b ∈ bindings, b.name = "b" ∧ b.expr.matchedPath? = some path := by
  obtain ⟨compiled, h⟩ : ∃ compiled, ((Compiler.new .withDefaultGraph .default).compile
      (.single acquaintances)).1 = .ok compiled := exists_compile_of_isOk (by decide +kernel)
  have hbound : (acquaintances.draftAfter .withDefaultGraph ⟨0⟩ true 1).toOption.map
      (fun d => d.bindings.map Binding.name) = some ["a"] := by decide +kernel
  obtain ⟨before, after, top, input, new, more, hbefore, -, -, -, hholds, -, -, -, hpatterns⟩ :=
    new_variables_keep_patterns _ _ acquaintances compiled 1 _ h rfl
  obtain ⟨path, k, hpath, hdescribes, hnew⟩ := hpatterns 0 _ rfl
  have hnames : before.bindings.map Binding.name = ["a"] := by
    change acquaintances.draftAfter .withDefaultGraph ⟨0⟩ true 1 = .ok before at hbefore
    rw [hbefore] at hbound
    exact Option.some.inj hbound
  have hunbound : "b" ∉ before.bindings.map Binding.name := by
    rw [hnames]
    decide
  obtain ⟨b, hb, hname, hmatched⟩ :=
    hnew "b" ⟨⟨_, rfl, by decide⟩, hunbound, List.forall_mem_nil _⟩
  exact ⟨compiled, _, input, path, h, hholds, hdescribes.map_labels,
    b, List.mem_append_left more (List.mem_append_right _ hb), hname, hmatched⟩

/-- `MATCH (n:Person), (n:Admin), (:Ghost) RETURN n` -/
def hauntedOffice : SingleQuery where
  clauses := [.matching ⟨false, [.node ⟨some "n", ["Person"], [], none⟩,
      .node ⟨some "n", ["Admin"], [], none⟩, .node ⟨none, ["Ghost"], [], none⟩], none, none⟩,
    .returning ⟨⟨false, false, [⟨.var "n", none, none⟩], [], none, none⟩, none⟩]
  span := none

/-- A pattern that names no variable, or none that is new, may be missing from the plan: no pattern
call anywhere in it has the path of such a pattern. -/
theorem hauntedOffice_drops_patterns :
    ∃ compiled,
      ((Compiler.new .withDefaultGraph .default).compile (.single hauntedOffice)).1 =
        .ok compiled ∧
      ∀ p ∈ [Pattern.node ⟨some "n", ["Admin"], [], none⟩, .node ⟨none, ["Ghost"], [], none⟩],
        p ∈ hauntedOffice.clauses.flatMap Clause.patterns ∧
        ∀ n m path, p.toPath n = .ok (path, m) →
          ∀ node : Plan, node.IsNodeOf compiled.root →
            ∀ e ∈ node.op.exprs, e.matchedPath? ≠ some path := by
  have hlabels : ((Compiler.new .withDefaultGraph .default).compile
      (.single hauntedOffice)).1.toOption.map (fun compiled => compiled.root.nodes.flatMap
        fun node => node.op.exprs.filterMap fun e =>
          e.matchedPath?.map fun path => path.nodes.map NodeOf.labels) =
      some [[["Person"]]] := by decide +kernel
  cases h : ((Compiler.new .withDefaultGraph .default).compile (.single hauntedOffice)).1 with
  | error e =>
      rw [h] at hlabels
      cases hlabels
  | ok compiled =>
      rw [h] at hlabels
      refine ⟨compiled, rfl, fun p hp => ⟨?_, ?_⟩⟩
      · exact List.mem_cons_of_mem _ hp
      · intro n m path hpath node hnode e he hmatched
        -- The only pattern call is for a path with the label of the first pattern.
        have hmem : path.nodes.map NodeOf.labels ∈ [[["Person"]]] := by
          rw [← Option.some.inj hlabels, List.mem_flatMap]
          refine ⟨node, hnode.mem_nodes, List.mem_filterMap.mpr ⟨e, he, ?_⟩⟩
          rw [hmatched, Option.map_some]
        rw [(Pattern.toPath_eq_ok hpath).1.map_labels, List.mem_singleton] at hmem
        rcases List.mem_pair.mp hp with rfl | rfl
        · revert hmem
          decide
        · revert hmem
          decide

end Compiler

end QueryPlan
