import QueryPlan.Compiler
import QueryPlan.Proofs.Lowering.Steps

/-!
# How compiling ends

The plans that lowering makes are reachable, so bringing them into the model asked for and checking
them cannot fail. What is left are the errors of clauses, and the queries that name a graph and do
nothing with it. Whether finished plans are checked makes no difference to any answer.
-/

namespace QueryPlan

/-! ## Delivery -/

/-- A plan is always brought into the model asked for: the conversion has one input, which is what
a change of model that names no inputs takes. -/
theorem Plan.exists_toModel (p : Plan) (target : Model) (operation : QueryKind) :
    ∃ q, p.toModel target operation = .ok q := by
  unfold Plan.toModel
  split
  · exact ⟨p, rfl⟩
  · simp [Plan.transform, Plan.build, Plan.strangeInput?, Op.isTransform, require]

namespace Compiler

/-- **Delivery cannot fail.** The plan that comes out is the same whether or not it is checked. -/
theorem deliver_eq_toModel (s : Settings) {root : Plan} (kind : QueryKind)
    (h : root.Reachable) : deliver s root kind = root.toModel s.targetModel kind := by
  obtain ⟨p, hp⟩ := root.exists_toModel s.targetModel kind
  have hvalid : p.validate = .ok () := (Plan.Reachable.toModel h hp).wellBuilt.validate
  unfold deliver
  rw [hp, ok_bind]
  split
  · rw [hvalid]
    rfl
  · rfl

theorem exists_deliver (s : Settings) {root : Plan} (kind : QueryKind) (h : root.Reachable) :
    ∃ p, deliver s root kind = .ok p := by
  rw [deliver_eq_toModel s kind h]
  exact root.exists_toModel s.targetModel kind

theorem exists_finish (c : Compiler) {root : Plan} (kind : QueryKind) (h : root.Reachable) :
    ∃ compiled, (c.finish root kind).1 = .ok compiled := by
  obtain ⟨p, hp⟩ := exists_deliver c.settings kind h
  unfold finish
  rw [hp]
  exact ⟨_, rfl⟩

theorem toModel_of_deliver {s : Settings} {root p : Plan} {kind : QueryKind}
    (h : deliver s root kind = .ok p) : root.toModel s.targetModel kind = .ok p := by
  obtain ⟨q, hq, h⟩ := bind_eq_ok.mp h
  rw [hq]
  split at h
  · obtain ⟨_, _, h⟩ := bind_eq_ok.mp h
    exact h
  · exact h

theorem finish_eq_ok {c : Compiler} {root : Plan} {kind : QueryKind} {compiled : Compiled}
    (h : (c.finish root kind).1 = .ok compiled) :
    ∃ p, deliver c.settings root kind = .ok p ∧
      compiled = ⟨(c.interner.intern (p.tagWith c.nextTag)).1, kind⟩ := by
  unfold finish at h
  split at h
  · cases h
  · next p hp =>
      cases h
      exact ⟨p, hp, rfl⟩

theorem compile_eq_ok {c : Compiler} {q : Query} {compiled : Compiled}
    (h : (c.compile q).1 = .ok compiled) :
    ∃ root kind p, q.toPlan c.catalog c.settings.home c.settings.allowSubstitution =
        .ok (root, kind) ∧ deliver c.settings root kind = .ok p ∧
      compiled = ⟨(c.interner.intern (p.tagWith c.nextTag)).1, kind⟩ := by
  unfold compile at h
  split at h
  · cases h
  · next root kind hplan =>
      obtain ⟨p, hp, hcompiled⟩ := finish_eq_ok h
      exact ⟨root, kind, p, hplan, hp, hcompiled⟩

end Compiler

/-- An empty interner gives back what it is given. -/
theorem Interner.intern_empty (capacity : Nat) (p : Plan) : ((empty capacity).intern p).1 = p := by
  unfold intern
  split <;> rfl

/-- A new compiler answers with the plan it delivers, under the first tag. -/
theorem Compiler.compile_new_eq_ok {catalog : Catalog} {settings : Settings} {q : Query}
    {compiled : Compiled} (h : ((Compiler.new catalog settings).compile q).1 = .ok compiled) :
    ∃ root p, q.toPlan catalog settings.home settings.allowSubstitution =
        .ok (root, compiled.kind) ∧ deliver settings root compiled.kind = .ok p ∧
      compiled.root = p.tagWith 0 := by
  obtain ⟨root, kind, p, hplan, hp, rfl⟩ := compile_eq_ok h
  exact ⟨root, p, hplan, hp, Interner.intern_empty settings.cacheCapacity _⟩

/-! ## Lowering -/

theorem Query.reachable_toPlan {q : Query} {catalog : Catalog} {home : NamespaceId} {allow : Bool}
    {root : Plan} {kind : QueryKind} (h : q.toPlan catalog home allow = .ok (root, kind)) :
    root.Reachable := by
  cases q with
  | single q => exact SingleQuery.reachable_toPlan h
  | union _ _ => cases h
  | periodicCommit _ _ => cases h

/-- Clauses that only name a graph leave everything as it is. -/
theorem Clause.steps_of_use {catalog : Catalog} {source : GraphSource} {home : NamespaceId}
    {cs : List Clause} (h : cs.all Clause.isUse = true) (index : Nat) (top : Option Plan)
    (n : Nat) :
    Clause.steps catalog source home index top n cs = .ok (top, n) := by
  induction cs generalizing index with
  | nil => rfl
  | cons c cs ih =>
      obtain ⟨hc, hcs⟩ := Bool.and_eq_true_iff.mp h
      cases c with
      | onGraph _ => exact ih hcs (index + 1)
      | _ => cases hc

namespace SingleQuery

variable {q : SingleQuery} {catalog : Catalog} {home : NamespaceId} {allow : Bool}
  {source : GraphSource}

theorem toPlan_of_use
    (hsource : GraphSource.resolve catalog home allow (mentionedLabels q.clauses) = .ok source)
    (huse : q.clauses.all Clause.isUse = true) :
    q.toPlan catalog home allow = .error (.invalidPlan "query produced no plan") := by
  rw [toPlan_eq, hsource, ok_bind, Clause.steps_of_use huse]
  rfl

/-- A query with a clause that does something gives a plan or fails in one of its clauses. -/
theorem toPlan_of_not_use
    (hsource : GraphSource.resolve catalog home allow (mentionedLabels q.clauses) = .ok source)
    (huse : q.clauses.all Clause.isUse = false) :
    (∃ root kind, q.toPlan catalog home allow = .ok (root, kind)) ∨
      ∃ i c cause, q.clauses[i]? = some c ∧ cause.IsOrdinary ∧
        q.toPlan catalog home allow = .error (.clause i c.keyword cause) := by
  rw [toPlan_eq, hsource, ok_bind]
  cases hsteps : Clause.steps catalog source home 0 none 0 q.clauses with
  | error e =>
      obtain ⟨i, c, cause, hget, rfl, hcause⟩ := Clause.steps_error topReachable_none hsteps
      refine Or.inr ⟨i, c, cause, hget, hcause, ?_⟩
      rw [Nat.zero_add]
      rfl
  | ok r =>
      obtain ⟨-, hsome⟩ := Clause.steps_leaves topReachable_none hsteps
      obtain ⟨last, m⟩ := r
      rw [huse] at hsome
      obtain ⟨p, rfl⟩ := Option.isSome_iff_exists.mp hsome
      exact Or.inl ⟨_, _, rfl⟩

/-- Without a graph to read the query fails before its first clause. -/
theorem toPlan_of_unresolved {e : Error}
    (hsource : GraphSource.resolve catalog home allow (mentionedLabels q.clauses) = .error e) :
    q.toPlan catalog home allow = .error e := by
  rw [toPlan_eq, hsource]
  rfl

end SingleQuery

theorem GraphSource.yields_resolve (catalog : Catalog) (home : NamespaceId) (allow : Bool)
    (labels : List String) : FailsOrdinarily (GraphSource.resolve catalog home allow labels) := by
  unfold GraphSource.resolve
  split
  · exact Yields.ok trivial
  · split
    · exact Yields.ok trivial
    · exact Yields.fail trivial

/-! ## Compiling -/

theorem Error.IsOrdinary.root {e : Error} (h : e.IsOrdinary) (what : String) :
    e.root ≠ .internal what := by
  cases e with
  | clause _ _ _ => exact h.elim
  | internal _ => exact h.elim
  | _ => exact nofun

/-- No fault inside the library shows. -/
theorem Query.toPlan_root_ne {q : Query} {catalog : Catalog} {home : NamespaceId} {allow : Bool}
    {e : Error} (h : q.toPlan catalog home allow = .error e) (what : String) :
    e.root ≠ .internal what := by
  cases q with
  | union _ _ =>
      cases h
      exact nofun
  | periodicCommit _ _ =>
      cases h
      exact nofun
  | single q =>
      change q.toPlan catalog home allow = .error e at h
      cases hsource : GraphSource.resolve catalog home allow (mentionedLabels q.clauses) with
      | error e' =>
          rw [SingleQuery.toPlan_of_unresolved hsource] at h
          cases h
          exact ((GraphSource.yields_resolve _ _ _ _).error hsource).root what
      | ok source =>
          cases huse : q.clauses.all Clause.isUse with
          | true =>
              rw [SingleQuery.toPlan_of_use hsource huse] at h
              cases h
              exact nofun
          | false =>
              rcases SingleQuery.toPlan_of_not_use hsource huse with
                ⟨root, kind, hok⟩ | ⟨i, c, cause, -, hcause, herror⟩
              · rw [hok] at h
                cases h
              · rw [herror] at h
                cases h
                exact hcause.root what

namespace Compiler

theorem compile_of_error {c : Compiler} {q : Query} {e : Error}
    (h : q.toPlan c.catalog c.settings.home c.settings.allowSubstitution = .error e) :
    c.compile q = (.error e, c) := by
  rw [compile, h]

theorem compile_of_ok {c : Compiler} {q : Query} {root : Plan} {kind : QueryKind}
    (h : q.toPlan c.catalog c.settings.home c.settings.allowSubstitution = .ok (root, kind)) :
    c.compile q = c.finish root kind := by
  rw [compile, h]

theorem exists_compile {c : Compiler} {q : Query} {root : Plan} {kind : QueryKind}
    (h : q.toPlan c.catalog c.settings.home c.settings.allowSubstitution = .ok (root, kind)) :
    ∃ compiled, (c.compile q).1 = .ok compiled := by
  rw [compile_of_ok h]
  exact c.exists_finish kind (Query.reachable_toPlan h)

theorem exists_compile_of_isOk {c : Compiler} {q : Query}
    (h : (q.toPlan c.catalog c.settings.home c.settings.allowSubstitution).isOk = true) :
    ∃ compiled, (c.compile q).1 = .ok compiled := by
  cases hplan : q.toPlan c.catalog c.settings.home c.settings.allowSubstitution with
  | ok r => exact exists_compile hplan
  | error e =>
      rw [hplan] at h
      cases h

/-- **How compiling ends.** A query whose graph is known compiles, or fails in one of its clauses
with an error that names the clause, or leaves no plan; the last happens to the queries that only
name graphs. No query shows a fault inside the library, and what lowering makes can be
delivered. -/
theorem compile_fails_as_announced (c : Compiler) :
    (∀ (q : SingleQuery) (source : GraphSource),
      GraphSource.resolve c.catalog c.settings.home c.settings.allowSubstitution
        (mentionedLabels q.clauses) = .ok source →
      ((∃ compiled, (c.compile (.single q)).1 = .ok compiled) ∨
        (∃ i clause cause, q.clauses[i]? = some clause ∧ cause.IsOrdinary ∧
          (c.compile (.single q)).1 = .error (.clause i clause.keyword cause)) ∨
        (c.compile (.single q)).1 = .error (.invalidPlan "query produced no plan")) ∧
      ((c.compile (.single q)).1 = .error (.invalidPlan "query produced no plan") ↔
        ∀ clause ∈ q.clauses, clause.isUse = true)) ∧
    (∀ (q : Query) (e : Error) (what : String),
      (c.compile q).1 = .error e → e.root ≠ .internal what) ∧
    (∀ (q : Query) (root : Plan) (kind : QueryKind),
      q.toPlan c.catalog c.settings.home c.settings.allowSubstitution = .ok (root, kind) →
      (∃ p, root.toModel c.settings.targetModel kind = .ok p ∧ p.validate = .ok ()) ∧
        ∃ compiled, (c.finish root kind).1 = .ok compiled) := by
  refine ⟨?_, ?_, ?_⟩
  · intro q source hsource
    cases huse : q.clauses.all Clause.isUse with
    | true =>
        have h := compile_of_error (q := .single q) (SingleQuery.toPlan_of_use hsource huse)
        rw [h]
        exact ⟨Or.inr (Or.inr rfl), iff_of_true rfl (List.all_eq_true.mp huse)⟩
    | false =>
        have hnot : ¬ ∀ clause ∈ q.clauses, clause.isUse = true := by
          rw [← List.all_eq_true, huse]
          exact nofun
        rcases SingleQuery.toPlan_of_not_use hsource huse with
          ⟨root, kind, hok⟩ | ⟨i, clause, cause, hget, hcause, herror⟩
        · obtain ⟨compiled, hcompiled⟩ := exists_compile (q := .single q) hok
          rw [hcompiled]
          exact ⟨Or.inl ⟨compiled, rfl⟩, iff_of_false nofun hnot⟩
        · rw [compile_of_error (q := .single q) herror]
          exact ⟨Or.inr (Or.inl ⟨i, clause, cause, hget, hcause, rfl⟩), iff_of_false nofun hnot⟩
  · intro q e what h
    cases hplan : q.toPlan c.catalog c.settings.home c.settings.allowSubstitution with
    | ok r =>
        obtain ⟨compiled, hcompiled⟩ := exists_compile hplan
        rw [hcompiled] at h
        cases h
    | error e' =>
        rw [compile_of_error hplan] at h
        cases h
        exact Query.toPlan_root_ne hplan what
  · intro q root kind hplan
    have hreach := Query.reachable_toPlan hplan
    obtain ⟨p, hp⟩ := root.exists_toModel c.settings.targetModel kind
    exact ⟨⟨p, hp, (Plan.Reachable.toModel hreach hp).wellBuilt.validate⟩,
      c.exists_finish kind hreach⟩

/-- A query that names a graph and stops there leaves no plan. -/
theorem compile_use_alone :
    GraphSource.resolve .withDefaultGraph ⟨0⟩ true [] =
        .ok (.entity ⟨⟨1⟩, "graph", ⟨0⟩, .graph, []⟩) ∧
      ((Compiler.new .withDefaultGraph .default).compile
        (.single ⟨[.onGraph ⟨"g", none⟩, .onGraph ⟨"h", none⟩], none⟩)).1 =
      .error (.invalidPlan "query produced no plan") := by
  have hsource : GraphSource.resolve .withDefaultGraph ⟨0⟩ true [] =
      .ok (.entity ⟨⟨1⟩, "graph", ⟨0⟩, .graph, []⟩) := by rfl
  refine ⟨hsource, ?_⟩
  have h := (compile_fails_as_announced (Compiler.new .withDefaultGraph .default)).1
    ⟨[.onGraph ⟨"g", none⟩, .onGraph ⟨"h", none⟩], none⟩ _ hsource
  exact h.2.mpr (by simp [Clause.isUse])

/-! ## Checking -/

/-- The compiler, checking finished plans or not. -/
def withValidation (c : Compiler) (validate : Bool) : Compiler :=
  { c with settings := c.settings.withValidation validate }

/-- Delivering a reachable plan, the compiler does the same whether or not it checks. -/
theorem finish_withValidation (c : Compiler) {root : Plan} (kind : QueryKind) (h : root.Reachable)
    (validate : Bool) : (c.withValidation validate).finish root kind =
      ((c.finish root kind).1, (c.finish root kind).2.withValidation validate) := by
  obtain ⟨p, hp⟩ := root.exists_toModel c.settings.targetModel kind
  have hchecked : deliver (c.settings.withValidation validate) root kind = .ok p :=
    (deliver_eq_toModel _ kind h).trans hp
  have hplain : deliver c.settings root kind = .ok p := (deliver_eq_toModel _ kind h).trans hp
  simp only [finish, withValidation, hchecked, hplain]

theorem compile_withValidation (c : Compiler) (q : Query) (validate : Bool) :
    (c.withValidation validate).compile q =
      ((c.compile q).1, (c.compile q).2.withValidation validate) := by
  cases hplan : q.toPlan c.catalog c.settings.home c.settings.allowSubstitution with
  | error e =>
      rw [compile_of_error hplan]
      exact compile_of_error hplan
  | ok r =>
      obtain ⟨root, kind⟩ := r
      rw [compile_of_ok hplan, ← finish_withValidation c kind (Query.reachable_toPlan hplan)]
      exact compile_of_ok hplan

/-- **Every reachable plan passes the check**: each of its nodes, made again, has the schema, the
model and the fingerprint it has. So compilers that check and compilers that do not give the same
answers and keep the same plans. -/
theorem reachable_plans_revalidate :
    (∀ p : Plan, p.Reachable → p.validate = .ok () ∧
      ∀ n : Plan, n.IsNodeOf p → ∃ again, Plan.rebuild n.op n.inputs n.schema = .ok again ∧
        again.schema = n.schema ∧ again.model = n.model ∧
        again.fingerprint = n.fingerprint) ∧
    (∀ (c : Compiler) (q : Query),
      ((c.withValidation true).compile q).1 = ((c.withValidation false).compile q).1 ∧
      ((c.withValidation true).compile q).2 =
        ((c.withValidation false).compile q).2.withValidation true) := by
  refine ⟨?_, ?_⟩
  · intro p hp
    refine ⟨hp.wellBuilt.validate, ?_⟩
    rintro ⟨tag, op, inputs, schema, model⟩ hn
    refine ⟨_, (hp.wellBuilt.isNodeOf hn).again, rfl, rfl, ?_⟩
    exact (Plan.fingerprint_untag tag op inputs schema model).symm
  · intro c q
    rw [compile_withValidation, compile_withValidation]
    exact ⟨rfl, rfl⟩

/-- A scan that was cut off and then brought into another model. -/
theorem converted_scan_revalidates :
    ∃ scan cut converted : Plan,
      Plan.scan ⟨⟨1⟩, "graph", ⟨0⟩, .graph, []⟩ = .ok scan ∧
      Plan.sort scan [] none (some 1) = .ok cut ∧
      cut.toModel .document .select = .ok converted ∧ scan.IsNodeOf converted ∧
      converted.validate = .ok () ∧
      ∃ again, Plan.rebuild scan.op scan.inputs scan.schema = .ok again ∧
        again.schema = scan.schema ∧ again.model = scan.model ∧
        again.fingerprint = scan.fingerprint := by
  have hmade : ∃ scan cut converted : Plan,
      Plan.scan ⟨⟨1⟩, "graph", ⟨0⟩, .graph, []⟩ = .ok scan ∧
      Plan.sort scan [] none (some 1) = .ok cut ∧
      cut.toModel .document .select = .ok converted ∧ scan.IsNodeOf converted :=
    ⟨_, _, _, rfl, rfl, rfl, .input (.input (.self _) List.mem_cons_self) List.mem_cons_self⟩
  obtain ⟨scan, cut, converted, hscan, hcut, hconverted, hnode⟩ := hmade
  obtain ⟨hvalid, hnodes⟩ := reachable_plans_revalidate.1 converted
    (.toModel (.sort (.scan hscan) hcut) hconverted)
  exact ⟨scan, cut, converted, hscan, hcut, hconverted, hnode, hvalid, hnodes scan hnode⟩

end Compiler

end QueryPlan
