import QueryPlan.Proofs.Lowering.Outcome
import QueryPlan.Proofs.Lowering.Simulation

/-!
# What a step makes

`Clause.Makes` says what the step of a clause can do. It starts from the plan so far or from a
source of rows, puts operators that write nothing on top, and then one write if the clause is one. A
clause that only names a graph does nothing. Every fact about runs of clauses follows from this.
-/

namespace QueryPlan

namespace Clause

/-- Whether a clause only names the graph to use. -/
def isUse : Clause → Bool
  | .onGraph _ => true
  | _ => false

/-- The write that a clause asks for. -/
def write? : Clause → Option Write
  | .creating _ => some .insert
  | .setting _ | .removing _ => some .update
  | .deleting _ => some .delete
  | _ => none

end Clause

/-- Where the step of a clause starts. -/
inductive StartsFrom (catalog : Catalog) (source : GraphSource) : Option Plan → Plan → Prop
  | top (p : Plan) : StartsFrom catalog source (some p) p
  | scan {p : Plan} : source.scan catalog = .ok p → StartsFrom catalog source none p
  | values {v : LiteralRows} {p : Plan} : Plan.values v = .ok p → StartsFrom catalog source none p
  | call {c : ProcedureCall} {p : Plan} : Plan.call c = .ok p → StartsFrom catalog source none p
  /-- A match takes up the match before it. -/
  | belowMatch {top : Option Plan} {p base : Plan} {bindings : List Binding} :
      StartsFrom catalog source top p → p.op = .bind bindings → p.inputs = [base] →
      StartsFrom catalog source top base

/-- Made where the step starts, by operators that write nothing. -/
def ReadsFrom (catalog : Catalog) (source : GraphSource) (top : Option Plan) (p : Plan) : Prop :=
  ∃ base, StartsFrom catalog source top base ∧ base.ReadBy p

/-- What the step of a clause makes of the plan so far. -/
inductive Clause.Makes (catalog : Catalog) (source : GraphSource) (top : Option Plan) (c : Clause) :
    Option Plan → Prop
  | read {p : Plan} : c.write? = none → c.isUse = false → ReadsFrom catalog source top p →
      Clause.Makes catalog source top c (some p)
  | write {input p : Plan} {w : Write} {entity : Entity} {targets : List Binding} :
      c.write? = some w → source.target = .ok entity → ReadsFrom catalog source top input →
      Plan.rebuild (.modify entity w targets) [input] [] = .ok p →
      Clause.Makes catalog source top c (some p)
  | skip : c.isUse = true → Clause.Makes catalog source top c top

/-! ## Steps -/

/-- The plan so far, if there is one, is reachable. -/
def TopReachable (top : Option Plan) : Prop := ∀ p ∈ top, p.Reachable

namespace GraphSource

variable {catalog : Catalog} (source : GraphSource) (top : Option Plan)

theorem yields_scan : FailsOrdinarily (source.scan catalog) := by
  cases source with
  | entity graph => exact (Plan.yields_scan graph).mono fun _ _ => trivial
  | substitution home labels =>
      exact (Plan.yields_substitutionScan catalog home labels).mono fun _ _ => trivial

theorem yields_inputOr : Yields (source.inputOr catalog top) (StartsFrom catalog source top) := by
  cases top with
  | some p => exact Yields.ok (.top p)
  | none => exact source.yields_scan.of_ok fun _ hp => .scan hp

theorem yields_target : FailsOrdinarily source.target := by
  cases source with
  | entity graph => exact Yields.ok trivial
  | substitution home labels => exact Yields.fail trivial

end GraphSource

theorem yields_insertInput (catalog : Catalog) (source : GraphSource) (top : Option Plan)
    (nodes : List (String × Node)) (edges : List BoundEdge) :
    Yields (insertInput top nodes edges) (ReadsFrom catalog source top) := by
  cases top with
  | none =>
      rw [insertInput]
      exact (Plan.yields_values _).of_ok fun p hp => ⟨p, .values hp, .self⟩
  | some q =>
      refine (yields_newElements _ _ _).bind fun columns _ _ => ?_
      exact (Plan.ReadBy.self.yields_projectColumns columns).mono fun p hp => ⟨q, .top q, hp⟩

section Writing

variable {catalog : Catalog} {source : GraphSource} {top : Option Plan} {c : Clause}

theorem Clause.yields_modify {input : Plan} {w : Write} {entity : Entity} (targets : List Binding)
    (hw : c.write? = some w) (htarget : source.target = .ok entity)
    (hinput : ReadsFrom catalog source top input) :
    Yields (Plan.modify entity input w (targets.map Binding.name) (targets.map Binding.expr))
      fun p => c.Makes catalog source top (some p) :=
  (Plan.yields_modify entity input w targets).of_ok fun _ hp => .write hw htarget hinput hp

theorem Clause.yields_insert (nodes : List (String × Node)) (edges : List BoundEdge)
    (hw : c.write? = some .insert) :
    Yields (source.insert top nodes edges) fun p => c.Makes catalog source top (some p) := by
  unfold GraphSource.insert
  split
  · exact Yields.fail trivial
  · refine source.yields_target.bind fun entity htarget _ => ?_
    refine (yields_insertInput catalog source top nodes edges).bind fun input _ hinput => ?_
    exact yields_modify [] hw htarget hinput

theorem Clause.yields_write {w : Write} {queued : List (Option String × Expr)}
    (hw : c.write? = some w) (hqueued : AllNamed queued) :
    Yields (source.write top w queued) fun p => c.Makes catalog source top (some p) := by
  unfold GraphSource.write
  split
  · exact Yields.fail trivial
  · refine source.yields_target.bind fun entity htarget _ => ?_
    cases top with
    | none => exact Yields.fail trivial
    | some q =>
        refine (yields_targetsOf hqueued).bind fun targets _ _ => ?_
        exact yields_modify targets hw htarget ⟨q, .top q, .self⟩

end Writing

namespace Plan

variable {base p : Plan}

/-- A match reads one plan. -/
theorem Reachable.bind_inputs {bindings : List Binding} (h : Reachable p)
    (hop : p.op = .bind bindings) : ∃ base, p.inputs = [base] := by
  have hagain := h.wellBuilt.again
  rw [hop] at hagain
  match hinputs : p.inputs with
  | [base] => exact ⟨base, rfl⟩
  | [] => simp [hinputs, Plan.rebuild] at hagain
  | _ :: _ :: _ => simp [hinputs, Plan.rebuild] at hagain

/-- What a match is put on: the plan itself, or what the match on top of it reads. -/
theorem Reachable.yields_matchBase (h : Reachable p) :
    Yields (Drafting.matchBase p) fun r =>
      r.1 = p ∨ ∃ bindings, p.op = .bind bindings ∧ p.inputs = [r.1] := by
  unfold Drafting.matchBase
  split
  · next bindings hop =>
      obtain ⟨base, hbase⟩ := h.bind_inputs hop
      simp only [hbase]
      exact Yields.ok (Or.inr ⟨bindings, hop, rfl⟩)
  · split
    · exact Yields.ok (Or.inl rfl)
    · exact Yields.fail trivial

theorem Reachable.yields_extendMatch {catalog : Catalog} {source : GraphSource}
    {top : Option Plan} (h : Reachable p) (hp : StartsFrom catalog source top p)
    (calls : List Binding) : Yields (p.extendMatch calls) (ReadsFrom catalog source top) := by
  refine (yields_require (by trivial)).bind fun _ _ _ => ?_
  refine h.yields_matchBase.bind fun r _ hr => ?_
  refine (ReadBy.self.yields_patternMatch _).mono fun q hq => ⟨r.1, ?_, hq⟩
  rcases hr with hself | ⟨bindings, hop, hinputs⟩
  · rw [hself]
    exact hp
  · exact .belowMatch hp hop hinputs

/-- What filtering by a condition makes of a plan. -/
inductive RestrictedBy (p : Plan) : Option Expression → Plan → Prop
  | none : RestrictedBy p none p
  | filtered {condition : Expression} {predicate : Expr} :
      condition.toExpr p.schema = .ok predicate →
      RestrictedBy p (some condition) ⟨none, .filter predicate, [p], p.schema, p.model⟩
  /-- Over the bare graph the condition becomes the only column. -/
  | computed {condition : Expression} {predicate : Expr} {columns : List Column} :
      p.schema.isSingle .graph = true → condition.toExpr p.schema = .ok predicate →
      columns = [⟨some (exprName 0), predicate⟩] →
      RestrictedBy p (some condition) ⟨none, .filter (.ref 0 predicate.ty),
        [⟨none, .project columns, [p], Column.fields columns, p.model⟩], Column.fields columns,
        p.model⟩

theorem restrictedBy_of_restrictBy {q : Plan} {condition : Option Expression}
    (h : p.restrictBy condition = .ok q) : p.RestrictedBy condition q := by
  cases condition with
  | none =>
      cases h
      exact .none
  | some condition =>
      obtain ⟨predicate, hpredicate, h⟩ := bind_eq_ok.mp h
      unfold restrict at h
      split at h
      · next hbare =>
          obtain ⟨project, hproject, h⟩ := bind_eq_ok.mp h
          obtain rfl := (yields_projectColumns _ _).result hproject
          obtain rfl := (yields_filter _ _).result h
          exact .computed hbare hpredicate rfl
      · obtain rfl := (yields_filter _ _).result h
        exact .filtered hpredicate

theorem ReadBy.yields_restrict (h : base.ReadBy p) (predicate : Expr) :
    Yields (p.restrict predicate) base.ReadBy := by
  unfold restrict
  split
  · exact (h.yields_projectColumns _).bind fun _ _ hproject => hproject.yields_filter _
  · exact h.yields_filter predicate

theorem ReadBy.yields_restrictBy (h : base.ReadBy p) (condition : Option Expression) :
    Yields (p.restrictBy condition) base.ReadBy := by
  cases condition with
  | none => exact Yields.ok h
  | some condition =>
      refine (Expression.yields_toExpr _ _).bind fun predicate _ _ => ?_
      exact h.yields_restrict predicate

end Plan

theorem Expr.yields_asList (e : Expr) : FailsOrdinarily e.asList := by
  unfold Expr.asList
  split
  · exact Yields.ok trivial
  · exact Expr.yields_call _ _

theorem ReadsFrom.yields_restrictBy {catalog : Catalog} {source : GraphSource} {top : Option Plan}
    {p : Plan} (h : ReadsFrom catalog source top p) (condition : Option Expression) :
    Yields (p.restrictBy condition) (ReadsFrom catalog source top) := by
  obtain ⟨base, hbase, hread⟩ := h
  exact (hread.yields_restrictBy condition).mono fun q hq => ⟨base, hbase, hq⟩

/-- What a step starts from is reachable. -/
theorem StartsFrom.reachable {catalog : Catalog} {source : GraphSource} {top : Option Plan}
    {p : Plan} (h : StartsFrom catalog source top p) (htop : TopReachable top) : p.Reachable := by
  induction h with
  | top p => exact htop p rfl
  | scan hp =>
      cases source with
      | entity graph => exact .scan hp
      | substitution home labels => exact .substitutionScan hp
  | values hp => exact .values hp
  | call hp => exact .call hp
  | belowMatch _ _ hinputs ih => exact (ih htop).inputs _ (by simp [hinputs])

theorem ReadsFrom.reachable {catalog : Catalog} {source : GraphSource} {top : Option Plan}
    {p : Plan} (h : ReadsFrom catalog source top p) (htop : TopReachable top) : p.Reachable := by
  obtain ⟨base, hbase, hread⟩ := h
  exact hread.reachable (hbase.reachable htop)

section Clauses

variable (catalog : Catalog) (source : GraphSource) (top : Option Plan)

theorem UnwindClause.yields_step (c : UnwindClause) :
    Yields (c.step top) (ReadsFrom catalog source top) := by
  cases top with
  | none =>
      dsimp only [UnwindClause.step, UnwindClause.standalone]
      split
      · exact Yields.fail trivial
      · refine (Plan.yields_values _).bind fun rows hrows _ => ?_
        exact (Plan.ReadBy.self.yields_unwind _ _).mono fun p hp => ⟨rows, .values hrows, hp⟩
  | some q =>
      refine Yields.mono (Q := q.ReadBy) ?_ fun p hp => ⟨q, .top q, hp⟩
      refine (Expression.yields_toExpr _ _).bind fun e _ _ => ?_
      refine e.yields_asList.bind fun e _ _ => ?_
      split
      · exact Plan.ReadBy.self.yields_unwind _ _
      · refine (Plan.ReadBy.self.yields_projectColumns _).bind fun _ _ hproject => ?_
        exact hproject.yields_unwind _ _

theorem CallClause.yields_step (home : NamespaceId) (c : CallClause) :
    Yields (c.step home top) (ReadsFrom catalog source top) := by
  cases top with
  | none =>
      refine (Expression.yields_toExprs _ _).bind fun _ _ _ => ?_
      exact (Plan.yields_call _).of_ok fun p hp => ⟨p, .call hp, .self⟩
  | some q => exact Yields.fail trivial

theorem MatchClause.yields_step (h : TopReachable top) (n : Nat) (c : MatchClause) :
    Yields (c.step catalog source top n) fun r => ReadsFrom catalog source top r.1 := by
  refine (yields_require (by trivial)).bind fun _ _ _ => ?_
  refine (yields_patternCalls _ _ _).bind fun calls _ _ => ?_
  refine (source.yields_inputOr top).bind fun input _ hinput => ?_
  refine ((hinput.reachable h).yields_extendMatch hinput _).bind fun p _ hp => ?_
  exact (hp.yields_restrictBy _).bind fun q _ hq => Yields.ok hq

variable {top}

/-- **What a step makes.** Over a reachable plan a clause makes what it says or fails with an
ordinary error. -/
theorem Clause.yields_step (home : NamespaceId) (h : TopReachable top) (n : Nat) (c : Clause) :
    Yields (c.step catalog source home top n) fun r => c.Makes catalog source top r.1 := by
  cases c with
  | matching m =>
      refine (m.yields_step catalog source top h n).bind fun r _ hr => ?_
      exact Yields.ok (.read rfl rfl hr)
  | passing w =>
      refine (source.yields_inputOr top).bind fun input _ hinput => ?_
      refine (w.projection.yields_toPlan .self).bind fun p _ hp => ?_
      refine (hp.yields_restrictBy w.condition).bind fun q _ hq => ?_
      exact Yields.ok (.read rfl rfl ⟨input, hinput, hq⟩)
  | returning r =>
      refine (source.yields_inputOr top).bind fun input _ hinput => ?_
      refine (r.projection.yields_toPlan .self).bind fun p _ hp => ?_
      exact Yields.ok (.read rfl rfl ⟨input, hinput, hp⟩)
  | creating create =>
      refine Yields.bind (Q := fun r => Makes catalog source top (.creating create) (some r.1)) ?_
        fun ⟨p, m⟩ _ hp => Yields.ok hp
      refine (yields_createPatterns _ _ _).bind fun created _ _ => ?_
      exact (yields_insert _ _ rfl).bind fun p _ hp => Yields.ok hp
  | setting s =>
      refine (yields_queueSets s.items allNamed_nil).bind fun queued _ hnamed => ?_
      exact (yields_write rfl hnamed).bind fun p _ hp => Yields.ok hp
  | removing r =>
      refine (yields_queueRemoves r.items allNamed_nil).bind fun queued _ hnamed => ?_
      exact (yields_write rfl hnamed).bind fun p _ hp => Yields.ok hp
  | deleting delete =>
      refine (yields_queueDeletes delete.vars allNamed_nil).bind fun queued _ hnamed => ?_
      exact (yields_write rfl hnamed).bind fun p _ hp => Yields.ok hp
  | unwinding u =>
      refine (u.yields_step catalog source top).bind fun p _ hp => ?_
      exact Yields.ok (.read rfl rfl hp)
  | calling call =>
      refine (call.yields_step catalog source top home).bind fun p _ hp => ?_
      exact Yields.ok (.read rfl rfl hp)
  | onGraph _ => exact Yields.ok (.skip rfl)
  | merging _ | repeating _ _ _ _ | loading _ => exact Yields.fail trivial

end Clauses

/-! ## What follows from what a step makes -/

namespace Clause.Makes

variable {catalog : Catalog} {source : GraphSource} {top r : Option Plan} {c : Clause}

theorem reachable (h : c.Makes catalog source top r) (htop : TopReachable top) :
    TopReachable r := by
  intro p hp
  cases h with
  | read _ _ hread =>
      cases hp
      exact hread.reachable htop
  | write _ _ hread hnode =>
      cases hp
      exact (hread.reachable htop).rebuild hnode
  | skip _ => exact htop p hp

theorem isSome_eq (h : c.Makes catalog source top r) : r.isSome = (top.isSome || !c.isUse) := by
  cases h with
  | read _ huse _ => simp [huse]
  | write hw _ _ _ =>
      have huse : c.isUse = false := by
        cases c with
        | onGraph _ => cases hw
        | _ => rfl
      simp [huse]
  | skip huse => simp [huse]

end Clause.Makes

/-! ## Runs of clauses -/

namespace Clause

variable {catalog : Catalog} {source : GraphSource} {home : NamespaceId} {index n : Nat}
  {top : Option Plan} {c : Clause} {cs : List Clause} {r : Option Plan × Nat}

/-- A run over clauses is a step and a run over the rest. -/
theorem steps_cons_eq_ok
    (h : Clause.steps catalog source home index top n (c :: cs) = .ok r) :
    ∃ mid m, c.step catalog source home top n = .ok (mid, m) ∧
      Clause.steps catalog source home (index + 1) mid m cs = .ok r := by
  unfold Clause.steps at h
  split at h
  · next mid m hstep => exact ⟨mid, m, hstep, h⟩
  · cases h

/-- What a run leaves is reachable, and there is something unless all clauses only name graphs. -/
theorem steps_leaves (htop : TopReachable top)
    (h : Clause.steps catalog source home index top n cs = .ok r) :
    TopReachable r.1 ∧ r.1.isSome = (top.isSome || !cs.all isUse) := by
  induction cs generalizing index top n with
  | nil =>
      cases h
      exact ⟨htop, by simp⟩
  | cons c cs ih =>
      obtain ⟨mid, m, hstep, h⟩ := steps_cons_eq_ok h
      have hmakes := (c.yields_step catalog source home htop n).result hstep
      obtain ⟨hlast, hsome⟩ := ih (hmakes.reachable htop) h
      refine ⟨hlast, ?_⟩
      rw [hsome, hmakes.isSome_eq, List.all_cons, Bool.not_and, Bool.or_assoc]

end Clause

theorem Error.IsOrdinary.atClause {e : Error} (h : e.IsOrdinary) (i : Nat) (keyword : String) :
    e.atClause i keyword = .clause i keyword e := by
  cases e with
  | clause _ _ _ => exact h.elim
  | _ => rfl

/-- **Every failure is that of one clause**, whose position and keyword it names. -/
theorem Clause.steps_error {catalog : Catalog} {source : GraphSource} {home : NamespaceId}
    {index n : Nat} {top : Option Plan} {cs : List Clause} {e : Error} (htop : TopReachable top)
    (h : Clause.steps catalog source home index top n cs = .error e) :
    ∃ i c cause, cs[i]? = some c ∧ e = .clause (index + i) c.keyword cause ∧
      cause.IsOrdinary := by
  induction cs generalizing index top n with
  | nil => cases h
  | cons c cs ih =>
      unfold Clause.steps at h
      split at h
      · next mid m hstep =>
          have hmakes := (c.yields_step catalog source home htop n).result hstep
          obtain ⟨i, d, cause, hget, he, hcause⟩ := ih (hmakes.reachable htop) h
          refine ⟨i + 1, d, cause, hget, ?_, hcause⟩
          rw [he, Nat.add_assoc, Nat.add_comm 1 i]
      · next cause hstep =>
          have hcause := (c.yields_step catalog source home htop n).error hstep
          cases h
          exact ⟨0, c, cause, rfl, hcause.atClause index c.keyword, hcause⟩

theorem topReachable_none : TopReachable none := nofun

/-- A query that gives a plan leaves it at the end of a run over its clauses. -/
theorem SingleQuery.toPlan_eq_ok {q : SingleQuery} {catalog : Catalog} {home : NamespaceId}
    {allow : Bool} {root : Plan} {kind : QueryKind}
    (h : q.toPlan catalog home allow = .ok (root, kind)) :
    ∃ source n,
      GraphSource.resolve catalog home allow (mentionedLabels q.clauses) = .ok source ∧
      Clause.steps catalog source home 0 none 0 q.clauses = .ok (some root, n) ∧
      kind = (q.clauses.foldl Clause.kindAfter none).getD .select := by
  rw [SingleQuery.toPlan_eq] at h
  obtain ⟨source, hsource, h⟩ := bind_eq_ok.mp h
  obtain ⟨⟨last, n⟩, hsteps, h⟩ := bind_eq_ok.mp h
  cases last with
  | none => cases h
  | some p =>
      cases h
      exact ⟨source, n, hsource, hsteps, rfl⟩

theorem SingleQuery.reachable_toPlan {q : SingleQuery} {catalog : Catalog} {home : NamespaceId}
    {allow : Bool} {root : Plan} {kind : QueryKind}
    (h : q.toPlan catalog home allow = .ok (root, kind)) : root.Reachable := by
  obtain ⟨source, n, -, hsteps, -⟩ := SingleQuery.toPlan_eq_ok h
  exact (Clause.steps_leaves topReachable_none hsteps).1 root rfl

end QueryPlan
